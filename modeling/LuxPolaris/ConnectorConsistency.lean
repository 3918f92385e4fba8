import LuxPolaris.ConnectorInvariant

/-!
# Runs of the connector

The closing of the connection, the functors and the loop's own steps keep the
invariant, so in every run that uses the client as its connector is made for
the state and the channel agree and no assertion fails.
-/

set_option autoImplicit false

namespace Lux.Polaris.TCPClient
open Outcome

section Closing

def closed (c : TCPClient) (conn : ℕ) : TCPClient :=
  { c with openConnections := c.openConnections.erase conn, connection := none }.queueInLoop
    (.connectDestroyed conn)

theorem handleClose_eq {c : TCPClient} {conn : ℕ} (h : c.connection = some conn)
    (k : ConnectResult) : c.handleClose conn k =
      if (c.retry_ && c.connect_) = true then (c.closed conn).restart k
      else .ok (c.closed conn) := by
  rw [handleClose, removeConnection, assertThat_of (by exact h), ok_bind]
  rfl

theorem closed_inv {c : TCPClient} (hi : c.Inv) {conn : ℕ} (h : c.connection = some conn)
    (hn : c.connector.channel = none) : (c.closed conn).Inv := by
  have hopen : c.openConnections.erase conn = [] := by simp [hi.opened, h]
  have hgone : Inv { c with
      openConnections := c.openConnections.erase conn, connection := none } := {
    hi with
    reset := fun h => absurd h (not_resetting hn), connected := fun h => absurd rfl h
    opened := hopen, settled := fun _ _ h => (nomatch h), reset_next := fun _ h => absurd rfl h
    conn_lt := fun conn' h => hi.conn_lt conn' (h.imp_left List.mem_of_mem_erase) }
  exact queued_inv hgone nofun nofun nofun

theorem handleClose_inv {c : TCPClient} (hi : c.Inv) {conn : ℕ} (ho : conn ∈ c.openConnections)
    (hn : c.connector.channel = none) (k : ConnectResult) :
    ∃ c', c.handleClose conn k = .ok c' ∧ c'.Inv := by
  have hconn : c.connection = some conn := by
    rw [hi.opened] at ho
    simpa using ho
  have hk := hi.connected (by simp [hconn])
  have ht : c.retryTimers = [] := by
    by_contra h
    simp [(hi.timer h).1] at hk
  have hclosed := closed_inv hi hconn hn
  have hs : ClientFunctor.startInLoop ∉ (c.closed conn).queue := by
    intro h
    have hd := (hclosed.start h).1
    exact nomatch hk.symm.trans hd
  rw [handleClose_eq hconn]
  split_ifs
  · -- what `restart` sets before `startInLoop`
    have hrestart : Inv { c.closed conn with connector := { (c.closed conn).connector with
        state := .kDisconnected, retryDelayMs := kInitRetryDelayMs, connect_ := true } } := {
      hclosed with
      connecting := ⟨nofun, fun h => absurd h (not_registered hn)⟩
      start := fun h => absurd h hs
      timer := fun h => absurd ht h
      connected := fun h => absurd rfl h
      active := fun h => nomatch hk.symm.trans (hi.active h).1 }
    exact startInLoop_inv hrestart rfl k (fun _ => ⟨fun _ => hn, ht, hs⟩)
  · exact ⟨_, rfl, hclosed⟩

end Closing

section Functors

theorem resetChannel_inv {c : TCPClient} (hi : c.Inv) {fs : List ClientFunctor}
    (hf : c.functors = .resetChannel::fs) :
    ∃ c', resetChannel { c with functors := fs } = .ok c' ∧ c'.Inv := by
  have hq : c.queue = .resetChannel::(fs ++ c.pendingFunctors) := by simp [queue, hf]
  have hr : c.Resetting := by
    by_contra h
    exact hi.no_reset h (by simp [hq])
  obtain ⟨channel, hc, hnew⟩ := hr
  have hadded : channel.addedToLoop = false := by
    rcases hi.channel channel hc with h | ⟨-, h⟩
    · cases hnew.symm.trans h
    · exact h
  have hnk : c.connector.state ≠ .kConnecting := by
    intro hk
    obtain ⟨channel', hc', hne⟩ := hi.connecting.mp hk
    cases hc.symm.trans hc'
    exact hne hnew
  have hlast : ClientFunctor.resetChannel ∉ fs ++ c.pendingFunctors := by
    obtain ⟨ahead, behind, heq, ha, hb, -⟩ := hi.reset ⟨channel, hc, hnew⟩
    cases ahead with
    | nil =>
      rw [hq] at heq
      rw [(List.cons.inj heq).2]
      exact hb
    | cons g ahead =>
      rw [hq] at heq
      exact absurd ((List.cons.inj heq).1 ▸ List.mem_cons_self) ha
  have hmem : ∀ f, f ∈ fs ++ c.pendingFunctors → f ∈ c.queue := by
    intro f h
    rw [hq]
    exact List.mem_cons_of_mem _ h
  refine ⟨{ c with functors := fs, connector := { c.connector with channel := none } }, ?_, ?_⟩
  · simp only [resetChannel, hc, assertThat_of hadded, assertThat_of hnew, ok_bind]
    rfl
  refine {
    hi with
    connecting := ⟨fun h => absurd h hnk, fun h => absurd h (not_registered rfl)⟩
    channel := by simp, reset := fun h => absurd h (not_resetting rfl), no_reset := fun _ => hlast
    start := ?_, conn_lt := ?_, settled := fun _ _ _ => rfl, swapped := ?_
    reset_next := fun _ _ h => absurd h (not_resetting rfl) }
  · intro h
    obtain ⟨h₁, h₂, h₃⟩ := hi.start (hmem _ h)
    rw [hq] at h₃
    simp only [List.count_cons, beq_iff_eq, reduceCtorEq, ↓reduceIte] at h₃
    exact ⟨h₁, h₂, h₃⟩
  · exact fun conn h => hi.conn_lt conn (h.imp_right (Or.imp_right (hmem _)))
  · intro h
    rw [hi.swapped h] at hf
    cases hf

theorem no_channel {c : TCPClient} (hi : c.Inv) (hk : c.connector.state ≠ .kConnecting)
    (hr : ¬c.Resetting) : c.connector.channel = none := by
  cases hc : c.connector.channel with
  | none => rfl
  | some channel =>
    by_cases hnew : channel.index = .kNew
    · exact absurd ⟨channel, hc, hnew⟩ hr
    · exact absurd (hi.connecting.mpr ⟨channel, hc, hnew⟩) hk

theorem no_channel_of_next {c : TCPClient} (hi : c.Inv) (hk : c.connector.state ≠ .kConnecting)
    {f : ClientFunctor} {fs : List ClientFunctor} (hq : c.queue = f::fs)
    (hf : f = .startInLoop ∨ ∃ conn ∈ c.openConnections, f = .forceCloseInLoop conn) :
    c.connector.channel = none := by
  refine no_channel hi hk (fun hr => ?_)
  obtain ⟨ahead, behind, heq, -, -, hst, ho⟩ := hi.reset hr
  cases ahead with
  | nil =>
    have hreset : f = .resetChannel := (List.cons.inj (hq.symm.trans heq)).1
    rcases hf with rfl | ⟨conn, -, rfl⟩
    · cases hreset
    · cases hreset
  | cons g ahead =>
    have hg : f = g := (List.cons.inj (hq.symm.trans heq)).1
    rcases hf with rfl | ⟨conn, hconn, rfl⟩
    · exact hst (hg ▸ List.mem_cons_self)
    · exact ho conn hconn (hg ▸ List.mem_cons_self)

theorem runFunctor_inv {c : TCPClient} (hi : c.Inv) {f : ClientFunctor} {fs : List ClientFunctor}
    (hf : c.functors = f::fs) (k : ConnectResult) :
    ∃ c', runFunctor { c with functors := fs } k f = .ok c' ∧ c'.Inv := by
  have hq : c.queue = f::(fs ++ c.pendingFunctors) := by simp [queue, hf]
  have hpopped : f ≠ .resetChannel → Inv { c with functors := fs } := popped_inv hi hf
  cases f with
  | resetChannel => exact resetChannel_inv hi hf
  | stopInLoop =>
    refine stopInLoop_inv (hpopped (by simp)) ?_
    by_contra h
    simp [hi.swapped (by simpa using h)] at hf
  | connectDestroyed conn => exact ⟨_, rfl, hpopped (by simp)⟩
  | startInLoop =>
    obtain ⟨hd, ht, hone⟩ := hi.start (by simp [hq])
    have hn := no_channel_of_next hi (by simp [hd]) hq (Or.inl rfl)
    refine startInLoop_inv (hpopped (by simp)) hd k (fun _ => ⟨fun _ => hn, ht, ?_⟩)
    rw [hq, List.count_cons_self, Nat.add_eq_right] at hone
    exact List.count_eq_zero.mp hone
  | forceCloseInLoop conn =>
    simp only [runFunctor]
    split_ifs with ho
    · have hconn : c.connection ≠ none := by
        intro h
        rw [hi.opened, h] at ho
        cases ho
      have hk := hi.connected hconn
      have hn := no_channel_of_next hi (by simp [hk]) hq (Or.inr ⟨conn, ho, rfl⟩)
      exact handleClose_inv (hpopped (by simp)) ho hn k
    · exact ⟨_, rfl, hpopped (by simp)⟩

end Functors

section Steps

theorem queueStart_inv {c : TCPClient} (hi : c.Inv) (hidle : c.Idle) :
    (c.queueInLoop .startInLoop).Inv := by
  obtain ⟨hd, hnone, ht⟩ := hidle
  have hq : (c.queueInLoop .startInLoop).queue = c.queue ++ [.startInLoop] := by
    simp [queue, queueInLoop]
  refine { hi with reset := ?_, no_reset := ?_, start := ?_, conn_lt := ?_ }
  · intro h
    obtain ⟨ahead, behind, heq, ha, hb, hst, ho⟩ := hi.reset h
    refine ⟨ahead, behind ++ [.startInLoop], ?_, ha, ?_, hst, ho⟩
    · rw [hq, heq, List.append_assoc, List.cons_append]
    · simp [hb]
  · intro h
    rw [hq]
    simp [hi.no_reset h]
  · intro _
    refine ⟨hd, ht, ?_⟩
    rw [hq, List.count_append, List.count_eq_zero.mpr hnone]
    rfl
  · intro conn h
    refine hi.conn_lt conn (h.imp_right (Or.imp_right fun hm => ?_))
    rw [hq, List.mem_append] at hm
    exact hm.resolve_right (by simp)

theorem connect_inv {c : TCPClient} (hi : c.Inv) {inLoopThread : Bool} {k : ConnectResult}
    (hu : c.Used (.connect inLoopThread k)) :
    ∃ c', c.connect inLoopThread k = .ok c' ∧ c'.Inv := by
  have hset : Inv { c with connect_ := true, connector := { c.connector with connect_ := true } } :=
    { hi with }
  obtain ⟨hd, hnone, ht⟩ := hu.1
  cases inLoopThread with
  | true => exact startInLoop_inv hset hd k (fun _ => ⟨hu.2 rfl, ht, hnone⟩)
  | false => exact ⟨_, rfl, queueStart_inv hset ⟨hd, hnone, ht⟩⟩

theorem poll_inv {c : TCPClient} (hi : c.Inv) {ready : Bool} {conns : List ℕ}
    (he : c.Enabled (.poll ready conns)) :
    Inv { c with inEvents := true, channelActive := ready, activeConnections := conns } := by
  obtain ⟨hout, hempty, hready, hopen⟩ := he
  refine {
    hi with
    conn_lt := ?_, active := ?_, settled := ?_, swapped := fun _ => hempty, reset_next := nofun }
  · intro conn h
    rcases h with h | h | h
    · exact hi.conn_lt conn (Or.inl h)
    · exact hi.conn_lt conn (Or.inl (hopen conn h))
    · exact hi.conn_lt conn (Or.inr (Or.inr h))
  · intro h
    refine ⟨hi.connecting.mpr ?_, rfl⟩
    have hany := hready h
    cases hc : c.connector.channel with
    | none => simp [hc] at hany
    | some channel =>
      have hadded : channel.index = .kAdded := by simpa [hc] using hany
      exact ⟨channel, hc, by simp [hadded]⟩
  · intro conn _ h
    have hconn : c.connection ≠ none := fun hn => nomatch hn.symm.trans h
    refine no_channel (c := c) hi (by simp [hi.connected hconn]) (fun hr => ?_)
    have hm := hi.reset_next hout hconn hr
    rw [hempty] at hm
    exact absurd hm List.not_mem_nil

theorem swap_inv {c : TCPClient} (hi : c.Inv) (he : c.inEvents = true) :
    Inv { c with
      inEvents := false, channelActive := false, activeConnections := []
      functors := c.pendingFunctors, pendingFunctors := [] } := by
  have hq : queue { c with
      inEvents := false, channelActive := false, activeConnections := []
      functors := c.pendingFunctors, pendingFunctors := [] } = c.queue := by
    simp [queue, hi.swapped he]
  refine {
    hi with
    reset := ?_, no_reset := ?_, start := ?_, conn_lt := ?_, active := by simp, settled := by simp
    swapped := by simp, reset_next := ?_ }
  · intro h
    obtain ⟨ahead, behind, heq, hrest⟩ := hi.reset h
    exact ⟨ahead, behind, hq.trans heq, hrest⟩
  · intro h
    rw [hq]
    exact hi.no_reset h
  · intro h
    rw [hq] at h ⊢
    exact hi.start h
  · intro conn h
    rw [hq] at h
    exact hi.conn_lt conn (h.imp_right (fun h => Or.inr (h.resolve_left List.not_mem_nil)))
  · intro _ _ h
    obtain ⟨ahead, behind, heq, -⟩ := hi.reset h
    have hm : ClientFunctor.resetChannel ∈ c.queue := by simp [heq]
    rwa [queue, hi.swapped he] at hm

theorem retryTimer_inv {c : TCPClient} (hi : c.Inv) {i : ℕ} {k : ConnectResult}
    (he : c.Enabled (.retryTimer i k)) (hu : c.Used (.retryTimer i k)) :
    ∃ c', startInLoop { c with retryTimers := c.retryTimers.eraseIdx i } k = .ok c' ∧ c'.Inv := by
  have hne : c.retryTimers ≠ [] := List.ne_nil_of_length_pos (Nat.zero_lt_of_lt he.2)
  obtain ⟨hd, hone⟩ := hi.timer hne
  have hnil : c.retryTimers.eraseIdx i = [] := by
    rw [← List.length_eq_zero_iff, List.length_eraseIdx_of_lt he.2, hone]
  have hnone : ClientFunctor.startInLoop ∉ c.queue := fun h => hne (hi.start h).2.1
  have hfired : Inv { c with retryTimers := c.retryTimers.eraseIdx i } :=
    { hi with start := fun h => absurd h hnone, timer := fun h => absurd hnil h }
  exact startInLoop_inv hfired hd k (fun hc => ⟨hu hc, hnil, hnone⟩)

theorem step_inv {c : TCPClient} (hi : c.Inv) {a : Action} (he : c.Enabled a) (hu : c.Used a) :
    ∃ c', c.step a = .ok c' ∧ c'.Inv := by
  cases a with
  | connect inLoopThread k => exact connect_inv hi hu
  | stop =>
    have hset : Inv { c with
        connect_ := false, connector := { c.connector with connect_ := false } } := { hi with }
    exact ⟨_, rfl, queued_inv hset nofun nofun nofun⟩
  | disconnect => exact ⟨_, rfl, { hi with }⟩
  | enableRetry => exact ⟨_, rfl, { hi with }⟩
  | forceClose conn =>
    refine ⟨_, rfl, queued_inv hi nofun nofun (fun conn' h => ?_)⟩
    cases h
    exact hi.conn_lt conn (Or.inl he)
  | poll ready conns => exact ⟨_, rfl, poll_inv hi he⟩
  | handleEvent r soError selfConnect => exact handleEvent_inv hi he r soError selfConnect
  | closeEvent conn k =>
    have hconn : c.connection = some conn := by
      have ho := he.2
      rw [hi.opened] at ho
      simpa using ho
    exact handleClose_inv hi he.2 (hi.settled conn he.1 hconn) k
  | retryTimer i k => exact retryTimer_inv hi he hu
  | swap => exact ⟨_, rfl, swap_inv hi he⟩
  | runFunctor k =>
    cases hf : c.functors with
    | nil => exact absurd hf he
    | cons f fs =>
      simp only [step, hf]
      exact runFunctor_inv hi hf k

/-- In every run that uses the client as its connector is made for, no
assertion of the connector or of `~Channel` fails, and the connector is
connecting exactly while its channel is registered. -/
theorem connector_consistent (as : List Action)
    (ha : Admitted step (fun c a => c.Enabled a ∧ c.Used a) construct as) :
    ∃ c, run step construct as = .ok c ∧
      (c.connector.state = .kConnecting ↔ c.Registered) := by
  obtain ⟨c, hr, hi⟩ := run_succeeds (fun c a => c.Enabled a ∧ c.Used a)
    (fun c a hi hc => step_inv hi hc.1 hc.2) as construct construct_inv ha
  exact ⟨c, hr, hi.connecting⟩

/-- A refused attempt, the retry that its timer starts, the connection that
this one makes, and the reconnection after the connection has closed. -/
theorem connector_consistent_reconnect :
    ∃ c, run step construct [.enableRetry, .connect true ⟨5, ECONNREFUSED⟩, .poll false [],
        .retryTimer 0 ⟨6, EINPROGRESS⟩, .swap, .poll true [],
        .handleEvent ⟨false, false, true, false, false, false, false⟩ 0 false, .swap,
        .runFunctor ⟨0, 0⟩, .poll false [1], .closeEvent 1 ⟨7, EINPROGRESS⟩] = .ok c ∧
      (c.connector.state = .kConnecting ↔ c.Registered) :=
  connector_consistent _ (by decide)

/-- `stop` while connecting, and `connect` again after `stopInLoop` has run but
before `resetChannel`. -/
theorem connector_inconsistent :
    ¬∀ as : List Action, Admitted step Enabled construct as →
      ∃ c, run step construct as = .ok c ∧
        (c.connector.state = .kConnecting ↔ c.Registered) := by
  intro h
  obtain ⟨c, hr, -⟩ := h [.connect true ⟨5, EINPROGRESS⟩, .stop, .poll false [], .swap,
    .runFunctor ⟨0, 0⟩, .connect true ⟨6, EINPROGRESS⟩] (by decide)
  have hfault : run step construct [.connect true ⟨5, EINPROGRESS⟩, .stop, .poll false [], .swap,
    .runFunctor ⟨0, 0⟩, .connect true ⟨6, EINPROGRESS⟩] = .error (.assertion "!channel_") := rfl
  cases hfault.symm.trans hr

end Steps

end Lux.Polaris.TCPClient

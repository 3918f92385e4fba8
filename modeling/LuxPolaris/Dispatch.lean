import LuxPolaris.LoopChannels
import LuxPolaris.ClosedConnection

/-!
# No handler is dispatched to a removed channel

A channel leaves the poller in three ways: in a functor, when no handler is
left to run; in a handler of its own connector; and at once, in `~TCPServer`
and `~Acceptor`. The last one is the only one that can meet a channel which
the iteration has still to handle.
-/

set_option autoImplicit false

namespace Lux.Polaris
open Outcome

namespace TCPClient

/-- An operation that removes no channel and opens no connection. A channel
that is there stays as it is. -/
structure Quiet (b c : TCPClient) : Prop where
  opened : c.openConnections = b.openConnections
  resets : .resetChannel ∈ c.pendingFunctors → .resetChannel ∈ b.pendingFunctors
  channel : ∀ channel, b.connector.channel = some channel → c.connector.channel = some channel

theorem quiet_refl (c : TCPClient) : Quiet c c := ⟨rfl, id, fun _ h => h⟩

theorem Quiet.trans {b c d : TCPClient} (h : Quiet b c) (h' : Quiet c d) : Quiet b d where
  opened := h'.opened.trans h.opened
  resets hr := h.resets (h'.resets hr)
  channel ch hc := h'.channel ch (h.channel ch hc)

theorem Quiet.of_flags {b c d : TCPClient} (h : Quiet c d)
    (ho : c.openConnections = b.openConnections) (hp : c.pendingFunctors = b.pendingFunctors)
    (hc : c.connector.channel = b.connector.channel) : Quiet b d where
  opened := h.opened.trans ho
  resets hr := hp ▸ h.resets hr
  channel ch hb := h.channel ch (hc.trans hb)

theorem queueInLoop_quiet (c : TCPClient) {f : ClientFunctor} (hf : f ≠ .resetChannel) :
    Quiet c (c.queueInLoop f) where
  opened := rfl
  resets h := by
    rcases List.mem_append.mp h with h | h
    · exact h
    · exact absurd (List.mem_singleton.mp h).symm hf
  channel _ h := h

theorem retry_quiet (c : TCPClient) : Quiet c c.retry := by
  unfold retry setState
  dsimp only
  split_ifs <;> exact ⟨rfl, id, fun _ h => h⟩

theorem connecting_quiet {c c' : TCPClient} {sockfd : ℕ} (h : c.connecting sockfd = .ok c') :
    Quiet c c' := by
  obtain ⟨u, hu, heq⟩ := bind_ok.mp h
  have hnone : c.connector.channel = none := assertThat_ok.mp hu
  cases heq
  exact ⟨rfl, id, fun ch hc => nomatch hnone.symm.trans hc⟩

theorem connectSocket_quiet {c c' : TCPClient} {k : ConnectResult}
    (h : c.connectSocket k = .ok c') : Quiet c c' := by
  unfold connectSocket at h
  split_ifs at h
  · exact connecting_quiet h
  · cases h
    exact retry_quiet c
  · cases h
    exact quiet_refl c

theorem startInLoop_quiet {c c' : TCPClient} {k : ConnectResult}
    (h : c.startInLoop k = .ok c') : Quiet c c' := by
  obtain ⟨u, -, heq⟩ := bind_ok.mp h
  split_ifs at heq
  · exact connectSocket_quiet heq
  · cases heq
    exact quiet_refl c

theorem restart_quiet {c c' : TCPClient} {k : ConnectResult} (h : c.restart k = .ok c') :
    Quiet c c' :=
  (startInLoop_quiet h).of_flags rfl rfl rfl

theorem removeConnection_quiet {c c' : TCPClient} {conn : ℕ} {k : ConnectResult}
    (h : c.removeConnection conn k = .ok c') : Quiet c c' := by
  obtain ⟨u, -, heq⟩ := bind_ok.mp h
  have hq : Quiet c ({ c with connection := none }.queueInLoop (.connectDestroyed conn)) :=
    (queueInLoop_quiet _ (by simp)).of_flags rfl rfl rfl
  dsimp only at heq
  split_ifs at heq
  · exact hq.trans (restart_quiet heq)
  · cases heq
    exact hq

theorem userStep_quiet {c c' : TCPClient} {b : Action} (hb : ChannelLoop.UserCall b)
    (h : c.step b = .ok c') : Quiet c c' := by
  cases b with
  | connect inLoopThread k =>
    change c.connect inLoopThread k = .ok c' at h
    unfold connect at h
    dsimp only at h
    split_ifs at h
    · exact (startInLoop_quiet h).of_flags rfl rfl rfl
    · cases h
      exact (queueInLoop_quiet _ (by simp)).of_flags rfl rfl rfl
  | stop =>
    cases h
    exact (queueInLoop_quiet _ (by simp)).of_flags rfl rfl rfl
  | disconnect =>
    cases h
    exact ⟨rfl, id, fun _ hc => hc⟩
  | enableRetry =>
    cases h
    exact ⟨rfl, id, fun _ hc => hc⟩
  | forceClose _ => exact hb.elim
  | poll _ _ => exact hb.elim
  | handleEvent _ _ _ => exact hb.elim
  | closeEvent _ _ => exact hb.elim
  | retryTimer _ _ => exact hb.elim
  | swap => exact hb.elim
  | runFunctor _ => exact hb.elim

theorem removeAndResetChannel_frame {c c' : TCPClient} (h : c.removeAndResetChannel = .ok c') :
    c.connector.channel.isSome = true ∧ c'.connector.channel.isSome = true ∧
      c'.openConnections = c.openConnections := by
  unfold removeAndResetChannel at h
  cases hc : c.connector.channel with
  | none =>
    rw [hc] at h
    cases h
  | some channel =>
    rw [hc] at h
    obtain ⟨ch, -, heq⟩ := bind_ok.mp h
    cases heq
    exact ⟨rfl, rfl, rfl⟩

theorem handleCallback_opens {c c' : TCPClient} {soError : ℕ} {selfConnect : Bool} {cb : Callback}
    (h : c.handleCallback soError selfConnect cb = .ok c')
    (ho : c'.openConnections ≠ c.openConnections) :
    c.connector.channel.isSome = true ∧ c'.connector.channel.isSome = true := by
  cases cb with
  | close =>
    cases h
    exact absurd rfl ho
  | read =>
    cases h
    exact absurd rfl ho
  | error =>
    change c.handleError = .ok c' at h
    unfold handleError at h
    split_ifs at h
    · obtain ⟨d, hd, heq⟩ := bind_ok.mp h
      cases heq
      exact absurd ((retry_quiet d).opened.trans (removeAndResetChannel_frame hd).2.2) ho
    · cases h
      exact absurd rfl ho
  | write =>
    change c.handleWrite soError selfConnect = .ok c' at h
    unfold handleWrite at h
    by_cases hk : c.connector.state = .kConnecting
    · rw [if_pos hk] at h
      obtain ⟨d, hd, heq⟩ := bind_ok.mp h
      obtain ⟨hc, hd', -⟩ := removeAndResetChannel_frame hd
      refine ⟨hc, ?_⟩
      have hretry : d.retry.connector.channel.isSome = true := by
        obtain ⟨ch, hch⟩ := Option.isSome_iff_exists.mp hd'
        rw [(retry_quiet d).channel ch hch]
        rfl
      dsimp only at heq
      split_ifs at heq <;> cases heq
      · exact hretry
      · exact hretry
      · exact hd'
      · exact hd'
    · rw [if_neg hk] at h
      obtain ⟨u, -, heq⟩ := bind_ok.mp h
      cases heq
      exact absurd rfl ho

theorem runFunctor_opens {c c' : TCPClient} {k : ConnectResult} {f : ClientFunctor}
    (hn : c.openConnections = []) (h : c.runFunctor k f = .ok c') : c'.openConnections = [] := by
  cases f with
  | startInLoop => exact (startInLoop_quiet h).opened.trans hn
  | stopInLoop =>
    change c.stopInLoop = .ok c' at h
    unfold stopInLoop at h
    split_ifs at h
    · obtain ⟨d, hd, heq⟩ := bind_ok.mp h
      cases heq
      exact (retry_quiet d).opened.trans ((removeAndResetChannel_frame hd).2.2.trans hn)
    · cases h
      exact hn
  | resetChannel =>
    change c.resetChannel = .ok c' at h
    unfold resetChannel at h
    cases hc : c.connector.channel with
    | none =>
      rw [hc] at h
      cases h
      exact hn
    | some channel =>
      rw [hc] at h
      obtain ⟨u, -, heq⟩ := bind_ok.mp h
      obtain ⟨v, -, heq⟩ := bind_ok.mp heq
      cases heq
      exact hn
  | forceCloseInLoop conn =>
    change (if conn ∈ c.openConnections then c.handleClose conn k else .ok c) = .ok c' at h
    rw [hn, if_neg List.not_mem_nil] at h
    cases h
    exact hn
  | connectDestroyed conn =>
    cases h
    exact hn

end TCPClient

namespace ChannelLoop
open TCPConnection
variable {s s' t : ChannelLoop}

section Frame

/-- The channel at `i` is there and the poller knows it. -/
def Known (s : ChannelLoop) (i : ℕ) : Prop :=
  (s.channel? i).any (fun channel => channel.index ≠ .kNew) = true

def Owned (s : ChannelLoop) : Prop :=
  ∀ i k, s.objects i = some (.connector k) →
    ∃ x, s.clients k = some x ∧ x.channel = i ∧ x.client.connector.channel.isSome = true

/-- What holds at every moment of an iteration. -/
structure Inv (s : ChannelLoop) : Prop where
  idle : s.eventHandling = false → s.unhandled = []
  active : ∀ i ∈ s.unhandled, i ∈ s.activeChannels
  nodup : s.unhandled.Nodup
  current : ∀ i, s.currentActiveChannel = some i → i ∉ s.unhandled
  known : ∀ i ∈ s.unhandled, s.Known i
  owned : s.Owned

theorem inv_dispatchable (hi : s.Inv) : s.Dispatchable := hi.known

@[simp] theorem put_self (i : ℕ) (x : LoopObject) : (s.put i x).objects i = some x :=
  Function.update_self ..

@[simp] theorem free_self (i : ℕ) : (s.free i).objects i = none := Function.update_self ..

theorem put_of_ne {i j : ℕ} (h : j ≠ i) (x : LoopObject) :
    (s.put i x).objects j = s.objects j :=
  Function.update_of_ne h _ _

theorem free_of_ne {i j : ℕ} (h : j ≠ i) : (s.free i).objects j = s.objects j :=
  Function.update_of_ne h _ _

theorem known_frame {i : ℕ} (ho : s'.objects i = s.objects i)
    (hc : ∀ k, s.objects i = some (.connector k) → s'.clients k = s.clients k)
    (hk : s.Known i) : s'.Known i := by
  rw [Known, channel?] at hk ⊢
  rw [ho]
  cases h : s.objects i with
  | none =>
    rw [h] at hk
    cases hk
  | some x =>
    rw [h] at hk
    cases x with
    | connector k =>
      simp only [hc k h]
      exact hk
    | connection conn onClose => exact hk
    | acceptor k channel => exact hk
    | timerQueue channel => exact hk
    | wakeup channel => exact hk

theorem known_of_objects {i : ℕ} (ho : s'.objects i = s.objects i)
    (hc : s'.clients = s.clients) (hk : s.Known i) : s'.Known i :=
  known_frame ho (fun k _ => congrFun hc k) hk

/-- The iteration has not moved on, and what it has still to handle is known to
the poller as before. -/
structure Steady (s s' : ChannelLoop) : Prop where
  eventHandling : s'.eventHandling = s.eventHandling
  activeChannels : s'.activeChannels = s.activeChannels
  unhandled : s'.unhandled = s.unhandled
  current : s'.currentActiveChannel = s.currentActiveChannel
  known : ∀ i ∈ s.unhandled, s.Known i → s'.Known i
  owned : s.Owned → s'.Owned

theorem Steady.trans (h : Steady s s') (h' : Steady s' t) : Steady s t where
  eventHandling := h'.eventHandling.trans h.eventHandling
  activeChannels := h'.activeChannels.trans h.activeChannels
  unhandled := h'.unhandled.trans h.unhandled
  current := h'.current.trans h.current
  known i hu hk := h'.known i (h.unhandled ▸ hu) (h.known i hu hk)
  owned ho := h'.owned (h.owned ho)

/-- The frame rule: only the heap, the clients and the iteration matter. -/
theorem steady_of_eq (ho : s'.objects = s.objects) (hc : s'.clients = s.clients)
    (he : s'.eventHandling = s.eventHandling) (ha : s'.activeChannels = s.activeChannels)
    (hu : s'.unhandled = s.unhandled) (hm : s'.currentActiveChannel = s.currentActiveChannel) :
    Steady s s' where
  eventHandling := he
  activeChannels := ha
  unhandled := hu
  current := hm
  known i _ hk := known_of_objects (congrFun ho i) hc hk
  owned h i k hi := by
    rw [hc]
    exact h i k (ho ▸ hi)

theorem Steady.inv (h : Steady s s') (hi : s.Inv) : s'.Inv where
  idle he := h.unhandled.trans (hi.idle (h.eventHandling.symm.trans he))
  active i hu := h.activeChannels ▸ hi.active i (h.unhandled ▸ hu)
  nodup := h.unhandled ▸ hi.nodup
  current i hc := h.unhandled ▸ hi.current i (h.current ▸ hc)
  known i hu := h.known i (h.unhandled ▸ hu) (hi.known i (h.unhandled ▸ hu))
  owned := h.owned hi.owned

theorem known_ne_fresh {i address : ℕ} (hf : s.Fresh address) (hk : s.Known i) : i ≠ address := by
  rintro rfl
  rw [Known, channel?, Option.isNone_iff_eq_none.mp hf] at hk
  cases hk

theorem not_unhandled (hi : s.Inv) {i : ℕ} (hr : s.Removable i) : i ∉ s.unhandled := by
  intro hu
  cases he : s.eventHandling with
  | false =>
    rw [hi.idle he] at hu
    exact List.not_mem_nil hu
  | true =>
    rcases hr he with hc | ha
    · exact hi.current i hc hu
    · exact ha (hi.active i hu)

theorem put_steady {i : ℕ} {x : LoopObject} (hx : ∀ k, x ≠ .connector k)
    (hk : i ∈ s.unhandled → s.Known i → (s.put i x).Known i) : Steady s (s.put i x) where
  eventHandling := rfl
  activeChannels := rfl
  unhandled := rfl
  current := rfl
  known j hu hj := by
    by_cases hji : j = i
    · subst hji
      exact hk hu hj
    · exact known_of_objects (put_of_ne hji x) rfl hj
  owned ho j k hj := by
    by_cases hji : j = i
    · subst hji
      rw [put_self] at hj
      exact absurd (Option.some.inj hj) (hx k)
    · exact ho j k ((put_of_ne hji x).symm.trans hj)

theorem put_fresh_steady {i : ℕ} {x : LoopObject} (hx : ∀ k, x ≠ .connector k)
    (hf : s.Fresh i) : Steady s (s.put i x) :=
  put_steady hx (fun _ hk => absurd rfl (known_ne_fresh hf hk))

theorem free_steady {i : ℕ} (hi : i ∉ s.unhandled) : Steady s (s.free i) where
  eventHandling := rfl
  activeChannels := rfl
  unhandled := rfl
  current := rfl
  known j hu hj := by
    have hji : j ≠ i := fun h => hi (h ▸ hu)
    exact known_of_objects (free_of_ne hji) rfl hj
  owned ho j k hj := by
    by_cases hji : j = i
    · subst hji
      rw [free_self] at hj
      cases hj
    · exact ho j k ((free_of_ne hji).symm.trans hj)

end Frame

section Calls

theorem lift_yields {α : Type} (r : Except Fault α) :
    Yields (lift r) (fun a => r = .ok a) (· ≠ .removeChannel) :=
  yields_mapError r (fun _ => by simp)

theorem settle_steady {i : ℕ} {onClose : CloseCallback} {conn c : TCPConnection}
    (ho : s.objects i = some (.connection conn onClose))
    (hk : i ∈ s.unhandled → StaysKnown conn c) : Steady s (s.settle i onClose c) := by
  unfold settle
  refine Steady.trans ?_ (put_steady ?_ ?_)
  · exact steady_of_eq rfl rfl rfl rfl rfl rfl
  · exact nofun
  intro hu hknown
  have hnew : conn.channel.index ≠ .kNew := by
    rw [Known, channel?, ho] at hknown
    exact of_decide_eq_true hknown
  rw [Known, channel?, put_self]
  exact decide_eq_true (hk hu hnew)

theorem onConnection_steady {i : ℕ} {f : TCPConnection → Except Fault TCPConnection}
    (hf : ∀ conn onClose c, s.objects i = some (.connection conn onClose) → f conn = .ok c →
      StaysKnown conn c) :
    Yields (s.onConnection i f) (Steady s) (· ≠ .removeChannel) := by
  unfold onConnection
  split
  · next conn onClose ho =>
    rw [yields_bind]
    exact (lift_yields _).imp (fun c hc => (yields_pure _ _ _).mpr
      (settle_steady ho (fun _ => hf conn onClose c ho hc)))
  · exact (yields_error _ _ _).mpr (by simp)

theorem connectEstablished_known {c c' : TCPConnection} (h : c.connectEstablished = .ok c') :
    StaysKnown c c' := by
  intro _
  obtain ⟨u, -, heq⟩ := bind_ok.mp h
  cases heq
  exact Channel.update_index_ne_new _

theorem newConnection_steady {sockfd : ℕ} {onClose : CloseCallback} {a : Answers}
    (hf : s.Fresh a.address) :
    Yields (s.newConnection sockfd onClose a) (Steady s) (· ≠ .removeChannel) := by
  unfold newConnection
  rw [yields_bind]
  refine (lift_yields _).imp (fun conn _ => ?_)
  refine (onConnection_steady fun _ _ _ _ h => connectEstablished_known h).imp (fun t ht => ?_)
  exact (put_fresh_steady (by simp) hf).trans ht

theorem connectDestroyed_steady (hi : s.Inv) {i : ℕ} (hr : ∀ p ∈ s.connection? i,
      p.1.state = .kConnected ∨ p.1.channel.isNoneEvent = true → s.Removable i) :
    Yields (s.connectDestroyed i) (Steady s) (· ≠ .removeChannel) := by
  unfold connectDestroyed
  split
  · next conn onClose ho =>
    rw [yields_bind]
    refine (lift_yields _).imp (fun u hu => ?_)
    have hrem : s.Removable i :=
      hr (conn, onClose) (by rw [connection?, ho]; rfl) (assertThat_ok.mp hu)
    rw [removeChannel, if_pos hrem, ok_bind, yields_bind]
    exact (lift_yields _).imp (fun c _ => (yields_pure _ _ _).mpr
      (settle_steady ho (fun hmem => absurd hmem (not_unhandled hi hrem))))
  · exact (yields_error _ _ _).mpr (by simp)

end Calls

section Clients

@[simp] theorem putClient_self (k : ℕ) (x : LoopClient) : (s.putClient k x).clients k = some x :=
  Function.update_self ..

theorem putClient_of_ne {k l : ℕ} (h : l ≠ k) (x : LoopClient) :
    (s.putClient k x).clients l = s.clients l :=
  Function.update_of_ne h _ _

theorem putClient_known {k i : ℕ} {x : LoopClient} (hx : s.clients k = some x) {c : TCPClient}
    {address : ℕ} (hk : s.objects i = some (.connector k) → ∀ channel,
      x.client.connector.channel = some channel → c.connector.channel = some channel)
    (hi : s.Known i) : (s.putClient k ⟨c, address⟩).Known i := by
  by_cases ho : s.objects i = some (.connector k)
  · rw [Known, channel?, ho] at hi
    simp only [hx, Option.bind_some] at hi
    cases hc : x.client.connector.channel with
    | none =>
      rw [hc] at hi
      cases hi
    | some channel =>
      rw [hc] at hi
      have hobj : (s.putClient k ⟨c, address⟩).objects i = some (.connector k) := ho
      rw [Known, channel?, hobj]
      simp only [putClient_self, Option.bind_some, hk ho channel hc]
      exact hi
  · refine known_frame (s := s) rfl (fun l hl => putClient_of_ne ?_ _) hi
    rintro rfl
    exact ho hl

theorem newClient_steady (hi : s.Owned) {k : ℕ} (hn : s.clients k = none) (x : LoopClient) :
    Steady s (s.putClient k x) := by
  have hne : ∀ i l, s.objects i = some (.connector l) → l ≠ k := by
    rintro i l ho rfl
    obtain ⟨y, hy, -⟩ := hi i l ho
    cases hn.symm.trans hy
  refine ⟨rfl, rfl, rfl, rfl, fun i _ hk => ?_, fun _ i l ho => ?_⟩
  · exact known_frame (s := s) rfl (fun l hl => putClient_of_ne (hne i l hl) _) hk
  · obtain ⟨y, hy, hrest⟩ := hi i l ho
    exact ⟨y, (putClient_of_ne (hne i l ho) _).trans hy, hrest⟩

theorem replaceClient_steady (hi : s.Owned) {k : ℕ} {x : LoopClient} (hx : s.clients k = some x)
    {c : TCPClient} {address : ℕ} (hf : s.Fresh address)
    (hk : x.channel ∈ s.unhandled → ∀ channel,
      x.client.connector.channel = some channel → c.connector.channel = some channel) :
    Steady s (s.replaceClient k x c address) := by
  have hmine : ∀ i, s.objects i = some (.connector k) →
      x.channel = i ∧ x.client.connector.channel.isSome = true := by
    intro i ho
    obtain ⟨y, hy, hrest⟩ := hi i k ho
    cases hx.symm.trans hy
    exact hrest
  have hknown : ∀ address, ∀ i ∈ s.unhandled, s.Known i →
      (s.putClient k ⟨c, address⟩).Known i := by
    intro address i hu
    exact putClient_known hx (fun ho => hk ((hmine i ho).1 ▸ hu))
  have hothers : ∀ i l, l ≠ k → s.objects i = some (.connector l) →
      ∀ address, ∃ y, (s.putClient k ⟨c, address⟩).clients l = some y ∧ y.channel = i ∧
        y.client.connector.channel.isSome = true := by
    intro i l hl ho address
    rw [putClient_of_ne hl]
    exact hi i l ho
  unfold replaceClient
  split
  · next channel hnone hsome =>
    -- a new channel at a free address
    refine ⟨rfl, rfl, rfl, rfl, fun i hu hi' => ?_, fun _ i l ho => ?_⟩
    · have hne := known_ne_fresh hf hi'
      exact known_of_objects (put_of_ne hne _) rfl (hknown address i hu hi')
    · by_cases hia : i = address
      · subst hia
        rw [put_self] at ho
        cases ho
        exact ⟨_, putClient_self _ _, rfl, by rw [hsome]; rfl⟩
      · rw [put_of_ne hia] at ho
        by_cases hl : l = k
        · subst hl
          rw [hnone] at hmine
          exact nomatch (hmine i ho).2
        · exact hothers i l hl ho address
  · next channel hsome hnone =>
    -- the channel is freed
    have hidle : x.channel ∉ s.unhandled :=
      fun hu => nomatch hnone.symm.trans (hk hu channel hsome)
    refine ⟨rfl, rfl, rfl, rfl, fun i hu hi' => ?_, fun _ i l ho => ?_⟩
    · have hne : i ≠ x.channel := fun h => hidle (h ▸ hu)
      exact known_of_objects (free_of_ne hne) rfl (hknown x.channel i hu hi')
    · by_cases hix : i = x.channel
      · subst hix
        rw [free_self] at ho
        cases ho
      · rw [free_of_ne hix] at ho
        by_cases hl : l = k
        · subst hl
          exact absurd (hmine i ho).1.symm hix
        · exact hothers i l hl ho x.channel
  · next hns hsn =>
    refine ⟨rfl, rfl, rfl, rfl, hknown x.channel, fun _ i l ho => ?_⟩
    by_cases hl : l = k
    · subst hl
      obtain ⟨hix, hsome⟩ := hmine i ho
      obtain ⟨channel, hch⟩ := Option.isSome_iff_exists.mp hsome
      refine ⟨_, putClient_self _ _, hix, ?_⟩
      cases hc : c.connector.channel with
      | none => exact (hsn channel hch hc).elim
      | some d => rfl
    · exact hothers i l hl ho x.channel

/-- What an operation of the client leaves for the loop. -/
structure Tracked (s : ChannelLoop) (x : LoopClient) (c : TCPClient) : Prop where
  removed : .resetChannel ∈ c.pendingFunctors → s.Removable x.channel
  kept : x.channel ∈ s.unhandled → ∀ channel,
    x.client.connector.channel = some channel → c.connector.channel = some channel
  opened : c.openConnections ≠ [] →
    x.client.connector.channel.isSome = true ∧ c.connector.channel.isSome = true

theorem opened_steady {t : ChannelLoop} {c : TCPClient} {k : ℕ} {a : Answers}
    (hq : Steady s t) (hf : c.openConnections ≠ [] → c.connector.channel.isSome = true →
      t.Fresh a.address) :
    Yields (match c.openConnections, c.connector.channel with
      | _::_, some channel => t.newConnection channel.fd (.client k) a
      | _, _ => return t) (Steady s) (· ≠ .removeChannel) := by
  split
  · next n ns channel hopen hch =>
    have hfresh := hf (by rw [hopen]; simp) (by rw [hch]; rfl)
    exact (newConnection_steady hfresh).imp (fun t' ht' => hq.trans ht')
  · exact (yields_pure _ _ _).mpr hq

theorem onClient_steady (hi : s.Owned) {k : ℕ} {a : Answers} (hf : s.Fresh a.address)
    {f : TCPClient → Except Fault TCPClient}
    (ht : ∀ x c, s.clients k = some x → f (x.ready a.address) = .ok c → s.Tracked x c) :
    Yields (s.onClient k a f) (Steady s) (· ≠ .removeChannel) := by
  unfold onClient
  split
  · exact (yields_error _ _ _).mpr (by simp)
  · next x hx =>
    rw [yields_bind]
    refine (lift_yields _).imp (fun c hc => ?_)
    have htrack := ht x c hx hc
    have hsteady := replaceClient_steady (c := c) hi hx hf htrack.kept
    have hq : ∀ fs, Steady s ((s.replaceClient k x c a.address).queueInLoop fs) :=
      fun fs => hsteady.trans (steady_of_eq rfl rfl rfl rfl rfl rfl)
    have hfresh : ∀ fs, c.openConnections ≠ [] → c.connector.channel.isSome = true →
        ((s.replaceClient k x c a.address).queueInLoop fs).Fresh a.address := by
      intro fs hopen hch
      obtain ⟨d, hd⟩ := Option.isSome_iff_exists.mp (htrack.opened hopen).1
      obtain ⟨channel, hch⟩ := Option.isSome_iff_exists.mp hch
      rw [replaceClient, hd, hch]
      exact hf
    by_cases hr : .resetChannel ∈ c.pendingFunctors
    · rw [if_pos hr, removeChannel, if_pos (htrack.removed hr), ok_bind]
      exact opened_steady (hq _) (hfresh _)
    · rw [if_neg hr]
      exact opened_steady (hq _) (hfresh _)

theorem quiet_tracked {x : LoopClient} {c : TCPClient} {n : ℕ}
    (h : TCPClient.Quiet (x.ready n) c) : s.Tracked x c where
  removed hr := nomatch h.resets hr
  kept _ := h.channel
  opened ho := absurd h.opened ho

theorem callback_tracked (hi : s.Inv) {x : LoopClient} {c : TCPClient}
    (hc : s.currentActiveChannel = some x.channel) {n soError : ℕ} {selfConnect : Bool}
    {cb : Callback} (h : (x.ready n).handleCallback soError selfConnect cb = .ok c) :
    s.Tracked x c where
  removed _ _ := Or.inl hc
  kept hu := absurd hu (hi.current _ hc)
  opened ho := by
    have hopens : (x.ready n).connector.channel.isSome = true ∧ c.connector.channel.isSome = true :=
      TCPClient.handleCallback_opens h ho
    exact hopens

theorem functor_tracked (hi : s.Inv) {x : LoopClient} {c : TCPClient}
    (he : s.eventHandling = false) {n : ℕ} {k : ConnectResult} {f : ClientFunctor}
    (h : (x.ready n).runFunctor k f = .ok c) : s.Tracked x c where
  removed _ ht := nomatch he.symm.trans ht
  kept hu := absurd (hi.idle he ▸ hu) List.not_mem_nil
  opened ho := absurd (TCPClient.runFunctor_opens rfl h) ho

end Clients

section Steps

theorem listen_steady (k : ℕ) : Yields (s.listen k) (Steady s) (· ≠ .removeChannel) := by
  unfold listen
  split
  · exact (yields_error _ _ _).mpr (by simp)
  · next x hx =>
    split
    · next l channel ho =>
      refine (yields_ok _ _ _).mpr (put_steady (fun _ => nofun) (fun _ _ => ?_))
      rw [Known, channel?, put_self]
      exact decide_eq_true (Channel.update_index_ne_new _)
    · exact (yields_error _ _ _).mpr (by simp)

theorem acceptorRead_steady {k : ℕ} {a : Answers} (hf : s.Fresh a.address) :
    Yields (s.acceptorRead k a) (Steady s) (· ≠ .removeChannel) := by
  unfold acceptorRead
  split
  · exact (yields_ok _ _ _).mpr (steady_of_eq rfl rfl rfl rfl rfl rfl)
  · exact (yields_error _ _ _).mpr (by simp)
  · next sockfd x hx hs =>
    refine Yields.imp (newConnection_steady ?_) (fun t ht => Steady.trans ?_ ht)
    · exact hf
    · exact steady_of_eq rfl rfl rfl rfl rfl rfl

theorem removeConnection_steady (k i : ℕ) :
    Yields (s.removeConnection k i) (Steady s) (· ≠ .removeChannel) := by
  unfold removeConnection
  split
  · exact (yields_error _ _ _).mpr (by simp)
  · next x hx =>
    by_cases hd : x.destroyed
    · rw [if_pos hd]
      exact (yields_error _ _ _).mpr (by simp)
    · rw [if_neg hd, yields_bind]
      refine (lift_yields _).imp (fun u _ => (yields_pure _ _ _).mpr ?_)
      exact steady_of_eq rfl rfl rfl rfl rfl rfl

theorem closeCallback_steady (hi : s.Owned) {i : ℕ} {a : Answers} (hf : s.Fresh a.address) :
    Yields (s.closeCallback i a) (Steady s) (· ≠ .removeChannel) := by
  unfold closeCallback
  split
  · exact removeConnection_steady _ i
  · exact onClient_steady hi hf
      (fun x c _ h => quiet_tracked (TCPClient.removeConnection_quiet h))
  · exact (yields_ok _ _ _).mpr (steady_of_eq rfl rfl rfl rfl rfl rfl)
  · exact (yields_error _ _ _).mpr (by simp)

theorem handleCallback_steady (hi : s.Inv) {i : ℕ} (hc : s.currentActiveChannel = some i)
    {a : Answers} (hf : s.Fresh a.address) (cb : Callback) :
    Yields (s.handleCallback i a cb) (Steady s) (· ≠ .removeChannel) := by
  unfold handleCallback
  split
  · exact (yields_error _ _ _).mpr (by simp)
  · exact onConnection_steady (fun _ _ _ _ h => handleCallback_known h)
  · next k ho =>
    refine onClient_steady hi.owned hf (fun x c hx h => callback_tracked hi ?_ h)
    obtain ⟨y, hy, hyi, -⟩ := hi.owned i k ho
    cases hx.symm.trans hy
    rw [hyi]
    exact hc
  · split_ifs
    · exact acceptorRead_steady hf
    · exact (yields_ok _ _ _).mpr (steady_of_eq rfl rfl rfl rfl rfl rfl)
  · exact (yields_ok _ _ _).mpr (steady_of_eq rfl rfl rfl rfl rfl rfl)
  · exact (yields_ok _ _ _).mpr (steady_of_eq rfl rfl rfl rfl rfl rfl)

theorem forceCloseInLoop_known {c c' : TCPConnection} (h : c.forceCloseInLoop = .ok c') :
    StaysKnown c c' := by
  unfold forceCloseInLoop at h
  split_ifs at h
  · exact handleClose_known h
  · cases h
    exact id

theorem runFunctor_steady (hi : s.Inv) (he : s.eventHandling = false) {a : Answers}
    (hf : s.Fresh a.address) (f : ChannelFunctor) :
    Yields (s.runFunctor a f) (Steady s) (· ≠ .removeChannel) := by
  have hsame : Yields (.ok s : Except LoopFault ChannelLoop) (Steady s) (· ≠ .removeChannel) :=
    (yields_ok _ _ _).mpr (steady_of_eq rfl rfl rfl rfl rfl rfl)
  cases f with
  | ofConnection i f =>
    cases f with
    | forceCloseInLoop => exact onConnection_steady (fun _ _ _ _ h => forceCloseInLoop_known h)
    | writeCompleteCallback => exact hsame
    | highWaterMarkCallback size => exact hsame
  | connectEstablished i => exact onConnection_steady (fun _ _ _ _ h => connectEstablished_known h)
  | connectDestroyed i =>
    exact connectDestroyed_steady hi (fun _ _ _ ht => nomatch he.symm.trans ht)
  | ofClient k f =>
    show Yields (s.onClient k a (fun c => c.runFunctor a.connect f)) _ _
    exact onClient_steady hi.owned hf (fun x c _ h => functor_tracked hi he h)

theorem fireDelayedClose_steady (n : ℕ) :
    Yields (s.fireDelayedClose n) (Steady s) (· ≠ .removeChannel) := by
  unfold fireDelayedClose
  split
  · exact (yields_ok _ _ _).mpr (steady_of_eq rfl rfl rfl rfl rfl rfl)
  · next i hn =>
    refine Yields.imp (onConnection_steady (fun conn _ c _ h => ?_))
      (fun t ht => Steady.trans ?_ ht)
    · cases h
      intro hk
      rw [forceClose_channel]
      exact hk
    · exact steady_of_eq rfl rfl rfl rfl rfl rfl

theorem release_steady (hi : s.Inv) (i : ℕ) :
    Yields (s.release i) (Steady s) (· ≠ .removeChannel) := by
  unfold release
  split
  · next conn onClose ho =>
    rw [yields_bind]
    refine (lift_yields _).imp (fun _ _ => ?_)
    rw [yields_bind]
    refine (lift_yields _).imp (fun _ _ => ?_)
    rw [yields_bind]
    refine (lift_yields _).imp (fun _ hu => (yields_pure _ _ _).mpr ?_)
    have hnew : conn.channel.index = .kNew := assertThat_ok.mp hu
    refine Steady.trans ?_ (free_steady (fun hmem => ?_))
    · exact steady_of_eq rfl rfl rfl rfl rfl rfl
    · have hk := hi.known i hmem
      rw [Known, channel?, ho] at hk
      exact absurd hnew (of_decide_eq_true hk)
  · exact (yields_error _ _ _).mpr (by simp)

theorem serverDeleted_steady (hi : s.Inv) {k : ℕ} (hs : s.Safe (.serverDeleted k)) :
    Yields (s.serverDeleted k) (Steady s) (· ≠ .removeChannel) := by
  unfold serverDeleted
  split
  · exact (yields_error _ _ _).mpr (by simp)
  · next x hx =>
    split
    · next l channel ho =>
      have hrem : s.Removable x.acceptor := hs x hx (by rw [ho]; rfl)
      rw [removeChannel, if_pos hrem, ok_bind, yields_bind]
      refine (lift_yields _).imp (fun _ _ => ?_)
      rw [yields_bind]
      refine (lift_yields _).imp (fun _ _ => (yields_pure _ _ _).mpr ?_)
      refine Steady.trans ?_ (free_steady (not_unhandled hi hrem))
      exact steady_of_eq rfl rfl rfl rfl rfl rfl
    · exact (yields_error _ _ _).mpr (by simp)

theorem accepted_steady {sockfd : ℕ} {a : Answers} (hf : s.Fresh a.address) :
    Yields (s.step (.accepted sockfd a)) (Steady s) (· ≠ .removeChannel) := by
  rw [step, yields_bind]
  refine (lift_yields _).imp (fun conn _ => (yields_pure _ _ _).mpr ?_)
  have hput : Steady s (s.put a.address (.connection conn .elsewhere)) :=
    put_fresh_steady (fun _ => nofun) hf
  exact hput.trans (steady_of_eq rfl rfl rfl rfl rfl rfl)

theorem deleteConnection_steady (hi : s.Inv) {k i : ℕ} (hs : s.Safe (.deleteConnection k i)) :
    Yields (s.deleteConnection k i) (Steady s) (· ≠ .removeChannel) := by
  unfold deleteConnection
  split
  · exact (yields_error _ _ _).mpr (by simp)
  · next x hx =>
    have hframe : Steady s (s.putServer k { x with connections := x.connections.erase i }) :=
      steady_of_eq rfl rfl rfl rfl rfl rfl
    exact (connectDestroyed_steady (hframe.inv hi) hs).imp (fun t ht => hframe.trans ht)

theorem callback_steady (hi : s.Inv) {a : Answers} (hf : s.Fresh a.address) :
    Yields (s.step (.callback a)) (Steady s) (· ≠ .removeChannel) := by
  rw [step]
  split
  · next cb rest i hh hc =>
    have hframe : Steady s { s with handling := rest } := steady_of_eq rfl rfl rfl rfl rfl rfl
    have hy : Yields ({ s with handling := rest }.handleCallback i a cb) _ _ :=
      handleCallback_steady (hframe.inv hi) hc hf cb
    exact hy.imp (fun t ht => hframe.trans ht)
  · exact (yields_ok _ _ _).mpr (steady_of_eq rfl rfl rfl rfl rfl rfl)

theorem step_steady (hi : s.Inv) {a : Action} (he : s.Enabled a) (hs : s.Safe a)
    (hpoll : ∀ active, a ≠ .poll active) (hevent : ∀ r, a ≠ .handleEvent r) (hswap : a ≠ .swap) :
    Yields (s.step a) (Steady s) (· ≠ .removeChannel) := by
  cases a with
  | newServer k address sockfd =>
    refine (yields_ok _ _ _).mpr (Steady.trans ?_ (put_fresh_steady (fun _ => nofun) he.2.2))
    exact steady_of_eq rfl rfl rfl rfl rfl rfl
  | listen k => exact listen_steady k
  | newClient k =>
    exact (yields_ok _ _ _).mpr
      (newClient_steady hi.owned (Option.isNone_iff_eq_none.mp he.2) _)
  | callClient k b a =>
    show Yields (s.onClient k a (fun c => c.step b)) _ _
    exact onClient_steady hi.owned he.2.2
      (fun x c _ h => quiet_tracked (TCPClient.userStep_quiet he.2.1 h))
  | call i b =>
    refine onConnection_steady (fun conn onClose c ho h => ?_)
    obtain ⟨p, hp, hb⟩ := he.2
    rw [connection?, ho] at hp
    cases hp
    exact userCall_known hb h
  | deleteServer k => exact (yields_ok _ _ _).mpr (steady_of_eq rfl rfl rfl rfl rfl rfl)
  | deleteConnection k i => exact deleteConnection_steady hi hs
  | serverDeleted k => exact serverDeleted_steady hi hs
  | accepted sockfd a => exact accepted_steady he
  | destroyed i => exact (yields_ok _ _ _).mpr (steady_of_eq rfl rfl rfl rfl rfl rfl)
  | release i => exact release_steady hi i
  | poll active => exact absurd rfl (hpoll active)
  | handleEvent r => exact absurd rfl (hevent r)
  | callback a => exact callback_steady hi he.2.2.2
  | closeCallback a =>
    rw [step]
    split
    · exact (yields_ok _ _ _).mpr (steady_of_eq rfl rfl rfl rfl rfl rfl)
    · next i hc =>
      have hframe : Steady s { s with closing := none } := steady_of_eq rfl rfl rfl rfl rfl rfl
      have hy : Yields ({ s with closing := none }.closeCallback i a) _ _ :=
        closeCallback_steady (hframe.inv hi).owned he.2.2
      exact hy.imp (fun t ht => hframe.trans ht)
  | retryTimer k n a =>
    show Yields (s.onClient k a (fun c => c.step (.retryTimer n a.connect))) _ _
    refine onClient_steady hi.owned he.2 (fun x c _ h => ?_)
    have hquiet : TCPClient.Quiet (x.ready a.address) c :=
      (TCPClient.startInLoop_quiet h).of_flags rfl rfl rfl
    exact quiet_tracked hquiet
  | fireDelayedClose n => exact fireDelayedClose_steady n
  | swap => exact absurd rfl hswap
  | runFunctor a =>
    obtain ⟨-, heh, -, hf⟩ := he
    rw [step]
    split
    · exact (yields_ok _ _ _).mpr (steady_of_eq rfl rfl rfl rfl rfl rfl)
    · next f functors hfs =>
      have hframe : Steady s { s with functors := functors } :=
        steady_of_eq rfl rfl rfl rfl rfl rfl
      have hy : Yields ({ s with functors := functors }.runFunctor a f) _ _ :=
        runFunctor_steady (hframe.inv hi) heh hf f
      exact hy.imp (fun t ht => hframe.trans ht)

theorem poll_inv (hi : s.Inv) {active : List ℕ} (he : s.Enabled (.poll active)) :
    Yields (s.step (.poll active)) Inv (· ≠ .removeChannel) := by
  obtain ⟨-, -, -, hnodup, hactive⟩ := he
  refine (yields_ok _ _ _).mpr ⟨nofun, fun i hu => hu, hnodup, nofun, fun i hu => ?_, hi.owned⟩
  have hadded := hactive i hu
  rw [Option.any_eq_true] at hadded
  obtain ⟨channel, hch, ha⟩ := hadded
  have hch' : channel? { s with
      eventHandling := true, activeChannels := active, unhandled := active,
      currentActiveChannel := none } i = some channel := hch
  rw [Known, hch']
  exact decide_eq_true (by rw [of_decide_eq_true ha]; decide)

theorem handleEvent_inv (hi : s.Inv) (r : Revents) :
    Yields (s.handleEvent r) Inv (· ≠ .removeChannel) := by
  unfold handleEvent
  split
  · exact (yields_ok _ _ _).mpr hi
  · next i rest hu =>
    split_ifs
    · exact (yields_error _ _ _).mpr (by simp)
    · have hnodup : i ∉ rest ∧ rest.Nodup := List.nodup_cons.mp (hu ▸ hi.nodup)
      have hsub : ∀ j ∈ rest, j ∈ s.unhandled := fun j hj => hu ▸ List.mem_cons_of_mem _ hj
      refine (yields_ok _ _ _).mpr ⟨fun he => ?_, fun j hj => hi.active j (hsub j hj), hnodup.2,
        fun j hj => ?_, fun j hj => hi.known j (hsub j hj), hi.owned⟩
      · exact nomatch hu.symm.trans (hi.idle he)
      · cases hj
        exact hnodup.1

theorem swap_inv (hi : s.Inv) (he : s.Enabled .swap) :
    Yields (s.step .swap) Inv (· ≠ .removeChannel) :=
  (yields_ok _ _ _).mpr ⟨fun _ => he.2.2, hi.active, hi.nodup, nofun, hi.known, hi.owned⟩

theorem step_yields (hi : s.Inv) {a : Action} (he : s.Enabled a) (hs : s.Safe a) :
    Yields (s.step a) Inv (· ≠ .removeChannel) := by
  by_cases hpoll : ∃ active, a = .poll active
  · obtain ⟨active, rfl⟩ := hpoll
    exact poll_inv hi he
  by_cases hevent : ∃ r, a = .handleEvent r
  · obtain ⟨r, rfl⟩ := hevent
    exact handleEvent_inv hi r
  by_cases hswap : a = .swap
  · subst hswap
    exact swap_inv hi he
  have hsteady := step_steady hi he hs (fun active h => hpoll ⟨active, h⟩)
    (fun r h => hevent ⟨r, h⟩) hswap
  exact hsteady.imp (fun t ht => ht.inv hi)

theorem connection?_eq {i : ℕ} {p : TCPConnection × CloseCallback} (h : p ∈ s.connection? i) :
    s.objects i = some (.connection p.1 p.2) := by
  unfold connection? at h
  split at h
  · next conn onClose ho =>
    cases h
    exact ho
  · cases h

theorem connectDestroyed_breaks {i : ℕ} {p : TCPConnection × CloseCallback}
    (hp : p ∈ s.connection? i)
    (hready : p.1.state = .kConnected ∨ p.1.channel.isNoneEvent = true) (hr : ¬s.Removable i) :
    s.connectDestroyed i = .error .removeChannel := by
  rw [connectDestroyed, connection?_eq hp]
  dsimp only
  rw [assertThat_of hready, removeChannel, if_neg hr]
  rfl

theorem serverDeleted_breaks {k : ℕ} {x : LoopServer} (hx : s.servers k = some x)
    (ha : (s.objects x.acceptor).any LoopObject.isAcceptor = true) (hr : ¬s.Removable x.acceptor) :
    s.serverDeleted k = .error .removeChannel := by
  rw [Option.any_eq_true] at ha
  obtain ⟨o, ho, hacc⟩ := ha
  cases o with
  | acceptor l channel =>
    rw [serverDeleted, hx]
    dsimp only
    rw [ho]
    dsimp only
    rw [removeChannel, if_neg hr]
    rfl
  | connection conn onClose => cases hacc
  | connector l => cases hacc
  | timerQueue channel => cases hacc
  | wakeup channel => cases hacc

/-- `~TCPServer` fails the loop's assertion on a channel that is still listed
and is not the current one. -/
theorem step_breaks {a : Action} (he : s.Enabled a) (hs : ¬s.Safe a) :
    s.step a = .error .removeChannel := by
  cases a with
  | deleteConnection k i =>
    obtain ⟨p, hp⟩ := not_forall.mp hs
    obtain ⟨hmem, hrem⟩ := Classical.not_imp.mp hp
    obtain ⟨hready, hr⟩ := Classical.not_imp.mp hrem
    have hserver := he.2
    rw [Option.any_eq_true] at hserver
    obtain ⟨x, hx, -⟩ := hserver
    have hgo : s.step (.deleteConnection k i) =
        (s.putServer k { x with connections := x.connections.erase i }).connectDestroyed i := by
      rw [step, deleteConnection, hx]
    rw [hgo]
    exact connectDestroyed_breaks hmem hready hr
  | serverDeleted k =>
    obtain ⟨x, hx⟩ := not_forall.mp hs
    obtain ⟨hmem, hrem⟩ := Classical.not_imp.mp hx
    obtain ⟨hacc, hr⟩ := Classical.not_imp.mp hrem
    exact serverDeleted_breaks hmem hacc hr
  | _ => exact absurd trivial hs

end Steps

theorem construct_inv : construct.Inv where
  idle _ := rfl
  active _ h := absurd h List.not_mem_nil
  nodup := List.nodup_nil
  current _ h := nomatch h
  known _ h := absurd h List.not_mem_nil
  owned i k ho := by
    unfold construct at ho
    dsimp only at ho
    by_cases h1 : i = 1
    · subst h1
      cases ho
    · rw [Function.update_of_ne h1] at ho
      by_cases h0 : i = 0
      · subst h0
        cases ho
      · rw [Function.update_of_ne h0] at ho
        cases ho

/-- In every order of polls, events, functors, timers and calls of users, no
channel is removed that the iteration has still to handle, exactly if no
`~TCPServer` in the event phase meets a channel that is active and not the one
being handled. -/
theorem channels_dispatchable (as : List Action) (ha : Admitted step Enabled construct as) :
    Throughout step Dispatchable (· ≠ .removeChannel) construct as ↔
      Admitted step Safe construct as := by
  refine throughout_iff Enabled Safe (fun _ => inv_dispatchable)
    (fun _ _ hi he hs => step_yields hi he hs) (fun s a _ he hs hy => ?_) as _ construct_inv ha
  exact hy.error (step_breaks he hs) rfl

/-- What the kernel answers where a step uses only the named part. -/
def answers (address : ℕ) (accepted : Option ℕ) (read : List Byte) : Answers where
  read := .read read
  write := .failed EWOULDBLOCK
  connect := ⟨0, 0⟩
  soError := 0
  selfConnect := false
  accepted := accepted
  address := address
  writeComplete := false
  highWater := false
  mark := 64

def readable (active : List ℕ) (a : Answers) : List Action :=
  [.poll active, .handleEvent ⟨true, false, false, false, false, false, false⟩, .callback a]

def acceptTwo : List Action :=
  [.newServer 0 2 5, .listen 0] ++ readable [2] (answers 3 (some 6) []) ++ [.swap] ++
    readable [2] (answers 4 (some 7) []) ++ [.swap]

/-- The server is destroyed in the message callback of the one connection,
while the other is idle. -/
theorem channels_dispatchable_idle :
    Throughout step Dispatchable (· ≠ .removeChannel) construct (acceptTwo ++
      readable [3] (answers 5 none [104]) ++ [.deleteServer 0, .deleteConnection 0 3,
        .deleteConnection 0 4, .serverDeleted 0, .swap]) :=
  (channels_dispatchable _ (by decide +kernel)).mpr (by decide +kernel)

def destroyEarly : List Action :=
  acceptTwo ++ readable [3, 4] (answers 5 none [104]) ++
    [.deleteServer 0, .deleteConnection 0 3, .deleteConnection 0 4]

theorem channels_not_dispatchable :
    ¬∀ as : List Action, Admitted step Enabled construct as →
      Throughout step Dispatchable (· ≠ .removeChannel) construct as := by
  intro h
  have hrun : (match run step construct destroyEarly with
    | .ok _ => none
    | .error e => some e) = some .removeChannel := by decide +kernel
  have hy := h destroyEarly (by decide +kernel) destroyEarly List.prefix_rfl
  cases hr : run step construct destroyEarly with
  | ok t =>
    rw [hr] at hrun
    cases hrun
  | error e =>
    rw [hr] at hrun
    exact hy.error hr (Option.some.inj hrun)

end ChannelLoop

end Lux.Polaris

import LuxPolaris.Connector

/-!
# The connector's state and its channel

A connector that is connecting has a registered channel, and one that has left
that state keeps the channel, unregistered, until the functor `resetChannel`
has run. The invariant says where that functor stands in the queue and that
nothing can start a new attempt ahead of it. It holds as long as `connect` is
called on an idle connector and no attempt overtakes `resetChannel`.
-/

set_option autoImplicit false

namespace Lux.Polaris.TCPClient
open Outcome

def queue (c : TCPClient) : List ClientFunctor := c.functors ++ c.pendingFunctors

def Registered (c : TCPClient) : Prop :=
  ∃ channel, c.connector.channel = some channel ∧ channel.index ≠ .kNew

/-- The channel is out of the poller and waits for `resetChannel`. -/
def Resetting (c : TCPClient) : Prop :=
  ∃ channel, c.connector.channel = some channel ∧ channel.index = .kNew

/-- `resetChannel` is queued once, with no start and no close of an open
connection ahead of it. -/
def ResetQueued (c : TCPClient) : Prop :=
  ∃ ahead behind, c.queue = ahead ++ .resetChannel::behind ∧
    ClientFunctor.resetChannel ∉ ahead ∧ ClientFunctor.resetChannel ∉ behind ∧
    ClientFunctor.startInLoop ∉ ahead ∧
    ∀ conn ∈ c.openConnections, ClientFunctor.forceCloseInLoop conn ∉ ahead

def Idle (c : TCPClient) : Prop :=
  c.connector.state = .kDisconnected ∧ ClientFunctor.startInLoop ∉ c.queue ∧ c.retryTimers = []

def Proceeds (k : ConnectResult) : Prop := k.savedErrno ∈ [0, EINPROGRESS, EINTR, EISCONN]

/-- The use of the client that its connector is made for. -/
def Used (c : TCPClient) : Action → Prop
  | .connect inLoopThread k =>
    c.Idle ∧ (inLoopThread = true → Proceeds k → c.connector.channel = none)
  | .retryTimer _ k =>
    c.connector.connect_ = true → Proceeds k → c.connector.channel = none
  | _ => True

instance (c : TCPClient) : Decidable c.Idle := inferInstanceAs (Decidable (_ ∧ _ ∧ _))

instance (k : ConnectResult) : Decidable (Proceeds k) := inferInstanceAs (Decidable (_ ∈ _))

instance (c : TCPClient) : (a : Action) → Decidable (c.Used a)
  | .connect _ _ => inferInstanceAs (Decidable (_ ∧ (_ → _ → _)))
  | .retryTimer _ _ => inferInstanceAs (Decidable (_ → _ → _))
  | .stop => isTrue trivial
  | .disconnect => isTrue trivial
  | .enableRetry => isTrue trivial
  | .forceClose _ => isTrue trivial
  | .poll _ _ => isTrue trivial
  | .handleEvent _ _ _ => isTrue trivial
  | .closeEvent _ _ => isTrue trivial
  | .swap => isTrue trivial
  | .runFunctor _ => isTrue trivial

structure Inv (c : TCPClient) : Prop where
  connecting : c.connector.state = .kConnecting ↔ c.Registered
  channel : ∀ channel, c.connector.channel = some channel →
    channel.index = .kAdded ∨ channel.index = .kNew ∧ channel.addedToLoop = false
  reset : c.Resetting → c.ResetQueued
  no_reset : ¬c.Resetting → ClientFunctor.resetChannel ∉ c.queue
  start : ClientFunctor.startInLoop ∈ c.queue → c.connector.state = .kDisconnected ∧
    c.retryTimers = [] ∧ c.queue.count .startInLoop = 1
  timer : c.retryTimers ≠ [] → c.connector.state = .kDisconnected ∧ c.retryTimers.length = 1
  connected : c.connection ≠ none → c.connector.state = .kConnected
  opened : c.openConnections = c.connection.toList
  conn_lt : ∀ conn, conn ∈ c.openConnections ∨ conn ∈ c.activeConnections ∨
    ClientFunctor.forceCloseInLoop conn ∈ c.queue → conn < c.nextConnId
  active : c.channelActive = true → c.connector.state = .kConnecting ∧ c.inEvents = true
  settled : ∀ conn ∈ c.activeConnections, c.connection = some conn → c.connector.channel = none
  swapped : c.inEvents = true → c.functors = []
  reset_next : c.inEvents = false → c.connection ≠ none → c.Resetting →
    ClientFunctor.resetChannel ∈ c.functors

theorem construct_inv : construct.Inv where
  connecting := by simp [construct, Registered]
  channel := by simp [construct]
  reset := by simp [construct, Resetting]
  no_reset := by simp [construct, queue]
  start := by simp [construct, queue]
  timer := by simp [construct]
  connected := by simp [construct]
  opened := rfl
  conn_lt := by simp [construct, queue]
  active := by simp [construct]
  settled := by simp [construct]
  swapped := fun _ => rfl
  reset_next := by simp [construct]

section Queue

theorem queued_inv {c : TCPClient} (hi : c.Inv) {f : ClientFunctor} (hs : f ≠ .startInLoop)
    (hr : f ≠ .resetChannel) (hc : ∀ conn, f = .forceCloseInLoop conn → conn < c.nextConnId) :
    (c.queueInLoop f).Inv := by
  have hq : (c.queueInLoop f).queue = c.queue ++ [f] := by simp [queue, queueInLoop]
  refine { hi with reset := ?_, no_reset := ?_, start := ?_, conn_lt := ?_ }
  · intro h
    obtain ⟨ahead, behind, heq, ha, hb, hst, ho⟩ := hi.reset h
    refine ⟨ahead, behind ++ [f], ?_, ha, ?_, hst, ho⟩
    · rw [hq, heq, List.append_assoc, List.cons_append]
    · simp [hb, Ne.symm hr]
  · intro h
    rw [hq]
    simp [hi.no_reset h, Ne.symm hr]
  · intro h
    rw [hq] at h ⊢
    have hin : ClientFunctor.startInLoop ∈ c.queue := by simpa [Ne.symm hs] using h
    obtain ⟨h₁, h₂, h₃⟩ := hi.start hin
    refine ⟨h₁, h₂, ?_⟩
    rw [List.count_append, h₃]
    simp [hs]
  · intro conn h
    rw [hq, List.mem_append, List.mem_singleton] at h
    rcases h with h | h | h | h
    · exact hi.conn_lt conn (Or.inl h)
    · exact hi.conn_lt conn (Or.inr (Or.inl h))
    · exact hi.conn_lt conn (Or.inr (Or.inr h))
    · exact hc conn h.symm

theorem popped_inv {c : TCPClient} (hi : c.Inv) {f : ClientFunctor} {fs : List ClientFunctor}
    (hf : c.functors = f::fs) (hr : f ≠ .resetChannel) : Inv { c with functors := fs } := by
  have hq : c.queue = f::(fs ++ c.pendingFunctors) := by simp [queue, hf]
  have hout : c.inEvents = false := by
    by_contra h
    simp [hi.swapped (by simpa using h)] at hf
  refine {
    hi with
    reset := ?_, no_reset := ?_, start := ?_, conn_lt := ?_, swapped := ?_, reset_next := ?_ }
  · intro h
    obtain ⟨ahead, behind, heq, ha, hb, hst, ho⟩ := hi.reset h
    cases ahead with
    | nil =>
      rw [hq] at heq
      exact absurd (List.cons.inj heq).1 hr
    | cons g ahead =>
      rw [hq] at heq
      exact ⟨ahead, behind, (List.cons.inj heq).2, fun h => ha (List.mem_cons_of_mem g h), hb,
        fun h => hst (List.mem_cons_of_mem g h),
        fun conn hc h => ho conn hc (List.mem_cons_of_mem g h)⟩
  · intro h hm
    refine hi.no_reset h ?_
    rw [hq]
    exact List.mem_cons_of_mem f hm
  · intro h
    obtain ⟨h₁, h₂, h₃⟩ := hi.start (by rw [hq]; exact List.mem_cons_of_mem f h)
    refine ⟨h₁, h₂, ?_⟩
    have hpos := List.count_pos_iff.mpr h
    rw [hq, List.count_cons] at h₃
    change (fs ++ c.pendingFunctors).count .startInLoop = 1
    change 0 < (fs ++ c.pendingFunctors).count .startInLoop at hpos
    omega
  · intro conn h
    refine hi.conn_lt conn (h.imp_right (Or.imp_right fun hm => ?_))
    rw [hq]
    exact List.mem_cons_of_mem f hm
  · intro h
    simp [hout] at h
  · intro h₁ h₂ h₃
    have hm := hi.reset_next h₁ h₂ h₃
    rw [hf] at hm
    exact (List.mem_cons.mp hm).resolve_left (Ne.symm hr)

end Queue

section Attempt

theorem not_resetting {c : TCPClient} (h : c.connector.channel = none) : ¬c.Resetting := by
  rintro ⟨channel, hc, _⟩
  rw [h] at hc
  cases hc

theorem not_registered {c : TCPClient} (h : c.connector.channel = none) : ¬c.Registered := by
  rintro ⟨channel, hc, _⟩
  rw [h] at hc
  cases hc

theorem no_connection {c : TCPClient} (hi : c.Inv) (h : c.connector.state ≠ .kConnected) :
    c.connection = none := by
  by_contra hn
  exact h (hi.connected hn)

theorem retry_frame (c : TCPClient) : c.retry.inEvents = c.inEvents ∧
    c.retry.channelActive = c.channelActive ∧ c.retry.connector.state = .kDisconnected := by
  by_cases hc : (c.setState .kDisconnected).connector.connect_ = true
  · simp only [retry, if_pos hc]
    exact ⟨rfl, rfl, rfl⟩
  · simp only [retry, if_neg hc]
    exact ⟨rfl, rfl, rfl⟩

theorem retry_inv {c : TCPClient} (hi : c.Inv) (hd : c.connector.state = .kDisconnected)
    (ht : c.connector.connect_ = true → c.retryTimers = [] ∧
      ClientFunctor.startInLoop ∉ c.queue) : c.retry.Inv := by
  have hsame : c.setState .kDisconnected = c := by
    rw [setState, ← hd]
  simp only [retry, hsame]
  split_ifs with hc
  · obtain ⟨hnil, hnone⟩ := ht hc
    refine { hi with start := fun h => absurd h hnone, timer := fun _ => ⟨hd, ?_⟩ }
    simp [hnil]
  · exact hi

theorem connecting_inv {c : TCPClient} (hi : c.Inv) (hd : c.connector.state = .kDisconnected)
    (hn : c.connector.channel = none) (ht : c.retryTimers = [])
    (hs : ClientFunctor.startInLoop ∉ c.queue) (sockfd : ℕ) :
    ∃ c', c.connecting sockfd = .ok c' ∧ c'.Inv := by
  have hconn := no_connection hi (by simp [hd])
  have hchannel : (c.setState .kConnecting).connector.channel = none := hn
  refine ⟨_, by rw [connecting, assertThat_of hchannel, ok_bind]; rfl, ?_⟩
  refine {
    hi with
    connecting := ?_, channel := ?_, reset := ?_
    no_reset := fun _ => hi.no_reset (not_resetting hn)
    start := fun h => absurd h hs, timer := fun h => absurd ht h
    connected := fun h => absurd hconn h, active := ?_, settled := ?_
    reset_next := fun _ h => absurd hconn h }
  · exact ⟨fun _ => ⟨_, rfl, nofun⟩, fun _ => rfl⟩
  · intro channel h
    cases h
    exact Or.inl rfl
  · intro ⟨channel, h, hk⟩
    cases h
    cases hk
  · intro h
    have hk := (hi.active h).1
    rw [hd] at hk
    cases hk
  · intro conn _ h
    change c.connection = some conn at h
    rw [hconn] at h
    cases h

theorem startInLoop_inv {c : TCPClient} (hi : c.Inv) (hd : c.connector.state = .kDisconnected)
    (k : ConnectResult) (h : c.connector.connect_ = true →
      (Proceeds k → c.connector.channel = none) ∧ c.retryTimers = [] ∧
      ClientFunctor.startInLoop ∉ c.queue) :
    ∃ c', c.startInLoop k = .ok c' ∧ c'.Inv := by
  rw [startInLoop, assertThat_of hd, ok_bind]
  by_cases hc : c.connector.connect_ = true
  · obtain ⟨hn, ht, hs⟩ := h hc
    rw [if_pos hc, connectSocket]
    split_ifs with hp
    · exact connecting_inv hi hd (hn hp) ht hs k.sockfd
    · exact ⟨_, rfl, retry_inv hi hd (fun _ => ⟨ht, hs⟩)⟩
    · exact ⟨_, rfl, hi⟩
  · rw [if_neg hc]
    exact ⟨_, rfl, hi⟩

end Attempt

section Leaving

theorem removeAndResetChannel_of {c : TCPClient} {channel : Channel}
    (hc : c.connector.channel = some channel) (hk : channel.index = .kAdded) :
    ∃ removed : Channel, removed.index = .kNew ∧ removed.addedToLoop = false ∧
      c.removeAndResetChannel = .ok { c with
        connector := { c.connector with channel := some removed }
        pendingFunctors := c.pendingFunctors ++ [.resetChannel] } := by
  have hnone : channel.disableAll.isNoneEvent = true := by simp [Channel.isNoneEvent]
  have hindex : channel.disableAll.index ≠ .kNew := by simp [channel.disableAll_index hk]
  refine ⟨{ channel.disableAll with addedToLoop := false, index := .kNew }, rfl, rfl, ?_⟩
  simp only [removeAndResetChannel, hc, Channel.remove, assertThat_of hnone, assertThat_of hindex,
    ok_bind, pure_eq_ok]
  rfl

theorem registered_of {c : TCPClient} (hi : c.Inv) (hk : c.connector.state = .kConnecting) :
    ∃ channel, c.connector.channel = some channel ∧ channel.index = .kAdded := by
  obtain ⟨channel, hc, hn⟩ := hi.connecting.mp hk
  exact ⟨channel, hc, (hi.channel channel hc).resolve_right (fun h => hn h.1)⟩

/-- A connector that has left the connecting state: its channel is out of the
poller and `resetChannel` is last in the queue. -/
theorem left_inv {c : TCPClient} (hi : c.Inv) (hk : c.connector.state = .kConnecting)
    (ha : c.channelActive = false) {removed : Channel} (hn : removed.index = .kNew)
    (hr : removed.addedToLoop = false) {s : States} (hs : s ≠ .kConnecting) :
    Inv { c with
      connector := { c.connector with state := s, channel := some removed }
      pendingFunctors := c.pendingFunctors ++ [.resetChannel] } := by
  have hconn := no_connection hi (by simp [hk])
  have hopen : c.openConnections = [] := by rw [hi.opened, hconn]; rfl
  have hnr : ¬c.Resetting := by
    obtain ⟨channel, hc, hadded⟩ := registered_of hi hk
    rintro ⟨channel', hc', hnew⟩
    rw [hc] at hc'
    cases hc'
    rw [hadded] at hnew
    cases hnew
  have hq : ∀ f, f ∈ queue { c with
      connector := { c.connector with state := s, channel := some removed }
      pendingFunctors := c.pendingFunctors ++ [.resetChannel] } ↔
      f ∈ c.queue ∨ f = .resetChannel := by
    intro f
    simp [queue, or_assoc]
  refine {
    hi with
    connecting := ?_, channel := ?_, reset := ?_, no_reset := ?_, start := ?_, timer := ?_
    connected := fun h => absurd hconn h, conn_lt := ?_, active := ?_, settled := ?_
    reset_next := fun _ h => absurd hconn h }
  · refine ⟨fun h => absurd h hs, ?_⟩
    intro ⟨channel, h, hne⟩
    cases h
    exact absurd hn hne
  · intro channel h
    cases h
    exact Or.inr ⟨hn, hr⟩
  · intro _
    refine ⟨c.queue, [], ?_, hi.no_reset hnr, List.not_mem_nil, ?_, ?_⟩
    · simp [queue]
    · exact fun h => nomatch hk.symm.trans (hi.start h).1
    · intro conn h
      change conn ∈ c.openConnections at h
      rw [hopen] at h
      exact absurd h List.not_mem_nil
  · exact fun h => absurd ⟨removed, rfl, hn⟩ h
  · intro h
    have hd := (hi.start (((hq _).mp h).resolve_right nofun)).1
    rw [hk] at hd
    cases hd
  · intro h
    have hd := (hi.timer h).1
    rw [hk] at hd
    cases hd
  · intro conn h
    refine hi.conn_lt conn (h.imp_right (Or.imp_right fun hm => ?_))
    exact ((hq _).mp hm).resolve_right nofun
  · intro h
    change c.channelActive = true at h
    rw [ha] at h
    cases h
  · intro conn _ h
    change c.connection = some conn at h
    rw [hconn] at h
    cases h

theorem left_retry_inv {c : TCPClient} (hi : c.Inv) (hk : c.connector.state = .kConnecting)
    (ha : c.channelActive = false) {removed : Channel} (hn : removed.index = .kNew)
    (hr : removed.addedToLoop = false) :
    Inv (retry { c with
      connector := { c.connector with state := .kDisconnected, channel := some removed }
      pendingFunctors := c.pendingFunctors ++ [.resetChannel] }) := by
  have hne : States.kDisconnected ≠ .kConnecting := by decide
  have hleft := left_inv hi hk ha hn hr hne
  refine retry_inv hleft rfl (fun _ => ⟨?_, ?_⟩)
  · by_contra h
    have hd := (hi.timer h).1
    rw [hk] at hd
    cases hd
  · intro h
    simp only [queue, ← List.append_assoc, List.mem_append, List.mem_singleton] at h
    have hd := (hi.start (List.mem_append.mpr (h.resolve_right nofun))).1
    rw [hk] at hd
    cases hd

theorem newConnection_inv {c : TCPClient} (hi : c.Inv) (hk : c.connector.state = .kConnected)
    (hn : c.connection = none) (he : c.inEvents = true) : c.newConnection.Inv := by
  have hopen : c.openConnections = [] := by rw [hi.opened, hn]; rfl
  refine {
    hi with
    reset := ?_, connected := fun _ => hk, opened := ?_, conn_lt := ?_, settled := ?_
    reset_next := ?_ }
  · intro h
    obtain ⟨ahead, behind, heq, ha, hb, hst, -⟩ := hi.reset h
    refine ⟨ahead, behind, heq, ha, hb, hst, fun conn hc hm => ?_⟩
    have hlt := hi.conn_lt conn (Or.inr (Or.inr (by rw [heq]; exact List.mem_append_left _ hm)))
    simp only [newConnection, hopen, List.nil_append, List.mem_singleton] at hc
    omega
  · simp [newConnection, hopen]
  · intro conn h
    simp only [newConnection, hopen, List.nil_append, List.mem_singleton] at h ⊢
    rcases h with h | h | h
    · omega
    · have := hi.conn_lt conn (Or.inr (Or.inl h))
      omega
    · have := hi.conn_lt conn (Or.inr (Or.inr h))
      omega
  · intro conn hc h
    have hlt := hi.conn_lt conn (Or.inr (Or.inl hc))
    cases h
    exact absurd hlt (Nat.lt_irrefl _)
  · intro h
    change c.inEvents = false at h
    rw [he] at h
    cases h

structure Handling (c : TCPClient) : Prop where
  inv : c.Inv
  inEvents : c.inEvents = true
  handled : c.channelActive = false
  state : c.connector.state ≠ .kConnected

theorem handleError_handling {c : TCPClient} (h : c.Handling) :
    ∃ c', c.handleError = .ok c' ∧ c'.Handling := by
  by_cases hk : c.connector.state = .kConnecting
  · obtain ⟨channel, hc, hadded⟩ := registered_of h.inv hk
    obtain ⟨removed, hn, hr, heq⟩ := removeAndResetChannel_of hc hadded
    refine ⟨_, by rw [handleError, if_pos hk, heq, ok_bind]; rfl, ?_⟩
    obtain ⟨he, ha, hs⟩ := retry_frame { c with
      connector := { c.connector with state := .kDisconnected, channel := some removed }
      pendingFunctors := c.pendingFunctors ++ [.resetChannel] }
    exact ⟨left_retry_inv h.inv hk h.handled hn hr, he.trans h.inEvents, ha.trans h.handled,
      fun hd => nomatch hs.symm.trans hd⟩
  · exact ⟨c, by rw [handleError, if_neg hk]; rfl, h⟩

theorem handleWrite_inv {c : TCPClient} (h : c.Handling) (soError : ℕ) (selfConnect : Bool) :
    ∃ c', c.handleWrite soError selfConnect = .ok c' ∧ c'.Inv := by
  by_cases hk : c.connector.state = .kConnecting
  · obtain ⟨channel, hc, hadded⟩ := registered_of h.inv hk
    obtain ⟨removed, hn, hr, heq⟩ := removeAndResetChannel_of hc hadded
    have hretry := left_retry_inv h.inv hk h.handled hn hr
    have hne : States.kConnected ≠ .kConnecting := by decide
    have hleft := left_inv h.inv hk h.handled hn hr hne
    have hnone := no_connection h.inv h.state
    rw [handleWrite, if_pos hk, heq, ok_bind]
    by_cases he : soError = 0
    · cases selfConnect with
      | true => exact ⟨_, by rw [if_neg (not_not.mpr he)]; rfl, hretry⟩
      | false =>
        rw [if_neg (not_not.mpr he)]
        by_cases hconnect : c.connector.connect_ = true
        · have hnew := newConnection_inv hleft rfl hnone h.inEvents
          exact ⟨_, congrArg Except.ok (if_pos hconnect), hnew⟩
        · exact ⟨_, congrArg Except.ok (if_neg hconnect), hleft⟩
    · exact ⟨_, by rw [if_pos he]; rfl, hretry⟩
  · have hd : c.connector.state = .kDisconnected := by
      cases hs : c.connector.state with
      | kDisconnected => rfl
      | kConnecting => exact absurd hs hk
      | kConnected => exact absurd hs h.state
    refine ⟨c, ?_, h.inv⟩
    rw [handleWrite, if_neg hk, assertThat_of hd]
    rfl

theorem handleCallbacks_append (c : TCPClient) (soError : ℕ) (selfConnect : Bool)
    (as bs : List Callback) :
    c.handleCallbacks soError selfConnect (as ++ bs) =
      c.handleCallbacks soError selfConnect as >>=
        fun c' => c'.handleCallbacks soError selfConnect bs := by
  induction as generalizing c with
  | nil => rfl
  | cons a as ih =>
    simp only [List.cons_append, handleCallbacks]
    cases h : c.handleCallback soError selfConnect a with
    | ok c' => exact ih c'
    | error e => rfl

theorem handleCallbacks_handling {c : TCPClient} (h : c.Handling) (soError : ℕ)
    (selfConnect : Bool) {callbacks : List Callback} (hw : Callback.write ∉ callbacks) :
    ∃ c', c.handleCallbacks soError selfConnect callbacks = .ok c' ∧ c'.Handling := by
  induction callbacks generalizing c with
  | nil => exact ⟨c, rfl, h⟩
  | cons callback callbacks ih =>
    have hrest : Callback.write ∉ callbacks := fun hm => hw (List.mem_cons_of_mem _ hm)
    cases callback with
    | close => exact ih h hrest
    | read => exact ih h hrest
    | write => exact absurd List.mem_cons_self hw
    | error =>
      obtain ⟨c', hok, h'⟩ := handleError_handling h
      obtain ⟨c'', hok', h''⟩ := ih h' hrest
      exact ⟨c'', by rw [handleCallbacks, handleCallback, hok, ok_bind, hok'], h''⟩

theorem handleEvent_inv {c : TCPClient} (hi : c.Inv) (ha : c.channelActive = true) (r : Revents)
    (soError : ℕ) (selfConnect : Bool) :
    ∃ c', c.handleEvent r soError selfConnect = .ok c' ∧ c'.Inv := by
  obtain ⟨hk, he⟩ := hi.active ha
  obtain ⟨channel, hc, -⟩ := registered_of hi hk
  have h : Handling { c with channelActive := false } :=
    ⟨{ hi with active := nofun }, he, rfl, by simp [hk]⟩
  have hw : Callback.write ∉ (if r.pollhup && !r.pollin then [Callback.close] else []) ++
      (if r.pollerr || r.pollnval then [.error] else []) ++
      (if r.pollin || r.pollpri || r.pollrdhup then [.read] else []) := by
    split_ifs <;> simp
  obtain ⟨c', hok, h'⟩ := handleCallbacks_handling h soError selfConnect hw
  simp only [handleEvent, hc, Channel.callbacks, handleCallbacks_append _ _ _ (_ ++ _ ++ _), hok,
    ok_bind]
  split_ifs
  · obtain ⟨c'', hok', hi''⟩ := handleWrite_inv h' soError selfConnect
    exact ⟨c'', by rw [handleCallbacks, handleCallback, hok', ok_bind]; rfl, hi''⟩
  · exact ⟨c', rfl, h'.inv⟩

theorem stopInLoop_inv {c : TCPClient} (hi : c.Inv) (he : c.inEvents = false) :
    ∃ c', c.stopInLoop = .ok c' ∧ c'.Inv := by
  by_cases hk : c.connector.state = .kConnecting
  · obtain ⟨channel, hc, hadded⟩ := registered_of hi hk
    have hc' : (c.setState .kDisconnected).connector.channel = some channel := hc
    obtain ⟨removed, hn, hr, heq⟩ := removeAndResetChannel_of hc' hadded
    have ha : c.channelActive = false := by
      by_contra h
      simp [(hi.active (by simpa using h)).2] at he
    refine ⟨_, ?_, left_retry_inv hi hk ha hn hr⟩
    simp only [stopInLoop, if_pos hk, heq, ok_bind]
    rfl
  · exact ⟨c, by rw [stopInLoop, if_neg hk]; rfl, hi⟩

end Leaving

end Lux.Polaris.TCPClient

import LuxPolaris.ConnectorInvariant

/-!
# Stopping a client from another thread

`TCPClient::stop` stores the client's `connect_`, then the connector's, and
queues `stopInLoop`. Each of these is a step here, and so is each access of
the loop thread to one of the two flags: the test in `removeConnection`, the
store in `restart`, and the tests in `startInLoop`, `retry` and `handleWrite`.
Between two of them the loop thread does what `TCPClient` does there.
-/

set_option autoImplicit false

namespace Lux.Polaris
open Outcome

/-- What the loop thread is about to do: test or store a flag in the function
named. `stopRetrying` is a `retry` called by `stopInLoop`. -/
inductive ClientAt where
  | idle
  | removeConnection
  | restart
  | startInLoop
  | retry
  | stopRetrying
  | handleWrite
  deriving DecidableEq, Repr

/-- How far a foreign thread is in `connect()` or `stop()`. -/
inductive ClientCall where
  | none
  | connectClient
  | connectConnector
  | stopClient
  | stopConnector
  deriving DecidableEq, Repr

/-- History of the last `stop()`: it is on its way, it has returned and `left`
functors `stopInLoop` are to run up to its own, or its own has run. A later
`connect()` begins anew. -/
inductive StopPhase where
  | notStopped
  | stopping
  | returned (left : ℕ)
  | settled
  deriving DecidableEq, Repr

/-- `handling` are the callbacks of the channel's event still to be made.
`attempts` counts the calls of `::connect`, `late` those of a settled client. -/
structure ClientThreads where
  client : TCPClient
  loop : ClientAt
  handling : List Callback
  call : ClientCall
  phase : StopPhase
  attempts : ℕ
  late : ℕ
  deriving DecidableEq, Repr

namespace ClientThreads

def construct : ClientThreads := ⟨.construct, .idle, [], .none, .notStopped, 0, 0⟩

def finishStop (s : ClientThreads) : ClientThreads :=
  match s.phase with
  | .returned left =>
    { s with phase := if left ≤ 1 then StopPhase.settled else .returned (left-1) }
  | _ => s

def stopsLeft (s : ClientThreads) : ℕ :=
  s.client.queue.count .stopInLoop + if s.loop = .stopRetrying then 1 else 0

def attempt (s : ClientThreads) : ClientThreads :=
  { s with
    attempts := s.attempts+1
    late := if s.phase = StopPhase.settled then s.late+1 else s.late }

def connectSocket (s : ClientThreads) (k : ConnectResult) : Except Fault ClientThreads :=
  let s := s.attempt
  if k.savedErrno ∈ [0, EINPROGRESS, EINTR, EISCONN] then do
    let c ← s.client.connecting k.sockfd
    return { s with client := c, loop := .idle }
  else if k.savedErrno ∈ [EAGAIN, EADDRINUSE, EADDRNOTAVAIL, ECONNREFUSED, ENETUNREACH] then
    .ok { s with loop := .retry }
  else .ok { s with loop := .idle }

/-- The loop thread's next access to a flag, and on to the one after it. -/
def advance (s : ClientThreads) (k : ConnectResult) : Except Fault ClientThreads :=
  match s.loop with
  | .idle => .ok s
  | .removeConnection => .ok { s with
      loop := if s.client.retry_ && s.client.connect_ then .restart else .idle }
  | .restart => .ok { s with
      client := { s.client with connector := { s.client.connector with
        state := .kDisconnected, retryDelayMs := kInitRetryDelayMs, connect_ := true } }
      loop := .startInLoop }
  | .startInLoop => do
    assertThat (s.client.connector.state = .kDisconnected) "state_ == kDisconnected"
    if s.client.connector.connect_ then s.connectSocket k else return { s with loop := .idle }
  | .retry => .ok { s with client := s.client.retry, loop := .idle }
  | .stopRetrying => .ok (finishStop { s with client := s.client.retry, loop := .idle })
  | .handleWrite => .ok { s with
      client := if s.client.connector.connect_ then s.client.newConnection else s.client
      loop := .idle }

def nextAccess (s : ClientThreads) : ClientThreads :=
  match s.call with
  | .none => s
  | .connectClient => { s with
      client := { s.client with connector := { s.client.connector with connect_ := true } }
      call := .connectConnector }
  | .connectConnector => { s with client := s.client.queueInLoop .startInLoop, call := .none }
  | .stopClient => { s with
      client := { s.client with connector := { s.client.connector with connect_ := false } }
      call := .stopConnector }
  | .stopConnector => { s with
      client := s.client.queueInLoop .stopInLoop
      call := .none
      phase := .returned (s.stopsLeft+1) }

def removeConnection (s : ClientThreads) (conn : ℕ) : Except Fault ClientThreads := do
  assertThat (s.client.connection = some conn) "connection_ == conn"
  return { s with
    client := { s.client with connection := none }.queueInLoop (.connectDestroyed conn)
    loop := .removeConnection }

def handleClose (s : ClientThreads) (conn : ℕ) : Except Fault ClientThreads :=
  removeConnection { s with client := { s.client with
    openConnections := s.client.openConnections.erase conn } } conn

def stopInLoop (s : ClientThreads) : Except Fault ClientThreads := do
  if s.client.connector.state = .kConnecting then
    let c ← (s.client.setState .kDisconnected).removeAndResetChannel
    return { s with client := c, loop := .stopRetrying }
  else return s.finishStop

def handleWrite (s : ClientThreads) (soError : ℕ) (selfConnect : Bool) :
    Except Fault ClientThreads := do
  if s.client.connector.state = .kConnecting then
    let c ← s.client.removeAndResetChannel
    if soError ≠ 0 then return { s with client := c, loop := .retry }
    else if selfConnect then return { s with client := c, loop := .retry }
    else return { s with client := c.setState .kConnected, loop := .handleWrite }
  else
    assertThat (s.client.connector.state = .kDisconnected) "state_ == kDisconnected"
    return s

def handleError (s : ClientThreads) : Except Fault ClientThreads := do
  if s.client.connector.state = .kConnecting then
    let c ← s.client.removeAndResetChannel
    return { s with client := c, loop := .retry }
  else return s

def handleCallback (s : ClientThreads) (soError : ℕ) (selfConnect : Bool) :
    Callback → Except Fault ClientThreads
  | .error => s.handleError
  | .write => s.handleWrite soError selfConnect
  | .read => .ok s
  | .close => .ok s

def runFunctor (s : ClientThreads) : ClientFunctor → Except Fault ClientThreads
  | .startInLoop => .ok { s with loop := .startInLoop }
  | .stopInLoop => s.stopInLoop
  | .resetChannel => do
    let c ← s.client.resetChannel
    return { s with client := c }
  | .forceCloseInLoop conn =>
    if conn ∈ s.client.openConnections then s.handleClose conn else .ok s
  | .connectDestroyed _ => .ok s

/-- `connect`, `stop` and `nextAccess` are a foreign thread's, the others the
loop thread's. -/
inductive Action where
  | connect
  | stop
  | nextAccess
  | connectInLoop
  | enableRetry
  | disconnect
  | forceClose (conn : ℕ)
  | poll (ready : Bool) (conns : List ℕ)
  | handleEvent (r : Revents)
  | callback (soError : ℕ) (selfConnect : Bool)
  | closeEvent (conn : ℕ)
  | retryTimer (i : ℕ)
  | swap
  | runFunctor
  | advance (k : ConnectResult)

def step (s : ClientThreads) : Action → Except Fault ClientThreads
  | .connect => .ok { s with
      client := { s.client with connect_ := true }, call := .connectClient, phase := .notStopped }
  | .stop => .ok { s with
      client := { s.client with connect_ := false }, call := .stopClient, phase := .stopping }
  | .nextAccess => .ok s.nextAccess
  | .connectInLoop => .ok { s with
      client := { s.client with
        connect_ := true, connector := { s.client.connector with connect_ := true } }
      loop := .startInLoop
      phase := .notStopped }
  | .enableRetry => .ok { s with client := s.client.enableRetry }
  | .disconnect => .ok { s with client := s.client.disconnect }
  | .forceClose conn => .ok { s with client := s.client.queueInLoop (.forceCloseInLoop conn) }
  | .poll ready conns => .ok { s with client := { s.client with
      inEvents := true, channelActive := ready, activeConnections := conns } }
  | .handleEvent r =>
    match s.client.connector.channel with
    | none => .error .useAfterFree
    | some _ => .ok { s with
        client := { s.client with channelActive := false }, handling := Channel.callbacks r }
  | .callback soError selfConnect =>
    match s.handling with
    | [] => .ok s
    | cb::rest => handleCallback { s with handling := rest } soError selfConnect cb
  | .closeEvent conn => s.handleClose conn
  | .retryTimer i => .ok { s with
      client := { s.client with retryTimers := s.client.retryTimers.eraseIdx i }
      loop := .startInLoop }
  | .swap => .ok { s with client := { s.client with
      inEvents := false
      channelActive := false
      activeConnections := []
      functors := s.client.pendingFunctors
      pendingFunctors := [] } }
  | .runFunctor =>
    match s.client.functors with
    | [] => .ok s
    | f::functors => runFunctor { s with client := { s.client with functors := functors } } f
  | .advance k => s.advance k

/-- The order of the loop, as for `TCPClient`; the loop thread finishes what it
is in the middle of. Foreign threads make one call after the other. -/
def Enabled (s : ClientThreads) : Action → Prop
  | .connect => s.call = .none
  | .stop => s.call = .none
  | .nextAccess => s.call ≠ .none
  | .connectInLoop => s.call = .none ∧ s.loop = .idle
  | .enableRetry => True
  | .disconnect => True
  | .forceClose conn => conn ∈ s.client.openConnections
  | .poll ready conns => s.loop = .idle ∧ s.client.inEvents = false ∧ s.client.functors = [] ∧
      (ready = true →
        s.client.connector.channel.any (fun channel => channel.index = .kAdded) = true) ∧
      ∀ conn ∈ conns, conn ∈ s.client.openConnections
  | .handleEvent _ => s.loop = .idle ∧ s.handling = [] ∧ s.client.channelActive = true
  | .callback _ _ => s.loop = .idle ∧ s.handling ≠ []
  | .closeEvent conn => s.loop = .idle ∧ s.handling = [] ∧
      conn ∈ s.client.activeConnections ∧ conn ∈ s.client.openConnections
  | .retryTimer i => s.loop = .idle ∧ s.handling = [] ∧ s.client.inEvents = true ∧
      i < s.client.retryTimers.length
  | .swap => s.loop = .idle ∧ s.handling = [] ∧ s.client.inEvents = true
  | .runFunctor => s.loop = .idle ∧ s.client.functors ≠ []
  | .advance _ => s.loop ≠ .idle

instance (s : ClientThreads) : (a : Action) → Decidable (s.Enabled a)
  | .connect => inferInstanceAs (Decidable (_ = _))
  | .stop => inferInstanceAs (Decidable (_ = _))
  | .nextAccess => inferInstanceAs (Decidable (_ ≠ _))
  | .connectInLoop => inferInstanceAs (Decidable (_ ∧ _))
  | .enableRetry => isTrue trivial
  | .disconnect => isTrue trivial
  | .forceClose _ => inferInstanceAs (Decidable (_ ∈ _))
  | .poll _ _ => inferInstanceAs (Decidable (_ ∧ _ ∧ _ ∧ (_ → _) ∧ _))
  | .handleEvent _ => inferInstanceAs (Decidable (_ ∧ _ ∧ _))
  | .callback _ _ => inferInstanceAs (Decidable (_ ∧ _))
  | .closeEvent _ => inferInstanceAs (Decidable (_ ∧ _ ∧ _ ∧ _))
  | .retryTimer _ => inferInstanceAs (Decidable (_ ∧ _ ∧ _ ∧ _))
  | .swap => inferInstanceAs (Decidable (_ ∧ _ ∧ _))
  | .runFunctor => inferInstanceAs (Decidable (_ ∧ _))
  | .advance _ => inferInstanceAs (Decidable (_ ≠ _))

/-- No `::connect` after a `stop()` has taken effect. -/
def StaysStopped (s : ClientThreads) : Prop := s.late = 0

/-- `restart` stores `connect_` where no `stop()` has cleared it before. -/
def Timely (s : ClientThreads) : Action → Prop
  | .advance _ => s.loop = .restart → s.client.connector.connect_ = true
  | _ => True

instance (s : ClientThreads) : (a : Action) → Decidable (s.Timely a)
  | .advance _ => inferInstanceAs (Decidable (_ → _))
  | .connect => isTrue trivial
  | .stop => isTrue trivial
  | .nextAccess => isTrue trivial
  | .connectInLoop => isTrue trivial
  | .enableRetry => isTrue trivial
  | .disconnect => isTrue trivial
  | .forceClose _ => isTrue trivial
  | .poll _ _ => isTrue trivial
  | .handleEvent _ => isTrue trivial
  | .callback _ _ => isTrue trivial
  | .closeEvent _ => isTrue trivial
  | .retryTimer _ => isTrue trivial
  | .swap => isTrue trivial
  | .runFunctor => isTrue trivial

section Alone
variable {s : ClientThreads}

@[simp] theorem attempt_client (s : ClientThreads) : s.attempt.client = s.client := rfl

/-- With no other thread in between, the loop thread's accesses make up
`TCPClient.startInLoop`. -/
theorem startInLoop_alone (h : s.loop = .startInLoop) (k : ConnectResult) :
    client <$> run step s [.advance k, .advance k] = s.client.startInLoop k := by
  simp only [run, step, advance, h, TCPClient.startInLoop]
  by_cases hd : s.client.connector.state = .kDisconnected
  · rw [assertThat_of hd, ok_bind, ok_bind]
    by_cases hc : s.client.connector.connect_ = true
    · rw [if_pos hc, if_pos hc, connectSocket, TCPClient.connectSocket]
      split_ifs
      · rw [attempt_client]
        cases s.client.connecting k.sockfd <;> rfl
      · rfl
      · rfl
    · rw [if_neg hc, if_neg hc]
      rfl
  · rw [assertThat_of_not hd]
    rfl

theorem removeConnection_alone (conn : ℕ) (k : ConnectResult) :
    client <$> (s.removeConnection conn >>= fun t =>
      run step t [.advance k, .advance k, .advance k, .advance k]) =
        s.client.removeConnection conn k := by
  rw [removeConnection, TCPClient.removeConnection]
  by_cases hc : s.client.connection = some conn
  · rw [assertThat_of hc, ok_bind, ok_bind, pure_eq_ok, ok_bind]
    dsimp only
    set c := TCPClient.queueInLoop { s.client with connection := none } (.connectDestroyed conn)
    cases hr : c.retry_ && c.connect_ with
    | true =>
      have hrestart := startInLoop_alone (s := { s with
        client := { c with connector := { c.connector with
          state := .kDisconnected, retryDelayMs := kInitRetryDelayMs, connect_ := true } }
        loop := .startInLoop }) rfl k
      rw [if_pos rfl, TCPClient.restart, ← hrestart]
      simp only [run, step, advance, hr, if_true, ok_bind]
    | false =>
      simp only [run, step, advance, hr, Bool.false_eq_true, if_false, ok_bind]
      rfl
  · rw [assertThat_of_not hc]
    rfl

end Alone

/-- After the second store of a `stop()` the connector's flag is off. -/
structure Inv (s : ClientThreads) : Prop where
  cleared : s.phase ≠ .notStopped → s.call ≠ .stopClient → s.client.connector.connect_ = false
  begun : s.call = .stopClient ∨ s.call = .stopConnector → s.phase = .stopping
  anew : s.call = .connectClient ∨ s.call = .connectConnector → s.phase = .notStopped
  late : s.late = 0

theorem construct_inv : construct.Inv := ⟨fun h => absurd rfl h, nofun, nofun, rfl⟩

section Flags

theorem retry_flag (c : TCPClient) : c.retry.connector.connect_ = c.connector.connect_ := by
  by_cases hc : (c.setState .kDisconnected).connector.connect_ = true
  · simp only [TCPClient.retry, if_pos hc]
    rfl
  · simp only [TCPClient.retry, if_neg hc]
    rfl

theorem connecting_flag {c c' : TCPClient} {sockfd : ℕ} (h : c.connecting sockfd = .ok c') :
    c'.connector.connect_ = c.connector.connect_ := by
  obtain ⟨u, -, heq⟩ := bind_ok.mp h
  cases heq
  rfl

theorem removeAndResetChannel_flag {c c' : TCPClient} (h : c.removeAndResetChannel = .ok c') :
    c'.connector.connect_ = c.connector.connect_ := by
  unfold TCPClient.removeAndResetChannel at h
  cases hc : c.connector.channel with
  | none => simp [hc] at h
  | some channel =>
    simp only [hc] at h
    obtain ⟨removed, -, heq⟩ := bind_ok.mp h
    cases heq
    rfl

theorem resetChannel_flag {c c' : TCPClient} (h : c.resetChannel = .ok c') :
    c'.connector.connect_ = c.connector.connect_ := by
  unfold TCPClient.resetChannel at h
  cases hc : c.connector.channel with
  | none =>
    simp only [hc] at h
    cases h
    rfl
  | some channel =>
    simp only [hc] at h
    obtain ⟨u, -, h⟩ := bind_ok.mp h
    obtain ⟨u, -, h⟩ := bind_ok.mp h
    cases h
    rfl

end Flags

section Steps
variable {s s' : ClientThreads}

theorem Inv.frame (hi : s.Inv) (hflag : s'.client.connector.connect_ = s.client.connector.connect_)
    (hcall : s'.call = s.call) (hphase : s'.phase = s.phase) (hlate : s'.late = s.late) :
    s'.Inv := by
  refine ⟨?_, ?_, ?_, hlate.trans hi.late⟩
  · rw [hflag, hcall, hphase]
    exact hi.cleared
  · rw [hcall, hphase]
    exact hi.begun
  · rw [hcall, hphase]
    exact hi.anew

theorem finishStop_inv (hi : s.Inv) : s.finishStop.Inv := by
  unfold finishStop
  cases hp : s.phase with
  | notStopped => exact hi
  | stopping => exact hi
  | settled => exact hi
  | returned left =>
    have hbegun : ¬(s.call = .stopClient ∨ s.call = .stopConnector) := by
      intro h
      exact nomatch hp.symm.trans (hi.begun h)
    have hanew : ¬(s.call = .connectClient ∨ s.call = .connectConnector) := by
      intro h
      exact nomatch hp.symm.trans (hi.anew h)
    exact ⟨fun _ hc => hi.cleared (by simp [hp]) hc, fun h => absurd h hbegun,
      fun h => absurd h hanew, hi.late⟩

theorem attempt_inv (hi : s.Inv) (hc : s.client.connector.connect_ = true) : s.attempt.Inv := by
  have hphase : ¬s.phase = StopPhase.settled := by
    intro hp
    have hcall : s.call ≠ .stopClient := fun h => nomatch hp.symm.trans (hi.begun (Or.inl h))
    exact nomatch hc.symm.trans (hi.cleared (by simp [hp]) hcall)
  exact hi.frame rfl rfl rfl (if_neg hphase)

theorem connectSocket_inv (hi : s.Inv) (hc : s.client.connector.connect_ = true)
    {k : ConnectResult} (h : s.connectSocket k = .ok s') : s'.Inv := by
  have ha := attempt_inv hi hc
  rw [connectSocket] at h
  split_ifs at h
  · obtain ⟨c, hconnecting, heq⟩ := bind_ok.mp h
    cases heq
    exact ha.frame (connecting_flag hconnecting) rfl rfl rfl
  · cases h
    exact ha.frame rfl rfl rfl rfl
  · cases h
    exact ha.frame rfl rfl rfl rfl

theorem advance_inv (hi : s.Inv) {k : ConnectResult}
    (ht : s.loop = .restart → s.client.connector.connect_ = true) (h : s.advance k = .ok s') :
    s'.Inv := by
  rw [advance] at h
  cases hl : s.loop with
  | idle =>
    simp only [hl] at h
    cases h
    exact hi
  | removeConnection =>
    simp only [hl] at h
    cases h
    exact hi.frame rfl rfl rfl rfl
  | restart =>
    simp only [hl] at h
    cases h
    exact hi.frame (ht hl).symm rfl rfl rfl
  | startInLoop =>
    simp only [hl] at h
    obtain ⟨u, -, h⟩ := bind_ok.mp h
    split_ifs at h with hc
    · exact connectSocket_inv hi hc h
    · cases h
      exact hi.frame rfl rfl rfl rfl
  | retry =>
    simp only [hl] at h
    cases h
    exact hi.frame (retry_flag s.client) rfl rfl rfl
  | stopRetrying =>
    simp only [hl] at h
    cases h
    exact finishStop_inv (hi.frame (retry_flag s.client) rfl rfl rfl)
  | handleWrite =>
    simp only [hl] at h
    cases h
    refine hi.frame ?_ rfl rfl rfl
    dsimp only
    split_ifs <;> rfl

theorem nextAccess_inv (hi : s.Inv) : s.nextAccess.Inv := by
  rw [nextAccess]
  cases hcall : s.call with
  | none => exact hi
  | connectClient =>
    have hp := hi.anew (Or.inl hcall)
    exact ⟨fun h => absurd hp h, nofun, fun _ => hp, hi.late⟩
  | connectConnector =>
    have hp := hi.anew (Or.inr hcall)
    exact ⟨fun h => absurd hp h, nofun, nofun, hi.late⟩
  | stopClient =>
    have hp := hi.begun (Or.inl hcall)
    exact ⟨fun _ _ => rfl, fun _ => hp, nofun, hi.late⟩
  | stopConnector =>
    have hp := hi.begun (Or.inr hcall)
    have hcleared := hi.cleared (by simp [hp]) (by simp [hcall])
    exact ⟨fun _ _ => hcleared, nofun, nofun, hi.late⟩

theorem handleClose_inv (hi : s.Inv) {conn : ℕ} (h : s.handleClose conn = .ok s') : s'.Inv := by
  obtain ⟨u, -, heq⟩ := bind_ok.mp h
  cases heq
  exact hi.frame rfl rfl rfl rfl

theorem stopInLoop_inv (hi : s.Inv) (h : s.stopInLoop = .ok s') : s'.Inv := by
  rw [stopInLoop] at h
  split_ifs at h
  · obtain ⟨c, hc, heq⟩ := bind_ok.mp h
    cases heq
    have hflag := removeAndResetChannel_flag hc
    exact hi.frame hflag rfl rfl rfl
  · cases h
    exact finishStop_inv hi

theorem handleWrite_inv (hi : s.Inv) {soError : ℕ} {selfConnect : Bool}
    (h : s.handleWrite soError selfConnect = .ok s') : s'.Inv := by
  rw [handleWrite] at h
  split_ifs at h
  · obtain ⟨c, hc, heq⟩ := bind_ok.mp h
    cases heq
    exact hi.frame (removeAndResetChannel_flag hc) rfl rfl rfl
  · obtain ⟨c, hc, heq⟩ := bind_ok.mp h
    cases heq
    exact hi.frame (removeAndResetChannel_flag hc) rfl rfl rfl
  · obtain ⟨c, hc, heq⟩ := bind_ok.mp h
    cases heq
    have hflag := removeAndResetChannel_flag hc
    exact hi.frame hflag rfl rfl rfl
  · obtain ⟨u, -, heq⟩ := bind_ok.mp h
    cases heq
    exact hi

theorem handleError_inv (hi : s.Inv) (h : s.handleError = .ok s') : s'.Inv := by
  rw [handleError] at h
  split_ifs at h
  · obtain ⟨c, hc, heq⟩ := bind_ok.mp h
    cases heq
    exact hi.frame (removeAndResetChannel_flag hc) rfl rfl rfl
  · cases h
    exact hi

theorem handleCallback_inv (hi : s.Inv) {soError : ℕ} {selfConnect : Bool} {cb : Callback}
    (h : s.handleCallback soError selfConnect cb = .ok s') : s'.Inv := by
  cases cb with
  | close =>
    cases h
    exact hi
  | error => exact handleError_inv hi h
  | read =>
    cases h
    exact hi
  | write => exact handleWrite_inv hi h

theorem runFunctor_inv (hi : s.Inv) {f : ClientFunctor} (h : s.runFunctor f = .ok s') :
    s'.Inv := by
  cases f with
  | startInLoop =>
    cases h
    exact hi.frame rfl rfl rfl rfl
  | stopInLoop => exact stopInLoop_inv hi h
  | resetChannel =>
    obtain ⟨c, hc, heq⟩ := bind_ok.mp h
    cases heq
    exact hi.frame (resetChannel_flag hc) rfl rfl rfl
  | forceCloseInLoop conn =>
    rw [runFunctor] at h
    split_ifs at h
    · exact handleClose_inv hi h
    · cases h
      exact hi
  | connectDestroyed conn =>
    cases h
    exact hi

theorem step_inv (hi : s.Inv) {a : Action} (he : s.Enabled a) (ht : s.Timely a)
    (h : s.step a = .ok s') : s'.Inv := by
  cases a with
  | connect =>
    cases h
    exact ⟨fun h => absurd rfl h, nofun, fun _ => rfl, hi.late⟩
  | stop =>
    cases h
    exact ⟨fun _ h => absurd rfl h, fun _ => rfl, nofun, hi.late⟩
  | nextAccess =>
    cases h
    exact nextAccess_inv hi
  | connectInLoop =>
    cases h
    have hcall : s.call = .none := he.1
    exact ⟨fun h => absurd rfl h, by simp [hcall], fun _ => rfl, hi.late⟩
  | enableRetry =>
    cases h
    exact hi.frame rfl rfl rfl rfl
  | disconnect =>
    cases h
    exact hi.frame rfl rfl rfl rfl
  | forceClose conn =>
    cases h
    exact hi.frame rfl rfl rfl rfl
  | poll ready conns =>
    cases h
    exact hi.frame rfl rfl rfl rfl
  | handleEvent r =>
    rw [step] at h
    cases hc : s.client.connector.channel with
    | none => simp [hc] at h
    | some channel =>
      simp only [hc] at h
      cases h
      exact hi.frame rfl rfl rfl rfl
  | callback soError selfConnect =>
    rw [step] at h
    cases hh : s.handling with
    | nil =>
      simp only [hh] at h
      cases h
      exact hi
    | cons cb rest =>
      simp only [hh] at h
      have htaken : Inv { s with handling := rest } := hi.frame rfl rfl rfl rfl
      exact handleCallback_inv htaken h
  | closeEvent conn => exact handleClose_inv hi h
  | retryTimer i =>
    cases h
    exact hi.frame rfl rfl rfl rfl
  | swap =>
    cases h
    exact hi.frame rfl rfl rfl rfl
  | runFunctor =>
    rw [step] at h
    cases hf : s.client.functors with
    | nil =>
      simp only [hf] at h
      cases h
      exact hi
    | cons f functors =>
      simp only [hf] at h
      have htaken : Inv { s with client := { s.client with functors := functors } } :=
        hi.frame rfl rfl rfl rfl
      exact runFunctor_inv htaken h
  | advance k => exact advance_inv hi ht h

end Steps

/-- For every interleaving of `stop()` with the loop thread: if `restart` never
stores `connect_` after a `stop()` has cleared it, then no `::connect` follows
once a `stop()` has returned and its functor has run, unless `connect()` is
called again. -/
theorem stop_final (as : List Action) (ha : Admitted step Enabled construct as)
    (ht : Admitted step Timely construct as) :
    Throughout step StaysStopped (fun _ => True) construct as := by
  intro bs hb
  obtain ⟨cs, rfl⟩ := hb
  have hboth := ((admitted_append bs cs _).mp (admitted_and ha ht)).1
  refine (run_yields _ (E := fun _ => True) (fun s a hi hc => ?_) bs _ construct_inv hboth).imp
    (fun s hi => hi.late)
  cases hr : s.step a with
  | ok s' => exact (yields_ok _ _ _).mpr (step_inv hi hc.1 hc.2 hr)
  | error e => exact (yields_error _ _ _).mpr trivial

def connectedOnce : List Action :=
  [.connect, .nextAccess, .nextAccess, .enableRetry, .poll false [], .swap, .runFunctor,
    .advance ⟨7, 115⟩, .poll true [], .handleEvent ⟨false, false, true, false, false, false, false⟩,
    .callback 0 false, .advance ⟨7, 0⟩, .swap, .runFunctor, .poll false [1], .closeEvent 1]

def stoppedInTime : List Action :=
  connectedOnce ++ [.stop, .advance ⟨8, 111⟩, .nextAccess, .nextAccess, .swap, .runFunctor,
    .runFunctor, .poll false []]

theorem stop_final_in_time : Admitted step Enabled construct stoppedInTime ∧
    Throughout step StaysStopped (fun _ => True) construct stoppedInTime :=
  ⟨by decide +kernel, stop_final stoppedInTime (by decide +kernel) (by decide +kernel)⟩

def stoppedTooLate : List Action :=
  connectedOnce ++ [.advance ⟨8, 0⟩, .stop, .nextAccess, .advance ⟨8, 0⟩, .advance ⟨8, 111⟩,
    .advance ⟨8, 0⟩, .nextAccess, .swap, .runFunctor, .runFunctor, .poll false [], .retryTimer 0,
    .advance ⟨8, 111⟩]

theorem stop_not_final : ¬∀ as, Admitted step Enabled construct as →
    Throughout step StaysStopped (fun _ => True) construct as := by
  intro h
  have hrun : ((fun s : ClientThreads => (s.phase, s.late)) <$> run step construct stoppedTooLate) =
      .ok (.settled, 1) := by decide +kernel
  obtain ⟨s, hs, hend⟩ := map_ok.mp hrun
  have hlate := (h stoppedTooLate (by decide +kernel) _ List.prefix_rfl).ok hs
  exact nomatch hlate.symm.trans (congrArg Prod.snd hend)

end ClientThreads

end Lux.Polaris

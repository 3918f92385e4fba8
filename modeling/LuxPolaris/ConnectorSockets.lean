import LuxPolaris.ConnectorInvariant
import LuxPolaris.Descriptors

/-!
# What becomes of the connector's sockets

The connector of `TCPClient` again, with the system calls it makes on the
sockets that `createNonblockingOrDie` gives it. A socket is known by the
number of its creation; the kernel may give its descriptor to a later one as
soon as it is closed, also when the connection it was handed to has closed it.
-/

set_option autoImplicit false

namespace Lux.Polaris
open Outcome Descriptors

/-- What the connector does with a socket; `newConnectionCallback_` hands it
over. -/
inductive SocketUse where
  | connect
  | epollCtl
  | getSocketError
  | isSelfConnect
  | close
  | newConnectionCallback
  deriving DecidableEq, Repr

/-- The uses after which the socket is not the connector's any more. -/
def SocketUse.Final : SocketUse → Prop
  | .close => True
  | .newConnectionCallback => True
  | _ => False

structure ConnectorSockets where
  client : TCPClient
  ledger : Ledger SocketUse

namespace ConnectorSockets

def construct : ConnectorSockets := ⟨.construct, .empty⟩

def use (s : ConnectorSockets) (sockfd : ℕ) (u : SocketUse) : ConnectorSockets :=
  { s with ledger := s.ledger.use sockfd u }

def close (s : ConnectorSockets) (sockfd : ℕ) : ConnectorSockets :=
  { s with ledger := (s.ledger.use sockfd .close).free sockfd }

def retry (s : ConnectorSockets) (sockfd : ℕ) : ConnectorSockets :=
  { s.close sockfd with client := s.client.retry }

def connecting (s : ConnectorSockets) (sockfd : ℕ) : Except Fault ConnectorSockets := do
  let c ← s.client.connecting sockfd
  return { s.use sockfd .epollCtl with client := c }

def connectSocket (s : ConnectorSockets) (k : ConnectResult) : Except Fault ConnectorSockets :=
  let s := { s with ledger := (s.ledger.create k.sockfd).use k.sockfd .connect }
  if k.savedErrno ∈ [0, EINPROGRESS, EINTR, EISCONN] then s.connecting k.sockfd
  else if k.savedErrno ∈ [EAGAIN, EADDRINUSE, EADDRNOTAVAIL, ECONNREFUSED, ENETUNREACH] then
    .ok (s.retry k.sockfd)
  else .ok (s.close k.sockfd)

def startInLoop (s : ConnectorSockets) (k : ConnectResult) : Except Fault ConnectorSockets := do
  assertThat (s.client.connector.state = .kDisconnected) "state_ == kDisconnected"
  if s.client.connector.connect_ then s.connectSocket k else return s

def removeAndResetChannel (s : ConnectorSockets) : Except Fault (ConnectorSockets × ℕ) :=
  match s.client.connector.channel with
  | none => .error .nullPointer
  | some channel => do
    let c ← s.client.removeAndResetChannel
    return ({ s.use channel.fd .epollCtl with client := c }, channel.fd)

def stopInLoop (s : ConnectorSockets) : Except Fault ConnectorSockets := do
  if s.client.connector.state = .kConnecting then
    let s := { s with client := s.client.setState .kDisconnected }
    let (s, sockfd) ← s.removeAndResetChannel
    return s.retry sockfd
  else return s

def resetChannel (s : ConnectorSockets) : Except Fault ConnectorSockets := do
  let c ← s.client.resetChannel
  return { s with client := c }

def handleWrite (s : ConnectorSockets) (soError : ℕ) (selfConnect : Bool) :
    Except Fault ConnectorSockets := do
  if s.client.connector.state = .kConnecting then
    let (s, sockfd) ← s.removeAndResetChannel
    let s := s.use sockfd .getSocketError
    if soError ≠ 0 then return s.retry sockfd
    else
      let s := s.use sockfd .isSelfConnect
      if selfConnect then return s.retry sockfd
      else
        let s := { s with client := s.client.setState .kConnected }
        return if s.client.connector.connect_ then
          { s.use sockfd .newConnectionCallback with client := s.client.newConnection }
        else s.close sockfd
  else
    assertThat (s.client.connector.state = .kDisconnected) "state_ == kDisconnected"
    return s

def handleError (s : ConnectorSockets) : Except Fault ConnectorSockets := do
  if s.client.connector.state = .kConnecting then
    let (s, sockfd) ← s.removeAndResetChannel
    return (s.use sockfd .getSocketError).retry sockfd
  else return s

def handleCallback (s : ConnectorSockets) (soError : ℕ) (selfConnect : Bool) :
    Callback → Except Fault ConnectorSockets
  | .error => s.handleError
  | .write => s.handleWrite soError selfConnect
  | .read => .ok s
  | .close => .ok s

def handleCallbacks (s : ConnectorSockets) (soError : ℕ) (selfConnect : Bool) :
    List Callback → Except Fault ConnectorSockets
  | [] => .ok s
  | callback::callbacks => do
    let s ← s.handleCallback soError selfConnect callback
    handleCallbacks s soError selfConnect callbacks

def handleEvent (s : ConnectorSockets) (r : Revents) (soError : ℕ) (selfConnect : Bool) :
    Except Fault ConnectorSockets :=
  match s.client.connector.channel with
  | none => .error .useAfterFree
  | some _ =>
    handleCallbacks { s with client := { s.client with channelActive := false } } soError
      selfConnect (Channel.callbacks r)

def restart (s : ConnectorSockets) (k : ConnectResult) : Except Fault ConnectorSockets :=
  startInLoop { s with client := { s.client with connector := { s.client.connector with
    state := .kDisconnected, retryDelayMs := kInitRetryDelayMs, connect_ := true } } } k

def start (s : ConnectorSockets) (inLoopThread : Bool) (k : ConnectResult) :
    Except Fault ConnectorSockets :=
  let s := { s with client := { s.client with connector := { s.client.connector with
    connect_ := true } } }
  if inLoopThread then s.startInLoop k
  else .ok { s with client := s.client.queueInLoop .startInLoop }

def stop (s : ConnectorSockets) : ConnectorSockets :=
  { s with client := { s.client with connector := { s.client.connector with
    connect_ := false } }.queueInLoop .stopInLoop }

def runFunctor (s : ConnectorSockets) (k : ConnectResult) :
    ClientFunctor → Except Fault ConnectorSockets
  | .startInLoop => s.startInLoop k
  | .stopInLoop => s.stopInLoop
  | .resetChannel => s.resetChannel
  | .forceCloseInLoop _ => .ok s
  | .connectDestroyed _ => .ok s

/-- `closeHanded` is the new owner of a socket closing it. -/
inductive Action where
  | start (inLoopThread : Bool) (k : ConnectResult)
  | stop
  | restart (k : ConnectResult)
  | poll (ready : Bool)
  | handleEvent (r : Revents) (soError : ℕ) (selfConnect : Bool)
  | retryTimer (i : ℕ) (k : ConnectResult)
  | swap
  | runFunctor (k : ConnectResult)
  | closeHanded (sockfd : ℕ)

def step (s : ConnectorSockets) : Action → Except Fault ConnectorSockets
  | .start inLoopThread k => s.start inLoopThread k
  | .stop => .ok s.stop
  | .restart k => s.restart k
  | .poll ready => .ok { s with client := { s.client with
      inEvents := true, channelActive := ready } }
  | .handleEvent r soError selfConnect => s.handleEvent r soError selfConnect
  | .retryTimer i k => startInLoop { s with client := { s.client with
      retryTimers := s.client.retryTimers.eraseIdx i } } k
  | .swap => .ok { s with client := { s.client with
      inEvents := false
      channelActive := false
      functors := s.client.pendingFunctors
      pendingFunctors := [] } }
  | .runFunctor k =>
    match s.client.functors with
    | [] => .ok s
    | f::functors => runFunctor { s with client := { s.client with functors := functors } } k f
  | .closeHanded sockfd => .ok { s with ledger := s.ledger.free sockfd }

def Handed (s : ConnectorSockets) (sockfd : ℕ) : Prop :=
  (s.ledger.descriptors sockfd).any
    (fun n => (s.ledger.uses n).getLast? = some .newConnectionCallback) = true

/-- The order of the loop, as for `TCPClient`. The kernel gives out a
descriptor that is free, and `restart` is called on a connected connector. -/
def Enabled (s : ConnectorSockets) : Action → Prop
  | .start _ k => s.ledger.descriptors k.sockfd = none
  | .stop => True
  | .restart k => s.client.connector.state = .kConnected ∧ s.ledger.descriptors k.sockfd = none
  | .poll ready => s.client.inEvents = false ∧ s.client.functors = [] ∧
      (ready = true →
        s.client.connector.channel.any (fun channel => channel.index = .kAdded) = true)
  | .handleEvent _ _ _ => s.client.channelActive = true
  | .retryTimer i k => s.client.inEvents = true ∧ i < s.client.retryTimers.length ∧
      s.ledger.descriptors k.sockfd = none
  | .swap => s.client.inEvents = true ∧ s.client.channelActive = false
  | .runFunctor k => s.client.functors ≠ [] ∧ s.ledger.descriptors k.sockfd = none
  | .closeHanded sockfd => s.Handed sockfd

instance (s : ConnectorSockets) (sockfd : ℕ) : Decidable (s.Handed sockfd) :=
  inferInstanceAs (Decidable (_ = true))

instance (s : ConnectorSockets) : (a : Action) → Decidable (s.Enabled a)
  | .start _ _ => inferInstanceAs (Decidable (_ = none))
  | .stop => isTrue trivial
  | .restart _ => inferInstanceAs (Decidable (_ ∧ _ = none))
  | .poll _ => inferInstanceAs (Decidable (_ ∧ _ ∧ (_ → _)))
  | .handleEvent _ _ _ => inferInstanceAs (Decidable (_ = _))
  | .retryTimer _ _ => inferInstanceAs (Decidable (_ ∧ _ ∧ _ = none))
  | .swap => inferInstanceAs (Decidable (_ ∧ _))
  | .runFunctor _ => inferInstanceAs (Decidable (_ ≠ _ ∧ _ = none))
  | .closeHanded _ => inferInstanceAs (Decidable (Handed _ _))

structure Pending (s : ConnectorSockets) (n : ℕ) : Prop where
  state : s.client.connector.state = .kConnecting
  channel : ∃ channel, s.client.connector.channel = some channel ∧
    s.ledger.descriptors channel.fd = some n
  notClosed : .close ∉ s.ledger.uses n
  notHanded : .newConnectionCallback ∉ s.ledger.uses n

structure Closed (s : ConnectorSockets) (n : ℕ) : Prop where
  last : (s.ledger.uses n).getLast? = some .close
  once : (s.ledger.uses n).count .close = 1
  notHanded : .newConnectionCallback ∉ s.ledger.uses n

structure HandedOver (s : ConnectorSockets) (n : ℕ) : Prop where
  last : (s.ledger.uses n).getLast? = some .newConnectionCallback
  once : (s.ledger.uses n).count .newConnectionCallback = 1
  notClosed : .close ∉ s.ledger.uses n

/-- Every socket has its account, and no call is made on a descriptor that
names none of them. -/
structure Accounted (s : ConnectorSockets) : Prop where
  sockets : ∀ n < s.ledger.created, s.Pending n ∨ s.Closed n ∨ s.HandedOver n
  strays : s.ledger.strays = 0

/-- The assertions of `startInLoop`, of `handleWrite` and of `connecting`. -/
def Asserted (e : Fault) : Prop :=
  e = .assertion "state_ == kDisconnected" ∨ e = .assertion "!channel_"

section Client

/-! Without the ledger, the functions are those of `TCPClient`. -/

@[simp] theorem use_client (s : ConnectorSockets) (fd : ℕ) (u : SocketUse) :
    (s.use fd u).client = s.client := rfl

@[simp] theorem close_client (s : ConnectorSockets) (fd : ℕ) : (s.close fd).client = s.client := rfl

@[simp] theorem retry_client (s : ConnectorSockets) (fd : ℕ) :
    (s.retry fd).client = s.client.retry := rfl

theorem connecting_client (s : ConnectorSockets) (sockfd : ℕ) :
    client <$> s.connecting sockfd = s.client.connecting sockfd := by
  rw [connecting]
  cases h : s.client.connecting sockfd <;> rfl

theorem startInLoop_client (s : ConnectorSockets) (k : ConnectResult) :
    client <$> s.startInLoop k = s.client.startInLoop k := by
  rw [startInLoop, TCPClient.startInLoop]
  by_cases hd : s.client.connector.state = .kDisconnected
  · rw [assertThat_of hd, ok_bind, ok_bind]
    by_cases hc : s.client.connector.connect_ = true
    · rw [if_pos hc, if_pos hc, connectSocket, TCPClient.connectSocket]
      split_ifs
      · exact connecting_client _ _
      · rfl
      · rfl
    · rw [if_neg hc, if_neg hc]
      rfl
  · rw [assertThat_of_not hd]
    rfl

theorem removeAndResetChannel_client (s : ConnectorSockets) :
    (fun p => p.1.client) <$> s.removeAndResetChannel = s.client.removeAndResetChannel := by
  rw [removeAndResetChannel]
  cases hc : s.client.connector.channel with
  | none => simp only [TCPClient.removeAndResetChannel, hc]; rfl
  | some channel => cases h : s.client.removeAndResetChannel <;> rfl

theorem handleError_client (s : ConnectorSockets) :
    client <$> s.handleError = s.client.handleError := by
  rw [handleError, TCPClient.handleError]
  split_ifs
  · rw [← removeAndResetChannel_client s]
    cases h : s.removeAndResetChannel <;> rfl
  · rfl

theorem stopInLoop_client (s : ConnectorSockets) :
    client <$> s.stopInLoop = s.client.stopInLoop := by
  rw [stopInLoop, TCPClient.stopInLoop]
  split_ifs
  · have h := removeAndResetChannel_client { s with client := s.client.setState .kDisconnected }
    dsimp only at h ⊢
    rw [← h]
    cases removeAndResetChannel { s with client := s.client.setState .kDisconnected } <;> rfl
  · rfl

theorem handleWrite_client (s : ConnectorSockets) (soError : ℕ) (selfConnect : Bool) :
    client <$> s.handleWrite soError selfConnect = s.client.handleWrite soError selfConnect := by
  rw [handleWrite, TCPClient.handleWrite]
  by_cases hk : s.client.connector.state = .kConnecting
  · rw [if_pos hk, if_pos hk, ← removeAndResetChannel_client s]
    cases h : s.removeAndResetChannel with
    | error e => rfl
    | ok p =>
      obtain ⟨t, sockfd⟩ := p
      show client <$> (_ : Except Fault ConnectorSockets) = _
      by_cases he : soError = 0
      · cases selfConnect with
        | true => simp [he]
        | false =>
          cases hconnect : t.client.connector.connect_ <;> simp [he, hconnect, TCPClient.setState]
      · simp [he]
  · rw [if_neg hk, if_neg hk]
    by_cases hd : s.client.connector.state = .kDisconnected
    · rw [assertThat_of hd]
      rfl
    · rw [assertThat_of_not hd]
      rfl

theorem handleCallbacks_client (s : ConnectorSockets) (soError : ℕ) (selfConnect : Bool)
    (callbacks : List Callback) :
    client <$> s.handleCallbacks soError selfConnect callbacks =
      s.client.handleCallbacks soError selfConnect callbacks := by
  induction callbacks generalizing s with
  | nil => rfl
  | cons callback callbacks ih =>
    have hone : client <$> s.handleCallback soError selfConnect callback =
        s.client.handleCallback soError selfConnect callback := by
      cases callback with
      | close => rfl
      | error => exact handleError_client s
      | read => rfl
      | write => exact handleWrite_client s soError selfConnect
    rw [handleCallbacks, TCPClient.handleCallbacks, ← hone]
    cases h : s.handleCallback soError selfConnect callback with
    | error e => rfl
    | ok t => exact ih t

end Client

def Left (c : TCPClient) : Prop :=
  c.connector.channel = none ∧ c.queue.count .resetChannel = 0 ∨
  ∃ channel, c.connector.channel = some channel ∧ channel.index = .kNew ∧
    channel.addedToLoop = false ∧ c.queue.count .resetChannel = 1

structure Phases (c : TCPClient) : Prop where
  active : c.channelActive = true → c.connector.state = .kConnecting ∧ c.inEvents = true
  swapped : c.inEvents = true → c.functors = []

/-- `channel` is registered, and its descriptor the only socket in use. -/
structure Attempt (s : ConnectorSockets) (channel : Channel) (n : ℕ) : Prop where
  current : s.client.connector.channel = some channel
  index : channel.index = .kAdded
  holds : Holds SocketUse.Final s.ledger channel.fd n
  reset : s.client.queue.count .resetChannel = 0

structure Inv (s : ConnectorSockets) : Prop where
  attempt : s.client.connector.state = .kConnecting → ∃ channel n, s.Attempt channel n
  rest : s.client.connector.state ≠ .kConnecting → Done SocketUse.Final s.ledger ∧ Left s.client
  phases : Phases s.client

/-- In between: `sockfd` has no channel, and is to be closed or handed over. -/
structure Loose (s : ConnectorSockets) (sockfd n : ℕ) : Prop where
  holds : Holds SocketUse.Final s.ledger sockfd n
  left : Left s.client
  handled : s.client.channelActive = false
  swapped : s.client.inEvents = true → s.client.functors = []

theorem construct_inv : construct.Inv where
  attempt := nofun
  rest := fun _ => ⟨empty_done, Or.inl ⟨rfl, rfl⟩⟩
  phases := ⟨nofun, fun _ => rfl⟩

section Accounts

theorem finished_cases {us : List SocketUse} (h : Finished SocketUse.Final us) :
    us.getLast? = some .close ∧ us.count .close = 1 ∧ .newConnectionCallback ∉ us ∨
    us.getLast? = some .newConnectionCallback ∧ us.count .newConnectionCallback = 1 ∧
      .close ∉ us := by
  obtain ⟨vs, u, rfl, hu, hvs⟩ := h
  have hclose : .close ∉ vs := fun hm => hvs _ hm trivial
  have hhand : .newConnectionCallback ∉ vs := fun hm => hvs _ hm trivial
  cases u with
  | close =>
    left
    simp [List.count_eq_zero.mpr hclose, hhand]
  | newConnectionCallback =>
    right
    simp [List.count_eq_zero.mpr hhand, hclose]
  | connect => exact hu.elim
  | epollCtl => exact hu.elim
  | getSocketError => exact hu.elim
  | isSelfConnect => exact hu.elim

theorem account_of_finished {s : ConnectorSockets} {n : ℕ}
    (h : Finished SocketUse.Final (s.ledger.uses n)) : s.Closed n ∨ s.HandedOver n := by
  rcases finished_cases h with ⟨h₁, h₂, h₃⟩ | ⟨h₁, h₂, h₃⟩
  · exact Or.inl ⟨h₁, h₂, h₃⟩
  · exact Or.inr ⟨h₁, h₂, h₃⟩

theorem inv_accounted {s : ConnectorSockets} (hi : s.Inv) : s.Accounted := by
  by_cases hk : s.client.connector.state = .kConnecting
  · obtain ⟨channel, n, h⟩ := hi.attempt hk
    refine ⟨fun m hm => ?_, h.holds.sound.strays⟩
    by_cases hne : m = n
    · subst hne
      left
      exact ⟨hk, ⟨channel, h.current, h.holds.names⟩, fun hc => h.holds.inUse _ hc trivial,
        fun hc => h.holds.inUse _ hc trivial⟩
    · exact Or.inr (account_of_finished (h.holds.others m hm hne))
  · obtain ⟨hd, -⟩ := hi.rest hk
    exact ⟨fun m hm => Or.inr (account_of_finished (hd.finished m hm)), hd.sound.strays⟩

end Accounts

section Leaving
variable {s s' : ConnectorSockets} {sockfd n : ℕ}

theorem Inv.frame (hi : s.Inv) (hledger : s'.ledger = s.ledger)
    (hstate : s'.client.connector.state = s.client.connector.state)
    (hchannel : s'.client.connector.channel = s.client.connector.channel)
    (hqueue : s'.client.queue.count .resetChannel = s.client.queue.count .resetChannel)
    (hphases : Phases s'.client) : s'.Inv := by
  refine ⟨fun hk => ?_, fun hk => ?_, hphases⟩
  · obtain ⟨channel, n, h⟩ := hi.attempt (hstate ▸ hk)
    exact ⟨channel, n, hchannel.trans h.current, h.index, hledger ▸ h.holds, hqueue.trans h.reset⟩
  · obtain ⟨hd, hl⟩ := hi.rest (hstate ▸ hk)
    refine ⟨hledger ▸ hd, ?_⟩
    rw [Left, hchannel, hqueue]
    exact hl

theorem Loose.done (h : Loose s sockfd n) (hledger : Done SocketUse.Final s'.ledger)
    (hstate : s'.client.connector.state ≠ .kConnecting)
    (hchannel : s'.client.connector.channel = s.client.connector.channel)
    (hqueue : s'.client.queue = s.client.queue)
    (hactive : s'.client.channelActive = s.client.channelActive)
    (hevents : s'.client.inEvents = s.client.inEvents)
    (hfunctors : s'.client.functors = s.client.functors) : s'.Inv := by
  refine ⟨fun hk => absurd hk hstate, fun _ => ⟨hledger, ?_⟩, ⟨fun ha => ?_, ?_⟩⟩
  · rw [Left, hchannel, hqueue]
    exact h.left
  · rw [hactive, h.handled] at ha
    cases ha
  · rw [hevents, hfunctors]
    exact h.swapped

theorem close_done (h : Loose s sockfd n) : Done SocketUse.Final (s.close sockfd).ledger :=
  free_done (use_done (u := .close) h.holds trivial) sockfd

theorem retry_frame (c : TCPClient) : c.retry.connector.state = .kDisconnected ∧
    c.retry.connector.channel = c.connector.channel ∧ c.retry.queue = c.queue ∧
    c.retry.channelActive = c.channelActive ∧ c.retry.inEvents = c.inEvents ∧
    c.retry.functors = c.functors := by
  by_cases hc : (c.setState .kDisconnected).connector.connect_ = true
  · simp only [TCPClient.retry, if_pos hc]
    exact ⟨rfl, rfl, rfl, rfl, rfl, rfl⟩
  · simp only [TCPClient.retry, if_neg hc]
    exact ⟨rfl, rfl, rfl, rfl, rfl, rfl⟩

theorem retry_inv (h : Loose s sockfd n) : (s.retry sockfd).Inv := by
  obtain ⟨hs, hc, hq, ha, he, hf⟩ := retry_frame s.client
  have hne : s.client.retry.connector.state ≠ .kConnecting := by simp [hs]
  exact h.done (close_done h) hne hc hq ha he hf

theorem use_loose (h : Loose s sockfd n) {u : SocketUse} (hu : ¬u.Final) :
    Loose (s.use sockfd u) sockfd n :=
  ⟨use_holds h.holds hu, h.left, h.handled, h.swapped⟩

theorem removeAndResetChannel_loose {channel : Channel} (h : s.Attempt channel n)
    (ha : s.client.channelActive = false)
    (hw : s.client.inEvents = true → s.client.functors = []) :
    ∃ s', s.removeAndResetChannel = .ok (s', channel.fd) ∧ Loose s' channel.fd n ∧
      s'.client.connector.state = s.client.connector.state := by
  obtain ⟨removed, hn, hr, heq⟩ := TCPClient.removeAndResetChannel_of h.current h.index
  refine ⟨{ s.use channel.fd .epollCtl with client := { s.client with
    connector := { s.client.connector with channel := some removed }
    pendingFunctors := s.client.pendingFunctors ++ [.resetChannel] } }, ?_, ?_, ?_⟩
  · simp only [removeAndResetChannel, h.current, heq, ok_bind]
    rfl
  · refine ⟨use_holds h.holds id, Or.inr ⟨removed, rfl, hn, hr, ?_⟩, ha, hw⟩
    have hcount := h.reset
    simp only [TCPClient.queue, ← List.append_assoc, List.count_append] at hcount ⊢
    rw [hcount]
    rfl
  · rfl

structure Handling (s : ConnectorSockets) : Prop where
  inv : s.Inv
  handled : s.client.channelActive = false

theorem handling_of_loose {s : ConnectorSockets} (h : Loose s sockfd n) :
    (s.retry sockfd).Handling :=
  ⟨retry_inv h, (retry_frame s.client).2.2.2.1.trans h.handled⟩

theorem handleError_handling (h : s.Handling) : Yields s.handleError Handling Asserted := by
  rw [handleError]
  by_cases hk : s.client.connector.state = .kConnecting
  · obtain ⟨channel, n, ha⟩ := h.inv.attempt hk
    obtain ⟨s', hr, hl, -⟩ := removeAndResetChannel_loose ha h.handled h.inv.phases.swapped
    rw [if_pos hk, hr, ok_bind]
    exact (yields_ok _ _ _).mpr (handling_of_loose (use_loose hl id))
  · rw [if_neg hk]
    exact (yields_ok _ _ _).mpr h

theorem handleWrite_handling (h : s.Handling) (soError : ℕ) (selfConnect : Bool) :
    Yields (s.handleWrite soError selfConnect) Handling Asserted := by
  rw [handleWrite]
  by_cases hk : s.client.connector.state = .kConnecting
  · obtain ⟨channel, n, ha⟩ := h.inv.attempt hk
    obtain ⟨s', hr, hl, -⟩ := removeAndResetChannel_loose ha h.handled h.inv.phases.swapped
    have hasked := use_loose hl (u := .getSocketError) id
    have hchecked := use_loose hasked (u := .isSelfConnect) id
    rw [if_pos hk, hr, ok_bind]
    dsimp only
    by_cases he : soError = 0
    · have hzero : ¬soError ≠ 0 := not_not.mpr he
      rw [if_neg hzero]
      cases selfConnect with
      | true => exact (yields_ok _ _ _).mpr (handling_of_loose hchecked)
      | false =>
        -- the socket is handed over if it is still wanted
        have hconnected : Loose { ((s'.use channel.fd .getSocketError).use channel.fd
            .isSelfConnect) with client := s'.client.setState .kConnected } channel.fd n :=
          ⟨hchecked.holds, hchecked.left, hchecked.handled, hchecked.swapped⟩
        refine (yields_ok _ _ _).mpr ?_
        by_cases hc : s'.client.connector.connect_ = true
        · refine (congrArg Handling (if_pos hc)).mpr ⟨?_, hconnected.handled⟩
          have hhanded := use_done (u := .newConnectionCallback) hconnected.holds trivial
          exact hconnected.done hhanded nofun rfl rfl rfl rfl rfl
        · refine (congrArg Handling (if_neg hc)).mpr ⟨?_, hconnected.handled⟩
          exact hconnected.done (close_done hconnected) nofun rfl rfl rfl rfl rfl
    · rw [if_pos he]
      exact (yields_ok _ _ _).mpr (handling_of_loose hasked)
  · rw [if_neg hk]
    by_cases hd : s.client.connector.state = .kDisconnected
    · rw [assertThat_of hd]
      exact (yields_ok _ _ _).mpr h
    · rw [assertThat_of_not hd]
      exact (yields_error _ _ _).mpr (Or.inl rfl)

theorem handleCallbacks_handling (h : s.Handling) (soError : ℕ) (selfConnect : Bool)
    (callbacks : List Callback) :
    Yields (s.handleCallbacks soError selfConnect callbacks) Handling Asserted := by
  induction callbacks generalizing s with
  | nil => exact (yields_ok _ _ _).mpr h
  | cons callback callbacks ih =>
    have hone : Yields (s.handleCallback soError selfConnect callback) Handling Asserted := by
      cases callback with
      | close => exact (yields_ok _ _ _).mpr h
      | error => exact handleError_handling h
      | read => exact (yields_ok _ _ _).mpr h
      | write => exact handleWrite_handling h soError selfConnect
    rw [handleCallbacks, yields_bind]
    exact hone.imp (fun t ht => ih ht)

theorem handleEvent_yields (hi : s.Inv) (ha : s.client.channelActive = true) (r : Revents)
    (soError : ℕ) (selfConnect : Bool) :
    Yields (s.handleEvent r soError selfConnect) Inv Asserted := by
  obtain ⟨hk, -⟩ := hi.phases.active ha
  obtain ⟨channel, n, h⟩ := hi.attempt hk
  have hhandling : Handling { s with client := { s.client with channelActive := false } } :=
    ⟨hi.frame rfl rfl rfl rfl ⟨nofun, hi.phases.swapped⟩, rfl⟩
  simp only [handleEvent, h.current]
  exact (handleCallbacks_handling hhandling soError selfConnect _).imp (fun t ht => ht.inv)

theorem stopInLoop_yields (hi : s.Inv) (he : s.client.inEvents = false) :
    Yields s.stopInLoop Inv Asserted := by
  rw [stopInLoop]
  by_cases hk : s.client.connector.state = .kConnecting
  · have ha : s.client.channelActive = false := by
      by_contra h
      exact nomatch he.symm.trans (hi.phases.active (Bool.not_eq_false _ ▸ h)).2
    obtain ⟨channel, n, h⟩ := hi.attempt hk
    have hstopped : Attempt { s with client := s.client.setState .kDisconnected } channel n :=
      ⟨h.current, h.index, h.holds, h.reset⟩
    obtain ⟨s', hr, hl, -⟩ := removeAndResetChannel_loose hstopped ha hi.phases.swapped
    rw [if_pos hk]
    dsimp only
    rw [hr, ok_bind]
    exact (yields_ok _ _ _).mpr (retry_inv hl)
  · rw [if_neg hk]
    exact (yields_ok _ _ _).mpr hi

end Leaving

section Steps
variable {s : ConnectorSockets}

theorem connecting_yields {sockfd n : ℕ} (h : Loose s sockfd n) :
    Yields (s.connecting sockfd) Inv Asserted := by
  rw [connecting, TCPClient.connecting]
  by_cases hc : (s.client.setState .kConnecting).connector.channel = none
  · have hreset : s.client.queue.count .resetChannel = 0 := by
      rcases h.left with ⟨-, hq⟩ | ⟨channel, hsome, -⟩
      · exact hq
      · cases hsome.symm.trans hc
    dsimp only
    rw [assertThat_of hc]
    refine (yields_ok _ _ _).mpr ⟨fun _ => ⟨(Channel.construct sockfd).enableWriting, n, ?_⟩,
      fun hk => absurd rfl hk, ⟨fun ha => ?_, h.swapped⟩⟩
    · exact ⟨rfl, rfl, use_holds h.holds id, hreset⟩
    · cases h.handled.symm.trans ha
  · dsimp only
    rw [assertThat_of_not hc]
    exact (yields_error _ _ _).mpr (Or.inr rfl)

theorem connectSocket_yields (hi : s.Inv) (hd : s.client.connector.state = .kDisconnected)
    (k : ConnectResult) : Yields (s.connectSocket k) Inv Asserted := by
  have hne : s.client.connector.state ≠ .kConnecting := by simp [hd]
  obtain ⟨hdone, hleft⟩ := hi.rest hne
  have hloose : Loose { s with ledger := (s.ledger.create k.sockfd).use k.sockfd .connect }
      k.sockfd s.ledger.created := by
    refine ⟨use_holds (create_holds hdone k.sockfd) id, hleft, ?_, hi.phases.swapped⟩
    by_contra h
    exact hne (hi.phases.active (Bool.not_eq_false _ ▸ h)).1
  rw [connectSocket]
  split_ifs
  · exact connecting_yields hloose
  · exact (yields_ok _ _ _).mpr (retry_inv hloose)
  · exact (yields_ok _ _ _).mpr (hloose.done (close_done hloose) hne rfl rfl rfl rfl rfl)

theorem startInLoop_yields (hi : s.Inv) (k : ConnectResult) :
    Yields (s.startInLoop k) Inv Asserted := by
  rw [startInLoop]
  by_cases hd : s.client.connector.state = .kDisconnected
  · rw [assertThat_of hd, ok_bind]
    split_ifs
    · exact connectSocket_yields hi hd k
    · exact (yields_ok _ _ _).mpr hi
  · rw [assertThat_of_not hd]
    exact (yields_error _ _ _).mpr (Or.inl rfl)

theorem restart_yields (hi : s.Inv) (hk : s.client.connector.state = .kConnected)
    (k : ConnectResult) : Yields (s.restart k) Inv Asserted := by
  have hne : s.client.connector.state ≠ .kConnecting := by simp [hk]
  obtain ⟨hdone, hleft⟩ := hi.rest hne
  have hrestarted : Inv { s with client := { s.client with connector := { s.client.connector with
      state := .kDisconnected, retryDelayMs := kInitRetryDelayMs, connect_ := true } } } :=
    ⟨nofun, fun _ => ⟨hdone, hleft⟩,
      ⟨fun ha => absurd (hi.phases.active ha).1 hne, hi.phases.swapped⟩⟩
  exact startInLoop_yields hrestarted k

theorem queued_inv (hi : s.Inv) {f : ClientFunctor} (hf : f ≠ .resetChannel) (connect : Bool) :
    Inv { s with client := { s.client with connector := { s.client.connector with
      connect_ := connect } }.queueInLoop f } := by
  refine hi.frame rfl rfl rfl ?_ ⟨hi.phases.active, hi.phases.swapped⟩
  simp [TCPClient.queue, TCPClient.queueInLoop, ← List.append_assoc, hf]

theorem popped_inv (hi : s.Inv) {f : ClientFunctor} {functors : List ClientFunctor}
    (hf : s.client.functors = f::functors) (hne : f ≠ .resetChannel) :
    Inv { s with client := { s.client with functors := functors } } := by
  refine hi.frame rfl rfl rfl ?_ ⟨hi.phases.active, fun he => ?_⟩
  · simp [TCPClient.queue, hf, hne]
  · cases hf.symm.trans (hi.phases.swapped he)

theorem resetChannel_yields (hi : s.Inv) {functors : List ClientFunctor}
    (hf : s.client.functors = .resetChannel::functors) :
    Yields (resetChannel { s with client := { s.client with functors := functors } }) Inv
      Asserted := by
  have hcount : s.client.queue.count .resetChannel =
      (functors ++ s.client.pendingFunctors).count .resetChannel+1 := by
    simp [TCPClient.queue, hf]
  have hne : s.client.connector.state ≠ .kConnecting := by
    intro hk
    obtain ⟨channel, n, h⟩ := hi.attempt hk
    have hzero := h.reset
    omega
  obtain ⟨hdone, hleft⟩ := hi.rest hne
  rcases hleft with ⟨-, hzero⟩ | ⟨channel, hc, hk, ha, hone⟩
  · omega
  · simp only [resetChannel, TCPClient.resetChannel, hc, assertThat_of ha, assertThat_of hk,
      ok_bind, pure_eq_ok, yields_ok]
    refine ⟨fun h => absurd h hne, fun _ => ⟨hdone, Or.inl ⟨rfl, ?_⟩⟩,
      ⟨hi.phases.active, fun he => ?_⟩⟩
    · show (functors ++ s.client.pendingFunctors).count .resetChannel = 0
      omega
    · cases hf.symm.trans (hi.phases.swapped he)

theorem runFunctor_yields (hi : s.Inv) {f : ClientFunctor} {functors : List ClientFunctor}
    (hf : s.client.functors = f::functors) (k : ConnectResult) :
    Yields (runFunctor { s with client := { s.client with functors := functors } } k f) Inv
      Asserted := by
  have hout : s.client.inEvents = false := by
    by_contra h
    exact nomatch hf.symm.trans (hi.phases.swapped (Bool.not_eq_false _ ▸ h))
  cases f with
  | startInLoop => exact startInLoop_yields (popped_inv hi hf nofun) k
  | stopInLoop => exact stopInLoop_yields (popped_inv hi hf nofun) hout
  | resetChannel => exact resetChannel_yields hi hf
  | forceCloseInLoop conn => exact (yields_ok _ _ _).mpr (popped_inv hi hf nofun)
  | connectDestroyed conn => exact (yields_ok _ _ _).mpr (popped_inv hi hf nofun)

theorem closeHanded_inv (hi : s.Inv) {sockfd : ℕ} (h : s.Handed sockfd) :
    Inv { s with ledger := s.ledger.free sockfd } := by
  refine ⟨fun hk => ?_, fun hk => ?_, hi.phases⟩
  · obtain ⟨channel, n, ha⟩ := hi.attempt hk
    have hne : sockfd ≠ channel.fd := by
      rintro rfl
      have hlast : (s.ledger.uses n).getLast? = some .newConnectionCallback := by
        simpa [Handed, ha.holds.names] using h
      exact ha.holds.inUse _ (List.mem_of_getLast? hlast) trivial
    exact ⟨channel, n, ha.current, ha.index, free_holds ha.holds hne, ha.reset⟩
  · obtain ⟨hdone, hleft⟩ := hi.rest hk
    exact ⟨free_done hdone sockfd, hleft⟩

theorem step_yields (hi : s.Inv) {a : Action} (he : s.Enabled a) :
    Yields (s.step a) Inv Asserted := by
  cases a with
  | start inLoopThread k =>
    cases inLoopThread with
    | true =>
      have hstarted : Inv { s with client := { s.client with connector := { s.client.connector with
          connect_ := true } } } :=
        hi.frame rfl rfl rfl rfl ⟨hi.phases.active, hi.phases.swapped⟩
      exact startInLoop_yields hstarted k
    | false => exact (yields_ok _ _ _).mpr (queued_inv hi (f := .startInLoop) nofun true)
  | stop => exact (yields_ok _ _ _).mpr (queued_inv hi (f := .stopInLoop) nofun false)
  | restart k => exact restart_yields hi he.1 k
  | poll ready =>
    refine (yields_ok _ _ _).mpr (hi.frame rfl rfl rfl rfl ⟨fun hr => ⟨?_, rfl⟩, fun _ => he.2.1⟩)
    -- only a registered channel is reported
    have hadded := he.2.2 hr
    by_contra hk
    rcases (hi.rest hk).2 with ⟨hc, -⟩ | ⟨channel, hc, hnew, -⟩
    · simp [hc] at hadded
    · simp [hc, hnew] at hadded
  | handleEvent r soError selfConnect => exact handleEvent_yields hi he r soError selfConnect
  | retryTimer i k =>
    have hfired : Inv { s with client := { s.client with
        retryTimers := s.client.retryTimers.eraseIdx i } } :=
      hi.frame rfl rfl rfl rfl ⟨hi.phases.active, hi.phases.swapped⟩
    exact startInLoop_yields hfired k
  | swap =>
    refine (yields_ok _ _ _).mpr (hi.frame rfl rfl rfl ?_ ⟨nofun, nofun⟩)
    simp [TCPClient.queue, hi.phases.swapped he.1]
  | runFunctor k =>
    rw [step]
    cases hf : s.client.functors with
    | nil => exact absurd hf he.1
    | cons f functors => exact runFunctor_yields hi hf k
  | closeHanded sockfd => exact (yields_ok _ _ _).mpr (closeHanded_inv hi he)

end Steps

/-- In every state that a run of the connector reaches, every socket created is
that of the attempt going on, or has been closed once, or has been handed over
once and left alone since. A run stops with one of the connector's three
assertions at most. -/
theorem sockets_accounted (as : List Action) (ha : Admitted step Enabled construct as) :
    Yields (run step construct as) Accounted Asserted :=
  (run_yields Enabled (fun _ _ hi he => step_yields hi he) as construct construct_inv ha).imp
    (fun _ hi => inv_accounted hi)

/-- An attempt that fails and is retried under the same descriptor, one that is
handed over, closed by its owner and followed by a restart, and one that
`stop` ends. -/
theorem sockets_accounted_restart : ∃ s,
    run step construct [.start true ⟨7, 115⟩, .poll true,
      .handleEvent ⟨false, false, true, true, false, false, false⟩ 111 false, .swap,
      .runFunctor ⟨7, 0⟩, .poll false, .retryTimer 0 ⟨7, 115⟩, .swap, .poll true,
      .handleEvent ⟨false, false, true, false, false, false, false⟩ 0 false, .swap,
      .runFunctor ⟨8, 0⟩, .closeHanded 7, .restart ⟨7, 115⟩, .stop, .poll false, .swap,
      .runFunctor ⟨8, 0⟩] = .ok s ∧
    s.ledger.created = 3 ∧ s.Accounted := by
  have hrun : ((fun s : ConnectorSockets => s.ledger.created) <$> run step construct
      [.start true ⟨7, 115⟩, .poll true,
      .handleEvent ⟨false, false, true, true, false, false, false⟩ 111 false, .swap,
      .runFunctor ⟨7, 0⟩, .poll false, .retryTimer 0 ⟨7, 115⟩, .swap, .poll true,
      .handleEvent ⟨false, false, true, false, false, false, false⟩ 0 false, .swap,
      .runFunctor ⟨8, 0⟩, .closeHanded 7, .restart ⟨7, 115⟩, .stop, .poll false, .swap,
      .runFunctor ⟨8, 0⟩]) = .ok 3 := by decide +kernel
  obtain ⟨s, hs, hcreated⟩ := map_ok.mp hrun
  exact ⟨s, hs, hcreated, (sockets_accounted _ (by decide +kernel)).ok hs⟩

end ConnectorSockets

end Lux.Polaris

import LuxPolaris.Channel

/-!
# Connector and TCPClient

One connector, the client that uses it, and as much of their loop as they
share: the functors queued and swapped out, the retry timers, and what the
last `poll` has reported. The kernel's answers (a socket and the `errno` of
`::connect`, `SO_ERROR`, self-connect) are inputs. A connection is known by
its number; what it does besides closing is left out.
-/

set_option autoImplicit false

namespace Lux.Polaris

inductive States where
  | kDisconnected
  | kConnecting
  | kConnected
  deriving DecidableEq, Repr

inductive ClientFunctor where
  | startInLoop
  | stopInLoop
  | resetChannel
  | forceCloseInLoop (conn : ℕ)
  | connectDestroyed (conn : ℕ)
  deriving DecidableEq, Repr

structure ConnectResult where
  sockfd : ℕ
  savedErrno : ℕ
  deriving DecidableEq, Repr

structure Connector where
  connect_ : Bool
  state : States
  channel : Option Channel
  retryDelayMs : ℕ
  deriving DecidableEq, Repr

/-- `openConnections` are the connections that have not run `handleClose`.
During the event phase `channelActive` says whether the connector's channel is
still to be handled and `activeConnections` which connections are active. -/
structure TCPClient where
  connector : Connector
  retry_ : Bool
  connect_ : Bool
  connection : Option ℕ
  nextConnId : ℕ
  openConnections : List ℕ
  pendingFunctors : List ClientFunctor
  functors : List ClientFunctor
  retryTimers : List ℕ
  inEvents : Bool
  channelActive : Bool
  activeConnections : List ℕ
  deriving DecidableEq, Repr

def kMaxRetryDelayMs : ℕ := 30*1000
def kInitRetryDelayMs : ℕ := 500

def EINTR : ℕ := 4
def EAGAIN : ℕ := 11
def EADDRINUSE : ℕ := 98
def EADDRNOTAVAIL : ℕ := 99
def ENETUNREACH : ℕ := 101
def EISCONN : ℕ := 106
def ECONNREFUSED : ℕ := 111
def EINPROGRESS : ℕ := 115

namespace TCPClient

def construct : TCPClient where
  connector := ⟨false, .kDisconnected, none, kInitRetryDelayMs⟩
  retry_ := false
  connect_ := true
  connection := none
  nextConnId := 1
  openConnections := []
  pendingFunctors := []
  functors := []
  retryTimers := []
  inEvents := false
  channelActive := false
  activeConnections := []

def queueInLoop (c : TCPClient) (f : ClientFunctor) : TCPClient :=
  { c with pendingFunctors := c.pendingFunctors ++ [f] }

def setState (c : TCPClient) (s : States) : TCPClient :=
  { c with connector := { c.connector with state := s } }

/-- `Connector::retry`; the timer it starts runs `startInLoop`. -/
def retry (c : TCPClient) : TCPClient :=
  let c := c.setState .kDisconnected
  if c.connector.connect_ then
    { c with
      retryTimers := c.retryTimers ++ [c.connector.retryDelayMs]
      connector := { c.connector with
        retryDelayMs := min (c.connector.retryDelayMs*2) kMaxRetryDelayMs } }
  else c

def connecting (c : TCPClient) (sockfd : ℕ) : Except Fault TCPClient := do
  let c := c.setState .kConnecting
  assertThat (c.connector.channel = none) "!channel_"
  return { c with connector := { c.connector with
    channel := some (Channel.construct sockfd).enableWriting } }

/-- `Connector::connect`. The errors that are neither retried nor waited for
close the socket and leave the connector disconnected. -/
def connectSocket (c : TCPClient) (k : ConnectResult) : Except Fault TCPClient :=
  if k.savedErrno ∈ [0, EINPROGRESS, EINTR, EISCONN] then c.connecting k.sockfd
  else if k.savedErrno ∈ [EAGAIN, EADDRINUSE, EADDRNOTAVAIL, ECONNREFUSED, ENETUNREACH] then
    .ok c.retry
  else .ok c

def startInLoop (c : TCPClient) (k : ConnectResult) : Except Fault TCPClient := do
  assertThat (c.connector.state = .kDisconnected) "state_ == kDisconnected"
  if c.connector.connect_ then c.connectSocket k else return c

def removeAndResetChannel (c : TCPClient) : Except Fault TCPClient :=
  match c.connector.channel with
  | none => .error .nullPointer
  | some channel => do
    let channel ← channel.disableAll.remove
    return { c with connector := { c.connector with channel := some channel } }.queueInLoop
      .resetChannel

def stopInLoop (c : TCPClient) : Except Fault TCPClient := do
  if c.connector.state = .kConnecting then
    let c := c.setState .kDisconnected
    let c ← c.removeAndResetChannel
    return c.retry
  else return c

/-- `resetChannel`, with what `~Channel` asserts. -/
def resetChannel (c : TCPClient) : Except Fault TCPClient :=
  match c.connector.channel with
  | none => .ok c
  | some channel => do
    assertThat (channel.addedToLoop = false) "!addedToLoop_"
    assertThat (channel.index = .kNew) "!loop_->hasChannel(this)"
    return { c with connector := { c.connector with channel := none } }

def newConnection (c : TCPClient) : TCPClient :=
  { c with
    nextConnId := c.nextConnId+1
    connection := some c.nextConnId
    openConnections := c.openConnections ++ [c.nextConnId] }

def handleWrite (c : TCPClient) (soError : ℕ) (selfConnect : Bool) : Except Fault TCPClient := do
  if c.connector.state = .kConnecting then
    let c ← c.removeAndResetChannel
    if soError ≠ 0 then return c.retry
    else if selfConnect then return c.retry
    else
      let c := c.setState .kConnected
      return if c.connector.connect_ then c.newConnection else c
  else
    assertThat (c.connector.state = .kDisconnected) "state_ == kDisconnected"
    return c

def handleError (c : TCPClient) : Except Fault TCPClient := do
  if c.connector.state = .kConnecting then
    let c ← c.removeAndResetChannel
    return c.retry
  else return c

def handleCallback (c : TCPClient) (soError : ℕ) (selfConnect : Bool) :
    Callback → Except Fault TCPClient
  | .error => c.handleError
  | .write => c.handleWrite soError selfConnect
  | .read => .ok c
  | .close => .ok c

def handleCallbacks (c : TCPClient) (soError : ℕ) (selfConnect : Bool) :
    List Callback → Except Fault TCPClient
  | [] => .ok c
  | callback::callbacks => do
    let c ← c.handleCallback soError selfConnect callback
    handleCallbacks c soError selfConnect callbacks

def handleEvent (c : TCPClient) (r : Revents) (soError : ℕ) (selfConnect : Bool) :
    Except Fault TCPClient :=
  match c.connector.channel with
  | none => .error .useAfterFree
  | some _ => handleCallbacks { c with channelActive := false } soError selfConnect
      (Channel.callbacks r)

def restart (c : TCPClient) (k : ConnectResult) : Except Fault TCPClient :=
  startInLoop { c with connector := { c.connector with
    state := .kDisconnected, retryDelayMs := kInitRetryDelayMs, connect_ := true } } k

def removeConnection (c : TCPClient) (conn : ℕ) (k : ConnectResult) : Except Fault TCPClient := do
  assertThat (c.connection = some conn) "connection_ == conn"
  let c := { c with connection := none }.queueInLoop (.connectDestroyed conn)
  if c.retry_ && c.connect_ then c.restart k else return c

def handleClose (c : TCPClient) (conn : ℕ) (k : ConnectResult) : Except Fault TCPClient :=
  removeConnection { c with openConnections := c.openConnections.erase conn } conn k

def connect (c : TCPClient) (inLoopThread : Bool) (k : ConnectResult) : Except Fault TCPClient :=
  let c := { c with connect_ := true, connector := { c.connector with connect_ := true } }
  if inLoopThread then c.startInLoop k else .ok (c.queueInLoop .startInLoop)

def stop (c : TCPClient) : TCPClient :=
  { c with connect_ := false, connector := { c.connector with connect_ := false } }.queueInLoop
    .stopInLoop

def disconnect (c : TCPClient) : TCPClient := { c with connect_ := false }

def enableRetry (c : TCPClient) : TCPClient := { c with retry_ := true }

def runFunctor (c : TCPClient) (k : ConnectResult) : ClientFunctor → Except Fault TCPClient
  | .startInLoop => c.startInLoop k
  | .stopInLoop => c.stopInLoop
  | .resetChannel => c.resetChannel
  | .forceCloseInLoop conn => if conn ∈ c.openConnections then c.handleClose conn k else .ok c
  | .connectDestroyed _ => .ok c

/-- `ready` and `conns` are what `poll` reports of the connector's channel and
of the connections. `retryTimer i` is the firing of one of the timers. -/
inductive Action where
  | connect (inLoopThread : Bool) (k : ConnectResult)
  | stop
  | disconnect
  | enableRetry
  | forceClose (conn : ℕ)
  | poll (ready : Bool) (conns : List ℕ)
  | handleEvent (r : Revents) (soError : ℕ) (selfConnect : Bool)
  | closeEvent (conn : ℕ) (k : ConnectResult)
  | retryTimer (i : ℕ) (k : ConnectResult)
  | swap
  | runFunctor (k : ConnectResult)

def step (c : TCPClient) : Action → Except Fault TCPClient
  | .connect inLoopThread k => c.connect inLoopThread k
  | .stop => .ok c.stop
  | .disconnect => .ok c.disconnect
  | .enableRetry => .ok c.enableRetry
  | .forceClose conn => .ok (c.queueInLoop (.forceCloseInLoop conn))
  | .poll ready conns =>
    .ok { c with inEvents := true, channelActive := ready, activeConnections := conns }
  | .handleEvent r soError selfConnect => c.handleEvent r soError selfConnect
  | .closeEvent conn k => c.handleClose conn k
  | .retryTimer i k => startInLoop { c with retryTimers := c.retryTimers.eraseIdx i } k
  | .swap => .ok { c with
      inEvents := false
      channelActive := false
      activeConnections := []
      functors := c.pendingFunctors
      pendingFunctors := [] }
  | .runFunctor k =>
    match c.functors with
    | [] => .ok c
    | f::functors => runFunctor { c with functors := functors } k f

/-- The order of the loop: `poll` reports registered channels and open
connections, their events and the timers come before the swap, and the
functors swapped out are run before the next `poll`. -/
def Enabled (c : TCPClient) : Action → Prop
  | .connect _ _ => True
  | .stop => True
  | .disconnect => True
  | .enableRetry => True
  | .forceClose conn => conn ∈ c.openConnections
  | .poll ready conns => c.inEvents = false ∧ c.functors = [] ∧
      (ready = true → c.connector.channel.any (fun channel => channel.index = .kAdded) = true) ∧
      ∀ conn ∈ conns, conn ∈ c.openConnections
  | .handleEvent _ _ _ => c.channelActive = true
  | .closeEvent conn _ => conn ∈ c.activeConnections ∧ conn ∈ c.openConnections
  | .retryTimer i _ => c.inEvents = true ∧ i < c.retryTimers.length
  | .swap => c.inEvents = true
  | .runFunctor _ => c.functors ≠ []

instance (c : TCPClient) : (a : Action) → Decidable (c.Enabled a)
  | .connect _ _ => isTrue trivial
  | .stop => isTrue trivial
  | .disconnect => isTrue trivial
  | .enableRetry => isTrue trivial
  | .forceClose _ => inferInstanceAs (Decidable (_ ∈ _))
  | .poll _ _ => inferInstanceAs (Decidable (_ ∧ _ ∧ (_ → _) ∧ _))
  | .handleEvent _ _ _ => inferInstanceAs (Decidable (_ = _))
  | .closeEvent _ _ => inferInstanceAs (Decidable (_ ∧ _))
  | .retryTimer _ _ => inferInstanceAs (Decidable (_ ∧ _))
  | .swap => inferInstanceAs (Decidable (_ = _))
  | .runFunctor _ => inferInstanceAs (Decidable (_ ≠ _))

end TCPClient

end Lux.Polaris

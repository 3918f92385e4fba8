import LuxPolaris.Connector
import LuxPolaris.ConnectionLoop
import Mathlib.Logic.Function.Basic

/-!
# The channels of a loop

One loop and every channel that it polls: its own two, the acceptors of the
servers that run on it, the connectors of its clients, and the connections,
also those that a server on another loop has given it. Channels are known by
their addresses, and an address is used again once it is free. A handler makes
one callback at a time; in any of them the user may call the library.
-/

set_option autoImplicit false

namespace Lux.Polaris
open Outcome

/-- What `closeCallback_` is bound to; `elsewhere` is a server on another loop. -/
inductive CloseCallback where
  | server (k : ℕ)
  | client (k : ℕ)
  | elsewhere
  deriving DecidableEq, Repr

inductive LoopObject where
  | connection (conn : TCPConnection) (onClose : CloseCallback)
  | connector (k : ℕ)
  | acceptor (k : ℕ) (channel : Channel)
  | timerQueue (channel : Channel)
  | wakeup (channel : Channel)

def LoopObject.isAcceptor : LoopObject → Bool
  | .acceptor _ _ => true
  | _ => false

def LoopObject.isTimerQueue : LoopObject → Bool
  | .timerQueue _ => true
  | _ => false

inductive ChannelFunctor where
  | ofConnection (i : ℕ) (f : ConnFunctor)
  | connectEstablished (i : ℕ)
  | connectDestroyed (i : ℕ)
  | ofClient (k : ℕ) (f : ClientFunctor)
  deriving DecidableEq, Repr

/-- `acceptor` is the address of `acceptChannel_`. -/
structure LoopServer where
  acceptor : ℕ
  connections : List ℕ
  destroyed : Bool

/-- `channel` is the address of the connector's channel, while it has one. -/
structure LoopClient where
  client : TCPClient
  channel : ℕ

def LoopClient.ready (x : LoopClient) (address : ℕ) : TCPClient :=
  { x.client with pendingFunctors := [], openConnections := [], nextConnId := address }

/-- The assertion in `EventLoop::removeChannel`, or any other fault. -/
inductive LoopFault where
  | removeChannel
  | fault (e : Fault)
  deriving DecidableEq, Repr

/-- What the kernel and `operator new` answer, and how the user has set a new
connection up. -/
structure Answers where
  read : Buffer.ReadResult
  write : WriteResult
  connect : ConnectResult
  soError : ℕ
  selfConnect : Bool
  accepted : Option ℕ
  address : ℕ
  writeComplete : Bool
  highWater : Bool
  mark : ℕ

/-- `destructing` are the servers whose destructors are running, the innermost
first, `handling` the callbacks that the current channel has still to make, and
`closing` a connection between the last two callbacks of `handleClose`. -/
structure ChannelLoop where
  objects : ℕ → Option LoopObject
  servers : ℕ → Option LoopServer
  clients : ℕ → Option LoopClient
  destructing : List ℕ
  pendingFunctors : List ChannelFunctor
  functors : List ChannelFunctor
  delayedCloses : List ℕ
  eventHandling : Bool
  activeChannels : List ℕ
  unhandled : List ℕ
  currentActiveChannel : Option ℕ
  handling : List Callback
  closing : Option ℕ

namespace ChannelLoop

def construct : ChannelLoop where
  objects := Function.update (Function.update (fun _ => none)
    0 (some (.wakeup (Channel.construct 0).enableReading)))
    1 (some (.timerQueue (Channel.construct 1).enableReading))
  servers := fun _ => none
  clients := fun _ => none
  destructing := []
  pendingFunctors := []
  functors := []
  delayedCloses := []
  eventHandling := false
  activeChannels := []
  unhandled := []
  currentActiveChannel := none
  handling := []
  closing := none

def put (s : ChannelLoop) (i : ℕ) (x : LoopObject) : ChannelLoop :=
  { s with objects := Function.update s.objects i (some x) }

def free (s : ChannelLoop) (i : ℕ) : ChannelLoop :=
  { s with objects := Function.update s.objects i none }

def putServer (s : ChannelLoop) (k : ℕ) (x : LoopServer) : ChannelLoop :=
  { s with servers := Function.update s.servers k (some x) }

def putClient (s : ChannelLoop) (k : ℕ) (x : LoopClient) : ChannelLoop :=
  { s with clients := Function.update s.clients k (some x) }

def queueInLoop (s : ChannelLoop) (fs : List ChannelFunctor) : ChannelLoop :=
  { s with pendingFunctors := s.pendingFunctors ++ fs }

def channel? (s : ChannelLoop) (i : ℕ) : Option Channel :=
  match s.objects i with
  | none => none
  | some (.connection conn _) => some conn.channel
  | some (.connector k) => (s.clients k).bind (fun x => x.client.connector.channel)
  | some (.acceptor _ channel) => some channel
  | some (.timerQueue channel) => some channel
  | some (.wakeup channel) => some channel

def connection? (s : ChannelLoop) (i : ℕ) : Option (TCPConnection × CloseCallback) :=
  match s.objects i with
  | some (.connection conn onClose) => some (conn, onClose)
  | _ => none

def lift {α : Type} (r : Except Fault α) : Except LoopFault α := r.mapError .fault

/-- What `EventLoop::removeChannel` asserts. -/
def Removable (s : ChannelLoop) (i : ℕ) : Prop :=
  s.eventHandling = true → s.currentActiveChannel = some i ∨ i ∉ s.activeChannels

instance (s : ChannelLoop) (i : ℕ) : Decidable (s.Removable i) :=
  inferInstanceAs (Decidable (_ → _ ∨ _))

def removeChannel (s : ChannelLoop) (i : ℕ) : Except LoopFault Unit :=
  if s.Removable i then .ok () else .error .removeChannel

section Connections

/-- `c` has replaced the connection at `i`, and its effects take place. -/
def settle (s : ChannelLoop) (i : ℕ) (onClose : CloseCallback) (c : TCPConnection) : ChannelLoop :=
  { s with
    pendingFunctors := s.pendingFunctors ++
      (c.effects.filterMap Effect.functor).map (ChannelFunctor.ofConnection i)
    delayedCloses := s.delayedCloses ++ c.effects.filterMap (Effect.delayed i)
    closing := if Effect.closeCallback ∈ c.effects then some i else s.closing }.put i
    (.connection { c with effects := [] } onClose)

def onConnection (s : ChannelLoop) (i : ℕ) (f : TCPConnection → Except Fault TCPConnection) :
    Except LoopFault ChannelLoop :=
  match s.objects i with
  | some (.connection conn onClose) => do
    let c ← lift (f conn)
    return s.settle i onClose c
  | _ => .error (.fault .useAfterFree)

def newConnection (s : ChannelLoop) (sockfd : ℕ) (onClose : CloseCallback) (a : Answers) :
    Except LoopFault ChannelLoop := do
  let conn ← lift (TCPConnection.construct sockfd a.writeComplete a.highWater a.mark)
  (s.put a.address (.connection conn onClose)).onConnection a.address
    TCPConnection.connectEstablished

/-- `connectDestroyed`. The loop is asked after `Channel::remove` has asserted
that no interest is left. -/
def connectDestroyed (s : ChannelLoop) (i : ℕ) : Except LoopFault ChannelLoop :=
  match s.objects i with
  | some (.connection conn onClose) => do
    lift (assertThat (conn.state = .kConnected ∨ conn.channel.isNoneEvent = true) "isNoneEvent()")
    s.removeChannel i
    let c ← lift conn.connectDestroyed
    return s.settle i onClose c
  | _ => .error (.fault .useAfterFree)

end Connections

section Servers

def listen (s : ChannelLoop) (k : ℕ) : Except LoopFault ChannelLoop :=
  match s.servers k with
  | none => .error (.fault .useAfterFree)
  | some x =>
    match s.objects x.acceptor with
    | some (.acceptor _ channel) => .ok (s.put x.acceptor (.acceptor k channel.enableReading))
    | _ => .error (.fault .useAfterFree)

/-- `Acceptor::handleRead`. A connection for another loop is none of this one's. -/
def acceptorRead (s : ChannelLoop) (k : ℕ) (a : Answers) : Except LoopFault ChannelLoop :=
  match a.accepted, s.servers k with
  | none, _ => .ok s
  | some _, none => .error (.fault .useAfterFree)
  | some sockfd, some x =>
    (s.putServer k { x with connections := x.connections ++ [a.address] }).newConnection sockfd
      (.server k) a

def removeConnection (s : ChannelLoop) (k i : ℕ) : Except LoopFault ChannelLoop :=
  match s.servers k with
  | none => .error (.fault .useAfterFree)
  | some x =>
    if x.destroyed then .error (.fault .useAfterFree)
    else do
      lift (assertThat (i ∈ x.connections) "n == 1")
      return (s.putServer k { x with connections := x.connections.erase i }).queueInLoop
        [.connectDestroyed i]

def deleteConnection (s : ChannelLoop) (k i : ℕ) : Except LoopFault ChannelLoop :=
  match s.servers k with
  | none => .error (.fault .useAfterFree)
  | some x => (s.putServer k { x with connections := x.connections.erase i }).connectDestroyed i

def serverDeleted (s : ChannelLoop) (k : ℕ) : Except LoopFault ChannelLoop :=
  match s.servers k with
  | none => .error (.fault .useAfterFree)
  | some x =>
    match s.objects x.acceptor with
    | some (.acceptor _ channel) => do
      s.removeChannel x.acceptor
      let _ ← lift channel.disableAll.remove
      lift (assertThat (s.currentActiveChannel ≠ some x.acceptor) "!eventHandling_")
      return ({ s with destructing := s.destructing.tail }.putServer k
        { x with destroyed := true }).free x.acceptor
    | _ => .error (.fault .useAfterFree)

end Servers

section Clients

def replaceClient (s : ChannelLoop) (k : ℕ) (x : LoopClient) (c : TCPClient) (address : ℕ) :
    ChannelLoop :=
  match x.client.connector.channel, c.connector.channel with
  | none, some _ => (s.putClient k ⟨c, address⟩).put address (.connector k)
  | some _, none => (s.putClient k ⟨c, x.channel⟩).free x.channel
  | _, _ => s.putClient k ⟨c, x.channel⟩

/-- A function of the client or of its connector. What it has left in its lists
takes place: `resetChannel` is queued by `removeAndResetChannel` alone, and a
connection that it has opened is a `TCPConnection` from now on. -/
def onClient (s : ChannelLoop) (k : ℕ) (a : Answers) (f : TCPClient → Except Fault TCPClient) :
    Except LoopFault ChannelLoop :=
  match s.clients k with
  | none => .error (.fault .useAfterFree)
  | some x => do
    let c ← lift (f (x.ready a.address))
    if .resetChannel ∈ c.pendingFunctors then s.removeChannel x.channel
    let s := (s.replaceClient k x c a.address).queueInLoop
      (c.pendingFunctors.map fun
        | .connectDestroyed i => .connectDestroyed i
        | f => .ofClient k f)
    match c.openConnections, c.connector.channel with
    | _::_, some channel => s.newConnection channel.fd (.client k) a
    | _, _ => return s

end Clients

def closeCallback (s : ChannelLoop) (i : ℕ) (a : Answers) : Except LoopFault ChannelLoop :=
  match s.objects i with
  | some (.connection _ (.server k)) => s.removeConnection k i
  | some (.connection _ (.client k)) => s.onClient k a (fun c => c.removeConnection i a.connect)
  | some (.connection _ .elsewhere) => .ok s
  | _ => .error (.fault .useAfterFree)

/-- A callback of the channel at `i`. The wake-up channel only reads a counter;
the timers that the timer queue runs are steps of their own. -/
def handleCallback (s : ChannelLoop) (i : ℕ) (a : Answers) (cb : Callback) :
    Except LoopFault ChannelLoop :=
  match s.objects i with
  | none => .error (.fault .useAfterFree)
  | some (.connection _ _) => s.onConnection i (fun c => c.handleCallback a.read a.write cb)
  | some (.connector k) => s.onClient k a (fun c => c.handleCallback a.soError a.selfConnect cb)
  | some (.acceptor k _) => if cb = .read then s.acceptorRead k a else .ok s
  | some (.timerQueue _) => .ok s
  | some (.wakeup _) => .ok s

def handleEvent (s : ChannelLoop) (r : Revents) : Except LoopFault ChannelLoop :=
  match s.unhandled with
  | [] => .ok s
  | i::rest =>
    if (s.objects i).isNone then .error (.fault .useAfterFree)
    else .ok { s with
      unhandled := rest, currentActiveChannel := some i, handling := Channel.callbacks r }

def runFunctor (s : ChannelLoop) (a : Answers) : ChannelFunctor → Except LoopFault ChannelLoop
  | .ofConnection i .forceCloseInLoop => s.onConnection i TCPConnection.forceCloseInLoop
  | .ofConnection _ .writeCompleteCallback => .ok s
  | .ofConnection _ (.highWaterMarkCallback _) => .ok s
  | .connectEstablished i => s.onConnection i TCPConnection.connectEstablished
  | .connectDestroyed i => s.connectDestroyed i
  | .ofClient k f => s.onClient k a (fun c => c.runFunctor a.connect f)

def fireDelayedClose (s : ChannelLoop) (n : ℕ) : Except LoopFault ChannelLoop :=
  match s.delayedCloses[n]? with
  | none => .ok s
  | some i => { s with delayedCloses := s.delayedCloses.eraseIdx n }.onConnection i
      (fun c => .ok c.forceClose)

def release (s : ChannelLoop) (i : ℕ) : Except LoopFault ChannelLoop :=
  match s.objects i with
  | some (.connection conn _) => do
    lift (assertThat (conn.state = .kDisconnected) "state_ == StateE::kDisconnected")
    lift (assertThat (conn.channel.addedToLoop = false) "!addedToLoop_")
    lift (assertThat (conn.channel.index = .kNew) "!loop_->hasChannel(this)")
    return { s with delayedCloses := s.delayedCloses.filter (· ≠ i) }.free i
  | _ => .error (.fault .useAfterFree)

/-- `callClient` and `call` are calls of the user, `accepted` and `destroyed`
messages of a server on another loop. `callback` is the next callback of the
current channel, `retryTimer` and `fireDelayedClose` are expired timers. -/
inductive Action where
  | newServer (k address sockfd : ℕ)
  | listen (k : ℕ)
  | newClient (k : ℕ)
  | callClient (k : ℕ) (b : TCPClient.Action) (a : Answers)
  | call (i : ℕ) (b : TCPConnection.Call)
  | deleteServer (k : ℕ)
  | deleteConnection (k i : ℕ)
  | serverDeleted (k : ℕ)
  | accepted (sockfd : ℕ) (a : Answers)
  | destroyed (i : ℕ)
  | release (i : ℕ)
  | poll (active : List ℕ)
  | handleEvent (r : Revents)
  | callback (a : Answers)
  | closeCallback (a : Answers)
  | retryTimer (k n : ℕ) (a : Answers)
  | fireDelayedClose (n : ℕ)
  | swap
  | runFunctor (a : Answers)

def step (s : ChannelLoop) : Action → Except LoopFault ChannelLoop
  | .newServer k address sockfd =>
    .ok ((s.putServer k ⟨address, [], false⟩).put address (.acceptor k (.construct sockfd)))
  | .listen k => s.listen k
  | .newClient k => .ok (s.putClient k ⟨.construct, 0⟩)
  | .callClient k b a => s.onClient k a (fun c => c.step b)
  | .call i b => s.onConnection i (fun c => c.call b)
  | .deleteServer k => .ok { s with destructing := k::s.destructing }
  | .deleteConnection k i => s.deleteConnection k i
  | .serverDeleted k => s.serverDeleted k
  | .accepted sockfd a => do
    let conn ← lift (TCPConnection.construct sockfd a.writeComplete a.highWater a.mark)
    return (s.put a.address (.connection conn .elsewhere)).queueInLoop
      [.connectEstablished a.address]
  | .destroyed i => .ok (s.queueInLoop [.connectDestroyed i])
  | .release i => s.release i
  | .poll active => .ok { s with
      eventHandling := true
      activeChannels := active
      unhandled := active
      currentActiveChannel := none }
  | .handleEvent r => s.handleEvent r
  | .callback a =>
    match s.handling, s.currentActiveChannel with
    | cb::rest, some i => { s with handling := rest }.handleCallback i a cb
    | _, _ => .ok s
  | .closeCallback a =>
    match s.closing with
    | none => .ok s
    | some i => { s with closing := none }.closeCallback i a
  | .retryTimer k n a => s.onClient k a (fun c => c.step (.retryTimer n a.connect))
  | .fireDelayedClose n => s.fireDelayedClose n
  | .swap => .ok { s with
      eventHandling := false
      currentActiveChannel := none
      functors := s.pendingFunctors
      pendingFunctors := [] }
  | .runFunctor a =>
    match s.functors with
    | [] => .ok s
    | f::functors => { s with functors := functors }.runFunctor a f

def Between (s : ChannelLoop) : Prop :=
  s.handling = [] ∧ s.closing = none ∧ s.destructing = []

/-- In the event phase user code runs inside a handler. -/
def UserTurn (s : ChannelLoop) : Prop := s.eventHandling = true → s.currentActiveChannel ≠ none

def Fresh (s : ChannelLoop) (address : ℕ) : Prop := (s.objects address).isNone = true

def Expiring (s : ChannelLoop) : Prop :=
  s.eventHandling = true ∧ s.closing = none ∧ s.destructing = [] ∧
    (s.currentActiveChannel.bind s.objects).any LoopObject.isTimerQueue = true

def Deleting (s : ChannelLoop) (k : ℕ) (P : List ℕ → Bool) : Prop :=
  s.destructing.head? = some k ∧ (s.servers k).any (fun x => P x.connections) = true

def conn? : ChannelFunctor → Option ℕ
  | .ofConnection i _ => some i
  | .connectEstablished i => some i
  | .connectDestroyed i => some i
  | .ofClient _ _ => none

/-- The owner of the connection has let go of it. -/
def Dropped (s : ChannelLoop) (i : ℕ) : CloseCallback → Prop
  | .server k => (s.servers k).all (fun x => i ∉ x.connections) = true
  | .client k => (s.clients k).all (fun x => x.client.connection ≠ some i) = true
  | .elsewhere => True

def Unreferenced (s : ChannelLoop) (i : ℕ) : Prop :=
  some i ∉ (s.functors ++ s.pendingFunctors).map conn? ∧ s.closing ≠ some i ∧
    (s.handling ≠ [] → s.currentActiveChannel ≠ some i) ∧
    ∃ p ∈ s.connection? i, s.Dropped i p.2

def UserCall : TCPClient.Action → Prop
  | .connect _ _ => True
  | .stop => True
  | .disconnect => True
  | .enableRetry => True
  | _ => False

/-- The order of the loop. `poll` reports channels that are in the kernel's
set, each of them once. -/
def Enabled (s : ChannelLoop) : Action → Prop
  | .newServer k address _ => s.UserTurn ∧ (s.servers k).isNone = true ∧ s.Fresh address
  | .listen _ => s.UserTurn
  | .newClient k => s.UserTurn ∧ (s.clients k).isNone = true
  | .callClient _ b a => s.UserTurn ∧ UserCall b ∧ s.Fresh a.address
  | .call i b => s.UserTurn ∧
      ∃ p ∈ s.connection? i, ConnectionLoop.UserCall p.1 b
  | .deleteServer k => s.UserTurn ∧ k ∉ s.destructing ∧
      (s.servers k).any (fun x => !x.destroyed) = true
  | .deleteConnection k i => s.Deleting k (fun is => i ∈ is)
  | .serverDeleted k => s.Deleting k List.isEmpty
  | .accepted _ a => s.Fresh a.address
  | .destroyed i => (s.connection? i).any (fun p => p.2 = .elsewhere) = true
  | .release i => s.Unreferenced i
  | .poll active => s.Between ∧ s.eventHandling = false ∧ s.functors = [] ∧ active.Nodup ∧
      ∀ i ∈ active, (s.channel? i).any (fun channel => channel.index = .kAdded) = true
  | .handleEvent _ => s.Between ∧ s.unhandled ≠ []
  | .callback a => s.handling ≠ [] ∧ s.closing = none ∧ s.destructing = [] ∧ s.Fresh a.address
  | .closeCallback a => s.closing ≠ none ∧ s.destructing = [] ∧ s.Fresh a.address
  | .retryTimer _ _ a => s.Expiring ∧ s.Fresh a.address
  | .fireDelayedClose _ => s.Expiring
  | .swap => s.Between ∧ s.eventHandling = true ∧ s.unhandled = []
  | .runFunctor a => s.Between ∧ s.eventHandling = false ∧ s.functors ≠ [] ∧ s.Fresh a.address

/-- The loop can still dispatch to every channel that it has not handled in
this iteration: none has been removed or freed. -/
def Dispatchable (s : ChannelLoop) : Prop :=
  ∀ i ∈ s.unhandled, (s.channel? i).any (fun channel => channel.index ≠ .kNew) = true

/-- Where `~TCPServer` removes a channel in the event phase, the channel is the
current one or not active. A connection that is not up and still has some
interest is not removed. -/
def Safe (s : ChannelLoop) : Action → Prop
  | .deleteConnection _ i => ∀ p ∈ s.connection? i,
      p.1.state = .kConnected ∨ p.1.channel.isNoneEvent = true → s.Removable i
  | .serverDeleted k => ∀ x ∈ s.servers k,
      (s.objects x.acceptor).any LoopObject.isAcceptor = true → s.Removable x.acceptor
  | _ => True

section Decidable
variable (s : ChannelLoop)

instance : Decidable s.Between := inferInstanceAs (Decidable (_ ∧ _ ∧ _))

instance : Decidable s.UserTurn := inferInstanceAs (Decidable (_ → _))

instance (address : ℕ) : Decidable (s.Fresh address) := inferInstanceAs (Decidable (_ = true))

instance : Decidable s.Expiring := inferInstanceAs (Decidable (_ ∧ _ ∧ _ ∧ _))

instance (k : ℕ) (P : List ℕ → Bool) : Decidable (s.Deleting k P) :=
  inferInstanceAs (Decidable (_ ∧ _))

instance (i : ℕ) : (onClose : CloseCallback) → Decidable (s.Dropped i onClose)
  | .server _ => inferInstanceAs (Decidable (_ = true))
  | .client _ => inferInstanceAs (Decidable (_ = true))
  | .elsewhere => isTrue trivial

instance (i : ℕ) : Decidable (s.Unreferenced i) :=
  inferInstanceAs (Decidable (_ ∧ _ ∧ (_ → _) ∧ ∃ p ∈ s.connection? i, _))

instance : (b : TCPClient.Action) → Decidable (UserCall b)
  | .connect _ _ => isTrue trivial
  | .stop => isTrue trivial
  | .disconnect => isTrue trivial
  | .enableRetry => isTrue trivial
  | .forceClose _ => isFalse not_false
  | .poll _ _ => isFalse not_false
  | .handleEvent _ _ _ => isFalse not_false
  | .closeEvent _ _ => isFalse not_false
  | .retryTimer _ _ => isFalse not_false
  | .swap => isFalse not_false
  | .runFunctor _ => isFalse not_false

instance : (a : Action) → Decidable (s.Enabled a)
  | .newServer _ _ _ => inferInstanceAs (Decidable (_ ∧ _ ∧ _))
  | .listen _ => inferInstanceAs (Decidable s.UserTurn)
  | .newClient _ => inferInstanceAs (Decidable (_ ∧ _))
  | .callClient _ _ _ => inferInstanceAs (Decidable (_ ∧ _ ∧ _))
  | .call i _ => inferInstanceAs (Decidable (_ ∧ ∃ p ∈ s.connection? i, _))
  | .deleteServer _ => inferInstanceAs (Decidable (_ ∧ _ ∧ _))
  | .deleteConnection k i => inferInstanceAs (Decidable (s.Deleting k (fun is => i ∈ is)))
  | .serverDeleted k => inferInstanceAs (Decidable (s.Deleting k List.isEmpty))
  | .accepted _ _ => inferInstanceAs (Decidable (s.Fresh _))
  | .destroyed _ => inferInstanceAs (Decidable (_ = true))
  | .release i => inferInstanceAs (Decidable (s.Unreferenced i))
  | .poll _ => inferInstanceAs (Decidable (_ ∧ _ ∧ _ ∧ _ ∧ _))
  | .handleEvent _ => inferInstanceAs (Decidable (_ ∧ _))
  | .callback _ => inferInstanceAs (Decidable (_ ∧ _ ∧ _ ∧ _))
  | .closeCallback _ => inferInstanceAs (Decidable (_ ∧ _ ∧ _))
  | .retryTimer _ _ _ => inferInstanceAs (Decidable (_ ∧ _))
  | .fireDelayedClose _ => inferInstanceAs (Decidable s.Expiring)
  | .swap => inferInstanceAs (Decidable (_ ∧ _ ∧ _))
  | .runFunctor _ => inferInstanceAs (Decidable (_ ∧ _ ∧ _ ∧ _))

instance : (a : Action) → Decidable (s.Safe a)
  | .deleteConnection _ i => inferInstanceAs (Decidable (∀ p ∈ s.connection? i, _ → _))
  | .serverDeleted k => inferInstanceAs (Decidable (∀ x ∈ s.servers k, _ → _))
  | .newServer _ _ _ => isTrue trivial
  | .listen _ => isTrue trivial
  | .newClient _ => isTrue trivial
  | .callClient _ _ _ => isTrue trivial
  | .call _ _ => isTrue trivial
  | .deleteServer _ => isTrue trivial
  | .accepted _ _ => isTrue trivial
  | .destroyed _ => isTrue trivial
  | .release _ => isTrue trivial
  | .poll _ => isTrue trivial
  | .handleEvent _ => isTrue trivial
  | .callback _ => isTrue trivial
  | .closeCallback _ => isTrue trivial
  | .retryTimer _ _ _ => isTrue trivial
  | .fireDelayedClose _ => isTrue trivial
  | .swap => isTrue trivial
  | .runFunctor _ => isTrue trivial

end Decidable

end ChannelLoop

end Lux.Polaris

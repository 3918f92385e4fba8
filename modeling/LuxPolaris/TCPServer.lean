import LuxPolaris.TCPConnection
import Mathlib.Logic.Function.Basic

/-!
# TCPServer

A server whose connections all live on its own loop, the connections, and as
much of the loop as they share: the functors queued and swapped out, the
delayed closes, and the channels that the last `poll` reported. Connections
are known by their numbers and `connections_` is walked in any order. A user
may hold a connection for as long as he likes, so `~TCPConnection` runs at any
time after the library has let go of it. `startRead` and `stopRead`, the
acceptor's own channel and the poller's map are left out.
-/

set_option autoImplicit false

namespace Lux.Polaris
open Outcome

inductive ServerFunctor where
  | ofConnection (conn : ℕ) (f : ConnFunctor)
  | connectDestroyed (conn : ℕ)
  deriving DecidableEq, Repr

def ServerFunctor.conn : ServerFunctor → ℕ
  | .ofConnection i _ => i
  | .connectDestroyed i => i

/-- A connection on the heap, with what `connected()` answered at each call of
its `connectionCallback_`. A destroyed one is kept for this record alone. -/
structure ConnObject where
  conn : TCPConnection
  callbacks : List Bool
  destroyed : Bool
  deriving DecidableEq, Repr

/-- `~TCPServer` runs one connection at a time, with user callbacks between. -/
inductive ServerPhase where
  | alive
  | destructing
  | destroyed
  deriving DecidableEq, Repr

/-- `handling` are the callbacks still to be made for the current channel, and
`closing` is a connection between the last two callbacks of `handleClose`. -/
structure TCPServer where
  phase : ServerPhase
  nextConnId : ℕ
  connections : List ℕ
  objects : ℕ → Option ConnObject
  pendingFunctors : List ServerFunctor
  functors : List ServerFunctor
  delayedCloses : List ℕ
  eventHandling : Bool
  activeChannels : List ℕ
  unhandled : List ℕ
  handling : List (ℕ × Callback)
  closing : Option ℕ

namespace Effect

def notified : Effect → Option Bool
  | .connectionCallback up => some up
  | _ => none

def queued (i : ℕ) : Effect → Option ServerFunctor
  | .queueInLoop f => some (.ofConnection i f)
  | _ => none

def delayed (i : ℕ) : Effect → Option ℕ
  | .forceCloseAfter _ => some i
  | _ => none

end Effect

def TCPConnection.handleCallback (c : TCPConnection) (r : Buffer.ReadResult) (w : WriteResult) :
    Callback → Except Fault TCPConnection
  | .close => c.handleClose
  | .error => .ok c.handleError
  | .read => c.handleRead r
  | .write => c.handleWrite w

namespace TCPServer

def construct : TCPServer where
  phase := .alive
  nextConnId := 1
  connections := []
  objects := fun _ => none
  pendingFunctors := []
  functors := []
  delayedCloses := []
  eventHandling := false
  activeChannels := []
  unhandled := []
  handling := []
  closing := none

def put (s : TCPServer) (i : ℕ) (x : ConnObject) : TCPServer :=
  { s with objects := Function.update s.objects i (some x) }

def object (s : TCPServer) (i : ℕ) : Except Fault ConnObject :=
  match s.objects i with
  | none => .error .useAfterFree
  | some x => if x.destroyed then .error .useAfterFree else .ok x

def settle (s : TCPServer) (i : ℕ) (x : ConnObject) (c : TCPConnection) : TCPServer :=
  { s with
    pendingFunctors := s.pendingFunctors ++ c.effects.filterMap (Effect.queued i)
    delayedCloses := s.delayedCloses ++ c.effects.filterMap (Effect.delayed i)
    closing := if Effect.closeCallback ∈ c.effects then some i else s.closing }.put i
    { x with
      conn := { c with effects := [] }
      callbacks := x.callbacks ++ c.effects.filterMap Effect.notified }

def onConnection (s : TCPServer) (i : ℕ) (f : TCPConnection → Except Fault TCPConnection) :
    Except Fault TCPServer := do
  let x ← s.object i
  let c ← f x.conn
  return s.settle i x c

def newConnection (s : TCPServer) (sockfd : ℕ) (writeComplete highWater : Bool) (mark : ℕ) :
    Except Fault TCPServer := do
  let i := s.nextConnId
  let c ← TCPConnection.construct sockfd writeComplete highWater mark
  let s := { s with nextConnId := i+1, connections := s.connections ++ [i] }.put i ⟨c, [], false⟩
  s.onConnection i TCPConnection.connectEstablished

/-- `closeCallback_`, that is `removeConnection` and `removeConnectionInLoop`. -/
def removeConnection (s : TCPServer) (i : ℕ) : Except Fault TCPServer := do
  if s.phase = .destroyed then .error .useAfterFree
  assertThat (i ∈ s.connections) "n == 1"
  return { s with
    connections := s.connections.erase i
    pendingFunctors := s.pendingFunctors ++ [.connectDestroyed i] }

/-- `connectDestroyed`, with what `EventLoop::removeChannel` asserts when no
handler of this connection's channel is running. -/
def connectDestroyed (s : TCPServer) (i : ℕ) : Except Fault TCPServer := do
  let s ← s.onConnection i TCPConnection.connectDestroyed
  assertThat (s.eventHandling = true → i ∉ s.activeChannels)
    ("currentActiveChannel_ == channel || " ++
      "std::find(activeChannels_.begin(), activeChannels_.end(), channel) == activeChannels_.end()")
  return s

def release (s : TCPServer) (i : ℕ) : Except Fault TCPServer := do
  let x ← s.object i
  assertThat (x.conn.state = .kDisconnected) "state_ == StateE::kDisconnected"
  assertThat (x.conn.channel.addedToLoop = false) "!addedToLoop_"
  assertThat (x.conn.channel.index = .kNew) "!loop_->hasChannel(this)"
  return s.put i { x with destroyed := true }

def handleEvent (s : TCPServer) (i : ℕ) (r : Revents) : Except Fault TCPServer := do
  let _ ← s.object i
  return { s with
    unhandled := s.unhandled.erase i, handling := (Channel.callbacks r).map (fun cb => (i, cb)) }

def fireDelayedClose (s : TCPServer) (k : ℕ) : Except Fault TCPServer :=
  let fired := { s with delayedCloses := s.delayedCloses.eraseIdx k }
  match s.delayedCloses[k]? with
  | none => .ok s
  | some i =>
    if (s.objects i).any (fun x => !x.destroyed) then
      fired.onConnection i (fun c => .ok c.forceClose)
    else .ok fired

def swap (s : TCPServer) : TCPServer :=
  { s with
    eventHandling := false
    activeChannels := []
    unhandled := []
    functors := s.pendingFunctors
    pendingFunctors := [] }

def runFunctor (s : TCPServer) : ServerFunctor → Except Fault TCPServer
  | .ofConnection i .forceCloseInLoop => s.onConnection i TCPConnection.forceCloseInLoop
  | .ofConnection _ .writeCompleteCallback => .ok s
  | .ofConnection _ (.highWaterMarkCallback _) => .ok s
  | .connectDestroyed i => s.connectDestroyed i

/-- `call` is a user's call on a connection, made in any callback. `poll`
answers the connections whose channels are active. `callback` is the next
callback of the current channel. -/
inductive Action where
  | newConnection (sockfd : ℕ) (writeComplete highWater : Bool) (mark : ℕ)
  | call (i : ℕ) (a : TCPConnection.Call)
  | poll (active : List ℕ)
  | handleEvent (i : ℕ) (r : Revents)
  | callback (r : Buffer.ReadResult) (w : WriteResult)
  | closeCallback
  | fireDelayedClose (k : ℕ)
  | swap
  | runFunctor
  | deleteServer
  | deleteConnection (i : ℕ)
  | serverDeleted
  | release (i : ℕ)

def step (s : TCPServer) : Action → Except Fault TCPServer
  | .newConnection sockfd writeComplete highWater mark =>
    s.newConnection sockfd writeComplete highWater mark
  | .call i a => s.onConnection i (fun c => c.call a)
  | .poll active => .ok { s with
      eventHandling := true, activeChannels := active, unhandled := active }
  | .handleEvent i r => s.handleEvent i r
  | .callback r w =>
    match s.handling with
    | [] => .ok s
    | (i, cb)::rest =>
      { s with handling := rest }.onConnection i (fun c => c.handleCallback r w cb)
  | .closeCallback =>
    match s.closing with
    | none => .ok s
    | some i => { s with closing := none }.removeConnection i
  | .fireDelayedClose k => s.fireDelayedClose k
  | .swap => .ok s.swap
  | .runFunctor =>
    match s.functors with
    | [] => .ok s
    | f::functors => runFunctor { s with functors := functors } f
  | .deleteServer => .ok { s with phase := .destructing }
  | .deleteConnection i => { s with connections := s.connections.erase i }.connectDestroyed i
  | .serverDeleted => .ok { s with phase := .destroyed }
  | .release i => s.release i

def Between (s : TCPServer) : Prop :=
  s.handling = [] ∧ s.closing = none ∧ s.phase ≠ .destructing

def state? (s : TCPServer) (i : ℕ) : Option StateE := (s.objects i).map (fun x => x.conn.state)

def Allocated (s : TCPServer) (i : ℕ) : Prop :=
  (s.objects i).any (fun x => !x.destroyed) = true

def queue (s : TCPServer) : List ServerFunctor := s.functors ++ s.pendingFunctors

/-- The library holds the connection: in `connections_`, in a functor or in the
handler that is running. -/
def Referenced (s : TCPServer) (i : ℕ) : Prop :=
  i ∈ s.connections ∨ i ∈ s.queue.map ServerFunctor.conn ∨ i ∈ s.handling.map Prod.fst

def UserCall (s : TCPServer) (i : ℕ) : TCPConnection.Call → Prop
  | .send _ _ => True
  | .shutdown => True
  | .forceClose => True
  | .forceCloseWithDelay _ => True
  | .takeInput len =>
    (s.objects i).any (fun x => len ≤ x.conn.inputBuffer.readableBytes) = true
  | _ => False

/-- The order of the loop, and that `~TCPServer` runs in no callback of a
connection. `poll` reports channels that are in the kernel's set. -/
def Enabled (s : TCPServer) : Action → Prop
  | .newConnection _ _ _ _ => s.Between ∧ s.eventHandling = true ∧ s.phase = .alive
  | .call i a => s.Allocated i ∧ s.UserCall i a
  | .poll active => s.Between ∧ s.eventHandling = false ∧ s.functors = [] ∧ active.Nodup ∧
      ∀ i ∈ active,
        (s.objects i).any (fun x => !x.destroyed && x.conn.channel.index = .kAdded) = true
  | .handleEvent i _ => s.Between ∧ i ∈ s.unhandled
  | .callback _ _ => s.handling ≠ [] ∧ s.closing = none
  | .closeCallback => s.closing ≠ none
  | .fireDelayedClose k => s.Between ∧ s.eventHandling = true ∧ k < s.delayedCloses.length
  | .swap => s.Between ∧ s.eventHandling = true ∧ s.unhandled = []
  | .runFunctor => s.Between ∧ s.eventHandling = false ∧ s.functors ≠ []
  | .deleteServer => s.Between ∧ s.phase = .alive
  | .deleteConnection i => s.phase = .destructing ∧ i ∈ s.connections
  | .serverDeleted => s.phase = .destructing ∧ s.connections = []
  | .release i => s.Allocated i ∧ ¬s.Referenced i

instance (s : TCPServer) : Decidable s.Between := inferInstanceAs (Decidable (_ ∧ _ ∧ _))

instance (s : TCPServer) (i : ℕ) : Decidable (s.Allocated i) := inferInstanceAs (Decidable (_ = _))

instance (s : TCPServer) (i : ℕ) : Decidable (s.Referenced i) :=
  inferInstanceAs (Decidable (_ ∨ _ ∨ _))

instance (s : TCPServer) (i : ℕ) : (a : TCPConnection.Call) → Decidable (s.UserCall i a)
  | .send _ _ => isTrue trivial
  | .shutdown => isTrue trivial
  | .forceClose => isTrue trivial
  | .forceCloseWithDelay _ => isTrue trivial
  | .takeInput _ => inferInstanceAs (Decidable (_ = _))
  | .sendInLoop _ _ => isFalse not_false
  | .forceCloseInLoop => isFalse not_false
  | .startRead => isFalse not_false
  | .stopRead => isFalse not_false
  | .handleRead _ => isFalse not_false
  | .handleWrite _ => isFalse not_false
  | .handleClose => isFalse not_false
  | .handleError => isFalse not_false

instance (s : TCPServer) : (a : Action) → Decidable (s.Enabled a)
  | .newConnection _ _ _ _ => inferInstanceAs (Decidable (_ ∧ _ ∧ _))
  | .call _ _ => inferInstanceAs (Decidable (_ ∧ _))
  | .poll _ => inferInstanceAs (Decidable (_ ∧ _ ∧ _ ∧ _ ∧ _))
  | .handleEvent _ _ => inferInstanceAs (Decidable (_ ∧ _))
  | .callback _ _ => inferInstanceAs (Decidable (_ ∧ _))
  | .closeCallback => inferInstanceAs (Decidable (_ ≠ _))
  | .fireDelayedClose _ => inferInstanceAs (Decidable (_ ∧ _ ∧ _))
  | .swap => inferInstanceAs (Decidable (_ ∧ _ ∧ _))
  | .runFunctor => inferInstanceAs (Decidable (_ ∧ _ ∧ _))
  | .deleteServer => inferInstanceAs (Decidable (_ ∧ _))
  | .deleteConnection _ => inferInstanceAs (Decidable (_ ∧ _))
  | .serverDeleted => inferInstanceAs (Decidable (_ ∧ _))
  | .release _ => inferInstanceAs (Decidable (_ ∧ ¬_))

end TCPServer

end Lux.Polaris

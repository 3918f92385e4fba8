import LuxPolaris.InetAddress
import LuxPolaris.TCPServer

/-!
# A server and its I/O loops

The server on its base loop, loop 0, and the connections that it gives to the
loops of its pool, loops 1 to `numThreads`. Each loop runs one callback or
functor at a time and the loops take turns in any order. The server is started
and alive; connections stay in memory. `startRead` and `stopRead` are left out,
and a delayed close is a `forceClose` made later.
-/

set_option autoImplicit false

namespace Lux.Polaris
open Outcome

inductive LoopFunctor where
  | connectEstablished (conn : ℕ)
  | removeConnectionInLoop (conn : ℕ)
  | connectDestroyed (conn : ℕ)
  | ofConnection (conn : ℕ) (f : ConnFunctor)
  deriving DecidableEq, Repr

inductive Milestone where
  | connectEstablished
  | handleClose
  | removeConnection
  | removeConnectionInLoop
  | connectDestroyed
  deriving DecidableEq, Repr

/-- `ran` are the milestones, in the order in which they were run. -/
structure ServerConn where
  conn : TCPConnection
  name : List Char
  loop : ℕ
  ran : List Milestone
  deriving DecidableEq, Repr

/-- An `EventLoop` as `TCPServer` has its own: `handling` are the callbacks
still to be made for the current channel, `closing` is a connection between
the last two callbacks of `handleClose`. -/
structure ServerLoop where
  pendingFunctors : List LoopFunctor
  functors : List LoopFunctor
  eventHandling : Bool
  activeChannels : List ℕ
  unhandled : List ℕ
  handling : List (ℕ × Callback)
  closing : Option ℕ
  deriving DecidableEq, Repr

/-- What does not change after `start()`. -/
structure ServerSetup where
  name : List Char
  ipPort : List Char
  numThreads : ℕ
  deriving DecidableEq, Repr

/-- `connections` is the map from names, `erased` the entry that each
`removeConnectionInLoop` has erased. -/
structure ServerLoops where
  next : ℕ
  nextConnId : ℕ
  connections : List Char → Option ℕ
  objects : ℕ → Option ServerConn
  loops : ℕ → ServerLoop
  erased : List (ℕ × Option ℕ)

namespace Effect

def loopFunctor (i : ℕ) : Effect → Option LoopFunctor
  | .queueInLoop f => some (.ofConnection i f)
  | _ => none

def milestone : Effect → Option Milestone
  | .closeCallback => some .handleClose
  | _ => none

end Effect

namespace ServerSetup

def construct (inetNtop : ℕ → List Byte → List Char) (listenAddr : InetAddress)
    (name : List Char) (numThreads : ℕ) : Except Fault ServerSetup := do
  let ipPort ← listenAddr.toIpPort inetNtop
  return ⟨name, ipPort, numThreads⟩

end ServerSetup

namespace ServerLoop

def construct : ServerLoop where
  pendingFunctors := []
  functors := []
  eventHandling := false
  activeChannels := []
  unhandled := []
  handling := []
  closing := none

def queue (L : ServerLoop) : List LoopFunctor := L.functors ++ L.pendingFunctors

def Between (L : ServerLoop) : Prop := L.handling = [] ∧ L.closing = none

instance (L : ServerLoop) : Decidable L.Between := inferInstanceAs (Decidable (_ ∧ _))

/-- The end of the event phase and the swap in `doPendingFunctors`. -/
def swap (L : ServerLoop) : ServerLoop :=
  { L with
    eventHandling := false
    activeChannels := []
    unhandled := []
    functors := L.pendingFunctors
    pendingFunctors := [] }

end ServerLoop

namespace ServerLoops

def started : ServerLoops where
  next := 0
  nextConnId := 1
  connections := fun _ => none
  objects := fun _ => none
  loops := fun _ => .construct
  erased := []

def put (s : ServerLoops) (i : ℕ) (x : ServerConn) : ServerLoops :=
  { s with objects := Function.update s.objects i (some x) }

def onLoop (s : ServerLoops) (l : ℕ) (f : ServerLoop → ServerLoop) : ServerLoops :=
  { s with loops := Function.update s.loops l (f (s.loops l)) }

def queueInLoop (s : ServerLoops) (l : ℕ) (f : LoopFunctor) : ServerLoops :=
  s.onLoop l (fun L => { L with pendingFunctors := L.pendingFunctors ++ [f] })

def object (s : ServerLoops) (i : ℕ) : Except Fault ServerConn :=
  match s.objects i with
  | none => .error .useAfterFree
  | some x => .ok x

def settle (s : ServerLoops) (i : ℕ) (x : ServerConn) (c : TCPConnection) : ServerLoops :=
  (s.onLoop x.loop (fun L => { L with
    pendingFunctors := L.pendingFunctors ++ c.effects.filterMap (Effect.loopFunctor i)
    closing := if Effect.closeCallback ∈ c.effects then some i else L.closing })).put i
    { x with
      conn := { c with effects := [] }
      ran := x.ran ++ c.effects.filterMap Effect.milestone }

def onConnection (s : ServerLoops) (l i : ℕ) (ms : List Milestone)
    (f : TCPConnection → Except Fault TCPConnection) : Except Fault ServerLoops := do
  let x ← s.object i
  assertThat (l = x.loop) "isInLoopThread()"
  let c ← f x.conn
  return s.settle i { x with ran := x.ran ++ ms } c

/-- `EventLoopThreadPool::getNextLoop`. -/
def getNextLoop (server : ServerSetup) (s : ServerLoops) : Except Fault (ℕ × ServerLoops) :=
  if server.numThreads = 0 then .ok (0, s)
  else if s.next < server.numThreads then
    let next := s.next+1
    .ok (next, { s with next := if next ≥ server.numThreads then 0 else next })
  else .error .outOfBounds

def connectEstablished (s : ServerLoops) (l i : ℕ) : Except Fault ServerLoops :=
  s.onConnection l i [.connectEstablished] TCPConnection.connectEstablished

/-- `connectDestroyed`, with what `EventLoop::removeChannel` asserts when no
handler of this connection's channel is running. -/
def connectDestroyed (s : ServerLoops) (l i : ℕ) : Except Fault ServerLoops := do
  let s ← s.onConnection l i [.connectDestroyed] TCPConnection.connectDestroyed
  assertThat ((s.loops l).eventHandling = true → i ∉ (s.loops l).activeChannels)
    ("currentActiveChannel_ == channel || " ++
      "std::find(activeChannels_.begin(), activeChannels_.end(), channel) == activeChannels_.end()")
  return s

def removeConnectionInLoop (s : ServerLoops) (l i : ℕ) : Except Fault ServerLoops := do
  assertThat (l = 0) "isInLoopThread()"
  let x ← s.object i
  let entry := s.connections x.name
  assertThat (entry.isSome = true) "n == 1"
  let s := { s with
    connections := Function.update s.connections x.name none
    erased := s.erased ++ [(i, entry)] }
  let s := s.put i { x with ran := x.ran ++ [.removeConnectionInLoop] }
  return s.queueInLoop x.loop (.connectDestroyed i)

def runFunctor (s : ServerLoops) (l : ℕ) : LoopFunctor → Except Fault ServerLoops
  | .connectEstablished i => s.connectEstablished l i
  | .removeConnectionInLoop i => s.removeConnectionInLoop l i
  | .connectDestroyed i => s.connectDestroyed l i
  | .ofConnection i .forceCloseInLoop => s.onConnection l i [] TCPConnection.forceCloseInLoop
  | .ofConnection _ .writeCompleteCallback => .ok s
  | .ofConnection _ (.highWaterMarkCallback _) => .ok s

def runInLoop (s : ServerLoops) (thread l : ℕ) (f : LoopFunctor) : Except Fault ServerLoops :=
  if thread = l then s.runFunctor l f else .ok (s.queueInLoop l f)

def newConnection (server : ServerSetup) (s : ServerLoops) (sockfd : ℕ)
    (writeComplete highWater : Bool) (mark : ℕ) : Except Fault ServerLoops := do
  let (ioLoop, s) ← s.getNextLoop server
  let i := s.nextConnId
  let name := connName server.name server.ipPort i
  let c ← TCPConnection.construct sockfd writeComplete highWater mark
  let s := { s with
    nextConnId := i+1
    connections := Function.update s.connections name (some i) }
  (s.put i ⟨c, name, ioLoop, []⟩).runInLoop 0 ioLoop (.connectEstablished i)

def removeConnection (s : ServerLoops) (l i : ℕ) : Except Fault ServerLoops := do
  let x ← s.object i
  let s := s.put i { x with ran := x.ran ++ [.removeConnection] }
  s.runInLoop l 0 (.removeConnectionInLoop i)

/-- `call` is a user's call on a connection, made in any callback on its loop.
`poll` answers the connections whose channels are active. `callback` is the
next callback of the current channel. -/
inductive Action where
  | newConnection (sockfd : ℕ) (writeComplete highWater : Bool) (mark : ℕ)
  | call (l i : ℕ) (a : TCPConnection.Call)
  | poll (l : ℕ) (active : List ℕ)
  | handleEvent (l i : ℕ) (r : Revents)
  | callback (l : ℕ) (r : Buffer.ReadResult) (w : WriteResult)
  | closeCallback (l : ℕ)
  | swap (l : ℕ)
  | runFunctor (l : ℕ)

def step (server : ServerSetup) (s : ServerLoops) : Action → Except Fault ServerLoops
  | .newConnection sockfd writeComplete highWater mark =>
    s.newConnection server sockfd writeComplete highWater mark
  | .call l i a => s.onConnection l i [] (fun c => c.call a)
  | .poll l active => .ok (s.onLoop l (fun L => { L with
      eventHandling := true, activeChannels := active, unhandled := active }))
  | .handleEvent l i r => .ok (s.onLoop l (fun L => { L with
      unhandled := L.unhandled.erase i
      handling := (Channel.callbacks r).map (fun cb => (i, cb)) }))
  | .callback l r w =>
    match (s.loops l).handling with
    | [] => .ok s
    | (i, cb)::rest =>
      (s.onLoop l (fun L => { L with handling := rest })).onConnection l i []
        (fun c => c.handleCallback r w cb)
  | .closeCallback l =>
    match (s.loops l).closing with
    | none => .ok s
    | some i => (s.onLoop l (fun L => { L with closing := none })).removeConnection l i
  | .swap l => .ok (s.onLoop l ServerLoop.swap)
  | .runFunctor l =>
    match (s.loops l).functors with
    | [] => .ok s
    | f::functors => (s.onLoop l (fun L => { L with functors := functors })).runFunctor l f

/-- The order of each loop. The server accepts fewer than `2^31` connections, a
user has a connection from its `connectionCallback_` on, and the kernel reports
`POLLHUP` together with `POLLIN` to a reader. -/
def Enabled (s : ServerLoops) : Action → Prop
  | .newConnection _ _ _ _ =>
    (s.loops 0).Between ∧ (s.loops 0).eventHandling = true ∧ s.nextConnId < 2^31
  | .call l i a => (s.objects i).any (fun x => x.loop = l &&
      decide (Milestone.connectEstablished ∈ x.ran) && decide (x.conn.UserCall a)) = true
  | .poll l active => (s.loops l).Between ∧ (s.loops l).eventHandling = false ∧
      (s.loops l).functors = [] ∧ active.Nodup ∧ ∀ i ∈ active,
        (s.objects i).any (fun x => x.loop = l && x.conn.channel.index = .kAdded) = true
  | .handleEvent l i r => (s.loops l).Between ∧ i ∈ (s.loops l).unhandled ∧
      ((s.objects i).any (fun x => x.conn.channel.isReading) = true →
        r.pollhup = true → r.pollin = true)
  | .callback l _ _ => (s.loops l).handling ≠ [] ∧ (s.loops l).closing = none
  | .closeCallback l => (s.loops l).closing ≠ none
  | .swap l => (s.loops l).Between ∧ (s.loops l).eventHandling = true ∧ (s.loops l).unhandled = []
  | .runFunctor l => (s.loops l).Between ∧ (s.loops l).eventHandling = false ∧
      (s.loops l).functors ≠ []

instance (s : ServerLoops) : (a : Action) → Decidable (s.Enabled a)
  | .newConnection _ _ _ _ => inferInstanceAs (Decidable (_ ∧ _ ∧ _))
  | .call _ _ _ => inferInstanceAs (Decidable (_ = _))
  | .poll _ _ => inferInstanceAs (Decidable (_ ∧ _ ∧ _ ∧ _ ∧ _))
  | .handleEvent _ _ _ => inferInstanceAs (Decidable (_ ∧ _ ∧ (_ → _ → _)))
  | .callback _ _ _ => inferInstanceAs (Decidable (_ ∧ _))
  | .closeCallback _ => inferInstanceAs (Decidable (_ ≠ _))
  | .swap _ => inferInstanceAs (Decidable (_ ∧ _ ∧ _))
  | .runFunctor _ => inferInstanceAs (Decidable (_ ∧ _ ∧ _))

section Fields
variable (s : ServerLoops) (i l : ℕ) (x : ServerConn) (f : ServerLoop → ServerLoop)

@[simp] theorem put_self : (s.put i x).objects i = some x := Function.update_self ..

@[simp] theorem put_of_ne {j : ℕ} (h : j ≠ i) : (s.put i x).objects j = s.objects j :=
  Function.update_of_ne h ..

@[simp] theorem onLoop_self : (s.onLoop l f).loops l = f (s.loops l) := Function.update_self ..

@[simp] theorem onLoop_of_ne {k : ℕ} (h : k ≠ l) : (s.onLoop l f).loops k = s.loops k :=
  Function.update_of_ne h ..

end Fields

end ServerLoops

end Lux.Polaris

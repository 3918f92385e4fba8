import LuxPolaris.ClosedConnection

/-!
# The owners of connections

Servers and clients, the loops that their connections live on, and their
destructors. A close callback and the functor `removeConnectionInLoop` hold a
bare pointer to the owner; the destructor only sends messages to the
connections. It runs on the thread of one loop, or on a thread without a loop,
one statement at a time, and every other loop goes on meanwhile. Connections
stay in memory, a delayed close is a `forceClose` made later, and where
`~TCPServer` removes a channel at once the active channels are not looked at.
-/

set_option autoImplicit false

namespace Lux.Polaris
open Outcome

inductive OwnerKind where
  | server
  | client
  deriving DecidableEq, Repr

/-- What a destructor has still to do, and to which connection. -/
inductive DtorStep where
  | connectDestroyed (i : ℕ)
  | setCloseCallback (i : ℕ)
  | forceClose (i : ℕ)
  deriving DecidableEq, Repr

/-- `thread` is the loop on whose thread the destructor runs, if any. -/
inductive OwnerPhase where
  | alive
  | destructing (thread : Option ℕ) (rest : List DtorStep)
  | destroyed
  deriving DecidableEq, Repr

/-- `connections` are `connections_` of a server, or `connection_` of a client
if it has one. -/
structure Owner where
  kind : OwnerKind
  loop : ℕ
  connections : List ℕ
  phase : OwnerPhase
  deriving DecidableEq, Repr

/-- `onClose` is the owner to whose `removeConnection` `closeCallback_` is
bound; after `setCloseCallback` it is `detail::removeConnection`. -/
structure OwnedConn where
  conn : TCPConnection
  loop : ℕ
  onClose : Option ℕ
  deriving DecidableEq, Repr

inductive OwnerFunctor where
  | connectEstablished (i : ℕ)
  | connectDestroyed (i : ℕ)
  | setCloseCallback (i : ℕ)
  | removeConnectionInLoop (k i : ℕ)
  | ofConnection (i : ℕ) (f : ConnFunctor)
  deriving DecidableEq, Repr

/-- `destructing` are the owners whose destructors are running on the loop's
thread, the innermost first, `handling` the callbacks still to be made for the
current channel. `stopped` says that the thread has been joined. -/
structure OwnerLoop where
  pendingFunctors : List OwnerFunctor
  functors : List OwnerFunctor
  eventHandling : Bool
  unhandled : List ℕ
  handling : List (ℕ × Callback)
  destructing : List ℕ
  stopped : Bool
  deriving DecidableEq, Repr

/-- A member function of an owner whose destructor has finished, or any other
fault. -/
inductive OwnerFault where
  | destroyedOwner
  | fault (e : Fault)
  deriving DecidableEq, Repr

/-- `closing` are the connections between the last two callbacks of
`handleClose`. -/
structure Owners where
  owners : ℕ → Option Owner
  conns : ℕ → Option OwnedConn
  loops : ℕ → OwnerLoop
  closing : List ℕ

namespace OwnerLoop

def construct : OwnerLoop := ⟨[], [], false, [], [], [], false⟩

def queue (L : OwnerLoop) : List OwnerFunctor := L.functors ++ L.pendingFunctors

end OwnerLoop

/-- The statements of the destructor. `unique` says whether `~TCPClient` has
found `connection_` to be the only reference. -/
def Owner.dtor (o : Owner) (unique : Bool) : List DtorStep :=
  match o.kind with
  | .server => o.connections.map .connectDestroyed
  | .client => o.connections.flatMap fun i =>
    .setCloseCallback i :: if unique then [.forceClose i] else []

def Owner.destructing? (o : Owner) : Option (Option ℕ × List DtorStep) :=
  match o.phase with
  | .destructing thread rest => some (thread, rest)
  | _ => none

def OwnerFunctor.owner? : OwnerFunctor → Option ℕ
  | .removeConnectionInLoop k _ => some k
  | _ => none

namespace Owners

def construct : Owners where
  owners := fun _ => none
  conns := fun _ => none
  loops := fun _ => .construct
  closing := []

def put (s : Owners) (i : ℕ) (x : OwnedConn) : Owners :=
  { s with conns := Function.update s.conns i (some x) }

def putOwner (s : Owners) (k : ℕ) (o : Owner) : Owners :=
  { s with owners := Function.update s.owners k (some o) }

def onLoop (s : Owners) (l : ℕ) (f : OwnerLoop → OwnerLoop) : Owners :=
  { s with loops := Function.update s.loops l (f (s.loops l)) }

def queueInLoop (s : Owners) (l : ℕ) (fs : List OwnerFunctor) : Owners :=
  s.onLoop l (fun L => { L with pendingFunctors := L.pendingFunctors ++ fs })

def conn (s : Owners) (i : ℕ) : Except OwnerFault OwnedConn :=
  match s.conns i with
  | none => .error (.fault .useAfterFree)
  | some x => .ok x

def lift {α : Type} (r : Except Fault α) : Except OwnerFault α := r.mapError .fault

def settle (s : Owners) (i : ℕ) (x : OwnedConn) (c : TCPConnection) : Owners :=
  { (s.queueInLoop x.loop
      ((c.effects.filterMap Effect.functor).map (OwnerFunctor.ofConnection i))).put i
    { x with conn := { c with effects := [] } } with
    closing := if Effect.closeCallback ∈ c.effects then i::s.closing else s.closing }

def onConnection (s : Owners) (i : ℕ) (f : TCPConnection → Except Fault TCPConnection) :
    Except OwnerFault Owners := do
  let x ← s.conn i
  let c ← lift (f x.conn)
  return s.settle i x c

def setCloseCallback (s : Owners) (i : ℕ) : Except OwnerFault Owners := do
  let x ← s.conn i
  return s.put i { x with onClose := none }

def callOwner (s : Owners) (k : ℕ) : Except OwnerFault Owner :=
  match s.owners k with
  | none => .error (.fault .useAfterFree)
  | some o => if o.phase = .destroyed then .error .destroyedOwner else .ok o

def removeConnectionInLoop (s : Owners) (k i : ℕ) : Except OwnerFault Owners := do
  let o ← s.callOwner k
  let x ← s.conn i
  lift (assertThat (i ∈ o.connections) "n == 1")
  return (s.putOwner k { o with connections := o.connections.erase i }).queueInLoop x.loop
    [.connectDestroyed i]

def runFunctor (s : Owners) : OwnerFunctor → Except OwnerFault Owners
  | .connectEstablished i => s.onConnection i TCPConnection.connectEstablished
  | .connectDestroyed i => s.onConnection i TCPConnection.connectDestroyed
  | .setCloseCallback i => s.setCloseCallback i
  | .removeConnectionInLoop k i => s.removeConnectionInLoop k i
  | .ofConnection i .forceCloseInLoop => s.onConnection i TCPConnection.forceCloseInLoop
  | .ofConnection _ .writeCompleteCallback => .ok s
  | .ofConnection _ (.highWaterMarkCallback _) => .ok s

/-- `runInLoop` of loop `l` on the thread of loop `thread`, or of none. -/
def runInLoop (s : Owners) (thread : Option ℕ) (l : ℕ) (f : OwnerFunctor) :
    Except OwnerFault Owners :=
  if thread = some l then s.runFunctor f else .ok (s.queueInLoop l [f])

def removeConnection (s : Owners) (k i : ℕ) (x : OwnedConn) : Except OwnerFault Owners := do
  let o ← s.callOwner k
  match o.kind with
  | .server => s.runInLoop (some x.loop) o.loop (.removeConnectionInLoop k i)
  | .client =>
    lift (assertThat (o.connections = [i]) "connection_ == conn")
    return (s.putOwner k { o with connections := [] }).queueInLoop o.loop [.connectDestroyed i]

def closeCallback (s : Owners) (i : ℕ) : Except OwnerFault Owners := do
  let x ← s.conn i
  match x.onClose with
  | some k => s.removeConnection k i x
  | none => return s.queueInLoop x.loop [.connectDestroyed i]

def newConnection (s : Owners) (k i l sockfd : ℕ) (writeComplete highWater : Bool) (mark : ℕ) :
    Except OwnerFault Owners := do
  let o ← s.callOwner k
  let c ← lift (TCPConnection.construct sockfd writeComplete highWater mark)
  let s := (s.putOwner k { o with connections := o.connections ++ [i] }).put i ⟨c, l, some k⟩
  s.runInLoop (some o.loop) l (.connectEstablished i)

def deleteOwner (s : Owners) (k : ℕ) (thread : Option ℕ) (unique : Bool) :
    Except OwnerFault Owners := do
  let o ← s.callOwner k
  let s := s.putOwner k { o with phase := .destructing thread (o.dtor unique) }
  match thread with
  | none => return s
  | some l => return s.onLoop l (fun L => { L with destructing := k::L.destructing })

def runDtor (s : Owners) (thread : Option ℕ) : DtorStep → Except OwnerFault Owners
  | .connectDestroyed i => do
    let x ← s.conn i
    s.runInLoop thread x.loop (.connectDestroyed i)
  | .setCloseCallback i => do
    let x ← s.conn i
    s.runInLoop thread x.loop (.setCloseCallback i)
  | .forceClose i => s.onConnection i (fun c => .ok c.forceClose)

def dtorStep (s : Owners) (k : ℕ) : Except OwnerFault Owners :=
  match s.owners k with
  | none => .error (.fault .useAfterFree)
  | some o =>
    match o.phase with
    | .destructing thread (d::rest) =>
      (s.putOwner k { o with phase := .destructing thread rest }).runDtor thread d
    | _ => .ok s

def join (s : Owners) (joined : List ℕ) : Owners :=
  { s with loops := fun l => if l ∈ joined then { s.loops l with stopped := true } else s.loops l }

def finish (s : Owners) (k : ℕ) (joined : List ℕ) : Except OwnerFault Owners := do
  let o ← s.callOwner k
  let s := (s.putOwner k { o with phase := .destroyed }).join joined
  match o.phase with
  | .destructing (some l) _ =>
    return s.onLoop l (fun L => { L with destructing := L.destructing.tail })
  | _ => return s

/-- `call` is a user's call on a connection. `poll` answers the connections
whose channels are active, and `callback` is the next callback of the current
channel. -/
inductive Action where
  | newOwner (k : ℕ) (kind : OwnerKind) (loop : ℕ)
  | newConnection (k i l sockfd : ℕ) (writeComplete highWater : Bool) (mark : ℕ)
  | call (i : ℕ) (a : TCPConnection.Call)
  | deleteOwner (k : ℕ) (thread : Option ℕ) (unique : Bool)
  | dtorStep (k : ℕ)
  | finish (k : ℕ) (joined : List ℕ)
  | poll (l : ℕ) (active : List ℕ)
  | handleEvent (l i : ℕ) (r : Revents)
  | callback (l : ℕ) (r : Buffer.ReadResult) (w : WriteResult)
  | closeCallback (i : ℕ)
  | swap (l : ℕ)
  | runFunctor (l : ℕ)

def step (s : Owners) : Action → Except OwnerFault Owners
  | .newOwner k kind loop => .ok (s.putOwner k ⟨kind, loop, [], .alive⟩)
  | .newConnection k i l sockfd writeComplete highWater mark =>
    s.newConnection k i l sockfd writeComplete highWater mark
  | .call i a => s.onConnection i (fun c => c.call a)
  | .deleteOwner k thread unique => s.deleteOwner k thread unique
  | .dtorStep k => s.dtorStep k
  | .finish k joined => s.finish k joined
  | .poll l active => .ok (s.onLoop l (fun L => { L with
      eventHandling := true, unhandled := active }))
  | .handleEvent l i r => .ok (s.onLoop l (fun L => { L with
      unhandled := L.unhandled.erase i
      handling := (Channel.callbacks r).map (fun cb => (i, cb)) }))
  | .callback l r w =>
    match (s.loops l).handling with
    | [] => .ok s
    | (i, cb)::rest =>
      (s.onLoop l (fun L => { L with handling := rest })).onConnection i
        (fun c => c.handleCallback r w cb)
  | .closeCallback i => { s with closing := s.closing.erase i }.closeCallback i
  | .swap l => .ok (s.onLoop l (fun L => { L with
      eventHandling := false
      unhandled := []
      functors := L.pendingFunctors
      pendingFunctors := [] }))
  | .runFunctor l =>
    match (s.loops l).functors with
    | [] => .ok s
    | f::functors => (s.onLoop l (fun L => { L with functors := functors })).runFunctor f

def Free (s : Owners) (l : ℕ) : Prop :=
  (s.loops l).stopped = false ∧ (s.loops l).handling = [] ∧ (s.loops l).destructing = [] ∧
    ∀ i ∈ s.closing, (s.conns i).all (fun x => x.loop ≠ l) = true

/-- A server accepts connections for any loop, a client connects when it has
no connection; it may do so until its destructor has finished. -/
def Accepts (o : Owner) (l : ℕ) : Prop :=
  match o.kind with
  | .server => o.phase = .alive
  | .client => o.phase ≠ .destroyed ∧ l = o.loop ∧ o.connections = []

def Innermost (s : Owners) (k : ℕ) (thread : Option ℕ) : Prop :=
  ∀ l ∈ thread, (s.loops l).destructing.head? = some k

/-- The order of each loop. `~TCPServer` runs on the server's loop, and may join
the threads of loops that have ended an iteration. -/
def Enabled (s : Owners) : Action → Prop
  | .newOwner k _ _ => (s.owners k).isNone = true
  | .newConnection k i l _ _ _ _ => (s.conns i).isNone = true ∧ (s.loops l).stopped = false ∧
      ∃ o ∈ s.owners k, Accepts o l ∧ (s.loops o.loop).stopped = false ∧
        (s.loops o.loop).destructing = []
  | .call i a => ∃ x ∈ s.conns i, ConnectionLoop.UserCall x.conn a
  | .deleteOwner k thread _ => (∀ l ∈ thread, (s.loops l).stopped = false) ∧
      ∃ o ∈ s.owners k, o.phase = .alive ∧ (o.kind = .server → thread = some o.loop)
  | .dtorStep k => ∃ o ∈ s.owners k, ∃ p ∈ o.destructing?, p.2 ≠ [] ∧ s.Innermost k p.1
  | .finish k joined => ∃ o ∈ s.owners k, (∃ p ∈ o.destructing?, p.2 = [] ∧ s.Innermost k p.1) ∧
      (o.kind = .client → joined = []) ∧ ∀ l ∈ joined, l ≠ o.loop ∧ s.Free l ∧
        (s.loops l).eventHandling = false ∧ (s.loops l).functors = []
  | .poll l active => s.Free l ∧ (s.loops l).eventHandling = false ∧ (s.loops l).functors = [] ∧
      active.Nodup ∧ ∀ i ∈ active,
        (s.conns i).any (fun x => x.loop = l && x.conn.channel.index = .kAdded) = true
  | .handleEvent l i _ => s.Free l ∧ i ∈ (s.loops l).unhandled
  | .callback l _ _ => (s.loops l).handling ≠ [] ∧ (s.loops l).destructing = [] ∧
      ∀ i ∈ s.closing, (s.conns i).all (fun x => x.loop ≠ l) = true
  | .closeCallback i => i ∈ s.closing ∧
      (s.conns i).all (fun x => (s.loops x.loop).destructing = []) = true
  | .swap l => s.Free l ∧ (s.loops l).eventHandling = true ∧ (s.loops l).unhandled = [] ∧
      (s.loops l).functors = []
  | .runFunctor l => s.Free l ∧ (s.loops l).eventHandling = false ∧ (s.loops l).functors ≠ []

/-- The destructor's message to the connection at `i` is queued on loop `l`. -/
def Warned (s : Owners) (i l : ℕ) : Prop :=
  .connectDestroyed i ∈ (s.loops l).queue ∨ .setCloseCallback i ∈ (s.loops l).queue

/-- A close at `i` does not overtake the message of an owner that is gone. -/
def Timely (s : Owners) (i : ℕ) : Prop :=
  ∀ x ∈ s.conns i, ∀ k ∈ x.onClose, ∀ o ∈ s.owners k, o.phase = .destroyed → ¬s.Warned i x.loop

/-- `connectDestroyed` finds the connection up or closed, or else fails: a
half-closed one with no interest left would stay half-closed. -/
def Quits (c : TCPConnection) : Prop :=
  c.state = .kConnected ∨ c.state = .kDisconnected ∨ c.channel.isNoneEvent = false

def SafeFunctor (s : Owners) : OwnerFunctor → Prop
  | .connectDestroyed i => ∀ x ∈ s.conns i, Quits x.conn
  | .ofConnection i .forceCloseInLoop => ∀ x ∈ s.conns i, x.conn.Up → s.Timely i
  | _ => True

def SafeDtor (s : Owners) (thread : Option ℕ) : DtorStep → Prop
  | .connectDestroyed i => ∀ x ∈ s.conns i, thread = some x.loop → Quits x.conn
  | _ => True

/-- What keeps every close callback away from owners that are gone: a client is
given no connection while its destructor runs; a connection that is destroyed
can close no more; where a destructor finishes, nothing is left that holds its
owner's pointer on the way to `removeConnection`; and from then on no close
overtakes the message that the destructor has sent to the connection. -/
def Safe (s : Owners) : Action → Prop
  | .newConnection k _ _ _ _ _ _ => ∀ o ∈ s.owners k, o.phase = .alive
  | .dtorStep k => ∀ o ∈ s.owners k, ∀ p ∈ o.destructing?, ∀ d ∈ p.2.head?,
      s.SafeDtor p.1 d
  | .finish k _ => (∀ o ∈ s.owners k, ∀ f ∈ (s.loops o.loop).queue, f.owner? ≠ some k) ∧
      ∀ i ∈ s.closing, ∀ x ∈ s.conns i, x.onClose ≠ some k
  | .callback l r _ => ∀ p ∈ (s.loops l).handling.head?, TCPConnection.ClosedBy r p.2 → s.Timely p.1
  | .runFunctor l => ∀ f ∈ (s.loops l).functors.head?, s.SafeFunctor f
  | _ => True

section Decidable
variable (s : Owners)

instance (l : ℕ) : Decidable (s.Free l) := inferInstanceAs (Decidable (_ ∧ _ ∧ _ ∧ _))

instance (k : ℕ) (thread : Option ℕ) : Decidable (s.Innermost k thread) :=
  inferInstanceAs (Decidable (∀ l ∈ thread, _ = _))

instance (i l : ℕ) : Decidable (s.Warned i l) := inferInstanceAs (Decidable (_ ∨ _))

instance (i : ℕ) : Decidable (s.Timely i) :=
  inferInstanceAs (Decidable (∀ x ∈ s.conns i, ∀ k ∈ x.onClose, ∀ o ∈ s.owners k, _ → _))

instance (c : TCPConnection) : Decidable (Quits c) := inferInstanceAs (Decidable (_ ∨ _ ∨ _))

instance (o : Owner) (l : ℕ) : Decidable (Accepts o l) :=
  match h : o.kind with
  | .server => decidable_of_iff (o.phase = .alive) (by rw [Accepts, h])
  | .client => decidable_of_iff (o.phase ≠ .destroyed ∧ l = o.loop ∧ o.connections = [])
      (by rw [Accepts, h])

instance : (f : OwnerFunctor) → Decidable (s.SafeFunctor f)
  | .connectDestroyed i => inferInstanceAs (Decidable (∀ x ∈ s.conns i, Quits x.conn))
  | .ofConnection i .forceCloseInLoop =>
    inferInstanceAs (Decidable (∀ x ∈ s.conns i, x.conn.Up → s.Timely i))
  | .ofConnection _ .writeCompleteCallback => isTrue trivial
  | .ofConnection _ (.highWaterMarkCallback _) => isTrue trivial
  | .connectEstablished _ => isTrue trivial
  | .setCloseCallback _ => isTrue trivial
  | .removeConnectionInLoop _ _ => isTrue trivial

instance (thread : Option ℕ) : (d : DtorStep) → Decidable (s.SafeDtor thread d)
  | .connectDestroyed i =>
    inferInstanceAs (Decidable (∀ x ∈ s.conns i, thread = some x.loop → Quits x.conn))
  | .setCloseCallback _ => isTrue trivial
  | .forceClose _ => isTrue trivial

instance : (a : Action) → Decidable (s.Enabled a)
  | .newOwner _ _ _ => inferInstanceAs (Decidable (_ = true))
  | .newConnection k _ _ _ _ _ _ =>
    inferInstanceAs (Decidable (_ ∧ _ ∧ ∃ o ∈ s.owners k, _ ∧ _ ∧ _))
  | .call i a =>
    inferInstanceAs (Decidable (∃ x ∈ s.conns i, ConnectionLoop.UserCall x.conn a))
  | .deleteOwner k thread _ =>
    inferInstanceAs (Decidable ((∀ l ∈ thread, _ = _) ∧ ∃ o ∈ s.owners k, _ ∧ (_ → _)))
  | .dtorStep k =>
    inferInstanceAs (Decidable (∃ o ∈ s.owners k, ∃ p ∈ o.destructing?, _ ∧ s.Innermost k p.1))
  | .finish k joined =>
    inferInstanceAs (Decidable (∃ o ∈ s.owners k,
      (∃ p ∈ o.destructing?, p.2 = [] ∧ s.Innermost k p.1) ∧ (o.kind = .client → joined = []) ∧
        ∀ l ∈ joined, l ≠ o.loop ∧ s.Free l ∧ (s.loops l).eventHandling = false ∧
          (s.loops l).functors = []))
  | .poll _ _ => inferInstanceAs (Decidable (_ ∧ _ ∧ _ ∧ _ ∧ _))
  | .handleEvent _ _ _ => inferInstanceAs (Decidable (_ ∧ _))
  | .callback _ _ _ => inferInstanceAs (Decidable (_ ∧ _ ∧ _))
  | .closeCallback _ => inferInstanceAs (Decidable (_ ∧ _))
  | .swap _ => inferInstanceAs (Decidable (_ ∧ _ ∧ _ ∧ _))
  | .runFunctor _ => inferInstanceAs (Decidable (_ ∧ _ ∧ _))

instance : (a : Action) → Decidable (s.Safe a)
  | .newConnection k _ _ _ _ _ _ => inferInstanceAs (Decidable (∀ o ∈ s.owners k, _ = _))
  | .dtorStep k => inferInstanceAs (Decidable (∀ o ∈ s.owners k, ∀ p ∈ o.destructing?,
      ∀ d ∈ p.2.head?, s.SafeDtor p.1 d))
  | .finish k _ => inferInstanceAs (Decidable
      ((∀ o ∈ s.owners k, ∀ f ∈ (s.loops o.loop).queue, f.owner? ≠ some k) ∧
        ∀ i ∈ s.closing, ∀ x ∈ s.conns i, x.onClose ≠ some k))
  | .callback l _ _ => inferInstanceAs (Decidable (∀ p ∈ (s.loops l).handling.head?, _ → _))
  | .runFunctor l => inferInstanceAs (Decidable (∀ f ∈ (s.loops l).functors.head?, _))
  | .newOwner _ _ _ => isTrue trivial
  | .call _ _ => isTrue trivial
  | .deleteOwner _ _ _ => isTrue trivial
  | .poll _ _ => isTrue trivial
  | .handleEvent _ _ _ => isTrue trivial
  | .closeCallback _ => isTrue trivial
  | .swap _ => isTrue trivial

end Decidable

end Owners

end Lux.Polaris

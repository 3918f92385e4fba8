import LuxPolaris.TCPServer

/-!
# A connection on its loop

One established connection, the functors and delayed closes it has on its
loop, and the event of it that the loop is handling. `startRead` and
`stopRead` are among the calls. Whoever owns the connection queues
`connectDestroyed` after `closeCallback_`, on this loop or from another one,
so that it runs in any later turn of the functors.
-/

set_option autoImplicit false

namespace Lux.Polaris

structure ConnectionLoop where
  conn : TCPConnection
  pendingFunctors : List ConnFunctor
  functors : List ConnFunctor
  delayedCloses : ℕ
  eventHandling : Bool
  active : Bool
  handling : List Callback
  destroyed : Bool

namespace Effect

def functor : Effect → Option ConnFunctor
  | .queueInLoop f => some f
  | _ => none

def isDelayed : Effect → Bool
  | .forceCloseAfter _ => true
  | _ => false

end Effect

namespace ConnectionLoop

def established (c : TCPConnection) : ConnectionLoop where
  conn := { c with effects := [] }
  pendingFunctors := []
  functors := []
  delayedCloses := 0
  eventHandling := false
  active := false
  handling := []
  destroyed := false

/-- `c` has replaced the connection, and its effects take place. -/
def settle (s : ConnectionLoop) (c : TCPConnection) : ConnectionLoop :=
  { s with
    conn := { c with effects := [] }
    pendingFunctors := s.pendingFunctors ++ c.effects.filterMap Effect.functor
    delayedCloses := s.delayedCloses + c.effects.countP Effect.isDelayed }

def runFunctor (s : ConnectionLoop) : ConnFunctor → Except Fault ConnectionLoop
  | .forceCloseInLoop => do
    let c ← s.conn.forceCloseInLoop
    return s.settle c
  | .writeCompleteCallback => .ok s
  | .highWaterMarkCallback _ => .ok s

/-- `call` is a call of the user's on the loop thread, in any callback. -/
inductive Action where
  | call (a : TCPConnection.Call)
  | poll (active : Bool)
  | handleEvent (r : Revents)
  | callback (r : Buffer.ReadResult) (w : WriteResult)
  | fireDelayedClose
  | swap
  | runFunctor
  | connectDestroyed

def step (s : ConnectionLoop) : Action → Except Fault ConnectionLoop
  | .call a => do
    let c ← s.conn.call a
    return s.settle c
  | .poll active => .ok { s with eventHandling := true, active := active }
  | .handleEvent r => .ok { s with active := false, handling := Channel.callbacks r }
  | .callback r w =>
    match s.handling with
    | [] => .ok s
    | cb::rest => do
      let c ← s.conn.handleCallback r w cb
      return { s with handling := rest }.settle c
  | .fireDelayedClose =>
    .ok ({ s with delayedCloses := s.delayedCloses-1 }.settle s.conn.forceClose)
  | .swap => .ok { s with
      eventHandling := false, functors := s.pendingFunctors, pendingFunctors := [] }
  | .runFunctor =>
    match s.functors with
    | [] => .ok s
    | f::functors => runFunctor { s with functors := functors } f
  | .connectDestroyed => do
    let c ← s.conn.connectDestroyed
    return { s.settle c with destroyed := true }

def UserCall (c : TCPConnection) : TCPConnection.Call → Prop
  | .send _ _ => True
  | .shutdown => True
  | .forceClose => True
  | .forceCloseWithDelay _ => True
  | .startRead => True
  | .stopRead => True
  | .takeInput len => len ≤ c.inputBuffer.readableBytes
  | _ => False

/-- The order of the loop. `poll` reports a channel that is in the kernel's
set, and `connectDestroyed` is queued by a close. -/
def Ready (s : ConnectionLoop) : Action → Prop
  | .call a => UserCall s.conn a
  | .poll active => s.handling = [] ∧ s.eventHandling = false ∧ s.functors = [] ∧
      (active = true → s.conn.channel.index = .kAdded)
  | .handleEvent _ => s.handling = [] ∧ s.active = true
  | .callback _ _ => s.handling ≠ []
  | .fireDelayedClose => s.handling = [] ∧ s.eventHandling = true ∧ 0 < s.delayedCloses
  | .swap => s.handling = [] ∧ s.eventHandling = true ∧ s.active = false
  | .runFunctor => s.handling = [] ∧ s.eventHandling = false ∧ s.functors ≠ []
  | .connectDestroyed => s.handling = [] ∧ s.eventHandling = false ∧
      s.conn.state = .kDisconnected

/-- The run ends with `connectDestroyed`. -/
def Enabled (s : ConnectionLoop) (a : Action) : Prop := s.destroyed = false ∧ s.Ready a

instance (c : TCPConnection) : (a : TCPConnection.Call) → Decidable (UserCall c a)
  | .send _ _ => isTrue trivial
  | .shutdown => isTrue trivial
  | .forceClose => isTrue trivial
  | .forceCloseWithDelay _ => isTrue trivial
  | .startRead => isTrue trivial
  | .stopRead => isTrue trivial
  | .takeInput _ => inferInstanceAs (Decidable (_ ≤ _))
  | .sendInLoop _ _ => isFalse not_false
  | .forceCloseInLoop => isFalse not_false
  | .handleRead _ => isFalse not_false
  | .handleWrite _ => isFalse not_false
  | .handleClose => isFalse not_false
  | .handleError => isFalse not_false

instance (s : ConnectionLoop) : (a : Action) → Decidable (s.Ready a)
  | .call _ => inferInstanceAs (Decidable (UserCall _ _))
  | .poll _ => inferInstanceAs (Decidable (_ ∧ _ ∧ _ ∧ (_ → _)))
  | .handleEvent _ => inferInstanceAs (Decidable (_ ∧ _))
  | .callback _ _ => inferInstanceAs (Decidable (_ ≠ _))
  | .fireDelayedClose => inferInstanceAs (Decidable (_ ∧ _ ∧ _))
  | .swap => inferInstanceAs (Decidable (_ ∧ _ ∧ _))
  | .runFunctor => inferInstanceAs (Decidable (_ ∧ _ ∧ _))
  | .connectDestroyed => inferInstanceAs (Decidable (_ ∧ _ ∧ _))

instance (s : ConnectionLoop) (a : Action) : Decidable (s.Enabled a) :=
  inferInstanceAs (Decidable (_ ∧ _))

end ConnectionLoop

end Lux.Polaris

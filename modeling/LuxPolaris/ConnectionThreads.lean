import LuxPolaris.TCPConnection
import LuxPolaris.BufferContents
import Mathlib.Data.Fintype.Defs
import Mathlib.Logic.Function.Basic

/-!
# A connection and the threads that use it

`send` on a thread that is not the loop's tests `state_`, copies the bytes and
queues `sendInLoop`; `shutdown` there tests `state_`, stores it and queues
`shutdownInLoop`. The loop thread makes both calls in place, while it handles
events and runs the functors. The functors that the connection itself queues
are callbacks of the user and stay in `effects`: what they call is a step of
the loop thread like any other.
-/

set_option autoImplicit false

namespace Lux.Polaris
open Outcome

inductive SendArg where
  | data (message : Message)
  | piece (message : Message)
  | buffer (b : Buffer) (valid : b.Valid)

/-- A message with the thread that sends it; `none` is the loop's own. -/
@[ext] structure Sent (τ : Type) where
  sender : Option τ
  bytes : List Byte
  deriving DecidableEq

/-- A `send(Buffer*)`: the caller's buffer before and after it, and what it
has contributed. -/
structure BufferCall where
  before : Buffer
  sent : List Byte
  after : Buffer
  deriving DecidableEq, Repr

inductive ConnTask (τ : Type) where
  | sendInLoop (thread : τ) (message : Message)
  | shutdownInLoop

/-- A `shutdown()` on a foreign thread: its test of `state_`, its store, and
its push of the functor. -/
inductive ShutdownCall where
  | notCalled
  | connected
  | stored
  | returned
  deriving DecidableEq, Repr

/-- `sending` are the calls of `send` between their copy and their push. The
messages of the calls that saw `kConnected`, those given to `sendInLoop`, the
calls of `send(Buffer*)` and the number of `::write`s issued after a
`shutdownWrite()` are history. -/
structure ConnectionThreads (τ : Type) where
  conn : TCPConnection
  pendingFunctors : List (ConnTask τ)
  functors : List (ConnTask τ)
  sending : τ → Option Message
  shutdown : ShutdownCall
  accepted : List (Sent τ)
  delivered : List (Sent τ)
  buffers : List BufferCall
  lateWrites : ℕ

/-- `send`, `queueSend`, `testShutdown`, `storeShutdown` and `queueShutdown` are
the accesses of foreign threads, the others are steps of the loop thread. -/
inductive ThreadAction (τ : Type) where
  | send (x : τ) (m : SendArg)
  | queueSend (x : τ)
  | testShutdown
  | storeShutdown
  | queueShutdown
  | sendOnLoop (m : SendArg) (w : WriteResult)
  | shutdownOnLoop
  | handle (a : TCPConnection.Call)
  | swap
  | runFunctor (w : WriteResult)

/-- A string of the library has a limited length. -/
def Message.make (bytes : List Byte) : Except Fault Message :=
  if h : bytes.length ≤ maxSize then .ok ⟨bytes, h⟩ else .error .lengthError

namespace SendArg

/-- What a foreign thread binds into the functor, and the caller's buffer
afterwards. -/
def copy : SendArg → Except Fault (Message × Option Buffer)
  | .data message => .ok (message, none)
  | .piece message => .ok (message, none)
  | .buffer b _ => do
    let (result, b) ← b.retrieveAllAsString
    let message ← Message.make result
    return (message, some b)

def inPlace : SendArg → Except Fault (Message × Option Buffer)
  | .data message => .ok (message, none)
  | .piece message => .ok (message, none)
  | .buffer b _ => do
    let data ← b.toStringPiece
    let message ← Message.make data
    return (message, some b.retrieveAll)

def bytes : SendArg → List Byte
  | .data message => message.bytes
  | .piece message => message.bytes
  | .buffer b _ => b.contents

end SendArg

namespace ConnectionThreads
variable {τ : Type}

def established (c : TCPConnection) : ConnectionThreads τ where
  conn := c
  pendingFunctors := []
  functors := []
  sending := fun _ => none
  shutdown := .notCalled
  accepted := []
  delivered := []
  buffers := []
  lateWrites := 0

def accept (s : ConnectionThreads τ) (sender : Option τ) (message : Message) :
    ConnectionThreads τ :=
  { s with accepted := s.accepted ++ [⟨sender, message.bytes⟩] }

def record (s : ConnectionThreads τ) (m : SendArg) (message : Message) (after : Option Buffer) :
    ConnectionThreads τ :=
  match m, after with
  | .buffer b _, some b' => { s with buffers := s.buffers ++ [⟨b, message.bytes, b'⟩] }
  | _, _ => s

def countWrite (s : ConnectionThreads τ) (issued : Bool) : ℕ :=
  if issued ∧ s.conn.socket.shutdowns ≠ [] then s.lateWrites+1 else s.lateWrites

def sendInLoop (s : ConnectionThreads τ) (sender : Option τ) (message : Message)
    (w : WriteResult) : Except Fault (ConnectionThreads τ) := do
  let issued := decide (s.conn.state ≠ .kDisconnected) && s.conn.canWriteDirectly
  let c ← s.conn.sendInLoop message w
  return { s with
    conn := c
    delivered := s.delivered ++ [⟨sender, message.bytes⟩]
    lateWrites := s.countWrite issued }

def runFunctor (s : ConnectionThreads τ) (w : WriteResult) :
    ConnTask τ → Except Fault (ConnectionThreads τ)
  | .sendInLoop x message => s.sendInLoop (some x) message w
  | .shutdownInLoop => .ok { s with conn := s.conn.shutdownInLoop }

def handlerWrites (c : TCPConnection) : TCPConnection.Call → Bool
  | .handleWrite _ => c.channel.isWriting
  | _ => false

def IsHandler : TCPConnection.Call → Prop
  | .handleRead _ => True
  | .handleWrite _ => True
  | .handleClose => True
  | .handleError => True
  | .startRead => True
  | .stopRead => True
  | .takeInput _ => True
  | _ => False

instance : (a : TCPConnection.Call) → Decidable (IsHandler a)
  | .handleRead _ => isTrue trivial
  | .handleWrite _ => isTrue trivial
  | .handleClose => isTrue trivial
  | .handleError => isTrue trivial
  | .startRead => isTrue trivial
  | .stopRead => isTrue trivial
  | .takeInput _ => isTrue trivial
  | .sendInLoop _ _ => isFalse not_false
  | .send _ _ => isFalse not_false
  | .shutdown => isFalse not_false
  | .forceClose => isFalse not_false
  | .forceCloseWithDelay _ => isFalse not_false
  | .forceCloseInLoop => isFalse not_false

variable [DecidableEq τ]

def step (s : ConnectionThreads τ) : ThreadAction τ → Except Fault (ConnectionThreads τ)
  | .send x m =>
    if s.conn.state = .kConnected then do
      let (message, after) ← m.copy
      let s := (s.accept (some x) message).record m message after
      return { s with sending := Function.update s.sending x (some message) }
    else .ok s
  | .queueSend x =>
    match s.sending x with
    | none => .ok s
    | some message => .ok { s with
        sending := Function.update s.sending x none
        pendingFunctors := s.pendingFunctors ++ [.sendInLoop x message] }
  | .testShutdown => .ok { s with
      shutdown := if s.conn.state = .kConnected then .connected else .returned }
  | .storeShutdown => .ok { s with
      conn := s.conn.setState .kDisconnecting, shutdown := .stored }
  | .queueShutdown => .ok { s with
      pendingFunctors := s.pendingFunctors ++ [.shutdownInLoop], shutdown := .returned }
  | .sendOnLoop m w =>
    if s.conn.state = .kConnected then do
      let (message, after) ← m.inPlace
      let s ← (s.accept none message).sendInLoop none message w
      return s.record m message after
    else .ok s
  | .shutdownOnLoop => .ok { s with conn := s.conn.shutdown, shutdown := .returned }
  | .handle a => do
    let c ← s.conn.call a
    return { s with conn := c, lateWrites := s.countWrite (handlerWrites s.conn a) }
  | .swap => .ok { s with functors := s.pendingFunctors, pendingFunctors := [] }
  | .runFunctor w =>
    match s.functors with
    | [] => .ok s
    | f::functors => { s with functors := functors }.runFunctor w f

/-- Each thread makes one call at a time. One `shutdown()` is made, on any
thread; the calls of `send` before it have returned when it starts, and the
others start after it has returned. -/
def Enabled (s : ConnectionThreads τ) : ThreadAction τ → Prop
  | .send x _ => s.sending x = none ∧ (s.shutdown = .notCalled ∨ s.shutdown = .returned)
  | .queueSend x => s.sending x ≠ none
  | .testShutdown => s.shutdown = .notCalled ∧ ∀ x, s.sending x = none
  | .storeShutdown => s.shutdown = .connected
  | .queueShutdown => s.shutdown = .stored
  | .sendOnLoop _ _ => s.shutdown = .notCalled ∨ s.shutdown = .returned
  | .shutdownOnLoop => s.shutdown = .notCalled ∧ ∀ x, s.sending x = none
  | .handle a => IsHandler a
  | .swap => s.functors = []
  | .runFunctor _ => s.functors ≠ []

instance [Fintype τ] (s : ConnectionThreads τ) : (a : ThreadAction τ) → Decidable (s.Enabled a)
  | .send _ _ => inferInstanceAs (Decidable (_ ∧ (_ ∨ _)))
  | .queueSend _ => inferInstanceAs (Decidable (_ ≠ none))
  | .testShutdown => inferInstanceAs (Decidable (_ ∧ ∀ x, s.sending x = none))
  | .storeShutdown => inferInstanceAs (Decidable (_ = _))
  | .queueShutdown => inferInstanceAs (Decidable (_ = _))
  | .sendOnLoop _ _ => inferInstanceAs (Decidable (_ ∨ _))
  | .shutdownOnLoop => inferInstanceAs (Decidable (_ ∧ ∀ x, s.sending x = none))
  | .handle _ => inferInstanceAs (Decidable (IsHandler _))
  | .swap => inferInstanceAs (Decidable (_ = []))
  | .runFunctor _ => inferInstanceAs (Decidable (_ ≠ []))

end ConnectionThreads

end Lux.Polaris

import LuxPolaris.TimerRuns

/-!
# Timers from other threads

`addTimer` on a thread of its own allocates the timer, queues
`addTimerInLoop` and only then reads `timer->sequence()`, while the loop
thread runs the functors and the timers. A timer is in `handed` until its
`addTimerInLoop` runs and in the queue's heap after that. An allocation may
take any address that is free.
-/

set_option autoImplicit false

namespace Lux.Polaris
open Outcome

structure Handed where
  when : Timestamp
  interval : Seconds
  sequence : ℤ
  deriving DecidableEq

inductive QueueFunctor where
  | addTimerInLoop (timer : ℕ)
  | cancelInLoop (timerId : TimerId)
  deriving DecidableEq, Repr

/-- An `addTimer` in progress: the address and the number of the timer it has
allocated, and whether it has queued the functor. -/
structure AddCall where
  own : TimerId
  queued : Bool
  deriving DecidableEq, Repr

structure Returned where
  own : TimerId
  id : TimerId
  deriving DecidableEq, Repr

structure TimerThreads (τ : Type) where
  queue : TimerQueue
  numCreated : ℤ
  handed : ℕ → Option Handed
  pendingFunctors : List QueueFunctor
  functors : List QueueFunctor
  calls : τ → Option AddCall
  returned : List Returned

/-- `newTimer`, `queueTimer` and `readSequence` are the three accesses of
`addTimer` on a foreign thread; `addTimer` is the loop thread's own call and
`onQueue` what else it does with the queue. -/
inductive TimerAction (τ : Type) where
  | newTimer (x : τ) (timer : ℕ) (when : Timestamp) (interval : Seconds)
  | queueTimer (x : τ)
  | readSequence (x : τ)
  | queueCancel (timerId : TimerId)
  | addTimer (timer : ℕ) (when : Timestamp) (interval : Seconds) (clock : Timestamp)
  | swap
  | runFunctor (clock : Timestamp)
  | onQueue (a : TimerQueue.Action)

def TimerQueue.Older : TimerQueue.Action → Prop
  | .addTimer _ _ _ _ _ => False
  | _ => True

instance : (a : TimerQueue.Action) → Decidable (TimerQueue.Older a)
  | .addTimer _ _ _ _ _ => isFalse not_false
  | .cancel _ => isTrue trivial
  | .handleRead _ => isTrue trivial
  | .runNext => isTrue trivial
  | .finishRead _ => isTrue trivial
  | .fire => isTrue trivial

namespace TimerThreads
variable {τ : Type}

def construct : TimerThreads τ where
  queue := .construct
  numCreated := 0
  handed := fun _ => none
  pendingFunctors := []
  functors := []
  calls := fun _ => none
  returned := []

def readSequence (s : TimerThreads τ) (timer : ℕ) : Except Fault ℤ :=
  match s.handed timer with
  | some h => .ok h.sequence
  | none => do
    let t ← s.queue.deref timer
    return t.sequence

/-- The loop thread runs a functor out of the vector it has swapped out. -/
def runQueued (ops : TimestampOps) (s : TimerThreads τ) (clock : Timestamp) :
    QueueFunctor → Except Fault (TimerThreads τ)
  | .addTimerInLoop timer =>
    match s.handed timer with
    | some h => do
      let q ← s.queue.step ops (.addTimer timer h.when h.interval h.sequence clock)
      return { s with queue := q, handed := Function.update s.handed timer none }
    | none => .error .useAfterFree
  | .cancelInLoop timerId => do
    let q ← s.queue.step ops (.cancel timerId)
    return { s with queue := q }

variable [DecidableEq τ]

def setCall (s : TimerThreads τ) (x : τ) (c : Option AddCall) : TimerThreads τ :=
  { s with calls := Function.update s.calls x c }

def step (ops : TimestampOps) (s : TimerThreads τ) :
    TimerAction τ → Except Fault (TimerThreads τ)
  | .newTimer x timer when interval =>
    let sequence := s.numCreated+1
    let s := s.setCall x (some ⟨⟨timer, sequence⟩, false⟩)
    .ok { s with
      numCreated := sequence
      handed := Function.update s.handed timer (some ⟨when, interval, sequence⟩) }
  | .queueTimer x =>
    match s.calls x with
    | none => .ok s
    | some c =>
      let s := s.setCall x (some { c with queued := true })
      .ok { s with pendingFunctors := s.pendingFunctors ++ [.addTimerInLoop c.own.timer] }
  | .readSequence x =>
    match s.calls x with
    | none => .ok s
    | some c => do
      let sequence ← s.readSequence c.own.timer
      let s := s.setCall x none
      return { s with returned := s.returned ++ [⟨c.own, ⟨c.own.timer, sequence⟩⟩] }
  | .queueCancel timerId => .ok { s with
      pendingFunctors := s.pendingFunctors ++ [.cancelInLoop timerId] }
  | .addTimer timer when interval clock => do
    let sequence := s.numCreated+1
    let q ← s.queue.step ops (.addTimer timer when interval sequence clock)
    let t ← q.deref timer
    return { s with
      queue := q
      numCreated := sequence
      returned := s.returned ++ [⟨⟨timer, sequence⟩, ⟨timer, t.sequence⟩⟩] }
  | .swap => .ok { s with functors := s.pendingFunctors, pendingFunctors := [] }
  | .runFunctor clock =>
    match s.functors with
    | [] => .ok s
    | f::functors => runQueued ops { s with functors := functors } clock f
  | .onQueue a => do
    let q ← s.queue.step ops a
    return { s with queue := q }

def Free (s : TimerThreads τ) (timer : ℕ) : Prop :=
  s.handed timer = none ∧ s.queue.heap timer = none ∧ timer < UINTPTR_MAX

/-- Each thread takes its accesses in order. The loop swaps and runs functors
outside `handleRead`, and calls `addTimer` in user code. -/
def Enabled (s : TimerThreads τ) : TimerAction τ → Prop
  | .newTimer x timer _ _ => s.calls x = none ∧ s.Free timer
  | .queueTimer x => (s.calls x).any (fun c => !c.queued) = true
  | .readSequence x => (s.calls x).any AddCall.queued = true
  | .queueCancel _ => True
  | .addTimer timer _ _ _ => s.queue.InUserCode ∧ s.Free timer
  | .swap => s.functors = [] ∧ s.queue.batch = none
  | .runFunctor _ => s.queue.batch = none
  | .onQueue a => s.queue.Enabled a ∧ TimerQueue.Older a

instance (s : TimerThreads τ) (timer : ℕ) : Decidable (s.Free timer) :=
  inferInstanceAs (Decidable (_ ∧ _ ∧ _))

instance (s : TimerThreads τ) : (a : TimerAction τ) → Decidable (s.Enabled a)
  | .newTimer _ _ _ _ => inferInstanceAs (Decidable (_ ∧ _))
  | .queueTimer _ => inferInstanceAs (Decidable (_ = true))
  | .readSequence _ => inferInstanceAs (Decidable (_ = true))
  | .queueCancel _ => isTrue trivial
  | .addTimer _ _ _ _ => inferInstanceAs (Decidable (_ ∧ _))
  | .swap => inferInstanceAs (Decidable (_ ∧ _))
  | .runFunctor _ => inferInstanceAs (Decidable (_ = none))
  | .onQueue _ => inferInstanceAs (Decidable (_ ∧ _))

end TimerThreads

end Lux.Polaris

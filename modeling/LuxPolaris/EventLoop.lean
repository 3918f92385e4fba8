import LuxPolaris.Runtime
import Mathlib.Logic.Function.Basic

/-!
# EventLoop

The loop thread and any number of foreign threads, interleaved at the accesses
they share: the locked push and the swap, the write and the read of the
eventfd, `looping_` and `quit_`. `LoopPc` is where the loop thread stands in
`loop()`, `ForeignPc` where a foreign thread stands in `queueInLoop` or
`quit`. A functor is known by the number of its push and the thread that
pushed it; what it does when it runs is up to the actions that follow.
-/

set_option autoImplicit false

namespace Lux.Polaris

/-- `thread` is `none` for the loop thread; `inLoop` says whether the loop
thread was inside `loop()` at the push. -/
structure Task (τ : Type) where
  id : ℕ
  thread : Option τ
  inLoop : Bool
  deriving DecidableEq

inductive LoopPc where
  | outside
  | setLooping
  | resetQuit
  | test
  | poll
  | events (wakeup : Bool)
  | calling
  | swap
  | functors
  | functorsWake
  | leave
  deriving DecidableEq, Repr

inductive ForeignPc where
  | idle
  | pushed
  | sawLooping
  | sawStopped
  | stored
  deriving DecidableEq, Repr

/-- `functors` is the vector that `doPendingFunctors` has swapped out. The
last four fields are history: the functors pushed, run, and pushed before a
`quit()` of their own thread, and whether some foreign `quit()` has returned. -/
structure EventLoop (τ : Type) where
  pc : LoopPc
  looping : Bool
  quit : Bool
  callingPendingFunctors : Bool
  wakeupFd : ℕ
  pendingFunctors : List (Task τ)
  functors : List (Task τ)
  foreign : τ → ForeignPc
  pushed : List (Task τ)
  executed : List (Task τ)
  sealed : List (Task τ)
  quitReturned : Bool

/-- What the loop thread does: enter `loop()`, go on to its next access, come
back from `poll` with or without the wakeup channel among the active ones,
run its handler, and, from a callback or outside `loop()`, call
`queueInLoop`, `quit` and `wakeup`. -/
inductive LoopAction where
  | enter
  | advance
  | pollReturn (wakeup : Bool)
  | handleRead
  | queueInLoop
  | quit
  | wakeup
  deriving DecidableEq, Repr

inductive ForeignAction where
  | push
  | wakeup
  | quitCall
  | quitStore
  | quitWakeup
  deriving DecidableEq, Repr

inductive LoopStep (τ : Type) where
  | loop (a : LoopAction)
  | foreign (x : τ) (a : ForeignAction)
  deriving DecidableEq

/-- A write of one to the eventfd, which keeps its counter below `2^64-1`. -/
def eventfdWrite (counter : ℕ) : ℕ := if counter < 2^64-2 then counter+1 else counter

theorem eventfdWrite_pos (counter : ℕ) : 0 < eventfdWrite counter := by
  unfold eventfdWrite
  split_ifs with h
  · exact Nat.succ_pos _
  · omega

namespace EventLoop
variable {τ : Type} [DecidableEq τ]

def construct : EventLoop τ where
  pc := .outside
  looping := false
  quit := false
  callingPendingFunctors := false
  wakeupFd := 0
  pendingFunctors := []
  functors := []
  foreign := fun _ => .idle
  pushed := []
  executed := []
  sealed := []
  quitReturned := false

def push (q : EventLoop τ) (thread : Option τ) : EventLoop τ :=
  let task := ⟨q.pushed.length, thread, decide (q.pc ≠ .outside)⟩
  { q with
    pendingFunctors := q.pendingFunctors ++ [task]
    pushed := q.pushed ++ [task] }

def wakeup (q : EventLoop τ) : EventLoop τ := { q with wakeupFd := eventfdWrite q.wakeupFd }

def handleRead (q : EventLoop τ) : EventLoop τ := { q with pc := .events false, wakeupFd := 0 }

def setForeign (q : EventLoop τ) (x : τ) (pc : ForeignPc) : EventLoop τ :=
  { q with foreign := Function.update q.foreign x pc }

/-- A thread that calls `quit()` seals what it has pushed before. -/
def sealTasks (q : EventLoop τ) (thread : Option τ) : EventLoop τ :=
  { q with sealed := q.sealed ++ q.pushed.filter fun t => decide (t.thread = thread) }

/-- The next access of the loop thread in `loop()` and `doPendingFunctors()`. -/
def advance (q : EventLoop τ) : EventLoop τ :=
  match q.pc with
  | .setLooping => { q with looping := true, pc := .resetQuit }
  | .resetQuit => { q with quit := false, pc := .test }
  | .test => { q with pc := if q.quit then .leave else .poll }
  | .events _ => { q with pc := .calling }
  | .calling => { q with callingPendingFunctors := true, pc := .swap }
  | .swap => { q with functors := q.pendingFunctors, pendingFunctors := [], pc := .functors }
  | .functors =>
    match q.functors with
    | [] => { q with callingPendingFunctors := false, pc := .test }
    | functor::functors => { q with functors := functors, executed := q.executed ++ [functor] }
  | .functorsWake => { q.wakeup with pc := .functors }
  | .leave => { q with looping := false, pc := .outside }
  | .outside => q
  | .poll => q

/-- `queueInLoop` on the loop thread, which writes the eventfd next if it
finds `callingPendingFunctors_` set. -/
def queueInLoop (q : EventLoop τ) : EventLoop τ :=
  let q := q.push none
  if q.callingPendingFunctors then { q with pc := .functorsWake } else q

def quitInLoop (q : EventLoop τ) : EventLoop τ :=
  let q := q.sealTasks none
  if q.looping then { q with quit := true } else { q with quit := false }

def loopStep (q : EventLoop τ) : LoopAction → Except Fault (EventLoop τ)
  | .enter => do
    assertThat (q.looping = false) "!looping_"
    return { q with pc := .setLooping }
  | .advance => .ok q.advance
  | .pollReturn wakeup => .ok { q with pc := .events wakeup }
  | .handleRead => .ok q.handleRead
  | .queueInLoop => .ok q.queueInLoop
  | .quit => .ok q.quitInLoop
  | .wakeup => .ok q.wakeup

def foreignStep (q : EventLoop τ) (x : τ) : ForeignAction → EventLoop τ
  | .push => (q.push (some x)).setForeign x .pushed
  | .wakeup => q.wakeup.setForeign x .idle
  | .quitCall =>
    (q.sealTasks (some x)).setForeign x (if q.looping then .sawLooping else .sawStopped)
  | .quitStore =>
    if q.foreign x = .sawLooping then { q with quit := true }.setForeign x .stored
    else { q with quit := false, quitReturned := true }.setForeign x .idle
  | .quitWakeup => { q.wakeup with quitReturned := true }.setForeign x .idle

def step (q : EventLoop τ) : LoopStep τ → Except Fault (EventLoop τ)
  | .loop a => q.loopStep a
  | .foreign x a => .ok (q.foreignStep x a)

/-- The loop thread runs user code: a handler, a functor, or what surrounds
`loop()`. -/
def InUserCode (q : EventLoop τ) : Prop :=
  q.pc = .outside ∨ q.pc = .events false ∨ q.pc = .events true ∨ q.pc = .functors

instance (q : EventLoop τ) : Decidable q.InUserCode := inferInstanceAs (Decidable (_ ∨ _))

/-- Each thread takes its accesses in program order, and `poll` reports the
eventfd only while its counter is positive. -/
def Enabled (q : EventLoop τ) : LoopStep τ → Prop
  | .loop .enter => q.pc = .outside
  | .loop .advance => q.pc ≠ .outside ∧ q.pc ≠ .poll ∧ q.pc ≠ .events true
  | .loop (.pollReturn wakeup) => q.pc = .poll ∧ (wakeup = true → 0 < q.wakeupFd)
  | .loop .handleRead => q.pc = .events true
  | .loop .queueInLoop => q.InUserCode
  | .loop .quit => q.InUserCode
  | .loop .wakeup => q.InUserCode
  | .foreign x .push => q.foreign x = .idle
  | .foreign x .wakeup => q.foreign x = .pushed
  | .foreign x .quitCall => q.foreign x = .idle
  | .foreign x .quitStore => q.foreign x = .sawLooping ∨ q.foreign x = .sawStopped
  | .foreign x .quitWakeup => q.foreign x = .stored

instance (q : EventLoop τ) : (a : LoopStep τ) → Decidable (q.Enabled a)
  | .loop .enter => inferInstanceAs (Decidable (_ = _))
  | .loop .advance => inferInstanceAs (Decidable (_ ∧ _ ∧ _))
  | .loop (.pollReturn _) => inferInstanceAs (Decidable (_ ∧ (_ → _)))
  | .loop .handleRead => inferInstanceAs (Decidable (_ = _))
  | .loop .queueInLoop => inferInstanceAs (Decidable (InUserCode _))
  | .loop .quit => inferInstanceAs (Decidable (InUserCode _))
  | .loop .wakeup => inferInstanceAs (Decidable (InUserCode _))
  | .foreign _ .push => inferInstanceAs (Decidable (_ = _))
  | .foreign _ .wakeup => inferInstanceAs (Decidable (_ = _))
  | .foreign _ .quitCall => inferInstanceAs (Decidable (_ = _))
  | .foreign _ .quitStore => inferInstanceAs (Decidable (_ ∨ _))
  | .foreign _ .quitWakeup => inferInstanceAs (Decidable (_ = _))

end EventLoop

end Lux.Polaris

import LuxPolaris.EventLoopInvariant

/-!
# Pending functors run once, in order, in separate batches

`doPendingFunctors` runs what it has swapped out and nothing else. Each swap
is recorded with all the pushes before it. A `runInLoop` of the loop thread is
on that thread's stack until it returns: it calls `cb()`, which may do anything
user code does, `runInLoop` and outside the loop also `loop()` included, and
goes on when `cb()` has come back.
-/

set_option autoImplicit false

namespace Lux.Polaris
open Outcome

/-- The vector that a swap has taken, and every push before that swap. -/
structure Swap (τ : Type) where
  functors : List (Task τ)
  before : List (Task τ)
  deriving DecidableEq

/-- Where a `runInLoop` of the loop thread stands: before its call of `cb()`,
in it, or behind it. -/
inductive CallPc where
  | entered
  | cb
  | called
  deriving DecidableEq, Repr

/-- `inLoop` says whether the loop thread was inside `loop()` at the call. -/
structure DirectCall where
  id : ℕ
  inLoop : Bool
  pc : CallPc
  deriving DecidableEq, Repr

/-- `frames` are the calls of `runInLoop` that have not returned, the innermost
first. The calls made, those whose `cb()` has come back and those that have
returned are history. -/
structure FunctorLoop (τ : Type) where
  loop : EventLoop τ
  swaps : List (Swap τ)
  calls : ℕ
  frames : List DirectCall
  finished : List ℕ
  returned : List ℕ

/-- `advance` takes the loop thread on in its innermost `runInLoop`. -/
inductive FunctorAction (τ : Type) where
  | access (a : LoopStep τ)
  | runInLoop (thread : Option τ)
  | advance
  | cbReturn
  deriving DecidableEq

namespace FunctorLoop
variable {τ : Type}

def construct : FunctorLoop τ where
  loop := .construct
  swaps := []
  calls := 0
  frames := []
  finished := []
  returned := []

def IsSwap (q : EventLoop τ) (a : LoopStep τ) : Prop := a = .loop .advance ∧ q.pc = .swap

variable [DecidableEq τ]

instance (q : EventLoop τ) (a : LoopStep τ) : Decidable (IsSwap q a) :=
  inferInstanceAs (Decidable (_ ∧ _))

def access (s : FunctorLoop τ) (a : LoopStep τ) : Except Fault (FunctorLoop τ) := do
  let q ← s.loop.step a
  let swaps :=
    if IsSwap s.loop a then s.swaps ++ [⟨s.loop.pendingFunctors, s.loop.pushed⟩] else s.swaps
  return { s with loop := q, swaps := swaps }

/-- The test of `runInLoop`: on the loop thread `cb()` comes next, on any other
it is `queueInLoop`. -/
def runInLoop (s : FunctorLoop τ) : Option τ → Except Fault (FunctorLoop τ)
  | none => .ok { s with
      calls := s.calls+1
      frames := ⟨s.calls, decide (s.loop.pc ≠ .outside), .entered⟩::s.frames }
  | some x => s.access (.foreign x .push)

def advance (s : FunctorLoop τ) : FunctorLoop τ :=
  match s.frames with
  | [] => s
  | f::frames =>
    match f.pc with
    | .entered => { s with frames := { f with pc := .cb }::frames }
    | .cb => s
    | .called => { s with frames := frames, returned := s.returned ++ [f.id] }

/-- User code comes to the end of the innermost functor. -/
def cbReturn (s : FunctorLoop τ) : FunctorLoop τ :=
  match s.frames with
  | [] => s
  | f::frames =>
    match f.pc with
    | .cb => { s with
        frames := { f with pc := .called }::frames, finished := s.finished ++ [f.id] }
    | .entered => s
    | .called => s

def step (s : FunctorLoop τ) : FunctorAction τ → Except Fault (FunctorLoop τ)
  | .access a => s.access a
  | .runInLoop thread => s.runInLoop thread
  | .advance => .ok s.advance
  | .cbReturn => .ok s.cbReturn

def OutsideCall (s : FunctorLoop τ) : Prop := ∀ f ∈ s.frames.head?, f.pc = .cb

/-- `loop()` goes on only when what it has called is over. -/
def LoopTurn (s : FunctorLoop τ) : LoopAction → Prop
  | .advance => s.loop.pc = .functorsWake ∨ ∀ f ∈ s.frames.head?, f.inLoop = false
  | .pollReturn _ => ∀ f ∈ s.frames.head?, f.inLoop = false
  | .handleRead => ∀ f ∈ s.frames.head?, f.inLoop = false
  | .enter | .queueInLoop | .quit | .wakeup => True

def Enabled (s : FunctorLoop τ) : FunctorAction τ → Prop
  | .access (.foreign x a) => s.loop.Enabled (.foreign x a)
  | .access (.loop a) => s.loop.Enabled (.loop a) ∧ s.OutsideCall ∧ s.LoopTurn a
  | .runInLoop none => s.loop.InUserCode ∧ s.OutsideCall
  | .runInLoop (some x) => s.loop.foreign x = .idle
  | .advance => s.frames ≠ [] ∧ ¬s.OutsideCall
  | .cbReturn => s.frames ≠ [] ∧ s.OutsideCall ∧ s.loop.InUserCode ∧
      ∀ f ∈ s.frames.head?, f.inLoop = false → s.loop.pc = .outside

instance (s : FunctorLoop τ) : Decidable s.OutsideCall :=
  inferInstanceAs (Decidable (∀ f ∈ _, _))

instance (s : FunctorLoop τ) : (a : LoopAction) → Decidable (s.LoopTurn a)
  | .advance => inferInstanceAs (Decidable (_ ∨ ∀ f ∈ _, _))
  | .pollReturn _ => inferInstanceAs (Decidable (∀ f ∈ _, _))
  | .handleRead => inferInstanceAs (Decidable (∀ f ∈ _, _))
  | .enter | .queueInLoop | .quit | .wakeup => isTrue trivial

instance (s : FunctorLoop τ) : (a : FunctorAction τ) → Decidable (s.Enabled a)
  | .access (.foreign _ _) => inferInstanceAs (Decidable (EventLoop.Enabled _ _))
  | .access (.loop _) => inferInstanceAs (Decidable (EventLoop.Enabled _ _ ∧ _ ∧ LoopTurn _ _))
  | .runInLoop none => inferInstanceAs (Decidable (EventLoop.InUserCode _ ∧ _))
  | .runInLoop (some _) => inferInstanceAs (Decidable (_ = _))
  | .advance => inferInstanceAs (Decidable (_ ∧ _))
  | .cbReturn => inferInstanceAs (Decidable (_ ∧ _ ∧ EventLoop.InUserCode _ ∧ ∀ f ∈ _, _))

end FunctorLoop

namespace EventLoop
variable {τ : Type}

/-- What an access other than the swap does to the functors: nothing, one
push, or the start of the next functor of the batch. -/
inductive Moved (q : EventLoop τ) : EventLoop τ → Prop
  | stays {q' : EventLoop τ} (he : q'.executed = q.executed) (hf : q'.functors = q.functors)
      (hn : q'.pendingFunctors = q.pendingFunctors) (hp : q'.pushed = q.pushed) : Moved q q'
  | pushes {q' : EventLoop τ} (t : Task τ) (ht : t.id = q.pushed.length)
      (he : q'.executed = q.executed) (hf : q'.functors = q.functors)
      (hp : q'.pushed = q.pushed ++ [t]) : Moved q q'
  | runs {q' : EventLoop τ} (f : Task τ) (hold : q.functors = f::q'.functors)
      (he : q'.executed = q.executed ++ [f]) (hp : q'.pushed = q.pushed) : Moved q q'

theorem advance_moved (q : EventLoop τ) (hpc : q.pc ≠ .swap) : Moved q q.advance := by
  unfold advance
  cases h : q.pc with
  | swap => exact absurd h hpc
  | functors =>
    cases hf : q.functors with
    | nil => exact .stays rfl hf.symm rfl rfl
    | cons f fs => exact .runs f hf rfl rfl
  | outside | setLooping | resetQuit | test | poll | events | calling | functorsWake | leave =>
    exact .stays rfl rfl rfl rfl

theorem queueInLoop_moved (q : EventLoop τ) : Moved q q.queueInLoop := by
  unfold queueInLoop
  simp only
  split_ifs
  · exact .pushes ⟨q.pushed.length, none, decide (q.pc ≠ .outside)⟩ rfl rfl rfl rfl
  · exact .pushes ⟨q.pushed.length, none, decide (q.pc ≠ .outside)⟩ rfl rfl rfl rfl

section Threads
variable [DecidableEq τ]

theorem foreignStep_moved (q : EventLoop τ) (x : τ) (a : ForeignAction) :
    Moved q (q.foreignStep x a) := by
  cases a with
  | push => exact .pushes ⟨q.pushed.length, some x, decide (q.pc ≠ .outside)⟩ rfl rfl rfl rfl
  | quitStore =>
    unfold foreignStep
    simp only
    split_ifs
    · exact .stays rfl rfl rfl rfl
    · exact .stays rfl rfl rfl rfl
  | wakeup | quitCall | quitWakeup => exact .stays rfl rfl rfl rfl

theorem step_moved {q q' : EventLoop τ} {a : LoopStep τ} (hs : q.step a = .ok q')
    (ha : ¬FunctorLoop.IsSwap q a) : Moved q q' := by
  cases a with
  | foreign x a =>
    cases hs
    exact foreignStep_moved q x a
  | loop a =>
    cases a with
    | enter =>
      obtain ⟨_, _, hq⟩ := bind_ok.mp hs
      cases hq
      exact .stays rfl rfl rfl rfl
    | advance =>
      cases hs
      exact advance_moved q (fun h => ha ⟨rfl, h⟩)
    | queueInLoop =>
      cases hs
      exact queueInLoop_moved q
    | quit =>
      cases hs
      simp only [quitInLoop]
      split_ifs
      · exact .stays rfl rfl rfl rfl
      · exact .stays rfl rfl rfl rfl
    | pollReturn _ | handleRead | wakeup =>
      cases hs
      exact .stays rfl rfl rfl rfl

theorem step_swap {q q' : EventLoop τ} {a : LoopStep τ} (hs : q.step a = .ok q')
    (ha : FunctorLoop.IsSwap q a) : q'.executed = q.executed ∧ q'.functors = q.pendingFunctors ∧
      q'.pendingFunctors = [] ∧ q'.pushed = q.pushed := by
  obtain ⟨rfl, hpc⟩ := ha
  cases hs
  simp [advance, hpc]

end Threads

end EventLoop

namespace FunctorLoop
variable {τ : Type}

/-- The calls whose functor has come back and which have not returned. -/
def called (s : FunctorLoop τ) : List ℕ :=
  (s.frames.filter fun f => f.pc = .called).map DirectCall.id

structure Inv (s : FunctorLoop τ) : Prop where
  placed : s.loop.Placed
  ids : s.loop.pushed.map Task.id = List.range s.loop.pushed.length
  batches : s.loop.executed ++ s.loop.functors = s.swaps.flatMap Swap.functors
  before : ∀ w ∈ s.swaps, w.before <+: s.loop.pushed ∧ w.functors <:+ w.before
  calls : (s.returned ++ s.frames.map DirectCall.id).Perm (List.range s.calls)
  finished : s.finished.Perm (s.returned ++ s.called)

theorem construct_inv : (construct : FunctorLoop τ).Inv := by
  refine ⟨EventLoop.construct_placed, rfl, rfl, ?_, List.Perm.refl _, List.Perm.refl _⟩
  intro w hw
  exact absurd hw List.not_mem_nil

theorem advance_inv {s : FunctorLoop τ} (hi : s.Inv) :
    s.advance.Inv ∧ s.advance.calls = s.calls := by
  unfold advance
  cases hf : s.frames with
  | nil => exact ⟨hi, rfl⟩
  | cons f frames =>
    have hcalls := hi.calls
    have hfinished := hi.finished
    rw [called] at hfinished
    rw [hf] at hcalls hfinished
    dsimp only
    cases hpc : f.pc with
    | entered =>
      refine ⟨⟨hi.placed, hi.ids, hi.batches, hi.before, hcalls, ?_⟩, rfl⟩
      simpa [called, hpc] using hfinished
    | cb => exact ⟨hi, rfl⟩
    | called =>
      refine ⟨⟨hi.placed, hi.ids, hi.batches, hi.before, ?_, ?_⟩, rfl⟩
      · simpa using hcalls
      · simpa [called, hpc] using hfinished

theorem cbReturn_inv {s : FunctorLoop τ} (hi : s.Inv) :
    s.cbReturn.Inv ∧ s.cbReturn.calls = s.calls := by
  unfold cbReturn
  cases hf : s.frames with
  | nil => exact ⟨hi, rfl⟩
  | cons f frames =>
    have hcalls := hi.calls
    have hfinished := hi.finished
    rw [called] at hfinished
    rw [hf] at hcalls hfinished
    dsimp only
    cases hpc : f.pc with
    | entered => exact ⟨hi, rfl⟩
    | called => exact ⟨hi, rfl⟩
    | cb =>
      refine ⟨⟨hi.placed, hi.ids, hi.batches, hi.before, hcalls, ?_⟩, rfl⟩
      have hback : s.finished.Perm
          (s.returned ++ (frames.filter fun f => f.pc = .called).map DirectCall.id) := by
        simpa [hpc] using hfinished
      have hadd : (s.finished ++ [f.id]).Perm (f.id::(s.returned ++
          (frames.filter fun f => f.pc = .called).map DirectCall.id)) :=
        (List.perm_append_singleton _ _).trans (hback.cons _)
      simpa [called] using hadd.trans List.perm_middle.symm

variable [DecidableEq τ]

theorem access_inv {s : FunctorLoop τ} (hi : s.Inv) {a : LoopStep τ} (he : s.loop.Enabled a) :
    ∃ s', s.access a = .ok s' ∧ s'.Inv ∧ s'.calls = s.calls := by
  obtain ⟨q, hq, hp⟩ := EventLoop.step_placed hi.placed he
  refine ⟨_, by rw [access, hq]; rfl, ?_⟩
  refine ⟨?_, rfl⟩
  by_cases ha : IsSwap s.loop a
  · obtain ⟨hex, hf, hn, hpu⟩ := EventLoop.step_swap hq ha
    have hnil : s.loop.functors = [] :=
      hi.placed.batch (by simp [ha.2]) (by simp [ha.2])
    have hledger := hi.placed.ledger
    have hbatches := hi.batches
    rw [hnil, List.append_nil] at hledger hbatches
    simp only [if_pos ha]
    refine ⟨hp, by rw [hpu]; exact hi.ids, ?_, ?_, hi.calls, hi.finished⟩
    · rw [hex, hf, List.flatMap_append, List.flatMap_singleton, hbatches]
    · intro w hw
      rw [hpu]
      rcases List.mem_append.mp hw with hw | hw
      · exact hi.before w hw
      · rw [List.mem_singleton.mp hw]
        exact ⟨List.prefix_rfl, ⟨_, hledger⟩⟩
  · simp only [if_neg ha]
    cases EventLoop.step_moved hq ha with
    | stays hex hf hn hpu =>
      exact ⟨hp, by rw [hpu]; exact hi.ids, by rw [hex, hf]; exact hi.batches,
        by rw [hpu]; exact hi.before, hi.calls, hi.finished⟩
    | pushes t ht hex hf hpu =>
      refine ⟨hp, ?_, by rw [hex, hf]; exact hi.batches, ?_, hi.calls, hi.finished⟩
      · rw [hpu, List.map_append, hi.ids, List.length_append, List.length_singleton,
          List.range_succ, List.map_singleton, ht]
      · intro w hw
        rw [hpu]
        exact ⟨(hi.before w hw).1.trans (List.prefix_append _ _), (hi.before w hw).2⟩
    | runs f hold hex hpu =>
      refine ⟨hp, by rw [hpu]; exact hi.ids, ?_, by rw [hpu]; exact hi.before, hi.calls,
        hi.finished⟩
      have hb := hi.batches
      rw [hold] at hb
      rw [hex, List.append_assoc]
      exact hb

theorem enter_inv {s : FunctorLoop τ} (hi : s.Inv) :
    ∃ s', s.runInLoop none = .ok s' ∧ s'.Inv ∧ s'.calls = s.calls+1 := by
  refine ⟨_, rfl, ⟨hi.placed, hi.ids, hi.batches, hi.before, ?_, hi.finished⟩, rfl⟩
  change (s.returned ++ s.calls::s.frames.map DirectCall.id).Perm (List.range (s.calls+1))
  rw [List.range_succ]
  have hfirst : (s.returned ++ s.calls::s.frames.map DirectCall.id).Perm
      (s.calls::List.range s.calls) := List.perm_middle.trans (hi.calls.cons _)
  exact hfirst.trans (List.perm_append_singleton _ _).symm

def counted (n : ℕ) (a : FunctorAction τ) : ℕ := if a = .runInLoop none then n+1 else n

theorem counted_foldl (as : List (FunctorAction τ)) (n : ℕ) :
    as.foldl counted n = n+as.count (.runInLoop none) := by
  induction as generalizing n with
  | nil => rfl
  | cons a as ih =>
    rw [List.foldl_cons, ih, counted, List.count_cons]
    by_cases ha : a = .runInLoop none
    · rw [if_pos ha, if_pos (beq_iff_eq.mpr ha)]
      omega
    · rw [if_neg ha, if_neg (fun h => ha (beq_iff_eq.mp h))]
      omega

theorem step_inv {s : FunctorLoop τ} (hi : s.Inv) {a : FunctorAction τ} (he : s.Enabled a) :
    ∃ s', s.step a = .ok s' ∧ s'.Inv ∧ s'.calls = counted s.calls a := by
  cases a with
  | access a =>
    cases a with
    | loop a => exact access_inv hi he.1
    | foreign x a => exact access_inv hi he
  | runInLoop thread =>
    cases thread with
    | some x => exact access_inv hi he
    | none => exact enter_inv hi
  | advance => exact ⟨_, rfl, advance_inv hi⟩
  | cbReturn => exact ⟨_, rfl, cbReturn_inv hi⟩

/-- Under every interleaving. The functors run, the rest of the batch and the
pending ones are the pushes in lock order, each once; what has been run or is
in the batch is what the swaps took, and no swap has taken a functor pushed
after it. Each `runInLoop` that the loop thread has called is still open or has
returned, once, and its functor has finished before, once. -/
theorem functors_run_once_in_order (as : List (FunctorAction τ))
    (ha : Admitted step Enabled construct as) :
    ∃ s, run step construct as = .ok s ∧
      s.loop.executed ++ s.loop.functors ++ s.loop.pendingFunctors = s.loop.pushed ∧
      s.loop.pushed.map Task.id = List.range s.loop.pushed.length ∧
      s.loop.executed ++ s.loop.functors = s.swaps.flatMap Swap.functors ∧
      (s.loop.pc ≠ .functors → s.loop.pc ≠ .functorsWake → s.loop.functors = []) ∧
      (∀ w ∈ s.swaps, ∃ later, s.loop.pushed = w.before ++ later ∧
        ∀ t ∈ later, t ∉ w.functors) ∧
      (s.returned ++ s.frames.map DirectCall.id).Perm
        (List.range (as.count (.runInLoop none))) ∧
      s.finished.Nodup ∧ ∀ k ∈ s.returned, k ∈ s.finished := by
  have hy : Yields (run step (construct : FunctorLoop τ) as)
      (fun s => s.Inv ∧ s.calls = as.foldl counted 0) (fun _ => False) := by
    refine run_refines Enabled (R := fun s n => s.Inv ∧ s.calls = n) (fun s n a hs he => ?_) as
      construct 0 ⟨construct_inv, rfl⟩ ha
    obtain ⟨s', hs', hi', hc⟩ := step_inv hs.1 he
    rw [hs']
    exact (yields_ok _ _ _).mpr ⟨hi', by rw [hc, hs.2]⟩
  cases hr : run step (construct : FunctorLoop τ) as with
  | error e => exact (hy.error hr).elim
  | ok s =>
    obtain ⟨hi, hc⟩ := hy.ok hr
    rw [counted_foldl, Nat.zero_add] at hc
    have hcalls := hi.calls
    rw [hc] at hcalls
    have hsub : (s.returned ++ s.called).Sublist (s.returned ++ s.frames.map DirectCall.id) :=
      (List.filter_sublist.map _).append_left _
    refine ⟨s, rfl, hi.placed.ledger, hi.ids, hi.batches, hi.placed.batch, fun w hw => ?_, hcalls,
      ?_, fun k hk => hi.finished.mem_iff.mpr (List.mem_append_left _ hk)⟩
    · obtain ⟨⟨later, hl⟩, hsuf⟩ := hi.before w hw
      refine ⟨later, hl.symm, fun t ht hm => ?_⟩
      have hnodup : (s.loop.pushed.map Task.id).Nodup := hi.ids ▸ List.nodup_range
      rw [← hl, List.map_append] at hnodup
      exact (List.nodup_append.mp hnodup).2.2 _ (List.mem_map_of_mem (hsuf.subset hm)) _
        (List.mem_map_of_mem ht) rfl
    · have hnodup : (s.returned ++ s.frames.map DirectCall.id).Nodup :=
        hcalls.nodup_iff.mpr List.nodup_range
      exact hi.finished.nodup_iff.mpr (hnodup.sublist hsub)

/-- A functor queues another one from inside a `runInLoop`, and calls
`runInLoop` once more when that has returned. -/
def nested : List (FunctorAction ℕ) :=
  [.runInLoop (some 7), .access (.loop .enter),
    .access (.loop .advance), .access (.loop .advance), .access (.loop .advance),
    .access (.foreign 7 .wakeup), .access (.loop (.pollReturn true)),
    .access (.loop .handleRead), .access (.loop .advance), .access (.loop .advance),
    .access (.loop .advance), .access (.loop .advance), .runInLoop none, .advance,
    .access (.loop .queueInLoop), .access (.loop .advance), .cbReturn, .advance, .runInLoop none,
    .advance]

theorem functors_run_once_in_order_nested :
    ∃ s, run step construct nested = .ok s ∧
      s.loop.executed.map Task.id = [0] ∧ s.loop.pendingFunctors.map Task.id = [1] ∧
      s.returned = [0] ∧ s.finished = [0] ∧ s.frames = [⟨1, true, .cb⟩] ∧
      ∀ k ∈ s.returned, k ∈ s.finished := by
  obtain ⟨s, hr, -, -, -, -, -, -, -, hret⟩ :=
    functors_run_once_in_order nested (by decide +kernel)
  refine ⟨s, hr, ?_, ?_, ?_, ?_, ?_, hret⟩
  · cases hr
    rfl
  · cases hr
    rfl
  · cases hr
    rfl
  · cases hr
    rfl
  · cases hr
    rfl

end FunctorLoop

end Lux.Polaris

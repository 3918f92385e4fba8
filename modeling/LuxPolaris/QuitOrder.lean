import LuxPolaris.EventLoopInvariant

/-!
# Quitting with work queued

`loop()` tests `quit_` right after `doPendingFunctors`, so a functor that is
pushed behind the swap is left over when `quit_` is set before the test. What
keeps a thread's functors is that no `quit()` of theirs meets them pending
while no swap lies ahead of the test.
-/

set_option autoImplicit false

namespace Lux.Polaris.EventLoop
open Outcome

variable {τ : Type}

/-- Positions from which the loop thread reaches the test of `quit_` without
another swap. -/
def PastSwap (pc : LoopPc) : Prop :=
  pc = .functors ∨ pc = .functorsWake ∨ pc = .test ∨ pc = .leave

instance (pc : LoopPc) : Decidable (PastSwap pc) := inferInstanceAs (Decidable (_ ∨ _))

def Closing (q : EventLoop τ) : Prop := q.pc = .leave ∨ q.quit = true ∧ PastSwap q.pc

instance (q : EventLoop τ) : Decidable q.Closing := inferInstanceAs (Decidable (_ ∨ _))

/-- Nothing that was pushed before a `quit()` of its thread is left over. -/
def Drained (q : EventLoop τ) : Prop := q.Closing → ∀ t ∈ q.pendingFunctors, t ∉ q.sealed

theorem push_drained {q : EventLoop τ} (hp : q.Placed) (hd : q.Drained) (thread : Option τ) :
    (q.push thread).Drained := by
  intro hc t ht
  rcases List.mem_append.mp ht with hm | hm
  · exact hd hc t hm
  · rw [List.mem_singleton.mp hm]
    exact push_not_sealed hp thread _

theorem advance_drained {q : EventLoop τ} (hd : q.Drained) : q.advance.Drained := by
  unfold advance
  cases hpc : q.pc with
  | outside | poll => exact hd
  | setLooping | resetQuit | events _ | calling | leave =>
    intro hc
    simp [Closing, PastSwap] at hc
  | test =>
    by_cases hq : q.quit = true
    · simp only [hq, if_true]
      exact fun _ => hd (Or.inr ⟨hq, by simp [PastSwap, hpc]⟩)
    · simp only [hq, Bool.false_eq_true, if_false]
      intro hc
      simp [Closing, PastSwap] at hc
  | swap => exact fun _ t ht => absurd ht List.not_mem_nil
  | functors =>
    have hback : q.quit = true → ∀ t ∈ q.pendingFunctors, t ∉ q.sealed :=
      fun hq => hd (Or.inr ⟨hq, Or.inl hpc⟩)
    cases hf : q.functors with
    | nil =>
      intro hc
      exact hback (by simpa [Closing, PastSwap] using hc)
    | cons f fs =>
      intro hc
      exact hback (by simpa [Closing, PastSwap] using hc)
  | functorsWake =>
    intro hc
    exact hd (Or.inr ⟨by simpa [Closing, PastSwap, wakeup] using hc, by simp [PastSwap, hpc]⟩)

theorem queueInLoop_drained {q : EventLoop τ} (hp : q.Placed) (hd : q.Drained)
    (hu : q.InUserCode) : q.queueInLoop.Drained := by
  have hpush := push_drained hp hd none
  unfold queueInLoop
  by_cases hc : (q.push none).callingPendingFunctors = true
  · rw [if_pos hc]
    have hpc : q.pc = .functors := functors_of_calling hp hu hc
    intro hcl
    have hq : q.quit = true := by simpa [Closing, PastSwap, push] using hcl
    exact hpush (Or.inr ⟨hq, Or.inl hpc⟩)
  · rw [if_neg hc]
    exact hpush

theorem advance_outside {q : EventLoop τ} (ho : q.pc ≠ .outside)
    (hp : q.pc ≠ .poll) (h : q.advance.pc = .outside) :
    q.pc = .leave ∧ q.advance.sealed = q.sealed ∧
      q.advance.executed = q.executed := by
  unfold advance at h ⊢
  cases hpc : q.pc with
  | outside => exact absurd hpc ho
  | poll => exact absurd hpc hp
  | test =>
    rw [hpc] at h
    by_cases hq : q.quit = true <;> simp [hq] at h
  | functors =>
    rw [hpc] at h
    cases hf : q.functors <;> simp [hf] at h
  | leave => exact ⟨rfl, rfl, rfl⟩
  | setLooping | resetQuit | calling | swap | functorsWake => simp [hpc] at h
  | events w => simp [hpc] at h

section Threads
variable [DecidableEq τ]

/-- A `quit()` that finds no swap ahead also finds none of the functors that
its thread, or another that has called `quit()`, has queued. -/
def QuitOrdered (q : EventLoop τ) : LoopStep τ → Prop
  | .foreign x .quitCall => q.Closing → ∀ t ∈ q.pendingFunctors, t.thread ≠ some x
  | .foreign x .quitStore => q.foreign x = .sawLooping → PastSwap q.pc →
      ∀ t ∈ q.pendingFunctors, t ∉ q.sealed
  | .loop .quit => PastSwap q.pc → ∀ t ∈ q.pendingFunctors, t ∉ q.sealed ∧ t.thread ≠ none
  | _ => True

instance (q : EventLoop τ) : (a : LoopStep τ) → Decidable (q.QuitOrdered a)
  | .foreign _ .quitCall => inferInstanceAs (Decidable (_ → _))
  | .foreign _ .quitStore => inferInstanceAs (Decidable (_ → _ → _))
  | .loop .quit => inferInstanceAs (Decidable (_ → _))
  | .foreign _ .push => isTrue trivial
  | .foreign _ .wakeup => isTrue trivial
  | .foreign _ .quitWakeup => isTrue trivial
  | .loop .enter => isTrue trivial
  | .loop .advance => isTrue trivial
  | .loop (.pollReturn _) => isTrue trivial
  | .loop .handleRead => isTrue trivial
  | .loop .queueInLoop => isTrue trivial
  | .loop .wakeup => isTrue trivial

theorem sealTasks_not_sealed {q : EventLoop τ} {thread : Option τ} {t : Task τ}
    (hs : t ∉ q.sealed) (ht : t.thread ≠ thread) : t ∉ (q.sealTasks thread).sealed := by
  intro h
  rcases sealTasks_sealed h with hm | hm
  · exact hs hm
  · exact ht hm.2

theorem quitInLoop_drained {q : EventLoop τ} (ho : q.QuitOrdered (.loop .quit)) :
    q.quitInLoop.Drained := by
  simp only [quitInLoop]
  have hsealed : PastSwap q.pc → ∀ t ∈ q.pendingFunctors, t ∉ (q.sealTasks none).sealed :=
    fun hp t ht => sealTasks_not_sealed (ho hp t ht).1 (ho hp t ht).2
  split_ifs
  · intro hc
    refine hsealed ?_
    rcases hc with h | h
    · exact Or.inr (Or.inr (Or.inr h))
    · exact h.2
  · intro hc
    refine hsealed ?_
    rcases hc with h | h
    · exact Or.inr (Or.inr (Or.inr h))
    · exact h.2

theorem foreignStep_drained {q : EventLoop τ} (hp : q.Placed) (hd : q.Drained) {x : τ}
    {a : ForeignAction} (ho : q.QuitOrdered (.foreign x a)) : (q.foreignStep x a).Drained := by
  cases a with
  | push => exact push_drained hp hd (some x)
  | wakeup => exact hd
  | quitCall => exact fun hc t ht => sealTasks_not_sealed (hd hc t ht) (ho hc t ht)
  | quitStore =>
    unfold foreignStep
    simp only
    split_ifs with hx
    · intro hc
      refine ho hx ?_
      rcases hc with h | h
      · exact Or.inr (Or.inr (Or.inr h))
      · exact h.2
    · intro hc
      refine hd (Or.inl ?_)
      rcases hc with h | h
      · exact h
      · exact absurd h.1 Bool.false_ne_true
  | quitWakeup => exact hd

theorem step_drained {q q' : EventLoop τ} (hp : q.Placed) (hd : q.Drained) {a : LoopStep τ}
    (he : q.Enabled a) (ho : q.QuitOrdered a) (hs : q.step a = .ok q') : q'.Drained := by
  cases a with
  | foreign x a =>
    cases hs
    exact foreignStep_drained hp hd ho
  | loop a =>
    cases a with
    | enter =>
      obtain ⟨_, _, hq⟩ := bind_ok.mp hs
      cases hq
      intro hc
      simp [Closing, PastSwap] at hc
    | advance =>
      cases hs
      exact advance_drained hd
    | pollReturn wakeup =>
      cases hs
      intro hc
      simp [Closing, PastSwap] at hc
    | handleRead =>
      cases hs
      intro hc
      simp [Closing, PastSwap, handleRead] at hc
    | queueInLoop =>
      cases hs
      exact queueInLoop_drained hp hd he
    | quit =>
      cases hs
      exact quitInLoop_drained ho
    | wakeup =>
      cases hs
      exact hd

/-- In every run whose `quit()` calls are ordered: when `loop()` returns,
every functor that a thread pushed before a `quit()` of its own has been run. -/
theorem quit_runs_queued (as : List (LoopStep τ)) (q : EventLoop τ)
    (ha : Admitted step (fun q a => q.Enabled a ∧ q.QuitOrdered a) construct
      (as ++ [.loop .advance]))
    (hr : run step construct (as ++ [.loop .advance]) = .ok q) (hpc : q.pc = .outside) :
    ∀ t ∈ q.sealed, t ∈ q.executed := by
  obtain ⟨hadm, hlast⟩ := (admitted_append as _ _).mp ha
  obtain ⟨q₀, hq₀, hs⟩ := run_snoc_ok.mp hr
  have hy : Yields (run step construct as) (fun q => q.Placed ∧ q.Drained) (fun _ => True) := by
    refine run_yields (fun q a => q.Enabled a ∧ q.QuitOrdered a) (fun s a hs he => ?_) as construct
      ⟨construct_placed, fun _ t ht => absurd ht List.not_mem_nil⟩ hadm
    obtain ⟨s', heq, hp⟩ := step_placed hs.1 he.1
    rw [heq]
    exact (yields_ok _ _ _).mpr ⟨hp, step_drained hs.1 hs.2 he.1 he.2 heq⟩
  obtain ⟨hp, hd⟩ := hy.ok hq₀
  cases hs
  obtain ⟨hleave, hsealed, hexecuted⟩ := advance_outside (hlast q₀ hq₀).1.1.1
    (hlast q₀ hq₀).1.1.2.1 hpc
  intro t ht
  rw [hsealed] at ht
  rw [hexecuted]
  have hin := hp.sealed_pushed t ht
  rw [← hp.ledger, hp.batch (by simp [hleave]) (by simp [hleave]), List.append_nil] at hin
  rcases List.mem_append.mp hin with h | h
  · exact h
  · exact absurd ht (hd (Or.inl hleave) t h)

/-- A functor queued and a `quit()` made while the loop thread is in `poll`. -/
theorem quit_runs_queued_at_poll :
    ∃ q : EventLoop ℕ, run step construct ([.loop .enter, .loop .advance, .loop .advance,
        .loop .advance, .foreign 7 .push, .foreign 7 .wakeup, .foreign 7 .quitCall,
        .foreign 7 .quitStore, .foreign 7 .quitWakeup, .loop (.pollReturn true),
        .loop .handleRead, .loop .advance, .loop .advance, .loop .advance, .loop .advance,
        .loop .advance, .loop .advance] ++ [.loop .advance]) = .ok q ∧
      ⟨0, some 7, true⟩ ∈ q.sealed ∧ ∀ t ∈ q.sealed, t ∈ q.executed :=
  ⟨_, rfl, List.mem_cons_self, quit_runs_queued [.loop .enter, .loop .advance, .loop .advance,
    .loop .advance, .foreign 7 .push, .foreign 7 .wakeup, .foreign 7 .quitCall,
    .foreign 7 .quitStore, .foreign 7 .quitWakeup, .loop (.pollReturn true), .loop .handleRead,
    .loop .advance, .loop .advance, .loop .advance, .loop .advance, .loop .advance,
    .loop .advance] _ (by decide) rfl rfl⟩

/-- A functor queued and a `quit()` made between the swap and the test. -/
theorem quit_drops_queued :
    ¬∀ (as : List (LoopStep ℕ)) (q : EventLoop ℕ),
      Admitted step Enabled construct (as ++ [.loop .advance]) →
      run step construct (as ++ [.loop .advance]) = .ok q → q.pc = .outside →
      ∀ t ∈ q.sealed, t ∈ q.executed := by
  intro h
  have hq := h [.loop .enter, .loop .advance, .loop .advance, .loop .advance,
    .loop (.pollReturn false), .loop .advance, .loop .advance, .loop .advance, .foreign 7 .push,
    .foreign 7 .wakeup, .foreign 7 .quitCall, .foreign 7 .quitStore, .foreign 7 .quitWakeup,
    .loop .advance, .loop .advance] _ (by decide) rfl rfl ⟨0, some 7, true⟩ (by decide)
  exact absurd hq (by decide)

end Threads

end Lux.Polaris.EventLoop

import LuxPolaris.EventLoopInvariant

/-!
# No lost wake-up

A push behind the swap is followed by a write of the eventfd, and the eventfd
is read only on the way to the next swap. So while the loop thread is not
between the event phase and the swap, a functor that it has to run is
announced: the counter is positive or its producer is about to write.
-/

set_option autoImplicit false

namespace Lux.Polaris.EventLoop
open Outcome

variable {τ : Type}

/-- The eventfd is readable, or a foreign thread is between push and write. -/
def Announced (q : EventLoop τ) : Prop := 0 < q.wakeupFd ∨ ∃ x, q.foreign x = .pushed

def BeforePoll : LoopPc → Prop
  | .events _ | .calling | .swap | .functorsWake => False
  | _ => True

def Covered (R : Task τ → Prop) (q : EventLoop τ) : Prop :=
  BeforePoll q.pc → (∃ t ∈ q.pendingFunctors, R t) → q.Announced

theorem wakeup_announced (q : EventLoop τ) : q.wakeup.Announced :=
  Or.inl (eventfdWrite_pos q.wakeupFd)

theorem advance_covered {R : Task τ → Prop} {q : EventLoop τ} (hc : q.Covered R) :
    q.advance.Covered R := by
  unfold advance
  cases hpc : q.pc with
  | outside | poll => exact hc
  | setLooping | resetQuit | leave => exact fun _ h => hc (by rw [hpc]; trivial) h
  | test => exact fun _ h => hc (by rw [hpc]; trivial) h
  | events w => exact fun h => h.elim
  | calling => exact fun h => h.elim
  | swap =>
    intro _ ⟨t, ht, _⟩
    exact absurd ht List.not_mem_nil
  | functors =>
    cases hf : q.functors with
    | nil => exact fun _ h => hc (by rw [hpc]; trivial) h
    | cons f fs => exact fun _ h => hc (by rw [hpc]; trivial) h
  | functorsWake => exact fun _ _ => wakeup_announced q

/-- The loop thread need not write the eventfd from an event handler: the
swap is still ahead of it. -/
theorem queueInLoop_covered {R : Task τ → Prop} {q : EventLoop τ} (hp : q.Placed)
    (hc : q.Covered R) (hu : q.InUserCode)
    (hR : q.pc = .outside → ¬R ⟨q.pushed.length, none, false⟩) : q.queueInLoop.Covered R := by
  unfold queueInLoop
  by_cases hcall : (q.push none).callingPendingFunctors = true
  · rw [if_pos hcall]
    exact fun h => h.elim
  · rw [if_neg hcall]
    intro hb ⟨t, ht, hr⟩
    have hbefore : BeforePoll q.pc := hb
    rcases hu with hpc | hpc | hpc | hpc
    · rcases List.mem_append.mp ht with hm | hm
      · exact hc hbefore ⟨t, hm, hr⟩
      · rw [List.mem_singleton.mp hm, hpc] at hr
        exact absurd hr (hR hpc)
    · rw [hpc] at hbefore
      exact hbefore.elim
    · rw [hpc] at hbefore
      exact hbefore.elim
    · exact absurd (hp.calling.mpr (Or.inr (Or.inl hpc))) hcall

section Threads
variable [DecidableEq τ]

theorem setForeign_announced {q : EventLoop τ} {x : τ} (hx : q.foreign x ≠ .pushed)
    (pc : ForeignPc) (h : q.Announced) : (q.setForeign x pc).Announced := by
  rcases h with hw | ⟨y, hy⟩
  · exact Or.inl hw
  · right
    have hne : y ≠ x := fun he => hx (he ▸ hy)
    exact ⟨y, by simpa [setForeign, hne] using hy⟩

theorem foreignStep_covered {R : Task τ → Prop} {q : EventLoop τ} (hc : q.Covered R) {x : τ}
    {a : ForeignAction} (he : q.Enabled (.foreign x a)) : (q.foreignStep x a).Covered R := by
  cases a with
  | push =>
    intro _ _
    exact Or.inr ⟨x, by simp [foreignStep, setForeign]⟩
  | wakeup => exact fun _ _ => Or.inl (eventfdWrite_pos _)
  | quitCall =>
    have hx : q.foreign x = .idle := he
    intro hb h
    exact setForeign_announced (q := q.sealTasks (some x)) (by simp [sealTasks, hx]) _ (hc hb h)
  | quitStore =>
    have hx : q.foreign x ≠ .pushed := by
      rcases he with he | he <;> simp [he]
    unfold foreignStep
    simp only
    split_ifs
    · intro hb h
      exact setForeign_announced (q := { q with quit := true }) hx _ (hc hb h)
    · intro hb h
      exact setForeign_announced (q := { q with quit := false, quitReturned := true }) hx _
        (hc hb h)
  | quitWakeup => exact fun _ _ => Or.inl (eventfdWrite_pos _)

theorem step_covered {R : Task τ → Prop} {q q' : EventLoop τ} (hp : q.Placed) (hc : q.Covered R)
    {a : LoopStep τ} (he : q.Enabled a)
    (hR : a = .loop .queueInLoop → q.pc = .outside → ¬R ⟨q.pushed.length, none, false⟩)
    (hs : q.step a = .ok q') : q'.Covered R := by
  cases a with
  | foreign x a =>
    cases hs
    exact foreignStep_covered hc he
  | loop a =>
    cases a with
    | enter =>
      obtain ⟨_, _, hq⟩ := bind_ok.mp hs
      cases hq
      have hpc : q.pc = .outside := he
      exact fun _ h => hc (by rw [hpc]; trivial) h
    | advance =>
      cases hs
      exact advance_covered hc
    | pollReturn wakeup =>
      cases hs
      exact fun h => h.elim
    | handleRead =>
      cases hs
      exact fun h => h.elim
    | queueInLoop =>
      cases hs
      exact queueInLoop_covered hp hc he (hR rfl)
    | quit =>
      cases hs
      simp only [quitInLoop]
      split_ifs
      · exact hc
      · exact hc
    | wakeup =>
      cases hs
      exact fun _ _ => wakeup_announced q

/-- Queued by a foreign thread, or by the loop thread inside `loop()`. -/
def OwedWakeUp (t : Task τ) : Prop := t.thread ≠ none ∨ t.inLoop = true

/-- Under every interleaving: while the loop thread is at `poll` and a functor
it owes is pending, the eventfd is readable or a foreign thread is between its
push and its write. -/
theorem no_lost_wake_up (as : List (LoopStep τ)) (q : EventLoop τ)
    (ha : Admitted step Enabled construct as) (hr : run step construct as = .ok q)
    (hpc : q.pc = .poll) (ht : ∃ t ∈ q.pendingFunctors, OwedWakeUp t) :
    0 < q.wakeupFd ∨ ∃ x, q.foreign x = .pushed := by
  have hy : Yields (run step construct as) (fun q => q.Placed ∧ q.Covered OwedWakeUp)
      (fun _ => True) := by
    refine run_yields Enabled (fun s a hs he => ?_) as construct ⟨construct_placed, ?_⟩ ha
    · obtain ⟨s', heq, hp⟩ := step_placed hs.1 he
      rw [heq]
      refine (yields_ok _ _ _).mpr ⟨hp, step_covered hs.1 hs.2 he (fun _ _ => ?_) heq⟩
      simp [OwedWakeUp]
    · intro _ ⟨t, ht, _⟩
      exact absurd ht List.not_mem_nil
  exact (hy.ok hr).2 (by rw [hpc]; trivial) ht

theorem no_lost_wake_up_first_poll :
    ∃ q : EventLoop ℕ, run step construct [.foreign 7 .push, .loop .enter, .loop .advance,
        .loop .advance, .loop .advance] = .ok q ∧
      q.pc = .poll ∧ (0 < q.wakeupFd ∨ ∃ x, q.foreign x = .pushed) :=
  ⟨_, rfl, rfl, no_lost_wake_up [.foreign 7 .push, .loop .enter, .loop .advance, .loop .advance,
    .loop .advance] _ (by decide) rfl rfl ⟨_, List.mem_cons_self, Or.inl (by decide)⟩⟩

end Threads

end Lux.Polaris.EventLoop

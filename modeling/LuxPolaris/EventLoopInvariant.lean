import LuxPolaris.EventLoop

/-!
# Where the functors of a loop are

What holds of a loop under every interleaving: the flags agree with the
position of the loop thread, and every functor pushed has been run, is in the
vector being run, or is still pending, in the order of the pushes.
-/

set_option autoImplicit false

namespace Lux.Polaris.EventLoop
open Outcome

variable {τ : Type}

structure Placed (q : EventLoop τ) : Prop where
  calling : q.callingPendingFunctors = true ↔
    q.pc = .swap ∨ q.pc = .functors ∨ q.pc = .functorsWake
  looping : q.looping = true ↔ q.pc ≠ .outside ∧ q.pc ≠ .setLooping
  batch : q.pc ≠ .functors → q.pc ≠ .functorsWake → q.functors = []
  ledger : q.executed ++ q.functors ++ q.pendingFunctors = q.pushed
  ids : ∀ t ∈ q.pushed, t.id < q.pushed.length
  sealed_pushed : ∀ t ∈ q.sealed, t ∈ q.pushed

theorem construct_placed : (construct : EventLoop τ).Placed := by
  refine ⟨?_, ?_, fun _ _ => rfl, rfl, ?_, ?_⟩
  · simp [construct]
  · simp [construct]
  · intro t ht
    exact absurd ht List.not_mem_nil
  · intro t ht
    exact absurd ht List.not_mem_nil

theorem placed_of_frame {q q' : EventLoop τ} (hp : q.Placed) (hpc : q'.pc = q.pc)
    (hc : q'.callingPendingFunctors = q.callingPendingFunctors) (hl : q'.looping = q.looping)
    (hf : q'.functors = q.functors) (hn : q'.pendingFunctors = q.pendingFunctors)
    (hpu : q'.pushed = q.pushed) (he : q'.executed = q.executed)
    (hs : ∀ t ∈ q'.sealed, t ∈ q.sealed ∨ t ∈ q.pushed) : q'.Placed := by
  refine ⟨by rw [hc, hpc]; exact hp.calling, by rw [hl, hpc]; exact hp.looping,
    by rw [hpc, hf]; exact hp.batch, by rw [he, hf, hn, hpu]; exact hp.ledger,
    by rw [hpu]; exact hp.ids, ?_⟩
  intro t ht
  rw [hpu]
  rcases hs t ht with h | h
  · exact hp.sealed_pushed t h
  · exact h

theorem push_placed {q : EventLoop τ} (hp : q.Placed) (thread : Option τ) :
    (q.push thread).Placed := by
  refine ⟨hp.calling, hp.looping, hp.batch, ?_, ?_, ?_⟩
  · simp only [push, ← List.append_assoc, hp.ledger]
  · intro t ht
    simp only [push, List.mem_append, List.mem_singleton, List.length_append,
      List.length_singleton] at ht ⊢
    rcases ht with h | h
    · have := hp.ids t h
      omega
    · rw [h]
      exact Nat.lt_succ_self _
  · intro t ht
    exact List.mem_append_left _ (hp.sealed_pushed t ht)

theorem advance_placed {q : EventLoop τ} (hp : q.Placed) : q.advance.Placed := by
  obtain ⟨hcall, hloop, hbatch, hledger, hids, hseal⟩ := hp
  unfold advance
  cases hpc : q.pc with
  | outside => exact ⟨hcall, hloop, hbatch, hledger, hids, hseal⟩
  | poll => exact ⟨hcall, hloop, hbatch, hledger, hids, hseal⟩
  | setLooping | resetQuit | calling | leave =>
    simp only [hpc] at hcall hloop hbatch
    exact ⟨by simp_all, by simp_all, fun _ _ => by simpa using hbatch, hledger, hids, hseal⟩
  | events w =>
    simp only [hpc] at hcall hloop hbatch
    exact ⟨by simpa using hcall, by simpa using hloop, fun _ _ => by simpa using hbatch, hledger,
      hids, hseal⟩
  | test =>
    simp only [hpc] at hcall hloop hbatch
    by_cases hq : q.quit = true
    · simp only [hq, if_true]
      exact ⟨by simpa using hcall, by simpa using hloop, fun _ _ => by simpa using hbatch, hledger,
        hids, hseal⟩
    · simp only [hq, Bool.false_eq_true, if_false]
      exact ⟨by simpa using hcall, by simpa using hloop, fun _ _ => by simpa using hbatch, hledger,
        hids, hseal⟩
  | swap =>
    have hnil : q.functors = [] := hbatch (by simp [hpc]) (by simp [hpc])
    simp only [hpc] at hcall hloop
    refine ⟨by simpa using hcall, by simpa using hloop, fun h => absurd rfl h, ?_, hids, hseal⟩
    rw [hnil, List.append_nil] at hledger
    rw [List.append_nil]
    exact hledger
  | functors =>
    simp only [hpc] at hcall hloop
    cases hf : q.functors with
    | nil =>
      rw [hf] at hledger
      exact ⟨by simp, by simpa using hloop, fun _ _ => rfl, hledger, hids, hseal⟩
    | cons f fs =>
      refine ⟨by simpa [hpc] using hcall, by simpa [hpc] using hloop, fun h => absurd rfl h, ?_,
        hids, hseal⟩
      rw [hf] at hledger
      simpa using hledger
  | functorsWake =>
    simp only [hpc] at hcall hloop
    exact ⟨by simpa [wakeup] using hcall, by simpa [wakeup] using hloop, fun h => absurd rfl h,
      hledger, hids, hseal⟩

theorem functors_of_calling {q : EventLoop τ} (hp : q.Placed) (hu : q.InUserCode)
    (hc : q.callingPendingFunctors = true) : q.pc = .functors := by
  rcases hp.calling.mp hc with h | h | h
  · rcases hu with hu | hu | hu | hu <;> simp [h] at hu
  · exact h
  · rcases hu with hu | hu | hu | hu <;> simp [h] at hu

theorem queueInLoop_placed {q : EventLoop τ} (hp : q.Placed) (hu : q.InUserCode) :
    q.queueInLoop.Placed := by
  have hpush := push_placed hp none
  unfold queueInLoop
  by_cases hc : (q.push none).callingPendingFunctors = true
  · rw [if_pos hc]
    have hpc : q.pc = .functors := functors_of_calling hp hu hc
    have hl : (q.push none).looping = true := hp.looping.mpr (by simp [hpc])
    exact ⟨by simp [hc], by simp [hl], fun _ h => absurd rfl h, hpush.ledger, hpush.ids,
      hpush.sealed_pushed⟩
  · rw [if_neg hc]
    exact hpush

theorem push_not_sealed {q : EventLoop τ} (hp : q.Placed) (thread : Option τ) (inLoop : Bool) :
    (⟨q.pushed.length, thread, inLoop⟩ : Task τ) ∉ q.sealed := by
  intro h
  exact absurd (hp.ids _ (hp.sealed_pushed _ h)) (Nat.lt_irrefl _)

section Threads
variable [DecidableEq τ]

theorem sealTasks_sealed {q : EventLoop τ} {thread : Option τ} {t : Task τ}
    (h : t ∈ (q.sealTasks thread).sealed) : t ∈ q.sealed ∨ t ∈ q.pushed ∧ t.thread = thread := by
  rcases List.mem_append.mp h with hs | hs
  · exact Or.inl hs
  · rw [List.mem_filter, decide_eq_true_eq] at hs
    exact Or.inr hs

theorem quitInLoop_placed {q : EventLoop τ} (hp : q.Placed) : q.quitInLoop.Placed := by
  have hs : ∀ t ∈ (q.sealTasks none).sealed, t ∈ q.sealed ∨ t ∈ q.pushed :=
    fun t ht => (sealTasks_sealed ht).imp_right And.left
  simp only [quitInLoop]
  split_ifs
  · exact placed_of_frame hp rfl rfl rfl rfl rfl rfl rfl hs
  · exact placed_of_frame hp rfl rfl rfl rfl rfl rfl rfl hs

theorem foreignStep_placed {q : EventLoop τ} (hp : q.Placed) (x : τ) (a : ForeignAction) :
    (q.foreignStep x a).Placed := by
  cases a with
  | push =>
    exact placed_of_frame (push_placed hp (some x)) rfl rfl rfl rfl rfl rfl rfl
      (fun t ht => Or.inl ht)
  | wakeup => exact placed_of_frame hp rfl rfl rfl rfl rfl rfl rfl (fun t ht => Or.inl ht)
  | quitCall =>
    exact placed_of_frame hp rfl rfl rfl rfl rfl rfl rfl
      (fun t ht => (sealTasks_sealed ht).imp_right And.left)
  | quitStore =>
    unfold foreignStep
    simp only
    split_ifs
    · exact placed_of_frame hp rfl rfl rfl rfl rfl rfl rfl (fun t ht => Or.inl ht)
    · exact placed_of_frame hp rfl rfl rfl rfl rfl rfl rfl (fun t ht => Or.inl ht)
  | quitWakeup => exact placed_of_frame hp rfl rfl rfl rfl rfl rfl rfl (fun t ht => Or.inl ht)

theorem step_placed {q : EventLoop τ} (hp : q.Placed) {a : LoopStep τ} (he : q.Enabled a) :
    ∃ q', q.step a = .ok q' ∧ q'.Placed := by
  cases a with
  | foreign x a => exact ⟨_, rfl, foreignStep_placed hp x a⟩
  | loop a =>
    cases a with
    | enter =>
      have hpc : q.pc = .outside := he
      have hl : q.looping = false := by
        rw [← Bool.not_eq_true, hp.looping]
        simp [hpc]
      have hc : q.callingPendingFunctors = false := by
        rw [← Bool.not_eq_true, hp.calling]
        simp [hpc]
      refine ⟨{ q with pc := .setLooping }, ?_, by simp [hc], by simp [hl], fun _ _ => ?_,
        hp.ledger, hp.ids, hp.sealed_pushed⟩
      · simp only [step, loopStep, assertThat_of hl, ok_bind, pure_eq_ok]
      · exact hp.batch (by simp [hpc]) (by simp [hpc])
    | advance => exact ⟨_, rfl, advance_placed hp⟩
    | pollReturn wakeup =>
      have hpc : q.pc = .poll := he.1
      have hcall := hp.calling
      have hloop := hp.looping
      rw [hpc] at hcall hloop
      exact ⟨_, rfl, by simpa using hcall, by simpa using hloop,
        fun _ _ => hp.batch (by simp [hpc]) (by simp [hpc]), hp.ledger, hp.ids, hp.sealed_pushed⟩
    | handleRead =>
      have hpc : q.pc = .events true := he
      have hcall := hp.calling
      have hloop := hp.looping
      rw [hpc] at hcall hloop
      exact ⟨_, rfl, by simpa [handleRead] using hcall, by simpa [handleRead] using hloop,
        fun _ _ => hp.batch (by simp [hpc]) (by simp [hpc]), hp.ledger, hp.ids, hp.sealed_pushed⟩
    | queueInLoop => exact ⟨_, rfl, queueInLoop_placed hp he⟩
    | quit => exact ⟨_, rfl, quitInLoop_placed hp⟩
    | wakeup =>
      exact ⟨_, rfl, placed_of_frame hp rfl rfl rfl rfl rfl rfl rfl (fun t ht => Or.inl ht)⟩

end Threads

end Lux.Polaris.EventLoop

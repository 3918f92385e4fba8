import LuxPolaris.WakeUp

/-!
# EventLoopThread

`threadFunc` runs the init callback outside `loop()`, publishes the loop and
only then enters `loop()`, while `startLoop` returns at the publication. A
`quit()` that comes in between is undone by `loop()`'s own store to `quit_`,
and a functor that the callback has queued has no write of the eventfd behind
it. Both requests are kept when the first is not made so early and the second
is announced.
-/

set_option autoImplicit false

namespace Lux.Polaris

/-- `loop` is the loop on the stack of `threadFunc`, `published` says whether
`loop_` points to it yet, `entered` whether `loop.loop()` has been called. -/
structure EventLoopThread (τ : Type) where
  loop : EventLoop τ
  published : Bool
  entered : Bool

inductive ThreadStep (τ : Type) where
  | publish
  | loop (a : LoopAction)
  | caller (x : τ) (a : ForeignAction)
  deriving DecidableEq

namespace EventLoopThread
open Outcome EventLoop

variable {τ : Type}

def construct : EventLoopThread τ := ⟨.construct, false, false⟩

def Returned (t : EventLoopThread τ) : Prop := t.entered = true ∧ t.loop.pc = .outside

instance (t : EventLoopThread τ) : Decidable t.Returned := inferInstanceAs (Decidable (_ ∧ _))

/-- Inside the while loop of `loop()`, its condition included. -/
def InWhile : LoopPc → Prop
  | .outside | .setLooping | .resetQuit | .leave => False
  | _ => True

def FromCallback (f : Task τ) : Prop := f.thread = none ∧ f.inLoop = false

/-- Every `quit()` that has stored `true` is still heeded, and none is undone
before `loop()` has returned. -/
structure Heeded (t : EventLoopThread τ) : Prop where
  placed : t.loop.Placed
  entered_published : t.entered = true → t.published = true
  before : t.entered = false → t.loop.pc = .outside
  unpublished : t.published = false → ∀ x, t.loop.foreign x = .idle
  stopped : ∀ x, t.loop.foreign x = .sawStopped → t.Returned
  looping : ∀ x, t.loop.foreign x = .sawLooping → t.entered = true ∧ t.loop.pc ≠ .setLooping
  requested : t.loop.quitReturned = true ∨ (∃ x, t.loop.foreign x = .stored) →
    t.entered = true ∧ t.loop.pc ≠ .setLooping ∧ t.loop.pc ≠ .resetQuit ∧
      (InWhile t.loop.pc → t.loop.quit = true)
  covered : t.published = true → t.loop.Covered (fun _ => True)

section Advance

theorem advance_foreign (q : EventLoop τ) : q.advance.foreign = q.foreign := by
  unfold advance
  cases q.pc with
  | functors => cases q.functors <;> rfl
  | _ => rfl

theorem advance_quitReturned (q : EventLoop τ) : q.advance.quitReturned = q.quitReturned := by
  unfold advance
  cases q.pc with
  | functors => cases q.functors <;> rfl
  | _ => rfl

theorem advance_quit {q : EventLoop τ} (h : q.pc ≠ .resetQuit) : q.advance.quit = q.quit := by
  unfold advance
  cases hpc : q.pc with
  | functors => cases q.functors <;> rfl
  | resetQuit => exact absurd hpc h
  | _ => rfl

theorem advance_pc (q : EventLoop τ) : q.advance.pc ≠ .setLooping ∧
    (q.advance.pc = .resetQuit → q.pc = .setLooping) ∧
    (InWhile q.advance.pc → InWhile q.pc ∨ q.pc = .resetQuit) := by
  unfold advance
  cases hpc : q.pc with
  | functors => cases q.functors <;> simp [InWhile]
  | test => cases q.quit <;> simp [InWhile]
  | outside => simp [hpc, InWhile]
  | poll => simp [hpc, InWhile]
  | _ => simp [InWhile]

end Advance

theorem construct_heeded : (construct : EventLoopThread τ).Heeded := by
  refine ⟨construct_placed, ?_, fun _ => rfl, fun _ _ => rfl, ?_, ?_, ?_, ?_⟩
  · exact fun h => h
  · exact fun x h => nomatch h
  · exact fun x h => nomatch h
  · intro h
    rcases h with h | ⟨x, h⟩
    · cases h
    · cases h
  · exact fun h => nomatch h

/-- The program of `threadFunc`, and callers that have the pointer. -/
def Enabled (t : EventLoopThread τ) : ThreadStep τ → Prop
  | .publish => t.published = false
  | .loop a => t.loop.Enabled (.loop a) ∧
      (t.loop.pc = .outside → if a = .enter then t.published = true ∧ t.entered = false
        else t.published = false)
  | .caller x a => t.published = true ∧ t.loop.Enabled (.foreign x a)

/-- Conditions under which the requests are kept: the callback leaves no
functor queued without a wake-up, and `quit()` neither reads `looping_` before
`loop()` has set it nor stores to `quit_` before `loop()` has reset it. -/
def Ordered (t : EventLoopThread τ) : ThreadStep τ → Prop
  | .publish => t.loop.pendingFunctors ≠ [] → 0 < t.loop.wakeupFd
  | .caller _ .quitCall => t.loop.looping = true ∨ t.Returned
  | .caller x .quitStore => t.loop.foreign x = .sawLooping → t.loop.pc ≠ .resetQuit
  | _ => True

theorem publish_heeded {t : EventLoopThread τ} (hh : t.Heeded) (he : t.Enabled .publish)
    (ho : t.Ordered .publish) : Heeded { t with published := true } := by
  have hent : t.entered = false := by
    by_contra h
    have hp := hh.entered_published (by simpa using h)
    exact absurd hp (by simp [show t.published = false from he])
  refine ⟨hh.placed, fun _ => rfl, hh.before, fun h => (nomatch h), hh.stopped, hh.looping,
    hh.requested, fun _ _ ⟨f, hf, _⟩ => Or.inl (ho (List.ne_nil_of_mem hf))⟩

section Threads
variable [DecidableEq τ]

def step (t : EventLoopThread τ) : ThreadStep τ → Except Fault (EventLoopThread τ)
  | .publish => .ok { t with published := true }
  | .loop a => do
    let loop ← t.loop.loopStep a
    return { t with loop := loop, entered := t.entered || decide (a = .enter) }
  | .caller x a => .ok { t with loop := t.loop.foreignStep x a }

instance (t : EventLoopThread τ) : (a : ThreadStep τ) → Decidable (t.Enabled a)
  | .publish => inferInstanceAs (Decidable (_ = _))
  | .loop _ => inferInstanceAs (Decidable (_ ∧ (_ → ite _ _ _)))
  | .caller _ _ => inferInstanceAs (Decidable (_ ∧ EventLoop.Enabled _ _))

instance (t : EventLoopThread τ) : (a : ThreadStep τ) → Decidable (t.Ordered a)
  | .publish => inferInstanceAs (Decidable (_ → _))
  | .loop _ => isTrue trivial
  | .caller _ .push => isTrue trivial
  | .caller _ .wakeup => isTrue trivial
  | .caller _ .quitCall => inferInstanceAs (Decidable (_ ∨ Returned _))
  | .caller _ .quitStore => inferInstanceAs (Decidable (_ → _))
  | .caller _ .quitWakeup => isTrue trivial

theorem loopStep_position {q q' : EventLoop τ} (hp : q.Placed) {a : LoopAction}
    (he : q.Enabled (.loop a)) (ha : a ≠ .enter) (hs : q.loopStep a = .ok q') :
    q'.pc ≠ .setLooping ∧ (q'.pc = .resetQuit → q.pc = .setLooping) ∧
    (InWhile q'.pc → InWhile q.pc ∨ q.pc = .resetQuit) ∧ (q.pc = .outside → q'.pc = .outside) ∧
    (InWhile q.pc → q.quit = true → q'.quit = true) := by
  have huser : q.InUserCode → q.pc ≠ .setLooping ∧ q.pc ≠ .resetQuit := by
    intro hu
    rcases hu with hu | hu | hu | hu <;> simp [hu]
  cases a with
  | enter => exact absurd rfl ha
  | advance =>
    cases hs
    obtain ⟨h₁, h₂, h₃⟩ := advance_pc q
    refine ⟨h₁, h₂, h₃, fun h => absurd h he.1, fun hw hq => ?_⟩
    rw [advance_quit, hq]
    intro h
    simp [h, InWhile] at hw
  | pollReturn w =>
    cases hs
    have hpc : q.pc = .poll := he.1
    simp [InWhile, hpc]
  | handleRead =>
    cases hs
    have hpc : q.pc = .events true := he
    simp [InWhile, hpc, handleRead]
  | queueInLoop =>
    cases hs
    obtain ⟨h₁, h₂⟩ := huser he
    unfold queueInLoop
    by_cases hc : (q.push none).callingPendingFunctors = true
    · have hpc := functors_of_calling hp he hc
      rw [if_pos hc]
      simp [InWhile, hpc, push]
    · rw [if_neg hc]
      exact ⟨h₁, fun h => absurd h h₂, Or.inl, id, fun _ => id⟩
  | quit =>
    cases hs
    obtain ⟨h₁, h₂⟩ := huser he
    simp only [quitInLoop]
    split_ifs with hl
    · exact ⟨h₁, fun h => absurd h h₂, Or.inl, id, fun _ _ => rfl⟩
    · refine ⟨h₁, fun h => absurd h h₂, Or.inl, id, fun hw _ => absurd (hp.looping.mpr ?_) hl⟩
      constructor
      · intro h
        simp [h, InWhile] at hw
      · exact h₁
  | wakeup =>
    cases hs
    obtain ⟨h₁, h₂⟩ := huser he
    exact ⟨h₁, fun h => absurd h h₂, Or.inl, id, fun _ => id⟩

theorem loopStep_foreign {q q' : EventLoop τ} {a : LoopAction} (hs : q.loopStep a = .ok q') :
    q'.foreign = q.foreign ∧ q'.quitReturned = q.quitReturned := by
  cases a with
  | enter =>
    obtain ⟨_, _, hq⟩ := bind_ok.mp hs
    cases hq
    exact ⟨rfl, rfl⟩
  | advance =>
    cases hs
    exact ⟨advance_foreign q, advance_quitReturned q⟩
  | pollReturn w =>
    cases hs
    exact ⟨rfl, rfl⟩
  | handleRead =>
    cases hs
    exact ⟨rfl, rfl⟩
  | queueInLoop =>
    cases hs
    simp only [queueInLoop]
    split_ifs <;> exact ⟨rfl, rfl⟩
  | quit =>
    cases hs
    simp only [quitInLoop]
    split_ifs <;> exact ⟨rfl, rfl⟩
  | wakeup =>
    cases hs
    exact ⟨rfl, rfl⟩

theorem enter_heeded {t t' : EventLoopThread τ} (hh : t.Heeded) (he : t.Enabled (.loop .enter))
    (hs : t.step (.loop .enter) = .ok t') : t'.Heeded := by
  obtain ⟨hpc, hphase⟩ := he
  obtain ⟨hpub, hent⟩ := hphase hpc
  obtain ⟨q, hq, ht⟩ := bind_ok.mp hs
  cases ht
  obtain ⟨q', hq', hplaced⟩ := step_placed hh.placed (a := .loop .enter) hpc
  cases hq.symm.trans hq'
  have hcov := step_covered hh.placed (hh.covered hpub) (a := .loop .enter) hpc
    (fun h => nomatch h) hq
  obtain ⟨_, _, hq⟩ := bind_ok.mp hq
  cases hq
  refine ⟨hplaced, fun _ => hpub, fun h => by simp at h, hh.unpublished, fun x h => ?_,
    fun x h => ?_, fun h => ?_, fun _ => hcov⟩
  · exact absurd (hh.stopped x h).1 (by simp [hent])
  · exact absurd (hh.looping x h).1 (by simp [hent])
  · exact absurd (hh.requested h).1 (by simp [hent])

theorem loop_heeded {t t' : EventLoopThread τ} (hh : t.Heeded) {a : LoopAction}
    (ha : a ≠ .enter) (he : t.Enabled (.loop a)) (hs : t.step (.loop a) = .ok t') :
    t'.Heeded := by
  obtain ⟨hen, hphase⟩ := he
  obtain ⟨q, hq, ht⟩ := bind_ok.mp hs
  obtain ⟨q', hq', hplaced⟩ := step_placed hh.placed hen
  cases hq.symm.trans hq'
  obtain ⟨hset, hreset, hwhile, hout, hquit⟩ := loopStep_position hh.placed hen ha hq
  obtain ⟨hforeign, hreturned⟩ := loopStep_foreign hq
  -- outside `loop()` the loop thread acts only before the publication
  have hcallback : t.loop.pc = .outside → t.published = false := by
    intro h
    simpa [ha] using hphase h
  have hent : (t.entered || decide (a = .enter)) = t.entered := by simp [ha]
  cases ht
  refine ⟨hplaced, ?_, ?_, ?_, ?_, ?_, ?_, ?_⟩
  · rw [hent]
    exact hh.entered_published
  · rw [hent]
    exact fun h => hout (hh.before h)
  · intro hp x
    rw [hforeign]
    exact hh.unpublished hp x
  · intro x hx
    rw [hforeign] at hx
    obtain ⟨h₁, h₂⟩ := hh.stopped x hx
    exact absurd (hh.entered_published h₁) (by simp [hcallback h₂])
  · intro x hx
    rw [hforeign] at hx
    rw [hent]
    exact ⟨(hh.looping x hx).1, hset⟩
  · intro hreq
    rw [hforeign, hreturned] at hreq
    obtain ⟨h₁, h₂, h₃, h₄⟩ := hh.requested hreq
    rw [hent]
    refine ⟨h₁, hset, fun h => h₂ (hreset h), fun hw => ?_⟩
    have hold := (hwhile hw).resolve_right h₃
    exact hquit hold (h₄ hold)
  · intro hpub
    refine step_covered hh.placed (hh.covered hpub) hen (fun _ hpc => ?_) hq
    simp [hcallback hpc] at hpub

theorem caller_moved {t : EventLoopThread τ} (hh : t.Heeded) (hpub : t.published = true)
    {x : τ} {q : EventLoop τ} (hplaced : q.Placed) (hcov : q.Covered (fun _ => True))
    (hpc : q.pc = t.loop.pc) (hother : ∀ y, y ≠ x → q.foreign y = t.loop.foreign y)
    (hstopped : q.foreign x = .sawStopped → t.Returned)
    (hlooping : q.foreign x = .sawLooping → t.entered = true ∧ t.loop.pc ≠ .setLooping)
    (hrequested : q.quitReturned = true ∨ q.foreign x = .stored ∨
        (∃ y, y ≠ x ∧ t.loop.foreign y = .stored) →
      t.entered = true ∧ t.loop.pc ≠ .setLooping ∧ t.loop.pc ≠ .resetQuit ∧
        (InWhile t.loop.pc → q.quit = true)) :
    Heeded { t with loop := q } := by
  refine ⟨hplaced, hh.entered_published, fun h => hpc.trans (hh.before h),
    fun h => absurd h (by simp [hpub]), ?_, ?_, ?_, fun _ => hcov⟩
  · intro y hy
    have hret : t.Returned := by
      by_cases hyx : y = x
      · exact hstopped (hyx ▸ hy)
      · exact hh.stopped y (by rwa [← hother y hyx])
    exact ⟨hret.1, hpc.trans hret.2⟩
  · intro y hy
    rw [hpc]
    by_cases hyx : y = x
    · exact hlooping (hyx ▸ hy)
    · exact hh.looping y (by rwa [← hother y hyx])
  · intro hreq
    rw [hpc]
    apply hrequested
    rcases hreq with hr | ⟨y, hy⟩
    · exact Or.inl hr
    · by_cases hyx : y = x
      · exact Or.inr (Or.inl (hyx ▸ hy))
      · exact Or.inr (Or.inr ⟨y, hyx, by rwa [← hother y hyx]⟩)

theorem foreignStep_other (q : EventLoop τ) (x : τ) (a : ForeignAction) :
    (q.foreignStep x a).pc = q.pc ∧ ∀ y, y ≠ x → (q.foreignStep x a).foreign y = q.foreign y := by
  cases a with
  | quitStore =>
    simp only [foreignStep]
    split_ifs
    · exact ⟨rfl, fun y hy => by simp [setForeign, hy]⟩
    · exact ⟨rfl, fun y hy => by simp [setForeign, hy]⟩
  | push => exact ⟨rfl, fun y hy => by simp [foreignStep, setForeign, push, hy]⟩
  | wakeup => exact ⟨rfl, fun y hy => by simp [foreignStep, setForeign, EventLoop.wakeup, hy]⟩
  | quitCall => exact ⟨rfl, fun y hy => by simp [foreignStep, setForeign, sealTasks, hy]⟩
  | quitWakeup => exact ⟨rfl, fun y hy => by simp [foreignStep, setForeign, EventLoop.wakeup, hy]⟩

theorem caller_heeded {t : EventLoopThread τ} (hh : t.Heeded) {x : τ} {a : ForeignAction}
    (he : t.Enabled (.caller x a)) (ho : t.Ordered (.caller x a)) :
    Heeded { t with loop := t.loop.foreignStep x a } := by
  obtain ⟨hpub, hen⟩ := he
  have hmoved := caller_moved hh hpub (foreignStep_placed hh.placed x a)
    (foreignStep_covered (hh.covered hpub) hen) (foreignStep_other t.loop x a).1
    (foreignStep_other t.loop x a).2
  have hold : t.loop.quitReturned = true ∨ (∃ y, y ≠ x ∧ t.loop.foreign y = .stored) →
      t.entered = true ∧ t.loop.pc ≠ .setLooping ∧ t.loop.pc ≠ .resetQuit ∧
        (InWhile t.loop.pc → t.loop.quit = true) :=
    fun h => hh.requested (h.imp_right fun ⟨y, _, hy⟩ => ⟨y, hy⟩)
  cases a with
  | push =>
    have hx : (t.loop.foreignStep x .push).foreign x = .pushed := by simp [foreignStep, setForeign]
    refine hmoved (fun h => ?_) (fun h => ?_)
      (fun h => hold (h.imp_right fun h => h.resolve_left (by simp [hx])))
    · simp [hx] at h
    · simp [hx] at h
  | wakeup =>
    have hx : (t.loop.foreignStep x .wakeup).foreign x = .idle := by simp [foreignStep, setForeign]
    refine hmoved (fun h => ?_) (fun h => ?_)
      (fun h => hold (h.imp_right fun h => h.resolve_left (by simp [hx])))
    · simp [hx] at h
    · simp [hx] at h
  | quitCall =>
    have hx : (t.loop.foreignStep x .quitCall).foreign x =
        if t.loop.looping then .sawLooping else .sawStopped := by simp [foreignStep, setForeign]
    by_cases hl : t.loop.looping = true
    · rw [if_pos hl] at hx
      obtain ⟨hout, hset⟩ := hh.placed.looping.mp hl
      have hent : t.entered = true := by
        by_contra h
        exact hout (hh.before (by simpa using h))
      refine hmoved (fun h => ?_) (fun _ => ⟨hent, hset⟩)
        (fun h => hold (h.imp_right fun h => h.resolve_left (by simp [hx])))
      simp [hx] at h
    · rw [if_neg hl] at hx
      refine hmoved (fun _ => ho.resolve_left hl) (fun h => ?_)
        (fun h => hold (h.imp_right fun h => h.resolve_left (by simp [hx])))
      simp [hx] at h
  | quitStore =>
    by_cases hs : t.loop.foreign x = .sawLooping
    · have hx : t.loop.foreignStep x .quitStore =
          { t.loop with quit := true }.setForeign x .stored := by simp [foreignStep, hs]
      rw [hx] at hmoved ⊢
      obtain ⟨h₁, h₂⟩ := hh.looping x hs
      refine hmoved (fun h => ?_) (fun h => ?_) (fun _ => ⟨h₁, h₂, ho hs, fun _ => rfl⟩)
      · simp [setForeign] at h
      · simp [setForeign] at h
    · have hx : t.loop.foreignStep x .quitStore =
          { t.loop with quit := false, quitReturned := true }.setForeign x .idle := by
        simp [foreignStep, hs]
      rw [hx] at hmoved ⊢
      -- the thread found the loop stopped, so `loop()` has returned
      obtain ⟨h₁, h₂⟩ := hh.stopped x (hen.resolve_left hs)
      refine hmoved (fun h => ?_) (fun h => ?_) (fun _ => ?_)
      · simp [setForeign] at h
      · simp [setForeign] at h
      · simp [h₁, h₂, InWhile]
  | quitWakeup =>
    have hx : (t.loop.foreignStep x .quitWakeup).foreign x = .idle := by
      simp [foreignStep, setForeign]
    refine hmoved (fun h => ?_) (fun h => ?_) (fun _ => hh.requested (Or.inr ⟨x, hen⟩))
    · simp [hx] at h
    · simp [hx] at h

theorem step_heeded {t : EventLoopThread τ} (hh : t.Heeded) {a : ThreadStep τ}
    (he : t.Enabled a) (ho : t.Ordered a) : ∃ t', t.step a = .ok t' ∧ t'.Heeded := by
  cases a with
  | publish => exact ⟨_, rfl, publish_heeded hh he ho⟩
  | caller x a => exact ⟨_, rfl, caller_heeded hh he ho⟩
  | loop a =>
    obtain ⟨q, hq, -⟩ := step_placed hh.placed he.1
    have hs : t.step (.loop a) =
        .ok { t with loop := q, entered := t.entered || decide (a = .enter) } := by
      change (t.loop.loopStep a >>= _) = _
      rw [show t.loop.loopStep a = .ok q from hq]
      rfl
    refine ⟨_, hs, ?_⟩
    by_cases ha : a = .enter
    · subst ha
      exact enter_heeded hh he hs
    · exact loop_heeded hh ha he hs

/-- In every run that meets the conditions: once a caller's `quit()` has
returned the loop thread is not in its while loop with `quit_` unset, and a
functor of the init callback is not pending at a `poll` that nobody is about
to wake. -/
theorem requests_kept (as : List (ThreadStep τ)) (t : EventLoopThread τ)
    (ha : Admitted step (fun t a => t.Enabled a ∧ t.Ordered a) construct as)
    (hr : run step construct as = .ok t) :
    (t.loop.quitReturned = true → InWhile t.loop.pc → t.loop.quit = true) ∧
    (t.loop.pc = .poll → t.loop.wakeupFd = 0 → (∀ x, t.loop.foreign x ≠ .pushed) →
      ∀ f ∈ t.loop.pendingFunctors, ¬FromCallback f) := by
  have hy : Yields (run step construct as) (fun t : EventLoopThread τ => t.Heeded)
      (fun _ => True) := by
    refine run_yields (fun t a => t.Enabled a ∧ t.Ordered a) (fun s a hs hc => ?_) as construct
      construct_heeded ha
    obtain ⟨s', heq, hs'⟩ := step_heeded hs hc.1 hc.2
    rw [heq]
    exact (yields_ok _ _ _).mpr hs'
  have hh := hy.ok hr
  constructor
  · exact fun hq hw => (hh.requested (Or.inl hq)).2.2.2 hw
  · intro hpc hzero hidle f hf _
    have hent : t.entered = true := by
      by_contra h
      have hout := hh.before (by simpa using h)
      simp [hpc] at hout
    rcases hh.covered (hh.entered_published hent) (by rw [hpc]; trivial) ⟨f, hf, trivial⟩ with
      h | ⟨x, hx⟩
    · omega
    · exact hidle x hx

theorem requests_kept_announced :
    ∃ t : EventLoopThread ℕ, run step construct [.loop .queueInLoop, .loop .wakeup, .publish,
        .loop .enter, .loop .advance, .loop .advance, .loop .advance, .caller 3 .quitCall,
        .caller 3 .quitStore, .caller 3 .quitWakeup] = .ok t ∧
      t.loop.pc = .poll ∧ t.loop.quitReturned = true ∧ t.loop.quit = true :=
  ⟨_, rfl, rfl, rfl, (requests_kept [.loop .queueInLoop, .loop .wakeup, .publish, .loop .enter,
    .loop .advance, .loop .advance, .loop .advance, .caller 3 .quitCall, .caller 3 .quitStore,
    .caller 3 .quitWakeup] _ (by decide) rfl).1 rfl trivial⟩

/-- A `quit()` right after the publication is lost, and so is the wake-up of
a functor that the callback has queued. -/
theorem requests_lost :
    (¬∀ (as : List (ThreadStep ℕ)) (t : EventLoopThread ℕ), Admitted step Enabled construct as →
      run step construct as = .ok t → t.loop.quitReturned = true → InWhile t.loop.pc →
      t.loop.quit = true) ∧
    ¬∀ (as : List (ThreadStep ℕ)) (t : EventLoopThread ℕ), Admitted step Enabled construct as →
      run step construct as = .ok t → t.loop.pc = .poll → t.loop.wakeupFd = 0 →
      (∀ x, t.loop.foreign x ≠ .pushed) → ∀ f ∈ t.loop.pendingFunctors, ¬FromCallback f := by
  constructor
  · intro h
    have hq := h [.publish, .caller 3 .quitCall, .caller 3 .quitStore, .loop .enter,
      .loop .advance, .loop .advance, .loop .advance] _ (by decide) rfl rfl trivial
    exact absurd hq (by decide)
  · intro h
    have hf := h [.loop .queueInLoop, .publish, .loop .enter, .loop .advance, .loop .advance,
      .loop .advance] _ (by decide) rfl rfl rfl (fun x => nofun) _ List.mem_cons_self
    exact hf ⟨rfl, rfl⟩

end Threads

end EventLoopThread

end Lux.Polaris

import Mathlib.Logic.Basic
import Mathlib.Algebra.Ring.Nat
import Mathlib.Tactic.Common

/-!
# Outcomes and runs of fallible steps

A step either answers a value or stops with an error. `Yields r Q E` is the
postcondition of such an outcome: `Q` for the value, `E` for the error. Runs
are finite words of actions; a condition on steps is a predicate on the state
before the step and on the action. Nothing here depends on the program.
-/

set_option autoImplicit false

namespace Outcome

universe u v w

section Post
variable {ε : Type v} {α β : Type u}

def Yields (r : Except ε α) (Q : α → Prop) (E : ε → Prop) : Prop :=
  match r with
  | .ok a => Q a
  | .error e => E e

@[simp] theorem yields_ok (a : α) (Q : α → Prop) (E : ε → Prop) :
    Yields (.ok a) Q E ↔ Q a := Iff.rfl

@[simp] theorem yields_error (e : ε) (Q : α → Prop) (E : ε → Prop) :
    Yields (.error e : Except ε α) Q E ↔ E e := Iff.rfl

@[simp] theorem yields_pure (a : α) (Q : α → Prop) (E : ε → Prop) :
    Yields (pure a) Q E ↔ Q a := Iff.rfl

@[simp] theorem yields_bind (r : Except ε α) (f : α → Except ε β)
    (Q : β → Prop) (E : ε → Prop) :
    Yields (r >>= f) Q E ↔ Yields r (fun a => Yields (f a) Q E) E := by
  cases r <;> rfl

theorem Yields.mono {r : Except ε α} {Q Q' : α → Prop} {E E' : ε → Prop}
    (h : Yields r Q E) (hq : ∀ a, Q a → Q' a) (he : ∀ e, E e → E' e) : Yields r Q' E' := by
  cases r with
  | ok a => exact hq a h
  | error e => exact he e h

/-- The consequence rule for the value alone, the form callers chain with. -/
theorem Yields.imp {r : Except ε α} {Q Q' : α → Prop} {E : ε → Prop}
    (h : Yields r Q E) (hq : ∀ a, Q a → Q' a) : Yields r Q' E :=
  h.mono hq (fun _ he => he)

theorem Yields.ok {r : Except ε α} {Q : α → Prop} {E : ε → Prop} {a : α}
    (h : Yields r Q E) (hr : r = .ok a) : Q a := by
  subst hr
  exact h

theorem Yields.error {r : Except ε α} {Q : α → Prop} {E : ε → Prop} {e : ε}
    (h : Yields r Q E) (hr : r = .error e) : E e := by
  subst hr
  exact h

theorem yields_true (r : Except ε α) : Yields r (fun _ => True) (fun _ => True) := by
  cases r <;> trivial

theorem yields_mapError {ε' : Type v} (r : Except ε α) {f : ε → ε'} {E : ε' → Prop}
    (h : ∀ e, E (f e)) : Yields (r.mapError f) (fun a => r = .ok a) E := by
  cases r with
  | ok a => exact rfl
  | error e => exact h e

-- from here on outcomes are only reasoned about through the rules above
attribute [irreducible] Yields

theorem ok_bind (a : α) (f : α → Except ε β) : (.ok a >>= f) = f a := rfl

theorem pure_eq_ok (a : α) : (pure a : Except ε α) = .ok a := rfl

theorem bind_ok {r : Except ε α} {f : α → Except ε β} {b : β} :
    r >>= f = .ok b ↔ ∃ a, r = .ok a ∧ f a = .ok b := by
  cases r with
  | ok a =>
    refine ⟨fun h => ⟨a, rfl, h⟩, ?_⟩
    rintro ⟨_, ha, h⟩
    cases ha
    exact h
  | error e =>
    constructor
    · intro h
      cases h
    · rintro ⟨_, ha, _⟩
      cases ha

theorem map_ok {r : Except ε α} {f : α → β} {b : β} :
    f <$> r = .ok b ↔ ∃ a, r = .ok a ∧ f a = b := by
  cases r with
  | ok a =>
    refine ⟨fun h => ⟨a, rfl, Except.ok.inj h⟩, ?_⟩
    rintro ⟨_, ha, h⟩
    cases ha
    exact congrArg Except.ok h
  | error e =>
    constructor
    · intro h
      cases h
    · rintro ⟨_, ha, _⟩
      cases ha

end Post

section State
variable {ε σ α β : Type u}

/-- The postcondition of a program whose state survives an error. -/
def Ends (m : EStateM ε σ α) (s : σ) (Q : α → σ → Prop) (E : ε → σ → Prop) : Prop :=
  match m s with
  | .ok a s' => Q a s'
  | .error e s' => E e s'

def attempt (r : Except ε α) : EStateM ε σ α := fun s =>
  match r with
  | .ok a => .ok a s
  | .error e => .error e s

variable {s : σ} {Q : α → σ → Prop} {E : ε → σ → Prop}

@[simp] theorem ends_bind (m : EStateM ε σ β) (f : β → EStateM ε σ α) :
    Ends (m >>= f) s Q E ↔ Ends m s (fun b s' => Ends (f b) s' Q E) E := by
  simp only [Ends, bind, EStateM.bind]
  cases m s <;> rfl

@[simp] theorem ends_pure (a : α) : Ends (pure a : EStateM ε σ α) s Q E ↔ Q a s := Iff.rfl

@[simp] theorem ends_get {Q : σ → σ → Prop} : Ends (get : EStateM ε σ σ) s Q E ↔ Q s s := Iff.rfl

@[simp] theorem ends_set {Q : PUnit → σ → Prop} (t : σ) :
    Ends (set t : EStateM ε σ PUnit) s Q E ↔ Q ⟨⟩ t := Iff.rfl

@[simp] theorem ends_attempt (r : Except ε α) :
    Ends (attempt r : EStateM ε σ α) s Q E ↔ Yields r (fun a => Q a s) (fun e => E e s) := by
  cases r with
  | ok a =>
    rw [yields_ok]
    rfl
  | error e =>
    rw [yields_error]
    rfl

theorem Ends.mono {m : EStateM ε σ α} {Q' : α → σ → Prop} {E' : ε → σ → Prop}
    (h : Ends m s Q E) (hq : ∀ a s', Q a s' → Q' a s') (he : ∀ e s', E e s' → E' e s') :
    Ends m s Q' E' := by
  unfold Ends at h ⊢
  split at h
  · exact hq _ _ h
  · exact he _ _ h

-- as for `Yields`: no elaboration runs the program
attribute [irreducible] Ends

end State

section Run
variable {ε : Type v} {σ : Type u} {α : Type w} (step : σ → α → Except ε σ)

def run : σ → List α → Except ε σ
  | s, [] => .ok s
  | s, a::as => step s a >>= fun s' => run s' as

/-- Every step of the word meets `C` in the state it is taken from. -/
def Admitted (C : σ → α → Prop) : σ → List α → Prop
  | _, [] => True
  | s, a::as => C s a ∧ ∀ s', step s a = .ok s' → Admitted C s' as

variable {step}

instance decidableAdmitted (C : σ → α → Prop) [∀ s a, Decidable (C s a)] :
    (s : σ) → (as : List α) → Decidable (Admitted step C s as)
  | _, [] => isTrue trivial
  | s, a::as =>
    match h : step s a with
    | .ok s' =>
      have := decidableAdmitted C s' as
      decidable_of_iff (C s a ∧ Admitted step C s' as)
        (and_congr_right fun _ => ⟨fun hc _ ht => Except.ok.inj (h.symm.trans ht) ▸ hc,
          fun hc => hc s' h⟩)
    | .error _ => decidable_of_iff (C s a)
        ⟨fun hc => ⟨hc, fun _ ht => nomatch h.symm.trans ht⟩, And.left⟩

theorem run_cons_ok {s t : σ} {a : α} {as : List α} :
    run step s (a::as) = .ok t ↔ ∃ s', step s a = .ok s' ∧ run step s' as = .ok t :=
  bind_ok

theorem run_append (s : σ) (as bs : List α) :
    run step s (as++bs) = run step s as >>= fun s' => run step s' bs := by
  induction as generalizing s with
  | nil => rfl
  | cons a as ih =>
    cases h : step s a with
    | ok s' => simpa [run, h, bind, Except.bind] using ih s'
    | error e => simp [run, h, bind, Except.bind]

theorem run_snoc_ok {s t : σ} {as : List α} {a : α} :
    run step s (as++[a]) = .ok t ↔ ∃ s', run step s as = .ok s' ∧ step s' a = .ok t := by
  rw [run_append, bind_ok]
  constructor
  · rintro ⟨s', h, ht⟩
    obtain ⟨t', ht', he⟩ := run_cons_ok.mp ht
    cases he
    exact ⟨s', h, ht'⟩
  · rintro ⟨s', h, ht⟩
    exact ⟨s', h, run_cons_ok.mpr ⟨t, ht, rfl⟩⟩

/-- The invariant rule: what every admitted step keeps, every admitted run
keeps, and an error met on the way satisfies `E`. -/
theorem run_yields (C : σ → α → Prop) {I : σ → Prop} {E : ε → Prop}
    (hstep : ∀ s a, I s → C s a → Yields (step s a) I E)
    (as : List α) (s : σ) (hi : I s) (hc : Admitted step C s as) :
    Yields (run step s as) I E := by
  induction as generalizing s with
  | nil => exact (yields_ok _ _ _).mpr hi
  | cons a as ih =>
    have hs := hstep s a hi hc.1
    rw [run, yields_bind]
    cases h : step s a with
    | ok s' => exact (yields_ok _ _ _).mpr (ih s' (hs.ok h) (hc.2 s' h))
    | error e => exact (yields_error _ _ _).mpr (hs.error h)

/-- The invariant rule for steps that cannot fail. -/
theorem run_succeeds (C : σ → α → Prop) {I : σ → Prop}
    (hstep : ∀ s a, I s → C s a → ∃ s', step s a = .ok s' ∧ I s')
    (as : List α) (s : σ) (hi : I s) (hc : Admitted step C s as) :
    ∃ t, run step s as = .ok t ∧ I t := by
  have hy : Yields (run step s as) I (fun _ => False) := by
    refine run_yields C (fun s a hi hc => ?_) as s hi hc
    obtain ⟨s', hs, hi'⟩ := hstep s a hi hc
    rw [hs]
    exact (yields_ok _ _ _).mpr hi'
  cases hr : run step s as with
  | ok t => exact ⟨t, rfl, hy.ok hr⟩
  | error e => exact (hy.error hr).elim

/-- The converse: where leaving `D` is answered with an error outside `E`, a
run that stops with no such error has met `D` at every step. -/
theorem admitted_of_run (C D : σ → α → Prop) {I : σ → Prop} {E : ε → Prop}
    (hstep : ∀ s a, I s → C s a → D s a → Yields (step s a) I E)
    (hleave : ∀ s a, I s → C s a → ¬D s a → ∃ e, step s a = .error e ∧ ¬E e)
    (as : List α) (s : σ) (hi : I s) (hc : Admitted step C s as)
    (hr : ∀ e, run step s as = .error e → E e) : Admitted step D s as := by
  induction as generalizing s with
  | nil => trivial
  | cons a as ih =>
    have hd : D s a := by
      by_contra h
      obtain ⟨e, hs, he⟩ := hleave s a hi hc.1 h
      exact he (hr e (by rw [run, hs]; rfl))
    refine ⟨hd, fun s' hs => ?_⟩
    refine ih s' ((hstep s a hi hc.1 hd).ok hs) (hc.2 s' hs) (fun e he => ?_)
    exact hr e (by rw [run, hs]; exact he)

/-- Every state of the run, the first one included, satisfies `P`, and an
error met on the way satisfies `E`. -/
def Throughout (step : σ → α → Except ε σ) (P : σ → Prop) (E : ε → Prop) (s : σ)
    (as : List α) : Prop :=
  ∀ bs, bs <+: as → Yields (run step s bs) P E

theorem throughout_nil {P : σ → Prop} {E : ε → Prop} {s : σ} :
    Throughout step P E s [] ↔ P s := by
  constructor
  · intro h
    exact (yields_ok _ _ _).mp (h [] List.nil_prefix)
  · intro h bs hb
    rw [List.prefix_nil.mp hb]
    exact (yields_ok _ _ _).mpr h

theorem throughout_cons {P : σ → Prop} {E : ε → Prop} {s : σ} {a : α} {as : List α} :
    Throughout step P E s (a::as) ↔
      P s ∧ Yields (step s a) (fun s' => Throughout step P E s' as) E := by
  constructor
  · intro h
    refine ⟨(yields_ok _ _ _).mp (h [] List.nil_prefix), ?_⟩
    cases hs : step s a with
    | ok s' =>
      refine (yields_ok _ _ _).mpr (fun bs hb => ?_)
      have hr := h (a::bs) (List.cons_prefix_cons.mpr ⟨rfl, hb⟩)
      rwa [run, hs] at hr
    | error e =>
      have hr := h [a] (List.cons_prefix_cons.mpr ⟨rfl, List.nil_prefix⟩)
      rw [run, hs] at hr
      exact (yields_error _ _ _).mpr (hr.error rfl)
  · rintro ⟨hp, hs⟩ bs hb
    cases bs with
    | nil => exact (yields_ok _ _ _).mpr hp
    | cons b bs =>
      obtain ⟨rfl, hbs⟩ := List.cons_prefix_cons.mp hb
      rw [run, yields_bind]
      exact hs.imp (fun s' h => h bs hbs)

/-- An exact condition: if steps within `D` keep the invariant and each step
out of it breaks `P` at once or stops with an error outside `E`, then `P` holds
throughout a run exactly if the run meets `D`. -/
theorem throughout_iff (C D : σ → α → Prop) {I P : σ → Prop} {E : ε → Prop}
    (hI : ∀ s, I s → P s)
    (hstep : ∀ s a, I s → C s a → D s a → Yields (step s a) I E)
    (hleave : ∀ s a, I s → C s a → ¬D s a → ¬Yields (step s a) P E)
    (as : List α) (s : σ) (hi : I s) (hc : Admitted step C s as) :
    Throughout step P E s as ↔ Admitted step D s as := by
  induction as generalizing s with
  | nil => exact iff_of_true (throughout_nil.mpr (hI s hi)) trivial
  | cons a as ih =>
    rw [throughout_cons]
    constructor
    · rintro ⟨-, h⟩
      have hd : D s a := by
        by_contra hd
        refine hleave s a hi hc.1 hd (h.imp fun s' h' => ?_)
        exact (yields_ok _ _ _).mp (h' [] List.nil_prefix)
      refine ⟨hd, fun s' hs => ?_⟩
      exact (ih s' ((hstep s a hi hc.1 hd).ok hs) (hc.2 s' hs)).mp (h.ok hs)
    · rintro ⟨hd, h⟩
      have hy := hstep s a hi hc.1 hd
      refine ⟨hI s hi, ?_⟩
      cases hs : step s a with
      | ok s' => exact (yields_ok _ _ _).mpr ((ih s' (hy.ok hs) (hc.2 s' hs)).mpr (h s' hs))
      | error e => exact (yields_error _ _ _).mpr (hy.error hs)

/-- Forward simulation: a step that follows the specification `spec` under a
relation `R` makes whole runs follow the folded specification. -/
theorem run_refines {τ : Type*} (C : σ → α → Prop) {R : σ → τ → Prop} {spec : τ → α → τ}
    {E : ε → Prop}
    (hstep : ∀ s v a, R s v → C s a → Yields (step s a) (fun s' => R s' (spec v a)) E)
    (as : List α) (s : σ) (v : τ) (hr : R s v) (hc : Admitted step C s as) :
    Yields (run step s as) (fun t => R t (as.foldl spec v)) E := by
  induction as generalizing s v with
  | nil => exact (yields_ok _ _ _).mpr hr
  | cons a as ih =>
    have hs := hstep s v a hr hc.1
    rw [run, yields_bind]
    cases h : step s a with
    | ok s' => exact (yields_ok _ _ _).mpr (ih s' _ (hs.ok h) (hc.2 s' h))
    | error e => exact (yields_error _ _ _).mpr (hs.error h)

/-- What the steps of a run count for, up to an error. -/
def total (step : σ → α → Except ε σ) (count : σ → α → ℕ) : σ → List α → ℕ
  | _, [] => 0
  | s, a::as =>
    count s a +
      match step s a with
      | .ok s' => total step count s' as
      | .error _ => 0

/-- The measure rule: where every step into `G` comes from `G` and pays for
what it counts, a run into `G` counts no more than the measure it started with. -/
theorem total_le (C : σ → α → Prop) {I G : σ → Prop} {μ : σ → ℕ} {count : σ → α → ℕ}
    (hstep : ∀ s a s', I s → C s a → step s a = .ok s' →
      I s' ∧ (G s' → G s ∧ μ s' + count s a ≤ μ s))
    (as : List α) (s t : σ) (hi : I s) (hc : Admitted step C s as) (hr : run step s as = .ok t)
    (hg : G t) : G s ∧ μ t + total step count s as ≤ μ s := by
  induction as generalizing s with
  | nil =>
    cases hr
    exact ⟨hg, Nat.le_refl _⟩
  | cons a as ih =>
    obtain ⟨s', hs, ht⟩ := run_cons_ok.mp hr
    obtain ⟨hi', hback⟩ := hstep s a s' hi hc.1 hs
    obtain ⟨hg', hrest⟩ := ih s' hi' (hc.2 s' hs) ht
    obtain ⟨hgs, hpaid⟩ := hback hg'
    refine ⟨hgs, ?_⟩
    simp only [total, hs]
    omega

/-- A size that is doubled wherever a step counts, and below `N` there: the
run counts logarithmically often. -/
theorem total_doubling (C : σ → α → Prop) {I : σ → Prop} {size : σ → ℕ} {count : σ → α → ℕ}
    {N : ℕ} (hstep : ∀ s a s', I s → C s a → step s a = .ok s' →
      I s' ∧ size s ≤ size s' ∧
        (count s a = 0 ∨ count s a = 1 ∧ size s < N ∧ 2*size s ≤ size s'))
    (as : List α) (s t : σ) (hi : I s) (hc : Admitted step C s as) (hr : run step s as = .ok t) :
    total step count s as = 0 ∨ 2^(total step count s as)*size s < 2*N := by
  induction as generalizing s with
  | nil => exact Or.inl rfl
  | cons a as ih =>
    obtain ⟨s', hs, ht⟩ := run_cons_ok.mp hr
    obtain ⟨hi', hmono, hcount⟩ := hstep s a s' hi hc.1 hs
    have hrest := ih s' hi' (hc.2 s' hs) ht
    simp only [total, hs]
    rcases hcount with hzero | ⟨hone, hlt, hdouble⟩
    · rw [hzero, Nat.zero_add]
      refine hrest.imp_right fun h => ?_
      exact Nat.lt_of_le_of_lt (Nat.mul_le_mul_left _ hmono) h
    · rw [hone]
      refine Or.inr ?_
      rcases hrest with h | h
      · rw [h]
        omega
      · calc 2^(1+total step count s' as)*size s = 2^(total step count s' as)*(2*size s) := by
              rw [Nat.pow_add, Nat.pow_one]
              ac_rfl
          _ ≤ 2^(total step count s' as)*size s' := Nat.mul_le_mul_left _ hdouble
          _ < 2*N := h

/-- What the steps of a run put out, up to an error. -/
def collect {β : Type*} (step : σ → α → Except ε σ) (out : σ → α → Option β) :
    σ → List α → List β
  | _, [] => []
  | s, a::as =>
    (out s a).toList ++
      match step s a with
      | .ok s' => collect step out s' as
      | .error _ => []

section History
variable {β : Type*} {o : σ → α → Option β}

theorem collect_cons {s s' : σ} {a : α} (hs : step s a = .ok s') (as : List α) :
    collect step o s (a::as) = (o s a).toList ++ collect step o s' as := by
  rw [collect, hs]

theorem collect_append {s t : σ} {as : List α} (hr : run step s as = .ok t) (bs : List α) :
    collect step o s (as++bs) = collect step o s as ++ collect step o t bs := by
  induction as generalizing s with
  | nil =>
    cases hr
    rfl
  | cons a as ih =>
    obtain ⟨s', hs, ht⟩ := run_cons_ok.mp hr
    rw [List.cons_append, collect_cons hs, collect_cons hs, ih ht, List.append_assoc]

/-- The history rule: an invariant of the state and of what has been put out. -/
theorem run_history (C : σ → α → Prop) {I : σ → List β → Prop}
    (hstep : ∀ s h a s', I s h → C s a → step s a = .ok s' → I s' (h ++ (o s a).toList))
    (as : List α) (s t : σ) (h : List β) (hi : I s h) (hc : Admitted step C s as)
    (hr : run step s as = .ok t) : I t (h ++ collect step o s as) := by
  induction as generalizing s h with
  | nil =>
    cases hr
    rwa [collect, List.append_nil]
  | cons a as ih =>
    obtain ⟨s', hs, ht⟩ := run_cons_ok.mp hr
    have hrest := ih s' _ (hstep s h a s' hi hc.1 hs) (hc.2 s' hs) ht
    rwa [List.append_assoc, ← collect_cons hs] at hrest

end History

theorem Admitted.mono {C D : σ → α → Prop} {as : List α} {s : σ}
    (h : Admitted step C s as) (hcd : ∀ s, ∀ a ∈ as, C s a → D s a) : Admitted step D s as := by
  induction as generalizing s with
  | nil => trivial
  | cons a as ih =>
    refine ⟨hcd s a (by simp) h.1, fun s' hs => ?_⟩
    exact ih (h.2 s' hs) (fun s b hb => hcd s b (by simp [hb]))

theorem admitted_true (as : List α) (s : σ) : Admitted step (fun _ _ => True) s as := by
  induction as generalizing s with
  | nil => trivial
  | cons a as ih => exact ⟨trivial, fun s' _ => ih s'⟩

theorem admitted_and {C D : σ → α → Prop} {as : List α} {s : σ} (hc : Admitted step C s as)
    (hd : Admitted step D s as) : Admitted step (fun s a => C s a ∧ D s a) s as := by
  induction as generalizing s with
  | nil => trivial
  | cons a as ih => exact ⟨⟨hc.1, hd.1⟩, fun s' hs => ih (hc.2 s' hs) (hd.2 s' hs)⟩

theorem admitted_append {C : σ → α → Prop} (as bs : List α) (s : σ) :
    Admitted step C s (as++bs) ↔
      Admitted step C s as ∧ ∀ s', run step s as = .ok s' → Admitted step C s' bs := by
  induction as generalizing s with
  | nil =>
    exact ⟨fun h => ⟨trivial, fun s' hs => by cases hs; exact h⟩, fun h => h.2 s rfl⟩
  | cons a as ih =>
    constructor
    · rintro ⟨hc, h⟩
      refine ⟨⟨hc, fun s' hs => ((ih s').mp (h s' hs)).1⟩, fun t ht => ?_⟩
      obtain ⟨s', hs, hr⟩ := run_cons_ok.mp ht
      exact ((ih s').mp (h s' hs)).2 t hr
    · rintro ⟨⟨hc, h⟩, hb⟩
      exact ⟨hc, fun s' hs => (ih s').mpr
        ⟨h s' hs, fun t ht => hb t (run_cons_ok.mpr ⟨s', hs, ht⟩)⟩⟩

end Run

end Outcome

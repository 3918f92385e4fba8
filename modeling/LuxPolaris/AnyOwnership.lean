import LuxPolaris.LuxAny
import LuxPolaris.Ownership

/-!
# Who owns an object in an any

A move construction and a swap only exchange owners, the copies and `clear`
change what one storage holds. So every variable has a value of its own, no
object is destroyed twice, and none is left behind.
-/

set_option autoImplicit false

namespace Lux.Any
open Outcome Ownership

inductive Owned (α : Type) where
  | heap (a : ℕ)
  | inPlace (v : α)

def Owned.address {α : Type} : Owned α → Option ℕ
  | .heap a => some a
  | .inPlace _ => none

section Owners
variable {τ α : Type} [DecidableEq τ] (requiresAllocation : τ → Bool)

def ownOf (t? : Option τ) (x : Storage τ α) : Option (τ × Owned α) :=
  match t?, x with
  | some t, .dynamic (some a) => if requiresAllocation t then some (t, .heap a) else none
  | some t, .stack t' v =>
    if requiresAllocation t = false ∧ t' = t then some (t, .inPlace v) else none
  | _, _ => none

namespace Memory

def own (m : Memory τ α) (s : Place) : Option (τ × Owned α) :=
  ownOf requiresAllocation (m.vtable s) (m.storage s)

def address (m : Memory τ α) (s : Place) : Option ℕ :=
  (m.own requiresAllocation s).bind (fun x => x.2.address)

def content (m : Memory τ α) (s : Place) : Option (τ × α) :=
  (m.own requiresAllocation s).bind fun x =>
    match x.2 with
    | .heap a => m.heap a
    | .inPlace v => some (x.1, v)

def view (m : Memory τ α) : Values τ α := fun i =>
  if m.constructed i then some (m.content requiresAllocation (.variable i)) else none

/-- A table without an object, or an object without a table, does not occur. -/
structure Sound (m : Memory τ α) : Prop where
  full : ∀ s t, m.vtable s = some t → ∃ o, m.own requiresAllocation s = some (t, o)
  idle : ∀ s, m.vtable s = none → ∀ t v, m.storage s ≠ .stack t v

structure Inv (m : Memory τ α) : Prop where
  sound : m.Sound requiresAllocation
  typed : ∀ s t a, m.own requiresAllocation s = some (t, .heap a) → ∃ v, m.heap a = some (t, v)
  ledger : Ledger (m.address requiresAllocation) m.heap

/-- Between two calls the locals are gone, and a variable not constructed is
raw memory. -/
structure Idle (m : Memory τ α) : Prop where
  temporary : m.vtable .temporary = none
  tmp : m.vtable .tmp = none
  tmpStorage : m.vtable .tmpStorage = none
  raw : ∀ i, m.constructed i = false → m.vtable (.variable i) = none

/-- A step that does nothing but let owners change places. -/
structure Permutes (m m' : Memory τ α) (e : Equiv.Perm Place) : Prop where
  heap : m'.heap = m.heap
  constructed : m'.constructed = m.constructed
  vtable : m'.vtable = m.vtable ∘ e
  own : m'.own requiresAllocation = m.own requiresAllocation ∘ e
  sound : m'.Sound requiresAllocation

structure Sets (m m' : Memory τ α) (s : Place) (x : Option (τ × α)) : Prop where
  inv : m'.Inv requiresAllocation
  constructed : m'.constructed = m.constructed
  vtable : m'.vtable = Function.update m.vtable s (x.map Prod.fst)
  content : m'.content requiresAllocation =
    Function.update (m.content requiresAllocation) s x

end Memory

variable {requiresAllocation} {m m' m'' : Memory τ α} {s s' : Place} {t : τ}

theorem ownOf_some {x : Storage τ α} {t' : τ} {o : Owned α}
    (h : ownOf requiresAllocation (some t) x = some (t', o)) : t' = t ∧
      (requiresAllocation t = true ∧ (∃ a, x = .dynamic (some a) ∧ o = .heap a) ∨
       requiresAllocation t = false ∧ ∃ v, x = .stack t v ∧ o = .inPlace v) := by
  unfold ownOf at h
  split at h
  · rename_i t₁ a heq
    cases heq
    split_ifs at h with hr
    cases h
    exact ⟨rfl, Or.inl ⟨hr, a, rfl, rfl⟩⟩
  · rename_i t₁ t₂ v heq
    cases heq
    split_ifs at h with hr
    cases h
    exact ⟨rfl, Or.inr ⟨hr.1, v, by rw [hr.2], rfl⟩⟩
  · cases h

@[simp] theorem ownOf_none (x : Storage τ α) : ownOf requiresAllocation none x = none := by
  cases x <;> rfl

namespace Memory

theorem own_none (h : m.vtable s = none) : m.own requiresAllocation s = none := by
  rw [own, h, ownOf_none]

theorem content_none (h : m.vtable s = none) : m.content requiresAllocation s = none := by
  rw [content, own_none h]
  rfl

theorem vtable_of_own {o : Owned α} (h : m.own requiresAllocation s = some (t, o)) :
    m.vtable s = some t := by
  cases hv : m.vtable s with
  | none => cases (own_none hv).symm.trans h
  | some t' =>
    rw [own, hv] at h
    rw [(ownOf_some h).1]

theorem Sound.storage (hs : m.Sound requiresAllocation) (hv : m.vtable s = some t) :
    requiresAllocation t = true ∧ (∃ a, m.storage s = .dynamic (some a) ∧
        m.own requiresAllocation s = some (t, .heap a)) ∨
    requiresAllocation t = false ∧ ∃ v, m.storage s = .stack t v ∧
        m.own requiresAllocation s = some (t, .inPlace v) := by
  obtain ⟨o, ho⟩ := hs.full s t hv
  have h := ho
  rw [own, hv] at h
  rcases (ownOf_some h).2 with ⟨hr, a, hx, rfl⟩ | ⟨hr, v, hx, rfl⟩
  · exact Or.inl ⟨hr, a, hx, ho⟩
  · exact Or.inr ⟨hr, v, hx, ho⟩

section Permutations
variable {e e' : Equiv.Perm Place}

theorem Permutes.trans (h : Permutes requiresAllocation m m' e)
    (h' : Permutes requiresAllocation m' m'' e') :
    Permutes requiresAllocation m m'' (Equiv.trans e' e) where
  heap := h'.heap.trans h.heap
  constructed := h'.constructed.trans h.constructed
  vtable := by rw [h'.vtable, h.vtable]; rfl
  own := by rw [h'.own, h.own]; rfl
  sound := h'.sound

theorem permutes_of (hs : m.Sound requiresAllocation) (hheap : m'.heap = m.heap)
    (hc : m'.constructed = m.constructed) (hv : ∀ s, m'.vtable s = m.vtable (e s))
    (ho : ∀ s, m'.own requiresAllocation s = m.own requiresAllocation (e s))
    (hidle : ∀ s, m'.vtable s = none → ∀ t v, m'.storage s ≠ .stack t v) :
    Permutes requiresAllocation m m' e where
  heap := hheap
  constructed := hc
  vtable := funext hv
  own := funext ho
  sound := ⟨fun s t h => by
    rw [hv] at h
    rw [ho]
    exact hs.full (e s) t h, hidle⟩

theorem Permutes.inv (h : Permutes requiresAllocation m m' e) (hi : m.Inv requiresAllocation) :
    m'.Inv requiresAllocation where
  sound := h.sound
  typed := fun s t a ho => by
    rw [h.own] at ho
    rw [h.heap]
    exact hi.typed (e s) t a ho
  ledger := by
    have haddress : m'.address requiresAllocation = m.address requiresAllocation ∘ e := by
      funext s
      rw [address, h.own]
      rfl
    rw [haddress, h.heap]
    exact hi.ledger.perm e

theorem Permutes.content (h : Permutes requiresAllocation m m' e) :
    m'.content requiresAllocation = m.content requiresAllocation ∘ e := by
  funext s
  rw [Memory.content, h.own, h.heap]
  rfl

end Permutations

section Moves
variable {a b : Place}

/-- What a move leaves behind. -/
def dead (requiresAllocation : τ → Bool) (t : τ) : Storage τ α :=
  if requiresAllocation t then .dynamic none else .indeterminate

omit [DecidableEq τ] in
theorem dead_ne_stack {x : Storage τ α} (h : x = dead requiresAllocation t) (t' : τ) (v : α) :
    x ≠ .stack t' v := by
  rw [h, dead]
  split_ifs
  · exact fun h => by cases h
  · exact fun h => by cases h

omit [DecidableEq τ] in
theorem write_of (h : ∀ t v, m.storage s ≠ .stack t v) (x : Storage τ α) :
    m.write s x = .ok (m.setStorage s x) := by
  unfold write
  split
  · rename_i hx
    exact absurd hx (h _ _)
  · rfl

theorem move_of (hx : ∃ o, ownOf requiresAllocation (some t) (m.storage a) = some (t, o))
    (hb : ∀ t v, m.storage b ≠ .stack t v) (hne : a ≠ b) :
    ∃ st, m.move requiresAllocation t a b = .ok { m with storage := st } ∧
      st b = m.storage a ∧ st a = dead requiresAllocation t ∧
      ∀ x, x ≠ a → x ≠ b → st x = m.storage x := by
  refine ⟨Function.update (Function.update m.storage b (m.storage a)) a
    (dead requiresAllocation t), ?_, ?_, ?_, fun x hxa hxb => ?_⟩
  · obtain ⟨o, ho⟩ := hx
    rcases (ownOf_some ho).2 with ⟨hr, p, hx, -⟩ | ⟨hr, v, hx, -⟩
    · simp only [move, if_pos hr, pointer, hx, ok_bind, write_of hb, dead, pure_eq_ok]
      rfl
    · have hkeep : (m.setStorage b (.stack t v)).storage a = .stack t v :=
        (Function.update_of_ne hne _ _).trans hx
      simp only [move, hr, Bool.false_eq_true, if_false, inPlace, hx, if_true, ok_bind,
        write_of hb, destroy, hkeep, pure_eq_ok, dead]
      rfl
  · rw [Function.update_of_ne (Ne.symm hne), Function.update_self]
  · rw [Function.update_self]
  · rw [Function.update_of_ne hxa, Function.update_of_ne hxb]

theorem permutes_none (hs : m.Sound requiresAllocation) (ha : m.vtable a = none)
    (hb : m.vtable b = none) : Permutes requiresAllocation m m (Equiv.swap a b) := by
  refine permutes_of hs rfl rfl (fun x => ?_) (fun x => ?_) hs.idle
  · by_cases hxa : x = a
    · rw [hxa, Equiv.swap_apply_left, ha, hb]
    · by_cases hxb : x = b
      · rw [hxb, Equiv.swap_apply_right, ha, hb]
      · rw [Equiv.swap_apply_of_ne_of_ne hxa hxb]
  · by_cases hxa : x = a
    · rw [hxa, Equiv.swap_apply_left, own_none ha, own_none hb]
    · by_cases hxb : x = b
      · rw [hxb, Equiv.swap_apply_right, own_none ha, own_none hb]
      · rw [Equiv.swap_apply_of_ne_of_ne hxa hxb]

theorem moveConstruct_permutes (hs : m.Sound requiresAllocation) (hv : m.vtable a = none)
    (hne : a ≠ b) : ∃ m', m.moveConstruct requiresAllocation a b = .ok m' ∧
      Permutes requiresAllocation m m' (Equiv.swap a b) := by
  unfold moveConstruct
  cases hb : m.vtable b with
  | none =>
    have hsame : m.setVtable a none = m := by
      rw [setVtable, ← hv, Function.update_eq_self]
    exact ⟨m, congrArg Except.ok hsame, permutes_none hs hv hb⟩
  | some t =>
    have hfull : ∃ o, ownOf requiresAllocation (some t) (m.storage b) = some (t, o) := by
      rw [← hb]
      exact hs.full b t hb
    obtain ⟨st, hmove, hsta, hstb, hst⟩ :=
      move_of (m := m.setVtable a (some t)) hfull (hs.idle a hv) (Ne.symm hne)
    replace hst : ∀ x, x ≠ b → x ≠ a → st x = m.storage x := hst
    replace hsta : st a = m.storage b := hsta
    simp only [hmove, ok_bind, pure_eq_ok]
    refine ⟨_, rfl, permutes_of hs rfl rfl (fun x => ?_) (fun x => ?_) (fun x hx => ?_)⟩
    · by_cases hxa : x = a
      · subst hxa
        simp [setVtable, hne, hb]
      · by_cases hxb : x = b
        · subst hxb
          simp [setVtable, hv]
        · simp [setVtable, hxa, hxb, Equiv.swap_apply_of_ne_of_ne hxa hxb]
    · by_cases hxa : x = a
      · subst hxa
        simp [own, setVtable, hne, hb, hsta]
      · by_cases hxb : x = b
        · subst hxb
          simp [own, setVtable, hv]
        · simp [own, setVtable, hxa, hxb, Equiv.swap_apply_of_ne_of_ne hxa hxb, hst]
    · by_cases hxa : x = a
      · subst hxa
        simp [setVtable, hne] at hx
      · by_cases hxb : x = b
        · subst hxb
          exact dead_ne_stack hstb
        · have hold : m.vtable x = none := by simpa [setVtable, hxa, hxb] using hx
          simpa [setVtable, hst x hxb hxa] using hs.idle x hold

theorem swap_eq (hne : m.vtable a ≠ m.vtable b) (ha : a ≠ .tmp) (hb : b ≠ .tmp) :
    m.swap requiresAllocation a b = (do
      let m₁ ← m.moveConstruct requiresAllocation .tmp b
      let m₂ ← m₁.moveConstruct requiresAllocation b a
      let m₃ ← m₂.moveConstruct requiresAllocation a .tmp
      m₃.clear requiresAllocation .tmp) := by
  have hab : a ≠ b := fun h => hne (congrArg m.vtable h)
  rw [swap, if_pos hne]
  refine bind_congr fun m₁ => ?_
  cases hv : m₁.vtable a with
  | none =>
    cases ht : m₁.vtable .tmp with
    | none => simp [moveConstruct, setVtable, hv, ht, hab, Ne.symm ha, Ne.symm hb, ok_bind]
    | some u => simp [moveConstruct, setVtable, hv, ht, hab, Ne.symm ha, Ne.symm hb, ok_bind]
  | some t =>
    simp only [moveConstruct, setVtable, hv, Function.update_of_ne hab, bind_assoc, pure_eq_ok,
      ok_bind]
    refine bind_congr fun m₂ => ?_
    cases ht : m₂.vtable .tmp with
    | none => simp [ht, Ne.symm ha, ok_bind]
    | some u => simp [ht, Ne.symm ha, ok_bind]

theorem swap_rotate {c : Place} (hab : a ≠ b) (hac : a ≠ c) (hbc : b ≠ c) :
    Equiv.trans (Equiv.swap a c) (Equiv.trans (Equiv.swap b a) (Equiv.swap c b)) =
      Equiv.swap a b := by
  ext x : 1
  simp only [Equiv.trans_apply]
  by_cases hxa : x = a
  · rw [hxa, Equiv.swap_apply_left, Equiv.swap_apply_of_ne_of_ne (Ne.symm hbc) (Ne.symm hac),
      Equiv.swap_apply_left, Equiv.swap_apply_left]
  · by_cases hxb : x = b
    · rw [hxb, Equiv.swap_apply_of_ne_of_ne (Ne.symm hab) hbc, Equiv.swap_apply_left,
        Equiv.swap_apply_of_ne_of_ne hac hab, Equiv.swap_apply_right]
    · rw [Equiv.swap_apply_of_ne_of_ne hxa hxb]
      by_cases hxc : x = c
      · rw [hxc, Equiv.swap_apply_right, Equiv.swap_apply_right, Equiv.swap_apply_right]
      · rw [Equiv.swap_apply_of_ne_of_ne hxa hxc, Equiv.swap_apply_of_ne_of_ne hxb hxa,
          Equiv.swap_apply_of_ne_of_ne hxc hxb]

theorem clear_none (h : m.vtable s = none) : m.clear requiresAllocation s = .ok m := by
  rw [clear, h]

theorem swap_permutes_ne (hs : m.Sound requiresAllocation) (htmp : m.vtable .tmp = none)
    (ha : a ≠ .tmp) (hb : b ≠ .tmp) (hne : m.vtable a ≠ m.vtable b) :
    ∃ m', m.swap requiresAllocation a b = .ok m' ∧
      Permutes requiresAllocation m m' (Equiv.swap a b) := by
  have hab : a ≠ b := fun h => hne (congrArg m.vtable h)
  obtain ⟨m₁, hr₁, h₁⟩ := moveConstruct_permutes hs htmp (Ne.symm hb)
  have hv₁ : m₁.vtable b = none := by
    rw [h₁.vtable, Function.comp_apply, Equiv.swap_apply_right, htmp]
  obtain ⟨m₂, hr₂, h₂⟩ := moveConstruct_permutes h₁.sound hv₁ (Ne.symm hab)
  have hv₂ : m₂.vtable a = none := by
    rw [h₂.vtable, Function.comp_apply, Equiv.swap_apply_right, hv₁]
  obtain ⟨m₃, hr₃, h₃⟩ := moveConstruct_permutes h₂.sound hv₂ ha
  have hv₃ : m₃.vtable .tmp = none := by
    rw [h₃.vtable, Function.comp_apply, Equiv.swap_apply_right, hv₂]
  refine ⟨m₃, ?_, swap_rotate hab ha hb ▸ (h₁.trans h₂).trans h₃⟩
  simp only [swap_eq hne ha hb, hr₁, hr₂, hr₃, ok_bind, clear_none hv₃]

theorem swapStorage_permutes (hs : m.Sound requiresAllocation) (ha : m.vtable a = some t)
    (hb : m.vtable b = some t) (htmp : m.vtable .tmpStorage = none)
    (hp : a = b → requiresAllocation t = true) :
    ∃ m', m.swapStorage requiresAllocation t a b = .ok m' ∧
      Permutes requiresAllocation m m' (Equiv.swap a b) := by
  unfold swapStorage
  rcases hs.storage ha with ⟨hr, p, hpa, -⟩ | ⟨hr, v, hva, -⟩
  · obtain ⟨q, hqb, -⟩ : ∃ q, m.storage b = .dynamic (some q) ∧ True := by
      rcases hs.storage hb with ⟨-, q, hqb, -⟩ | ⟨hr', -⟩
      · exact ⟨q, hqb, trivial⟩
      · cases hr.symm.trans hr'
    simp only [if_pos hr, pointer, hpa, hqb, ok_bind, pure_eq_ok]
    refine ⟨_, rfl, permutes_of hs rfl rfl (fun x => ?_) (fun x => ?_) (fun x hx => ?_)⟩
    · by_cases hxa : x = a
      · rw [hxa, Equiv.swap_apply_left, hb]
        exact ha
      · by_cases hxb : x = b
        · rw [hxb, Equiv.swap_apply_right, ha]
          exact hb
        · rw [Equiv.swap_apply_of_ne_of_ne hxa hxb]
          rfl
    · by_cases hxb : x = b
      · subst hxb
        simp [own, setStorage, ha, hb, hpa]
      · by_cases hxa : x = a
        · subst hxa
          simp [own, setStorage, hxb, ha, hb, hqb]
        · simp [own, setStorage, hxa, hxb, Equiv.swap_apply_of_ne_of_ne hxa hxb]
    · have hold : m.vtable x = none := hx
      have hxa : x ≠ a := by
        rintro rfl
        cases hold.symm.trans ha
      have hxb : x ≠ b := by
        rintro rfl
        cases hold.symm.trans hb
      simpa [setStorage, hxa, hxb] using hs.idle x hold
  · have hab : a ≠ b := by
      intro h
      cases hr.symm.trans (hp h)
    have hat : a ≠ .tmpStorage := by
      rintro rfl
      cases htmp.symm.trans ha
    have hbt : b ≠ .tmpStorage := by
      rintro rfl
      cases htmp.symm.trans hb
    obtain ⟨w, hwb⟩ : ∃ w, m.storage b = .stack t w := by
      rcases hs.storage hb with ⟨hr', -⟩ | ⟨-, w, hwb, -⟩
      · cases hr.symm.trans hr'
      · exact ⟨w, hwb⟩
    have hfull : ∀ u : α, ∃ o, ownOf requiresAllocation (some t) (.stack t u) = some (t, o) := by
      intro u
      exact ⟨.inPlace u, by simp [ownOf, hr]⟩
    obtain ⟨st₁, hmove₁, htmp₁, hb₁, hst₁⟩ :=
      move_of (hwb ▸ hfull w) (hs.idle _ htmp) hbt
    have ha₁ : st₁ a = .stack t v := by rw [hst₁ a hab hat, hva]
    obtain ⟨st₂, hmove₂, hb₂, ha₂, hst₂⟩ :=
      move_of (m := { m with storage := st₁ }) (ha₁ ▸ hfull v)
        (dead_ne_stack hb₁) hab
    have htmp₂ : st₂ .tmpStorage = .stack t w := by
      rw [hst₂ _ (Ne.symm hat) (Ne.symm hbt)]
      exact htmp₁.trans hwb
    obtain ⟨st₃, hmove₃, ha₃, htmp₃, hst₃⟩ :=
      move_of (m := { m with storage := st₂ }) (htmp₂ ▸ hfull w)
        (dead_ne_stack ha₂) (Ne.symm hat)
    have hsame : ∀ x, x ≠ a → x ≠ b → x ≠ .tmpStorage → st₃ x = m.storage x := by
      intro x hxa hxb hxt
      rw [hst₃ x hxt hxa]
      exact (hst₂ x hxa hxb).trans (hst₁ x hxb hxt)
    replace ha₃ : st₃ a = m.storage b := by rw [ha₃, hwb, ← htmp₂]
    have hb₃ : st₃ b = m.storage a := by
      rw [hst₃ b hbt (Ne.symm hab), hva, ← ha₁]
      exact hb₂
    simp only [hr, Bool.false_eq_true, if_false, hmove₁, hmove₂, hmove₃, ok_bind]
    refine ⟨_, rfl, permutes_of hs rfl rfl (fun x => ?_) (fun x => ?_) (fun x hx => ?_)⟩
    · by_cases hxa : x = a
      · rw [hxa, Equiv.swap_apply_left, hb]
        exact ha
      · by_cases hxb : x = b
        · rw [hxb, Equiv.swap_apply_right, ha]
          exact hb
        · rw [Equiv.swap_apply_of_ne_of_ne hxa hxb]
    · by_cases hxa : x = a
      · rw [hxa, Equiv.swap_apply_left, own, own, ha, hb, ← ha₃]
      · by_cases hxb : x = b
        · rw [hxb, Equiv.swap_apply_right, own, own, ha, hb, ← hb₃]
        · rw [Equiv.swap_apply_of_ne_of_ne hxa hxb]
          by_cases hxt : x = .tmpStorage
          · rw [hxt, own_none htmp]
            exact own_none htmp
          · exact congrArg (ownOf requiresAllocation (m.vtable x)) (hsame x hxa hxb hxt)
    · have hold : m.vtable x = none := hx
      have hxa : x ≠ a := by
        rintro rfl
        cases hold.symm.trans ha
      have hxb : x ≠ b := by
        rintro rfl
        cases hold.symm.trans hb
      by_cases hxt : x = .tmpStorage
      · subst hxt
        exact dead_ne_stack htmp₃
      · exact fun t' v' h => hs.idle x hold t' v' ((hsame x hxa hxb hxt).symm.trans h)

theorem swap_permutes (hs : m.Sound requiresAllocation) (htmp : m.vtable .tmp = none)
    (hstorage : m.vtable .tmpStorage = none) (ha : a ≠ .tmp) (hb : b ≠ .tmp)
    (hp : a = b → (m.vtable a).all requiresAllocation = true) :
    ∃ m', m.swap requiresAllocation a b = .ok m' ∧
      Permutes requiresAllocation m m' (Equiv.swap a b) := by
  by_cases hne : m.vtable a ≠ m.vtable b
  · exact swap_permutes_ne hs htmp ha hb hne
  · have heq : m.vtable a = m.vtable b := not_not.mp hne
    simp only [swap, if_neg hne]
    cases hv : m.vtable a with
    | none => exact ⟨m, rfl, permutes_none hs hv (heq ▸ hv)⟩
    | some t =>
      refine swapStorage_permutes hs hv (heq ▸ hv) hstorage fun h => ?_
      have hall := hp h
      rwa [hv] at hall

/-- An object swapped with itself in place is dead before it is moved. -/
theorem swap_self (hs : m.Sound requiresAllocation) (htmp : m.vtable .tmpStorage = none)
    (hp : ¬(m.vtable a).all requiresAllocation = true) :
    m.swap requiresAllocation a a = .error .deadObject := by
  cases hv : m.vtable a with
  | none =>
    rw [hv] at hp
    exact absurd rfl hp
  | some t =>
    have hr : requiresAllocation t = false := by
      rw [hv] at hp
      simpa using hp
    have hat : a ≠ .tmpStorage := by
      rintro rfl
      cases htmp.symm.trans hv
    have hfull : ∃ o, ownOf requiresAllocation (some t) (m.storage a) = some (t, o) := by
      rw [← hv]
      exact hs.full a t hv
    obtain ⟨st, hmove, -, hdead, -⟩ := move_of hfull (hs.idle _ htmp) hat
    replace hdead : st a = .indeterminate := by rw [hdead, dead, hr]; rfl
    rw [swap, if_neg (not_not.mpr rfl), hv]
    simp only [swapStorage, hr, Bool.false_eq_true, if_false, hmove, ok_bind]
    simp only [move, hr, Bool.false_eq_true, if_false, inPlace, hdead]
    rfl

end Moves

section Contents

theorem content_of (ho : m.own requiresAllocation s = m'.own requiresAllocation s)
    (hheap : ∀ a, m.address requiresAllocation s = some a → m'.heap a = m.heap a) :
    m'.content requiresAllocation s = m.content requiresAllocation s := by
  cases hown : m.own requiresAllocation s with
  | none => rw [content, content, ← ho, hown]; rfl
  | some x =>
    obtain ⟨t, o⟩ := x
    cases o with
    | heap a =>
      rw [content, content, ← ho, hown]
      exact hheap a (by rw [address, hown]; rfl)
    | inPlace v => rw [content, content, ← ho, hown]; rfl

theorem sets_of {x : Option (τ × α)} (hi : m.Inv requiresAllocation)
    (hc : m'.constructed = m.constructed)
    (hv : m'.vtable = Function.update m.vtable s (x.map Prod.fst))
    (hstorage : ∀ s', s' ≠ s → m'.storage s' = m.storage s')
    (hheap : ∀ s', s' ≠ s → ∀ a, m.address requiresAllocation s' = some a → m'.heap a = m.heap a)
    (hx : m'.content requiresAllocation s = x)
    (hidle : x = none → ∀ t v, m'.storage s ≠ .stack t v)
    (hledger : Ledger (Function.update (m.address requiresAllocation) s
      (m'.address requiresAllocation s)) m'.heap) : Sets requiresAllocation m m' s x := by
  have hown : ∀ s', s' ≠ s → m.own requiresAllocation s' = m'.own requiresAllocation s' := by
    intro s' hne
    rw [own, own, hv, Function.update_of_ne hne, hstorage s' hne]
  have haddress : m'.address requiresAllocation = Function.update (m.address requiresAllocation) s
      (m'.address requiresAllocation s) := by
    refine Function.eq_update_iff.mpr ⟨rfl, fun s' hne => ?_⟩
    rw [address, address, hown s' hne]
  have hvs : m'.vtable s = x.map Prod.fst := by rw [hv, Function.update_self]
  refine ⟨⟨⟨fun s' t ht => ?_, fun s' ht => ?_⟩, fun s' t a ho => ?_, haddress ▸ hledger⟩, hc, hv,
    Function.eq_update_iff.mpr ⟨hx, fun s' hne => content_of (hown s' hne) (hheap s' hne)⟩⟩
  · by_cases hne : s' = s
    · subst hne
      cases ho : m'.own requiresAllocation s' with
      | none =>
        have hnone : x = none := by rw [← hx, content, ho]; rfl
        cases (hvs.symm.trans ht).symm.trans (congrArg _ hnone)
      | some y =>
        have ht' := vtable_of_own ho
        cases ht.symm.trans ht'
        exact ⟨y.2, rfl⟩
    · rw [hv, Function.update_of_ne hne] at ht
      rw [← hown s' hne]
      exact hi.sound.full s' t ht
  · by_cases hne : s' = s
    · subst hne
      exact hidle (Option.map_eq_none_iff.mp (hvs.symm.trans ht))
    · rw [hv, Function.update_of_ne hne] at ht
      exact fun t v h => hi.sound.idle s' ht t v ((hstorage s' hne).symm.trans h)
  · by_cases hne : s' = s
    · subst hne
      obtain ⟨y, hy, rfl⟩ := Option.map_eq_some_iff.mp (hvs.symm.trans (vtable_of_own ho))
      refine ⟨y.2, ?_⟩
      rw [← hy, ← hx, content, ho]
      rfl
    · rw [← hown s' hne] at ho
      rw [hheap s' hne a (by rw [address, ho]; rfl)]
      exact hi.typed s' t a ho

theorem own_dynamic {a : ℕ} (hv : m.vtable s = some t) (hr : requiresAllocation t = true)
    (hx : m.storage s = .dynamic (some a)) : m.own requiresAllocation s = some (t, .heap a) := by
  rw [own, hv, hx, ownOf, if_pos hr]

theorem own_stack {v : α} (hv : m.vtable s = some t) (hr : requiresAllocation t = false)
    (hx : m.storage s = .stack t v) : m.own requiresAllocation s = some (t, .inPlace v) := by
  rw [own, hv, hx, ownOf, if_pos ⟨hr, rfl⟩]

theorem Inv.object (hi : m.Inv requiresAllocation) (hv : m.vtable s = some t) :
    ∃ v, m.content requiresAllocation s = some (t, v) ∧
      (requiresAllocation t = true ∧ (∃ a, m.storage s = .dynamic (some a) ∧
          m.heap a = some (t, v) ∧ m.address requiresAllocation s = some a) ∨
        requiresAllocation t = false ∧ m.storage s = .stack t v ∧
          m.address requiresAllocation s = none) := by
  rcases hi.sound.storage hv with ⟨hr, a, hx, ho⟩ | ⟨hr, v, hx, ho⟩
  · obtain ⟨v, hheap⟩ := hi.typed s t a ho
    refine ⟨v, ?_, Or.inl ⟨hr, a, hx, hheap, ?_⟩⟩
    · rw [content, ho]
      exact hheap
    · rw [address, ho]
      rfl
  · refine ⟨v, ?_, Or.inr ⟨hr, hx, ?_⟩⟩
    · rw [content, ho]
      rfl
    · rw [address, ho]
      rfl

theorem address_none (h : m.vtable s = none) : m.address requiresAllocation s = none := by
  rw [address, own_none h]
  rfl

section Fresh
variable {addr : ℕ} {v : α}

theorem new_sets (hi : m.Inv requiresAllocation) (hv : m.vtable s = none)
    (hr : requiresAllocation t = true) (ha : m.heap addr = none) :
    Sets requiresAllocation m
      (((m.setVtable s (some t)).new t v addr).setStorage s (.dynamic (some addr))) s
      (some (t, v)) := by
  have ho : (((m.setVtable s (some t)).new t v addr).setStorage s (.dynamic (some addr))).own
      requiresAllocation s = some (t, .heap addr) :=
    own_dynamic (Function.update_self ..) hr (Function.update_self ..)
  refine sets_of hi rfl rfl (fun s' hne => Function.update_of_ne hne _ _) (fun s' hne a hs' => ?_)
    ?_ (fun h => by cases h) ?_
  · refine Function.update_of_ne ?_ _ _
    rintro rfl
    exact hi.ledger.live s' a hs' ha
  · rw [content, ho]
    exact Function.update_self ..
  · have haddress : (((m.setVtable s (some t)).new t v addr).setStorage s
        (.dynamic (some addr))).address requiresAllocation s = some addr := by
      rw [address, ho]
      rfl
    rw [haddress]
    exact hi.ledger.create (address_none hv) ha (t, v)

theorem newInPlace_sets (hi : m.Inv requiresAllocation) (hv : m.vtable s = none)
    (hr : requiresAllocation t = false) :
    Sets requiresAllocation m ((m.setVtable s (some t)).setStorage s (.stack t v)) s
      (some (t, v)) := by
  have ho : ((m.setVtable s (some t)).setStorage s (.stack t v)).own requiresAllocation s =
      some (t, .inPlace v) := own_stack (Function.update_self ..) hr (Function.update_self ..)
  refine sets_of hi rfl rfl (fun s' hne => Function.update_of_ne hne _ _) (fun _ _ _ _ => rfl)
    ?_ (fun h => by cases h) ?_
  · rw [content, ho]
    rfl
  · have haddress : ((m.setVtable s (some t)).setStorage s (.stack t v)).address
        requiresAllocation s = none := by
      rw [address, ho]
      rfl
    rw [haddress, Function.update_eq_self_iff.mpr (address_none hv).symm]
    exact hi.ledger

theorem construct_sets (hi : m.Inv requiresAllocation) (hv : m.vtable s = none)
    (ha : m.heap addr = none) (v : α) :
    ∃ m', m.construct requiresAllocation s t v addr = .ok m' ∧
      Sets requiresAllocation m m' s (some (t, v)) := by
  cases hr : requiresAllocation t with
  | true =>
    refine ⟨_, ?_, new_sets hi hv hr ha⟩
    rw [construct, if_pos hr, write_of]
    exact hi.sound.idle s hv
  | false =>
    refine ⟨_, ?_, newInPlace_sets hi hv hr⟩
    simp only [construct, hr, Bool.false_eq_true, if_false]
    rw [write_of]
    exact hi.sound.idle s hv

theorem sets_none (hi : m.Inv requiresAllocation) (hv : m.vtable s = none) :
    Sets requiresAllocation m m s none :=
  ⟨hi, rfl, (Function.update_eq_self_iff.mpr hv.symm).symm,
    (Function.update_eq_self_iff.mpr (content_none hv).symm).symm⟩

theorem copyConstruct_sets (hi : m.Inv requiresAllocation) (hv : m.vtable s = none)
    (ha : m.heap addr = none) (rhs : Place) :
    ∃ m', m.copyConstruct requiresAllocation s rhs addr = .ok m' ∧
      Sets requiresAllocation m m' s (m.content requiresAllocation rhs) := by
  cases ht : m.vtable rhs with
  | none =>
    have hsame : m.setVtable s none = m := by rw [setVtable, ← hv, Function.update_eq_self]
    refine ⟨m, ?_, content_none ht ▸ sets_none hi hv⟩
    simp only [copyConstruct, ht, hsame]
  | some t =>
    obtain ⟨v, hx, ⟨hr, a, hp, hheap, -⟩ | ⟨hr, hp, -⟩⟩ := hi.object ht
    · refine ⟨_, ?_, hx ▸ new_sets hi hv hr ha⟩
      have hpointer : (m.setVtable s (some t)).pointer rhs = .ok (some a) := by
        rw [pointer, setVtable, hp]
      have hderef : (m.setVtable s (some t)).deref t (some a) = .ok (a, v) := by
        simp only [deref, setVtable, hheap, if_true]
      simp only [copyConstruct, ht, copy, if_pos hr, hpointer, hderef, ok_bind]
      rw [write_of]
      exact hi.sound.idle s hv
    · refine ⟨_, ?_, hx ▸ newInPlace_sets hi hv hr⟩
      have hplace : (m.setVtable s (some t)).inPlace t rhs = .ok v := by
        simp only [inPlace, setVtable, hp, if_true]
      simp only [copyConstruct, ht, copy, hr, Bool.false_eq_true, if_false, hplace, ok_bind]
      rw [write_of]
      exact hi.sound.idle s hv

end Fresh

theorem clear_sets (hi : m.Inv requiresAllocation) (s : Place) :
    ∃ m', m.clear requiresAllocation s = .ok m' ∧ Sets requiresAllocation m m' s none := by
  cases ht : m.vtable s with
  | none => exact ⟨m, clear_none ht, sets_none hi ht⟩
  | some t =>
    obtain ⟨v, hx, ⟨hr, a, hp, hheap, haddress⟩ | ⟨hr, hp, haddress⟩⟩ := hi.object ht
    · refine ⟨{ m with heap := Function.update m.heap a none }.setVtable s none, ?_, ?_⟩
      · simp only [clear, ht, destroy, if_pos hr, pointer, hp, deref, hheap, if_true, ok_bind,
          pure_eq_ok]
      · refine sets_of hi rfl rfl (fun _ _ => rfl) (fun s' hne a' hs' => ?_)
          (content_none (Function.update_self ..)) (fun _ t' v' h => ?_) ?_
        · refine Function.update_of_ne ?_ _ _
          rintro rfl
          exact hne (hi.ledger.apart s' s a' hs' haddress)
        · cases hp.symm.trans h
        · rw [address_none (Function.update_self ..)]
          exact hi.ledger.destroy haddress
    · refine ⟨(m.setStorage s .indeterminate).setVtable s none, ?_, ?_⟩
      · simp only [clear, ht, destroy, hr, Bool.false_eq_true, if_false, inPlace, hp, if_true,
          ok_bind, pure_eq_ok]
      · refine sets_of hi rfl rfl (fun s' hne => Function.update_of_ne hne _ _) (fun _ _ _ _ => rfl)
          (content_none (Function.update_self ..)) (fun _ t' v' h => ?_) ?_
        · have hdead : ((m.setStorage s .indeterminate).setVtable s none).storage s =
              .indeterminate := Function.update_self ..
          cases hdead.symm.trans h
        · rw [address_none (Function.update_self ..), Function.update_eq_self_iff.mpr haddress.symm]
          exact hi.ledger

theorem store_sets (hi : m.Inv requiresAllocation) (hv : m.vtable s = some t) (v : α) :
    ∃ m', m.store requiresAllocation s t v = .ok m' ∧
      Sets requiresAllocation m m' s (some (t, v)) := by
  have hsame : Function.update m.vtable s (some t) = m.vtable :=
    Function.update_eq_self_iff.mpr hv.symm
  obtain ⟨w, hx, ⟨hr, a, hp, hheap, haddress⟩ | ⟨hr, hp, haddress⟩⟩ := hi.object hv
  · refine ⟨{ m with heap := Function.update m.heap a (some (t, v)) }, ?_, ?_⟩
    · simp only [store, hv, if_true, if_pos hr, pointer, hp, deref, hheap, ok_bind, pure_eq_ok]
    · have ho : { m with heap := Function.update m.heap a (some (t, v)) }.own requiresAllocation s =
          some (t, .heap a) := own_dynamic hv hr hp
      refine sets_of hi rfl hsame.symm (fun _ _ => rfl) (fun s' hne a' hs' => ?_) ?_
        (fun h => by cases h) ?_
      · refine Function.update_of_ne ?_ _ _
        rintro rfl
        exact hne (hi.ledger.apart s' s a' hs' haddress)
      · rw [content, ho]
        exact Function.update_self ..
      · have hsame' : { m with heap := Function.update m.heap a (some (t, v)) }.address
            requiresAllocation s = some a := haddress
        rw [hsame', Function.update_eq_self_iff.mpr haddress.symm]
        exact hi.ledger.replace (t, v) (fun h => by cases hheap.symm.trans h)
  · refine ⟨m.setStorage s (.stack t v), ?_, ?_⟩
    · simp only [store, hv, if_true, hr, Bool.false_eq_true, if_false, inPlace, hp, ok_bind,
        pure_eq_ok]
    · have ho : (m.setStorage s (.stack t v)).own requiresAllocation s = some (t, .inPlace v) :=
        own_stack hv hr (Function.update_self ..)
      refine sets_of hi rfl hsame.symm (fun s' hne => Function.update_of_ne hne _ _)
        (fun _ _ _ _ => rfl) ?_ (fun h => by cases h) ?_
      · rw [content, ho]
        rfl
      · have hnone : (m.setStorage s (.stack t v)).address requiresAllocation s = none := by
          rw [address, ho]
          rfl
        rw [hnone, Function.update_eq_self_iff.mpr haddress.symm]
        exact hi.ledger

end Contents

end Memory

end Owners

end Lux.Any

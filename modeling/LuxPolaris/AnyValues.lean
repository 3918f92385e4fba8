import LuxPolaris.AnyOwnership

/-!
# The values of variables of type any

A program that uses its variables only while they are constructed sees in each
a value of its own, as in `Values`, unless it swaps an object in place with
itself. Nothing is destroyed twice, and nothing is left behind.
-/

set_option autoImplicit false

namespace Lux.Any
open Outcome Ownership

section Values
variable {τ α : Type} [DecidableEq τ] {requiresAllocation : τ → Bool}

theorem take_update {β : Type} {f : Place → Option β} (hf : f .temporary = none) (x : Option β)
    (i : ℕ) : Function.update (Function.update f .temporary x ∘
      Equiv.swap .temporary (.variable i)) .temporary none = Function.update f (.variable i) x := by
  refine Function.update_eq_iff.mpr ⟨?_, fun p hp => ?_⟩
  · rw [Function.update_of_ne (fun h => by cases h), hf]
  · by_cases hpi : p = .variable i
    · rw [hpi, Function.comp_apply, Equiv.swap_apply_right, Function.update_self,
        Function.update_self]
    · rw [Function.comp_apply, Equiv.swap_apply_of_ne_of_ne hp hpi, Function.update_of_ne hp,
        Function.update_of_ne hpi]

theorem take_move {β : Type} {f : Place → Option β} (hf : f .temporary = none) (i j : ℕ) :
    Function.update ((f ∘ Equiv.swap .temporary (.variable j)) ∘
      Equiv.swap .temporary (.variable i)) .temporary none =
        Function.update (Function.update f (.variable j) none) (.variable i) (f (.variable j)) := by
  have hswap : f ∘ Equiv.swap .temporary (.variable j) =
      Function.update (Function.update f (.variable j) none) .temporary (f (.variable j)) := by
    refine Function.eq_update_iff.mpr ⟨?_, fun p hp => ?_⟩
    · rw [Function.comp_apply, Equiv.swap_apply_left]
    · by_cases hpj : p = .variable j
      · rw [hpj, Function.comp_apply, Equiv.swap_apply_right, Function.update_self, hf]
      · rw [Function.comp_apply, Equiv.swap_apply_of_ne_of_ne hp hpj, Function.update_of_ne hpj]
  rw [hswap]
  exact take_update (by rw [Function.update_of_ne (fun h => by cases h), hf]) _ i

namespace Memory

/-- An object in place is not swapped with itself. -/
def Proper (requiresAllocation : τ → Bool) (m : Memory τ α) : Action τ α → Prop
  | .swap i j => i = j → (m.vtable (.variable i)).all requiresAllocation = true
  | _ => True

instance (requiresAllocation : τ → Bool) (m : Memory τ α) :
    (a : Action τ α) → Decidable (m.Proper requiresAllocation a)
  | .swap _ _ => inferInstanceAs (Decidable (_ → _))
  | .construct _ | .constructFrom _ _ _ _ _ | .copyConstruct _ _ _ _ | .moveConstruct _ _
  | .assign _ _ _ _ | .assignMove _ _ | .assignFrom _ _ _ _ _ | .store _ _ _ | .clear _
  | .destruct _ => isTrue trivial

/-- The memory between two calls, and the values seen in it. -/
structure Follows (requiresAllocation : τ → Bool) (m : Memory τ α) (σ : Values τ α) : Prop where
  inv : m.Inv requiresAllocation
  idle : m.Idle
  view : m.view requiresAllocation = σ

variable {m m' m₁ : Memory τ α} {i j : ℕ} {σ : Values τ α} {x : Option (τ × α)}

theorem Inv.map_content (hi : m.Inv requiresAllocation) (s : Place) :
    (m.content requiresAllocation s).map Prod.fst = m.vtable s := by
  cases hv : m.vtable s with
  | none => rw [content_none hv, Option.map_none]
  | some t =>
    obtain ⟨v, hx, -⟩ := hi.object hv
    rw [hx, Option.map_some]

theorem Follows.value (hf : m.Follows requiresAllocation σ) (hc : m.constructed i = true) :
    σ i = some (m.content requiresAllocation (.variable i)) := by
  rw [← hf.view, Memory.view, if_pos hc]

theorem takeTemporary_of (hi : m.Inv requiresAllocation) (htmp : m.vtable .tmp = none)
    (hstorage : m.vtable .tmpStorage = none) (i : ℕ) :
    ∃ m₁ m', m.takeTemporary requiresAllocation i = .ok m' ∧
      Permutes requiresAllocation m m₁ (Equiv.swap .temporary (.variable i)) ∧
      Sets requiresAllocation m₁ m' .temporary none := by
  obtain ⟨m₁, hr₁, h₁⟩ := swap_permutes (a := .temporary) (b := .variable i) hi.sound htmp hstorage
    (fun h => by cases h) (fun h => by cases h) (fun h => by cases h)
  obtain ⟨m', hr', h'⟩ := clear_sets (h₁.inv hi) .temporary
  refine ⟨m₁, m', ?_, h₁, h'⟩
  rw [takeTemporary, hr₁]
  exact hr'

theorem Sets.take (h : Sets requiresAllocation m m₁ .temporary x) (hidle : m.Idle) (i : ℕ) :
    ∃ m', m₁.takeTemporary requiresAllocation i = .ok m' ∧
      Sets requiresAllocation m m' (.variable i) x := by
  have htmp : m₁.vtable .tmp = none := by
    rw [h.vtable, Function.update_of_ne (fun h => by cases h), hidle.tmp]
  have hstorage : m₁.vtable .tmpStorage = none := by
    rw [h.vtable, Function.update_of_ne (fun h => by cases h), hidle.tmpStorage]
  obtain ⟨m₂, m', hr, h₂, h'⟩ := takeTemporary_of h.inv htmp hstorage i
  refine ⟨m', hr, h'.inv, (h'.constructed.trans h₂.constructed).trans h.constructed, ?_, ?_⟩
  · rw [h'.vtable, h₂.vtable, h.vtable]
    exact take_update hidle.temporary _ i
  · rw [h'.content, h₂.content, h.content]
    exact take_update (content_none hidle.temporary) _ i

theorem Inv.setConstructed (hi : m.Inv requiresAllocation) (i : ℕ) (b : Bool) :
    (m.setConstructed i b).Inv requiresAllocation :=
  ⟨⟨hi.sound.full, hi.sound.idle⟩, hi.typed, hi.ledger⟩

omit [DecidableEq τ] in
theorem setConstructed_eq_self (hc : m.constructed i = true) : m.setConstructed i true = m := by
  rw [setConstructed, ← hc, Function.update_eq_self]

theorem Sets.follows (h : Sets requiresAllocation m m' (.variable i) x)
    (hf : m.Follows requiresAllocation σ) {b : Bool} (hb : b = false → x = none) :
    (m'.setConstructed i b).Follows requiresAllocation
      (Function.update σ i (if b then some x else none)) := by
  have hother : ∀ p, p ≠ .variable i → m'.vtable p = m.vtable p := by
    intro p hp
    rw [h.vtable, Function.update_of_ne hp]
  refine ⟨h.inv.setConstructed i b, ⟨?_, ?_, ?_, fun k hk => ?_⟩, ?_⟩
  · exact (hother _ (fun h => by cases h)).trans hf.idle.temporary
  · exact (hother _ (fun h => by cases h)).trans hf.idle.tmp
  · exact (hother _ (fun h => by cases h)).trans hf.idle.tmpStorage
  · by_cases hki : k = i
    · subst hki
      have hbk : b = false := (Function.update_self ..).symm.trans hk
      calc m'.vtable (.variable k) = x.map Prod.fst := by rw [h.vtable, Function.update_self]
        _ = none := by rw [hb hbk, Option.map_none]
    · refine (hother _ (fun he => hki (Place.variable.inj he))).trans (hf.idle.raw k ?_)
      rw [← h.constructed]
      exact (Function.update_of_ne hki ..).symm.trans hk
  · refine Function.eq_update_iff.mpr ⟨?_, fun k hki => ?_⟩
    · have hx : (m'.setConstructed i b).content requiresAllocation (.variable i) = x :=
        (congrFun h.content _).trans (Function.update_self ..)
      have hcon : (m'.setConstructed i b).constructed i = b := Function.update_self ..
      rw [Memory.view, hx, hcon]
    · have hcontent : (m'.setConstructed i b).content requiresAllocation (.variable k) =
          m.content requiresAllocation (.variable k) :=
        (congrFun h.content _).trans
          (Function.update_of_ne (fun he => hki (Place.variable.inj he)) ..)
      have hcon : (m'.setConstructed i b).constructed k = m.constructed k := by
        rw [← h.constructed]
        exact Function.update_of_ne hki ..
      rw [← hf.view, Memory.view, Memory.view, hcontent, hcon]

theorem Sets.follows_value (h : Sets requiresAllocation m m' (.variable i) x)
    (hf : m.Follows requiresAllocation σ) (hc : m.constructed i = true) :
    m'.Follows requiresAllocation (Function.update σ i (some x)) := by
  have hfollows := h.follows hf (b := true) (fun h => by cases h)
  rwa [setConstructed_eq_self (h.constructed ▸ hc)] at hfollows

theorem Permutes.follows (h : Permutes requiresAllocation m m'
    (Equiv.swap (.variable i) (.variable j))) (hf : m.Follows requiresAllocation σ)
    (hj : m.constructed j = true) :
    (m'.setConstructed i true).Follows requiresAllocation (Function.update
      (Function.update σ i (σ j)) j (some (m.content requiresAllocation (.variable i)))) := by
  have hother : ∀ p, p ≠ .variable i → p ≠ .variable j → m'.vtable p = m.vtable p := by
    intro p hpi hpj
    rw [h.vtable, Function.comp_apply, Equiv.swap_apply_of_ne_of_ne hpi hpj]
  refine ⟨(h.inv hf.inv).setConstructed i true, ⟨?_, ?_, ?_, fun k hk => ?_⟩, ?_⟩
  · exact (hother _ (fun h => by cases h) (fun h => by cases h)).trans hf.idle.temporary
  · exact (hother _ (fun h => by cases h) (fun h => by cases h)).trans hf.idle.tmp
  · exact (hother _ (fun h => by cases h) (fun h => by cases h)).trans hf.idle.tmpStorage
  · have hki : k ≠ i := by
      rintro rfl
      cases (Function.update_self ..).symm.trans hk
    have hk' : m.constructed k = false := by
      rw [← h.constructed]
      exact (Function.update_of_ne hki ..).symm.trans hk
    have hkj : k ≠ j := by
      rintro rfl
      cases hj.symm.trans hk'
    refine (hother _ (fun he => hki (Place.variable.inj he))
      (fun he => hkj (Place.variable.inj he))).trans (hf.idle.raw k hk')
  · funext k
    have hcontent : (m'.setConstructed i true).content requiresAllocation (.variable k) =
        m.content requiresAllocation (Equiv.swap (.variable i) (.variable j) (.variable k)) :=
      congrFun h.content _
    have hcon : (m'.setConstructed i true).constructed k =
        if k = i then true else m.constructed k :=
      (Function.update_apply ..).trans (by rw [h.constructed])
    rw [Memory.view, hcontent, hcon]
    by_cases hkj : k = j
    · have hck : (if k = i then true else m.constructed k) = true := by
        rw [hkj, hj, ite_self]
      rw [if_pos hck, hkj, Function.update_self, Equiv.swap_apply_right]
    · rw [Function.update_of_ne hkj]
      by_cases hki : k = i
      · rw [hki, Function.update_self, Equiv.swap_apply_left, hf.value hj, if_pos rfl, if_pos rfl]
      · rw [Function.update_of_ne hki, Equiv.swap_apply_of_ne_of_ne
          (fun he => hki (Place.variable.inj he)) (fun he => hkj (Place.variable.inj he)),
          if_neg hki, ← hf.view, Memory.view]

theorem assignMove_follows (hf : m.Follows requiresAllocation σ) (hi : m.constructed i = true)
    (hj : m.constructed j = true) (hinv : m'.Inv requiresAllocation)
    (hc : m'.constructed = m.constructed)
    (hv : m'.vtable = Function.update (Function.update m.vtable (.variable j) none) (.variable i)
      (m.vtable (.variable j)))
    (hx : m'.content requiresAllocation = Function.update (Function.update
      (m.content requiresAllocation) (.variable j) none) (.variable i)
        (m.content requiresAllocation (.variable j))) :
    m'.Follows requiresAllocation (Function.update (Function.update σ j (some none)) i (σ j)) := by
  have hother : ∀ p, p ≠ .variable i → p ≠ .variable j → m'.vtable p = m.vtable p := by
    intro p hpi hpj
    rw [hv, Function.update_of_ne hpi, Function.update_of_ne hpj]
  refine ⟨hinv, ⟨?_, ?_, ?_, fun k hk => ?_⟩, funext fun k => ?_⟩
  · exact (hother _ (fun h => by cases h) (fun h => by cases h)).trans hf.idle.temporary
  · exact (hother _ (fun h => by cases h) (fun h => by cases h)).trans hf.idle.tmp
  · exact (hother _ (fun h => by cases h) (fun h => by cases h)).trans hf.idle.tmpStorage
  · rw [hc] at hk
    refine (hother _ (fun he => ?_) (fun he => ?_)).trans (hf.idle.raw k hk)
    · cases he
      cases hi.symm.trans hk
    · cases he
      cases hj.symm.trans hk
  · rw [Memory.view, hc, hx]
    by_cases hki : k = i
    · rw [hki, if_pos hi, Function.update_self, Function.update_self, hf.value hj]
    · rw [Function.update_of_ne hki, Function.update_of_ne (fun he => hki (Place.variable.inj he))]
      by_cases hkj : k = j
      · rw [hkj, if_pos hj, Function.update_self, Function.update_self]
      · rw [Function.update_of_ne hkj,
          Function.update_of_ne (fun he => hkj (Place.variable.inj he)), ← hf.view, Memory.view]

theorem Follows.throws (hf : m.Follows requiresAllocation σ) (hj : m.constructed j = true)
    (throws : Bool) : m.Throws j throws = (throws && (σ j).join.isSome) := by
  rw [hf.value hj, Throws, ← hf.inv.map_content, Option.isSome_map, Option.join_some]

theorem Follows.typed (hf : m.Follows requiresAllocation σ) (hi : m.constructed i = true) (t : τ) :
    (σ i).join.any (fun x => x.1 = t) = decide (m.vtable (.variable i) = some t) := by
  rw [hf.value hi, ← hf.inv.map_content, Option.join_some]
  cases m.content requiresAllocation (.variable i) with
  | none => rfl
  | some y => simp

theorem step_follows {a : Action τ α} (hf : m.Follows requiresAllocation σ) (he : m.Enabled a)
    (hp : m.Proper requiresAllocation a) :
    ∃ m', m.step requiresAllocation a = .ok m' ∧ m'.Follows requiresAllocation (σ.act a) := by
  cases a with
  | construct i =>
    have hv := hf.idle.raw i he
    have hsame : m.setVtable (.variable i) none = m := by
      rw [setVtable, ← hv, Function.update_eq_self]
    refine ⟨_, rfl, ?_⟩
    rw [hsame]
    exact (sets_none hf.inv hv).follows hf (b := true) (fun h => by cases h)
  | constructFrom i t v addr throws =>
    obtain ⟨m', hr, h⟩ := construct_sets hf.inv (hf.idle.raw i he.1) he.2 v
    cases throws with
    | true => exact ⟨m, rfl, hf⟩
    | false =>
      refine ⟨_, ?_, h.follows hf (b := true) (fun h => by cases h)⟩
      rw [step, if_neg Bool.false_ne_true, hr]
      rfl
  | copyConstruct i j addr throws =>
    obtain ⟨hi, hj, ha⟩ := he
    rw [Values.act, step, hf.throws hj]
    split_ifs with ht
    · exact ⟨m, rfl, hf⟩
    · obtain ⟨m', hr, h⟩ := copyConstruct_sets hf.inv (hf.idle.raw i hi) ha (.variable j)
      rw [hf.value hj, hr]
      exact ⟨_, rfl, h.follows hf (b := true) (fun h => by cases h)⟩
  | moveConstruct i j =>
    have hv := hf.idle.raw i he.1
    have hij : i ≠ j := by
      rintro rfl
      cases he.1.symm.trans he.2
    obtain ⟨m', hr, h⟩ := moveConstruct_permutes hf.inv.sound hv
      (fun h => hij (Place.variable.inj h))
    have hfollows := h.follows hf he.2
    rw [content_none hv] at hfollows
    refine ⟨_, ?_, hfollows⟩
    rw [step, hr]
    rfl
  | assign i j addr throws =>
    obtain ⟨hi, hj, ha⟩ := he
    rw [Values.act, step, hf.throws hj]
    split_ifs with ht
    · exact ⟨m, rfl, hf⟩
    · obtain ⟨m₁, hr, h⟩ := copyConstruct_sets hf.inv hf.idle.temporary ha (.variable j)
      obtain ⟨m', hr', h'⟩ := h.take hf.idle i
      rw [hf.value hj, hr]
      exact ⟨m', hr', h'.follows_value hf hi⟩
  | assignMove i j =>
    obtain ⟨m₁, hr₁, h₁⟩ := moveConstruct_permutes (b := .variable j) hf.inv.sound
      hf.idle.temporary (fun h => by cases h)
    have hlocal : ∀ p, p ≠ .temporary → p ≠ .variable j → m₁.vtable p = m.vtable p := by
      intro p hpt hpj
      rw [h₁.vtable, Function.comp_apply, Equiv.swap_apply_of_ne_of_ne hpt hpj]
    have htmp : m₁.vtable .tmp = none :=
      (hlocal _ (fun h => by cases h) (fun h => by cases h)).trans hf.idle.tmp
    have hstorage : m₁.vtable .tmpStorage = none :=
      (hlocal _ (fun h => by cases h) (fun h => by cases h)).trans hf.idle.tmpStorage
    obtain ⟨m₂, m', hr', h₂, h'⟩ := takeTemporary_of (h₁.inv hf.inv) htmp hstorage i
    refine ⟨m', ?_, assignMove_follows hf he.1 he.2 h'.inv
      ((h'.constructed.trans h₂.constructed).trans h₁.constructed) ?_ ?_⟩
    · rw [step, hr₁]
      exact hr'
    · rw [h'.vtable, h₂.vtable, h₁.vtable]
      exact take_move hf.idle.temporary i j
    · rw [h'.content, h₂.content, h₁.content]
      exact take_move (content_none hf.idle.temporary) i j
  | assignFrom i t v addr throws =>
    obtain ⟨m₁, hr, h⟩ := construct_sets hf.inv hf.idle.temporary he.2 v
    obtain ⟨m', hr', h'⟩ := h.take hf.idle i
    cases throws with
    | true => exact ⟨m, rfl, hf⟩
    | false =>
      refine ⟨m', ?_, h'.follows_value hf he.1⟩
      rw [step, if_neg Bool.false_ne_true, hr]
      exact hr'
  | store i t v =>
    rw [Values.act, hf.typed he]
    by_cases hv : m.vtable (.variable i) = some t
    · obtain ⟨m', hr, h⟩ := store_sets hf.inv hv v
      rw [if_pos (decide_eq_true hv)]
      exact ⟨m', hr, h.follows_value hf he⟩
    · rw [if_neg (fun h => hv (of_decide_eq_true h))]
      exact ⟨m, if_neg hv, hf⟩
  | clear i =>
    obtain ⟨m', hr, h⟩ := clear_sets hf.inv (.variable i)
    exact ⟨m', hr, h.follows_value hf he⟩
  | swap i j =>
    obtain ⟨m', hr, h⟩ := swap_permutes hf.inv.sound hf.idle.tmp hf.idle.tmpStorage
      (fun h => by cases h) (fun h => by cases h) (fun h => hp (Place.variable.inj h))
    have hfollows := h.follows hf he.2
    rw [setConstructed_eq_self (h.constructed ▸ he.1), ← hf.value he.1] at hfollows
    exact ⟨m', hr, hfollows⟩
  | destruct i =>
    obtain ⟨m', hr, h⟩ := clear_sets hf.inv (.variable i)
    refine ⟨_, ?_, h.follows hf (b := false) (fun _ => rfl)⟩
    rw [step, hr]
    rfl

theorem anyCast_of (hi : m.Inv requiresAllocation) (s : Place) (t : τ) :
    m.anyCast requiresAllocation s t = .ok ((m.content requiresAllocation s).bind
      fun y => if y.1 = t then some y.2 else none) := by
  by_cases hv : m.vtable s = some t
  · obtain ⟨v, hx, ⟨hr, a, hp, hheap, -⟩ | ⟨hr, hp, -⟩⟩ := hi.object hv
    · simp only [anyCast, if_pos hv, if_pos hr, pointer, hp, deref, hheap, if_true, ok_bind,
        pure_eq_ok, hx, Option.bind_some]
    · simp only [anyCast, if_pos hv, hr, Bool.false_eq_true, if_false, inPlace, hp, if_true,
        ok_bind, pure_eq_ok, hx, Option.bind_some]
  · rw [anyCast, if_neg hv]
    cases hx : m.content requiresAllocation s with
    | none => rfl
    | some y =>
      have hy : y.1 ≠ t := by
        intro hy
        rw [← hi.map_content, hx, Option.map_some, hy] at hv
        exact hv rfl
      rw [Option.bind_some, if_neg hy]

theorem Follows.owner (hf : m.Follows requiresAllocation σ) {a : ℕ} {y : τ × α}
    (ha : m.heap a = some y) :
    ∃! i, σ i = some (some y) ∧ m.storage (.variable i) = .dynamic (some a) := by
  have haddress : ∀ s, m.address requiresAllocation s = some a → m.vtable s ≠ none ∧
      m.content requiresAllocation s = some y ∧ m.storage s = .dynamic (some a) := by
    intro s hs
    cases hv : m.vtable s with
    | none => cases (address_none hv).symm.trans hs
    | some t =>
      obtain ⟨v, hx, ⟨-, a', hp, hheap, hs'⟩ | ⟨-, -, hs'⟩⟩ := hf.inv.object hv
      · cases hs.symm.trans hs'
        cases ha.symm.trans hheap
        exact ⟨fun h => (by cases h), hx, hp⟩
      · cases hs.symm.trans hs'
  have hback : ∀ i, σ i = some (some y) → m.storage (.variable i) = .dynamic (some a) →
      m.address requiresAllocation (.variable i) = some a := by
    intro i hi hp
    have hx : m.content requiresAllocation (.variable i) = some y := by
      rw [← hf.view, Memory.view] at hi
      split_ifs at hi
      exact Option.some.inj hi
    have hv : m.vtable (.variable i) = some y.1 := by rw [← hf.inv.map_content, hx, Option.map_some]
    obtain ⟨v, -, ⟨-, a', hp', -, hs⟩ | ⟨-, hp', -⟩⟩ := hf.inv.object hv
    · cases hp.symm.trans hp'
      exact hs
    · cases hp.symm.trans hp'
  obtain ⟨s, hs⟩ := hf.inv.ledger.owned a (fun h => by cases ha.symm.trans h)
  obtain ⟨hv, hx, hp⟩ := haddress s hs
  cases s with
  | «variable» i =>
    have hcon : m.constructed i = true := by
      by_contra h
      exact hv (hf.idle.raw i (Bool.not_eq_true _ ▸ h))
    refine ⟨i, ⟨(hf.value hcon).trans (congrArg some hx), hp⟩, fun k hk => ?_⟩
    exact Place.variable.inj (hf.inv.ledger.apart _ _ a (hback k hk.1 hk.2) hs)
  | temporary => exact absurd hf.idle.temporary hv
  | tmp => exact absurd hf.idle.tmp hv
  | tmpStorage => exact absurd hf.idle.tmpStorage hv

theorem start_follows : (start : Memory τ α).Follows requiresAllocation (fun _ => none) where
  inv := ⟨⟨fun _ _ h => (by cases h), fun _ _ _ _ h => (by cases h)⟩,
    fun _ _ _ h => (by cases h), ledger_empty⟩
  idle := ⟨rfl, rfl, rfl, fun _ _ => rfl⟩
  view := rfl

theorem step_improper (hf : m.Follows requiresAllocation σ) {a : Action τ α}
    (hp : ¬m.Proper requiresAllocation a) :
    m.step requiresAllocation a = .error .deadObject := by
  cases a with
  | swap i j =>
    obtain ⟨rfl, hall⟩ := Classical.not_imp.mp hp
    exact swap_self hf.inv.sound hf.idle.tmpStorage hall
  | _ => exact absurd trivial hp

end Memory

open Memory

/-- A program that constructs its variables before it uses them runs without
reading or destroying a dead object exactly if it swaps no object in place with
itself. Then its variables hold what `Values` says, `any_cast` answers from
that, and each object on the heap is the value of one variable. -/
theorem any_values (requiresAllocation : τ → Bool) (as : List (Action τ α))
    (hc : Admitted (step requiresAllocation) Enabled start as) :
    (Admitted (step requiresAllocation) (Proper requiresAllocation) start as ↔
      ∃ m, run (step requiresAllocation) start as = .ok m) ∧
    ∀ m σ, run (step requiresAllocation) start as = .ok m →
      σ = as.foldl Values.act (fun _ => none) →
      (∀ i, m.constructed i = (σ i).isSome) ∧
      (∀ i x t, σ i = some x → m.anyCast requiresAllocation (.variable i) t =
        .ok (x.bind fun y => if y.1 = t then some y.2 else none)) ∧
      ∀ a y, m.heap a = some y →
        ∃! i, σ i = some (some y) ∧ m.storage (.variable i) = .dynamic (some a) := by
  have hstep : ∀ (m : Memory τ α) σ a, m.Follows requiresAllocation σ →
      m.Enabled a ∧ m.Proper requiresAllocation a → Yields (m.step requiresAllocation a)
        (fun m' => m'.Follows requiresAllocation (σ.act a)) (fun _ => False) := by
    intro m σ a hf hcond
    obtain ⟨m', hs, hf'⟩ := step_follows hf hcond.1 hcond.2
    rw [hs]
    exact (yields_ok _ _ _).mpr hf'
  have hproper : ∀ m, run (step requiresAllocation) start as = .ok m →
      Admitted (step requiresAllocation) (Proper requiresAllocation) start as := by
    intro m hr
    refine admitted_of_run Enabled (Proper requiresAllocation)
      (I := fun m => ∃ σ, m.Follows requiresAllocation σ) (E := fun _ => False)
      (fun m a hi he hp => ?_) (fun m a hi he hp => ?_) as start ⟨_, start_follows⟩ hc
      (fun e he => by cases hr.symm.trans he)
    · obtain ⟨σ, hf⟩ := hi
      exact (hstep m σ a hf ⟨he, hp⟩).imp (fun m' hf' => ⟨_, hf'⟩)
    · obtain ⟨σ, hf⟩ := hi
      exact ⟨.deadObject, step_improper hf hp, not_false⟩
  have hrun : ∀ σ, Admitted (step requiresAllocation) (Proper requiresAllocation) start as →
      σ = as.foldl Values.act (fun _ => none) → Yields (run (step requiresAllocation) start as)
        (fun m => m.Follows requiresAllocation σ) (fun _ => False) := by
    rintro σ hp rfl
    exact run_refines _ hstep as start _ start_follows (admitted_and hc hp)
  refine ⟨⟨fun hp => ?_, fun ⟨m, hr⟩ => hproper m hr⟩, fun m σ hr hσ => ?_⟩
  · have hy := hrun _ hp rfl
    cases hr : run (step requiresAllocation) start as with
    | ok m => exact ⟨m, rfl⟩
    | error e => exact (hy.error hr).elim
  · have hf := (hrun σ (hproper m hr) hσ).ok hr
    refine ⟨fun i => ?_, fun i x t hx => ?_, fun a y ha => hf.owner ha⟩
    · rw [← hf.view, Memory.view]
      cases m.constructed i with
      | true => rfl
      | false => rfl
    · have hcon : m.constructed i = true := by
        rw [← hf.view, Memory.view] at hx
        split_ifs at hx with h
        exact h
      rw [anyCast_of hf.inv, ← Option.some.inj ((hf.value hcon).symm.trans hx)]

def exchanges : List (Action ℕ ℕ) :=
  [.constructFrom 0 1 7 0 false, .construct 1, .assign 1 0 1 false, .constructFrom 2 2 5 2 false,
    .swap 0 2, .store 2 1 9, .assignMove 1 2, .copyConstruct 3 1 2 true, .assignFrom 0 1 4 2 false,
    .swap 0 0, .destruct 1]

theorem any_values_exchanges :
    Admitted (step (fun t => t = 1)) Enabled start exchanges ∧
    ∃ m, run (step (fun t => t = 1)) start exchanges = .ok m ∧
      m.anyCast (fun t => t = 1) (.variable 0) 1 = .ok (some 4) ∧
      m.anyCast (fun t => t = 1) (.variable 2) 1 = .ok none := by
  have hc : Admitted (step (fun t => t = 1)) Enabled start exchanges := by decide +kernel
  have h := any_values (fun t => t = 1) exchanges hc
  obtain ⟨m, hr⟩ := h.1.mp (by decide +kernel)
  obtain ⟨-, hcast, -⟩ := h.2 m _ hr rfl
  exact ⟨hc, m, hr, hcast 0 (some (1, 4)) 1 (by decide +kernel), hcast 2 none 1 (by decide +kernel)⟩

end Values

end Lux.Any

import Mathlib.Logic.Equiv.Basic
import Mathlib.Tactic.Common

/-!
# Objects and their owners

Places that may each own one object, known by its address, and a heap of the
objects alive. In a ledger every owned object is alive, no object has two
owners, and none is without. Nothing here depends on the program.
-/

set_option autoImplicit false

namespace Ownership

universe u v w

structure Ledger {σ : Type u} {ι : Type v} {β : Type w} (owns : σ → Option ι)
    (heap : ι → Option β) : Prop where
  live : ∀ s a, owns s = some a → heap a ≠ none
  apart : ∀ s s' a, owns s = some a → owns s' = some a → s = s'
  owned : ∀ a, heap a ≠ none → ∃ s, owns s = some a

variable {σ : Type u} {ι : Type v} {β : Type w} {owns : σ → Option ι} {heap : ι → Option β}

theorem ledger_empty : Ledger (fun _ : σ => (none : Option ι)) (fun _ => (none : Option β)) where
  live := fun _ _ h => by cases h
  apart := fun _ _ _ h => by cases h
  owned := fun _ h => absurd rfl h

theorem Ledger.perm (h : Ledger owns heap) (e : Equiv.Perm σ) : Ledger (owns ∘ e) heap where
  live := fun s => h.live (e s)
  apart := fun s s' a hs hs' => e.injective (h.apart (e s) (e s') a hs hs')
  owned := fun a ha => by
    obtain ⟨s, hs⟩ := h.owned a ha
    exact ⟨e.symm s, by rw [Function.comp_apply, e.apply_symm_apply, hs]⟩

section Update
variable [DecidableEq σ] [DecidableEq ι] {s : σ} {a : ι}

theorem Ledger.create (h : Ledger owns heap) (hs : owns s = none) (ha : heap a = none) (x : β) :
    Ledger (Function.update owns s (some a)) (Function.update heap a (some x)) where
  live := fun s' a' hs' => by
    by_cases he : a' = a
    · rw [he, Function.update_self]
      exact Option.some_ne_none x
    · rw [Function.update_of_ne he]
      by_cases hss : s' = s
      · rw [hss, Function.update_self] at hs'
        exact absurd (Option.some.inj hs').symm he
      · rw [Function.update_of_ne hss] at hs'
        exact h.live s' a' hs'
  apart := fun s₁ s₂ a' h₁ h₂ => by
    have hold : ∀ s', s' ≠ s → Function.update owns s (some a) s' = some a → False := by
      intro s' hne hs'
      rw [Function.update_of_ne hne] at hs'
      exact h.live s' a hs' ha
    by_cases hs₁ : s₁ = s
    · subst hs₁
      rw [Function.update_self] at h₁
      cases h₁
      by_contra hne
      exact hold s₂ (Ne.symm hne) h₂
    · by_cases hs₂ : s₂ = s
      · subst hs₂
        rw [Function.update_self] at h₂
        cases h₂
        exact (hold s₁ hs₁ h₁).elim
      · rw [Function.update_of_ne hs₁] at h₁
        rw [Function.update_of_ne hs₂] at h₂
        exact h.apart s₁ s₂ a' h₁ h₂
  owned := fun a' ha' => by
    by_cases he : a' = a
    · exact ⟨s, by rw [Function.update_self, he]⟩
    · rw [Function.update_of_ne he] at ha'
      obtain ⟨s', hs'⟩ := h.owned a' ha'
      refine ⟨s', ?_⟩
      rw [Function.update_of_ne, hs']
      intro hss
      rw [hss, hs] at hs'
      cases hs'

omit [DecidableEq σ] in
theorem Ledger.replace (h : Ledger owns heap) (x : β) (ha : heap a ≠ none) :
    Ledger owns (Function.update heap a (some x)) where
  live := fun s a' hs => by
    by_cases he : a' = a
    · rw [he, Function.update_self]
      exact Option.some_ne_none x
    · rw [Function.update_of_ne he]
      exact h.live s a' hs
  apart := h.apart
  owned := fun a' ha' => by
    by_cases he : a' = a
    · exact h.owned a' (he ▸ ha)
    · rw [Function.update_of_ne he] at ha'
      exact h.owned a' ha'

theorem Ledger.destroy (h : Ledger owns heap) (hs : owns s = some a) :
    Ledger (Function.update owns s none) (Function.update heap a none) where
  live := fun s' a' hs' => by
    by_cases hss : s' = s
    · rw [hss, Function.update_self] at hs'
      cases hs'
    · rw [Function.update_of_ne hss] at hs'
      rw [Function.update_of_ne]
      · exact h.live s' a' hs'
      · intro he
        exact hss (h.apart s' s a (he ▸ hs') hs)
  apart := fun s₁ s₂ a' h₁ h₂ => by
    by_cases hs₁ : s₁ = s
    · rw [hs₁, Function.update_self] at h₁
      cases h₁
    · by_cases hs₂ : s₂ = s
      · rw [hs₂, Function.update_self] at h₂
        cases h₂
      · rw [Function.update_of_ne hs₁] at h₁
        rw [Function.update_of_ne hs₂] at h₂
        exact h.apart s₁ s₂ a' h₁ h₂
  owned := fun a' ha' => by
    have he : a' ≠ a := by
      rintro rfl
      rw [Function.update_self] at ha'
      exact ha' rfl
    rw [Function.update_of_ne he] at ha'
    obtain ⟨s', hs'⟩ := h.owned a' ha'
    refine ⟨s', ?_⟩
    rw [Function.update_of_ne, hs']
    rintro rfl
    exact he (Option.some.inj (hs'.symm.trans hs))

end Update

end Ownership

import Mathlib.Data.List.Basic
import Mathlib.Tactic.Common

/-!
# Tables of slots

A table with a fixed number of numbered slots, each free or in use, as a
kernel keeps the descriptors of a process. A new entry gets the lowest free
slot. Nothing here depends on the program.
-/

set_option autoImplicit false

namespace SlotTable
variable {α : Type*}

def entry (t : List (Option α)) (i : ℕ) : Option α := t[i]?.join

def release (t : List (Option α)) (i : ℕ) : List (Option α) := t.set i none

def alloc (t : List (Option α)) (a : α) : Option (ℕ × List (Option α)) :=
  (t.findIdx? Option.isNone).map fun i => (i, t.set i (some a))

theorem mem_of_entry {t : List (Option α)} {i : ℕ} {a : α} (h : entry t i = some a) :
    some a ∈ t :=
  List.mem_of_getElem? (Option.join_eq_some_iff.mp h)

def Full (t : List (Option α)) : Prop := ∀ e ∈ t, e ≠ none

instance [DecidableEq α] (t : List (Option α)) : Decidable (Full t) :=
  inferInstanceAs (Decidable (∀ e ∈ t, e ≠ none))

theorem alloc_eq_none_iff {t : List (Option α)} {a : α} : alloc t a = none ↔ Full t := by
  rw [alloc, Option.map_eq_none_iff, List.findIdx?_eq_none_iff]
  exact forall₂_congr fun e _ => by cases e <;> simp

theorem alloc_spec {t t' : List (Option α)} {a : α} {i : ℕ} (h : alloc t a = some (i, t')) :
    entry t i = none ∧ entry t' i = some a ∧ ∀ j, j ≠ i → entry t' j = entry t j := by
  obtain ⟨k, hk, heq⟩ := Option.map_eq_some_iff.mp h
  cases heq
  obtain ⟨hlt, hnone, -⟩ := List.findIdx?_eq_some_iff_getElem.mp hk
  refine ⟨?_, ?_, fun j hj => ?_⟩
  · rw [entry, List.getElem?_eq_getElem hlt]
    exact Option.isNone_iff_eq_none.mp hnone
  · simp [entry, hlt]
  · rw [entry, entry, List.getElem?_set_ne hj.symm]

theorem entry_alloc {t t' : List (Option α)} {a : α} {i : ℕ} (h : alloc t a = some (i, t'))
    (j : ℕ) : entry t' j = if j = i then some a else entry t j := by
  obtain ⟨-, hself, hother⟩ := alloc_spec h
  split_ifs with hj
  · rw [hj, hself]
  · exact hother j hj

theorem entry_release (t : List (Option α)) (i j : ℕ) :
    entry (release t i) j = if j = i then none else entry t j := by
  unfold entry release
  split_ifs with hj
  · subst hj
    by_cases hlt : j < t.length
    · simp [hlt]
    · rw [List.getElem?_eq_none (by simpa using hlt)]
      rfl
  · rw [List.getElem?_set_ne (Ne.symm hj)]

theorem entry_alloc_iff {t t' : List (Option α)} {a b : α} {i : ℕ} (h : alloc t a = some (i, t'))
    (hb : b ≠ a) (j : ℕ) : entry t' j = some b ↔ entry t j = some b := by
  rw [entry_alloc h]
  split_ifs with hj
  · rw [hj, (alloc_spec h).1]
    simp [hb.symm]
  · exact Iff.rfl

theorem entry_release_iff {t : List (Option α)} {b : α} {i : ℕ} (h : entry t i ≠ some b) (j : ℕ) :
    entry (release t i) j = some b ↔ entry t j = some b := by
  rw [entry_release]
  split_ifs with hj
  · rw [hj]
    simp [h]
  · exact Iff.rfl

theorem not_full_release {t : List (Option α)} {i : ℕ} {a : α} (h : entry t i = some a) :
    ¬Full (release t i) := by
  intro hf
  have hlt : i < t.length := by
    by_contra hge
    rw [entry, List.getElem?_eq_none (Nat.le_of_not_lt hge)] at h
    cases h
  exact hf none (List.mem_iff_getElem.mpr ⟨i, by simpa [release] using hlt, by simp [release]⟩) rfl

theorem not_full_release_of_not_full {t : List (Option α)} (h : ¬Full t) (i : ℕ) :
    ¬Full (release t i) := by
  intro hf
  refine h fun e he hn => ?_
  obtain ⟨j, hj, rfl⟩ := List.mem_iff_getElem.mp he
  refine hf none (List.mem_iff_getElem.mpr ⟨j, by simpa [release] using hj, ?_⟩) rfl
  by_cases hij : i = j
  · simp [release, hij]
  · simp [release, hij, hn]

theorem exists_alloc {t : List (Option α)} (h : ¬Full t) (a : α) :
    ∃ i t', alloc t a = some (i, t') := by
  cases ha : alloc t a with
  | none => exact absurd (alloc_eq_none_iff.mp ha) h
  | some r => exact ⟨r.1, r.2, rfl⟩

end SlotTable

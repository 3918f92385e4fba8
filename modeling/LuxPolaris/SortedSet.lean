import Mathlib.Order.Lattice
import Mathlib.Tactic.Common

/-!
# Ordered sets

The set of a C++ `std::set`: its elements in increasing order, each once. The
order of the elements is a field, so every value is sorted. Nothing here
depends on the program.
-/

set_option autoImplicit false

universe u

structure SortedSet (α : Type u) [LinearOrder α] where
  elems : List α
  sorted : elems.Pairwise (· < ·)
  deriving DecidableEq

namespace SortedSet
variable {α : Type u} [LinearOrder α]

instance : Membership α (SortedSet α) := ⟨fun s x => x ∈ s.elems⟩

instance (x : α) (s : SortedSet α) : Decidable (x ∈ s) :=
  inferInstanceAs (Decidable (x ∈ s.elems))

def empty : SortedSet α := ⟨[], .nil⟩

def size (s : SortedSet α) : ℕ := s.elems.length

def begin? (s : SortedSet α) : Option α := s.elems.head?

def insertList (x : α) : List α → List α
  | [] => [x]
  | y::ys => if x < y then x::y::ys else if y < x then y::insertList x ys else y::ys

theorem mem_insertList {x y : α} {l : List α} : y ∈ insertList x l ↔ y = x ∨ y ∈ l := by
  induction l with
  | nil => simp [insertList]
  | cons z l ih =>
    rw [insertList]
    split_ifs with h h'
    · rw [List.mem_cons]
    · rw [List.mem_cons, ih, List.mem_cons, or_left_comm]
    · have hz : x = z := le_antisymm (not_lt.mp h') (not_lt.mp h)
      subst hz
      simp

theorem insertList_sorted {x : α} {l : List α} (h : l.Pairwise (· < ·)) :
    (insertList x l).Pairwise (· < ·) := by
  induction l with
  | nil => simp [insertList]
  | cons z l ih =>
    rw [insertList]
    split_ifs with hx hz
    · refine List.pairwise_cons.mpr ⟨fun y hy => ?_, h⟩
      rcases List.mem_cons.mp hy with he | hm
      · exact he ▸ hx
      · exact lt_trans hx (List.rel_of_pairwise_cons h hm)
    · refine List.pairwise_cons.mpr ⟨fun y hy => ?_, ih h.of_cons⟩
      rcases mem_insertList.mp hy with he | hm
      · exact he ▸ hz
      · exact List.rel_of_pairwise_cons h hm
    · exact h

theorem length_insertList {x : α} {l : List α} (h : x ∉ l) :
    (insertList x l).length = l.length+1 := by
  induction l with
  | nil => rfl
  | cons z l ih =>
    rw [List.mem_cons, not_or] at h
    rw [insertList]
    split_ifs with hx hz
    · rfl
    · rw [List.length_cons, ih h.2, List.length_cons]
    · exact absurd (le_antisymm (not_lt.mp hz) (not_lt.mp hx)) h.1

def insert (s : SortedSet α) (x : α) : SortedSet α :=
  ⟨insertList x s.elems, insertList_sorted s.sorted⟩

def erase (s : SortedSet α) (x : α) : SortedSet α :=
  ⟨s.elems.erase x, s.sorted.sublist List.erase_sublist⟩

def below (s : SortedSet α) (x : α) : List α := s.elems.takeWhile (· < x)

def from_ (s : SortedSet α) (x : α) : SortedSet α :=
  ⟨s.elems.dropWhile (· < x), s.sorted.sublist (List.dropWhile_sublist _)⟩

@[simp] theorem not_mem_empty (x : α) : x ∉ (empty : SortedSet α) := List.not_mem_nil

@[simp] theorem mem_insert {s : SortedSet α} {x y : α} : y ∈ s.insert x ↔ y = x ∨ y ∈ s :=
  mem_insertList

theorem nodup (s : SortedSet α) : s.elems.Nodup := s.sorted.imp ne_of_lt

@[simp] theorem mem_erase {s : SortedSet α} {x y : α} : y ∈ s.erase x ↔ y ≠ x ∧ y ∈ s :=
  s.nodup.mem_erase_iff

theorem size_insert {s : SortedSet α} {x : α} (h : x ∉ s) : (s.insert x).size = s.size+1 :=
  length_insertList h

theorem size_erase {s : SortedSet α} {x : α} (h : x ∈ s) : (s.erase x).size+1 = s.size := by
  have hl : (s.erase x).size = s.size-1 := List.length_erase_of_mem h
  have hp : 0 < s.size := List.length_pos_of_mem h
  omega

theorem begin?_eq_none {s : SortedSet α} : s.begin? = none ↔ ∀ x, x ∉ s := by
  rw [begin?, List.head?_eq_none_iff, List.eq_nil_iff_forall_not_mem]
  rfl

theorem begin?_spec {s : SortedSet α} {x : α} (h : s.begin? = some x) :
    x ∈ s ∧ ∀ y ∈ s, x ≤ y := by
  obtain ⟨l, hl⟩ := List.head?_eq_some_iff.mp h
  have hs := s.sorted
  rw [hl] at hs
  constructor
  · change x ∈ s.elems
    simp [hl]
  · intro y hy
    change y ∈ s.elems at hy
    rw [hl] at hy
    rcases List.mem_cons.mp hy with he | hm
    · exact le_of_eq he.symm
    · exact le_of_lt (List.rel_of_pairwise_cons hs hm)

theorem below_append_from (s : SortedSet α) (x : α) : s.below x ++ (s.from_ x).elems = s.elems :=
  List.takeWhile_append_dropWhile

theorem mem_below_aux {x y : α} {l : List α} (h : l.Pairwise (· < ·)) :
    (y ∈ l.takeWhile (· < x) ↔ y ∈ l ∧ y < x) ∧ (y ∈ l.dropWhile (· < x) ↔ y ∈ l ∧ x ≤ y) := by
  induction l with
  | nil => simp
  | cons z l ih =>
    by_cases hz : z < x
    · have hd := ih h.of_cons
      simp only [List.takeWhile_cons, List.dropWhile_cons, hz, decide_true, if_true,
        List.mem_cons, hd.1, hd.2]
      constructor
      · constructor
        · intro hy
          rcases hy with he | hm
          · exact ⟨Or.inl he, he ▸ hz⟩
          · exact ⟨Or.inr hm.1, hm.2⟩
        · intro hy
          rcases hy.1 with he | hm
          · exact Or.inl he
          · exact Or.inr ⟨hm, hy.2⟩
      · constructor
        · exact fun hy => ⟨Or.inr hy.1, hy.2⟩
        · intro hy
          rcases hy.1 with he | hm
          · exact absurd hy.2 (not_le.mpr (he ▸ hz))
          · exact ⟨hm, hy.2⟩
    · simp only [List.takeWhile_cons, List.dropWhile_cons, hz, decide_false, Bool.false_eq_true,
        if_false]
      -- everything from the first element that is not below `x` on is not below it
      have hle : ∀ w ∈ z::l, x ≤ w := by
        intro w hw
        rcases List.mem_cons.mp hw with he | hm
        · exact he ▸ not_lt.mp hz
        · exact le_trans (not_lt.mp hz) (le_of_lt (List.rel_of_pairwise_cons h hm))
      constructor
      · constructor
        · intro hy
          exact absurd hy List.not_mem_nil
        · intro hy
          exact absurd hy.2 (not_lt.mpr (hle y hy.1))
      · exact ⟨fun hy => ⟨hy, hle y hy⟩, And.left⟩

theorem mem_below {s : SortedSet α} {x y : α} : y ∈ s.below x ↔ y ∈ s ∧ y < x :=
  (mem_below_aux s.sorted).1

theorem mem_from {s : SortedSet α} {x y : α} : y ∈ s.from_ x ↔ y ∈ s ∧ x ≤ y :=
  (mem_below_aux s.sorted).2

theorem below_nodup (s : SortedSet α) (x : α) : (s.below x).Nodup :=
  s.nodup.sublist (List.takeWhile_sublist _)

theorem length_below (s : SortedSet α) (x : α) :
    (s.below x).length+(s.from_ x).size = s.size := by
  rw [size, size, ← below_append_from s x, List.length_append]

end SortedSet

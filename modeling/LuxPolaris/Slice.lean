import Mathlib.Data.List.Basic
import Mathlib.Tactic.Common

/-!
# Slices of a block of cells

A block is a list of cells addressed from zero. `slice` reads a half-open
range and `overwrite` stores a list at a position, both in the manner of
`memcpy`; `resize` keeps a prefix and fills the rest. The lemmas say which
ranges a store leaves alone and which one it determines.
-/

set_option autoImplicit false

namespace Slice
variable {α : Type*}

def slice (buf : List α) (i j : ℕ) : List α := (buf.take j).drop i

def overwrite (buf : List α) (pos : ℕ) (data : List α) : List α :=
  buf.take pos ++ data ++ buf.drop (pos+data.length)

def resize (buf : List α) (n : ℕ) (fill : α) : List α :=
  buf.take n ++ List.replicate (n-buf.length) fill

theorem length_slice (buf : List α) (i j : ℕ) (hj : j ≤ buf.length) :
    (slice buf i j).length = j-i := by
  simp [slice, Nat.min_eq_left hj]

@[simp] theorem slice_self (buf : List α) (i : ℕ) : slice buf i i = [] := by
  simp [slice]

theorem slice_append_slice (buf : List α) {i j k : ℕ} (hij : i ≤ j) (hjk : j ≤ k) :
    slice buf i j ++ slice buf j k = slice buf i k := by
  have hk : buf.take k = buf.take j ++ (buf.take k).drop j := by
    conv_lhs => rw [← List.take_append_drop j (buf.take k)]
    rw [List.take_take, Nat.min_eq_left hjk]
  simp only [slice]
  conv_rhs => rw [hk]
  by_cases hl : j ≤ buf.length
  · rw [List.drop_append_of_le_length (by simp; omega)]
  · have hn : (buf.take k).drop j = [] := by
      apply List.drop_eq_nil_of_le
      simp only [List.length_take]
      omega
    simp [hn]

theorem drop_slice (buf : List α) (i j n : ℕ) :
    (slice buf i j).drop n = slice buf (i+n) j := by
  simp [slice, List.drop_drop]

theorem take_slice (buf : List α) {i j n : ℕ} (h : i+n ≤ j) :
    (slice buf i j).take n = slice buf i (i+n) := by
  simp only [slice, List.take_drop, List.take_take, Nat.min_eq_left h]

theorem length_overwrite (buf : List α) (pos : ℕ) (data : List α)
    (h : pos+data.length ≤ buf.length) : (overwrite buf pos data).length = buf.length := by
  simp only [overwrite, List.length_append, List.length_take, List.length_drop]
  omega

theorem slice_overwrite (buf : List α) (pos : ℕ) (data : List α) (h : pos ≤ buf.length) :
    slice (overwrite buf pos data) pos (pos+data.length) = data := by
  have hp : (buf.take pos).length = pos := by simp [h]
  have ht : (overwrite buf pos data).take (pos+data.length) = buf.take pos ++ data := by
    rw [overwrite, List.take_append_of_le_length (by simp [h])]
    exact List.take_of_length_le (by simp [h])
  rw [slice, ht, List.drop_append_of_le_length (by simp [h]), List.drop_eq_nil_of_le (by simp [h])]
  rfl

theorem slice_overwrite_before (buf : List α) (pos : ℕ) (data : List α) {i j : ℕ}
    (hj : j ≤ pos) (h : pos ≤ buf.length) :
    slice (overwrite buf pos data) i j = slice buf i j := by
  have ht : (overwrite buf pos data).take j = buf.take j := by
    rw [overwrite, List.append_assoc, List.take_append_of_le_length (by simp; omega),
      List.take_take, Nat.min_eq_left hj]
  rw [slice, ht, slice]

theorem slice_overwrite_after (buf : List α) (pos : ℕ) (data : List α) {i j : ℕ}
    (hi : pos+data.length ≤ i) (h : pos+data.length ≤ buf.length) :
    slice (overwrite buf pos data) i j = slice buf i j := by
  have hp : (buf.take pos ++ data).length = pos+data.length := by simp; omega
  simp only [slice, List.drop_take]
  congr 1
  rw [overwrite, List.drop_append, hp, List.drop_eq_nil_of_le (by omega), List.nil_append,
    List.drop_drop]
  congr 1
  omega

theorem length_resize (buf : List α) (n : ℕ) (fill : α) : (resize buf n fill).length = n := by
  simp only [resize, List.length_append, List.length_take, List.length_replicate]
  omega

theorem slice_resize (buf : List α) {n i j : ℕ} (fill : α) (hj : j ≤ buf.length) (hn : j ≤ n) :
    slice (resize buf n fill) i j = slice buf i j := by
  simp only [slice, resize]
  rw [List.take_append_of_le_length (by simp; omega), List.take_take, Nat.min_eq_left hn]

end Slice

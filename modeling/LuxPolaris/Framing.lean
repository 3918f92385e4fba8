import Mathlib.Data.List.Basic
import Mathlib.Tactic.Common

/-!
# Frames in a stream

A stream is cut at every first occurrence of a delimiter. What lies before the
cuts are its frames, and the rest holds no delimiter. Frames and rest are
determined by the stream. Nothing here depends on the program.
-/

set_option autoImplicit false

namespace Framing
variable {α : Type*}

def Occurs (d xs : List α) (i : ℕ) : Prop := d <+: xs.drop i

def Free (d xs : List α) : Prop := ∀ i, ¬Occurs d xs i

/-- In front of the delimiter it has not occurred yet. -/
def IsFrame (d f : List α) : Prop := ∀ i < f.length, ¬Occurs d (f++d) i

structure Framed (d : List α) (frames : List (List α)) (rest : List α) : Prop where
  frame : ∀ f ∈ frames, IsFrame d f
  free : Free d rest

def joined (d : List α) (frames : List (List α)) (rest : List α) : List α :=
  (frames.map (· ++ d)).flatten ++ rest

section Occurrences
variable {d xs ys : List α} {i : ℕ}

theorem occurs_append_left (h : i+d.length ≤ xs.length) :
    Occurs d (xs++ys) i ↔ Occurs d xs i := by
  unfold Occurs
  rw [List.drop_append_of_le_length (by omega)]
  constructor
  · intro hp
    refine List.prefix_of_prefix_length_le hp (List.prefix_append _ _) ?_
    rw [List.length_drop]
    omega
  · exact fun hp => hp.trans (List.prefix_append _ _)

theorem occurs_append_right : Occurs d (xs++ys) (xs.length+i) ↔ Occurs d ys i := by
  unfold Occurs
  rw [List.drop_append, List.drop_eq_nil_of_le (Nat.le_add_right _ _), Nat.add_sub_cancel_left,
    List.nil_append]

theorem occurs_le (hd : d ≠ []) (h : Occurs d xs i) : i+d.length ≤ xs.length := by
  have hle := h.length_le
  have hpos := List.length_pos_iff.mpr hd
  rw [List.length_drop] at hle
  omega

theorem free_nil (hd : d ≠ []) : Free d ([] : List α) := by
  intro i h
  have := occurs_le hd h
  have hpos := List.length_pos_iff.mpr hd
  simp only [List.length_nil] at this
  omega

end Occurrences

section Unique
variable {d : List α}

theorem joined_cons (f : List α) (frames : List (List α)) (rest : List α) :
    joined d (f::frames) rest = f ++ (d ++ joined d frames rest) := by
  simp [joined]

theorem joined_append (fs gs : List (List α)) (rest : List α) :
    joined d (fs++gs) rest = joined d fs [] ++ joined d gs rest := by
  simp [joined]

theorem joined_rest (fs : List (List α)) (rest more : List α) :
    joined d fs (rest++more) = joined d fs rest ++ more := by
  simp [joined]

theorem length_le_of_frame {f g xs ys : List α} (hg : IsFrame d g)
    (h : f ++ (d ++ xs) = g ++ (d ++ ys)) : g.length ≤ f.length := by
  by_contra hlt
  have hlt' : f.length < g.length := Nat.lt_of_not_le hlt
  have hocc : Occurs d ((g++d)++ys) f.length := by
    rw [List.append_assoc, ← h]
    exact (occurs_append_right (i := 0)).mpr (List.prefix_append _ _)
  refine hg f.length hlt' ((occurs_append_left ?_).mp hocc)
  rw [List.length_append]
  omega

theorem framed_unique {fs gs : List (List α)} {r q : List α}
    (hf : Framed d fs r) (hg : Framed d gs q) (h : joined d fs r = joined d gs q) :
    fs = gs ∧ r = q := by
  have hnot : ∀ {f : List α} {hs : List (List α)} {s t : List α}, Free d t →
      joined d (f::hs) s ≠ t := by
    intro f hs s t ht he
    rw [joined_cons] at he
    refine ht f.length ?_
    rw [← he]
    exact (occurs_append_right (i := 0)).mpr (List.prefix_append _ _)
  induction fs generalizing gs with
  | nil =>
    cases gs with
    | nil => exact ⟨rfl, by simpa [joined] using h⟩
    | cons g gs => exact absurd h.symm (hnot (by simpa [joined] using hf.free))
  | cons f fs ih =>
    cases gs with
    | nil => exact absurd h (hnot (by simpa [joined] using hg.free))
    | cons g gs =>
      rw [joined_cons, joined_cons] at h
      have hlen : f.length = g.length := Nat.le_antisymm
        (length_le_of_frame (hf.frame f List.mem_cons_self) h.symm)
        (length_le_of_frame (hg.frame g List.mem_cons_self) h)
      obtain ⟨hfg, hrest⟩ := List.append_inj h hlen
      obtain ⟨hfs, hr⟩ := ih ⟨fun x hx => hf.frame x (List.mem_cons_of_mem _ hx), hf.free⟩
        ⟨fun x hx => hg.frame x (List.mem_cons_of_mem _ hx), hg.free⟩
        (List.append_cancel_left hrest)
      exact ⟨by rw [hfg, hfs], hr⟩

theorem Framed.append {fs gs : List (List α)} {r q : List α} (hf : Framed d fs r)
    (hg : Framed d gs q) : Framed d (fs++gs) q := by
  refine ⟨fun f hm => ?_, hg.free⟩
  rcases List.mem_append.mp hm with h | h
  · exact hf.frame f h
  · exact hg.frame f h

end Unique

end Framing

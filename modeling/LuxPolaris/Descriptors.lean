import Mathlib.Logic.Function.Basic
import Mathlib.Tactic.Common

/-!
# Descriptors and what is done with them

A kernel names an open object by a descriptor and may give the descriptor of a
closed one to a later object. Objects are numbered as they are created; the
ledger keeps for each of them the uses made of it, in order. Some uses are
final: the user of the ledger closes the object or gives it away. Nothing here
depends on the program.
-/

set_option autoImplicit false

namespace Descriptors

/-- `strays` counts the uses of a descriptor that names nothing. -/
structure Ledger (υ : Type) where
  descriptors : ℕ → Option ℕ
  created : ℕ
  uses : ℕ → List υ
  strays : ℕ

variable {υ : Type}

namespace Ledger

def empty : Ledger υ := ⟨fun _ => none, 0, fun _ => [], 0⟩

def create (l : Ledger υ) (fd : ℕ) : Ledger υ :=
  { l with
    descriptors := Function.update l.descriptors fd (some l.created)
    created := l.created+1
    uses := Function.update l.uses l.created [] }

def use (l : Ledger υ) (fd : ℕ) (u : υ) : Ledger υ :=
  match l.descriptors fd with
  | none => { l with strays := l.strays+1 }
  | some n => { l with uses := Function.update l.uses n (l.uses n ++ [u]) }

def free (l : Ledger υ) (fd : ℕ) : Ledger υ :=
  { l with descriptors := Function.update l.descriptors fd none }

end Ledger

def InUse (F : υ → Prop) (us : List υ) : Prop := ∀ u ∈ us, ¬F u

def Finished (F : υ → Prop) (us : List υ) : Prop :=
  ∃ vs u, us = vs ++ [u] ∧ F u ∧ InUse F vs

structure Sound (l : Ledger υ) : Prop where
  table : ∀ fd n, l.descriptors fd = some n → n < l.created
  strays : l.strays = 0

structure Done (F : υ → Prop) (l : Ledger υ) : Prop where
  sound : Sound l
  finished : ∀ n < l.created, Finished F (l.uses n)

/-- One object is in use, under the descriptor `fd`, and every other one is
finished with. -/
structure Holds (F : υ → Prop) (l : Ledger υ) (fd n : ℕ) : Prop where
  sound : Sound l
  names : l.descriptors fd = some n
  inUse : InUse F (l.uses n)
  others : ∀ m < l.created, m ≠ n → Finished F (l.uses m)

variable {F : υ → Prop} {l : Ledger υ} {fd n : ℕ}

theorem empty_done : Done F (Ledger.empty : Ledger υ) := ⟨⟨nofun, rfl⟩, nofun⟩

theorem create_holds (h : Done F l) (fd : ℕ) : Holds F (l.create fd) fd l.created := by
  refine ⟨⟨fun gd m hm => ?_, h.sound.strays⟩, by simp [Ledger.create], ?_, ?_⟩
  · by_cases hg : gd = fd
    · have he : l.created = m := by simpa [Ledger.create, hg] using hm
      show m < l.created+1
      omega
    · have hlt := h.sound.table gd m (by simpa [Ledger.create, hg] using hm)
      exact Nat.lt_succ_of_lt hlt
  · simp [Ledger.create, InUse]
  · intro m hm hne
    have hlt : m < l.created := by
      have hle : m < l.created+1 := hm
      omega
    have huses : (l.create fd).uses m = l.uses m := by simp [Ledger.create, hne]
    rw [huses]
    exact h.finished m hlt

theorem use_eq (h : l.descriptors fd = some n) (u : υ) :
    l.use fd u = { l with uses := Function.update l.uses n (l.uses n ++ [u]) } := by
  rw [Ledger.use, h]

theorem use_holds (h : Holds F l fd n) {u : υ} (hu : ¬F u) : Holds F (l.use fd u) fd n := by
  rw [use_eq h.names]
  refine ⟨⟨h.sound.table, h.sound.strays⟩, h.names, ?_, fun m hm hne => ?_⟩
  · intro v hv
    have hmem : v ∈ l.uses n ∨ v = u := by simpa using hv
    rcases hmem with hv | rfl
    · exact h.inUse v hv
    · exact hu
  · have hother := h.others m hm hne
    simpa [hne] using hother

theorem use_done (h : Holds F l fd n) {u : υ} (hu : F u) : Done F (l.use fd u) := by
  rw [use_eq h.names]
  refine ⟨⟨h.sound.table, h.sound.strays⟩, fun m hm => ?_⟩
  by_cases hne : m = n
  · subst hne
    exact ⟨l.uses m, u, by simp, hu, h.inUse⟩
  · have hother := h.others m hm hne
    simpa [hne] using hother

theorem free_sound (h : Sound l) (fd : ℕ) : Sound (l.free fd) := by
  refine ⟨fun gd m hm => h.table gd m ?_, h.strays⟩
  by_cases hg : gd = fd
  · simp [Ledger.free, hg] at hm
  · simpa [Ledger.free, hg] using hm

theorem free_done (h : Done F l) (fd : ℕ) : Done F (l.free fd) :=
  ⟨free_sound h.sound fd, h.finished⟩

theorem free_holds {gd : ℕ} (h : Holds F l fd n) (hg : gd ≠ fd) : Holds F (l.free gd) fd n := by
  refine ⟨free_sound h.sound gd, ?_, h.inUse, h.others⟩
  simpa [Ledger.free, Ne.symm hg] using h.names

end Descriptors

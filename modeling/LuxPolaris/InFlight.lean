import Mathlib.Data.List.Count
import Mathlib.Logic.Function.Basic
import Mathlib.Tactic.Common

/-!
# Messages in flight

Queues of messages between several parties. Some messages are about a key, and
`due` says for each key which message about it is on its way, and in which
queue: there is one of it and no other. Messages about no key are free. Nothing
here depends on the program.
-/

set_option autoImplicit false

universe u v w

section
variable {ι : Type u} {κ : Type v} {μ : Type w} [DecidableEq ι] [DecidableEq μ]

def InFlight (key : μ → Option κ) (due : κ → Option (ι × μ)) (queue : ι → List μ) : Prop :=
  ∀ l m k, key m = some k → (queue l).count m = if due k = some (l, m) then 1 else 0

namespace InFlight
variable {key : μ → Option κ} {due : κ → Option (ι × μ)} {queue : ι → List μ} {l : ι} {m : μ}
  {k : κ}

theorem due_of_mem (h : InFlight key due queue) (hk : key m = some k) (hm : m ∈ queue l) :
    due k = some (l, m) := by
  by_contra hd
  have hcount := h l m k hk
  rw [if_neg hd] at hcount
  exact List.count_eq_zero.mp hcount hm

theorem congr {queue' : ι → List μ} (h : InFlight key due queue)
    (hq : ∀ l m k, key m = some k → (queue' l).count m = (queue l).count m) :
    InFlight key due queue' := by
  intro l m k hk
  rw [hq l m k hk]
  exact h l m k hk

theorem append_free (h : InFlight key due queue) {ms : List μ} (hf : ∀ m ∈ ms, key m = none) :
    InFlight key due (Function.update queue l (queue l ++ ms)) := by
  refine h.congr (fun l' m k hk => ?_)
  by_cases hl : l' = l
  · subst hl
    have hm : m ∉ ms := fun hm => nomatch (hf m hm).symm.trans hk
    rw [Function.update_self, List.count_append, List.count_eq_zero.mpr hm, Nat.add_zero]
  · rw [Function.update_of_ne hl]

theorem pop_free (h : InFlight key due queue) {ms : List μ} (hq : queue l = m::ms)
    (hf : key m = none) : InFlight key due (Function.update queue l ms) := by
  refine h.congr (fun l' m' k hk => ?_)
  by_cases hl : l' = l
  · subst hl
    have hm : m ≠ m' := by
      rintro rfl
      exact nomatch hf.symm.trans hk
    rw [Function.update_self, hq, List.count_cons_of_ne hm]
  · rw [Function.update_of_ne hl]

omit [DecidableEq μ] in
theorem ne_of_key {m' : μ} {k' : κ} (hk : key m = some k) (hk' : key m' = some k')
    (hne : k' ≠ k) : m ≠ m' := by
  rintro rfl
  exact hne (Option.some.inj (hk'.symm.trans hk))

variable [DecidableEq κ]

theorem pop (h : InFlight key due queue) {ms : List μ} (hq : queue l = m::ms)
    (hk : key m = some k) :
    InFlight key (Function.update due k none) (Function.update queue l ms) := by
  have hd : due k = some (l, m) := h.due_of_mem hk (by simp [hq])
  intro l' m' k' hk'
  have hcount := h l' m' k' hk'
  by_cases hkk : k' = k
  · subst hkk
    rw [Function.update_self, if_neg nofun]
    by_cases hl : l' = l
    · subst hl
      rw [Function.update_self]
      rw [hq, hd] at hcount
      by_cases hm : m = m'
      · subst hm
        rw [List.count_cons_self, if_pos rfl] at hcount
        omega
      · rw [List.count_cons_of_ne hm, if_neg (by simp [hm])] at hcount
        exact hcount
    · rw [Function.update_of_ne hl, hcount, hd, if_neg (by simp [Ne.symm hl])]
  · have hm := ne_of_key hk hk' hkk
    rw [Function.update_of_ne hkk, ← hcount]
    by_cases hl : l' = l
    · subst hl
      rw [Function.update_self, hq, List.count_cons_of_ne hm]
    · rw [Function.update_of_ne hl]

theorem push (h : InFlight key due queue) (hd : due k = none) (hk : key m = some k) :
    InFlight key (Function.update due k (some (l, m)))
      (Function.update queue l (queue l ++ [m])) := by
  intro l' m' k' hk'
  have hcount := h l' m' k' hk'
  by_cases hkk : k' = k
  · subst hkk
    rw [hd, if_neg nofun] at hcount
    rw [Function.update_self]
    by_cases hl : l' = l
    · subst hl
      rw [Function.update_self, List.count_append, hcount, List.count_singleton]
      by_cases hm : m = m'
      · simp [hm]
      · simp [hm]
    · rw [Function.update_of_ne hl, hcount, if_neg (by simp [Ne.symm hl])]
  · have hm := ne_of_key hk hk' hkk
    rw [Function.update_of_ne hkk, ← hcount]
    by_cases hl : l' = l
    · subst hl
      rw [Function.update_self, List.count_append, List.count_singleton, if_neg (by simpa using hm),
        Nat.add_zero]
    · rw [Function.update_of_ne hl]

end InFlight

end

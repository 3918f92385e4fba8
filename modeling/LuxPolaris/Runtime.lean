import LuxPolaris.Outcome
import Mathlib.Algebra.Ring.Int.Defs
import Mathlib.Algebra.Ring.Nat
import Mathlib.Data.Rat.Defs

/-!
# The C++ runtime the library is compiled against

`size_t` values are naturals below `2^64` and every sum or difference of them
wraps. A failed `assert`, an exception and an access outside an object stop
the run with a `Fault`. The build is the one with assertions enabled.
-/

set_option autoImplicit false

namespace Lux.Polaris
open Outcome

abbrev Byte := UInt8

abbrev Seconds := ℚ

inductive Fault where
  | assertion (expr : String)
  | lengthError
  | outOfBounds
  | useAfterFree
  | nullPointer
  deriving DecidableEq, Repr

def assertThat (p : Prop) [Decidable p] (expr : String) : Except Fault Unit :=
  if p then .ok () else .error (.assertion expr)

@[simp] theorem assertThat_of {p : Prop} [Decidable p] (h : p) (expr : String) :
    assertThat p expr = .ok () := if_pos h

@[simp] theorem assertThat_of_not {p : Prop} [Decidable p] (h : ¬p) (expr : String) :
    assertThat p expr = .error (.assertion expr) := if_neg h

theorem assertThat_ok {p : Prop} [Decidable p] {expr : String} {u : Unit} :
    assertThat p expr = .ok u ↔ p := by
  by_cases h : p <;> simp [h]

def sizeT (n : ℕ) : ℕ := n % 2^64

def sizeSub (a b : ℕ) : ℕ := (a+(2^64-b)) % 2^64

theorem sizeT_of_lt {n : ℕ} (h : n < 2^64) : sizeT n = n := Nat.mod_eq_of_lt h

theorem sizeSub_of_le {a b : ℕ} (hb : b ≤ a) (ha : a < 2^64) : sizeSub a b = a-b := by
  unfold sizeSub
  omega

/-- `std::vector<char>::max_size()`, which is also the largest size of any
object in memory. -/
def maxSize : ℕ := 2^63-1

end Lux.Polaris

import Mathlib.Data.Nat.Digits.Defs
import Mathlib.Tactic.Common

/-!
# Byte orders

An integer of `n` bytes has two byte sequences, least and most significant
byte first. Each determines the other by reversal, and each determines the
integer. A little-endian host keeps the first in memory, the network carries
the second, and `byteSwap` is the conversion between them.
-/

set_option autoImplicit false

namespace ByteOrder

def ofBytesLE (bs : List UInt8) : ℕ := Nat.ofDigits 256 (bs.map UInt8.toNat)

def ofBytesBE (bs : List UInt8) : ℕ := bs.foldl (fun x b => 256*x+b.toNat) 0

def bytesLE : ℕ → ℕ → List UInt8
  | 0, _ => []
  | n+1, x => UInt8.ofNat x :: bytesLE n (x/256)

def bytesBE : ℕ → ℕ → List UInt8
  | 0, _ => []
  | n+1, x => UInt8.ofNat (x/256^n) :: bytesBE n x

section Naturals

@[simp] theorem length_bytesLE (n x : ℕ) : (bytesLE n x).length = n := by
  induction n generalizing x with
  | zero => rfl
  | succ n ih => simp [bytesLE, ih]

@[simp] theorem length_bytesBE (n x : ℕ) : (bytesBE n x).length = n := by
  induction n with
  | zero => rfl
  | succ n ih => simp [bytesBE, ih]

theorem ofBytesLE_nil : ofBytesLE [] = 0 := rfl

theorem ofBytesLE_cons (b : UInt8) (bs : List UInt8) :
    ofBytesLE (b::bs) = b.toNat+256*ofBytesLE bs := by
  simp [ofBytesLE, Nat.ofDigits_cons]

theorem ofBytesLE_append (as bs : List UInt8) :
    ofBytesLE (as++bs) = ofBytesLE as+256^as.length*ofBytesLE bs := by
  simp [ofBytesLE, Nat.ofDigits_append]

theorem ofBytesLE_lt (bs : List UInt8) : ofBytesLE bs < 256^bs.length := by
  have h := Nat.ofDigits_lt_base_pow_length (b := 256) (l := bs.map UInt8.toNat) (by decide) ?_
  · simpa [ofBytesLE] using h
  · intro x hx
    obtain ⟨b, -, rfl⟩ := List.mem_map.mp hx
    exact b.toNat_lt

theorem ofBytesLE_bytesLE {n x : ℕ} (h : x < 256^n) : ofBytesLE (bytesLE n x) = x := by
  induction n generalizing x with
  | zero =>
    rw [Nat.pow_zero, Nat.lt_one_iff] at h
    exact h.symm
  | succ n ih =>
    have hd : x/256 < 256^n := by
      rw [Nat.div_lt_iff_lt_mul (by decide), ← Nat.pow_succ]
      exact h
    rw [bytesLE, ofBytesLE_cons, ih hd, UInt8.toNat_ofNat']
    exact Nat.mod_add_div x 256

theorem bytesLE_ofBytesLE (bs : List UInt8) : bytesLE bs.length (ofBytesLE bs) = bs := by
  induction bs with
  | nil => rfl
  | cons b bs ih =>
    have hb : b.toNat < 256 := b.toNat_lt
    have hhead : UInt8.ofNat (b.toNat+256*ofBytesLE bs) = b := by
      apply UInt8.toNat_inj.mp
      rw [UInt8.toNat_ofNat']
      omega
    have htail : (b.toNat+256*ofBytesLE bs)/256 = ofBytesLE bs := by omega
    rw [List.length_cons, bytesLE, ofBytesLE_cons, hhead, htail, ih]

theorem bytesLE_succ (n x : ℕ) :
    bytesLE (n+1) x = bytesLE n x ++ [UInt8.ofNat (x/256^n)] := by
  induction n generalizing x with
  | zero => simp [bytesLE]
  | succ n ih =>
    have hdiv : x/256/256^n = x/256^(n+1) := by
      rw [Nat.div_div_eq_div_mul, Nat.pow_succ, Nat.mul_comm]
    rw [bytesLE, ih, hdiv, bytesLE, List.cons_append]

theorem bytesBE_eq_reverse (n x : ℕ) : bytesBE n x = (bytesLE n x).reverse := by
  induction n with
  | zero => rfl
  | succ n ih => rw [bytesBE, ih, bytesLE_succ, List.reverse_append, List.reverse_singleton,
      List.singleton_append]

theorem ofBytesBE_eq_reverse (bs : List UInt8) : ofBytesBE bs = ofBytesLE bs.reverse := by
  have h : ∀ x, bs.foldl (fun x b => 256*x+b.toNat) x =
      ofBytesLE bs.reverse+256^bs.length*x := by
    induction bs with
    | nil => simp [ofBytesLE_nil]
    | cons b bs ih =>
      intro x
      rw [List.foldl_cons, ih, List.reverse_cons, ofBytesLE_append, ofBytesLE_cons, ofBytesLE_nil,
        List.length_reverse, List.length_cons]
      ring
  simpa [ofBytesBE] using h 0

theorem ofBytesBE_bytesBE {n x : ℕ} (h : x < 256^n) : ofBytesBE (bytesBE n x) = x := by
  rw [ofBytesBE_eq_reverse, bytesBE_eq_reverse, List.reverse_reverse, ofBytesLE_bytesLE h]

theorem getLast?_bytesBE (n x : ℕ) : (bytesBE (n+1) x).getLast? = some (UInt8.ofNat x) := by
  rw [bytesBE_eq_reverse, List.getLast?_reverse]
  rfl

theorem ofBytesLE_lt_half {bs : List UInt8} {b : UInt8} (h : bs.getLast? = some b) :
    2*ofBytesLE bs < 256^bs.length ↔ b.toNat < 128 := by
  obtain ⟨as, rfl⟩ := List.getLast?_eq_some_iff.mp h
  have ha := ofBytesLE_lt as
  have hpos : 0 < 256^as.length := Nat.pow_pos (by decide)
  rw [ofBytesLE_append, ofBytesLE_cons, ofBytesLE_nil, List.length_append, List.length_singleton,
    Nat.pow_succ, Nat.mul_zero, Nat.add_zero]
  constructor
  · intro hlt
    by_contra hb
    have hle : 256^as.length*128 ≤ 256^as.length*b.toNat := Nat.mul_le_mul_left _ (by omega)
    omega
  · intro hb
    have hle : 256^as.length*(b.toNat+1) ≤ 256^as.length*128 := Nat.mul_le_mul_left _ (by omega)
    rw [Nat.mul_add] at hle
    omega

end Naturals

section Words
variable {n : ℕ}

/-- The bytes of an integer object in the memory of a little-endian host. -/
def hostBytes (x : BitVec (8*n)) : List UInt8 := bytesLE n x.toNat

def ofHostBytes (n : ℕ) (bs : List UInt8) : BitVec (8*n) := BitVec.ofNat (8*n) (ofBytesLE bs)

def byteSwap (x : BitVec (8*n)) : BitVec (8*n) := ofHostBytes n (hostBytes x).reverse

theorem two_pow_eight_mul (n : ℕ) : 2^(8*n) = 256^n := by
  rw [Nat.pow_mul]

theorem toNat_lt (x : BitVec (8*n)) : x.toNat < 256^n := by
  rw [← two_pow_eight_mul]
  exact x.isLt

@[simp] theorem length_hostBytes (x : BitVec (8*n)) : (hostBytes x).length = n :=
  length_bytesLE _ _

theorem toNat_ofHostBytes {bs : List UInt8} (h : bs.length = n) :
    (ofHostBytes n bs).toNat = ofBytesLE bs := by
  rw [ofHostBytes, BitVec.toNat_ofNat, two_pow_eight_mul, ← h]
  exact Nat.mod_eq_of_lt (ofBytesLE_lt bs)

theorem hostBytes_ofHostBytes {bs : List UInt8} (h : bs.length = n) :
    hostBytes (ofHostBytes n bs) = bs := by
  rw [hostBytes, toNat_ofHostBytes h, ← h, bytesLE_ofBytesLE]

theorem hostBytes_byteSwap (x : BitVec (8*n)) : hostBytes (byteSwap x) = bytesBE n x.toNat := by
  rw [byteSwap, hostBytes_ofHostBytes (by simp), hostBytes, bytesBE_eq_reverse]

theorem byteSwap_ofHostBytes {bs : List UInt8} (h : bs.length = n) :
    byteSwap (ofHostBytes n bs) = BitVec.ofNat (8*n) (ofBytesBE bs) := by
  rw [byteSwap, hostBytes_ofHostBytes h, ofBytesBE_eq_reverse]
  rfl

theorem ofHostBytes_nonneg {bs : List UInt8} (h : bs.length = n) {b : UInt8}
    (hb : bs.getLast? = some b) : 0 ≤ (ofHostBytes n bs).toInt ↔ b.toNat < 128 := by
  rw [← ofBytesLE_lt_half hb, h, ← two_pow_eight_mul, ← toNat_ofHostBytes h,
    BitVec.toInt_eq_toNat_cond]
  have hlt := (ofHostBytes n bs).isLt
  split_ifs with hc
  · simp [hc]
  · constructor
    · intro hz
      omega
    · intro hc'
      exact absurd hc' hc

end Words

end ByteOrder

import LuxPolaris.BufferContents
import LuxPolaris.ByteOrder

/-!
# Integers in a buffer

The integer operations of `Buffer.h` on a little-endian host. `int16_t`,
`int32_t` and `int64_t` are bit vectors read in two's complement, and the
functions for the three types are one definition each. `peekInt8` has neither
conversion nor sign check. A release build leaves the assertions of the peek
functions out; those of `append`, `prepend` and `retrieve` hold on every
buffer that keeps its indices, so both builds share these.
-/

set_option autoImplicit false

namespace Lux.Polaris
open Outcome Slice ByteOrder

inductive Build where
  | debug
  | release
  deriving DecidableEq, Repr

/-- An `assert` that the release build compiles out. -/
def assertIn (build : Build) (p : Prop) [Decidable p] (expr : String) : Except Fault Unit :=
  match build with
  | .debug => assertThat p expr
  | .release => .ok ()

@[simp] theorem assertIn_debug (p : Prop) [Decidable p] (expr : String) :
    assertIn .debug p expr = assertThat p expr := rfl

@[simp] theorem assertIn_release (p : Prop) [Decidable p] (expr : String) :
    assertIn .release p expr = .ok () := rfl

section Sockets

/-- `htobe16`, `htobe32`, `htobe64` on a little-endian host. -/
def hostToNetwork64 (host64 : BitVec 64) : BitVec 64 := byteSwap (n := 8) host64
def hostToNetwork32 (host32 : BitVec 32) : BitVec 32 := byteSwap (n := 4) host32
def hostToNetwork16 (host16 : BitVec 16) : BitVec 16 := byteSwap (n := 2) host16

/-- `be16toh`, `be32toh`, `be64toh` on a little-endian host. -/
def networkToHost64 (net64 : BitVec 64) : BitVec 64 := byteSwap (n := 8) net64
def networkToHost32 (net32 : BitVec 32) : BitVec 32 := byteSwap (n := 4) net32
def networkToHost16 (net16 : BitVec 16) : BitVec 16 := byteSwap (n := 2) net16

end Sockets

inductive IntType where
  | int8
  | int16
  | int32
  | int64
  deriving DecidableEq, Repr

def IntType.size : IntType → ℕ
  | .int8 => 1
  | .int16 => 2
  | .int32 => 4
  | .int64 => 8

abbrev IntType.Value (t : IntType) : Type := BitVec (8*t.size)

namespace Buffer

/-- The common text of `peekInt64`, `peekInt32` and `peekInt16`. -/
def peekIntN (b : Buffer) (n : ℕ) (size sign : String)
    (networkToHost : BitVec (8*n) → BitVec (8*n)) (build : Build) :
    Except Fault (BitVec (8*n)) := do
  assertIn build (b.readableBytes ≥ n) size
  let bytes ← load b.buffer b.readerIndex (b.readerIndex+n)
  let be := ofHostBytes n bytes
  assertIn build (be.toInt ≥ 0) sign
  return networkToHost be

def peekInt64 (build : Build) (b : Buffer) : Except Fault (BitVec 64) :=
  b.peekIntN 8 "readableBytes() >= sizeof(int64_t)" "be64 >= 0" networkToHost64 build

def peekInt32 (build : Build) (b : Buffer) : Except Fault (BitVec 32) :=
  b.peekIntN 4 "readableBytes() >= sizeof(int32_t)" "be32 >= 0" networkToHost32 build

def peekInt16 (build : Build) (b : Buffer) : Except Fault (BitVec 16) :=
  b.peekIntN 2 "readableBytes() >= sizeof(int16_t)" "be16 >= 0" networkToHost16 build

def peekInt8 (build : Build) (b : Buffer) : Except Fault (BitVec 8) := do
  assertIn build (b.readableBytes ≥ 1) "readableBytes() >= sizeof(int8_t)"
  let bytes ← load b.buffer b.readerIndex (b.readerIndex+1)
  return ofHostBytes 1 bytes

def retrieveInt64 (b : Buffer) : Except Fault Buffer := b.retrieve 8
def retrieveInt32 (b : Buffer) : Except Fault Buffer := b.retrieve 4
def retrieveInt16 (b : Buffer) : Except Fault Buffer := b.retrieve 2
def retrieveInt8 (b : Buffer) : Except Fault Buffer := b.retrieve 1

def appendInt64 (b : Buffer) (x : BitVec 64) : Except Fault Buffer :=
  b.append (hostBytes (n := 8) (hostToNetwork64 x))

def appendInt32 (b : Buffer) (x : BitVec 32) : Except Fault Buffer :=
  b.append (hostBytes (n := 4) (hostToNetwork32 x))

def appendInt16 (b : Buffer) (x : BitVec 16) : Except Fault Buffer :=
  b.append (hostBytes (n := 2) (hostToNetwork16 x))

def appendInt8 (b : Buffer) (x : BitVec 8) : Except Fault Buffer :=
  b.append (hostBytes (n := 1) x)

def readInt64 (build : Build) (b : Buffer) : Except Fault (BitVec 64 × Buffer) := do
  let result ← b.peekInt64 build
  let b ← b.retrieveInt64
  return (result, b)

def readInt32 (build : Build) (b : Buffer) : Except Fault (BitVec 32 × Buffer) := do
  let result ← b.peekInt32 build
  let b ← b.retrieveInt32
  return (result, b)

def readInt16 (build : Build) (b : Buffer) : Except Fault (BitVec 16 × Buffer) := do
  let result ← b.peekInt16 build
  let b ← b.retrieveInt16
  return (result, b)

def readInt8 (build : Build) (b : Buffer) : Except Fault (BitVec 8 × Buffer) := do
  let result ← b.peekInt8 build
  let b ← b.retrieveInt8
  return (result, b)

def prependInt64 (b : Buffer) (x : BitVec 64) : Except Fault Buffer :=
  b.prepend (hostBytes (n := 8) (hostToNetwork64 x))

def prependInt32 (b : Buffer) (x : BitVec 32) : Except Fault Buffer :=
  b.prepend (hostBytes (n := 4) (hostToNetwork32 x))

def prependInt16 (b : Buffer) (x : BitVec 16) : Except Fault Buffer :=
  b.prepend (hostBytes (n := 2) (hostToNetwork16 x))

def prependInt8 (b : Buffer) (x : BitVec 8) : Except Fault Buffer :=
  b.prepend (hostBytes (n := 1) x)

def peekInt (build : Build) (b : Buffer) : (t : IntType) → Except Fault t.Value
  | .int8 => b.peekInt8 build
  | .int16 => b.peekInt16 build
  | .int32 => b.peekInt32 build
  | .int64 => b.peekInt64 build

def readInt (build : Build) (b : Buffer) : (t : IntType) → Except Fault (t.Value × Buffer)
  | .int8 => b.readInt8 build
  | .int16 => b.readInt16 build
  | .int32 => b.readInt32 build
  | .int64 => b.readInt64 build

def appendInt (b : Buffer) : (t : IntType) → t.Value → Except Fault Buffer
  | .int8, x => b.appendInt8 x
  | .int16, x => b.appendInt16 x
  | .int32, x => b.appendInt32 x
  | .int64, x => b.appendInt64 x

def prependInt (b : Buffer) : (t : IntType) → t.Value → Except Fault Buffer
  | .int8, x => b.prependInt8 x
  | .int16, x => b.prependInt16 x
  | .int32, x => b.prependInt32 x
  | .int64, x => b.prependInt64 x

end Buffer

def encode (n : ℕ) (z : ℤ) : List Byte := bytesBE n (z % 256^n).toNat

@[simp] theorem length_encode (n : ℕ) (z : ℤ) : (encode n z).length = n := length_bytesBE _ _

theorem encode_toInt {n : ℕ} (x : BitVec (8*n)) : encode n x.toInt = bytesBE n x.toNat := by
  have hpow : ((2^(8*n) : ℕ) : ℤ) = 256^n := by
    rw [two_pow_eight_mul]
    norm_num
  have hmod : x.toInt % 256^n = x.toNat := by
    rw [← hpow, BitVec.toInt_eq_toNat_bmod, Int.bmod_emod]
    exact Int.emod_eq_of_lt (Int.natCast_nonneg _) (by exact_mod_cast x.isLt)
  rw [encode, hmod, Int.toNat_natCast]

namespace Buffer

section Uniform
variable (b : Buffer) (t : IntType)

theorem readInt_eq (build : Build) : b.readInt build t = (do
    let result ← b.peekInt build t
    let b ← b.retrieve t.size
    return (result, b)) := by
  cases t <;> rfl

theorem appendInt_eq (x : t.Value) : b.appendInt t x = b.append (encode t.size x.toInt) := by
  rw [encode_toInt]
  cases t with
  | int8 => exact congrArg b.append (bytesBE_eq_reverse 1 _).symm
  | int16 => exact congrArg b.append (hostBytes_byteSwap _)
  | int32 => exact congrArg b.append (hostBytes_byteSwap _)
  | int64 => exact congrArg b.append (hostBytes_byteSwap _)

theorem prependInt_eq (x : t.Value) : b.prependInt t x = b.prepend (encode t.size x.toInt) := by
  rw [encode_toInt]
  cases t with
  | int8 => exact congrArg b.prepend (bytesBE_eq_reverse 1 _).symm
  | int16 => exact congrArg b.prepend (hostBytes_byteSwap _)
  | int32 => exact congrArg b.prepend (hostBytes_byteSwap _)
  | int64 => exact congrArg b.prepend (hostBytes_byteSwap _)

end Uniform

section Peek
variable {b : Buffer}

theorem length_front (hv : Valid b) {n : ℕ} (h : n ≤ b.readableBytes) :
    (b.contents.take n).length = n := by
  rw [List.length_take, length_contents hv]
  exact Nat.min_eq_left h

theorem load_front (hv : Valid b) {n : ℕ} (h : n ≤ b.readableBytes) :
    load b.buffer b.readerIndex (b.readerIndex+n) = .ok (b.contents.take n) := by
  have hr := hv.reader_le
  have hw := hv.writer_le
  rw [readableBytes_eq hv] at h
  rw [load_of (Nat.le_add_right _ _) (by omega), contents, take_slice _ (by omega)]

def front (b : Buffer) (n : ℕ) : BitVec (8*n) := BitVec.ofNat (8*n) (ofBytesBE (b.contents.take n))

theorem peekIntN_release (hv : Valid b) {n : ℕ} (h : n ≤ b.readableBytes) (size sign : String) :
    b.peekIntN n size sign byteSwap .release = .ok (b.front n) := by
  simp only [peekIntN, assertIn_release, load_front hv h, ok_bind, pure_eq_ok]
  rw [byteSwap_ofHostBytes (length_front hv h), front]

theorem peekIntN_debug (hv : Valid b) {n : ℕ} (h : n ≤ b.readableBytes) {low : Byte}
    (hl : (b.contents.take n).getLast? = some low) (size sign : String) :
    b.peekIntN n size sign byteSwap .debug =
      if low.toNat < 128 then .ok (b.front n) else .error (.assertion sign) := by
  have hn := length_front hv h
  simp only [peekIntN, assertIn_debug, assertThat_of h, load_front hv h, ok_bind, pure_eq_ok]
  by_cases hs : low.toNat < 128
  · rw [if_pos hs, assertThat_of ((ofHostBytes_nonneg hn hl).mpr hs), ok_bind,
      byteSwap_ofHostBytes hn, front]
  · rw [if_neg hs, assertThat_of_not (fun hz => hs ((ofHostBytes_nonneg hn hl).mp hz))]
    rfl

theorem peekInt8_eq (hv : Valid b) (h : 1 ≤ b.readableBytes) (build : Build) :
    b.peekInt8 build = .ok (b.front 1) := by
  have hn := length_front hv h
  have hassert : assertIn build (b.readableBytes ≥ 1) "readableBytes() >= sizeof(int8_t)" =
      .ok () := by
    cases build with
    | debug => exact assertThat_of h _
    | release => rfl
  obtain ⟨x, hx⟩ := List.length_eq_one_iff.mp hn
  simp only [peekInt8, hassert, load_front hv h, ok_bind, pure_eq_ok]
  rw [front, hx, ofHostBytes, ofBytesBE_eq_reverse, List.reverse_singleton]

theorem peekInt_release (hv : Valid b) (t : IntType) (h : t.size ≤ b.readableBytes) :
    b.peekInt .release t = .ok (b.front t.size) := by
  cases t with
  | int8 => exact peekInt8_eq hv h _
  | int16 => exact peekIntN_release hv h _ _
  | int32 => exact peekIntN_release hv h _ _
  | int64 => exact peekIntN_release hv h _ _

theorem front_of_encode {t : IntType} {x : t.Value} {rest : List Byte}
    (hc : b.contents = encode t.size x.toInt ++ rest) : b.front t.size = x := by
  have htake : b.contents.take t.size = bytesBE t.size x.toNat := by
    rw [hc, encode_toInt]
    exact List.take_left' (length_bytesBE _ _)
  rw [front, htake, ofBytesBE_bytesBE (toNat_lt x), BitVec.ofNat_toNat, BitVec.setWidth_eq]

end Peek

theorem appendInt_spec {b : Buffer} (hv : Valid b) (t : IntType) (x : t.Value) :
    Yields (b.appendInt t x)
      (fun b' => Valid b' ∧ b'.contents = b.contents ++ encode t.size x.toInt)
      (· = .lengthError) := by
  have hfits : b.Fits (encode t.size x.toInt).length := by
    apply fits_of_le_maxSize hv
    rw [length_encode]
    cases t <;> decide
  rw [appendInt_eq]
  exact (append_spec hv hfits).imp (fun _ h => ⟨h.1, h.2.1⟩)

end Buffer

end Lux.Polaris

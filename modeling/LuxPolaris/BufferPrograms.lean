import LuxPolaris.BufferIntegers
import Mathlib.Logic.Function.Basic

/-!
# Programs over buffers

The public members of `Buffer.h` and the implicit copies and moves, on any
number of buffers named by naturals. A moved vector leaves its source empty
while the two indices are copied. Arguments are arbitrary; what a
caller promises is `Enabled`, which only the results that need it assume.
-/

set_option autoImplicit false

namespace Lux.Polaris
open Outcome

namespace Buffer

def kCRLF : List Byte := [13,10]

/-- `std::search`: where `pattern` first begins, or the end. -/
def search (pattern : List Byte) : List Byte → ℕ
  | [] => 0
  | c::cs => if pattern.isPrefixOf (c::cs) then 0 else search pattern cs + 1

/-- A position, where the source has a pointer that may be null. -/
def findCRLF (b : Buffer) : Except Fault (Option ℕ) := do
  let piece ← load b.buffer b.readerIndex b.writerIndex
  let crlf := b.readerIndex+search kCRLF piece
  return if crlf = b.writerIndex then none else some crlf

def findCRLFFrom (b : Buffer) (start : ℕ) : Except Fault (Option ℕ) := do
  assertThat (b.readerIndex ≤ start) "peek() <= start"
  assertThat (start ≤ b.writerIndex) "start <= beginWrite()"
  let piece ← load b.buffer start b.writerIndex
  let crlf := start+search kCRLF piece
  return if crlf = b.writerIndex then none else some crlf

def findEOL (b : Buffer) : Except Fault (Option ℕ) := do
  let piece ← b.toStringPiece
  return (piece.idxOf? 10).map (b.readerIndex+·)

def findEOLFrom (b : Buffer) (start : ℕ) : Except Fault (Option ℕ) := do
  assertThat (b.readerIndex ≤ start) "peek() <= start"
  assertThat (start ≤ b.writerIndex) "start <= beginWrite()"
  let piece ← load b.buffer start (start+sizeSub b.writerIndex start)
  return (piece.idxOf? 10).map (start+·)

def retrieveInt (b : Buffer) : IntType → Except Fault Buffer
  | .int8 => b.retrieveInt8
  | .int16 => b.retrieveInt16
  | .int32 => b.retrieveInt32
  | .int64 => b.retrieveInt64

def storeAtBeginWrite (b : Buffer) (data : List Byte) : Except Fault Buffer := do
  let buf ← store b.buffer b.writerIndex data
  return { b with buffer := buf }

inductive Member where
  | append (data : List Byte)
  | appendInt (t : IntType) (x : t.Value)
  | prepend (data : List Byte)
  | prependInt (t : IntType) (x : t.Value)
  | retrieve (len : ℕ)
  | retrieveUntil (finish : ℕ)
  | retrieveInt (t : IntType)
  | retrieveAll
  | retrieveAsString (len : ℕ)
  | retrieveAllAsString
  | readInt (t : IntType)
  | peekInt (t : IntType)
  | toStringPiece
  | findCRLF
  | findCRLFFrom (start : ℕ)
  | findEOL
  | findEOLFrom (start : ℕ)
  | ensureWritableBytes (len : ℕ)
  | storeAtBeginWrite (data : List Byte)
  | hasWritten (len : ℕ)
  | unwrite (len : ℕ)
  | shrink (reserve : ℕ)
  | readFd (r : ReadResult)

def callMember (b : Buffer) : Member → Except Fault Buffer
  | .append data => b.append data
  | .appendInt t x => b.appendInt t x
  | .prepend data => b.prepend data
  | .prependInt t x => b.prependInt t x
  | .retrieve len => b.retrieve len
  | .retrieveUntil finish => b.retrieveUntil finish
  | .retrieveInt t => b.retrieveInt t
  | .retrieveAll => .ok b.retrieveAll
  | .retrieveAsString len => do return (← b.retrieveAsString len).2
  | .retrieveAllAsString => do return (← b.retrieveAllAsString).2
  | .readInt t => do return (← b.readInt .debug t).2
  | .peekInt t => do
    let _ ← b.peekInt .debug t
    return b
  | .toStringPiece => do
    let _ ← b.toStringPiece
    return b
  | .findCRLF => do
    let _ ← b.findCRLF
    return b
  | .findCRLFFrom start => do
    let _ ← b.findCRLFFrom start
    return b
  | .findEOL => do
    let _ ← b.findEOL
    return b
  | .findEOLFrom start => do
    let _ ← b.findEOLFrom start
    return b
  | .ensureWritableBytes len => b.ensureWritableBytes len
  | .storeAtBeginWrite data => b.storeAtBeginWrite data
  | .hasWritten len => b.hasWritten len
  | .unwrite len => b.unwrite len
  | .shrink reserve => b.shrink reserve
  | .readFd r => do return (← b.readFd r).2

/-- What a move leaves behind: the vector is moved, the indices are copied. -/
def movedFrom (b : Buffer) : Buffer := { b with buffer := [] }

end Buffer

namespace BufferPrograms
open Buffer

abbrev Buffers := ℕ → Option Buffer

def empty : Buffers := fun _ => none

inductive Action where
  | construct (i initialSize : ℕ)
  | copyConstruct (i j : ℕ)
  | moveConstruct (i j : ℕ)
  | copyAssign (i j : ℕ)
  | moveAssign (i j : ℕ)
  | swap (i j : ℕ)
  | destroy (i : ℕ)
  | call (i : ℕ) (m : Member)

def alive (s : Buffers) (i : ℕ) : Except Fault Buffer :=
  match s i with
  | some b => .ok b
  | none => .error .useAfterFree

def put (s : Buffers) (i : ℕ) (b : Buffer) : Buffers := Function.update s i (some b)

/-- Construction and assignment move the same way; a buffer assigned to itself
loses its vector too. -/
def moveTo (s : Buffers) (i j : ℕ) (b : Buffer) : Buffers := put (put s i b) j b.movedFrom

def step (s : Buffers) : Action → Except Fault Buffers
  | .construct i n => do
    let b ← construct n
    return put s i b
  | .copyConstruct i j => do
    let b ← alive s j
    return put s i b
  | .moveConstruct i j => do
    let b ← alive s j
    return moveTo s i j b
  | .copyAssign i j => do
    let _ ← alive s i
    let b ← alive s j
    return put s i b
  | .moveAssign i j => do
    let _ ← alive s i
    let b ← alive s j
    return moveTo s i j b
  | .swap i j => do
    let a ← alive s i
    let b ← alive s j
    return put (put s i b) j a
  | .destroy i => do
    let _ ← alive s i
    return Function.update s i none
  | .call i m => do
    let b ← alive s i
    let b ← b.callMember m
    return put s i b

/-- Arguments that are values of their types. What is stored at `beginWrite`
fits the bytes that `writableBytes` promises. -/
def Proper (b : Buffer) : Member → Prop
  | .append data => data.length ≤ maxSize
  | .prepend data => data.length ≤ maxSize
  | .retrieve len => len < 2^64
  | .retrieveAsString len => len < 2^64
  | .ensureWritableBytes len => len < 2^64
  | .storeAtBeginWrite data => data.length ≤ maxSize ∧ data.length ≤ b.writableBytes
  | .hasWritten len => len < 2^64
  | .unwrite len => len < 2^64
  | .shrink reserve => reserve < 2^64
  | _ => True

def Enabled (s : Buffers) : Action → Prop
  | .construct i n => s i = none ∧ n < 2^64
  | .copyConstruct i j => s i = none ∧ (s j).isSome
  | .moveConstruct i j => s i = none ∧ (s j).isSome
  | .copyAssign i j => (s i).isSome ∧ (s j).isSome
  | .moveAssign i j => (s i).isSome ∧ (s j).isSome
  | .swap i j => (s i).isSome ∧ (s j).isSome
  | .destroy i => (s i).isSome
  | .call i m => ∃ b ∈ s i, Proper b m

instance (b : Buffer) : (m : Member) → Decidable (Proper b m)
  | .append _ => inferInstanceAs (Decidable (_ ≤ _))
  | .prepend _ => inferInstanceAs (Decidable (_ ≤ _))
  | .retrieve _ => inferInstanceAs (Decidable (_ < _))
  | .retrieveAsString _ => inferInstanceAs (Decidable (_ < _))
  | .ensureWritableBytes _ => inferInstanceAs (Decidable (_ < _))
  | .storeAtBeginWrite _ => inferInstanceAs (Decidable (_ ∧ _))
  | .hasWritten _ => inferInstanceAs (Decidable (_ < _))
  | .unwrite _ => inferInstanceAs (Decidable (_ < _))
  | .shrink _ => inferInstanceAs (Decidable (_ < _))
  | .appendInt _ _ => isTrue trivial
  | .prependInt _ _ => isTrue trivial
  | .retrieveUntil _ => isTrue trivial
  | .retrieveInt _ => isTrue trivial
  | .retrieveAll => isTrue trivial
  | .retrieveAllAsString => isTrue trivial
  | .readInt _ => isTrue trivial
  | .peekInt _ => isTrue trivial
  | .toStringPiece => isTrue trivial
  | .findCRLF => isTrue trivial
  | .findCRLFFrom _ => isTrue trivial
  | .findEOL => isTrue trivial
  | .findEOLFrom _ => isTrue trivial
  | .readFd _ => isTrue trivial

instance (s : Buffers) : (a : Action) → Decidable (Enabled s a)
  | .construct _ _ => inferInstanceAs (Decidable (_ ∧ _))
  | .copyConstruct _ _ => inferInstanceAs (Decidable (_ ∧ _))
  | .moveConstruct _ _ => inferInstanceAs (Decidable (_ ∧ _))
  | .copyAssign _ _ => inferInstanceAs (Decidable (_ ∧ _))
  | .moveAssign _ _ => inferInstanceAs (Decidable (_ ∧ _))
  | .swap _ _ => inferInstanceAs (Decidable (_ ∧ _))
  | .destroy _ => inferInstanceAs (Decidable (_ = _))
  | .call i m => inferInstanceAs (Decidable (∃ b ∈ s i, Proper b m))

theorem put_self (s : Buffers) (i : ℕ) (b : Buffer) : put s i b i = some b := by
  rw [put, Function.update_self]

theorem put_of_ne (s : Buffers) {i k : ℕ} (hk : k ≠ i) (b : Buffer) : put s i b k = s k := by
  rw [put, Function.update_of_ne hk]

theorem alive_of {s : Buffers} {i : ℕ} {b : Buffer} (h : s i = some b) : alive s i = .ok b := by
  rw [alive, h]

def Each (P : Buffer → Prop) (s : Buffers) : Prop := ∀ i b, s i = some b → P b

section Each
variable {P : Buffer → Prop} {s : Buffers}

theorem each_empty : Each P empty := fun _ _ h => nomatch h

theorem Each.put (hs : Each P s) (i : ℕ) {b : Buffer} (hb : P b) : Each P (put s i b) := by
  intro k c hc
  by_cases hk : k = i
  · subst k
    rw [put_self] at hc
    cases hc
    exact hb
  · rw [put_of_ne s hk] at hc
    exact hs k c hc

theorem Each.destroy (hs : Each P s) (i : ℕ) : Each P (Function.update s i none) := by
  intro k c hc
  by_cases hk : k = i
  · subst k
    rw [Function.update_self] at hc
    cases hc
  · rw [Function.update_of_ne hk] at hc
    exact hs k c hc

theorem Each.alive {E : Fault → Prop} (hs : Each P s) (he : E .useAfterFree) (i : ℕ) :
    Yields (alive s i) P E := by
  unfold BufferPrograms.alive
  cases h : s i with
  | none => exact (yields_error _ _ _).mpr he
  | some b => exact (yields_ok _ _ _).mpr (hs i b h)

theorem step_each {E : Fault → Prop} (hs : Each P s) (he : E .useAfterFree) (a : Action)
    (hconstruct : ∀ i n, a = .construct i n → Yields (construct n) P E)
    (hmove : ∀ i j b, a = .moveConstruct i j ∨ a = .moveAssign i j → P b → P b.movedFrom)
    (hcall : ∀ i m b, a = .call i m → s i = some b → Yields (b.callMember m) P E) :
    Yields (step s a) (Each P) E := by
  cases a with
  | construct i n =>
    rw [step, yields_bind]
    refine (hconstruct i n rfl).imp fun b hb => ?_
    exact (yields_pure _ _ _).mpr (hs.put i hb)
  | copyConstruct i j =>
    rw [step, yields_bind]
    refine (hs.alive he j).imp fun b hb => ?_
    exact (yields_pure _ _ _).mpr (hs.put i hb)
  | moveConstruct i j =>
    rw [step, yields_bind]
    refine (hs.alive he j).imp fun b hb => ?_
    exact (yields_pure _ _ _).mpr ((hs.put i hb).put j (hmove i j b (.inl rfl) hb))
  | copyAssign i j =>
    rw [step, yields_bind]
    refine (hs.alive he i).imp fun _ _ => ?_
    rw [yields_bind]
    refine (hs.alive he j).imp fun b hb => ?_
    exact (yields_pure _ _ _).mpr (hs.put i hb)
  | moveAssign i j =>
    rw [step, yields_bind]
    refine (hs.alive he i).imp fun _ _ => ?_
    rw [yields_bind]
    refine (hs.alive he j).imp fun b hb => ?_
    exact (yields_pure _ _ _).mpr ((hs.put i hb).put j (hmove i j b (.inr rfl) hb))
  | swap i j =>
    rw [step, yields_bind]
    refine (hs.alive he i).imp fun a ha => ?_
    rw [yields_bind]
    refine (hs.alive he j).imp fun b hb => ?_
    exact (yields_pure _ _ _).mpr ((hs.put i hb).put j ha)
  | destroy i =>
    rw [step, yields_bind]
    refine (hs.alive he i).imp fun _ _ => ?_
    exact (yields_pure _ _ _).mpr (hs.destroy i)
  | call i m =>
    rw [step, yields_bind]
    cases h : s i with
    | none =>
      rw [BufferPrograms.alive, h]
      exact (yields_error _ _ _).mpr he
    | some b =>
      rw [alive_of h, yields_ok, yields_bind]
      refine (hcall i m b rfl h).imp fun b' hb => ?_
      exact (yields_pure _ _ _).mpr (hs.put i hb)

end Each

end BufferPrograms

end Lux.Polaris

import LuxPolaris.BufferContents
import Mathlib.Algebra.BigOperators.Group.List.Basic

/-!
# Reading into a buffer

`readFd` hands `readv` the writable tail and, if that is short, a buffer on
the stack. The overflow goes through `append`, which may slide the readable
bytes or grow the vector; either way the bytes arrive behind the readable ones
in the order in which they were read.
-/

set_option autoImplicit false

namespace Lux.Polaris.Buffer
open Outcome

def vec (b : Buffer) : List ℕ := [b.writableBytes, extraSize]

def iovcnt (b : Buffer) : ℕ := if b.writableBytes < extraSize then 2 else 1

theorem iovLength_eq (b : Buffer) : b.iovLength = (b.vec.take b.iovcnt).sum := by
  unfold iovLength iovcnt vec
  split_ifs <;> simp

/-- `readv` stores no more than the segments it is given can take. -/
def Legal (b : Buffer) : ReadResult → Prop
  | .read bytes => bytes.length ≤ (b.vec.take b.iovcnt).sum
  | .failed _ => True

instance (b : Buffer) : (r : ReadResult) → Decidable (b.Legal r)
  | .read _ => inferInstanceAs (Decidable (_ ≤ _))
  | .failed _ => isTrue trivial

theorem received_of_legal {b : Buffer} {bytes : List Byte} (h : b.Legal (.read bytes)) :
    bytes.take b.iovLength = bytes := by
  apply List.take_of_length_le
  rw [iovLength_eq]
  exact h

theorem iovcnt_of_overflow {b : Buffer} {bytes : List Byte} (h : b.Legal (.read bytes))
    (hn : b.writableBytes < bytes.length) : b.iovcnt = 2 := by
  by_contra hc
  have hone : b.iovcnt = 1 := by
    unfold iovcnt at hc ⊢
    split_ifs at hc ⊢
    · exact absurd rfl hc
    · rfl
  have hle : bytes.length ≤ b.writableBytes := by simpa [Legal, hone, vec] using h
  omega

/-- For every valid buffer and every answer of `readv`: an error is stored and
changes nothing, and `n` bytes read are appended to the readable ones and `n`
is returned. The one failure is `std::length_error`, when `append` would need
a vector longer than any. -/
theorem readFd_delivers (b : Buffer) (r : ReadResult) (hv : Valid b) (hl : b.Legal r) :
    match r with
    | .failed errno => b.readFd (.failed errno) = .ok (.error errno, b)
    | .read bytes =>
      (b.writableBytes < bytes.length → b.iovcnt = 2) ∧
      Yields (b.readFd (.read bytes))
        (fun p => p.1 = .ok bytes.length ∧ p.2.contents = b.contents ++ bytes ∧ Valid p.2)
        (fun e => e = .lengthError ∧ b.writableBytes < bytes.length ∧
          maxSize < b.writerIndex+bytes.length) := by
  cases r with
  | failed errno => rfl
  | read bytes =>
    refine ⟨iovcnt_of_overflow hl, ?_⟩
    have hspec := readFd_yields hv (.read bytes)
    simp only [received, received_of_legal hl] at hspec
    refine hspec.mono (fun p h => ⟨h.2.1, h.2.2, h.1⟩) (fun e h => ⟨h.1, ?_, h.2⟩)
    have hw := hv.writer_le
    have hs := hv.size_le
    have hlong := h.2
    rw [writableBytes_eq hv]
    omega

theorem readFd_delivers_overflow :
    Yields (readFd ⟨[0,0,0,0,0,0,0,0,104,0], 8, 9⟩ (.read [105,33]))
      (fun p => p.1 = .ok 2 ∧ p.2.contents = [104,105,33] ∧ Valid p.2)
      (fun e => e = .lengthError ∧ 1 < 2 ∧ maxSize < 9+2) :=
  (readFd_delivers ⟨[0,0,0,0,0,0,0,0,104,0], 8, 9⟩ (.read [105,33])
    ⟨by decide, by decide, by decide, by decide⟩ (by decide +kernel)).2

end Lux.Polaris.Buffer

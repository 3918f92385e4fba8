import LuxPolaris.BufferIntegers

/-!
# The integer codec

A buffer that holds encoded integers is a queue of them: appending adds at the
end and reading takes from the front, for every mixture of widths. A debug
build reads only those integers whose low byte, the last on the network, has
its top bit clear.
-/

set_option autoImplicit false

namespace Lux.Polaris.IntegerCodec
open Outcome Buffer ByteOrder

structure IntValue where
  type : IntType
  value : type.Value
  deriving DecidableEq, Repr

def IntValue.encode (v : IntValue) : List Byte := Polaris.encode v.type.size v.value.toInt

inductive IntOp where
  | append (v : IntValue)
  | read (t : IntType)
  deriving DecidableEq, Repr

structure Reader where
  buffer : Buffer
  results : List IntValue
  deriving DecidableEq, Repr

def step (s : Reader) : IntOp → Except Fault Reader
  | .append v => do
    let b ← s.buffer.appendInt v.type v.value
    return { s with buffer := b }
  | .read t => do
    let (x, b) ← s.buffer.readInt .release t
    return ⟨b, s.results ++ [⟨t, x⟩]⟩

/-- Each read is of the type of the value that is first in the queue. -/
def Consumes : List IntValue → List IntOp → Prop
  | _, [] => True
  | unread, .append v::ops => Consumes (unread ++ [v]) ops
  | v::unread, .read t::ops => v.type = t ∧ Consumes unread ops
  | [], .read _::_ => False

instance decidableConsumes : (unread : List IntValue) → (ops : List IntOp) →
    Decidable (Consumes unread ops)
  | _, [] => isTrue trivial
  | unread, .append v::ops => decidableConsumes (unread ++ [v]) ops
  | _::unread, .read _::ops =>
    have := decidableConsumes unread ops
    inferInstanceAs (Decidable (_ ∧ _))
  | [], .read _::_ => isFalse not_false

def appended : List IntOp → List IntValue
  | [] => []
  | .append v::ops => v::appended ops
  | .read _::ops => appended ops

def Holds (b : Buffer) (unread : List IntValue) : Prop :=
  Valid b ∧ b.contents = unread.flatMap IntValue.encode

theorem append_holds {b : Buffer} {unread : List IntValue} (hb : Holds b unread) (v : IntValue) :
    Yields (b.appendInt v.type v.value) (fun b' => Holds b' (unread ++ [v]))
      (· = .lengthError) := by
  apply (appendInt_spec hb.1 v.type v.value).imp
  rintro b' ⟨hv, hc⟩
  refine ⟨hv, ?_⟩
  rw [hc, hb.2, List.flatMap_append, List.flatMap_singleton]
  rfl

theorem read_holds {b : Buffer} {v : IntValue} {unread : List IntValue}
    (hb : Holds b (v::unread)) :
    ∃ b', b.readInt .release v.type = .ok (v.value, b') ∧ Holds b' unread := by
  have hc : b.contents = v.encode ++ unread.flatMap IntValue.encode := hb.2
  have hlen : v.type.size ≤ b.readableBytes := by
    rw [← length_contents hb.1, hc, List.length_append, IntValue.encode, length_encode]
    exact Nat.le_add_right _ _
  obtain ⟨b', hr, hv, hc', -⟩ := retrieve_spec hb.1 hlen
  refine ⟨b', ?_, hv, ?_⟩
  · rw [readInt_eq, peekInt_release hb.1 _ hlen, front_of_encode hc, ok_bind, hr]
    rfl
  · rw [hc', hc]
    exact List.drop_left' (length_encode _ _)

theorem run_holds (ops : List IntOp) {s : Reader} {unread : List IntValue}
    (hs : Holds s.buffer unread) (hc : Consumes unread ops) :
    Yields (run step s ops)
      (fun t => ∃ rest, t.results ++ rest = s.results ++ (unread ++ appended ops) ∧
        Holds t.buffer rest) (· = .lengthError) := by
  induction ops generalizing s unread with
  | nil => exact (yields_ok _ _ _).mpr ⟨unread, by simp [appended], hs⟩
  | cons op ops ih =>
    cases op with
    | append v =>
      simp only [run, step, yields_bind, yields_pure]
      apply (append_holds hs v).imp
      intro b hb
      apply (ih hb hc).imp
      rintro t ⟨rest, hq, ht⟩
      exact ⟨rest, by simpa [appended] using hq, ht⟩
    | read t =>
      cases unread with
      | nil => exact hc.elim
      | cons v unread =>
        obtain ⟨rfl, hc⟩ := hc
        obtain ⟨b, hb, hh⟩ := read_holds hs
        simp only [run, step, hb, ok_bind, pure_eq_ok]
        apply (ih hh hc).imp
        rintro t ⟨rest, hq, ht⟩
        exact ⟨rest, by simpa [appended] using hq, ht⟩

section Assertions

/-- An assertion stops the program. -/
def Aborts {α : Type} (r : Except Fault α) : Prop := ∃ expr, r = .error (.assertion expr)

theorem not_aborts_ok {α : Type} (a : α) : ¬Aborts (.ok a : Except Fault α) := by
  rintro ⟨expr, h⟩
  cases h

variable {b : Buffer} {t : IntType}

theorem peek_aborts_iff (hv : Valid b) (ht : t ≠ .int8) (hlen : t.size ≤ b.readableBytes)
    {low : Byte} (hl : (b.contents.take t.size).getLast? = some low) :
    (¬Aborts (b.peekInt .debug t) ↔ low.toNat < 128) ∧
      (¬Aborts (b.readInt .debug t) ↔ low.toNat < 128) := by
  obtain ⟨sign, hpeek⟩ : ∃ sign, b.peekInt .debug t =
      if low.toNat < 128 then .ok (b.front t.size) else .error (.assertion sign) := by
    cases t with
    | int8 => exact absurd rfl ht
    | int16 => exact ⟨_, peekIntN_debug hv hlen hl _ _⟩
    | int32 => exact ⟨_, peekIntN_debug hv hlen hl _ _⟩
    | int64 => exact ⟨_, peekIntN_debug hv hlen hl _ _⟩
  obtain ⟨b', hb', -⟩ := retrieve_spec hv hlen
  rw [readInt_eq, hpeek]
  by_cases hs : low.toNat < 128
  · simp only [hs, if_true, ok_bind, hb', pure_eq_ok, iff_true]
    exact ⟨not_aborts_ok _, not_aborts_ok _⟩
  · simp only [hs, if_false, iff_false, not_not]
    exact ⟨⟨sign, rfl⟩, ⟨sign, rfl⟩⟩

theorem getLast?_encode (t : IntType) (x : t.Value) :
    (encode t.size x.toInt).getLast? = some (UInt8.ofNat x.toNat) := by
  rw [encode_toInt]
  cases t with
  | int8 => exact getLast?_bytesBE 0 _
  | int16 => exact getLast?_bytesBE 1 _
  | int32 => exact getLast?_bytesBE 3 _
  | int64 => exact getLast?_bytesBE 7 _

end Assertions

/-- A debug build, for the three types of more than one byte. Appended or
prepended, a value that is at the front passes the assertions of peek and read
exactly if its low byte is below 128, and so do any other bytes. -/
theorem integer_reads_pass_iff (t : IntType) (ht : t ≠ .int8) (b : Buffer) (hv : Valid b) :
    (∀ (x : t.Value) b₁, b.appendInt t x = .ok b₁ →
      Valid b₁ ∧ b₁.contents = b.contents ++ encode t.size x.toInt) ∧
    (∀ (x : t.Value) b₁, b.prependInt t x = .ok b₁ →
      Valid b₁ ∧ b₁.contents = encode t.size x.toInt ++ b.contents) ∧
    (∀ (x : t.Value) rest, b.contents = encode t.size x.toInt ++ rest →
      (¬Aborts (b.peekInt .debug t) ↔ x.toNat % 256 < 128) ∧
      (¬Aborts (b.readInt .debug t) ↔ x.toNat % 256 < 128)) ∧
    (t.size ≤ b.readableBytes → ∀ low, (b.contents.take t.size).getLast? = some low →
      (¬Aborts (b.peekInt .debug t) ↔ low.toNat < 128) ∧
      (¬Aborts (b.readInt .debug t) ↔ low.toNat < 128)) := by
  refine ⟨fun x b₁ hb => ?_, fun x b₁ hb => ?_, fun x rest hc => ?_, fun hlen low hl => ?_⟩
  · exact (appendInt_spec hv t x).ok hb
  · rw [prependInt_eq] at hb
    obtain ⟨_, ha, -⟩ := bind_ok.mp hb
    obtain ⟨b', hb', hv', hc'⟩ := prepend_spec hv (assertThat_ok.mp ha)
    cases hb'.symm.trans hb
    exact ⟨hv', hc'⟩
  · have hlen : t.size ≤ b.readableBytes := by
      rw [← length_contents hv, hc, List.length_append, length_encode]
      exact Nat.le_add_right _ _
    have htake : b.contents.take t.size = encode t.size x.toInt := by
      rw [hc]
      exact List.take_left' (length_encode _ _)
    have h := peek_aborts_iff hv ht hlen (by rw [htake]; exact getLast?_encode t x)
    rwa [UInt8.toNat_ofNat'] at h
  · exact peek_aborts_iff hv ht hlen hl

theorem integer_reads_pass_iff_int16 :
    ¬Aborts (peekInt .debug ⟨[0,0,0,0,0,0,0,0,1,127], 8, 10⟩ .int16) ∧
      ¬Aborts (peekInt .debug ⟨[0,0,0,0,0,0,0,0,255,1], 8, 10⟩ .int16) := by
  have h₁ := integer_reads_pass_iff .int16 (by decide) ⟨[0,0,0,0,0,0,0,0,1,127], 8, 10⟩
    ⟨by decide, by decide, by decide, by decide⟩
  have h₂ := integer_reads_pass_iff .int16 (by decide) ⟨[0,0,0,0,0,0,0,0,255,1], 8, 10⟩
    ⟨by decide, by decide, by decide, by decide⟩
  exact ⟨(h₁.2.2.1 0x017f [] (by decide +kernel)).1.mpr (by decide),
    (h₂.2.2.1 0xff01 [] (by decide +kernel)).1.mpr (by decide)⟩

theorem integer_read_aborts :
    ∃ b, construct kInitialSize >>= (·.appendInt .int16 (-2)) = .ok b ∧ b.readableBytes = 2 ∧
      b.readInt .debug .int16 = .error (.assertion "be16 >= 0") := by
  have hrun : (fun b => (b.readableBytes, b.readInt .debug .int16)) <$>
      (construct kInitialSize >>= (·.appendInt .int16 (-2))) =
        .ok (2, .error (.assertion "be16 >= 0")) := by decide +kernel
  obtain ⟨b, hb, hp⟩ := map_ok.mp hrun
  exact ⟨b, hb, congrArg Prod.fst hp, congrArg Prod.snd hp⟩

end Lux.Polaris.IntegerCodec

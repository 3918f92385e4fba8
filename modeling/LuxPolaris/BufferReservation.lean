import LuxPolaris.BufferPrograms

/-!
# Reserving space in 64-bit arithmetic

`ensureWritableBytes` and `shrink` compute the space they need with three
sums, each of which may wrap. `Reservable` and `Shrinkable` say for which
arguments the space is there afterwards or the buffer is as before, in any
state at all that a program can bring a buffer into.
-/

set_option autoImplicit false

namespace Lux.Polaris.BufferReservation
open Outcome Slice Buffer BufferPrograms

structure Representable (b : Buffer) : Prop where
  reader_lt : b.readerIndex < 2^64
  writer_lt : b.writerIndex < 2^64
  size_le : b.buffer.length ≤ maxSize

theorem Representable.size_lt {b : Buffer} (hb : Representable b) : b.buffer.length < 2^63 := by
  have hs := hb.size_le
  unfold maxSize at hs
  omega

theorem sizeT_lt (n : ℕ) : sizeT n < 2^64 := Nat.mod_lt n (by decide)

theorem sizeSub_lt (a b : ℕ) : sizeSub a b < 2^64 := Nat.mod_lt _ (by decide)

section Rules

abbrev Any : Fault → Prop := fun _ => True

theorem Representable.observed {α : Type} {b : Buffer} (hb : Representable b)
    (r : Except Fault α) : Yields (r >>= fun _ => pure b) Representable Any := by
  rw [yields_bind]
  exact (yields_true r).imp fun _ _ => (yields_pure _ _ _).mpr hb

theorem resizeVector_yields (buf : List Byte) (n : ℕ) :
    Yields (resizeVector buf n) (fun buf' => buf'.length ≤ maxSize) Any := by
  unfold resizeVector
  by_cases hn : n ≤ maxSize
  · rw [if_pos hn, yields_ok, length_resize]
    exact hn
  · rw [if_neg hn, yields_error]
    trivial

theorem store_yields (buf data : List Byte) (pos : ℕ) :
    Yields (store buf pos data) (fun buf' => buf'.length = buf.length) Any := by
  unfold store
  by_cases hp : pos+data.length ≤ buf.length
  · rw [if_pos hp, yields_ok]
    exact length_overwrite buf pos data hp
  · rw [if_neg hp, yields_error]
    trivial

end Rules

section Members
variable {b : Buffer}

theorem kCheapPrepend_lt : kCheapPrepend < 2^64 := by decide

theorem Representable.setBuffer (hb : Representable b) {buf : List Byte}
    (hbuf : buf.length ≤ maxSize) : Representable { b with buffer := buf } :=
  ⟨hb.reader_lt, hb.writer_lt, hbuf⟩

theorem cheap_representable {buf : List Byte} {writer : ℕ} (hw : writer < 2^64)
    (hbuf : buf.length ≤ maxSize) : Representable ⟨buf, kCheapPrepend, writer⟩ :=
  ⟨kCheapPrepend_lt, hw, hbuf⟩

theorem construct_representable (n : ℕ) : Yields (construct n) Representable Any := by
  unfold construct
  rw [yields_bind]
  refine (resizeVector_yields _ _).imp fun buf hbuf => ?_
  simp only [yields_bind]
  refine (yields_true _).imp fun _ _ => (yields_true _).imp fun _ _ => (yields_true _).imp
    fun _ _ => ?_
  exact (yields_pure _ _ _).mpr (cheap_representable kCheapPrepend_lt hbuf)

theorem retrieveAll_representable (hb : Representable b) : Representable b.retrieveAll :=
  cheap_representable kCheapPrepend_lt hb.size_le

theorem retrieve_representable (hb : Representable b) (len : ℕ) :
    Yields (b.retrieve len) Representable Any := by
  unfold retrieve
  rw [yields_bind]
  refine (yields_true _).imp fun _ _ => ?_
  split_ifs
  · exact (yields_pure _ _ _).mpr ⟨sizeT_lt _, hb.writer_lt, hb.size_le⟩
  · exact (yields_pure _ _ _).mpr (retrieveAll_representable hb)

theorem retrieveAsString_representable (hb : Representable b) (len : ℕ) :
    Yields (b.retrieveAsString len) (fun p => Representable p.2) Any := by
  unfold retrieveAsString
  simp only [yields_bind]
  refine (yields_true _).imp fun _ _ => (yields_true _).imp fun _ _ => ?_
  exact (retrieve_representable hb len).imp fun _ h => (yields_pure _ _ _).mpr h

theorem makeSpace_representable (hb : Representable b) (len : ℕ) :
    Yields (b.makeSpace len) Representable Any := by
  unfold makeSpace
  split_ifs
  · rw [yields_bind]
    refine (resizeVector_yields _ _).imp fun buf hbuf => ?_
    exact (yields_pure _ _ _).mpr (hb.setBuffer hbuf)
  · simp only [yields_bind]
    refine (yields_true _).imp fun _ _ => (yields_true _).imp fun data _ => ?_
    refine (store_yields _ data _).imp fun buf hbuf => (yields_true _).imp fun _ _ => ?_
    exact (yields_pure _ _ _).mpr (cheap_representable (sizeT_lt _) (hbuf ▸ hb.size_le))

theorem ensureWritableBytes_representable (hb : Representable b) (len : ℕ) :
    Yields (b.ensureWritableBytes len) Representable Any := by
  have hcheck : ∀ b', Representable b' → Yields (assertThat (b'.writableBytes ≥ len)
      "writableBytes() >= len" >>= fun _ => pure b') Representable Any := fun b' h => h.observed _
  unfold ensureWritableBytes
  split_ifs
  · rw [yields_bind]
    exact (makeSpace_representable hb len).imp hcheck
  · exact hcheck b hb

theorem hasWritten_representable (hb : Representable b) (len : ℕ) :
    Yields (b.hasWritten len) Representable Any := by
  unfold hasWritten
  rw [yields_bind]
  refine (yields_true _).imp fun _ _ => ?_
  exact (yields_pure _ _ _).mpr ⟨hb.reader_lt, sizeT_lt _, hb.size_le⟩

theorem append_representable (hb : Representable b) (data : List Byte) :
    Yields (b.append data) Representable Any := by
  unfold append
  rw [yields_bind]
  refine (ensureWritableBytes_representable hb _).imp fun b' hb' => ?_
  rw [yields_bind]
  refine (store_yields _ data _).imp fun buf hbuf => ?_
  exact hasWritten_representable (hb'.setBuffer (hbuf ▸ hb'.size_le)) _

theorem prepend_representable (hb : Representable b) (data : List Byte) :
    Yields (b.prepend data) Representable Any := by
  unfold prepend
  simp only [yields_bind]
  refine (yields_true _).imp fun _ _ => (store_yields _ data _).imp fun buf hbuf => ?_
  exact (yields_pure _ _ _).mpr ⟨sizeSub_lt _ _, hb.writer_lt, hbuf ▸ hb.size_le⟩

theorem shrink_representable (b : Buffer) (reserve : ℕ) :
    Yields (b.shrink reserve) Representable Any := by
  unfold shrink
  rw [yields_bind]
  refine (construct_representable _).imp fun other ho => ?_
  rw [yields_bind]
  refine (ensureWritableBytes_representable ho _).imp fun other ho => ?_
  rw [yields_bind]
  exact (yields_true _).imp fun piece _ => append_representable ho piece

theorem readFd_representable (hb : Representable b) (r : ReadResult) :
    Yields (b.readFd r) (fun p => Representable p.2) Any := by
  cases r with
  | failed errno => exact (yields_pure _ _ _).mpr hb
  | read bytes =>
    have hlen : b.buffer.length < 2^64 := by
      have hs := hb.size_lt
      omega
    simp only [readFd]
    rw [yields_bind]
    refine (store_yields _ _ _).imp fun buf hbuf => ?_
    have hsize : buf.length ≤ maxSize := hbuf ▸ hb.size_le
    split_ifs
    · exact (yields_pure _ _ _).mpr ⟨hb.reader_lt, sizeT_lt _, hsize⟩
    · rw [yields_bind]
      have hfull : Representable { b with buffer := buf, writerIndex := b.buffer.length } :=
        ⟨hb.reader_lt, hlen, hsize⟩
      refine (append_representable hfull _).imp fun b' hb' => ?_
      exact (yields_pure _ _ _).mpr hb'

theorem call_representable (hb : Representable b) (m : Member) :
    Yields (b.callMember m) Representable Any := by
  cases m with
  | append data => exact append_representable hb data
  | appendInt t x =>
    rw [callMember, appendInt_eq]
    exact append_representable hb _
  | prepend data => exact prepend_representable hb data
  | prependInt t x =>
    rw [callMember, prependInt_eq]
    exact prepend_representable hb _
  | retrieve len => exact retrieve_representable hb len
  | retrieveUntil finish =>
    rw [callMember, retrieveUntil]
    simp only [yields_bind]
    exact (yields_true _).imp fun _ _ => (yields_true _).imp fun _ _ => retrieve_representable hb _
  | retrieveInt t => cases t <;> exact retrieve_representable hb _
  | retrieveAll => exact (yields_ok _ _ _).mpr (retrieveAll_representable hb)
  | retrieveAsString len =>
    rw [callMember, yields_bind]
    exact (retrieveAsString_representable hb len).imp fun _ h => (yields_pure _ _ _).mpr h
  | retrieveAllAsString =>
    rw [callMember, yields_bind]
    exact (retrieveAsString_representable hb _).imp fun _ h => (yields_pure _ _ _).mpr h
  | readInt t =>
    rw [callMember, readInt_eq]
    simp only [yields_bind]
    refine (yields_true _).imp fun _ _ => (retrieve_representable hb _).imp fun _ h => ?_
    exact (yields_pure _ _ _).mpr ((yields_pure _ _ _).mpr h)
  | peekInt t => exact hb.observed _
  | toStringPiece => exact hb.observed _
  | findCRLF => exact hb.observed _
  | findCRLFFrom start => exact hb.observed _
  | findEOL => exact hb.observed _
  | findEOLFrom start => exact hb.observed _
  | ensureWritableBytes len => exact ensureWritableBytes_representable hb len
  | storeAtBeginWrite data =>
    rw [callMember, storeAtBeginWrite, yields_bind]
    refine (store_yields _ _ _).imp fun buf hbuf => ?_
    exact (yields_pure _ _ _).mpr (hb.setBuffer (hbuf ▸ hb.size_le))
  | hasWritten len => exact hasWritten_representable hb len
  | unwrite len =>
    rw [callMember, unwrite, yields_bind]
    refine (yields_true _).imp fun _ _ => ?_
    exact (yields_pure _ _ _).mpr ⟨hb.reader_lt, sizeSub_lt _ _, hb.size_le⟩
  | shrink reserve => exact shrink_representable b reserve
  | readFd r =>
    rw [callMember, yields_bind]
    exact (readFd_representable hb r).imp fun _ h => (yields_pure _ _ _).mpr h

end Members

theorem movedFrom_representable {b : Buffer} (hb : Representable b) : Representable b.movedFrom :=
  ⟨hb.reader_lt, hb.writer_lt, Nat.zero_le _⟩

theorem step_representable {s : Buffers} (hs : Each Representable s) (a : Action) :
    Yields (step s a) (Each Representable) Any :=
  step_each hs trivial a (fun _ n _ => construct_representable n)
    (fun _ _ _ _ hb => movedFrom_representable hb)
    (fun i m b _ hb => call_representable (hs i b hb) m)

theorem run_representable (as : List Action) :
    Yields (run step empty as) (Each Representable) Any := by
  apply run_yields (fun _ _ => True) (fun s a hs _ => step_representable hs a) as empty each_empty
  exact admitted_true _ _

section InPlace

abbrev InPlace := EStateM Fault Buffer

def InPlace.makeSpace (len : ℕ) : InPlace Unit := do
  let b ← get
  if sizeT (b.writableBytes+b.prependableBytes) < sizeT (len+kCheapPrepend) then
    let buf ← attempt (resizeVector b.buffer (sizeT (b.writerIndex+len)))
    set { b with buffer := buf }
  else
    attempt (assertThat (kCheapPrepend < b.readerIndex) "kCheapPrepend < readerIndex_")
    let readable := b.readableBytes
    let data ← attempt (load b.buffer b.readerIndex b.writerIndex)
    let buf ← attempt (store b.buffer kCheapPrepend data)
    set { b with buffer := buf }
    set (Buffer.mk buf kCheapPrepend b.writerIndex)
    set (Buffer.mk buf kCheapPrepend (sizeT (kCheapPrepend+readable)))
    let b ← get
    attempt (assertThat (readable = b.readableBytes) "readable == readableBytes()")

def InPlace.ensureWritableBytes (len : ℕ) : InPlace Unit := do
  let b ← get
  if b.writableBytes < len then
    InPlace.makeSpace len
  let b ← get
  attempt (assertThat (b.writableBytes ≥ len) "writableBytes() >= len")

def appendPiece (other b : Buffer) : Except Fault Buffer := do
  let other ← other.ensureWritableBytes b.readableBytes
  let data ← b.toStringPiece
  let buf ← store other.buffer other.writerIndex data
  hasWritten { other with buffer := buf } b.readableBytes

def InPlace.shrink (reserve : ℕ) : InPlace Unit := do
  let b ← get
  let other ← attempt (construct kInitialSize)
  let other ← attempt (other.ensureWritableBytes (sizeT (b.readableBytes+reserve)))
  let other ← attempt (appendPiece other b)
  -- the swap is the first change to the buffer and the last statement
  set other

/-- The value-passing function stops where the member does, and the member
has changed nothing when `resize` throws. -/
def Accounts (b : Buffer) (r : Except Fault Buffer) (m : InPlace Unit) : Prop :=
  Ends m b (fun _ b' => r = .ok b') (fun e b' => r = .error e ∧ (e = .lengthError → b' = b))

theorem makeSpace_accounts (b : Buffer) (len : ℕ) :
    Accounts b (b.makeSpace len) (InPlace.makeSpace len) := by
  unfold Accounts InPlace.makeSpace makeSpace
  simp only [ends_bind, ends_get]
  split_ifs with hg
  · rw [ends_bind, ends_attempt]
    cases resizeVector b.buffer (sizeT (b.writerIndex+len)) with
    | error e => exact (yields_error _ _ _).mpr ⟨rfl, fun _ => rfl⟩
    | ok buf =>
      rw [yields_ok, ends_set]
      rfl
  · simp only [ends_bind, ends_attempt, ends_set, ends_get]
    by_cases hk : kCheapPrepend < b.readerIndex
    · rw [assertThat_of hk, yields_ok]
      cases load b.buffer b.readerIndex b.writerIndex with
      | error e => exact (yields_error _ _ _).mpr ⟨rfl, fun _ => trivial⟩
      | ok data =>
        rw [yields_ok]
        cases hs : store b.buffer kCheapPrepend data with
        | error e =>
          refine (yields_error _ _ _).mpr ⟨?_, fun _ => trivial⟩
          simp only [ok_bind, hs]
          rfl
        | ok buf =>
          rw [yields_ok]
          simp only [ok_bind, hs]
          by_cases hr : b.readableBytes =
              (Buffer.mk buf kCheapPrepend (sizeT (kCheapPrepend+b.readableBytes))).readableBytes
          · rw [assertThat_of hr, yields_ok]
            rfl
          · rw [assertThat_of_not hr, yields_error]
            exact ⟨rfl, by simp⟩
    · rw [assertThat_of_not hk, yields_error]
      exact ⟨rfl, fun _ => trivial⟩

theorem ensureWritableBytes_accounts (b : Buffer) (len : ℕ) :
    Accounts b (b.ensureWritableBytes len) (InPlace.ensureWritableBytes len) := by
  unfold Accounts InPlace.ensureWritableBytes ensureWritableBytes
  simp only [ends_bind, ends_get]
  split_ifs with hw
  · rw [ends_bind]
    refine (makeSpace_accounts b len).mono (fun _ b' h => ?_) (fun e b' h => ⟨?_, h.2⟩)
    · rw [h, ok_bind, ends_bind, ends_get, ends_attempt]
      by_cases hr : b'.writableBytes ≥ len
      · rw [assertThat_of hr, yields_ok]
        rfl
      · rw [assertThat_of_not hr, yields_error]
        exact ⟨rfl, by simp⟩
    · rw [h.1]
      rfl
  · have hr : b.writableBytes ≥ len := Nat.le_of_not_lt hw
    simp only [ends_bind, ends_get, ends_attempt, assertThat_of hr, yields_ok]
    rw [pure_eq_ok, ok_bind, assertThat_of hr]
    rfl

theorem readableBytes_lt (b : Buffer) : b.readableBytes < 2^64 := sizeSub_lt _ _

theorem appendPiece_of {other b : Buffer} {data : List Byte} (h : b.toStringPiece = .ok data) :
    appendPiece other b = other.append data := by
  have hlen : data.length = b.readableBytes := by
    unfold toStringPiece load at h
    split_ifs at h with hload
    cases h
    rw [length_slice _ _ _ hload.2, Nat.add_sub_cancel_left]
  unfold appendPiece append
  rw [h, hlen]
  rfl

theorem appendPiece_fails (other : Buffer) {b : Buffer} {e : Fault}
    (h : b.toStringPiece = .error e) :
    ∃ e', appendPiece other b = .error e' := by
  unfold appendPiece
  rw [h]
  cases other.ensureWritableBytes b.readableBytes with
  | ok other => exact ⟨e, rfl⟩
  | error e' => exact ⟨e', rfl⟩

theorem shrink_accounts (b : Buffer) (reserve : ℕ) :
    Ends (InPlace.shrink reserve) b (fun _ b' => b.shrink reserve = .ok b')
      (fun _ b' => (∃ e, b.shrink reserve = .error e) ∧ b' = b) := by
  unfold InPlace.shrink shrink
  simp only [ends_bind, ends_get, ends_attempt, ends_set]
  cases construct kInitialSize with
  | error e => exact (yields_error _ _ _).mpr ⟨⟨e, rfl⟩, trivial⟩
  | ok other =>
    rw [yields_ok, ok_bind]
    cases other.ensureWritableBytes (sizeT (b.readableBytes+reserve)) with
    | error e => exact (yields_error _ _ _).mpr ⟨⟨e, rfl⟩, trivial⟩
    | ok other =>
      rw [yields_ok, ok_bind]
      cases hp : b.toStringPiece with
      | error e =>
        obtain ⟨e', he⟩ := appendPiece_fails other hp
        rw [he, yields_error]
        exact ⟨⟨e, rfl⟩, trivial⟩
      | ok piece =>
        rw [appendPiece_of hp, ok_bind]
        cases other.append piece with
        | error e => exact (yields_error _ _ _).mpr ⟨⟨e, rfl⟩, trivial⟩
        | ok other => exact (yields_ok _ _ _).mpr rfl

end InPlace

/-- What a caller of `ensureWritableBytes(len)` or `shrink(len)` relies on. -/
structure Room (b : Buffer) (len : ℕ) (b' : Buffer) : Prop where
  reader_le : b'.readerIndex ≤ b'.writerIndex
  writer_le : b'.writerIndex ≤ b'.buffer.length
  contents_eq : b'.contents = b.contents
  room : len ≤ b'.writableBytes

/-- The room is there, or `resize` has thrown and the buffer is as before. -/
def Reserves (b : Buffer) (len : ℕ) (m : InPlace Unit) : Prop :=
  Ends m b (fun _ b' => Room b len b') (fun e b' => e = .lengthError ∧ b' = b)

def Ordered (b : Buffer) : Prop :=
  b.readerIndex ≤ b.writerIndex ∧ b.writerIndex ≤ b.buffer.length

instance (b : Buffer) : Decidable (Ordered b) := inferInstanceAs (Decidable (_ ∧ _))

/-- The comparison in `makeSpace` that sends `len` to `resize`. -/
def Grows (b : Buffer) (len : ℕ) : Prop :=
  sizeT (b.writableBytes+b.prependableBytes) < sizeT (len+kCheapPrepend)

instance (b : Buffer) (len : ℕ) : Decidable (Grows b len) := inferInstanceAs (Decidable (_ < _))

/-- The lengths for which the space is reserved. Without room, the vector is
resized to a sum that exceeds every vector or has not wrapped, or the readable
bytes slide to the front and the sum that sent them there has not wrapped. -/
def Reservable (b : Buffer) (len : ℕ) : Prop :=
  if b.writableBytes < len then
    if Grows b len then
      maxSize < sizeT (b.writerIndex+len) ∨
        b.readerIndex ≤ b.writerIndex ∧ b.writerIndex+len < 2^64
    else Ordered b ∧ len+kCheapPrepend < 2^64
  else Ordered b

instance (b : Buffer) (len : ℕ) : Decidable (Reservable b len) :=
  inferInstanceAs (Decidable (ite _ (ite _ _ _) _))

theorem reserves_iff_yields {b : Buffer} {len : ℕ} {m : InPlace Unit} {r : Except Fault Buffer}
    (h : Accounts b r m) : Reserves b len m ↔ Yields r (Room b len) (· = .lengthError) := by
  unfold Reserves Ends
  unfold Accounts Ends at h
  cases hm : m b with
  | ok u b' =>
    simp only [hm] at h ⊢
    rw [h, yields_ok]
  | error e b' =>
    simp only [hm] at h ⊢
    rw [h.1, yields_error]
    exact and_iff_left_of_imp h.2

theorem checked_iff (b b' : Buffer) (len : ℕ) :
    Yields (assertThat (b'.writableBytes ≥ len) "writableBytes() >= len" >>= fun _ => pure b')
      (Room b len) (· = .lengthError) ↔ Room b len b' := by
  by_cases hr : b'.writableBytes ≥ len
  · rw [assertThat_of hr, ok_bind, yields_pure]
  · rw [assertThat_of_not hr, yields_bind, yields_error]
    exact iff_of_false (fun h => nomatch h) (fun h => hr h.room)

section Ensure
variable {b : Buffer} {len : ℕ}

theorem makeSpace_grows (hg : Grows b len) :
    b.makeSpace len = resizeVector b.buffer (sizeT (b.writerIndex+len)) >>= fun buf =>
      pure { b with buffer := buf } :=
  if_pos hg

theorem resized_writableBytes (hb : Representable b) (hl : len < 2^64) :
    sizeSub (sizeT (b.writerIndex+len)) b.writerIndex = len := by
  have hw := hb.writer_lt
  unfold sizeSub sizeT
  omega

theorem grow_room (hb : Representable b) (hl : len < 2^64) (hw : b.writableBytes < len) :
    Room b len { b with buffer := resize b.buffer (sizeT (b.writerIndex+len)) 0 } ↔
      b.readerIndex ≤ b.writerIndex ∧ b.writerIndex+len < 2^64 := by
  have hlen := length_resize b.buffer (sizeT (b.writerIndex+len)) (0 : Byte)
  have hwl := hb.writer_lt
  have hs := hb.size_lt
  constructor
  · intro h
    refine ⟨h.reader_le, ?_⟩
    have hle : b.writerIndex ≤ sizeT (b.writerIndex+len) := by
      have := h.writer_le
      rwa [hlen] at this
    unfold sizeT at hle
    omega
  · rintro ⟨hr, hsum⟩
    -- without the wrap the written bytes lie in the old vector
    have hwb : b.writerIndex ≤ b.buffer.length := by
      unfold writableBytes sizeSub at hw
      omega
    rw [sizeT_of_lt hsum] at hlen ⊢
    refine ⟨hr, ?_, ?_, ?_⟩
    · rw [hlen]
      exact Nat.le_add_right _ _
    · exact slice_resize _ _ hwb (Nat.le_add_right _ _)
    · show len ≤ sizeSub (resize b.buffer (b.writerIndex+len) 0).length b.writerIndex
      rw [hlen, sizeSub_of_le (Nat.le_add_right _ _) hsum, Nat.add_sub_cancel_left]

theorem grow_iff (hb : Representable b) (hl : len < 2^64) (hw : b.writableBytes < len)
    (hg : Grows b len) :
    Yields (b.ensureWritableBytes len) (Room b len) (· = .lengthError) ↔
      maxSize < sizeT (b.writerIndex+len) ∨
        b.readerIndex ≤ b.writerIndex ∧ b.writerIndex+len < 2^64 := by
  rw [ensureWritableBytes_of_lt hw, makeSpace_grows hg]
  unfold resizeVector
  by_cases hm : sizeT (b.writerIndex+len) ≤ maxSize
  · rw [if_pos hm, ok_bind, pure_eq_ok, ok_bind, checked_iff, grow_room hb hl hw]
    exact (or_iff_right (Nat.not_lt.mpr hm)).symm
  · rw [if_neg hm]
    refine iff_of_true ?_ (.inl (Nat.lt_of_not_le hm))
    exact (yields_error _ _ _).mpr rfl

theorem readableBytes_of_ordered (hb : Representable b) (ho : Ordered b) :
    b.readableBytes = b.writerIndex-b.readerIndex := sizeSub_of_le ho.1 hb.writer_lt

theorem writableBytes_of_ordered (hb : Representable b) (ho : Ordered b) :
    b.writableBytes = b.buffer.length-b.writerIndex := by
  have hs := hb.size_lt
  apply sizeSub_of_le ho.2
  omega

theorem slid_room_iff (hv : Valid b)
    (hg : ¬sizeT (b.writableBytes+b.prependableBytes) < sizeT (len+kCheapPrepend))
    (hk : kCheapPrepend < b.readerIndex) : Room b len b.slid ↔ len+kCheapPrepend < 2^64 := by
  obtain ⟨hv', hc, hroom⟩ := slid_spec hv (Nat.le_of_lt hk)
  have hr := hv.reader_le
  have hwe := writableBytes_eq hv
  have hw := hv.writer_le
  have hs := hv.size_le
  unfold maxSize at hs
  constructor
  · intro h
    have := h.room
    omega
  · intro hsum
    rw [sizeT_of_lt hsum, sizeT_of_lt (by unfold prependableBytes; omega)] at hg
    unfold prependableBytes at hg
    exact ⟨hv'.reader_le, hv'.writer_le, hc, by omega⟩

/-- The second branch never makes room for a length whose sum has wrapped. -/
theorem slide_iff (hb : Representable b) (hw : b.writableBytes < len)
    (hg : ¬Grows b len) :
    Yields (b.ensureWritableBytes len) (Room b len) (· = .lengthError) ↔
      Ordered b ∧ len+kCheapPrepend < 2^64 := by
  unfold Grows at hg
  rw [ensureWritableBytes_of_lt hw]
  by_cases hk : kCheapPrepend < b.readerIndex
  · by_cases ho : Ordered b
    · have hv : Valid b := ⟨ho.1, ho.2, (Nat.le_of_lt hk).trans (ho.1.trans ho.2), hb.size_le⟩
      rw [makeSpace_slides hv hg hk, ok_bind, checked_iff]
      exact (slid_room_iff hv hg hk).trans (and_iff_right ho).symm
    · have hload : load b.buffer b.readerIndex b.writerIndex = .error .outOfBounds := if_neg ho
      have hmake : b.makeSpace len = .error .outOfBounds := by
        unfold makeSpace
        rw [if_neg hg, assertThat_of hk, ok_bind, hload]
        rfl
      rw [hmake]
      exact iff_of_false (fun h => nomatch (yields_error _ _ _).mp h) fun h => ho h.1
  · -- the first assertion fails, and a length whose sum does not wrap never leads here
    have hmake : b.makeSpace len = .error (.assertion "kCheapPrepend < readerIndex_") := by
      unfold makeSpace
      rw [if_neg hg, assertThat_of_not hk]
      rfl
    rw [hmake]
    refine iff_of_false (fun h => nomatch (yields_error _ _ _).mp h) fun ⟨ho, hsum⟩ => hg ?_
    have hwe := writableBytes_of_ordered hb ho
    have hro := ho.1
    have hwo := ho.2
    have hs := hb.size_lt
    rw [sizeT_of_lt hsum, sizeT_of_lt] <;> unfold prependableBytes <;> omega

theorem ensureWritableBytes_iff (hb : Representable b) (hl : len < 2^64) :
    Reserves b len (InPlace.ensureWritableBytes len) ↔ Reservable b len := by
  rw [reserves_iff_yields (ensureWritableBytes_accounts b len)]
  unfold Reservable
  by_cases hw : b.writableBytes < len
  · rw [if_pos hw]
    by_cases hg : Grows b len
    · rw [if_pos hg]
      exact grow_iff hb hl hw hg
    · rw [if_neg hg]
      exact slide_iff hb hw hg
  · rw [if_neg hw]
    have hr := Nat.le_of_not_lt hw
    rw [ensureWritableBytes_of_le hr, yields_ok]
    exact ⟨fun h => ⟨h.reader_le, h.writer_le⟩, fun h => ⟨h.1, h.2, rfl, hr⟩⟩

end Ensure

section Shrink

theorem resize_unused {k m : ℕ} (h : k ≤ m) :
    resize (unused k).buffer (kCheapPrepend+m) 0 = (unused m).buffer := by
  have hadd : kCheapPrepend+k+(m-k) = kCheapPrepend+m := by omega
  simp only [unused, resize, List.take_nil, List.nil_append, List.length_nil, Nat.sub_zero,
    List.length_replicate, List.take_replicate]
  rw [Nat.min_eq_right (Nat.add_le_add_left h _), List.replicate_append_replicate]
  congr 1
  omega

section Unused
variable {k m : ℕ}

theorem unused_sum (hk : kCheapPrepend+k ≤ maxSize) :
    sizeT ((unused k).writableBytes+(unused k).prependableBytes) = k+kCheapPrepend := by
  rw [unused_writableBytes hk]
  apply sizeT_of_lt
  unfold maxSize at hk
  change k+kCheapPrepend < _
  omega

theorem unused_grows (hk : kCheapPrepend+k ≤ maxSize) (hkm : k < m)
    (hw : m+kCheapPrepend < 2^64) : Grows (unused k) m := by
  unfold Grows
  rw [unused_sum hk, sizeT_of_lt hw]
  exact Nat.add_lt_add_right hkm _

theorem unused_resize (hw : m+kCheapPrepend < 2^64) :
    sizeT ((unused k).writerIndex+m) = kCheapPrepend+m := by
  change sizeT (kCheapPrepend+m) = _
  apply sizeT_of_lt
  omega

theorem unused_ensure (hk : kCheapPrepend+k ≤ maxSize) (hm : kCheapPrepend+m ≤ maxSize) :
    (unused k).ensureWritableBytes m = .ok (unused (max k m)) := by
  have hwe := unused_writableBytes hk
  have hwrap : m+kCheapPrepend < 2^64 := by
    unfold maxSize at hm
    omega
  by_cases hkm : k < m
  · have hmake : (unused k).makeSpace m = .ok (unused m) := by
      rw [makeSpace_grows (unused_grows hk hkm hwrap), unused_resize hwrap, resizeVector,
        if_pos hm, ok_bind, resize_unused (Nat.le_of_lt hkm)]
      rfl
    have hroom : (unused m).writableBytes ≥ m := Nat.le_of_eq (unused_writableBytes hm).symm
    rw [ensureWritableBytes_of_lt (hwe.symm ▸ hkm), hmake, ok_bind, assertThat_of hroom,
      Nat.max_eq_right (Nat.le_of_lt hkm)]
    rfl
  · have hmk := Nat.le_of_not_lt hkm
    rw [ensureWritableBytes_of_le (hwe.symm ▸ hmk), Nat.max_eq_left hmk]

theorem unused_ensure_long (hk : kCheapPrepend+k ≤ maxSize) (hm : maxSize < kCheapPrepend+m)
    (hw : m+kCheapPrepend < 2^64) : (unused k).ensureWritableBytes m = .error .lengthError := by
  have hkm : k < m := by omega
  rw [ensureWritableBytes_of_lt ((unused_writableBytes hk).symm ▸ hkm),
    makeSpace_grows (unused_grows hk hkm hw), unused_resize hw, resizeVector,
    if_neg (Nat.not_le.mpr hm)]
  rfl

theorem unused_ensure_wrapped (hk : kCheapPrepend+k ≤ maxSize) (hm : m < 2^64)
    (hw : 2^64 ≤ m+kCheapPrepend) :
    (unused k).ensureWritableBytes m = .error (.assertion "kCheapPrepend < readerIndex_") := by
  have hkm : k < m := by
    unfold maxSize at hk
    unfold kCheapPrepend at hk hw
    omega
  have hg : ¬Grows (unused k) m := by
    unfold Grows
    rw [unused_sum hk]
    unfold sizeT kCheapPrepend at *
    omega
  have hfront : ¬kCheapPrepend < (unused k).readerIndex := Nat.lt_irrefl _
  unfold Grows at hg
  rw [ensureWritableBytes_of_lt ((unused_writableBytes hk).symm ▸ hkm)]
  unfold makeSpace
  rw [if_neg hg, assertThat_of_not hfront]
  rfl

theorem max_room (hk : kCheapPrepend+k ≤ maxSize) (hm : kCheapPrepend+m ≤ maxSize) :
    kCheapPrepend+max k m ≤ maxSize := by
  rw [← Nat.add_max_add_left]
  exact Nat.max_le.mpr ⟨hk, hm⟩

theorem append_unused {data : List Byte} (hk : kCheapPrepend+k ≤ maxSize)
    (hm : kCheapPrepend+data.length ≤ maxSize) :
    (unused k).append data = .ok ((unused (max k data.length)).written data) := by
  have hmax := max_room hk hm
  have hroom : data.length ≤ (unused (max k data.length)).writableBytes := by
    rw [unused_writableBytes hmax]
    exact Nat.le_max_right _ _
  unfold append
  rw [unused_ensure hk hm, ok_bind]
  exact store_written (unused_valid hmax) hroom

end Unused

section Piece
variable {b : Buffer} {k reserve : ℕ}

theorem toStringPiece_of_ordered (hb : Representable b) (ho : Ordered b) :
    b.toStringPiece = .ok b.contents ∧ b.contents.length = b.readableBytes := by
  have hre := readableBytes_of_ordered hb ho
  have hend : b.readerIndex+b.readableBytes = b.writerIndex := by
    rw [hre]
    exact Nat.add_sub_cancel' ho.1
  constructor
  · unfold toStringPiece
    rw [hend, load_of ho.1 ho.2]
    rfl
  · rw [contents, length_slice _ _ _ ho.2, hre]

theorem toStringPiece_of_not (hb : Representable b) (ho : ¬Ordered b) :
    b.toStringPiece = .error .outOfBounds := by
  have hr := hb.reader_lt
  have hw := hb.writer_lt
  have hs := hb.size_lt
  unfold toStringPiece load
  refine if_neg fun h => ho ?_
  have hend := h.2
  unfold readableBytes sizeSub at hend
  unfold Ordered
  omega

theorem appendPiece_iff (hb : Representable b) (hk : kCheapPrepend+k ≤ maxSize) :
    Yields (appendPiece (unused k) b) (Room b reserve) (· = .lengthError) ↔
      maxSize < kCheapPrepend+b.readableBytes ∧ b.readableBytes+kCheapPrepend < 2^64 ∨
        kCheapPrepend+b.readableBytes ≤ maxSize ∧ Ordered b ∧
          reserve ≤ max k b.readableBytes-b.readableBytes := by
  have hn := readableBytes_lt b
  by_cases hm : kCheapPrepend+b.readableBytes ≤ maxSize
  · by_cases ho : Ordered b
    · obtain ⟨hp, hlen⟩ := toStringPiece_of_ordered hb ho
      rw [← hlen] at hm ⊢
      have hmax := max_room hk hm
      have hroom : b.contents.length ≤ (unused (max k b.contents.length)).writableBytes := by
        rw [unused_writableBytes hmax]
        exact Nat.le_max_right _ _
      obtain ⟨hv', hc, hwr⟩ := written_spec (unused_valid hmax) hroom
      rw [unused_writableBytes hmax] at hwr
      rw [appendPiece_of hp, append_unused hk hm, yields_ok]
      constructor
      · intro h
        exact .inr ⟨hm, ho, hwr ▸ h.room⟩
      · rintro (⟨h, -⟩ | ⟨-, -, h⟩)
        · exact absurd hm (Nat.not_le.mpr h)
        · refine ⟨hv'.reader_le, hv'.writer_le, ?_, hwr ▸ h⟩
          rw [hc]
          exact congrArg (· ++ b.contents) (slice_self _ _)
    · unfold appendPiece
      rw [unused_ensure hk hm, ok_bind, toStringPiece_of_not hb ho, yields_bind, yields_error]
      refine iff_of_false (fun h => nomatch h) ?_
      rintro (⟨h, -⟩ | ⟨-, h, -⟩)
      · exact absurd hm (Nat.not_le.mpr h)
      · exact ho h
  · have hlong := Nat.lt_of_not_le hm
    unfold appendPiece
    by_cases hwrap : b.readableBytes+kCheapPrepend < 2^64
    · rw [unused_ensure_long hk hlong hwrap, yields_bind, yields_error]
      exact iff_of_true rfl (.inl ⟨hlong, hwrap⟩)
    · rw [unused_ensure_wrapped hk hn (Nat.le_of_not_lt hwrap), yields_bind, yields_error]
      refine iff_of_false (fun h => nomatch h) ?_
      rintro (⟨-, h⟩ | ⟨h, -⟩)
      · exact hwrap h
      · exact hm h

/-- The reserves for which `shrink` keeps its promise: the sum with the
readable bytes is exact, or what is asked of `resize` exceeds every vector. -/
def Shrinkable (b : Buffer) (reserve : ℕ) : Prop :=
  Ordered b ∧ b.readableBytes+reserve+kCheapPrepend < 2^64 ∨
    maxSize < kCheapPrepend+sizeT (b.readableBytes+reserve) ∧
      sizeT (b.readableBytes+reserve)+kCheapPrepend < 2^64 ∨
    2^64 ≤ b.readableBytes+reserve ∧ maxSize < kCheapPrepend+b.readableBytes ∧
      b.readableBytes+kCheapPrepend < 2^64

instance (b : Buffer) (reserve : ℕ) : Decidable (Shrinkable b reserve) :=
  inferInstanceAs (Decidable (_ ∨ _ ∨ _))

theorem shrink_iff (hb : Representable b) (hl : reserve < 2^64) :
    Reserves b reserve (InPlace.shrink reserve) ↔ Shrinkable b reserve := by
  have hn := readableBytes_lt b
  have hinit : kCheapPrepend+kInitialSize ≤ maxSize := by decide
  have hm := sizeT_lt (b.readableBytes+reserve)
  have hred : Reserves b reserve (InPlace.shrink reserve) ↔
      Yields ((unused kInitialSize).ensureWritableBytes (sizeT (b.readableBytes+reserve)) >>=
        fun other => appendPiece other b) (Room b reserve) (· = .lengthError) := by
    unfold Reserves InPlace.shrink
    simp only [ends_bind, ends_get, ends_attempt, ends_set, construct_of hinit, yields_ok,
      yields_bind, and_true]
  rw [hred]
  unfold Shrinkable
  by_cases hfit : kCheapPrepend+sizeT (b.readableBytes+reserve) ≤ maxSize
  · rw [unused_ensure hinit hfit, ok_bind, appendPiece_iff hb (max_room hinit hfit)]
    -- what is left is about the three sums alone
    unfold sizeT kInitialSize maxSize kCheapPrepend at *
    by_cases ho : Ordered b
    · simp only [ho, true_and]
      omega
    · simp only [ho, false_and, and_false, or_false, false_or]
      omega
  · have hlong := Nat.lt_of_not_le hfit
    by_cases hwrap : sizeT (b.readableBytes+reserve)+kCheapPrepend < 2^64
    · rw [unused_ensure_long hinit hlong hwrap, yields_bind, yields_error]
      exact iff_of_true rfl (.inr (.inl ⟨hlong, hwrap⟩))
    · rw [unused_ensure_wrapped hinit hm (Nat.le_of_not_lt hwrap), yields_bind, yields_error]
      refine iff_of_false (by simp) ?_
      unfold sizeT maxSize kCheapPrepend at *
      omega

end Piece

end Shrink

section Valid
variable {b : Buffer} {len : ℕ}

theorem Representable.of_valid (hv : Valid b) : Representable b := by
  have hr := hv.reader_le
  have hw := hv.writer_le
  have hs := hv.size_le
  unfold maxSize at hs
  exact ⟨by omega, by omega, hv.size_le⟩

/-- On a valid buffer the condition is that no sum wraps, or none is computed. -/
theorem reservable_iff_fits (hv : Valid b) (hl : len < 2^64) :
    Reservable b len ↔ len ≤ b.writableBytes ∨ b.Fits len := by
  have ho : Ordered b := ⟨hv.reader_le, hv.writer_le⟩
  have hwe := writableBytes_eq hv
  have hr := hv.reader_le
  have hw := hv.writer_le
  have hc := hv.cheap_le
  have hs := hv.size_le
  unfold Reservable
  by_cases hroom : b.writableBytes < len
  · rw [if_pos hroom, or_iff_right (Nat.not_le.mpr hroom)]
    by_cases hg : Grows b len
    · rw [if_pos hg]
      unfold Grows prependableBytes at hg
      unfold Fits
      unfold sizeT kCheapPrepend maxSize at *
      omega
    · rw [if_neg hg, and_iff_right ho]
      unfold Grows prependableBytes at hg
      unfold Fits
      unfold sizeT kCheapPrepend maxSize at *
      omega
  · rw [if_neg hroom]
    exact iff_of_true ho (.inl (Nat.le_of_not_lt hroom))

theorem shrinkable_iff (hv : Valid b) (hl : len < 2^64) :
    Shrinkable b len ↔ b.readableBytes+len+kCheapPrepend < 2^64 ∨
      2^64 ≤ b.readableBytes+len ∧ maxSize < kCheapPrepend+b.readableBytes := by
  have ho : Ordered b := ⟨hv.reader_le, hv.writer_le⟩
  have hre := readableBytes_eq hv
  have hw := hv.writer_le
  have hs := hv.size_le
  unfold Shrinkable
  simp only [ho, true_and]
  unfold sizeT kCheapPrepend maxSize at *
  omega

end Valid

/-- For every program over buffers, every buffer in every state it reaches and
every `len` of type `size_t`: what `ensureWritableBytes(len)` and `shrink(len)`
promise is kept exactly for the lengths that are `Reservable` and `Shrinkable`. -/
theorem reservation_safe_iff (as : List Action) (t : Buffers) (hr : run step empty as = .ok t)
    (i : ℕ) (b : Buffer) (hb : t i = some b) (len : ℕ) (hl : len < 2^64) :
    (Reserves b len (InPlace.ensureWritableBytes len) ↔ Reservable b len) ∧
      (Reserves b len (InPlace.shrink len) ↔ Shrinkable b len) := by
  have hrep : Representable b := (run_representable as).ok hr i b hb
  exact ⟨ensureWritableBytes_iff hrep hl, shrink_iff hrep hl⟩

def oneByte : List Action := [.construct 0 1, .call 0 (.append [104])]

def oneByteBuffer : Buffer := ⟨[0,0,0,0,0,0,0,0,104], 8, 9⟩

/-- Sixteen more bytes are reserved; `2^64-9` of them resize the vector to
nothing. -/
theorem reservation_safe_iff_one_byte :
    (Reserves oneByteBuffer 16 (InPlace.ensureWritableBytes 16) ∧
      Reserves oneByteBuffer 16 (InPlace.shrink 16)) ∧
      ¬Reserves oneByteBuffer (2^64-9) (InPlace.ensureWritableBytes (2^64-9)) := by
  have h16 := reservation_safe_iff oneByte _ rfl 0 oneByteBuffer rfl 16 (by decide)
  have hwrap := reservation_safe_iff oneByte _ rfl 0 oneByteBuffer rfl (2^64-9) (by decide)
  refine ⟨⟨h16.1.mpr (by decide), h16.2.mpr (by decide)⟩, fun h => ?_⟩
  exact absurd (hwrap.1.mp h) (by decide)

theorem reservation_unsafe : ¬∀ (as : List Action) (t : Buffers), run step empty as = .ok t →
    ∀ i b, t i = some b → ∀ len < 2^64,
      Reserves b len (InPlace.ensureWritableBytes len) ∧ Reserves b len (InPlace.shrink len) := by
  intro h
  have hsafe := (h oneByte _ rfl 0 oneByteBuffer rfl (2^64-9) (by decide)).1
  have hrun : oneByteBuffer.ensureWritableBytes (2^64-9) = .ok ⟨[], 8, 9⟩ := by decide +kernel
  rw [reserves_iff_yields (ensureWritableBytes_accounts _ _), hrun, yields_ok] at hsafe
  exact absurd hsafe.writer_le (by decide)

end Lux.Polaris.BufferReservation

import LuxPolaris.Buffer

/-!
# What a buffer holds

`Valid` is the index invariant. Each
operation has one specification: it keeps `Valid`, says what becomes of the
contents, and stops only where `resize` is asked for more than the largest
vector. The premises on lengths say that no `size_t` sum wraps.
-/

set_option autoImplicit false

namespace Lux.Polaris
open Outcome Slice

namespace Buffer

structure Valid (b : Buffer) : Prop where
  reader_le : b.readerIndex ≤ b.writerIndex
  writer_le : b.writerIndex ≤ b.buffer.length
  cheap_le : kCheapPrepend ≤ b.buffer.length
  size_le : b.buffer.length ≤ maxSize

/-- Room for `len` more bytes can be computed without wrapping. -/
def Fits (b : Buffer) (len : ℕ) : Prop :=
  len+kCheapPrepend < 2^64 ∧ b.writerIndex+len < 2^64

theorem readableBytes_eq {b : Buffer} (hv : Valid b) :
    b.readableBytes = b.writerIndex-b.readerIndex := by
  have hw := hv.writer_le
  have hs := hv.size_le
  apply sizeSub_of_le hv.reader_le
  unfold maxSize at hs
  omega

theorem writableBytes_eq {b : Buffer} (hv : Valid b) :
    b.writableBytes = b.buffer.length-b.writerIndex := by
  have hs := hv.size_le
  apply sizeSub_of_le hv.writer_le
  unfold maxSize at hs
  omega

theorem length_contents {b : Buffer} (hv : Valid b) : b.contents.length = b.readableBytes := by
  rw [contents, length_slice _ _ _ hv.writer_le, readableBytes_eq hv]

theorem contents_fit {b : Buffer} (hv : Valid b) : b.contents.length ≤ maxSize := by
  have hr := readableBytes_eq hv
  have hw := hv.writer_le
  have hs := hv.size_le
  rw [length_contents hv, hr]
  omega

theorem fits_of_le_maxSize {b : Buffer} (hv : Valid b) {len : ℕ} (h : len ≤ maxSize) :
    b.Fits len := by
  have hw := hv.writer_le
  have hs := hv.size_le
  unfold Fits kCheapPrepend
  unfold maxSize at h hs
  omega

theorem load_of {buf : List Byte} {i j : ℕ} (hi : i ≤ j) (hj : j ≤ buf.length) :
    load buf i j = .ok (slice buf i j) := if_pos ⟨hi,hj⟩

theorem store_of {buf data : List Byte} {pos : ℕ} (h : pos+data.length ≤ buf.length) :
    store buf pos data = .ok (overwrite buf pos data) := if_pos h

def unused (n : ℕ) : Buffer := ⟨resize [] (kCheapPrepend+n) 0, kCheapPrepend, kCheapPrepend⟩

theorem length_unused (n : ℕ) : (unused n).buffer.length = kCheapPrepend+n := length_resize _ _ _

theorem unused_valid {n : ℕ} (hn : kCheapPrepend+n ≤ maxSize) : Valid (unused n) := by
  have hl := length_unused n
  refine ⟨Nat.le_refl _, ?_, ?_, ?_⟩
  · rw [hl]
    exact Nat.le_add_right _ _
  · rw [hl]
    exact Nat.le_add_right _ _
  · rwa [hl]

theorem unused_writableBytes {n : ℕ} (hn : kCheapPrepend+n ≤ maxSize) :
    (unused n).writableBytes = n := by
  rw [writableBytes_eq (unused_valid hn), length_unused]
  exact Nat.add_sub_cancel_left _ _

theorem construct_of {n : ℕ} (hn : kCheapPrepend+n ≤ maxSize) : construct n = .ok (unused n) := by
  have hr : (unused n).readableBytes = 0 := by
    rw [readableBytes_eq (unused_valid hn)]
    exact Nat.sub_self _
  have hp : (unused n).prependableBytes = kCheapPrepend := rfl
  have hsum : sizeT (kCheapPrepend+n) = kCheapPrepend+n := by
    apply sizeT_of_lt
    unfold maxSize at hn
    omega
  unfold construct resizeVector
  rw [hsum, if_pos hn, ok_bind]
  change (assertThat ((unused n).readableBytes = 0) _ >>= fun _ =>
    assertThat ((unused n).writableBytes = n) _ >>= fun _ =>
    assertThat ((unused n).prependableBytes = kCheapPrepend) _ >>= fun _ => pure (unused n)) = _
  rw [assertThat_of hr, assertThat_of (unused_writableBytes hn), assertThat_of hp]
  rfl

theorem construct_spec (n : ℕ) (hn : kCheapPrepend+n < 2^64) :
    Yields (construct n) (fun b => Valid b ∧ b.contents = [] ∧ b.readerIndex = kCheapPrepend ∧
      b.writerIndex = kCheapPrepend ∧ b.writableBytes = n) (· = .lengthError) := by
  by_cases hm : kCheapPrepend+n ≤ maxSize
  · rw [construct_of hm, yields_ok]
    exact ⟨unused_valid hm, slice_self _ _, rfl, rfl, unused_writableBytes hm⟩
  · unfold construct resizeVector
    rw [sizeT_of_lt hn, if_neg hm, yields_bind, yields_error]

theorem retrieveAll_valid {b : Buffer} (hv : Valid b) : Valid b.retrieveAll :=
  ⟨Nat.le_refl _, hv.cheap_le, hv.cheap_le, hv.size_le⟩

theorem retrieveAll_contents (b : Buffer) : b.retrieveAll.contents = [] := slice_self _ _

theorem retrieve_spec {b : Buffer} (hv : Valid b) {len : ℕ} (h : len ≤ b.readableBytes) :
    ∃ b', b.retrieve len = .ok b' ∧ Valid b' ∧ b'.contents = b.contents.drop len ∧
      (kCheapPrepend ≤ b.readerIndex → kCheapPrepend ≤ b'.readerIndex) := by
  have hr := hv.reader_le
  have hw := hv.writer_le
  have hs := hv.size_le
  unfold retrieve
  simp only [assertThat_of h]
  by_cases hl : len < b.readableBytes
  · have hlt := hl
    rw [readableBytes_eq hv] at hlt
    have hsum : sizeT (b.readerIndex+len) = b.readerIndex+len := by
      apply sizeT_of_lt
      unfold maxSize at hs
      omega
    refine ⟨{ b with readerIndex := b.readerIndex+len }, ?_, ?_, ?_, ?_⟩
    · simp [hl, hsum, bind, Except.bind, pure, Except.pure]
    · exact ⟨by show b.readerIndex+len ≤ b.writerIndex; omega, hw, hv.cheap_le, hs⟩
    · exact (drop_slice _ _ _ _).symm
    · intro hc
      exact Nat.le_add_right_of_le hc
  · refine ⟨b.retrieveAll, ?_, retrieveAll_valid hv, ?_, fun _ => Nat.le_refl _⟩
    · simp [hl, bind, Except.bind, pure, Except.pure]
    · rw [retrieveAll_contents, List.drop_eq_nil_of_le]
      rw [length_contents hv]
      omega

theorem retrieveUntil_spec {b : Buffer} (hv : Valid b) {len : ℕ} (h : len ≤ b.readableBytes) :
    ∃ b', b.retrieveUntil (b.readerIndex+len) = .ok b' ∧ Valid b' ∧
      b'.contents = b.contents.drop len ∧
      (kCheapPrepend ≤ b.readerIndex → kCheapPrepend ≤ b'.readerIndex) := by
  have hr := hv.reader_le
  have hw := hv.writer_le
  have hs := hv.size_le
  have hle := h
  rw [readableBytes_eq hv] at hle
  have hd : sizeSub (b.readerIndex+len) b.readerIndex = len := by
    rw [sizeSub_of_le (Nat.le_add_right _ _)]
    · omega
    · unfold maxSize at hs
      omega
  unfold retrieveUntil
  rw [assertThat_of (Nat.le_add_right _ _), assertThat_of (show b.readerIndex+len ≤ _ by omega), hd]
  exact retrieve_spec hv h

theorem retrieveAsString_spec {b : Buffer} (hv : Valid b) {len : ℕ} (h : len ≤ b.readableBytes) :
    ∃ b', b.retrieveAsString len = .ok (b.contents.take len, b') ∧ Valid b' ∧
      b'.contents = b.contents.drop len ∧
      (kCheapPrepend ≤ b.readerIndex → kCheapPrepend ≤ b'.readerIndex) := by
  have hr := hv.reader_le
  have hw := hv.writer_le
  have hle := h
  rw [readableBytes_eq hv] at hle
  have ht : b.contents.take len = slice b.buffer b.readerIndex (b.readerIndex+len) :=
    take_slice _ (by omega)
  obtain ⟨b', hb, hv', hc, hk⟩ := retrieve_spec hv h
  refine ⟨b', ?_, hv', hc, hk⟩
  unfold retrieveAsString
  rw [assertThat_of h, load_of (Nat.le_add_right _ _) (by omega), ht]
  simp [hb, bind, Except.bind, pure, Except.pure]

theorem toStringPiece_spec {b : Buffer} (hv : Valid b) : b.toStringPiece = .ok b.contents := by
  have hr := hv.reader_le
  have hw := hv.writer_le
  have he : b.readerIndex+b.readableBytes = b.writerIndex := by
    rw [readableBytes_eq hv]
    omega
  rw [toStringPiece, he, load_of hr hw, contents]

structure Reserved (b : Buffer) (len : ℕ) (b' : Buffer) : Prop where
  valid : Valid b'
  contents_eq : b'.contents = b.contents
  room : len ≤ b'.writableBytes
  cheap : kCheapPrepend ≤ b.readerIndex → kCheapPrepend ≤ b'.readerIndex

theorem grow_reserved {b : Buffer} (hv : Valid b) {len : ℕ}
    (hw : b.writableBytes < len) (hm : b.writerIndex+len ≤ maxSize) :
    Reserved b len { b with buffer := resize b.buffer (b.writerIndex+len) 0 } := by
  have hwr := hv.writer_le
  have hc := hv.cheap_le
  rw [writableBytes_eq hv] at hw
  have hl := length_resize b.buffer (b.writerIndex+len) 0
  have hv' : Valid { b with buffer := resize b.buffer (b.writerIndex+len) 0 } := by
    refine ⟨hv.reader_le, ?_, ?_, ?_⟩
    · simp [hl]
    · simp only [hl]
      omega
    · simpa [hl] using hm
  refine ⟨hv', ?_, ?_, id⟩
  · exact slice_resize _ _ hwr (Nat.le_add_right _ _)
  · rw [writableBytes_eq hv']
    simp only [hl]
    omega

def slid (b : Buffer) : Buffer :=
  ⟨overwrite b.buffer kCheapPrepend b.contents, kCheapPrepend, kCheapPrepend+b.contents.length⟩

theorem slid_spec {b : Buffer} (hv : Valid b) (hk : kCheapPrepend ≤ b.readerIndex) :
    Valid b.slid ∧ b.slid.contents = b.contents ∧
      b.slid.writableBytes+kCheapPrepend = b.writableBytes+b.readerIndex := by
  have hr := hv.reader_le
  have hw := hv.writer_le
  have hc := hv.cheap_le
  have hlen := length_contents hv
  rw [readableBytes_eq hv] at hlen
  have hfit : kCheapPrepend+b.contents.length ≤ b.buffer.length := by omega
  have hl := length_overwrite b.buffer kCheapPrepend b.contents hfit
  have hv' : Valid b.slid := by
    refine ⟨Nat.le_add_right _ _, ?_, ?_, ?_⟩
    · simpa [slid, hl] using hfit
    · simpa [slid, hl] using hc
    · simpa [slid, hl] using hv.size_le
  refine ⟨hv', slice_overwrite _ _ _ hc, ?_⟩
  rw [writableBytes_eq hv', writableBytes_eq hv]
  simp only [slid, hl]
  omega

theorem slide_reserved {b : Buffer} (hv : Valid b) {len : ℕ}
    (hspace : len+kCheapPrepend ≤ b.writableBytes+b.readerIndex)
    (hk : kCheapPrepend ≤ b.readerIndex) : Reserved b len b.slid := by
  obtain ⟨hv', hc, hroom⟩ := slid_spec hv hk
  refine ⟨hv', hc, ?_, fun _ => Nat.le_refl _⟩
  omega

theorem makeSpace_slides {b : Buffer} (hv : Valid b) {len : ℕ}
    (hb : ¬sizeT (b.writableBytes+b.prependableBytes) < sizeT (len+kCheapPrepend))
    (hk : kCheapPrepend < b.readerIndex) : b.makeSpace len = .ok b.slid := by
  have hr := hv.reader_le
  have hwr := hv.writer_le
  have hs := hv.size_le
  have hlen := length_contents hv
  have hre := readableBytes_eq hv
  have hfit : kCheapPrepend+b.contents.length ≤ b.buffer.length := by omega
  have hend : sizeT (kCheapPrepend+b.readableBytes) = kCheapPrepend+b.contents.length := by
    rw [hlen]
    apply sizeT_of_lt
    unfold maxSize at hs
    omega
  have hread : b.slid.readableBytes = b.readableBytes := by
    rw [readableBytes_eq (slid_spec hv (Nat.le_of_lt hk)).1, ← hlen]
    exact Nat.add_sub_cancel_left _ _
  have hstore : store b.buffer kCheapPrepend (slice b.buffer b.readerIndex b.writerIndex) =
      .ok (overwrite b.buffer kCheapPrepend b.contents) := store_of hfit
  unfold makeSpace
  rw [if_neg hb, assertThat_of hk]
  simp only [load_of hr hwr, ok_bind, hstore, hend]
  change (assertThat (b.readableBytes = b.slid.readableBytes) _ >>= fun _ => pure b.slid) = _
  rw [assertThat_of hread.symm]
  rfl

/-- The vector would have to hold `len` bytes behind the written ones, and
that is more than any vector holds. -/
def TooLong (b : Buffer) (len : ℕ) (e : Fault) : Prop :=
  e = .lengthError ∧ maxSize < b.writerIndex+len

/-- The second branch is entered only with a front gap wider than the cheap
prepend, since otherwise the writable bytes would already suffice. -/
theorem makeSpace_spec {b : Buffer} (hv : Valid b) {len : ℕ} (hf : b.Fits len)
    (hw : b.writableBytes < len) :
    Yields (b.makeSpace len) (Reserved b len) (b.TooLong len) := by
  have hr := hv.reader_le
  have hwr := hv.writer_le
  have hs := hv.size_le
  have hwe := writableBytes_eq hv
  have hsum : sizeT (b.writableBytes+b.prependableBytes) = b.writableBytes+b.readerIndex := by
    apply sizeT_of_lt
    unfold prependableBytes
    unfold maxSize at hs
    omega
  by_cases hb : b.writableBytes+b.readerIndex < len+kCheapPrepend
  · unfold makeSpace
    rw [hsum, sizeT_of_lt hf.1, sizeT_of_lt hf.2]
    simp only [hb, if_true, resizeVector, yields_bind]
    by_cases hm : b.writerIndex+len ≤ maxSize
    · simpa [hm] using grow_reserved hv hw hm
    · simp [hm, TooLong]
      omega
  · have hk : kCheapPrepend < b.readerIndex := by omega
    rw [makeSpace_slides hv (by rwa [hsum, sizeT_of_lt hf.1]) hk, yields_ok]
    exact slide_reserved hv (Nat.le_of_not_lt hb) (Nat.le_of_lt hk)

theorem ensureWritableBytes_of_lt {b : Buffer} {len : ℕ} (hw : b.writableBytes < len) :
    b.ensureWritableBytes len = b.makeSpace len >>= fun b' =>
      assertThat (b'.writableBytes ≥ len) "writableBytes() >= len" >>= fun _ => pure b' :=
  if_pos hw

theorem ensureWritableBytes_of_le {b : Buffer} {len : ℕ} (hw : len ≤ b.writableBytes) :
    b.ensureWritableBytes len = .ok b := by
  unfold ensureWritableBytes
  rw [if_neg (Nat.not_lt.mpr hw)]
  change (assertThat (b.writableBytes ≥ len) _ >>= fun _ => pure b) = _
  rw [assertThat_of hw]
  rfl

theorem ensureWritableBytes_yields {b : Buffer} (hv : Valid b) {len : ℕ} (hf : b.Fits len) :
    Yields (b.ensureWritableBytes len) (Reserved b len) (b.TooLong len) := by
  by_cases hw : b.writableBytes < len
  · rw [ensureWritableBytes_of_lt hw, yields_bind]
    apply (makeSpace_spec hv hf hw).imp
    intro b' hb'
    simp [hb'.room, hb']
  · have hle := Nat.le_of_not_lt hw
    rw [ensureWritableBytes_of_le hle, yields_ok]
    exact ⟨hv, rfl, hle, id⟩

theorem ensureWritableBytes_spec {b : Buffer} (hv : Valid b) {len : ℕ} (hf : b.Fits len) :
    Yields (b.ensureWritableBytes len) (Reserved b len) (· = .lengthError) :=
  (ensureWritableBytes_yields hv hf).mono (fun _ h => h) (fun _ h => h.1)

def written (b : Buffer) (data : List Byte) : Buffer :=
  ⟨overwrite b.buffer b.writerIndex data, b.readerIndex, b.writerIndex+data.length⟩

theorem written_spec {b : Buffer} (hv : Valid b) {data : List Byte}
    (h : data.length ≤ b.writableBytes) :
    Valid (b.written data) ∧ (b.written data).contents = b.contents ++ data ∧
      (b.written data).writableBytes = b.writableBytes-data.length := by
  have hr := hv.reader_le
  have hw := hv.writer_le
  have hwe := writableBytes_eq hv
  have hfit : b.writerIndex+data.length ≤ b.buffer.length := by omega
  have hl := length_overwrite b.buffer b.writerIndex data hfit
  have hv' : Valid (b.written data) :=
    ⟨Nat.le_add_right_of_le hr, by simpa [written, hl] using hfit,
      by simpa [written, hl] using hv.cheap_le, by simpa [written, hl] using hv.size_le⟩
  refine ⟨hv', ?_, ?_⟩
  · unfold contents written
    rw [← slice_append_slice _ hr (Nat.le_add_right _ data.length),
      slice_overwrite_before _ _ _ (Nat.le_refl _) hw, slice_overwrite _ _ _ hw]
  · rw [writableBytes_eq hv', hwe]
    simp only [written, hl]
    omega

theorem hasWritten_spec {b : Buffer} (hv : Valid b) {data : List Byte}
    (h : data.length ≤ b.writableBytes) :
    hasWritten { b with buffer := overwrite b.buffer b.writerIndex data } data.length =
      .ok (b.written data) := by
  have hw := hv.writer_le
  have hs := hv.size_le
  have hwe := writableBytes_eq hv
  have hfit : b.writerIndex+data.length ≤ b.buffer.length := by omega
  have hl := length_overwrite b.buffer b.writerIndex data hfit
  have hwr : ({ b with buffer := overwrite b.buffer b.writerIndex data } : Buffer).writableBytes =
      b.writableBytes := by
    simp only [writableBytes, hl]
  have hsum : sizeT (b.writerIndex+data.length) = b.writerIndex+data.length := by
    apply sizeT_of_lt
    unfold maxSize at hs
    omega
  unfold hasWritten
  rw [assertThat_of (by rw [hwr]; exact h), hsum]
  rfl

theorem store_written {b : Buffer} (hv : Valid b) {data : List Byte}
    (h : data.length ≤ b.writableBytes) :
    (store b.buffer b.writerIndex data >>= fun buf =>
      hasWritten { b with buffer := buf } data.length) = .ok (b.written data) := by
  have hw := hv.writer_le
  have hwe := writableBytes_eq hv
  rw [store_of (by omega), ok_bind]
  exact hasWritten_spec hv h

theorem append_of_le {b : Buffer} (hv : Valid b) {data : List Byte}
    (h : data.length ≤ b.writableBytes) : b.append data = .ok (b.written data) := by
  unfold append
  rw [ensureWritableBytes_of_le h, ok_bind]
  exact store_written hv h

theorem append_yields {b : Buffer} (hv : Valid b) {data : List Byte} (hf : b.Fits data.length) :
    Yields (b.append data) (fun b' => Valid b' ∧ b'.contents = b.contents ++ data ∧
      (kCheapPrepend ≤ b.readerIndex → kCheapPrepend ≤ b'.readerIndex))
      (b.TooLong data.length) := by
  unfold append
  rw [yields_bind]
  apply (ensureWritableBytes_yields hv hf).imp
  intro b1 h1
  obtain ⟨hv', hc, -⟩ := written_spec h1.valid h1.room
  rw [store_written h1.valid h1.room, yields_ok]
  exact ⟨hv', by rw [hc, h1.contents_eq], h1.cheap⟩

theorem append_spec {b : Buffer} (hv : Valid b) {data : List Byte} (hf : b.Fits data.length) :
    Yields (b.append data) (fun b' => Valid b' ∧ b'.contents = b.contents ++ data ∧
      (kCheapPrepend ≤ b.readerIndex → kCheapPrepend ≤ b'.readerIndex)) (· = .lengthError) :=
  (append_yields hv hf).mono (fun _ h => h) (fun _ h => h.1)

def received (b : Buffer) : ReadResult → List Byte
  | .read bytes => bytes.take b.iovLength
  | .failed _ => []

theorem length_take_iovLength_pos (b : Buffer) {bytes : List Byte} (hb : bytes ≠ []) :
    0 < (bytes.take b.iovLength).length := by
  have hlen := List.length_pos_iff.mpr hb
  have hiov : 0 < b.iovLength := by
    unfold iovLength extraSize
    split_ifs <;> omega
  rw [List.length_take]
  exact Nat.lt_min.mpr ⟨hiov, hlen⟩

theorem readFd_yields {b : Buffer} (hv : Valid b) (r : ReadResult) :
    Yields (b.readFd r) (fun p => Valid p.2 ∧
      match r with
      | .failed errno => p = (.error errno, b)
      | .read bytes => p.1 = .ok (bytes.take b.iovLength).length ∧
          p.2.contents = b.contents ++ bytes.take b.iovLength)
      (b.TooLong (b.received r).length) := by
  cases r with
  | failed errno => simp [readFd, hv]
  | read bytes =>
    have hr := hv.reader_le
    have hw := hv.writer_le
    have hs := hv.size_le
    have hwe := writableBytes_eq hv
    simp only [readFd]
    generalize hd : bytes.take b.iovLength = data
    have hdl : data.length ≤ b.iovLength := by
      rw [← hd, List.length_take]
      exact Nat.min_le_left _ _
    have hfirst : (data.take b.writableBytes).length ≤ b.writableBytes := by
      rw [List.length_take]
      exact Nat.min_le_left _ _
    have hfit : b.writerIndex+(data.take b.writableBytes).length ≤ b.buffer.length := by omega
    obtain ⟨hv1, hc1, -⟩ := written_spec hv hfirst
    rw [store_of hfit, yields_bind, yields_ok]
    by_cases hl : data.length ≤ b.writableBytes
    · rw [List.take_of_length_le hl] at hv1 hc1 hfit ⊢
      have hsum : sizeT (b.writerIndex+data.length) = b.writerIndex+data.length := by
        apply sizeT_of_lt
        unfold maxSize at hs
        omega
      simp only [hl, if_true, hsum, yields_pure]
      exact ⟨hv1, trivial, hc1⟩
    · have hmin : (data.take b.writableBytes).length = b.writableBytes := by
        rw [List.length_take]
        omega
      have hend : b.writerIndex+b.writableBytes = b.buffer.length := by omega
      have hsmall : b.writableBytes < extraSize := by
        by_contra hn
        simp only [iovLength, hn, if_false] at hdl
        omega
      have hmax : (data.drop b.writableBytes).length ≤ maxSize := by
        simp only [iovLength, hsmall, if_true] at hdl
        rw [List.length_drop]
        unfold extraSize at hdl
        unfold maxSize
        omega
      simp only [written, hmin, hend] at hv1 hc1
      simp only [hl, if_false, yields_bind, yields_pure]
      refine (append_yields hv1 (fits_of_le_maxSize hv1 hmax)).mono ?_ ?_
      · rintro b2 ⟨hv2, hc2, -⟩
        exact ⟨hv2, trivial, by rw [hc2, hc1, List.append_assoc, List.take_append_drop]⟩
      · rintro e ⟨he, hlong⟩
        refine ⟨he, ?_⟩
        simp only [List.length_drop] at hlong
        simp only [received, hd]
        omega

theorem readFd_spec {b : Buffer} (hv : Valid b) (r : ReadResult) :
    Yields (b.readFd r) (fun p => Valid p.2 ∧
      match r with
      | .failed errno => p = (.error errno, b)
      | .read bytes => p.1 = .ok (bytes.take b.iovLength).length ∧
          p.2.contents = b.contents ++ bytes.take b.iovLength) (· = .lengthError) :=
  (readFd_yields hv r).mono (fun _ h => h) (fun _ h => h.1)

theorem unwrite_spec {b : Buffer} (hv : Valid b) {len : ℕ} (h : len ≤ b.readableBytes) :
    ∃ b', b.unwrite len = .ok b' ∧ Valid b' ∧
      b'.contents = b.contents.take (b.contents.length-len) ∧ b'.readerIndex = b.readerIndex := by
  have hr := hv.reader_le
  have hw := hv.writer_le
  have hs := hv.size_le
  have hle := h
  rw [readableBytes_eq hv] at hle
  have hd : sizeSub b.writerIndex len = b.writerIndex-len := by
    apply sizeSub_of_le
    · omega
    · unfold maxSize at hs
      omega
  refine ⟨{ b with writerIndex := b.writerIndex-len }, ?_, ?_, ?_, rfl⟩
  · unfold unwrite
    rw [assertThat_of h, hd]
    rfl
  · exact ⟨by show b.readerIndex ≤ b.writerIndex-len; omega,
      by show b.writerIndex-len ≤ b.buffer.length; omega, hv.cheap_le, hs⟩
  · rw [length_contents hv, readableBytes_eq hv]
    unfold contents
    rw [take_slice _ (by omega)]
    show slice b.buffer b.readerIndex (b.writerIndex-len) = _
    congr 1
    omega

theorem prepend_spec {b : Buffer} (hv : Valid b) {data : List Byte}
    (h : data.length ≤ b.prependableBytes) :
    ∃ b', b.prepend data = .ok b' ∧ Valid b' ∧ b'.contents = data ++ b.contents := by
  have hr := hv.reader_le
  have hw := hv.writer_le
  have hs := hv.size_le
  have hle : data.length ≤ b.readerIndex := h
  have hd : sizeSub b.readerIndex data.length = b.readerIndex-data.length := by
    apply sizeSub_of_le hle
    unfold maxSize at hs
    omega
  have hadd : b.readerIndex-data.length+data.length = b.readerIndex := Nat.sub_add_cancel hle
  have hfit : b.readerIndex-data.length+data.length ≤ b.buffer.length := by omega
  have hl := length_overwrite b.buffer (b.readerIndex-data.length) data hfit
  refine ⟨⟨overwrite b.buffer (b.readerIndex-data.length) data, b.readerIndex-data.length,
    b.writerIndex⟩, ?_, ?_, ?_⟩
  · unfold prepend
    rw [assertThat_of h, hd]
    simp [bind, Except.bind, pure, Except.pure, store_of hfit]
  · exact ⟨by show b.readerIndex-data.length ≤ b.writerIndex; omega, by simpa [hl] using hw,
      by simpa [hl] using hv.cheap_le, by simpa [hl] using hs⟩
  · unfold contents
    rw [← slice_append_slice _ (Nat.sub_le b.readerIndex data.length) hr]
    congr 1
    · have h := slice_overwrite b.buffer (b.readerIndex-data.length) data (by omega)
      rwa [hadd] at h
    · exact slice_overwrite_after _ _ _ (by omega) hfit

theorem shrink_spec {b : Buffer} (hv : Valid b) {reserve : ℕ}
    (hf : kCheapPrepend+(b.readableBytes+reserve) < 2^64) :
    Yields (b.shrink reserve) (fun b' => Reserved b reserve b' ∧ kCheapPrepend ≤ b'.readerIndex)
      (· = .lengthError) := by
  have hsum : sizeT (b.readableBytes+reserve) = b.readableBytes+reserve := by
    apply sizeT_of_lt
    unfold kCheapPrepend at hf
    omega
  have hinit : kCheapPrepend+kInitialSize < 2^64 := by
    unfold kCheapPrepend kInitialSize
    omega
  unfold shrink
  rw [hsum, yields_bind]
  apply (construct_spec kInitialSize hinit).imp
  rintro other ⟨hov, hoc, hor, how, -⟩
  rw [yields_bind]
  have hof : other.Fits (b.readableBytes+reserve) := by
    unfold Fits
    rw [how]
    omega
  apply (ensureWritableBytes_spec hov hof).imp
  intro big hbig
  have hlen := length_contents hv
  have hroom := hbig.room
  have hfit : b.contents.length ≤ big.writableBytes := by omega
  obtain ⟨hv', hc, hwr⟩ := written_spec hbig.valid hfit
  have hck : kCheapPrepend ≤ (big.written b.contents).readerIndex :=
    hbig.cheap (Nat.le_of_eq hor.symm)
  rw [toStringPiece_spec hv]
  -- `append` finds the room reserved above and never calls `makeSpace` itself
  rw [ok_bind, append_of_le hbig.valid hfit, yields_ok]
  refine ⟨⟨hv', ?_, ?_, fun _ => hck⟩, hck⟩
  · rw [hc, hbig.contents_eq, hoc, List.nil_append]
  · rw [hwr]
    omega

end Buffer

end Lux.Polaris

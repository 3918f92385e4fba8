import LuxPolaris.BufferReservation

/-!
# Buffers under moves

The implicit moves take the vector away and leave the indices. A buffer that
was moved from keeps indices of at least `kCheapPrepend` over an empty vector,
and its next use leaves that vector. The two other ways to lose the vector
under the indices are a constructor and an `ensureWritableBytes` whose sum
wraps. Every program without these keeps every buffer whole.
-/

set_option autoImplicit false

namespace Lux.Polaris.BufferMoves
open Outcome Slice Buffer BufferPrograms BufferReservation

/-- Indices in order within a vector that has the cheap prepend, so that
`writableBytes()` is what lies behind the written bytes. -/
structure Whole (b : Buffer) : Prop where
  reader_le : b.readerIndex ≤ b.writerIndex
  writer_le : b.writerIndex ≤ b.buffer.length
  cheap_le : kCheapPrepend ≤ b.buffer.length
  writable_eq : b.writerIndex+b.writableBytes = b.buffer.length

theorem Whole.of_valid {b : Buffer} (hv : Valid b) : Whole b := by
  refine ⟨hv.reader_le, hv.writer_le, hv.cheap_le, ?_⟩
  rw [writableBytes_eq hv]
  exact Nat.add_sub_cancel' hv.writer_le

/-- `resize` would be asked for a sum that has wrapped. -/
def Truncates (b : Buffer) (len : ℕ) : Prop :=
  b.writableBytes < len ∧ Grows b len ∧ 2^64 ≤ b.writerIndex+len

instance (b : Buffer) (len : ℕ) : Decidable (Truncates b len) :=
  inferInstanceAs (Decidable (_ ∧ _ ∧ _))

def requested : Member → Option ℕ
  | .ensureWritableBytes len => some len
  | _ => none

def Safe (s : Buffers) : Action → Prop
  | .construct _ n => kCheapPrepend+n < 2^64
  | .moveConstruct _ _ => False
  | .moveAssign _ _ => False
  | .call i m => ∀ b ∈ s i, ∀ len ∈ requested m, ¬Truncates b len
  | _ => True

instance (s : Buffers) : (a : Action) → Decidable (Safe s a)
  | .construct _ _ => inferInstanceAs (Decidable (_ < _))
  | .copyConstruct _ _ => isTrue trivial
  | .moveConstruct _ _ => isFalse not_false
  | .copyAssign _ _ => isTrue trivial
  | .moveAssign _ _ => isFalse not_false
  | .swap _ _ => isTrue trivial
  | .destroy _ => isTrue trivial
  | .call i m => inferInstanceAs (Decidable (∀ b ∈ s i, ∀ len ∈ requested m, ¬Truncates b len))

abbrev Within : Fault → Prop := (· ≠ .outOfBounds)

section Rules
variable {α β : Type} {Q : β → Prop}

theorem within_of_length {r : Except Fault β} (h : Yields r Q (· = .lengthError)) :
    Yields r Q Within :=
  h.mono (fun _ hq => hq) (fun e he => by rw [he]; exact fun h => nomatch h)

theorem asserted {p : Prop} [Decidable p] {expr : String} {f : Unit → Except Fault β}
    (h : p → Yields (f ()) Q Within) : Yields (assertThat p expr >>= f) Q Within := by
  by_cases hp : p
  · rw [assertThat_of hp, ok_bind]
    exact h hp
  · rw [assertThat_of_not hp, yields_bind, yields_error]
    exact fun h => nomatch h

theorem yields_of_ok {r : Except Fault β} {a : β} {E : Fault → Prop} (hr : r = .ok a) (hq : Q a) :
    Yields r Q E := by
  rw [hr, yields_ok]
  exact hq

theorem checked_spec {p : Prop} [Decidable p] {expr : String} {f : Unit → Except Fault β}
    (h : p → ∃ a, assertThat p expr >>= f = .ok a ∧ Q a) :
    Yields (assertThat p expr >>= f) Q Within := by
  by_cases hp : p
  · obtain ⟨a, ha, hq⟩ := h hp
    exact yields_of_ok ha hq
  · exact asserted fun h => absurd h hp

end Rules

section Members
variable {b : Buffer}

theorem retrieve_within (hv : Valid b) (len : ℕ) : Yields (b.retrieve len) Valid Within := by
  apply checked_spec
  intro h
  obtain ⟨b', hb', hv', -⟩ := retrieve_spec hv h
  exact ⟨b', hb', hv'⟩

theorem prepend_within (hv : Valid b) (data : List Byte) :
    Yields (b.prepend data) Valid Within := by
  apply checked_spec
  intro h
  obtain ⟨b', hb', hv', -⟩ := prepend_spec hv h
  exact ⟨b', hb', hv'⟩

theorem unwrite_within (hv : Valid b) (len : ℕ) : Yields (b.unwrite len) Valid Within := by
  apply checked_spec
  intro h
  obtain ⟨b', hb', hv', -⟩ := unwrite_spec hv h
  exact ⟨b', hb', hv'⟩

theorem retrieveAsString_within (hv : Valid b) (len : ℕ) :
    Yields (b.retrieveAsString len) (fun p => Valid p.2) Within := by
  apply checked_spec
  intro h
  obtain ⟨b', hb', hv', -⟩ := retrieveAsString_spec hv h
  exact ⟨_, hb', hv'⟩

theorem peekInt_within (hv : Valid b) (t : IntType) :
    Yields (b.peekInt .debug t) (fun _ => True) Within := by
  have hN : ∀ n size sign (networkToHost : BitVec (8*n) → BitVec (8*n)),
      Yields (b.peekIntN n size sign networkToHost .debug) (fun _ => True) Within := by
    intro n size sign networkToHost
    unfold peekIntN
    refine asserted fun h => ?_
    rw [load_front hv h, ok_bind]
    exact asserted fun _ => (yields_pure _ _ _).mpr trivial
  cases t with
  | int8 =>
    change Yields (assertThat (b.readableBytes ≥ 1) _ >>= _) _ _
    refine asserted fun h => ?_
    rw [load_front hv h, ok_bind]
    exact (yields_pure _ _ _).mpr trivial
  | int16 => exact hN 2 _ _ _
  | int32 => exact hN 4 _ _ _
  | int64 => exact hN 8 _ _ _

theorem ensureWritableBytes_within (hv : Valid b) {len : ℕ}
    (ht : ¬Truncates b len) : Yields (b.ensureWritableBytes len) Valid Within := by
  by_cases hw : b.writableBytes < len
  · rw [ensureWritableBytes_of_lt hw]
    have hcheck : ∀ b', Valid b' → Yields (assertThat (b'.writableBytes ≥ len)
        "writableBytes() >= len" >>= fun _ => pure b') Valid Within :=
      fun b' hv' => asserted fun _ => (yields_pure _ _ _).mpr hv'
    rw [yields_bind]
    by_cases hg : Grows b len
    · have hsum : b.writerIndex+len < 2^64 := Nat.lt_of_not_le fun h => ht ⟨hw, hg, h⟩
      rw [makeSpace_grows hg, sizeT_of_lt hsum, resizeVector]
      by_cases hm : b.writerIndex+len ≤ maxSize
      · rw [if_pos hm, ok_bind, yields_pure]
        exact hcheck _ (grow_reserved hv hw hm).valid
      · rw [if_neg hm, yields_bind, yields_error]
        simp
    · by_cases hk : kCheapPrepend < b.readerIndex
      · rw [makeSpace_slides hv hg hk, yields_ok]
        exact hcheck _ (slid_spec hv (Nat.le_of_lt hk)).1
      · unfold Grows at hg
        unfold makeSpace
        rw [if_neg hg]
        exact asserted fun hp => absurd hp hk
  · exact yields_of_ok (ensureWritableBytes_of_le (Nat.le_of_not_lt hw)) hv

theorem hasWritten_within (hv : Valid b) (len : ℕ) : Yields (b.hasWritten len) Valid Within := by
  unfold hasWritten
  refine asserted fun h => ?_
  have hr := hv.reader_le
  have hw := hv.writer_le
  have hs := hv.size_le
  rw [writableBytes_eq hv] at h
  have hsum : sizeT (b.writerIndex+len) = b.writerIndex+len := by
    apply sizeT_of_lt
    unfold maxSize at hs
    omega
  rw [hsum, yields_pure]
  have hle : b.writerIndex+len ≤ b.buffer.length := by omega
  exact ⟨Nat.le_add_right_of_le hr, hle, hv.cheap_le, hs⟩

theorem shrink_within (hv : Valid b) (reserve : ℕ) : Yields (b.shrink reserve) Valid Within := by
  have hinit : kCheapPrepend+kInitialSize ≤ maxSize := by decide
  have hfresh := unused_valid hinit
  have hnot : ¬Truncates (unused kInitialSize) (sizeT (b.readableBytes+reserve)) := by
    rintro ⟨hw, hg, hsum⟩
    have hm := sizeT_lt (b.readableBytes+reserve)
    unfold Grows at hg
    rw [unused_sum hinit] at hg
    change 2^64 ≤ kCheapPrepend+sizeT (b.readableBytes+reserve) at hsum
    unfold kInitialSize kCheapPrepend at *
    generalize sizeT (b.readableBytes+reserve) = m at *
    unfold sizeT at hg
    omega
  unfold shrink
  rw [construct_of hinit, ok_bind, yields_bind]
  refine (ensureWritableBytes_within hfresh hnot).imp fun other ho => ?_
  rw [toStringPiece_spec hv, ok_bind]
  exact (within_of_length
    (append_spec ho (fits_of_le_maxSize ho (contents_fit hv)))).imp fun _ h => h.1

theorem load_within (hv : Valid b) {i j : ℕ} (hi : i ≤ j) (hj : j ≤ b.writerIndex) :
    Yields (load b.buffer i j) (fun _ => True) Within := by
  rw [load_of hi (hj.trans hv.writer_le), yields_ok]
  trivial

theorem findCRLFFrom_within (hv : Valid b) (start : ℕ) :
    Yields (b.findCRLFFrom start) (fun _ => True) Within := by
  unfold findCRLFFrom
  refine asserted fun _ => asserted fun h => ?_
  rw [yields_bind]
  exact (load_within hv h (Nat.le_refl _)).imp fun _ _ => (yields_pure _ _ _).mpr trivial

theorem findEOLFrom_within (hv : Valid b) (start : ℕ) :
    Yields (b.findEOLFrom start) (fun _ => True) Within := by
  have hw := hv.writer_le
  have hs := hv.size_le
  unfold maxSize at hs
  unfold findEOLFrom
  refine asserted fun _ => asserted fun h => ?_
  rw [sizeSub_of_le h (by omega), Nat.add_sub_cancel' h, yields_bind]
  exact (load_within hv h (Nat.le_refl _)).imp fun _ _ => (yields_pure _ _ _).mpr trivial

theorem storeAtBeginWrite_within (hv : Valid b) {data : List Byte}
    (h : data.length ≤ b.writableBytes) : Yields (b.storeAtBeginWrite data) Valid Within := by
  have hw := hv.writer_le
  rw [writableBytes_eq hv] at h
  have hfit : b.writerIndex+data.length ≤ b.buffer.length := by omega
  have hl := length_overwrite b.buffer b.writerIndex data hfit
  unfold storeAtBeginWrite
  rw [store_of hfit, ok_bind, yields_pure]
  exact ⟨hv.reader_le, hl ▸ hw, hl ▸ hv.cheap_le, hl ▸ hv.size_le⟩

theorem observed {α : Type} {r : Except Fault α} (hv : Valid b)
    (h : Yields r (fun _ => True) Within) : Yields (r >>= fun _ => pure b) Valid Within := by
  rw [yields_bind]
  exact h.imp fun _ _ => (yields_pure _ _ _).mpr hv

theorem call_within (hv : Valid b) (m : Member) (hp : Proper b m)
    (ht : ∀ len ∈ requested m, ¬Truncates b len) :
    Yields (b.callMember m) Valid Within := by
  cases m with
  | append data =>
    exact (within_of_length (append_spec hv (fits_of_le_maxSize hv hp))).imp fun _ h => h.1
  | appendInt t x => exact (within_of_length (appendInt_spec hv t x)).imp fun _ h => h.1
  | prepend data => exact prepend_within hv data
  | prependInt t x =>
    rw [callMember, prependInt_eq]
    exact prepend_within hv _
  | retrieve len => exact retrieve_within hv len
  | retrieveUntil finish =>
    rw [callMember, retrieveUntil]
    exact asserted fun _ => asserted fun _ => retrieve_within hv _
  | retrieveInt t => cases t <;> exact retrieve_within hv _
  | retrieveAll => exact (yields_ok _ _ _).mpr (retrieveAll_valid hv)
  | retrieveAsString len =>
    rw [callMember, yields_bind]
    exact (retrieveAsString_within hv len).imp fun _ h => (yields_pure _ _ _).mpr h
  | retrieveAllAsString =>
    rw [callMember, yields_bind]
    exact (retrieveAsString_within hv _).imp fun _ h => (yields_pure _ _ _).mpr h
  | readInt t =>
    rw [callMember, readInt_eq]
    simp only [yields_bind]
    refine (peekInt_within hv t).imp fun _ _ => (retrieve_within hv _).imp fun _ h => ?_
    exact (yields_pure _ _ _).mpr ((yields_pure _ _ _).mpr h)
  | peekInt t => exact observed hv (peekInt_within hv t)
  | toStringPiece => exact observed hv (yields_of_ok (toStringPiece_spec hv) trivial)
  | findCRLF =>
    refine observed hv ?_
    rw [findCRLF, yields_bind]
    exact (load_within hv hv.reader_le (Nat.le_refl _)).imp
      fun _ _ => (yields_pure _ _ _).mpr trivial
  | findCRLFFrom start => exact observed hv (findCRLFFrom_within hv start)
  | findEOL =>
    refine observed hv ?_
    rw [findEOL, toStringPiece_spec hv, ok_bind, yields_pure]
    trivial
  | findEOLFrom start => exact observed hv (findEOLFrom_within hv start)
  | ensureWritableBytes len => exact ensureWritableBytes_within hv (ht len rfl)
  | storeAtBeginWrite data => exact storeAtBeginWrite_within hv hp.2
  | hasWritten len => exact hasWritten_within hv len
  | unwrite len => exact unwrite_within hv len
  | shrink reserve => exact shrink_within hv reserve
  | readFd r =>
    rw [callMember, yields_bind]
    exact (within_of_length (readFd_spec hv r)).imp fun _ h => (yields_pure _ _ _).mpr h.1

end Members

theorem step_valid {s : Buffers} (hs : Each Valid s) (a : Action) (he : Enabled s a)
    (hsafe : Safe s a) : Yields (step s a) (Each Valid) Within := by
  refine step_each hs (fun h => nomatch h) a ?_ ?_ ?_
  · rintro i n rfl
    exact (within_of_length (construct_spec n hsafe)).imp fun _ h => h.1
  · rintro i j b (rfl | rfl) -
    · exact hsafe.elim
    · exact hsafe.elim
  · rintro i m b rfl hb
    obtain ⟨c, hc, hp⟩ := he
    cases hb.symm.trans hc
    exact call_within (hs i b hb) m hp (hsafe b hb)

section Harm

/-- The constructor's own assertions hold of a vector shorter than the cheap
prepend, since `writableBytes()` wraps as the size did. -/
theorem construct_wrapped {n : ℕ} (hn : n < 2^64) (hw : 2^64 ≤ kCheapPrepend+n) :
    ∃ b, construct n = .ok b ∧ b.buffer.length < kCheapPrepend := by
  obtain ⟨k, hk⟩ := Nat.exists_eq_add_of_le hw
  have hshort : k < kCheapPrepend := by omega
  have hmax : k ≤ maxSize := by
    unfold maxSize
    unfold kCheapPrepend at hshort
    omega
  have hsum : sizeT (2^64+k) = k := by
    unfold sizeT
    unfold kCheapPrepend at hshort
    omega
  have hl := length_resize ([] : List Byte) k 0
  have hr : Buffer.readableBytes ⟨resize [] k 0, kCheapPrepend, kCheapPrepend⟩ = 0 := by
    show sizeSub kCheapPrepend kCheapPrepend = 0
    decide
  have hwr : Buffer.writableBytes ⟨resize [] k 0, kCheapPrepend, kCheapPrepend⟩ = n := by
    show sizeSub (resize [] k 0).length kCheapPrepend = n
    rw [hl]
    unfold sizeSub
    unfold kCheapPrepend at hk ⊢
    omega
  have hp : Buffer.prependableBytes ⟨resize [] k 0, kCheapPrepend, kCheapPrepend⟩ =
      kCheapPrepend := rfl
  refine ⟨⟨resize [] k 0, kCheapPrepend, kCheapPrepend⟩, ?_, hl.symm ▸ hshort⟩
  unfold construct resizeVector
  rw [hk, hsum, if_pos hmax, ok_bind]
  simp only [assertThat_of hr, assertThat_of hwr, assertThat_of hp]
  rfl

theorem ensureWritableBytes_truncates {b : Buffer} (hv : Valid b) {len : ℕ} (hl : len < 2^64)
    (ht : Truncates b len) :
    ∃ b', b.ensureWritableBytes len = .ok b' ∧ b'.buffer.length < b'.writerIndex := by
  obtain ⟨hw, hg, hsum⟩ := ht
  have hwl := hv.writer_le
  have hs := hv.size_le
  have hlen := length_resize b.buffer (sizeT (b.writerIndex+len)) (0 : Byte)
  have hshort : sizeT (b.writerIndex+len) < b.writerIndex := by
    unfold sizeT
    unfold maxSize at hs
    omega
  refine ⟨{ b with buffer := resize b.buffer (sizeT (b.writerIndex+len)) 0 }, ?_, ?_⟩
  · have hroom : Buffer.writableBytes
        { b with buffer := resize b.buffer (sizeT (b.writerIndex+len)) 0 } = len := by
      unfold writableBytes
      rw [hlen]
      exact resized_writableBytes (.of_valid hv) hl
    rw [ensureWritableBytes_of_lt hw, makeSpace_grows hg, resizeVector, if_pos (by omega), ok_bind,
      pure_eq_ok, ok_bind, assertThat_of (Nat.le_of_eq hroom.symm)]
    rfl
  · simpa only [hlen] using hshort

theorem not_yields_of_ok {s t : Buffers} {a : Action} (hstep : step s a = .ok t) {i : ℕ}
    {b : Buffer} (hb : t i = some b) (hn : ¬Whole b) : ¬Yields (step s a) (Each Whole) Within := by
  rw [hstep, yields_ok]
  exact fun h => hn (h i b hb)

theorem moveTo_not_whole (s : Buffers) (i j : ℕ) (b : Buffer) :
    moveTo s i j b j = some b.movedFrom ∧ ¬Whole b.movedFrom :=
  ⟨put_self _ _ _, fun h => absurd h.cheap_le (Nat.not_succ_le_zero 7)⟩

theorem step_harms {s : Buffers} (hs : Each Valid s) (a : Action) (he : Enabled s a)
    (hsafe : ¬Safe s a) : ¬Yields (step s a) (Each Whole) Within := by
  cases a with
  | construct i n =>
    obtain ⟨b, hb, hshort⟩ := construct_wrapped he.2 (Nat.le_of_not_lt hsafe)
    refine not_yields_of_ok (by rw [step, hb]; rfl) (put_self s i b) fun h => ?_
    exact absurd h.cheap_le (Nat.not_le.mpr hshort)
  | moveConstruct i j =>
    obtain ⟨b, hb⟩ := Option.isSome_iff_exists.mp he.2
    obtain ⟨hm, hn⟩ := moveTo_not_whole s i j b
    exact not_yields_of_ok (by rw [step, alive_of hb]; rfl) hm hn
  | moveAssign i j =>
    obtain ⟨a, ha⟩ := Option.isSome_iff_exists.mp he.1
    obtain ⟨b, hb⟩ := Option.isSome_iff_exists.mp he.2
    obtain ⟨hm, hn⟩ := moveTo_not_whole s i j b
    exact not_yields_of_ok (by rw [step, alive_of ha, alive_of hb]; rfl) hm hn
  | call i m =>
    obtain ⟨b, hb, hp⟩ := he
    have ht : ∃ len ∈ requested m, Truncates b len := by
      by_contra h
      refine hsafe fun c hc len hlen hn => h ⟨len, hlen, ?_⟩
      cases hb.symm.trans hc
      exact hn
    obtain ⟨len, hlen, ht⟩ := ht
    cases m with
    | ensureWritableBytes len' =>
      cases hlen
      obtain ⟨b', hb', hshort⟩ := ensureWritableBytes_truncates (hs i b hb) hp ht
      refine not_yields_of_ok (t := put s i b') ?_ (put_self s i b') fun h => ?_
      · rw [step, alive_of hb, ok_bind, callMember, hb']
        rfl
      · exact absurd h.writer_le (Nat.not_le.mpr hshort)
    | _ => cases hlen
  | _ => exact absurd trivial hsafe

end Harm

/-- For every program over any number of buffers: in every state it reaches
each buffer is whole and no access leaves a vector, exactly if no buffer is
moved and no constructor and no `ensureWritableBytes` hands `resize` a sum
that has wrapped. -/
theorem buffers_stay_whole_iff (as : List Action) (ha : Admitted step Enabled empty as) :
    Throughout step (Each Whole) (· ≠ .outOfBounds) empty as ↔ Admitted step Safe empty as :=
  throughout_iff Enabled Safe (fun _ hs i b hb => .of_valid (hs i b hb))
    (fun _ a hs he hsafe => step_valid hs a he hsafe)
    (fun _ a hs he hsafe => step_harms hs a he hsafe) as empty each_empty ha

theorem buffers_stay_whole_copied : Throughout step (Each Whole) (· ≠ .outOfBounds) empty
    [.construct 0 1, .call 0 (.append [104]), .copyConstruct 1 0, .swap 0 1,
      .call 1 (.ensureWritableBytes 16)] :=
  (buffers_stay_whole_iff _ (by decide)).mpr (by decide)

section Moved
variable {b : Buffer}

/-- Whatever is appended to a buffer that was moved from lands outside its
vector: `writableBytes()` has wrapped and promises the room. -/
theorem append_movedFrom (hv : Valid b) (hw : 0 < b.writerIndex) {data : List Byte}
    (hd : data.length ≤ maxSize) : b.movedFrom.append data = .error .outOfBounds := by
  have hwl := hv.writer_le
  have hs := hv.size_le
  have hroom : data.length ≤ b.movedFrom.writableBytes := by
    show data.length ≤ sizeSub 0 b.writerIndex
    unfold sizeSub
    unfold maxSize at hd hs
    omega
  have hstore : store b.movedFrom.buffer b.movedFrom.writerIndex data = .error .outOfBounds := by
    refine if_neg fun h => ?_
    have hle : b.writerIndex+data.length ≤ 0 := h
    omega
  unfold append
  rw [ensureWritableBytes_of_le hroom, ok_bind, hstore]
  rfl

def movedThenUsed : List Action :=
  [.construct 0 1, .moveConstruct 1 0, .call 0 (.append [104])]

theorem moves_break_buffers : ¬∀ as : List Action, Admitted step Enabled empty as →
    Throughout step (Each Whole) (· ≠ .outOfBounds) empty as := by
  intro h
  have hrun : run step empty movedThenUsed = .error .outOfBounds := rfl
  have hend := h movedThenUsed (by decide) movedThenUsed List.prefix_rfl
  rw [hrun, yields_error] at hend
  exact hend rfl

end Moved

end Lux.Polaris.BufferMoves

import LuxPolaris.Framing
import LuxPolaris.BufferMoves

/-!
# Reading lines out of a buffer

`findCRLF` and `retrieveUntil` cut the bytes of a connection into lines. The
kernel hands the bytes over in pieces of any size; the lines do not depend on
where the pieces end. The member with a starting point spares the bytes that
have been searched before, if it starts one byte back.
-/

set_option autoImplicit false

namespace Lux.Polaris.Buffer
open Outcome Framing

def takeLine (b : Buffer) : Except Fault (Option (List Byte × Buffer)) := do
  match ← b.findCRLF with
  | none => return none
  | some crlf =>
    let line ← load b.buffer b.readerIndex crlf
    let b ← b.retrieveUntil (crlf+2)
    return some (line, b)

/-- At most as many turns as there are bytes. -/
def takeLines : ℕ → Buffer → Except Fault (List (List Byte) × Buffer)
  | 0, b => .ok ([], b)
  | turns+1, b => do
    match ← b.takeLine with
    | none => return ([], b)
    | some (line, b) =>
      let (lines, b) ← takeLines turns b
      return (line::lines, b)

section Search
variable {p xs : List Byte}

theorem search_le (p xs : List Byte) : search p xs ≤ xs.length := by
  induction xs with
  | nil => exact Nat.le_refl _
  | cons c cs ih =>
    rw [search, List.length_cons]
    split_ifs
    · exact Nat.zero_le _
    · omega

theorem search_first {i : ℕ} (h : i < search p xs) : ¬Occurs p xs i := by
  induction xs generalizing i with
  | nil => exact absurd h (Nat.not_lt_zero i)
  | cons c cs ih =>
    rw [search] at h
    split_ifs at h with hpre
    · exact absurd h (Nat.not_lt_zero i)
    · cases i with
      | zero => exact fun ho => hpre (List.isPrefixOf_iff_prefix.mpr ho)
      | succ i => exact ih (Nat.lt_of_succ_lt_succ h)

theorem search_occurs (h : search p xs < xs.length) : Occurs p xs (search p xs) := by
  induction xs with
  | nil => exact absurd h (Nat.not_lt_zero _)
  | cons c cs ih =>
    rw [search] at h ⊢
    split_ifs with hpre
    · exact List.isPrefixOf_iff_prefix.mp hpre
    · rw [if_neg hpre, List.length_cons] at h
      exact ih (Nat.lt_of_succ_lt_succ h)

theorem search_free (hp : p ≠ []) (h : search p xs = xs.length) : Free p xs := by
  intro i ho
  have hle := occurs_le hp ho
  have hpos := List.length_pos_iff.mpr hp
  exact search_first (by omega) ho

theorem search_eq (hp : p ≠ []) {i : ℕ} (hfirst : ∀ j < i, ¬Occurs p xs j)
    (ho : Occurs p xs i) : search p xs = i := by
  have hle := occurs_le hp ho
  have hpos := List.length_pos_iff.mpr hp
  rcases Nat.lt_trichotomy (search p xs) i with h | h | h
  · exact absurd (search_occurs (by omega)) (hfirst _ h)
  · exact h
  · exact absurd ho (search_first h)

end Search

theorem kCRLF_ne : kCRLF ≠ [] := by decide

section Lines
variable {b : Buffer}

theorem load_contents (hv : Valid b) {i j : ℕ} (hi : i ≤ j) (hj : j ≤ b.contents.length) :
    load b.buffer (b.readerIndex+i) (b.readerIndex+j) = .ok ((b.contents.take j).drop i) := by
  have hr := hv.reader_le
  have hw := hv.writer_le
  have hlen := length_contents hv
  rw [readableBytes_eq hv] at hlen
  rw [load_of (by omega) (by omega), contents, Slice.take_slice _ (by omega), Slice.drop_slice]

theorem load_rest (hv : Valid b) {i : ℕ} (hi : i ≤ b.contents.length) :
    load b.buffer (b.readerIndex+i) b.writerIndex = .ok (b.contents.drop i) := by
  have hr := hv.reader_le
  have hlen := length_contents hv
  rw [readableBytes_eq hv] at hlen
  have hw : b.writerIndex = b.readerIndex+b.contents.length := by omega
  rw [hw, load_contents hv hi (Nat.le_refl _), List.take_length]

theorem findCRLFFrom_of (hv : Valid b) {i : ℕ} (hi : i ≤ b.contents.length) :
    b.findCRLFFrom (b.readerIndex+i) =
      .ok (if search kCRLF (b.contents.drop i) = (b.contents.drop i).length then none
        else some (b.readerIndex+i+search kCRLF (b.contents.drop i))) := by
  have hr := hv.reader_le
  have hlen := length_contents hv
  rw [readableBytes_eq hv] at hlen
  have hcond : b.readerIndex+i+search kCRLF (b.contents.drop i) = b.writerIndex ↔
      search kCRLF (b.contents.drop i) = (b.contents.drop i).length := by
    rw [List.length_drop]
    omega
  unfold findCRLFFrom
  rw [assertThat_of (Nat.le_add_right _ _),
    assertThat_of (show b.readerIndex+i ≤ b.writerIndex by omega), load_rest hv hi]
  simp only [ok_bind, hcond]
  rfl

theorem findCRLF_of (hv : Valid b) :
    b.findCRLF = .ok (if search kCRLF b.contents = b.contents.length then none
      else some (b.readerIndex+search kCRLF b.contents)) := by
  have hr := hv.reader_le
  have hlen := length_contents hv
  rw [readableBytes_eq hv] at hlen
  have hcond : b.readerIndex+search kCRLF b.contents = b.writerIndex ↔
      search kCRLF b.contents = b.contents.length := by omega
  have hload := load_rest hv (Nat.zero_le _)
  rw [Nat.add_zero, List.drop_zero] at hload
  unfold findCRLF
  simp only [hload, ok_bind, hcond]
  rfl

theorem takeLine_spec (hv : Valid b) :
    Free kCRLF b.contents ∧ b.takeLine = .ok none ∨
    ∃ line b', b.takeLine = .ok (some (line, b')) ∧ Valid b' ∧ IsFrame kCRLF line ∧
      b.contents = line ++ (kCRLF ++ b'.contents) := by
  by_cases hs : search kCRLF b.contents = b.contents.length
  · refine Or.inl ⟨search_free kCRLF_ne hs, ?_⟩
    rw [takeLine, findCRLF_of hv, if_pos hs]
    rfl
  · have hlt := Nat.lt_of_le_of_ne (search_le kCRLF b.contents) hs
    have hocc := search_occurs hlt
    have hle : search kCRLF b.contents+2 ≤ b.contents.length := occurs_le kCRLF_ne hocc
    have hread : search kCRLF b.contents+2 ≤ b.readableBytes := by rwa [← length_contents hv]
    have hload := load_contents hv (Nat.zero_le (search kCRLF b.contents)) hlt.le
    rw [Nat.add_zero, List.drop_zero] at hload
    obtain ⟨b', hb', hv', hc, -⟩ := retrieveUntil_spec hv hread
    have hcut : b.contents =
        b.contents.take (search kCRLF b.contents) ++ (kCRLF ++ b'.contents) := by
      rw [hc, ← List.drop_drop]
      obtain ⟨rest, hrest⟩ := hocc
      have hdrop : (b.contents.drop (search kCRLF b.contents)).drop 2 = rest := by
        rw [← hrest]
        rfl
      rw [hdrop, hrest, List.take_append_drop]
    refine Or.inr ⟨_, b', ?_, hv', fun i hi => ?_, hcut⟩
    · rw [takeLine, findCRLF_of hv, if_neg hs]
      simp only [ok_bind, hload, Nat.add_assoc, hb', pure_eq_ok]
    · rw [List.length_take_of_le hlt.le] at hi
      intro ho
      refine search_first hi ?_
      rw [hcut, ← List.append_assoc]
      refine (occurs_append_left ?_).mpr ho
      rw [List.length_append, List.length_take_of_le hlt.le]
      have : kCRLF.length = 2 := rfl
      omega

theorem takeLines_spec {turns : ℕ} (hv : Valid b) (ht : b.contents.length ≤ turns) :
    ∃ lines b', takeLines turns b = .ok (lines, b') ∧ Valid b' ∧
      Framed kCRLF lines b'.contents ∧ joined kCRLF lines b'.contents = b.contents := by
  induction turns generalizing b with
  | zero =>
    have hnil : b.contents = [] := List.eq_nil_of_length_eq_zero (by omega)
    refine ⟨[], b, rfl, hv, ⟨by simp, ?_⟩, by simp [joined]⟩
    rw [hnil]
    exact free_nil kCRLF_ne
  | succ turns ih =>
    rcases takeLine_spec hv with ⟨hfree, h⟩ | ⟨line, b', h, hv', hframe, hcut⟩
    · refine ⟨[], b, ?_, hv, ⟨by simp, hfree⟩, by simp [joined]⟩
      rw [takeLines, h]
      rfl
    · have hlen := congrArg List.length hcut
      simp only [List.length_append] at hlen
      have htwo : kCRLF.length = 2 := rfl
      obtain ⟨lines, b'', hl, hv'', hframed, hjoin⟩ := ih hv' (by omega)
      refine ⟨line::lines, b'', ?_, hv'', ⟨?_, hframed.free⟩, ?_⟩
      · rw [takeLines, h]
        simp only [ok_bind, hl]
        rfl
      · intro f hf
        rcases List.mem_cons.mp hf with rfl | hm
        · exact hframe
        · exact hframed.frame f hm
      · rw [joined_cons, hjoin, hcut]

end Lines

/-- A buffer that is read into and emptied line by line, with the lines taken
so far and the bytes the kernel has handed over. -/
structure LineReader where
  buffer : Buffer
  lines : List (List Byte)
  bytes : List Byte

namespace LineReader

def ofBuffer (b : Buffer) : LineReader := ⟨b, [], []⟩

def step (s : LineReader) (r : ReadResult) : Except Fault LineReader := do
  let (_, b) ← s.buffer.readFd r
  let (lines, b) ← takeLines b.readableBytes b
  return ⟨b, s.lines ++ lines, s.bytes ++ s.buffer.received r⟩

structure Inv (s : LineReader) : Prop where
  valid : Valid s.buffer
  framed : Framed kCRLF s.lines s.buffer.contents
  joined : joined kCRLF s.lines s.buffer.contents = s.bytes

theorem step_inv {s : LineReader} (hi : s.Inv) (r : ReadResult) :
    Yields (s.step r) Inv (· = .lengthError) := by
  simp only [step, yields_bind]
  apply (readFd_spec hi.valid r).imp
  rintro ⟨n, b⟩ ⟨hv, hr⟩
  have hc : b.contents = s.buffer.contents ++ s.buffer.received r := by
    cases r with
    | failed errno =>
      cases hr
      exact (List.append_nil _).symm
    | read bytes => exact hr.2
  obtain ⟨lines, b', hl, hv', hframed, hjoin⟩ := takeLines_spec hv (length_contents hv).le
  simp only [hl, yields_ok, yields_pure]
  refine ⟨hv', hi.framed.append hframed, ?_⟩
  calc Framing.joined kCRLF (s.lines ++ lines) b'.contents
      = Framing.joined kCRLF s.lines [] ++ b.contents := by rw [joined_append, hjoin]
    _ = Framing.joined kCRLF s.lines ([] ++ s.buffer.contents) ++ s.buffer.received r := by
          rw [joined_rest, hc, List.append_assoc]
    _ = s.bytes ++ s.buffer.received r := by rw [List.nil_append, hi.joined]

theorem construct_inv {n : ℕ} (hn : kCheapPrepend+n < 2^64) {b : Buffer}
    (h : construct n = .ok b) : (ofBuffer b).Inv := by
  obtain ⟨hv, hc, -⟩ := (construct_spec n hn).ok h
  refine ⟨hv, ⟨by simp [ofBuffer], ?_⟩, by simp [ofBuffer, Framing.joined, hc]⟩
  rw [ofBuffer, hc]
  exact free_nil kCRLF_ne

/-- However the kernel cuts a stream into pieces, a sequence of reads fails for
want of memory alone, and the lines taken and the rest in the buffer are the
stream cut at its line ends. So two readers that were handed the same bytes
have taken the same lines and hold the same rest. -/
theorem lines_of_stream (n m : ℕ) (hn : kCheapPrepend+n < 2^64) (hm : kCheapPrepend+m < 2^64)
    (b d : Buffer) (hb : construct n = .ok b) (hd : construct m = .ok d)
    (rs qs : List ReadResult) :
    Yields (run step (ofBuffer b) rs) (fun s => Framed kCRLF s.lines s.buffer.contents ∧
      Framing.joined kCRLF s.lines s.buffer.contents = s.bytes) (· = .lengthError) ∧
    ∀ s t, run step (ofBuffer b) rs = .ok s → run step (ofBuffer d) qs = .ok t →
      s.bytes = t.bytes → s.lines = t.lines ∧ s.buffer.contents = t.buffer.contents := by
  have hrun : ∀ {s : LineReader} (rs : List ReadResult), s.Inv →
      Yields (run step s rs) Inv (· = .lengthError) := fun rs hi =>
    run_yields (fun _ _ => True) (fun s r hi _ => step_inv hi r) rs _ hi (admitted_true rs _)
  have hrs := hrun rs (construct_inv hn hb)
  refine ⟨hrs.imp fun s hi => ⟨hi.framed, hi.joined⟩, fun s t hs ht h => ?_⟩
  have his := hrs.ok hs
  have hit := (hrun qs (construct_inv hm hd)).ok ht
  exact framed_unique his.framed hit.framed (by rw [his.joined, hit.joined, h])

def inPieces : List ReadResult := [.read [72,13], .failed 11, .read [10,105,13,10,33]]

def atOnce : List ReadResult := [.read [72,13,10,105,13,10,33]]

theorem lines_of_stream_pieces :
    ∃ b s t, construct 4 = .ok b ∧ run step (ofBuffer b) inPieces = .ok s ∧
      run step (ofBuffer b) atOnce = .ok t ∧ s.lines = t.lines ∧ t.lines = [[72],[105]] ∧
      s.buffer.contents = t.buffer.contents := by
  have hrun : (construct 4 >>= fun b => run step (ofBuffer b) inPieces >>= fun s =>
      (fun t => (decide (s.bytes = t.bytes), t.lines)) <$> run step (ofBuffer b) atOnce) =
      .ok (true, [[72],[105]]) := by decide +kernel
  obtain ⟨b, hb, hbind⟩ := bind_ok.mp hrun
  obtain ⟨s, hs, hmap⟩ := bind_ok.mp hbind
  obtain ⟨t, ht, heq⟩ := map_ok.mp hmap
  simp only [Prod.mk.injEq, decide_eq_true_eq] at heq
  have h := (lines_of_stream 4 4 (by decide) (by decide) b b hb hb inPieces atOnce).2 s t hs ht
    heq.1
  exact ⟨b, s, t, hb, hs, ht, h.1, heq.2, h.2⟩

end LineReader

section Resumed
variable {p xs ys : List Byte} {b : Buffer}

theorem search_drop {k : ℕ} (hk : k ≤ xs.length) (h : ∀ j < k, ¬Occurs p xs j) :
    search p xs = k+search p (xs.drop k) := by
  induction k generalizing xs with
  | zero => simp
  | succ k ih =>
    cases xs with
    | nil => exact absurd hk (Nat.not_succ_le_zero k)
    | cons c cs =>
      have hnot : ¬p.isPrefixOf (c::cs) = true :=
        fun hpre => h 0 (Nat.succ_pos k) (List.isPrefixOf_iff_prefix.mp hpre)
      rw [search, if_neg hnot, List.drop_succ_cons,
        ih (Nat.le_of_succ_le_succ hk) fun j hj => h (j+1) (Nat.succ_lt_succ hj)]
      omega

theorem findCRLFFrom_eq (hv : Valid b) {k : ℕ} (hk : k ≤ b.contents.length)
    (h : ∀ j < k, ¬Occurs kCRLF b.contents j) :
    b.findCRLFFrom (b.readerIndex+k) = b.findCRLF := by
  have hcond : search kCRLF (b.contents.drop k) = (b.contents.drop k).length ↔
      k+search kCRLF (b.contents.drop k) = b.contents.length := by
    rw [List.length_drop]
    omega
  rw [findCRLFFrom_of hv hk, findCRLF_of hv, search_drop hk h]
  simp only [hcond, Nat.add_assoc]

theorem occurs_across (hxs : xs ≠ []) :
    Occurs kCRLF (xs++ys) (xs.length-1) ↔ xs.getLast? = some 13 ∧ ys.head? = some 10 := by
  obtain ⟨zs, c, rfl⟩ := (List.eq_nil_or_concat xs).resolve_left hxs
  have hidx : (zs ++ [c]).length-1 = zs.length+0 := by simp
  rw [List.concat_eq_append] at *
  rw [hidx, List.append_assoc, occurs_append_right, Occurs, List.drop_zero, List.singleton_append]
  cases ys with
  | nil => simp [kCRLF]
  | cons y ys => simp [kCRLF, List.cons_prefix_cons, eq_comm]

/-- A search after more bytes have come: one byte back from the old end it
finds what a search from the start finds. From the old end itself it does so
exactly if the pieces do not meet inside a line end. In a buffer that was empty
there is no byte to go back, and both searches start at `peek()`. -/
theorem search_resumed (b : Buffer) (hv : Valid b) (hfree : b.findCRLF = .ok none)
    (data : List Byte) (hd : data.length ≤ maxSize) :
    Yields (b.append data) (fun b' =>
      b'.findCRLFFrom (b'.readerIndex+(b.contents.length-1)) = b'.findCRLF ∧
      (b'.findCRLFFrom (b'.readerIndex+b.contents.length) = b'.findCRLF ↔
        ¬(b.contents.getLast? = some 13 ∧ data.head? = some 10))) (· = .lengthError) := by
  have hnone : Free kCRLF b.contents := by
    rw [findCRLF_of hv] at hfree
    split_ifs at hfree with hs
    · exact search_free kCRLF_ne hs
    · cases hfree
  apply (append_spec hv (fits_of_le_maxSize hv hd)).imp
  rintro b' ⟨hv', hc, -⟩
  have hlen : b.contents.length ≤ b'.contents.length := by
    rw [hc, List.length_append]
    omega
  have hearly : ∀ j < b.contents.length-1, ¬Occurs kCRLF b'.contents j := by
    intro j hj ho
    rw [hc] at ho
    have htwo : kCRLF.length = 2 := rfl
    exact hnone j ((occurs_append_left (by omega)).mp ho)
  refine ⟨findCRLFFrom_eq hv' (by omega) hearly, ?_⟩
  by_cases hnil : b.contents = []
  · simp only [hnil, List.length_nil, List.getLast?_nil]
    refine iff_of_true (findCRLFFrom_eq hv' (Nat.zero_le _) fun j hj => ?_) (by simp)
    exact absurd hj (Nat.not_lt_zero j)
  have hpos := List.length_pos_iff.mpr hnil
  rw [← occurs_across hnil, ← hc]
  constructor
  · intro heq hocc
    -- the search from the start stops one byte before the other one begins
    have hfirst := search_eq kCRLF_ne hearly hocc
    have hne : b.contents.length-1 ≠ b'.contents.length := by omega
    rw [findCRLFFrom_of hv' hlen, findCRLF_of hv', hfirst, if_neg hne] at heq
    split_ifs at heq
    · cases heq
    · have := Option.some.inj (Except.ok.inj heq)
      omega
  · intro hocc
    refine findCRLFFrom_eq hv' hlen fun j hj => ?_
    rcases Nat.lt_or_ge j (b.contents.length-1) with h | h
    · exact hearly j h
    · rwa [show j = b.contents.length-1 by omega]

theorem search_resumed_across :
    Yields ((⟨List.replicate 24 0 ++ [72,13] ++ List.replicate 6 0, 24, 26⟩ : Buffer).append [10])
      (fun b' => b'.findCRLFFrom (b'.readerIndex+1) = b'.findCRLF ∧
        b'.findCRLFFrom (b'.readerIndex+2) ≠ b'.findCRLF) (· = .lengthError) := by
  have h := search_resumed ⟨List.replicate 24 0 ++ [72,13] ++ List.replicate 6 0, 24, 26⟩
    ⟨by decide, by decide, by decide, by decide⟩ (by decide +kernel) [10] (by decide)
  have hc : (⟨List.replicate 24 0 ++ [72,13] ++ List.replicate 6 0, 24, 26⟩ : Buffer).contents =
    [72,13] := by decide
  rw [hc] at h
  exact h.imp fun b' hb => ⟨hb.1, fun heq => hb.2.mp heq (by decide)⟩

end Resumed

end Lux.Polaris.Buffer

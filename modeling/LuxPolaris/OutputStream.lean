import LuxPolaris.TCPConnection
import LuxPolaris.BufferContents

/-!
# The output stream of a connection

A message takes one of two ways out: straight to the kernel, or through
`outputBuffer_` and the write events that drain it. The invariant ties write
interest to the buffer being non-empty; with it every call moves bytes from
the caller to the buffer to the kernel in order, and a half-close finds
nothing left to send.
-/

set_option autoImplicit false

namespace Lux.Polaris.OutputStream
open Outcome Buffer TCPConnection

structure OutputInv (c : TCPConnection) : Prop where
  input : c.inputBuffer.Valid
  output : c.outputBuffer.Valid
  interest : c.state ≠ .kDisconnected →
    (c.channel.isWriting = true ↔ c.outputBuffer.contents ≠ [])
  off : c.state = .kDisconnected → c.channel.isWriting = false
  drained : ∀ u ∈ c.socket.shutdowns, u = []

def stream (c : TCPConnection) : List Byte := c.socket.wire ++ c.outputBuffer.contents

theorem outputInv_settled {c : TCPConnection} (h : OutputInv c) :
    OutputInv { c with effects := [] } :=
  ⟨h.input, h.output, h.interest, h.off, h.drained⟩

/-- Whether the direct write of a message fails with one of the two errors
after which the message is given up. -/
def Dropped (c : TCPConnection) (w : WriteResult) : Prop :=
  c.canWriteDirectly = true ∧ (w = .failed EPIPE ∨ w = .failed ECONNRESET)

instance (c : TCPConnection) (w : WriteResult) : Decidable (Dropped c w) :=
  inferInstanceAs (Decidable (_ ∧ _))

/-- What one call adds to the stream: the message given to `sendInLoop`. -/
def keptBy (c : TCPConnection) : Call → List Byte
  | .sendInLoop message w => if Dropped c w then [] else message.bytes
  | .send message w =>
    if c.state = .kConnected then (if Dropped c w then [] else message.bytes) else []
  | _ => []

def kept : TCPConnection → List Call → List Byte
  | _, [] => []
  | c, a::as =>
    keptBy c a ++
      match c.call a with
      | .ok c' => kept c' as
      | .error _ => []

structure Moves (c : TCPConnection) (bytes : List Byte) (c' : TCPConnection) : Prop where
  inv : OutputInv c'
  up : c'.state ≠ .kDisconnected → c.state ≠ .kDisconnected
  stream_eq : c'.state ≠ .kDisconnected → stream c' = stream c ++ bytes

def Failure (c : TCPConnection) (e : Fault) : Call → Prop
  | .sendInLoop _ _ => e = .lengthError
  | .send _ _ => e = .lengthError
  | .handleRead _ => e = .lengthError ∨ ¬(c.state = .kConnected ∨ c.state = .kDisconnecting)
  | .handleClose => ¬(c.state = .kConnected ∨ c.state = .kDisconnecting)
  | .takeInput len => ¬len ≤ c.inputBuffer.readableBytes
  | _ => False

theorem contents_eq_nil_iff {b : Buffer} (hv : b.Valid) :
    b.contents = [] ↔ b.readableBytes = 0 := by
  rw [← length_contents hv, List.length_eq_zero_iff]

theorem moves_of_frame {c c' : TCPConnection} (hi : OutputInv c)
    (hs : c'.socket = c.socket) (hw : c'.channel.isWriting = c.channel.isWriting)
    (ho : c'.outputBuffer = c.outputBuffer) (hb : c'.inputBuffer.Valid)
    (hd : c'.state = .kDisconnected ↔ c.state = .kDisconnected) : Moves c [] c' := by
  refine ⟨⟨hb, by rw [ho]; exact hi.output, ?_, ?_, by rw [hs]; exact hi.drained⟩, ?_, ?_⟩
  · intro h
    rw [hw, ho]
    exact hi.interest (fun hc => h (hd.mpr hc))
  · intro h
    rw [hw]
    exact hi.off (hd.mp h)
  · exact fun h hc => h (hd.mpr hc)
  · intro _
    rw [stream, stream, hs, ho, List.append_nil]

theorem moves_refl {c : TCPConnection} (hi : OutputInv c) : Moves c [] c :=
  moves_of_frame hi rfl rfl rfl hi.input Iff.rfl

theorem Moves.trans {a b c : TCPConnection} {x y : List Byte} (h : Moves a x b)
    (k : Moves b y c) : Moves a (x++y) c := by
  refine ⟨k.inv, fun hc => h.up (k.up hc), fun hc => ?_⟩
  rw [k.stream_eq hc, h.stream_eq (k.up hc), List.append_assoc]

section Closing

theorem moves_of_disconnected {c c' : TCPConnection} (hi : OutputInv c)
    (hs : c'.socket = c.socket) (hw : c'.channel.isWriting = false)
    (ho : c'.outputBuffer = c.outputBuffer) (hb : c'.inputBuffer = c.inputBuffer)
    (hd : c'.state = .kDisconnected) : Moves c [] c' := by
  refine ⟨⟨by rw [hb]; exact hi.input, by rw [ho]; exact hi.output, fun h => absurd hd h,
    fun _ => hw, by rw [hs]; exact hi.drained⟩, fun h => absurd hd h, fun h => absurd hd h⟩

theorem handleClose_moves {c : TCPConnection} (hi : OutputInv c) :
    Yields c.handleClose (Moves c []) (Failure c · .handleClose) := by
  unfold handleClose
  by_cases hc : c.state = .kConnected ∨ c.state = .kDisconnecting
  · simp only [assertThat_of hc, yields_bind, yields_ok, yields_pure]
    exact moves_of_disconnected hi rfl rfl rfl rfl rfl
  · rw [assertThat_of_not hc]
    exact (yields_error _ _ _).mpr hc

theorem forceCloseInLoop_moves {c : TCPConnection} (hi : OutputInv c) :
    Yields c.forceCloseInLoop (Moves c []) (fun _ => False) := by
  unfold forceCloseInLoop
  split_ifs with hc
  · exact (handleClose_moves hi).mono (fun _ h => h) (fun _ h => h hc)
  · exact (yields_ok _ _ _).mpr (moves_refl hi)

end Closing

section HalfClose

/-- With no write interest the buffer is empty, so a half-close is recorded
with nothing left to send. -/
theorem shutdownInLoop_moves {c : TCPConnection} (hi : OutputInv c)
    (hup : c.state ≠ .kDisconnected) : Moves c [] c.shutdownInLoop := by
  unfold shutdownInLoop
  split_ifs with hw
  · exact moves_refl hi
  · have hn : c.outputBuffer.contents = [] := by
      by_contra h
      exact hw ((hi.interest hup).mpr h)
    refine ⟨⟨hi.input, hi.output, hi.interest, hi.off, ?_⟩, id, fun _ => ?_⟩
    · intro u hu
      rcases List.mem_append.mp hu with h | h
      · exact hi.drained u h
      · rw [List.mem_singleton.mp h, hn]
    · simp [stream, shutdownWrite]

theorem setState_moves {c : TCPConnection} (hi : OutputInv c) {s : StateE}
    (hc : c.state ≠ .kDisconnected) (hs : s ≠ .kDisconnected) : Moves c [] (c.setState s) :=
  moves_of_frame hi rfl rfl rfl hi.input ⟨fun h => absurd h hs, fun h => absurd h hc⟩

theorem shutdown_moves {c : TCPConnection} (hi : OutputInv c) : Moves c [] c.shutdown := by
  unfold shutdown
  split_ifs with hc
  · have hup : c.state ≠ .kDisconnected := by simp [hc]
    have hset := setState_moves hi hup (show StateE.kDisconnecting ≠ .kDisconnected by decide)
    exact hset.trans (shutdownInLoop_moves hset.inv (by simp [setState]))
  · exact moves_refl hi

theorem forced_moves {c : TCPConnection} (hi : OutputInv c)
    (hc : c.state = .kConnected ∨ c.state = .kDisconnecting) (e : Effect) :
    Moves c [] ((c.setState .kDisconnecting).emit e) := by
  have hup : c.state ≠ .kDisconnected := by
    intro h
    simp [h] at hc
  exact moves_of_frame hi rfl rfl rfl hi.input
    ⟨fun h => by simp [emit, setState] at h, fun h => absurd h hup⟩

theorem forceClose_moves {c : TCPConnection} (hi : OutputInv c) : Moves c [] c.forceClose := by
  unfold forceClose
  split_ifs with hc
  · exact forced_moves hi hc _
  · exact moves_refl hi

theorem forceCloseWithDelay_moves {c : TCPConnection} (hi : OutputInv c) (delay : Seconds) :
    Moves c [] (c.forceCloseWithDelay delay) := by
  unfold forceCloseWithDelay
  split_ifs with hc
  · exact forced_moves hi hc _
  · exact moves_refl hi

end HalfClose

section Reading

theorem startReadInLoop_moves {c : TCPConnection} (hi : OutputInv c) :
    Moves c [] c.startReadInLoop := by
  unfold startReadInLoop
  split_ifs
  · exact moves_of_frame hi rfl rfl rfl hi.input Iff.rfl
  · exact moves_refl hi

theorem stopReadInLoop_moves {c : TCPConnection} (hi : OutputInv c) :
    Moves c [] c.stopReadInLoop := by
  unfold stopReadInLoop
  split_ifs
  · exact moves_of_frame hi rfl rfl rfl hi.input Iff.rfl
  · exact moves_refl hi

theorem handleRead_moves {c : TCPConnection} (hi : OutputInv c) (r : ReadResult) :
    Yields (c.handleRead r) (Moves c []) (Failure c · (.handleRead r)) := by
  unfold handleRead
  rw [yields_bind]
  apply (readFd_spec hi.input r).mono _ (fun _ h => Or.inl h)
  rintro ⟨n, input⟩ ⟨hv, -⟩
  have hin : Moves c [] { c with inputBuffer := input } :=
    moves_of_frame hi rfl rfl rfl hv Iff.rfl
  cases n with
  | error errno => exact (yields_pure _ _ _).mpr hin
  | ok n =>
    by_cases hn : n > 0
    · simp only [hn, if_true, yields_pure]
      exact hin.trans (moves_of_frame hin.inv rfl rfl rfl hv Iff.rfl)
    · simp only [hn, if_false]
      exact (handleClose_moves hin.inv).mono (fun _ h => hin.trans h) (fun _ h => Or.inr h)

theorem takeInput_moves {c : TCPConnection} (hi : OutputInv c) (len : ℕ) :
    Yields (c.call (.takeInput len)) (Moves c []) (Failure c · (.takeInput len)) := by
  rw [call, yields_bind]
  by_cases hl : len ≤ c.inputBuffer.readableBytes
  · obtain ⟨b, hb, hv, -⟩ := retrieve_spec hi.input hl
    rw [hb, yields_ok, yields_pure]
    exact moves_of_frame hi rfl rfl rfl hv Iff.rfl
  · rw [retrieve, assertThat_of_not hl]
    exact (yields_error _ _ _).mpr hl

end Reading

section Sending

theorem queueWriteComplete_eq (c : TCPConnection) : ∃ fs : List ConnFunctor,
    c.queueWriteComplete = { c with effects := c.effects ++ fs.map .queueInLoop } := by
  unfold queueWriteComplete
  split_ifs
  · exact ⟨[.writeCompleteCallback], rfl⟩
  · exact ⟨[], by simp⟩

theorem queueWriteComplete_moves {c : TCPConnection} (hi : OutputInv c) :
    Moves c [] c.queueWriteComplete := by
  obtain ⟨fs, he⟩ := queueWriteComplete_eq c
  rw [he]
  exact moves_of_frame hi rfl rfl rfl hi.input Iff.rfl

@[simp] theorem accept_outputBuffer (c : TCPConnection) (data : List Byte) (n : ℕ) :
    (c.accept data n).outputBuffer = c.outputBuffer := rfl

theorem isFault_iff (errno : ℕ) : isFault errno = true ↔ errno = EPIPE ∨ errno = ECONNRESET := by
  simp only [isFault, Bool.and_eq_true, Bool.or_eq_true, decide_eq_true_eq]
  constructor
  · exact fun h => h.2
  · intro h
    have hne : errno ≠ EWOULDBLOCK := by
      unfold EWOULDBLOCK
      unfold EPIPE ECONNRESET at h
      omega
    exact ⟨hne, h⟩

theorem writeDirectly_spec (c : TCPConnection) (data : List Byte) (w : WriteResult) :
    ∃ (fs : List ConnFunctor) (nwrote : ℕ) (faultError : Bool),
      c.writeDirectly data w = ({ c.accept data nwrote with
        effects := c.effects ++ fs.map .queueInLoop }, nwrote, faultError) ∧
      nwrote ≤ data.length ∧ (nwrote ≠ 0 → c.canWriteDirectly = true) ∧
      (faultError = true ↔ Dropped c w) ∧ (faultError = true → nwrote = 0) := by
  unfold writeDirectly Dropped
  by_cases hd : c.canWriteDirectly = true
  · rw [if_pos hd]
    cases w with
    | accepted k =>
      have hle : min k data.length ≤ data.length := Nat.min_le_right _ _
      by_cases hall : data.length-min k data.length = 0
      · obtain ⟨fs, he⟩ := queueWriteComplete_eq (c.accept data (min k data.length))
        refine ⟨fs, min k data.length, false, ?_, hle, fun _ => hd, by simp, by simp⟩
        simp only [hall, if_true, he]
        rfl
      · refine ⟨[], min k data.length, false, ?_, hle, fun _ => hd, by simp, by simp⟩
        simp [hall, accept]
    | failed errno =>
      refine ⟨[], 0, isFault errno, ?_, Nat.zero_le _, by simp, ?_, fun _ => rfl⟩
      · simp [accept]
      · simp only [isFault_iff, hd, true_and, WriteResult.failed.injEq]
  · rw [if_neg hd]
    refine ⟨[], 0, false, ?_, Nat.zero_le _, by simp, ?_, fun _ => rfl⟩
    · simp [accept]
    · simp [hd]

theorem bufferRemaining_spec {c : TCPConnection} (hv : c.outputBuffer.Valid) {rest : List Byte}
    (hl : rest.length ≤ maxSize) :
    Yields (c.bufferRemaining rest) (fun c' => c'.state = c.state ∧ c'.socket = c.socket ∧
      c'.inputBuffer = c.inputBuffer ∧ c'.outputBuffer.Valid ∧ c'.channel.isWriting = true ∧
      c'.outputBuffer.contents = c.outputBuffer.contents ++ rest) (· = .lengthError) := by
  have happend := append_spec hv (fits_of_le_maxSize hv hl)
  unfold bufferRemaining
  simp only [yields_bind, yields_pure]
  split_ifs with hm hw hw
  all_goals
    apply happend.imp
    intro b hb
  · exact ⟨rfl, rfl, rfl, hb.1, hw, hb.2.1⟩
  · exact ⟨rfl, rfl, rfl, hb.1, rfl, hb.2.1⟩
  · exact ⟨rfl, rfl, rfl, hb.1, hw, hb.2.1⟩
  · exact ⟨rfl, rfl, rfl, hb.1, rfl, hb.2.1⟩

theorem wire_take_contents {c : TCPConnection} {data : List Byte} {n : ℕ}
    (h : n ≠ 0 → c.outputBuffer.contents = []) :
    (c.socket.wire ++ data.take n) ++ c.outputBuffer.contents = stream c ++ data.take n := by
  by_cases hn : n = 0
  · simp [hn, stream]
  · simp [stream, h hn]

theorem sendInLoop_moves {c : TCPConnection} (hi : OutputInv c) (message : Message)
    (w : WriteResult) :
    Yields (c.sendInLoop message w) (Moves c (if Dropped c w then [] else message.bytes))
      (· = .lengthError) := by
  unfold sendInLoop
  by_cases hd : c.state = .kDisconnected
  · rw [if_pos hd, yields_pure]
    exact ⟨hi, fun h => absurd hd h, fun h => absurd hd h⟩
  rw [if_neg hd]
  obtain ⟨fs, nwrote, faultError, hc, hle, hdirect, hfault, hzero⟩ :=
    writeDirectly_spec c message.bytes w
  -- only an empty buffer lets bytes go past it
  have hempty : nwrote ≠ 0 → c.outputBuffer.contents = [] := by
    intro hn
    rw [contents_eq_nil_iff hi.output]
    have hcan := hdirect hn
    simp only [canWriteDirectly, Bool.and_eq_true, decide_eq_true_eq] at hcan
    exact hcan.2
  have htake : (c.socket.wire ++ message.bytes.take nwrote) ++ c.outputBuffer.contents =
    stream c ++ message.bytes.take nwrote := wire_take_contents hempty
  have hrem : message.bytes.length-nwrote ≤ message.bytes.length := Nat.sub_le _ _
  simp only [hc, assertThat_of hrem, yields_bind, yields_ok]
  by_cases hb : (!faultError && decide (message.bytes.length-nwrote > 0)) = true
  · rw [if_pos hb]
    simp only [Bool.and_eq_true, Bool.not_eq_true', decide_eq_true_eq] at hb
    have hnd : ¬Dropped c w := by
      rw [← hfault, hb.1]
      decide
    have hlen : (message.bytes.drop nwrote).length ≤ maxSize := by
      have := message.fits
      rw [List.length_drop]
      omega
    apply (bufferRemaining_spec (c := { c.accept message.bytes nwrote with
      effects := c.effects ++ fs.map .queueInLoop }) hi.output hlen).imp
    intro c' hc'
    obtain ⟨hst, hso, hin, hv, hwr, hco⟩ := hc'
    have hne : c'.outputBuffer.contents ≠ [] := by
      rw [hco]
      simp only [ne_eq, List.append_eq_nil_iff, List.drop_eq_nil_iff, not_and]
      omega
    have hup : c'.state ≠ .kDisconnected := by
      rw [hst]
      exact hd
    refine ⟨⟨hin ▸ hi.input, hv, fun _ => ⟨fun _ => hne, fun _ => hwr⟩,
      fun h => absurd h hup, hso ▸ hi.drained⟩, fun _ => hd, fun _ => ?_⟩
    rw [if_neg hnd, stream, hso, hco]
    calc (c.socket.wire ++ message.bytes.take nwrote) ++
          (c.outputBuffer.contents ++ message.bytes.drop nwrote)
        = ((c.socket.wire ++ message.bytes.take nwrote) ++ c.outputBuffer.contents) ++
            message.bytes.drop nwrote := by simp only [List.append_assoc]
      _ = stream c ++ message.bytes := by
            rw [htake, List.append_assoc, List.take_append_drop]
  · rw [if_neg hb, yields_pure]
    refine ⟨⟨hi.input, hi.output, hi.interest, hi.off, hi.drained⟩, fun _ => hd, fun _ => ?_⟩
    change (c.socket.wire ++ message.bytes.take nwrote) ++ c.outputBuffer.contents = _
    rw [htake]
    by_cases hdr : Dropped c w
    · rw [if_pos hdr, hzero (hfault.mpr hdr), List.take_zero]
    · have hf : faultError = false := by
        rw [← Bool.not_eq_true, hfault]
        exact hdr
      have hall : message.bytes.length ≤ nwrote := by
        simp only [hf, Bool.not_false, Bool.true_and, decide_eq_true_eq] at hb
        omega
      rw [if_neg hdr, List.take_of_length_le hall]

theorem drained_moves {c : TCPConnection} (hi : OutputInv c) (hup : c.state ≠ .kDisconnected)
    {n : ℕ} {b : Buffer} (hv : b.Valid) (hnil : b.contents = [])
    (hs : c.socket.wire ++ c.outputBuffer.contents.take n ++ b.contents = stream c) :
    Moves c [] { c.accept c.outputBuffer.contents n with
      outputBuffer := b, channel := c.channel.disableWriting } := by
  refine ⟨⟨hi.input, hv, fun _ => ?_, fun h => absurd h hup, hi.drained⟩, fun _ => hup, ?_⟩
  · simp [hnil, Channel.isWriting]
  · intro _
    rw [List.append_nil]
    exact hs

theorem handleWrite_moves {c : TCPConnection} (hi : OutputInv c) (w : WriteResult) :
    Yields (c.handleWrite w) (Moves c []) (fun _ => False) := by
  unfold handleWrite
  by_cases hw : c.channel.isWriting = true
  swap
  · rw [if_neg hw, yields_pure]
    exact moves_refl hi
  have hup : c.state ≠ .kDisconnected := by
    intro h
    simp [hi.off h] at hw
  rw [if_pos hw, toStringPiece_spec hi.output, yields_bind, yields_ok]
  cases w with
  | failed errno => exact (yields_pure _ _ _).mpr (moves_refl hi)
  | accepted k =>
    by_cases hn : min k c.outputBuffer.contents.length > 0
    swap
    · simp only [hn, if_false, yields_pure]
      exact moves_refl hi
    simp only [hn, if_true]
    have hle : min k c.outputBuffer.contents.length ≤ c.outputBuffer.readableBytes := by
      rw [← length_contents hi.output]
      exact Nat.min_le_right _ _
    generalize min k c.outputBuffer.contents.length = n at *
    obtain ⟨b, hb, hv, hc, -⟩ := retrieve_spec hi.output hle
    have hstream : c.socket.wire ++ c.outputBuffer.contents.take n ++ b.contents = stream c := by
      rw [hc, List.append_assoc, List.take_append_drop, stream]
    simp only [accept_outputBuffer, hb, yields_bind, yields_ok]
    by_cases hz : b.readableBytes = 0
    · rw [if_pos hz, yields_pure]
      have hdr := drained_moves hi hup hv ((contents_eq_nil_iff hv).mpr hz) hstream
      have hq := hdr.trans (queueWriteComplete_moves hdr.inv)
      split_ifs with hds
      · exact hq.trans (shutdownInLoop_moves hq.inv (fun h => by cases hds.symm.trans h))
      · exact hq
    · rw [if_neg hz, yields_pure]
      have hne : b.contents ≠ [] := fun h => hz ((contents_eq_nil_iff hv).mp h)
      refine ⟨⟨hi.input, hv, fun _ => ⟨fun _ => hne, fun _ => hw⟩, fun h => absurd h hup,
        hi.drained⟩, fun _ => hup, fun _ => ?_⟩
      rw [List.append_nil]
      exact hstream

end Sending

theorem call_moves {c : TCPConnection} (hi : OutputInv c) (a : Call) :
    Yields (c.call a) (Moves c (keptBy c a)) (Failure c · a) := by
  cases a with
  | sendInLoop message w => exact sendInLoop_moves hi message w
  | send message w =>
    by_cases hc : c.state = .kConnected
    · simpa only [call, send, keptBy, hc, if_true, Failure] using sendInLoop_moves hi message w
    · simpa only [call, send, keptBy, hc, if_false, yields_ok] using moves_refl hi
  | shutdown => exact (yields_ok _ _ _).mpr (shutdown_moves hi)
  | forceClose => exact (yields_ok _ _ _).mpr (forceClose_moves hi)
  | forceCloseWithDelay delay => exact (yields_ok _ _ _).mpr (forceCloseWithDelay_moves hi delay)
  | forceCloseInLoop => exact forceCloseInLoop_moves hi
  | startRead => exact (yields_ok _ _ _).mpr (startReadInLoop_moves hi)
  | stopRead => exact (yields_ok _ _ _).mpr (stopReadInLoop_moves hi)
  | handleRead r => exact handleRead_moves hi r
  | handleWrite w => exact handleWrite_moves hi w
  | handleClose => exact handleClose_moves hi
  | handleError => exact (yields_ok _ _ _).mpr (moves_refl hi)
  | takeInput len => exact takeInput_moves hi len

theorem run_moves {c c' : TCPConnection} (hi : OutputInv c) {calls : List Call}
    (hr : run call c calls = .ok c') : Moves c (kept c calls) c' := by
  induction calls generalizing c with
  | nil =>
    cases hr
    exact moves_refl hi
  | cons a as ih =>
    obtain ⟨d, hd, ht⟩ := run_cons_ok.mp hr
    have hm := (call_moves hi a).ok hd
    simpa only [kept, hd] using hm.trans (ih hm.inv ht)

theorem construct_spec (sockfd mark : ℕ) (writeComplete highWater : Bool) :
    Yields (construct sockfd writeComplete highWater mark)
      (fun c => OutputInv c ∧ stream c = [] ∧ c.state = .kConnecting ∧
        c.channel.index = .kNew ∧ c.effects = [])
      (· = .lengthError) := by
  have hsize : kCheapPrepend+kInitialSize < 2^64 := by
    unfold kCheapPrepend kInitialSize
    omega
  simp only [TCPConnection.construct, yields_bind]
  apply (Buffer.construct_spec kInitialSize hsize).imp
  rintro input ⟨hiv, -⟩
  apply (Buffer.construct_spec kInitialSize hsize).imp
  rintro output ⟨hov, hoc, -⟩
  refine (yields_pure _ _ _).mpr ⟨⟨hiv, hov, fun _ => ?_, by simp, by simp⟩, hoc, rfl, rfl, rfl⟩
  simp [Channel.construct, Channel.isWriting, kNoneEvent, hoc]

theorem established_spec (sockfd mark : ℕ) (writeComplete highWater : Bool) :
    Yields (construct sockfd writeComplete highWater mark >>= connectEstablished)
      (fun c => OutputInv c ∧ stream c = [] ∧ c.state = .kConnected ∧
        c.channel.isReading = true ∧ c.channel.index = .kAdded ∧
        c.effects = [.connectionCallback true])
      (· = .lengthError) := by
  rw [yields_bind]
  apply (construct_spec sockfd mark writeComplete highWater).imp
  rintro c ⟨hi, hstream, hs, -, he⟩
  have hne : c.state ≠ .kDisconnected := by simp [hs]
  rw [connectEstablished, assertThat_of hs, ok_bind]
  refine (yields_pure _ _ _).mpr
    ⟨⟨hi.input, hi.output, fun _ => hi.interest hne, nofun, hi.drained⟩, hstream, rfl, rfl, ?_, ?_⟩
  · exact Channel.update_index_of_interest _ (by simp [Channel.isNoneEvent, kNoneEvent])
  · simp [callConnectionCallback, emit, connected, setState, he]

/-- Every run of calls and events after `connectEstablished`. While the
connection is not down, the kernel's bytes and the buffered ones are the kept
messages in call order, and write interest says whether any are buffered. -/
theorem output_stream_integrity (sockfd mark : ℕ) (writeComplete highWater : Bool)
    (c c' : TCPConnection) (calls : List Call)
    (h : construct sockfd writeComplete highWater mark >>= connectEstablished = .ok c)
    (hr : run call c calls = .ok c') :
    (c'.state ≠ .kDisconnected →
      c'.socket.wire ++ c'.outputBuffer.contents = kept c calls ∧
      (c'.channel.isWriting = true ↔ c'.outputBuffer.contents ≠ [])) ∧
    ∀ unsent ∈ c'.socket.shutdowns, unsent = [] := by
  obtain ⟨hi, hs, -⟩ := (established_spec sockfd mark writeComplete highWater).ok h
  have hm := run_moves hi hr
  refine ⟨fun hup => ⟨?_, hm.inv.interest hup⟩, hm.inv.drained⟩
  have he := hm.stream_eq hup
  rwa [hs, List.nil_append] at he

theorem output_stream_integrity_partial_write :
    ∃ c c', construct 5 true false 64 >>= connectEstablished = .ok c ∧
      run call c [.sendInLoop ⟨[72,105], by decide⟩ (.accepted 1), .shutdown] = .ok c' ∧
      c'.state = .kDisconnecting ∧ c'.socket.wire ++ c'.outputBuffer.contents = [72,105] ∧
      c'.channel.isWriting = true ∧ c'.outputBuffer.contents ≠ [] := by
  have hrun : ((construct 5 true false 64 >>= connectEstablished) >>= fun c =>
      (fun c' => (c'.state, c'.channel.isWriting,
        kept c [.sendInLoop ⟨[72,105], by decide⟩ (.accepted 1), .shutdown])) <$>
        run call c [.sendInLoop ⟨[72,105], by decide⟩ (.accepted 1), .shutdown]) =
      .ok (.kDisconnecting, true, [72,105]) := by decide +kernel
  obtain ⟨c, hc, hmap⟩ := bind_ok.mp hrun
  obtain ⟨c', hc', hp⟩ := map_ok.mp hmap
  simp only [Prod.mk.injEq] at hp
  obtain ⟨hs, hw, hk⟩ := hp
  have h := (output_stream_integrity 5 64 true false c c' _ hc hc').1 (by rw [hs]; decide)
  refine ⟨c, c', hc, hc', hs, ?_, hw, h.2.mp hw⟩
  rw [h.1, hk]

end Lux.Polaris.OutputStream

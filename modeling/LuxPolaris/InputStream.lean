import LuxPolaris.ConnectionStates

/-!
# The input stream of a connection

The counterpart of the output stream: `handleRead` puts what the kernel hands
over behind the bytes in `inputBuffer_` and calls the message callback once,
and the callback takes bytes from the front. No other function of the
connection touches that buffer.
-/

set_option autoImplicit false

namespace Lux.Polaris.InputStream
open Outcome Buffer TCPConnection OutputStream

/-- What one call gets from the kernel: a read that is neither empty nor
failed delivers one chunk. -/
def chunksOf (c : TCPConnection) : Call → List (List Byte)
  | .handleRead r => if c.inputBuffer.received r = [] then [] else [c.inputBuffer.received r]
  | _ => []

/-- What one call hands to the user. -/
def takenBy (c : TCPConnection) : Call → List Byte
  | .takeInput len => c.inputBuffer.contents.take len
  | _ => []

def chunks : TCPConnection → List Call → List (List Byte)
  | _, [] => []
  | c, a::as =>
    chunksOf c a ++
      match c.call a with
      | .ok c' => chunks c' as
      | .error _ => []

def taken : TCPConnection → List Call → List Byte
  | _, [] => []
  | c, a::as =>
    takenBy c a ++
      match c.call a with
      | .ok c' => taken c' as
      | .error _ => []

structure Receives (c : TCPConnection) (chunks : List (List Byte)) (bytes : List Byte)
    (c' : TCPConnection) : Prop where
  contents_eq : bytes ++ c'.inputBuffer.contents = c.inputBuffer.contents ++ chunks.flatten
  called : c'.effects.count .messageCallback =
    c.effects.count .messageCallback + chunks.length

theorem receives_refl (c : TCPConnection) : Receives c [] [] c := ⟨by simp, rfl⟩

theorem Receives.trans {a b c : TCPConnection} {xs ys : List (List Byte)} {x y : List Byte}
    (h : Receives a xs x b) (k : Receives b ys y c) : Receives a (xs++ys) (x++y) c := by
  refine ⟨?_, ?_⟩
  · calc (x ++ y) ++ c.inputBuffer.contents
        = x ++ (b.inputBuffer.contents ++ ys.flatten) := by
            rw [List.append_assoc, k.contents_eq]
      _ = (a.inputBuffer.contents ++ xs.flatten) ++ ys.flatten := by
            rw [← List.append_assoc, h.contents_eq]
      _ = a.inputBuffer.contents ++ (xs ++ ys).flatten := by
            rw [List.flatten_append, List.append_assoc]
  · rw [k.called, h.called, List.length_append, Nat.add_assoc]

section Frame
variable {c c' : TCPConnection}

/-- The input buffer is as it was, and no message callback has been called. -/
structure SameInput (c c' : TCPConnection) : Prop where
  buffer_eq : c'.inputBuffer = c.inputBuffer
  effects_eq : c'.effects.count .messageCallback = c.effects.count .messageCallback

theorem SameInput.receives (h : SameInput c c') : Receives c [] [] c' :=
  ⟨by simp [h.buffer_eq], h.effects_eq⟩

theorem startReadInLoop_same (c : TCPConnection) : SameInput c c.startReadInLoop := by
  unfold startReadInLoop
  split_ifs
  · exact ⟨rfl, rfl⟩
  · exact ⟨rfl, rfl⟩

theorem stopReadInLoop_same (c : TCPConnection) : SameInput c c.stopReadInLoop := by
  unfold stopReadInLoop
  split_ifs
  · exact ⟨rfl, rfl⟩
  · exact ⟨rfl, rfl⟩

theorem count_functors (es : List Effect) (fs : List ConnFunctor) :
    (es ++ fs.map Effect.queueInLoop).count .messageCallback = es.count .messageCallback := by
  have hfs : (fs.map Effect.queueInLoop).count .messageCallback = 0 :=
    List.count_eq_zero.mpr (by simp)
  rw [List.count_append, hfs, Nat.add_zero]

theorem count_emit {e : Effect} (he : e ≠ .messageCallback) (c : TCPConnection) :
    (c.emit e).effects.count .messageCallback = c.effects.count .messageCallback := by
  simp [emit, List.count_append, he]

theorem handleClose_same (h : c.handleClose = .ok c') : SameInput c c' := by
  obtain ⟨u, -, heq⟩ := bind_ok.mp h
  cases heq
  refine ⟨rfl, ?_⟩
  rw [count_emit (by simp), callConnectionCallback, count_emit (by simp)]
  rfl

theorem forceCloseInLoop_same (h : c.forceCloseInLoop = .ok c') : SameInput c c' := by
  unfold forceCloseInLoop at h
  split_ifs at h
  · exact handleClose_same h
  · cases h
    exact ⟨rfl, rfl⟩

theorem sendInLoop_same {message : Message} {w : WriteResult}
    (h : c.sendInLoop message w = .ok c') : SameInput c c' := by
  rcases sendInLoop_cases h with ⟨-, rfl⟩ | ⟨-, fs, nwrote, rfl | hc⟩
  · exact ⟨rfl, rfl⟩
  · exact ⟨rfl, count_functors _ _⟩
  · obtain ⟨gs, output, -, rfl⟩ := bufferRemaining_cases hc
    refine ⟨rfl, ?_⟩
    change ((c.effects ++ fs.map Effect.queueInLoop) ++ gs.map Effect.queueInLoop).count _ = _
    rw [count_functors, count_functors]

theorem shutdown_same (c : TCPConnection) : SameInput c c.shutdown := by
  unfold shutdown shutdownInLoop
  split_ifs
  · exact ⟨rfl, rfl⟩
  · exact ⟨rfl, rfl⟩
  · exact ⟨rfl, rfl⟩

theorem forceClose_same (c : TCPConnection) : SameInput c c.forceClose := by
  unfold forceClose
  split_ifs
  · exact ⟨rfl, count_emit (by simp) (c.setState .kDisconnecting)⟩
  · exact ⟨rfl, rfl⟩

theorem forceCloseWithDelay_same (c : TCPConnection) (delay : Seconds) :
    SameInput c (c.forceCloseWithDelay delay) := by
  unfold forceCloseWithDelay
  split_ifs
  · exact ⟨rfl, count_emit (by simp) (c.setState .kDisconnecting)⟩
  · exact ⟨rfl, rfl⟩

theorem handleWrite_same {w : WriteResult} (h : c.handleWrite w = .ok c') : SameInput c c' := by
  rcases handleWrite_cases h with ⟨rfl, -⟩ | ⟨-, data, k, output, -, -, -, -, hc⟩
  · exact ⟨rfl, rfl⟩
  · rcases hc with ⟨-, rfl⟩ | ⟨-, fs, d, rfl, rfl⟩
    · exact ⟨rfl, rfl⟩
    · split_ifs
      · exact ⟨rfl, count_functors _ _⟩
      · exact ⟨rfl, count_functors _ _⟩

end Frame

section Reading
variable {c c' : TCPConnection}

theorem handleRead_receives (hi : OutputInv c) {r : ReadResult} (h : c.handleRead r = .ok c') :
    Receives c (chunksOf c (.handleRead r)) [] c' := by
  obtain ⟨⟨n, input⟩, hread, heq⟩ := bind_ok.mp h
  have hspec := ((readFd_yields hi.input r).ok hread).2
  cases r with
  | failed errno =>
    cases hspec
    cases heq
    exact receives_refl c
  | read bytes =>
    obtain ⟨hn, hc⟩ := hspec
    cases hn
    by_cases hnil : bytes.take c.inputBuffer.iovLength = []
    · have hlen : ¬(bytes.take c.inputBuffer.iovLength).length > 0 := by simp [hnil]
      rw [hnil, List.append_nil] at hc
      simp only [hlen, if_false] at heq
      have hclose := handleClose_same heq
      simp only [chunksOf, received, hnil, if_true]
      exact ⟨by rw [List.nil_append, hclose.buffer_eq, hc]; simp, hclose.effects_eq⟩
    · have hlen : (bytes.take c.inputBuffer.iovLength).length > 0 := List.length_pos_iff.mpr hnil
      simp only [hlen, if_true] at heq
      cases heq
      simp only [chunksOf, received, hnil, if_false]
      exact ⟨by simp [emit, hc], by simp [emit, List.count_append]⟩

theorem takeInput_receives (hi : OutputInv c) {len : ℕ} (h : c.call (.takeInput len) = .ok c') :
    Receives c [] (takenBy c (.takeInput len)) c' := by
  obtain ⟨input, hread, heq⟩ := bind_ok.mp h
  cases heq
  by_cases hl : len ≤ c.inputBuffer.readableBytes
  · obtain ⟨b, hb, -, hc, -⟩ := retrieve_spec hi.input hl
    cases hb.symm.trans hread
    refine ⟨?_, rfl⟩
    rw [takenBy, hc, List.take_append_drop, List.flatten_nil, List.append_nil]
  · rw [retrieve, assertThat_of_not hl] at hread
    cases hread

end Reading

theorem established_input (sockfd mark : ℕ) (writeComplete highWater : Bool) :
    Yields (construct sockfd writeComplete highWater mark >>= connectEstablished)
      (fun c => c.inputBuffer.contents = [] ∧ c.effects = [.connectionCallback true])
      (· = .lengthError) := by
  have hsize : kCheapPrepend+kInitialSize < 2^64 := by decide
  simp only [TCPConnection.construct, yields_bind]
  apply (Buffer.construct_spec kInitialSize hsize).imp
  rintro input ⟨-, hic, -⟩
  apply (Buffer.construct_spec kInitialSize hsize).imp
  rintro output -
  rw [yields_pure, connectEstablished, assertThat_of rfl, ok_bind]
  exact (yields_pure _ _ _).mpr ⟨hic, rfl⟩

theorem call_receives {c c' : TCPConnection} (hi : OutputInv c) {a : Call}
    (h : c.call a = .ok c') : Receives c (chunksOf c a) (takenBy c a) c' := by
  cases a with
  | sendInLoop message w => exact (sendInLoop_same h).receives
  | send message w =>
    unfold call send at h
    split_ifs at h
    · exact (sendInLoop_same h).receives
    · cases h
      exact receives_refl _
  | shutdown =>
    cases h
    exact (shutdown_same c).receives
  | forceClose =>
    cases h
    exact (forceClose_same c).receives
  | forceCloseWithDelay delay =>
    cases h
    exact (forceCloseWithDelay_same c delay).receives
  | forceCloseInLoop => exact (forceCloseInLoop_same h).receives
  | startRead =>
    cases h
    exact (startReadInLoop_same c).receives
  | stopRead =>
    cases h
    exact (stopReadInLoop_same c).receives
  | handleRead r => exact handleRead_receives hi h
  | handleWrite w => exact (handleWrite_same h).receives
  | handleClose => exact (handleClose_same h).receives
  | handleError =>
    cases h
    exact receives_refl _
  | takeInput len => exact takeInput_receives hi h

theorem run_receives {c c' : TCPConnection} (hi : OutputInv c) {calls : List Call}
    (hr : run call c calls = .ok c') : Receives c (chunks c calls) (taken c calls) c' := by
  induction calls generalizing c with
  | nil =>
    cases hr
    exact receives_refl _
  | cons a as ih =>
    obtain ⟨d, hd, ht⟩ := run_cons_ok.mp hr
    have hm := (call_moves hi a).ok hd
    simpa only [chunks, taken, hd] using (call_receives hi hd).trans (ih hm.inv ht)

/-- Every run of calls and events after `connectEstablished`: what the user has
taken, followed by what is in the input buffer, is what the kernel has handed
over, and every chunk of it was announced once. -/
theorem input_stream_integrity (sockfd mark : ℕ) (writeComplete highWater : Bool)
    (c c' : TCPConnection) (calls : List Call)
    (h : construct sockfd writeComplete highWater mark >>= connectEstablished = .ok c)
    (hr : run call c calls = .ok c') :
    taken c calls ++ c'.inputBuffer.contents = (chunks c calls).flatten ∧
      c'.effects.count .messageCallback = (chunks c calls).length := by
  obtain ⟨hcontents, heffects⟩ := (established_input sockfd mark writeComplete highWater).ok h
  have hm := run_receives ((established_spec sockfd mark writeComplete highWater).ok h).1 hr
  refine ⟨?_, ?_⟩
  · rw [hm.contents_eq, hcontents, List.nil_append]
  · rw [hm.called, heffects]
    simp

def takesOne : List Call := [.handleRead (.read [72]), .handleRead (.read [105]), .takeInput 1]

theorem input_stream_integrity_one_taken :
    ∃ c c', construct 5 true false 64 >>= connectEstablished = .ok c ∧
      run call c takesOne = .ok c' ∧ [72] ++ c'.inputBuffer.contents = [72,105] ∧
      c'.effects.count .messageCallback = 2 := by
  have hrun : ((construct 5 true false 64 >>= connectEstablished) >>= fun c =>
      (fun _ => (taken c takesOne, chunks c takesOne)) <$> run call c takesOne) =
      .ok ([72], [[72],[105]]) := by decide +kernel
  obtain ⟨c, hc, hmap⟩ := bind_ok.mp hrun
  obtain ⟨c', hc', hp⟩ := map_ok.mp hmap
  simp only [Prod.mk.injEq] at hp
  have h := input_stream_integrity 5 64 true false c c' takesOne hc hc'
  rw [hp.1, hp.2] at h
  exact ⟨c, c', hc, hc', h.1, h.2⟩

end Lux.Polaris.InputStream

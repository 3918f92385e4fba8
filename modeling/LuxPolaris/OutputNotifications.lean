import LuxPolaris.ConnectionStates

/-!
# High-water and write-complete

The two notifications that tell a user to stop and to go on. With both
callbacks set a call queues the first one exactly if it takes the output
buffer across the mark, and the second one only if nothing is left to write;
a buffer that drains has always been drained by `handleWrite`.
-/

set_option autoImplicit false

namespace Lux.Polaris.OutputStream
open Outcome Buffer TCPConnection

/-- Both callbacks are set and the mark is `m`. -/
structure Watched (m : ℕ) (c : TCPConnection) : Prop where
  writeComplete : c.writeCompleteCallback = true
  highWater : c.highWaterMarkCallback = true
  mark : c.highWaterMark = m

def notice : Effect → Option ConnFunctor
  | .queueInLoop .writeCompleteCallback => some .writeCompleteCallback
  | .queueInLoop (.highWaterMarkCallback size) => some (.highWaterMarkCallback size)
  | _ => none

def notices (c c' : TCPConnection) : List ConnFunctor :=
  (c'.effects.drop c.effects.length).filterMap notice

def highWaterSize : ConnFunctor → Option ℕ
  | .highWaterMarkCallback size => some size
  | _ => none

def size (c : TCPConnection) : ℕ := c.outputBuffer.readableBytes

/-- The buffer goes from below the mark to the mark or above. -/
def Rises (m : ℕ) (c c' : TCPConnection) : Prop := size c < m ∧ m ≤ size c'

def Empties (c c' : TCPConnection) : Prop := size c ≠ 0 ∧ size c' = 0

instance (m : ℕ) (c c' : TCPConnection) : Decidable (Rises m c c') :=
  inferInstanceAs (Decidable (_ ∧ _))

inductive Queues (m : ℕ) (c c' : TCPConnection) : List ConnFunctor → Prop
  | nothing : ¬Rises m c c' → ¬Empties c c' → Queues m c c' []
  | highWater : Rises m c c' → Queues m c c' [.highWaterMarkCallback (size c')]
  | writeComplete : c'.state ≠ .kDisconnected → size c' = 0 →
      Queues m c c' [.writeCompleteCallback]

structure Notifies (m : ℕ) (c c' : TCPConnection) : Prop where
  watched : Watched m c'
  queues : ∃ es, c'.effects = c.effects ++ es ∧ Queues m c c' (es.filterMap notice)

section Calls
variable {m : ℕ} {c c' : TCPConnection}

theorem queues_of_size (h : size c' = size c) : Queues m c c' [] := by
  refine .nothing (fun hr => ?_) (fun hd => hd.1 (h.symm.trans hd.2))
  have h₁ := hr.1
  have h₂ := hr.2
  omega

theorem Queues.from {d : TCPConnection} {fs : List ConnFunctor} (h : Queues m d c' fs)
    (hs : size d = size c) : Queues m c c' fs := by
  cases h with
  | nothing h₁ h₂ =>
    refine .nothing (fun hr => h₁ ?_) (fun hd => h₂ ?_)
    · exact ⟨by rw [hs]; exact hr.1, hr.2⟩
    · exact ⟨by rw [hs]; exact hd.1, hd.2⟩
  | highWater h₁ => exact .highWater ⟨by rw [← hs]; exact h₁.1, h₁.2⟩
  | writeComplete h₁ h₂ => exact .writeComplete h₁ h₂

theorem queueWriteComplete_of (h : c.writeCompleteCallback = true) :
    c.queueWriteComplete = c.emit (.queueInLoop .writeCompleteCallback) := if_pos h

theorem notifies_of_frame (hw : Watched m c) (ho : c'.outputBuffer = c.outputBuffer)
    (h₁ : c'.writeCompleteCallback = c.writeCompleteCallback)
    (h₂ : c'.highWaterMarkCallback = c.highWaterMarkCallback)
    (h₃ : c'.highWaterMark = c.highWaterMark) (es : List Effect)
    (he : c'.effects = c.effects ++ es) (hn : es.filterMap notice = []) : Notifies m c c' := by
  refine ⟨⟨h₁.trans hw.writeComplete, h₂.trans hw.highWater, h₃.trans hw.mark⟩, es, he, ?_⟩
  rw [hn]
  exact queues_of_size (by rw [size, size, ho])

theorem notifies_refl (hw : Watched m c) : Notifies m c c :=
  notifies_of_frame hw rfl rfl rfl rfl [] (List.append_nil _).symm rfl

theorem handleClose_notifies (hw : Watched m c) (h : c.handleClose = .ok c') :
    Notifies m c c' := by
  obtain ⟨u, -, hc⟩ := bind_ok.mp h
  cases hc
  refine notifies_of_frame hw rfl rfl rfl rfl
    [.connectionCallback (c.setState .kDisconnected).connected, .closeCallback] ?_ rfl
  simp [callConnectionCallback, emit, setState, connected]

theorem handleRead_notifies (hw : Watched m c) {r : ReadResult} (h : c.handleRead r = .ok c') :
    Notifies m c c' := by
  obtain ⟨⟨n, input⟩, -, hc⟩ := bind_ok.mp h
  have hin : Watched m { c with inputBuffer := input } := ⟨hw.1, hw.2, hw.3⟩
  cases n with
  | error errno =>
    cases hc
    exact notifies_of_frame hw rfl rfl rfl rfl [] (List.append_nil _).symm rfl
  | ok n =>
    by_cases hn : n > 0
    · simp only [hn, if_true] at hc
      cases hc
      exact notifies_of_frame hw rfl rfl rfl rfl [.messageCallback] rfl rfl
    · simp only [hn, if_false] at hc
      obtain ⟨hw', es, he, hq⟩ := handleClose_notifies hin hc
      exact ⟨hw', es, he, hq.from rfl⟩

theorem bufferRemaining_notifies (hi : c.outputBuffer.Valid) (hw : Watched m c)
    {rest : List Byte} (hl : rest.length ≤ maxSize) (hne : rest.length ≠ 0)
    (h : c.bufferRemaining rest = .ok c') : Notifies m c c' := by
  have happend : ∀ {output : Buffer}, c.outputBuffer.append rest = .ok output →
      output.readableBytes = size c+rest.length := by
    intro output ho
    obtain ⟨hv, hc, -⟩ := (append_spec hi (fits_of_le_maxSize hi hl)).ok ho
    rw [← length_contents hv, hc, List.length_append, length_contents hi]
    rfl
  unfold bufferRemaining at h
  simp only [hw.highWater, hw.mark, and_true] at h
  by_cases hm : c.outputBuffer.readableBytes+rest.length ≥ m ∧ c.outputBuffer.readableBytes < m
  · simp only [if_pos hm] at h
    obtain ⟨output, ho, heq⟩ := bind_ok.mp h
    have hsize := happend ho
    have hhigh : ∀ d : TCPConnection, d.outputBuffer = output →
        Queues m c d [.highWaterMarkCallback (c.outputBuffer.readableBytes+rest.length)] := by
      intro d hd
      have hds : size d = c.outputBuffer.readableBytes+rest.length := by rw [size, hd, hsize, size]
      rw [← hds]
      exact .highWater ⟨hm.2, by rw [hds]; exact hm.1⟩
    cases heq
    split_ifs
    all_goals exact ⟨⟨hw.1, hw.2, hw.3⟩, [.queueInLoop _], rfl, hhigh _ rfl⟩
  · simp only [if_neg hm] at h
    obtain ⟨output, ho, heq⟩ := bind_ok.mp h
    have hsize := happend ho
    have hnone : ∀ d : TCPConnection, d.outputBuffer = output → Queues m c d [] := by
      intro d hd
      have hds : size d = size c+rest.length := by rw [size, hd, hsize]
      refine .nothing (fun hr => hm ⟨?_, hr.1⟩) (fun hd => ?_)
      · rw [ge_iff_le, ← size, ← hds]
        exact hr.2
      · have := hd.2
        omega
    cases heq
    split_ifs
    all_goals exact ⟨⟨hw.1, hw.2, hw.3⟩, [], (List.append_nil _).symm, hnone _ rfl⟩

theorem writeDirectly_notices (hw : Watched m c) (data : List Byte) (w : WriteResult) :
    ∃ (fs : List ConnFunctor) (nwrote : ℕ) (faultError : Bool),
      c.writeDirectly data w = ({ c.accept data nwrote with
        effects := c.effects ++ fs.map .queueInLoop }, nwrote, faultError) ∧
      (fs = [] ∨ fs = [.writeCompleteCallback] ∧ size c = 0 ∧ data.length-nwrote = 0) := by
  unfold writeDirectly
  by_cases hd : c.canWriteDirectly = true
  · rw [if_pos hd]
    have hzero : size c = 0 := by
      simp only [canWriteDirectly, Bool.and_eq_true, decide_eq_true_eq] at hd
      exact hd.2
    cases w with
    | accepted k =>
      by_cases hall : data.length-min k data.length = 0
      · refine ⟨[.writeCompleteCallback], min k data.length, false, ?_, Or.inr ⟨rfl, hzero, hall⟩⟩
        have hset : (c.accept data (min k data.length)).writeCompleteCallback = true :=
          hw.writeComplete
        simp only [hall, if_true, queueWriteComplete_of hset]
        rfl
      · refine ⟨[], min k data.length, false, ?_, Or.inl rfl⟩
        simp [hall, accept]
    | failed errno => exact ⟨[], 0, isFault errno, by simp [accept], Or.inl rfl⟩
  · rw [if_neg hd]
    exact ⟨[], 0, false, by simp [accept], Or.inl rfl⟩

theorem sendInLoop_notifies (hi : OutputInv c) (hw : Watched m c) {message : Message}
    {w : WriteResult} (h : c.sendInLoop message w = .ok c') : Notifies m c c' := by
  unfold sendInLoop at h
  by_cases hd : c.state = .kDisconnected
  · rw [if_pos hd] at h
    cases h
    exact notifies_refl hw
  rw [if_neg hd] at h
  obtain ⟨fs, nwrote, faultError, hc, hfs⟩ := writeDirectly_notices hw message.bytes w
  have hrem : message.bytes.length-nwrote ≤ message.bytes.length := Nat.sub_le _ _
  simp only [hc, assertThat_of hrem, ok_bind] at h
  by_cases hb : (!faultError && decide (message.bytes.length-nwrote > 0)) = true
  · rw [if_pos hb] at h
    simp only [Bool.and_eq_true, decide_eq_true_eq] at hb
    -- something remains, so the direct write has queued nothing
    have hnil : fs = [] := by
      rcases hfs with hn | ⟨-, -, hz⟩
      · exact hn
      · omega
    subst hnil
    have hlen : (message.bytes.drop nwrote).length ≤ maxSize := by
      have := message.fits
      rw [List.length_drop]
      omega
    have hne : (message.bytes.drop nwrote).length ≠ 0 := by
      rw [List.length_drop]
      omega
    rw [List.map_nil, List.append_nil] at h
    obtain ⟨hw', es, he, hq⟩ := bufferRemaining_notifies (c := c.accept message.bytes nwrote)
      hi.output ⟨hw.1, hw.2, hw.3⟩ hlen hne h
    exact ⟨hw', es, he, hq.from rfl⟩
  · rw [if_neg hb] at h
    cases h
    refine ⟨⟨hw.1, hw.2, hw.3⟩, fs.map .queueInLoop, rfl, ?_⟩
    rcases hfs with rfl | ⟨rfl, hz, -⟩
    · exact queues_of_size rfl
    · exact .writeComplete hd hz

theorem drained_notifies {d : TCPConnection} (hw : Watched m d) (he : d.effects = c.effects)
    (hup : d.state ≠ .kDisconnected) (hz : size d = 0) :
    Notifies m c (if d.queueWriteComplete.state = .kDisconnecting then
      d.queueWriteComplete.shutdownInLoop else d.queueWriteComplete) := by
  rw [queueWriteComplete_of hw.writeComplete]
  have hemit : Notifies m c (d.emit (.queueInLoop .writeCompleteCallback)) :=
    ⟨⟨hw.1, hw.2, hw.3⟩, [.queueInLoop .writeCompleteCallback], by rw [emit, he],
      .writeComplete hup hz⟩
  unfold shutdownInLoop
  split_ifs
  · exact hemit
  · exact ⟨⟨hw.1, hw.2, hw.3⟩, [.queueInLoop .writeCompleteCallback],
      by rw [shutdownWrite, emit, he], .writeComplete hup hz⟩
  · exact hemit

theorem handleWrite_notifies (hi : OutputInv c) (hw : Watched m c) {w : WriteResult}
    (h : c.handleWrite w = .ok c') : Notifies m c c' := by
  unfold handleWrite at h
  by_cases hwr : c.channel.isWriting = true
  swap
  · rw [if_neg hwr] at h
    cases h
    exact notifies_refl hw
  have hup : c.state ≠ .kDisconnected := by
    intro hd
    simp [hi.off hd] at hwr
  rw [if_pos hwr, toStringPiece_spec hi.output, ok_bind] at h
  cases w with
  | failed errno =>
    cases h
    exact notifies_refl hw
  | accepted k =>
    by_cases hn : min k c.outputBuffer.contents.length > 0
    swap
    · simp only [hn, if_false] at h
      cases h
      exact notifies_refl hw
    simp only [hn, if_true] at h
    obtain ⟨output, hr, heq⟩ := bind_ok.mp h
    have hle : min k c.outputBuffer.contents.length ≤ c.outputBuffer.readableBytes := by
      rw [← length_contents hi.output]
      exact Nat.min_le_right _ _
    obtain ⟨b, hb, hv, hc, -⟩ := retrieve_spec hi.output hle
    cases hb.symm.trans hr
    -- a write never makes the buffer larger
    have hless : output.readableBytes ≤ size c := by
      rw [← length_contents hv, hc, List.length_drop, length_contents hi.output]
      exact Nat.sub_le _ _
    by_cases hz : output.readableBytes = 0
    · simp only [hz, if_true] at heq
      cases heq
      exact drained_notifies ⟨hw.1, hw.2, hw.3⟩ rfl hup hz
    · simp only [hz, if_false] at heq
      cases heq
      refine ⟨⟨hw.1, hw.2, hw.3⟩, [], (List.append_nil _).symm, .nothing ?_ (fun hd => hz hd.2)⟩
      intro hrise
      have h₁ := hrise.1
      have h₂ : m ≤ output.readableBytes := hrise.2
      omega

theorem call_notifies (hi : OutputInv c) (hw : Watched m c) {a : Call}
    (h : c.call a = .ok c') : Notifies m c c' := by
  cases a with
  | sendInLoop message w => exact sendInLoop_notifies hi hw h
  | send message w =>
    by_cases hc : c.state = .kConnected
    · simp only [call, send, hc, if_true] at h
      exact sendInLoop_notifies hi hw h
    · simp only [call, send, hc, if_false] at h
      cases h
      exact notifies_refl hw
  | shutdown =>
    cases h
    unfold shutdown shutdownInLoop
    split_ifs
    all_goals exact notifies_of_frame hw rfl rfl rfl rfl [] (List.append_nil _).symm rfl
  | forceClose =>
    cases h
    unfold forceClose
    split_ifs
    · exact notifies_of_frame hw rfl rfl rfl rfl [.queueInLoop .forceCloseInLoop] rfl rfl
    · exact notifies_refl hw
  | forceCloseWithDelay delay =>
    cases h
    unfold forceCloseWithDelay
    split_ifs
    · exact notifies_of_frame hw rfl rfl rfl rfl [.forceCloseAfter delay] rfl rfl
    · exact notifies_refl hw
  | forceCloseInLoop =>
    simp only [call, forceCloseInLoop] at h
    split_ifs at h
    · exact handleClose_notifies hw h
    · cases h
      exact notifies_refl hw
  | startRead =>
    cases h
    unfold startReadInLoop
    split_ifs
    all_goals exact notifies_of_frame hw rfl rfl rfl rfl [] (List.append_nil _).symm rfl
  | stopRead =>
    cases h
    unfold stopReadInLoop
    split_ifs
    all_goals exact notifies_of_frame hw rfl rfl rfl rfl [] (List.append_nil _).symm rfl
  | handleRead r => exact handleRead_notifies hw h
  | handleWrite w => exact handleWrite_notifies hi hw h
  | handleClose => exact handleClose_notifies hw h
  | handleError =>
    cases h
    exact notifies_refl hw
  | takeInput len =>
    obtain ⟨input, -, heq⟩ := bind_ok.mp h
    cases heq
    exact notifies_of_frame hw rfl rfl rfl rfl [] (List.append_nil _).symm rfl

end Calls

section Runs
variable {m : ℕ} {c c' : TCPConnection}

structure Watching (m : ℕ) (c : TCPConnection) : Prop where
  inv : OutputInv c
  watched : Watched m c

theorem call_watching (h : Watching m c) {a : Call} (ha : c.call a = .ok c') :
    Watching m c' ∧ c.effects <+: c'.effects ∧ Queues m c c' (notices c c') := by
  obtain ⟨hw, es, he, hq⟩ := call_notifies h.inv h.watched ha
  refine ⟨⟨((call_moves h.inv a).ok ha).inv, hw⟩, ⟨es, he.symm⟩, ?_⟩
  rwa [notices, he, List.drop_left]

theorem run_watching (h : Watching m c) {calls : List Call} (hr : run call c calls = .ok c') :
    Watching m c' ∧ c.effects <+: c'.effects := by
  induction calls generalizing c with
  | nil =>
    cases hr
    exact ⟨h, List.prefix_rfl⟩
  | cons a as ih =>
    obtain ⟨d, hd, ht⟩ := run_cons_ok.mp hr
    obtain ⟨hd', he, -⟩ := call_watching h hd
    obtain ⟨ht', he'⟩ := ih hd' ht
    exact ⟨ht', he.trans he'⟩

theorem notices_append {d : TCPConnection} (h : c.effects <+: d.effects)
    (h' : d.effects <+: c'.effects) : notices c c' = notices c d ++ notices d c' := by
  obtain ⟨es, he⟩ := h
  obtain ⟨fs, hf⟩ := h'
  rw [← he] at hf
  simp only [notices, ← he, ← hf, List.append_assoc, List.drop_left, List.filterMap_append]
  rw [← List.append_assoc, List.drop_left]

theorem undrained_run (h : Watching m c) {calls : List Call} (hr : run call c calls = .ok c')
    (hne : ∀ ps d, ps <+: calls → ps ≠ [] → run call c ps = .ok d → size d ≠ 0) :
    ConnFunctor.writeCompleteCallback ∉ notices c c' := by
  induction calls generalizing c with
  | nil =>
    cases hr
    simp [notices]
  | cons a as ih =>
    obtain ⟨d, hd, ht⟩ := run_cons_ok.mp hr
    obtain ⟨hd', he, hq⟩ := call_watching h hd
    have hnd : size d ≠ 0 := hne [a] d (List.cons_prefix_cons.mpr ⟨rfl, List.nil_prefix⟩)
      (List.cons_ne_nil _ _) (run_cons_ok.mpr ⟨d, hd, rfl⟩)
    rw [notices_append he (run_watching hd' ht).2, List.mem_append, not_or]
    constructor
    · generalize notices c d = fs at hq
      cases hq with
      | nothing => exact List.not_mem_nil
      | highWater => simp
      | writeComplete _ hz => exact absurd hz hnd
    · refine ih hd' ht (fun ps e hp hn hrun => ?_)
      exact hne (a::ps) e (List.cons_prefix_cons.mpr ⟨rfl, hp⟩) (List.cons_ne_nil _ _)
        (run_cons_ok.mpr ⟨d, hd, hrun⟩)

theorem Queues.highWater_iff {fs : List ConnFunctor} (h : Queues m c c' fs) :
    fs.filterMap highWaterSize = if Rises m c c' then [size c'] else [] := by
  cases h with
  | nothing h₁ => rw [if_neg h₁]; rfl
  | highWater h₁ => rw [if_pos h₁]; rfl
  | writeComplete _ hz =>
    have hn : ¬Rises m c c' := by
      intro hr
      have h₁ := hr.1
      have h₂ := hr.2
      omega
    rw [if_neg hn]
    rfl

theorem Queues.drained {fs : List ConnFunctor} (h : Queues m c c' fs) (hne : size c ≠ 0)
    (hz : size c' = 0) : fs = [.writeCompleteCallback] := by
  cases h with
  | nothing _ h₂ => exact absurd ⟨hne, hz⟩ h₂
  | highWater h₁ =>
    have h₂ := h₁.1
    have h₃ := h₁.2
    omega
  | writeComplete => rfl

theorem Queues.complete {fs : List ConnFunctor} (h : Queues m c c' fs)
    (hf : ConnFunctor.writeCompleteCallback ∈ fs) :
    c'.state ≠ .kDisconnected ∧ size c' = 0 := by
  cases h with
  | nothing => exact absurd hf List.not_mem_nil
  | highWater => simp at hf
  | writeComplete h₁ h₂ => exact ⟨h₁, h₂⟩

theorem Queues.rises {fs : List ConnFunctor} (h : Queues m c c' fs) {n : ℕ}
    (hf : ConnFunctor.highWaterMarkCallback n ∈ fs) : Rises m c c' := by
  cases h with
  | nothing => exact absurd hf List.not_mem_nil
  | highWater h₁ => exact h₁
  | writeComplete => simp at hf

theorem established_watching {sockfd : ℕ}
    (h : construct sockfd true true m >>= connectEstablished = .ok c) : Watching m c := by
  refine ⟨((established_spec sockfd m true true).ok h).1, ?_⟩
  obtain ⟨c₀, h₀, h₁⟩ := bind_ok.mp h
  obtain ⟨input, -, h₀⟩ := bind_ok.mp h₀
  obtain ⟨output, -, h₀⟩ := bind_ok.mp h₀
  cases h₀
  obtain ⟨u, -, h₁⟩ := bind_ok.mp h₁
  cases h₁
  exact ⟨rfl, rfl, rfl⟩

end Runs

/-- The call queues a high-water callback. -/
def QueuesHighWater (c c' : TCPConnection) : Prop :=
  ∃ n, ConnFunctor.highWaterMarkCallback n ∈ notices c c'

/-- Every run of a connection with both callbacks and the mark `m`, and any
call `a` in it. A high-water callback is queued exactly if `a` takes the buffer
from below the mark to the mark or above, with the new size; write-complete is
queued only if all that was accepted is in the kernel's hands. Between two
calls that queue high water the buffer has been below the mark, and from the
first of them to the call that empties the buffer write-complete is queued
once, by that call. -/
theorem notifications_bracket (sockfd m : ℕ) (c c₁ c₂ : TCPConnection) (calls : List Call)
    (a : Call) (hc : construct sockfd true true m >>= connectEstablished = .ok c)
    (hr : run call c calls = .ok c₁) (ha : c₁.call a = .ok c₂) :
    ((notices c₁ c₂).filterMap highWaterSize = if Rises m c₁ c₂ then [size c₂] else []) ∧
    (ConnFunctor.writeCompleteCallback ∈ notices c₁ c₂ →
      c₂.outputBuffer.contents = [] ∧ c₂.socket.wire = kept c (calls ++ [a])) ∧
    ∀ (bs : List Call) (b : Call) (c₃ c₄ : TCPConnection), run call c₂ bs = .ok c₃ →
      c₃.call b = .ok c₄ → QueuesHighWater c₁ c₂ →
      (QueuesHighWater c₃ c₄ → ∃ ps d, ps <+: bs ∧ run call c₂ ps = .ok d ∧ size d < m) ∧
      (size c₄ = 0 →
        (∀ ps d, ps <+: bs → ps ≠ [] → run call c₂ ps = .ok d → size d ≠ 0) →
        (notices c₁ c₄).count .writeCompleteCallback = 1 ∧
        notices c₃ c₄ = [.writeCompleteCallback]) := by
  have hestablished := established_watching hc
  obtain ⟨h₁, -⟩ := run_watching hestablished hr
  obtain ⟨h₂, he₂, hq₂⟩ := call_watching h₁ ha
  refine ⟨hq₂.highWater_iff, fun hm => ?_, fun bs b c₃ c₄ hbs hb ⟨n, hn⟩ => ?_⟩
  · obtain ⟨hup, hz⟩ := hq₂.complete hm
    have hnil := (contents_eq_nil_iff h₂.inv.output).mpr hz
    obtain ⟨hi, hstart, -⟩ := (established_spec sockfd m true true).ok hc
    have hstream := (run_moves hi (run_snoc_ok.mpr ⟨c₁, hr, ha⟩)).stream_eq hup
    rw [stream, stream, hnil, List.append_nil] at hstream
    rw [stream] at hstart
    exact ⟨hnil, by rw [hstream, hstart, List.nil_append]⟩
  obtain ⟨h₃, he₃⟩ := run_watching h₂ hbs
  obtain ⟨-, he₄, hq₄⟩ := call_watching h₃ hb
  have hrise := hq₂.rises hn
  refine ⟨fun ⟨n', hn'⟩ => ⟨bs, c₃, List.prefix_rfl, hbs, (hq₄.rises hn').1⟩, fun hz hne => ?_⟩
  have hpos : size c₂ ≠ 0 := by
    have := hrise.1
    have := hrise.2
    omega
  have hpos₃ : size c₃ ≠ 0 := by
    by_cases hnil : bs = []
    · rw [hnil] at hbs
      cases hbs
      exact hpos
    · exact hne bs c₃ List.prefix_rfl hnil hbs
  have hlast := hq₄.drained hpos₃ hz
  have hfirst : ConnFunctor.writeCompleteCallback ∉ notices c₁ c₂ :=
    fun hm => hpos (hq₂.complete hm).2
  have hmid := undrained_run h₂ hbs hne
  refine ⟨?_, hlast⟩
  rw [notices_append he₂ (he₃.trans he₄), notices_append he₃ he₄, hlast, List.count_append,
    List.count_append, List.count_eq_zero.mpr hfirst, List.count_eq_zero.mpr hmid]
  rfl

/-- A message of four bytes crosses the mark of three, and two writes empty the
buffer again. -/
theorem notifications_bracket_relay :
    ∃ c c₁ c₃ c₄, construct 5 true true 3 >>= connectEstablished = .ok c ∧
      c.call (.sendInLoop ⟨[72,105,33,10], by decide⟩ (.accepted 0)) = .ok c₁ ∧
      run call c₁ [.handleWrite (.accepted 1)] = .ok c₃ ∧
      c₃.call (.handleWrite (.accepted 9)) = .ok c₄ ∧
      (notices c c₁).filterMap highWaterSize = [4] ∧
      (notices c c₄).count .writeCompleteCallback = 1 := by
  have hrun : ((construct 5 true true 3 >>= connectEstablished) >>= fun c =>
      c.call (.sendInLoop ⟨[72,105,33,10], by decide⟩ (.accepted 0)) >>= fun c₁ =>
      run call c₁ [.handleWrite (.accepted 1)] >>= fun c₃ =>
      (fun c₄ => (decide (Rises 3 c c₁), size c₁, notices c c₁, size c₃, size c₄)) <$>
        c₃.call (.handleWrite (.accepted 9))) =
      .ok (true, 4, [.highWaterMarkCallback 4], 3, 0) := by decide +kernel
  obtain ⟨c, hc, hrun⟩ := bind_ok.mp hrun
  obtain ⟨c₁, h₁, hrun⟩ := bind_ok.mp hrun
  obtain ⟨c₃, h₃, hrun⟩ := bind_ok.mp hrun
  obtain ⟨c₄, h₄, hp⟩ := map_ok.mp hrun
  simp only [Prod.mk.injEq, decide_eq_true_eq] at hp
  obtain ⟨hrise, hs₁, hn, hs₃, hs₄⟩ := hp
  have h := notifications_bracket 5 3 c c c₁ []
    (.sendInLoop ⟨[72,105,33,10], by decide⟩ (.accepted 0)) hc rfl h₁
  have hfirst := h.1
  rw [if_pos hrise, hs₁] at hfirst
  have hhigh : QueuesHighWater c c₁ := ⟨4, by rw [hn]; exact List.mem_singleton_self _⟩
  refine ⟨c, c₁, c₃, c₄, hc, h₁, h₃, h₄, hfirst, ?_⟩
  refine ((h.2.2 _ _ c₃ c₄ h₃ h₄ hhigh).2 hs₄ (fun ps d hp hne hd => ?_)).1
  cases ps with
  | nil => exact absurd rfl hne
  | cons p ps =>
    obtain ⟨rfl, hps⟩ := List.cons_prefix_cons.mp hp
    rw [List.prefix_nil.mp hps] at hd
    cases hd.symm.trans h₃
    rw [hs₃]
    decide

end Lux.Polaris.OutputStream

import LuxPolaris.OutputStream
import LuxPolaris.TCPServer

/-!
# The states of one connection

What each call and each handler does to the state, to the interest of the
channel and to the callbacks made, when it succeeds: it either keeps the
connection up (or down) and calls nobody, or it closes it.
-/

set_option autoImplicit false

namespace Lux.Polaris.TCPConnection
open Outcome OutputStream

def Up (c : TCPConnection) : Prop := c.state = .kConnected ∨ c.state = .kDisconnecting

instance (c : TCPConnection) : Decidable c.Up := inferInstanceAs (Decidable (_ ∨ _))

structure Down (c : TCPConnection) : Prop where
  state : c.state = .kDisconnected
  events : c.channel.isNoneEvent = true

/-- An effect that neither `connectionCallback_` nor `closeCallback_` sees. -/
def Quiet : Effect → Prop
  | .connectionCallback _ => False
  | .closeCallback => False
  | _ => True

structure Listening (c : TCPConnection) : Prop where
  reading : c.channel.isReading = true
  index : c.channel.index = .kAdded

structure Keeps (c c' : TCPConnection) : Prop where
  up : c.Up → c'.Up
  listening : c.Listening → c'.Listening
  down : c.state = .kDisconnected → c'.state = .kDisconnected ∧ c'.channel = c.channel
  quiet : ∃ es, c'.effects = c.effects ++ es ∧ ∀ e ∈ es, Quiet e

structure Closes (c c' : TCPConnection) : Prop where
  up : c.Up
  down : c'.Down
  index : c.channel.index = .kAdded → c'.channel.index = .kDeleted
  effects : c'.effects = c.effects ++ [.connectionCallback false, .closeCallback]

theorem keeps_refl (c : TCPConnection) : Keeps c c :=
  ⟨id, id, fun h => ⟨h, rfl⟩, [], (List.append_nil _).symm, nofun⟩

theorem Keeps.trans {a b c : TCPConnection} (h : Keeps a b) (k : Keeps b c) : Keeps a c := by
  refine ⟨fun hu => k.up (h.up hu), fun hl => k.listening (h.listening hl), ?_, ?_⟩
  · intro hd
    obtain ⟨hb, hbc⟩ := h.down hd
    obtain ⟨hc, hcc⟩ := k.down hb
    exact ⟨hc, hcc.trans hbc⟩
  · obtain ⟨es, he, hq⟩ := h.quiet
    obtain ⟨fs, hf, hr⟩ := k.quiet
    refine ⟨es ++ fs, by rw [hf, he, List.append_assoc], fun e hm => ?_⟩
    exact (List.mem_append.mp hm).elim (hq e) (hr e)

theorem Keeps.down_settled {c c' : TCPConnection} (hk : Keeps c c') (hd : c.Down) :
    Down { c' with effects := [] } ∧ c'.channel = c.channel := by
  obtain ⟨hs, hc⟩ := hk.down hd.state
  exact ⟨⟨hs, by rw [hc]; exact hd.events⟩, hc⟩

theorem keeps_of_functors {c c' : TCPConnection} (hs : c'.state = c.state)
    (hc : c'.channel = c.channel) (fs : List ConnFunctor)
    (he : c'.effects = c.effects ++ fs.map .queueInLoop) : Keeps c c' := by
  refine ⟨fun hu => ?_, fun hl => ?_, fun hd => ⟨hs.trans hd, hc⟩, _, he, fun e hm => ?_⟩
  · rw [Up, hs]
    exact hu
  · exact ⟨hc ▸ hl.reading, hc ▸ hl.index⟩
  · obtain ⟨f, -, rfl⟩ := List.mem_map.mp hm
    trivial

theorem index_of_interest {c : Channel} {e : Events} (h : e ≠ kNoneEvent) :
    (Channel.update { c with events := e }).index = .kAdded :=
  Channel.update_index_of_interest _ (decide_eq_false h)

theorem not_down_of_up {c : TCPConnection} (h : c.Up) : c.state ≠ .kDisconnected := by
  intro hd
  rcases h with h | h
  · exact nomatch hd.symm.trans h
  · exact nomatch hd.symm.trans h

section Calls

theorem bufferRemaining_cases {c c' : TCPConnection} {rest : List Byte}
    (h : c.bufferRemaining rest = .ok c') :
    ∃ (fs : List ConnFunctor) (output : Buffer), c.outputBuffer.append rest = .ok output ∧
      c' = { c with
        channel := if c.channel.isWriting then c.channel else c.channel.enableWriting
        outputBuffer := output
        effects := c.effects ++ fs.map .queueInLoop } := by
  unfold bufferRemaining at h
  by_cases hm : c.outputBuffer.readableBytes+rest.length ≥ c.highWaterMark ∧
      c.outputBuffer.readableBytes < c.highWaterMark ∧ c.highWaterMarkCallback = true
  · simp only [if_pos hm] at h
    obtain ⟨output, ho, heq⟩ := bind_ok.mp h
    refine ⟨[.highWaterMarkCallback (c.outputBuffer.readableBytes+rest.length)], output, ho, ?_⟩
    cases heq
    cases hw : c.channel.isWriting <;> simp [emit, hw]
  · simp only [if_neg hm] at h
    obtain ⟨output, ho, heq⟩ := bind_ok.mp h
    refine ⟨[], output, ho, ?_⟩
    cases heq
    cases c.channel.isWriting <;> simp

theorem sendInLoop_cases {c c' : TCPConnection} {message : Message} {w : WriteResult}
    (h : c.sendInLoop message w = .ok c') :
    c.state = .kDisconnected ∧ c' = c ∨
    c.state ≠ .kDisconnected ∧ ∃ (fs : List ConnFunctor) (nwrote : ℕ),
      (c' = { c.accept message.bytes nwrote with effects := c.effects ++ fs.map .queueInLoop } ∨
       bufferRemaining { c.accept message.bytes nwrote with
          effects := c.effects ++ fs.map .queueInLoop } (message.bytes.drop nwrote) = .ok c') := by
  unfold sendInLoop at h
  by_cases hd : c.state = .kDisconnected
  · rw [if_pos hd] at h
    cases h
    exact Or.inl ⟨hd, rfl⟩
  · rw [if_neg hd] at h
    obtain ⟨fs, nwrote, faultError, hw, -⟩ := writeDirectly_spec c message.bytes w
    have hrem : message.bytes.length-nwrote ≤ message.bytes.length := Nat.sub_le _ _
    simp only [hw, assertThat_of hrem, ok_bind] at h
    refine Or.inr ⟨hd, fs, nwrote, ?_⟩
    split_ifs at h
    · exact Or.inr h
    · cases h
      exact Or.inl rfl

theorem bufferRemaining_keeps {c c' : TCPConnection} {rest : List Byte}
    (hd : c.state ≠ .kDisconnected) (h : c.bufferRemaining rest = .ok c') : Keeps c c' := by
  obtain ⟨fs, output, -, rfl⟩ := bufferRemaining_cases h
  refine ⟨id, fun hl => ?_, fun hk => absurd hk hd, _, rfl, fun e he => ?_⟩
  · have hwrite : Listening { c with channel := c.channel.enableWriting } :=
      ⟨hl.reading, index_of_interest (by simp [kNoneEvent])⟩
    by_cases hw : c.channel.isWriting = true
    · simp only [hw, if_true]
      exact ⟨hl.reading, hl.index⟩
    · simp only [hw, Bool.false_eq_true, if_false]
      exact ⟨hwrite.reading, hwrite.index⟩
  · obtain ⟨f, -, rfl⟩ := List.mem_map.mp he
    trivial

theorem sendInLoop_keeps {c c' : TCPConnection} {message : Message} {w : WriteResult}
    (h : c.sendInLoop message w = .ok c') : Keeps c c' := by
  rcases sendInLoop_cases h with ⟨-, rfl⟩ | ⟨hd, fs, nwrote, hc⟩
  · exact keeps_refl _
  · have hwrite : Keeps c { c.accept message.bytes nwrote with
        effects := c.effects ++ fs.map .queueInLoop } := keeps_of_functors rfl rfl fs rfl
    rcases hc with rfl | hc
    · exact hwrite
    · exact hwrite.trans (bufferRemaining_keeps hd hc)

theorem send_keeps {c c' : TCPConnection} {message : Message} {w : WriteResult}
    (h : c.send message w = .ok c') : Keeps c c' := by
  unfold send at h
  split_ifs at h
  · exact sendInLoop_keeps h
  · cases h
    exact keeps_refl c

theorem shutdownInLoop_keeps (c : TCPConnection) : Keeps c c.shutdownInLoop := by
  unfold shutdownInLoop
  split_ifs
  · exact keeps_refl c
  · exact keeps_of_functors rfl rfl [] (List.append_nil _).symm

theorem disconnecting_keeps {c : TCPConnection} (h : c.Up) : Keeps c (c.setState .kDisconnecting) :=
  ⟨fun _ => Or.inr rfl, fun hl => ⟨hl.reading, hl.index⟩,
    fun hd => absurd hd (not_down_of_up h), [], (List.append_nil _).symm, nofun⟩

theorem emit_keeps (c : TCPConnection) {e : Effect} (h : Quiet e) : Keeps c (c.emit e) :=
  ⟨id, fun hl => ⟨hl.reading, hl.index⟩, fun hd => ⟨hd, rfl⟩, [e], rfl,
    fun _ he => List.mem_singleton.mp he ▸ h⟩

theorem shutdown_keeps (c : TCPConnection) : Keeps c c.shutdown := by
  unfold shutdown
  split_ifs with h
  · exact (disconnecting_keeps (Or.inl h)).trans (shutdownInLoop_keeps _)
  · exact keeps_refl c

theorem forceClose_keeps (c : TCPConnection) : Keeps c c.forceClose := by
  unfold forceClose
  split_ifs with h
  · exact (disconnecting_keeps h).trans (emit_keeps _ trivial)
  · exact keeps_refl c

theorem forceCloseWithDelay_keeps (c : TCPConnection) (delay : Seconds) :
    Keeps c (c.forceCloseWithDelay delay) := by
  unfold forceCloseWithDelay
  split_ifs with h
  · exact (disconnecting_keeps h).trans (emit_keeps _ trivial)
  · exact keeps_refl c

theorem userCall_keeps {c c' : TCPConnection} {a : Call} (ha : c.UserCall a)
    (h : c.call a = .ok c') : Keeps c c' := by
  cases a with
  | send message w => exact send_keeps h
  | shutdown =>
    cases h
    exact shutdown_keeps c
  | forceClose =>
    cases h
    exact forceClose_keeps c
  | forceCloseWithDelay delay =>
    cases h
    exact forceCloseWithDelay_keeps c delay
  | takeInput len =>
    obtain ⟨input, -, heq⟩ := bind_ok.mp h
    cases heq
    exact keeps_of_functors rfl rfl [] (List.append_nil _).symm
  | sendInLoop _ _ => exact ha.elim
  | forceCloseInLoop => exact ha.elim
  | startRead => exact ha.elim
  | stopRead => exact ha.elim
  | handleRead _ => exact ha.elim
  | handleWrite _ => exact ha.elim
  | handleClose => exact ha.elim
  | handleError => exact ha.elim

theorem userCall_yields {c : TCPConnection} (hi : OutputInv c) {a : Call} (ha : c.UserCall a) :
    Yields (c.call a) (fun c' => Keeps c c' ∧ OutputInv c') (· = .lengthError) := by
  have hmoves := call_moves hi a
  cases hr : c.call a with
  | ok c' => exact (yields_ok _ _ _).mpr ⟨userCall_keeps ha hr, (hmoves.ok hr).inv⟩
  | error e =>
    refine (yields_error _ _ _).mpr ?_
    have hfail := hmoves.error hr
    cases a with
    | send message w => exact hfail
    | takeInput len => exact absurd ha hfail
    | shutdown => exact hfail.elim
    | forceClose => exact hfail.elim
    | forceCloseWithDelay _ => exact hfail.elim
    | sendInLoop _ _ => exact ha.elim
    | forceCloseInLoop => exact ha.elim
    | startRead => exact ha.elim
    | stopRead => exact ha.elim
    | handleRead _ => exact ha.elim
    | handleWrite _ => exact ha.elim
    | handleClose => exact ha.elim
    | handleError => exact ha.elim

end Calls

theorem connectEstablished_of {c : TCPConnection} (hi : OutputInv c)
    (hs : c.state = .kConnecting) :
    ∃ c', c.connectEstablished = .ok c' ∧ OutputInv c' ∧ c'.Up ∧ c'.Listening ∧
      c'.effects = c.effects ++ [.connectionCallback true] := by
  have hne : c.state ≠ .kDisconnected := by simp [hs]
  refine ⟨{ c.setState .kConnected with
    channel := c.channel.enableReading }.callConnectionCallback, ?_, ?_, Or.inl rfl, ⟨rfl, ?_⟩, rfl⟩
  · rw [connectEstablished, assertThat_of hs]
    rfl
  · exact ⟨hi.input, hi.output, fun _ => hi.interest hne, fun h => (by cases h), hi.drained⟩
  · exact index_of_interest (by simp [kNoneEvent])

section Handlers

theorem handleClose_closes {c c' : TCPConnection} (h : c.handleClose = .ok c') : Closes c c' := by
  obtain ⟨u, hu, heq⟩ := bind_ok.mp h
  cases heq
  exact ⟨assertThat_ok.mp hu, ⟨rfl, by simp [Channel.isNoneEvent, emit, callConnectionCallback]⟩,
    Channel.disableAll_index _, by simp [emit, callConnectionCallback, connected, setState]⟩

theorem forceCloseInLoop_states {c c' : TCPConnection} (h : c.forceCloseInLoop = .ok c') :
    Keeps c c' ∨ Closes c c' := by
  unfold forceCloseInLoop at h
  split_ifs at h
  · exact Or.inr (handleClose_closes h)
  · cases h
    exact Or.inl (keeps_refl c)

theorem handleRead_states {c c' : TCPConnection} {r : Buffer.ReadResult}
    (h : c.handleRead r = .ok c') : Keeps c c' ∨ Closes c c' := by
  obtain ⟨⟨n, input⟩, -, heq⟩ := bind_ok.mp h
  have hin : Keeps c { c with inputBuffer := input } :=
    keeps_of_functors rfl rfl [] (List.append_nil _).symm
  cases n with
  | error errno =>
    cases heq
    exact Or.inl hin
  | ok n =>
    by_cases hn : n > 0
    · simp only [hn, if_true] at heq
      cases heq
      exact Or.inl (hin.trans (emit_keeps _ trivial))
    · simp only [hn, if_false] at heq
      have hc := handleClose_closes heq
      exact Or.inr ⟨hc.up, hc.down, hc.index, hc.effects⟩

/-- A write event does nothing, takes some bytes out of the buffer, or empties
it: then the write interest goes, and a half-close that waited for it is done. -/
theorem handleWrite_cases {c c' : TCPConnection} {w : WriteResult}
    (h : c.handleWrite w = .ok c') :
    c' = c ∧ (c.channel.isWriting = true → ∀ k data, w = .accepted k →
      c.outputBuffer.toStringPiece = .ok data → min k data.length = 0) ∨
    c.channel.isWriting = true ∧ ∃ (data : List Byte) (k : ℕ) (output : Buffer),
      w = .accepted k ∧ c.outputBuffer.toStringPiece = .ok data ∧ 0 < min k data.length ∧
      c.outputBuffer.retrieve (min k data.length) = .ok output ∧
      (output.readableBytes ≠ 0 ∧
        c' = { c.accept data (min k data.length) with outputBuffer := output } ∨
       output.readableBytes = 0 ∧ ∃ (fs : List ConnFunctor) (d : TCPConnection),
        d = { c.accept data (min k data.length) with
          outputBuffer := output
          channel := c.channel.disableWriting
          effects := c.effects ++ fs.map .queueInLoop } ∧
        c' = if c.state = .kDisconnecting then d.shutdownWrite else d) := by
  unfold handleWrite at h
  by_cases hw : c.channel.isWriting = true
  swap
  · rw [if_neg hw] at h
    cases h
    exact Or.inl ⟨rfl, fun h => absurd h hw⟩
  rw [if_pos hw] at h
  obtain ⟨data, hdata, heq⟩ := bind_ok.mp h
  cases w with
  | failed errno =>
    cases heq
    exact Or.inl ⟨rfl, fun _ _ _ h => nomatch h⟩
  | accepted k =>
    by_cases hn : min k data.length > 0
    swap
    · simp only [hn, if_false] at heq
      cases heq
      refine Or.inl ⟨rfl, fun _ k' data' hk hdata' => ?_⟩
      cases hk
      cases hdata.symm.trans hdata'
      exact Nat.eq_zero_of_not_pos hn
    simp only [hn, if_true] at heq
    obtain ⟨output, hout, hrest⟩ := bind_ok.mp heq
    refine Or.inr ⟨hw, data, k, output, rfl, hdata, hn, hout, ?_⟩
    by_cases hz : output.readableBytes = 0
    · simp only [hz, if_true] at hrest
      obtain ⟨fs, he⟩ := queueWriteComplete_eq { c.accept data (min k data.length) with
        outputBuffer := output
        channel := (c.accept data (min k data.length)).channel.disableWriting }
      refine Or.inr ⟨hz, fs, _, rfl, ?_⟩
      dsimp only at he
      rw [he] at hrest
      cases hrest
      rfl
    · simp only [hz, if_false] at hrest
      cases hrest
      exact Or.inl ⟨hz, rfl⟩

theorem handleWrite_keeps {c c' : TCPConnection} (hi : OutputInv c) {w : WriteResult}
    (h : c.handleWrite w = .ok c') : Keeps c c' := by
  rcases handleWrite_cases h with ⟨rfl, -⟩ | ⟨hw, data, k, output, -, -, -, -, hc⟩
  · exact keeps_refl _
  have hup : c.state ≠ .kDisconnected := by
    intro hd
    simp [hi.off hd] at hw
  rcases hc with ⟨-, rfl⟩ | ⟨-, fs, d, rfl, rfl⟩
  · exact keeps_of_functors rfl rfl [] (List.append_nil _).symm
  -- the channel after the write that empties the buffer
  have hdrained : Keeps c { c.accept data (min k data.length) with
      outputBuffer := output
      channel := c.channel.disableWriting
      effects := c.effects ++ fs.map .queueInLoop } := by
    refine ⟨id, fun hl => ⟨hl.reading, index_of_interest (fun h => ?_)⟩,
      fun hd => absurd hd hup, _, rfl, fun e he => ?_⟩
    · have hread := hl.reading
      rw [Channel.isReading, congrArg Events.read h] at hread
      cases hread
    · obtain ⟨f, -, rfl⟩ := List.mem_map.mp he
      trivial
  split_ifs
  · exact hdrained.trans (keeps_of_functors rfl rfl [] (List.append_nil _).symm)
  · exact hdrained

theorem handleCallback_states {c c' : TCPConnection} (hi : OutputInv c) {r : Buffer.ReadResult}
    {w : WriteResult} {cb : Callback} (h : c.handleCallback r w cb = .ok c') :
    Keeps c c' ∨ Closes c c' := by
  cases cb with
  | close => exact Or.inr (handleClose_closes h)
  | error =>
    cases h
    exact Or.inl (keeps_refl c)
  | read => exact handleRead_states h
  | write => exact Or.inl (handleWrite_keeps hi h)

theorem handleCallback_closes {c c' : TCPConnection} (hi : OutputInv c) {r : Buffer.ReadResult}
    {w : WriteResult} {cb : Callback} (h : c.handleCallback r w cb = .ok c') (hk : Closes c c') :
    cb = .close ∨ cb = .read := by
  cases cb with
  | close => exact Or.inl rfl
  | read => exact Or.inr rfl
  | error =>
    cases h
    exact absurd hk.down.state (not_down_of_up hk.up)
  | write => exact absurd hk.down.state (not_down_of_up ((handleWrite_keeps hi h).up hk.up))

theorem handleRead_keeps {c : TCPConnection} (hi : OutputInv c) {r : Buffer.ReadResult}
    (hr : r ≠ .read []) : Yields (c.handleRead r) (Keeps c) (· = .lengthError) := by
  have hin : ∀ input, Keeps c { c with inputBuffer := input } :=
    fun input => keeps_of_functors rfl rfl [] (List.append_nil _).symm
  unfold handleRead
  rw [yields_bind]
  apply (Buffer.readFd_spec hi.input r).imp
  rintro ⟨n, input⟩ ⟨-, hp⟩
  cases r with
  | failed errno =>
    cases hp
    exact (yields_pure _ _ _).mpr (hin c.inputBuffer)
  | read bytes =>
    -- a read of some bytes stores at least one
    have hpos : 0 < (bytes.take c.inputBuffer.iovLength).length :=
      Buffer.length_take_iovLength_pos _ (fun h => hr (congrArg _ h))
    obtain ⟨hn, -⟩ := hp
    dsimp only at hn
    subst hn
    simp only [if_pos hpos]
    exact (yields_pure _ _ _).mpr ((hin input).trans (emit_keeps _ trivial))

theorem handleRead_fault {c : TCPConnection} (hi : OutputInv c) {r : Buffer.ReadResult}
    {e : Fault} (h : c.handleRead r = .error e) :
    e = .lengthError ∨ r = .read [] ∧ ¬c.Up := by
  by_cases hr : r = .read []
  · exact ((handleRead_moves hi r).error h).imp_right (fun hup => ⟨hr, hup⟩)
  · exact Or.inl ((handleRead_keeps hi hr).error h)

theorem handleClose_down {c : TCPConnection} (hd : c.state = .kDisconnected) :
    ∃ expr, c.handleClose = .error (.assertion expr) := by
  have hup : ¬(c.state = .kConnected ∨ c.state = .kDisconnecting) := by simp [hd]
  exact ⟨_, by rw [handleClose, assertThat_of_not hup]; rfl⟩

theorem handleRead_nil {c : TCPConnection} (hi : OutputInv c) :
    ∃ input, input.Valid ∧
      c.handleRead (.read []) = handleClose { c with inputBuffer := input } := by
  have hfit : c.inputBuffer.writerIndex+([] : List Byte).length ≤ c.inputBuffer.buffer.length :=
    hi.input.writer_le
  have hread : ∃ input, c.inputBuffer.readFd (.read []) = .ok (.ok 0, input) := by
    simp only [Buffer.readFd, List.take_nil, Buffer.store_of hfit, ok_bind, List.length_nil,
      Nat.zero_le, if_true]
    exact ⟨_, rfl⟩
  obtain ⟨input, hread⟩ := hread
  have hv := ((Buffer.readFd_spec hi.input (.read [])).ok hread).1
  exact ⟨input, hv, by rw [handleRead, hread]; rfl⟩

theorem handleRead_eof {c : TCPConnection} (hi : OutputInv c) (hd : c.state = .kDisconnected) :
    ∃ expr, c.handleRead (.read []) = .error (.assertion expr) := by
  obtain ⟨input, -, heq⟩ := handleRead_nil hi
  rw [heq]
  exact handleClose_down hd

/-- A callback fails for want of memory, or because the connection is closed a
second time. -/
theorem handleCallback_fault {c : TCPConnection} (hi : OutputInv c) {r : Buffer.ReadResult}
    {w : WriteResult} {cb : Callback} {e : Fault} (h : c.handleCallback r w cb = .error e) :
    e = .lengthError ∨ (cb = .close ∨ cb = .read ∧ r = .read []) ∧ ¬c.Up := by
  cases cb with
  | close => exact Or.inr ⟨Or.inl rfl, (handleClose_moves hi).error h⟩
  | error => cases h
  | read =>
    rcases handleRead_fault hi h with he | ⟨hr, hup⟩
    · exact Or.inl he
    · exact Or.inr ⟨Or.inr ⟨rfl, hr⟩, hup⟩
  | write => exact ((handleWrite_moves hi w).error h).elim

theorem handleCallback_inv {c c' : TCPConnection} (hi : OutputInv c) {r : Buffer.ReadResult}
    {w : WriteResult} {cb : Callback} (h : c.handleCallback r w cb = .ok c') : OutputInv c' := by
  cases cb with
  | close => exact ((handleClose_moves hi).ok h).inv
  | error =>
    cases h
    exact hi
  | read => exact ((handleRead_moves hi r).ok h).inv
  | write => exact ((handleWrite_moves hi w).ok h).inv

end Handlers

section Teardown

structure Gone (c : TCPConnection) : Prop where
  down : c.Down
  index : c.channel.index = .kNew
  addedToLoop : c.channel.addedToLoop = false

def removed (c : TCPConnection) : Except Fault TCPConnection :=
  c.channel.remove >>= fun channel => .ok { c with channel := channel }

theorem removed_of {c : TCPConnection} (hi : OutputInv c) (hd : c.Down)
    (hk : c.channel.index ≠ .kNew) :
    ∃ c', c.removed = .ok c' ∧ c'.Gone ∧ OutputInv c' ∧ c'.effects = c.effects := by
  refine ⟨{ c with channel := { c.channel with addedToLoop := false, index := .kNew } }, ?_,
    ⟨⟨hd.state, hd.events⟩, rfl, rfl⟩, ?_, rfl⟩
  · rw [removed, Channel.remove, assertThat_of hd.events, assertThat_of hk]
    rfl
  · exact ⟨hi.input, hi.output, hi.interest, hi.off, hi.drained⟩

def disconnected (c : TCPConnection) : TCPConnection :=
  { c.setState .kDisconnected with channel := c.channel.disableAll }.callConnectionCallback

theorem connectDestroyed_connected {c : TCPConnection} (hi : OutputInv c)
    (hc : c.state = .kConnected) : ∃ c', c.connectDestroyed = .ok c' ∧ c'.Gone ∧ OutputInv c' ∧
      c'.effects = c.effects ++ [.connectionCallback false] := by
  have hdown : c.disconnected.Down := ⟨rfl, by simp [disconnected, callConnectionCallback, emit,
    Channel.isNoneEvent]⟩
  have hmoves : Moves c [] c.disconnected := moves_of_disconnected hi rfl rfl rfl rfl rfl
  obtain ⟨c', hok, hgone, hinv, he⟩ := removed_of hmoves.inv hdown (Channel.update_index_ne_new _)
  refine ⟨c', ?_, hgone, hinv, ?_⟩
  · rw [connectDestroyed, if_pos hc]
    exact hok
  · rw [he]
    rfl

theorem connectDestroyed_down {c : TCPConnection} (hi : OutputInv c) (hd : c.Down)
    (hk : c.channel.index ≠ .kNew) :
    ∃ c', c.connectDestroyed = .ok c' ∧ c'.Gone ∧ OutputInv c' ∧ c'.effects = c.effects := by
  obtain ⟨c', hok, h⟩ := removed_of hi hd hk
  have hne : ¬c.state = .kConnected := by simp [hd.state]
  refine ⟨c', ?_, h⟩
  rw [connectDestroyed, if_neg hne]
  exact hok

theorem connectDestroyed_disconnecting {c : TCPConnection} (hs : c.state = .kDisconnecting)
    (hr : c.channel.isReading = true) :
    c.connectDestroyed = .error (.assertion "isNoneEvent()") := by
  have hn : ¬c.channel.isNoneEvent = true := by
    intro h
    have he : c.channel.events = kNoneEvent := of_decide_eq_true h
    rw [Channel.isReading, he] at hr
    cases hr
  have hne : ¬c.state = .kConnected := by simp [hs]
  rw [connectDestroyed, if_neg hne, Channel.remove, assertThat_of_not hn]
  rfl

end Teardown

end Lux.Polaris.TCPConnection

import LuxPolaris.InputStream
import LuxPolaris.ConnectionOutput

/-!
# Two connections at the ends of one TCP stream

The peer of a connection runs the same library, as the echo client and the
echo server do. Each end keeps the history of what its program sent and took.
The kernel carries what one end has written to the other, in order, and
answers a read with nothing only when the writing end is finished and
everything on the wire has been read.
-/

set_option autoImplicit false

namespace Lux.Polaris.ConnectionPair
open Outcome Buffer TCPConnection OutputStream InputStream

inductive Side where
  | client
  | server
  deriving DecidableEq, Repr

def Side.other : Side → Side
  | .client => .server
  | .server => .client

@[simp] theorem Side.other_other (s : Side) : s.other.other = s := by cases s <;> rfl

@[simp] theorem Side.other_ne (s : Side) : s.other ≠ s := by
  cases s with
  | client => decide
  | server => decide

theorem Side.eq_or (s t : Side) : t = s ∨ t = s.other := by
  cases s <;> cases t <;> simp [Side.other]

/-- A connection with its history: what the program has sent through it, what
the kernel has handed over, what the program has taken of that, and whether
the end of the stream was read. -/
structure Endpoint where
  conn : TCPConnection
  sent : List Byte
  delivered : List Byte
  taken : List Byte
  ended : Bool

/-- How the kernel answers the write of a call, and what it has for a read. -/
def writeResult : Call → Option WriteResult
  | .sendInLoop _ w => some w
  | .send _ w => some w
  | .handleWrite w => some w
  | _ => none

def readBytes : Call → Option (List Byte)
  | .handleRead (.read bytes) => some bytes
  | _ => none

namespace Endpoint

def wire (e : Endpoint) : List Byte := e.conn.socket.wire

def got (e : Endpoint) : List Byte := e.taken ++ e.conn.inputBuffer.contents

def Finished (e : Endpoint) : Prop :=
  e.conn.socket.shutdowns ≠ [] ∨ e.conn.state = .kDisconnected

instance (e : Endpoint) : Decidable e.Finished := inferInstanceAs (Decidable (_ ∨ _))

def established (c : TCPConnection) : Endpoint where
  conn := c
  sent := []
  delivered := []
  taken := []
  ended := false

def step (e : Endpoint) (a : Call) : Except Fault Endpoint := do
  let c ← e.conn.call a
  return {
    conn := c
    sent := e.sent ++ keptBy e.conn a
    delivered := e.delivered ++ (chunksOf e.conn a).flatten
    taken := e.taken ++ takenBy e.conn a
    ended := e.ended || readBytes a = some [] }

end Endpoint

abbrev Pair := Side → Endpoint

def step (p : Pair) (a : Side × Call) : Except Fault Pair := do
  let e ← (p a.1).step a.2
  return Function.update p a.1 e

def Refuses (c : TCPConnection) (w : WriteResult) : Prop :=
  c.socket.shutdowns ≠ [] → w = .failed EPIPE ∨ w = .failed ECONNRESET

instance (c : TCPConnection) (w : WriteResult) : Decidable (Refuses c w) :=
  inferInstanceAs (Decidable (_ → _))

/-- What `e` reads lies next on the wire of its peer `q`. -/
def Delivers (e q : Endpoint) (bytes : List Byte) : Prop :=
  if bytes = [] then e.delivered = q.wire ∧ q.Finished
  else e.delivered ++ e.conn.inputBuffer.received (.read bytes) <+: q.wire

instance (e q : Endpoint) (bytes : List Byte) : Decidable (Delivers e q bytes) :=
  inferInstanceAs (Decidable (if bytes = [] then e.delivered = q.wire ∧ q.Finished
    else e.delivered ++ e.conn.inputBuffer.received (.read bytes) <+: q.wire))

structure Kernel (p : Pair) (a : Side × Call) : Prop where
  writes : ∀ w ∈ writeResult a.2, Refuses (p a.1).conn w
  reads : ∀ bytes ∈ readBytes a.2, Delivers (p a.1) (p a.1.other) bytes

instance (p : Pair) (a : Side × Call) : Decidable (Kernel p a) :=
  decidable_of_iff ((∀ w ∈ writeResult a.2, Refuses (p a.1).conn w) ∧
    ∀ bytes ∈ readBytes a.2, Delivers (p a.1) (p a.1.other) bytes)
    ⟨fun h => ⟨h.1, h.2⟩, fun h => ⟨h.writes, h.reads⟩⟩

section Output
variable {c c' : TCPConnection}

/-- The wire only grows, a half-close leaves nothing buffered, and an end that
is down afterwards has been left alone. -/
structure Extends (c c' : TCPConnection) : Prop where
  wire : c.socket.wire <+: c'.socket.wire
  shut : c'.socket.shutdowns ≠ c.socket.shutdowns → c'.outputBuffer.contents = []
  down : c'.state = .kDisconnected → c'.socket = c.socket

theorem extends_of_same (h : SameOutput c c') : Extends c c' := by
  have hw : c'.socket.wire = c.socket.wire := congrArg Socket.wire h.1
  have hs : c'.socket.shutdowns = c.socket.shutdowns := congrArg Socket.shutdowns h.1
  exact ⟨hw ▸ List.prefix_refl _, fun hne => absurd hs hne, fun _ => h.1⟩

theorem startReadInLoop_output (c : TCPConnection) : SameOutput c c.startReadInLoop := by
  unfold startReadInLoop
  split_ifs
  · exact ⟨rfl, rfl⟩
  · exact ⟨rfl, rfl⟩

theorem stopReadInLoop_output (c : TCPConnection) : SameOutput c c.stopReadInLoop := by
  unfold stopReadInLoop
  split_ifs
  · exact ⟨rfl, rfl⟩
  · exact ⟨rfl, rfl⟩

theorem forceClose_output (c : TCPConnection) : SameOutput c c.forceClose := by
  unfold forceClose
  split_ifs
  · exact ⟨rfl, rfl⟩
  · exact ⟨rfl, rfl⟩

theorem forceCloseWithDelay_output (c : TCPConnection) (delay : Seconds) :
    SameOutput c (c.forceCloseWithDelay delay) := by
  unfold forceCloseWithDelay
  split_ifs
  · exact ⟨rfl, rfl⟩
  · exact ⟨rfl, rfl⟩

theorem forceCloseInLoop_output (h : c.forceCloseInLoop = .ok c') : SameOutput c c' := by
  unfold forceCloseInLoop at h
  split_ifs at h
  · exact (handleClose_cases h).2
  · cases h
    exact ⟨rfl, rfl⟩

theorem handleRead_output (hi : OutputInv c) {r : ReadResult} (h : c.handleRead r = .ok c') :
    SameOutput c c' := by
  by_cases hr : r = .read []
  · exact (closing_cases hi (a := .handleRead r) hr h).2
  · exact (handleRead_same hi hr h).2

theorem takeInput_output {len : ℕ} (h : c.call (.takeInput len) = .ok c') : SameOutput c c' := by
  obtain ⟨input, -, heq⟩ := bind_ok.mp h
  cases heq
  exact ⟨rfl, rfl⟩

theorem sendInLoop_extends {message : Message} {w : WriteResult}
    (h : c.sendInLoop message w = .ok c') : Extends c c' := by
  rcases sendInLoop_cases h with ⟨-, rfl⟩ | ⟨hd, fs, nwrote, rfl | hc⟩
  · exact extends_of_same ⟨rfl, rfl⟩
  · exact ⟨List.prefix_append _ _, fun hne => absurd rfl hne, fun h => absurd h hd⟩
  · obtain ⟨gs, output, -, rfl⟩ := bufferRemaining_cases hc
    exact ⟨List.prefix_append _ _, fun hne => absurd rfl hne, fun h => absurd h hd⟩

theorem shutdown_extends (hi : OutputInv c) : Extends c c.shutdown := by
  unfold shutdown shutdownInLoop
  split_ifs with hs hw
  · exact extends_of_same ⟨rfl, rfl⟩
  · have hup : c.state ≠ .kDisconnected := by simp [hs]
    have hnil : c.outputBuffer.contents = [] := by
      by_contra hne
      exact hw ((hi.interest hup).mpr hne)
    exact ⟨List.prefix_refl _, fun _ => hnil, fun h => by simp [shutdownWrite, setState] at h⟩
  · exact extends_of_same ⟨rfl, rfl⟩

theorem handleWrite_extends (hi : OutputInv c) {w : WriteResult}
    (h : c.handleWrite w = .ok c') : Extends c c' := by
  obtain ⟨hstate, hshut⟩ := handleWrite_shutdowns hi h
  refine ⟨?_, fun hne => ?_, fun hd => ?_⟩
  · rcases handleWrite_cases h with ⟨rfl, -⟩ | ⟨-, data, k, output, -, -, -, -, hc⟩
    · exact List.prefix_refl _
    · rcases hc with ⟨-, rfl⟩ | ⟨-, fs, d, rfl, rfl⟩
      · exact List.prefix_append _ _
      · split_ifs
        · exact List.prefix_append _ _
        · exact List.prefix_append _ _
  · rcases hshut with ⟨-, -, hnil⟩ | ⟨-, hsame⟩
    · exact hnil
    · exact absurd hsame hne
  · -- without write interest nothing happens
    have hoff := hi.off (hstate.symm.trans hd)
    rcases handleWrite_cases h with ⟨rfl, -⟩ | ⟨hw, -⟩
    · rfl
    · simp [hoff] at hw

theorem call_extends (hi : OutputInv c) {a : Call} (h : c.call a = .ok c') : Extends c c' := by
  cases a with
  | sendInLoop message w => exact sendInLoop_extends h
  | send message w =>
    unfold call send at h
    split_ifs at h
    · exact sendInLoop_extends h
    · cases h
      exact extends_of_same ⟨rfl, rfl⟩
  | shutdown =>
    cases h
    exact shutdown_extends hi
  | forceClose =>
    cases h
    exact extends_of_same (forceClose_output c)
  | forceCloseWithDelay delay =>
    cases h
    exact extends_of_same (forceCloseWithDelay_output c delay)
  | forceCloseInLoop => exact extends_of_same (forceCloseInLoop_output h)
  | startRead =>
    cases h
    exact extends_of_same (startReadInLoop_output c)
  | stopRead =>
    cases h
    exact extends_of_same (stopReadInLoop_output c)
  | handleRead r => exact extends_of_same (handleRead_output hi h)
  | handleWrite w => exact handleWrite_extends hi h
  | handleClose => exact extends_of_same (handleClose_cases h).2
  | handleError =>
    cases h
    exact extends_of_same ⟨rfl, rfl⟩
  | takeInput len => exact extends_of_same (takeInput_output h)

theorem sendInLoop_refused {message : Message} {w : WriteResult}
    (hd : Dropped c w) (h : c.sendInLoop message w = .ok c') : SameOutput c c' := by
  unfold sendInLoop at h
  by_cases hs : c.state = .kDisconnected
  · rw [if_pos hs] at h
    cases h
    exact ⟨rfl, rfl⟩
  · rw [if_neg hs] at h
    obtain ⟨fs, nwrote, faultError, hw, -, -, hfault, hzero⟩ :=
      writeDirectly_spec c message.bytes w
    have htrue := hfault.mpr hd
    have hz := hzero htrue
    subst htrue hz
    simp only [hw, assertThat_of (Nat.sub_le _ _), ok_bind] at h
    cases h
    refine ⟨?_, rfl⟩
    simp [accept]

theorem dropped_of_refuses (hi : OutputInv c) (hs : c.socket.shutdowns ≠ [])
    (ho : c.outputBuffer.contents = []) {w : WriteResult} (hw : Refuses c w) : Dropped c w := by
  have hoff : c.channel.isWriting = false := by
    by_cases hd : c.state = .kDisconnected
    · exact hi.off hd
    · rw [← Bool.not_eq_true, hi.interest hd]
      exact fun h => h ho
  have hzero := (contents_eq_nil_iff hi.output).mp ho
  exact ⟨by simp [canWriteDirectly, hoff, hzero], hw hs⟩

theorem call_frozen (hi : OutputInv c) (hs : c.socket.shutdowns ≠ [])
    (ho : c.outputBuffer.contents = []) {a : Call} (hw : ∀ w ∈ writeResult a, Refuses c w)
    (h : c.call a = .ok c') :
    c'.socket.wire = c.socket.wire ∧ c'.socket.shutdowns ≠ [] ∧
      c'.outputBuffer.contents = [] ∧ keptBy c a = [] := by
  have hkeep : SameOutput c c' → keptBy c a = [] → c'.socket.wire = c.socket.wire ∧
      c'.socket.shutdowns ≠ [] ∧ c'.outputBuffer.contents = [] ∧ keptBy c a = [] := by
    rintro ⟨hso, hou⟩ hk
    rw [hso, hou]
    exact ⟨rfl, hs, ho, hk⟩
  cases a with
  | sendInLoop message w =>
    have hd := dropped_of_refuses hi hs ho (hw w rfl)
    exact hkeep (sendInLoop_refused hd h) (by simp [keptBy, hd])
  | send message w =>
    have hd := dropped_of_refuses hi hs ho (hw w rfl)
    refine hkeep ?_ (by simp [keptBy, hd])
    unfold call send at h
    split_ifs at h
    · exact sendInLoop_refused hd h
    · cases h
      exact ⟨rfl, rfl⟩
  | shutdown =>
    cases h
    unfold shutdown shutdownInLoop
    split_ifs
    · exact ⟨rfl, hs, ho, rfl⟩
    · exact ⟨rfl, by simp [shutdownWrite], ho, rfl⟩
    · exact ⟨rfl, hs, ho, rfl⟩
  | forceClose =>
    cases h
    exact hkeep (forceClose_output c) rfl
  | forceCloseWithDelay delay =>
    cases h
    exact hkeep (forceCloseWithDelay_output c delay) rfl
  | forceCloseInLoop => exact hkeep (forceCloseInLoop_output h) rfl
  | startRead =>
    cases h
    exact hkeep (startReadInLoop_output c) rfl
  | stopRead =>
    cases h
    exact hkeep (stopReadInLoop_output c) rfl
  | handleRead r => exact hkeep (handleRead_output hi h) rfl
  | handleWrite w =>
    rcases handleWrite_cases h with ⟨rfl, -⟩ | ⟨hw, -⟩
    · exact ⟨rfl, hs, ho, rfl⟩
    · have hd := (dropped_of_refuses hi hs ho (w := .failed EPIPE) (fun _ => Or.inl rfl)).1
      simp [canWriteDirectly, hw] at hd
  | handleClose => exact hkeep (handleClose_cases h).2 rfl
  | handleError =>
    cases h
    exact ⟨rfl, hs, ho, rfl⟩
  | takeInput len => exact hkeep (takeInput_output h) rfl

end Output

namespace Endpoint
variable {e e' q q' : Endpoint}

/-- What holds of one end by itself. -/
structure Inv (e : Endpoint) : Prop where
  output : OutputInv e.conn
  got_eq : e.got = e.delivered
  wire_in_sent : e.wire <+: e.sent
  up : e.conn.state ≠ .kDisconnected → stream e.conn = e.sent
  shut : e.conn.socket.shutdowns ≠ [] → e.conn.outputBuffer.contents = [] ∧ e.wire = e.sent

/-- What the end `e` has read lies on the wire of its peer `q`, and the end of
the stream came behind all of it. -/
structure Carries (q e : Endpoint) : Prop where
  delivered_in_wire : e.delivered <+: q.wire
  ended : e.ended = true → e.delivered = q.wire ∧ q.Finished

theorem step_ok {a : Call} (h : e.step a = .ok e') : ∃ c, e.conn.call a = .ok c ∧ e' = {
    conn := c
    sent := e.sent ++ keptBy e.conn a
    delivered := e.delivered ++ (chunksOf e.conn a).flatten
    taken := e.taken ++ takenBy e.conn a
    ended := e.ended || readBytes a = some [] } := by
  obtain ⟨c, hc, heq⟩ := bind_ok.mp h
  cases heq
  exact ⟨c, hc, rfl⟩

theorem step_inv (hi : e.Inv) {a : Call} (hw : ∀ w ∈ writeResult a, Refuses e.conn w)
    (h : e.step a = .ok e') : e'.Inv := by
  obtain ⟨c, hc, rfl⟩ := step_ok h
  have hm := (call_moves hi.output a).ok hc
  have hx := call_extends hi.output hc
  have hup : c.state ≠ .kDisconnected → stream c = e.sent ++ keptBy e.conn a := by
    intro hs
    rw [hm.stream_eq hs, hi.up (hm.up hs)]
  have hwire : c.socket.wire <+: e.sent ++ keptBy e.conn a := by
    by_cases hs : c.state = .kDisconnected
    · rw [hx.down hs]
      exact hi.wire_in_sent.trans (List.prefix_append _ _)
    · rw [← hup hs]
      exact List.prefix_append _ _
  refine ⟨hm.inv, ?_, hwire, hup, fun hs => ?_⟩
  · have hr := (call_receives hi.output hc).contents_eq
    calc (e.taken ++ takenBy e.conn a) ++ c.inputBuffer.contents
        = e.taken ++ (e.conn.inputBuffer.contents ++ (chunksOf e.conn a).flatten) := by
            rw [List.append_assoc, hr]
      _ = e.delivered ++ (chunksOf e.conn a).flatten := by
            rw [← List.append_assoc]
            exact congrArg (· ++ _) hi.got_eq
  · by_cases hold : e.conn.socket.shutdowns = []
    · -- the half-close is new: the end is up and nothing is buffered
      have hne : c.socket.shutdowns ≠ e.conn.socket.shutdowns := by rwa [hold]
      have hnil := hx.shut hne
      have hs' : c.state ≠ .kDisconnected := fun hd => hne (by rw [hx.down hd])
      refine ⟨hnil, ?_⟩
      have hst := hup hs'
      rwa [stream, hnil, List.append_nil] at hst
    · obtain ⟨ho, hws⟩ := hi.shut hold
      obtain ⟨hwe, -, hnil, hk⟩ := call_frozen hi.output hold ho hw hc
      refine ⟨hnil, ?_⟩
      change c.socket.wire = _
      rw [hwe, hk, List.append_nil]
      exact hws

theorem step_finished (hi : e.Inv) (hf : e.Finished) {a : Call}
    (hw : ∀ w ∈ writeResult a, Refuses e.conn w) (h : e.step a = .ok e') :
    e'.Finished ∧ e'.wire = e.wire := by
  obtain ⟨c, hc, rfl⟩ := step_ok h
  rcases hf with hs | hd
  · obtain ⟨hwe, hs', -⟩ := call_frozen hi.output hs (hi.shut hs).1 hw hc
    exact ⟨Or.inl hs', hwe⟩
  · have hd' : c.state = .kDisconnected := by
      by_contra hne
      exact ((call_moves hi.output a).ok hc).up hne hd
    refine ⟨Or.inr hd', ?_⟩
    change c.socket.wire = _
    rw [(call_extends hi.output hc).down hd']
    rfl

theorem step_carries (hi : q.Inv) (hc : Carries q e) {a : Call}
    (hw : ∀ w ∈ writeResult a, Refuses q.conn w) (h : q.step a = .ok q') : Carries q' e := by
  refine ⟨?_, fun he => ?_⟩
  · obtain ⟨c, hq, rfl⟩ := step_ok h
    exact hc.delivered_in_wire.trans (call_extends hi.output hq).wire
  · obtain ⟨hd, hf⟩ := hc.ended he
    obtain ⟨hf', hwire⟩ := step_finished hi hf hw h
    exact ⟨by rw [hwire, hd], hf'⟩

theorem chunksOf_of_readBytes {c : TCPConnection} {a : Call} (h : readBytes a = none) :
    chunksOf c a = [] := by
  cases a with
  | handleRead r =>
    cases r with
    | read bytes => cases h
    | failed errno => simp [chunksOf, received]
  | _ => rfl

theorem chunksOf_read (c : TCPConnection) (bytes : List Byte) :
    (chunksOf c (.handleRead (.read bytes))).flatten = c.inputBuffer.received (.read bytes) := by
  rw [chunksOf]
  split_ifs with h
  · rw [h]
    rfl
  · simp

theorem readBytes_eq_some {a : Call} {bytes : List Byte} (h : readBytes a = some bytes) :
    a = .handleRead (.read bytes) := by
  cases a with
  | handleRead r =>
    cases r with
    | read bs =>
      cases h
      rfl
    | failed errno => cases h
  | _ => cases h

theorem step_carried (hc : Carries q e) {a : Call} (hr : ∀ bytes ∈ readBytes a, Delivers e q bytes)
    (h : e.step a = .ok e') : Carries q e' := by
  obtain ⟨c, -, rfl⟩ := step_ok h
  cases hb : readBytes a with
  | none =>
    rw [chunksOf_of_readBytes hb, List.flatten_nil, List.append_nil]
    exact ⟨hc.delivered_in_wire, fun he => hc.ended (by simpa using he)⟩
  | some bytes =>
    have hd := hr bytes hb
    cases readBytes_eq_some hb
    rw [chunksOf_read]
    by_cases hnil : bytes = []
    · rw [Delivers, if_pos hnil] at hd
      simp only [hnil, received, List.take_nil, List.append_nil]
      exact ⟨hc.delivered_in_wire, fun _ => hd⟩
    · rw [Delivers, if_neg hnil] at hd
      refine ⟨hd, fun he => ?_⟩
      have hold : e.ended = true := by simpa [hnil] using he
      obtain ⟨heq, hf⟩ := hc.ended hold
      -- behind the end of the stream there is nothing to read
      refine ⟨hd.eq_of_length_le ?_, hf⟩
      rw [List.length_append, heq]
      exact Nat.le_add_right _ _

theorem established_inv {sockfd mark : ℕ} {writeComplete highWater : Bool} {c : TCPConnection}
    (h : construct sockfd writeComplete highWater mark >>= connectEstablished = .ok c) :
    (established c).Inv := by
  obtain ⟨hi, hs, -⟩ := (established_spec sockfd mark writeComplete highWater).ok h
  obtain ⟨hin, -⟩ := (established_input sockfd mark writeComplete highWater).ok h
  obtain ⟨hw, ho⟩ := List.append_eq_nil_iff.mp hs
  exact ⟨hi, hin, List.prefix_nil.mpr hw, fun _ => hs, fun _ => ⟨ho, hw⟩⟩

end Endpoint

/-- Both ends are sound, and each has read what the other has written. -/
structure Inv (p : Pair) : Prop where
  ends : ∀ s, (p s).Inv
  carries : ∀ s, Endpoint.Carries (p s.other) (p s)

theorem step_inv {p : Pair} {a : Side × Call} (hi : Inv p) (hk : Kernel p a) :
    Yields (step p a) Inv (fun _ => True) := by
  cases h : step p a with
  | error e => exact (yields_error _ _ _).mpr trivial
  | ok p' =>
    rw [yields_ok]
    obtain ⟨s, call⟩ := a
    obtain ⟨e, he, heq⟩ := bind_ok.mp h
    cases heq
    have hself := hi.ends s
    refine ⟨fun t => ?_, fun t => ?_⟩
    · rcases Side.eq_or s t with rfl | rfl
      · simpa using Endpoint.step_inv hself hk.writes he
      · simpa using hi.ends s.other
    · rcases Side.eq_or s t with rfl | rfl
      · simpa using Endpoint.step_carried (hi.carries t) hk.reads he
      · have hc := hi.carries s.other
        rw [Side.other_other] at hc
        simpa using Endpoint.step_carries hself hc hk.writes he

def Established (p : Pair) : Prop :=
  ∀ s, ∃ (sockfd mark : ℕ) (writeComplete highWater : Bool) (c : TCPConnection),
    construct sockfd writeComplete highWater mark >>= connectEstablished = .ok c ∧
    p s = Endpoint.established c

theorem inv_of_established {p : Pair} (h : Established p) : Inv p := by
  refine ⟨fun s => ?_, fun s => ?_⟩
  · obtain ⟨sockfd, mark, writeComplete, highWater, c, hc, hp⟩ := h s
    rw [hp]
    exact Endpoint.established_inv hc
  · obtain ⟨_, _, _, _, c, -, hp⟩ := h s
    rw [hp]
    exact ⟨List.nil_prefix, fun he => by cases he⟩

def inFlight (q e : Endpoint) : List Byte := q.wire.drop e.delivered.length

/-- Every run of the two ends: what one program has of the stream is a prefix
of what the other has sent. While the sending end is not down the rest is in
flight or in its output buffer; a program that has read the end of a
half-closed stream has all of it. -/
theorem pair_stream (p p' : Pair) (as : List (Side × Call)) (h : Established p)
    (hk : Admitted step Kernel p as) (hr : run step p as = .ok p') (s : Side) :
    (p' s).got <+: (p' s.other).sent ∧
    ((p' s.other).conn.state ≠ .kDisconnected →
      (p' s).got ++ inFlight (p' s.other) (p' s) ++ (p' s.other).conn.outputBuffer.contents =
        (p' s.other).sent) ∧
    ((p' s).ended = true → (p' s.other).conn.socket.shutdowns ≠ [] →
      (p' s).got = (p' s.other).sent) := by
  have hi : Inv p' := (run_yields Kernel (fun _ _ hi hk => step_inv hi hk) as p
    (inv_of_established h) hk).ok hr
  have hgot := (hi.ends s).got_eq
  have hpeer := hi.ends s.other
  have hcar := hi.carries s
  refine ⟨?_, fun hup => ?_, fun he hs => ?_⟩
  · rw [hgot]
    exact hcar.delivered_in_wire.trans hpeer.wire_in_sent
  · have hwire : (p' s).delivered ++ inFlight (p' s.other) (p' s) = (p' s.other).wire := by
      obtain ⟨rest, hrest⟩ := hcar.delivered_in_wire
      rw [inFlight, ← hrest, List.drop_left]
    rw [hgot, hwire]
    exact hpeer.up hup
  · rw [hgot, (hcar.ended he).1, (hpeer.shut hs).2]

def halfClosed : List (Side × Call) := [
  (.client, .send .hi (.accepted 1)),
  (.server, .handleRead (.read [72])),
  (.client, .shutdown),
  (.client, .handleWrite (.accepted 1)),
  (.server, .takeInput 1),
  (.server, .handleRead (.read [105])),
  (.server, .handleRead (.read []))]

theorem pair_stream_half_closed :
    ∃ c p', construct 5 true false 64 >>= connectEstablished = .ok c ∧
      run step (fun _ => .established c) halfClosed = .ok p' ∧
      (p' .server).ended = true ∧ (p' .server).got = [72,105] := by
  have hrun : ((construct 5 true false 64 >>= connectEstablished) >>= fun c =>
      (fun p' => (decide (Admitted step Kernel (fun _ => .established c) halfClosed),
        (p' .server).ended, (p' .client).conn.socket.shutdowns, (p' .client).sent)) <$>
        run step (fun _ => .established c) halfClosed) =
      .ok (true, true, [[]], [72,105]) := by decide +kernel
  obtain ⟨c, hc, hmap⟩ := bind_ok.mp hrun
  obtain ⟨p', hp', hp⟩ := map_ok.mp hmap
  simp only [Prod.mk.injEq, decide_eq_true_eq] at hp
  obtain ⟨hadm, hended, hshut, hsent⟩ := hp
  have h := pair_stream _ p' halfClosed (fun _ => ⟨5, 64, true, false, c, hc, rfl⟩) hadm hp' .server
  refine ⟨c, p', hc, hp', hended, ?_⟩
  rw [h.2.2 hended (by simp [Side.other, hshut])]
  exact hsent

end Lux.Polaris.ConnectionPair

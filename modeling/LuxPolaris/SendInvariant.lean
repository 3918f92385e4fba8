import LuxPolaris.ConnectionOutput
import Mathlib.Data.List.Perm.Basic

/-!
# What the threads have sent and what has become of it

For each sender, the messages accepted from it are those given to
`sendInLoop`, then those in the queue, then the one it is about to queue. The
connection moves what it is given into its stream. A half-close finds the
queue and the output buffer empty, and so does a close that a `shutdown()` on
its way could turn into one.
-/

set_option autoImplicit false

namespace Lux.Polaris

namespace SendArg
open Outcome

theorem make_of {bytes : List Byte} (h : bytes.length ≤ maxSize) :
    Message.make bytes = .ok ⟨bytes, h⟩ := dif_pos h

def Emptied (m : SendArg) (after : Option Buffer) : Prop :=
  match m, after with
  | .buffer _ _, some b => b.Valid ∧ b.contents = []
  | .buffer _ _, none => False
  | _, _ => after = none

theorem copy_of (m : SendArg) : ∃ message after, m.copy = .ok (message, after) ∧
    message.bytes = m.bytes ∧ m.Emptied after := by
  cases m with
  | data message => exact ⟨message, none, rfl, rfl, rfl⟩
  | piece message => exact ⟨message, none, rfl, rfl, rfl⟩
  | buffer b hv =>
    obtain ⟨b', hb, hv', hc, -⟩ := Buffer.retrieveAsString_spec hv (Nat.le_refl _)
    have hall : b.contents.take b.readableBytes = b.contents := by
      rw [← Buffer.length_contents hv, List.take_length]
    have hnil : b.contents.drop b.readableBytes = [] := by
      rw [← Buffer.length_contents hv, List.drop_length]
    rw [hall] at hb
    refine ⟨⟨b.contents, Buffer.contents_fit hv⟩, some b', ?_, rfl, hv', hc.trans hnil⟩
    rw [copy, Buffer.retrieveAllAsString, hb]
    simp only [ok_bind, make_of (Buffer.contents_fit hv), pure_eq_ok]

theorem inPlace_of (m : SendArg) : ∃ message after, m.inPlace = .ok (message, after) ∧
    message.bytes = m.bytes ∧ m.Emptied after := by
  cases m with
  | data message => exact ⟨message, none, rfl, rfl, rfl⟩
  | piece message => exact ⟨message, none, rfl, rfl, rfl⟩
  | buffer b hv =>
    refine ⟨⟨b.contents, Buffer.contents_fit hv⟩, some b.retrieveAll, ?_, rfl,
      Buffer.retrieveAll_valid hv, Buffer.retrieveAll_contents b⟩
    rw [inPlace, Buffer.toStringPiece_spec hv]
    simp only [ok_bind, make_of (Buffer.contents_fit hv), pure_eq_ok]

end SendArg

def ConnTask.sent {τ : Type} : ConnTask τ → Option (Sent τ)
  | .sendInLoop x message => some ⟨some x, message.bytes⟩
  | .shutdownInLoop => none

namespace ConnectionThreads
open Outcome OutputStream TCPConnection
variable {τ : Type}

def queued (s : ConnectionThreads τ) : List (Sent τ) :=
  (s.functors ++ s.pendingFunctors).filterMap ConnTask.sent

def inFlight (s : ConnectionThreads τ) : Option τ → List (Sent τ)
  | none => []
  | some x => ((s.sending x).map (fun message => ⟨some x, message.bytes⟩)).toList

def ShutdownQueued (s : ConnectionThreads τ) : Prop :=
  ∃ f ∈ s.functors ++ s.pendingFunctors, ConnTask.sent f = none

def ShutdownPending (s : ConnectionThreads τ) : Prop :=
  s.shutdown = .connected ∨ s.shutdown = .stored ∨ s.ShutdownQueued

/-- All that was given to `sendInLoop` is with the kernel, and no more is to
come. -/
structure HandedOver (s : ConnectionThreads τ) : Prop where
  queued : s.queued = []
  buffered : s.conn.outputBuffer.contents = []
  wire : s.conn.socket.wire = (s.delivered.map Sent.bytes).flatten

/-- `hand` is a message between the queue and `sendInLoop`. -/
structure Holds [DecidableEq τ] (s : ConnectionThreads τ) (hand : List (Sent τ)) : Prop where
  output : OutputInv s.conn
  ledger : ∀ k, s.accepted.filter (·.sender = k) =
    (s.delivered ++ hand ++ s.queued ++ s.inFlight k).filter (·.sender = k)
  stream_eq : s.conn.state ≠ .kDisconnected →
    stream s.conn = (s.delivered.map Sent.bytes).flatten
  buffers : ∀ e ∈ s.buffers, e.after.Valid ∧ e.after.contents = [] ∧ e.sent = e.before.contents
  quiet : s.shutdown ≠ .notCalled → ∀ x, s.sending x = none
  tasks : s.ShutdownQueued → s.shutdown = .returned
  early : s.shutdown = .notCalled ∨ s.shutdown = .connected →
    s.conn.state ≠ .kDisconnecting ∧ s.conn.socket.shutdowns = []
  late : s.shutdown = .stored ∨ s.shutdown = .returned → s.conn.state ≠ .kConnected
  half : s.conn.socket.shutdowns ≠ [] → s.HandedOver ∧ hand = []
  closed : s.conn.state = .kDisconnected → s.ShutdownPending → s.HandedOver ∧ hand = []
  onTime : s.lateWrites = 0

section Ledger

theorem not_pending {s : ConnectionThreads τ}
    (hs : s.shutdown = .notCalled ∨ s.shutdown = .returned) (hq : ¬s.ShutdownQueued) :
    ¬s.ShutdownPending := by
  rintro (h | h | h)
  · rcases hs with hs | hs
    · exact nomatch hs.symm.trans h
    · exact nomatch hs.symm.trans h
  · rcases hs with hs | hs
    · exact nomatch hs.symm.trans h
    · exact nomatch hs.symm.trans h
  · exact hq h

theorem record_eq (s : ConnectionThreads τ) {m : SendArg} {message : Message}
    {after : Option Buffer} (hm : message.bytes = m.bytes) (ha : m.Emptied after) :
    ∃ es, s.record m message after = { s with buffers := s.buffers ++ es } ∧
      ∀ e ∈ es, e.after.Valid ∧ e.after.contents = [] ∧ e.sent = e.before.contents := by
  have hnone : s.record m message none = { s with buffers := s.buffers ++ [] } := by
    rw [List.append_nil]
    cases m <;> rfl
  cases m with
  | data _ =>
    cases ha
    exact ⟨[], hnone, nofun⟩
  | piece _ =>
    cases ha
    exact ⟨[], hnone, nofun⟩
  | buffer b hv =>
    cases after with
    | none => exact ha.elim
    | some b' =>
      refine ⟨[⟨b, message.bytes, b'⟩], rfl, fun e he => ?_⟩
      rw [List.mem_singleton.mp he]
      exact ⟨ha.1, ha.2, hm⟩

theorem queued_push (s : ConnectionThreads τ) (f : ConnTask τ) :
    (s.functors ++ (s.pendingFunctors ++ [f])).filterMap ConnTask.sent =
      s.queued ++ f.sent.toList := by
  rw [← List.append_assoc, List.filterMap_append]
  cases hs : f.sent <;> simp [queued, hs]

theorem queued_sender {s : ConnectionThreads τ} {m : Sent τ} (h : m ∈ s.queued) :
    m.sender ≠ none := by
  obtain ⟨f, -, hf⟩ := List.mem_filterMap.mp h
  cases f with
  | sendInLoop x message =>
    cases hf
    exact nofun
  | shutdownInLoop => cases hf

variable [DecidableEq τ]

theorem established_holds {c : TCPConnection} (ho : OutputInv c) (hs : stream c = [])
    (hst : c.state = .kConnected) (hn : c.socket.shutdowns = []) :
    (established c : ConnectionThreads τ).Holds [] where
  output := ho
  ledger := fun k => by cases k <;> rfl
  stream_eq := fun _ => hs
  buffers := fun _ h => absurd h List.not_mem_nil
  quiet := fun h => absurd rfl h
  tasks := fun ⟨_, h, _⟩ => absurd h List.not_mem_nil
  early := fun _ => ⟨by simp [established, hst], hn⟩
  late := fun h => by simp [established] at h
  half := fun h => absurd hn h
  closed := fun h => nomatch hst.symm.trans h
  onTime := rfl

theorem established_of {sockfd mark : ℕ} {writeComplete highWater : Bool} {c : TCPConnection}
    (h : TCPConnection.construct sockfd writeComplete highWater mark >>= connectEstablished =
      .ok c) : (established c : ConnectionThreads τ).Holds [] := by
  obtain ⟨ho, hs, hst, -⟩ := (established_spec sockfd mark writeComplete highWater).ok h
  refine established_holds ho hs hst ?_
  obtain ⟨d, hd, he⟩ := bind_ok.mp h
  obtain ⟨input, -, hd⟩ := bind_ok.mp hd
  obtain ⟨output, -, hd⟩ := bind_ok.mp hd
  cases hd
  cases he
  rfl

theorem inFlight_update (s : ConnectionThreads τ) {s' : ConnectionThreads τ} {x : τ}
    {message : Option Message} (h : s'.sending = Function.update s.sending x message)
    (k : Option τ) : s'.inFlight k =
      if k = some x then (message.map (fun m => (⟨some x, m.bytes⟩ : Sent τ))).toList
      else s.inFlight k := by
  cases k with
  | none => rfl
  | some y =>
    rw [inFlight, h]
    by_cases hy : y = x
    · subst hy
      simp
    · simp [hy, inFlight]

theorem send_holds {s : ConnectionThreads τ} (hi : s.Holds []) {x : τ} {m : SendArg}
    (hx : s.sending x = none) (hn : s.shutdown = .notCalled) {message : Message}
    {after : Option Buffer} (hm : message.bytes = m.bytes) (ha : m.Emptied after)
    {t : ConnectionThreads τ} (ht : t = (s.accept (some x) message).record m message after) :
    Holds { t with sending := Function.update t.sending x (some message) } [] := by
  obtain ⟨es, he, hes⟩ := record_eq (s.accept (some x) message) hm ha
  have hfree : s.inFlight (some x) = [] := by rw [inFlight, hx]; rfl
  have hno : ¬s.ShutdownQueued := fun h => nomatch hn.symm.trans (hi.tasks h)
  obtain ⟨hst, hsh⟩ := hi.early (Or.inl hn)
  rw [ht, he]
  refine { hi with ledger := fun k => ?_, buffers := ?_, quiet := ?_, half := ?_, closed := ?_ }
  · have hk := hi.ledger k
    rw [inFlight_update s rfl]
    by_cases hkx : k = some x
    · subst hkx
      rw [hfree, List.append_nil] at hk
      simp only [accept, List.filter_append, hk, if_true]
      simp [queued]
    · have hne : ¬some x = k := fun h => hkx h.symm
      simp only [accept, List.filter_append, hk, if_neg hkx]
      simp [hne, queued]
  · intro e hm
    rcases List.mem_append.mp hm with h | h
    · exact hi.buffers e h
    · exact hes e h
  · exact fun h => absurd hn h
  · exact fun h => absurd hsh h
  · exact fun _ hp => absurd hp (not_pending (Or.inl hn) hno)

theorem queueSend_holds {s : ConnectionThreads τ} (hi : s.Holds []) {x : τ} {message : Message}
    (hx : s.sending x = some message) :
    Holds { s with
      sending := Function.update s.sending x none
      pendingFunctors := s.pendingFunctors ++ [.sendInLoop x message] } [] := by
  have hn : s.shutdown = .notCalled := by
    by_contra h
    rw [hi.quiet h x] at hx
    cases hx
  have hno : ¬s.ShutdownQueued := fun h => nomatch hn.symm.trans (hi.tasks h)
  obtain ⟨hst, hsh⟩ := hi.early (Or.inl hn)
  have hqueued : queued { s with
      sending := Function.update s.sending x none
      pendingFunctors := s.pendingFunctors ++ [ConnTask.sendInLoop x message] } =
        s.queued ++ [⟨some x, message.bytes⟩] :=
    queued_push s (.sendInLoop x message)
  have hno' : ¬ShutdownQueued { s with
      sending := Function.update s.sending x none
      pendingFunctors := s.pendingFunctors ++ [ConnTask.sendInLoop x message] } := by
    rintro ⟨f, hf, hs⟩
    rw [← List.append_assoc] at hf
    rcases List.mem_append.mp hf with h | h
    · exact hno ⟨f, h, hs⟩
    · rw [List.mem_singleton.mp h] at hs
      cases hs
  refine { hi with ledger := fun k => ?_, quiet := ?_, tasks := ?_, half := ?_, closed := ?_ }
  · have hk := hi.ledger k
    rw [hqueued, inFlight_update s rfl]
    by_cases hkx : k = some x
    · subst hkx
      rw [hk, inFlight, hx]
      simp
    · have hne : ¬some x = k := fun h => hkx h.symm
      rw [hk, if_neg hkx]
      simp [List.filter_append, hne]
  · exact fun h => absurd hn h
  · exact fun h => absurd h hno'
  · exact fun h => absurd hsh h
  · exact fun _ hp => absurd hp (not_pending (Or.inl hn) hno')

theorem accept_holds {s : ConnectionThreads τ} (hi : s.Holds []) (hn : s.shutdown = .notCalled)
    (hst : s.conn.state = .kConnected) (message : Message) :
    (s.accept none message).Holds [⟨none, message.bytes⟩] := by
  have hsh := (hi.early (Or.inl hn)).2
  refine { hi with ledger := fun k => ?_, half := ?_, closed := ?_ }
  · have hk := hi.ledger k
    rw [List.append_nil] at hk
    simp only [accept, List.filter_append, hk]
    by_cases hkn : k = none
    · subst hkn
      have hq : s.queued.filter (·.sender = none) = [] :=
        List.filter_eq_nil_iff.mpr (fun m hm => by simpa using queued_sender hm)
      have hq' : (s.accept none message).queued.filter (·.sender = none) = [] := hq
      simp only [accept] at hq'
      simp [hq, hq', inFlight]
    · have hne : ¬none = k := fun h => hkn h.symm
      simp only [hne, decide_false, Bool.false_eq_true, not_false_eq_true,
        List.filter_cons_of_neg, List.filter_nil, List.append_nil]
      rfl
  · exact fun h => absurd hsh h
  · exact fun h => nomatch hst.symm.trans h

theorem sendInLoop_holds {s : ConnectionThreads τ} {sender : Option τ} {message : Message}
    (hi : s.Holds [⟨sender, message.bytes⟩]) {w : WriteResult}
    (hw : s.conn.state ≠ .kDisconnected → Dropped s.conn w → message.bytes = []) :
    Yields (s.sendInLoop sender message w) (Holds · []) (fun _ => True) := by
  have hsh : s.conn.socket.shutdowns = [] := by
    by_contra h
    exact nomatch (hi.half h).2
  have hopen : ¬(s.conn.state = .kDisconnected ∧ s.ShutdownPending) := by
    rintro ⟨hd, hp⟩
    exact nomatch (hi.closed hd hp).2
  rw [ConnectionThreads.sendInLoop, yields_bind]
  have hm := OutputStream.sendInLoop_moves hi.output message w
  cases h : s.conn.sendInLoop message w with
  | error e => exact (yields_error _ _ _).mpr trivial
  | ok c =>
    obtain ⟨hst, hso⟩ := sendInLoop_frame h
    have hmove := hm.ok h
    rw [yields_ok, yields_pure]
    refine ⟨hmove.inv, fun k => ?_, fun hup => ?_, hi.buffers, hi.quiet, hi.tasks, fun he => ?_,
      fun hl => ?_, fun hs => ?_, fun hd hp => ?_, ?_⟩
    · rw [hi.ledger k, List.append_nil]
      rfl
    · rw [hst] at hup
      have hkept : (if Dropped s.conn w then [] else message.bytes) = message.bytes := by
        split_ifs with hd
        · rw [hw hup hd]
        · rfl
      rw [hmove.stream_eq (by rw [hst]; exact hup), hkept, hi.stream_eq hup, List.map_append,
        List.flatten_append]
      simp
    · change c.state ≠ _ ∧ c.socket.shutdowns = _
      rw [hst, hso]
      exact hi.early he
    · change c.state ≠ _
      rw [hst]
      exact hi.late hl
    · exact absurd (hso.trans hsh) hs
    · exact absurd ⟨hst.symm.trans hd, hp⟩ hopen
    · rw [countWrite, if_neg (fun h => h.2 hsh)]
      exact hi.onTime

theorem popped_holds {s : ConnectionThreads τ} (hi : s.Holds []) {f : ConnTask τ}
    {functors : List (ConnTask τ)} (hf : s.functors = f::functors) :
    Holds { s with functors := functors } f.sent.toList := by
  have hqueued : s.queued =
      f.sent.toList ++ (functors ++ s.pendingFunctors).filterMap ConnTask.sent := by
    rw [queued, hf]
    cases hs : f.sent <;> simp [hs]
  have htask : ShutdownQueued { s with functors := functors } → s.ShutdownQueued := by
    rintro ⟨g, hg, hs⟩
    exact ⟨g, by rw [hf]; exact List.mem_cons_of_mem f hg, hs⟩
  have hand : ∀ h : s.HandedOver, HandedOver { s with functors := functors } ∧
      f.sent.toList = [] := by
    intro h
    have hnil := hqueued.symm.trans h.queued
    obtain ⟨h₁, h₂⟩ := List.append_eq_nil_iff.mp hnil
    exact ⟨⟨h₂, h.buffered, h.wire⟩, h₁⟩
  refine { hi with ledger := fun k => ?_, tasks := ?_, half := ?_, closed := ?_ }
  · rw [hi.ledger k, hqueued, List.append_nil]
    simp only [List.append_assoc]
    rfl
  · exact fun h => hi.tasks (htask h)
  · exact fun h => hand (hi.half h).1
  · intro hd hp
    refine hand (hi.closed hd ?_).1
    rcases hp with h | h | h
    · exact Or.inl h
    · exact Or.inr (Or.inl h)
    · exact Or.inr (Or.inr (htask h))

theorem delivered_filter {s : ConnectionThreads τ} (hi : s.Holds []) (hq : s.queued = [])
    (hx : ∀ x, s.sending x = none) (k : Option τ) :
    s.delivered.filter (·.sender = k) = s.accepted.filter (·.sender = k) := by
  have hfree : s.inFlight k = [] := by
    cases k with
    | none => rfl
    | some x =>
      rw [inFlight, hx]
      rfl
  rw [hi.ledger k, hq, hfree]
  simp

theorem perm_of_filter {α κ : Type} [DecidableEq α] [DecidableEq κ] (f : α → κ) {l₁ l₂ : List α}
    (h : ∀ k, l₁.filter (f · = k) = l₂.filter (f · = k)) : l₁.Perm l₂ := by
  rw [List.perm_iff_count]
  intro a
  have hl : ∀ l : List α, l.count a = (l.filter (f · = f a)).count a := by
    intro l
    rw [List.count_filter]
    simp
  rw [hl l₁, hl l₂, h]

theorem delivered_perm {s : ConnectionThreads τ} (hi : s.Holds []) (hq : s.queued = [])
    (hx : ∀ x, s.sending x = none) : s.delivered.Perm s.accepted :=
  perm_of_filter Sent.sender (delivered_filter hi hq hx)

end Ledger

section HalfClose
variable [DecidableEq τ]

theorem handedOver_of {s : ConnectionThreads τ} (hi : s.Holds []) (hq : s.queued = [])
    (hup : s.conn.state ≠ .kDisconnected) (hc : s.conn.outputBuffer.contents = []) :
    s.HandedOver := by
  have hs := hi.stream_eq hup
  rw [stream, hc, List.append_nil] at hs
  exact ⟨hq, hc, hs⟩

theorem contents_of_not_writing {c : TCPConnection} (ho : OutputInv c)
    (hup : c.state ≠ .kDisconnected) (hw : c.channel.isWriting = false) :
    c.outputBuffer.contents = [] := by
  by_contra h
  rw [(ho.interest hup).mpr h] at hw
  cases hw

theorem shutdownInLoop_holds {s : ConnectionThreads τ} (hi : s.Holds [])
    (hr : s.shutdown = .returned) (hd : s.conn.state = .kDisconnected → s.HandedOver)
    (hq : s.conn.channel.isWriting = false → s.queued = []) :
    Holds { s with conn := s.conn.shutdownInLoop } [] := by
  by_cases hw : s.conn.channel.isWriting = true
  · have heq : s.conn.shutdownInLoop = s.conn := if_pos hw
    rw [heq]
    exact hi
  have hw' : s.conn.channel.isWriting = false := by simpa using hw
  have heq : s.conn.shutdownInLoop = s.conn.shutdownWrite := if_neg hw
  have hover : s.HandedOver := by
    by_cases hst : s.conn.state = .kDisconnected
    · exact hd hst
    · exact handedOver_of hi (hq hw') hst (contents_of_not_writing hi.output hst hw')
  have hover' : HandedOver { s with conn := s.conn.shutdownWrite } :=
    ⟨hover.queued, hover.buffered, hover.wire⟩
  rw [heq]
  refine { hi with output := ?_, early := ?_, half := ?_, closed := ?_ }
  · refine ⟨hi.output.input, hi.output.output, hi.output.interest, hi.output.off, ?_⟩
    intro u hu
    rcases List.mem_append.mp hu with h | h
    · exact hi.output.drained u h
    · rw [List.mem_singleton.mp h]
      exact hover.buffered
  · intro h
    rcases h with h | h
    · exact nomatch hr.symm.trans h
    · exact nomatch hr.symm.trans h
  · exact fun _ => ⟨hover', rfl⟩
  · exact fun _ _ => ⟨hover', rfl⟩

theorem not_shutdownQueued {s : ConnectionThreads τ} (hi : s.Holds [])
    (h : s.shutdown ≠ .returned) : ¬s.ShutdownQueued := fun hq => h (hi.tasks hq)

theorem testShutdown_holds {s : ConnectionThreads τ} (hi : s.Holds [])
    (hn : s.shutdown = .notCalled) (hx : ∀ x, s.sending x = none) :
    Holds { s with
      shutdown := if s.conn.state = .kConnected then .connected else .returned } [] := by
  have hno : ¬s.ShutdownQueued := not_shutdownQueued hi (by simp [hn])
  have he := hi.early (Or.inl hn)
  by_cases hst : s.conn.state = .kConnected
  · rw [if_pos hst]
    exact { hi with
      quiet := fun _ => hx
      tasks := fun h => absurd h hno
      early := fun _ => he
      late := fun h => by simp at h
      half := fun h => absurd he.2 h
      closed := fun hd => nomatch hst.symm.trans hd }
  · rw [if_neg hst]
    exact { hi with
      quiet := fun _ => hx
      tasks := fun h => absurd h hno
      early := fun h => by simp at h
      late := fun _ => hst
      half := fun h => absurd he.2 h
      closed := fun _ hp => absurd hp (not_pending (Or.inr rfl) hno) }

/-- `setState` revives a connection that has been closed in between; it has
nothing left to send. -/
theorem storeShutdown_holds {s : ConnectionThreads τ} (hi : s.Holds [])
    (hs : s.shutdown = .connected) :
    Holds { s with conn := s.conn.setState .kDisconnecting, shutdown := .stored } [] := by
  have hno : ¬s.ShutdownQueued := not_shutdownQueued hi (by simp [hs])
  have hsh := (hi.early (Or.inr hs)).2
  have hover : s.conn.state = .kDisconnected → s.HandedOver :=
    fun hd => (hi.closed hd (Or.inl hs)).1
  have hstream : stream s.conn = (s.delivered.map Sent.bytes).flatten := by
    by_cases hd : s.conn.state = .kDisconnected
    · rw [stream, (hover hd).buffered, List.append_nil, (hover hd).wire]
    · exact hi.stream_eq hd
  refine { hi with
    output := ⟨hi.output.input, hi.output.output, fun _ => ?_, fun h => (by cases h),
      hi.output.drained⟩
    stream_eq := fun _ => hstream
    quiet := fun _ => hi.quiet (by simp [hs])
    tasks := fun h => absurd h hno
    early := fun h => by simp at h
    late := fun _ => by simp [setState]
    half := fun h => absurd hsh h
    closed := fun h => by cases h }
  by_cases hd : s.conn.state = .kDisconnected
  · have hoff := hi.output.off hd
    have hnil := (hover hd).buffered
    simp [setState, hoff, hnil]
  · exact hi.output.interest hd

theorem queueShutdown_holds {s : ConnectionThreads τ} (hi : s.Holds [])
    (hs : s.shutdown = .stored) :
    Holds { s with
      pendingFunctors := s.pendingFunctors ++ [.shutdownInLoop], shutdown := .returned } [] := by
  have hqueued : queued { s with
      pendingFunctors := s.pendingFunctors ++ [ConnTask.shutdownInLoop]
      shutdown := .returned } = s.queued :=
    (queued_push s .shutdownInLoop).trans (List.append_nil _)
  refine { hi with
    ledger := fun k => by rw [hqueued]; exact hi.ledger k
    quiet := fun _ => hi.quiet (by simp [hs])
    tasks := fun _ => rfl
    early := fun h => by simp at h
    late := fun _ => hi.late (Or.inl hs)
    half := fun h => ?_
    closed := fun hd _ => ?_ }
  · have hover := (hi.half h).1
    exact ⟨⟨hqueued.trans hover.queued, hover.buffered, hover.wire⟩, rfl⟩
  · have hover := (hi.closed hd (Or.inr (Or.inl hs))).1
    exact ⟨⟨hqueued.trans hover.queued, hover.buffered, hover.wire⟩, rfl⟩

theorem shutdownOnLoop_holds {s : ConnectionThreads τ} (hi : s.Holds [])
    (hn : s.shutdown = .notCalled) (hx : ∀ x, s.sending x = none)
    (hq : s.conn.state = .kConnected → s.conn.channel.isWriting = false → s.queued = []) :
    Holds { s with conn := s.conn.shutdown, shutdown := .returned } [] := by
  have hno : ¬s.ShutdownQueued := not_shutdownQueued hi (by simp [hn])
  have hsh := (hi.early (Or.inl hn)).2
  by_cases hst : s.conn.state = .kConnected
  · have heq : s.conn.shutdown = (s.conn.setState .kDisconnecting).shutdownInLoop := if_pos hst
    have hup : s.conn.state ≠ .kDisconnected := by simp [hst]
    have hset : Holds { s with
        conn := s.conn.setState .kDisconnecting, shutdown := .returned } [] := by
      refine { hi with
        output := ⟨hi.output.input, hi.output.output, fun _ => hi.output.interest hup, nofun,
          hi.output.drained⟩
        stream_eq := fun _ => hi.stream_eq hup
        quiet := fun _ => hx
        tasks := fun h => absurd h hno
        early := fun h => by simp at h
        late := fun _ => by simp [setState]
        half := fun h => absurd hsh h
        closed := nofun }
    rw [heq]
    exact shutdownInLoop_holds hset rfl nofun (hq hst)
  · have heq : s.conn.shutdown = s.conn := if_neg hst
    rw [heq]
    exact { hi with
      quiet := fun _ => hx
      tasks := fun h => absurd h hno
      early := fun h => by simp at h
      late := fun _ => hst
      half := fun h => absurd hsh h
      closed := fun _ hp => absurd hp (not_pending (Or.inr rfl) hno) }

end HalfClose

section Handlers
variable [DecidableEq τ]

theorem handleWrite_holds {s : ConnectionThreads τ} (hi : s.Holds []) {w : WriteResult}
    (hq : Drains s.conn w → s.queued = []) {c : TCPConnection} (h : s.conn.handleWrite w = .ok c) :
    Holds { s with conn := c, lateWrites := s.countWrite s.conn.channel.isWriting } [] := by
  by_cases hw : s.conn.channel.isWriting = true
  swap
  · have hsame : s.conn.handleWrite w = .ok s.conn := if_neg hw
    cases hsame.symm.trans h
    rw [countWrite, if_neg (fun h => hw h.1)]
    exact hi
  have hup : s.conn.state ≠ .kDisconnected := by
    intro hd
    simp [hi.output.off hd] at hw
  have hsh : s.conn.socket.shutdowns = [] := by
    by_contra hn
    exact (hi.output.interest hup).mp hw (hi.half hn).1.buffered
  have hm := (handleWrite_moves hi.output w).ok h
  obtain ⟨hst, hc⟩ := handleWrite_shutdowns hi.output h
  have hup' : c.state ≠ .kDisconnected := by rwa [hst]
  have hstream : stream c = (s.delivered.map Sent.bytes).flatten := by
    rw [hm.stream_eq hup', List.append_nil]
    exact hi.stream_eq hup
  refine { hi with
    output := hm.inv
    stream_eq := fun _ => hstream
    early := fun he => ?_
    late := fun hl => ?_
    half := fun hn => ?_
    closed := fun hd => absurd hd hup'
    onTime := ?_ }
  · rcases hc with ⟨hdr, -⟩ | ⟨-, hso⟩
    · exact absurd hdr.state (hi.early he).1
    · exact ⟨by rw [hst]; exact (hi.early he).1, hso.trans hsh⟩
  · change c.state ≠ _
    rw [hst]
    exact hi.late hl
  · rcases hc with ⟨hdr, -, hnil⟩ | ⟨-, hso⟩
    · rw [stream, hnil, List.append_nil] at hstream
      exact ⟨⟨hq hdr, hnil, hstream⟩, rfl⟩
    · exact absurd (hso.trans hsh) hn
  · rw [countWrite, if_neg (fun h => h.2 hsh)]
    exact hi.onTime

theorem handler_holds {s : ConnectionThreads τ} (hi : s.Holds []) {a : Call} (ha : IsHandler a)
    (hw : ∀ w, a ≠ .handleWrite w)
    (hc : Closing a → s.conn.state ≠ .kDisconnected → s.ShutdownPending →
      s.queued = [] ∧ s.conn.outputBuffer.contents = [])
    {c : TCPConnection} (h : s.conn.call a = .ok c) : Holds { s with conn := c } [] := by
  have ho := ((call_moves hi.output a).ok h).inv
  have hsame : ∀ d : TCPConnection, SameOutput s.conn d → s.HandedOver →
      HandedOver { s with conn := d } := by
    rintro d ⟨hso, hou⟩ hover
    exact ⟨hover.queued, hou ▸ hover.buffered, hso ▸ hover.wire⟩
  rcases handler_cases hi.output ha hw h with ⟨hcl, hd, hso, hou⟩ | ⟨hst, hso, hou⟩
  · refine { hi with
      output := ho
      stream_eq := fun hup => absurd hd hup
      early := fun he => ⟨by simp [hd], by rw [hso]; exact (hi.early he).2⟩
      late := fun _ => by simp [hd]
      half := fun hn => ⟨hsame c ⟨hso, hou⟩ (hi.half (hso ▸ hn)).1, rfl⟩
      closed := fun _ hp => ⟨hsame c ⟨hso, hou⟩ ?_, rfl⟩ }
    by_cases hdn : s.conn.state = .kDisconnected
    · exact (hi.closed hdn hp).1
    · obtain ⟨hq, hnil⟩ := hc hcl hdn hp
      exact handedOver_of hi hq hdn hnil
  · exact { hi with
      output := ho
      stream_eq := fun hup => by
        change stream c = _
        rw [stream, hso, hou]
        exact hi.stream_eq (hst ▸ hup)
      early := fun he => by
        change c.state ≠ _ ∧ c.socket.shutdowns = _
        rw [hst, hso]
        exact hi.early he
      late := fun hl => by
        change c.state ≠ _
        rw [hst]
        exact hi.late hl
      half := fun hn => ⟨hsame c ⟨hso, hou⟩ (hi.half (hso ▸ hn)).1, rfl⟩
      closed := fun hd hp => ⟨hsame c ⟨hso, hou⟩ (hi.closed (hst.symm.trans hd) hp).1, rfl⟩ }

end Handlers

section Steps

/-- Nothing that a message was promised is taken away: no direct write of it
fails with one of the two errors after which it is given up, and the connection
is not closed, with output left, while a `shutdown()` is on its way. -/
def Undisturbed (s : ConnectionThreads τ) : ThreadAction τ → Prop
  | .sendOnLoop m w => s.conn.state = .kConnected → Dropped s.conn w → m.bytes = []
  | .runFunctor w => ∀ m ∈ s.functors.head?.bind ConnTask.sent,
      s.conn.state ≠ .kDisconnected → Dropped s.conn w → m.bytes = []
  | .handle a => Closing a → s.conn.state ≠ .kDisconnected → s.ShutdownPending →
      s.queued = [] ∧ s.conn.outputBuffer.contents = []
  | _ => True

/-- The step calls `shutdownWrite()`. -/
def HalfCloses (s : ConnectionThreads τ) : ThreadAction τ → Prop
  | .shutdownOnLoop => s.conn.state = .kConnected ∧ s.conn.channel.isWriting = false
  | .handle (.handleWrite w) => Drains s.conn w
  | .runFunctor _ => (∃ f ∈ s.functors.head?, ConnTask.sent f = none) ∧
      s.conn.channel.isWriting = false
  | _ => False

/-- No message is still in the queue when `shutdownWrite()` is called. -/
def InOrder (s : ConnectionThreads τ) (a : ThreadAction τ) : Prop :=
  s.HalfCloses a → s.queued = []

variable [DecidableEq τ]

instance (s : ConnectionThreads τ) : Decidable s.ShutdownQueued :=
  inferInstanceAs (Decidable (∃ f ∈ _, _ = none))

instance (s : ConnectionThreads τ) : Decidable s.ShutdownPending :=
  inferInstanceAs (Decidable (_ ∨ _ ∨ _))

instance (s : ConnectionThreads τ) : (a : ThreadAction τ) → Decidable (s.Undisturbed a)
  | .sendOnLoop _ _ => inferInstanceAs (Decidable (_ → _ → _ = []))
  | .runFunctor _ => inferInstanceAs (Decidable (∀ m ∈ Option.bind _ _, _ → _ → _ = []))
  | .handle _ => inferInstanceAs (Decidable (_ → _ → _ → _ = [] ∧ _ = []))
  | .send _ _ => isTrue trivial
  | .queueSend _ => isTrue trivial
  | .testShutdown => isTrue trivial
  | .storeShutdown => isTrue trivial
  | .queueShutdown => isTrue trivial
  | .shutdownOnLoop => isTrue trivial
  | .swap => isTrue trivial

instance (s : ConnectionThreads τ) : (a : ThreadAction τ) → Decidable (s.HalfCloses a)
  | .shutdownOnLoop => inferInstanceAs (Decidable (_ ∧ _))
  | .handle (.handleWrite _) => inferInstanceAs (Decidable (Drains _ _))
  | .runFunctor _ => inferInstanceAs (Decidable ((∃ f ∈ List.head? _, _ = none) ∧ _))
  | .handle (.handleRead _) => isFalse not_false
  | .handle .handleClose => isFalse not_false
  | .handle .handleError => isFalse not_false
  | .handle .startRead => isFalse not_false
  | .handle .stopRead => isFalse not_false
  | .handle (.takeInput _) => isFalse not_false
  | .handle (.sendInLoop _ _) => isFalse not_false
  | .handle (.send _ _) => isFalse not_false
  | .handle .shutdown => isFalse not_false
  | .handle .forceClose => isFalse not_false
  | .handle (.forceCloseWithDelay _) => isFalse not_false
  | .handle .forceCloseInLoop => isFalse not_false
  | .send _ _ => isFalse not_false
  | .queueSend _ => isFalse not_false
  | .testShutdown => isFalse not_false
  | .storeShutdown => isFalse not_false
  | .queueShutdown => isFalse not_false
  | .sendOnLoop _ _ => isFalse not_false
  | .swap => isFalse not_false

instance (s : ConnectionThreads τ) (a : ThreadAction τ) : Decidable (s.InOrder a) :=
  inferInstanceAs (Decidable (_ → _ = []))

theorem runFunctor_yields {s : ConnectionThreads τ} (hi : s.Holds []) {w : WriteResult}
    (hu : s.Undisturbed (.runFunctor w)) (ho : s.InOrder (.runFunctor w)) :
    Yields (step s (.runFunctor w)) (Holds · []) (fun _ => True) := by
  cases hf : s.functors with
  | nil =>
    rw [step, hf]
    exact (yields_ok _ _ _).mpr hi
  | cons f functors =>
    rw [step, hf]
    have hp := popped_holds hi hf
    cases f with
    | sendInLoop x message =>
      refine sendInLoop_holds hp ?_
      exact hu ⟨some x, message.bytes⟩ (by rw [hf]; rfl)
    | shutdownInLoop =>
      have hq : ShutdownQueued s := ⟨.shutdownInLoop, by rw [hf]; exact List.mem_cons_self, rfl⟩
      have hsame : queued { s with functors := functors } = s.queued := by
        rw [queued, queued, hf]
        rfl
      refine (yields_ok _ _ _).mpr (shutdownInLoop_holds hp (hi.tasks hq) (fun hd => ?_) ?_)
      · have hover := (hi.closed hd (Or.inr (Or.inr hq))).1
        exact ⟨hsame.trans hover.queued, hover.buffered, hover.wire⟩
      · intro hw
        rw [hsame]
        exact ho ⟨⟨.shutdownInLoop, by rw [hf]; rfl, rfl⟩, hw⟩

theorem handle_yields {s : ConnectionThreads τ} (hi : s.Holds []) {a : Call} (ha : IsHandler a)
    (hu : s.Undisturbed (.handle a)) (ho : s.InOrder (.handle a)) :
    Yields (step s (.handle a)) (Holds · []) (fun _ => True) := by
  rw [step, yields_bind]
  cases h : s.conn.call a with
  | error e => exact (yields_error _ _ _).mpr trivial
  | ok c =>
    rw [yields_ok, yields_pure]
    by_cases hw : ∃ w, a = .handleWrite w
    · obtain ⟨w, rfl⟩ := hw
      exact handleWrite_holds hi ho h
    · have hn : ∀ w, a ≠ .handleWrite w := fun w h => hw ⟨w, h⟩
      have hno : handlerWrites s.conn a = false := by
        cases a with
        | handleWrite w => exact absurd rfl (hn w)
        | _ => rfl
      rw [hno, countWrite, if_neg (by simp)]
      exact handler_holds hi ha hn hu h

theorem step_yields {s : ConnectionThreads τ} (hi : s.Holds []) {a : ThreadAction τ}
    (he : s.Enabled a) (hu : s.Undisturbed a) (ho : s.InOrder a) :
    Yields (step s a) (Holds · []) (fun _ => True) := by
  -- a call of `send` that sees `kConnected` comes before `shutdown()`
  have hearly : s.conn.state = .kConnected → s.shutdown = .notCalled ∨ s.shutdown = .returned →
      s.shutdown = .notCalled :=
    fun hst h => h.resolve_right (fun hr => hi.late (Or.inr hr) hst)
  cases a with
  | send x m =>
    rw [step]
    split_ifs with hst
    · obtain ⟨message, after, hc, hm, hafter⟩ := m.copy_of
      simp only [hc, ok_bind]
      exact (yields_pure _ _ _).mpr (send_holds hi he.1 (hearly hst he.2) hm hafter rfl)
    · exact (yields_ok _ _ _).mpr hi
  | queueSend x =>
    cases hx : s.sending x with
    | none => exact absurd hx he
    | some message =>
      simp only [step, hx]
      exact (yields_ok _ _ _).mpr (queueSend_holds hi hx)
  | testShutdown => exact (yields_ok _ _ _).mpr (testShutdown_holds hi he.1 he.2)
  | storeShutdown => exact (yields_ok _ _ _).mpr (storeShutdown_holds hi he)
  | queueShutdown => exact (yields_ok _ _ _).mpr (queueShutdown_holds hi he)
  | sendOnLoop m w =>
    rw [step]
    split_ifs with hst
    · obtain ⟨message, after, hc, hm, hafter⟩ := m.inPlace_of
      simp only [hc, ok_bind]
      rw [yields_bind]
      have hacc := accept_holds hi (hearly hst he) hst message
      refine (sendInLoop_holds hacc (fun _ hd => hm.trans (hu hst hd))).imp (fun t ht => ?_)
      obtain ⟨es, hes, hbuf⟩ := record_eq t hm hafter
      rw [hes]
      refine (yields_pure _ _ _).mpr { ht with
        half := fun hn => ?_
        closed := fun hd hp => ?_
        buffers := fun e hm => (List.mem_append.mp hm).elim (ht.buffers e) (hbuf e) }
      · have hover := (ht.half hn).1
        exact ⟨⟨hover.queued, hover.buffered, hover.wire⟩, rfl⟩
      · have hover := (ht.closed hd hp).1
        exact ⟨⟨hover.queued, hover.buffered, hover.wire⟩, rfl⟩
    · exact (yields_ok _ _ _).mpr hi
  | shutdownOnLoop =>
    exact (yields_ok _ _ _).mpr (shutdownOnLoop_holds hi he.1 he.2 (fun hst hw => ho ⟨hst, hw⟩))
  | handle a => exact handle_yields hi he hu ho
  | swap =>
    have hsame : s.pendingFunctors ++ [] = s.functors ++ s.pendingFunctors := by
      have hnil : s.functors = [] := he
      rw [hnil, List.append_nil, List.nil_append]
    have hqueued : queued { s with functors := s.pendingFunctors, pendingFunctors := [] } =
        s.queued := congrArg (List.filterMap ConnTask.sent) hsame
    have htasks : ShutdownQueued { s with functors := s.pendingFunctors, pendingFunctors := [] } →
        s.ShutdownQueued := by
      rintro ⟨f, hf, hs⟩
      exact ⟨f, hsame ▸ hf, hs⟩
    have hover : s.HandedOver →
        HandedOver { s with functors := s.pendingFunctors, pendingFunctors := [] } :=
      fun h => ⟨hqueued.trans h.queued, h.buffered, h.wire⟩
    refine (yields_ok _ _ _).mpr { hi with
      ledger := fun k => by rw [hqueued]; exact hi.ledger k
      tasks := fun h => hi.tasks (htasks h)
      half := fun hn => ⟨hover (hi.half hn).1, rfl⟩
      closed := fun hd hp => ⟨hover (hi.closed hd ?_).1, rfl⟩ }
    rcases hp with h | h | h
    · exact Or.inl h
    · exact Or.inr (Or.inl h)
    · exact Or.inr (Or.inr (htasks h))
  | runFunctor w => exact runFunctor_yields hi hu ho

end Steps

end ConnectionThreads

end Lux.Polaris

import LuxPolaris.ConnectionPair

/-!
# An echo server and its client

The program of `EchoServer_test.cc` at one end of a stream, any program at the
other. Its callbacks are cut at the calls they make, so that the client and the
kernel go on between two of them. A `quit\n` ends the loop, and with it the
run.
-/

set_option autoImplicit false

namespace Lux.Polaris.EchoServer
open Outcome Buffer TCPConnection OutputStream InputStream ConnectionPair

def helloLine : Message := ⟨[104,101,108,108,111,10], by decide⟩

def byeLine : Message := ⟨[98,121,101,10], by decide⟩

def exitLine : List Byte := [101,120,105,116,10]

inductive Instr where
  | retrieveAllAsString
  | send (message : Message)
  | shutdown

def Instr.call (c : TCPConnection) (w : WriteResult) : Instr → Call
  | .retrieveAllAsString => .takeInput c.inputBuffer.readableBytes
  | .send message => .send message w
  | .shutdown => .shutdown

/-- The message is given up. -/
def Instr.refused (c : TCPConnection) (w : WriteResult) : Instr → Bool
  | .send _ => decide (c.state = .kConnected ∧ Dropped c w)
  | _ => false

def onConnection : List Instr := [.send helloLine]

def onMessage (msg : Message) : List Instr :=
  .retrieveAllAsString ::
    ((if msg.bytes = exitLine then [.send byeLine, .shutdown] else []) ++ [.send msg])

def inputString (c : TCPConnection) : Message :=
  ⟨c.inputBuffer.contents.take maxSize, List.length_take_le _ _⟩

/-- `todo` is the rest of the callback being run, `messages` are those handled,
`refused` says whether a message has been given up. -/
structure Echo where
  pair : Pair
  todo : List Instr
  messages : List (List Byte)
  refused : Bool

namespace Echo

def server (s : Echo) : Endpoint := s.pair .server

def client (s : Echo) : Endpoint := s.pair .client

end Echo

/-- `next` is the next call of the server's callback, `w` what the kernel
answers if it writes. -/
inductive Action where
  | client (a : Call)
  | handleRead (r : ReadResult)
  | handleWrite (w : WriteResult)
  | handleError
  | next (w : WriteResult)

def step (s : Echo) : Action → Except Fault Echo
  | .client a => do
    let p ← ConnectionPair.step s.pair (.client, a)
    return { s with pair := p }
  | .handleRead r => do
    let p ← ConnectionPair.step s.pair (.server, .handleRead r)
    match r with
    | .failed _ => return { s with pair := p }
    | .read [] => return { s with pair := p, todo := onConnection }
    | .read (_::_) =>
      let msg := inputString (p .server).conn
      return { s with pair := p, todo := onMessage msg, messages := s.messages ++ [msg.bytes] }
  | .handleWrite w => do
    let p ← ConnectionPair.step s.pair (.server, .handleWrite w)
    return { s with pair := p }
  | .handleError => do
    let p ← ConnectionPair.step s.pair (.server, .handleError)
    return { s with pair := p }
  | .next w =>
    match s.todo with
    | [] => .ok s
    | i::todo => do
      let p ← ConnectionPair.step s.pair (.server, i.call s.server.conn w)
      return { s with
        pair := p, todo := todo, refused := s.refused || i.refused s.server.conn w }

def started (p : Pair) : Echo := ⟨p, onConnection, [], false⟩

/-- A handler of the server is called when its callback has returned, and none
once its connection is down. A socket that has refused a message refuses every
later one. -/
def Enabled (s : Echo) : Action → Prop
  | .client a => Kernel s.pair (.client, a)
  | .handleRead r => s.todo.isEmpty = true ∧ s.server.conn.state ≠ .kDisconnected ∧
      Kernel s.pair (.server, .handleRead r)
  | .handleWrite w => s.todo.isEmpty = true ∧ Kernel s.pair (.server, .handleWrite w)
  | .handleError => s.todo.isEmpty = true ∧ Kernel s.pair (.server, .handleError)
  | .next w => s.todo.isEmpty = false ∧ Refuses s.server.conn w ∧
      (s.refused = true → w = .failed EPIPE ∨ w = .failed ECONNRESET)

instance (s : Echo) : (a : Action) → Decidable (Enabled s a)
  | .client _ => inferInstanceAs (Decidable (Kernel _ _))
  | .handleRead _ => inferInstanceAs (Decidable (_ ∧ _ ∧ _))
  | .handleWrite _ => inferInstanceAs (Decidable (_ ∧ _))
  | .handleError => inferInstanceAs (Decidable (_ ∧ _))
  | .next _ => inferInstanceAs (Decidable (_ ∧ _ ∧ (_ → _)))

/-- What an echo server answers to its messages: each of them up to the first
`exit\n`, and to that one `bye\n`. -/
def reply : List (List Byte) → List Byte
  | [] => []
  | msg::msgs => if msg = exitLine then byeLine.bytes else msg ++ reply msgs

/-- What the rest of a callback sends, where `up` says whether it still can. -/
def owed : Bool → List Instr → List Byte
  | _, [] => []
  | up, .retrieveAllAsString::todo => owed up todo
  | up, .send message::todo => (if up then message.bytes else []) ++ owed up todo
  | _, .shutdown::todo => owed false todo

section Reply

theorem reply_concat (msgs : List (List Byte)) (msg : List Byte) :
    reply (msgs ++ [msg]) = reply msgs ++
      (if exitLine ∈ msgs then [] else if msg = exitLine then byeLine.bytes else msg) := by
  induction msgs with
  | nil => simp [reply]
  | cons m msgs ih =>
    rw [List.cons_append, reply, reply]
    by_cases hm : m = exitLine
    · simp [hm]
    · have hmem : exitLine ∈ m::msgs ↔ exitLine ∈ msgs := by
        rw [List.mem_cons]
        exact ⟨fun h => h.resolve_left (Ne.symm hm), Or.inr⟩
      rw [if_neg hm, if_neg hm, ih, List.append_assoc]
      simp only [hmem]

theorem reply_eq_flatten {msgs : List (List Byte)} (h : exitLine ∉ msgs) :
    reply msgs = msgs.flatten := by
  induction msgs with
  | nil => rfl
  | cons m msgs ih =>
    rw [List.mem_cons, not_or] at h
    rw [reply, if_neg (Ne.symm h.1), ih h.2, List.flatten_cons]

theorem owed_false (todo : List Instr) : owed false todo = [] := by
  induction todo with
  | nil => rfl
  | cons i todo ih => cases i <;> simp [owed, ih]

theorem owed_onMessage (up : Bool) (msg : Message) :
    owed up (onMessage msg) =
      if up then (if msg.bytes = exitLine then byeLine.bytes else msg.bytes) else [] := by
  by_cases hm : msg.bytes = exitLine
  · cases up <;> simp [onMessage, owed, hm]
  · cases up <;> simp [onMessage, owed, hm]

end Reply

section Calls
variable {c c' : TCPConnection}

theorem inputString_bytes (hi : OutputInv c) : (inputString c).bytes = c.inputBuffer.contents :=
  List.take_of_length_le (contents_fit hi.input)

theorem send_open (hs : c.state = .kConnected) {message : Message} {w : WriteResult}
    (h : c.call (.send message w) = .ok c') :
    c'.state = .kConnected ∧ c'.inputBuffer = c.inputBuffer ∧
      c'.socket.shutdowns = c.socket.shutdowns ∧ (Dropped c w → SameOutput c c') := by
  rw [call, send, if_pos hs] at h
  refine ⟨?_, (sendInLoop_same h).buffer_eq, ?_, fun hd => sendInLoop_refused hd h⟩
  · rcases sendInLoop_cases h with ⟨-, rfl⟩ | ⟨-, fs, nwrote, rfl | hc⟩
    · exact hs
    · exact hs
    · obtain ⟨gs, output, -, rfl⟩ := bufferRemaining_cases hc
      exact hs
  · rcases sendInLoop_cases h with ⟨-, rfl⟩ | ⟨-, fs, nwrote, rfl | hc⟩
    · rfl
    · rfl
    · obtain ⟨gs, output, -, rfl⟩ := bufferRemaining_cases hc
      rfl

theorem send_closed (hs : c.state ≠ .kConnected) {message : Message} {w : WriteResult}
    (h : c.call (.send message w) = .ok c') : c' = c := by
  rw [call, send, if_neg hs] at h
  cases h
  rfl

theorem shutdown_call (h : c.call .shutdown = .ok c') :
    c'.state ≠ .kConnected ∧ c'.inputBuffer = c.inputBuffer ∧
      c'.outputBuffer = c.outputBuffer ∧
      (c.state = .kDisconnected ↔ c'.state = .kDisconnected) := by
  rw [call] at h
  cases h
  unfold shutdown shutdownInLoop
  split_ifs with hs hw
  · simp [setState, hs]
  · simp [setState, shutdownWrite, hs]
  · exact ⟨hs, rfl, rfl, Iff.rfl⟩

theorem takeAll_call (hi : OutputInv c)
    (h : c.call (.takeInput c.inputBuffer.readableBytes) = .ok c') :
    c'.inputBuffer.contents = [] ∧ c'.state = c.state ∧ c'.socket = c.socket ∧
      c'.outputBuffer = c.outputBuffer := by
  obtain ⟨input, hread, heq⟩ := bind_ok.mp h
  cases heq
  obtain ⟨b, hb, -, hc, -⟩ := retrieve_spec hi.input (Nat.le_refl _)
  cases hb.symm.trans hread
  refine ⟨?_, rfl, rfl, rfl⟩
  rw [hc, ← length_contents hi.input, List.drop_length]

end Calls

/-- How far the server is with its answers. `sent` and what the callback still
owes are the greeting and the replies, as long as no message was given up. -/
structure Serves (e : Endpoint) (todo : List Instr) (messages : List (List Byte))
    (refused : Bool) : Prop where
  emptied : .retrieveAllAsString ∉ todo → e.conn.inputBuffer.contents = []
  once : .retrieveAllAsString ∉ todo.tail
  connected : e.conn.state ≠ .kDisconnected →
    (e.conn.state = .kConnected ∧ .shutdown ∉ todo ↔ exitLine ∉ messages)
  shut : e.conn.socket.shutdowns ≠ [] → e.conn.state ≠ .kConnected
  replied : refused = false →
    e.sent ++ owed (decide (e.conn.state = .kConnected)) todo = helloLine.bytes ++ reply messages
  sent_refused : refused = true → e.sent <+: helloLine.bytes ++ reply messages
  given_up : refused = true → e.conn.outputBuffer.contents = []

structure Inv (s : Echo) : Prop where
  pair : ConnectionPair.Inv s.pair
  heard : s.messages.flatten = s.server.delivered
  serves : Serves s.server s.todo s.messages s.refused

section Serving
variable {e e' : Endpoint} {todo : List Instr} {messages : List (List Byte)} {refused : Bool}

theorem Serves.same (h : Serves e [] messages refused) (hs : e'.conn.state = e.conn.state)
    (hi : e'.conn.inputBuffer.contents = e.conn.inputBuffer.contents) (hsent : e'.sent = e.sent)
    (hshut : e'.conn.socket.shutdowns ≠ [] → e'.conn.state ≠ .kConnected)
    (ho : refused = true → e'.conn.outputBuffer.contents = []) :
    Serves e' [] messages refused where
  emptied := fun hn => by rw [hi, h.emptied hn]
  once := h.once
  connected := by rw [hs]; exact h.connected
  shut := hshut
  replied := by rw [hs, hsent]; exact h.replied
  sent_refused := by rw [hsent]; exact h.sent_refused
  given_up := ho

theorem handleWrite_serves (hi : OutputInv e.conn) (h : Serves e [] messages refused)
    {w : WriteResult} (hs : e.step (.handleWrite w) = .ok e') : Serves e' [] messages refused := by
  obtain ⟨c, hc, rfl⟩ := Endpoint.step_ok hs
  obtain ⟨hstate, hshut⟩ := handleWrite_shutdowns hi hc
  refine h.same hstate (congrArg Buffer.contents (handleWrite_same hc).buffer_eq)
    (List.append_nil _) (fun hne => ?_) (fun hr => ?_)
  · rcases hshut with ⟨hd, -⟩ | ⟨-, heq⟩
    · change c.state ≠ _
      rw [hstate, hd.state]
      decide
    · change c.state ≠ _
      rw [hstate]
      exact h.shut (heq ▸ hne)
  · -- nothing is buffered, so nothing is written
    have hnil := h.given_up hr
    rcases handleWrite_cases hc with ⟨rfl, -⟩ | ⟨hw, -⟩
    · exact hnil
    · by_cases hd : e.conn.state = .kDisconnected
      · rw [hi.off hd] at hw
        cases hw
      · exact absurd hnil ((hi.interest hd).mp hw)

theorem handleError_serves (h : Serves e [] messages refused)
    (hs : e.step .handleError = .ok e') : Serves e' [] messages refused := by
  obtain ⟨c, hc, rfl⟩ := Endpoint.step_ok hs
  cases hc
  exact h.same rfl rfl (List.append_nil _) h.shut h.given_up

theorem read_contents (hi : OutputInv e.conn) (h : Serves e [] messages refused) {r : ReadResult}
    (hs : e.step (.handleRead r) = .ok e') :
    e'.conn.inputBuffer.contents = (chunksOf e.conn (.handleRead r)).flatten ∧
      e'.delivered = e.delivered ++ e'.conn.inputBuffer.contents ∧ e'.sent = e.sent := by
  obtain ⟨c, hc, rfl⟩ := Endpoint.step_ok hs
  have hr := (call_receives hi hc).contents_eq
  rw [h.emptied List.not_mem_nil] at hr
  have hcontents : c.inputBuffer.contents = (chunksOf e.conn (.handleRead r)).flatten := hr
  refine ⟨hcontents, ?_, List.append_nil _⟩
  change e.delivered ++ _ = e.delivered ++ c.inputBuffer.contents
  rw [hcontents]

theorem readFailed_serves (hi : OutputInv e.conn) (h : Serves e [] messages refused) {errno : ℕ}
    (hs : e.step (.handleRead (.failed errno)) = .ok e') :
    Serves e' [] messages refused ∧ e'.delivered = e.delivered := by
  obtain ⟨hcontents, hdelivered, hsent⟩ := read_contents hi h hs
  rw [Endpoint.chunksOf_of_readBytes rfl, List.flatten_nil] at hcontents
  obtain ⟨c, hc, rfl⟩ := Endpoint.step_ok hs
  obtain ⟨hstate, hso, hou⟩ := handleRead_same hi (r := .failed errno) (by simp) hc
  refine ⟨h.same hstate ?_ hsent ?_ ?_, ?_⟩
  · rw [hcontents, h.emptied List.not_mem_nil]
  · change c.socket.shutdowns ≠ [] → c.state ≠ _
    rw [hso, hstate]
    exact h.shut
  · change _ → c.outputBuffer.contents = []
    rw [hou]
    exact h.given_up
  · rw [hdelivered, hcontents, List.append_nil]

theorem readEnd_serves (hi : OutputInv e.conn) (h : Serves e [] messages refused)
    (hs : e.step (.handleRead (.read [])) = .ok e') :
    Serves e' onConnection messages refused ∧ e'.delivered = e.delivered := by
  obtain ⟨hcontents, hdelivered, hsent⟩ := read_contents hi h hs
  rw [Endpoint.chunksOf_read, received, List.take_nil] at hcontents
  obtain ⟨c, hc, rfl⟩ := Endpoint.step_ok hs
  obtain ⟨hstate, hso, hou⟩ := closing_cases hi (a := .handleRead (.read [])) rfl hc
  have hdown : c.state ≠ .kConnected := by simp [hstate]
  refine ⟨⟨fun _ => hcontents, by simp [onConnection], fun hup => absurd hstate hup,
    fun _ => hdown, fun hr => ?_, ?_, ?_⟩, ?_⟩
  · have hold := h.replied hr
    rw [owed, List.append_nil] at hold
    rw [decide_eq_false hdown, owed_false, List.append_nil, hsent]
    exact hold
  · rw [hsent]
    exact h.sent_refused
  · change _ → c.outputBuffer.contents = []
    rw [hou]
    exact h.given_up
  · rw [hdelivered, hcontents, List.append_nil]

theorem readMessage_serves (hi : OutputInv e.conn) (hi' : OutputInv e'.conn)
    (hup : e.conn.state ≠ .kDisconnected) (h : Serves e [] messages refused) {bytes : List Byte}
    (hb : bytes ≠ []) (hs : e.step (.handleRead (.read bytes)) = .ok e') :
    Serves e' (onMessage (inputString e'.conn)) (messages ++ [(inputString e'.conn).bytes])
      refused ∧ e'.delivered = e.delivered ++ (inputString e'.conn).bytes := by
  obtain ⟨-, hdelivered, hsent⟩ := read_contents hi h hs
  have hmsg := inputString_bytes hi'
  obtain ⟨c, hc, rfl⟩ := Endpoint.step_ok hs
  obtain ⟨hstate, hso, hou⟩ := handleRead_same hi (fun h => hb (ReadResult.read.inj h)) hc
  have hstate' : c.state = e.conn.state := hstate
  have hconn := h.connected hup
  generalize hm : inputString c = msg at *
  have hreply := reply_concat messages msg.bytes
  refine ⟨⟨fun hn => absurd List.mem_cons_self hn, ?_, fun _ => ?_, ?_, fun hr => ?_, fun hr => ?_,
    ?_⟩, by rw [hdelivered, hmsg]⟩
  · rw [onMessage, List.tail_cons]
    split_ifs <;> simp
  · rw [List.mem_append, not_or, List.mem_singleton]
    change c.state = _ ∧ _ ↔ _
    rw [hstate', ← hconn, onMessage]
    by_cases he : msg.bytes = exitLine
    · simp [he]
    · simp [he, Ne.symm he]
  · change c.socket.shutdowns ≠ [] → c.state ≠ _
    rw [hso, hstate']
    exact h.shut
  · have hold := h.replied hr
    rw [owed, List.append_nil] at hold
    change (e.sent ++ keptBy e.conn _) ++ owed (decide (c.state = _)) _ = _
    rw [hstate', owed_onMessage, hreply, ← List.append_assoc, ← hold]
    by_cases hx : exitLine ∈ messages
    · have hno : e.conn.state ≠ .kConnected := fun hs => hconn.mp ⟨hs, List.not_mem_nil⟩ hx
      simp [hx, hno, keptBy]
    · have hyes : e.conn.state = .kConnected := (hconn.mpr hx).1
      simp [hx, hyes, keptBy]
  · rw [hsent, hreply, ← List.append_assoc]
    exact (h.sent_refused hr).trans (List.prefix_append _ _)
  · change _ → c.outputBuffer.contents = []
    rw [hou]
    exact h.given_up

theorem Serves.next {i : Instr} {d : Endpoint} (h : Serves e (i::todo) messages refused)
    (hin : i ≠ .retrieveAllAsString → d.conn.inputBuffer = e.conn.inputBuffer)
    (hempty : i = .retrieveAllAsString → d.conn.inputBuffer.contents = []) :
    (.retrieveAllAsString ∉ todo → d.conn.inputBuffer.contents = []) ∧
      .retrieveAllAsString ∉ todo.tail := by
  have honce : .retrieveAllAsString ∉ todo := h.once
  refine ⟨fun _ => ?_, fun hm => honce (List.mem_of_mem_tail hm)⟩
  by_cases hi : i = .retrieveAllAsString
  · exact hempty hi
  · rw [hin hi]
    refine h.emptied (fun hm => ?_)
    rcases List.mem_cons.mp hm with he | hm
    · exact hi he.symm
    · exact honce hm

theorem nextRetrieve_serves (hi : OutputInv e.conn)
    (h : Serves e (.retrieveAllAsString::todo) messages refused)
    (hs : e.step (.takeInput e.conn.inputBuffer.readableBytes) = .ok e') :
    Serves e' todo messages refused := by
  obtain ⟨c, hc, rfl⟩ := Endpoint.step_ok hs
  obtain ⟨hcontents, hstate, hso, hou⟩ := takeAll_call hi hc
  obtain ⟨hemptied, honce⟩ := h.next (d := ⟨c, _, _, _, _⟩) (fun hne => absurd rfl hne)
    (fun _ => hcontents)
  refine ⟨hemptied, honce, ?_, ?_, fun hr => ?_, fun hr => ?_, ?_⟩
  · rw [hstate]
    simpa using h.connected
  · change c.socket.shutdowns ≠ [] → c.state ≠ _
    rw [hso, hstate]
    exact h.shut
  · change (e.sent ++ []) ++ owed (decide (c.state = _)) todo = _
    rw [hstate, List.append_nil]
    exact h.replied hr
  · change e.sent ++ [] <+: _
    rw [List.append_nil]
    exact h.sent_refused hr
  · change _ → c.outputBuffer.contents = []
    rw [hou]
    exact h.given_up

theorem nextShutdown_serves (h : Serves e (.shutdown::todo) messages refused)
    (hs : e.step .shutdown = .ok e') : Serves e' todo messages refused := by
  obtain ⟨c, hc, rfl⟩ := Endpoint.step_ok hs
  obtain ⟨hstate, hin, hou, hdown⟩ := shutdown_call hc
  obtain ⟨hemptied, honce⟩ := h.next (d := ⟨c, _, _, _, _⟩) (fun _ => hin)
    (fun he => by cases he)
  refine ⟨hemptied, honce, fun hup => ?_, fun _ => hstate, fun hr => ?_, fun hr => ?_, ?_⟩
  · have hold := h.connected (fun hd => hup (hdown.mp hd))
    refine iff_of_false (fun hn => hstate hn.1) (fun hn => ?_)
    exact (hold.mpr hn).2 List.mem_cons_self
  · change (e.sent ++ []) ++ owed (decide (c.state = _)) todo = _
    rw [decide_eq_false hstate, owed_false, List.append_nil, ← h.replied hr, owed, owed_false]
  · change e.sent ++ [] <+: _
    rw [List.append_nil]
    exact h.sent_refused hr
  · change _ → c.outputBuffer.contents = []
    rw [hou]
    exact h.given_up

theorem dropped_again (hi : OutputInv e.conn) (h : Serves e todo messages true)
    (hs : e.conn.state = .kConnected) {w : WriteResult}
    (hw : w = .failed EPIPE ∨ w = .failed ECONNRESET) : Dropped e.conn w := by
  have hnil := h.given_up rfl
  have hup : e.conn.state ≠ .kDisconnected := by simp [hs]
  have hoff : e.conn.channel.isWriting = false := by
    rw [← Bool.not_eq_true, hi.interest hup]
    exact fun hne => hne hnil
  have hzero := (contents_eq_nil_iff hi.output).mp hnil
  exact ⟨by simp [canWriteDirectly, hoff, hzero], hw⟩

theorem nextSend_serves (hi : OutputInv e.conn) {message : Message} {w : WriteResult}
    (h : Serves e (.send message::todo) messages refused)
    (hw : refused = true → w = .failed EPIPE ∨ w = .failed ECONNRESET)
    (hs : e.step (.send message w) = .ok e') :
    Serves e' todo messages (refused || (Instr.send message).refused e.conn w) := by
  obtain ⟨c, hc, rfl⟩ := Endpoint.step_ok hs
  have hshutdown : .shutdown ∉ (.send message::todo : List Instr) ↔ .shutdown ∉ todo := by simp
  have hconnected := h.connected
  rw [hshutdown] at hconnected
  by_cases hup : e.conn.state = .kConnected
  swap
  · -- a closed connection drops the message without a word
    cases send_closed hup hc
    have hflag : (refused || (Instr.send message).refused e.conn w) = refused := by
      simp [Instr.refused, hup]
    have hkept : keptBy e.conn (.send message w) = [] := by rw [keptBy, if_neg hup]
    obtain ⟨hemptied, honce⟩ := h.next (d := e) (fun _ => rfl) (fun he => by cases he)
    rw [hflag]
    refine ⟨hemptied, honce, hconnected, h.shut, fun hr => ?_, fun hr => ?_, h.given_up⟩
    · change (e.sent ++ _) ++ owed (decide (e.conn.state = _)) todo = _
      rw [hkept, List.append_nil, ← h.replied hr, decide_eq_false hup, owed_false, owed_false]
    · change e.sent ++ _ <+: _
      rw [hkept, List.append_nil]
      exact h.sent_refused hr
  obtain ⟨hstate, hin, hshut, hsame⟩ := send_open hup hc
  obtain ⟨hemptied, honce⟩ := h.next (d := ⟨c, _, _, _, _⟩) (fun _ => hin)
    (fun he => by cases he)
  have howed : owed true (.send message::todo) = message.bytes ++ owed true todo := by simp [owed]
  have hrep := h.replied
  rw [decide_eq_true hup, howed] at hrep
  have hstate' : c.state = e.conn.state := hstate.trans hup.symm
  have hflag : (Instr.send message).refused e.conn w = decide (Dropped e.conn w) := by
    simp [Instr.refused, hup]
  rw [hflag]
  by_cases hd : Dropped e.conn w
  · -- given up, now if not before
    have hkept : keptBy e.conn (.send message w) = [] := by rw [keptBy, if_pos hup, if_pos hd]
    obtain ⟨hso, hou⟩ := hsame hd
    have hnil : e.conn.outputBuffer.contents = [] := by
      have hdirect := hd.1
      rw [canWriteDirectly, Bool.and_eq_true, decide_eq_true_eq] at hdirect
      exact (contents_eq_nil_iff hi.output).mpr hdirect.2
    rw [decide_eq_true hd, Bool.or_true]
    refine ⟨hemptied, honce, ?_, ?_, fun hr => (by cases hr), fun _ => ?_, fun _ => ?_⟩
    · rw [hstate']
      exact hconnected
    · change c.socket.shutdowns ≠ [] → c.state ≠ _
      rw [hshut, hstate']
      exact h.shut
    · change e.sent ++ _ <+: _
      rw [hkept, List.append_nil]
      cases refused with
      | true => exact h.sent_refused rfl
      | false =>
        rw [← hrep rfl]
        exact List.prefix_append _ _
    · change c.outputBuffer.contents = []
      rw [hou, hnil]
  · have hfirst : refused = false := by
      cases refused with
      | false => rfl
      | true => exact absurd (dropped_again hi h hup (hw rfl)) hd
    have hkept : keptBy e.conn (.send message w) = message.bytes := by
      rw [keptBy, if_pos hup, if_neg hd]
    subst hfirst
    rw [decide_eq_false hd, Bool.or_false]
    refine ⟨hemptied, honce, ?_, ?_, fun _ => ?_, fun hr => (by cases hr), fun hr => (by cases hr)⟩
    · rw [hstate']
      exact hconnected
    · change c.socket.shutdowns ≠ [] → c.state ≠ _
      rw [hshut, hstate']
      exact h.shut
    · change (e.sent ++ _) ++ owed (decide (c.state = _)) todo = _
      rw [hkept, decide_eq_true hstate, List.append_assoc]
      exact hrep rfl

theorem next_serves (hi : OutputInv e.conn) {i : Instr} {w : WriteResult}
    (h : Serves e (i::todo) messages refused)
    (hw : refused = true → w = .failed EPIPE ∨ w = .failed ECONNRESET)
    (hs : e.step (i.call e.conn w) = .ok e') :
    Serves e' todo messages (refused || i.refused e.conn w) ∧ e'.delivered = e.delivered := by
  refine ⟨?_, ?_⟩
  · cases i with
    | retrieveAllAsString =>
      change Serves e' todo messages (refused || false)
      rw [Bool.or_false]
      exact nextRetrieve_serves hi h hs
    | send message => exact nextSend_serves hi h hw hs
    | shutdown =>
      change Serves e' todo messages (refused || false)
      rw [Bool.or_false]
      exact nextShutdown_serves h hs
  · obtain ⟨c, -, rfl⟩ := Endpoint.step_ok hs
    have hnone : readBytes (i.call e.conn w) = none := by cases i <;> rfl
    change e.delivered ++ _ = _
    rw [Endpoint.chunksOf_of_readBytes hnone, List.flatten_nil, List.append_nil]

end Serving

section Runs
variable {s s' : Echo}

theorem server_step {p p' : Pair} {a : Call} (h : ConnectionPair.step p (.server, a) = .ok p') :
    (p .server).step a = .ok (p' .server) := by
  obtain ⟨e, he, heq⟩ := bind_ok.mp h
  cases heq
  rw [Function.update_self]
  exact he

theorem client_step {p p' : Pair} {a : Call} (h : ConnectionPair.step p (.client, a) = .ok p') :
    p' .server = p .server := by
  obtain ⟨e, -, heq⟩ := bind_ok.mp h
  cases heq
  exact Function.update_of_ne (Side.other_ne .client) _ _

theorem Instr.kernel {p : Pair} {i : Instr} {w : WriteResult} (h : Refuses (p .server).conn w) :
    Kernel p (.server, i.call (p .server).conn w) := by
  cases i with
  | retrieveAllAsString => exact ⟨fun _ h => (by cases h), fun _ h => (by cases h)⟩
  | shutdown => exact ⟨fun _ h => (by cases h), fun _ h => (by cases h)⟩
  | send message =>
    refine ⟨fun w' hw' => ?_, fun _ h => (by cases h)⟩
    cases hw'
    exact h

theorem step_inv (hi : Inv s) {a : Action} (he : Enabled s a) (hs : step s a = .ok s') :
    Inv s' := by
  have hout : OutputInv s.server.conn := (hi.pair.ends .server).output
  have hheard := hi.heard
  have hserves := hi.serves
  cases a with
  | client a =>
    obtain ⟨p, hp, heq⟩ := bind_ok.mp hs
    cases heq
    have hsame : p .server = s.server := client_step hp
    refine ⟨(ConnectionPair.step_inv hi.pair he).ok hp, ?_, ?_⟩
    · change _ = (p .server).delivered
      rw [hsame]
      exact hheard
    · change Serves (p .server) _ _ _
      rw [hsame]
      exact hserves
  | handleRead r =>
    obtain ⟨htodo, hup, hk⟩ := he
    rw [List.isEmpty_iff] at htodo
    rw [htodo] at hserves
    obtain ⟨p, hp, heq⟩ := bind_ok.mp hs
    have hpair := (ConnectionPair.step_inv hi.pair hk).ok hp
    have hstep := server_step hp
    match r with
    | .failed errno =>
      cases heq
      obtain ⟨h, hd⟩ := readFailed_serves hout hserves hstep
      exact ⟨hpair, hheard.trans hd.symm, htodo ▸ h⟩
    | .read [] =>
      cases heq
      obtain ⟨h, hd⟩ := readEnd_serves hout hserves hstep
      exact ⟨hpair, hheard.trans hd.symm, h⟩
    | .read (b::bytes) =>
      cases heq
      obtain ⟨h, hd⟩ := readMessage_serves hout (hpair.ends .server).output hup hserves
        (List.cons_ne_nil b bytes) hstep
      refine ⟨hpair, ?_, h⟩
      change (s.messages ++ [_]).flatten = (p .server).delivered
      rw [hd, List.flatten_append, hheard]
      simp [Echo.server]
  | handleWrite w =>
    obtain ⟨htodo, hk⟩ := he
    rw [List.isEmpty_iff] at htodo
    rw [htodo] at hserves
    obtain ⟨p, hp, heq⟩ := bind_ok.mp hs
    cases heq
    have hstep := server_step hp
    refine ⟨(ConnectionPair.step_inv hi.pair hk).ok hp, ?_, ?_⟩
    · obtain ⟨c, -, hp'⟩ := Endpoint.step_ok hstep
      change _ = (p .server).delivered
      rw [hp']
      exact hheard.trans (List.append_nil _).symm
    · rw [htodo]
      exact handleWrite_serves hout hserves hstep
  | handleError =>
    obtain ⟨htodo, hk⟩ := he
    rw [List.isEmpty_iff] at htodo
    rw [htodo] at hserves
    obtain ⟨p, hp, heq⟩ := bind_ok.mp hs
    cases heq
    have hstep := server_step hp
    refine ⟨(ConnectionPair.step_inv hi.pair hk).ok hp, ?_, ?_⟩
    · obtain ⟨c, -, hp'⟩ := Endpoint.step_ok hstep
      change _ = (p .server).delivered
      rw [hp']
      exact hheard.trans (List.append_nil _).symm
    · rw [htodo]
      exact handleError_serves hserves hstep
  | next w =>
    obtain ⟨-, hrefuses, hw⟩ := he
    cases ht : s.todo with
    | nil =>
      rw [step, ht] at hs
      cases hs
      exact hi
    | cons i todo =>
      rw [step, ht] at hs
      rw [ht] at hserves
      obtain ⟨p, hp, heq⟩ := bind_ok.mp hs
      cases heq
      obtain ⟨h, hd⟩ := next_serves hout hserves hw (server_step hp)
      have hk := Instr.kernel (i := i) hrefuses
      exact ⟨(ConnectionPair.step_inv hi.pair hk).ok hp, hheard.trans hd.symm, h⟩

theorem established_unshut (sockfd mark : ℕ) (writeComplete highWater : Bool) :
    Yields (construct sockfd writeComplete highWater mark >>= connectEstablished)
      (fun c => c.socket.shutdowns = []) (fun _ => True) := by
  simp only [TCPConnection.construct, yields_bind]
  refine (yields_true _).imp fun input _ => (yields_true _).imp fun output _ => ?_
  rw [yields_pure, connectEstablished, assertThat_of rfl, ok_bind]
  exact (yields_pure _ _ _).mpr rfl

theorem started_inv {p : Pair} (h : Established p) : Inv (started p) := by
  obtain ⟨sockfd, mark, writeComplete, highWater, c, hc, hp⟩ := h .server
  obtain ⟨-, -, hstate, -⟩ := (established_spec sockfd mark writeComplete highWater).ok hc
  obtain ⟨hin, -⟩ := (established_input sockfd mark writeComplete highWater).ok hc
  have hshut := (established_unshut sockfd mark writeComplete highWater).ok hc
  have hserver : (started p).server = Endpoint.established c := hp
  refine ⟨inv_of_established h, by rw [hserver]; rfl, ?_⟩
  rw [hserver]
  refine ⟨fun _ => hin, List.not_mem_nil, fun _ => ?_, fun hne => absurd hshut hne, fun _ => ?_,
    fun hr => (by cases hr), fun hr => (by cases hr)⟩
  · exact iff_of_true ⟨hstate, by simp [started, onConnection]⟩ List.not_mem_nil
  · change [] ++ owed (decide (c.state = _)) onConnection = _
    rw [hstate]
    rfl

theorem Serves.sent_in_reply {e : Endpoint} {todo : List Instr} {messages : List (List Byte)}
    {refused : Bool} (h : Serves e todo messages refused) :
    e.sent <+: helloLine.bytes ++ reply messages := by
  cases refused with
  | true => exact h.sent_refused rfl
  | false =>
    rw [← h.replied rfl]
    exact List.prefix_append _ _

/-- Every run of an echo server and whatever program is at the other end of its
connection, in every order of their steps. The client has got a part of the
answers to the messages that the server has heard, and these are a part of what
the client has sent; so without an `exit\n` in it the client gets back what it
has sent, behind the greeting. If the kernel refused no message, nothing is
missing between two callbacks, nor when the client has read the end of a stream
that the server has half-closed. -/
theorem echo_stream (p : Pair) (as : List Action) (s : Echo) (h : Established p)
    (hk : Admitted step Enabled (started p) as) (hr : run step (started p) as = .ok s) :
    s.client.got <+: helloLine.bytes ++ reply s.messages ∧
    s.messages.flatten <+: s.client.sent ∧
    (¬exitLine <:+: s.client.sent → s.client.got <+: helloLine.bytes ++ s.client.sent) ∧
    (s.refused = false → s.todo = [] → s.server.conn.state ≠ .kDisconnected →
      s.client.got ++ inFlight s.server s.client ++ s.server.conn.outputBuffer.contents =
        helloLine.bytes ++ reply s.messages) ∧
    (s.refused = false → s.client.ended = true → s.server.conn.socket.shutdowns ≠ [] →
      s.client.got = helloLine.bytes ++ reply s.messages) := by
  have hi : Inv s := (run_yields (E := fun _ => True) Enabled (fun s a hi he => by
    cases hs : step s a with
    | ok s' => exact (yields_ok _ _ _).mpr (step_inv hi he hs)
    | error e => exact (yields_error _ _ _).mpr trivial) as _ (started_inv h) hk).ok hr
  have hserver : s.server.Inv := hi.pair.ends .server
  have hgot : s.client.got = s.client.delivered := (hi.pair.ends .client).got_eq
  have hclient : s.client.wire <+: s.client.sent := (hi.pair.ends .client).wire_in_sent
  have hback : Endpoint.Carries s.server s.client := hi.pair.carries .client
  have hforth : Endpoint.Carries s.client s.server := hi.pair.carries .server
  have hsent := hi.serves.sent_in_reply
  have hheard : s.messages.flatten <+: s.client.sent := by
    rw [hi.heard]
    exact hforth.delivered_in_wire.trans hclient
  have hreplies : s.client.got <+: helloLine.bytes ++ reply s.messages := by
    rw [hgot]
    exact (hback.delivered_in_wire.trans hserver.wire_in_sent).trans hsent
  refine ⟨hreplies, hheard, fun hno => ?_, fun hrefused htodo hup => ?_,
    fun hrefused hended hshut => ?_⟩
  · have hplain : exitLine ∉ s.messages := by
      intro hm
      exact hno ((List.infix_of_mem_flatten hm).trans hheard.isInfix)
    rw [reply_eq_flatten hplain] at hreplies
    exact hreplies.trans ((List.prefix_append_right_inj _).mpr hheard)
  · have hreplied := hi.serves.replied hrefused
    rw [htodo, owed, List.append_nil] at hreplied
    have hwire : s.client.delivered ++ inFlight s.server s.client = s.server.wire := by
      obtain ⟨rest, hrest⟩ := hback.delivered_in_wire
      rw [inFlight, ← hrest, List.drop_left]
    rw [hgot, hwire, ← hreplied]
    exact hserver.up hup
  · have hreplied := hi.serves.replied hrefused
    rw [decide_eq_false (hi.serves.shut hshut), owed_false, List.append_nil] at hreplied
    rw [hgot, (hback.ended hended).1, (hserver.shut hshut).2]
    exact hreplied

def leaves : List Action := [
  .next (.accepted 6),
  .client (.send .hi (.accepted 2)),
  .handleRead (.read [72,105]),
  .next (.accepted 0),
  .client (.handleRead (.read [104,101,108])),
  .next (.accepted 1),
  .client (.send ⟨exitLine, by decide⟩ (.accepted 3)),
  .client (.handleWrite (.accepted 2)),
  .handleWrite (.accepted 1),
  .handleRead (.read exitLine),
  .next (.accepted 0),
  .next (.accepted 4),
  .next (.accepted 0),
  .next (.failed EPIPE),
  .client (.handleRead (.read [108,111,10,72,105,98,121,101,10])),
  .client (.handleRead (.read []))]

theorem echo_stream_leaves :
    ∃ c s, construct 5 true false 64 >>= connectEstablished = .ok c ∧
      run step (started fun _ => .established c) leaves = .ok s ∧
      s.messages = [[72,105], exitLine] ∧
      s.client.got = helloLine.bytes ++ ([72,105] ++ byeLine.bytes) := by
  have hrun : ((construct 5 true false 64 >>= connectEstablished) >>= fun c =>
      (fun s => (decide (Admitted step Enabled (started fun _ => .established c) leaves),
        s.messages, decide (s.refused = false ∧ s.client.ended = true),
        s.server.conn.socket.shutdowns)) <$>
        run step (started fun _ => .established c) leaves) =
      .ok (true, [[72,105], exitLine], true, [[]]) := by decide +kernel
  obtain ⟨c, hc, hmap⟩ := bind_ok.mp hrun
  obtain ⟨s, hs, hp⟩ := map_ok.mp hmap
  simp only [Prod.mk.injEq, decide_eq_true_eq] at hp
  obtain ⟨hadm, hmessages, ⟨hrefused, hended⟩, hshut⟩ := hp
  have h := echo_stream _ leaves s (fun _ => ⟨5, 64, true, false, c, hc, rfl⟩) hadm hs
  refine ⟨c, s, hc, hs, hmessages, ?_⟩
  rw [h.2.2.2.2 hrefused hended (by simp [hshut]), hmessages]
  rfl

end Runs

end Lux.Polaris.EchoServer

import LuxPolaris.Buffer
import LuxPolaris.Channel

/-!
# TCPConnection

The connection as its loop thread runs it. A `write` or `readv` answers what
its oracle argument says, cut down to what the call allows. Callbacks of the
user, functors for the loop and timers are emitted, in order, as effects; who
owns the connection decides when they run. Logging is left out.
-/

set_option autoImplicit false

namespace Lux.Polaris

inductive StateE where
  | kDisconnected
  | kConnecting
  | kConnected
  | kDisconnecting
  deriving DecidableEq, Repr

/-- Bytes handed over by a caller. They lie in one object in memory. -/
structure Message where
  bytes : List Byte
  fits : bytes.length ≤ maxSize

def Message.hi : Message := ⟨[72,105], by decide⟩

def Message.bang : Message := ⟨[33], by decide⟩

/-- The kernel's end: the bytes it has accepted and, for each
`shutdownWrite()`, the bytes still in `outputBuffer_` at that call. -/
structure Socket where
  wire : List Byte
  shutdowns : List (List Byte)
  deriving DecidableEq, Repr

inductive WriteResult where
  | accepted (n : ℕ)
  | failed (errno : ℕ)
  deriving DecidableEq, Repr

def EWOULDBLOCK : ℕ := 11
def EPIPE : ℕ := 32
def ECONNRESET : ℕ := 104

inductive ConnFunctor where
  | writeCompleteCallback
  | highWaterMarkCallback (size : ℕ)
  | forceCloseInLoop
  deriving DecidableEq, Repr

inductive Effect where
  | connectionCallback (connected : Bool)
  | messageCallback
  | closeCallback
  | queueInLoop (f : ConnFunctor)
  | forceCloseAfter (delay : Seconds)
  deriving DecidableEq, Repr

structure TCPConnection where
  state : StateE
  reading : Bool
  socket : Socket
  channel : Channel
  writeCompleteCallback : Bool
  highWaterMarkCallback : Bool
  highWaterMark : ℕ
  inputBuffer : Buffer
  outputBuffer : Buffer
  effects : List Effect
  deriving DecidableEq, Repr

namespace TCPConnection

/-- The constructor and the callbacks its owner sets before establishing it. -/
def construct (sockfd : ℕ) (writeComplete highWater : Bool) (mark : ℕ) :
    Except Fault TCPConnection := do
  let input ← Buffer.construct kInitialSize
  let output ← Buffer.construct kInitialSize
  return {
    state := .kConnecting
    reading := false
    socket := ⟨[], []⟩
    channel := .construct sockfd
    writeCompleteCallback := writeComplete
    highWaterMarkCallback := highWater
    highWaterMark := mark
    inputBuffer := input
    outputBuffer := output
    effects := [] }

def emit (c : TCPConnection) (e : Effect) : TCPConnection :=
  { c with effects := c.effects ++ [e] }

def setState (c : TCPConnection) (s : StateE) : TCPConnection := { c with state := s }

def accept (c : TCPConnection) (data : List Byte) (n : ℕ) : TCPConnection :=
  { c with socket := { c.socket with wire := c.socket.wire ++ data.take n } }

def queueWriteComplete (c : TCPConnection) : TCPConnection :=
  if c.writeCompleteCallback then c.emit (.queueInLoop .writeCompleteCallback) else c

/-- Nothing is queued for output, so a message may go straight to the kernel. -/
def canWriteDirectly (c : TCPConnection) : Bool :=
  !c.channel.isWriting && c.outputBuffer.readableBytes = 0

def isFault (errno : ℕ) : Bool :=
  errno ≠ EWOULDBLOCK && (errno = EPIPE || errno = ECONNRESET)

def writeDirectly (c : TCPConnection) (data : List Byte) (w : WriteResult) :
    TCPConnection × ℕ × Bool :=
  if c.canWriteDirectly then
    match w with
    | .accepted k =>
      let nwrote := min k data.length
      let c := c.accept data nwrote
      (if data.length-nwrote = 0 then c.queueWriteComplete else c, nwrote, false)
    | .failed errno => (c, 0, isFault errno)
  else (c, 0, false)

/-- The part of `sendInLoop` that keeps what the kernel did not take. -/
def bufferRemaining (c : TCPConnection) (rest : List Byte) : Except Fault TCPConnection := do
  let oldLen := c.outputBuffer.readableBytes
  let c :=
    if oldLen+rest.length ≥ c.highWaterMark ∧ oldLen < c.highWaterMark ∧
        c.highWaterMarkCallback = true then
      c.emit (.queueInLoop (.highWaterMarkCallback (oldLen+rest.length)))
    else c
  let output ← c.outputBuffer.append rest
  let c := { c with outputBuffer := output }
  return if c.channel.isWriting then c else { c with channel := c.channel.enableWriting }

def sendInLoop (c : TCPConnection) (message : Message) (w : WriteResult) :
    Except Fault TCPConnection := do
  if c.state = .kDisconnected then return c
  let (c, nwrote, faultError) := c.writeDirectly message.bytes w
  let remaining := message.bytes.length-nwrote
  assertThat (remaining ≤ message.bytes.length) "remaining <= len"
  if !faultError && remaining > 0 then
    c.bufferRemaining (message.bytes.drop nwrote)
  else return c

def send (c : TCPConnection) (message : Message) (w : WriteResult) :
    Except Fault TCPConnection :=
  if c.state = .kConnected then c.sendInLoop message w else .ok c

def shutdownWrite (c : TCPConnection) : TCPConnection :=
  { c with socket := { c.socket with
      shutdowns := c.socket.shutdowns ++ [c.outputBuffer.contents] } }

def shutdownInLoop (c : TCPConnection) : TCPConnection :=
  if c.channel.isWriting then c else c.shutdownWrite

def shutdown (c : TCPConnection) : TCPConnection :=
  if c.state = .kConnected then (c.setState .kDisconnecting).shutdownInLoop else c

def forceClose (c : TCPConnection) : TCPConnection :=
  if c.state = .kConnected ∨ c.state = .kDisconnecting then
    (c.setState .kDisconnecting).emit (.queueInLoop .forceCloseInLoop)
  else c

def forceCloseWithDelay (c : TCPConnection) (delay : Seconds) : TCPConnection :=
  if c.state = .kConnected ∨ c.state = .kDisconnecting then
    (c.setState .kDisconnecting).emit (.forceCloseAfter delay)
  else c

def startReadInLoop (c : TCPConnection) : TCPConnection :=
  if !c.reading || !c.channel.isReading then
    { c with channel := c.channel.enableReading, reading := true }
  else c

def stopReadInLoop (c : TCPConnection) : TCPConnection :=
  if c.reading || c.channel.isReading then
    { c with channel := c.channel.disableReading, reading := false }
  else c

def connected (c : TCPConnection) : Bool := c.state = .kConnected

def callConnectionCallback (c : TCPConnection) : TCPConnection :=
  c.emit (.connectionCallback c.connected)

def connectEstablished (c : TCPConnection) : Except Fault TCPConnection := do
  assertThat (c.state = .kConnecting) "state_ == StateE::kConnecting"
  let c := c.setState .kConnected
  return { c with channel := c.channel.enableReading }.callConnectionCallback

def connectDestroyed (c : TCPConnection) : Except Fault TCPConnection := do
  let c :=
    if c.state = .kConnected then
      let c := c.setState .kDisconnected
      { c with channel := c.channel.disableAll }.callConnectionCallback
    else c
  let channel ← c.channel.remove
  return { c with channel := channel }

def handleClose (c : TCPConnection) : Except Fault TCPConnection := do
  assertThat (c.state = .kConnected ∨ c.state = .kDisconnecting)
    "state_ == StateE::kConnected || state_ == StateE::kDisconnecting"
  let c := c.setState .kDisconnected
  return ({ c with channel := c.channel.disableAll }.callConnectionCallback).emit .closeCallback

def forceCloseInLoop (c : TCPConnection) : Except Fault TCPConnection :=
  if c.state = .kConnected ∨ c.state = .kDisconnecting then c.handleClose else .ok c

def handleError (c : TCPConnection) : TCPConnection := c

def handleRead (c : TCPConnection) (r : Buffer.ReadResult) : Except Fault TCPConnection := do
  let (n, input) ← c.inputBuffer.readFd r
  let c := { c with inputBuffer := input }
  match n with
  | .ok n => if n > 0 then return c.emit .messageCallback else c.handleClose
  | .error _ => return c.handleError

def handleWrite (c : TCPConnection) (w : WriteResult) : Except Fault TCPConnection := do
  if c.channel.isWriting then
    let data ← c.outputBuffer.toStringPiece
    match w with
    | .accepted k =>
      let n := min k data.length
      if n > 0 then
        let c := c.accept data n
        let output ← c.outputBuffer.retrieve n
        let c := { c with outputBuffer := output }
        if c.outputBuffer.readableBytes = 0 then
          let c := { c with channel := c.channel.disableWriting }.queueWriteComplete
          return if c.state = .kDisconnecting then c.shutdownInLoop else c
        else return c
      else return c
    | .failed _ => return c
  else return c

/-- What the loop thread may do to an established connection. `takeInput` is
the message callback retrieving from `inputBuffer_`. -/
inductive Call where
  | sendInLoop (message : Message) (w : WriteResult)
  | send (message : Message) (w : WriteResult)
  | shutdown
  | forceClose
  | forceCloseWithDelay (delay : Seconds)
  | forceCloseInLoop
  | startRead
  | stopRead
  | handleRead (r : Buffer.ReadResult)
  | handleWrite (w : WriteResult)
  | handleClose
  | handleError
  | takeInput (len : ℕ)

def call (c : TCPConnection) : Call → Except Fault TCPConnection
  | .sendInLoop message w => c.sendInLoop message w
  | .send message w => c.send message w
  | .shutdown => .ok c.shutdown
  | .forceClose => .ok c.forceClose
  | .forceCloseWithDelay delay => .ok (c.forceCloseWithDelay delay)
  | .forceCloseInLoop => c.forceCloseInLoop
  | .startRead => .ok c.startReadInLoop
  | .stopRead => .ok c.stopReadInLoop
  | .handleRead r => c.handleRead r
  | .handleWrite w => c.handleWrite w
  | .handleClose => c.handleClose
  | .handleError => .ok c.handleError
  | .takeInput len => do
    let input ← c.inputBuffer.retrieve len
    return { c with inputBuffer := input }

def UserCall (c : TCPConnection) : Call → Prop
  | .send _ _ => True
  | .shutdown => True
  | .forceClose => True
  | .forceCloseWithDelay _ => True
  | .takeInput len => len ≤ c.inputBuffer.readableBytes
  | _ => False

instance (c : TCPConnection) : (a : Call) → Decidable (c.UserCall a)
  | .send _ _ => isTrue trivial
  | .shutdown => isTrue trivial
  | .forceClose => isTrue trivial
  | .forceCloseWithDelay _ => isTrue trivial
  | .takeInput _ => inferInstanceAs (Decidable (_ ≤ _))
  | .sendInLoop _ _ => isFalse not_false
  | .forceCloseInLoop => isFalse not_false
  | .startRead => isFalse not_false
  | .stopRead => isFalse not_false
  | .handleRead _ => isFalse not_false
  | .handleWrite _ => isFalse not_false
  | .handleClose => isFalse not_false
  | .handleError => isFalse not_false

end TCPConnection

end Lux.Polaris

import LuxPolaris.Runtime
import LuxPolaris.Slice

/-!
# Buffer

The vector and the two indices of `Buffer.h`, with the arithmetic of
`size_t`. Pointers into the vector are positions from `begin()`. Copies
between the vector and the caller are checked against the vector's bounds.
-/

set_option autoImplicit false

namespace Lux.Polaris
open Outcome Slice

structure Buffer where
  buffer : List Byte
  readerIndex : ℕ
  writerIndex : ℕ
  deriving DecidableEq, Repr

def kCheapPrepend : ℕ := 8
def kInitialSize : ℕ := 1024

/-- `std::vector::resize`: new cells are zero. -/
def resizeVector (buf : List Byte) (n : ℕ) : Except Fault (List Byte) :=
  if n ≤ maxSize then .ok (resize buf n 0) else .error .lengthError

def load (buf : List Byte) (i j : ℕ) : Except Fault (List Byte) :=
  if i ≤ j ∧ j ≤ buf.length then .ok (slice buf i j) else .error .outOfBounds

def store (buf : List Byte) (pos : ℕ) (data : List Byte) : Except Fault (List Byte) :=
  if pos+data.length ≤ buf.length then .ok (overwrite buf pos data) else .error .outOfBounds

namespace Buffer

def readableBytes (b : Buffer) : ℕ := sizeSub b.writerIndex b.readerIndex
def writableBytes (b : Buffer) : ℕ := sizeSub b.buffer.length b.writerIndex
def prependableBytes (b : Buffer) : ℕ := b.readerIndex

def contents (b : Buffer) : List Byte := slice b.buffer b.readerIndex b.writerIndex

def construct (initialSize : ℕ) : Except Fault Buffer := do
  let buf ← resizeVector [] (sizeT (kCheapPrepend+initialSize))
  let b : Buffer := ⟨buf, kCheapPrepend, kCheapPrepend⟩
  assertThat (b.readableBytes = 0) "readableBytes() == 0"
  assertThat (b.writableBytes = initialSize) "writableBytes() == initialSize"
  assertThat (b.prependableBytes = kCheapPrepend) "prependableBytes() == kCheapPrepend"
  return b

def retrieveAll (b : Buffer) : Buffer :=
  { b with readerIndex := kCheapPrepend, writerIndex := kCheapPrepend }

def retrieve (b : Buffer) (len : ℕ) : Except Fault Buffer := do
  assertThat (len ≤ b.readableBytes) "len <= readableBytes()"
  if len < b.readableBytes then
    return { b with readerIndex := sizeT (b.readerIndex+len) }
  else
    return b.retrieveAll

def retrieveUntil (b : Buffer) (finish : ℕ) : Except Fault Buffer := do
  assertThat (b.readerIndex ≤ finish) "peek() <= end"
  assertThat (finish ≤ b.writerIndex) "end <= beginWrite()"
  b.retrieve (sizeSub finish b.readerIndex)

def retrieveAsString (b : Buffer) (len : ℕ) : Except Fault (List Byte × Buffer) := do
  assertThat (len ≤ b.readableBytes) "len <= readableBytes()"
  let result ← load b.buffer b.readerIndex (b.readerIndex+len)
  let b ← b.retrieve len
  return (result, b)

def retrieveAllAsString (b : Buffer) : Except Fault (List Byte × Buffer) :=
  b.retrieveAsString b.readableBytes

def toStringPiece (b : Buffer) : Except Fault (List Byte) :=
  load b.buffer b.readerIndex (b.readerIndex+b.readableBytes)

def makeSpace (b : Buffer) (len : ℕ) : Except Fault Buffer := do
  if sizeT (b.writableBytes+b.prependableBytes) < sizeT (len+kCheapPrepend) then
    let buf ← resizeVector b.buffer (sizeT (b.writerIndex+len))
    return { b with buffer := buf }
  else
    assertThat (kCheapPrepend < b.readerIndex) "kCheapPrepend < readerIndex_"
    let readable := b.readableBytes
    let data ← load b.buffer b.readerIndex b.writerIndex
    let buf ← store b.buffer kCheapPrepend data
    let b : Buffer := ⟨buf, kCheapPrepend, sizeT (kCheapPrepend+readable)⟩
    assertThat (readable = b.readableBytes) "readable == readableBytes()"
    return b

def ensureWritableBytes (b : Buffer) (len : ℕ) : Except Fault Buffer := do
  let b ← if b.writableBytes < len then b.makeSpace len else pure b
  assertThat (b.writableBytes ≥ len) "writableBytes() >= len"
  return b

def hasWritten (b : Buffer) (len : ℕ) : Except Fault Buffer := do
  assertThat (len ≤ b.writableBytes) "len <= writableBytes()"
  return { b with writerIndex := sizeT (b.writerIndex+len) }

def unwrite (b : Buffer) (len : ℕ) : Except Fault Buffer := do
  assertThat (len ≤ b.readableBytes) "len <= readableBytes()"
  return { b with writerIndex := sizeSub b.writerIndex len }

def append (b : Buffer) (data : List Byte) : Except Fault Buffer := do
  let b ← b.ensureWritableBytes data.length
  let buf ← store b.buffer b.writerIndex data
  hasWritten { b with buffer := buf } data.length

def prepend (b : Buffer) (data : List Byte) : Except Fault Buffer := do
  assertThat (data.length ≤ b.prependableBytes) "len <= prependableBytes()"
  let b := { b with readerIndex := sizeSub b.readerIndex data.length }
  let buf ← store b.buffer b.readerIndex data
  return { b with buffer := buf }

/-- The new buffer is filled before it is swapped in, so a failure leaves the
old one in place. -/
def shrink (b : Buffer) (reserve : ℕ) : Except Fault Buffer := do
  let other ← construct kInitialSize
  let other ← other.ensureWritableBytes (sizeT (b.readableBytes+reserve))
  let piece ← b.toStringPiece
  other.append piece

/-- `sizeof extrabuf` in `readFd`. -/
def extraSize : ℕ := 65536

/-- What `readv` answers: the bytes it stored, first segment first, or the
error it left in `errno`. -/
inductive ReadResult where
  | read (data : List Byte)
  | failed (errno : ℕ)
  deriving DecidableEq, Repr

/-- The total length of the two segments, the second only when the writable
bytes do not already cover `extrabuf`. -/
def iovLength (b : Buffer) : ℕ :=
  if b.writableBytes < extraSize then b.writableBytes+extraSize else b.writableBytes

/-- `readv` fills at most the segments it is given. The answer is the number
of bytes read, or the error. -/
def readFd (b : Buffer) (r : ReadResult) : Except Fault (Except ℕ ℕ × Buffer) := do
  match r with
  | .failed errno => return (.error errno, b)
  | .read bytes =>
    let data := bytes.take b.iovLength
    let writeable := b.writableBytes
    let buf ← store b.buffer b.writerIndex (data.take writeable)
    if data.length ≤ writeable then
      return (.ok data.length, { b with
        buffer := buf, writerIndex := sizeT (b.writerIndex+data.length) })
    else
      let b ← append { b with buffer := buf, writerIndex := b.buffer.length } (data.drop writeable)
      return (.ok data.length, b)

end Buffer

end Lux.Polaris

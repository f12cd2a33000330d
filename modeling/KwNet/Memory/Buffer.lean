import Mathlib

/-!
# `Buffer`: the byte buffer of `Memorys/Buffer.h`

A vector of bytes with a read and a write index.  Assertions are compiled in, so an operation whose
assertion fails has no result (`none`).  Sizes are natural numbers: the vector is taken to grow as far
as it is asked to.

Pointers into the buffer are indices into the vector.  `readFd` is given the answer of `readv`
(`Readv`), which fills the writable tail first and the block on the stack after it.
-/

namespace KwNet.Memory

/-- `Buffer`. -/
structure Buffer where
  buf : List UInt8
  readIdx : ℕ
  writeIdx : ℕ
  deriving DecidableEq, Repr

namespace Buffer

/-- `Buffer::InitialSize`. -/
def initialSize : ℕ := 1024

/-- `Buffer(size_t initSize)`. -/
def ctor (initSize : ℕ) : Buffer :=
  { buf := List.replicate initSize 0, readIdx := 0, writeIdx := 0 }

def readableBytes (b : Buffer) : ℕ := b.writeIdx - b.readIdx

def writableBytes (b : Buffer) : ℕ := b.buf.length - b.writeIdx

/-- The bytes between `readBegin()` and `writeBegin()`. -/
def readable (b : Buffer) : List UInt8 := (b.buf.drop b.readIdx).take b.readableBytes

/-- `addCap`: grow the vector unless the read part already has the room, then move the readable
bytes to the front. -/
def addCap (b : Buffer) (len : ℕ) : Buffer :=
  let grown := if b.readIdx < len then b.buf ++ List.replicate len 0 else b.buf
  { buf := (grown.drop b.readIdx).take b.readableBytes ++ grown.drop b.readableBytes
    readIdx := 0
    writeIdx := b.readableBytes }

def ensureWritableBytes (b : Buffer) (len : ℕ) : Option Buffer :=
  let b' := if b.writableBytes < len then b.addCap (len - b.writableBytes) else b
  if len ≤ b'.writableBytes then some b' else none

/-- `append(data, len)`: the bytes are copied to `writeBegin()`. -/
def append (b : Buffer) (bytes : List UInt8) : Option Buffer :=
  (b.ensureWritableBytes bytes.length).map fun b' =>
    { b' with
      buf := b'.buf.take b'.writeIdx ++ bytes ++ b'.buf.drop (b'.writeIdx + bytes.length)
      writeIdx := b'.writeIdx + bytes.length }

/-- `retrieveAll`. -/
def retrieveAll (b : Buffer) : Buffer := { b with readIdx := 0, writeIdx := 0 }

/-- `retrieve(len)`, with its assertion. -/
def retrieve (b : Buffer) (len : ℕ) : Option Buffer :=
  if len ≤ b.readableBytes then
    some (if len < b.readableBytes then { b with readIdx := b.readIdx + len } else b.retrieveAll)
  else none

/-- `hasWritten(len)`. -/
def hasWritten (b : Buffer) (len : ℕ) : Option Buffer :=
  if len ≤ b.writableBytes then some { b with writeIdx := b.writeIdx + len } else none

/-- `unwrite(len)`. -/
def unwrite (b : Buffer) (len : ℕ) : Option Buffer :=
  if len ≤ b.readableBytes then some { b with writeIdx := b.writeIdx - len } else none

/-- `retrieveUntil(end)`; `until_` is the index `end` points to. -/
def retrieveUntil (b : Buffer) (until_ : ℤ) : Option Buffer :=
  if b.readIdx ≤ until_ then
    if until_ ≤ b.writeIdx then b.retrieve (until_ - b.readIdx).toNat else none
  else none

/-- `retrieveAsString(len)`. -/
def retrieveAsString (b : Buffer) (len : ℕ) : Option (List UInt8 × Buffer) :=
  if len ≤ b.readableBytes then
    (b.retrieve len).map fun b' => ((b.buf.drop b.readIdx).take len, b')
  else none

/-- `swap(rhs)`: what the two buffers are afterwards. -/
def swap (b rhs : Buffer) : Buffer × Buffer :=
  ({ buf := rhs.buf, readIdx := rhs.readIdx, writeIdx := rhs.writeIdx },
    { buf := b.buf, readIdx := b.readIdx, writeIdx := b.writeIdx })

/-- Bytes stored from `writeBegin()` on. -/
def store (b : Buffer) (bytes : List UInt8) : Buffer :=
  { b with buf := b.buf.take b.writeIdx ++ bytes ++ b.buf.drop (b.writeIdx + bytes.length) }

/-- The answer of `readv`. -/
inductive Readv where
  | error
  | bytes (data : List UInt8)
  deriving DecidableEq, Repr

/-- `sizeof(extra)` in `readFd`. -/
def extraSize : ℕ := 65536

/-- The bytes `readFd` asks `readv` for: the writable tail, and the block on the stack while the tail is
the smaller of the two. -/
def iovLength (b : Buffer) : ℕ :=
  b.writableBytes + if b.writableBytes < extraSize then extraSize else 0

/-- `readFd`, with the value it returns. -/
def readFd (b : Buffer) : Readv → Option (Buffer × ℤ)
  | .error => some (b, -1)
  | .bytes data =>
    let writable := b.writableBytes
    let b' := b.store (data.take writable)
    if data.length ≤ writable then some ({ b' with writeIdx := b.writeIdx + data.length }, data.length)
    else
      ({ b' with writeIdx := b'.buf.length }.append (data.drop writable)).map fun b'' =>
        (b'', data.length)

end Buffer

end KwNet.Memory

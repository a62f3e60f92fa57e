import NewMuduo.Splice
import Mathlib.Algebra.Order.Ring.Int

namespace NewMuduo

def kCheapPrepend : Nat := 8
def kInitialSize : Nat := 1024

-- net/Buffer.h. Pointers into buffer_ are indices; a size_t sum does not wrap
-- at the sizes a vector can have, so sizes are Nat. An operation whose assert
-- fails has no result.
structure Buffer where
  buffer : List UInt8
  readerIndex : Nat
  writerIndex : Nat
  deriving DecidableEq, Repr

namespace Buffer

def new (initialSize : Nat) : Buffer :=
  ⟨List.replicate (kCheapPrepend + initialSize) 0,kCheapPrepend,kCheapPrepend⟩

def readableBytes (b : Buffer) : Nat := b.writerIndex - b.readerIndex
def writableBytes (b : Buffer) : Nat := b.buffer.length - b.writerIndex
def prependableBytes (b : Buffer) : Nat := b.readerIndex

-- The len bytes from peek().
def peek (b : Buffer) (len : Nat) : List UInt8 := slice b.buffer b.readerIndex (b.readerIndex + len)

def readable (b : Buffer) : List UInt8 := slice b.buffer b.readerIndex b.writerIndex

def retrieveAll (b : Buffer) : Buffer :=
  {b with readerIndex := kCheapPrepend,writerIndex := kCheapPrepend}

def retrieve (b : Buffer) (len : Nat) : Option Buffer :=
  if len ≤ b.readableBytes then
    if len < b.readableBytes then some {b with readerIndex := b.readerIndex + len}
    else some b.retrieveAll
  else none

def retrieveUntil (b : Buffer) (last : Nat) : Option Buffer :=
  if b.readerIndex ≤ last ∧ last ≤ b.writerIndex then b.retrieve (last - b.readerIndex) else none

def retrieveInt64 (b : Buffer) : Option Buffer := b.retrieve 8
def retrieveInt32 (b : Buffer) : Option Buffer := b.retrieve 4
def retrieveInt16 (b : Buffer) : Option Buffer := b.retrieve 2
def retrieveInt8 (b : Buffer) : Option Buffer := b.retrieve 1

def retrieveAsString (b : Buffer) (len : Nat) : Option (List UInt8 × Buffer) :=
  if len ≤ b.readableBytes then (b.retrieve len).map fun after => (b.peek len,after) else none

def retrieveAllAsString (b : Buffer) : Option (List UInt8 × Buffer) := b.retrieveAsString b.readableBytes

def makeSpace (b : Buffer) (len : Nat) : Option Buffer :=
  if b.writableBytes + b.prependableBytes < len + kCheapPrepend then
    some {b with buffer := resize b.buffer (b.writerIndex + len) 0}
  else if kCheapPrepend < b.readerIndex then
    let readable := b.readableBytes
    let after : Buffer :=
      ⟨overwrite b.buffer kCheapPrepend (slice b.buffer b.readerIndex b.writerIndex),
        kCheapPrepend,kCheapPrepend + readable⟩
    if readable = after.readableBytes then some after else none
  else none

def ensureWritableBytes (b : Buffer) (len : Nat) : Option Buffer := do
  let after ← if b.writableBytes < len then b.makeSpace len else some b
  if len ≤ after.writableBytes then some after else none

def hasWritten (b : Buffer) (len : Nat) : Option Buffer :=
  if len ≤ b.writableBytes then some {b with writerIndex := b.writerIndex + len} else none

-- std::copy to beginWrite().
def copyToWrite (b : Buffer) (data : List UInt8) : Buffer :=
  {b with buffer := overwrite b.buffer b.writerIndex data}

def append (b : Buffer) (data : List UInt8) : Option Buffer := do
  let after ← b.ensureWritableBytes data.length
  (after.copyToWrite data).hasWritten data.length

def unwrite (b : Buffer) (len : Nat) : Option Buffer :=
  if len ≤ b.readableBytes then some {b with writerIndex := b.writerIndex - len} else none

def prepend (b : Buffer) (data : List UInt8) : Option Buffer :=
  if data.length ≤ b.prependableBytes then
    some {b with
      buffer := overwrite b.buffer (b.readerIndex - data.length) data
      readerIndex := b.readerIndex - data.length}
  else none

-- The object representation of an unsigned integer of n bytes on the
-- little-endian machine, and htobe: the integer whose bytes are reversed.
def memory : Nat → Nat → List UInt8
  | 0,_ => []
  | n + 1,x => UInt8.ofNat (x % 256) :: memory n (x / 256)

def ofMemory : List UInt8 → Nat
  | [] => 0
  | byte :: rest => byte.toNat + 256 * ofMemory rest

def htobe (n x : Nat) : Nat := ofMemory (memory n x).reverse

-- Signed values arrive as their two's complement words.
def prependInt64 (b : Buffer) (x : BitVec 64) : Option Buffer := b.prepend (memory 8 (htobe 8 x.toNat))
def prependInt32 (b : Buffer) (x : BitVec 32) : Option Buffer := b.prepend (memory 4 (htobe 4 x.toNat))
def prependInt16 (b : Buffer) (x : BitVec 16) : Option Buffer := b.prepend (memory 2 (htobe 2 x.toNat))
def prependInt8 (b : Buffer) (x : BitVec 8) : Option Buffer := b.prepend (memory 1 x.toNat)

def shrink (b : Buffer) (reserve : Nat) : Option Buffer := do
  let other ← (new kInitialSize).ensureWritableBytes (b.readableBytes + reserve)
  other.append (b.peek b.readableBytes)

-- What readv gives: the bytes in the order the iovecs are filled, none at end
-- of stream, or an error.
inductive ReadResult where
  | bytes (data : List UInt8)
  | error
  deriving DecidableEq, Repr

def extrabufSize : Nat := 65536

-- The sum of iov_len over the iovcnt iovecs offered.
def iovecBytes (b : Buffer) : Nat :=
  if b.writableBytes < extrabufSize then b.writableBytes + extrabufSize else b.writableBytes

def readFd (b : Buffer) : ReadResult → Option Buffer
  | .error => some b
  | .bytes data =>
    let writable := b.writableBytes
    let filled := b.copyToWrite (data.take writable)
    if data.length ≤ writable then some {filled with writerIndex := b.writerIndex + data.length}
    else {filled with writerIndex := b.buffer.length}.append (data.drop writable)

end Buffer
end NewMuduo

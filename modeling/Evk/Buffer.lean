import Evk.Fault
import Evk.Wire
import Evk.Posix

/-! The byte buffer of `buffer.h`. Three indices and a capacity describe one
allocation; `size_t` sums wrap, and every assertion and copy is checked. Fresh
storage comes from an `Allocator`, so no function can rely on its contents. -/
namespace Evk

structure Buffer where
  storage : List UInt8
  capacity : Nat
  readIndex : Nat
  writeIndex : Nat
  reservedPrependSize : Nat
  deriving DecidableEq, Repr

namespace Buffer

def kCheapPrependSize : Nat := 8
def kInitialSize : Nat := 1024
def kCRLF : List UInt8 := [13,10]
def newline : UInt8 := 10

def length (b : Buffer) : Except Fault Nat := do
  assert (b.writeIndex ≥ b.readIndex) .length
  return b.writeIndex - b.readIndex

def size (b : Buffer) : Except Fault Nat := b.length

def writableBytes (b : Buffer) : Except Fault Nat := do
  assert (b.capacity ≥ b.writeIndex) .writableBytes
  return b.capacity - b.writeIndex

def prependableBytes (b : Buffer) : Nat := b.readIndex

def construct (alloc : Allocator) (initialSize reservedPrependSize : Nat) : Except Fault Buffer := do
  let capacity := sizeAdd reservedPrependSize initialSize
  let storage ← alloc.allocate capacity
  let b : Buffer := ⟨storage,capacity,reservedPrependSize,reservedPrependSize,reservedPrependSize⟩
  assert ((← b.length) = 0) .constructor
  assert ((← b.writableBytes) = initialSize) .constructor
  assert (b.prependableBytes = reservedPrependSize) .constructor
  return b

/-- Discards all but the first `n` unread bytes; zero also rewinds the indices. -/
def truncate (b : Buffer) (n : Nat) : Buffer :=
  if n = 0 then
    { b with readIndex := b.reservedPrependSize, writeIndex := b.reservedPrependSize }
  else if b.writeIndex > sizeAdd b.readIndex n then
    { b with writeIndex := sizeAdd b.readIndex n }
  else b

def reset (b : Buffer) : Buffer := b.truncate 0

def skip (b : Buffer) (len : Nat) : Except Fault Buffer := do
  if len < (← b.length) then
    return { b with readIndex := sizeAdd b.readIndex len }
  else
    return b.reset

def retrieve (b : Buffer) (len : Nat) : Except Fault Buffer := b.skip len

/-- Makes room for `len` bytes behind the contents, in a larger allocation when the
free space on both sides is too small, in place otherwise. -/
def grow (b : Buffer) (alloc : Allocator) (len : Nat) : Except Fault Buffer := do
  if sizeAdd (← b.writableBytes) b.prependableBytes < sizeAdd len b.reservedPrependSize then
    -- `(capacity_ << 1) + len`
    let n := sizeAdd (sizeAdd b.capacity b.capacity) len
    let m ← b.length
    let d ← alloc.allocate n
    let d ← copyIn d b.reservedPrependSize (← copyOut b.storage b.readIndex m)
    return ⟨d,n,b.reservedPrependSize,sizeAdd m b.reservedPrependSize,b.reservedPrependSize⟩
  else
    assert (b.reservedPrependSize < b.readIndex) .grow
    let readable ← b.length
    let moved ← copyIn b.storage b.reservedPrependSize (← copyOut b.storage b.readIndex readable)
    let b' : Buffer := { b with
      storage := moved
      readIndex := b.reservedPrependSize
      writeIndex := sizeAdd b.reservedPrependSize readable }
    assert (readable = (← b'.length)) .grow
    assert ((← b'.writableBytes) ≥ len) .grow
    return b'

def reserve (b : Buffer) (alloc : Allocator) (len : Nat) : Except Fault Buffer :=
  if b.capacity ≥ sizeAdd len b.reservedPrependSize then .ok b
  else b.grow alloc (sizeAdd len b.reservedPrependSize)

def ensureWritableBytes (b : Buffer) (alloc : Allocator) (len : Nat) : Except Fault Buffer := do
  let b ← if (← b.writableBytes) < len then b.grow alloc len else .ok b
  assert ((← b.writableBytes) ≥ len) .ensureWritableBytes
  return b

def write (b : Buffer) (alloc : Allocator) (d : List UInt8) : Except Fault Buffer := do
  let b ← b.ensureWritableBytes alloc d.length
  let storage ← copyIn b.storage b.writeIndex d
  assert (sizeAdd b.writeIndex d.length ≤ b.capacity) .write
  return { b with storage, writeIndex := sizeAdd b.writeIndex d.length }

/-- The three overloads of `Append` all forward to `Write`. -/
def append (b : Buffer) (alloc : Allocator) (d : List UInt8) : Except Fault Buffer := b.write alloc d

def prepend (b : Buffer) (d : List UInt8) : Except Fault Buffer := do
  assert (d.length ≤ b.prependableBytes) .prepend
  let readIndex := b.readIndex - d.length
  let storage ← copyIn b.storage readIndex d
  return { b with storage, readIndex }

def unwriteBytes (b : Buffer) (n : Nat) : Except Fault Buffer := do
  assert (n ≤ (← b.length)) .unwriteBytes
  return { b with writeIndex := b.writeIndex - n }

def writeBytes (b : Buffer) (n : Nat) : Except Fault Buffer := do
  assert (n ≤ (← b.writableBytes)) .writeBytes
  return { b with writeIndex := sizeAdd b.writeIndex n }

def unreadBytes (b : Buffer) (n : Nat) : Except Fault Buffer := do
  assert (n < b.readIndex) .unreadBytes
  return { b with readIndex := b.readIndex - n }

def appendInt64 (order : ByteOrder) (b : Buffer) (alloc : Allocator) (x : BitVec 64) :=
  b.write alloc (hostBytes order 8 (bswap64 x))
def appendInt32 (order : ByteOrder) (b : Buffer) (alloc : Allocator) (x : BitVec 32) :=
  b.write alloc (hostBytes order 4 (htonl order x))
def appendInt16 (order : ByteOrder) (b : Buffer) (alloc : Allocator) (x : BitVec 16) :=
  b.write alloc (hostBytes order 2 (htons order x))
def appendInt8 (order : ByteOrder) (b : Buffer) (alloc : Allocator) (x : BitVec 8) :=
  b.write alloc (hostBytes order 1 x)

def prependInt64 (order : ByteOrder) (b : Buffer) (x : BitVec 64) :=
  b.prepend (hostBytes order 8 (bswap64 x))
def prependInt32 (order : ByteOrder) (b : Buffer) (x : BitVec 32) :=
  b.prepend (hostBytes order 4 (htonl order x))
def prependInt16 (order : ByteOrder) (b : Buffer) (x : BitVec 16) :=
  b.prepend (hostBytes order 2 (htons order x))
def prependInt8 (order : ByteOrder) (b : Buffer) (x : BitVec 8) :=
  b.prepend (hostBytes order 1 x)

/-- Appends a terminator and takes it back: the text ends in place. -/
def toText (order : ByteOrder) (b : Buffer) (alloc : Allocator) : Except Fault Buffer := do
  (← b.appendInt8 order alloc 0).unwriteBytes 1

def peekBytes (b : Buffer) (n : Nat) : Except Fault (List UInt8) := do
  assert ((← b.length) ≥ n) .peek
  copyOut b.storage b.readIndex n

def peekInt64 (order : ByteOrder) (b : Buffer) : Except Fault (BitVec 64) := do
  return bswap64 (ofHostBytes order 64 (← b.peekBytes 8))
def peekInt32 (order : ByteOrder) (b : Buffer) : Except Fault (BitVec 32) := do
  return ntohl order (ofHostBytes order 32 (← b.peekBytes 4))
def peekInt16 (order : ByteOrder) (b : Buffer) : Except Fault (BitVec 16) := do
  return ntohs order (ofHostBytes order 16 (← b.peekBytes 2))
def peekInt8 (order : ByteOrder) (b : Buffer) : Except Fault (BitVec 8) := do
  return ofHostBytes order 8 (← b.peekBytes 1)

def readInt64 (order : ByteOrder) (b : Buffer) : Except Fault (BitVec 64 × Buffer) := do
  return (← b.peekInt64 order,← b.skip 8)
def readInt32 (order : ByteOrder) (b : Buffer) : Except Fault (BitVec 32 × Buffer) := do
  return (← b.peekInt32 order,← b.skip 4)
def readInt16 (order : ByteOrder) (b : Buffer) : Except Fault (BitVec 16 × Buffer) := do
  return (← b.peekInt16 order,← b.skip 2)
def readInt8 (order : ByteOrder) (b : Buffer) : Except Fault (BitVec 8 × Buffer) := do
  return (← b.peekInt8 order,← b.skip 1)

/-- The bytes a `Slice` over the readable part refers to when it is made. -/
def toSlice (b : Buffer) : Except Fault (List UInt8) := do
  copyOut b.storage b.readIndex (← b.length)

def toString (b : Buffer) : Except Fault (List UInt8) := b.toSlice

/-- Rebuilds the contents in a new buffer with the default reserve and swaps with it;
the first allocator serves the new buffer, the second any growth of it. -/
def shrink (b : Buffer) (first second : Allocator) (reserve : Nat) : Except Fault Buffer := do
  let other ← construct first (sizeAdd (← b.length) reserve) kCheapPrependSize
  other.append second (← b.toSlice)

def nextAll (b : Buffer) : Except Fault (List UInt8 × Buffer) := do
  return (← copyOut b.storage b.readIndex (← b.length),b.reset)

def next (b : Buffer) (len : Nat) : Except Fault (List UInt8 × Buffer) := do
  if len < (← b.length) then
    return (← copyOut b.storage b.readIndex len,{ b with readIndex := sizeAdd b.readIndex len })
  else
    b.nextAll

def nextString (b : Buffer) (len : Nat) : Except Fault (List UInt8 × Buffer) := b.next len
def nextAllString (b : Buffer) : Except Fault (List UInt8 × Buffer) := b.nextAll

def readByte (b : Buffer) : Except Fault (UInt8 × Buffer) := do
  assert ((← b.length) ≥ 1) .readByte
  if (← b.length) = 0 then
    return (0,b)
  else match b.storage[b.readIndex]? with
    | some byte => return (byte,{ b with readIndex := sizeAdd b.readIndex 1 })
    | none => throw .outOfBounds

/-- The inner loop of `std::search`: the pattern from one position, within `count` bytes. -/
def matchesAt (mem : List UInt8) : List UInt8 → (it count : Nat) → Bool
  | [], _, _ => true
  | _ :: _, _, 0 => false
  | p :: pattern, it, count + 1 => mem[it]? == some p && matchesAt mem pattern (it + 1) count

/-- `std::search` over `[first, first + count)`; the end of the range when nothing matches. -/
def search (mem pattern : List UInt8) : (first count : Nat) → Nat
  | first, 0 => first
  | first, count + 1 =>
    if matchesAt mem pattern first (count + 1) then first else search mem pattern (first + 1) count

def memchr (mem : List UInt8) (c : UInt8) : (first count : Nat) → Option Nat
  | _, 0 => none
  | first, count + 1 => if mem[first]? = some c then some first else memchr mem c (first + 1) count

/-- Positions stand for pointers into the allocation, `none` for `nullptr`. -/
def findCRLFFrom (b : Buffer) (start : Nat) : Except Fault (Option Nat) := do
  assert (b.readIndex ≤ start) .find
  assert (start ≤ b.writeIndex) .find
  let crlf := search b.storage kCRLF start (b.writeIndex - start)
  return if crlf = b.writeIndex then none else some crlf

def findCRLF (b : Buffer) : Option Nat :=
  let crlf := search b.storage kCRLF b.readIndex (b.writeIndex - b.readIndex)
  if crlf = b.writeIndex then none else some crlf

def findEOLFrom (b : Buffer) (start : Nat) : Except Fault (Option Nat) := do
  assert (b.readIndex ≤ start) .find
  assert (start ≤ b.writeIndex) .find
  return memchr b.storage newline start (b.writeIndex - start)

def findEOL (b : Buffer) : Except Fault (Option Nat) := do
  return memchr b.storage newline b.readIndex (← b.length)

def extrabufSize : Nat := 65536

/-- The total length of the iovecs `ReadFromFD` passes to `readv`. -/
def readLimit (writable : Nat) : Nat :=
  if writable < extrabufSize then writable + extrabufSize else writable

/-- Data beyond the writable part lands in a stack buffer and is appended from there. -/
def readFromFD (b : Buffer) (alloc : Allocator) (r : ReadResult) : Except Fault Buffer := do
  let writable ← b.writableBytes
  match r with
  | .failed _ => return b
  | .bytes data =>
    if data.length ≤ writable then
      let storage ← copyIn b.storage b.writeIndex data
      return { b with storage, writeIndex := sizeAdd b.writeIndex data.length }
    else
      let storage ← copyIn b.storage b.writeIndex (data.take writable)
      Buffer.append { b with storage, writeIndex := b.capacity } alloc (data.drop writable)

end Buffer
end Evk

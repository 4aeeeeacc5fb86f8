import NanoSocket.Core.Cmsg
import NanoSocket.Lib.Memory
import NanoSocket.NanoMsg.SynchronizedPool

/-!
# The stream that a message is written to (`WriteStream.cs`, `MemoryUtils.cs`)

A stream is a chain of pages in native memory.  A page has 4096 bytes and starts with the 16 bytes
of an `IoBuffer`: a pointer `Next` to the page behind it, and `Capacity` and `Length`.  `Data` is
`ref *Next` and 16 bytes more, so it is found behind the `Next` of a page and not behind the page.
`Next` is set when the page behind it is taken; a new page has in it what its memory has.

Memory is a function from addresses to bytes, for a machine with 64-bit little-endian words.  An
access to memory that is not mapped is a null reference in the first 64 KiB, and ends the process
elsewhere.  The arrays of managed code are not in this memory.
-/

namespace NanoSocket

/-- How a call does not return: an exception, the end of the process, or a loop that has not ended
yet.  A call that asks the manager for one page more than it was given in the model ends with
`exhausted`. -/
inductive Trap
  | threw (e : ClrException)
  | crash
  | endless
  | exhausted
  deriving DecidableEq, Repr

/-- An access to memory that is not mapped. -/
def accessViolation (a : ℕ) : Trap := if a < 2 ^ 16 then .threw .nullReference else .crash

/-- The fields of `WriteStream`, where `0` is a null pointer, and `pool` says that there is a
manager. -/
structure WriteStream where
  head : ℕ
  current : ℕ
  length : ℤ
  pool : Bool
  deriving DecidableEq, Repr

/-- A new stream. -/
def WriteStream.new : WriteStream := { head := 0, current := 0, length := 0, pool := true }

/-- What a call works on: memory, the pages that the manager hands out next, the stream, and the
pages that the manager has handed out to this stream and got back from it. -/
structure StreamState where
  memory : Memory UInt8
  supply : List ℕ
  stream : WriteStream
  taken : List ℕ
  returned : List ℕ

/-- The calls. What they did before an exception stays. -/
abbrev StreamM := EStateM Trap StreamState

/-- `PageSize`. -/
def pageSize : ℕ := 4096

namespace IoBuffer

/-- `SizeOf`. -/
def sizeOf : ℕ := 16

/-- The bytes at an address. -/
def loadBytes (memory : Memory UInt8) (a n : ℕ) : Except Trap (List UInt8) :=
  match memory.load a n with
  | some bytes => .ok bytes
  | none => .error (accessViolation a)

/-- An `int` at an address. -/
def loadInt (memory : Memory UInt8) (a : ℕ) : Except Trap ℤ :=
  return int32 (getLe (← loadBytes memory a 4))

/-- `Next`. -/
def next (memory : Memory UInt8) (self : ℕ) : Except Trap ℕ :=
  return getLe (← loadBytes memory self 8)

/-- `Capacity`. -/
def capacity (memory : Memory UInt8) (self : ℕ) : Except Trap ℤ := loadInt memory (self + 8)

/-- `Length`. -/
def length (memory : Memory UInt8) (self : ℕ) : Except Trap ℤ := loadInt memory (self + 12)

/-- `Data`. -/
def data (memory : Memory UInt8) (self : ℕ) : Except Trap ℕ :=
  return ((← next memory self) + sizeOf) % 2 ^ 64

/-- `Needle`. -/
def needle (memory : Memory UInt8) (self : ℕ) : Except Trap ℕ := do
  let data ← data memory self
  let length ← length memory self
  return ((data + length) % 2 ^ 64).toNat

end IoBuffer

/-- Store bytes at an address. -/
def storeBytes (a : ℕ) (bytes : List UInt8) : StreamM Unit := do
  let s ← get
  match s.memory.store a bytes with
  | some memory => set { s with memory }
  | none => throw (accessViolation a)

/-- Store an `int`. -/
def storeInt (a : ℕ) (x : ℤ) : StreamM Unit := storeBytes a (putLe 4 (x % 2 ^ 32).toNat)

/-- Read memory. -/
def fetch {α : Type} (f : Memory UInt8 → Except Trap α) : StreamM α := do
  match f (← get).memory with
  | .ok a => return a
  | .error e => throw e

/-- Change the fields of the stream. -/
def modifyStream (f : WriteStream → WriteStream) : StreamM Unit :=
  modify fun s => { s with stream := f s.stream }

/-! ### `MemoryUtils` -/

/-- The sizes of the words that `CopyMemory` copies: two `long`s in each round of the loop, and the
rest. -/
def copyWords (length : ℕ) : List ℕ :=
  List.replicate (2 * (length / 16)) 8 ++ [8, 4, 2, 1].filter fun word => length % 16 &&& word ≠ 0

/-- Copy words. -/
def copyLoop : List ℕ → List UInt8 → ℕ → StreamM Unit
  | [], _, _ => return
  | word :: words, src, dest => do
    storeBytes dest (src.take word)
    copyLoop words (src.drop word) (dest + word)

/-- `CopyMemory`, with the bytes at its source. -/
def copyMemory (src : List UInt8) (dest : ℕ) : StreamM Unit :=
  copyLoop (copyWords src.length) src dest

namespace WriteStream

/-- `_pool.TakeBuffer`.  The manager hands out the next page of the supply; a null pointer says that
there is no memory. -/
def takeBuffer : StreamM ℕ := do
  let s ← get
  if s.stream.pool then
    match s.supply with
    | [] => throw .exhausted
    | page :: supply =>
      set { s with supply, taken := if page = 0 then s.taken else s.taken ++ [page] }
      return page
  else throw (.threw .nullReference)

/-- `EnsureCapacity`. -/
def ensureCapacity : StreamM ℤ := do
  let self := (← get).stream
  if self.current = 0 then
    let current ← takeBuffer
    modifyStream fun self => { self with current }
    storeInt (current + 8) pageSize
    storeInt (current + 12) 0
    modifyStream fun self => { self with head := current }
    fetch fun memory => IoBuffer.capacity memory current
  else
    let capacity ← fetch fun memory => IoBuffer.capacity memory self.current
    let length ← fetch fun memory => IoBuffer.length memory self.current
    if length ≠ capacity then
      return int32 (capacity - length)
    else
      let next ← takeBuffer
      storeInt (next + 8) pageSize
      storeInt (next + 12) 0
      storeBytes self.current (putLe 8 next)
      modifyStream fun self => { self with current := next }
      return pageSize

/-- `_current->Length += x`. -/
def addLength (x : ℤ) : StreamM Unit := do
  let current := (← get).stream.current
  let length ← fetch fun memory => IoBuffer.length memory current
  storeInt (current + 12) (length + x)

/-- The bytes of an array that `CopyMemory` reads, none for a length that is not positive. -/
def sourceBytes (buffer : List UInt8) (offset length : ℤ) : StreamM (List UInt8) :=
  if length ≤ 0 then return []
  else if 0 ≤ offset ∧
    offset + length ≤ buffer.length then return (buffer.drop offset.toNat).take length.toNat
  else throw .crash

/-- The loop of `Write`. -/
def writeLoop (buffer : List UInt8) : ℕ → ℤ → ℤ → StreamM Unit
  | 0, _, _ => throw .endless
  | fuel + 1, offset, count => do
    let capacity ← ensureCapacity
    let toCopy := min count capacity
    let current := (← get).stream.current
    let needle ← fetch fun memory => IoBuffer.needle memory current
    copyMemory (← sourceBytes buffer offset toCopy) needle
    addLength toCopy
    let count := int32 (count - toCopy)
    if count = 0 then return
    writeLoop buffer fuel (int32 (offset + toCopy)) count

/-- `Write`. -/
def write (fuel : ℕ) (buffer : List UInt8) (offset count : ℤ) : StreamM Unit := do
  writeLoop buffer fuel offset count
  modifyStream fun self => { self with length := int32 (self.length + count) }

/-- `WriteByte`. -/
def writeByte (value : UInt8) : StreamM Unit := do
  let _ ← ensureCapacity
  let current := (← get).stream.current
  let data ← fetch fun memory => IoBuffer.needle memory current
  storeBytes data [value]
  addLength 1

/-- The loop of `PageCount`. -/
def pageCountLoop (memory : Memory UInt8) : ℕ → ℕ → ℕ → Except Trap ℕ
  | 0, _, _ => .error .endless
  | fuel + 1, header, i =>
    if header = 0 then .ok i
    else do
      let next ← IoBuffer.next memory header
      pageCountLoop memory fuel next (i + 1)

/-- `PageCount`. -/
def pageCount (memory : Memory UInt8) (self : WriteStream) (fuel : ℕ) : Except Trap ℕ :=
  pageCountLoop memory fuel self.head 0

/-- `CopyBlockUnaligned` to the place `offset` of an array.  An array without elements has a null
pointer. -/
def copyBlock (memory : Memory UInt8) (size : ℤ) (offset : ℕ) (src : ℕ) (length : ℤ) :
    Except Trap (List UInt8) :=
  if length = 0 then .ok []
  else if 0 ≤ length ∧ offset + length ≤ size then IoBuffer.loadBytes memory src length.toNat
  else .error (if size = 0 then .threw .nullReference else .crash)

/-- The loop of `ToArray`, with the bytes that were copied. -/
def toArrayLoop (memory : Memory UInt8) (size : ℤ) : ℕ → ℕ → List UInt8 → Except Trap (List UInt8)
  | 0, _, _ => .error .endless
  | fuel + 1, page, out =>
    if page = 0 then .ok (out ++ List.replicate (size.toNat - out.length) 0)
    else do
      let data ← IoBuffer.data memory page
      let length ← IoBuffer.length memory page
      let bytes ← copyBlock memory size out.length data length
      let next ← IoBuffer.next memory page
      toArrayLoop memory size fuel next (out ++ bytes)

/-- `ToArray`. -/
def toArray (memory : Memory UInt8) (self : WriteStream) (fuel : ℕ) : Except Trap (List UInt8) :=
  if self.length < 0 then .error (.threw .overflow)
    else toArrayLoop memory self.length fuel self.head []

/-- `FirstPage`. -/
def firstPage (memory : Memory UInt8) (self : WriteStream) : Except Trap (ℕ × ℤ) := do
  let data ← IoBuffer.data memory self.head
  let length ← IoBuffer.length memory self.head
  return (data, length)

/-- `NextPage`, which takes the data of a page for the page. -/
def nextPage (memory : Memory UInt8) (result : ℕ × ℤ) : Except Trap (ℕ × ℤ) := do
  let next ← IoBuffer.next memory result.1
  if next = 0 then return (0, 0)
  let data ← IoBuffer.data memory next
  let length ← IoBuffer.length memory next
  return (data, length)

/-- The loop of `Dispose`. -/
def disposeLoop (pool : Bool) : ℕ → ℕ → StreamM Unit
  | 0, _ => throw .endless
  | fuel + 1, head =>
    if head = 0 then return
    else do
      let next ← fetch fun memory => IoBuffer.next memory head
      if pool then
        modify fun s => { s with returned := s.returned ++ [head] }
        disposeLoop pool fuel next
      else throw (.threw .nullReference)

/-- `Dispose`. -/
def dispose (fuel : ℕ) : StreamM Unit := do
  let self := (← get).stream
  modifyStream fun self => { self with pool := false, head := 0, current := 0 }
  disposeLoop self.pool fuel self.head

end WriteStream

end NanoSocket

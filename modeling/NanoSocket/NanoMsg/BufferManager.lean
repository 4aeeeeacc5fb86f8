import NanoSocket.NanoMsg.SynchronizedPool

/-!
# The buffer manager (`Internal/UnmanagedBufferManager.cs`)

A manager has pools for increasing buffer sizes, with a limit each; what the limits leave of the
memory is `remainingMemory`.  A buffer is taken from the pool of the first size that is large
enough, or allocated.  After eight misses the manager looks for a pool that is always in full use
and gives it one more buffer, which it may take from the pool that uses the least of its limit.

One thread runs at a time. Native buffers have numbers, and `nn_allocmsg` returns the next one.
-/

namespace NanoSocket

/-- Where a pool keeps its buffers: `SynchronizedBufferPool` and `LargeBufferPool`. -/
inductive InnerPool
  | synchronized (innerPool : SynchronizedPool ByteBuffer)
  | large (items : List ByteBuffer)
  deriving DecidableEq, Repr

/-- The buffers in a pool that are not on the entries of a thread. -/
def InnerPool.items : InnerPool → List ByteBuffer
  | .synchronized innerPool => innerPool.globalPool.items
  | .large items => items

/-- `BufferPool`. -/
structure BufferPool where
  bufferSize : ℤ
  limit : ℤ
  misses : ℤ
  peak : ℤ
  count : ℤ
  inner : InnerPool
  deriving DecidableEq, Repr

namespace BufferPool

/-- `CreatePool`. -/
def createPool (processorCount : ℕ) (bufferSize limit : ℤ) : Except ClrException BufferPool :=
  if bufferSize < 85000 then do
    let innerPool ← SynchronizedPool.new processorCount limit
    return { bufferSize, limit, misses := 0, peak := 0, count := 0,
             inner := .synchronized innerPool }
  else if limit < 0 then .error .argumentOutOfRange
  else .ok { bufferSize, limit, misses := 0, peak := 0, count := 0, inner := .large [] }

/-- `Clear`, with the buffers that are freed. -/
def clear (self : BufferPool) : List ByteBuffer × BufferPool :=
  match self.inner with
  | .synchronized innerPool =>
    let (freed, innerPool) := innerPool.clear
    (freed, { self with count := 0, inner := .synchronized innerPool })
  | .large items =>
    (items.filter fun item => item.data.isSome, { self with count := 0, inner := .large [] })

/-- `DecrementCount`. -/
def decrementCount (self : BufferPool) : BufferPool :=
  let newValue := int32 (self.count - 1)
  if newValue ≥ 0 then { self with count := newValue } else self

/-- `IncrementCount`. -/
def incrementCount (self : BufferPool) : BufferPool :=
  let newValue := int32 (self.count + 1)
  if newValue > self.limit then self
  else { self with count := newValue, peak := if newValue > self.peak then newValue else self.peak }

/-- `Take`. -/
def take (self : BufferPool) (thread : ℕ) : ByteBuffer × BufferPool :=
  match self.inner with
  | .synchronized innerPool =>
    let (buffer, innerPool) := innerPool.take thread
    (buffer, { self with inner := .synchronized innerPool })
  | .large [] => (.default, self)
  | .large (item :: items) => (item, { self with inner := .large items })

/-- `Return`. -/
def returnBuffer (self : BufferPool) (thread : ℕ) (buffer : ByteBuffer) :
    Except ClrException (Bool × BufferPool) :=
  match self.inner with
  | .synchronized innerPool => do
    let (returned, innerPool) ← innerPool.returnValue thread buffer
    return (returned, { self with inner := .synchronized innerPool })
  | .large items =>
    if (items.length : ℤ) ≥ self.limit then .ok (false, self)
    else .ok (true, { self with inner := .large (buffer :: items) })

end BufferPool

/-- `PooledBufferManager`. -/
structure PooledBufferManager where
  bufferPools : List BufferPool
  bufferSizes : List ℤ
  memoryLimit : ℤ
  remainingMemory : ℤ
  totalMisses : ℤ
  areQuotasBeingTuned : Bool
  deriving DecidableEq, Repr

/-- `MinBufferSize`. -/
def minBufferSize : ℤ := 128

/-- `MaxMissesBeforeTuning`. -/
def maxMissesBeforeTuning : ℤ := 8

/-- `InitialBufferCount`. -/
def initialBufferCount : ℤ := 1

namespace PooledBufferManager

section Functions

-- `Environment.ProcessorCount`
variable (processorCount : ℕ)

/-- The loop of the constructor, for a number of rounds: the pools and the memory that remains. -/
def createPools (maxBufferSize : ℤ) :
    ℕ → ℤ → ℤ → List BufferPool → Option (Except ClrException (List BufferPool × ℤ))
  | 0, _, _, _ => none
  | rounds + 1, bufferSize, remainingMemory, bufferPoolList =>
    let bufferCountLong := remainingMemory / bufferSize
    let bufferCount := if bufferCountLong > 2 ^ 31 - 1 then 2 ^ 31 - 1 else bufferCountLong
    let bufferCount := if bufferCount > initialBufferCount then initialBufferCount else bufferCount
    match BufferPool.createPool processorCount bufferSize bufferCount with
    | .error e => some (.error e)
    | .ok bufferPool =>
      let bufferPoolList := bufferPoolList ++ [bufferPool]
      let remainingMemory := remainingMemory - bufferCount * bufferSize
      if bufferSize ≥ maxBufferSize then some (.ok (bufferPoolList, remainingMemory))
      else
        let newBufferSizeLong := bufferSize * 2
        createPools maxBufferSize rounds
          (if newBufferSizeLong > maxBufferSize then maxBufferSize
            else newBufferSizeLong) remainingMemory
          bufferPoolList

/-- The constructor, whose loop may make a number of rounds. -/
def new (rounds : ℕ) (maxMemoryToPool maxBufferSize : ℤ) :
    Option (Except ClrException PooledBufferManager) :=
  (createPools processorCount maxBufferSize rounds minBufferSize maxMemoryToPool []).map fun r => do
    let (bufferPools, remainingMemory) ← r
    return { bufferPools, bufferSizes := bufferPools.map BufferPool.bufferSize,
             memoryLimit := maxMemoryToPool
             remainingMemory, totalMisses := 0, areQuotasBeingTuned := false }

/-- `Clear`, with the buffers that are freed. -/
def clear (self : PooledBufferManager) : List ByteBuffer × PooledBufferManager :=
  ((self.bufferPools.map fun bufferPool => bufferPool.clear.1).flatten,
    { self with bufferPools := self.bufferPools.map fun bufferPool => bufferPool.clear.2 })

/-- The loop of `ChangeQuota`, for the rounds that are left. -/
def moveBuffers (thread : ℕ) : ℕ → BufferPool → BufferPool → Except ClrException BufferPool
  | 0, _, newBufferPool => .ok newBufferPool
  | rounds + 1, oldBufferPool, newBufferPool =>
    let (buffer, oldBufferPool) := oldBufferPool.take thread
    match buffer.data with
    | none => .ok newBufferPool
    | some _ => do
      let (_, newBufferPool) ← newBufferPool.returnBuffer thread buffer
      moveBuffers thread rounds oldBufferPool newBufferPool.incrementCount

/-- `ChangeQuota` of the pool at an index. -/
def changeQuota (self : PooledBufferManager) (thread : ℕ) (index : ℕ) (delta : ℤ) :
    Except ClrException PooledBufferManager :=
  match self.bufferPools[index]? with
  | none => .error .nullReference
  | some oldBufferPool => do
    let newLimit := int32 (oldBufferPool.limit + delta)
    let newBufferPool ← BufferPool.createPool processorCount oldBufferPool.bufferSize newLimit
    let newBufferPool ← moveBuffers thread newLimit.toNat oldBufferPool newBufferPool
    return { self with
      remainingMemory := self.remainingMemory - int32 (oldBufferPool.bufferSize * delta)
      bufferPools := self.bufferPools.set index newBufferPool }

/-- `DecreaseQuota`. -/
def decreaseQuota (self : PooledBufferManager) (thread : ℕ) (index : ℕ) :
    Except ClrException PooledBufferManager :=
  changeQuota processorCount self thread index (-1)

/-- `IncreaseQuota`. -/
def increaseQuota (self : PooledBufferManager) (thread : ℕ) (index : ℕ) :
    Except ClrException PooledBufferManager :=
  changeQuota processorCount self thread index 1

/-- The loop of `FindMostExcessivePool`, from an index on. -/
def findMostExcessiveFrom : List BufferPool → ℕ → ℤ → Option ℕ → Option ℕ
  | [], _, _, index => index
  | bufferPool :: bufferPools, i, maxBytesInExcess, index =>
    if bufferPool.peak ≥ bufferPool.limit then findMostExcessiveFrom bufferPools (i + 1)
      maxBytesInExcess index
    else
      let bytesInExcess := (bufferPool.limit - bufferPool.peak) * bufferPool.bufferSize
      if bytesInExcess ≤ maxBytesInExcess then findMostExcessiveFrom bufferPools (i + 1)
        maxBytesInExcess index
      else findMostExcessiveFrom bufferPools (i + 1) bytesInExcess (some i)

/-- `FindMostExcessivePool`, or nothing for `-1`. -/
def findMostExcessivePool (self : PooledBufferManager) : Option ℕ :=
  findMostExcessiveFrom self.bufferPools 0 0 none

/-- The loop of `FindMostStarvedPool`, from an index on. -/
def findMostStarvedFrom : List BufferPool → ℕ → ℤ → Option ℕ → Option ℕ
  | [], _, _, index => index
  | bufferPool :: bufferPools, i, maxBytesMissed, index =>
    if bufferPool.peak ≠ bufferPool.limit then findMostStarvedFrom bufferPools (i + 1)
      maxBytesMissed index
    else
      let bytesMissed := bufferPool.misses * bufferPool.bufferSize
      if bytesMissed ≤ maxBytesMissed then findMostStarvedFrom bufferPools (i + 1)
        maxBytesMissed index
      else findMostStarvedFrom bufferPools (i + 1) bytesMissed (some i)

/-- `FindMostStarvedPool`, or nothing for `-1`. -/
def findMostStarvedPool (self : PooledBufferManager) : Option ℕ :=
  findMostStarvedFrom self.bufferPools 0 0 none

/-- `FindPool`: its index. -/
def findPool (self : PooledBufferManager) (desiredBufferSize : ℤ) : Option ℕ :=
  self.bufferSizes.findIdx? fun bufferSize => desiredBufferSize ≤ bufferSize

/-- What `TuneQuotas` takes from the richest pool, with the quotas that it changed. -/
def steal (self : PooledBufferManager) (thread : ℕ) (bufferSize : ℤ) :
    PooledBufferManager × List (ℕ × ℤ) × Option ClrException :=
  if self.remainingMemory < bufferSize then
    match self.findMostExcessivePool with
    | none => (self, [], none)
    | some excessiveIndex =>
      match decreaseQuota processorCount self thread excessiveIndex with
      | .error e => (self, [], some e)
      | .ok self => (self, [(excessiveIndex, -1)], none)
  else (self, [], none)

/-- `TuneQuotas` up to the reset of the statistics, with the quotas that it changed. -/
def changeQuotas (self : PooledBufferManager) (thread : ℕ) :
    PooledBufferManager × List (ℕ × ℤ) × Option ClrException :=
  match self.findMostStarvedPool with
  | none => (self, [], none)
  | some starvedIndex =>
    match self.bufferPools[starvedIndex]? with
    | none => (self, [], some .nullReference)
    | some starvedBufferPool =>
      match steal processorCount self thread starvedBufferPool.bufferSize with
      | (self, changes, some e) => (self, changes, some e)
      | (self, changes, none) =>
        if self.remainingMemory ≥ starvedBufferPool.bufferSize then
          match increaseQuota processorCount self thread starvedIndex with
          | .error e => (self, changes, some e)
          | .ok self => (self, changes ++ [(starvedIndex, 1)], none)
        else (self, changes, none)

/-- `TuneQuotas`. An exception leaves the flag set. -/
def tuneQuotas (self : PooledBufferManager) (thread : ℕ) :
    PooledBufferManager × List (ℕ × ℤ) × Option ClrException :=
  if self.areQuotasBeingTuned then (self, [], none)
  else
    match changeQuotas processorCount { self with areQuotasBeingTuned := true } thread with
    | (self, changes, some e) => (self, changes, some e)
    | (self, changes, none) =>
      ({ self with bufferPools := self.bufferPools.map fun bufferPool =>
        { bufferPool with misses := 0 }
                   totalMisses := 0, areQuotasBeingTuned := false }, changes, none)

/-- `ReturnBuffer`. -/
def returnBuffer (self : PooledBufferManager) (thread : ℕ) (buffer : ByteBuffer) :
    Except ClrException PooledBufferManager :=
  match self.findPool buffer.length with
  | none => .ok self
  | some index =>
    match self.bufferPools[index]? with
    | none => .error .nullReference
    | some bufferPool =>
      if buffer.length ≠ bufferPool.bufferSize then .error .argument
      else do
        let (returned, bufferPool) ← bufferPool.returnBuffer thread buffer
        let bufferPool := if returned then bufferPool.incrementCount else bufferPool
        return { self with bufferPools := self.bufferPools.set index bufferPool }

/-- Where `TakeBuffer` gets a buffer: from a pool, or with `nn_allocmsg`. -/
inductive Taken
  | pooled (buffer : ByteBuffer)
  | allocated (size : ℤ)
  deriving DecidableEq, Repr

/-- `TakeBuffer`, with the quotas that it changed. -/
def takeBuffer (self : PooledBufferManager) (thread : ℕ) (bufferSize : ℤ) :
    PooledBufferManager × List (ℕ × ℤ) × Except ClrException Taken :=
  match self.findPool bufferSize with
  | none => (self, [], .ok (.allocated bufferSize))
  | some index =>
    match self.bufferPools[index]? with
    | none => (self, [], .error .nullReference)
    | some bufferPool =>
      match bufferPool.take thread with
      | (⟨some data, length⟩, bufferPool) =>
        ({ self with bufferPools := self.bufferPools.set index bufferPool.decrementCount }, [],
          .ok (.pooled ⟨some data, length⟩))
      | (⟨none, _⟩, bufferPool) =>
        if bufferPool.peak = bufferPool.limit then
          let self := { self with
            bufferPools :=
              self.bufferPools.set index { bufferPool with misses := int32 (bufferPool.misses + 1) }
            totalMisses := int32 (self.totalMisses + 1) }
          if self.totalMisses ≥ maxMissesBeforeTuning then
            match tuneQuotas processorCount self thread with
            | (self, changes, some e) => (self, changes, .error e)
            | (self, changes, none) => (self, changes, .ok (.allocated bufferPool.bufferSize))
          else (self, [], .ok (.allocated bufferPool.bufferSize))
        else
          ({ self with bufferPools := self.bufferPools.set index bufferPool }, [],
            .ok (.allocated bufferPool.bufferSize))

end Functions

end PooledBufferManager

end NanoSocket

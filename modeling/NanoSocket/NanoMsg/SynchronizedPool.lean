import NanoSocket.Core.Fault

/-!
# Pools with an entry for each thread (`Internal/SynchronizedPool.cs`)

A pool has a global stack, and entries that belong to one thread each.  A thread that takes and
returns often enough is promoted: it gets an entry, and the stack becomes smaller by one.

The pool is generic: the source says of its type of objects that it should be a class, in a
constraint that is commented out.  What depends on the type is its default value, and which values
are not null (`Nullable`).  The pool is used with `ByteBuffer`, which is a structure.  A structure
is not null, so what `Take` finds for the thread, the default value included, is what it returns.
`SynchronizedPool.Idle` says what follows from this: no thread is ever recorded or promoted.
-/

namespace NanoSocket

/-- The exceptions of the managed code. -/
inductive ClrException
  | argument
  | argumentNull
  | argumentOutOfRange
  | invalidOperation
  | nullReference
  | overflow
  | nano
  deriving DecidableEq, Repr

/-- The value of an `int` after an operation that may overflow. -/
def int32 (x : ℤ) : ℤ := x.bmod (2 ^ 32)

theorem int32_of_range {x : ℤ} (hlo : -2 ^ 31 ≤ x) (hhi : x < 2 ^ 31) : int32 x = x := by
  unfold int32
  rw [Int.bmod_eq_of_le] <;> omega

theorem int32_range (x : ℤ) : -2 ^ 31 ≤ int32 x ∧ int32 x < 2 ^ 31 := by
  have hlo := Int.le_bmod (x := x) (m := 2 ^ 32) (by decide)
  have hhi := Int.bmod_lt (x := x) (m := 2 ^ 32) (by decide)
  unfold int32
  omega

theorem int32_zero : int32 0 = 0 := int32_of_range (by decide) (by decide)

theorem int32_idem (x : ℤ) : int32 (int32 x) = int32 x := Int.bmod_bmod

theorem int32_add (x y : ℤ) : int32 (int32 x + y) = int32 (x + y) := Int.bmod_add_bmod

/-- A pointer and a length. The pointer is the number of a native buffer, or null. -/
structure ByteBuffer where
  data : Option ℕ
  length : ℤ
  deriving DecidableEq, Repr

/-- The default value: a null pointer. -/
def ByteBuffer.default : ByteBuffer := { data := none, length := 0 }

/-- `value != null` in the generic code, for a structure. -/
def ByteBuffer.isNotNull (_ : ByteBuffer) : Bool := true

/-- What the generic code uses of a type: `default`, and `value != null`. -/
class Nullable (T : Type) where
  default : T
  isNotNull : T → Bool

/-- A reference is null by default. -/
instance Nullable.reference (V : Type) : Nullable (Option V) := ⟨none, Option.isSome⟩

instance Nullable.byteBuffer : Nullable ByteBuffer := ⟨ByteBuffer.default, ByteBuffer.isNotNull⟩

theorem ByteBuffer.notNull (buffer : ByteBuffer) : Nullable.isNotNull buffer = true := rfl

section Pool

variable {T : Type}

/-! ### The global stack -/

/-- `GlobalPool`, with the top of the stack in front. -/
structure GlobalPool (T : Type) where
  items : List T
  maxCount : ℤ
  deriving DecidableEq, Repr

namespace GlobalPool

/-- The setter of `MaxCount`. -/
def setMaxCount (self : GlobalPool T) (value : ℤ) : Except ClrException (GlobalPool T) :=
  if value < 0 then .error .invalidOperation
  else .ok { items := self.items.drop (self.items.length - value.toNat), maxCount := value }

/-- `DecrementMaxCount`. -/
def decrementMaxCount (self : GlobalPool T) : Except ClrException (GlobalPool T) :=
  if (self.items.length : ℤ) = self.maxCount then
    match self.items with
    | [] => .error .invalidOperation
    | _ :: items => .ok { items, maxCount := int32 (self.maxCount - 1) }
  else .ok { self with maxCount := int32 (self.maxCount - 1) }

/-- `Take`. -/
def take [Nullable T] (self : GlobalPool T) : T × GlobalPool T :=
  match self.items with
  | [] => (Nullable.default, self)
  | value :: items => (value, { self with items })

/-- `Return`. -/
def returnValue (self : GlobalPool T) (value : T) : Bool × GlobalPool T :=
  if (self.items.length : ℤ) ≥ self.maxCount then (false, self)
  else (true, { self with items := value :: self.items })

end GlobalPool

/-! ### The pool -/

/-- `Entry`; its thread is zero if it has none. -/
structure PoolEntry (T : Type) where
  hasValue : Bool
  threadId : ℕ
  value : T
  deriving DecidableEq, Repr

/-- An entry that was just allocated. -/
def PoolEntry.default [Nullable T] : PoolEntry T :=
  { hasValue := false, threadId := 0, value := Nullable.default }

/-- `PendingEntry`. -/
structure PendingEntry where
  returnCount : ℕ
  threadId : ℕ
  deriving DecidableEq, Repr

/-- A pending entry that was just allocated. -/
def PendingEntry.default : PendingEntry := { returnCount := 0, threadId := 0 }

/-- `SynchronizedPool<TObject>`. -/
structure SynchronizedPool (T : Type) where
  entries : List (PoolEntry T)
  pending : List PendingEntry
  promotionFailures : ℕ
  maxCount : ℤ
  globalPool : GlobalPool T
  deriving DecidableEq, Repr

namespace SynchronizedPool

/-- `MaxPendingEntries`. -/
def maxPendingEntries : ℕ := 128

/-- `MaxPromotionFailures`. -/
def maxPromotionFailures : ℕ := 64

/-- `MaxReturnsBeforePromotion`. -/
def maxReturnsBeforePromotion : ℕ := 64

/-- `MaxThreadItemsPerProcessor`. -/
def maxThreadItemsPerProcessor : ℕ := 16

/-- The constructor. An array cannot have a negative length. -/
def new [Nullable T] (processorCount : ℕ) (maxCount : ℤ) :
    Except ClrException (SynchronizedPool T) :=
  let maxThreadCount : ℤ := maxThreadItemsPerProcessor + processorCount
  let threadCount := if maxCount > maxThreadCount then maxThreadCount else maxCount
  if threadCount < 0 then .error .overflow
  else .ok { entries := List.replicate threadCount.toNat .default,
             pending := List.replicate 4 .default
             promotionFailures := 0, maxCount, globalPool := { items := [], maxCount } }

/-- `Clear`, with the values that it deallocates. -/
def clear [Nullable T] (self : SynchronizedPool T) : List T × SynchronizedPool T :=
  ((self.entries.filter fun e => e.hasValue).map PoolEntry.value,
    { self with entries := self.entries.map fun e => { e with hasValue := false,
                                                              value := Nullable.default }
                globalPool := { self.globalPool with items := [] } })

/-- The loop of `PromoteThread`: whether an entry was assigned to the thread. -/
def promoteIn (thisThreadId : ℕ) : List (PoolEntry T) → Option (Bool × List (PoolEntry T))
  | [] => none
  | e :: es =>
    if e.threadId = thisThreadId then some (false, e :: es)
    else if e.threadId = 0 then some (true, { e with threadId := thisThreadId } :: es)
    else (promoteIn thisThreadId es).map fun r => (r.1, e :: r.2)

/-- `PromoteThread`. -/
def promoteThread (self : SynchronizedPool T) (thisThreadId : ℕ) :
    Except ClrException (Bool × SynchronizedPool T) :=
  match promoteIn thisThreadId self.entries with
  | none => .ok (false, self)
  | some (false, _) => .ok (true, self)
  | some (true, entries) => do return (true,
      { self with entries, globalPool := ← self.globalPool.decrementMaxCount })

/-- `HandlePromotionFailure`. -/
def handlePromotionFailure [Nullable T] (self : SynchronizedPool T) (thisThreadId : ℕ) :
    Except ClrException (SynchronizedPool T) := do
  let newPromotionFailures := self.promotionFailures + 1
  if newPromotionFailures ≥ maxPromotionFailures then
    let self := { self with entries := List.replicate self.entries.length .default
                            globalPool := ← self.globalPool.setMaxCount self.maxCount }
    return (← self.promoteThread thisThreadId).2
  return { self with promotionFailures := newPromotionFailures }

/-- The loop of `RecordReturnToGlobalPool`: whether the thread is to be promoted. -/
def recordReturnIn (thisThreadId : ℕ) : List PendingEntry → Bool × List PendingEntry
  | [] => (false, [])
  | p :: ps =>
    if p.threadId = thisThreadId then
      let newReturnCount := p.returnCount + 1
      if newReturnCount ≥ maxReturnsBeforePromotion then (true, { p with returnCount := 0 } :: ps)
      else (false, { p with returnCount := newReturnCount } :: ps)
    else if p.threadId = 0 then (false, p :: ps)
    else
      let r := recordReturnIn thisThreadId ps
      (r.1, p :: r.2)

/-- `RecordReturnToGlobalPool`. -/
def recordReturnToGlobalPool [Nullable T] (self : SynchronizedPool T) (thisThreadId : ℕ) :
    Except ClrException (SynchronizedPool T) := do
  let (promote, pending) := recordReturnIn thisThreadId self.pending
  let self := { self with pending }
  if !promote then return self
  let (promoted, self) ← self.promoteThread thisThreadId
  if !promoted then return ← self.handlePromotionFailure thisThreadId
  return self

/-- The loop of `RecordTakeFromGlobalPool`, or nothing if there is no entry for the thread. -/
def recordTakeIn (thisThreadId : ℕ) : List PendingEntry → Option (List PendingEntry)
  | [] => none
  | p :: ps =>
    if p.threadId = thisThreadId then some (p :: ps)
    else if p.threadId = 0 then some ({ p with threadId := thisThreadId } :: ps)
    else (recordTakeIn thisThreadId ps).map (p :: ·)

/-- `RecordTakeFromGlobalPool`. -/
def recordTakeFromGlobalPool (self : SynchronizedPool T) (thisThreadId : ℕ) : SynchronizedPool T :=
  match recordTakeIn thisThreadId self.pending with
  | some pending => { self with pending }
  | none =>
    if self.pending.length ≥ maxPendingEntries then
      { self with pending := List.replicate self.pending.length .default }
    else { self with pending := self.pending ++ List.replicate self.pending.length .default }

/-- The loop of `ReturnToPerThreadPool`, or nothing if it returns false. -/
def returnIn (thisThreadId : ℕ) (value : T) : List (PoolEntry T) → Option (List (PoolEntry T))
  | [] => none
  | e :: es =>
    if e.threadId = thisThreadId then
      if e.hasValue then none else some ({ e with value, hasValue := true } :: es)
    else if e.threadId = 0 then none
    else (returnIn thisThreadId value es).map (e :: ·)

/-- `Return`. -/
def returnValue [Nullable T] (self : SynchronizedPool T) (thisThreadId : ℕ) (value : T) :
    Except ClrException (Bool × SynchronizedPool T) :=
  if thisThreadId = 0 then .ok (false, self)
  else
    match returnIn thisThreadId value self.entries with
    | some entries => .ok (true, { self with entries })
    | none => do
      let self ← self.recordReturnToGlobalPool thisThreadId
      let (returned, globalPool) := self.globalPool.returnValue value
      return (returned, { self with globalPool })

/-- The loop of `TakeFromPerThreadPool`. -/
def takeIn [Nullable T] (thisThreadId : ℕ) : List (PoolEntry T) → T × List (PoolEntry T)
  | [] => (Nullable.default, [])
  | e :: es =>
    if e.threadId = thisThreadId then
      if !e.hasValue then (Nullable.default, e :: es)
      else (e.value, { e with value := Nullable.default, hasValue := false } :: es)
    else if e.threadId = 0 then (Nullable.default, e :: es)
    else
      let r := takeIn thisThreadId es
      (r.1, e :: r.2)

/-- `Take`. -/
def take [Nullable T] (self : SynchronizedPool T) (thisThreadId : ℕ) : T × SynchronizedPool T :=
  if thisThreadId = 0 then (Nullable.default, self)
  else
    let (value, entries) := takeIn thisThreadId self.entries
    let self := { self with entries }
    if Nullable.isNotNull value then (value, self)
    else
      let self := self.recordTakeFromGlobalPool thisThreadId
      let (value, globalPool) := self.globalPool.take
      (value, { self with globalPool })

end SynchronizedPool

end Pool

namespace SynchronizedPool

/-! ### No thread is promoted -/

/-- No thread was ever recorded, and the quota belongs to the stack. -/
structure Idle (pool : SynchronizedPool ByteBuffer) : Prop where
  entries : ∀ e ∈ pool.entries, e = .default
  pending : ∀ p ∈ pool.pending, p.threadId = 0
  maxCount : pool.globalPool.maxCount = pool.maxCount

variable {self : SynchronizedPool ByteBuffer} {thisThreadId : ℕ}

theorem new_idle (processorCount : ℕ) {maxCount : ℤ} (h : 0 ≤ maxCount) :
    ∃ pool, new processorCount maxCount = .ok pool ∧ pool.Idle ∧ pool.maxCount = maxCount ∧
      pool.globalPool.items = [] := by
  unfold new
  simp only
  rw [if_neg (by split_ifs <;> omega)]
  refine ⟨_, rfl, ⟨fun e he => List.eq_of_mem_replicate he, fun p hp => ?_, rfl⟩, rfl, rfl⟩
  rw [List.eq_of_mem_replicate hp]
  rfl

/-- A pool does not give anything back. -/
theorem Idle.take (h : self.Idle) : self.take thisThreadId = (.default, self) := by
  have htakeIn : takeIn thisThreadId self.entries = (.default, self.entries) := by
    cases hentries : self.entries with
    | nil => rfl
    | cons e es =>
      have he : e = .default := h.entries e (by simp [hentries])
      subst he
      simp only [takeIn, PoolEntry.default]
      split_ifs <;> rfl
  unfold SynchronizedPool.take
  rw [htakeIn]
  simp only [ByteBuffer.notNull, if_true]
  exact ite_self _

theorem Idle.recordReturnToGlobalPool (h : self.Idle) (hthread : thisThreadId ≠ 0) :
    self.recordReturnToGlobalPool thisThreadId = .ok self := by
  have hrecord : recordReturnIn thisThreadId self.pending = (false, self.pending) := by
    cases hpending : self.pending with
    | nil => rfl
    | cons p ps =>
      have hp : p.threadId = 0 := h.pending p (by simp [hpending])
      rw [recordReturnIn, hp, if_neg (Ne.symm hthread), if_pos rfl]
  unfold SynchronizedPool.recordReturnToGlobalPool
  rw [hrecord]
  rfl

theorem returnValue_zero (value : ByteBuffer) : self.returnValue 0 value = .ok (false, self) := rfl

/-- What is returned goes to the stack, if there is room. -/
theorem Idle.returnValue (h : self.Idle) (hthread : thisThreadId ≠ 0) (value : ByteBuffer) :
    self.returnValue thisThreadId value = .ok
      (if (self.globalPool.items.length : ℤ) ≥ self.maxCount then (false, self)
      else (true,
        { self with globalPool := { self.globalPool with items := value :: self.globalPool.items }
          })) := by
  have hreturnIn : returnIn thisThreadId value self.entries = none := by
    cases hentries : self.entries with
    | nil => rfl
    | cons e es =>
      have he : e = .default := h.entries e (by simp [hentries])
      subst he
      rw [returnIn, PoolEntry.default, if_neg (Ne.symm hthread), if_pos rfl]
  unfold SynchronizedPool.returnValue
  rw [if_neg hthread, hreturnIn]
  simp only [h.recordReturnToGlobalPool hthread, ok_bind, GlobalPool.returnValue, h.maxCount]
  split_ifs <;> rfl

theorem Idle.push (h : self.Idle) (items : List ByteBuffer) :
    ({ self with globalPool := { self.globalPool with items } } : SynchronizedPool
      ByteBuffer).Idle :=
  ⟨h.entries, h.pending, h.maxCount⟩

/-- `Clear` empties the stack and deallocates nothing. -/
theorem Idle.clear (h : self.Idle) :
    self.clear = ([], { self with globalPool := { self.globalPool with items := [] } }) := by
  have hfilter : self.entries.filter (fun e => e.hasValue) = [] := by
    rw [List.filter_eq_nil_iff]
    intro e he
    rw [h.entries e he]
    exact Bool.false_ne_true
  have hmap : self.entries.map (fun e => { e with hasValue := false, value := Nullable.default }) =
      self.entries := by
    refine (List.map_congr_left fun e he => ?_).trans (List.map_id _)
    rw [h.entries e he]
    rfl
  unfold SynchronizedPool.clear
  rw [hfilter, hmap]
  rfl

end SynchronizedPool

end NanoSocket

import NanoSocket.NanoMsg.BufferQuota

/-!
# Where the buffers of a manager are

A native buffer is held by a caller, or it is stored in a pool, or it was freed; what is none of
these is lost.  Four paths of the source lose buffers: `ReturnBuffer` of a buffer that is larger
than those of all pools, or to a pool that is full, a change of the quota of a pool for small
buffers, which gives nothing to the pool that replaces it, and `Clear`, which empties the stack of
such a pool without freeing anything.  `BufferWorld.Keeps` says that none of them is taken, and
`buffer_conservation` that nothing is lost in a run if and only if this was so at every step.
-/

namespace NanoSocket

open Runs

/-! ### One pool -/

/-- All buffers in a pool, those on the entries of the threads included. -/
def InnerPool.stored : InnerPool → Multiset ByteBuffer
  | .synchronized innerPool =>
    ((innerPool.entries.filter fun e => e.hasValue).map PoolEntry.value : Multiset ByteBuffer) +
      (innerPool.globalPool.items : Multiset ByteBuffer)
  | .large items => items

theorem InnerPool.Idle.stored {inner : InnerPool} {bufferSize limit : ℤ}
    (h : inner.Idle bufferSize limit) :
    inner.stored = (inner.items : Multiset ByteBuffer) := by
  cases inner with
  | synchronized innerPool =>
    have hclear := congrArg Prod.fst h.2.1.clear
    rw [SynchronizedPool.clear] at hclear
    simp only at hclear
    rw [InnerPool.stored, hclear]
    exact zero_add _
  | large items => rfl

namespace BufferPool

/-- The pool counts its buffers, and they have its size. -/
structure Filled (pool : BufferPool) : Prop where
  inv : pool.Inv
  count : pool.count = pool.inner.items.length
  count_le : pool.count ≤ pool.peak
  items : ∀ b ∈ pool.inner.items, b.data.isSome ∧ b.length = pool.bufferSize

variable {self : BufferPool} {buffer : ByteBuffer} {thread : ℕ}

theorem Filled.length_le (h : self.Filled) : (self.inner.items.length : ℤ) ≤ self.limit := by
  have hcount := h.count
  have hle := h.count_le
  have hpeak := h.inv.peak_le
  omega

/-- The pool is for small buffers. -/
def Small (pool : BufferPool) : Prop := pool.bufferSize < 85000

instance (pool : BufferPool) : Decidable pool.Small := inferInstanceAs (Decidable (_ < _))

theorem Inv.small_iff (h : self.Inv) :
    self.Small ↔ ∃ innerPool, self.inner = .synchronized innerPool := by
  have hidle := h.idle
  cases hinner : self.inner with
  | synchronized innerPool =>
    rw [hinner] at hidle
    exact iff_of_true hidle.1 ⟨innerPool, rfl⟩
  | large items =>
    rw [hinner] at hidle
    exact iff_of_false (not_lt.2 hidle) nofun

/-- `Take`, with the count: nothing, or a buffer of a pool for large ones. -/
theorem Filled.take (h : self.Filled) (thread : ℕ) :
    ((self.take thread).1.data = none ∧ (self.take thread).2 = self) ∨
      ∃ buffer items, buffer.data.isSome ∧ buffer.length = self.bufferSize ∧
        self.inner = .large (buffer :: items) ∧
        self.take thread = (buffer, { self with inner := .large items }) ∧
        ({ self with inner := .large items } : BufferPool).decrementCount.Filled ∧
        ({ self with inner := .large items } : BufferPool).decrementCount.inner = .large items := by
  have hidle := h.inv.idle
  unfold BufferPool.take
  cases hinner : self.inner with
  | synchronized innerPool =>
    rw [hinner] at hidle
    simp only [hidle.2.1.take]
    exact .inl ⟨rfl, by rw [← hinner]⟩
  | large items =>
    cases items with
    | nil => exact .inl ⟨rfl, rfl⟩
    | cons buffer items =>
      obtain ⟨hdata, hlength⟩ := h.items buffer (by simp [hinner, InnerPool.items])
      refine .inr ⟨buffer, items, hdata, hlength, rfl, rfl, ?_⟩
      have hcount : self.count = items.length + 1 := by
        rw [h.count, hinner]
        simp [InnerPool.items]
      have hle := h.count_le
      have hpeak := h.inv.peak_le
      have hlimit := h.inv.limit_lt
      have hnew : int32 (self.count - 1) = items.length := by
        rw [int32_of_range (by omega) (by omega)]
        omega
      have hdec : ({ self with inner := .large items } : BufferPool).decrementCount =
          { self with inner := .large items, count := items.length } := by
        simp [BufferPool.decrementCount, hnew]
      rw [hinner] at hidle
      rw [hdec]
      refine ⟨⟨⟨h.inv.bufferSize_pos, h.inv.bufferSize_lt, h.inv.peak_nonneg, hpeak, hlimit, hidle⟩,
        rfl, ?_, ?_⟩, rfl⟩
      · simp only
        omega
      · intro b hb
        exact h.items b (by rw [hinner]; exact List.mem_cons_of_mem _ hb)

/-- A buffer is added to a pool that is not full. -/
theorem Filled.push (h : self.Filled) (hlt : (self.inner.items.length : ℤ) < self.limit)
    {inner : InnerPool} (hidle : inner.Idle self.bufferSize self.limit)
    (hitems : inner.items = buffer :: self.inner.items) (hdata : buffer.data.isSome)
    (hlength : buffer.length = self.bufferSize) :
    ({ self with inner } : BufferPool).incrementCount.Filled ∧
      ({ self with inner } : BufferPool).incrementCount.inner = inner := by
  obtain ⟨⟨hpos, hlt', hpeak, hpeak', hlimit, -⟩, hcount, hle, hall⟩ := h
  have hnew : int32 (self.count + 1) = self.count + 1 := int32_of_range (by omega) (by omega)
  have hinc : ({ self with inner } : BufferPool).incrementCount =
      { self with inner, count := self.count + 1
                  peak := if self.count + 1 > self.peak then self.count + 1 else self.peak } := by
    simp only [BufferPool.incrementCount, hnew]
    rw [if_neg (by omega)]
  rw [hinc]
  refine ⟨⟨⟨hpos, hlt', ?_, ?_, hlimit, hidle⟩, ?_, ?_, ?_⟩, rfl⟩
  · simp only
    split_ifs <;> omega
  · simp only
    split_ifs <;> omega
  · simp only [hitems, List.length_cons]
    push_cast
    omega
  · simp only
    split_ifs <;> omega
  · intro b hb
    simp only [hitems] at hb
    rcases List.mem_cons.1 hb with rfl | hb
    · exact ⟨hdata, hlength⟩
    · exact hall b hb

/-- `Return`, with the count: the pool is full, or the buffer is stored. -/
theorem Filled.returnBuffer (h : self.Filled) (hthread : thread ≠ 0) (hdata : buffer.data.isSome)
    (hlength : buffer.length = self.bufferSize) :
    ((self.inner.items.length : ℤ) = self.limit ∧
      self.returnBuffer thread buffer = .ok (false, self)) ∨
      (self.inner.items.length : ℤ) < self.limit ∧ ∃ pool, self.returnBuffer thread buffer =
        .ok (true, pool) ∧
        pool.incrementCount.Filled ∧ pool.incrementCount.inner.items = buffer :: self.inner.items ∧
        self.SameQuota pool.incrementCount := by
  have hidle := h.inv.idle
  have hle := h.length_le
  have hpush : ∀ inner : InnerPool, (self.inner.items.length : ℤ) < self.limit →
      inner.Idle self.bufferSize self.limit → inner.items = buffer :: self.inner.items →
      ({ self with inner } : BufferPool).incrementCount.Filled ∧
        ({ self with inner } : BufferPool).incrementCount.inner.items = buffer :: self.inner.items ∧
        self.SameQuota ({ self with inner } : BufferPool).incrementCount := by
    intro inner hlt hinner hitems
    obtain ⟨hfilled, heq⟩ := h.push hlt hinner hitems hdata hlength
    have hinv : ({ self with inner } : BufferPool).Inv :=
      ⟨h.inv.bufferSize_pos, h.inv.bufferSize_lt, h.inv.peak_nonneg, h.inv.peak_le,
        h.inv.limit_lt, hinner⟩
    exact ⟨hfilled, by rw [heq, hitems], hinv.incrementCount.2.bufferSize,
      hinv.incrementCount.2.limit⟩
  unfold BufferPool.returnBuffer
  cases hinner : self.inner with
  | synchronized innerPool =>
    rw [hinner] at hidle hle hpush
    obtain ⟨hsize, hinnerIdle, hmax⟩ := hidle
    simp only [hinnerIdle.returnValue hthread, ok_bind, pure_eq_ok]
    simp only [InnerPool.items] at hle hpush ⊢
    split_ifs with hfull
    · exact .inl ⟨by omega, by rw [← hinner]⟩
    · exact .inr ⟨by omega, _, rfl, hpush _ (by omega) ⟨hsize, hinnerIdle.push _, hmax⟩ rfl⟩
  | large items =>
    rw [hinner] at hidle hle hpush
    simp only [InnerPool.items] at hle hpush ⊢
    split_ifs with hfull
    · exact .inl ⟨by omega, rfl⟩
    · exact .inr ⟨by omega, _, rfl, hpush _ (by omega) hidle rfl⟩

theorem Filled.misses (h : self.Filled) (misses : ℤ) :
    ({ self with misses } : BufferPool).Filled := by
  obtain ⟨⟨hpos, hlt, hpeak, hpeak', hlimit, hidle⟩, hcount, hle, hitems⟩ := h
  exact ⟨⟨hpos, hlt, hpeak, hpeak', hlimit, hidle⟩, hcount, hle, hitems⟩

/-- `Clear` frees the large buffers and loses the others. -/
theorem Filled.clear (h : self.Filled) :
    self.clear.2.Filled ∧ self.SameQuota self.clear.2 ∧ self.clear.2.inner.items = [] ∧
      self.clear.1 = if self.Small then [] else self.inner.items := by
  obtain ⟨⟨hpos, hlt, hpeak, hpeak', hlimit, hidle⟩, hcount, hle, hall⟩ := h
  have hcount₀ : 0 ≤ self.peak := hpeak
  unfold BufferPool.clear
  cases hinner : self.inner with
  | synchronized innerPool =>
    rw [hinner] at hidle
    simp only [hidle.2.1.clear]
    exact ⟨⟨⟨hpos, hlt, hpeak, hpeak', hlimit, hidle.1, hidle.2.1.push [], hidle.2.2⟩, rfl, hcount₀,
      nofun⟩, ⟨rfl, rfl⟩, rfl, (if_pos hidle.1).symm⟩
  | large items =>
    rw [hinner] at hidle hall
    simp only
    refine ⟨⟨⟨hpos, hlt, hpeak, hpeak', hlimit, hidle⟩, rfl, hcount₀, nofun⟩, ⟨rfl, rfl⟩, rfl, ?_⟩
    exact (List.filter_eq_self.2 fun b hb => (hall b hb).1).trans (if_neg (not_lt.2 hidle)).symm

end BufferPool

/-! ### The pools of a manager -/

namespace PooledBufferManager

/-- The buffers in the pools. -/
def stored (m : PooledBufferManager) : Multiset ByteBuffer :=
  (m.bufferPools.map fun pool => pool.inner.stored).sum

/-- The accounting of the memory, and the counts of the pools. -/
structure Filled (m : PooledBufferManager) : Prop where
  inv : m.Inv
  filled : ∀ pool ∈ m.bufferPools, pool.Filled

variable {self : PooledBufferManager} {index : ℕ} {pool pool' : BufferPool}
  {processorCount thread : ℕ}

theorem stored_set (h : self.bufferPools[index]? = some pool) (pool' : BufferPool) :
    ∃ rest, self.stored = pool.inner.stored + rest ∧
      ((self.bufferPools.set index pool').map fun pool => pool.inner.stored).sum =
        pool'.inner.stored + rest := by
  obtain ⟨hlt, rfl⟩ := List.getElem?_eq_some_iff.1 h
  refine ⟨((self.bufferPools.take index).map fun pool => pool.inner.stored).sum +
    ((self.bufferPools.drop (index + 1)).map fun pool => pool.inner.stored).sum, ?_, ?_⟩
  · rw [stored]
    nth_rewrite 1 [← List.take_append_drop index self.bufferPools]
    rw [List.drop_eq_getElem_cons hlt, List.map_append, List.sum_append,
      List.map_cons, List.sum_cons]
    exact add_left_comm _ _ _
  · rw [List.set_eq_take_append_cons_drop, if_pos hlt, List.map_append, List.sum_append,
      List.map_cons, List.sum_cons]
    exact add_left_comm _ _ _

/-- A pool changes: the buffers of the others stay. -/
theorem Filled.setPool {m : PooledBufferManager} (h : self.Filled)
    (hget : self.bufferPools[index]? = some pool) (hfilled : pool'.Filled)
    (hpools : m.bufferPools = self.bufferPools.set index pool') (hinv : m.Inv) :
    m.Filled ∧ ∃ rest : Multiset ByteBuffer, self.stored = pool.inner.items + rest ∧
      m.stored = pool'.inner.items + rest := by
  obtain ⟨rest, hrest, hrest'⟩ := stored_set hget pool'
  have hpool := h.filled pool (List.mem_of_getElem? hget)
  refine ⟨⟨hinv, fun p hp => ?_⟩, rest, hpool.inv.idle.stored ▸ hrest, ?_⟩
  · rw [hpools] at hp
    rcases List.mem_or_eq_of_mem_set hp with hp | rfl
    · exact h.filled p hp
    · exact hfilled
  · rw [stored, hpools, ← hfilled.inv.idle.stored]
    exact hrest'

/-- The large buffers of the old pool are moved to the new one. -/
theorem moveBuffers_large (hthread : thread ≠ 0) (old : BufferPool) (items : List ByteBuffer)
    (rounds : ℕ) (hrounds : items.length ≤ rounds) {new : BufferPool} (hnew : new.Filled)
    (hitems : ∀ b ∈ items, b.data.isSome ∧ b.length = new.bufferSize)
    (hroom : (new.inner.items.length : ℤ) + items.length ≤ new.limit) :
    ∃ pool, moveBuffers thread rounds { old with inner := .large items } new =
      .ok pool ∧ pool.Filled ∧
      new.SameQuota pool ∧ (pool.inner.items : Multiset ByteBuffer) = items + new.inner.items := by
  induction items generalizing rounds new with
  | nil =>
    refine ⟨new, ?_, hnew, ⟨rfl, rfl⟩, (zero_add _).symm⟩
    cases rounds <;> rfl
  | cons buffer items ih =>
    obtain ⟨rounds, rfl⟩ := Nat.exists_eq_succ_of_ne_zero (by simp at hrounds; omega : rounds ≠ 0)
    obtain ⟨hdata, hlength⟩ := hitems buffer List.mem_cons_self
    simp only [List.length_cons, Nat.cast_add, Nat.cast_one] at hroom hrounds
    rcases hnew.returnBuffer hthread hdata hlength with
      ⟨hfull, -⟩ | ⟨-, pool, heq, hfilled, hpush, hsame⟩
    · omega
    obtain ⟨pool', heq', hfilled', hsame', hpool'⟩ := ih rounds (by omega) hfilled
      (fun b hb => hsame.bufferSize ▸ hitems b (List.mem_cons_of_mem _ hb)) (by
        rw [hpush, hsame.limit, List.length_cons]
        push_cast
        omega)
    obtain ⟨data, length⟩ := buffer
    obtain ⟨data, rfl⟩ := Option.isSome_iff_exists.1 hdata
    refine ⟨pool', ?_, hfilled', hsame.trans hsame', ?_⟩
    · unfold moveBuffers
      simp only [BufferPool.take, heq, ok_bind]
      exact heq'
    · rw [hpool', hpush, ← Multiset.cons_coe, ← Multiset.cons_coe, Multiset.cons_add,
        Multiset.add_cons]

/-- A pool for small buffers gives nothing to the one that replaces it. -/
theorem moveBuffers_small (h : pool.Inv) (hsmall : pool.Small) (rounds : ℕ) :
    moveBuffers thread rounds pool pool' = .ok pool' := by
  obtain ⟨innerPool, hinner⟩ := h.small_iff.1 hsmall
  have hidle := h.idle
  rw [hinner] at hidle
  cases rounds with
  | zero => rfl
  | succ rounds =>
    unfold moveBuffers
    simp only [BufferPool.take, hinner, hidle.2.1.take]
    rfl

/-- What a pool loses when its quota changes. -/
def lostAt (m : PooledBufferManager) (index : ℕ) : Multiset ByteBuffer :=
  match m.bufferPools[index]? with
  | none => 0
  | some pool => if pool.Small then pool.inner.items else 0

theorem lostAt_of_get (h : self.bufferPools[index]? = some pool) :
    self.lostAt index = if pool.Small then (pool.inner.items : Multiset ByteBuffer) else 0 := by
  rw [lostAt, h]

/-- What the pools lose when quotas change. -/
def lost (m : PooledBufferManager) (changes : List (ℕ × ℤ)) : Multiset ByteBuffer :=
  (changes.map fun c => m.lostAt c.1).sum

/-- Quotas were changed, and the pools have lost what they hold for small buffers. -/
structure Moved (m : PooledBufferManager) (changes : List (ℕ × ℤ)) (m' : PooledBufferManager) :
    Prop where
  filled : m'.Filled
  bufferSizes : m'.bufferSizes = m.bufferSizes
  stored : m.stored = m'.stored + m.lost changes
  other : ∀ i, i ∉ changes.map Prod.fst → m'.bufferPools[i]? = m.bufferPools[i]?

theorem Filled.moved_nil (h : self.Filled) : self.Moved [] self :=
  ⟨h, rfl, (add_zero _).symm, fun _ _ => rfl⟩

/-- `ChangeQuota` of a pool that has room for its buffers in the new one. -/
theorem Moved.changeQuota {m m' m'' : PooledBufferManager} {changes : List (ℕ × ℤ)}
    (h : m.Moved changes m') (hthread : thread ≠ 0) (hindex : index ∉ changes.map Prod.fst)
    {delta : ℤ} (hdelta : delta = 1 ∨ delta = -1) (hget : m.bufferPools[index]? = some pool)
    (hroom : (pool.inner.items.length : ℤ) ≤ pool.limit + delta) (hinv : m''.Inv)
    (heq : m'.changeQuota processorCount thread index delta = .ok m'') :
    m.Moved (changes ++ [(index, delta)]) m'' := by
  have hget' : m'.bufferPools[index]? = some pool := (h.other index hindex).trans hget
  have hpool := h.filled.filled pool (List.mem_of_getElem? hget')
  unfold PooledBufferManager.changeQuota at heq
  simp only [hget'] at heq
  obtain ⟨newBufferPool, hcreate, heq⟩ := bind_eq_ok.1 heq
  obtain ⟨pool', hmove, heq⟩ := bind_eq_ok.1 heq
  cases heq
  have hlimit : int32 (pool.limit + delta) = pool.limit + delta := by
    refine int32_of_range (by omega) ?_
    by_contra hoverflow
    have hmax : pool.limit + delta = 2 ^ 31 := by
      have := hpool.inv.limit_lt
      omega
    have hneg : int32 (pool.limit + delta) < 0 := by
      rw [hmax]
      decide
    obtain ⟨e, he⟩ := BufferPool.createPool_of_neg processorCount hneg
    cases hcreate.symm.trans he
  rw [hlimit] at hcreate hmove
  have hnonneg : 0 ≤ pool.limit + delta := by omega
  have hlt : pool.limit + delta < 2 ^ 31 := by
    by_contra hge
    rw [int32, Int.bmod_def] at hlimit
    omega
  obtain ⟨new, hnew, hnewInv, hsize, hnewLimit, hcount, hpeak, hitems⟩ :=
    BufferPool.createPool_spec processorCount
    hpool.inv.bufferSize_pos hpool.inv.bufferSize_lt hnonneg hlt
  cases hcreate.symm.trans hnew
  have hnewFilled : newBufferPool.Filled :=
    ⟨hnewInv, by rw [hcount, hitems]; rfl, by rw [hcount, hpeak], by simp [hitems]⟩
  have hother : ∀ i, i ∉ (changes ++ [(index, delta)]).map Prod.fst →
      (m'.bufferPools.set index pool')[i]? = m.bufferPools[i]? := by
    intro i hi
    simp only [List.map_append, List.map_cons, List.map_nil, List.mem_append,
      List.mem_singleton, not_or] at hi
    rw [List.getElem?_set_ne (Ne.symm hi.2)]
    exact h.other i hi.1
  have hlost : m.lost (changes ++ [(index, delta)]) = m.lost changes + m.lostAt index := by
    simp [lost]
  by_cases hsmall : pool.Small
  · rw [moveBuffers_small hpool.inv hsmall] at hmove
    cases hmove
    obtain ⟨hfilled, rest, hrest, hrest'⟩ := h.filled.setPool hget' hnewFilled rfl hinv
    refine ⟨hfilled, h.bufferSizes, ?_, hother⟩
    rw [h.stored, hlost, lostAt_of_get hget, if_pos hsmall, hrest, hrest', hitems,
      Multiset.coe_nil, zero_add]
    ac_rfl
  · obtain ⟨items, hinner⟩ : ∃ items, pool.inner = .large items := by
      cases hinner : pool.inner with
      | synchronized innerPool => exact absurd (hpool.inv.small_iff.2 ⟨innerPool, hinner⟩) hsmall
      | large items => exact ⟨items, rfl⟩
    have hpoolItems : pool.inner.items = items := by rw [hinner]; rfl
    obtain ⟨moved, hmoved, hfilled, -, hmovedItems⟩ :=
      moveBuffers_large hthread pool items (pool.limit + delta).toNat
      (by rw [← hpoolItems]; omega) hnewFilled (fun b hb => hsize ▸ hpool.items b (hpoolItems ▸ hb))
      (by rw [hitems, hnewLimit, ← hpoolItems]; simpa using hroom)
    have heta : ({ pool with inner := .large items } : BufferPool) = pool := by rw [← hinner]
    rw [heta] at hmoved
    cases hmove.symm.trans hmoved
    obtain ⟨hfilled', rest, hrest, hrest'⟩ := h.filled.setPool hget' hfilled rfl hinv
    refine ⟨hfilled', h.bufferSizes, ?_, hother⟩
    rw [h.stored, hlost, lostAt_of_get hget, if_neg hsmall, hrest, hrest', hmovedItems, hitems,
      hpoolItems, add_zero, Multiset.coe_nil, add_zero]

/-! ### Tuning the quotas -/

/-- The memory is enough for one more buffer of a pool, with that of a buffer of the richest pool if
need be. -/
def Affords (m : PooledBufferManager) (pool : BufferPool) : Prop :=
  pool.bufferSize ≤ m.remainingMemory ∨ ∃ excessive ∈ m.findMostExcessivePool,
    ∃ rich ∈ m.bufferPools[excessive]?, pool.bufferSize ≤ m.remainingMemory + rich.bufferSize

instance (m : PooledBufferManager) (pool : BufferPool) : Decidable (m.Affords pool) :=
  inferInstanceAs (Decidable (_ ∨ ∃ excessive ∈ m.findMostExcessivePool,
    ∃ rich ∈ m.bufferPools[excessive]?, _))

/-- A tuning step changes the quota of the pool at an index: the richest pool gives a buffer up, or
the pool that is always in full use gets one, unless its limit is the largest there is. -/
def Retunes (m : PooledBufferManager) (i : ℕ) : Prop :=
  ∃ starved ∈ m.findMostStarvedPool, ∃ pool ∈ m.bufferPools[starved]?,
    m.remainingMemory < pool.bufferSize ∧ i ∈ m.findMostExcessivePool ∨
      i = starved ∧ m.Affords pool ∧ pool.limit ≠ 2 ^ 31 - 1

instance (m : PooledBufferManager) (i : ℕ) : Decidable (m.Retunes i) :=
  inferInstanceAs (Decidable (∃ starved ∈ m.findMostStarvedPool,
    ∃ pool ∈ m.bufferPools[starved]?, _ ∨ _))

/-- The pool that is always in full use has the largest limit there is, and could get one more
buffer. -/
def RaisesLargest (m : PooledBufferManager) : Prop :=
  ∃ starved ∈ m.findMostStarvedPool, ∃ pool ∈ m.bufferPools[starved]?, m.Affords pool ∧
    pool.limit = 2 ^ 31 - 1

/-- A miss of the pool at an index is counted. -/
def missed (m : PooledBufferManager) (index : ℕ) (pool : BufferPool) : PooledBufferManager :=
  { m with
    bufferPools := m.bufferPools.set index { pool with misses := int32 (pool.misses + 1) }
    totalMisses := int32 (m.totalMisses + 1) }

/-- A pool in full use has nothing to give, and with this miss the quotas have to be tuned. -/
def Tunes (m : PooledBufferManager) (thread : ℕ) (pool : BufferPool) : Prop :=
  (pool.take thread).1.data = none ∧ pool.peak = pool.limit ∧
    int32 (m.totalMisses + 1) ≥ maxMissesBeforeTuning ∧ m.areQuotasBeingTuned = false

instance (m : PooledBufferManager) (thread : ℕ) (pool : BufferPool) :
    Decidable (m.Tunes thread pool) :=
  inferInstanceAs (Decidable (_ ∧ _))

/-- A call of `TakeBuffer` changes the quota of the pool at an index. -/
def ChangesQuota (m : PooledBufferManager) (thread : ℕ) (n : ℤ) (i : ℕ) : Prop :=
  ∃ index ∈ m.findPool n, ∃ pool ∈ m.bufferPools[index]?, m.Tunes thread pool ∧
    (m.missed index pool).Retunes i

instance (m : PooledBufferManager) (thread : ℕ) (n : ℤ) (i : ℕ) :
    Decidable (m.ChangesQuota thread n i) :=
  inferInstanceAs (Decidable (∃ index ∈ m.findPool n, ∃ pool ∈ m.bufferPools[index]?, _))

/-- A call of `TakeBuffer` raises the largest limit. -/
def Overflows (m : PooledBufferManager) (thread : ℕ) (n : ℤ) : Prop :=
  ∃ index ∈ m.findPool n, ∃ pool ∈ m.bufferPools[index]?, m.Tunes thread pool ∧
    (m.missed index pool).RaisesLargest

/-- The richest pool has room for its buffers after the change, and nothing is thrown. -/
theorem Filled.steal_spec (h : self.Filled) (processorCount : ℕ) (hthread : thread ≠ 0)
    (hget : self.bufferPools[index]? = some pool) (hpeak : pool.peak = pool.limit) :
    ∃ m changes, steal processorCount self thread pool.bufferSize = (m, changes, none) ∧
      self.Moved changes m ∧ m.memoryLimit = self.memoryLimit ∧ index ∉ changes.map Prod.fst ∧
      (pool.bufferSize ≤ m.remainingMemory ↔ self.Affords pool) ∧
      ∀ i, i ∈ changes.map Prod.fst ↔ self.remainingMemory < pool.bufferSize ∧
        i ∈ self.findMostExcessivePool := by
  unfold PooledBufferManager.steal Affords
  split_ifs with hremaining
  · cases hfind : self.findMostExcessivePool with
    | none =>
      refine ⟨self, [], rfl, h.moved_nil, rfl, List.not_mem_nil,
        ⟨.inl, fun hor => hor.resolve_right nofun⟩, ?_⟩
      simp
    | some excessive =>
      obtain ⟨rich, hrich, hlt⟩ := findMostExcessivePool_spec hfind
      have hpool := h.filled rich (List.mem_of_getElem? hrich)
      have hpos := hpool.inv.bufferSize_pos
      have hnonneg := hpool.inv.peak_nonneg
      have hlimit := hpool.inv.limit_lt
      have hcount := hpool.count
      have hle := hpool.count_le
      have hzero := h.inv.remaining
      have hne : index ≠ excessive := by
        rintro rfl
        cases hget.symm.trans hrich
        omega
      simp only [decreaseQuota]
      rcases h.inv.changeQuota processorCount thread hrich (.inr rfl) (by omega) (by omega) with
        ⟨hoverflow, -⟩ | ⟨-, m, hchange, hquota⟩
      · omega
      rw [hchange]
      refine ⟨m, [(excessive, -1)], rfl,
        h.moved_nil.changeQuota hthread List.not_mem_nil (.inr rfl) hrich (by omega) hquota.inv
        hchange, hquota.memoryLimit, by simpa using hne, ?_, by simp [hremaining, eq_comm]⟩
      rw [hquota.remaining rich hrich]
      simp only [Option.mem_def, Option.some.injEq, exists_eq_left', hrich]
      omega
  · exact ⟨self, [], rfl, h.moved_nil, rfl, List.not_mem_nil,
      ⟨.inl, fun _ => not_lt.1 hremaining⟩, by simp [hremaining]⟩

/-- Which quotas are changed, and when an exception is thrown. -/
theorem Filled.changeQuotas_spec (h : self.Filled) (processorCount : ℕ) (hthread : thread ≠ 0) :
    ∃ m changes e, changeQuotas processorCount self thread = (m, changes, e) ∧
      self.Moved changes m ∧
      (∀ i, i ∈ changes.map Prod.fst ↔ self.Retunes i) ∧ (e.isSome ↔ self.RaisesLargest) := by
  unfold PooledBufferManager.changeQuotas Retunes RaisesLargest
  cases hfind : self.findMostStarvedPool with
  | none => exact ⟨self, [], none, rfl, h.moved_nil, by simp, by simp⟩
  | some index =>
    obtain ⟨pool, hget, hpeak⟩ := findMostStarvedPool_spec hfind
    have hpool := h.filled pool (List.mem_of_getElem? hget)
    have hcount := hpool.count
    have hle := hpool.count_le
    have hnonneg := hpool.inv.peak_nonneg
    obtain ⟨m, changes, hsteal, hmoved, -, hindex, hafford, hstolen⟩ :=
      h.steal_spec processorCount hthread hget hpeak
    simp only [hget, hsteal, Option.mem_def, Option.some.injEq, exists_eq_left']
    simp only [Option.mem_def] at hstolen
    split_ifs with hremaining
    · have hget' := (hmoved.other index hindex).trans hget
      have haffords := hafford.1 hremaining
      simp only [increaseQuota]
      rcases hmoved.filled.inv.changeQuota processorCount thread hget' (.inl rfl)
        (by omega) (by omega) with
        ⟨hoverflow, e, hchange⟩ | ⟨hoverflow, m', hchange, hquota⟩
      · have hlargest : pool.limit = 2 ^ 31 - 1 := by omega
        rw [hchange]
        refine ⟨m, changes, some e, rfl, hmoved, fun i => ?_, iff_of_true rfl ⟨haffords, hlargest⟩⟩
        rw [hstolen, or_iff_left]
        exact fun hand => hand.2.2 hlargest
      · have hsmaller : pool.limit ≠ 2 ^ 31 - 1 := by omega
        rw [hchange]
        refine ⟨m', changes ++ [(index, 1)], none, rfl,
          hmoved.changeQuota hthread hindex (.inl rfl) hget (by omega) hquota.inv hchange,
          fun i => ?_, iff_of_false Bool.false_ne_true fun hand => hsmaller hand.2⟩
        rw [List.map_append, List.mem_append, hstolen, List.map_singleton, List.mem_singleton]
        exact or_congr_right ⟨fun hi => ⟨hi, haffords, hsmaller⟩, fun hand => hand.1⟩
    · have hpoor : ¬ self.Affords pool := fun haffords => hremaining (hafford.2 haffords)
      refine ⟨m, changes, none, rfl, hmoved, fun i => ?_,
        iff_of_false Bool.false_ne_true fun hand => hpoor hand.1⟩
      rw [hstolen, or_iff_left]
      exact fun hand => hpoor hand.2.1

/-- The statistics do not matter. -/
theorem Moved.reset {m m' m'' : PooledBufferManager} {changes : List (ℕ × ℤ)}
    (h : m.Moved changes m') (hinv : m''.Inv) (hsizes : m''.bufferSizes = m'.bufferSizes)
    (hpools : m''.bufferPools =
      m'.bufferPools.map fun bufferPool => { bufferPool with misses := 0 }) :
    m''.Filled ∧ m''.bufferSizes = m.bufferSizes ∧ m.stored = m''.stored + m.lost changes := by
  refine ⟨⟨hinv, fun p hp => ?_⟩, hsizes.trans h.bufferSizes, ?_⟩
  · rw [hpools] at hp
    obtain ⟨pool, hpool, rfl⟩ := List.mem_map.1 hp
    exact (h.filled.filled pool hpool).misses 0
  · have hstored : m''.stored = m'.stored := by
      rw [PooledBufferManager.stored, PooledBufferManager.stored, hpools, List.map_map]
      rfl
    rw [h.stored, hstored]

/-- A tuning step. -/
theorem Filled.tuneQuotas_spec (h : self.Filled) (processorCount : ℕ) (hthread : thread ≠ 0) :
    ∃ m changes e, tuneQuotas processorCount self thread = (m, changes, e) ∧ m.Filled ∧
      m.bufferSizes = self.bufferSizes ∧ self.stored = m.stored + self.lost changes ∧
      (∀ i, i ∈ changes.map Prod.fst ↔ self.areQuotasBeingTuned = false ∧ self.Retunes i) ∧
      (e.isSome ↔ self.areQuotasBeingTuned = false ∧ self.RaisesLargest) := by
  obtain ⟨m₀, changes₀, e₀, htune, hinv, -⟩ := h.inv.tuneQuotas processorCount thread
  refine ⟨m₀, changes₀, e₀, htune, ?_⟩
  unfold PooledBufferManager.tuneQuotas at htune
  split_ifs at htune with hflag
  · cases htune
    exact ⟨h, rfl, (add_zero _).symm, by simp [hflag], by simp [hflag]⟩
  · have hfalse : self.areQuotasBeingTuned = false := Bool.eq_false_iff.2 hflag
    have h' : ({ self with areQuotasBeingTuned := true } : PooledBufferManager).Filled :=
      ⟨⟨h.inv.pool, h.inv.sorted, h.inv.bufferSizes, h.inv.remaining, h.inv.total⟩, h.filled⟩
    obtain ⟨m, changes, e, hchange, hmoved, hretunes, hthrows⟩ :=
      h'.changeQuotas_spec processorCount hthread
    have hretunes' : ∀ i, i ∈ changes.map Prod.fst ↔ self.areQuotasBeingTuned = false ∧
        self.Retunes i :=
      fun i => (hretunes i).trans (and_iff_right hfalse).symm
    rw [hchange] at htune
    cases e with
    | some e =>
      cases htune
      exact ⟨hmoved.filled, hmoved.bufferSizes, hmoved.stored, hretunes',
        hthrows.trans (and_iff_right hfalse).symm⟩
    | none =>
      cases htune
      obtain ⟨hfilled, hsizes, hstored⟩ := hmoved.reset hinv rfl rfl
      exact ⟨hfilled, hsizes, hstored, hretunes', hthrows.trans (and_iff_right hfalse).symm⟩

/-! ### Taking and returning -/

/-- The length of a buffer that `TakeBuffer` returns. -/
def Fits (m : PooledBufferManager) (length : ℤ) : Prop :=
  length ∈ m.bufferSizes ∨ ∀ bufferSize ∈ m.bufferSizes, bufferSize < length

/-- The buffer that `TakeBuffer` got from a pool. -/
def pooled : Except ClrException Taken → Multiset ByteBuffer
  | .ok (.pooled buffer) => {buffer}
  | .ok (.allocated _) | .error _ => 0

/-- A buffer with the size of a pool belongs to that pool. -/
theorem findPool_some {length : ℤ} (hinv : self.Inv) (hlength : length ∈ self.bufferSizes) :
    ∃ index pool, self.findPool length = some index ∧ self.bufferPools[index]? = some pool ∧
      length = pool.bufferSize := by
  cases hfind : self.findPool length with
  | none =>
    have hnone := of_decide_eq_false (List.findIdx?_eq_none_iff.1 hfind length hlength)
    exact absurd (le_refl length) hnone
  | some index =>
    obtain ⟨hlt, hle, hfirst⟩ := List.findIdx?_eq_some_iff_getElem.1 hfind
    obtain ⟨i, hi, hget⟩ := List.getElem_of_mem hlength
    have hindex : index ≤ i := by
      by_contra hgt
      exact hfirst i (not_le.1 hgt) (decide_eq_true hget.ge)
    have hsorted := hinv.sorted
    rw [← hinv.bufferSizes] at hsorted
    have hsize : self.bufferSizes[index] ≤ length := by
      rcases hindex.lt_or_eq with hindex | rfl
      · rw [← hget]
        exact (List.pairwise_iff_getElem.1 hsorted index i hlt hi hindex).le
      · exact hget.le
    have hlt' : index < self.bufferPools.length := by simpa [hinv.bufferSizes] using hlt
    refine ⟨index, self.bufferPools[index], rfl, List.getElem?_eq_getElem hlt', ?_⟩
    have hpool : self.bufferSizes[index] = (self.bufferPools[index]).bufferSize := by
      simp only [hinv.bufferSizes, List.getElem_map]
    rw [← hpool]
    exact le_antisymm (of_decide_eq_true hle) hsize

theorem findPool_none {length : ℤ} :
    self.findPool length = none ↔ ∀ bufferSize ∈ self.bufferSizes, bufferSize < length := by
  rw [findPool, List.findIdx?_eq_none_iff]
  simp

/-- What is lost depends on the buffers only. -/
theorem lost_set {misses : ℤ} (hget : self.bufferPools[index]? = some pool)
    {m : PooledBufferManager}
    (hpools : m.bufferPools = self.bufferPools.set index { pool with misses })
    (changes : List (ℕ × ℤ)) :
    m.lost changes = self.lost changes := by
  have hlostAt : ∀ i, m.lostAt i = self.lostAt i := by
    intro i
    obtain ⟨hlt, -⟩ := List.getElem?_eq_some_iff.1 hget
    rw [lostAt, lostAt, hpools, List.getElem?_set]
    by_cases hi : index = i
    · subst hi
      rw [if_pos rfl, if_pos hlt, hget]
      rfl
    · rw [if_neg hi]
  simp only [lost, hlostAt]

/-- `TakeBuffer`: where the buffers are, which quotas were changed, and when an exception is
thrown. -/
structure TakenFrom (m : PooledBufferManager) (thread : ℕ) (n : ℤ) (changes : List (ℕ × ℤ))
    (r : Except ClrException Taken) (m' : PooledBufferManager) : Prop where
  filled : m'.Filled
  bufferSizes : m'.bufferSizes = m.bufferSizes
  stored : m.stored = pooled r + m'.stored + m.lost changes
  changed : ∀ i, i ∈ changes.map Prod.fst ↔ m.ChangesQuota thread n i
  throws : (∃ e, r = .error e) ↔ m.Overflows thread n
  pooled : ∀ buffer, r = .ok (.pooled buffer) → buffer.data.isSome ∧ m.Fits buffer.length
  allocated : ∀ size, r = .ok (.allocated size) → m.Fits size

/-- A miss changes nothing but the statistics. -/
theorem Filled.missed (h : self.Filled) (hget : self.bufferPools[index]? = some pool) :
    (self.missed index pool).Filled ∧ self.stored = (self.missed index pool).stored := by
  have hpool := h.filled pool (List.mem_of_getElem? hget)
  have hmissed : (self.missed index pool).Inv :=
    h.inv.setPool hget (hpool.misses (int32 (pool.misses + 1))).inv ⟨rfl, rfl⟩ rfl rfl rfl rfl
  obtain ⟨hfilled, rest, hrest, hrest'⟩ := h.setPool hget (hpool.misses _) rfl hmissed
  exact ⟨hfilled, hrest.trans hrest'.symm⟩

/-- A call that does not tune the quotas. -/
theorem not_tunes {n : ℤ} (hfind : self.findPool n = some index)
    (hget : self.bufferPools[index]? = some pool) (hnot : ¬ self.Tunes thread pool) :
    (∀ i, ¬ self.ChangesQuota thread n i) ∧ ¬ self.Overflows thread n := by
  unfold ChangesQuota Overflows
  simp only [hfind, hget, Option.mem_def, Option.some.injEq, exists_eq_left']
  exact ⟨fun i hand => hnot hand.1, fun hand => hnot hand.1⟩

/-- A call that changes no quota and throws nothing. -/
theorem TakenFrom.of_not_tunes {n : ℤ} {taken : Taken} {m : PooledBufferManager}
    (hnot : (∀ i, ¬ self.ChangesQuota thread n i) ∧ ¬ self.Overflows thread n) (hfilled : m.Filled)
    (hsizes : m.bufferSizes = self.bufferSizes)
    (hstored : self.stored = PooledBufferManager.pooled (.ok taken) + m.stored)
    (hpooled : ∀ buffer, taken = .pooled buffer → buffer.data.isSome ∧ self.Fits buffer.length)
    (hallocated : ∀ size, taken = .allocated size → self.Fits size) :
    self.TakenFrom thread n [] (.ok taken) m where
  filled := hfilled
  bufferSizes := hsizes
  stored := hstored.trans (add_zero _).symm
  changed i := iff_of_false List.not_mem_nil (hnot.1 i)
  throws := iff_of_false nofun hnot.2
  pooled buffer heq := hpooled buffer (Except.ok.inj heq)
  allocated size heq := hallocated size (Except.ok.inj heq)

/-- A pool that has nothing to give: a buffer of its size is allocated. -/
theorem TakenFrom.of_miss {n : ℤ} {m : PooledBufferManager}
    (hnot : (∀ i, ¬ self.ChangesQuota thread n i) ∧ ¬ self.Overflows thread n) (hfilled : m.Filled)
    (hsizes : m.bufferSizes = self.bufferSizes) (hstored : self.stored = m.stored)
    (hfits : self.Fits pool.bufferSize) :
    self.TakenFrom thread n [] (.ok (.allocated pool.bufferSize)) m := by
  refine .of_not_tunes hnot hfilled hsizes (hstored.trans (zero_add _).symm) nofun ?_
  rintro size ⟨⟩
  exact hfits

/-- The eighth miss of pools in full use: the quotas are tuned, unless somebody else does it. -/
theorem Filled.tuneQuotas_missed (h : self.Filled) (processorCount : ℕ) (hthread : thread ≠ 0)
    {n : ℤ} (hfind : self.findPool n = some index) (hget : self.bufferPools[index]? = some pool)
    (hnone : (pool.take thread).1.data = none) (hpeak : pool.peak = pool.limit)
    (htotal : int32 (self.totalMisses + 1) ≥ maxMissesBeforeTuning) :
    ∃ m changes e, tuneQuotas processorCount (self.missed index pool) thread =
      (m, changes, e) ∧ m.Filled ∧
      m.bufferSizes = self.bufferSizes ∧ self.stored = m.stored + self.lost changes ∧
      (∀ i, i ∈ changes.map Prod.fst ↔ self.ChangesQuota thread n i) ∧
        (e.isSome ↔ self.Overflows thread n) := by
  obtain ⟨hmissed, hstored⟩ := h.missed hget
  obtain ⟨m, changes, e, htune, hfilled, hsizes, hstored', hretunes, hthrows⟩ :=
    hmissed.tuneQuotas_spec processorCount hthread
  refine ⟨m, changes, e, htune, hfilled, hsizes, ?_, fun i => ?_, ?_⟩
  · rw [hstored, hstored', lost_set hget rfl]
  · rw [hretunes]
    simp only [ChangesQuota, Tunes, hfind, hget, hnone, hpeak, htotal, Option.mem_def,
      Option.some.injEq, exists_eq_left', true_and]
    rfl
  · rw [hthrows]
    simp only [Overflows, Tunes, hfind, hget, hnone, hpeak, htotal, Option.mem_def,
      Option.some.injEq, exists_eq_left', true_and]
    rfl

/-- A call that finds a pool. -/
theorem Filled.takeBuffer_of_pool (h : self.Filled) (processorCount : ℕ) (hthread : thread ≠ 0)
    {n : ℤ} (hfind : self.findPool n = some index) (hget : self.bufferPools[index]? = some pool) :
    ∃ m changes r, self.takeBuffer processorCount thread n = (m, changes, r) ∧
      self.TakenFrom thread n changes r m := by
  have hpool := h.filled pool (List.mem_of_getElem? hget)
  have hfits : self.Fits pool.bufferSize := by
    refine .inl ?_
    rw [h.inv.bufferSizes]
    exact List.mem_map_of_mem (List.mem_of_getElem? hget)
  have hinv := (h.inv.takeBuffer processorCount thread n).inv
  unfold PooledBufferManager.takeBuffer at hinv ⊢
  simp only [hfind, hget] at hinv ⊢
  rcases hpool.take thread with
    ⟨hnone, hsame⟩ | ⟨buffer, items, hdata, hlength, hinner, htake, hfilled, hinner'⟩
  · obtain ⟨length, htake⟩ : ∃ length, pool.take thread = (⟨none, length⟩, pool) :=
      ⟨(pool.take thread).1.length, Prod.ext (by rw [← hnone]) hsame⟩
    simp only [htake] at hinv ⊢
    split_ifs at hinv ⊢ with hpeak htotal
    · obtain ⟨m, changes, e, htune, hfilled, hsizes, hstored, hchanged, hoverflows⟩ :=
        h.tuneQuotas_missed processorCount hthread hfind hget hnone hpeak htotal
      have hlost : self.stored = 0 + m.stored + self.lost changes := by rw [hstored, zero_add]
      change tuneQuotas processorCount
        { self with bufferPools := _, totalMisses := _ } thread = _ at htune
      rw [htune]
      cases e with
      | some e =>
        exact ⟨m, changes, _, rfl, hfilled, hsizes, hlost, hchanged,
          iff_of_true ⟨e, rfl⟩ (hoverflows.1 rfl), nofun, nofun⟩
      | none =>
        refine ⟨m, changes, _, rfl, hfilled, hsizes, hlost, hchanged,
          iff_of_false nofun fun hover => by simpa using hoverflows.2 hover, nofun, ?_⟩
        rintro size ⟨⟩
        exact hfits
    · have hnot : ¬ self.Tunes thread pool := fun hand => htotal hand.2.2.1
      obtain ⟨hmissed, hstored⟩ := h.missed hget
      exact ⟨_, [], _, rfl, .of_miss (not_tunes hfind hget hnot) hmissed rfl hstored hfits⟩
    · have hnot : ¬ self.Tunes thread pool := fun hand => hpeak hand.2.1
      obtain ⟨hfilled, rest, hrest, hrest'⟩ := h.setPool hget hpool rfl hinv
      exact ⟨_, [], _, rfl,
        .of_miss (not_tunes hfind hget hnot) hfilled rfl (hrest.trans hrest'.symm) hfits⟩
  · obtain ⟨data, length⟩ := buffer
    obtain ⟨data, rfl⟩ := Option.isSome_iff_exists.1 hdata
    have hnot : ¬ self.Tunes thread pool := by
      intro hand
      have hnone := hand.1
      simp [htake] at hnone
    rw [htake] at hinv ⊢
    obtain ⟨hfilled', rest, hrest, hrest'⟩ := h.setPool hget hfilled rfl hinv
    refine ⟨_, [], _, rfl, .of_not_tunes (not_tunes hfind hget hnot) hfilled' rfl ?_ ?_ nofun⟩
    · rw [hrest, hrest', hinner, hinner']
      change ((⟨some data, length⟩ :: items : List ByteBuffer) : Multiset ByteBuffer) + rest =
        {⟨some data, length⟩} + (items + rest)
      rw [← Multiset.cons_coe, ← Multiset.singleton_add, add_assoc]
    · rintro buffer ⟨⟩
      exact ⟨rfl, hlength ▸ hfits⟩

theorem Filled.takeBuffer (h : self.Filled) (processorCount : ℕ) (hthread : thread ≠ 0) (n : ℤ) :
    ∃ m changes r, self.takeBuffer processorCount thread n = (m, changes, r) ∧
      self.TakenFrom thread n changes r m := by
  cases hfind : self.findPool n with
  | none =>
    have hnot : (∀ i, ¬ self.ChangesQuota thread n i) ∧ ¬ self.Overflows thread n := by
      simp [ChangesQuota, Overflows, hfind]
    refine ⟨self, [], .ok (.allocated n), ?_, .of_not_tunes hnot h rfl (zero_add _).symm nofun ?_⟩
    · rw [PooledBufferManager.takeBuffer, hfind]
    · rintro size ⟨⟩
      exact .inr (findPool_none.1 hfind)
  | some index =>
    obtain ⟨hlt, -⟩ := List.findIdx?_eq_some_iff_getElem.1 hfind
    rw [h.inv.bufferSizes, List.length_map] at hlt
    exact h.takeBuffer_of_pool processorCount hthread hfind (List.getElem?_eq_getElem hlt)

/-- There is a pool for the length, and it is not full. -/
def HasRoom (m : PooledBufferManager) (length : ℤ) : Prop :=
  ∃ index ∈ m.findPool length, ∃ pool ∈ m.bufferPools[index]?,
    (pool.inner.items.length : ℤ) < pool.limit

instance (m : PooledBufferManager) (length : ℤ) : Decidable (m.HasRoom length) :=
  inferInstanceAs (Decidable (∃ index ∈ m.findPool length, ∃ pool ∈ m.bufferPools[index]?, _))

/-- `ReturnBuffer` stores the buffer or loses it. -/
theorem Filled.returnBuffer (h : self.Filled) (hthread : thread ≠ 0) {buffer : ByteBuffer}
    (hdata : buffer.data.isSome) (hfits : self.Fits buffer.length) :
    ∃ m, self.returnBuffer thread buffer = .ok m ∧ m.Filled ∧ m.bufferSizes = self.bufferSizes ∧
      (self.HasRoom buffer.length ∧ m.stored = {buffer} + self.stored ∨
        ¬ self.HasRoom buffer.length ∧ m.stored = self.stored) := by
  unfold PooledBufferManager.returnBuffer
  rcases hfits with hmem | hlarge
  · obtain ⟨index, pool, hfind, hget, hlength⟩ := findPool_some h.inv hmem
    have hpool := h.filled pool (List.mem_of_getElem? hget)
    simp only [hfind, hget]
    rw [if_neg (not_not.2 hlength)]
    rcases hpool.returnBuffer hthread hdata hlength with
      ⟨hfull, heq⟩ | ⟨hlt, pool', heq, hfilled, hitems, hsame⟩
    · simp only [heq, ok_bind, pure_eq_ok, Bool.false_eq_true, if_false]
      have hinv := h.inv.setPool hget hpool.inv ⟨rfl, rfl⟩
        (m := { self with bufferPools := _ }) rfl rfl rfl rfl
      obtain ⟨hfilled, rest, hrest, hrest'⟩ := h.setPool hget hpool rfl hinv
      refine ⟨_, rfl, hfilled, rfl, .inr ⟨?_, hrest'.trans hrest.symm⟩⟩
      rintro ⟨i, hi, p, hp, hroom⟩
      cases hfind.symm.trans hi
      cases hget.symm.trans hp
      omega
    · simp only [heq, ok_bind, pure_eq_ok, if_true]
      have hinv :=
        h.inv.setPool hget hfilled.inv hsame (m := { self with bufferPools := _ }) rfl rfl rfl rfl
      obtain ⟨hfilled', rest, hrest, hrest'⟩ := h.setPool hget hfilled rfl hinv
      refine ⟨_, rfl, hfilled', rfl, .inl ⟨⟨index, hfind, pool, hget, hlt⟩, ?_⟩⟩
      rw [hrest, hrest', hitems, ← Multiset.cons_coe, ← Multiset.singleton_add, add_assoc]
  · have hfind := findPool_none.2 hlarge
    rw [hfind]
    refine ⟨self, rfl, h, rfl, .inr ⟨?_, rfl⟩⟩
    rintro ⟨i, hi, -⟩
    cases hfind.symm.trans hi

/-- `Clear` frees the large buffers and loses the others. -/
theorem Filled.clear (h : self.Filled) :
    self.clear.2.Filled ∧ self.clear.2.bufferSizes = self.bufferSizes ∧
      ∃ lost : Multiset ByteBuffer, self.stored = self.clear.1 + self.clear.2.stored + lost ∧
        (lost = 0 ↔ ∀ pool ∈ self.bufferPools, pool.Small → pool.inner.items = []) := by
  have hclear : ∀ pool ∈ self.bufferPools, pool.clear.2.Filled ∧ pool.SameQuota pool.clear.2 ∧
      pool.clear.2.inner.items = [] ∧ pool.clear.1 = if pool.Small then [] else pool.inner.items :=
    fun pool hpool => (h.filled pool hpool).clear
  refine ⟨⟨?_, fun p hp => ?_⟩, rfl, ?_⟩
  · exact h.inv.mapPools rfl rfl rfl rfl fun pool hpool =>
      ⟨(hclear pool hpool).1.inv, (hclear pool hpool).2.1⟩
  · obtain ⟨pool, hpool, rfl⟩ := List.mem_map.1 hp
    exact (hclear pool hpool).1
  · have hall := h.filled
    simp only [stored, PooledBufferManager.clear]
    generalize self.bufferPools = pools at hclear hall
    induction pools with
    | nil => exact ⟨0, rfl, by simp⟩
    | cons pool pools ih =>
      obtain ⟨lost, hlost, hzero⟩ := ih (fun p hp => hclear p (List.mem_cons_of_mem _ hp))
        fun p hp => hall p (List.mem_cons_of_mem _ hp)
      obtain ⟨hfilled, -, hitems, hfreed⟩ := hclear pool List.mem_cons_self
      have hstored := (hall pool List.mem_cons_self).inv.idle.stored
      have hstored' : pool.clear.2.inner.stored = 0 := by
        rw [hfilled.inv.idle.stored, hitems]
        rfl
      simp only [List.map_cons, List.sum_cons, List.flatten_cons, ← Multiset.coe_add, hlost,
        hstored, hstored', hfreed]
      by_cases hsmall : pool.Small
      · refine ⟨pool.inner.items + lost, ?_, ?_⟩
        · rw [if_pos hsmall, Multiset.coe_nil, zero_add, zero_add]
          ac_rfl
        · simp [hzero, hsmall]
      · refine ⟨lost, ?_, ?_⟩
        · rw [if_neg hsmall, zero_add]
          ac_rfl
        · simp [hzero, hsmall]

end PooledBufferManager

/-! ### Runs -/

/-- A manager, with the buffers that its callers hold and those that were freed. -/
structure BufferWorld where
  manager : PooledBufferManager
  next : ℕ
  held : List ByteBuffer
  freed : List ByteBuffer

/-- What a thread does. `nn_allocmsg` may return null. -/
inductive BufferAction
  | takeBuffer (thread : ℕ) (bufferSize : ℤ) (alloc : Bool)
  | returnBuffer (thread : ℕ) (buffer : ByteBuffer)
  | clear
  deriving DecidableEq, Repr

namespace BufferWorld

/-- Callers return what they hold, and a thread has a number that is not zero. -/
def Enabled (w : BufferWorld) : BufferAction → Prop
  | .takeBuffer thread bufferSize _ => thread ≠ 0 ∧ 0 ≤ bufferSize
  | .returnBuffer thread buffer => thread ≠ 0 ∧ buffer ∈ w.held
  | .clear => True

instance (w : BufferWorld) : DecidablePred w.Enabled
  | .takeBuffer _ _ _ | .returnBuffer _ _ => inferInstanceAs (Decidable (_ ∧ _))
  | .clear => .isTrue trivial

section Step

variable (processorCount : ℕ)

/-- One call, which returns or throws an exception. -/
def step (w : BufferWorld) : BufferAction → Except ClrException (BufferWorld × Option ClrException)
  | .takeBuffer thread bufferSize alloc =>
    match w.manager.takeBuffer processorCount thread bufferSize with
    | (manager, _, .error e) => .ok ({ w with manager }, some e)
    | (manager, _, .ok (.pooled buffer)) => .ok ({ w with manager, held := buffer :: w.held }, none)
    | (manager, _, .ok (.allocated size)) =>
      if alloc then
        .ok ({ w with manager, held := ⟨some w.next, size⟩ :: w.held, next := w.next + 1 }, none)
      else .ok ({ w with manager }, none)
  | .returnBuffer thread buffer =>
    match w.manager.returnBuffer thread buffer with
    | .error e => .ok (w, some e)
    | .ok manager => .ok ({ w with manager, held := w.held.erase buffer }, none)
  | .clear =>
    let (freed, manager) := w.manager.clear
    .ok ({ w with manager, freed := freed ++ w.freed }, none)

end Step

/-- No path that loses buffers is taken: a buffer that is returned has a pool with room for it, and
a pool for small buffers is empty when its quota changes and when it is cleared. -/
def Keeps (w : BufferWorld) : BufferAction → Prop
  | .takeBuffer thread bufferSize _ =>
    ∀ i, w.manager.ChangesQuota thread bufferSize i →
      ∀ pool ∈ w.manager.bufferPools[i]?, pool.Small → pool.inner.items = []
  | .returnBuffer _ buffer => w.manager.HasRoom buffer.length
  | .clear => ∀ pool ∈ w.manager.bufferPools, pool.Small → pool.inner.items = []

instance (w : BufferWorld) : DecidablePred w.Keeps
  | .takeBuffer thread bufferSize _ =>
    decidable_of_iff (∀ i < w.manager.bufferPools.length,
      w.manager.ChangesQuota thread bufferSize i → ∀ pool ∈ w.manager.bufferPools[i]?, pool.Small →
      pool.inner.items = []) <| by
      refine forall_congr' fun i => ⟨fun h hchange pool hget => ?_, fun h _ => h⟩
      exact h (List.getElem?_eq_some_iff.1 hget).1 hchange pool hget
  | .returnBuffer _ buffer => inferInstanceAs (Decidable (w.manager.HasRoom buffer.length))
  | .clear =>
    inferInstanceAs (Decidable (∀ pool ∈ w.manager.bufferPools, pool.Small → pool.inner.items = []))

/-- Before the first call. -/
def start (manager : PooledBufferManager) : BufferWorld :=
  { manager, next := 0, held := [], freed := [] }

/-- The buffers that are held, stored or freed. -/
def inventory (w : BufferWorld) : Multiset ByteBuffer :=
  (w.held : Multiset ByteBuffer) + w.manager.stored + w.freed

/-- Every buffer is in one place. -/
def Conserved (w : BufferWorld) : Prop :=
  w.inventory.map ByteBuffer.data = (Multiset.range w.next).map some

instance (w : BufferWorld) : Decidable w.Conserved := inferInstanceAs (Decidable (_ = _))

/-- The invariant of a run: some buffers are lost. -/
structure Inv (w : BufferWorld) (lost : Multiset ByteBuffer) : Prop where
  filled : w.manager.Filled
  held : ∀ b ∈ w.held, b.data.isSome ∧ w.manager.Fits b.length
  total : (w.inventory + lost).map ByteBuffer.data = (Multiset.range w.next).map some

variable {w : BufferWorld} {lost : Multiset ByteBuffer} {processorCount : ℕ}

/-- A buffer that is lost is missing. -/
theorem Inv.conserved_iff (h : w.Inv lost) : w.Conserved ↔ lost = 0 := by
  unfold Conserved
  rw [← h.total, Multiset.map_add]
  simp

/-- The places change, and some buffers are lost. -/
theorem Inv.next {w' : BufferWorld} {lost' : Multiset ByteBuffer} (h : w.Inv lost)
    (hfilled : w'.manager.Filled) (hsizes : w'.manager.bufferSizes = w.manager.bufferSizes)
    (hheld : ∀ b ∈ w'.held, b.data.isSome ∧ w.manager.Fits b.length)
    (htotal : (w'.inventory + lost').map ByteBuffer.data = w.inventory.map ByteBuffer.data +
      (if w'.next = w.next then 0 else {some w.next})) (hnext : w'.next = w.next ∨
        w'.next = w.next + 1) :
    w'.Inv (lost + lost') := by
  refine ⟨hfilled, fun b hb => ?_, ?_⟩
  · obtain ⟨hdata, hfits⟩ := hheld b hb
    refine ⟨hdata, ?_⟩
    rwa [PooledBufferManager.Fits, hsizes]
  · have htotal₀ := h.total
    rw [Multiset.map_add] at htotal₀
    rw [add_comm lost, ← add_assoc, Multiset.map_add, htotal, add_right_comm, htotal₀]
    rcases hnext with hnext | hnext
    · rw [hnext, if_pos rfl, add_zero]
    · rw [hnext, if_neg (by omega), Multiset.range_succ, Multiset.map_cons, add_comm,
        Multiset.singleton_add]

theorem lost_eq_zero_iff (m : PooledBufferManager) (changes : List (ℕ × ℤ)) : m.lost changes = 0 ↔
    ∀ i ∈ changes.map Prod.fst, ∀ pool ∈ m.bufferPools[i]?, pool.Small → pool.inner.items = [] := by
  rw [PooledBufferManager.lost, List.sum_eq_zero_iff]
  simp only [List.mem_map, forall_exists_index, and_imp, forall_apply_eq_imp_iff₂]
  refine forall₂_congr fun change _ => ?_
  rw [PooledBufferManager.lostAt]
  cases m.bufferPools[change.1]? with
  | none => simp
  | some pool => by_cases hsmall : pool.Small <;> simp [hsmall]

/-- `TakeBuffer`. -/
theorem Inv.takeBuffer (h : w.Inv lost) {thread : ℕ} {bufferSize : ℤ} {alloc : Bool}
    (hthread : thread ≠ 0) :
    ∃ w' e lost', w.step processorCount (.takeBuffer thread bufferSize alloc) = .ok (w', e) ∧
      w'.Inv (lost + lost') ∧ (lost' = 0 ↔ w.Keeps (.takeBuffer thread bufferSize alloc)) := by
  obtain ⟨m, changes, r, htake, hfilled, hsizes, hstored, hchanged, -, hpooled, hallocated⟩ :=
    h.filled.takeBuffer processorCount hthread bufferSize
  have hzero : w.manager.lost changes = 0 ↔ w.Keeps (.takeBuffer thread bufferSize alloc) := by
    rw [lost_eq_zero_iff]
    simp only [hchanged, Keeps]
  simp only [step, htake]
  -- what becomes of the buffers that are stored
  have htotal : ∀ (held : List ByteBuffer) (next : ℕ) (new : Multiset ByteBuffer),
      (held : Multiset ByteBuffer) = PooledBufferManager.pooled r + w.held + new →
      (({ w with manager := m, held, next } : BufferWorld).inventory + w.manager.lost changes) =
        w.inventory + new := by
    intro held next new hheld
    simp only [inventory, hheld, hstored]
    ac_rfl
  cases r with
  | error e =>
    refine ⟨_, some e, w.manager.lost changes, rfl,
      h.next hfilled hsizes h.held ?_ (.inl rfl), hzero⟩
    rw [if_pos rfl, add_zero, htotal w.held w.next 0 (by simp [PooledBufferManager.pooled]),
      add_zero]
  | ok r =>
    cases r with
    | pooled buffer =>
      obtain ⟨hdata, hfits⟩ := hpooled buffer rfl
      refine ⟨_, none, w.manager.lost changes, rfl,
        h.next hfilled hsizes (fun b hb => ?_) ?_ (.inl rfl), hzero⟩
      · rcases List.mem_cons.1 hb with rfl | hb
        · exact ⟨hdata, hfits⟩
        · exact h.held b hb
      · rw [if_pos rfl, add_zero, htotal (buffer :: w.held) w.next 0, add_zero]
        rw [PooledBufferManager.pooled, Multiset.singleton_add, Multiset.cons_coe, add_zero]
    | allocated size =>
      cases alloc with
      | false =>
        refine ⟨_, none, w.manager.lost changes, rfl,
          h.next hfilled hsizes h.held ?_ (.inl rfl), hzero⟩
        rw [if_pos rfl, add_zero, htotal w.held w.next 0 (by simp [PooledBufferManager.pooled]),
          add_zero]
      | true =>
        refine ⟨_, none, w.manager.lost changes, rfl,
          h.next hfilled hsizes (fun b hb => ?_) ?_ (.inr rfl), hzero⟩
        · rcases List.mem_cons.1 hb with rfl | hb
          · exact ⟨rfl, hallocated size rfl⟩
          · exact h.held b hb
        · rw [htotal (⟨some w.next, size⟩ :: w.held) (w.next + 1) {⟨some w.next, size⟩}]
          · rw [if_neg (Nat.succ_ne_self _), Multiset.map_add]
            rfl
          · rw [PooledBufferManager.pooled, zero_add, add_comm, Multiset.singleton_add,
              Multiset.cons_coe]

/-- `ReturnBuffer` of a buffer that is held. -/
theorem Inv.returnBuffer (h : w.Inv lost) {thread : ℕ} {buffer : ByteBuffer} (hthread : thread ≠ 0)
    (hbuffer : buffer ∈ w.held) :
    ∃ w' e lost', w.step processorCount (.returnBuffer thread buffer) = .ok (w', e) ∧
      w'.Inv (lost + lost') ∧ (lost' = 0 ↔ w.Keeps (.returnBuffer thread buffer)) := by
  obtain ⟨hdata, hfits⟩ := h.held buffer hbuffer
  obtain ⟨m, heq, hfilled, hsizes, hroom⟩ := h.filled.returnBuffer hthread hdata hfits
  have hheld :
      (w.held : Multiset ByteBuffer) = {buffer} + (w.held.erase buffer : Multiset ByteBuffer) := by
    rw [Multiset.singleton_add, Multiset.cons_coe]
    exact Multiset.coe_eq_coe.2 (List.perm_cons_erase hbuffer)
  have herase : ∀ b ∈ w.held.erase buffer, b.data.isSome ∧ w.manager.Fits b.length :=
    fun b hb => h.held b (List.mem_of_mem_erase hb)
  simp only [step, Keeps, heq]
  rcases hroom with ⟨hroom, hstored⟩ | ⟨hroom, hstored⟩
  · refine ⟨_, none, 0, rfl, h.next hfilled hsizes herase ?_ (.inl rfl), iff_of_true rfl hroom⟩
    rw [if_pos rfl, add_zero, add_zero]
    congr 1
    simp only [inventory, hstored, hheld]
    ac_rfl
  · refine ⟨_, none, {buffer}, rfl, h.next hfilled hsizes herase ?_ (.inl rfl),
      iff_of_false (Multiset.singleton_ne_zero buffer) hroom⟩
    rw [if_pos rfl, add_zero]
    congr 1
    simp only [inventory, hstored, hheld]
    ac_rfl

/-- `Clear`. -/
theorem Inv.clear (h : w.Inv lost) :
    ∃ w' e lost', w.step processorCount .clear = .ok (w', e) ∧ w'.Inv (lost + lost') ∧
    (lost' = 0 ↔ w.Keeps .clear) := by
  obtain ⟨hfilled, hsizes, lost', hstored, hzero⟩ := h.filled.clear
  refine ⟨_, none, lost', rfl, h.next hfilled hsizes h.held ?_ (.inl rfl), hzero⟩
  rw [if_pos rfl, add_zero]
  congr 1
  simp only [inventory, hstored, ← Multiset.coe_add]
  ac_rfl

/-- Every call returns or throws an exception, and loses nothing if it takes none of the four
paths. -/
theorem Inv.step (h : w.Inv lost) {a : BufferAction} (hen : w.Enabled a) :
    ∃ w' e lost', w.step processorCount a = .ok (w', e) ∧ w'.Inv (lost + lost') ∧
      (lost' = 0 ↔ w.Keeps a) := by
  cases a with
  | takeBuffer thread bufferSize alloc => exact h.takeBuffer hen.1
  | returnBuffer thread buffer => exact h.returnBuffer hen.1 hen.2
  | clear => exact h.clear

/-- The buffers that a run has lost are none if and only if every step kept what there was. -/
theorem Inv.run {w₀ : BufferWorld} (h : w₀.Inv 0) {as : List BufferAction}
    (hrun : Trace (BufferWorld.step processorCount) Enabled w₀ as w) :
    ∃ lost, w.Inv lost ∧
      (lost = 0 ↔
        Trace (BufferWorld.step processorCount) (fun w a => w.Enabled a ∧ w.Keeps a) w₀ as w) := by
  induction hrun with
  | nil => exact ⟨0, h, iff_of_true rfl .nil⟩
  | snoc hrun hen heq ih =>
    obtain ⟨lost, hinv, hiff⟩ := ih
    obtain ⟨w', e, lost', heq', hinv', hiff'⟩ := hinv.step hen
    cases heq.symm.trans heq'
    exact ⟨lost + lost', hinv', by rw [hrun.and_snoc_iff hen heq, ← hiff, ← hiff', add_eq_zero]⟩

/-- No buffer was allocated yet. -/
theorem Inv.start {m : PooledBufferManager} (h : m.Inv)
    (hempty : ∀ pool ∈ m.bufferPools, pool.count = 0 ∧ pool.peak = 0 ∧ pool.inner.items = []) :
    (BufferWorld.start m).Inv 0 := by
  have hstored : m.stored = 0 := by
    refine List.sum_eq_zero fun x hx => ?_
    obtain ⟨pool, hpool, rfl⟩ := List.mem_map.1 hx
    rw [(h.pool pool hpool).idle.stored, (hempty pool hpool).2.2]
    rfl
  refine ⟨⟨h, fun pool hpool => ?_⟩, nofun, ?_⟩
  · obtain ⟨hcount, hpeak, hitems⟩ := hempty pool hpool
    exact ⟨h.pool pool hpool, by rw [hcount, hitems]; rfl, by rw [hcount, hpeak], by simp [hitems]⟩
  · simp [inventory, BufferWorld.start, hstored]

end BufferWorld

/-! ### Main result -/

/-- In every run of a manager, every buffer that was allocated is held, stored or freed, in one
place, if and only if no step took one of the paths that lose buffers. -/
theorem buffer_conservation {processorCount rounds : ℕ} {maxMemoryToPool maxBufferSize : ℤ}
    {m : PooledBufferManager} (hmemory : 0 < maxMemoryToPool)
    (hmax : 0 ≤ maxBufferSize ∧ maxBufferSize < 2 ^ 31)
    (hnew : PooledBufferManager.new processorCount rounds maxMemoryToPool
      maxBufferSize = some (.ok m))
    {as : List BufferAction} {w : BufferWorld}
    (hrun : Trace (BufferWorld.step processorCount) BufferWorld.Enabled (.start m) as w) :
    w.Conserved ↔ Trace (BufferWorld.step processorCount)
      (fun w a => w.Enabled a ∧ w.Keeps a) (.start m) as w := by
  obtain ⟨hinv, -, hempty⟩ := PooledBufferManager.new_inv processorCount hmemory hmax.2 hnew
  obtain ⟨lost, hlost, hiff⟩ := (BufferWorld.Inv.start hinv hempty).run hrun
  rw [hlost.conserved_iff, hiff]

/-- A manager was made, and a run of it ends in a state with a property. -/
theorem exists_run_of_decide {as : List BufferAction} {P : BufferWorld → BufferAction → Prop}
    [∀ w a, Decidable (P w a)] {Q : BufferWorld → Prop} [DecidablePred Q]
    (h : (PooledBufferManager.new 4 9 128 2048).any (fun r => r.toOption.any fun m =>
      (runWhile (BufferWorld.step 4) P (.start m) as).any fun w => Q w) = true) :
    ∃ m w, PooledBufferManager.new 4 9 128 2048 = some (.ok m) ∧
      Trace (BufferWorld.step 4) P (.start m) as w ∧ Q w := by
  obtain ⟨m, hnew, hrun⟩ := PooledBufferManager.exists_new_of_decide 4
    (Q := fun m => (runWhile (BufferWorld.step 4) P (.start m) as).any (fun w => Q w) = true)
      (by simpa using h)
  obtain ⟨w, hrun, hw⟩ := Trace.exists_of_runWhile (Q := Q) hrun
  exact ⟨m, w, hnew, hrun, hw⟩

/-- A buffer of 100 bytes is taken from a new manager and returned. -/
theorem buffer_conservation_return : ∃ m w, PooledBufferManager.new 4 9 128 2048 = some (.ok m) ∧
    Trace (BufferWorld.step 4) BufferWorld.Enabled (.start m)
      [.takeBuffer 1 100 true, .returnBuffer 1 ⟨some 0, 128⟩] w ∧
    w.Conserved := by
  obtain ⟨m, w, hnew, hrun, -⟩ : ∃ m w, PooledBufferManager.new 4 9 128 2048 = some (.ok m) ∧
      Trace (BufferWorld.step 4) (fun w a => w.Enabled a ∧ w.Keeps a) (.start m)
        [.takeBuffer 1 100 true, .returnBuffer 1 ⟨some 0, 128⟩] w ∧ True :=
          exists_run_of_decide (by decide)
  have hrun' := hrun.mono fun (w : BufferWorld) a (h : w.Enabled a ∧ w.Keeps a) => h.1
  exact ⟨m, w, hnew, hrun', (buffer_conservation (by decide) (by decide) hnew hrun').2 hrun⟩

/-- A page of a `WriteStream` is larger than the buffers of the default manager, and is lost when it
is returned. -/
theorem page_lost : ∃ m w, PooledBufferManager.new 4 9 128 2048 = some (.ok m) ∧
    Trace (BufferWorld.step 4) BufferWorld.Enabled (.start m)
      [.takeBuffer 1 4096 true, .returnBuffer 1 ⟨some 0, 4096⟩] w ∧ ¬ w.Conserved :=
  exists_run_of_decide (by decide)

end NanoSocket

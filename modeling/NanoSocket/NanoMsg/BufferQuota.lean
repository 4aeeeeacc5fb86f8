import NanoSocket.NanoMsg.BufferManager
import NanoSocket.Lib.Runs

/-!
# The quotas of a buffer manager

`PooledBufferManager.Inv` is the accounting of the memory: what remains and what the limits of the
pools stand for are the whole memory.  It holds after the constructor and is kept by `ChangeQuota`,
as long as there is something to take or to give; the two searches make sure of that, and never find
the same pool.  The buffers themselves do not matter here: a pool keeps its limit whatever is
returned to it.
-/

namespace NanoSocket

open Runs

/-! ### One pool -/

/-- The pool has the class of its size, and none of its buffers belongs to a thread. -/
def InnerPool.Idle (bufferSize limit : ℤ) : InnerPool → Prop
  | .synchronized innerPool => bufferSize < 85000 ∧ innerPool.Idle ∧ innerPool.maxCount = limit
  | .large _ => 85000 ≤ bufferSize

namespace BufferPool

/-- The bounds of a pool. -/
structure Inv (pool : BufferPool) : Prop where
  bufferSize_pos : 0 < pool.bufferSize
  bufferSize_lt : pool.bufferSize < 2 ^ 31
  peak_nonneg : 0 ≤ pool.peak
  peak_le : pool.peak ≤ pool.limit
  limit_lt : pool.limit < 2 ^ 31
  idle : pool.inner.Idle pool.bufferSize pool.limit

/-- The size and the limit are the same. -/
structure SameQuota (pool pool' : BufferPool) : Prop where
  bufferSize : pool'.bufferSize = pool.bufferSize
  limit : pool'.limit = pool.limit

variable {self : BufferPool} {bufferSize limit : ℤ} (processorCount thread : ℕ)

theorem SameQuota.trans {pool pool' pool'' : BufferPool} (h : pool.SameQuota pool')
    (h' : pool'.SameQuota pool'') :
    pool.SameQuota pool'' := ⟨h'.bufferSize.trans h.bufferSize, h'.limit.trans h.limit⟩

/-- A pool with a limit that is not negative can be created. -/
theorem createPool_spec (hpos : 0 < bufferSize) (hlt : bufferSize < 2 ^ 31) (hlimit : 0 ≤ limit)
    (hlimit' : limit < 2 ^ 31) :
    ∃ pool, createPool processorCount bufferSize limit = .ok pool ∧ pool.Inv ∧
      pool.bufferSize = bufferSize ∧
      pool.limit = limit ∧ pool.count = 0 ∧ pool.peak = 0 ∧ pool.inner.items = [] := by
  unfold createPool
  split_ifs with hsize
  · obtain ⟨innerPool, heq, hidle, hmax, hitems⟩ := SynchronizedPool.new_idle processorCount hlimit
    rw [heq]
    exact ⟨_, rfl, ⟨hpos, hlt, le_refl 0, hlimit, hlimit', hsize, hidle, hmax⟩, rfl, rfl,
      rfl, rfl, hitems⟩
  · omega
  · exact ⟨_, rfl, ⟨hpos, hlt, le_refl 0, hlimit, hlimit', not_lt.1 hsize⟩, rfl, rfl, rfl, rfl, rfl⟩

/-- A pool with a negative limit cannot. -/
theorem createPool_of_neg (h : limit < 0) :
    ∃ e, createPool processorCount bufferSize limit = .error e := by
  unfold createPool
  split_ifs with hsize
  · refine ⟨.overflow, ?_⟩
    have hcount : ¬ limit > SynchronizedPool.maxThreadItemsPerProcessor + processorCount := by omega
    simp only [SynchronizedPool.new, hcount, if_false, h, if_true]
    rfl
  · exact ⟨_, rfl⟩

theorem Inv.incrementCount (h : self.Inv) :
    self.incrementCount.Inv ∧ self.SameQuota self.incrementCount := by
  have hpeak := h.peak_nonneg
  have hpeak' := h.peak_le
  unfold BufferPool.incrementCount
  simp only
  split_ifs with hlimit hnew
  · exact ⟨h, rfl, rfl⟩
  · exact ⟨⟨h.bufferSize_pos, h.bufferSize_lt, by simp only; omega, by simp only; omega, h.limit_lt,
      h.idle⟩, rfl, rfl⟩
  · exact ⟨⟨h.bufferSize_pos, h.bufferSize_lt, hpeak, hpeak', h.limit_lt, h.idle⟩, rfl, rfl⟩

theorem Inv.decrementCount (h : self.Inv) :
    self.decrementCount.Inv ∧ self.SameQuota self.decrementCount := by
  unfold BufferPool.decrementCount
  simp only
  split_ifs
  · exact ⟨⟨h.bufferSize_pos, h.bufferSize_lt, h.peak_nonneg, h.peak_le, h.limit_lt, h.idle⟩, rfl,
      rfl⟩
  · exact ⟨h, rfl, rfl⟩

/-- What `Take` does: a pool for small buffers gives nothing back. -/
theorem Inv.take (h : self.Inv) :
    (self.take thread).2.Inv ∧ self.SameQuota (self.take thread).2 := by
  obtain ⟨hpos, hlt, hpeak, hpeak', hlimit, hidle⟩ := h
  unfold BufferPool.take
  cases hinner : self.inner with
  | synchronized innerPool =>
    rw [hinner] at hidle
    simp only [hidle.2.1.take]
    exact ⟨⟨hpos, hlt, hpeak, hpeak', hlimit, hidle⟩, rfl, rfl⟩
  | large items =>
    rw [hinner] at hidle
    cases items with
    | nil => exact ⟨⟨hpos, hlt, hpeak, hpeak', hlimit, by rw [hinner]; exact hidle⟩, rfl, rfl⟩
    | cons item items => exact ⟨⟨hpos, hlt, hpeak, hpeak', hlimit, hidle⟩, rfl, rfl⟩

theorem Inv.returnBuffer (h : self.Inv) (buffer : ByteBuffer) :
    ∃ returned pool, self.returnBuffer thread buffer = .ok (returned, pool) ∧ pool.Inv ∧
      self.SameQuota pool := by
  obtain ⟨hpos, hlt, hpeak, hpeak', hlimit, hidle⟩ := h
  unfold BufferPool.returnBuffer
  cases hinner : self.inner with
  | synchronized innerPool =>
    rw [hinner] at hidle
    obtain ⟨hsize, hidle, hmax⟩ := hidle
    by_cases hthread : thread = 0
    · subst hthread
      exact ⟨false, _, rfl, ⟨hpos, hlt, hpeak, hpeak', hlimit, hsize, hidle, hmax⟩, rfl, rfl⟩
    simp only [hidle.returnValue hthread, ok_bind, pure_eq_ok]
    split_ifs
    · exact ⟨false, _, rfl, ⟨hpos, hlt, hpeak, hpeak', hlimit, hsize, hidle, hmax⟩, rfl, rfl⟩
    · exact ⟨true, _, rfl, ⟨hpos, hlt, hpeak, hpeak', hlimit, hsize, hidle.push _, hmax⟩, rfl, rfl⟩
  | large items =>
    rw [hinner] at hidle
    simp only
    split_ifs
    · exact ⟨false, _, rfl, ⟨hpos, hlt, hpeak, hpeak', hlimit, by rw [hinner]; exact hidle⟩, rfl,
        rfl⟩
    · exact ⟨true, _, rfl, ⟨hpos, hlt, hpeak, hpeak', hlimit, hidle⟩, rfl, rfl⟩

end BufferPool

/-! ### The manager -/

namespace PooledBufferManager

/-- The memory that a pool stands for. -/
def quota (pool : BufferPool) : ℤ := pool.limit * pool.bufferSize

/-- The accounting of the memory. -/
structure Inv (m : PooledBufferManager) : Prop where
  pool : ∀ pool ∈ m.bufferPools, pool.Inv
  sorted : (m.bufferPools.map BufferPool.bufferSize).Pairwise (· < ·)
  bufferSizes : m.bufferSizes = m.bufferPools.map BufferPool.bufferSize
  remaining : 0 ≤ m.remainingMemory
  total : m.remainingMemory + (m.bufferPools.map quota).sum = m.memoryLimit

variable {self : PooledBufferManager} {index : ℕ} {pool pool' : BufferPool}
  (processorCount thread : ℕ)

theorem sum_quota_set (h : self.bufferPools[index]? = some pool) (pool' : BufferPool) :
    ((self.bufferPools.set index pool').map quota).sum = (self.bufferPools.map quota).sum -
      quota pool + quota pool' := by
  obtain ⟨hlt, rfl⟩ := List.getElem?_eq_some_iff.1 h
  rw [List.map_set, List.sum_set', dif_pos (by simpa using hlt), List.getElem_map]
  ring

theorem bufferSizes_set (h : self.bufferPools[index]? = some pool)
    (hsize : pool'.bufferSize = pool.bufferSize) :
    (self.bufferPools.set index pool').map BufferPool.bufferSize =
      self.bufferPools.map BufferPool.bufferSize := by
  obtain ⟨hlt, rfl⟩ := List.getElem?_eq_some_iff.1 h
  rw [List.map_set, hsize]
  refine List.ext_getElem (by simp) fun i hi hi' => ?_
  rw [List.getElem_set]
  split_ifs with hi
  · subst hi
    rw [List.getElem_map]
  · rfl

/-- One pool is replaced by another one for the same size, and the memory that remains makes up for
it. -/
theorem Inv.set (h : self.Inv) (hget : self.bufferPools[index]? = some pool) (hinv : pool'.Inv)
    (hsize : pool'.bufferSize = pool.bufferSize) {m : PooledBufferManager}
    (hpools : m.bufferPools = self.bufferPools.set index pool')
    (hsizes : m.bufferSizes = self.bufferSizes) (hlimit : m.memoryLimit = self.memoryLimit)
    (hpos : 0 ≤ m.remainingMemory)
    (hremaining : m.remainingMemory + quota pool' = self.remainingMemory + quota pool) : m.Inv := by
  refine ⟨fun p hp => ?_, ?_, ?_, hpos, ?_⟩
  · rw [hpools] at hp
    rcases List.mem_or_eq_of_mem_set hp with hp | rfl
    · exact h.pool p hp
    · exact hinv
  · rw [hpools, bufferSizes_set hget hsize]
    exact h.sorted
  · rw [hsizes, h.bufferSizes, hpools, bufferSizes_set hget hsize]
  · have := h.total
    rw [hpools, sum_quota_set hget, hlimit]
    omega

/-- The buffers of the old pool are moved to the new one. -/
theorem moveBuffers_spec {oldBufferPool newBufferPool : BufferPool} (hold : oldBufferPool.Inv)
    (hnew : newBufferPool.Inv) (rounds : ℕ) :
    ∃ pool, moveBuffers thread rounds oldBufferPool newBufferPool = .ok pool ∧ pool.Inv ∧
      newBufferPool.SameQuota pool := by
  induction rounds generalizing oldBufferPool newBufferPool with
  | zero => exact ⟨newBufferPool, rfl, hnew, rfl, rfl⟩
  | succ rounds ih =>
    unfold moveBuffers
    have htake := (hold.take thread).1
    generalize oldBufferPool.take thread = taken at htake
    obtain ⟨⟨data, length⟩, oldBufferPool'⟩ := taken
    cases data with
    | none => exact ⟨newBufferPool, rfl, hnew, rfl, rfl⟩
    | some data =>
      obtain ⟨returned, pool, heq, hpool, hsame⟩ := hnew.returnBuffer thread ⟨some data, length⟩
      obtain ⟨pool', heq', hpool', hsame'⟩ := ih htake hpool.incrementCount.1
      simp only [heq, ok_bind]
      exact ⟨pool', heq', hpool', (hsame.trans hpool.incrementCount.2).trans hsame'⟩

/-- What `ChangeQuota` does to the manager. -/
structure QuotaChanged (m : PooledBufferManager) (index : ℕ) (delta : ℤ)
    (m' : PooledBufferManager) : Prop where
  inv : m'.Inv
  memoryLimit : m'.memoryLimit = m.memoryLimit
  length : m'.bufferPools.length = m.bufferPools.length
  limit : ∀ i pool', m'.bufferPools[i]? = some pool' → ∃ pool, m.bufferPools[i]? = some pool ∧
    pool'.bufferSize = pool.bufferSize ∧ pool'.limit = pool.limit + if i = index then delta else 0
  remaining : ∀ pool, m.bufferPools[index]? = some pool →
    m'.remainingMemory = m.remainingMemory - pool.bufferSize * delta

/-- `ChangeQuota` by one buffer; the limit of a pool can overflow. -/
theorem Inv.changeQuota (h : self.Inv) (hget : self.bufferPools[index]? = some pool) {delta : ℤ}
    (hdelta : delta = 1 ∨ delta = -1) (hlimit : 0 ≤ pool.limit + delta)
    (hremaining : 0 ≤ self.remainingMemory - pool.bufferSize * delta) :
    (pool.limit + delta = 2 ^ 31 ∧ ∃ e,
      changeQuota processorCount self thread index delta = .error e) ∨ pool.limit + delta ≠ 2 ^ 31 ∧
        ∃ m', changeQuota processorCount self thread index delta = .ok m' ∧
          self.QuotaChanged index delta m' := by
  have hpool := h.pool pool (List.mem_of_getElem? hget)
  have hpos := hpool.bufferSize_pos
  have hlt := hpool.bufferSize_lt
  have hlimit' := hpool.limit_lt
  have hmul : int32 (pool.bufferSize * delta) = pool.bufferSize * delta := by
    rcases hdelta with rfl | rfl <;> exact int32_of_range (by omega) (by omega)
  unfold PooledBufferManager.changeQuota
  simp only [hget, hmul]
  by_cases hoverflow : pool.limit + delta = 2 ^ 31
  · have hneg : int32 (pool.limit + delta) < 0 := by
      rw [hoverflow]
      decide
    obtain ⟨e, heq⟩ := BufferPool.createPool_of_neg processorCount hneg
    exact .inl ⟨hoverflow, e, by rw [heq]; rfl⟩
  · have hnew : int32 (pool.limit + delta) = pool.limit + delta :=
      int32_of_range (by omega) (by omega)
    obtain ⟨newBufferPool, heq, hinv, hsize, hnewLimit, -⟩ :=
      BufferPool.createPool_spec processorCount hpos hlt hlimit (by omega)
    obtain ⟨pool', heq', hinv', hsame⟩ :=
      moveBuffers_spec thread hpool hinv (pool.limit + delta).toNat
    simp only [hnew, heq, heq', ok_bind, pure_eq_ok]
    have hsize' : pool'.bufferSize = pool.bufferSize := hsame.bufferSize.trans hsize
    have hlimit'' : pool'.limit = pool.limit + delta := hsame.limit.trans hnewLimit
    refine .inr ⟨hoverflow, _, rfl, h.set hget hinv' hsize' rfl rfl rfl hremaining ?_, rfl,
      List.length_set, fun i p hp => ?_, fun p hp => ?_⟩
    · simp only [quota, hsize', hlimit'']
      ring
    · simp only [List.getElem?_set] at hp
      split_ifs at hp with hi hilt
      · subst hi
        cases hp
        exact ⟨pool, hget, hsize', by rw [if_pos rfl, hlimit'']⟩
      · exact ⟨p, hp, rfl, by rw [if_neg (Ne.symm hi), add_zero]⟩
    · cases hget.symm.trans hp
      rfl

/-! ### Tuning -/

/-- The pool that is found has more than it uses. -/
theorem findMostExcessiveFrom_spec (bufferPools : List BufferPool) (i : ℕ) (maxBytes : ℤ)
    (index : Option ℕ) :
    findMostExcessiveFrom bufferPools i maxBytes index = index ∨
      ∃ j pool, bufferPools[j]? = some pool ∧ pool.peak < pool.limit ∧
        findMostExcessiveFrom bufferPools i maxBytes index = some (i + j) := by
  induction bufferPools generalizing i maxBytes index with
  | nil => exact .inl rfl
  | cons pool bufferPools ih =>
    have hshift :
        ∀ maxBytes' index', findMostExcessiveFrom bufferPools (i + 1) maxBytes' index' = index' ∨
        ∃ j pool', (pool :: bufferPools)[j]? = some pool' ∧ pool'.peak < pool'.limit ∧
          findMostExcessiveFrom bufferPools (i + 1) maxBytes' index' = some (i + j) := by
      intro maxBytes' index'
      refine (ih (i + 1) maxBytes' index').imp_right ?_
      rintro ⟨j, pool', hget, hlt, heq⟩
      exact ⟨j + 1, pool', hget, hlt, by rw [heq]; congr 1; omega⟩
    unfold findMostExcessiveFrom
    simp only
    split_ifs with hpeak hbytes
    · exact hshift _ _
    · exact hshift _ _
    · rcases hshift ((pool.limit - pool.peak) * pool.bufferSize) (some i) with heq | hfound
      · exact .inr ⟨0, pool, rfl, not_le.1 hpeak, heq⟩
      · exact .inr hfound

/-- The pool that is found uses all that it has. -/
theorem findMostStarvedFrom_spec (bufferPools : List BufferPool) (i : ℕ) (maxBytes : ℤ)
    (index : Option ℕ) :
    findMostStarvedFrom bufferPools i maxBytes index = index ∨
      ∃ j pool, bufferPools[j]? = some pool ∧ pool.peak = pool.limit ∧
        findMostStarvedFrom bufferPools i maxBytes index = some (i + j) := by
  induction bufferPools generalizing i maxBytes index with
  | nil => exact .inl rfl
  | cons pool bufferPools ih =>
    have hshift :
        ∀ maxBytes' index', findMostStarvedFrom bufferPools (i + 1) maxBytes' index' = index' ∨
        ∃ j pool', (pool :: bufferPools)[j]? = some pool' ∧ pool'.peak = pool'.limit ∧
          findMostStarvedFrom bufferPools (i + 1) maxBytes' index' = some (i + j) := by
      intro maxBytes' index'
      refine (ih (i + 1) maxBytes' index').imp_right ?_
      rintro ⟨j, pool', hget, hlt, heq⟩
      exact ⟨j + 1, pool', hget, hlt, by rw [heq]; congr 1; omega⟩
    unfold findMostStarvedFrom
    simp only
    split_ifs with hpeak hbytes
    · exact hshift _ _
    · exact hshift _ _
    · rcases hshift (pool.misses * pool.bufferSize) (some i) with heq | hfound
      · exact .inr ⟨0, pool, rfl, not_not.1 hpeak, heq⟩
      · exact .inr hfound

theorem findMostExcessivePool_spec (h : self.findMostExcessivePool = some index) :
    ∃ pool, self.bufferPools[index]? = some pool ∧ pool.peak < pool.limit := by
  rcases findMostExcessiveFrom_spec self.bufferPools 0 0 none with heq | ⟨j, pool, hget, hlt, heq⟩
  · cases h.symm.trans heq
  · cases h.symm.trans heq
    exact ⟨pool, by simpa using hget, hlt⟩

theorem findMostStarvedPool_spec (h : self.findMostStarvedPool = some index) :
    ∃ pool, self.bufferPools[index]? = some pool ∧ pool.peak = pool.limit := by
  rcases findMostStarvedFrom_spec self.bufferPools 0 0 none with heq | ⟨j, pool, hget, hlt, heq⟩
  · cases h.symm.trans heq
  · cases h.symm.trans heq
    exact ⟨pool, by simpa using hget, hlt⟩

/-- The quotas that were changed account for the limits. -/
structure Tuned (m : PooledBufferManager) (changes : List (ℕ × ℤ)) (m' : PooledBufferManager) :
    Prop where
  inv : m'.Inv
  memoryLimit : m'.memoryLimit = m.memoryLimit
  length : m'.bufferPools.length = m.bufferPools.length
  nodup : (changes.map Prod.fst).Nodup
  limit : ∀ i pool', m'.bufferPools[i]? = some pool' → ∃ pool, m.bufferPools[i]? = some pool ∧
    pool'.bufferSize = pool.bufferSize ∧
    pool'.limit = pool.limit + ((changes.filter fun c => c.1 = i).map Prod.snd).sum

theorem Inv.tuned_nil (h : self.Inv) : self.Tuned [] self :=
  ⟨h, rfl, rfl, List.nodup_nil, fun _ pool hget => ⟨pool, hget, rfl, by simp⟩⟩

/-- One more quota is changed. -/
theorem Tuned.snoc {m m' m'' : PooledBufferManager} {changes : List (ℕ × ℤ)} {delta : ℤ}
    (h : m.Tuned changes m') (hindex : index ∉ changes.map Prod.fst)
    (hchange : m'.QuotaChanged index delta m'') :
    m.Tuned (changes ++ [(index, delta)]) m'' := by
  refine ⟨hchange.inv, hchange.memoryLimit.trans h.memoryLimit, hchange.length.trans h.length, ?_,
    fun i p hp => ?_⟩
  · rw [List.map_append, List.map_singleton, ← List.concat_eq_append]
    exact h.nodup.concat hindex
  · obtain ⟨p', hp', hsize', hlimit'⟩ := hchange.limit i p hp
    obtain ⟨p'', hp'', hsize'', hlimit''⟩ := h.limit i p' hp'
    refine ⟨p'', hp'', hsize'.trans hsize'', ?_⟩
    rw [hlimit', hlimit'', List.filter_append, List.map_append, List.sum_append, add_assoc]
    by_cases hi : i = index
    · subst hi
      simp
    · simp [hi, Ne.symm hi]


/-- A quota is taken from a pool that does not need it. -/
theorem Inv.steal (h : self.Inv) (hget : self.bufferPools[index]? = some pool)
    (hpeak : pool.peak = pool.limit) :
    ∃ m' changes e, steal processorCount self thread pool.bufferSize = (m', changes, e) ∧
      self.Tuned changes m' ∧ index ∉ changes.map Prod.fst := by
  unfold PooledBufferManager.steal
  split_ifs with hremaining
  · cases hfind : self.findMostExcessivePool with
    | none => exact ⟨self, [], none, rfl, h.tuned_nil, List.not_mem_nil⟩
    | some i =>
      obtain ⟨pool', hget', hlt⟩ := findMostExcessivePool_spec hfind
      have hpool' := h.pool pool' (List.mem_of_getElem? hget')
      have hpos := hpool'.bufferSize_pos
      have hnonneg := hpool'.peak_nonneg
      have hzero := h.remaining
      have hne : i ≠ index := by
        rintro rfl
        cases hget.symm.trans hget'
        omega
      rcases h.changeQuota processorCount thread hget' (.inr rfl) (by omega)
        (by omega) with ⟨-, e, heq⟩ | ⟨-, m', heq, hchange⟩
      · simp only [decreaseQuota, heq]
        exact ⟨self, [], some e, rfl, h.tuned_nil, List.not_mem_nil⟩
      · simp only [decreaseQuota, heq]
        exact ⟨m', [(i, -1)], none, rfl,
          h.tuned_nil.snoc List.not_mem_nil hchange, by simpa using Ne.symm hne⟩
  · exact ⟨self, [], none, rfl, h.tuned_nil, List.not_mem_nil⟩

/-- The quotas of at most two pools are changed. -/
theorem Inv.changeQuotas (h : self.Inv) :
    ∃ m' changes e, changeQuotas processorCount self thread = (m', changes, e) ∧
      self.Tuned changes m' := by
  unfold PooledBufferManager.changeQuotas
  cases hfind : self.findMostStarvedPool with
  | none => exact ⟨self, [], none, rfl, h.tuned_nil⟩
  | some index =>
    obtain ⟨pool, hget, hpeak⟩ := findMostStarvedPool_spec hfind
    obtain ⟨m₁, changes, e, hsteal, htuned, hindex⟩ :=
      h.steal processorCount thread hget hpeak
    simp only [hget, hsteal]
    cases e with
    | some e => exact ⟨m₁, changes, some e, rfl, htuned⟩
    | none =>
      simp only
      split_ifs with hremaining
      · have hlt : index < m₁.bufferPools.length := by
          rw [htuned.length]
          exact (List.getElem?_eq_some_iff.1 hget).1
        obtain ⟨pool', hget'⟩ : ∃ pool', m₁.bufferPools[index]? = some pool' :=
          ⟨_, List.getElem?_eq_getElem hlt⟩
        obtain ⟨pool₀, hget₀, hsize, -⟩ := htuned.limit index pool' hget'
        cases hget.symm.trans hget₀
        have hpool' := htuned.inv.pool pool' (List.mem_of_getElem? hget')
        have hpeak' := hpool'.peak_nonneg
        have hlimit := hpool'.peak_le
        rcases htuned.inv.changeQuota processorCount thread hget' (.inl rfl)
          (by omega) (by rw [hsize]; omega) with ⟨-, e, heq⟩ | ⟨-, m', heq, hchange⟩
        · simp only [increaseQuota, heq]
          exact ⟨m₁, changes, some e, rfl, htuned⟩
        · simp only [increaseQuota, heq]
          exact ⟨m', _, none, rfl, htuned.snoc hindex hchange⟩
      · exact ⟨m₁, changes, none, rfl, htuned⟩

/-- All pools change, but not their quotas. -/
theorem Inv.mapPools (h : self.Inv) {m : PooledBufferManager} {f : BufferPool → BufferPool}
    (hpools : m.bufferPools = self.bufferPools.map f) (hsizes : m.bufferSizes = self.bufferSizes)
    (hremaining : m.remainingMemory = self.remainingMemory)
    (hlimit : m.memoryLimit = self.memoryLimit)
    (hf : ∀ pool ∈ self.bufferPools, (f pool).Inv ∧ pool.SameQuota (f pool)) : m.Inv := by
  have hmap :
      m.bufferPools.map BufferPool.bufferSize = self.bufferPools.map BufferPool.bufferSize := by
    rw [hpools, List.map_map]
    exact List.map_congr_left fun pool hpool => (hf pool hpool).2.bufferSize
  refine ⟨fun p hp => ?_, hmap ▸ h.sorted, ?_, hremaining ▸ h.remaining, ?_⟩
  · rw [hpools, List.mem_map] at hp
    obtain ⟨pool, hpool, rfl⟩ := hp
    exact (hf pool hpool).1
  · rw [hsizes, h.bufferSizes, hmap]
  · rw [hpools, List.map_map, hremaining, hlimit, ← h.total]
    congr 2
    refine List.map_congr_left fun pool hpool => ?_
    rw [Function.comp, quota, quota, (hf pool hpool).2.limit, (hf pool hpool).2.bufferSize]

/-- A tuning step. -/
theorem Inv.tuneQuotas (h : self.Inv) :
    ∃ m' changes e, tuneQuotas processorCount self thread = (m', changes, e) ∧ m'.Inv ∧
      m'.memoryLimit = self.memoryLimit ∧ (changes.map Prod.fst).Nodup := by
  unfold PooledBufferManager.tuneQuotas
  split_ifs
  · exact ⟨self, [], none, rfl, h, rfl, List.nodup_nil⟩
  · have h' : ({ self with areQuotasBeingTuned := true } : PooledBufferManager).Inv :=
      ⟨h.pool, h.sorted, h.bufferSizes, h.remaining, h.total⟩
    obtain ⟨m', changes, e, heq, htuned⟩ := h'.changeQuotas processorCount thread
    simp only [heq]
    cases e with
    | some e => exact ⟨m', changes, some e, rfl, htuned.inv, htuned.memoryLimit, htuned.nodup⟩
    | none =>
      refine ⟨_, changes, none, rfl, htuned.inv.mapPools rfl rfl rfl rfl fun pool hpool => ?_,
        htuned.memoryLimit, htuned.nodup⟩
      obtain ⟨hpos, hlt, hpeak, hpeak', hlimit', hidle⟩ := htuned.inv.pool pool hpool
      exact ⟨⟨hpos, hlt, hpeak, hpeak', hlimit', hidle⟩, rfl, rfl⟩

/-! ### Calls -/

/-- A call of `TakeBuffer` or `ReturnBuffer` by a thread. -/
inductive Call
  | takeBuffer (thread : ℕ) (bufferSize : ℤ)
  | returnBuffer (thread : ℕ) (buffer : ByteBuffer)
  deriving DecidableEq, Repr

/-- Make a call: the quotas that it changed. An exception goes to the caller. -/
def call (m : PooledBufferManager) : Call → PooledBufferManager × List (ℕ × ℤ)
  | .takeBuffer thread bufferSize =>
    let r := m.takeBuffer processorCount thread bufferSize
    (r.1, r.2.1)
  | .returnBuffer thread buffer =>
    match m.returnBuffer thread buffer with
    | .error _ => (m, [])
    | .ok m => (m, [])

/-- A pool changes, but not its quota. -/
theorem Inv.setPool (h : self.Inv) (hget : self.bufferPools[index]? = some pool) (hinv : pool'.Inv)
    (hsame : pool.SameQuota pool') {m : PooledBufferManager}
    (hpools : m.bufferPools = self.bufferPools.set index pool')
    (hsizes : m.bufferSizes = self.bufferSizes)
    (hremaining : m.remainingMemory = self.remainingMemory)
    (hlimit : m.memoryLimit = self.memoryLimit) : m.Inv := by
  refine h.set hget hinv hsame.bufferSize hpools hsizes hlimit (hremaining ▸ h.remaining) ?_
  rw [hremaining, quota, quota, hsame.limit, hsame.bufferSize]

/-- What a call does to the accounting. -/
structure Kept (m m' : PooledBufferManager) (changes : List (ℕ × ℤ)) : Prop where
  inv : m'.Inv
  memoryLimit : m'.memoryLimit = m.memoryLimit
  nodup : (changes.map Prod.fst).Nodup

theorem Inv.takeBuffer (h : self.Inv) (bufferSize : ℤ) :
    self.Kept (self.takeBuffer processorCount thread bufferSize).1
      (self.takeBuffer processorCount thread bufferSize).2.1 := by
  unfold PooledBufferManager.takeBuffer
  cases hfind : self.findPool bufferSize with
  | none => exact ⟨h, rfl, List.nodup_nil⟩
  | some index =>
    simp only
    cases hget : self.bufferPools[index]? with
    | none => exact ⟨h, rfl, List.nodup_nil⟩
    | some pool =>
      obtain ⟨hinv, hsame⟩ := (h.pool pool (List.mem_of_getElem? hget)).take thread
      simp only
      generalize pool.take thread = taken at hinv hsame
      obtain ⟨⟨data, length⟩, pool'⟩ := taken
      cases data with
      | some data =>
        obtain ⟨hinv', hsame'⟩ := hinv.decrementCount
        exact ⟨h.setPool hget hinv' (hsame.trans hsame') rfl rfl rfl rfl, rfl, List.nodup_nil⟩
      | none =>
        simp only
        have hmiss : ({ self with
            bufferPools :=
          self.bufferPools.set index { pool' with misses := int32 (pool'.misses + 1) }
            totalMisses := int32 (self.totalMisses + 1) } : PooledBufferManager).Inv := by
          refine h.setPool hget ?_ ?_ rfl rfl rfl rfl
          · exact ⟨hinv.bufferSize_pos, hinv.bufferSize_lt, hinv.peak_nonneg, hinv.peak_le,
              hinv.limit_lt, hinv.idle⟩
          · exact ⟨hsame.bufferSize, hsame.limit⟩
        split_ifs
        · obtain ⟨m', changes, e, heq, hinv', hlimit, hnodup⟩ :=
            hmiss.tuneQuotas processorCount thread
          simp only [heq]
          cases e <;> exact ⟨hinv', hlimit, hnodup⟩
        · exact ⟨hmiss, rfl, List.nodup_nil⟩
        · exact ⟨h.setPool hget hinv hsame rfl rfl rfl rfl, rfl, List.nodup_nil⟩

theorem Inv.returnBuffer (h : self.Inv) (buffer : ByteBuffer) {m : PooledBufferManager}
    (heq : self.returnBuffer thread buffer = .ok m) : self.Kept m [] := by
  unfold PooledBufferManager.returnBuffer at heq
  cases hfind : self.findPool buffer.length with
  | none =>
    rw [hfind] at heq
    cases heq
    exact ⟨h, rfl, List.nodup_nil⟩
  | some index =>
    rw [hfind] at heq
    simp only at heq
    cases hget : self.bufferPools[index]? with
    | none =>
      rw [hget] at heq
      cases heq
    | some pool =>
      obtain ⟨returned, pool', heq', hinv, hsame⟩ :=
        (h.pool pool (List.mem_of_getElem? hget)).returnBuffer thread buffer
      simp only [hget, heq', ok_bind, pure_eq_ok] at heq
      split_ifs at heq
      · cases heq
        obtain ⟨hinv', hsame'⟩ := hinv.incrementCount
        exact ⟨h.setPool hget hinv' (hsame.trans hsame') rfl rfl rfl rfl, rfl, List.nodup_nil⟩
      · cases heq
        exact ⟨h.setPool hget hinv hsame rfl rfl rfl rfl, rfl, List.nodup_nil⟩

/-- Every call keeps the accounting. -/
theorem Inv.call (h : self.Inv) (c : Call) :
    self.Kept (call processorCount self c).1 (call processorCount self c).2 := by
  cases c with
  | takeBuffer thread bufferSize => exact h.takeBuffer processorCount thread bufferSize
  | returnBuffer thread buffer =>
    cases heq : self.returnBuffer thread buffer with
    | error e =>
      simp only [PooledBufferManager.call, heq]
      exact ⟨h, rfl, List.nodup_nil⟩
    | ok m =>
      simp only [PooledBufferManager.call, heq]
      exact h.returnBuffer thread buffer heq

/-- A sequence of calls keeps the accounting, and no call changes a quota twice. -/
theorem Inv.run (h : self.Inv) (calls : List Call) :
    (specRun (PooledBufferManager.call processorCount) self calls).1.Inv ∧
      (specRun (PooledBufferManager.call processorCount) self calls).1.memoryLimit =
        self.memoryLimit ∧
      ∀ changes ∈ (specRun (PooledBufferManager.call processorCount) self calls).2,
        (changes.map Prod.fst).Nodup := by
  induction calls generalizing self with
  | nil => exact ⟨h, rfl, nofun⟩
  | cons c calls ih =>
    obtain ⟨hinv, hlimit, hnodup⟩ := h.call processorCount c
    obtain ⟨hinv', hlimit', hnodup'⟩ := ih hinv
    refine ⟨hinv', hlimit'.trans hlimit, fun changes hmem => ?_⟩
    rcases List.mem_cons.1 hmem with rfl | hmem
    · exact hnodup
    · exact hnodup' changes hmem

/-! ### The constructor -/

/-- The pools that the loop has added. -/
structure Building (maxMemoryToPool bufferSize remainingMemory : ℤ)
    (bufferPoolList : List BufferPool) : Prop where
  pool : ∀ pool ∈ bufferPoolList, pool.Inv ∧ pool.bufferSize < bufferSize
  empty : ∀ pool ∈ bufferPoolList, pool.count = 0 ∧ pool.peak = 0 ∧ pool.inner.items = []
  sorted : (bufferPoolList.map BufferPool.bufferSize).Pairwise (· < ·)
  remaining : 0 ≤ remainingMemory
  total : remainingMemory + (bufferPoolList.map quota).sum = maxMemoryToPool

/-- One round of the loop. -/
theorem createPools_round {maxMemoryToPool maxBufferSize bufferSize remainingMemory : ℤ}
    {bufferPoolList : List BufferPool} (hpos : 0 < bufferSize) (hlt : bufferSize < 2 ^ 31)
    (h : Building maxMemoryToPool bufferSize remainingMemory bufferPoolList) :
    ∃ bufferPools remaining,
      (∀ bufferSize', bufferSize < bufferSize' →
        Building maxMemoryToPool bufferSize' remaining bufferPools) ∧
      ∀ rounds, createPools processorCount maxBufferSize (rounds + 1) bufferSize remainingMemory
        bufferPoolList = if bufferSize ≥ maxBufferSize then some (.ok (bufferPools, remaining))
        else createPools processorCount maxBufferSize rounds
          (if bufferSize * 2 > maxBufferSize then maxBufferSize else bufferSize * 2) remaining
            bufferPools := by
  set count : ℤ := if (if remainingMemory / bufferSize > 2 ^ 31 - 1 then 2 ^ 31 - 1
    else remainingMemory / bufferSize) > initialBufferCount then initialBufferCount
    else if remainingMemory / bufferSize > 2 ^ 31 - 1 then 2 ^ 31 - 1
      else remainingMemory / bufferSize with hcount
  have hdiv : 0 ≤ remainingMemory / bufferSize := Int.ediv_nonneg h.remaining hpos.le
  have hmul : remainingMemory / bufferSize * bufferSize ≤ remainingMemory :=
    Int.ediv_mul_le _ hpos.ne'
  have hcount₀ : 0 ≤ count := by
    rw [hcount, initialBufferCount]
    split_ifs <;> omega
  have hcount₁ : count ≤ 1 := by
    rw [hcount, initialBufferCount]
    split_ifs <;> omega
  have hcount₂ : count ≤ remainingMemory / bufferSize := by
    rw [hcount, initialBufferCount]
    split_ifs <;> omega
  have hfits : count * bufferSize ≤ remainingMemory :=
    (mul_le_mul_of_nonneg_right hcount₂ hpos.le).trans hmul
  obtain ⟨pool, heq, hinv, hsize, hlimit, hempty⟩ :=
    BufferPool.createPool_spec processorCount hpos hlt hcount₀ (by omega)
  refine ⟨bufferPoolList ++ [pool], remainingMemory - count * bufferSize,
    fun bufferSize' hlt' => ⟨fun p hp => ?_, fun p hp => ?_, ?_, by omega, ?_⟩, fun rounds => ?_⟩
  · rcases List.mem_append.1 hp with hp | hp
    · exact ⟨(h.pool p hp).1, (h.pool p hp).2.trans hlt'⟩
    · rw [List.mem_singleton.1 hp]
      exact ⟨hinv, hsize ▸ hlt'⟩
  · rcases List.mem_append.1 hp with hp | hp
    · exact h.empty p hp
    · rw [List.mem_singleton.1 hp]
      exact hempty
  · rw [List.map_append, List.pairwise_append]
    refine ⟨h.sorted, List.pairwise_singleton _ _, fun x hx y hy => ?_⟩
    obtain ⟨p, hp, rfl⟩ := List.mem_map.1 hx
    rw [List.map_singleton, List.mem_singleton] at hy
    rw [hy, hsize]
    exact (h.pool p hp).2
  · rw [List.map_append, List.map_singleton, List.sum_append, List.sum_singleton, quota, hlimit,
      hsize, ← h.total]
    ring
  · rw [createPools]
    simp only [← hcount, heq]

/-- The loop ends, however many more rounds it may make. -/
theorem createPools_spec {maxMemoryToPool maxBufferSize : ℤ} (hmax : maxBufferSize < 2 ^ 31) (n : ℕ)
    {bufferSize remainingMemory : ℤ} {bufferPoolList : List BufferPool}
    (hn : maxBufferSize - bufferSize ≤ n) (hpos : 0 < bufferSize) (hlt : bufferSize < 2 ^ 31)
    (h : Building maxMemoryToPool bufferSize remainingMemory bufferPoolList) :
    ∃ bufferPools remaining,
      (∀ rounds, n < rounds → createPools processorCount maxBufferSize rounds bufferSize
        remainingMemory bufferPoolList = some (.ok (bufferPools, remaining))) ∧
      ∃ bufferSize', Building maxMemoryToPool bufferSize' remaining bufferPools := by
  induction n generalizing bufferSize remainingMemory bufferPoolList with
  | zero =>
    obtain ⟨bufferPools, remaining, hbuilding, hround⟩ :=
      createPools_round processorCount hpos hlt h
    refine ⟨bufferPools, remaining, fun rounds hrounds => ?_, bufferSize + 1,
      hbuilding _ (by omega)⟩
    obtain ⟨rounds, rfl⟩ := Nat.exists_eq_succ_of_ne_zero hrounds.ne'
    exact (hround rounds).trans (if_pos (by omega))
  | succ n ih =>
    obtain ⟨bufferPools, remaining, hbuilding, hround⟩ :=
      createPools_round processorCount hpos hlt h
    by_cases hlast : bufferSize ≥ maxBufferSize
    · refine ⟨bufferPools, remaining, fun rounds hrounds => ?_, bufferSize + 1,
        hbuilding _ (by omega)⟩
      obtain ⟨rounds, rfl⟩ := Nat.exists_eq_succ_of_ne_zero (by omega : rounds ≠ 0)
      exact (hround rounds).trans (if_pos hlast)
    · set bufferSize' := if bufferSize * 2 > maxBufferSize then maxBufferSize
        else bufferSize * 2 with hnext
      have hgrows : bufferSize < bufferSize' := by
        rw [hnext]
        split_ifs <;> omega
      have hle : bufferSize' ≤ maxBufferSize := by
        rw [hnext]
        split_ifs <;> omega
      obtain ⟨bufferPools', remaining', hend, hbuilding'⟩ :=
        ih (by push_cast at hn; omega) (by omega) (by omega) (hbuilding bufferSize' hgrows)
      refine ⟨bufferPools', remaining', fun rounds hrounds => ?_, hbuilding'⟩
      obtain ⟨rounds, rfl⟩ := Nat.exists_eq_succ_of_ne_zero (by omega : rounds ≠ 0)
      rw [hround rounds, if_neg hlast]
      exact hend rounds (by omega)

/-- The constructor returns a manager that accounts for its memory. -/
theorem new_spec {maxMemoryToPool maxBufferSize : ℤ} (hmemory : 0 < maxMemoryToPool)
    (hmax : maxBufferSize < 2 ^ 31) :
    ∃ m n, (∀ rounds, n < rounds → new processorCount rounds maxMemoryToPool maxBufferSize =
      some (.ok m)) ∧ m.Inv ∧ m.memoryLimit = maxMemoryToPool ∧
      ∀ pool ∈ m.bufferPools, pool.count = 0 ∧ pool.peak = 0 ∧ pool.inner.items = [] := by
  have hbuilding : Building maxMemoryToPool minBufferSize maxMemoryToPool [] :=
    ⟨nofun, nofun, List.Pairwise.nil, hmemory.le, by simp⟩
  obtain ⟨bufferPools, remaining, hend, bufferSize', hbuilding'⟩ :=
    createPools_spec processorCount hmax
    (maxBufferSize - minBufferSize).toNat (Int.self_le_toNat _) (by decide) (by decide) hbuilding
  refine ⟨{ bufferPools, bufferSizes := bufferPools.map BufferPool.bufferSize,
            memoryLimit := maxMemoryToPool
            remainingMemory := remaining, totalMisses := 0, areQuotasBeingTuned := false },
    (maxBufferSize - minBufferSize).toNat, fun rounds hrounds =>
      ?_, ⟨fun p hp => (hbuilding'.pool p hp).1, hbuilding'.sorted, rfl, hbuilding'.remaining,
    hbuilding'.total⟩, rfl, hbuilding'.empty⟩
  rw [new, hend rounds hrounds]
  rfl

theorem createPools_mono {maxBufferSize : ℤ} {rounds rounds' : ℕ} (hle : rounds ≤ rounds')
    {bufferSize remainingMemory : ℤ} {bufferPoolList : List BufferPool}
    {r : Except ClrException (List BufferPool × ℤ)}
    (h : createPools processorCount maxBufferSize rounds bufferSize remainingMemory
      bufferPoolList = some r) :
    createPools processorCount maxBufferSize rounds' bufferSize remainingMemory
      bufferPoolList = some r := by
  induction rounds generalizing rounds' bufferSize remainingMemory bufferPoolList with
  | zero => cases h
  | succ rounds ih =>
    obtain ⟨rounds', rfl⟩ := Nat.exists_eq_succ_of_ne_zero (by omega : rounds' ≠ 0)
    unfold createPools at h ⊢
    simp only at h ⊢
    split at h
    · exact h
    · by_cases hlast : bufferSize ≥ maxBufferSize
      · rw [if_pos hlast] at h ⊢
        exact h
      · rw [if_neg hlast] at h ⊢
        exact ih (by omega) h

/-- However many rounds it may make, the constructor returns one manager. -/
theorem new_mono {maxMemoryToPool maxBufferSize : ℤ} {rounds rounds' : ℕ} (hle : rounds ≤ rounds')
    {m : PooledBufferManager}
    (hnew : new processorCount rounds maxMemoryToPool maxBufferSize = some (.ok m)) :
    new processorCount rounds' maxMemoryToPool maxBufferSize = some (.ok m) := by
  obtain ⟨r, hr, heq⟩ := Option.map_eq_some_iff.1 hnew
  rw [new, createPools_mono processorCount hle hr, Option.map_some, heq]

/-- A manager that the constructor has returned. -/
theorem new_inv {maxMemoryToPool maxBufferSize : ℤ} (hmemory : 0 < maxMemoryToPool)
    (hmax : maxBufferSize < 2 ^ 31) {rounds : ℕ} {m : PooledBufferManager}
    (hnew : new processorCount rounds maxMemoryToPool maxBufferSize = some (.ok m)) :
    m.Inv ∧ m.memoryLimit = maxMemoryToPool ∧
      ∀ pool ∈ m.bufferPools, pool.count = 0 ∧ pool.peak = 0 ∧ pool.inner.items = [] := by
  obtain ⟨m', n, hnew', hinv, hlimit, hempty⟩ := new_spec processorCount hmemory hmax
  have hmore := new_mono processorCount (show rounds ≤ rounds + n + 1 by omega) hnew
  cases hmore.symm.trans (hnew' _ (by omega))
  exact ⟨hinv, hlimit, hempty⟩

/-- A manager was made, and has a property. -/
theorem exists_new_of_decide {rounds : ℕ} {maxMemoryToPool maxBufferSize : ℤ}
    {Q : PooledBufferManager → Prop} [DecidablePred Q]
    (h : (new processorCount rounds maxMemoryToPool maxBufferSize).any
      (fun r => r.toOption.any fun m => Q m) = true) :
    ∃ m, new processorCount rounds maxMemoryToPool maxBufferSize = some (.ok m) ∧ Q m := by
  cases hnew : new processorCount rounds maxMemoryToPool maxBufferSize with
  | none => simp [hnew] at h
  | some r =>
    cases r with
    | error e => simp [hnew, Except.toOption] at h
    | ok m =>
      rw [hnew] at h
      exact ⟨m, rfl, of_decide_eq_true h⟩

end PooledBufferManager

/-! ### Main result -/

open PooledBufferManager in
/-- The constructor returns, and after every sequence of calls what remains and what the limits
stand for are the whole memory.  No tuning step changes the quota of a pool twice. -/
theorem buffer_quotas (processorCount : ℕ) {maxMemoryToPool maxBufferSize : ℤ}
    (hmemory : 0 < maxMemoryToPool) (hmax : 0 ≤ maxBufferSize ∧ maxBufferSize < 2 ^ 31) :
    ∃ m n, (∀ rounds, n < rounds →
      new processorCount rounds maxMemoryToPool maxBufferSize = some (.ok m)) ∧
      ∀ calls m' answers, specRun (call processorCount) m calls = (m', answers) →
        m'.remainingMemory + (m'.bufferPools.map fun pool => pool.limit * pool.bufferSize).sum =
          maxMemoryToPool ∧
        m'.memoryLimit = maxMemoryToPool ∧ 0 ≤ m'.remainingMemory ∧
        (∀ pool ∈ m'.bufferPools, 0 ≤ pool.limit ∧ pool.peak ≤ pool.limit) ∧
        (m'.bufferPools.map BufferPool.bufferSize).Pairwise (· < ·) ∧
        ∀ changes ∈ answers, (changes.map Prod.fst).Nodup := by
  obtain ⟨m, n, hnew, hinv, hlimit, -⟩ := new_spec processorCount hmemory hmax.2
  refine ⟨m, n, hnew, fun calls m' answers hrun => ?_⟩
  obtain ⟨hinv', hlimit', hnodup⟩ := hinv.run processorCount calls
  rw [hrun] at hinv' hlimit' hnodup
  have hlimit₀ : m'.memoryLimit = maxMemoryToPool := hlimit'.trans hlimit
  refine ⟨hinv'.total.trans hlimit₀, hlimit₀, hinv'.remaining, fun pool hpool => ?_,
    hinv'.sorted, hnodup⟩
  have hpool' := hinv'.pool pool hpool
  exact ⟨hpool'.peak_nonneg.trans hpool'.peak_le, hpool'.peak_le⟩

/-- A buffer is returned, so that its pool has been in full use once, and then eight calls miss. -/
def missCalls : List PooledBufferManager.Call :=
  [.takeBuffer 1 128, .returnBuffer 1 ⟨some 0, 128⟩] ++ List.replicate 8 (.takeBuffer 1 128)

open PooledBufferManager in
/-- With the eighth miss the pool gets one more buffer from a memory of 1000 bytes. -/
theorem buffer_quotas_small : ∃ m, new 4 9 1000 300 = some (.ok m) ∧
    (specRun (call 4) m missCalls).1.bufferPools.map BufferPool.limit = [2, 1, 1] ∧
    (specRun (call 4) m missCalls).1.remainingMemory +
      ((specRun (call 4) m missCalls).1.bufferPools.map fun pool => pool.limit *
        pool.bufferSize).sum = 1000 ∧
    ∀ changes ∈ (specRun (call 4) m missCalls).2, (changes.map Prod.fst).Nodup := by
  have hmemory : (0 : ℤ) < 1000 := by decide
  have hmax : (0 : ℤ) ≤ 300 ∧ (300 : ℤ) < 2 ^ 31 := by decide
  obtain ⟨m, hnew, hlimits⟩ : ∃ m, new 4 9 1000 300 = some (.ok m) ∧
      (specRun (call 4) m missCalls).1.bufferPools.map BufferPool.limit = [2, 1, 1] :=
    exists_new_of_decide 4 (by decide)
  obtain ⟨m', n, hnew', hrun⟩ := buffer_quotas 4 hmemory hmax
  have hmore := new_mono 4 (show 9 ≤ 9 + n + 1 by omega) hnew
  cases hmore.symm.trans (hnew' _ (by omega))
  obtain ⟨htotal, -, -, -, -, hnodup⟩ := hrun missCalls _ _ Prod.mk.eta.symm
  exact ⟨m, hnew, hlimits, htotal, hnodup⟩

end NanoSocket

import NanoSocket.NanoMsg.BufferConservation

/-!
# The sizes of the buffers (`Internal/UnmanagedBufferManager.cs`)

`TakeBuffer` returns a buffer of the first size that is large enough, wherever the buffer comes
from, and `ReturnBuffer` accepts what was taken.  The constructor of the manager bounds the limits
of the pools by the largest `int`, and `ChangeQuota` does not.  It is the memory that keeps them
below: `NanoSocket` asks for an `int` of it, and that many buffers of one size need more
(`not_raisesLargest`).
-/

namespace NanoSocket

open Runs

namespace PooledBufferManager

/-- The length of the buffer that is returned. -/
def Taken.length : Taken → ℤ
  | .pooled buffer => buffer.length
  | .allocated size => size

/-- The smallest of the sizes that is at least `n`, or `n` when all of them are smaller. -/
def IsSizeFor (sizes : List ℤ) (n length : ℤ) : Prop :=
  (length ∈ sizes ∧ n ≤ length ∧ ∀ size ∈ sizes, n ≤ size → length ≤ size) ∨
    (∀ size ∈ sizes, size < n) ∧ length = n

variable {self : PooledBufferManager} {processorCount thread : ℕ} {n : ℤ}

/-! ### The size -/

/-- The first size that is large enough is the smallest one. -/
theorem isSizeFor_of_find (h : self.Inv) {index : ℕ} {pool : BufferPool}
    (hfind : self.findPool n = some index) (hget : self.bufferPools[index]? = some pool) :
    IsSizeFor self.bufferSizes n pool.bufferSize := by
  obtain ⟨hlt, hle, hfirst⟩ := List.findIdx?_eq_some_iff_getElem.1 hfind
  have hsize : self.bufferSizes[index] = pool.bufferSize := by
    obtain ⟨hlt', rfl⟩ := List.getElem?_eq_some_iff.1 hget
    simp only [h.bufferSizes, List.getElem_map]
  have hsorted := h.sorted
  rw [← h.bufferSizes] at hsorted
  refine .inl ⟨hsize ▸ List.getElem_mem hlt, hsize ▸ of_decide_eq_true hle, fun size hmem hn => ?_⟩
  obtain ⟨i, hi, rfl⟩ := List.getElem_of_mem hmem
  rw [← hsize]
  rcases Nat.lt_trichotomy i index with hlt' | rfl | hgt
  · exact absurd (decide_eq_true hn) (hfirst i hlt')
  · exact le_rfl
  · exact (List.pairwise_iff_getElem.1 hsorted index i hlt hi hgt).le

/-- What is returned has the size of the pool that was found. -/
theorem Filled.takeBuffer_length (h : self.Filled) {m : PooledBufferManager}
    {changes : List (ℕ × ℤ)} {taken : Taken}
    (heq : self.takeBuffer processorCount thread n = (m, changes, .ok taken)) :
    IsSizeFor self.bufferSizes n taken.length := by
  unfold PooledBufferManager.takeBuffer at heq
  cases hfind : self.findPool n with
  | none =>
    rw [hfind] at heq
    cases heq
    exact .inr ⟨findPool_none.1 hfind, rfl⟩
  | some index =>
    simp only [hfind] at heq
    cases hget : self.bufferPools[index]? with
    | none =>
      rw [hget] at heq
      cases heq
    | some pool =>
      have hsize := isSizeFor_of_find h.inv hfind hget
      simp only [hget] at heq
      rcases (h.filled pool (List.mem_of_getElem? hget)).take thread with
        ⟨hnone, hsame⟩ | ⟨buffer, items, hdata, hlength, -, htake, -⟩
      · obtain ⟨length, htake⟩ : ∃ length, pool.take thread = (⟨none, length⟩, pool) :=
          ⟨(pool.take thread).1.length, Prod.ext (by rw [← hnone]) hsame⟩
        simp only [htake] at heq
        split_ifs at heq
        · split at heq
          · cases heq
          · cases heq
            exact hsize
        · cases heq
          exact hsize
        · cases heq
          exact hsize
      · obtain ⟨data, length⟩ := buffer
        obtain ⟨data, rfl⟩ := Option.isSome_iff_exists.1 hdata
        rw [htake] at heq
        cases heq
        rw [Taken.length, show length = pool.bufferSize from hlength]
        exact hsize

/-! ### The limits -/

/-- No limit is the largest when the memory is not enough for that many buffers, and one more. -/
theorem Filled.not_raisesLargest (h : self.Filled) (hlimit : self.memoryLimit < 2 ^ 31) :
    ¬ self.RaisesLargest := by
  rintro ⟨index, hfind, pool, hget, hafford, hlargest⟩
  obtain ⟨pool', hget', hpeak⟩ := findMostStarvedPool_spec hfind
  cases hget.symm.trans hget'
  obtain ⟨m, changes, -, hmoved, hmemory, hindex, hiff, -⟩ := h.steal_spec 0 one_ne_zero hget hpeak
  have hget₁ := List.mem_of_getElem? ((hmoved.other index hindex).trans hget)
  have hinv := hmoved.filled.inv
  -- the pool accounts for at least one buffer's size for each unit of its limit
  have hquota : quota pool ≤ (m.bufferPools.map quota).sum := by
    refine List.single_le_sum (fun x hx => ?_) _ (List.mem_map_of_mem hget₁)
    obtain ⟨p, hp, rfl⟩ := List.mem_map.1 hx
    have hp := hinv.pool p hp
    exact mul_nonneg (hp.peak_nonneg.trans hp.peak_le) hp.bufferSize_pos.le
  have hremaining := hiff.2 hafford
  have htotal := hinv.total
  have hpos := (hinv.pool pool hget₁).bufferSize_pos
  rw [quota, hlargest] at hquota
  rw [hmemory] at htotal
  omega

theorem Filled.not_overflows (h : self.Filled) (hlimit : self.memoryLimit < 2 ^ 31) :
    ¬ self.Overflows thread n := by
  rintro ⟨index, hfind, pool, hget, -, hraises⟩
  exact (h.missed hget).1.not_raisesLargest hlimit hraises

end PooledBufferManager

/-! ### Runs -/

namespace BufferWorld

open PooledBufferManager

/-- No call changes the memory of the manager. -/
theorem memoryLimit_step {processorCount : ℕ} {w w' : BufferWorld} (h : w.manager.Inv)
    {a : BufferAction} {e : Option ClrException} (heq : w.step processorCount a = .ok (w', e)) :
    w'.manager.memoryLimit = w.manager.memoryLimit := by
  cases a with
  | takeBuffer thread bufferSize alloc =>
    have hlimit := (h.takeBuffer processorCount thread bufferSize).memoryLimit
    simp only [BufferWorld.step] at heq
    generalize w.manager.takeBuffer processorCount thread bufferSize = taken at hlimit heq
    obtain ⟨m', changes, r⟩ := taken
    rcases r with e' | ⟨buffer | size⟩
    · cases heq
      exact hlimit
    · cases heq
      exact hlimit
    · simp only at heq
      split_ifs at heq
      · cases heq
        exact hlimit
      · cases heq
        exact hlimit
  | returnBuffer thread buffer =>
    simp only [BufferWorld.step] at heq
    cases hreturn : w.manager.returnBuffer thread buffer with
    | error e' =>
      rw [hreturn] at heq
      cases heq
      rfl
    | ok m' =>
      rw [hreturn] at heq
      cases heq
      exact (h.returnBuffer thread buffer hreturn).memoryLimit
  | clear =>
    cases heq
    rfl

theorem Inv.memoryLimit {processorCount : ℕ} {w₀ w : BufferWorld} (h : w₀.Inv 0)
    {as : List BufferAction} (hrun : Trace (BufferWorld.step processorCount) Enabled w₀ as w) :
    w.manager.memoryLimit = w₀.manager.memoryLimit := by
  induction hrun with
  | nil => rfl
  | snoc hrun hen heq ih =>
    obtain ⟨lost, hinv, -⟩ := h.run hrun
    exact (memoryLimit_step hinv.filled.inv heq).trans ih

/-- `TakeBuffer` returns a buffer of the right size, and `ReturnBuffer` accepts every buffer that is
held. -/
def SizeContract (w : BufferWorld) (processorCount thread : ℕ) (n : ℤ) : Prop :=
  (∃ taken, (w.manager.takeBuffer processorCount thread n).2.2 = .ok taken ∧
    IsSizeFor w.manager.bufferSizes n taken.length) ∧
  ∀ buffer ∈ w.held, ∃ manager, w.manager.returnBuffer thread buffer = .ok manager

end BufferWorld

/-! ### Main result -/

/-- After every run of calls, `TakeBuffer` returns a buffer of the smallest size that is large
enough, or of the size that was asked for if no size is, and every buffer that was taken can be
returned. -/
theorem takeBuffer_size {processorCount rounds : ℕ} {maxMemoryToPool maxBufferSize : ℤ}
    {m : PooledBufferManager} (hmemory : 0 < maxMemoryToPool ∧ maxMemoryToPool < 2 ^ 31)
    (hmax : 0 ≤ maxBufferSize ∧ maxBufferSize < 2 ^ 31)
    (hnew : PooledBufferManager.new processorCount rounds maxMemoryToPool
      maxBufferSize = some (.ok m))
    {as : List BufferAction} {w : BufferWorld}
    (hrun : Trace (BufferWorld.step processorCount) BufferWorld.Enabled (.start m) as w)
    {thread : ℕ} (hthread : thread ≠ 0) (n : ℤ) : w.SizeContract processorCount thread n := by
  obtain ⟨hinv, hlimit, hempty⟩ := PooledBufferManager.new_inv processorCount hmemory.1 hmax.2 hnew
  have hstart := BufferWorld.Inv.start hinv hempty
  obtain ⟨lost, hworld, -⟩ := hstart.run hrun
  have hlimit' : w.manager.memoryLimit < 2 ^ 31 := by
    rw [hstart.memoryLimit hrun, BufferWorld.start, hlimit]
    exact hmemory.2
  constructor
  · obtain ⟨m', changes, r, htake, htaken⟩ := hworld.filled.takeBuffer processorCount hthread n
    rw [htake]
    cases r with
    | error e => exact absurd (htaken.throws.1 ⟨e, rfl⟩) (hworld.filled.not_overflows hlimit')
    | ok taken => exact ⟨taken, rfl, hworld.filled.takeBuffer_length htake⟩
  · intro buffer hmem
    obtain ⟨hdata, hfits⟩ := hworld.held buffer hmem
    obtain ⟨manager, heq, -⟩ := hworld.filled.returnBuffer hthread hdata hfits
    exact ⟨manager, heq⟩

/-- With the default sizes: a buffer was returned, and ten more are held, with the eighth of which
the quotas had to be tuned.  Then a buffer is asked for that is larger than two of the sizes, and
one that is larger than all. -/
theorem takeBuffer_size_default : ∃ m w, PooledBufferManager.new 4 9 128 2048 = some (.ok m) ∧
    Trace (BufferWorld.step 4) BufferWorld.Enabled (.start m)
      ([.takeBuffer 1 100 true, .returnBuffer 1 ⟨some 0, 128⟩] ++ List.replicate 10
        (.takeBuffer 2 100 true)) w ∧
    w.held.length = 10 ∧ w.SizeContract 4 1 300 ∧ w.SizeContract 4 1 5000 := by
  obtain ⟨m, w, hnew, hrun, hheld⟩ : ∃ m w, PooledBufferManager.new 4 9 128 2048 = some (.ok m) ∧
      Trace (BufferWorld.step 4) BufferWorld.Enabled (.start m)
        ([.takeBuffer 1 100 true, .returnBuffer 1 ⟨some 0, 128⟩] ++ List.replicate 10
          (.takeBuffer 2 100 true)) w ∧
      w.held.length = 10 :=
    exists_run_of_decide (by decide)
  have hsize : ∀ n : ℤ, w.SizeContract 4 1 n :=
    takeBuffer_size (by decide) (by decide) hnew hrun one_ne_zero
  exact ⟨m, w, hnew, hrun, hheld, hsize 300, hsize 5000⟩

end NanoSocket

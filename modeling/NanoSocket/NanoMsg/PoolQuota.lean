import NanoSocket.Lib.Runs
import NanoSocket.NanoMsg.SynchronizedPool

/-!
# The quota of a pool (`Internal/SynchronizedPool.cs`)

The limit of a pool is divided between the entries that belong to a thread, one each, and the global
stack.  `SynchronizedPool.Quota` is the invariant, and `pool_quota` says what it means for every run
of calls of any threads.  `buffer_pool_iff` says what a pool of buffers is good for.
-/

namespace NanoSocket

open Runs

section Quota

variable {T : Type}

/-- A call of a thread. -/
inductive PoolCall (T : Type)
  | take (thisThreadId : ℕ)
  | returnValue (thisThreadId : ℕ) (value : T)
  | clear

/-! ### The loops over the entries -/

/-- The threads of the entries: those in use come first, each once, and no value is without a
thread. -/
structure Arranged (es : List (PoolEntry T)) (used : List ℕ) : Prop where
  threads : ∃ n, es.map PoolEntry.threadId = used ++ List.replicate n 0
  nonzero : 0 ∉ used
  nodup : used.Nodup
  values : ∀ e ∈ es, e.hasValue = true → e.threadId ≠ 0

section Loops

variable {es es' : List (PoolEntry T)} {used : List ℕ} {thisThreadId : ℕ}

theorem Arranged.congr (h : Arranged es used)
    (hthreads : es'.map PoolEntry.threadId = es.map PoolEntry.threadId)
    (hvalues : ∀ e ∈ es', e.hasValue = true → e.threadId ≠ 0) : Arranged es' used :=
  ⟨hthreads ▸ h.threads, h.nonzero, h.nodup, hvalues⟩

theorem arranged_replicate [Nullable T] (n : ℕ) :
    Arranged (List.replicate n (PoolEntry.default : PoolEntry T)) [] := by
  refine ⟨⟨n, List.map_replicate⟩, List.not_mem_nil, List.nodup_nil, fun e he h => ?_⟩
  rw [List.eq_of_mem_replicate he] at h
  cases h

/-- Taking leaves the threads as they are. -/
theorem takeIn_spec [Nullable T] (thisThreadId : ℕ)
    (hvalues : ∀ e ∈ es, e.hasValue = true → e.threadId ≠ 0) :
    (SynchronizedPool.takeIn thisThreadId es).2.map PoolEntry.threadId = es.map PoolEntry.threadId ∧
      ∀ e ∈ (SynchronizedPool.takeIn thisThreadId es).2, e.hasValue = true → e.threadId ≠ 0 := by
  induction es with
  | nil => exact ⟨rfl, hvalues⟩
  | cons e es ih =>
    obtain ⟨hthreads, hrest⟩ := ih fun x hx => hvalues x (List.mem_cons_of_mem _ hx)
    rw [SynchronizedPool.takeIn]
    split_ifs with hthread hvalue hzero
    · exact ⟨rfl, hvalues⟩
    · refine ⟨rfl, fun x hx => ?_⟩
      rcases List.mem_cons.1 hx with rfl | hx
      · rintro ⟨⟩
      · exact hvalues x (List.mem_cons_of_mem _ hx)
    · exact ⟨rfl, hvalues⟩
    · refine ⟨congrArg (e.threadId :: ·) hthreads, fun x hx => ?_⟩
      rcases List.mem_cons.1 hx with rfl | hx
      · exact hvalues x List.mem_cons_self
      · exact hrest x hx

/-- So does returning. -/
theorem returnIn_spec {value : T} (hthread : thisThreadId ≠ 0)
    (hvalues : ∀ e ∈ es, e.hasValue = true → e.threadId ≠ 0)
    (h : SynchronizedPool.returnIn thisThreadId value es = some es') :
    es'.map PoolEntry.threadId = es.map PoolEntry.threadId ∧ ∀ e ∈ es', e.hasValue = true →
      e.threadId ≠ 0 := by
  induction es generalizing es' with
  | nil => cases h
  | cons e es ih =>
    rw [SynchronizedPool.returnIn] at h
    split_ifs at h with hthis hvalue hzero
    · obtain rfl := Option.some_inj.1 h
      refine ⟨rfl, fun x hx => ?_⟩
      rcases List.mem_cons.1 hx with rfl | hx
      · exact fun _ => hthis ▸ hthread
      · exact hvalues x (List.mem_cons_of_mem _ hx)
    · obtain ⟨es₁, hes₁, rfl⟩ := Option.map_eq_some_iff.1 h
      obtain ⟨hthreads, hrest⟩ := ih (fun x hx => hvalues x (List.mem_cons_of_mem _ hx)) hes₁
      refine ⟨congrArg (e.threadId :: ·) hthreads, fun x hx => ?_⟩
      rcases List.mem_cons.1 hx with rfl | hx
      · exact hvalues x List.mem_cons_self
      · exact hrest x hx

/-- An entry is assigned only when it is free and the entries before it belong to other threads. -/
theorem promoteIn_some_true (h : SynchronizedPool.promoteIn thisThreadId es = some (true, es')) :
    ∃ as e bs, es = as ++ e :: bs ∧ es' = as ++ { e with threadId := thisThreadId } :: bs ∧
      e.threadId = 0 ∧ ∀ a ∈ as, a.threadId ≠ 0 ∧ a.threadId ≠ thisThreadId := by
  induction es generalizing es' with
  | nil => cases h
  | cons e es ih =>
    rw [SynchronizedPool.promoteIn] at h
    split_ifs at h with hthis hzero
    · cases h
    · cases h
      exact ⟨[], e, es, rfl, rfl, hzero, fun a ha => absurd ha List.not_mem_nil⟩
    · obtain ⟨⟨b, es₁⟩, hes₁, heq⟩ := Option.map_eq_some_iff.1 h
      obtain ⟨rfl, rfl⟩ := Prod.mk.inj heq
      obtain ⟨as, x, bs, rfl, rfl, hx, has⟩ := ih hes₁
      refine ⟨e :: as, x, bs, rfl, rfl, hx, fun a ha => ?_⟩
      rcases List.mem_cons.1 ha with rfl | ha
      · exact ⟨hzero, hthis⟩
      · exact has a ha

/-- The thread that is promoted is the last one of those in use. -/
theorem Arranged.promoteIn (h : Arranged es used) (hthread : thisThreadId ≠ 0)
    (hes' : SynchronizedPool.promoteIn thisThreadId es = some (true, es')) :
    Arranged es' (used ++ [thisThreadId]) ∧ used.length < es.length ∧ es'.length = es.length := by
  obtain ⟨as, e, bs, rfl, rfl, hzero, has⟩ := promoteIn_some_true hes'
  obtain ⟨n, hn⟩ := h.threads
  rw [List.map_append, List.map_cons, hzero] at hn
  have hnot : 0 ∉ as.map PoolEntry.threadId := by
    intro hmem
    obtain ⟨a, ha, heq⟩ := List.mem_map.1 hmem
    exact (has a ha).1 heq
  -- the entries before the free one are those in use
  have hused : as.map PoolEntry.threadId = used ∧
      0 :: bs.map PoolEntry.threadId = List.replicate n 0 := by
    rcases List.append_eq_append_iff.1 hn with ⟨c, hc, hc'⟩ | ⟨c, hc, hc'⟩
    · cases c with
      | nil => exact ⟨by rw [hc, List.append_nil], hc'⟩
      | cons x c =>
        obtain ⟨rfl, -⟩ := List.cons.inj hc'
        exact absurd (hc ▸ List.mem_append_right _ List.mem_cons_self) h.nonzero
    · cases c with
      | nil => exact ⟨by rw [hc, List.append_nil], hc'.symm⟩
      | cons x c =>
        have hx : x = 0 := List.eq_of_mem_replicate (n := n) (hc' ▸ List.mem_cons_self)
        exact absurd (hc ▸ List.mem_append_right _ (hx ▸ List.mem_cons_self)) hnot
  obtain ⟨hfront, hrest⟩ := hused
  obtain ⟨m, rfl⟩ : ∃ m, n = m + 1 := ⟨n - 1, by
    have := congrArg List.length hrest
    rw [List.length_cons, List.length_replicate] at this
    omega⟩
  refine ⟨⟨⟨m, ?_⟩, ?_, ?_, fun x hx hvalue => ?_⟩, ?_, ?_⟩
  · rw [List.map_append, List.map_cons, hfront, List.append_assoc,
      (List.cons.inj (hrest.trans List.replicate_succ)).2]
    rfl
  · intro hmem
    rcases List.mem_append.1 hmem with hmem | hmem
    · exact h.nonzero hmem
    · exact hthread (List.mem_singleton.1 hmem).symm
  · refine List.nodup_append.2 ⟨h.nodup, List.nodup_singleton _, fun x hx y hy heq => ?_⟩
    obtain ⟨a, ha, rfl⟩ := List.mem_map.1 (hfront ▸ hx)
    exact (has a ha).2 (heq.trans (List.mem_singleton.1 hy))
  · rcases List.mem_append.1 hx with hx | hx
    · exact h.values x (List.mem_append_left _ hx) hvalue
    · rcases List.mem_cons.1 hx with rfl | hx
      · exact hthread
      · exact h.values x (List.mem_append_right _ (List.mem_cons_of_mem _ hx)) hvalue
  · rw [← hfront, List.length_map, List.length_append, List.length_cons]
    omega
  · rw [List.length_append, List.length_append, List.length_cons, List.length_cons]

end Loops

/-! ### The quota -/

/-- The entries in use and the stack share the limit. -/
structure SynchronizedPool.Quota (pool : SynchronizedPool T) (limit : ℤ) : Prop where
  shared : ∃ used, Arranged pool.entries used ∧
    (used.length : ℤ) + pool.globalPool.maxCount = pool.maxCount
  room : (pool.entries.length : ℤ) ≤ pool.maxCount
  range : pool.maxCount < 2 ^ 31
  stack : (pool.globalPool.items.length : ℤ) ≤ pool.globalPool.maxCount
  constant : pool.maxCount = limit

theorem GlobalPool.decrementMaxCount_spec {g : GlobalPool T}
    (hstack : (g.items.length : ℤ) ≤ g.maxCount) (hpos : 0 < g.maxCount)
    (hmax : g.maxCount < 2 ^ 31) :
    ∃ g', g.decrementMaxCount = .ok g' ∧ g'.maxCount = g.maxCount - 1 ∧
      (g'.items.length : ℤ) ≤ g.maxCount - 1 := by
  have hint : int32 (g.maxCount - 1) = g.maxCount - 1 := int32_of_range (by omega) (by omega)
  cases g with
  | mk items maxCount =>
    unfold GlobalPool.decrementMaxCount
    simp only at hstack hpos hint ⊢
    split_ifs with hfull
    · cases items with
      | nil =>
        simp only [List.length_nil, Nat.cast_zero] at hfull
        omega
      | cons x items =>
        refine ⟨_, rfl, hint, ?_⟩
        simp only [List.length_cons, Nat.cast_add, Nat.cast_one] at hfull ⊢
        omega
    · refine ⟨_, rfl, hint, ?_⟩
      simp only
      omega

namespace SynchronizedPool

open NanoSocket.SynchronizedPool (maxThreadItemsPerProcessor recordReturnIn)

variable {self : SynchronizedPool T} {thisThreadId : ℕ} {limit : ℤ}

theorem new_quota [Nullable T] {processorCount : ℕ} {maxCount : ℤ} (hmax : maxCount < 2 ^ 31)
    (h : new processorCount maxCount = .ok self) : self.Quota maxCount := by
  unfold new at h
  simp only at h
  generalize hcount : (if maxCount > (maxThreadItemsPerProcessor : ℤ) + processorCount then
    (maxThreadItemsPerProcessor : ℤ) + processorCount else maxCount) = threadCount at h
  have hle : threadCount ≤ maxCount := by
    rw [← hcount]
    split_ifs <;> omega
  split_ifs at h with hneg
  obtain rfl := Except.ok.inj h
  refine ⟨⟨[], arranged_replicate _, ?_⟩, ?_, hmax, ?_, rfl⟩
  · simp
  · simp only [List.length_replicate]
    omega
  · simp only [List.length_nil, Nat.cast_zero]
    omega

/-- A promotion takes one place from the stack and gives it to an entry. -/
theorem Quota.promoteThread (h : self.Quota limit) (hthread : thisThreadId ≠ 0) :
    ∃ r, self.promoteThread thisThreadId = .ok r ∧ r.2.Quota limit := by
  obtain ⟨used, harranged, hshared⟩ := h.shared
  have hroom := h.room
  have hrange := h.range
  unfold SynchronizedPool.promoteThread
  match hes' : promoteIn thisThreadId self.entries with
  | none => exact ⟨_, rfl, h⟩
  | some (false, _) => exact ⟨_, rfl, h⟩
  | some (true, es') =>
    obtain ⟨harranged', hlt, hlen⟩ := harranged.promoteIn hthread hes'
    obtain ⟨g', hg', hcount, hstack⟩ :=
      GlobalPool.decrementMaxCount_spec h.stack (by omega) (by omega)
    simp only [hg', ok_bind]
    refine ⟨_, rfl, ⟨used ++ [thisThreadId], harranged', ?_⟩, ?_, hrange, ?_, h.constant⟩
    · simp only [List.length_append, List.length_singleton, Nat.cast_add, Nat.cast_one, hcount]
      omega
    · simp only [hlen]
      exact hroom
    · simp only [hcount]
      exact hstack

/-- When the entries are thrown away, all places go back to the stack. -/
theorem Quota.handlePromotionFailure [Nullable T] (h : self.Quota limit)
    (hthread : thisThreadId ≠ 0) :
    ∃ pool, self.handlePromotionFailure thisThreadId = .ok pool ∧ pool.Quota limit := by
  have hroom := h.room
  obtain ⟨used, harranged, hshared⟩ := h.shared
  have hstack := h.stack
  unfold SynchronizedPool.handlePromotionFailure
  simp only
  split_ifs with hfull
  · have hfresh : ({ self with
        entries := List.replicate self.entries.length .default
        globalPool :=
      ⟨self.globalPool.items.drop (self.globalPool.items.length - self.maxCount.toNat),
          self.maxCount⟩ } : SynchronizedPool T).Quota limit := by
      refine ⟨⟨[], arranged_replicate _, ?_⟩, ?_, h.range, ?_, h.constant⟩
      · simp
      · simp only [List.length_replicate]
        exact hroom
      · simp only [List.length_drop]
        omega
    obtain ⟨r, hr, hquota⟩ := hfresh.promoteThread hthread
    rw [GlobalPool.setMaxCount, if_neg (by omega), ok_bind, hr]
    exact ⟨r.2, rfl, hquota⟩
  · exact ⟨_, rfl, h.shared, h.room, h.range, h.stack, h.constant⟩

theorem Quota.recordReturnToGlobalPool [Nullable T] (h : self.Quota limit)
    (hthread : thisThreadId ≠ 0) :
    ∃ pool, self.recordReturnToGlobalPool thisThreadId = .ok pool ∧ pool.Quota limit := by
  unfold SynchronizedPool.recordReturnToGlobalPool
  generalize recordReturnIn thisThreadId self.pending = r
  obtain ⟨promote, pending⟩ := r
  have hpending : ({ self with pending := pending } : SynchronizedPool T).Quota limit :=
    ⟨h.shared, h.room, h.range, h.stack, h.constant⟩
  cases promote with
  | false => exact ⟨_, rfl, hpending⟩
  | true =>
    obtain ⟨⟨promoted, pool⟩, hr, hquota⟩ := hpending.promoteThread hthread
    simp only [Bool.not_true, Bool.false_eq_true, if_false, hr, ok_bind]
    cases promoted with
    | true => exact ⟨_, rfl, hquota⟩
    | false =>
      obtain ⟨pool', hpool', hquota'⟩ := hquota.handlePromotionFailure hthread
      exact ⟨pool', by simp [hpool'], hquota'⟩

theorem Quota.returnValue [Nullable T] (h : self.Quota limit) (thisThreadId : ℕ) (value : T) :
    ∃ r, self.returnValue thisThreadId value = .ok r ∧ r.2.Quota limit := by
  unfold SynchronizedPool.returnValue
  split_ifs with hthread
  · exact ⟨_, rfl, h⟩
  cases hes' : returnIn thisThreadId value self.entries with
  | some es' =>
    obtain ⟨used, harranged, hshared⟩ := h.shared
    obtain ⟨hthreads, hvalues⟩ := returnIn_spec hthread harranged.values hes'
    refine ⟨_, rfl, ⟨used, harranged.congr hthreads hvalues, hshared⟩, ?_, h.range,
      h.stack, h.constant⟩
    have hlen := congrArg List.length hthreads
    rw [List.length_map, List.length_map] at hlen
    simp only [hlen]
    exact h.room
  | none =>
    obtain ⟨pool, hpool, hquota⟩ := h.recordReturnToGlobalPool hthread
    simp only [hpool, ok_bind, GlobalPool.returnValue]
    refine ⟨_, rfl, ?_⟩
    split_ifs with hfull
    · exact hquota
    · refine ⟨hquota.shared, hquota.room, hquota.range, ?_, hquota.constant⟩
      simp only [List.length_cons, Nat.cast_add, Nat.cast_one]
      omega

theorem Quota.recordTakeFromGlobalPool (h : self.Quota limit) (thisThreadId : ℕ) :
    (self.recordTakeFromGlobalPool thisThreadId).Quota limit := by
  unfold SynchronizedPool.recordTakeFromGlobalPool
  cases NanoSocket.SynchronizedPool.recordTakeIn thisThreadId self.pending with
  | some pending => exact ⟨h.shared, h.room, h.range, h.stack, h.constant⟩
  | none =>
    simp only
    split_ifs <;> exact ⟨h.shared, h.room, h.range, h.stack, h.constant⟩

theorem Quota.takeFromStack [Nullable T] (h : self.Quota limit) :
    ({ self with globalPool := self.globalPool.take.2 } : SynchronizedPool T).Quota limit := by
  have hstack := h.stack
  unfold GlobalPool.take
  cases hitems : self.globalPool.items with
  | nil => exact h
  | cons x items =>
    refine ⟨h.shared, h.room, h.range, ?_, h.constant⟩
    rw [hitems, List.length_cons, Nat.cast_add, Nat.cast_one] at hstack
    simp only
    omega

theorem Quota.take [Nullable T] (h : self.Quota limit) (thisThreadId : ℕ) :
    (self.take thisThreadId).2.Quota limit := by
  unfold SynchronizedPool.take
  split_ifs with hthread
  · exact h
  obtain ⟨used, harranged, hshared⟩ := h.shared
  obtain ⟨hthreads, hvalues⟩ := takeIn_spec thisThreadId harranged.values
  have hlen := congrArg List.length hthreads
  rw [List.length_map, List.length_map] at hlen
  have hentries :
      ({ self with entries := (takeIn thisThreadId self.entries).2 } : SynchronizedPool T).Quota
      limit :=
    ⟨⟨used, harranged.congr hthreads hvalues, hshared⟩, by simp only [hlen]; exact h.room, h.range,
      h.stack, h.constant⟩
  simp only
  split_ifs with hvalue
  · exact hentries
  · exact (hentries.recordTakeFromGlobalPool thisThreadId).takeFromStack

theorem Quota.clear [Nullable T] (h : self.Quota limit) : self.clear.2.Quota limit := by
  obtain ⟨used, harranged, hshared⟩ := h.shared
  have hstack := h.stack
  refine ⟨⟨used, harranged.congr ?_ ?_, hshared⟩, ?_, h.range, ?_, h.constant⟩
  · simp only [SynchronizedPool.clear, List.map_map]
    rfl
  · intro e he
    obtain ⟨e₀, -, rfl⟩ := List.mem_map.1 he
    rintro ⟨⟩
  · simp only [SynchronizedPool.clear, List.length_map]
    exact h.room
  · simp only [SynchronizedPool.clear, List.length_nil, Nat.cast_zero]
    omega

/-- Make a call. -/
def call [Nullable T] (self : SynchronizedPool T) :
    PoolCall T → Except ClrException (SynchronizedPool T × Unit)
  | .take thisThreadId => .ok ((self.take thisThreadId).2, ())
  | .returnValue thisThreadId value => do
    let (_, self) ← self.returnValue thisThreadId value
    return (self, ())
  | .clear => .ok (self.clear.2, ())

/-- Every call returns and keeps the quota. -/
theorem Quota.step [Nullable T] (h : self.Quota limit) (c : PoolCall T) :
    ∃ pool, self.call c = .ok (pool, ()) ∧ pool.Quota limit := by
  cases c with
  | take thisThreadId => exact ⟨_, rfl, h.take thisThreadId⟩
  | returnValue thisThreadId value =>
    obtain ⟨r, hr, hquota⟩ := h.returnValue thisThreadId value
    exact ⟨r.2, by rw [call, hr]; rfl, hquota⟩
  | clear => exact ⟨_, rfl, h.clear⟩

theorem Quota.of_trace [Nullable T] {pool₀ pool : SynchronizedPool T} (h₀ : pool₀.Quota limit)
    {calls : List (PoolCall T)} (h : Trace call (fun _ _ => True) pool₀ calls pool) :
    pool.Quota limit := by
  apply h.invariant_of_step (I := fun _ pool => pool.Quota limit) h₀
  intro _ pool c hi _
  obtain ⟨pool', heq, hi'⟩ := hi.step c
  exact ⟨pool', (), heq, hi'⟩

/-- After any calls of any threads, the entries that belong to a thread and what the stack may hold
add up to the limit; these entries are the first ones, of different threads; the stack holds no more
than it may, and all values together are no more than the limit; and no further call fails, as it
does when `DecrementMaxCount` pops from an empty stack. -/
theorem pool_quota [Nullable T] {processorCount : ℕ} {maxCount : ℤ} (hmax : maxCount < 2 ^ 31)
    {pool₀ pool : SynchronizedPool T} (hnew : new processorCount maxCount = .ok pool₀)
    {calls : List (PoolCall T)} (h : Trace call (fun _ _ => True) pool₀ calls pool) :
    (pool.entries.countP (fun e => e.threadId ≠ 0) : ℤ) + pool.globalPool.maxCount = maxCount ∧
      (∃ n, (∀ e ∈ pool.entries.take n, e.threadId ≠ 0) ∧
        ((pool.entries.take n).map PoolEntry.threadId).Nodup ∧ ∀ e ∈ pool.entries.drop n,
        e.threadId = 0) ∧
      (pool.globalPool.items.length : ℤ) ≤ pool.globalPool.maxCount ∧
      (pool.entries.countP PoolEntry.hasValue : ℤ) + pool.globalPool.items.length ≤ maxCount ∧
      ∀ c, ∃ pool', pool.call c = .ok (pool', ()) := by
  have hi := (new_quota hmax hnew).of_trace h
  obtain ⟨used, harranged, hshared⟩ := hi.shared
  obtain ⟨n, hn⟩ := harranged.threads
  have hstack := hi.stack
  have hcount : pool.entries.countP (fun e => e.threadId ≠ 0) = used.length := by
    have hmap : pool.entries.countP (fun e => e.threadId ≠ 0) =
        (pool.entries.map PoolEntry.threadId).countP (fun t => t ≠ 0) := by
      rw [List.countP_map]
      rfl
    rw [hmap, hn, List.countP_append, List.countP_replicate, List.countP_eq_length.2 fun t ht => ?_]
    · simp
    · exact decide_eq_true fun heq => harranged.nonzero (heq ▸ ht)
  have hvalues : pool.entries.countP PoolEntry.hasValue ≤ used.length := by
    rw [← hcount]
    exact List.countP_mono_left fun e he hvalue => decide_eq_true (harranged.values e he hvalue)
  have hconstant := hi.constant
  refine ⟨by rw [hcount, ← hconstant]; exact hshared, ⟨used.length, ?_, ?_, ?_⟩,
    hstack, by omega, fun c => ?_⟩
  · intro e he heq
    refine harranged.nonzero ?_
    have htake : (pool.entries.take used.length).map PoolEntry.threadId = used := by
      rw [List.map_take, hn, List.take_left]
    rw [← htake, ← heq]
    exact List.mem_map_of_mem he
  · rw [List.map_take, hn, List.take_left]
    exact harranged.nodup
  · intro e he
    have hdrop : (pool.entries.drop used.length).map PoolEntry.threadId = List.replicate n 0 := by
      rw [List.map_drop, hn, List.drop_left]
    exact List.eq_of_mem_replicate (n := n) (hdrop ▸ List.mem_map_of_mem he)
  · obtain ⟨pool', heq, -⟩ := hi.step c
    exact ⟨pool', heq⟩

/-- A pool of references of two places whose only thread is promoted by its 64th return. -/
theorem pool_quota_promoted : ∃ pool₀ pool : SynchronizedPool (Option ℕ), new 4 2 = .ok pool₀ ∧
    Trace call (fun _ _ => True) pool₀
      (.take 1 :: List.replicate 64 (.returnValue 1 (some 7))) pool ∧ pool.globalPool.maxCount = 1 ∧
      (pool.entries.countP PoolEntry.hasValue : ℤ) + pool.globalPool.items.length ≤ 2 := by
  have hrun : ∃ pool : SynchronizedPool (Option ℕ), Trace call (fun _ _ => True)
      ⟨List.replicate 2 .default, List.replicate 4 .default, 0, 2, ⟨[], 2⟩⟩
      (.take 1 :: List.replicate 64 (.returnValue 1 (some 7))) pool ∧
        pool.globalPool.maxCount = 1 :=
    Trace.exists_of_runWhile (by decide)
  obtain ⟨pool, h, hcount⟩ := hrun
  have hnew : new 4 2 = .ok (⟨List.replicate 2 .default, List.replicate 4 .default, 0, 2, ⟨[], 2⟩⟩ :
    SynchronizedPool (Option ℕ)) := by rfl
  exact ⟨_, pool, hnew, h, hcount, (pool_quota (by decide) hnew h).2.2.2.1⟩

end SynchronizedPool

end Quota

/-! ### Pools of buffers -/

namespace SynchronizedPool

/-- A call of a thread that takes or returns a buffer. -/
inductive BufferCall
  | take (thisThreadId : ℕ)
  | returnValue (thisThreadId : ℕ) (value : ByteBuffer)

/-- Make a call. -/
def bufferCall (self : SynchronizedPool ByteBuffer) :
    BufferCall → Except ClrException (SynchronizedPool ByteBuffer × Unit)
  | .take thisThreadId => .ok ((self.take thisThreadId).2, ())
  | .returnValue thisThreadId value => do
    let (_, self) ← self.returnValue thisThreadId value
    return (self, ())

/-- The values that the entry of a thread holds. -/
def own (self : SynchronizedPool ByteBuffer) (thisThreadId : ℕ) : List ByteBuffer :=
  (self.entries.filter fun e => e.threadId = thisThreadId ∧ e.hasValue = true).map PoolEntry.value

/-- The values that are stored in the pool. -/
def stored (self : SynchronizedPool ByteBuffer) : List ByteBuffer :=
  (self.entries.filter fun e => e.hasValue).map PoolEntry.value ++ self.globalPool.items

/-- `Take` gives a buffer that is stored where the thread can get at it and removes it, and the
default value only when there is none. -/
def Pools (self : SynchronizedPool ByteBuffer) (thisThreadId : ℕ) : Prop :=
  let r := self.take thisThreadId
  (self.own thisThreadId ++ self.globalPool.items ≠ [] →
    r.1.data ≠ none ∧ r.1 ∈ self.own thisThreadId ++ self.globalPool.items ∧
      r.2.stored.Perm (self.stored.erase r.1)) ∧
  (r.1 = .default → self.own thisThreadId ++ self.globalPool.items = [])

/-- A buffer that the pool can keep: the thread is one, and there is a place. -/
def Keeps (maxCount : ℤ) : BufferCall → Prop
  | .take _ => False
  | .returnValue thisThreadId _ => thisThreadId ≠ 0 ∧ 0 < maxCount

theorem Idle.own {self : SynchronizedPool ByteBuffer} (h : self.Idle) (thisThreadId : ℕ) :
    self.own thisThreadId = [] := by
  unfold SynchronizedPool.own
  rw [List.map_eq_nil_iff, List.filter_eq_nil_iff]
  intro e he
  rw [h.entries e he]
  simp [PoolEntry.default]

/-- No thread is ever promoted, and the stack is empty as long as nothing could be kept. -/
theorem idle_of_trace {processorCount : ℕ} {maxCount : ℤ} {pool₀ pool : SynchronizedPool ByteBuffer}
    (hnew : new processorCount maxCount = .ok pool₀) {calls : List BufferCall}
    (h : Trace bufferCall (fun _ _ => True) pool₀ calls pool) :
    pool.Idle ∧ pool.maxCount = maxCount ∧
      (pool.globalPool.items = [] ↔ ∀ c ∈ calls, ¬ Keeps maxCount c) := by
  have hmax : 0 ≤ maxCount := by
    unfold new at hnew
    simp only at hnew
    by_contra hneg
    have hle : ¬ maxCount > (maxThreadItemsPerProcessor : ℤ) + processorCount := by omega
    rw [if_neg hle, if_pos (not_le.1 hneg)] at hnew
    cases hnew
  refine h.invariant (I := fun calls pool =>
    pool.Idle ∧ pool.maxCount = maxCount ∧
      (pool.globalPool.items = [] ↔ ∀ c ∈ calls, ¬ Keeps maxCount c)) ?_ ?_
  · obtain ⟨pool', heq, hidle, hcount, hitems⟩ := new_idle processorCount hmax
    obtain rfl := Except.ok.inj (hnew.symm.trans heq)
    exact ⟨hidle, hcount, iff_of_true hitems nofun⟩
  · rintro calls self c self' ⟨⟩ ⟨hidle, hcount, hiff⟩ - heq
    -- a call that changes nothing could not keep a buffer, or there is one already
    have hsame : (Keeps maxCount c → self.globalPool.items ≠ []) →
        self.Idle ∧ self.maxCount = maxCount ∧
          (self.globalPool.items = [] ↔ ∀ b ∈ calls ++ [c], ¬ Keeps maxCount b) := by
      intro hkeeps
      refine ⟨hidle, hcount, fun hempty b hb => ?_,
        fun hall => hiff.2 fun b hb => hall b (List.mem_append_left _ hb)⟩
      rcases List.mem_append.1 hb with hb | hb
      · exact hiff.1 hempty b hb
      · exact fun hkeep => hkeeps (List.mem_singleton.1 hb ▸ hkeep) hempty
    cases c with
    | take thisThreadId =>
      rw [bufferCall, hidle.take] at heq
      obtain ⟨rfl, -⟩ := Prod.mk.inj (Except.ok.inj heq)
      exact hsame nofun
    | returnValue thisThreadId value =>
      by_cases hthread : thisThreadId = 0
      · subst hthread
        rw [bufferCall, returnValue_zero, ok_bind] at heq
        obtain ⟨rfl, -⟩ := Prod.mk.inj (Except.ok.inj heq)
        exact hsame fun hkeep => absurd rfl hkeep.1
      rw [bufferCall, hidle.returnValue hthread, ok_bind] at heq
      split_ifs at heq with hfull
      · obtain ⟨rfl, -⟩ := Prod.mk.inj (Except.ok.inj heq)
        refine hsame fun hkeep hempty => ?_
        rw [hempty, hcount, List.length_nil] at hfull
        exact absurd hkeep.2 (not_lt.2 hfull)
      · obtain ⟨rfl, -⟩ := Prod.mk.inj (Except.ok.inj heq)
        refine ⟨hidle.push _, hcount, iff_of_false (List.cons_ne_nil _ _) fun hall => ?_⟩
        refine hall (.returnValue thisThreadId value) (by simp) ⟨hthread, ?_⟩
        omega

/-- After any calls of any threads that take and return buffers, `Take` gives what is stored exactly
if no buffer was returned that the pool could keep. -/
theorem buffer_pool_iff {processorCount : ℕ} {maxCount : ℤ}
    {pool₀ pool : SynchronizedPool ByteBuffer} (hnew : new processorCount maxCount = .ok pool₀)
    {calls : List BufferCall} (h : Trace bufferCall (fun _ _ => True) pool₀ calls pool)
    (thisThreadId : ℕ) :
    pool.Pools thisThreadId ↔ ∀ c ∈ calls, ¬ Keeps maxCount c := by
  obtain ⟨hidle, -, hiff⟩ := idle_of_trace hnew h
  rw [← hiff]
  simp only [Pools, hidle.take, hidle.own, List.nil_append]
  constructor
  · rintro ⟨-, hempty⟩
    exact hempty trivial
  · intro hempty
    exact ⟨fun hne => absurd hempty hne, fun _ => hempty⟩

/-- Threads take and return.  In the first run the pool can keep nothing, and in the second one only
a thread without a number returns a buffer; in the third one a buffer is kept. -/
theorem buffer_pool_iff_refused :
    ∃ small large : SynchronizedPool ByteBuffer, new 4 0 = .ok small ∧ new 4 10 = .ok large ∧
    (∃ pool, Trace bufferCall (fun _ _ => True) small
      [.take 1, .returnValue 1 ⟨some 7, 4096⟩, .take 2] pool ∧ pool.Pools 1) ∧
    (∃ pool, Trace bufferCall (fun _ _ => True) large
      [.take 1, .returnValue 0 ⟨some 7, 4096⟩, .take 2] pool ∧ pool.Pools 1) ∧
    ∃ pool, Trace bufferCall (fun _ _ => True) large
      [.take 1, .returnValue 2 ⟨some 7, 4096⟩, .take 2] pool ∧
      pool.globalPool.items = [⟨some 7, 4096⟩] ∧ ¬ pool.Pools 1 := by
  have hsmall : new 4 0 =
      .ok (⟨[], List.replicate 4 .default, 0, 0, ⟨[], 0⟩⟩ : SynchronizedPool ByteBuffer) := rfl
  have hlarge : new 4 10 = .ok
      (⟨List.replicate 10 .default, List.replicate 4 .default, 0, 10, ⟨[], 10⟩⟩ : SynchronizedPool
        ByteBuffer) := rfl
  refine ⟨_, _, hsmall, hlarge, ?_, ?_, ?_⟩
  · obtain ⟨pool, hrun, -⟩ : ∃ pool, Trace bufferCall (fun _ _ => True)
        ⟨[], List.replicate 4 .default, 0, 0, ⟨[], 0⟩⟩ [.take 1, .returnValue 1 ⟨some 7, 4096⟩,
          .take 2] pool ∧ True :=
      Trace.exists_of_runWhile (by decide)
    exact ⟨pool, hrun, (buffer_pool_iff hsmall hrun 1).2 (by simp [Keeps])⟩
  · obtain ⟨pool, hrun, -⟩ : ∃ pool, Trace bufferCall (fun _ _ => True)
        ⟨List.replicate 10 .default, List.replicate 4 .default, 0, 10, ⟨[], 10⟩⟩
        [.take 1, .returnValue 0 ⟨some 7, 4096⟩, .take 2] pool ∧ True :=
      Trace.exists_of_runWhile (by decide)
    exact ⟨pool, hrun, (buffer_pool_iff hlarge hrun 1).2 (by simp [Keeps])⟩
  · obtain ⟨pool, hrun, hitems⟩ : ∃ pool, Trace bufferCall (fun _ _ => True)
        ⟨List.replicate 10 .default, List.replicate 4 .default, 0, 10, ⟨[], 10⟩⟩
        [.take 1, .returnValue 2 ⟨some 7, 4096⟩, .take 2] pool ∧
          pool.globalPool.items = [⟨some 7, 4096⟩] :=
      Trace.exists_of_runWhile (by decide)
    refine ⟨pool, hrun, hitems, fun hpools => ?_⟩
    have hnone := (buffer_pool_iff hlarge hrun 1).1 hpools
    exact hnone (.returnValue 2 ⟨some 7, 4096⟩) (by simp) ⟨by decide, by decide⟩

/-- The buffer that was returned stays where it is. -/
theorem returned_buffer_kept : ∃ pool₀ pool : SynchronizedPool ByteBuffer, new 4 10 = .ok pool₀ ∧
    Trace bufferCall (fun _ _ => True) pool₀ [.returnValue 1 ⟨some 7, 4096⟩] pool ∧
      pool.globalPool.items = [⟨some 7, 4096⟩] ∧ pool.take 1 = (.default, pool) ∧
        ¬ pool.Pools 1 := by
  have hnew : new 4 10 = .ok
      (⟨List.replicate 10 .default, List.replicate 4 .default, 0, 10, ⟨[], 10⟩⟩ : SynchronizedPool
        ByteBuffer) := rfl
  have h : Trace bufferCall (fun _ _ => True) ⟨List.replicate 10 .default,
      List.replicate 4 .default, 0, 10, ⟨[], 10⟩⟩
      [.returnValue 1 ⟨some 7, 4096⟩]
      ⟨List.replicate 10 .default, List.replicate 4 .default, 0, 10, ⟨[⟨some 7, 4096⟩], 10⟩⟩ :=
    Trace.nil.snoc trivial rfl
  obtain ⟨hidle, -⟩ := idle_of_trace hnew h
  refine ⟨_, _, hnew, h, rfl, hidle.take, fun hpools => ?_⟩
  unfold Pools at hpools
  rw [hidle.take] at hpools
  have := hpools.2 rfl
  simp at this

end SynchronizedPool

end NanoSocket

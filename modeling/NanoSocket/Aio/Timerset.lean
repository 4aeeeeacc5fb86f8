import NanoSocket.Core.Fault
import NanoSocket.Lib.Runs
import NanoSocket.Lib.StableOrder

/-!
# Timer sets (`aio/timerset.c`)

A worker keeps the timeouts it waits for in a list, the next one to expire at its head.  A handle is
a linked item of that list; `ι` is the type of the handles, and an item is a handle with the instant
when it is due.  Every call that reads the clock gets what it reads.

`TimersetWorld` is a set with the calls made so far and what they returned.  The handles that are to
expire can be told from these: `TimersetLog.pending` has them in the order in which they were added.
-/

namespace NanoSocket.Aio

open Runs StableOrder

variable {ι : Type} [DecidableEq ι]

/-- `struct nn_timerset_hndl`. -/
structure TimersetHndl (ι : Type) where
  hndl : ι
  timeout : UInt64
  deriving DecidableEq, Repr

/-- `struct nn_timerset`. -/
structure Timerset (ι : Type) where
  timeouts : List (TimersetHndl ι)
  deriving DecidableEq, Repr

/-- `nn_timerset_init`. -/
def nnTimersetInit : Timerset ι := { timeouts := [] }

/-- `nn_clock_ms () + timeout`: the `int` is converted to `uint64_t`. -/
def nnTimersetDue (now : UInt64) (timeout : Int32) : UInt64 := now + timeout.toInt64.toUInt64

/-- `nn_timerset_add`. The answer says that the new timeout is the first one to expire. -/
def nnTimersetAdd (self : Timerset ι) (now : UInt64) (timeout : Int32) (hndl : ι) :
    Except Fault (Timerset ι × ℤ) := do
  let item : TimersetHndl ι := { hndl := hndl, timeout := nnTimersetDue now timeout }
  -- the loop stops at the first item that is due later
  let before := self.timeouts.takeWhile fun ith => ¬ item.timeout < ith.timeout
  let it := self.timeouts.dropWhile fun ith => ¬ item.timeout < ith.timeout
  let first := if before.isEmpty then 1 else 0
  -- `nn_list_insert`
  nnAssert (∀ ith ∈ self.timeouts, ith.hndl ≠ hndl)
  return ({ timeouts := before ++ item :: it }, first)

/-- `nn_timerset_rm`. -/
def nnTimersetRm (self : Timerset ι) (hndl : ι) : Timerset ι × ℤ :=
  -- ignore if handle is not in the timeouts list
  if ∀ ith ∈ self.timeouts, ith.hndl ≠ hndl then (self, 0)
  else
    let first := if self.timeouts.head?.map TimersetHndl.hndl = some hndl then 1 else 0
    ({ timeouts := self.timeouts.filter fun ith => ith.hndl ≠ hndl }, first)

/-- `nn_timerset_event`. -/
def nnTimersetEvent (self : Timerset ι) (now : UInt64) : Timerset ι × Except Errno ι :=
  match self.timeouts with
  | [] => (self, .error .eagain)
  | first :: rest =>
    if first.timeout > now then (self, .error .eagain) else ({ timeouts := rest }, .ok first.hndl)

/-! ### Runs -/

/-- A call of a timer set, with what it reads from the clock. -/
inductive TimersetCall (ι : Type)
  | add (now : UInt64) (timeout : Int32) (hndl : ι)
  | rm (hndl : ι)
  | event (now : UInt64)
  deriving DecidableEq, Repr

/-- What a call returns: an `int` that says whether the first timeout changed, or a handle or
error. -/
inductive TimersetAnswer (ι : Type)
  | first (n : ℤ)
  | event (r : Except Errno ι)

/-- A call that was made and what it returned. -/
structure TimersetEntry (ι : Type) where
  call : TimersetCall ι
  answer : TimersetAnswer ι

/-- A call of a timer set. -/
def nnTimersetCall (self : Timerset ι) :
    TimersetCall ι → Except Fault (Timerset ι × TimersetAnswer ι)
  | .add now timeout hndl => do
    let r ← nnTimersetAdd self now timeout hndl
    return (r.1, .first r.2)
  | .rm hndl => .ok ((nnTimersetRm self hndl).1, .first (nnTimersetRm self hndl).2)
  | .event now => .ok ((nnTimersetEvent self now).1, .event (nnTimersetEvent self now).2)

/-- A timer set and what has been done with it. -/
structure TimersetWorld (ι : Type) where
  set : Timerset ι
  log : List (TimersetEntry ι)

/-- A new timer set. -/
def TimersetWorld.init : TimersetWorld ι := { set := nnTimersetInit, log := [] }

/-- A call, which is written to the log. -/
def TimersetWorld.step (w : TimersetWorld ι) (c : TimersetCall ι) :
    Except Fault (TimersetWorld ι × TimersetAnswer ι) := do
  let r ← nnTimersetCall w.set c
  return ({ set := r.1, log := w.log ++ [{ call := c, answer := r.2 }] }, r.2)

/-- The entry takes a handle out of the set. -/
def TimersetEntry.Settles (hndl : ι) : TimersetEntry ι → Prop
  | ⟨.rm h, _⟩ => h = hndl
  | ⟨.event _, .event (.ok h)⟩ => h = hndl
  | _ => False

/-- The active timeouts after one more entry. -/
def TimersetEntry.apply (active : List (TimersetHndl ι)) : TimersetEntry ι → List (TimersetHndl ι)
  | ⟨.add now timeout hndl, _⟩ => active ++ [{ hndl := hndl, timeout := nnTimersetDue now timeout }]
  | ⟨.rm hndl, _⟩ => active.filter fun ith => ith.hndl ≠ hndl
  | ⟨.event _, .event (.ok hndl)⟩ => active.filter fun ith => ith.hndl ≠ hndl
  | ⟨.event _, _⟩ => active

/-- The handles that were added and neither removed nor returned since, in the order in which they
were added. -/
def activeTimeouts (log : List (TimersetEntry ι)) : List (TimersetHndl ι) :=
  log.foldl TimersetEntry.apply []

/-- The timeout that expires first, and of those that expire together the one that was added
first. -/
def nextTimeout (active : List (TimersetHndl ι)) : Option (TimersetHndl ι) :=
  earliest (fun ith => ith.timeout.toNat) active

/-- What a call has to return: `event` the next timeout if it is due, `add` and `rm` whether the
next timeout is another one afterwards. -/
def timersetAnswer (active : List (TimersetHndl ι)) : TimersetCall ι → TimersetAnswer ι
  | .event now =>
    match nextTimeout active with
    | none => .event (.error .eagain)
    | some ith => if ith.timeout ≤ now then .event (.ok ith.hndl) else .event (.error .eagain)
  | .add now timeout hndl =>
    let active' := active ++ [{ hndl := hndl, timeout := nnTimersetDue now timeout }]
    .first (if nextTimeout active' = nextTimeout active then 0 else 1)
  | .rm hndl =>
    let active' := active.filter fun ith => ith.hndl ≠ hndl
    .first (if nextTimeout active' = nextTimeout active then 0 else 1)

/-- Only a handle that is not active may be added. -/
def TimersetWorld.Enabled (w : TimersetWorld ι) : TimersetCall ι → Prop
  | .add _ _ hndl => ∀ ith ∈ activeTimeouts w.log, ith.hndl ≠ hndl
  | _ => True

instance TimersetWorld.decidableEnabled (w : TimersetWorld ι) : ∀ c, Decidable (w.Enabled c)
  | .add _ _ hndl => inferInstanceAs (Decidable (∀ ith ∈ activeTimeouts w.log, ith.hndl ≠ hndl))
  | .rm _ => .isTrue trivial
  | .event _ => .isTrue trivial

/-! ### What the log says -/

theorem activeTimeouts_snoc (log : List (TimersetEntry ι)) (x : TimersetEntry ι) :
    activeTimeouts (log ++ [x]) = x.apply (activeTimeouts log) := by
  rw [activeTimeouts, List.foldl_append]
  rfl

/-- What one more entry leaves active was added by it, or was active before and is not taken out by
it. -/
theorem TimersetEntry.mem_apply {active : List (TimersetHndl ι)} {x : TimersetEntry ι}
    {ith : TimersetHndl ι} (h : ith ∈ x.apply active) :
    (∃ now timeout b, x = ⟨.add now timeout ith.hndl, b⟩ ∧
      ith.timeout = nnTimersetDue now timeout) ∨ ith ∈ active ∧ ¬ x.Settles ith.hndl := by
  obtain ⟨c, b⟩ := x
  cases c with
  | add now timeout hndl =>
    rcases List.mem_append.1 h with hold | hnew
    · exact Or.inr ⟨hold, id⟩
    · rw [List.mem_singleton] at hnew
      subst hnew
      exact Or.inl ⟨now, timeout, b, rfl, rfl⟩
  | rm hndl =>
    obtain ⟨hold, hne⟩ := List.mem_filter.1 h
    exact Or.inr ⟨hold, fun heq => of_decide_eq_true hne heq.symm⟩
  | event now =>
    cases b with
    | first n => exact Or.inr ⟨h, id⟩
    | event r =>
      cases r with
      | error e => exact Or.inr ⟨h, id⟩
      | ok hndl =>
        obtain ⟨hold, hne⟩ := List.mem_filter.1 h
        exact Or.inr ⟨hold, fun heq => of_decide_eq_true hne heq.symm⟩

/-- An active handle has been added, and nothing has happened to it since. -/
theorem exists_add_of_mem_activeTimeouts {log : List (TimersetEntry ι)} {ith : TimersetHndl ι}
    (h : ith ∈ activeTimeouts log) :
    ∃ L₁ now timeout b L₂, log = L₁ ++ ⟨.add now timeout ith.hndl, b⟩ :: L₂ ∧
      ith.timeout = nnTimersetDue now timeout ∧ ∀ x ∈ L₂, ¬ x.Settles ith.hndl := by
  induction log using List.reverseRecOn with
  | nil => cases h
  | append_singleton log x ih =>
    rw [activeTimeouts_snoc] at h
    rcases x.mem_apply h with ⟨now, timeout, b, rfl, hdue⟩ | ⟨hold, hx⟩
    · exact ⟨log, now, timeout, b, [], rfl, hdue, fun y hy => nomatch hy⟩
    · obtain ⟨L₁, now, timeout, b, L₂, rfl, hdue, hkeep⟩ := ih hold
      refine ⟨L₁, now, timeout, b, L₂ ++ [x], by simp, hdue, fun y hy => ?_⟩
      rcases List.mem_append.1 hy with hy | hy
      · exact hkeep y hy
      · rwa [List.mem_singleton.1 hy]

/-! ### One call -/

/-- The list of a timer set holds what is active, in the order in which it expires. -/
structure Timerset.Holds (s : Timerset ι) (active : List (TimersetHndl ι)) : Prop where
  sorts : Sorts (fun ith => ith.timeout.toNat) s.timeouts active
  nodup : (active.map TimersetHndl.hndl).Nodup

variable {s : Timerset ι} {active : List (TimersetHndl ι)}

omit [DecidableEq ι] in
theorem nnTimersetInit_holds : (nnTimersetInit : Timerset ι).Holds [] := ⟨.nil, List.nodup_nil⟩

omit [DecidableEq ι] in
theorem Timerset.Holds.head?_eq (h : s.Holds active) : s.timeouts.head? = nextTimeout active :=
  h.sorts.head?_eq

theorem Timerset.Holds.nodup_timeouts (h : s.Holds active) :
    (s.timeouts.map TimersetHndl.hndl).Nodup :=
  (h.sorts.perm.map _).nodup_iff.2 h.nodup

/-- Take a handle out of the set. -/
theorem Timerset.Holds.filter (h : s.Holds active) (hndl : ι) :
    Timerset.Holds { timeouts := s.timeouts.filter fun ith => ith.hndl ≠ hndl }
      (active.filter fun ith => ith.hndl ≠ hndl) :=
  ⟨h.sorts.filter _, h.nodup.sublist (List.filter_sublist.map _)⟩

theorem nnTimersetAdd_spec (h : s.Holds active) (now : UInt64) (timeout : Int32) {hndl : ι}
    (hnew : ∀ ith ∈ active, ith.hndl ≠ hndl) :
    ∃ s' n, nnTimersetAdd s now timeout hndl = .ok (s', n) ∧
      s'.Holds (active ++ [{ hndl := hndl, timeout := nnTimersetDue now timeout }]) ∧
      TimersetAnswer.first n = timersetAnswer active (.add now timeout hndl) := by
  have hnot : ∀ ith ∈ s.timeouts, ith.hndl ≠ hndl := fun ith hith =>
    hnew ith (h.sorts.mem_iff.1 hith)
  generalize hitem :
    ({ hndl := hndl, timeout := nnTimersetDue now timeout } : TimersetHndl ι) = item
  have hinsert : (s.timeouts.takeWhile fun ith => ¬ item.timeout < ith.timeout) ++
      item :: (s.timeouts.dropWhile fun ith => ¬ item.timeout < ith.timeout) =
        StableOrder.insert (fun ith => ith.timeout.toNat) item s.timeouts := by
    simp only [StableOrder.insert, UInt64.lt_iff_toNat_lt]
  have hholds : Timerset.Holds
      { timeouts := StableOrder.insert (fun ith => ith.timeout.toNat) item s.timeouts }
      (active ++ [item]) := by
    refine ⟨h.sorts.insert item, ?_⟩
    rw [List.map_append, List.nodup_append]
    refine ⟨h.nodup, List.nodup_singleton _, ?_⟩
    intro x hx y hy
    obtain ⟨ith, hith, rfl⟩ := List.mem_map.1 hx
    rw [List.map_singleton, List.mem_singleton] at hy
    rw [hy, ← hitem]
    exact hnew ith hith
  refine ⟨_, if (s.timeouts.takeWhile fun ith => ¬ item.timeout < ith.timeout).isEmpty then 1
    else 0, ?_, hholds, ?_⟩
  · rw [← hinsert, ← hitem, nnTimersetAdd, nnAssert_of hnot]
    rfl
  · rw [timersetAnswer, hitem, ← hholds.head?_eq, ← h.head?_eq, ← hinsert]
    congr 1
    -- the new item is in front exactly if no item stays before it
    cases hbefore : s.timeouts.takeWhile fun ith => ¬ item.timeout < ith.timeout with
    | nil =>
      have hne : some item ≠ s.timeouts.head? := by
        intro heq
        have hmem := List.mem_of_mem_head? heq.symm
        exact hnot item hmem (by rw [← hitem])
      simp [hne]
    | cons b before =>
      have hhead : s.timeouts.head? = some b := by
        rw [← List.takeWhile_append_dropWhile (p := fun ith => ¬ item.timeout < ith.timeout)
          (l := s.timeouts), hbefore]
        rfl
      simp [hhead]

theorem nnTimersetRm_spec (h : s.Holds active) (hndl : ι) :
    (nnTimersetRm s hndl).1.Holds (active.filter fun ith => ith.hndl ≠ hndl) ∧
      TimersetAnswer.first (nnTimersetRm s hndl).2 = timersetAnswer active (.rm hndl) := by
  have hholds := h.filter hndl
  have hanswer : timersetAnswer active (.rm hndl) = .first
      (if (s.timeouts.filter fun ith => ith.hndl ≠ hndl).head? = s.timeouts.head? then 0
        else 1) := by
    rw [timersetAnswer, h.head?_eq, ← hholds.head?_eq]
  rw [hanswer, nnTimersetRm]
  by_cases hnot : ∀ ith ∈ s.timeouts, ith.hndl ≠ hndl
  · have hself : (s.timeouts.filter fun ith => ith.hndl ≠ hndl) = s.timeouts :=
      List.filter_eq_self.2 fun ith hith => decide_eq_true (hnot ith hith)
    rw [if_pos hnot, hself, if_pos rfl]
    rw [hself] at hholds
    exact ⟨hholds, rfl⟩
  · rw [if_neg hnot]
    refine ⟨hholds, ?_⟩
    cases hlist : s.timeouts with
    | nil => simp [hlist] at hnot
    | cons first rest =>
      by_cases hfirst : first.hndl = hndl
      · have hne : ((first :: rest).filter fun ith => ith.hndl ≠ hndl).head? ≠ some first := by
          intro heq
          have hmem := List.mem_filter.1 (List.mem_of_mem_head? heq)
          exact of_decide_eq_true hmem.2 hfirst
        rw [List.head?_cons, if_neg hne]
        simp [hfirst]
      · rw [List.filter_cons_of_pos (by simpa using hfirst)]
        simp [hfirst]

theorem nnTimersetEvent_spec (h : s.Holds active) (now : UInt64) :
    TimersetAnswer.event (nnTimersetEvent s now).2 = timersetAnswer active (.event now) ∧
      (nnTimersetEvent s now).1.Holds
        (TimersetEntry.apply active ⟨.event now, .event (nnTimersetEvent s now).2⟩) := by
  rw [timersetAnswer, ← h.head?_eq, nnTimersetEvent]
  cases hlist : s.timeouts with
  | nil => exact ⟨rfl, h⟩
  | cons first rest =>
    simp only [List.head?_cons]
    by_cases hdue : first.timeout ≤ now
    · have hnot : ¬ first.timeout > now := by simpa using hdue
      rw [if_neg hnot, if_pos hdue]
      refine ⟨rfl, ?_⟩
      have hrest : (s.timeouts.filter fun ith => ith.hndl ≠ first.hndl) = rest := by
        have hnodup := h.nodup_timeouts
        rw [hlist, List.map_cons, List.nodup_cons] at hnodup
        rw [hlist, List.filter_cons_of_neg (by simp), List.filter_eq_self]
        intro ith hith
        exact decide_eq_true fun heq => hnodup.1 (List.mem_map.2 ⟨ith, hith, heq⟩)
      have hholds := h.filter first.hndl
      rwa [hrest] at hholds
    · have hlater : first.timeout > now := by simpa using hdue
      rw [if_pos hlater, if_neg hdue]
      exact ⟨rfl, h⟩

/-! ### Runs of calls -/

/-- The entries of a log agree with `timersetAnswer`. -/
def Answered (log : List (TimersetEntry ι)) : Prop :=
  ∀ L₁ c b L₂, log = L₁ ++ ⟨c, b⟩ :: L₂ → b = timersetAnswer (activeTimeouts L₁) c

/-- Every call returns, with the answer that belongs to what is active. -/
theorem TimersetWorld.step_spec {w : TimersetWorld ι} (h : w.set.Holds (activeTimeouts w.log))
    {c : TimersetCall ι} (hc : w.Enabled c) :
    ∃ w', w.step c = .ok (w', timersetAnswer (activeTimeouts w.log) c) ∧
      w'.log = w.log ++ [⟨c, timersetAnswer (activeTimeouts w.log) c⟩] ∧
      w'.set.Holds (activeTimeouts w'.log) := by
  cases c with
  | add now timeout hndl =>
    obtain ⟨s', n, heq, hholds, hanswer⟩ := nnTimersetAdd_spec h now timeout hc
    refine ⟨{ set := s', log := w.log ++ [⟨.add now timeout hndl, .first n⟩] },
      ?_, by rw [hanswer], ?_⟩
    · rw [← hanswer, TimersetWorld.step, nnTimersetCall, heq]
      rfl
    · rwa [activeTimeouts_snoc]
  | rm hndl =>
    obtain ⟨hholds, hanswer⟩ := nnTimersetRm_spec h hndl
    refine ⟨{ set := (nnTimersetRm w.set hndl).1,
              log := w.log ++ [⟨.rm hndl, .first (nnTimersetRm w.set hndl).2⟩] },
                ?_, by rw [hanswer], ?_⟩
    · rw [← hanswer]
      rfl
    · rwa [activeTimeouts_snoc]
  | event now =>
    obtain ⟨hanswer, hholds⟩ := nnTimersetEvent_spec h now
    refine ⟨{ set := (nnTimersetEvent w.set now).1,
              log := w.log ++ [⟨.event now, .event (nnTimersetEvent w.set now).2⟩] },
                ?_, by rw [hanswer], ?_⟩
    · rw [← hanswer]
      rfl
    · rwa [activeTimeouts_snoc]

theorem Answered.snoc {log : List (TimersetEntry ι)} (h : Answered log) (c : TimersetCall ι) :
    Answered (log ++ [⟨c, timersetAnswer (activeTimeouts log) c⟩]) := by
  intro L₁ c' b L₂ heq
  rcases List.eq_nil_or_concat L₂ with rfl | ⟨L₂, x, rfl⟩
  · obtain ⟨rfl, hx⟩ := List.append_inj' heq rfl
    cases hx
    rfl
  · rw [List.concat_eq_append, ← List.cons_append, ← List.append_assoc] at heq
    exact h L₁ c' b L₂ (List.append_inj' heq rfl).1

/-- A handle that is returned was active, and due. -/
theorem mem_of_timersetAnswer {active : List (TimersetHndl ι)} {now : UInt64} {hndl : ι}
    (h : TimersetAnswer.event (.ok hndl) = timersetAnswer active (.event now)) :
    ∃ ith ∈ active, ith.hndl = hndl ∧ ith.timeout ≤ now := by
  rw [timersetAnswer] at h
  split at h
  · cases h
  · next ith hnext =>
    split_ifs at h with hdue
    · cases h
      exact ⟨ith, List.mem_of_find?_eq_some hnext, rfl, hdue⟩
    · cases h

/-- Along every run of calls that adds only inactive handles, whatever the clock reads, the list is
sorted by the instants of expiry, and by the order of addition among equal ones.  Every call
returns: `event` the earliest handle if it is due and `EAGAIN` otherwise, `add` and `rm` whether the
earliest handle is another one now.  A handle that is returned has been added before, and neither
returned nor removed since, and it is due. -/
theorem nnTimerset_run {calls : List (TimersetCall ι)} {w : TimersetWorld ι}
    (h : Trace TimersetWorld.step TimersetWorld.Enabled .init calls w) :
    Sorts (fun ith => ith.timeout.toNat) w.set.timeouts (activeTimeouts w.log) ∧
      w.log.map TimersetEntry.call = calls ∧
      (∀ c, w.Enabled c → ∃ w', w.step c = .ok (w', timersetAnswer (activeTimeouts w.log) c)) ∧
      Answered w.log ∧
      ∀ L₁ now hndl L₂, w.log = L₁ ++ ⟨.event now, .event (.ok hndl)⟩ :: L₂ →
        ∃ L₃ now' timeout b L₄, L₁ = L₃ ++ ⟨.add now' timeout hndl, b⟩ :: L₄ ∧
          nnTimersetDue now' timeout ≤ now ∧ ∀ x ∈ L₄, ¬ x.Settles hndl := by
  have hinv : w.set.Holds (activeTimeouts w.log) ∧ w.log.map TimersetEntry.call = calls ∧
      Answered w.log := by
    refine h.invariant_of_step (I := fun calls w =>
      w.set.Holds (activeTimeouts w.log) ∧ w.log.map TimersetEntry.call = calls ∧
        Answered w.log) ?_ ?_
    · exact ⟨nnTimersetInit_holds, rfl, fun L₁ c b L₂ heq => by simp [TimersetWorld.init] at heq⟩
    · rintro calls w c ⟨hholds, hlog, hanswered⟩ hc
      obtain ⟨w', heq, hlog', hholds'⟩ := w.step_spec hholds hc
      refine ⟨w', _, heq, hholds', ?_, ?_⟩
      · rw [hlog', List.map_append, hlog]
        rfl
      · rw [hlog']
        exact hanswered.snoc c
  obtain ⟨hholds, hlog, hanswered⟩ := hinv
  refine ⟨hholds.sorts, hlog, ?_, hanswered, ?_⟩
  · intro c hc
    obtain ⟨w', heq, -, -⟩ := w.step_spec hholds hc
    exact ⟨w', heq⟩
  · intro L₁ now hndl L₂ heq
    obtain ⟨ith, hith, rfl, hdue⟩ := mem_of_timersetAnswer (hanswered L₁ _ _ L₂ heq)
    obtain ⟨L₃, now', timeout, b, L₄, hL₁, htimeout, hkeep⟩ := exists_add_of_mem_activeTimeouts hith
    exact ⟨L₃, now', timeout, b, L₄, hL₁, htimeout ▸ hdue, hkeep⟩

/-- Two handles that expire together, and one that is due earlier and is removed. -/
theorem nnTimerset_run_tie :
    ∃ w : TimersetWorld ℕ, Trace TimersetWorld.step TimersetWorld.Enabled .init
        [.add 10 5 0, .add 10 5 1, .add 11 2 2, .rm 2, .event 14, .event 15] w ∧
      w.set.timeouts.map TimersetHndl.hndl = [1] ∧ Answered w.log := by
  have hrun : ∃ w : TimersetWorld ℕ, Trace TimersetWorld.step TimersetWorld.Enabled .init
      [.add 10 5 0, .add 10 5 1, .add 11 2 2, .rm 2, .event 14, .event 15] w ∧
        w.set.timeouts.map TimersetHndl.hndl = [1] := Trace.exists_of_runWhile (by decide)
  obtain ⟨w, htrace, hset⟩ := hrun
  exact ⟨w, htrace, hset, (nnTimerset_run htrace).2.2.2.1⟩

end NanoSocket.Aio

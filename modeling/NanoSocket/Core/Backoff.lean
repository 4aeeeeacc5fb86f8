import NanoSocket.Core.Timer
import NanoSocket.Lib.Runs
import NanoSocket.Lib.Walk

/-!
# Waiting before a reconnect (`transports/utils/backoff.c`)

A connecting endpoint that fails waits before it tries again, each time for about twice as long,
until a maximum is reached.  `NnBackoff` is the object, and `NnBackoff.step` everything that can
happen to it: the calls of its owner, and what the worker does with its timer.

The wait is computed as a product of two `int`.  `product` is what the product should be and
`wrapped` what it is in 32 bits; the wait is the latter under the ceiling of the maximum
(`Started.timeout`).  `backoff_delays_iff` says for which intervals it is the right one.
-/

namespace NanoSocket

open Runs Ceiling

/-- `struct nn_backoff`. -/
structure NnBackoff where
  timer : Timer
  minivl : Int32
  maxivl : Int32
  n : Int32
  deriving DecidableEq, Repr

/-- `nn_backoff_init`. -/
def nnBackoffInit (minivl maxivl : Int32) : NnBackoff :=
  { timer := .init, minivl := minivl, maxivl := maxivl, n := 1 }

/-- `nn_backoff_isidle`. -/
def nnBackoffIsidle (self : NnBackoff) : Bool := nnTimerIsidle self.timer

/-- `nn_backoff_start`. -/
def nnBackoffStart (self : NnBackoff) : Except Fault NnBackoff := do
  let timeout := (self.n - 1) * self.minivl
  if timeout > self.maxivl then
    return { self with timer := ← nnTimerStart self.timer self.maxivl.toInt }
  else
    -- the interval hasn't yet exceeded the maximum: double the next timeout value
    return { self with timer := ← nnTimerStart self.timer timeout.toInt, n := self.n * 2 }

/-- `nn_backoff_stop`. -/
def nnBackoffStop (self : NnBackoff) : Except Fault NnBackoff :=
  return { self with timer := ← nnTimerStop self.timer }

/-- `nn_backoff_reset`. -/
def nnBackoffReset (self : NnBackoff) : NnBackoff := { self with n := 1 }

/-- The maximum that `nn_ctcp_create`, `nn_cipc_create` and `nn_cws_create` make of the options. -/
def retryMax (reconnectIvl reconnectIvlMax : Int32) : Int32 :=
  if reconnectIvlMax = 0 then reconnectIvl else reconnectIvlMax

/-- What can happen to a backoff. -/
inductive BackoffEvent
  | start
  | stop
  | reset
  | runTask
  | expire
  deriving DecidableEq, Repr

/-- The timer raised an event, which is delivered at once. -/
def NnBackoff.timerEvent (self : NnBackoff) (r : Timer × Option TimerEvent) :
    NnBackoff × Option TimerEvent :=
  match r.2 with
  | none => ({ self with timer := r.1 }, none)
  | some e => ({ self with timer := r.1.popped }, some e)

/-- An event happens. -/
def NnBackoff.step (self : NnBackoff) : BackoffEvent → Except Fault (NnBackoff × Option TimerEvent)
  | .start => do return (← nnBackoffStart self, none)
  | .stop => do return (← nnBackoffStop self, none)
  | .reset => .ok (nnBackoffReset self, none)
  | .runTask => do return self.timerEvent (← self.timer.runTask)
  | .expire => do return self.timerEvent (← self.timer.expire)

/-- The owner starts the backoff when it is idle. -/
def NnBackoff.Enabled (self : NnBackoff) : BackoffEvent → Prop
  | .start => nnBackoffIsidle self = true
  | .stop | .reset | .runTask | .expire => True

instance (self : NnBackoff) (e : BackoffEvent) : Decidable (self.Enabled e) :=
  match e with
  | .start => inferInstanceAs (Decidable (_ = true))
  | .stop | .reset | .runTask | .expire => inferInstanceAs (Decidable True)

/-- One more start, or none after a reset. -/
def countStart (k : ℕ) : BackoffEvent → ℕ
  | .start => k + 1
  | .reset => 0
  | .stop | .runTask | .expire => k

/-- How often the backoff was started since the last reset. -/
def startsSinceReset (events : List BackoffEvent) : ℕ := events.foldl countStart 0

@[simp] theorem startsSinceReset_append (events : List BackoffEvent) (e : BackoffEvent) :
    startsSinceReset (events ++ [e]) = countStart (startsSinceReset events) e := by
  rw [startsSinceReset, List.foldl_append]
  rfl

/-- A run of a backoff with these intervals. -/
abbrev BackoffRun (minivl maxivl : Int32) : List BackoffEvent → NnBackoff → Prop :=
  Trace NnBackoff.step NnBackoff.Enabled (nnBackoffInit minivl maxivl)

/-! ### The products -/

/-- The interval after `k` doublings, without a maximum. -/
def product (minivl : Int32) (k : ℕ) : ℤ := (2 ^ k - 1) * minivl.toInt

/-- The same in 32 bits. -/
def wrapped (minivl : Int32) (k : ℕ) : ℤ := (product minivl k).bmod (2 ^ 32)

/-- The delay of the start after `k` others. -/
def backoffDelay (minivl maxivl : Int32) (k : ℕ) : ℤ := min maxivl.toInt (product minivl k)

section Products

variable {minivl maxivl : Int32} {k : ℕ}

theorem product_succ (minivl : Int32) (k : ℕ) :
    product minivl (k + 1) = 2 * product minivl k + minivl.toInt := by
  rw [product, product]
  ring

theorem product_nonneg (hmin : 0 ≤ minivl.toInt) (k : ℕ) : 0 ≤ product minivl k := by
  have hone : (1 : ℤ) ≤ 2 ^ k := one_le_pow₀ (by norm_num)
  exact mul_nonneg (by omega) hmin

theorem product_mono (hmin : 0 ≤ minivl.toInt) : Monotone (product minivl) := by
  refine monotone_nat_of_le_succ fun k => ?_
  have := product_nonneg hmin k
  rw [product_succ]
  omega

/-- Delays are between nothing and the maximum, and do not decrease. -/
theorem backoffDelay_bounds (hmin : 0 ≤ minivl.toInt) (hmax : 0 ≤ maxivl.toInt) (k : ℕ) :
    0 ≤ backoffDelay minivl maxivl k ∧ backoffDelay minivl maxivl k ≤ maxivl.toInt ∧
      backoffDelay minivl maxivl k ≤ backoffDelay minivl maxivl (k + 1) :=
  ⟨le_min hmax (product_nonneg hmin k), min_le_left ..,
    min_le_min_left _ (product_mono hmin (Nat.le_succ k))⟩

/-- A product that is an `int` is not changed. -/
theorem wrapped_eq (hmin : 0 ≤ minivl.toInt) (h : product minivl k < 2 ^ 31) :
    wrapped minivl k = product minivl k := by
  have := product_nonneg hmin k
  exact Int.bmod_eq_of_le (by omega) (by omega)

end Products

/-! ### Runs -/

/-- The wait of the start after `k` others, as the code computes it. -/
def waitTime (minivl maxivl : Int32) (k : ℕ) : ℤ :=
  min maxivl.toInt (wrapped minivl (reach (wrapped minivl) maxivl.toInt k))

/-- A backoff that was started so often: `n` was doubled until a product was greater than the
maximum. -/
structure NnBackoff.Started (s : NnBackoff) (minivl maxivl : Int32) (k : ℕ) : Prop where
  least : s.minivl = minivl
  most : s.maxivl = maxivl
  doubled : s.n = .ofInt (2 ^ reach (wrapped minivl) maxivl.toInt k)
  phase : ∃ phase, s.timer.In phase

section Runs

variable {minivl maxivl : Int32} {k : ℕ} {s s' : NnBackoff}

theorem nnBackoffInit_started : (nnBackoffInit minivl maxivl).Started minivl maxivl 0 :=
  ⟨rfl, rfl, rfl, .idle, Timer.init_in⟩

theorem wrapped_eq_toInt (minivl : Int32) (k : ℕ) :
    wrapped minivl k = ((.ofInt (2 ^ k) - 1) * minivl : Int32).toInt := by
  have hone : (1 : Int32) = .ofInt 1 := rfl
  rw [wrapped, product, hone, ← Int32.ofInt_sub, ← Int32.ofInt_toInt minivl, ← Int32.ofInt_mul,
    Int32.ofInt_toInt, Int32.toInt_ofInt]
  rfl

theorem nnTimerStart_timeout {t t' : Timer} {timeout : ℤ} (h : nnTimerStart t timeout = .ok t') :
    t'.timeout = timeout := by
  obtain ⟨_, -, h⟩ := bind_eq_ok.1 h
  obtain ⟨_, -, h⟩ := bind_eq_ok.1 h
  obtain ⟨r, hstart, h⟩ := bind_eq_ok.1 h
  cases h
  rw [nnTimerHandler] at hstart
  split at hstart
  · cases hstart
    rfl
  · cases hstart
  · cases hstart

namespace NnBackoff.Started

/-- A start gives its wait to the timer. -/
theorem start_eq (h : s.Started minivl maxivl k) : nnBackoffStart s = (do
    let timer ← nnTimerStart s.timer (waitTime minivl maxivl k)
    return { s with timer := timer,
                    n := .ofInt (2 ^ reach (wrapped minivl) maxivl.toInt (k + 1)) }) := by
  have hproduct : wrapped minivl (reach (wrapped minivl) maxivl.toInt k) =
      ((s.n - 1) * s.minivl).toInt := by
    rw [wrapped_eq_toInt, h.doubled, h.least]
  rw [nnBackoffStart, waitTime, reach]
  by_cases habove : maxivl.toInt < wrapped minivl (reach (wrapped minivl) maxivl.toInt k)
  · have habove' : (s.n - 1) * s.minivl > s.maxivl := by
      rw [gt_iff_lt, Int32.lt_iff_toInt_lt, ← hproduct, h.most]
      exact habove
    rw [if_pos habove, if_pos habove', min_eq_left habove.le, h.most, ← h.doubled]
  · have habove' : ¬ (s.n - 1) * s.minivl > s.maxivl := by
      rw [gt_iff_lt, Int32.lt_iff_toInt_lt, ← hproduct, h.most]
      exact habove
    have hdouble : .ofInt (2 ^ (reach (wrapped minivl) maxivl.toInt k + 1)) = s.n * 2 := by
      rw [h.doubled, pow_succ, Int32.ofInt_mul]
      rfl
    rw [if_neg habove, if_neg habove', min_eq_right (not_lt.1 habove), hproduct, hdouble]

theorem start (h : s.Started minivl maxivl k) (hidle : nnBackoffIsidle s = true)
    (hwait : 0 ≤ waitTime minivl maxivl k) :
    ∃ s', nnBackoffStart s = .ok s' ∧ s'.Started minivl maxivl (k + 1) ∧
      s'.timer.timeout = waitTime minivl maxivl k ∧ s'.timer.In .active := by
  obtain ⟨phase, htimer⟩ := h.phase
  obtain rfl := htimer.isidle_iff.1 hidle
  obtain ⟨t, heq, hactive⟩ := htimer.start hwait
  refine ⟨{ s with timer := t, n := _ }, ?_, ⟨h.least, h.most, rfl, .active, hactive⟩,
    nnTimerStart_timeout heq, hactive⟩
  rw [h.start_eq, heq]
  rfl

/-- A negative wait is none. -/
theorem start_abort (h : s.Started minivl maxivl k) (hwait : waitTime minivl maxivl k < 0) :
    nnBackoffStart s = .error .assertFailed := by
  rw [h.start_eq, nnTimerStart, nnAssert_of_not (not_le.2 hwait)]
  rfl

/-- Nothing but a start and a reset changes more than the timer. -/
theorem withTimer {k' : ℕ} (h : s.Started minivl maxivl k) {t : Timer} {phase : TimerState}
    (ht : t.In phase) (hk : k' = k) :
    ({ s with timer := t } : NnBackoff).Started minivl maxivl k' :=
  hk ▸ ⟨h.least, h.most, h.doubled, phase, ht⟩

theorem stop (h : s.Started minivl maxivl k) :
    ∃ s', nnBackoffStop s = .ok s' ∧ s'.Started minivl maxivl k := by
  obtain ⟨phase, ht⟩ := h.phase
  by_cases hactive : phase = .active
  · obtain ⟨t, heq, ht'⟩ := Timer.In.stop (hactive ▸ ht)
    exact ⟨_, by rw [nnBackoffStop, heq]; rfl, h.withTimer ht' rfl⟩
  · exact ⟨_, by rw [nnBackoffStop, ht.stop_of_ne hactive]; rfl, h.withTimer ht rfl⟩

theorem runTask (h : s.Started minivl maxivl k) :
    ∃ s' e, s.step .runTask = .ok (s', e) ∧ s'.Started minivl maxivl k := by
  obtain ⟨phase, ht⟩ := h.phase
  rw [NnBackoff.step]
  rcases ht.runTask with ⟨t, heq, ht'⟩ | ⟨-, t, heq, ht'⟩
  · exact ⟨_, _, by rw [heq]; rfl, h.withTimer ht' rfl⟩
  · exact ⟨_, _, by rw [heq]; rfl, h.withTimer ht' rfl⟩

theorem expire (h : s.Started minivl maxivl k) :
    ∃ s' e, s.step .expire = .ok (s', e) ∧ s'.Started minivl maxivl k := by
  obtain ⟨phase, ht⟩ := h.phase
  rw [NnBackoff.step]
  rcases ht.expire with ⟨t, heq, ht'⟩ | ⟨-, t, heq, ht'⟩
  · exact ⟨_, _, by rw [heq]; rfl, h.withTimer ht' rfl⟩
  · have hpopped : t.popped.In .active := ⟨ht'.1, ht'.2.1, rfl, ht'.2.2.2⟩
    exact ⟨_, _, by rw [heq]; rfl, h.withTimer hpopped rfl⟩

/-- One event: only a start with a negative wait does not return. -/
theorem step (h : s.Started minivl maxivl k) {e : BackoffEvent} (he : s.Enabled e)
    (hwait : e = .start → 0 ≤ waitTime minivl maxivl k) :
    ∃ s' a, s.step e = .ok (s', a) ∧ s'.Started minivl maxivl (countStart k e) := by
  cases e with
  | start =>
    obtain ⟨s', heq, hstarted, -⟩ := h.start he (hwait rfl)
    exact ⟨s', none, by rw [NnBackoff.step, heq]; rfl, hstarted⟩
  | stop =>
    obtain ⟨s', heq, hstarted⟩ := h.stop
    exact ⟨s', none, by rw [NnBackoff.step, heq]; rfl, hstarted⟩
  | reset => exact ⟨_, none, rfl, h.least, h.most, rfl, h.phase⟩
  | runTask => exact h.runTask
  | expire => exact h.expire

end NnBackoff.Started

/-- A start that returned had a wait. -/
theorem waitTime_nonneg (h : s.Started minivl maxivl k) {r : NnBackoff × Option TimerEvent}
    (heq : s.step .start = .ok r) : 0 ≤ waitTime minivl maxivl k := by
  by_contra hneg
  rw [NnBackoff.step, h.start_abort (not_le.1 hneg)] at heq
  cases heq

/-- The run lemma: how often the backoff was started says in which state it is. -/
theorem BackoffRun.started {events : List BackoffEvent} (h : BackoffRun minivl maxivl events s) :
    s.Started minivl maxivl (startsSinceReset events) := by
  refine h.invariant (I := fun events s => s.Started minivl maxivl (startsSinceReset events))
    nnBackoffInit_started ?_
  intro events s e s' a hI he heq
  have hwait : e = .start → 0 ≤ waitTime minivl maxivl (startsSinceReset events) := by
    rintro rfl
    exact waitTime_nonneg hI heq
  obtain ⟨s'', a', heq', hstarted⟩ := hI.step he hwait
  cases heq.symm.trans heq'
  rw [startsSinceReset_append]
  exact hstarted

/-- A timer that is stopped before the worker has started it is idle after its two tasks. -/
theorem exists_idle {events : List BackoffEvent} {timeout : ℤ} {least most n : Int32}
    (h : BackoffRun minivl maxivl events ⟨⟨.active, false, .active, timeout, [.start], false⟩,
      least, most, n⟩) :
    ∃ s', BackoffRun minivl maxivl (events ++ [.stop] ++ [.runTask] ++ [.runTask]) s' ∧
      nnBackoffIsidle s' = true := by
  have hstopped : BackoffRun minivl maxivl (events ++ [.stop])
      ⟨⟨.stopping, false, .stopping, timeout, [.start, .stop], false⟩, least, most, n⟩ :=
    h.snoc trivial rfl
  have hstarted : BackoffRun minivl maxivl (events ++ [.stop] ++ [.runTask])
      ⟨⟨.stopping, false, .stopping, timeout, [.stop], false⟩, least, most, n⟩ :=
    hstopped.snoc trivial rfl
  exact ⟨_, hstarted.snoc trivial rfl, rfl⟩

/-- A start, a stop and the two tasks of the worker: the backoff is idle again. -/
theorem exists_round {events : List BackoffEvent} (h : BackoffRun minivl maxivl events s)
    (hidle : nnBackoffIsidle s = true)
    (hwait : 0 ≤ waitTime minivl maxivl (startsSinceReset events)) :
    ∃ s', BackoffRun minivl maxivl (events ++ [.start] ++ [.stop] ++ [.runTask] ++ [.runTask]) s' ∧
      nnBackoffIsidle s' = true := by
  obtain ⟨phase, ht⟩ := h.started.phase
  obtain rfl := ht.isidle_iff.1 hidle
  have hstarted := h.started
  have hstart := hstarted.start_eq
  obtain ⟨⟨fsm, stopped, state, timeout, tasks, armed⟩, least, most, n⟩ := s
  obtain ⟨rfl, rfl, rfl, rfl, rfl⟩ := ht
  have htimer : nnTimerStart ⟨.idle, false, .idle, timeout, [], false⟩
      (waitTime minivl maxivl (startsSinceReset events)) =
      .ok ⟨.active, false, .active, waitTime minivl maxivl (startsSinceReset events),
        [.start], false⟩ := by
    rw [nnTimerStart, nnAssert_of hwait]
    rfl
  have hstep : (NnBackoff.mk ⟨.idle, false, .idle, timeout, [], false⟩ least most n).step .start =
      .ok (⟨⟨.active, false, .active, waitTime minivl maxivl (startsSinceReset events), [.start],
        false⟩, least, most,
        .ofInt (2 ^ reach (wrapped minivl) maxivl.toInt (startsSinceReset events + 1))⟩, none) := by
    rw [NnBackoff.step, hstart, htimer]
    rfl
  exact exists_idle (h.snoc hidle hstep)

/-- A backoff is started as often as there is a wait. -/
theorem exists_run (h : ∀ j < k, 0 ≤ waitTime minivl maxivl j) :
    ∃ events s, BackoffRun minivl maxivl events s ∧ startsSinceReset events = k ∧
      nnBackoffIsidle s = true := by
  induction k with
  | zero => exact ⟨[], _, .nil, rfl, rfl⟩
  | succ k ih =>
    obtain ⟨events, s, hrun, rfl, hidle⟩ := ih fun j hj => h j (hj.trans (Nat.lt_succ_self k))
    obtain ⟨s', hrun', hidle'⟩ := exists_round hrun hidle (h _ (Nat.lt_succ_self _))
    refine ⟨_, s', hrun', ?_, hidle'⟩
    simp only [startsSinceReset_append, countStart]

end Runs

/-! ### The right delays -/

/-- Every one of the first `count` starts since a reset gives the right delay to the timer. -/
def RightDelays (minivl maxivl : Int32) (count : ℕ) : Prop :=
  ∀ events s, BackoffRun minivl maxivl events s → startsSinceReset events < count →
    nnBackoffIsidle s = true →
    ∃ s', s.step .start = .ok (s', none) ∧
      s'.timer.timeout = backoffDelay minivl maxivl (startsSinceReset events)

/-- Among the first `count` products, those that are no `int` come after one that is greater than
the maximum. -/
def ProductsFit (minivl maxivl : Int32) (count : ℕ) : Prop :=
  ∀ k < count, 2 ^ 31 ≤ product minivl k → ∃ j < k, maxivl.toInt < product minivl j

section

variable {minivl maxivl : Int32} {k count : ℕ}

theorem rightDelays_iff : RightDelays minivl maxivl count ↔
    ∀ k < count, 0 ≤ waitTime minivl maxivl k ∧
      waitTime minivl maxivl k = backoffDelay minivl maxivl k := by
  constructor
  · intro h k hk
    induction k using Nat.strong_induction_on with
    | _ k ih =>
      obtain ⟨events, s, hrun, rfl, hidle⟩ := exists_run fun j hj => (ih j hj (hj.trans hk)).1
      obtain ⟨s', heq, htimeout⟩ := h events s hrun hk hidle
      have hwait := waitTime_nonneg hrun.started heq
      obtain ⟨s'', heq', -, htimeout', -⟩ := hrun.started.start hidle hwait
      rw [NnBackoff.step, heq'] at heq
      cases heq
      exact ⟨hwait, htimeout'.symm.trans htimeout⟩
  · intro h events s hrun hk hidle
    obtain ⟨hwait, heq⟩ := h _ hk
    obtain ⟨s', heq', -, htimeout, -⟩ := hrun.started.start hidle hwait
    refine ⟨s', ?_, htimeout.trans heq⟩
    rw [NnBackoff.step, heq']
    rfl

/-- As long as no product is above the maximum, none is changed. -/
theorem ProductsFit.product_lt (h : ProductsFit minivl maxivl count) (hmin : 0 ≤ minivl.toInt)
    (hk : k < count) (hbelow : ∀ j < k, wrapped minivl j ≤ maxivl.toInt) :
    product minivl k < 2 ^ 31 := by
  induction k using Nat.strong_induction_on with
  | _ k ih =>
    by_contra hlarge
    obtain ⟨j, hj, habove⟩ := h k hk (not_lt.1 hlarge)
    have hsmall := ih j hj (hj.trans hk) fun i hi => hbelow i (hi.trans hj)
    have := hbelow j hj
    rw [wrapped_eq hmin hsmall] at this
    omega

/-- The first product that is no `int`, when none before it is above the maximum, is too small in 32
bits. -/
theorem wrapped_lt (hmin : 0 ≤ minivl.toInt) (hlarge : 2 ^ 31 ≤ product minivl k)
    (hbelow : ∀ j < k, product minivl j ≤ maxivl.toInt) : wrapped minivl k < maxivl.toInt := by
  have hminlt := minivl.toInt_lt
  have hmaxlt := maxivl.toInt_lt
  match k with
  | 0 => simp [product] at hlarge
  | 1 =>
    rw [product_succ] at hlarge
    simp [product] at hlarge
    omega
  | k + 2 =>
    have hone : minivl.toInt ≤ product minivl (k + 1) := by
      have := product_nonneg hmin k
      rw [product_succ]
      omega
    have hle := hbelow (k + 1) (by omega)
    rw [product_succ] at hlarge
    have hwrapped :
        wrapped minivl (k + 2) = 2 * product minivl (k + 1) + minivl.toInt - 2 ^ 32 := by
      rw [wrapped, product_succ, Int.bmod_def]
      omega
    omega

end

theorem retryMax_nonneg {reconnectIvl reconnectIvlMax : Int32} (hmin : 0 ≤ reconnectIvl.toInt)
    (hmax : 0 ≤ reconnectIvlMax.toInt) : 0 ≤ (retryMax reconnectIvl reconnectIvlMax).toInt := by
  rw [retryMax]
  split_ifs
  · exact hmin
  · exact hmax

/-- No call of `nn_backoff_start` fails an assertion. -/
def BackoffSafe (minivl maxivl : Int32) : Prop :=
  ∀ events s e, BackoffRun minivl maxivl events s → s.Enabled e → s.step e ≠ .error .assertFailed

/-- No product in 32 bits is negative, unless one before it is greater than the maximum. -/
def NeverNegative (minivl maxivl : Int32) : Prop :=
  ∀ k, (∀ j < k, wrapped minivl j ≤ maxivl.toInt) → 0 ≤ wrapped minivl k

theorem backoffSafe_iff {minivl maxivl : Int32} (hmax : 0 ≤ maxivl.toInt) :
    BackoffSafe minivl maxivl ↔ NeverNegative minivl maxivl := by
  have hwait : NeverNegative minivl maxivl ↔ ∀ k, 0 ≤ waitTime minivl maxivl k := by
    rw [NeverNegative, ← forall_reach_iff]
    exact forall_congr' fun k => ⟨le_min hmax, fun h => h.trans (min_le_right ..)⟩
  rw [hwait]
  constructor
  · intro h k
    induction k using Nat.strong_induction_on with
    | _ k ih =>
      obtain ⟨events, s, hrun, rfl, hidle⟩ := exists_run ih
      by_contra hneg
      refine h events s .start hrun hidle ?_
      rw [NnBackoff.step, hrun.started.start_abort (not_le.1 hneg)]
      rfl
  · intro h events s e hrun he heq
    obtain ⟨s', a, heq', -⟩ := hrun.started.step he fun _ => h _
    cases heq.symm.trans heq'

/-- The delays are right, up to any number of starts, if and only if no product that is computed is
too large for an `int`.  They are between nothing and the maximum, and do not decrease until a
reset. -/
theorem backoff_delays_iff {reconnectIvl reconnectIvlMax : Int32} (hmin : 0 ≤ reconnectIvl.toInt)
    (hmax : 0 ≤ reconnectIvlMax.toInt) (count : ℕ) :
    (RightDelays reconnectIvl (retryMax reconnectIvl reconnectIvlMax) count ↔
      ProductsFit reconnectIvl (retryMax reconnectIvl reconnectIvlMax) count) ∧
    ∀ k, 0 ≤ backoffDelay reconnectIvl (retryMax reconnectIvl reconnectIvlMax) k ∧
      backoffDelay reconnectIvl (retryMax reconnectIvl reconnectIvlMax) k ≤
        (retryMax reconnectIvl reconnectIvlMax).toInt ∧
      backoffDelay reconnectIvl (retryMax reconnectIvl reconnectIvlMax) k ≤
        backoffDelay reconnectIvl (retryMax reconnectIvl reconnectIvlMax) (k + 1) := by
  have hmaxivl := retryMax_nonneg hmin hmax
  generalize retryMax reconnectIvl reconnectIvlMax = maxivl at hmaxivl
  refine ⟨?_, backoffDelay_bounds hmin hmaxivl⟩
  rw [rightDelays_iff]
  constructor
  · intro h k hk hlarge
    by_contra hbelow
    push Not at hbelow
    -- the counter comes to `k`, where the product in 32 bits is too small
    have hsame : ∀ j < k, wrapped reconnectIvl j ≤ maxivl.toInt := by
      intro j hj
      have hlt := maxivl.toInt_lt
      rw [wrapped_eq hmin ((hbelow j hj).trans_lt hlt)]
      exact hbelow j hj
    have hless := wrapped_lt hmin hlarge hbelow
    have heq := (h k hk).2
    have hlt := maxivl.toInt_lt
    rw [waitTime, reach_eq hsame, backoffDelay, min_eq_right hless.le,
      min_eq_left (by omega)] at heq
    omega
  · intro h k hk
    have hbelow : ∀ j < reach (wrapped reconnectIvl) maxivl.toInt k,
        wrapped reconnectIvl j ≤ maxivl.toInt :=
      fun j hj => le_of_lt_reach hj
    have hsmall := h.product_lt hmin (reach_le.trans_lt hk) hbelow
    have heq := min_reach (product_mono hmin) (wrapped_eq hmin hsmall)
    refine ⟨le_min hmaxivl ?_, heq⟩
    rw [wrapped_eq hmin hsmall]
    exact product_nonneg hmin _

/-- With a minimum of 2^30 and the greatest maximum, the third start fails the assertion of the
timer. -/
theorem large_interval_aborts :
    (∃ s, BackoffRun 1073741824 2147483647
        [.start, .stop, .runTask, .runTask, .start, .stop, .runTask, .runTask] s ∧
      s.Enabled .start ∧ s.step .start = .error .assertFailed) ∧
      ¬ RightDelays 1073741824 2147483647 3 := by
  have hrun : ∃ s, BackoffRun 1073741824 2147483647
      [.start, .stop, .runTask, .runTask, .start, .stop, .runTask, .runTask] s ∧
      (s.Enabled .start ∧ s.step .start = .error .assertFailed) :=
    Trace.exists_of_runWhile (by decide)
  obtain ⟨s, htrace, henabled, heq⟩ := hrun
  refine ⟨⟨s, htrace, henabled, heq⟩, fun h => ?_⟩
  obtain ⟨s', heq', -⟩ := h _ s htrace (by decide) henabled
  cases heq.symm.trans heq'

theorem backoff_delays_iff_default : RightDelays 100 (retryMax 100 0) 5 := by
  refine (backoff_delays_iff (by decide) (by decide) 5).1.2 fun k _ hlarge => ⟨2, ?_, by decide⟩
  by_contra hk
  have hmono := @product_mono 100 (by decide) _ _ (not_lt.1 hk)
  have htwo : product 100 2 = 300 := by decide
  omega

end NanoSocket

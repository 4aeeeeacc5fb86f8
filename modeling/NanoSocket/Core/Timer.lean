import NanoSocket.Core.Fault

/-!
# Timers (`aio/timer.c`, `aio/fsm.c`)

A timer is a state machine owned by another one.  Its user starts and stops it; a worker thread
executes the start task (it arms the worker's timer), the stop task (it disarms it and confirms the
stop) and reports expiry.  `Timer` holds the user's view (`fsm`, `state`, `timeout`) and the
worker's (the queued tasks, whether the worker's timer is armed).

A context drains its event queue before it is unlocked, so an event that a timer raises while the
worker is inside is delivered to the owner at once: `runTask` and `expire` return it.

`Timer.In` gives the three phases of a timer and the lemmas below say how they follow each other.
-/

namespace NanoSocket

/-- `NN_FSM_STATE_*`. -/
inductive FsmState
  | idle
  | active
  | stopping
  deriving DecidableEq, Repr

/-- `NN_TIMER_STATE_*`. -/
inductive TimerState
  | idle
  | active
  | stopping
  deriving DecidableEq, Repr

/-- The two tasks that a timer gives to its worker. -/
inductive TimerTask
  | start
  | stop
  deriving DecidableEq, Repr

/-- What is fed to the state machine of a timer. -/
inductive TimerInput
  | fsmStart
  | fsmStop
  | task (t : TimerTask)
  | wtimerTimeout
  deriving DecidableEq, Repr

/-- What a timer raises to its owner: `NN_TIMER_TIMEOUT` and `NN_TIMER_STOPPED`. -/
inductive TimerEvent
  | timeout
  | stopped
  deriving DecidableEq, Repr

/-- `struct nn_timer`; `stopped` says that the event `fsm.stopped` is in a queue. -/
structure Timer where
  fsm : FsmState
  stopped : Bool
  state : TimerState
  timeout : ℤ
  tasks : List TimerTask
  armed : Bool
  deriving DecidableEq, Repr

/-- `nn_timer_init`. -/
def Timer.init : Timer :=
  { fsm := .idle, stopped := false, state := .idle, timeout := -1, tasks := [], armed := false }

/-- `nn_timer_isidle`. -/
def nnTimerIsidle (self : Timer) : Bool := self.fsm = .idle && !self.stopped

/-- `nn_timer_handler`. -/
def nnTimerHandler (timer : Timer) (src : TimerInput) : Except Fault (Timer × Option TimerEvent) :=
  match timer.state with
  | .idle =>
    match src with
    | .fsmStart => .ok ({ timer with state := .active, tasks := timer.tasks ++ [.start] }, none)
    | .fsmStop => .error .badAction
    | _ => .error .badSource
  | .active =>
    match src with
    | .task .start => do
      nnAssert (timer.timeout ≥ 0)
      -- `nn_worker_add_timer`: `nn_list_insert` takes an item that is in no list
      nnAssert (timer.armed = false)
      return ({ timer with armed := true, timeout := -1 }, none)
    | .wtimerTimeout => do
      nnAssert (timer.timeout = -1)
      return (timer, some .timeout)
    | _ => .error .badSource
  | .stopping => .error .badState

/-- `nn_timer_shutdown`. -/
def nnTimerShutdown (timer : Timer) (src : TimerInput) : Except Fault (Timer × Option TimerEvent) :=
  if src = .fsmStop then
    .ok ({ timer with state := .stopping, tasks := timer.tasks ++ [.stop] }, none)
  else if timer.state = .stopping then
    if src ≠ .task .stop then .ok (timer, none)
    else do
      -- `nn_worker_rm_timer`, then `nn_fsm_stopped`
      nnAssert (timer.fsm = .stopping)
      return ({ timer with armed := false, state := .idle, stopped := true, fsm := .idle },
        some .stopped)
  else .error .badState

/-- `nn_fsm_feed`. -/
def Timer.feed (timer : Timer) (src : TimerInput) : Except Fault (Timer × Option TimerEvent) :=
  if timer.fsm ≠ .stopping then nnTimerHandler timer src else nnTimerShutdown timer src

/-- `nn_timer_start`. -/
def nnTimerStart (self : Timer) (timeout : ℤ) : Except Fault Timer := do
  nnAssert (timeout ≥ 0)
  nnAssert (nnTimerIsidle self)
  let r ← nnTimerHandler { self with timeout := timeout } .fsmStart
  return { r.1 with fsm := .active }

/-- `nn_timer_stop`. -/
def nnTimerStop (self : Timer) : Except Fault Timer :=
  if self.fsm ≠ .active then .ok self
  else do return (← nnTimerShutdown { self with fsm := .stopping } .fsmStop).1

/-- The worker executes the next task of the timer. -/
def Timer.runTask (self : Timer) : Except Fault (Timer × Option TimerEvent) :=
  match self.tasks with
  | [] => .ok (self, none)
  | t :: ts => Timer.feed { self with tasks := ts } (.task t)

/-- The worker's timer expires. -/
def Timer.expire (self : Timer) : Except Fault (Timer × Option TimerEvent) :=
  if self.armed then Timer.feed { self with armed := false } .wtimerTimeout else .ok (self, none)

/-- The event `fsm.stopped` is taken out of the queue. -/
def Timer.popped (self : Timer) : Timer := { self with stopped := false }

/-! ### The phases of a timer -/

/-- The timer is idle, started, or being stopped. -/
def Timer.In (t : Timer) : TimerState → Prop
  | .idle => t.fsm = .idle ∧ t.state = .idle ∧ t.stopped = false ∧ t.tasks = [] ∧ t.armed = false
  | .active => t.fsm = .active ∧ t.state = .active ∧ t.stopped = false ∧
      (t.tasks = [.start] ∧ t.armed = false ∧ 0 ≤ t.timeout ∨ t.tasks = [] ∧ t.timeout = -1)
  | .stopping => t.fsm = .stopping ∧ t.state = .stopping ∧ t.stopped = false ∧
      (t.tasks = [.start, .stop] ∧ t.armed = false ∨ t.tasks = [.stop])

theorem Timer.init_in : Timer.init.In .idle := ⟨rfl, rfl, rfl, rfl, rfl⟩

theorem Timer.In.isidle_iff {t : Timer} {s : TimerState} (h : t.In s) :
    nnTimerIsidle t = true ↔ s = .idle := by
  cases s with
  | idle => simp [nnTimerIsidle, h.1, h.2.2.1]
  | active => simp [nnTimerIsidle, h.1]
  | stopping => simp [nnTimerIsidle, h.1]

/-- A timer is in one phase only. -/
theorem Timer.In.unique {t : Timer} {s s' : TimerState} (h : t.In s) (h' : t.In s') : s = s' := by
  have state_eq : ∀ s, t.In s → t.state = s := by
    intro s h
    cases s <;> exact h.2.1
  exact (state_eq s h).symm.trans (state_eq s' h')

theorem Timer.In.start {t : Timer} (h : t.In .idle) {n : ℤ} (hn : 0 ≤ n) :
    ∃ t', nnTimerStart t n = .ok t' ∧ t'.In .active := by
  obtain ⟨hfsm, hstate, hstopped, htasks, harmed⟩ := h
  refine ⟨{ t with timeout := n, state := .active, tasks := [.start], fsm := .active }, ?_,
    rfl, rfl, hstopped, Or.inl ⟨rfl, harmed, hn⟩⟩
  simp [nnTimerStart, nnTimerIsidle, nnTimerHandler, nnAssert, hfsm, hstopped, hstate, htasks, hn]

theorem Timer.In.stop {t : Timer} (h : t.In .active) :
    ∃ t', nnTimerStop t = .ok t' ∧ t'.In .stopping := by
  obtain ⟨hfsm, hstate, hstopped, hw⟩ := h
  refine ⟨{ t with fsm := .stopping, state := .stopping, tasks := t.tasks ++ [.stop] }, ?_,
    rfl, rfl, hstopped, ?_⟩
  · simp [nnTimerStop, nnTimerShutdown, hfsm]
  · rcases hw with ⟨ht, ha, -⟩ | ⟨ht, -⟩
    · exact Or.inl ⟨by simp [ht], ha⟩
    · exact Or.inr (by simp [ht])

theorem Timer.In.stop_of_ne {t : Timer} {s : TimerState} (h : t.In s) (hs : s ≠ .active) :
    nnTimerStop t = .ok t := by
  cases s with
  | idle => simp [nnTimerStop, h.1]
  | active => exact absurd rfl hs
  | stopping => simp [nnTimerStop, h.1]

/-- A task of the worker: only the stop task has an effect outside the timer. -/
theorem Timer.In.runTask {t : Timer} {s : TimerState} (h : t.In s) :
    (∃ t', t.runTask = .ok (t', none) ∧ t'.In s) ∨
      s = .stopping ∧ ∃ t', t.runTask = .ok (t', some .stopped) ∧ t'.popped.In .idle := by
  cases s with
  | idle => exact Or.inl ⟨t, by simp [Timer.runTask, h.2.2.2.1], h⟩
  | active =>
    obtain ⟨hfsm, hstate, hstopped, hw⟩ := h
    rcases hw with ⟨ht, ha, hn⟩ | ⟨ht, hn⟩
    · refine Or.inl ⟨{ t with tasks := [], armed := true, timeout := -1 }, ?_, hfsm, hstate,
        hstopped, Or.inr ⟨rfl, rfl⟩⟩
      simp [Timer.runTask, ht, Timer.feed, hfsm, nnTimerHandler, hstate, nnAssert, hn, ha]
    · exact Or.inl ⟨t, by simp [Timer.runTask, ht], hfsm, hstate, hstopped, Or.inr ⟨ht, hn⟩⟩
  | stopping =>
    obtain ⟨hfsm, hstate, hstopped, hw⟩ := h
    rcases hw with ⟨ht, ha⟩ | ht
    · -- the timer was stopped before the worker started it: the start task does nothing
      refine Or.inl ⟨{ t with tasks := [.stop] }, ?_, hfsm, hstate, hstopped, Or.inr rfl⟩
      simp [Timer.runTask, ht, Timer.feed, hfsm, nnTimerShutdown, hstate]
    · refine Or.inr ⟨rfl,
        { t with tasks := [], armed := false, state := .idle, stopped := true, fsm := .idle },
        ?_, rfl, rfl, rfl, rfl, rfl⟩
      simp [Timer.runTask, ht, Timer.feed, hfsm, nnTimerShutdown, hstate, nnAssert]

/-- Expiry: only a started timer reports it. -/
theorem Timer.In.expire {t : Timer} {s : TimerState} (h : t.In s) :
    (∃ t', t.expire = .ok (t', none) ∧ t'.In s) ∨
      s = .active ∧ ∃ t', t.expire = .ok (t', some .timeout) ∧ t'.In .active := by
  by_cases ha : t.armed = true
  · cases s with
    | idle =>
      have := h.2.2.2.2
      rw [ha] at this
      cases this
    | active =>
      obtain ⟨hfsm, hstate, hstopped, hw⟩ := h
      rcases hw with ⟨-, hna, -⟩ | ⟨ht, hn⟩
      · rw [ha] at hna
        cases hna
      · refine Or.inr ⟨rfl, { t with armed := false }, ?_, hfsm, hstate, hstopped, Or.inr ⟨ht, hn⟩⟩
        simp [Timer.expire, ha, Timer.feed, hfsm, nnTimerHandler, hstate, nnAssert, hn]
    | stopping =>
      obtain ⟨hfsm, hstate, hstopped, hw⟩ := h
      refine Or.inl ⟨{ t with armed := false }, ?_, hfsm, hstate, hstopped,
        hw.imp_left fun h => ⟨h.1, rfl⟩⟩
      simp [Timer.expire, ha, Timer.feed, hfsm, nnTimerShutdown, hstate]
  · exact Or.inl ⟨t, by simp [Timer.expire, ha], h⟩

end NanoSocket

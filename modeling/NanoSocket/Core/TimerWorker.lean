import NanoSocket.Core.Timer
import NanoSocket.Lib.Runs

/-!
# Timers between two threads (`aio/timer.c`, `aio/worker_posix.inc`, `aio/ctx.c`)

The worker thread takes a task or an expired timer out of its queues first and enters the context of
the timer afterwards, so a user thread can come in between.  Whoever is in a context runs some code
of the objects in it (an event handler may start and stop timers) and then processes the queue of
events until it is empty; only then the context is left.  What the worker itself does with a timer
is one call of `nn_fsm_feed`.

`TimerWorld.Phase` says what is left to do for the worker in each phase of a timer; `timer_protocol`
is what follows for the calls of the owner and the events it gets, which are written to `log`.
-/

namespace NanoSocket

open Runs

/-- An event in the queue of a context: one of the timer, or of another object. -/
inductive CtxEvent
  | timer (e : TimerEvent)
  | other
  deriving DecidableEq, Repr

/-- The thread that is in the context. -/
inductive CtxThread
  | user
  | worker
  deriving DecidableEq, Repr

/-- What the owner of a timer does and gets.  `busy` says that the timer was not idle, and `armed`
that it was in the worker's timer set. -/
inductive TimerEntry
  | started
  | stopCalled (busy : Bool)
  | timeout
  | stopped (armed : Bool)
  deriving DecidableEq, Repr

/-- A timer with its worker and its context.  `hand` is what the worker has taken and not fed yet,
and `running` says that code of the objects in the context is being executed. -/
structure TimerWorld where
  timer : Timer
  hand : Option TimerInput
  inside : Option CtxThread
  running : Bool
  queue : List CtxEvent
  log : List TimerEntry
  deriving DecidableEq, Repr

/-- A new timer. -/
def TimerWorld.init : TimerWorld :=
  { timer := .init, hand := none, inside := none, running := false, queue := [], log := [] }

/-- What the threads do.  `enter` is the worker's way into the context for other objects, and
`raise` is about the events of other objects. -/
inductive TimerAction
  | takeTask
  | takeExpired
  | feed
  | enter (thread : CtxThread)
  | start (timeout : ℤ)
  | stop
  | raise
  | deliver
  | leave
  deriving DecidableEq, Repr

/-- When a thread can do it.  The worker is one thread, the context has one thread at a time, and a
timer is started only when it is idle. -/
def TimerWorld.Enabled (w : TimerWorld) : TimerAction → Prop
  | .takeTask => w.hand = none ∧ w.inside ≠ some .worker ∧ w.timer.tasks ≠ []
  | .takeExpired => w.hand = none ∧ w.inside ≠ some .worker ∧ w.timer.armed = true
  | .feed => w.inside = none ∧ w.hand ≠ none
  | .enter thread => w.inside = none ∧ (thread = .worker → w.hand = none)
  | .start timeout => w.running = true ∧ nnTimerIsidle w.timer = true ∧ 0 ≤ timeout
  | .stop => w.running = true
  | .raise => w.running = true
  | .deliver => w.inside ≠ none ∧ w.queue ≠ []
  | .leave => w.inside ≠ none ∧ w.queue = []

instance (w : TimerWorld) : DecidablePred w.Enabled
  | .takeTask | .takeExpired | .start _ => inferInstanceAs (Decidable (_ ∧ _ ∧ _))
  | .feed | .deliver | .leave => inferInstanceAs (Decidable (_ ∧ _))
  | .enter thread => inferInstanceAs (Decidable (_ ∧ (thread = .worker → w.hand = none)))
  | .stop | .raise => inferInstanceAs (Decidable (_ = _))

/-- `nn_fsm_raise`, when there is an event. -/
def nnFsmRaise (queue : List CtxEvent) : Option TimerEvent → Except Fault (List CtxEvent)
  | none => .ok queue
  | some e => do
    nnAssert (.timer e ∉ queue)
    return queue ++ [.timer e]

/-- The event at the head of the queue is processed by the owner. -/
def TimerWorld.deliver (w : TimerWorld) : TimerWorld :=
  match w.queue with
  | [] => w
  | .other :: queue => { w with queue, running := true }
  | .timer .timeout :: queue => { w with queue, running := true, log := w.log ++ [.timeout] }
  | .timer .stopped :: queue =>
    { w with queue, running := true, timer := w.timer.popped,
             log := w.log ++ [.stopped w.timer.armed] }

/-- One action. -/
def TimerWorld.step (w : TimerWorld) : TimerAction → Except Fault (TimerWorld × Unit)
  | .takeTask =>
    match w.timer.tasks with
    | [] => .ok (w, ())
    | t :: tasks => .ok ({ w with timer := { w.timer with tasks }, hand := some (.task t) }, ())
  | .takeExpired =>
    .ok ({ w with timer := { w.timer with armed := false }, hand := some .wtimerTimeout }, ())
  | .feed =>
    match w.hand with
    | none => .ok (w, ())
    | some src => do
      let (timer, event) ← w.timer.feed src
      let queue ← nnFsmRaise w.queue event
      return ({ w with timer, hand := none, inside := some .worker, running := false, queue }, ())
  | .enter thread => .ok ({ w with inside := some thread, running := true }, ())
  | .start timeout => do
    let timer ← nnTimerStart w.timer timeout
    return ({ w with timer, log := w.log ++ [.started] }, ())
  | .stop => do
    let timer ← nnTimerStop w.timer
    return ({ w with timer, log := w.log ++ [.stopCalled !nnTimerIsidle w.timer] }, ())
  | .raise => .ok ({ w with queue := w.queue ++ [.other] }, ())
  | .deliver => .ok (w.deliver, ())
  | .leave => .ok ({ w with inside := none, running := false }, ())

/-! ### The phases -/

/-- What the worker has in its hand and what waits for it. -/
def TimerWorld.todo (w : TimerWorld) : List TimerInput := w.hand.toList ++ w.timer.tasks.map .task

/-- No event of the timer is queued. -/
def QuietQueue (queue : List CtxEvent) : Prop := ∀ e, .timer e ∉ queue

theorem quietQueue_nil : QuietQueue [] := nofun

theorem QuietQueue.append_other {queue : List CtxEvent} (h : QuietQueue queue) :
    QuietQueue (queue ++ [.other]) := by
  intro e he
  rcases List.mem_append.1 he with he | he
  · exact h e he
  · cases List.mem_singleton.1 he

theorem QuietQueue.tail {queue : List CtxEvent} {e : CtxEvent} (h : QuietQueue (e :: queue)) :
    QuietQueue queue :=
  fun e he => h e (List.mem_cons_of_mem _ he)

/-- What an active timer has left to do for the worker. -/
inductive ActiveTodo (w : TimerWorld) : Prop
  | queued (htodo : w.todo = [.task .start]) (harmed : w.timer.armed = false)
      (htimeout : 0 ≤ w.timer.timeout)
      (hqueue : QuietQueue w.queue)
  | running (htodo : w.todo = []) (htimeout : w.timer.timeout = -1) (hqueue : QuietQueue w.queue)
  | expired (htodo : w.todo = [.wtimerTimeout]) (harmed : w.timer.armed = false)
      (htimeout : w.timer.timeout = -1)
      (hqueue : QuietQueue w.queue)
  | raised (htodo : w.todo = []) (harmed : w.timer.armed = false) (htimeout : w.timer.timeout = -1)
      (hqueue : w.queue = [.timer .timeout]) (hrunning : w.running = false)

/-- What a timer that is being stopped has left to do for the worker. -/
inductive StoppingTodo (w : TimerWorld) : Prop
  | unstarted (htodo : w.todo = [.task .start, .task .stop]) (harmed : w.timer.armed = false)
  | expired (htodo : w.todo = [.wtimerTimeout, .task .stop]) (harmed : w.timer.armed = false)
  | last (htodo : w.todo = [.task .stop])

/-- The phases of a timer; in the last one the event `STOPPED` is the next to be processed. -/
inductive TimerWorld.Phase (w : TimerWorld) : Prop
  | idle (hfsm : w.timer.fsm = .idle) (hstate : w.timer.state = .idle)
      (hstopped : w.timer.stopped = false)
      (htodo : w.todo = []) (harmed : w.timer.armed = false) (hqueue : QuietQueue w.queue)
  | active (hfsm : w.timer.fsm = .active) (hstate : w.timer.state = .active)
      (hstopped : w.timer.stopped = false)
      (htodo : ActiveTodo w)
  | stopping (hfsm : w.timer.fsm = .stopping) (hstate : w.timer.state = .stopping)
      (hstopped : w.timer.stopped = false) (htodo : StoppingTodo w) (hqueue : QuietQueue w.queue)
  | stopped (hfsm : w.timer.fsm = .idle) (hstate : w.timer.state = .idle)
      (hstopped : w.timer.stopped = true)
      (htodo : w.todo = []) (harmed : w.timer.armed = false) (hqueue : w.queue = [.timer .stopped])
      (hrunning : w.running = false)

/-- A context that nobody is in has an empty queue. -/
structure TimerWorld.Inv (w : TimerWorld) : Prop where
  free : w.inside = none → w.queue = [] ∧ w.running = false
  phase : w.Phase

/-- The log of a timer: nothing comes after a stop but one `STOPPED`, until the timer is started
again. -/
structure TimerWorld.Logged (w : TimerWorld) : Prop where
  stop : ∀ pre busy post, w.log = pre ++ .stopCalled busy :: post → .started ∉ post →
    .timeout ∉ post ∧
      post.count (.stopped false) = (if busy && nnTimerIsidle w.timer then 1 else 0) ∧
      w.timer.fsm ≠ .active ∧ (busy = false → nnTimerIsidle w.timer = true)
  disarmed : ∀ armed, .stopped armed ∈ w.log → armed = false

/-! ### One action -/

section Step

variable {w : TimerWorld}

theorem isidle_of {t : Timer} (hfsm : t.fsm = .idle) (hstopped : t.stopped = false) :
    nnTimerIsidle t = true := by
  simp [nnTimerIsidle, hfsm, hstopped]

theorem not_isidle_of_fsm {t : Timer} (hfsm : t.fsm ≠ .idle) : nnTimerIsidle t = false := by
  simp [nnTimerIsidle, hfsm]

theorem not_isidle_of_stopped {t : Timer} (hstopped : t.stopped = true) :
    nnTimerIsidle t = false := by
  simp [nnTimerIsidle, hstopped]

theorem todo_of_hand {src : TimerInput} {todo : List TimerInput} (hhand : w.hand = some src)
    (h : w.todo = todo) : todo = src :: w.timer.tasks.map .task := by
  rw [← h, TimerWorld.todo, hhand]
  rfl

theorem todo_of_no_hand (hhand : w.hand = none) : w.todo = w.timer.tasks.map .task := by
  rw [TimerWorld.todo, hhand]
  rfl

/-- What is left to do stays the same. -/
theorem TimerWorld.Phase.congr {w' : TimerWorld} (h : w.Phase) (hfsm : w'.timer.fsm = w.timer.fsm)
    (hstate : w'.timer.state = w.timer.state) (hstopped : w'.timer.stopped = w.timer.stopped)
    (htimeout : w'.timer.timeout = w.timer.timeout) (harmed : w'.timer.armed = w.timer.armed)
    (htodo : w'.todo = w.todo) (hqueue : w'.queue = w.queue)
      (hrunning : w.queue ≠ [] → w'.running = w.running) :
    w'.Phase := by
  cases h with
  | idle h₁ h₂ h₃ h₄ h₅ h₆ =>
    exact .idle (hfsm.trans h₁) (hstate.trans h₂) (hstopped.trans h₃) (htodo.trans h₄)
      (harmed.trans h₅)
      (hqueue ▸ h₆)
  | active h₁ h₂ h₃ h₄ =>
    refine .active (hfsm.trans h₁) (hstate.trans h₂) (hstopped.trans h₃) ?_
    cases h₄ with
    | queued h₄ h₅ h₆ h₇ =>
      exact .queued (htodo.trans h₄) (harmed.trans h₅) (htimeout ▸ h₆) (hqueue ▸ h₇)
    | running h₄ h₅ h₆ => exact .running (htodo.trans h₄) (htimeout.trans h₅) (hqueue ▸ h₆)
    | expired h₄ h₅ h₆ h₇ =>
      exact .expired (htodo.trans h₄) (harmed.trans h₅) (htimeout.trans h₆) (hqueue ▸ h₇)
    | raised h₄ h₅ h₆ h₇ h₈ =>
      exact .raised (htodo.trans h₄) (harmed.trans h₅) (htimeout.trans h₆) (hqueue.trans h₇)
        ((hrunning (h₇ ▸ nofun)).trans h₈)
  | stopping h₁ h₂ h₃ h₄ h₅ =>
    refine .stopping (hfsm.trans h₁) (hstate.trans h₂) (hstopped.trans h₃) ?_ (hqueue ▸ h₅)
    cases h₄ with
    | unstarted h₄ h₆ => exact .unstarted (htodo.trans h₄) (harmed.trans h₆)
    | expired h₄ h₆ => exact .expired (htodo.trans h₄) (harmed.trans h₆)
    | last h₄ => exact .last (htodo.trans h₄)
  | stopped h₁ h₂ h₃ h₄ h₅ h₆ h₇ =>
    exact .stopped (hfsm.trans h₁) (hstate.trans h₂) (hstopped.trans h₃) (htodo.trans h₄)
      (harmed.trans h₅)
      (hqueue.trans h₆) ((hrunning (h₆ ▸ nofun)).trans h₇)

/-- An action that the log does not show and that does not change what the log says. -/
theorem TimerWorld.Logged.congr {w' : TimerWorld} (h : w.Logged) (hlog : w'.log = w.log)
    (hfsm : w'.timer.fsm = .active ↔ w.timer.fsm = .active)
    (hidle : nnTimerIsidle w'.timer = nnTimerIsidle w.timer) : w'.Logged := by
  refine ⟨fun pre busy post heq hstarted => ?_, fun armed hmem => h.disarmed armed (hlog ▸ hmem)⟩
  obtain ⟨htimeout, hcount, hactive, hbusy⟩ := h.stop pre busy post (hlog ▸ heq) hstarted
  exact ⟨htimeout, hidle.symm ▸ hcount, fun h => hactive (hfsm.1 h), hidle.symm ▸ hbusy⟩

theorem TimerWorld.Inv.takeTask (h : w.Inv) (ha : w.Enabled .takeTask) :
    ∃ w', w.step .takeTask = .ok (w', ()) ∧ w'.Inv ∧ (w.Logged → w'.Logged) := by
  obtain ⟨hhand, hworker, htasks⟩ := ha
  cases heq : w.timer.tasks with
  | nil => exact absurd heq htasks
  | cons t tasks =>
    refine ⟨{ w with timer := { w.timer with tasks }, hand := some (.task t) }, ?_,
      ⟨h.free, ?_⟩, ?_⟩
    · rw [TimerWorld.step, heq]
    · refine h.phase.congr rfl rfl rfl rfl rfl ?_ rfl fun _ => rfl
      rw [todo_of_no_hand hhand, heq]
      rfl
    · exact fun hlog => hlog.congr rfl Iff.rfl rfl

theorem TimerWorld.Inv.takeExpired (h : w.Inv) (ha : w.Enabled .takeExpired) :
    ∃ w', w.step .takeExpired = .ok (w', ()) ∧ w'.Inv ∧ (w.Logged → w'.Logged) := by
  obtain ⟨hhand, hworker, harmed⟩ := ha
  have htodo := todo_of_no_hand hhand
  refine ⟨_, rfl, ⟨h.free, ?_⟩, fun hlog => hlog.congr rfl Iff.rfl rfl⟩
  cases h.phase with
  | idle h₁ h₂ h₃ h₄ h₅ h₆ => cases harmed.symm.trans h₅
  | active h₁ h₂ h₃ h₄ =>
    refine .active h₁ h₂ h₃ ?_
    cases h₄ with
    | queued h₄ h₅ h₆ h₇ => cases harmed.symm.trans h₅
    | running h₄ h₅ h₆ =>
      refine .expired ?_ rfl h₅ h₆
      rw [TimerWorld.todo, ← htodo, h₄]
      rfl
    | expired h₄ h₅ h₆ h₇ => cases harmed.symm.trans h₅
    | raised h₄ h₅ h₆ h₇ h₈ => cases harmed.symm.trans h₅
  | stopping h₁ h₂ h₃ h₄ h₅ =>
    refine .stopping h₁ h₂ h₃ ?_ h₅
    cases h₄ with
    | unstarted h₄ h₆ => cases harmed.symm.trans h₆
    | expired h₄ h₆ => cases harmed.symm.trans h₆
    | last h₄ =>
      refine .expired ?_ rfl
      rw [TimerWorld.todo, ← htodo, h₄]
      rfl
  | stopped h₁ h₂ h₃ h₄ h₅ h₆ h₇ => cases harmed.symm.trans h₅

/-- The handler does nothing but arm the timer or report its expiry. -/
theorem step_feed {src : TimerInput} (hhand : w.hand = some src) {timer : Timer}
    {event : Option TimerEvent} (hfeed : w.timer.feed src = .ok (timer, event))
    (hqueue : w.queue = []) :
    w.step .feed = .ok ({ w with timer, hand := none, inside := some .worker, running := false,
                                 queue := (event.map CtxEvent.timer).toList }, ()) := by
  rw [TimerWorld.step, hhand]
  simp only [hfeed, ok_bind, hqueue]
  cases event <;> rfl

theorem TimerWorld.Inv.feed (h : w.Inv) (ha : w.Enabled .feed) :
    ∃ w', w.step .feed = .ok (w', ()) ∧ w'.Inv ∧ (w.Logged → w'.Logged) := by
  obtain ⟨hfree, hhand⟩ := ha
  obtain ⟨hqueue, hrunning⟩ := h.free hfree
  obtain ⟨src, hsrc⟩ := Option.ne_none_iff_exists'.1 hhand
  cases h.phase with
  | idle h₁ h₂ h₃ h₄ h₅ h₆ => cases todo_of_hand hsrc h₄
  | active h₁ h₂ h₃ h₄ =>
    cases h₄ with
    | queued h₄ h₅ h₆ h₇ =>
      obtain ⟨rfl, htasks⟩ := List.cons.inj (todo_of_hand hsrc h₄)
      have hfeed : w.timer.feed (.task .start) =
          .ok ({ w.timer with armed := true, timeout := -1 }, none) := by
        simp [Timer.feed, h₁, nnTimerHandler, h₂, nnAssert_of h₅, nnAssert_of h₆]
      refine ⟨_, step_feed hsrc hfeed hqueue,
        ⟨by rintro ⟨⟩, .active h₁ h₂ h₃ (.running htasks.symm rfl quietQueue_nil)⟩, ?_⟩
      exact fun hlog => hlog.congr rfl Iff.rfl rfl
    | running h₄ h₅ h₆ => cases todo_of_hand hsrc h₄
    | expired h₄ h₅ h₆ h₇ =>
      obtain ⟨rfl, htasks⟩ := List.cons.inj (todo_of_hand hsrc h₄)
      have hfeed : w.timer.feed .wtimerTimeout = .ok (w.timer, some .timeout) := by
        simp [Timer.feed, h₁, nnTimerHandler, h₂, nnAssert_of h₆]
      refine ⟨_, step_feed hsrc hfeed hqueue,
        ⟨by rintro ⟨⟩, .active h₁ h₂ h₃ (.raised htasks.symm h₅ h₆ rfl rfl)⟩, ?_⟩
      exact fun hlog => hlog.congr rfl Iff.rfl rfl
    | raised h₄ h₅ h₆ h₇ h₈ => cases todo_of_hand hsrc h₄
  | stopping h₁ h₂ h₃ h₄ h₅ =>
    have hskip : ∀ src', src' ≠ .fsmStop → src' ≠ .task .stop →
        w.timer.feed src' = .ok (w.timer, none) := by
      intro src' hstop htask
      simp [Timer.feed, h₁, nnTimerShutdown, h₂, hstop, htask]
    cases h₄ with
    | unstarted h₄ h₆ =>
      obtain ⟨rfl, htasks⟩ := List.cons.inj (todo_of_hand hsrc h₄)
      refine ⟨_, step_feed hsrc (hskip _ (by rintro ⟨⟩) (by rintro ⟨⟩)) hqueue,
        ⟨by rintro ⟨⟩, .stopping h₁ h₂ h₃ (.last htasks.symm) quietQueue_nil⟩, ?_⟩
      exact fun hlog => hlog.congr rfl Iff.rfl rfl
    | expired h₄ h₆ =>
      obtain ⟨rfl, htasks⟩ := List.cons.inj (todo_of_hand hsrc h₄)
      refine ⟨_, step_feed hsrc (hskip _ (by rintro ⟨⟩) (by rintro ⟨⟩)) hqueue,
        ⟨by rintro ⟨⟩, .stopping h₁ h₂ h₃ (.last htasks.symm) quietQueue_nil⟩, ?_⟩
      exact fun hlog => hlog.congr rfl Iff.rfl rfl
    | last h₄ =>
      obtain ⟨rfl, htasks⟩ := List.cons.inj (todo_of_hand hsrc h₄)
      have hfeed : w.timer.feed (.task .stop) =
          .ok ({ w.timer with armed := false, state := .idle, stopped := true, fsm := .idle },
            some .stopped) := by
        simp [Timer.feed, h₁, nnTimerShutdown, h₂, nnAssert]
      refine ⟨_, step_feed hsrc hfeed hqueue,
        ⟨by rintro ⟨⟩, .stopped rfl rfl rfl htasks.symm rfl rfl rfl⟩, fun hlog => ?_⟩
      refine hlog.congr rfl (iff_of_false (by rintro ⟨⟩) ?_) ?_
      · rw [h₁]
        rintro ⟨⟩
      · rw [not_isidle_of_stopped rfl, not_isidle_of_fsm]
        rw [h₁]
        rintro ⟨⟩
  | stopped h₁ h₂ h₃ h₄ h₅ h₆ h₇ => cases todo_of_hand hsrc h₄

theorem TimerWorld.Inv.enter (h : w.Inv) {thread : CtxThread} (ha : w.Enabled (.enter thread)) :
    ∃ w', w.step (.enter thread) = .ok (w', ()) ∧ w'.Inv ∧ (w.Logged → w'.Logged) := by
  obtain ⟨hqueue, -⟩ := h.free ha.1
  refine ⟨_, rfl, ⟨nofun, ?_⟩, fun hlog => hlog.congr rfl Iff.rfl rfl⟩
  exact h.phase.congr rfl rfl rfl rfl rfl rfl rfl fun hne => absurd hqueue hne

theorem TimerWorld.Inv.leave (h : w.Inv) (ha : w.Enabled .leave) :
    ∃ w', w.step .leave = .ok (w', ()) ∧ w'.Inv ∧ (w.Logged → w'.Logged) := by
  refine ⟨_, rfl, ⟨fun _ => ⟨ha.2, rfl⟩, ?_⟩, fun hlog => hlog.congr rfl Iff.rfl rfl⟩
  exact h.phase.congr rfl rfl rfl rfl rfl rfl rfl fun hne => absurd ha.2 hne

theorem TimerWorld.Inv.raise (h : w.Inv) (ha : w.Enabled .raise) :
    ∃ w', w.step .raise = .ok (w', ()) ∧ w'.Inv ∧ (w.Logged → w'.Logged) := by
  have hrunning : w.running = true := ha
  refine ⟨_, rfl, ⟨fun hfree => ?_, ?_⟩, fun hlog => hlog.congr rfl Iff.rfl rfl⟩
  · cases hrunning.symm.trans (h.free hfree).2
  cases h.phase with
  | idle h₁ h₂ h₃ h₄ h₅ h₆ => exact .idle h₁ h₂ h₃ h₄ h₅ h₆.append_other
  | active h₁ h₂ h₃ h₄ =>
    refine .active h₁ h₂ h₃ ?_
    cases h₄ with
    | queued h₄ h₅ h₆ h₇ => exact .queued h₄ h₅ h₆ h₇.append_other
    | running h₄ h₅ h₆ => exact .running h₄ h₅ h₆.append_other
    | expired h₄ h₅ h₆ h₇ => exact .expired h₄ h₅ h₆ h₇.append_other
    | raised h₄ h₅ h₆ h₇ h₈ => cases hrunning.symm.trans h₈
  | stopping h₁ h₂ h₃ h₄ h₅ =>
    refine .stopping h₁ h₂ h₃ ?_ h₅.append_other
    cases h₄ with
    | unstarted h₄ h₆ => exact .unstarted h₄ h₆
    | expired h₄ h₆ => exact .expired h₄ h₆
    | last h₄ => exact .last h₄
  | stopped h₁ h₂ h₃ h₄ h₅ h₆ h₇ => cases hrunning.symm.trans h₇

/-- The last entry of a log is the one in question, or the rest of the log ends with it. -/
theorem append_eq_append_cons {l pre post : List TimerEntry} {e m : TimerEntry}
    (h : l ++ [e] = pre ++ m :: post) :
    pre = l ∧ m = e ∧ post = [] ∨ ∃ post', post = post' ++ [e] ∧ l = pre ++ m :: post' := by
  rcases List.eq_nil_or_concat post with rfl | ⟨post', x, rfl⟩
  · obtain ⟨rfl, hm⟩ := List.append_inj' h rfl
    exact Or.inl ⟨rfl, (List.cons.inj hm).1.symm, rfl⟩
  · have h' : l ++ [e] = (pre ++ m :: post') ++ [x] := by
      rw [h]
      simp
    obtain ⟨rfl, hx⟩ := List.append_inj' h' rfl
    cases hx
    exact Or.inr ⟨post', by simp, rfl⟩

theorem step_start {timeout : ℤ} {timer : Timer} (h : nnTimerStart w.timer timeout = .ok timer) :
    w.step (.start timeout) = .ok ({ w with timer, log := w.log ++ [.started] }, ()) := by
  rw [TimerWorld.step, h]
  rfl

theorem step_stop {timer : Timer} (h : nnTimerStop w.timer = .ok timer) :
    w.step .stop =
      .ok ({ w with timer, log := w.log ++ [.stopCalled !nnTimerIsidle w.timer] }, ()) := by
  rw [TimerWorld.step, h]
  rfl

theorem TimerWorld.Inv.start (h : w.Inv) {timeout : ℤ} (ha : w.Enabled (.start timeout)) :
    ∃ w', w.step (.start timeout) = .ok (w', ()) ∧ w'.Inv ∧ (w.Logged → w'.Logged) := by
  obtain ⟨hrunning, hidle, htimeout⟩ := ha
  cases h.phase with
  | idle h₁ h₂ h₃ h₄ h₅ h₆ =>
    have hstart : nnTimerStart w.timer timeout =
        .ok { w.timer with timeout := timeout, state := .active, tasks := w.timer.tasks ++ [.start],
                           fsm := .active } := by
      simp [nnTimerStart, htimeout, nnAssert, nnTimerIsidle, h₁, h₃, nnTimerHandler, h₂]
    refine ⟨_, step_start hstart, ⟨fun hfree => ?_, .active rfl rfl h₃ ?_⟩, fun hlog => ⟨?_, ?_⟩⟩
    · cases hrunning.symm.trans (h.free hfree).2
    · refine .queued ?_ h₅ htimeout h₆
      simp only [TimerWorld.todo, List.map_append] at h₄ ⊢
      rw [← List.append_assoc, h₄]
      rfl
    · intro pre busy post heq hstarted
      rcases append_eq_append_cons heq with ⟨-, hm, -⟩ | ⟨post', rfl, -⟩
      · cases hm
      · exact absurd (List.mem_append_right _ (List.mem_singleton_self _)) hstarted
    · intro armed hmem
      rcases List.mem_append.1 hmem with hmem | hmem
      · exact hlog.disarmed armed hmem
      · cases List.mem_singleton.1 hmem
  | active h₁ h₂ h₃ h₄ => simp [nnTimerIsidle, h₁] at hidle
  | stopping h₁ h₂ h₃ h₄ h₅ => simp [nnTimerIsidle, h₁] at hidle
  | stopped h₁ h₂ h₃ h₄ h₅ h₆ h₇ => simp [nnTimerIsidle, h₃] at hidle

/-- The owner calls `nn_timer_stop`, after which the timer is not active. -/
theorem TimerWorld.Logged.stopCalled {w' : TimerWorld} (h : w.Logged)
    (hlog : w'.log = w.log ++ [.stopCalled !nnTimerIsidle w.timer]) (hfsm : w'.timer.fsm ≠ .active)
    (hidle : nnTimerIsidle w'.timer = nnTimerIsidle w.timer) : w'.Logged := by
  constructor
  · intro pre busy post heq hstarted
    rw [hlog] at heq
    rcases append_eq_append_cons heq with ⟨-, hm, rfl⟩ | ⟨post', rfl, hold⟩
    · cases hm
      rw [hidle]
      cases nnTimerIsidle w.timer <;> simp [hfsm]
    · obtain ⟨htimeout, hcount, -, hbusy⟩ :=
        h.stop pre busy post' hold fun hmem => hstarted (List.mem_append_left _ hmem)
      refine ⟨?_, ?_, hfsm, hidle.symm ▸ hbusy⟩
      · intro hmem
        rcases List.mem_append.1 hmem with hmem | hmem
        · exact htimeout hmem
        · cases List.mem_singleton.1 hmem
      · rw [List.count_append, hcount, hidle]
        rfl
  · intro armed hmem
    rw [hlog] at hmem
    rcases List.mem_append.1 hmem with hmem | hmem
    · exact h.disarmed armed hmem
    · cases List.mem_singleton.1 hmem

theorem TimerWorld.Inv.stop (h : w.Inv) (ha : w.Enabled .stop) :
    ∃ w', w.step .stop = .ok (w', ()) ∧ w'.Inv ∧ (w.Logged → w'.Logged) := by
  have hrunning : w.running = true := ha
  have hfree : ∀ {P : Prop}, w.inside = none → P := fun hfree =>
    Bool.noConfusion (hrunning.symm.trans (h.free hfree).2)
  cases h.phase with
  | idle h₁ h₂ h₃ h₄ h₅ h₆ =>
    have hstop : nnTimerStop w.timer = .ok w.timer := by simp [nnTimerStop, h₁]
    refine ⟨_, step_stop hstop, ⟨hfree, .idle h₁ h₂ h₃ h₄ h₅ h₆⟩, fun hlog => ?_⟩
    exact hlog.stopCalled rfl (by rw [h₁]; rintro ⟨⟩) rfl
  | active h₁ h₂ h₃ h₄ =>
    have hstop : nnTimerStop w.timer =
        .ok { w.timer with fsm := .stopping, state := .stopping,
                           tasks := w.timer.tasks ++ [.stop] } := by
      simp [nnTimerStop, nnTimerShutdown, h₁]
    have htodo : ∀ todo, w.todo = todo → (w.hand.toList ++
        (w.timer.tasks ++ [TimerTask.stop]).map TimerInput.task) = todo ++ [.task .stop] := by
      intro todo htodo
      rw [List.map_append, ← List.append_assoc, ← htodo]
      rfl
    refine ⟨_, step_stop hstop, ⟨hfree, ?_⟩, fun hlog => ?_⟩
    · cases h₄ with
      | queued h₄ h₅ h₆ h₇ => exact .stopping rfl rfl h₃ (.unstarted (htodo _ h₄) h₅) h₇
      | running h₄ h₅ h₆ => exact .stopping rfl rfl h₃ (.last (htodo _ h₄)) h₆
      | expired h₄ h₅ h₆ h₇ => exact .stopping rfl rfl h₃ (.expired (htodo _ h₄) h₅) h₇
      | raised h₄ h₅ h₆ h₇ h₈ => cases hrunning.symm.trans h₈
    · have hbefore : nnTimerIsidle w.timer = false := not_isidle_of_fsm (by rw [h₁]; rintro ⟨⟩)
      refine hlog.stopCalled rfl (by rintro ⟨⟩) (Eq.trans ?_ hbefore.symm)
      exact not_isidle_of_fsm (by rintro ⟨⟩)
  | stopping h₁ h₂ h₃ h₄ h₅ =>
    have hstop : nnTimerStop w.timer = .ok w.timer := by simp [nnTimerStop, h₁]
    refine ⟨_, step_stop hstop, ⟨hfree, .stopping h₁ h₂ h₃ ?_ h₅⟩, fun hlog => ?_⟩
    · cases h₄ with
      | unstarted h₄ h₆ => exact .unstarted h₄ h₆
      | expired h₄ h₆ => exact .expired h₄ h₆
      | last h₄ => exact .last h₄
    · exact hlog.stopCalled rfl (by rw [h₁]; rintro ⟨⟩) rfl
  | stopped h₁ h₂ h₃ h₄ h₅ h₆ h₇ => cases hrunning.symm.trans h₇

/-- The owner gets `TIMEOUT` from an active timer. -/
theorem TimerWorld.Logged.timeout {w' : TimerWorld} (h : w.Logged)
    (hlog : w'.log = w.log ++ [.timeout]) (hfsm : w.timer.fsm = .active) : w'.Logged := by
  constructor
  · intro pre busy post heq hstarted
    rw [hlog] at heq
    rcases append_eq_append_cons heq with ⟨-, hm, -⟩ | ⟨post', rfl, hold⟩
    · cases hm
    · obtain ⟨-, -, hactive, -⟩ :=
        h.stop pre busy post' hold fun hmem => hstarted (List.mem_append_left _ hmem)
      exact absurd hfsm hactive
  · intro armed hmem
    rw [hlog] at hmem
    rcases List.mem_append.1 hmem with hmem | hmem
    · exact h.disarmed armed hmem
    · cases List.mem_singleton.1 hmem

/-- The owner gets `STOPPED`, and the timer becomes idle. -/
theorem TimerWorld.Logged.stopped {w' : TimerWorld} (h : w.Logged)
    (hlog : w'.log = w.log ++ [.stopped false]) (hidle : nnTimerIsidle w.timer = false)
    (hfsm : w'.timer.fsm = .idle) (hstopped : w'.timer.stopped = false) :
    w'.Logged := by
  constructor
  · intro pre busy post heq hstarted
    rw [hlog] at heq
    rcases append_eq_append_cons heq with ⟨-, hm, -⟩ | ⟨post', rfl, hold⟩
    · cases hm
    · obtain ⟨htimeout, hcount, -, hbusy⟩ :=
        h.stop pre busy post' hold fun hmem => hstarted (List.mem_append_left _ hmem)
      have hbusy : busy = true := by
        cases busy with
        | true => rfl
        | false => cases hidle.symm.trans (hbusy rfl)
      subst hbusy
      rw [hidle] at hcount
      refine ⟨?_, ?_, hfsm ▸ nofun, fun _ => isidle_of hfsm hstopped⟩
      · intro hmem
        rcases List.mem_append.1 hmem with hmem | hmem
        · exact htimeout hmem
        · cases List.mem_singleton.1 hmem
      · rw [List.count_append, hcount, isidle_of hfsm hstopped]
        rfl
  · intro armed hmem
    rw [hlog] at hmem
    rcases List.mem_append.1 hmem with hmem | hmem
    · exact h.disarmed armed hmem
    · cases List.mem_singleton.1 hmem
      rfl

theorem TimerWorld.Inv.deliver (h : w.Inv) (ha : w.Enabled .deliver) :
    ∃ w', w.step .deliver = .ok (w', ()) ∧ w'.Inv ∧ (w.Logged → w'.Logged) := by
  obtain ⟨hinside, hne⟩ := ha
  refine ⟨_, rfl, ?_⟩
  obtain ⟨e, queue, heq⟩ := List.exists_cons_of_ne_nil hne
  -- an event of another object is at the head, and the timer has none
  have hother : QuietQueue w.queue → e = .other := by
    intro hquiet
    cases e with
    | other => rfl
    | timer e => exact absurd (heq ▸ List.mem_cons_self) (hquiet e)
  have htail : QuietQueue w.queue → QuietQueue queue := fun hquiet =>
    (heq ▸ hquiet : QuietQueue (e :: queue)).tail
  have hdeliver : e = .other → w.deliver = { w with queue, running := true } := by
    rintro rfl
    rw [TimerWorld.deliver, heq]
  cases h.phase with
  | idle h₁ h₂ h₃ h₄ h₅ h₆ =>
    rw [hdeliver (hother h₆)]
    refine ⟨⟨fun hfree => absurd hfree hinside, .idle h₁ h₂ h₃ h₄ h₅ (htail h₆)⟩, ?_⟩
    exact fun hlog => hlog.congr rfl Iff.rfl rfl
  | active h₁ h₂ h₃ h₄ =>
    cases h₄ with
    | queued h₄ h₅ h₆ h₇ =>
      rw [hdeliver (hother h₇)]
      refine ⟨⟨fun hfree => absurd hfree hinside, .active h₁ h₂ h₃ (.queued h₄ h₅ h₆ (htail h₇))⟩,
        ?_⟩
      exact fun hlog => hlog.congr rfl Iff.rfl rfl
    | running h₄ h₅ h₆ =>
      rw [hdeliver (hother h₆)]
      refine ⟨⟨fun hfree => absurd hfree hinside, .active h₁ h₂ h₃ (.running h₄ h₅ (htail h₆))⟩, ?_⟩
      exact fun hlog => hlog.congr rfl Iff.rfl rfl
    | expired h₄ h₅ h₆ h₇ =>
      rw [hdeliver (hother h₇)]
      refine ⟨⟨fun hfree => absurd hfree hinside, .active h₁ h₂ h₃ (.expired h₄ h₅ h₆ (htail h₇))⟩,
        ?_⟩
      exact fun hlog => hlog.congr rfl Iff.rfl rfl
    | raised h₄ h₅ h₆ h₇ h₈ =>
      have hdel :
          w.deliver = { w with queue := [], running := true, log := w.log ++ [.timeout] } := by
        rw [TimerWorld.deliver, h₇]
      rw [hdel]
      refine ⟨⟨fun hfree => absurd hfree hinside, .active h₁ h₂ h₃ (.running h₄ h₆ quietQueue_nil)⟩,
        ?_⟩
      exact fun hlog => hlog.timeout rfl h₁
  | stopping h₁ h₂ h₃ h₄ h₅ =>
    rw [hdeliver (hother h₅)]
    refine ⟨⟨fun hfree => absurd hfree hinside, .stopping h₁ h₂ h₃ ?_ (htail h₅)⟩, ?_⟩
    · cases h₄ with
      | unstarted h₄ h₆ => exact .unstarted h₄ h₆
      | expired h₄ h₆ => exact .expired h₄ h₆
      | last h₄ => exact .last h₄
    · exact fun hlog => hlog.congr rfl Iff.rfl rfl
  | stopped h₁ h₂ h₃ h₄ h₅ h₆ h₇ =>
    have hdel : w.deliver = { w with queue := [], running := true, timer := w.timer.popped,
                                     log := w.log ++ [.stopped false] } := by
      rw [TimerWorld.deliver, h₆]
      dsimp only
      rw [h₅]
    rw [hdel]
    refine ⟨⟨fun hfree => absurd hfree hinside, .idle h₁ h₂ rfl h₄ h₅ quietQueue_nil⟩, ?_⟩
    exact fun hlog => hlog.stopped rfl (not_isidle_of_stopped h₃) h₁ rfl

/-- Every action that a thread can do succeeds and keeps the invariant. -/
theorem TimerWorld.Inv.step (h : w.Inv) {a : TimerAction} (ha : w.Enabled a) :
    ∃ w', w.step a = .ok (w', ()) ∧ w'.Inv ∧ (w.Logged → w'.Logged) := by
  cases a with
  | takeTask => exact h.takeTask ha
  | takeExpired => exact h.takeExpired ha
  | feed => exact h.feed ha
  | enter thread => exact h.enter ha
  | start timeout => exact h.start ha
  | stop => exact h.stop ha
  | raise => exact h.raise ha
  | deliver => exact h.deliver ha
  | leave => exact h.leave ha

/-- No task is queued twice. -/
theorem TimerWorld.Phase.tasks_nodup (h : w.Phase) : w.timer.tasks.Nodup := by
  have hsub : ∀ todo, w.todo = todo → todo.Nodup → w.timer.tasks.Nodup := by
    rintro todo rfl hnodup
    exact (List.nodup_append.1 hnodup).2.1.of_map _
  cases h with
  | idle h₁ h₂ h₃ h₄ h₅ h₆ => exact hsub _ h₄ List.nodup_nil
  | active h₁ h₂ h₃ h₄ =>
    cases h₄ with
    | queued h₄ h₅ h₆ h₇ => exact hsub _ h₄ (List.nodup_singleton _)
    | running h₄ h₅ h₆ => exact hsub _ h₄ List.nodup_nil
    | expired h₄ h₅ h₆ h₇ => exact hsub _ h₄ (List.nodup_singleton _)
    | raised h₄ h₅ h₆ h₇ h₈ => exact hsub _ h₄ List.nodup_nil
  | stopping h₁ h₂ h₃ h₄ h₅ =>
    cases h₄ with
    | unstarted h₄ h₆ => exact hsub _ h₄ (by decide)
    | expired h₄ h₆ => exact hsub _ h₄ (by decide)
    | last h₄ => exact hsub _ h₄ (List.nodup_singleton _)
  | stopped h₁ h₂ h₃ h₄ h₅ h₆ h₇ => exact hsub _ h₄ List.nodup_nil

/-- A timer that is not active, with nothing left to do, is idle. -/
theorem TimerWorld.Phase.isidle (h : w.Phase) (hfsm : w.timer.fsm ≠ .active) (htodo : w.todo = [])
    (hqueue : w.queue = []) : nnTimerIsidle w.timer = true := by
  cases h with
  | idle h₁ h₂ h₃ h₄ h₅ h₆ => exact isidle_of h₁ h₃
  | active h₁ h₂ h₃ h₄ => exact absurd h₁ hfsm
  | stopping h₁ h₂ h₃ h₄ h₅ =>
    cases h₄ with
    | unstarted h₄ h₆ => cases htodo.symm.trans h₄
    | expired h₄ h₆ => cases htodo.symm.trans h₄
    | last h₄ => cases htodo.symm.trans h₄
  | stopped h₁ h₂ h₃ h₄ h₅ h₆ h₇ => cases hqueue.symm.trans h₆

end Step

theorem timerWorld_inv {as : List TimerAction} {w : TimerWorld}
    (h : Trace TimerWorld.step TimerWorld.Enabled .init as w) : w.Inv ∧ w.Logged := by
  have hinit : TimerWorld.init.Inv :=
    ⟨fun _ => ⟨rfl, rfl⟩, .idle rfl rfl rfl rfl rfl quietQueue_nil⟩
  have hlog : TimerWorld.init.Logged := by
    refine ⟨fun pre busy post heq => ?_, nofun⟩
    cases (List.append_eq_nil_iff.1 heq.symm).2
  apply h.invariant_of_step (I := fun _ w => w.Inv ∧ w.Logged) ⟨hinit, hlog⟩
  intro _ w a hw ha
  obtain ⟨w', heq, hinv, hlogged⟩ := hw.1.step ha
  exact ⟨w', (), heq, hinv, hlogged hw.2⟩

/-- In every run nothing fails, and no task is queued twice.  After `nn_timer_stop` was called, and
until the timer is started again, the owner gets no `TIMEOUT`; it gets `STOPPED` once if the timer
was not idle, when the timer becomes idle, and this is so as soon as the worker and the context have
nothing left to do.  A timer that reports `STOPPED` is not in the worker's timer set. -/
theorem timer_protocol (as : List TimerAction) (w : TimerWorld)
    (h : Trace TimerWorld.step TimerWorld.Enabled .init as w) :
    (∀ a, w.Enabled a → ∃ w', w.step a = .ok (w', ())) ∧ w.timer.tasks.Nodup ∧
      (∀ pre busy post, w.log = pre ++ .stopCalled busy :: post → .started ∉ post →
        .timeout ∉ post ∧
          post.count (.stopped false) = (if busy && nnTimerIsidle w.timer then 1 else 0) ∧
          (w.hand = none → w.timer.tasks = [] → w.queue = [] → nnTimerIsidle w.timer = true)) ∧
      ∀ armed, .stopped armed ∈ w.log → armed = false := by
  obtain ⟨hinv, hlogged⟩ := timerWorld_inv h
  refine ⟨fun a ha => ?_, hinv.phase.tasks_nodup, fun pre busy post heq hstarted => ?_,
    hlogged.disarmed⟩
  · obtain ⟨w', heq, -⟩ := hinv.step ha
    exact ⟨w', heq⟩
  · obtain ⟨htimeout, hcount, hfsm, -⟩ := hlogged.stop pre busy post heq hstarted
    refine ⟨htimeout, hcount, fun hhand htasks hqueue => hinv.phase.isidle hfsm ?_ hqueue⟩
    rw [todo_of_no_hand hhand, htasks]
    rfl

/-- The timer expires in the worker's hand while a user thread stops it. -/
theorem timer_protocol_expired : ∃ w, Trace TimerWorld.step TimerWorld.Enabled .init
      [.enter .user, .start 10, .leave, .takeTask, .feed, .leave, .takeExpired, .enter .user, .stop,
        .stop, .leave, .feed, .leave, .takeTask, .feed, .deliver, .leave] w ∧
    w.log = [.started, .stopCalled true, .stopCalled true, .stopped false] ∧
    TimerEntry.timeout ∉ [TimerEntry.stopCalled true, .stopped false] := by
  obtain ⟨w, hrun, hlog⟩ : ∃ w, Trace TimerWorld.step TimerWorld.Enabled .init
      [.enter .user, .start 10, .leave, .takeTask, .feed, .leave, .takeExpired, .enter .user, .stop,
        .stop, .leave, .feed, .leave, .takeTask, .feed, .deliver, .leave] w ∧
      w.log = [.started, .stopCalled true, .stopCalled true, .stopped false] :=
    Trace.exists_of_runWhile (by decide)
  exact ⟨w, hrun, hlog, ((timer_protocol _ w hrun).2.2.1 [.started] true _ hlog (by decide)).1⟩

end NanoSocket

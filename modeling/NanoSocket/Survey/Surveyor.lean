import NanoSocket.Core.Timer
import NanoSocket.Survey.Xsurveyor

/-!
# SURVEYOR sockets (`protocols/survey/surveyor.c`)

A SURVEYOR socket keeps one survey at a time.  A survey is sent to all respondents and is open until
its deadline; a new survey replaces an open one, but has to wait until the timer of the old one has
stopped.

`Surveyor` is the socket object, `nnSurveyorHandler` its state machine with every transition,
`Sock.step` what can happen to the socket and `Enabled` when the rest of the library lets it happen.
-/

namespace NanoSocket.Survey

variable {P : Type} [DecidableEq P]

/-- `NN_SURVEYOR_STATE_*`. -/
inductive SurveyorState
  | idle
  | passive
  | active
  | cancelling
  | stoppingTimer
  | stopping
  deriving DecidableEq, Repr

/-- `NN_FSM_START`, `NN_FSM_STOP` and `NN_SURVEYOR_ACTION_*`. -/
inductive SurveyorAction
  | fsmStart
  | fsmStop
  | start
  | cancel
  deriving DecidableEq, Repr

/-- What is fed to the state machine: the source `NN_FSM_ACTION` or
`NN_SURVEYOR_SRC_DEADLINE_TIMER`. -/
inductive SurveyorInput
  | action (a : SurveyorAction)
  | deadlineTimer (e : TimerEvent)
  deriving DecidableEq, Repr

/-- `struct nn_surveyor`. -/
structure Surveyor (P : Type) where
  xsurveyor : Xsurveyor P
  fsm : FsmState
  state : SurveyorState
  surveyid : UInt32
  timer : Timer
  tosend : Msg
  deadline : ℤ
  timedout : Bool

/-- `nn_surveyor_init`: the random number `surveyid` is arbitrary. -/
def nnSurveyorInit (surveyid : UInt32) : Surveyor P :=
  { xsurveyor := .init, fsm := .active, state := .passive, surveyid := surveyid, timer := .init,
    tosend := .init, deadline := 1000, timedout := false }

/-- `nn_surveyor_inprogress`. -/
def nnSurveyorInprogress (self : Surveyor P) : Bool :=
  !(self.state = .idle || self.state = .passive || self.state = .stopping)

/-- `nn_surveyor_resend`. -/
def nnSurveyorResend (self : Surveyor P) (sync : P → Bool) : Except Fault (Surveyor P) :=
  return { self with xsurveyor := ← nnXsurveyorSend self.xsurveyor self.tosend sync }

/-- The survey is sent and its deadline starts to run. -/
def Surveyor.open (self : Surveyor P) (sync : P → Bool) : Except Fault (Surveyor P) := do
  let self ← nnSurveyorResend self sync
  let timer ← nnTimerStart self.timer self.deadline
  return { self with timer := timer, state := .active }

/-- `nn_surveyor_handler`. -/
def nnSurveyorHandler (surveyor : Surveyor P) (sync : P → Bool) (src : SurveyorInput) :
    Except Fault (Surveyor P) :=
  match surveyor.state with
  | .idle =>
    match src with
    | .action .fsmStart => .ok { surveyor with state := .passive }
    | .action _ => .error .badAction
    | _ => .error .badSource
  | .passive =>
    match src with
    | .action .start => surveyor.open sync
    | .action _ => .error .badAction
    | _ => .error .badSource
  | .active =>
    match src with
    | .action .cancel => do
      let timer ← nnTimerStop surveyor.timer
      return { surveyor with timer := timer, state := .cancelling }
    | .action _ => .error .badAction
    | .deadlineTimer .timeout => do
      let timer ← nnTimerStop surveyor.timer
      return { surveyor with timer := timer, state := .stoppingTimer, timedout := true }
    | .deadlineTimer _ => .error .badAction
  | .cancelling =>
    match src with
    | .action .cancel => .ok surveyor
    | .action _ => .error .badAction
    | .deadlineTimer .stopped => surveyor.open sync
    | .deadlineTimer _ => .error .badAction
  | .stoppingTimer =>
    match src with
    | .action .cancel => .ok { surveyor with state := .cancelling }
    | .action _ => .error .badAction
    | .deadlineTimer .stopped => .ok { surveyor with state := .passive }
    | .deadlineTimer _ => .error .badAction
  | .stopping => .error .badState

/-- `nn_surveyor_shutdown`; the flag says that `nn_sockbase_stopped` was called. -/
def nnSurveyorShutdown (surveyor : Surveyor P) (src : SurveyorInput) :
    Except Fault (Surveyor P × Bool) := do
  let surveyor ← if src = .action .fsmStop then do
      let timer ← nnTimerStop surveyor.timer
      pure { surveyor with timer := timer, state := .stopping }
    else pure surveyor
  if surveyor.state = .stopping then
    if !nnTimerIsidle surveyor.timer then return (surveyor, false)
    nnAssert (surveyor.fsm = .stopping)
    return ({ surveyor with state := .idle, fsm := .idle }, true)
  else throw .badState

/-- `nn_fsm_feed`. -/
def Surveyor.feed (surveyor : Surveyor P) (sync : P → Bool) (src : SurveyorInput) :
    Except Fault (Surveyor P × Bool) :=
  if surveyor.fsm ≠ .stopping then return (← nnSurveyorHandler surveyor sync src, false)
  else nnSurveyorShutdown surveyor src

/-- `nn_surveyor_stop`. -/
def nnSurveyorStop (surveyor : Surveyor P) : Except Fault (Surveyor P × Bool) :=
  if surveyor.fsm ≠ .active then .ok (surveyor, false)
  else nnSurveyorShutdown { surveyor with fsm := .stopping } (.action .fsmStop)

/-- `nn_surveyor_send`: `none` or an error code. -/
def nnSurveyorSend (surveyor : Surveyor P) (msg : Msg) (sync : P → Bool) :
    Except Fault (Option Errno × Surveyor P × Bool) := do
  -- generate new survey ID
  let surveyor := { surveyor with surveyid := (surveyor.surveyid + 1) ||| 0x80000000 }
  -- tag the survey body with survey ID
  nnAssert (msg.sphdr = [])
  let msg := { msg with sphdr := nnPutl surveyor.surveyid }
  -- store the survey, so that it can be sent later on
  let surveyor := { surveyor with tosend := msg }
  if nnSurveyorInprogress surveyor then
    -- first check whether the survey can be sent at all
    if !(nnXsurveyorEvents surveyor.xsurveyor).1 then return (some .eagain, surveyor, false)
    -- cancel the current survey
    return (none, ← surveyor.feed sync (.action .cancel))
  -- notify the state machine that the survey was started
  return (none, ← surveyor.feed sync (.action .start))

/-- The loop of `nn_surveyor_recv`.  Each turn takes one message, so that the messages at hand bound
the number of turns. -/
def nnSurveyorRecvLoop : ℕ → Surveyor P → Except Fault (Except Errno Msg × Surveyor P)
  | 0, _ => .error .diverged
  | fuel + 1, surveyor => do
    -- get next response
    let (got, xsurveyor) ← nnXsurveyorRecv surveyor.xsurveyor
    let surveyor := { surveyor with xsurveyor := xsurveyor }
    match got with
    | .msg msg =>
      -- get the survey ID, ignore any stale responses
      if msg.sphdr.length ≠ 4 then nnSurveyorRecvLoop fuel surveyor
      else
        let surveyid ← nnGetl msg.sphdr
        if surveyid ≠ surveyor.surveyid then nnSurveyorRecvLoop fuel surveyor
        -- discard the header and return the message to the user
        else return (.ok { msg with sphdr := [] }, surveyor)
    | _ => return (.error .eagain, surveyor)

/-- `nn_surveyor_recv`: the message, or an error code. -/
def nnSurveyorRecv (surveyor : Surveyor P) : Except Fault (Except Errno Msg × Surveyor P) :=
  -- if no survey is going on return EFSM error
  if !nnSurveyorInprogress surveyor then
    if surveyor.timedout then .ok (.error .etimedout, { surveyor with timedout := false })
    else .ok (.error .efsm, surveyor)
  else nnSurveyorRecvLoop (pending surveyor.xsurveyor.inpipes surveyor.xsurveyor.pipes + 1) surveyor

/-! ### What can happen to a socket -/

/-- A SURVEYOR socket with the state of its `nn_sock`. -/
structure Sock (P : Type) where
  state : SockState
  surveyor : Surveyor P

/-- The events. Where the state machine may send, `sync` is the transports' way to complete it. -/
inductive Event (P : Type)
  | add (p : P) (rcvprio : Fin 16)
  | rm (p : P)
  | arrive (p : P) (m : Inbound)
  | sent (p : P)
  | pipeIn (p : P)
  | pipeOut (p : P)
  | send (msg : Msg) (sync : P → Bool)
  | recv
  | setDeadline (deadline : ℤ)
  | runTask (sync : P → Bool)
  | expire
  | close
  | stop

/-- The state machine has returned; it may have stopped the socket. -/
def Sock.put (s : Sock P) (r : Surveyor P × Bool) : Sock P :=
  { state := if r.2 then .fini else s.state, surveyor := r.1 }

/-- Replace an attached pipe. -/
def Sock.setPipe (s : Sock P) (p : P) (pipe : Pipe) : Sock P :=
  { s with surveyor.xsurveyor.pipes := Function.update s.surveyor.xsurveyor.pipes p (some pipe) }

/-- The timer raised an event, which is delivered at once. -/
def Sock.timerEvent (s : Sock P) (sync : P → Bool) (r : Timer × Option TimerEvent) :
    Except Fault (Sock P) :=
  match r.2 with
  | none => .ok { s with surveyor.timer := r.1 }
  | some e => do
    let surveyor := { s.surveyor with timer := r.1.popped }
    return s.put (← surveyor.feed sync (.deadlineTimer e))

/-- An event happens. -/
def Sock.step (s : Sock P) : Event P → Except Fault (Sock P × Answer)
  | .add p rcvprio =>
    .ok ({ s with surveyor.xsurveyor := nnXsurveyorAdd s.surveyor.xsurveyor p rcvprio }, .none)
  | .rm p => .ok ({ s with surveyor.xsurveyor := nnXsurveyorRm s.surveyor.xsurveyor p }, .none)
  | .arrive p m =>
    match s.surveyor.xsurveyor.pipes p with
    | none => .error .nullDeref
    | some pipe => do return (s.setPipe p (← pipe.arrive m), .none)
  | .sent p =>
    match s.surveyor.xsurveyor.pipes p with
    | none => .error .nullDeref
    | some pipe => do return (s.setPipe p (← nnPipebaseSent pipe), .none)
  | .pipeIn p =>
    match s.surveyor.xsurveyor.pipes p with
    | none => .error .nullDeref
    | some pipe => do
      let s := s.setPipe p { pipe with inRaised := false }
      -- `nn_sock_shutdown` ignores the events of pipes
      if s.state ≠ .active then return (s, .none)
      return ({ s with surveyor.xsurveyor := ← nnXsurveyorIn s.surveyor.xsurveyor p }, .none)
  | .pipeOut p =>
    match s.surveyor.xsurveyor.pipes p with
    | none => .error .nullDeref
    | some pipe => do
      let s := s.setPipe p { pipe with outRaised := false }
      if s.state ≠ .active then return (s, .none)
      return ({ s with surveyor.xsurveyor := ← nnXsurveyorOut s.surveyor.xsurveyor p }, .none)
  | .send msg sync =>
    if s.state ≠ .active then .ok (s, .code (some .ebadf))
    else do
      let (rc, r) ← nnSurveyorSend s.surveyor msg sync
      return (s.put r, .code rc)
  | .recv =>
    if s.state ≠ .active then .ok (s, .code (some .ebadf))
    else do
      let (r, surveyor) ← nnSurveyorRecv s.surveyor
      match r with
      | .error e => return ({ s with surveyor := surveyor }, .code (some e))
      | .ok msg => return ({ s with surveyor := surveyor }, .recv (some msg))
  | .setDeadline deadline => .ok ({ s with surveyor.deadline := deadline }, .code none)
  | .runTask sync => do return (← s.timerEvent sync (← s.surveyor.timer.runTask), .none)
  | .expire => do return (← s.timerEvent (fun _ => true) (← s.surveyor.timer.expire), .none)
  | .close => .ok ({ s with state := .stoppingEps }, .none)
  | .stop => do
    let s := { s with state := .stopping }
    return (s.put (← nnSurveyorStop s.surveyor), .none)

/-- When an event can happen.  Deadlines are not negative, and `nn_sock` stops the protocol after
all pipes were removed. -/
def Enabled (s : Sock P) : Event P → Prop
  | .add p _ => s.surveyor.xsurveyor.pipes p = none ∧ (s.state = .active ∨ s.state = .stoppingEps)
  | .rm p => (s.surveyor.xsurveyor.pipes p).isSome
  | .arrive p m => (s.surveyor.xsurveyor.pipes p).isSome ∧ m.Wf
  | .sent p => ∃ pipe, s.surveyor.xsurveyor.pipes p = some pipe ∧ pipe.outstate = .async
  | .pipeIn p => ∃ pipe, s.surveyor.xsurveyor.pipes p = some pipe ∧ pipe.inRaised = true
  | .pipeOut p => ∃ pipe, s.surveyor.xsurveyor.pipes p = some pipe ∧ pipe.outRaised = true
  | .setDeadline deadline => 0 ≤ deadline
  | .close => s.state = .active
  | .stop => s.state = .stoppingEps ∧ ∀ p, s.surveyor.xsurveyor.pipes p = none
  | .send _ _ | .recv | .runTask _ | .expire => True

instance [Fintype P] (s : Sock P) (e : Event P) : Decidable (Enabled s e) :=
  match e with
  | .add _ _ => inferInstanceAs (Decidable (_ ∧ _))
  | .rm _ => inferInstanceAs (Decidable (_ = true))
  | .arrive _ _ => inferInstanceAs (Decidable (_ ∧ _))
  | .sent p =>
    decidable_of_iff (∃ pipe ∈ s.surveyor.xsurveyor.pipes p, pipe.outstate = .async) Iff.rfl
  | .pipeIn p =>
    decidable_of_iff (∃ pipe ∈ s.surveyor.xsurveyor.pipes p, pipe.inRaised = true) Iff.rfl
  | .pipeOut p =>
    decidable_of_iff (∃ pipe ∈ s.surveyor.xsurveyor.pipes p, pipe.outRaised = true) Iff.rfl
  | .setDeadline _ => inferInstanceAs (Decidable (_ ≤ _))
  | .close => inferInstanceAs (Decidable (_ = _))
  | .stop => inferInstanceAs (Decidable (_ ∧ _))
  | .send _ _ | .recv | .runTask _ | .expire => inferInstanceAs (Decidable True)

/-- A socket fresh from `nn_socket`. -/
def Sock.init (surveyid : UInt32) : Sock P :=
  { state := .active, surveyor := nnSurveyorInit surveyid }

end NanoSocket.Survey

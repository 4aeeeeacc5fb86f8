import NanoSocket.Core.Timer
import NanoSocket.ReqRep.Xreq

/-!
# REQ sockets (`protocols/reqrep/req.c`)

A REQ socket keeps one request at a time.  Its state machine sends the request, waits for the reply
with a timer for re-sending, and stops the timer before it goes on, since a timer stops
asynchronously.

`Req` is the socket object, `nnReqHandler` its state machine with every transition.  `Event` is what
can happen to the socket: calls of the user, events of the pipes, of the transports behind them and
of the timer's worker, and the two stages in which `nn_sock` shuts a socket down.  `Sock.step` makes
an event happen; `Enabled` says when the rest of the library lets it happen.
-/

namespace NanoSocket.ReqRep

variable {P : Type} [DecidableEq P]

/-- `NN_REQ_STATE_*`. -/
inductive ReqState
  | idle
  | passive
  | delayed
  | active
  | timedOut
  | cancelling
  | stoppingTimer
  | done
  | stopping
  deriving DecidableEq, Repr

/-- `NN_FSM_START`, `NN_FSM_STOP` and `NN_REQ_ACTION_*`. -/
inductive ReqAction
  | fsmStart
  | fsmStop
  | pipeIn
  | pipeOut
  | sent
  | received
  | pipeRm
  deriving DecidableEq, Repr

/-- What is fed to the state machine: the source `NN_FSM_ACTION` or `NN_REQ_SRC_RESEND_TIMER`. -/
inductive ReqInput
  | action (a : ReqAction)
  | resendTimer (e : TimerEvent)
  deriving DecidableEq, Repr

/-- `struct nn_task`. The stored reply is `none` after `nn_msg_term`. -/
structure Task (P : Type) where
  id : UInt32
  request : Msg
  reply : Option Msg
  timer : Timer
  sentTo : Option P

/-- `struct nn_req`. -/
structure Req (P : Type) where
  fsm : FsmState
  state : ReqState
  xreq : Xreq P
  task : Task P
  resendIvl : ℤ

/-- `nn_req_init`: the random number `lastid` is arbitrary. -/
def nnReqInit (lastid : UInt32) : Req P :=
  { fsm := .active, state := .passive, xreq := .init
    task := { id := lastid, request := .init, reply := some .init, timer := .init, sentTo := none }
    resendIvl := 60000 }

/-- `nn_req_inprogress`. -/
def nnReqInprogress (self : Req P) : Bool :=
  !(self.state = .idle || self.state = .passive || self.state = .stopping)

/-- `nn_req_action_send`. -/
def nnReqActionSend (self : Req P) (allowDelay sync : Bool) : Except Fault (Req P) := do
  let (pipe, xreq) ← nnXreqSendTo self.xreq self.task.request sync
  match pipe with
  | none =>
    nnAssert (allowDelay = true)
    return { self with xreq := xreq, state := .delayed }
  | some pipe =>
    let timer ← nnTimerStart self.task.timer self.resendIvl
    return { self with xreq := xreq, task.timer := timer, task.sentTo := some pipe,
                       state := .active }

/-- The request is given up: stop the timer and forget the pipe. -/
def Req.giveUp (req : Req P) (state : ReqState) : Except Fault (Req P) := do
  let timer ← nnTimerStop req.task.timer
  return { req with task.timer := timer, task.sentTo := none, state := state }

/-- `nn_req_handler`. -/
def nnReqHandler (req : Req P) (sync : Bool) (src : ReqInput) : Except Fault (Req P) :=
  match req.state with
  | .idle =>
    match src with
    | .action .fsmStart => .ok { req with state := .passive }
    | .action _ => .error .badAction
    | _ => .error .badSource
  | .passive =>
    match src with
    | .action .sent => nnReqActionSend req true sync
    | .action _ => .error .badAction
    | _ => .error .badSource
  | .delayed =>
    match src with
    | .action .pipeOut => nnReqActionSend req false sync
    | .action .sent => .ok req
    | .action _ => .error .badAction
    | _ => .error .badSource
  | .active =>
    match src with
    -- reply arrived
    | .action .pipeIn => req.giveUp .stoppingTimer
    -- new request was sent while the old one was still being processed
    | .action .sent => req.giveUp .cancelling
    -- pipe that we sent request to is removed
    | .action .pipeRm => req.giveUp .timedOut
    | .action _ => .error .badAction
    | .resendTimer .timeout => req.giveUp .timedOut
    | .resendTimer _ => .error .badAction
  | .timedOut =>
    match src with
    | .resendTimer .stopped => nnReqActionSend req true sync
    | .resendTimer _ => .error .badAction
    | .action .sent => .ok { req with state := .cancelling }
    | .action _ => .error .badAction
  | .cancelling =>
    match src with
    | .resendTimer .stopped => nnReqActionSend req true sync
    | .resendTimer _ => .error .badAction
    | .action .sent => .ok req
    | .action _ => .error .badAction
  | .stoppingTimer =>
    match src with
    | .resendTimer .stopped => .ok { req with state := .done }
    | .resendTimer _ => .error .badAction
    | .action .sent => .ok { req with state := .cancelling }
    | .action _ => .error .badAction
  | .done =>
    match src with
    | .action .received => .ok { req with state := .passive }
    | .action .sent => nnReqActionSend req true sync
    | .action _ => .error .badAction
    | _ => .error .badSource
  | .stopping => .error .badState

/-- `nn_req_shutdown`; the flag says that `nn_sockbase_stopped` was called. -/
def nnReqShutdown (req : Req P) (src : ReqInput) : Except Fault (Req P × Bool) := do
  let req ← if src = .action .fsmStop then do
      let timer ← nnTimerStop req.task.timer
      pure { req with task.timer := timer, state := .stopping }
    else pure req
  if req.state = .stopping then
    if !nnTimerIsidle req.task.timer then return (req, false)
    nnAssert (req.fsm = .stopping)
    return ({ req with state := .idle, fsm := .idle }, true)
  else throw .badState

/-- `nn_fsm_feed`. -/
def Req.feed (req : Req P) (sync : Bool) (src : ReqInput) : Except Fault (Req P × Bool) :=
  if req.fsm ≠ .stopping then return (← nnReqHandler req sync src, false)
  else nnReqShutdown req src

/-- `nn_req_stop`. -/
def nnReqStop (req : Req P) : Except Fault (Req P × Bool) :=
  if req.fsm ≠ .active then .ok (req, false)
  else nnReqShutdown { req with fsm := .stopping } (.action .fsmStop)

/-- The loop of `nn_req_in`. Each turn takes one message, so that the messages at hand bound the
number of turns. -/
def nnReqInLoop : ℕ → Req P → Except Fault (Req P × Bool)
  | 0, _ => .error .diverged
  | fuel + 1, req => do
    -- get new reply
    let (got, xreq) ← nnXreqRecv req.xreq
    let req := { req with xreq := xreq }
    match got with
    | .empty => return (req, false)
    | .malformed => return ({ req with task.reply := none }, false)
    | .msg reply =>
      let drop := { req with task.reply := none }
      -- no request was sent: getting a reply doesn't make sense
      if !nnReqInprogress req then nnReqInLoop fuel drop
      -- ignore malformed replies
      else if reply.sphdr.length ≠ 4 then nnReqInLoop fuel drop
      else
        -- ignore replies with incorrect request IDs
        let reqid ← nnGetl reply.sphdr
        if reqid &&& 0x80000000 = 0 then nnReqInLoop fuel drop
        else if reqid ≠ (req.task.id ||| 0x80000000) then nnReqInLoop fuel drop
        else
          -- trim the request ID
          let req := { req with task.reply := some { reply with sphdr := [] } }
          if req.state = .active then req.feed true (.action .pipeIn)
          else return (req, false)

/-- `nn_req_in`. -/
def nnReqIn (req : Req P) (pipe : P) : Except Fault (Req P × Bool) := do
  let xreq ← nnXreqIn req.xreq pipe
  nnReqInLoop (pending xreq.fq xreq.pipes + 1) { req with xreq := xreq }

/-- `nn_req_out`. -/
def nnReqOut (req : Req P) (pipe : P) (sync : Bool) : Except Fault (Req P × Bool) := do
  let xreq ← nnXreqOut req.xreq pipe
  let req := { req with xreq := xreq }
  if req.state = .delayed then req.feed sync (.action .pipeOut) else return (req, false)

/-- `nn_req_rm`. -/
def nnReqRm (req : Req P) (pipe : P) : Except Fault (Req P × Bool) :=
  let req := { req with xreq := nnXreqRm req.xreq pipe }
  if req.task.sentTo = some pipe then req.feed true (.action .pipeRm) else .ok (req, false)

/-- `nn_req_csend`. -/
def nnReqCsend (req : Req P) (msg : Msg) (sync : Bool) : Except Fault (Req P × Bool) := do
  let req := { req with task.id := req.task.id + 1 }
  nnAssert (msg.sphdr = [])
  let msg := { msg with sphdr := nnPutl (req.task.id ||| 0x80000000) }
  Req.feed { req with task.request := msg } sync (.action .sent)

/-- `nn_req_crecv`: the message, or an error code. -/
def nnReqCrecv (req : Req P) : Except Fault (Except Errno (Option Msg) × Req P × Bool) :=
  if !nnReqInprogress req then .ok (.error .efsm, req, false)
  else if req.state ≠ .done then .ok (.error .eagain, req, false)
  else do
    let msg := req.task.reply
    let r ← Req.feed { req with task.reply := some .init } true (.action .received)
    return (.ok msg, r)

/-! ### What can happen to a socket -/

/-- A REQ socket with the state of its `nn_sock`. -/
structure Sock (P : Type) where
  state : SockState
  req : Req P

/-- The events. Where the state machine may send, `sync` is the transport's way to complete it. -/
inductive Event (P : Type)
  | add (p : P) (sndprio rcvprio : Fin 16)
  | rm (p : P)
  | arrive (p : P) (m : Inbound)
  | sent (p : P)
  | pipeIn (p : P)
  | pipeOut (p : P) (sync : Bool)
  | csend (msg : Msg) (sync : Bool)
  | crecv
  | setResendIvl (ivl : ℤ)
  | runTask (sync : Bool)
  | expire
  | close
  | stop

/-- The state machine has returned; it may have stopped the socket. -/
def Sock.put (s : Sock P) (r : Req P × Bool) : Sock P :=
  { state := if r.2 then .fini else s.state, req := r.1 }

/-- Replace an attached pipe. -/
def Sock.setPipe (s : Sock P) (p : P) (pipe : Pipe) : Sock P :=
  { s with req.xreq.pipes := Function.update s.req.xreq.pipes p (some pipe) }

/-- The timer raised an event, which is delivered at once. -/
def Sock.timerEvent (s : Sock P) (sync : Bool) (r : Timer × Option TimerEvent) :
    Except Fault (Sock P) :=
  match r.2 with
  | none => .ok { s with req.task.timer := r.1 }
  | some e => do
    let req := { s.req with task.timer := r.1.popped }
    return s.put (← req.feed sync (.resendTimer e))

/-- An event happens. -/
def Sock.step (s : Sock P) : Event P → Except Fault (Sock P × Answer)
  | .add p sndprio rcvprio =>
    .ok ({ s with req.xreq := nnXreqAdd s.req.xreq p sndprio rcvprio }, .none)
  | .rm p => do return (s.put (← nnReqRm s.req p), .none)
  | .arrive p m =>
    match s.req.xreq.pipes p with
    | none => .error .nullDeref
    | some pipe => do return (s.setPipe p (← pipe.arrive m), .none)
  | .sent p =>
    match s.req.xreq.pipes p with
    | none => .error .nullDeref
    | some pipe => do return (s.setPipe p (← nnPipebaseSent pipe), .none)
  | .pipeIn p =>
    match s.req.xreq.pipes p with
    | none => .error .nullDeref
    | some pipe => do
      let s := s.setPipe p { pipe with inRaised := false }
      -- `nn_sock_shutdown` ignores the events of pipes
      if s.state ≠ .active then return (s, .none)
      return (s.put (← nnReqIn s.req p), .none)
  | .pipeOut p sync =>
    match s.req.xreq.pipes p with
    | none => .error .nullDeref
    | some pipe => do
      let s := s.setPipe p { pipe with outRaised := false }
      if s.state ≠ .active then return (s, .none)
      return (s.put (← nnReqOut s.req p sync), .none)
  | .csend msg sync =>
    if s.state ≠ .active then .ok (s, .code (some .ebadf))
    else do return (s.put (← nnReqCsend s.req msg sync), .code none)
  | .crecv =>
    if s.state ≠ .active then .ok (s, .code (some .ebadf))
    else do
      let (r, req) ← nnReqCrecv s.req
      match r with
      | .error e => return (s.put req, .code (some e))
      | .ok msg => return (s.put req, .recv msg)
  | .setResendIvl ivl => .ok ({ s with req.resendIvl := ivl }, .code none)
  | .runTask sync => do return (← s.timerEvent sync (← s.req.task.timer.runTask), .none)
  | .expire => do return (← s.timerEvent true (← s.req.task.timer.expire), .none)
  | .close => .ok ({ s with state := .stoppingEps }, .none)
  | .stop => do
    let s := { s with state := .stopping }
    return (s.put (← nnReqStop s.req), .none)

/-- When an event can happen. Intervals are not negative, and `nn_sock` stops the protocol after all
pipes were removed. -/
def Enabled (s : Sock P) : Event P → Prop
  | .add p _ _ => s.req.xreq.pipes p = none ∧ (s.state = .active ∨ s.state = .stoppingEps)
  | .rm p => (s.req.xreq.pipes p).isSome
  | .arrive p m => (s.req.xreq.pipes p).isSome ∧ m.Wf
  | .sent p => ∃ pipe, s.req.xreq.pipes p = some pipe ∧ pipe.outstate = .async
  | .pipeIn p => ∃ pipe, s.req.xreq.pipes p = some pipe ∧ pipe.inRaised = true
  | .pipeOut p _ => ∃ pipe, s.req.xreq.pipes p = some pipe ∧ pipe.outRaised = true
  | .setResendIvl ivl => 0 ≤ ivl
  | .close => s.state = .active
  | .stop => s.state = .stoppingEps ∧ ∀ p, s.req.xreq.pipes p = none
  | .csend _ _ | .crecv | .runTask _ | .expire => True

instance [Fintype P] (s : Sock P) (e : Event P) : Decidable (Enabled s e) :=
  match e with
  | .add _ _ _ => inferInstanceAs (Decidable (_ ∧ _))
  | .rm _ => inferInstanceAs (Decidable (_ = true))
  | .arrive _ _ => inferInstanceAs (Decidable (_ ∧ _))
  | .sent p => decidable_of_iff (∃ pipe ∈ s.req.xreq.pipes p, pipe.outstate = .async) Iff.rfl
  | .pipeIn p => decidable_of_iff (∃ pipe ∈ s.req.xreq.pipes p, pipe.inRaised = true) Iff.rfl
  | .pipeOut p _ => decidable_of_iff (∃ pipe ∈ s.req.xreq.pipes p, pipe.outRaised = true) Iff.rfl
  | .setResendIvl _ => inferInstanceAs (Decidable (_ ≤ _))
  | .close => inferInstanceAs (Decidable (_ = _))
  | .stop => inferInstanceAs (Decidable (_ ∧ _))
  | .csend _ _ | .crecv | .runTask _ | .expire => inferInstanceAs (Decidable True)

/-- A socket fresh from `nn_socket`. -/
def Sock.init (lastid : UInt32) : Sock P := { state := .active, req := nnReqInit lastid }

end NanoSocket.ReqRep

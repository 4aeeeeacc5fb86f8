import NanoSocket.Core.Wire

/-!
# Pipes (`core/pipe.c`)

`nn_pipebase` guards the hand-over of messages between a transport session and the socket with an
in-state and an out-state.  A `Pipe` is a pipebase together with what the socket can see of the
session: the messages received and not yet taken (the first one is in the session's hands), the
messages handed to the session, and the events raised and not yet processed.

The transport is arbitrary: it may complete a send within the call or later, and a message may
arrive at any time.
-/

namespace NanoSocket

/-- `NN_PIPEBASE_INSTATE_*`. -/
inductive InState
  | deactivated
  | idle
  | receiving
  | received
  | async
  deriving DecidableEq, Repr

/-- `NN_PIPEBASE_OUTSTATE_*`. -/
inductive OutState
  | deactivated
  | idle
  | sending
  | sent
  | async
  deriving DecidableEq, Repr

/-- `struct nn_pipebase` and the session behind it. -/
structure Pipe where
  instate : InState
  outstate : OutState
  inbox : List Inbound
  outbox : List Msg
  inRaised : Bool
  outRaised : Bool
  deriving DecidableEq, Repr

/-- What a pipe knows about the messages that arrived. -/
def Pipe.inward (self : Pipe) : List Inbound × Bool := (self.inbox, self.inRaised)

/-- `nn_pipebase_start`, when the socket accepts the pipe. -/
def nnPipebaseStart : Pipe :=
  { instate := .async, outstate := .idle, inbox := [], outbox := [], inRaised := false,
    outRaised := true }

/-- `nn_pipebase_received`. -/
def nnPipebaseReceived (self : Pipe) : Except Fault Pipe :=
  if self.instate = .receiving then .ok { self with instate := .received }
  else do
    nnAssert (self.instate = .async)
    return { self with instate := .idle, inRaised := true }

/-- `nn_pipebase_sent`. -/
def nnPipebaseSent (self : Pipe) : Except Fault Pipe :=
  if self.outstate = .sending then .ok { self with outstate := .sent }
  else do
    nnAssert (self.outstate = .async)
    return { self with outstate := .idle, outRaised := true }

/-- A message arrives at the session. The session announces it unless it already holds one. -/
def Pipe.arrive (self : Pipe) (m : Inbound) : Except Fault Pipe :=
  match self.inbox with
  | [] => nnPipebaseReceived { self with inbox := [m] }
  | _ :: _ => .ok { self with inbox := self.inbox ++ [m] }

/-- `vfptr->recv`: the session gives away the message it holds and announces the next one. -/
def Pipe.take (self : Pipe) : Except Fault (Inbound × Pipe) :=
  match self.inbox with
  | [] => .error .assertFailed
  | m :: rest => do
    let self := { self with inbox := rest }
    if rest.isEmpty then return (m, self)
    return (m, ← nnPipebaseReceived self)

/-- `nn_pipe_recv`: the message and the flag `NN_PIPE_RELEASE`. -/
def nnPipeRecv (self : Pipe) : Except Fault (Inbound × Bool × Pipe) := do
  nnAssert (self.instate = .idle)
  let (m, self) ← Pipe.take { self with instate := .receiving }
  if self.instate = .received then return (m, false, { self with instate := .idle })
  nnAssert (self.instate = .receiving)
  return (m, true, { self with instate := .async })

/-- `nn_pipe_send` to a session that completes the send at once (`sync`) or later: the flag
`NN_PIPE_RELEASE`. -/
def nnPipeSend (self : Pipe) (msg : Msg) (sync : Bool) : Except Fault (Bool × Pipe) := do
  nnAssert (self.outstate = .idle)
  let self := { self with outstate := .sending, outbox := self.outbox ++ [msg] }
  let self ← if sync then nnPipebaseSent self else .ok self
  if self.outstate = .sent then return (false, { self with outstate := .idle })
  nnAssert (self.outstate = .sending)
  return (true, { self with outstate := .async })

/-- The session holds a message exactly in the in-state `IDLE`, which is also when an `IN` event may
be under way. -/
structure Pipe.Wf (p : Pipe) : Prop where
  instate : p.instate = if p.inbox = [] then .async else .idle
  outstate : p.outstate = .idle ∨ p.outstate = .async
  inRaised : p.inRaised = true → p.inbox ≠ []
  outRaised : p.outRaised = true → p.outstate = .idle

theorem nnPipebaseStart_wf : nnPipebaseStart.Wf :=
  ⟨rfl, Or.inl rfl, by simp [nnPipebaseStart], fun _ => rfl⟩

theorem Pipe.Wf.instate_idle {p : Pipe} (h : p.Wf) (hb : p.inbox ≠ []) : p.instate = .idle := by
  rw [h.instate, if_neg hb]

/-- A message arrives: only an empty inbox raises an event. -/
theorem Pipe.Wf.arrive {p : Pipe} (h : p.Wf) (m : Inbound) :
    ∃ q, p.arrive m = .ok q ∧ q.Wf ∧ q.inbox = p.inbox ++ [m] ∧ q.outstate = p.outstate ∧
      q.outRaised = p.outRaised ∧ q.outbox = p.outbox ∧
        (q.inRaised = true ↔ p.inRaised = true ∨ p.inbox = []) := by
  cases hb : p.inbox with
  | nil =>
    have hin : p.instate = .async := by rw [h.instate, if_pos hb]
    refine ⟨{ p with inbox := [m], instate := .idle, inRaised := true }, ?_, ?_, rfl, rfl, rfl, rfl,
      by simp⟩
    · simp [Pipe.arrive, hb, nnPipebaseReceived, hin, nnAssert]
    · exact ⟨by simp, h.outstate, by simp, h.outRaised⟩
  | cons a l =>
    refine ⟨{ p with inbox := p.inbox ++ [m] }, by simp [Pipe.arrive, hb], ?_, by simp [hb], rfl,
      rfl, rfl, by simp⟩
    have hin := h.instate_idle (by simp [hb])
    exact ⟨by simp [hin], h.outstate, by simp, h.outRaised⟩

/-- Taking the message at hand: the pipe is released when it was the last one. -/
theorem Pipe.Wf.recv {p : Pipe} (h : p.Wf) {m : Inbound} {rest : List Inbound}
    (hb : p.inbox = m :: rest) :
    ∃ q, nnPipeRecv p = .ok (m, rest.isEmpty, q) ∧ q.inbox = rest ∧ q.outstate = p.outstate ∧
      q.outRaised = p.outRaised ∧ q.outbox = p.outbox ∧ q.inRaised = p.inRaised ∧
      (p.inRaised = false → q.Wf) := by
  have hin := h.instate_idle (by simp [hb])
  cases rest with
  | nil =>
    refine ⟨{ p with inbox := [], instate := .async }, ?_, rfl, rfl, rfl, rfl, rfl, fun hr => ?_⟩
    · simp [nnPipeRecv, hin, Pipe.take, hb, nnAssert]
    · exact ⟨by simp, h.outstate, by simp [hr], h.outRaised⟩
  | cons a l =>
    refine ⟨{ p with inbox := a :: l, instate := .idle }, ?_, rfl, rfl, rfl, rfl, rfl, fun hr => ?_⟩
    · simp [nnPipeRecv, hin, Pipe.take, hb, nnAssert, nnPipebaseReceived]
    · exact ⟨by simp, h.outstate, by simp, h.outRaised⟩

/-- Sending on a pipe in the out-state `IDLE`. -/
theorem Pipe.Wf.send {p : Pipe} (h : p.Wf) (ho : p.outstate = .idle) (msg : Msg) (sync : Bool) :
    ∃ q, nnPipeSend p msg sync = .ok (!sync, q) ∧ q.inbox = p.inbox ∧ q.inRaised = p.inRaised ∧
      q.outbox = p.outbox ++ [msg] ∧ q.outRaised = p.outRaised ∧
      q.outstate = (if sync then .idle else .async) ∧
      (p.outRaised = false → q.Wf) := by
  cases sync with
  | true =>
    refine ⟨{ p with outbox := p.outbox ++ [msg], outstate := .idle }, ?_, rfl, rfl, rfl, rfl, rfl,
      fun _ => ?_⟩
    · simp [nnPipeSend, ho, nnAssert, nnPipebaseSent]
    · exact ⟨h.instate, Or.inl rfl, h.inRaised, fun _ => rfl⟩
  | false =>
    refine ⟨{ p with outbox := p.outbox ++ [msg], outstate := .async }, ?_, rfl, rfl, rfl, rfl, rfl,
      fun hr => ?_⟩
    · simp [nnPipeSend, ho, nnAssert]
    · exact ⟨h.instate, Or.inr rfl, h.inRaised, by simp [hr]⟩

/-- The session completes a send. -/
theorem Pipe.Wf.sent {p : Pipe} (h : p.Wf) (ho : p.outstate = .async) :
    ∃ q, nnPipebaseSent p = .ok q ∧ q.Wf ∧ q.inbox = p.inbox ∧ q.inRaised = p.inRaised ∧
      q.outbox = p.outbox ∧ q.outstate = .idle ∧ q.outRaised = true := by
  refine ⟨{ p with outstate := .idle, outRaised := true }, ?_, ?_, rfl, rfl, rfl, rfl, rfl⟩
  · simp [nnPipebaseSent, ho, nnAssert]
  · exact ⟨h.instate, Or.inl rfl, h.inRaised, fun _ => rfl⟩

/-! ### The pipe on the side of the session -/

/-- `NN_PIPEBASE_STATE_*`. -/
inductive PipebaseState
  | idle
  | active
  | failed
  deriving DecidableEq, Repr

/-- `struct nn_pipebase`. The events `IN` and `OUT` are processed before the context is left. -/
structure Pipebase where
  state : PipebaseState
  instate : InState
  outstate : OutState
  deriving DecidableEq, Repr

/-- `nn_pipebase_start`; `added` says that the socket accepts the pipe. -/
def Pipebase.start (self : Pipebase) (added : Bool) : Except Fault (Bool × Pipebase) := do
  nnAssert (self.state = .idle)
  return (added,
    { state := if added then .active else .failed, instate := .async, outstate := .idle })

/-- A new pipe is taken by the socket. -/
theorem Pipebase.start_true {self : Pipebase} (h : self.state = .idle) :
    self.start true = .ok (true, { state := .active, instate := .async, outstate := .idle }) := by
  unfold Pipebase.start
  rw [nnAssert_of h]
  rfl

/-- `nn_pipebase_stop`. -/
def Pipebase.stop (self : Pipebase) : Pipebase := { self with state := .idle }

/-- `nn_pipebase_received`. -/
def Pipebase.received (self : Pipebase) : Except Fault Pipebase :=
  if self.instate = .receiving then .ok { self with instate := .received }
  else do
    nnAssert (self.instate = .async)
    return { self with instate := .idle }

/-- `nn_pipebase_sent`. -/
def Pipebase.sent (self : Pipebase) : Except Fault Pipebase :=
  if self.outstate = .sending then .ok { self with outstate := .sent }
  else do
    nnAssert (self.outstate = .async)
    return { self with outstate := .idle }

end NanoSocket

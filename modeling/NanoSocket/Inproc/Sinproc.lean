import NanoSocket.Core.Pipe
import NanoSocket.Core.Timer
import NanoSocket.Inproc.Msgqueue

/-!
# Inproc sessions (`transports/inproc/sinproc.c`)

Two sessions in different contexts talk to each other by events.  An event that is raised in a
context waits in the context's queue `eventsto` until the context is left (`aio/ctx.c`); then the
thread that left it delivers the events of its queue one after another, while other threads do the
same with other queues.  It takes an event from the queue first, and enters the context of the
receiver after that, so that for a while the event is in no queue but in the hands of a thread.  A
`World` is the two sessions, the queues of their contexts, and the batches that threads are
delivering.

`World.step` is what can happen: calls of the two sockets, stopping a session, leaving a context,
taking an event and delivering it.
-/

namespace NanoSocket.Inproc

/-- The two sessions: `a` was created to connect, `b` to accept. -/
inductive Side
  | a
  | b
  deriving DecidableEq, Repr

/-- The other session. -/
def Side.other : Side → Side
  | .a => .b
  | .b => .a

/-- `NN_SINPROC_STATE_*`. -/
inductive SinprocState
  | idle
  | connecting
  | ready
  | active
  | disconnected
  | stoppingPeer
  | stopping
  deriving DecidableEq, Repr

/-- The events that sessions send to each other; `connect` is sent to the owner of the other
session. -/
inductive Kind
  | connect
  | ready
  | accepted
  | sent
  | received
  | disconnect
  deriving DecidableEq, Repr

/-- An event on its way. -/
structure Ev where
  dst : Side
  kind : Kind
  deriving DecidableEq, Repr

/-- The event objects of a session. -/
inductive EvObj
  | connect
  | sent
  | received
  | disconnect
  deriving DecidableEq, Repr

/-- The object that carries an event: `event_connect` of the sender, the others of the receiver. -/
def Ev.object (e : Ev) : Side × EvObj :=
  match e.kind with
  | .connect | .ready | .accepted => (e.dst.other, .connect)
  | .sent => (e.dst, .sent)
  | .received => (e.dst, .received)
  | .disconnect => (e.dst, .disconnect)

/-- `struct nn_sinproc`. -/
structure Sinproc where
  fsm : FsmState
  state : SinprocState
  sending : Bool
  receiving : Bool
  peer : Option Side
  pipebase : Pipebase
  msgqueue : Msgqueue
  msg : Msg

/-- `nn_sinproc_init`; `rcvbuf` is the option `NN_RCVBUF` of the socket. -/
def nnSinprocInit (rcvbuf : ℕ) : Sinproc :=
  { fsm := .idle, state := .idle, sending := false, receiving := false, peer := none
    pipebase := { state := .idle, instate := .deactivated, outstate := .deactivated }
    msgqueue := nnMsgqueueInit rcvbuf, msg := .init }

/-- What a thread delivers at the end of `nn_ctx_leave`: the event in its hands, and its queue. -/
structure Batch where
  hand : Option Ev
  queue : List Ev
  deriving DecidableEq, Repr

/-- The events of a batch. -/
def Batch.events (b : Batch) : List Ev := b.hand.toList ++ b.queue

/-- The sessions, the queues `eventsto` of their contexts, and the batches that are being
delivered. -/
structure World where
  sess : Side → Sinproc
  eventsto : Side → List Ev
  flight : List Batch

/-- Two sessions that were just allocated. -/
def World.init (rcvbuf : Side → ℕ) : World :=
  { sess := fun s => nnSinprocInit (rcvbuf s), eventsto := fun _ => [], flight := [] }

/-- Replace a session. -/
def World.set (w : World) (s : Side) (x : Sinproc) : World :=
  { w with sess := Function.update w.sess s x }

/-- All events on their way. -/
def World.events (w : World) : List Ev :=
  w.eventsto .a ++ w.eventsto .b ++ w.flight.flatMap Batch.events

/-- The events in a queue. -/
def World.queued (w : World) : List Ev :=
  w.eventsto .a ++ w.eventsto .b ++ w.flight.flatMap Batch.queue

/-- The events in the hands of a thread. -/
def World.inHand (w : World) : List Ev := w.flight.filterMap Batch.hand

/-- `nn_fsm_event_active`: the event is in a queue. -/
def World.EventActive (w : World) (obj : Side × EvObj) : Prop := ∃ e ∈ w.queued, e.object = obj

instance (w : World) (obj : Side × EvObj) : Decidable (w.EventActive obj) :=
  inferInstanceAs (Decidable (∃ e ∈ w.queued, e.object = obj))

/-- `nn_fsm_raiseto`; `nn_queue_push` asserts that the event is not in a queue. -/
def nnFsmRaiseto (w : World) (s : Side) (e : Ev) : Except Fault World := do
  nnAssert (¬ w.EventActive e.object)
  return { w with eventsto := Function.update w.eventsto s (w.eventsto s ++ [e]) }

/-! ### Sending and receiving -/

/-- What a transport makes of a message: the header and the body in one piece. -/
def joined (msg : Msg) : Msg := { sphdr := [], hdrs := [], body := msg.sphdr ++ msg.body }

/-- `nn_sinproc_send`: `none` or an error code. -/
def nnSinprocSend (w : World) (s : Side) (msg : Msg) : Except Fault (Option Errno × World) :=
  let sinproc := w.sess s
  if sinproc.state = .disconnected then .ok (some .econnreset, w)
  else do
    nnAssert (sinproc.state = .active)
    nnAssert (sinproc.sending = false)
    -- expose the message to the peer, and notify the peer
    let w := w.set s { sinproc with msg := joined msg, sending := true }
    match sinproc.peer with
    | none => throw .nullDeref
    | some p => return (none, ← nnFsmRaiseto w s ⟨p, .sent⟩)

/-- `nn_sinproc_recv`. -/
def nnSinprocRecv (w : World) (s : Side) : Except Fault (Msg × World) := do
  let sinproc := w.sess s
  nnAssert (sinproc.state = .active ∨ sinproc.state = .disconnected)
  -- move the message to the caller
  let (msg, msgqueue) ← nnMsgqueueRecv sinproc.msgqueue
  match msg with
  | none => throw .assertFailed
  | some msg =>
    let w := w.set s { sinproc with msgqueue := msgqueue }
    -- a message of the peer was lingering: try to enqueue it once again
    let w ← if sinproc.state ≠ .disconnected ∧ sinproc.receiving then
        match sinproc.peer with
        | none => throw .nullDeref
        | some p => do
          let (queued, msgqueue) ← nnMsgqueueSend msgqueue (w.sess p).msg
          if queued then
            let w := w.set s { w.sess s with msgqueue := msgqueue }
            let w := w.set p { w.sess p with msg := .init }
            let w ← nnFsmRaiseto w s ⟨p, .received⟩
            pure (w.set s { w.sess s with receiving := false })
          else pure w
      else pure w
    let sinproc := w.sess s
    if nnMsgqueueEmpty sinproc.msgqueue then return (msg, w)
    return (msg, w.set s { sinproc with pipebase := ← sinproc.pipebase.received })

/-- `nn_pipe_send`. -/
def World.pipeSend (w : World) (s : Side) (msg : Msg) : Except Fault World := do
  let sinproc := w.sess s
  nnAssert (sinproc.pipebase.outstate = .idle)
  let w := w.set s { sinproc with pipebase := { sinproc.pipebase with outstate := .sending } }
  let (rc, w) ← nnSinprocSend w s msg
  nnAssert (rc = none)
  let sinproc := w.sess s
  if sinproc.pipebase.outstate = .sent then
    return w.set s { sinproc with pipebase := { sinproc.pipebase with outstate := .idle } }
  nnAssert (sinproc.pipebase.outstate = .sending)
  return w.set s { sinproc with pipebase := { sinproc.pipebase with outstate := .async } }

/-- `nn_pipe_recv`. -/
def World.pipeRecv (w : World) (s : Side) : Except Fault (Msg × World) := do
  let sinproc := w.sess s
  nnAssert (sinproc.pipebase.instate = .idle)
  let w := w.set s { sinproc with pipebase := { sinproc.pipebase with instate := .receiving } }
  let (msg, w) ← nnSinprocRecv w s
  let sinproc := w.sess s
  if sinproc.pipebase.instate = .received then
    return (msg, w.set s { sinproc with pipebase := { sinproc.pipebase with instate := .idle } })
  nnAssert (sinproc.pipebase.instate = .receiving)
  return (msg, w.set s { sinproc with pipebase := { sinproc.pipebase with instate := .async } })

/-! ### The state machine -/

/-- What is fed to the state machine: the source `NN_FSM_ACTION` or `NN_SINPROC_SRC_PEER`. -/
inductive SinprocInput
  | fsmStart
  | fsmStop
  | actionReady
  | peer (kind : Kind)
  deriving DecidableEq, Repr

/-- `nn_sinproc_handler`; the event comes from `src`, and `added` says that the socket accepts a new
pipe. -/
def nnSinprocHandler (w : World) (s src : Side) (added : Bool) (input : SinprocInput) :
    Except Fault World :=
  let sinproc := w.sess s
  match sinproc.state with
  | .idle =>
    match input with
    | .fsmStart => .ok (w.set s { sinproc with state := .connecting })
    | .fsmStop | .actionReady => .error .badAction
    | .peer _ => .error .badSource
  | .connecting =>
    match input with
    | .actionReady => .ok (w.set s { sinproc with state := .ready })
    | .peer .ready => do
      let (added, pipebase) ← sinproc.pipebase.start added
      nnAssert (added = true)
      let w := w.set s { sinproc with peer := some src, pipebase := pipebase, state := .active }
      nnFsmRaiseto w s ⟨src, .accepted⟩
    | _ => .error .badAction
  | .ready =>
    match input with
    -- both peers sent READY so they are both ready for receiving messages
    | .peer .ready => do
      let (added, pipebase) ← sinproc.pipebase.start added
      nnAssert (added = true)
      return w.set s { sinproc with pipebase := pipebase, state := .active }
    | .peer .accepted => do
      let (added, pipebase) ← sinproc.pipebase.start added
      -- the socket may be connected already
      if !added then
        return w.set s { sinproc with pipebase := pipebase.stop, state := .disconnected,
                                      peer := none }
      return w.set s { sinproc with pipebase := pipebase, state := .active }
    | .peer _ => .error .badAction
    | _ => .error .badSource
  | .active =>
    match input with
    | .peer .sent =>
      match sinproc.peer with
      | none => .error .nullDeref
      | some p => do
        let empty := nnMsgqueueEmpty sinproc.msgqueue
        -- push the message to the inbound message queue
        let (queued, msgqueue) ← nnMsgqueueSend sinproc.msgqueue (w.sess p).msg
        if !queued then return w.set s { sinproc with receiving := true }
        let w := w.set s { sinproc with msgqueue := msgqueue }
        let w := w.set p { w.sess p with msg := .init }
        -- notify the user that there's a message to receive
        let w ← if empty then do
            let sinproc := w.sess s
            pure (w.set s { sinproc with pipebase := ← sinproc.pipebase.received })
          else pure w
        -- notify the peer that the message was received
        nnFsmRaiseto w s ⟨p, .received⟩
    | .peer .received => do
      nnAssert (sinproc.sending = true)
      return w.set s { sinproc with pipebase := ← sinproc.pipebase.sent, sending := false }
    | .peer .disconnect =>
      match sinproc.peer with
      | none => .error .nullDeref
      | some p => do
        let w ← nnFsmRaiseto (w.set s { sinproc with pipebase := sinproc.pipebase.stop }) s
          ⟨p, .disconnect⟩
        return w.set s { w.sess s with state := .disconnected, peer := none }
    | .peer _ => .error .badAction
    | _ => .error .badSource
  | .disconnected =>
    match input with
    -- it may happen when nn_close() comes before the already enqueued RECEIVED has been delivered
    | .peer .received => .ok w
    | .peer _ => .error .badAction
    | _ => .error .badSource
  | .stoppingPeer | .stopping => .error .badState

/-- `nn_sinproc_shutdown_events`. -/
def nnSinprocShutdownEvents (w : World) (s : Side) (input : SinprocInput) : Except Fault World :=
  let self := w.sess s
  match input with
  | .fsmStop =>
    if self.state ≠ .idle ∧ self.state ≠ .disconnected then do
      nnAssert (self.fsm = .active ∨ self.fsm = .stopping)
      match self.peer with
      | none => throw .nullDeref
      | some p =>
        let w ← nnFsmRaiseto (w.set s { self with pipebase := self.pipebase.stop }) s
          ⟨p, .disconnect⟩
        return w.set s { w.sess s with state := .stoppingPeer }
    else .ok (w.set s { self with state := .stopping })
  | .peer .received => .ok w
  | _ =>
    match self.state with
    | .stoppingPeer =>
      match input with
      | .peer .disconnect => .ok (w.set s { self with state := .stopping })
      -- a notification about state that was queued earlier, or about a sent message
      | .peer _ => .ok w
      | _ => .error .badSource
    | _ => .error .badState

/-- `nn_sinproc_shutdown`. -/
def nnSinprocShutdown (w : World) (s : Side) (input : SinprocInput) : Except Fault World := do
  nnAssert ((w.sess s).fsm = .stopping)
  let w ← nnSinprocShutdownEvents w s input
  -- have we got notification that peer is stopped
  if (w.sess s).state ≠ .stopping then return w
  -- are all events processed? We can't cancel them unfortunately
  if w.EventActive (s, .received) ∨ w.EventActive (s, .disconnect) then return w
  -- these events are deemed to be impossible here
  nnAssert (¬ w.EventActive (s, .connect))
  nnAssert (¬ w.EventActive (s, .sent))
  nnAssert ((w.sess s).fsm = .stopping)
  return w.set s { w.sess s with fsm := .idle }

/-- `nn_fsm_feed`. -/
def World.feed (w : World) (s src : Side) (added : Bool) (input : SinprocInput) :
    Except Fault World :=
  if (w.sess s).fsm ≠ .stopping then nnSinprocHandler w s src added input
  else nnSinprocShutdown w s input

/-- `nn_fsm_start`. -/
def World.fsmStart (w : World) (s : Side) : Except Fault World := do
  nnAssert ((w.sess s).fsm = .idle)
  let w ← nnSinprocHandler w s s true .fsmStart
  return w.set s { w.sess s with fsm := .active }

/-- `nn_fsm_stop`. -/
def nnSinprocStop (w : World) (s : Side) : Except Fault World :=
  if (w.sess s).fsm ≠ .active then .ok w
  else nnSinprocShutdown (w.set s { w.sess s with fsm := .stopping }) s .fsmStop

/-- `nn_sinproc_connect`. -/
def nnSinprocConnect (w : World) (s : Side) : Except Fault World := do
  let w ← w.fsmStart s
  nnFsmRaiseto w s ⟨s.other, .connect⟩

/-- `nn_sinproc_accept`. -/
def nnSinprocAccept (w : World) (s peer : Side) : Except Fault World := do
  nnAssert ((w.sess s).peer = none)
  let w := w.set s { w.sess s with peer := some peer }
  let w ← nnFsmRaiseto w s ⟨peer, .ready⟩
  let w ← w.fsmStart s
  w.feed s s true .actionReady

/-! ### What can happen -/

/-- The steps: with `leave` a thread leaves a context and gets its queue, `take` is the
`nn_queue_pop` of a thread and `deliver` its `nn_fsm_event_process`. -/
inductive Step
  | connect
  | send (s : Side) (msg : Msg)
  | recv (s : Side)
  | stop (s : Side)
  | leave (s : Side)
  | take (i : ℕ)
  | deliver (i : ℕ) (added : Bool)

/-- A step, with the message that it hands to the user. -/
def World.step (w : World) : Step → Except Fault (World × Option Msg)
  | .connect => do return (← nnSinprocConnect w .a, none)
  | .send s msg => do return (← w.pipeSend s msg, none)
  | .recv s => do
    let (msg, w) ← w.pipeRecv s
    return (w, some msg)
  | .stop s => do return (← nnSinprocStop w s, none)
  | .leave s =>
    .ok ({ w with eventsto := Function.update w.eventsto s [],
                  flight := w.flight ++ [⟨none, w.eventsto s⟩] }, none)
  | .take i =>
    match w.flight[i]? with
    | some ⟨none, e :: rest⟩ => .ok ({ w with flight := w.flight.set i ⟨some e, rest⟩ }, none)
    | _ => .ok (w, none)
  | .deliver i added =>
    match w.flight[i]? with
    | some ⟨some e, rest⟩ => do
      let w := { w with flight := w.flight.set i ⟨none, rest⟩ }
      -- CONNECT goes to the owner of the other session, which creates it
      if e.kind = .connect then return (← nnSinprocAccept w e.dst e.dst.other, none)
      return (← w.feed e.dst e.dst.other added (.peer e.kind), none)
    | _ => .ok (w, none)

/-- When a step can happen.  A socket uses a pipe only between `nn_pipebase_start` and
`nn_pipebase_stop`, and only when the pipe has told it that it can. -/
def Enabled (w : World) : Step → Prop
  | .connect => (w.sess .a).state = .idle ∧ (w.sess .a).fsm = .idle
  | .send s _ => (w.sess s).pipebase.state = .active ∧ (w.sess s).pipebase.outstate = .idle
  | .recv s => (w.sess s).pipebase.state = .active ∧ (w.sess s).pipebase.instate = .idle
  | .stop _ | .leave _ | .take _ | .deliver _ _ => True

instance (w : World) (e : Step) : Decidable (Enabled w e) :=
  match e with
  | .connect => inferInstanceAs (Decidable (_ ∧ _))
  | .send _ _ => inferInstanceAs (Decidable (_ ∧ _))
  | .recv _ => inferInstanceAs (Decidable (_ ∧ _))
  | .stop _ | .leave _ | .take _ | .deliver _ _ => inferInstanceAs (Decidable True)

/-! ### Events on their way -/

@[simp] theorem Side.other_other (s : Side) : s.other.other = s := by cases s <;> rfl

@[simp] theorem Side.other_ne (s : Side) : s.other ≠ s := by cases s <;> decide

@[simp] theorem Side.ne_other (s : Side) : s ≠ s.other := by cases s <;> decide

theorem Side.eq_or_eq_other (s x : Side) : x = s ∨ x = s.other := by
  cases s <;> cases x <;> decide

/-- How often an event is on its way. -/
def World.pending (w : World) (e : Ev) : ℕ := w.events.count e

@[simp] theorem World.set_sess (w : World) (s : Side) (x : Sinproc) :
    (w.set s x).sess = Function.update w.sess s x := rfl

@[simp] theorem World.set_set (w : World) (s : Side) (x y : Sinproc) :
    (w.set s x).set s y = w.set s y := by
  simp [World.set]

@[simp] theorem World.set_pending (w : World) (s : Side) (x : Sinproc) :
    (w.set s x).pending = w.pending := rfl

/-- An event on its way is in a queue or in the hands of a thread. -/
theorem World.mem_events {w : World} {e : Ev} : e ∈ w.events ↔ e ∈ w.queued ∨ e ∈ w.inHand := by
  unfold World.events World.queued World.inHand Batch.events
  simp only [List.mem_append, List.mem_flatMap, Option.mem_toList, List.mem_filterMap]
  constructor
  · rintro (h | ⟨b, hb, h | h⟩)
    · exact Or.inl (Or.inl h)
    · exact Or.inr ⟨b, hb, h⟩
    · exact Or.inl (Or.inr ⟨b, hb, h⟩)
  · rintro ((h | ⟨b, hb, h⟩) | ⟨b, hb, h⟩)
    · exact Or.inl h
    · exact Or.inr ⟨b, hb, Or.inr h⟩
    · exact Or.inr ⟨b, hb, Or.inl h⟩

theorem World.EventActive.pending {w : World} {obj : Side × EvObj} (h : w.EventActive obj) :
    ∃ e, 0 < w.pending e ∧ e.object = obj := by
  obtain ⟨e, he, hobj⟩ := h
  exact ⟨e, List.count_pos_iff.2 (World.mem_events.2 (Or.inl he)), hobj⟩

/-- An event whose object is in no queue and that no thread has in its hands. -/
theorem World.pending_eq_zero {w : World} {e : Ev} (hqueue : ¬ w.EventActive e.object)
    (hhand : e ∉ w.inHand) :
    w.pending e = 0 := by
  refine List.count_eq_zero.2 fun he => ?_
  rcases World.mem_events.1 he with he | he
  · exact hqueue ⟨e, he, rfl⟩
  · exact hhand he

theorem World.init_pending (rcvbuf : Side → ℕ) (e : Ev) : (World.init rcvbuf).pending e = 0 := rfl

theorem World.pending_eq (w : World) (e : Ev) :
    w.pending e = (w.eventsto .a).count e + (w.eventsto .b).count e +
      (w.flight.flatMap Batch.events).count e := by
  unfold World.pending World.events
  rw [List.count_append, List.count_append]

/-- One more event is on its way, and nothing else changed there. -/
def Raised (w w' : World) (e : Ev) : Prop :=
  ∀ f, w'.pending f = w.pending f + if f = e then 1 else 0

theorem raised_push (w : World) (s : Side) (e : Ev) :
    Raised w { w with eventsto := Function.update w.eventsto s (w.eventsto s ++ [e]) } e := by
  intro f
  have hone : List.count f [e] = if f = e then 1 else 0 := by
    by_cases hf : f = e
    · simp [hf]
    · simp [hf, List.count_cons_of_ne (Ne.symm hf)]
  rw [World.pending_eq, World.pending_eq]
  cases s <;> simp [List.count_append, hone] <;> omega

theorem nnFsmRaiseto_inv {w w' : World} {s : Side} {e : Ev} (h : nnFsmRaiseto w s e = .ok w') :
    w'.sess = w.sess ∧ Raised w w' e := by
  unfold nnFsmRaiseto at h
  obtain ⟨_, _, heq⟩ := bind_eq_ok.1 h
  cases heq
  exact ⟨rfl, raised_push w s e⟩

/-- An event whose object is not in use can be raised. -/
theorem nnFsmRaiseto_ok {w : World} (s : Side) {e : Ev}
    (h : ∀ f, f.object = e.object → w.pending f = 0) :
    ∃ w', nnFsmRaiseto w s e = .ok w' ∧ w'.sess = w.sess ∧ Raised w w' e := by
  have hfree : ¬ w.EventActive e.object := by
    intro hactive
    obtain ⟨f, hpos, hobj⟩ := hactive.pending
    have := h f hobj
    omega
  refine ⟨{ w with eventsto := Function.update w.eventsto s (w.eventsto s ++ [e]) }, ?_, rfl,
    raised_push w s e⟩
  unfold nnFsmRaiseto
  rw [nnAssert_of hfree]
  rfl

theorem pending_leave (w : World) (s : Side) (f : Ev) :
    World.pending { w with
      eventsto := Function.update w.eventsto s [], flight := w.flight ++ [⟨none, w.eventsto s⟩] }
        f = w.pending f := by
  rw [World.pending_eq, World.pending_eq]
  cases s <;> simp [List.count_append, Batch.events] <;> omega

theorem count_flatMap_set {l : List Batch} {i : ℕ} {b : Batch} (h : l[i]? = some b)
    (b' : Batch) (f : Ev) :
    (l.flatMap Batch.events).count f + b'.events.count f =
      ((l.set i b').flatMap Batch.events).count f + b.events.count f := by
  induction l generalizing i with
  | nil => simp at h
  | cons c l ih =>
    cases i with
    | zero =>
      obtain rfl : c = b := by simpa using h
      rw [List.set_cons_zero, List.flatMap_cons, List.flatMap_cons, List.count_append,
        List.count_append]
      omega
    | succ i =>
      have := ih (by simpa using h)
      rw [List.set_cons_succ, List.flatMap_cons, List.flatMap_cons, List.count_append,
        List.count_append]
      omega

/-- An event that a thread takes is still on its way. -/
theorem pending_take {w : World} {i : ℕ} {e : Ev} {rest : List Ev}
    (h : w.flight[i]? = some ⟨none, e :: rest⟩) (f : Ev) :
    World.pending { w with flight := w.flight.set i ⟨some e, rest⟩ } f = w.pending f := by
  have := count_flatMap_set h ⟨some e, rest⟩ f
  rw [World.pending_eq, World.pending_eq]
  simp only [Batch.events, Option.toList_some, Option.toList_none, List.nil_append,
    List.singleton_append] at this ⊢
  omega

/-- The step by which a thread takes an event. -/
theorem World.step_take (w : World) (i : ℕ) :
    ∃ w', w.step (.take i) = .ok (w', none) ∧ w'.sess = w.sess ∧
      ∀ e, w'.pending e = w.pending e := by
  cases h : w.flight[i]? with
  | none => exact ⟨w, by simp [World.step, h], rfl, fun _ => rfl⟩
  | some batch =>
    obtain ⟨_ | e', _ | ⟨e, rest⟩⟩ := batch
    · exact ⟨w, by simp [World.step, h], rfl, fun _ => rfl⟩
    · refine ⟨{ w with flight := w.flight.set i ⟨some e, rest⟩ }, ?_, rfl, pending_take h⟩
      simp [World.step, h]
    · exact ⟨w, by simp [World.step, h], rfl, fun _ => rfl⟩
    · exact ⟨w, by simp [World.step, h], rfl, fun _ => rfl⟩

/-- The event that is delivered is on its way no longer. -/
theorem raised_take {w : World} {i : ℕ} {e : Ev} {rest : List Ev}
    (h : w.flight[i]? = some ⟨some e, rest⟩) :
    Raised { w with flight := w.flight.set i ⟨none, rest⟩ } w e := by
  intro f
  have := count_flatMap_set h ⟨none, rest⟩ f
  rw [World.pending_eq, World.pending_eq]
  simp only [Batch.events, Option.toList_some, Option.toList_none, List.nil_append,
    List.singleton_append, List.count_cons, beq_iff_eq, eq_comm (a := e)] at this ⊢
  omega

end NanoSocket.Inproc

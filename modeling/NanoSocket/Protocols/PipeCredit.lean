import NanoSocket.Lib.Runs
import NanoSocket.Protocols.Fq

/-!
# The credit of a pipe (`core/pipe.c`, `protocols/utils/fq.c`, `lb.c`)

A transport announces a message with `nn_pipebase_received` and may announce the next one as soon as
that message was taken, within the call or later; in the same way it completes a send with
`nn_pipebase_sent`.  What is completed later raises an event, and the event puts the pipe into the
fair queue or the load balancer; what is completed within the call leaves the pipe there.

Both directions are one discipline: a pipe has a credit or not, the event of a new credit is queued,
and the list holds the pipes whose credit was processed (`CreditList`).  `pipe_credit` is about a
socket with any number of pipes.
-/

namespace NanoSocket

open Runs

/-- The events that a pipe raises: `NN_PIPE_IN` and `NN_PIPE_OUT`. -/
inductive PipeEvent
  | pipeIn
  | pipeOut
  deriving DecidableEq, Repr

/-- `nn_pipe_recv` of a transport that announces the next message within the call (`sync`) or later:
the flag `NN_PIPE_RELEASE`. -/
def Pipebase.recv (self : Pipebase) (sync : Bool) : Except Fault (Bool × Pipebase) := do
  nnAssert (self.instate = .idle)
  let self := { self with instate := .receiving }
  let self ← if sync then self.received else .ok self
  if self.instate = .received then return (false, { self with instate := .idle })
  nnAssert (self.instate = .receiving)
  return (true, { self with instate := .async })

/-- `nn_pipe_send` to a transport that completes the send within the call (`sync`) or later: the
flag `NN_PIPE_RELEASE`. -/
def Pipebase.send (self : Pipebase) (sync : Bool) : Except Fault (Bool × Pipebase) := do
  nnAssert (self.outstate = .idle)
  let self := { self with outstate := .sending }
  let self ← if sync then self.sent else .ok self
  if self.outstate = .sent then return (false, { self with outstate := .idle })
  nnAssert (self.outstate = .sending)
  return (true, { self with outstate := .async })

/-- The pipes of a socket, the queue of events, and the two lists.  The counters say how often the
transport has announced a message and completed a send, and how often the socket has received and
sent. -/
structure PipeWorld (P : Type) where
  pipes : P → Option Pipebase
  events : List (P × PipeEvent)
  fq : Priolist P
  lb : Priolist P
  received : P → ℕ
  recvs : P → ℕ
  sends : P → ℕ
  sent : P → ℕ

/-- What can happen: a pipe is added, the transport announces a message or completes a send, an
event is processed, and the socket receives and sends. -/
inductive PipeAction (P : Type)
  | start (p : P) (rcvprio sndprio : Fin 16)
  | received (p : P)
  | sent (p : P)
  | event
  | recv (sync : Bool)
  | send (sync : Bool)
  deriving DecidableEq, Repr

section World

variable {P : Type} [DecidableEq P]

/-- A socket without pipes. -/
def PipeWorld.init : PipeWorld P :=
  { pipes := fun _ => none, events := [], fq := .init, lb := .init
    received := fun _ => 0, recvs := fun _ => 0, sends := fun _ => 0, sent := fun _ => 0 }

/-- The transport keeps to the rules: it announces a message after the previous one was taken, and
it completes a send after the send. -/
def PipeWorld.Enabled (w : PipeWorld P) : PipeAction P → Prop
  | .start p _ _ => w.pipes p = none
  | .received p => w.pipes p ≠ none ∧ w.received p = w.recvs p
  | .sent p => w.pipes p ≠ none ∧ w.sent p < w.sends p
  | .event => w.events ≠ []
  | .recv _ => True
  | .send _ => True

instance (w : PipeWorld P) : DecidablePred w.Enabled
  | .start p _ _ => inferInstanceAs (Decidable (w.pipes p = none))
  | .received _ | .sent _ => inferInstanceAs (Decidable (_ ∧ _))
  | .event => inferInstanceAs (Decidable (_ ≠ _))
  | .recv _ | .send _ => .isTrue trivial

/-- `nn_fsm_raise` for an event of a pipe. -/
def PipeWorld.raise (w : PipeWorld P) (p : P) (e : PipeEvent) : Except Fault (PipeWorld P) := do
  nnAssert ((p, e) ∉ w.events)
  return { w with events := w.events ++ [(p, e)] }

/-- `nn_pipebase_start`: the socket adds the pipe to its lists, and the event `OUT` is raised. -/
def PipeWorld.start (w : PipeWorld P) (p : P) (rcvprio sndprio : Fin 16) :
    Except Fault (PipeWorld P) :=
  let pipe : Pipebase := { state := .active, instate := .async, outstate := .idle }
  { w with pipes := Function.update w.pipes p (some pipe)
           fq := w.fq.add p rcvprio, lb := w.lb.add p sndprio }.raise p .pipeOut

/-- `nn_pipebase_received`, outside `nn_pipe_recv`. -/
def PipeWorld.receivedLater (w : PipeWorld P) (p : P) : Except Fault (PipeWorld P) :=
  match w.pipes p with
  | none => .error .nullDeref
  | some pipe => do
    let pipe ← pipe.received
    { w with pipes := Function.update w.pipes p (some pipe)
             received := Function.update w.received p (w.received p + 1) }.raise p .pipeIn

/-- `nn_pipebase_sent`, outside `nn_pipe_send`. -/
def PipeWorld.sentLater (w : PipeWorld P) (p : P) : Except Fault (PipeWorld P) :=
  match w.pipes p with
  | none => .error .nullDeref
  | some pipe => do
    let pipe ← pipe.sent
    { w with pipes := Function.update w.pipes p (some pipe)
             sent := Function.update w.sent p (w.sent p + 1) }.raise p .pipeOut

/-- The next event is processed: `nn_fq_in` and `nn_lb_out`. -/
def PipeWorld.event (w : PipeWorld P) : Except Fault (PipeWorld P) :=
  match w.events with
  | [] => .ok w
  | (p, .pipeIn) :: events => do return { w with events, fq := ← w.fq.activate p }
  | (p, .pipeOut) :: events => do return { w with events, lb := ← w.lb.activate p }

/-- `nn_fq_recv`. -/
def PipeWorld.recv (w : PipeWorld P) (sync : Bool) : Except Fault (PipeWorld P) := do
  match ← w.fq.getpipe with
  | none => return w
  | some p =>
    match w.pipes p with
    | none => throw .nullDeref
    | some pipe =>
      let (release, pipe) ← pipe.recv sync
      return { w with fq := ← w.fq.advance release, pipes := Function.update w.pipes p (some pipe)
                      recvs := Function.update w.recvs p (w.recvs p + 1)
                      received :=
        Function.update w.received p (w.received p + if sync then 1 else 0) }

/-- `nn_lb_send`. -/
def PipeWorld.send (w : PipeWorld P) (sync : Bool) : Except Fault (PipeWorld P) := do
  match ← w.lb.getpipe with
  | none => return w
  | some p =>
    match w.pipes p with
    | none => throw .nullDeref
    | some pipe =>
      let (release, pipe) ← pipe.send sync
      return { w with lb := ← w.lb.advance release, pipes := Function.update w.pipes p (some pipe)
                      sends := Function.update w.sends p (w.sends p + 1)
                      sent := Function.update w.sent p (w.sent p + if sync then 1 else 0) }

/-- One action. -/
def PipeWorld.step (w : PipeWorld P) (a : PipeAction P) : Except Fault (PipeWorld P × Unit) := do
  let w ← match a with
    | .start p rcvprio sndprio => w.start p rcvprio sndprio
    | .received p => w.receivedLater p
    | .sent p => w.sentLater p
    | .event => w.event
    | .recv sync => w.recv sync
    | .send sync => w.send sync
  return (w, ())

/-! ### Lists of pipes with a credit -/

/-- The list holds the pipes that have a credit whose event was processed. -/
structure CreditList (l : Priolist P) (credit queued : P → Prop) : Prop where
  wf : l.Wf
  granted : ∀ p, queued p → credit p
  active : ∀ p, l.Active p ↔ credit p ∧ ¬ queued p

section CreditList

variable {l : Priolist P} {credit credit' queued queued' : P → Prop}

omit [DecidableEq P] in
theorem CreditList.congr (h : CreditList l credit queued) (hcredit : ∀ p, credit' p ↔ credit p)
    (hqueued : ∀ p, queued' p ↔ queued p) : CreditList l credit' queued' := by
  refine ⟨h.wf, fun p hp => (hcredit p).2 (h.granted p ((hqueued p).1 hp)), fun p => ?_⟩
  rw [h.active, hcredit, hqueued]

omit [DecidableEq P] in
/-- A pipe gets a credit, and its event is queued. -/
theorem CreditList.grant (h : CreditList l credit queued) {p : P} (hp : ¬ credit p)
    (hcredit : ∀ q, credit' q ↔ credit q ∨ q = p) (hqueued : ∀ q, queued' q ↔ queued q ∨ q = p) :
    CreditList l credit' queued' := by
  refine ⟨h.wf, fun q hq => ?_, fun q => ?_⟩
  · rw [hcredit]
    exact ((hqueued q).1 hq).imp_left (h.granted q)
  · rw [h.active, hcredit, hqueued]
    by_cases hqp : q = p
    · subst hqp
      simp [hp]
    · simp [hqp]

/-- The event of a credit is processed. -/
theorem CreditList.process (h : CreditList l credit queued) {p : P} (hp : queued p)
    (hqueued : ∀ q, queued' q ↔ queued q ∧ q ≠ p) :
    ∃ l', l.activate p = .ok l' ∧ CreditList l' credit queued' := by
  have hna : ¬ l.Active p := fun hact => ((h.active p).1 hact).2 hp
  obtain ⟨l', heq, hwf, -, hactive⟩ := h.wf.activate hna
  refine ⟨l', heq, hwf, fun q hq => h.granted q ((hqueued q).1 hq).1, fun q => ?_⟩
  rw [hactive, h.active, hqueued]
  by_cases hqp : q = p
  · subst hqp
    simp [hp, h.granted q hp]
  · simp [hqp]

/-- The list moves on from a pipe that has used its credit, and has a new one unless it is
released. -/
theorem CreditList.use (h : CreditList l credit queued) {p : P} (hp : l.getpipe = .ok (some p))
    (release : Bool) (hcredit : ∀ q, credit' q ↔ credit q ∧ (release = true → q ≠ p)) :
    ∃ l', l.advance release = .ok l' ∧ CreditList l' credit' queued := by
  have hact : l.Active p := by
    rcases h.wf.getpipe with ⟨hnone, -⟩ | ⟨q, hq, hact⟩
    · cases hnone.symm.trans hp
    · cases hq.symm.trans hp
      exact hact
  obtain ⟨l', heq, hwf, -, hactive⟩ := h.wf.advance hp release
  refine ⟨l', heq, hwf, fun q hq => (hcredit q).2 ⟨h.granted q hq, ?_⟩, fun q => ?_⟩
  · rintro - rfl
    exact ((h.active q).1 hact).2 hq
  · rw [hactive, h.active, hcredit]
    tauto

/-- A pipe without a credit is added. -/
theorem CreditList.add (h : CreditList l credit queued) {p : P} (hp : ¬ credit p)
    (priority : Fin 16) :
    CreditList (l.add p priority) credit queued := by
  obtain ⟨hwf, hactive⟩ := h.wf.add (fun hact => hp ((h.active p).1 hact).1) priority
  exact ⟨hwf, h.granted, fun q => (hactive q).trans (h.active q)⟩

end CreditList

/-! ### The invariant -/

/-- The pipe can be received from. -/
def PipeWorld.CanIn (w : PipeWorld P) (p : P) : Prop :=
  ∃ pipe, w.pipes p = some pipe ∧ pipe.instate = .idle

/-- The pipe can be sent to. -/
def PipeWorld.CanOut (w : PipeWorld P) (p : P) : Prop :=
  ∃ pipe, w.pipes p = some pipe ∧ pipe.outstate = .idle

/-- The states of a pipe count the credits of the transport. -/
structure Counted (pipe : Pipebase) (received recvs sends sent : ℕ) : Prop where
  state : pipe.state = .active
  inn : pipe.instate = .idle ∧ received = recvs + 1 ∨ pipe.instate = .async ∧ received = recvs
  out : pipe.outstate = .idle ∧ sent = sends ∨ pipe.outstate = .async ∧ sent + 1 = sends

/-- The invariant of a socket and its pipes. -/
structure PipeWorld.Inv (w : PipeWorld P) : Prop where
  nodup : w.events.Nodup
  fq : CreditList w.fq w.CanIn fun p => (p, .pipeIn) ∈ w.events
  lb : CreditList w.lb w.CanOut fun p => (p, .pipeOut) ∈ w.events
  pipe : ∀ p pipe, w.pipes p = some pipe → Counted pipe (w.received p) (w.recvs p)
    (w.sends p) (w.sent p)
  fresh : ∀ p, w.pipes p = none → w.received p = w.recvs p ∧ w.sent p = w.sends p

section Step

variable {w w' : PipeWorld P} {p : P} {pipe : Pipebase}

theorem canIn_update (hpipes : w'.pipes = Function.update w.pipes p (some pipe)) (q : P) :
    w'.CanIn q ↔ q = p ∧ pipe.instate = .idle ∨ q ≠ p ∧ w.CanIn q := by
  unfold PipeWorld.CanIn
  rw [hpipes]
  by_cases hqp : q = p
  · subst hqp
    simp
  · simp [hqp]

theorem canOut_update (hpipes : w'.pipes = Function.update w.pipes p (some pipe)) (q : P) :
    w'.CanOut q ↔ q = p ∧ pipe.outstate = .idle ∨ q ≠ p ∧ w.CanOut q := by
  unfold PipeWorld.CanOut
  rw [hpipes]
  by_cases hqp : q = p
  · subst hqp
    simp
  · simp [hqp]

omit [DecidableEq P] in
theorem not_canIn (h : w.pipes p = some pipe) (hin : pipe.instate ≠ .idle) : ¬ w.CanIn p := by
  rintro ⟨r, hr, hidle⟩
  cases h.symm.trans hr
  exact hin hidle

omit [DecidableEq P] in
theorem not_canOut (h : w.pipes p = some pipe) (hout : pipe.outstate ≠ .idle) : ¬ w.CanOut p := by
  rintro ⟨r, hr, hidle⟩
  cases h.symm.trans hr
  exact hout hidle

/-- The counters of one pipe change. -/
theorem PipeWorld.Inv.pipe_update (h : w.Inv) {received recvs sends sent : P → ℕ}
    (hcounted : Counted pipe (received p) (recvs p) (sends p) (sent p))
    (hother : ∀ q, q ≠ p → received q = w.received q ∧ recvs q = w.recvs q ∧ sends q = w.sends q ∧
      sent q = w.sent q) :
    (∀ q r, Function.update w.pipes p (some pipe) q = some r →
      Counted r (received q) (recvs q) (sends q) (sent q)) ∧
      ∀ q, Function.update w.pipes p (some pipe) q = none → received q = recvs q ∧
        sent q = sends q := by
  constructor
  · intro q r hq
    by_cases hqp : q = p
    · subst hqp
      rw [Function.update_self] at hq
      cases hq
      exact hcounted
    · rw [Function.update_of_ne hqp] at hq
      obtain ⟨h₁, h₂, h₃, h₄⟩ := hother q hqp
      rw [h₁, h₂, h₃, h₄]
      exact h.pipe q r hq
  · intro q hq
    by_cases hqp : q = p
    · subst hqp
      rw [Function.update_self] at hq
      cases hq
    · rw [Function.update_of_ne hqp] at hq
      obtain ⟨h₁, h₂, h₃, h₄⟩ := hother q hqp
      rw [h₁, h₂, h₃, h₄]
      exact h.fresh q hq

theorem raise_ok {e : PipeEvent} (h : (p, e) ∉ w.events) :
    w.raise p e = .ok { w with events := w.events ++ [(p, e)] } := by
  rw [PipeWorld.raise, nnAssert_of h]
  rfl

omit [DecidableEq P] in
theorem nodup_raise {events : List (P × PipeEvent)} {e : PipeEvent} (h : events.Nodup)
    (hp : (p, e) ∉ events) :
    (events ++ [(p, e)]).Nodup := by
  rw [← List.concat_eq_append]
  exact h.concat hp

theorem PipeWorld.Inv.start (h : w.Inv) (hp : w.pipes p = none) (rcvprio sndprio : Fin 16) :
    ∃ w', w.start p rcvprio sndprio = .ok w' ∧ w'.Inv := by
  have hin : ¬ w.CanIn p := fun ⟨r, hr, _⟩ => nomatch hp.symm.trans hr
  have hout : ¬ w.CanOut p := fun ⟨r, hr, _⟩ => nomatch hp.symm.trans hr
  have hev : ∀ e, (p, e) ∉ w.events := by
    intro e
    cases e with
    | pipeIn => exact fun hmem => hin (h.fq.granted p hmem)
    | pipeOut => exact fun hmem => hout (h.lb.granted p hmem)
  obtain ⟨hreceived, hsent⟩ := h.fresh p hp
  have hcounted : Counted { state := .active, instate := .async, outstate := .idle } (w.received p)
      (w.recvs p)
      (w.sends p) (w.sent p) := ⟨rfl, Or.inr ⟨rfl, hreceived⟩, Or.inl ⟨rfl, hsent⟩⟩
  refine ⟨_, raise_ok (hev .pipeOut), ?_⟩
  have hpipe := h.pipe_update hcounted fun _ _ => ⟨rfl, rfl, rfl, rfl⟩
  refine ⟨nodup_raise h.nodup (hev .pipeOut), ?_, ?_, hpipe.1, hpipe.2⟩
  · refine (h.fq.add hin rcvprio).congr (fun q => ?_) fun q => by simp
    rw [canIn_update rfl]
    by_cases hqp : q = p
    · subst hqp
      simp [hin]
    · simp [hqp]
  · refine (h.lb.add hout sndprio).grant hout (fun q => ?_) fun q => by simp
    rw [canOut_update rfl]
    by_cases hqp : q = p
    · simp [hqp]
    · simp [hqp]

/-- The transport announces a message. -/
theorem PipeWorld.Inv.receivedLater (h : w.Inv) (hp : w.pipes p ≠ none)
    (hcount : w.received p = w.recvs p) :
    ∃ w', w.receivedLater p = .ok w' ∧ w'.Inv := by
  obtain ⟨pipe, hpipe⟩ := Option.ne_none_iff_exists'.1 hp
  have hc := h.pipe p pipe hpipe
  have hasync : pipe.instate = .async := by
    rcases hc.inn with ⟨-, h⟩ | ⟨h, -⟩
    · omega
    · exact h
  have hin : ¬ w.CanIn p := not_canIn hpipe (hasync ▸ nofun)
  have hev : (p, .pipeIn) ∉ w.events := fun hmem => hin (h.fq.granted p hmem)
  have hreceived : pipe.received = .ok { pipe with instate := .idle } := by
    simp [Pipebase.received, hasync, nnAssert]
  have hcounted : Counted { pipe with instate := .idle }
      (Function.update w.received p (w.received p + 1) p)
      (w.recvs p) (w.sends p) (w.sent p) := by
    rw [Function.update_self]
    exact ⟨hc.state, Or.inl ⟨rfl, by omega⟩, hc.out⟩
  have hpipes := h.pipe_update hcounted fun q hq => ⟨Function.update_of_ne hq _ _, rfl, rfl, rfl⟩
  unfold PipeWorld.receivedLater
  simp only [hpipe, hreceived, ok_bind]
  refine ⟨_, raise_ok hev, nodup_raise h.nodup hev, ?_, ?_, hpipes.1, hpipes.2⟩
  · refine h.fq.grant hin (fun q => ?_) fun q => by simp
    rw [canIn_update rfl]
    by_cases hqp : q = p <;> simp [hqp]
  · refine h.lb.congr (fun q => ?_) fun q => by simp
    rw [canOut_update rfl]
    by_cases hqp : q = p
    · subst hqp
      simp [PipeWorld.CanOut, hpipe]
    · simp [hqp]

/-- The transport completes a send. -/
theorem PipeWorld.Inv.sentLater (h : w.Inv) (hp : w.pipes p ≠ none)
    (hcount : w.sent p < w.sends p) :
    ∃ w', w.sentLater p = .ok w' ∧ w'.Inv := by
  obtain ⟨pipe, hpipe⟩ := Option.ne_none_iff_exists'.1 hp
  have hc := h.pipe p pipe hpipe
  obtain ⟨hasync, hsends⟩ : pipe.outstate = .async ∧ w.sent p + 1 = w.sends p := by
    rcases hc.out with ⟨-, h⟩ | h
    · omega
    · exact h
  have hout : ¬ w.CanOut p := not_canOut hpipe (hasync ▸ nofun)
  have hev : (p, .pipeOut) ∉ w.events := fun hmem => hout (h.lb.granted p hmem)
  have hsent : pipe.sent = .ok { pipe with outstate := .idle } := by
    simp [Pipebase.sent, hasync, nnAssert]
  have hcounted : Counted { pipe with outstate := .idle } (w.received p) (w.recvs p) (w.sends p)
      (Function.update w.sent p (w.sent p + 1) p) := by
    rw [Function.update_self]
    exact ⟨hc.state, hc.inn, Or.inl ⟨rfl, hsends⟩⟩
  have hpipes := h.pipe_update hcounted fun q hq => ⟨rfl, rfl, rfl, Function.update_of_ne hq _ _⟩
  unfold PipeWorld.sentLater
  simp only [hpipe, hsent, ok_bind]
  refine ⟨_, raise_ok hev, nodup_raise h.nodup hev, ?_, ?_, hpipes.1, hpipes.2⟩
  · refine h.fq.congr (fun q => ?_) fun q => by simp
    rw [canIn_update rfl]
    by_cases hqp : q = p
    · subst hqp
      simp [PipeWorld.CanIn, hpipe]
    · simp [hqp]
  · refine h.lb.grant hout (fun q => ?_) fun q => by simp
    rw [canOut_update rfl]
    by_cases hqp : q = p <;> simp [hqp]

/-- The next event is processed. -/
theorem PipeWorld.Inv.event (h : w.Inv) : ∃ w', w.event = .ok w' ∧ w'.Inv := by
  unfold PipeWorld.event
  have hnodup := h.nodup
  have hfq := h.fq
  have hlb := h.lb
  cases hev : w.events with
  | nil => exact ⟨w, rfl, h⟩
  | cons e events =>
    rw [hev] at hnodup hfq hlb
    obtain ⟨hnot, hevents⟩ := List.nodup_cons.1 hnodup
    have hrest : ∀ (p : P) (e' : PipeEvent), e = (p, e') →
        ∀ q, (q, e') ∈ events ↔ (q, e') ∈ e :: events ∧ q ≠ p := by
      rintro p e' rfl q
      by_cases hqp : q = p
      · subst hqp
        simp [hnot]
      · simp [hqp]
    obtain ⟨p, e⟩ := e
    cases e with
    | pipeIn =>
      obtain ⟨l, heq, hl⟩ := hfq.process List.mem_cons_self (hrest p .pipeIn rfl)
      simp only [heq, ok_bind]
      refine ⟨_, rfl, hevents, hl, ?_, h.pipe, h.fresh⟩
      exact hlb.congr (fun _ => Iff.rfl) fun q => by simp
    | pipeOut =>
      obtain ⟨l, heq, hl⟩ := hlb.process List.mem_cons_self (hrest p .pipeOut rfl)
      simp only [heq, ok_bind]
      refine ⟨_, rfl, hevents, ?_, hl, h.pipe, h.fresh⟩
      exact hfq.congr (fun _ => Iff.rfl) fun q => by simp

theorem Pipebase.recv_ok (hidle : pipe.instate = .idle) (sync : Bool) :
    pipe.recv sync = .ok (!sync, { pipe with instate := if sync then .idle else .async }) := by
  cases sync <;> simp [Pipebase.recv, nnAssert, hidle, Pipebase.received]

theorem Pipebase.send_ok (hidle : pipe.outstate = .idle) (sync : Bool) :
    pipe.send sync = .ok (!sync, { pipe with outstate := if sync then .idle else .async }) := by
  cases sync <;> simp [Pipebase.send, nnAssert, hidle, Pipebase.sent]

/-- The socket receives. -/
theorem PipeWorld.Inv.recv (h : w.Inv) (sync : Bool) : ∃ w', w.recv sync = .ok w' ∧ w'.Inv := by
  unfold PipeWorld.recv
  rcases h.fq.wf.getpipe with ⟨hnone, -⟩ | ⟨p, hget, hact⟩
  · simp only [hnone, ok_bind]
    exact ⟨w, rfl, h⟩
  · obtain ⟨⟨pipe, hpipe, hidle⟩, -⟩ := (h.fq.active p).1 hact
    have hc := h.pipe p pipe hpipe
    have hreceived : w.received p = w.recvs p + 1 := by
      rcases hc.inn with ⟨-, h⟩ | ⟨h, -⟩
      · exact h
      · cases hidle.symm.trans h
    have hcounted : Counted { pipe with instate := if sync then .idle else .async }
        (Function.update w.received p (w.received p + if sync then 1 else 0) p)
        (Function.update w.recvs p (w.recvs p + 1) p) (w.sends p) (w.sent p) := by
      rw [Function.update_self, Function.update_self]
      refine ⟨hc.state, ?_, hc.out⟩
      cases sync with
      | true => exact Or.inl ⟨rfl, congrArg (· + 1) hreceived⟩
      | false => exact Or.inr ⟨rfl, hreceived⟩
    have hpipes := h.pipe_update hcounted fun q hq =>
      ⟨Function.update_of_ne hq _ _, Function.update_of_ne hq _ _, rfl, rfl⟩
    have hcredit :
        ∀ q, (q = p ∧ (if sync then InState.idle else .async) = .idle ∨ q ≠ p ∧ w.CanIn q) ↔
        w.CanIn q ∧ ((!sync) = true → q ≠ p) := by
      intro q
      by_cases hqp : q = p
      · subst hqp
        cases sync <;> simp [PipeWorld.CanIn, hpipe, hidle]
      · simp [hqp]
    obtain ⟨l, hadv, hl⟩ := h.fq.use hget (!sync) hcredit
    simp only [hget, ok_bind, hpipe, Pipebase.recv_ok hidle, hadv]
    refine ⟨_, rfl, h.nodup, hl.congr (fun q => ?_) fun _ => Iff.rfl,
      h.lb.congr (fun q => ?_) fun _ => Iff.rfl, hpipes.1, hpipes.2⟩
    · rw [canIn_update rfl]
    · rw [canOut_update rfl]
      by_cases hqp : q = p
      · subst hqp
        simp [PipeWorld.CanOut, hpipe]
      · simp [hqp]

/-- The socket sends. -/
theorem PipeWorld.Inv.send (h : w.Inv) (sync : Bool) : ∃ w', w.send sync = .ok w' ∧ w'.Inv := by
  unfold PipeWorld.send
  rcases h.lb.wf.getpipe with ⟨hnone, -⟩ | ⟨p, hget, hact⟩
  · simp only [hnone, ok_bind]
    exact ⟨w, rfl, h⟩
  · obtain ⟨⟨pipe, hpipe, hidle⟩, -⟩ := (h.lb.active p).1 hact
    have hc := h.pipe p pipe hpipe
    have hsent : w.sent p = w.sends p := by
      rcases hc.out with ⟨-, h⟩ | ⟨h, -⟩
      · exact h
      · cases hidle.symm.trans h
    have hcounted : Counted { pipe with outstate := if sync then .idle else .async } (w.received p)
        (w.recvs p)
        (Function.update w.sends p (w.sends p + 1) p)
        (Function.update w.sent p (w.sent p + if sync then 1 else 0) p) := by
      rw [Function.update_self, Function.update_self]
      refine ⟨hc.state, hc.inn, ?_⟩
      cases sync with
      | true => exact Or.inl ⟨rfl, congrArg (· + 1) hsent⟩
      | false => exact Or.inr ⟨rfl, congrArg (· + 1) hsent⟩
    have hpipes := h.pipe_update hcounted fun q hq =>
      ⟨rfl, rfl, Function.update_of_ne hq _ _, Function.update_of_ne hq _ _⟩
    have hcredit :
        ∀ q, (q = p ∧ (if sync then OutState.idle else .async) = .idle ∨ q ≠ p ∧ w.CanOut q) ↔
        w.CanOut q ∧ ((!sync) = true → q ≠ p) := by
      intro q
      by_cases hqp : q = p
      · subst hqp
        cases sync <;> simp [PipeWorld.CanOut, hpipe, hidle]
      · simp [hqp]
    obtain ⟨l, hadv, hl⟩ := h.lb.use hget (!sync) hcredit
    simp only [hget, ok_bind, hpipe, Pipebase.send_ok hidle, hadv]
    refine ⟨_, rfl, h.nodup, h.fq.congr (fun q => ?_) fun _ => Iff.rfl,
      hl.congr (fun q => ?_) fun _ => Iff.rfl, hpipes.1, hpipes.2⟩
    · rw [canIn_update rfl]
      by_cases hqp : q = p
      · subst hqp
        simp [PipeWorld.CanIn, hpipe]
      · simp [hqp]
    · rw [canOut_update rfl]

/-- Every action that can happen succeeds and keeps the invariant. -/
theorem PipeWorld.Inv.step (h : w.Inv) {a : PipeAction P} (ha : w.Enabled a) :
    ∃ w', w.step a = .ok (w', ()) ∧ w'.Inv := by
  have hlift : ∀ {x : Except Fault (PipeWorld P)}, (∃ w', x = .ok w' ∧ w'.Inv) →
      ∃ w', (x >>= fun w => pure (w, ())) = (.ok (w', ()) : Except Fault _) ∧ w'.Inv := by
    rintro x ⟨w', rfl, hw'⟩
    exact ⟨w', rfl, hw'⟩
  cases a with
  | start p rcvprio sndprio => exact hlift (h.start ha rcvprio sndprio)
  | received p => exact hlift (h.receivedLater ha.1 ha.2)
  | sent p => exact hlift (h.sentLater ha.1 ha.2)
  | event => exact hlift h.event
  | recv sync => exact hlift (h.recv sync)
  | send sync => exact hlift (h.send sync)

end Step

theorem pipeWorld_inv {as : List (PipeAction P)} {w : PipeWorld P}
    (h : Trace PipeWorld.step PipeWorld.Enabled .init as w) : w.Inv := by
  have hinit : (PipeWorld.init : PipeWorld P).Inv := by
    have hlist : CreditList (Priolist.init : Priolist P) (fun _ => False) fun _ => False :=
      ⟨Priolist.init_wf, fun _ => id, fun p => by simp [Priolist.not_active_init]⟩
    refine ⟨List.nodup_nil, hlist.congr ?_ ?_, hlist.congr ?_ ?_, nofun, fun _ _ => ⟨rfl, rfl⟩⟩
    all_goals simp [PipeWorld.CanIn, PipeWorld.CanOut, PipeWorld.init]
  apply h.invariant_of_step (I := fun _ w => w.Inv) hinit
  intro _ w a hw ha
  obtain ⟨w', heq, hinv⟩ := hw.step ha
  exact ⟨w', (), heq, hinv⟩

/-- In every run of a socket with any number of pipes no assertion fails, a pipe is in the fair
queue exactly when its in-state is `IDLE` and its `IN` event was processed, in the same way for the
load balancer, and every message that the transport has announced was received once, unless the
in-state is `IDLE` and it is still to be received. -/
theorem pipe_credit (as : List (PipeAction P)) (w : PipeWorld P)
    (h : Trace PipeWorld.step PipeWorld.Enabled .init as w) :
    (∀ a, w.Enabled a → ∃ w', w.step a = .ok (w', ())) ∧
      ∀ p pipe, w.pipes p = some pipe →
        (w.fq.Active p ↔ pipe.instate = .idle ∧ (p, .pipeIn) ∉ w.events) ∧
        (w.lb.Active p ↔ pipe.outstate = .idle ∧ (p, .pipeOut) ∉ w.events) ∧
        w.received p = w.recvs p + (if pipe.instate = .idle then 1 else 0) ∧
        w.sends p = w.sent p + (if pipe.outstate = .idle then 0 else 1) := by
  have hinv := pipeWorld_inv h
  refine ⟨fun a ha => ?_, fun p pipe hpipe => ⟨?_, ?_, ?_, ?_⟩⟩
  · obtain ⟨w', heq, -⟩ := hinv.step ha
    exact ⟨w', heq⟩
  · rw [hinv.fq.active]
    simp [PipeWorld.CanIn, hpipe]
  · rw [hinv.lb.active]
    simp [PipeWorld.CanOut, hpipe]
  · rcases (hinv.pipe p pipe hpipe).inn with ⟨hin, hcount⟩ | ⟨hin, hcount⟩
    all_goals simp [hin, hcount]
  · rcases (hinv.pipe p pipe hpipe).out with ⟨hout, hcount⟩ | ⟨hout, hcount⟩
    all_goals simp [hout, ← hcount]

/-- Two pipes, one of which announces its second message within the call. -/
theorem pipe_credit_two : ∃ w : PipeWorld Bool, Trace PipeWorld.step PipeWorld.Enabled .init
      [.start true 0 0, .received true, .start false 3 0, .event, .event, .recv true, .send false,
        .event, .send true, .received false] w ∧
    (w.received true = 2 ∧ w.recvs true = 1 ∧ w.sends true = 1 ∧ w.sent false = 1) ∧
      w.fq.Active true ∧
    ¬ w.fq.Active false := by
  obtain ⟨w, hrun, hcounts, htrue, hfalse⟩ :
    ∃ w : PipeWorld Bool, Trace PipeWorld.step PipeWorld.Enabled .init
      [.start true 0 0, .received true, .start false 3 0, .event, .event, .recv true, .send false,
        .event, .send true, .received false] w ∧
      (w.received true = 2 ∧ w.recvs true = 1 ∧ w.sends true = 1 ∧ w.sent false = 1) ∧
      (w.pipes true = some ⟨.active, .idle, .async⟩ ∧ (true, .pipeIn) ∉ w.events) ∧
      (w.pipes false = some ⟨.active, .idle, .idle⟩ ∧ (false, .pipeIn) ∈ w.events) :=
    Trace.exists_of_runWhile (by decide)
  obtain ⟨-, hpipe⟩ := pipe_credit _ w hrun
  refine ⟨w, hrun, hcounts, (hpipe true _ htrue.1).1.2 ⟨rfl, htrue.2⟩, fun hact => ?_⟩
  exact ((hpipe false _ hfalse.1).1.1 hact).2 hfalse.2

end World

end NanoSocket

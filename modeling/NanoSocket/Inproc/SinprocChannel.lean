import NanoSocket.Inproc.Sinproc
import NanoSocket.Lib.Runs

/-!
# Inproc sessions are a pair of channels (`transports/inproc/sinproc.c`)

A message is exposed by its sender, fetched by the receiver when `SENT` is delivered or, if the
queue was full, by a later `nn_sinproc_recv`, and acknowledged by `RECEIVED`.  A `Channel` records
beside the world what the two sockets have sent and received.

The invariant has two parts.  `Stage.At` says how far the two sessions are connected.  `Flow` is
about one direction: the flag `SENDING` is accounted for by exactly one of a `SENT` on its way, the
flag `RECEIVING` and a `RECEIVED` on its way, and what was sent is what was received, what is
queued, and what is parked.
-/

namespace NanoSocket.Inproc

/-- The world with what was sent and what was received on each side. -/
structure Channel where
  world : World
  sent : Side → List Msg
  got : Side → List Msg

/-- Two sessions that were just allocated. -/
def Channel.init (rcvbuf : Side → ℕ) : Channel :=
  { world := .init rcvbuf, sent := fun _ => [], got := fun _ => [] }

/-- Record a step and its answer. -/
def Channel.record (c : Channel) (w : World) : Step → Option Msg → Channel
  | .send s msg, _ =>
    { c with world := w, sent := Function.update c.sent s (c.sent s ++ [joined msg]) }
  | .recv s, some msg => { c with world := w, got := Function.update c.got s (c.got s ++ [msg]) }
  | _, _ => { c with world := w }

/-- A step, recorded. -/
def Channel.step (c : Channel) (e : Step) : Except Fault (Channel × Unit) := do
  let (w, answer) ← c.world.step e
  return (c.record w e answer, ())

/-- The steps by which two sessions connect and transfer messages: neither is stopped, a socket
takes the new pipe, and a message is announced to a session that is `ACTIVE`. -/
def Transfer (c : Channel) (e : Step) : Prop :=
  Enabled c.world e ∧
    match e with
    | .stop _ => False
    | .deliver i added => added = true ∧
        ∀ f ∈ (c.world.flight[i]?.bind Batch.hand), f.kind = .sent →
          (c.world.sess f.dst).state = .active
    | _ => True

instance (c : Channel) (e : Step) : Decidable (Transfer c e) :=
  match e with
  | .stop _ => inferInstanceAs (Decidable (_ ∧ False))
  | .deliver _ _ => inferInstanceAs (Decidable (_ ∧ _ ∧ _))
  | .connect | .send _ _ | .recv _ | .leave _ | .take _ => inferInstanceAs (Decidable (_ ∧ True))

/-! ### The invariant -/

/-- How far the two sessions are connected. -/
inductive Stage
  | fresh
  | connecting
  | accepting
  | accepted
  | active
  deriving DecidableEq, Repr

/-- The state of a session. -/
def Stage.state : Stage → Side → SinprocState
  | .fresh, _ => .idle
  | .connecting, .a => .connecting
  | .connecting, .b => .idle
  | .accepting, .a => .connecting
  | .accepting, .b => .ready
  | .accepted, .a => .active
  | .accepted, .b => .ready
  | .active, _ => .active

/-- The event of the handshake that is on its way. -/
def Stage.event : Stage → Option Ev
  | .fresh | .active => none
  | .connecting => some ⟨.b, .connect⟩
  | .accepting => some ⟨.a, .ready⟩
  | .accepted => some ⟨.b, .accepted⟩

/-- The world is in a stage. -/
structure Stage.At (g : Stage) (w : World) : Prop where
  state : ∀ s, (w.sess s).state = g.state s
  fsm : ∀ s, (w.sess s).fsm = if g.state s = .idle then .idle else .active
  peer : ∀ s, (w.sess s).peer = if g.state s = .ready ∨ g.state s = .active then some s.other
    else none
  pipebase : ∀ s, (w.sess s).pipebase.state = if g.state s = .active then .active else .idle
  pending : ∀ e : Ev, e.kind ≠ .sent → e.kind ≠ .received → w.pending e = if g.event = some e then 1
    else 0

/-- The direction from the session `out` to the session `into`, with the numbers of `SENT` and
`RECEIVED` events on their way and the messages sent and received. -/
structure Flow (out into : Sinproc) (sents receiveds : ℕ) (sent got : List Msg) : Prop where
  wf : into.msgqueue.Wf
  token : out.sending.toNat = sents + into.receiving.toNat + receiveds
  idleOut : out.state ≠ .active → out.sending = false
  outstate : out.state = .active → out.pipebase.outstate = if out.sending then .async else .idle
  idleIn : into.state ≠ .active → into.msgqueue.contents = [] ∧ into.receiving = false
  instate : into.state = .active →
    into.pipebase.instate = if into.msgqueue.contents = [] then .async else .idle
  full : into.receiving = true → into.msgqueue.Full out.msg
  log : sent = got ++ into.msgqueue.contents ++ if 0 < sents + into.receiving.toNat then [out.msg]
    else []

/-- The flow from `x` to the other session. -/
def Channel.FlowFrom (c : Channel) (x : Side) : Prop :=
  Flow (c.world.sess x) (c.world.sess x.other) (c.world.pending ⟨x.other, .sent⟩)
    (c.world.pending ⟨x, .received⟩) (c.sent x) (c.got x.other)

/-- The invariant of a channel. -/
def Channel.Inv (c : Channel) : Prop := (∃ g : Stage, g.At c.world) ∧ ∀ x, c.FlowFrom x

theorem Channel.init_inv (rcvbuf : Side → ℕ) : (Channel.init rcvbuf).Inv := by
  refine ⟨⟨.fresh, ?_⟩, fun x => ?_⟩
  · exact ⟨fun _ => rfl, fun _ => rfl, fun _ => rfl, fun _ => rfl,
      fun e _ _ => World.init_pending rcvbuf e⟩
  · constructor
    · exact nnMsgqueueInit_wf _
    · rfl
    · exact fun _ => rfl
    · intro h
      cases h
    · exact fun _ => ⟨nnMsgqueueInit_contents _, rfl⟩
    · intro h
      cases h
    · intro h
      cases h
    · rfl

/-- What matters of a session to the messages it sends. -/
def Sinproc.outward (x : Sinproc) : Prop × Bool × OutState × Msg :=
  (x.state = .active, x.sending, x.pipebase.outstate, x.msg)

/-- What matters of a session to the messages it receives. -/
def Sinproc.inward (x : Sinproc) : Prop × Bool × InState × Msgqueue :=
  (x.state = .active, x.receiving, x.pipebase.instate, x.msgqueue)

theorem Flow.congr {out into out' into' : Sinproc} {sents receiveds : ℕ} {sent got : List Msg}
    (h : Flow out into sents receiveds sent got) (hout : out'.outward = out.outward)
    (hinto : into'.inward = into.inward) : Flow out' into' sents receiveds sent got := by
  simp only [Sinproc.outward, Sinproc.inward, Prod.mk.injEq] at hout hinto
  obtain ⟨hout₁, hout₂, hout₃, hout₄⟩ := hout
  obtain ⟨hinto₁, hinto₂, hinto₃, hinto₄⟩ := hinto
  constructor
  · rw [hinto₄]
    exact h.wf
  · rw [hout₂, hinto₂]
    exact h.token
  · rw [ne_eq, hout₁, hout₂]
    exact h.idleOut
  · rw [hout₁, hout₂, hout₃]
    exact h.outstate
  · rw [ne_eq, hinto₁, hinto₂, hinto₄]
    exact h.idleIn
  · rw [hinto₁, hinto₃, hinto₄]
    exact h.instate
  · rw [hinto₂, hinto₄, hout₄]
    exact h.full
  · rw [hinto₂, hinto₄, hout₄]
    exact h.log

/-! ### The operations -/

theorem Ev.object_sent {f : Ev} {d : Side} : f.object = (d, .sent) ↔ f = ⟨d, .sent⟩ := by
  obtain ⟨dst, kind⟩ := f
  cases kind <;> simp [Ev.object]

theorem Ev.object_received {f : Ev} {d : Side} :
    f.object = (d, .received) ↔ f = ⟨d, .received⟩ := by
  obtain ⟨dst, kind⟩ := f
  cases kind <;> simp [Ev.object]

/-- The message is exposed, and the peer is told. -/
theorem nnSinprocSend_spec {w : World} {s : Side} (msg : Msg) (hstate : (w.sess s).state = .active)
    (hsending : (w.sess s).sending = false) (hpeer : (w.sess s).peer = some s.other)
    (hfree : w.pending ⟨s.other, .sent⟩ = 0) :
    ∃ w', nnSinprocSend w s msg = .ok (none, w') ∧ Raised w w' ⟨s.other, .sent⟩ ∧
      w'.sess = Function.update w.sess s { w.sess s with msg := joined msg, sending := true } := by
  have hobj : ∀ f : Ev, f.object = Ev.object ⟨s.other, .sent⟩ →
      (w.set s { w.sess s with msg := joined msg, sending := true }).pending f = 0 := by
    intro f hf
    obtain rfl := Ev.object_sent.1 hf
    exact hfree
  obtain ⟨w', heq, hsess, hraised⟩ := nnFsmRaiseto_ok s hobj
  refine ⟨w', ?_, hraised, hsess⟩
  unfold nnSinprocSend
  dsimp only at heq ⊢
  rw [if_neg (by simp [hstate]), nnAssert_of hstate, nnAssert_of hsending, ok_bind, ok_bind, hpeer]
  dsimp only
  rw [← hpeer, heq]
  rfl

theorem World.pipeSend_spec {w : World} {s : Side} (msg : Msg) (hstate : (w.sess s).state = .active)
    (hsending : (w.sess s).sending = false) (hpeer : (w.sess s).peer = some s.other)
    (hout : (w.sess s).pipebase.outstate = .idle) (hfree : w.pending ⟨s.other, .sent⟩ = 0) :
    ∃ w', w.pipeSend s msg = .ok w' ∧ Raised w w' ⟨s.other, .sent⟩ ∧
      w'.sess = Function.update w.sess s { w.sess s with
        msg := joined msg, sending := true,
        pipebase := { (w.sess s).pipebase with outstate := .async } } := by
  obtain ⟨w', heq, hraised, hsess⟩ := nnSinprocSend_spec (w := w.set s { w.sess s with
      pipebase := { (w.sess s).pipebase with outstate := .sending } }) msg (by simpa using hstate)
      (by simpa using hsending) (by simpa using hpeer) hfree
  have hself : (w'.sess s).pipebase.outstate = .sending := by simp [hsess]
  refine ⟨w'.set s { w'.sess s with pipebase := { (w'.sess s).pipebase with outstate := .async } },
    ?_, hraised, ?_⟩
  · unfold World.pipeSend
    dsimp only at heq ⊢
    rw [nnAssert_of hout, ok_bind, heq, ok_bind]
    dsimp only
    rw [nnAssert_of rfl, ok_bind, if_neg (by simp [hself]), nnAssert_of hself]
    rfl
  · rw [World.set_sess, hsess]
    simp

/-- What `nn_sinproc_recv` leaves behind: the message was taken and nothing was parked or fits, or
the parked message was fetched. -/
inductive RecvDone (w : World) (s : Side) (msg : Msg) (instate : Msgqueue → InState) (w' : World) :
    Prop
  | kept (q : Msgqueue) (wf : q.Wf) (contents : (w.sess s).msgqueue.contents = msg :: q.contents)
      (full : (w.sess s).receiving = true → q.Full (w.sess s.other).msg)
      (pending : w'.pending = w.pending)
      (sess : w'.sess = Function.update w.sess s { w.sess s with
        msgqueue := q, pipebase := { (w.sess s).pipebase with instate := instate q } })
  | fetched (q : Msgqueue) (rest : List Msg) (wf : q.Wf)
      (contents : (w.sess s).msgqueue.contents = msg :: rest)
      (receiving : (w.sess s).receiving = true)
      (queued : q.contents = rest ++ [(w.sess s.other).msg])
      (raised : Raised w w' ⟨s.other, .received⟩)
      (sess : w'.sess = Function.update (Function.update w.sess s.other
        { w.sess s.other with msg := .init }) s { w.sess s with
          msgqueue := q, receiving := false,
          pipebase := { (w.sess s).pipebase with instate := instate q } })

theorem nnSinprocRecv_spec {w : World} {s : Side} (hstate : (w.sess s).state = .active)
    (hpeer : (w.sess s).peer = some s.other) (hwf : (w.sess s).msgqueue.Wf)
    (hne : (w.sess s).msgqueue.contents ≠ []) (hin : (w.sess s).pipebase.instate = .receiving)
    (hfree : (w.sess s).receiving = true → w.pending ⟨s.other, .received⟩ = 0) :
    ∃ msg w', nnSinprocRecv w s = .ok (msg, w') ∧
      RecvDone w s msg (fun q => if q.contents = [] then .receiving else .received) w' := by
  obtain ⟨hnil, -⟩ | ⟨msg, q, heq, hq, -, hcont⟩ := nnMsgqueueRecv_spec hwf
  · exact absurd hnil hne
  -- the end of the function, whatever was fetched
  have hend : ∀ w₁ : World, (w₁.sess s).msgqueue.Wf → (w₁.sess s).pipebase.instate = .receiving →
      (if nnMsgqueueEmpty (w₁.sess s).msgqueue then (pure (msg, w₁) : Except Fault _)
        else do return (msg,
          w₁.set s { w₁.sess s with pipebase := ← (w₁.sess s).pipebase.received })) =
      .ok (msg, w₁.set s { w₁.sess s with
        pipebase := { (w₁.sess s).pipebase with
          instate := if (w₁.sess s).msgqueue.contents = [] then .receiving else .received } }) := by
    intro w₁ hwf₁ hin₁
    by_cases hempty : (w₁.sess s).msgqueue.contents = []
    · rw [if_pos ((nnMsgqueueEmpty_iff hwf₁).2 hempty), if_pos hempty, ← hin₁]
      show Except.ok (msg, w₁) =
        .ok (msg, { w₁ with sess := Function.update w₁.sess s (w₁.sess s) })
      rw [Function.update_eq_self]
    · rw [if_neg (fun h => hempty ((nnMsgqueueEmpty_iff hwf₁).1 h)), if_neg hempty]
      unfold Pipebase.received
      rw [if_pos hin₁]
      rfl
  unfold nnSinprocRecv
  dsimp only at hend ⊢
  rw [nnAssert_of (Or.inl hstate), ok_bind, heq, ok_bind]
  dsimp only
  by_cases hrec : (w.sess s).receiving = true
  · rw [if_pos ⟨by simp [hstate], hrec⟩, hpeer]
    dsimp only
    have hmsg : ∀ x, ((w.set s x).sess s.other).msg = (w.sess s.other).msg := fun x => by simp
    rw [hmsg]
    obtain ⟨hfull, heq'⟩ | ⟨-, q', heq', hq', -, hcont'⟩ :=
      nnMsgqueueSend_spec hq (w.sess s.other).msg
    · rw [heq', ok_bind]
      dsimp only
      rw [if_neg (by simp), pure_eq_ok, ok_bind, hend _ (by simpa using hq) (by simpa using hin)]
      refine ⟨msg, _, rfl, .kept q hq hcont (fun _ => hfull) rfl ?_⟩
      simp [hpeer]
    · rw [heq', ok_bind]
      dsimp only
      rw [if_pos rfl]
      obtain ⟨w', heq₁, hsess, hraised⟩ := nnFsmRaiseto_ok s (e := ⟨s.other, .received⟩)
        (w := ((w.set s { w.sess s with msgqueue := q' }).set s.other
            { w.sess s.other with msg := .init })) (by
          intro f hf
          obtain rfl := Ev.object_received.1 hf
          exact hfree hrec)
      have hself : w'.sess s = { w.sess s with msgqueue := q' } := by simp [hsess]
      simp only [World.set_set, World.set_sess, hpeer, Function.update_self, ne_eq, Side.other_ne,
        not_false_eq_true, Function.update_of_ne] at heq₁ hself ⊢
      rw [heq₁, ok_bind, pure_eq_ok, ok_bind,
        hend _ (by simpa [hself] using hq') (by simpa [hself] using hin)]
      refine ⟨msg, _, rfl, .fetched q' q.contents hq' hcont hrec hcont' hraised ?_⟩
      simp only [World.set_set, World.set_sess, Function.update_self, hself, hsess]
      funext t
      rcases Side.eq_or_eq_other s t with rfl | rfl <;> simp [hpeer]
  · rw [if_neg (fun h => hrec h.2), pure_eq_ok, ok_bind,
      hend _ (by simpa using hq) (by simpa using hin)]
    refine ⟨msg, _, rfl, .kept q hq hcont (fun h => absurd h hrec) rfl ?_⟩
    simp

theorem World.pipeRecv_spec {w : World} {s : Side} (hstate : (w.sess s).state = .active)
    (hpeer : (w.sess s).peer = some s.other) (hwf : (w.sess s).msgqueue.Wf)
    (hne : (w.sess s).msgqueue.contents ≠ []) (hin : (w.sess s).pipebase.instate = .idle)
    (hfree : (w.sess s).receiving = true → w.pending ⟨s.other, .received⟩ = 0) :
    ∃ msg w', w.pipeRecv s = .ok (msg, w') ∧
      RecvDone w s msg (fun q => if q.contents = [] then .async else .idle) w' := by
  obtain ⟨msg, w', heq, hdone⟩ := nnSinprocRecv_spec (w := w.set s { w.sess s with
      pipebase := { (w.sess s).pipebase with instate := .receiving } }) (s := s)
        (by simpa using hstate)
      (by simpa using hpeer) (by simpa using hwf) (by simpa using hne) (by simp)
      (by simpa using hfree)
  have hend : ∀ q : Msgqueue, (w'.sess s).pipebase.instate =
      (if q.contents = [] then .receiving else .received) →
      w.pipeRecv s = .ok (msg, w'.set s { w'.sess s with
        pipebase := { (w'.sess s).pipebase with instate := if q.contents = [] then .async
          else .idle } }) := by
    intro q hq
    unfold World.pipeRecv
    dsimp only at heq ⊢
    rw [nnAssert_of hin, ok_bind, heq, ok_bind]
    dsimp only
    by_cases hempty : q.contents = []
    · rw [if_pos hempty] at hq ⊢
      rw [if_neg (by simp [hq]), nnAssert_of hq]
      rfl
    · rw [if_neg hempty] at hq ⊢
      rw [if_pos hq]
      rfl
  cases hdone with
  | kept q hq hcont hfull hpending hsess =>
    refine ⟨msg, _, hend q (by simp [hsess]),
      .kept q hq (by simpa using hcont) (by simpa using hfull) (by simpa using hpending) ?_⟩
    simp [hsess]
  | fetched q rest hq hcont hrec hqueued hraised hsess =>
    refine ⟨msg, _, hend q (by simp [hsess]),
      .fetched q rest hq (by simpa using hcont) (by simpa using hrec)
      (by simpa using hqueued) hraised ?_⟩
    rw [World.set_sess, hsess]
    funext t
    rcases Side.eq_or_eq_other s t with rfl | rfl <;> simp

/-- What the delivery of `SENT` leaves behind: the message is parked or queued. -/
inductive SentDone (w : World) (s : Side) (w' : World) : Prop
  | parked (full : (w.sess s).msgqueue.Full (w.sess s.other).msg) (pending : w'.pending = w.pending)
      (sess : w'.sess = Function.update w.sess s { w.sess s with receiving := true })
  | queued (q : Msgqueue) (wf : q.Wf)
      (queued : q.contents = (w.sess s).msgqueue.contents ++ [(w.sess s.other).msg])
      (raised : Raised w w' ⟨s.other, .received⟩)
      (sess : w'.sess = Function.update (Function.update w.sess s.other
        { w.sess s.other with msg := .init }) s { w.sess s with
          msgqueue := q, pipebase := { (w.sess s).pipebase with instate := .idle } })

theorem nnSinprocHandler_sent {w : World} {s : Side} (added : Bool)
    (hstate : (w.sess s).state = .active) (hpeer : (w.sess s).peer = some s.other)
    (hwf : (w.sess s).msgqueue.Wf)
    (hin : (w.sess s).pipebase.instate = if (w.sess s).msgqueue.contents = [] then
      .async else .idle)
    (hfree : w.pending ⟨s.other, .received⟩ = 0) :
    ∃ w', nnSinprocHandler w s s.other added (.peer .sent) = .ok w' ∧ SentDone w s w' := by
  have hraise : ∀ (q : Msgqueue) (w₁ : World), q.Wf →
      q.contents = (w.sess s).msgqueue.contents ++ [(w.sess s.other).msg] → w₁.pending = w.pending →
      w₁.sess =
        Function.update (Function.update w.sess s.other { w.sess s.other with msg := .init }) s
        { w.sess s with msgqueue := q, pipebase := { (w.sess s).pipebase with instate := .idle } } →
      ∃ w', nnFsmRaiseto w₁ s ⟨s.other, .received⟩ = .ok w' ∧ SentDone w s w' := by
    intro q w₁ hq hcont hpending hsess₁
    have hobj : ∀ f : Ev, f.object = Ev.object ⟨s.other, .received⟩ → w₁.pending f = 0 := by
      intro f hf
      obtain rfl := Ev.object_received.1 hf
      rw [hpending, hfree]
    obtain ⟨w', heq, hsess, hraised⟩ := nnFsmRaiseto_ok s hobj
    refine ⟨w', heq, .queued q hq hcont ?_ (hsess.trans hsess₁)⟩
    intro f
    rw [hraised f, hpending]
  unfold nnSinprocHandler
  dsimp only
  rw [hstate, hpeer]
  dsimp only
  obtain ⟨hfull, heq⟩ | ⟨-, q, heq, hq, -, hcont⟩ := nnMsgqueueSend_spec hwf (w.sess s.other).msg
  · rw [heq]
    refine ⟨_, rfl, .parked hfull rfl ?_⟩
    simp [hstate, hpeer]
  rw [heq, ok_bind]
  dsimp only
  rw [if_neg (by simp)]
  by_cases hempty : (w.sess s).msgqueue.contents = []
  · rw [if_pos hempty] at hin
    have hgot :
        (w.sess s).pipebase.received = .ok { (w.sess s).pipebase with instate := .idle } := by
      unfold Pipebase.received
      rw [if_neg (by simp [hin]), nnAssert_of hin]
      rfl
    rw [if_pos ((nnMsgqueueEmpty_iff hwf).2 hempty)]
    simp only [World.set_sess, Function.update_self, ne_eq, Side.ne_other, not_false_eq_true,
      Function.update_of_ne, hgot, ok_bind, pure_eq_ok]
    refine hraise q _ hq hcont rfl ?_
    funext t
    rcases Side.eq_or_eq_other s t with rfl | rfl <;> simp [hstate, hpeer]
  · rw [if_neg hempty] at hin
    rw [if_neg (fun h => hempty ((nnMsgqueueEmpty_iff hwf).1 h)), pure_eq_ok, ok_bind]
    refine hraise q _ hq hcont rfl ?_
    funext t
    rcases Side.eq_or_eq_other s t with rfl | rfl <;> simp [hstate, hpeer, ← hin]

/-! ### One direction -/

section Flow

variable {out into : Sinproc} {sents receiveds : ℕ} {sent got : List Msg}

theorem Flow.send (h : Flow out into sents receiveds sent got) (hstate : out.state = .active)
    (hsending : out.sending = false) (msg : Msg) :
    Flow { out with msg := msg, sending := true,
                    pipebase := { out.pipebase with outstate := .async } } into
      (sents + 1) receiveds (sent ++ [msg]) got := by
  have htoken := h.token
  rw [hsending] at htoken
  have hnot : into.receiving = false := by
    cases hrec : into.receiving with
    | false => rfl
    | true =>
      simp only [hrec, Bool.toNat_true, Bool.toNat_false] at htoken
      omega
  have hlog := h.log
  simp only [hnot, Bool.toNat_false] at htoken hlog
  constructor
  · exact h.wf
  · show Bool.toNat true = _
    rw [hnot]
    simp only [Bool.toNat_true, Bool.toNat_false]
    omega
  · exact fun hne => absurd hstate hne
  · exact fun _ => rfl
  · exact h.idleIn
  · exact h.instate
  · intro hrec
    rw [hnot] at hrec
    cases hrec
  · rw [hlog, if_neg (by omega), if_pos (by omega), List.append_nil]

theorem Flow.kept (h : Flow out into sents receiveds sent got) {msg : Msg} {q : Msgqueue}
    (hq : q.Wf) (hcont : into.msgqueue.contents = msg :: q.contents) (hstate : into.state = .active)
    (hfull : into.receiving = true → q.Full out.msg) :
    Flow out { into with msgqueue := q, pipebase := { into.pipebase with
      instate := if q.contents = [] then .async else .idle } } sents receiveds sent
        (got ++ [msg]) := by
  constructor
  · exact hq
  · exact h.token
  · exact h.idleOut
  · exact h.outstate
  · exact fun hne => absurd hstate hne
  · exact fun _ => rfl
  · exact hfull
  · rw [h.log, hcont]
    simp

theorem Flow.fetched (h : Flow out into sents receiveds sent got) {msg : Msg} {rest : List Msg}
    {q : Msgqueue} (hq : q.Wf) (hcont : into.msgqueue.contents = msg :: rest)
    (hstate : into.state = .active) (hrec : into.receiving = true)
    (hqueued : q.contents = rest ++ [out.msg]) :
    Flow { out with msg := .init } { into with
      msgqueue := q, receiving := false,
      pipebase := { into.pipebase with instate := if q.contents = [] then .async else .idle } }
      sents (receiveds + 1) sent (got ++ [msg]) := by
  have htoken := h.token
  have hle := out.sending.toNat_le
  have hlog := h.log
  simp only [hrec, Bool.toNat_true] at htoken hlog
  constructor
  · exact hq
  · show out.sending.toNat = sents + Bool.toNat false + (receiveds + 1)
    rw [Bool.toNat_false]
    omega
  · exact h.idleOut
  · exact h.outstate
  · exact fun hne => absurd hstate hne
  · exact fun _ => rfl
  · intro hfalse
    cases hfalse
  · show sent = got ++ [msg] ++ q.contents ++ if 0 < sents + Bool.toNat false then [_] else []
    rw [hlog, if_pos (by omega), if_neg (by rw [Bool.toNat_false]; omega), hcont, hqueued]
    simp

theorem Flow.parked (h : Flow out into (sents + 1) receiveds sent got)
    (hstate : into.state = .active) (hfull : into.msgqueue.Full out.msg) :
    Flow out { into with receiving := true } sents receiveds sent got := by
  have htoken := h.token
  have hle := out.sending.toNat_le
  constructor
  · exact h.wf
  · show _ = sents + Bool.toNat true + receiveds
    rw [Bool.toNat_true]
    omega
  · exact h.idleOut
  · exact h.outstate
  · exact fun hne => absurd hstate hne
  · exact h.instate
  · exact fun _ => hfull
  · rw [h.log, if_pos (by omega), if_pos (by rw [Bool.toNat_true]; omega)]

theorem Flow.queued (h : Flow out into (sents + 1) receiveds sent got) {q : Msgqueue} (hq : q.Wf)
    (hstate : into.state = .active) (hqueued : q.contents = into.msgqueue.contents ++ [out.msg]) :
    Flow { out with msg := .init }
      { into with msgqueue := q, pipebase := { into.pipebase with instate := .idle } }
      sents (receiveds + 1) sent got := by
  have htoken := h.token
  have hle := out.sending.toNat_le
  have hnot : into.receiving = false := by
    cases hrec : into.receiving with
    | false => rfl
    | true =>
      rw [hrec, Bool.toNat_true] at htoken
      omega
  constructor
  · exact hq
  · show out.sending.toNat = sents + into.receiving.toNat + (receiveds + 1)
    omega
  · exact h.idleOut
  · exact h.outstate
  · exact fun hne => absurd hstate hne
  · intro _
    show InState.idle = if q.contents = [] then .async else .idle
    rw [if_neg (by rw [hqueued]; simp)]
  · intro hrec
    exact absurd hrec (by simp [hnot])
  · show sent = got ++ q.contents ++ if 0 < sents + into.receiving.toNat then [_] else []
    rw [h.log, if_pos (by omega), if_neg (by omega), hqueued]
    simp

theorem Flow.received (h : Flow out into sents (receiveds + 1) sent got) :
    out.sending = true ∧ Flow { out with
      sending := false, pipebase := { out.pipebase with outstate := .idle } } into sents
        receiveds sent got := by
  have htoken := h.token
  have hsending : out.sending = true := by
    cases hs : out.sending with
    | true => rfl
    | false =>
      rw [hs, Bool.toNat_false] at htoken
      omega
  rw [hsending, Bool.toNat_true] at htoken
  refine ⟨hsending, ?_⟩
  constructor
  · exact h.wf
  · show Bool.toNat false = _
    rw [Bool.toNat_false]
    omega
  · exact fun _ => rfl
  · exact fun _ => rfl
  · exact h.idleIn
  · exact h.instate
  · exact h.full
  · exact h.log

/-- A session that becomes `ACTIVE` has nothing to send yet. -/
theorem Flow.startOut (h : Flow out into sents receiveds sent got) (hne : out.state ≠ .active)
    {out' : Sinproc} (hsending : out'.sending = out.sending) (hmsg : out'.msg = out.msg)
    (hout : out'.pipebase.outstate = .idle) : Flow out' into sents receiveds sent got := by
  have hnot : out'.sending = false := hsending.trans (h.idleOut hne)
  constructor
  · exact h.wf
  · rw [hsending]
    exact h.token
  · exact fun _ => hnot
  · intro _
    rw [hout, hnot]
    rfl
  · exact h.idleIn
  · exact h.instate
  · rw [hmsg]
    exact h.full
  · rw [hmsg]
    exact h.log

/-- A session that becomes `ACTIVE` has received nothing yet. -/
theorem Flow.startIn (h : Flow out into sents receiveds sent got) (hne : into.state ≠ .active)
    {into' : Sinproc} (hreceiving : into'.receiving = into.receiving)
    (hqueue : into'.msgqueue = into.msgqueue) (hin : into'.pipebase.instate = .async) :
    Flow out into' sents receiveds sent got := by
  obtain ⟨hnil, hnot⟩ := h.idleIn hne
  constructor
  · rw [hqueue]
    exact h.wf
  · rw [hreceiving]
    exact h.token
  · exact h.idleOut
  · exact h.outstate
  · exact fun _ => ⟨by rw [hqueue, hnil], by rw [hreceiving, hnot]⟩
  · intro _
    rw [hin, hqueue, if_pos hnil]
  · rw [hreceiving, hqueue]
    exact h.full
  · rw [hreceiving, hqueue]
    exact h.log

end Flow

/-! ### The stages -/

/-- The fields of a session that matter to the stage. -/
def Sinproc.standing (x : Sinproc) : SinprocState × FsmState × Option Side × PipebaseState :=
  (x.state, x.fsm, x.peer, x.pipebase.state)

theorem Stage.At.congr {g : Stage} {w w' : World} (h : g.At w)
    (hsess : ∀ s, (w'.sess s).standing = (w.sess s).standing)
    (hpending : ∀ e : Ev, e.kind ≠ .sent → e.kind ≠ .received → w'.pending e = w.pending e) :
    g.At w' := by
  simp only [Sinproc.standing, Prod.mk.injEq] at hsess
  constructor
  · intro s
    rw [(hsess s).1, h.state]
  · intro s
    rw [(hsess s).2.1, h.fsm]
  · intro s
    rw [(hsess s).2.2.1, h.peer]
  · intro s
    rw [(hsess s).2.2.2, h.pipebase]
  · intro e h₁ h₂
    rw [hpending e h₁ h₂, h.pending e h₁ h₂]

theorem Raised.pending_of_ne {w w' : World} {e f : Ev} (h : Raised w w' e) (hne : f ≠ e) :
    w'.pending f = w.pending f := by
  rw [h f, if_neg hne, Nat.add_zero]

theorem Raised.pending_self {w w' : World} {e : Ev} (h : Raised w w' e) :
    w'.pending e = w.pending e + 1 := by
  rw [h e, if_pos rfl]

/-- Events about messages do not touch the handshake. -/
theorem Raised.pending_handshake {w w' : World} {e : Ev} (h : Raised w w' e)
    (he : e.kind = .sent ∨ e.kind = .received) (f : Ev) (h₁ : f.kind ≠ .sent)
    (h₂ : f.kind ≠ .received) :
    w'.pending f = w.pending f := by
  refine h.pending_of_ne ?_
  rintro rfl
  rcases he with he | he
  · exact h₁ he
  · exact h₂ he

/-- A session is `ACTIVE` exactly when its pipe is, and then it knows its peer. -/
theorem Stage.At.active {g : Stage} {w : World} (h : g.At w) {s : Side}
    (hpipe : (w.sess s).pipebase.state = .active) :
    (w.sess s).state = .active ∧ (w.sess s).peer = some s.other := by
  rw [h.pipebase] at hpipe
  split_ifs at hpipe with hg
  exact ⟨(h.state s).trans hg, by rw [h.peer, if_pos (Or.inr hg)]⟩

theorem Stage.At.peer_active {g : Stage} {w : World} (h : g.At w) {s : Side}
    (hstate : (w.sess s).state = .active) :
    (w.sess s).peer = some s.other ∧ (w.sess s).fsm = .active := by
  rw [h.state] at hstate
  refine ⟨by rw [h.peer, if_pos (Or.inr hstate)], ?_⟩
  rw [h.fsm, if_neg (by simp [hstate])]

theorem Stage.At.event {g : Stage} {w w₁ : World} {e : Ev} (h : g.At w) (htake : Raised w₁ w e)
    (h₁ : e.kind ≠ .sent) (h₂ : e.kind ≠ .received) : g.event = some e := by
  have hone := htake.pending_self
  rw [h.pending e h₁ h₂] at hone
  by_contra hne
  rw [if_neg hne] at hone
  omega

/-- An event of the handshake is taken: no other is on its way. -/
theorem Stage.At.taken {g : Stage} {w w₁ : World} {e : Ev} (h : g.At w) (htake : Raised w₁ w e)
    (hg : g.event = some e) (f : Ev) (h₁ : f.kind ≠ .sent) (h₂ : f.kind ≠ .received) :
    w₁.pending f = 0 := by
  have hf := htake f
  rw [h.pending f h₁ h₂, hg] at hf
  by_cases hfe : f = e
  · subst hfe
    simp only [if_true] at hf
    omega
  · rw [if_neg (fun heq => hfe (Option.some.inj heq).symm), if_neg hfe] at hf
    omega

/-- An event of the handshake is raised: it is the only one. -/
theorem Raised.pending_only {w w' : World} {e : Ev} (h : Raised w w' e) {f : Ev}
    (hzero : w.pending f = 0) :
    w'.pending f = if some e = some f then 1 else 0 := by
  rw [h f, hzero, Nat.zero_add]
  simp only [Option.some.injEq, eq_comm]

/-- One session goes to the next stage. -/
theorem Stage.At.advance {g g' : Stage} {w w' : World} {s : Side} {y : Sinproc} (h : g.At w)
    (hsess : w'.sess = Function.update w.sess s y) (hother : g'.state s.other = g.state s.other)
    (hy : y.standing = (g'.state s, if g'.state s = .idle then .idle else .active,
      if g'.state s = .ready ∨ g'.state s = .active then some s.other else none,
      if g'.state s = .active then .active else .idle))
    (hpending : ∀ e : Ev, e.kind ≠ .sent → e.kind ≠ .received →
      w'.pending e = if g'.event = some e then 1 else 0) : g'.At w' := by
  simp only [Sinproc.standing, Prod.mk.injEq] at hy
  obtain ⟨hstate, hfsm, hpeer, hpipe⟩ := hy
  have hself : w'.sess s = y := by rw [hsess, Function.update_self]
  have hrest : w'.sess s.other = w.sess s.other := by
    rw [hsess, Function.update_of_ne (Side.other_ne s)]
  constructor
  · intro t
    rcases Side.eq_or_eq_other s t with rfl | rfl
    · rw [hself, hstate]
    · rw [hrest, hother, h.state]
  · intro t
    rcases Side.eq_or_eq_other s t with rfl | rfl
    · rw [hself, hfsm]
    · rw [hrest, hother, h.fsm]
  · intro t
    rcases Side.eq_or_eq_other s t with rfl | rfl
    · rw [hself, hpeer]
    · rw [hrest, hother, h.peer]
  · intro t
    rcases Side.eq_or_eq_other s t with rfl | rfl
    · rw [hself, hpipe]
    · rw [hrest, hother, h.pipebase]
  · exact hpending

/-! ### Steps -/

theorem Channel.step_of {c : Channel} {e : Step} {w : World} (answer : Option Msg)
    (h : c.world.step e = .ok (w, answer)) : c.step e = .ok (c.record w e answer, ()) := by
  unfold Channel.step
  rw [h]
  rfl

/-- Only one session changes, and no event about messages is raised or delivered. -/
theorem flows_of_update {c : Channel} {w : World} {s : Side} {y : Sinproc} (h : ∀ x, c.FlowFrom x)
    (hsess : w.sess = Function.update c.world.sess s y)
    (hpending : ∀ e : Ev, e.kind = .sent ∨ e.kind = .received → w.pending e = c.world.pending e)
    (hout : ∀ into n m sent got, Flow (c.world.sess s) into n m sent got → Flow y into n m sent got)
    (hin : ∀ out n m sent got, Flow out (c.world.sess s) n m sent got → Flow out y n m sent got)
    (x : Side) :
    Channel.FlowFrom { c with world := w } x := by
  have hx := h x
  unfold Channel.FlowFrom at hx ⊢
  dsimp only
  rw [hpending _ (Or.inl rfl), hpending _ (Or.inr rfl), hsess]
  rcases Side.eq_or_eq_other s x with rfl | rfl
  · rw [Function.update_self, Function.update_of_ne (Side.other_ne x)]
    exact hout _ _ _ _ _ hx
  · rw [Side.other_other] at hx ⊢
    rw [Function.update_self, Function.update_of_ne (Side.other_ne s)]
    exact hin _ _ _ _ _ hx

/-- An event of the handshake can be raised when no other is on its way. -/
theorem raiseto_handshake {w : World} (s : Side) {e : Ev} (h₁ : e.kind ≠ .sent)
    (h₂ : e.kind ≠ .received)
    (h : ∀ f : Ev, f.kind ≠ .sent → f.kind ≠ .received → w.pending f = 0) :
    ∃ w', nnFsmRaiseto w s e = .ok w' ∧ w'.sess = w.sess ∧ Raised w w' e := by
  refine nnFsmRaiseto_ok s fun f hf => h f ?_ ?_
  · intro hk
    obtain ⟨dst, kind⟩ := f
    subst hk
    obtain rfl := Ev.object_sent.1 hf.symm
    exact h₁ rfl
  · intro hk
    obtain ⟨dst, kind⟩ := f
    subst hk
    obtain rfl := Ev.object_received.1 hf.symm
    exact h₂ rfl

theorem Channel.Inv.connect {c : Channel} (h : c.Inv) (he : Transfer c .connect) :
    ∃ c', c.step .connect = .ok (c', ()) ∧ c'.Inv := by
  obtain ⟨⟨g, hg⟩, hflow⟩ := h
  obtain ⟨hidle, hfsm⟩ := he.1
  have hstart : g = .fresh := by
    rw [hg.state] at hidle
    cases g <;> first | rfl | (simp [Stage.state] at hidle)
  subst hstart
  obtain ⟨w', heq, hsess, hraised⟩ := raiseto_handshake (e := ⟨.b, .connect⟩)
    (w := c.world.set .a { c.world.sess .a with state := .connecting, fsm := .active }) .a (by simp)
      (by simp)
    (fun f h₁ h₂ => hg.pending f h₁ h₂)
  refine ⟨{ c with world := w' }, ?_, ⟨.connecting, ?_⟩, ?_⟩
  · refine Channel.step_of (w := w') none ?_
    unfold World.step nnSinprocConnect World.fsmStart nnSinprocHandler
    dsimp only at heq ⊢
    rw [nnAssert_of hfsm, hidle]
    simp only [ok_bind, World.set_sess, World.set_set, Function.update_self, pure_eq_ok, Side.other]
    rw [heq]
    rfl
  · refine hg.advance hsess rfl ?_ fun f h₁ h₂ => hraised.pending_only (hg.pending f h₁ h₂)
    have hpeer := hg.peer .a
    have hpipe := hg.pipebase .a
    simp [Sinproc.standing, hpeer, hpipe, Stage.state]
  · refine flows_of_update hflow hsess (fun f hf => ?_) ?_ ?_
    · refine hraised.pending_of_ne ?_
      rintro rfl
      simp at hf
    · intro into n m sent got hf
      exact hf.congr (by simp [Sinproc.outward, hidle]) rfl
    · intro out n m sent got hf
      exact hf.congr rfl (by simp [Sinproc.inward, hidle])

theorem Channel.Inv.send {c : Channel} (h : c.Inv) {s : Side} {msg : Msg}
    (he : Transfer c (.send s msg)) :
    ∃ c', c.step (.send s msg) = .ok (c', ()) ∧ c'.Inv := by
  obtain ⟨⟨g, hg⟩, hflow⟩ := h
  obtain ⟨hpipe, hout⟩ := he.1
  obtain ⟨hstate, hpeer⟩ := hg.active hpipe
  have hs : Flow _ _ _ _ _ _ := hflow s
  have hsending : (c.world.sess s).sending = false := by
    have := hs.outstate hstate
    rw [hout] at this
    split_ifs at this with hsend
    simpa using hsend
  have hfree : c.world.pending ⟨s.other, .sent⟩ = 0 := by
    have := hs.token
    rw [hsending, Bool.toNat_false] at this
    omega
  obtain ⟨w', heq, hraised, hsess⟩ := World.pipeSend_spec msg hstate hsending hpeer hout hfree
  refine ⟨_, Channel.step_of (w := w') none ?_, ⟨g, ?_⟩, fun x => ?_⟩
  · unfold World.step
    dsimp only
    rw [heq]
    rfl
  · refine hg.congr (fun t => ?_) (hraised.pending_handshake (Or.inl rfl))
    show (w'.sess t).standing = _
    rw [hsess]
    rcases Side.eq_or_eq_other s t with rfl | rfl <;> simp [Sinproc.standing]
  · unfold Channel.FlowFrom Channel.record
    dsimp only
    rw [hsess]
    rcases Side.eq_or_eq_other s x with rfl | rfl
    · rw [hraised.pending_self, hraised.pending_of_ne (by simp), Function.update_self,
        Function.update_self, Function.update_of_ne (Side.other_ne x)]
      exact hs.send hstate hsending _
    · have hx := hflow s.other
      unfold Channel.FlowFrom at hx
      rw [Side.other_other] at hx ⊢
      rw [hraised.pending_of_ne (by simp), hraised.pending_of_ne (by simp), Function.update_self,
        Function.update_of_ne (Side.other_ne s), Function.update_of_ne (Side.other_ne s)]
      exact hx.congr rfl rfl

theorem Channel.Inv.recv {c : Channel} (h : c.Inv) {s : Side} (he : Transfer c (.recv s)) :
    ∃ c', c.step (.recv s) = .ok (c', ()) ∧ c'.Inv := by
  obtain ⟨⟨g, hg⟩, hflow⟩ := h
  obtain ⟨hpipe, hin⟩ := he.1
  obtain ⟨hstate, hpeer⟩ := hg.active hpipe
  have hs : Flow _ _ _ _ _ _ := hflow s.other
  have ht : Flow _ _ _ _ _ _ := hflow s
  rw [Side.other_other] at hs
  have hne : (c.world.sess s).msgqueue.contents ≠ [] := by
    intro hnil
    have := hs.instate hstate
    rw [hin, if_pos hnil] at this
    cases this
  have hfree : (c.world.sess s).receiving = true → c.world.pending ⟨s.other, .received⟩ = 0 := by
    intro hrec
    have := hs.token
    have := (c.world.sess s.other).sending.toNat_le
    rw [hrec, Bool.toNat_true] at *
    omega
  obtain ⟨msg, w', heq, hdone⟩ := World.pipeRecv_spec hstate hpeer hs.wf hne hin hfree
  have hstep : c.step (.recv s) = .ok (c.record w' (.recv s) (some msg), ()) := by
    refine Channel.step_of (some msg) ?_
    unfold World.step
    dsimp only
    rw [heq]
    rfl
  refine ⟨_, hstep, ?_⟩
  cases hdone with
  | kept q hq hcont hfull hpending hsess =>
    refine ⟨⟨g, hg.congr (fun t => ?_) (fun f _ _ => congrFun hpending f)⟩, fun x => ?_⟩
    · show (w'.sess t).standing = _
      rw [hsess]
      rcases Side.eq_or_eq_other s t with rfl | rfl <;> simp [Sinproc.standing]
    · unfold Channel.FlowFrom Channel.record
      dsimp only
      rw [hsess, hpending]
      rcases Side.eq_or_eq_other s x with rfl | rfl
      · rw [Function.update_self, Function.update_of_ne (Side.other_ne x),
          Function.update_of_ne (Side.other_ne x)]
        exact ht.congr rfl rfl
      · rw [Side.other_other, Function.update_self, Function.update_self,
          Function.update_of_ne (Side.other_ne s)]
        exact hs.kept hq hcont hstate hfull
  | fetched q rest hq hcont hrec hqueued hraised hsess =>
    refine ⟨⟨g, hg.congr (fun t => ?_) (hraised.pending_handshake (Or.inr rfl))⟩, fun x => ?_⟩
    · show (w'.sess t).standing = _
      rw [hsess]
      rcases Side.eq_or_eq_other s t with rfl | rfl <;> simp [Sinproc.standing]
    · unfold Channel.FlowFrom Channel.record
      dsimp only
      rw [hsess]
      rcases Side.eq_or_eq_other s x with rfl | rfl
      · rw [hraised.pending_of_ne (by simp), hraised.pending_of_ne (by simp), Function.update_self,
          Function.update_of_ne (Side.other_ne x), Function.update_self,
            Function.update_of_ne (Side.other_ne x)]
        exact ht.congr rfl rfl
      · rw [Side.other_other, hraised.pending_of_ne (by simp), hraised.pending_self,
          Function.update_self, Function.update_self, Function.update_of_ne (Side.other_ne s),
          Function.update_self]
        exact hs.fetched hq hcont hstate hrec hqueued

theorem Channel.Inv.congr {c : Channel} (h : c.Inv) {w : World} (hsess : w.sess = c.world.sess)
    (hpending : ∀ e, w.pending e = c.world.pending e) : Channel.Inv { c with world := w } := by
  obtain ⟨⟨g, hg⟩, hflow⟩ := h
  refine ⟨⟨g, hg.congr (fun s => by rw [hsess]) fun e _ _ => hpending e⟩, fun x => ?_⟩
  have hx := hflow x
  unfold Channel.FlowFrom at *
  dsimp only
  rw [hsess, hpending, hpending]
  exact hx

theorem Channel.Inv.leave {c : Channel} (h : c.Inv) (s : Side) :
    ∃ c', c.step (.leave s) = .ok (c', ()) ∧ c'.Inv :=
  ⟨_, Channel.step_of none rfl, h.congr rfl (pending_leave c.world s)⟩

theorem Channel.Inv.take {c : Channel} (h : c.Inv) (i : ℕ) :
    ∃ c', c.step (.take i) = .ok (c', ()) ∧ c'.Inv := by
  obtain ⟨w, heq, hsess, hpending⟩ := c.world.step_take i
  exact ⟨_, Channel.step_of none heq, h.congr hsess hpending⟩

/-- The world after an event was delivered. -/
theorem Channel.step_deliver {c : Channel} {i : ℕ} {added : Bool} {e : Ev} {rest : List Ev}
    {w' : World} (hflight : c.world.flight[i]? = some ⟨some e, rest⟩) (hkind : e.kind ≠ .connect)
    (heq : World.feed { c.world with flight := c.world.flight.set i ⟨none, rest⟩ } e.dst
      e.dst.other added (.peer e.kind) = .ok w') : c.step (.deliver i added) =
      .ok ({ c with world := w' }, ()) := by
  refine Channel.step_of (w := w') none ?_
  unfold World.step
  simp only [hflight]
  rw [if_neg hkind, heq]
  rfl

theorem World.feed_active {w : World} {s src : Side} {added : Bool} {input : SinprocInput}
    (h : (w.sess s).fsm = .active) :
    w.feed s src added input = nnSinprocHandler w s src added input := by
  unfold World.feed
  rw [if_pos (by simp [h])]

theorem Channel.Inv.deliver_sent {c : Channel} (h : c.Inv) {i : ℕ} {s : Side} {rest : List Ev}
    (hflight : c.world.flight[i]? = some ⟨some ⟨s, .sent⟩, rest⟩)
    (hstate : (c.world.sess s).state = .active) :
    ∃ c', c.step (.deliver i true) = .ok (c', ()) ∧ c'.Inv := by
  obtain ⟨⟨g, hg⟩, hflow⟩ := h
  obtain ⟨hpeer, hfsm⟩ := hg.peer_active hstate
  have htake := raised_take hflight
  have hs : Flow _ _ _ _ _ _ := hflow s.other
  have ht : Flow _ _ _ _ _ _ := hflow s
  rw [Side.other_other, htake.pending_self, htake.pending_of_ne (by simp)] at hs
  rw [htake.pending_of_ne (by simp), htake.pending_of_ne (by simp)] at ht
  set w₁ : World := { c.world with flight := c.world.flight.set i ⟨none, rest⟩ } with hw₁
  have hfree : w₁.pending ⟨s.other, .received⟩ = 0 := by
    have := hs.token
    have := (c.world.sess s.other).sending.toNat_le
    omega
  obtain ⟨w', heq, hdone⟩ :=
    nnSinprocHandler_sent (w := w₁) true hstate hpeer hs.wf (hs.instate hstate) hfree
  refine ⟨_, Channel.step_deliver hflight (by simp) ((World.feed_active (w := w₁) hfsm).trans heq),
    ?_⟩
  cases hdone with
  | parked hfull hpending hsess =>
    refine ⟨⟨g, hg.congr (fun t => ?_) fun f h₁ h₂ => ?_⟩, fun x => ?_⟩
    · show (w'.sess t).standing = _
      rw [hsess]
      rcases Side.eq_or_eq_other s t with rfl | rfl <;> simp [Sinproc.standing, hw₁]
    · show w'.pending f = _
      rw [hpending, htake.pending_handshake (Or.inl rfl) f h₁ h₂]
    · unfold Channel.FlowFrom
      dsimp only
      rw [hsess, hpending]
      rcases Side.eq_or_eq_other s x with rfl | rfl
      · rw [Function.update_self, Function.update_of_ne (Side.other_ne x)]
        exact ht.congr rfl rfl
      · rw [Side.other_other, Function.update_self, Function.update_of_ne (Side.other_ne s)]
        exact hs.parked hstate hfull
  | queued q hq hqueued hraised hsess =>
    refine ⟨⟨g, hg.congr (fun t => ?_) fun f h₁ h₂ => ?_⟩, fun x => ?_⟩
    · show (w'.sess t).standing = _
      rw [hsess]
      rcases Side.eq_or_eq_other s t with rfl | rfl <;> simp [Sinproc.standing, hw₁]
    · show w'.pending f = _
      rw [hraised.pending_handshake (Or.inr rfl) f h₁ h₂,
        htake.pending_handshake (Or.inl rfl) f h₁ h₂]
    · unfold Channel.FlowFrom
      dsimp only
      rw [hsess]
      rcases Side.eq_or_eq_other s x with rfl | rfl
      · rw [hraised.pending_of_ne (by simp), hraised.pending_of_ne (by simp), Function.update_self,
          Function.update_of_ne (Side.other_ne x), Function.update_self]
        exact ht.congr rfl rfl
      · rw [Side.other_other, hraised.pending_of_ne (by simp), hraised.pending_self,
          Function.update_self, Function.update_of_ne (Side.other_ne s), Function.update_self]
        exact hs.queued hq hstate hqueued

theorem Channel.Inv.deliver_received {c : Channel} (h : c.Inv) {i : ℕ} {s : Side} {rest : List Ev}
    (hflight : c.world.flight[i]? = some ⟨some ⟨s, .received⟩, rest⟩) :
    ∃ c', c.step (.deliver i true) = .ok (c', ()) ∧ c'.Inv := by
  obtain ⟨⟨g, hg⟩, hflow⟩ := h
  have htake := raised_take hflight
  have hs : Flow _ _ _ _ _ _ := hflow s
  rw [htake.pending_self, htake.pending_of_ne (by simp)] at hs
  obtain ⟨hsending, hdone⟩ := hs.received
  have hstate : (c.world.sess s).state = .active := by
    by_contra hne
    rw [hs.idleOut hne] at hsending
    cases hsending
  have hout := hs.outstate hstate
  rw [hsending, if_pos rfl] at hout
  obtain ⟨-, hfsm⟩ := hg.peer_active hstate
  set w₁ : World := { c.world with flight := c.world.flight.set i ⟨none, rest⟩ } with hw₁
  have heq : nnSinprocHandler w₁ s s.other true (.peer .received) =
      .ok (w₁.set s { c.world.sess s with
      pipebase := { (c.world.sess s).pipebase with outstate := .idle }, sending := false }) := by
    have hsent : (c.world.sess s).pipebase.sent =
        .ok { (c.world.sess s).pipebase with outstate := .idle } := by
      unfold Pipebase.sent
      rw [if_neg (by simp [hout]), nnAssert_of hout]
      rfl
    unfold nnSinprocHandler
    have hself : w₁.sess s = c.world.sess s := rfl
    dsimp only
    rw [hself, hstate]
    dsimp only
    rw [nnAssert_of hsending, ok_bind, hsent, ← hstate]
    rfl
  refine ⟨_, Channel.step_deliver hflight (by simp) ((World.feed_active (w := w₁) hfsm).trans heq),
    ⟨g, hg.congr (fun t => ?_) fun f h₁ h₂ => ?_⟩, fun x => ?_⟩
  · show ((w₁.set s _).sess t).standing = _
    rcases Side.eq_or_eq_other s t with rfl | rfl <;> simp [Sinproc.standing, hw₁]
  · exact (htake.pending_handshake (Or.inr rfl) f h₁ h₂).symm
  · have hx := hflow x
    unfold Channel.FlowFrom at hx ⊢
    dsimp only
    rw [World.set_sess, World.set_pending]
    rcases Side.eq_or_eq_other s x with rfl | rfl
    · rw [Function.update_self, Function.update_of_ne (Side.other_ne x)]
      exact hdone
    · rw [htake.pending_of_ne (by simp), htake.pending_of_ne (by simp)] at hx
      rw [Side.other_other] at hx ⊢
      rw [Function.update_self, Function.update_of_ne (Side.other_ne s)]
      exact hx.congr rfl rfl

theorem nnSinprocAccept_spec {w : World} {s : Side} (hpeer : (w.sess s).peer = none)
    (hstate : (w.sess s).state = .idle) (hfsm : (w.sess s).fsm = .idle)
    (hzero : ∀ f : Ev, f.kind ≠ .sent → f.kind ≠ .received → w.pending f = 0) :
    ∃ w', nnSinprocAccept w s s.other = .ok w' ∧ Raised w w' ⟨s.other, .ready⟩ ∧
      w'.sess = Function.update w.sess s { w.sess s with
        peer := some s.other, state := .ready, fsm := .active } := by
  obtain ⟨w', heq, hsess, hraised⟩ := raiseto_handshake (e := ⟨s.other, .ready⟩)
    (w := w.set s { w.sess s with peer := some s.other }) s (by simp) (by simp) hzero
  have hself : w'.sess s = { w.sess s with peer := some s.other } := by simp [hsess]
  refine ⟨w'.set s { w.sess s with peer := some s.other, state := .ready, fsm := .active },
    ?_, hraised, ?_⟩
  · unfold nnSinprocAccept World.fsmStart World.feed nnSinprocHandler
    dsimp only at heq hself ⊢
    rw [nnAssert_of hpeer, ok_bind, heq, ok_bind]
    simp [hself, hstate, hfsm, nnAssert_of]
  · rw [World.set_sess, hsess]
    simp

theorem nnSinprocHandler_ready {w : World} {s : Side} (hstate : (w.sess s).state = .connecting)
    (hpipe : (w.sess s).pipebase.state = .idle)
    (hzero : ∀ f : Ev, f.kind ≠ .sent → f.kind ≠ .received → w.pending f = 0) :
    ∃ w', nnSinprocHandler w s s.other true (.peer .ready) = .ok w' ∧
      Raised w w' ⟨s.other, .accepted⟩ ∧ w'.sess = Function.update w.sess s { w.sess s with
        peer := some s.other, state := .active,
        pipebase := { state := .active, instate := .async, outstate := .idle } } := by
  obtain ⟨w', heq, hsess, hraised⟩ := raiseto_handshake (e := ⟨s.other, .accepted⟩)
    (w := w.set s { w.sess s with
      peer := some s.other, state := .active,
      pipebase := { state := .active, instate := .async, outstate := .idle } }) s
        (by simp) (by simp) hzero
  refine ⟨w', ?_, hraised, hsess⟩
  unfold nnSinprocHandler
  dsimp only at heq ⊢
  rw [hstate]
  dsimp only
  rw [Pipebase.start_true hpipe, ok_bind]
  dsimp only
  rw [nnAssert_of rfl, ok_bind, heq]

theorem nnSinprocHandler_accepted {w : World} {s : Side} (hstate : (w.sess s).state = .ready)
    (hpipe : (w.sess s).pipebase.state = .idle) :
    nnSinprocHandler w s s.other true (.peer .accepted) = .ok (w.set s { w.sess s with
      state := .active,
        pipebase := { state := .active, instate := .async, outstate := .idle } }) := by
  unfold nnSinprocHandler
  dsimp only
  rw [hstate]
  dsimp only
  rw [Pipebase.start_true hpipe, ok_bind]
  rfl

theorem Channel.Inv.deliver_connect {c : Channel} (h : c.Inv) {i : ℕ} {s : Side} {rest : List Ev}
    (hflight : c.world.flight[i]? = some ⟨some ⟨s, .connect⟩, rest⟩) :
    ∃ c', c.step (.deliver i true) = .ok (c', ()) ∧ c'.Inv := by
  obtain ⟨⟨g, hg⟩, hflow⟩ := h
  have htake := raised_take hflight
  have hevent := hg.event htake (by simp) (by simp)
  obtain ⟨rfl, rfl⟩ : g = .connecting ∧ s = .b := by
    cases g <;> simp [Stage.event] at hevent
    exact ⟨rfl, hevent.symm⟩
  have hzero := hg.taken htake hevent
  have hidle : (c.world.sess .b).state = .idle := hg.state .b
  obtain ⟨w', heq, hraised, hsess⟩ := nnSinprocAccept_spec
    (w := { c.world with flight := c.world.flight.set i ⟨none, rest⟩ })
      (hg.peer .b) hidle (hg.fsm .b) hzero
  refine ⟨{ c with world := w' }, ?_, ⟨.accepting, ?_⟩, ?_⟩
  · refine Channel.step_of (w := w') none ?_
    unfold World.step
    simp only [hflight]
    rw [if_pos trivial, heq]
    rfl
  · refine hg.advance (s := .b) hsess rfl ?_ fun f h₁ h₂ => hraised.pending_only (hzero f h₁ h₂)
    have hpipe := hg.pipebase .b
    simp [Sinproc.standing, hpipe, Stage.state, Side.other]
  · refine flows_of_update (s := .b) hflow hsess (fun f hf => ?_) ?_ ?_
    · rw [hraised.pending_of_ne (by rintro rfl; simp at hf),
        htake.pending_of_ne (by rintro rfl; simp at hf)]
    · intro into n m sent got hf
      exact hf.congr (by simp [Sinproc.outward, hidle]) rfl
    · intro out n m sent got hf
      exact hf.congr rfl (by simp [Sinproc.inward, hidle])

theorem Channel.Inv.deliver_ready {c : Channel} (h : c.Inv) {i : ℕ} {s : Side} {rest : List Ev}
    (hflight : c.world.flight[i]? = some ⟨some ⟨s, .ready⟩, rest⟩) :
    ∃ c', c.step (.deliver i true) = .ok (c', ()) ∧ c'.Inv := by
  obtain ⟨⟨g, hg⟩, hflow⟩ := h
  have htake := raised_take hflight
  have hevent := hg.event htake (by simp) (by simp)
  obtain ⟨rfl, rfl⟩ : g = .accepting ∧ s = .a := by
    cases g <;> simp [Stage.event] at hevent
    exact ⟨rfl, hevent.symm⟩
  have hzero := hg.taken htake hevent
  have hstate : (c.world.sess .a).state = .connecting := hg.state .a
  have hne : (c.world.sess .a).state ≠ .active := by simp [hstate]
  have hfsm : (c.world.sess .a).fsm = .active := hg.fsm .a
  set w₁ : World := { c.world with flight := c.world.flight.set i ⟨none, rest⟩ } with hw₁
  obtain ⟨w', heq, hraised, hsess⟩ := nnSinprocHandler_ready (w := w₁) hstate (hg.pipebase .a) hzero
  refine ⟨_, Channel.step_deliver hflight (by simp) ((World.feed_active (w := w₁) hfsm).trans heq),
    ⟨.accepted, ?_⟩, ?_⟩
  · refine hg.advance (s := .a) hsess rfl ?_ fun f h₁ h₂ => hraised.pending_only (hzero f h₁ h₂)
    simp [Sinproc.standing, hw₁, hfsm, Stage.state, Side.other]
  · refine flows_of_update (s := .a) hflow hsess (fun f hf => ?_) ?_ ?_
    · rw [hraised.pending_of_ne (by rintro rfl; simp at hf),
        htake.pending_of_ne (by rintro rfl; simp at hf)]
    · intro into n m sent got hf
      exact hf.startOut hne rfl rfl rfl
    · intro out n m sent got hf
      exact hf.startIn hne rfl rfl rfl

theorem Channel.Inv.deliver_accepted {c : Channel} (h : c.Inv) {i : ℕ} {s : Side} {rest : List Ev}
    (hflight : c.world.flight[i]? = some ⟨some ⟨s, .accepted⟩, rest⟩) :
    ∃ c', c.step (.deliver i true) = .ok (c', ()) ∧ c'.Inv := by
  obtain ⟨⟨g, hg⟩, hflow⟩ := h
  have htake := raised_take hflight
  have hevent := hg.event htake (by simp) (by simp)
  obtain ⟨rfl, rfl⟩ : g = .accepted ∧ s = .b := by
    cases g <;> simp [Stage.event] at hevent
    exact ⟨rfl, hevent.symm⟩
  have hzero := hg.taken htake hevent
  have hstate : (c.world.sess .b).state = .ready := hg.state .b
  have hne : (c.world.sess .b).state ≠ .active := by simp [hstate]
  have hfsm : (c.world.sess .b).fsm = .active := hg.fsm .b
  have hpeer := hg.peer .b
  set w₁ : World := { c.world with flight := c.world.flight.set i ⟨none, rest⟩ } with hw₁
  have heq := nnSinprocHandler_accepted (w := w₁) hstate (hg.pipebase .b)
  refine ⟨_, Channel.step_deliver hflight (by simp) ((World.feed_active (w := w₁) hfsm).trans heq),
    ⟨.active, ?_⟩, ?_⟩
  · refine hg.advance (s := .b) (World.set_sess _ _ _) rfl ?_ fun f h₁ h₂ => ?_
    · simp [Sinproc.standing, hw₁, hfsm, hpeer, Stage.state, Side.other]
    · rw [World.set_pending, hzero f h₁ h₂]
      rfl
  · refine flows_of_update (s := .b) hflow (World.set_sess _ _ _) (fun f hf => ?_) ?_ ?_
    · rw [htake.pending_of_ne (by rintro rfl; simp at hf)]
      rfl
    · intro into n m sent got hf
      exact hf.startOut hne rfl rfl rfl
    · intro out n m sent got hf
      exact hf.startIn hne rfl rfl rfl

theorem Channel.Inv.deliver {c : Channel} (h : c.Inv) {i : ℕ} {added : Bool}
    (he : Transfer c (.deliver i added)) :
    ∃ c', c.step (.deliver i added) = .ok (c', ()) ∧ c'.Inv := by
  obtain ⟨-, rfl, hsent⟩ := he
  cases hflight : c.world.flight[i]? with
  | none =>
    refine ⟨c, ?_, h⟩
    simp [Channel.step, World.step, hflight, Channel.record]
  | some batch =>
    obtain ⟨hand, rest⟩ := batch
    cases hand with
    | none =>
      refine ⟨c, ?_, h⟩
      simp [Channel.step, World.step, hflight, Channel.record]
    | some e =>
      obtain ⟨s, kind⟩ := e
      cases kind with
      | connect => exact h.deliver_connect hflight
      | ready => exact h.deliver_ready hflight
      | accepted => exact h.deliver_accepted hflight
      | sent => exact h.deliver_sent hflight (hsent ⟨s, .sent⟩ (by simp [hflight]) rfl)
      | received => exact h.deliver_received hflight
      | disconnect =>
        obtain ⟨⟨g, hg⟩, -⟩ := h
        have hevent := hg.event (raised_take hflight) (by simp) (by simp)
        cases g <;> simp [Stage.event] at hevent

/-- Every step of the transfer returns and keeps the invariant. -/
theorem Channel.Inv.step {c : Channel} (h : c.Inv) {e : Step} (he : Transfer c e) :
    ∃ c', c.step e = .ok (c', ()) ∧ c'.Inv := by
  cases e with
  | connect => exact h.connect he
  | send s msg => exact h.send he
  | recv s => exact h.recv he
  | stop s => exact absurd he.2 id
  | leave s => exact h.leave s
  | take i => exact h.take i
  | deliver i added => exact h.deliver he

/-! ### Runs -/

theorem Channel.Inv.of_trace {rcvbuf : Side → ℕ} {es : List Step} {c : Channel}
    (h : Runs.Trace Channel.step Transfer (Channel.init rcvbuf) es c) : c.Inv := by
  apply h.invariant_of_step (I := fun _ c => c.Inv) (Channel.init_inv rcvbuf)
  intro _ c e hinv he
  obtain ⟨c', heq, hinv'⟩ := hinv.step he
  exact ⟨c', (), heq, hinv'⟩

/-- What is received on one side is at any time a prefix of what was sent on the other; a session
that is `RECEIVING` has a full queue and the peer is still `SENDING`; and no step fails. -/
theorem inproc_fifo (rcvbuf : Side → ℕ) (es : List Step) (c : Channel)
    (h : Runs.Trace Channel.step Transfer (Channel.init rcvbuf) es c) :
    (∀ s, c.got s.other <+: c.sent s) ∧
      (∀ s, (c.world.sess s.other).receiving = true → (c.world.sess s).sending = true ∧
        (c.world.sess s.other).msgqueue.Full (c.world.sess s).msg ∧
        c.sent s = c.got s.other ++ (c.world.sess s.other).msgqueue.contents ++
          [(c.world.sess s).msg]) ∧
      ∀ e, Transfer c e → ∃ c', c.step e = .ok (c', ()) := by
  have hinv := Channel.Inv.of_trace h
  refine ⟨fun s => ?_, fun s hrec => ?_, fun e he => ?_⟩
  · have hs : Flow _ _ _ _ _ _ := hinv.2 s
    rw [hs.log, List.append_assoc]
    exact List.prefix_append _ _
  · have hs : Flow _ _ _ _ _ _ := hinv.2 s
    have htoken := hs.token
    have hlog := hs.log
    rw [hrec, Bool.toNat_true] at htoken hlog
    rw [if_pos (by omega)] at hlog
    refine ⟨?_, hs.full hrec, hlog⟩
    cases hsend : (c.world.sess s).sending with
    | true => rfl
    | false =>
      rw [hsend, Bool.toNat_false] at htoken
      omega
  · obtain ⟨c', heq, -⟩ := hinv.step he
    exact ⟨c', heq⟩

/-- The handshake, then two messages of which the second does not fit into the queue, and their
receipt. -/
def parkedRun : List Step :=
  [.connect, .leave .a, .take 0, .deliver 0 true, .leave .b, .take 1, .deliver 1 true, .leave .a,
    .take 2, .deliver 2 true, .send .a ⟨[], [], [1, 2]⟩, .leave .a, .take 3, .deliver 3 true,
    .leave .b, .take 4, .deliver 4 true, .send .a ⟨[3], [], [4]⟩, .leave .a, .take 5,
      .deliver 5 true,
    .recv .b, .leave .b, .take 6, .deliver 6 true, .recv .b]

theorem parkedRun_returns :
    (Runs.runWhile Channel.step Transfer (Channel.init fun _ => 3) parkedRun).isSome := by
  decide

theorem inproc_fifo_parked :
    let c := (Runs.runWhile Channel.step Transfer (Channel.init fun _ => 3) parkedRun).get
      parkedRun_returns
    c.got .b = [⟨[], [], [1, 2]⟩, ⟨[], [], [3, 4]⟩] ∧ c.got .b <+: c.sent .a ∧
      ∃ c', c.step (.send .a ⟨[], [], [5]⟩) = .ok (c', ()) := by
  intro c
  obtain ⟨hfetched, -, hstep⟩ :=
    inproc_fifo (fun _ => 3) parkedRun c (Runs.Trace.of_runWhile parkedRun_returns)
  refine ⟨by decide, hfetched .a, hstep _ ?_⟩
  decide

end NanoSocket.Inproc

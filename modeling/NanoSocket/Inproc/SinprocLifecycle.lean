import NanoSocket.Inproc.SinprocChannel

/-!
# The lifecycle of inproc sessions (`transports/inproc/sinproc.c`)

Either session may be stopped at any time, while events are on their way in both directions.  The
events that a session raises may be delivered by different threads, so that a later one can overtake
an earlier one.  This is fatal in some cases, and so is stopping a session that does not know its
peer yet.  A session that is being stopped waits for the events in the queues, but not for one that
a thread has taken from its queue already.  `Careful` excludes these steps, and
`careful_run_never_aborts` says that nothing else goes wrong: along runs of careful steps a session
never meets an event that its state does not list and never follows a NULL peer.
-/

namespace NanoSocket.Inproc

/-! ### Calls that may end in an assertion -/

section OkOrAssert

variable {α β : Type} {P : α → Prop} {Q : β → Prop}

/-- The call returns a value that satisfies `P`, or an assertion fails. -/
def OkOrAssert (P : α → Prop) : Except Fault α → Prop
  | .ok a => P a
  | .error f => f = .assertFailed

theorem OkOrAssert.bind {x : Except Fault α} {f : α → Except Fault β} (h : OkOrAssert P x)
    (hf : ∀ a, P a → OkOrAssert Q (f a)) : OkOrAssert Q (x >>= f) := by
  cases x with
  | error e => exact h
  | ok a => exact hf a h

theorem OkOrAssert.assert {x : Prop} [Decidable x] {f : Unit → Except Fault β}
    (hf : x → OkOrAssert Q (f ())) : OkOrAssert Q (nnAssert x >>= f) := by
  by_cases hx : x
  · rw [nnAssert_of hx]
    exact hf hx
  · rw [nnAssert_of_not hx]
    rfl

end OkOrAssert

/-! ### Careful steps -/

/-- An event overtakes one that was raised to the same session earlier and that it must not
overtake: the announcement of a message overtakes the end of the handshake, or `DISCONNECT`
overtakes one of these. -/
def Overtakes (w : World) (e : Ev) : Prop :=
  match e.kind with
  | .sent => (w.sess e.dst).state ≠ .stoppingPeer ∧ 0 < w.pending ⟨e.dst, .accepted⟩
  | .disconnect => 0 < w.pending ⟨e.dst, .ready⟩ ∨ 0 < w.pending ⟨e.dst, .accepted⟩ ∨
      0 < w.pending ⟨e.dst, .sent⟩
  | _ => False

instance (w : World) (e : Ev) : Decidable (Overtakes w e) :=
  match e with
  | ⟨_, .sent⟩ => inferInstanceAs (Decidable (_ ∧ _))
  | ⟨_, .disconnect⟩ => inferInstanceAs (Decidable (_ ∨ _ ∨ _))
  | ⟨_, .connect⟩ | ⟨_, .ready⟩ | ⟨_, .accepted⟩ | ⟨_, .received⟩ =>
    inferInstanceAs (Decidable False)

/-- The receiver of the event is being stopped, and from now on waits for no peer any more. -/
def Ends (w : World) (e : Ev) : Prop :=
  (w.sess e.dst).state = .stopping ∨ (w.sess e.dst).state = .stoppingPeer ∧ e.kind = .disconnect

instance (w : World) (e : Ev) : Decidable (Ends w e) := inferInstanceAs (Decidable (_ ∨ _))

/-- The events in the hands of the threads other than the `i`-th. -/
def World.otherHands (w : World) (i : ℕ) : List Ev := (w.flight.eraseIdx i).filterMap Batch.hand

/-- The steps that do not run into a known defect: a session is not stopped while it waits for its
peer, no event is overtaken that must not be, the socket takes the pipe when `ACCEPTED` is
delivered, and a session does not come to its end while a thread has `RECEIVED` for it in its
hands. -/
def Careful (w : World) : Step → Prop
  | .stop s => (w.sess s).state ≠ .connecting ∧
      ((w.sess s).state = .disconnected → ⟨s, .received⟩ ∉ w.inHand)
  | .deliver i added => ∀ e ∈ (w.flight[i]?.bind Batch.hand), ¬ Overtakes w e ∧
      (e.kind = .accepted → added = true) ∧ (Ends w e → ⟨e.dst, .received⟩ ∉ w.otherHands i)
  | _ => True

instance (w : World) (e : Step) : Decidable (Careful w e) :=
  match e with
  | .stop _ => inferInstanceAs (Decidable (_ ∧ _))
  | .deliver i added =>
    inferInstanceAs (Decidable (∀ e ∈ (w.flight[i]?.bind Batch.hand), ¬ Overtakes w e ∧
      (e.kind = .accepted → added = true) ∧ (Ends w e → ⟨e.dst, .received⟩ ∉ w.otherHands i)))
  | .connect | .send _ _ | .recv _ | .leave _ | .take _ => inferInstanceAs (Decidable True)

/-! ### The invariant -/

/-- The session has told its peer that it goes away. -/
def SinprocState.Gone : SinprocState → Prop
  | .disconnected | .stoppingPeer | .stopping => True
  | _ => False

/-- The session knows that its peer goes away. -/
def SinprocState.Over : SinprocState → Prop
  | .disconnected | .stopping => True
  | _ => False

instance (s : SinprocState) : Decidable s.Gone :=
  match s with
  | .disconnected | .stoppingPeer | .stopping => .isTrue trivial
  | .idle | .connecting | .ready | .active => .isFalse id

instance (s : SinprocState) : Decidable s.Over :=
  match s with
  | .disconnected | .stopping => .isTrue trivial
  | .idle | .connecting | .ready | .active | .stoppingPeer => .isFalse id

/-- The session has been `ACTIVE`. -/
def Stage.Started : Stage → Side → Prop
  | .active, _ | .accepted, .a => True
  | _, _ => False

/-- The states in which a session can be in a stage. -/
def Stage.Allows : Stage → Side → SinprocState → Prop
  | .fresh, _, st | .connecting, .b, st => st = .idle
  | .connecting, .a, st | .accepting, .a, st => st = .connecting
  | .accepting, .b, st | .accepted, .b, st => st = .ready ∨ st = .stoppingPeer
  | .accepted, .a, st | .active, _, st => st = .active ∨ st.Gone

/-- The states of `fsm` that go with the state of a session. -/
def SinprocState.Runs : SinprocState → FsmState → Prop
  | .idle, fsm => fsm = .idle
  | .stoppingPeer, fsm => fsm = .stopping
  | .stopping, fsm => fsm = .stopping ∨ fsm = .idle
  | _, fsm => fsm = .active

/-- One session on its own. -/
structure Sinproc.Fits (x : Sinproc) (g : Stage) (s : Side) : Prop where
  allows : g.Allows s x.state
  runs : x.state.Runs x.fsm
  peer : x.state = .ready ∨ x.state = .active → x.peer = some s.other
  pipe : x.pipebase.state = .active → x.state = .active
  fresh : x.state = .idle → x.peer = none
  queue : x.msgqueue.Wf
  receiving : x.receiving = true → g.Started s.other

/-- The two sessions and the events on their way. -/
structure Life (g : Stage) (w : World) : Prop where
  fits : ∀ s, (w.sess s).Fits g s
  told : ∀ s, (w.sess s).state.Over → (w.sess s.other).state.Gone
  handshake : ∀ e : Ev, e.kind = .connect ∨ e.kind = .ready ∨ e.kind = .accepted →
    w.pending e = if g.event = some e then 1 else 0
  disconnect : ∀ s, w.pending ⟨s, .disconnect⟩ =
    if (w.sess s.other).state.Gone ∧ ¬ (w.sess s).state.Over then 1 else 0
  sent : ∀ s, 0 < w.pending ⟨s, .sent⟩ → g.Started s.other ∧ ¬ (w.sess s).state.Over
  received : ∀ s, 0 < w.pending ⟨s, .received⟩ → g.Started s ∧ (w.sess s).fsm ≠ .idle

theorem init_life (rcvbuf : Side → ℕ) : Life .fresh (World.init rcvbuf) := by
  constructor
  · intro s
    exact ⟨rfl, rfl, by simp [World.init, nnSinprocInit], by simp [World.init, nnSinprocInit],
      fun _ => rfl, nnMsgqueueInit_wf _, by simp [World.init, nnSinprocInit]⟩
  · intro s h
    cases h
  · intro e _
    rfl
  · intro s
    rfl
  · intro s h
    cases h
  · intro s h
    cases h

theorem SinprocState.Over.gone {st : SinprocState} (h : st.Over) : st.Gone := by
  cases st <;> trivial

theorem SinprocState.Gone.stoppingPeer {st : SinprocState} (h : st.Gone) (hover : ¬ st.Over) :
    st = .stoppingPeer := by
  cases st <;> first | rfl | exact absurd h id | exact absurd trivial hover

/-- One session changes, and perhaps the stage. -/
theorem Life.of_update {g' : Stage} {w w' : World} {s : Side} {y : Sinproc}
    (hsess : w'.sess = Function.update w.sess s y) (hy : y.Fits g' s)
    (hother : (w.sess s.other).Fits g' s.other)
    (htold : y.state.Over → (w.sess s.other).state.Gone)
    (htold' : (w.sess s.other).state.Over → y.state.Gone)
    (hhandshake : ∀ e : Ev, e.kind = .connect ∨ e.kind = .ready ∨ e.kind = .accepted →
      w'.pending e = if g'.event = some e then 1 else 0)
    (hdisc : w'.pending ⟨s, .disconnect⟩ =
      if (w.sess s.other).state.Gone ∧ ¬ y.state.Over then 1 else 0)
    (hdisc' : w'.pending ⟨s.other, .disconnect⟩ =
      if y.state.Gone ∧ ¬ (w.sess s.other).state.Over then 1 else 0)
    (hsent : 0 < w'.pending ⟨s, .sent⟩ → g'.Started s.other ∧ ¬ y.state.Over)
    (hsent' : 0 < w'.pending ⟨s.other, .sent⟩ → g'.Started s ∧ ¬ (w.sess s.other).state.Over)
    (hrecd : 0 < w'.pending ⟨s, .received⟩ → g'.Started s ∧ y.fsm ≠ .idle)
    (hrecd' : 0 < w'.pending ⟨s.other, .received⟩ → g'.Started s.other ∧
      (w.sess s.other).fsm ≠ .idle) :
    Life g' w' := by
  have hself : w'.sess s = y := by rw [hsess, Function.update_self]
  have hrest : w'.sess s.other = w.sess s.other := by
    rw [hsess, Function.update_of_ne (Side.other_ne s)]
  constructor
  · intro t
    rcases Side.eq_or_eq_other s t with rfl | rfl
    · rwa [hself]
    · rwa [hrest]
  · intro t
    rcases Side.eq_or_eq_other s t with rfl | rfl
    · rwa [hself, hrest]
    · rwa [hrest, Side.other_other, hself]
  · exact hhandshake
  · intro t
    rcases Side.eq_or_eq_other s t with rfl | rfl
    · rwa [hself, hrest]
    · rwa [hrest, Side.other_other, hself]
  · intro t
    rcases Side.eq_or_eq_other s t with rfl | rfl
    · rwa [hself]
    · rwa [hrest, Side.other_other]
  · intro t
    rcases Side.eq_or_eq_other s t with rfl | rfl
    · rwa [hself]
    · rwa [hrest]

/-- Neither a state nor the handshake changes. -/
theorem Life.quiet {g : Stage} {w w' : World} (h : Life g w)
    (hsess : ∀ s, (w'.sess s).standing = (w.sess s).standing)
    (hqueue : ∀ s, (w'.sess s).msgqueue.Wf)
    (hreceiving : ∀ s, (w'.sess s).receiving = true → g.Started s.other)
    (hpending : ∀ e : Ev, e.kind ≠ .sent → e.kind ≠ .received → w'.pending e = w.pending e)
    (hsent : ∀ s, 0 < w'.pending ⟨s, .sent⟩ → g.Started s.other ∧ ¬ (w.sess s).state.Over)
    (hrecd : ∀ s, 0 < w'.pending ⟨s, .received⟩ → g.Started s ∧ (w.sess s).fsm ≠ .idle) :
    Life g w' := by
  simp only [Sinproc.standing, Prod.mk.injEq] at hsess
  have hstate : ∀ s, (w'.sess s).state = (w.sess s).state := fun s => (hsess s).1
  have hfsm : ∀ s, (w'.sess s).fsm = (w.sess s).fsm := fun s => (hsess s).2.1
  have hpeer : ∀ s, (w'.sess s).peer = (w.sess s).peer := fun s => (hsess s).2.2.1
  have hpipe : ∀ s, (w'.sess s).pipebase.state = (w.sess s).pipebase.state :=
    fun s => (hsess s).2.2.2
  constructor
  · intro s
    have hs := h.fits s
    constructor
    · rw [hstate]
      exact hs.allows
    · rw [hstate, hfsm]
      exact hs.runs
    · rw [hstate, hpeer]
      exact hs.peer
    · rw [hstate, hpipe]
      exact hs.pipe
    · rw [hstate, hpeer]
      exact hs.fresh
    · exact hqueue s
    · exact hreceiving s
  · intro s
    rw [hstate, hstate]
    exact h.told s
  · intro e he
    rw [hpending e (by rintro hk; simp [hk] at he) (by rintro hk; simp [hk] at he)]
    exact h.handshake e he
  · intro s
    rw [hpending _ (by simp) (by simp), hstate, hstate]
    exact h.disconnect s
  · intro s
    rw [hstate]
    exact hsent s
  · intro s
    rw [hfsm]
    exact hrecd s

theorem Stage.Allows.started {g : Stage} {s : Side} (h : g.Allows s .active) : g.Started s := by
  cases g <;> cases s <;> first | trivial | (simp [Stage.Allows] at h)

theorem Stage.Allows.of_started {g : Stage} {s : Side} {st : SinprocState} (h : g.Allows s st)
    (hs : g.Started s) : st = .active ∨ st.Gone := by
  cases g <;> cases s <;> first | exact h | exact absurd hs id

section Life

variable {g : Stage} {w w' : World} {s : Side}

theorem Life.congr (h : Life g w) (hsess : w'.sess = w.sess)
    (hpending : ∀ e, w'.pending e = w.pending e) :
    Life g w' := by
  refine h.quiet (fun t => by rw [hsess]) (fun t => by rw [hsess]; exact (h.fits t).queue)
    (fun t => by rw [hsess]; exact (h.fits t).receiving) (fun e _ _ => hpending e) (fun t ht => ?_)
      (fun t ht => ?_)
  · rw [hpending] at ht
    exact h.sent t ht
  · rw [hpending] at ht
    exact h.received t ht

theorem Life.set_quiet (h : Life g w) {y : Sinproc} (hy : y.standing = (w.sess s).standing)
    (hqueue : y.msgqueue.Wf) (hreceiving : y.receiving = true → g.Started s.other) :
    Life g (w.set s y) := by
  refine h.quiet (fun t => ?_) (fun t => ?_) (fun t => ?_) (fun _ _ _ => rfl) h.sent h.received
  · rcases Side.eq_or_eq_other s t with rfl | rfl
    · simpa using hy
    · simp
  · rcases Side.eq_or_eq_other s t with rfl | rfl
    · simpa using hqueue
    · simpa using (h.fits _).queue
  · rcases Side.eq_or_eq_other s t with rfl | rfl
    · simpa using hreceiving
    · simpa using (h.fits s.other).receiving

theorem Life.raise_sent (h : Life g w) (hsess : w'.sess = w.sess) (hraised : Raised w w' ⟨s, .sent⟩)
    (hstarted : g.Started s.other) (hover : ¬ (w.sess s).state.Over) : Life g w' := by
  refine h.quiet (fun t => by rw [hsess]) (fun t => by rw [hsess]; exact (h.fits t).queue)
    (fun t => by rw [hsess]; exact (h.fits t).receiving) (hraised.pending_handshake (Or.inl rfl))
      (fun t ht => ?_)
    (fun t ht => ?_)
  · rcases Side.eq_or_eq_other s t with rfl | rfl
    · exact ⟨hstarted, hover⟩
    · rw [hraised.pending_of_ne (by simp)] at ht
      exact h.sent _ ht
  · rw [hraised.pending_of_ne (by simp)] at ht
    exact h.received t ht

theorem Life.raise_received (h : Life g w) (hsess : w'.sess = w.sess)
    (hraised : Raised w w' ⟨s, .received⟩) (hstarted : g.Started s)
    (hfsm : (w.sess s).fsm ≠ .idle) : Life g w' := by
  refine h.quiet (fun t => by rw [hsess]) (fun t => by rw [hsess]; exact (h.fits t).queue)
    (fun t => by rw [hsess]; exact (h.fits t).receiving) (hraised.pending_handshake (Or.inr rfl))
      (fun t ht => ?_)
    (fun t ht => ?_)
  · rw [hraised.pending_of_ne (by simp)] at ht
    exact h.sent t ht
  · rcases Side.eq_or_eq_other s t with rfl | rfl
    · exact ⟨hstarted, hfsm⟩
    · rw [hraised.pending_of_ne (by simp)] at ht
      exact h.received _ ht

/-- An event about messages is taken from a queue. -/
theorem Life.take (h : Life g w) {e : Ev} (hsess : w'.sess = w.sess) (hraised : Raised w' w e)
    (he : e.kind = .sent ∨ e.kind = .received) : Life g w' := by
  refine h.quiet (fun t => by rw [hsess]) (fun t => by rw [hsess]; exact (h.fits t).queue)
    (fun t => by rw [hsess]; exact (h.fits t).receiving)
    (fun f h₁ h₂ => (hraised.pending_handshake he f h₁ h₂).symm) (fun t ht => h.sent t ?_)
    (fun t ht => h.received t ?_)
  · rw [hraised]
    omega
  · rw [hraised]
    omega

/-- The peer of a session that is `ACTIVE` has not gone away for good. -/
theorem Life.peer_of_active (h : Life g w) (hstate : (w.sess s).state = .active) :
    ¬ (w.sess s.other).state.Over ∧ (g.Started s.other → (w.sess s.other).fsm ≠ .idle) := by
  have hnot : ¬ (w.sess s.other).state.Over := by
    intro hover
    have := h.told _ hover
    rw [Side.other_other, hstate] at this
    exact this
  refine ⟨hnot, fun hstarted hfsm => ?_⟩
  have hruns := (h.fits s.other).runs
  rw [hfsm] at hruns
  cases hst : (w.sess s.other).state with
  | idle => simpa [hst, SinprocState.Gone] using (h.fits s.other).allows.of_started hstarted
  | stopping => exact hnot (by rw [hst]; trivial)
  | _ =>
    rw [hst] at hruns
    cases hruns

theorem OkOrAssert.raiseto {e : Ev} {Q : World → Prop}
    (h : ∀ w', w'.sess = w.sess → Raised w w' e → Q w') : OkOrAssert Q (nnFsmRaiseto w s e) := by
  cases heq : nnFsmRaiseto w s e with
  | ok w' =>
    obtain ⟨hsess, hraised⟩ := nnFsmRaiseto_inv heq
    exact h w' hsess hraised
  | error f =>
    unfold nnFsmRaiseto at heq
    by_cases hfree : ¬ w.EventActive e.object
    · rw [nnAssert_of hfree] at heq
      cases heq
    · rw [nnAssert_of_not hfree] at heq
      cases heq
      rfl

theorem received_okOrAssert (p : Pipebase) :
    OkOrAssert (fun q => q.state = p.state) p.received := by
  unfold Pipebase.received
  split_ifs
  · rfl
  · exact .assert fun _ => rfl

theorem sent_okOrAssert (p : Pipebase) : OkOrAssert (fun q => q.state = p.state) p.sent := by
  unfold Pipebase.sent
  split_ifs
  · rfl
  · exact .assert fun _ => rfl

theorem msgqueueSend_okOrAssert {q : Msgqueue} (h : q.Wf) (msg : Msg) :
    OkOrAssert (fun r => r.2.Wf) (nnMsgqueueSend q msg) := by
  obtain ⟨-, heq⟩ | ⟨-, q', heq, hq', -, -⟩ := nnMsgqueueSend_spec h msg
  · rw [heq]
    exact h
  · rw [heq]
    exact hq'

/-! ### Messages -/

theorem Life.send (h : Life g w) (hstate : (w.sess s).state = .active) (msg : Msg) :
    OkOrAssert (fun r => Life g r.2) (nnSinprocSend w s msg) := by
  have hs := h.fits s
  have hstarted : g.Started s := (hstate ▸ hs.allows).started
  unfold nnSinprocSend
  dsimp only
  rw [if_neg (by simp [hstate])]
  refine .assert fun _ => .assert fun _ => ?_
  rw [hs.peer (Or.inr hstate)]
  have hset :
      Life g (w.set s { w.sess s with msg := joined msg, sending := true, peer := some s.other }) :=
    h.set_quiet (by simp [Sinproc.standing, hs.peer (Or.inr hstate)]) hs.queue hs.receiving
  refine OkOrAssert.bind (P := Life g) (.raiseto fun w' hsess hraised => ?_) fun w' h' => h'
  exact hset.raise_sent hsess hraised (by simpa using hstarted)
    (by simpa using (h.peer_of_active hstate).1)

theorem Life.pipeSend (h : Life g w) (hstate : (w.sess s).state = .active) (msg : Msg) :
    OkOrAssert (Life g) (w.pipeSend s msg) := by
  have hs := h.fits s
  have hset :
      Life g (w.set s
        { w.sess s with pipebase := { (w.sess s).pipebase with outstate := .sending } }) :=
    h.set_quiet rfl hs.queue hs.receiving
  unfold World.pipeSend
  refine .assert fun _ => OkOrAssert.bind (hset.send (by simpa using hstate) msg) ?_
  rintro ⟨rc, w'⟩ h'
  have hs' := h'.fits s
  refine .assert fun _ => ?_
  dsimp only
  split_ifs
  · exact h'.set_quiet rfl hs'.queue hs'.receiving
  · exact .assert fun _ => h'.set_quiet rfl hs'.queue hs'.receiving

/-- A message of the peer goes into the queue, and the peer is told. -/
theorem Life.fetch (h : Life g w) (hstate : (w.sess s).state = .active)
    (hstarted : g.Started s.other) :
    OkOrAssert (Life g) (nnFsmRaiseto w s ⟨s.other, .received⟩) := by
  refine .raiseto fun w' hsess hraised => ?_
  exact h.raise_received hsess hraised hstarted ((h.peer_of_active hstate).2 hstarted)

theorem Life.recv (h : Life g w) (hstate : (w.sess s).state = .active) :
    OkOrAssert (fun r => Life g r.2) (nnSinprocRecv w s) := by
  have hs := h.fits s
  have hend : ∀ (msg : Msg) (w₁ : World), Life g w₁ → OkOrAssert (fun r => Life g r.2)
      (if nnMsgqueueEmpty (w₁.sess s).msgqueue then (pure (msg, w₁) : Except Fault _)
        else do return (msg,
          w₁.set s { w₁.sess s with pipebase := ← (w₁.sess s).pipebase.received })) := by
    intro msg w₁ h₁
    have hs₁ := h₁.fits s
    split_ifs
    · exact h₁
    · refine OkOrAssert.bind (received_okOrAssert _) fun p hp => ?_
      exact h₁.set_quiet (by simp [Sinproc.standing, hp]) hs₁.queue hs₁.receiving
  unfold nnSinprocRecv
  refine .assert fun _ => ?_
  obtain ⟨-, heq⟩ | ⟨msg, q, heq, hq, -, -⟩ := nnMsgqueueRecv_spec hs.queue
  · rw [heq]
    rfl
  rw [heq, ok_bind]
  dsimp only
  have hset : Life g (w.set s { w.sess s with msgqueue := q }) := h.set_quiet rfl hq hs.receiving
  split_ifs with hrec
  · rw [hs.peer (Or.inr hstate)]
    dsimp only
    refine OkOrAssert.bind (msgqueueSend_okOrAssert hq _) ?_
    rintro ⟨queued, q'⟩ hq'
    have hstarted := hs.receiving hrec.2
    have hstanding : ∀ x : Sinproc, x.standing = (w.sess s).standing →
        x.receiving = (w.sess s).receiving → x.msgqueue.Wf → Life g (w.set s x) :=
      fun x hx hr hwf => h.set_quiet hx hwf (hr ▸ hs.receiving)
    dsimp only
    split_ifs
    · refine OkOrAssert.bind (Life.fetch (g := g) ?_ ?_ hstarted) fun w' h' => ?_
      · simp only [World.set_set, World.set_sess, Function.update_self]
        have h₁ := hstanding { w.sess s with msgqueue := q', peer := some s.other }
          (by simp [Sinproc.standing, hs.peer (Or.inr hstate)]) rfl hq'
        have hs₁ := h₁.fits s.other
        exact h₁.set_quiet rfl hs₁.queue hs₁.receiving
      · simp [hstate]
      · have hs' := h'.fits s
        exact hend msg _ (h'.set_quiet rfl hs'.queue (by simp))
    · refine hend msg _ (hstanding _ ?_ rfl hq)
      simp [Sinproc.standing, hs.peer (Or.inr hstate)]
  · exact hend msg _ hset

theorem Life.pipeRecv (h : Life g w) (hstate : (w.sess s).state = .active) :
    OkOrAssert (fun r => Life g r.2) (w.pipeRecv s) := by
  have hs := h.fits s
  have hset :
      Life g (w.set s
        { w.sess s with pipebase := { (w.sess s).pipebase with instate := .receiving } }) :=
    h.set_quiet rfl hs.queue hs.receiving
  unfold World.pipeRecv
  refine .assert fun _ => OkOrAssert.bind (hset.recv (by simpa using hstate)) ?_
  rintro ⟨msg, w'⟩ h'
  have hs' := h'.fits s
  dsimp only
  split_ifs
  · exact h'.set_quiet rfl hs'.queue hs'.receiving
  · exact .assert fun _ => h'.set_quiet rfl hs'.queue hs'.receiving

theorem Life.handler_sent (h : Life g w) (hstate : (w.sess s).state = .active)
    (hstarted : g.Started s.other) (added : Bool) :
    OkOrAssert (Life g) (nnSinprocHandler w s s.other added (.peer .sent)) := by
  have hs := h.fits s
  have hpeer := hs.peer (Or.inr hstate)
  unfold nnSinprocHandler
  dsimp only
  rw [hstate, hpeer]
  dsimp only
  refine OkOrAssert.bind (msgqueueSend_okOrAssert hs.queue _) ?_
  rintro ⟨queued, q⟩ hq
  dsimp only
  have hstanding : ∀ x : Sinproc, x.standing = (w.sess s).standing → x.msgqueue.Wf →
      Life g (w.set s x) :=
    fun x hx hwf => h.set_quiet hx hwf fun _ => hstarted
  have h₁ := hstanding { w.sess s with msgqueue := q, state := .active, peer := some s.other }
    (by simp [Sinproc.standing, hstate, hpeer])
  split_ifs with _ hempty
  · exact hstanding _ (by simp [Sinproc.standing, hstate, hpeer]) hs.queue
  · have h₁ := h₁ hq
    have h₂ :=
      h₁.set_quiet (s := s.other) (y := { (World.set _ _ _).sess s.other with msg := .init }) rfl
      (h₁.fits s.other).queue (h₁.fits s.other).receiving
    refine OkOrAssert.bind (received_okOrAssert _) fun p hp => ?_
    refine Life.fetch ?_ (by simp) hstarted
    refine h₂.set_quiet ?_ (h₂.fits s).queue (h₂.fits s).receiving
    simp only [Sinproc.standing, hp]
  · have h₁ := h₁ hq
    have h₂ :=
      h₁.set_quiet (s := s.other) (y := { (World.set _ _ _).sess s.other with msg := .init }) rfl
      (h₁.fits s.other).queue (h₁.fits s.other).receiving
    exact h₂.fetch (by simp) hstarted

theorem Life.handler_received (h : Life g w) (hstate : (w.sess s).state = .active) (added : Bool) :
    OkOrAssert (Life g) (nnSinprocHandler w s s.other added (.peer .received)) := by
  have hs := h.fits s
  unfold nnSinprocHandler
  dsimp only
  rw [hstate]
  dsimp only
  refine .assert fun _ => OkOrAssert.bind (sent_okOrAssert _) fun p hp => ?_
  exact h.set_quiet (by simp [Sinproc.standing, hstate, hp]) hs.queue hs.receiving

/-! ### Connecting -/

theorem Life.handshake_zero (h : Life g w) {e : Ev} (hg : g.event = some e) {w₁ : World}
    (htake : Raised w₁ w e) (f : Ev)
    (hf : f.kind = .connect ∨ f.kind = .ready ∨ f.kind = .accepted) :
    w₁.pending f = 0 := by
  have hw := htake f
  rw [h.handshake f hf, hg] at hw
  by_cases hfe : f = e
  · subst hfe
    simp only [if_true] at hw
    omega
  · rw [if_neg (fun heq => hfe (Option.some.inj heq).symm), if_neg hfe] at hw
    omega

/-- A session goes to the next stage of the handshake. -/
theorem Life.advance (h : Life g w) {g' : Stage} {y : Sinproc}
    (hsess : w'.sess = Function.update w.sess s y) (hy : y.Fits g' s)
    (hother : (w.sess s.other).Fits g' s.other) (hgone : ¬ (w.sess s).state.Gone)
    (hgone' : ¬ y.state.Gone) (hfsm : y.fsm ≠ .idle) (hstarted : ∀ t, g.Started t → g'.Started t)
    (hhandshake : ∀ e : Ev, e.kind = .connect ∨ e.kind = .ready ∨ e.kind = .accepted →
      w'.pending e = if g'.event = some e then 1 else 0)
    (hpending : ∀ e : Ev, e.kind = .sent ∨ e.kind = .received ∨ e.kind = .disconnect →
      w'.pending e = w.pending e) : Life g' w' := by
  have hover : ¬ (w.sess s).state.Over := fun ho => hgone ho.gone
  have hover' : ¬ y.state.Over := fun ho => hgone' ho.gone
  refine Life.of_update hsess hy hother (fun ho => absurd ho hover')
    (fun ho => ?_) hhandshake ?_ ?_ (fun hp => ?_)
    (fun hp => ?_) (fun hp => ?_) (fun hp => ?_)
  · have := h.told s.other ho
    rw [Side.other_other] at this
    exact absurd this hgone
  · rw [hpending _ (by simp), h.disconnect s]
    simp only [hover, hover']
  · have := h.disconnect s.other
    rw [Side.other_other] at this
    rw [hpending _ (by simp), this]
    simp only [hgone, hgone']
  · rw [hpending _ (by simp)] at hp
    exact ⟨hstarted _ (h.sent s hp).1, hover'⟩
  · rw [hpending _ (by simp)] at hp
    have := h.sent s.other hp
    rw [Side.other_other] at this
    exact ⟨hstarted _ this.1, this.2⟩
  · rw [hpending _ (by simp)] at hp
    exact ⟨hstarted _ (h.received s hp).1, hfsm⟩
  · rw [hpending _ (by simp)] at hp
    exact ⟨hstarted _ (h.received _ hp).1, (h.received _ hp).2⟩

theorem Life.connect (h : Life g w) (hidle : (w.sess .a).state = .idle) :
    OkOrAssert (fun w' => ∃ g', Life g' w') (nnSinprocConnect w .a) := by
  have ha := h.fits .a
  have hb := h.fits .b
  obtain rfl : g = .fresh := by
    have := ha.allows
    rw [hidle] at this
    cases g <;> simp_all [Stage.Allows, SinprocState.Gone]
  have hpipe : (w.sess .a).pipebase.state ≠ .active := by
    intro hp
    rw [ha.pipe hp] at hidle
    cases hidle
  unfold nnSinprocConnect World.fsmStart nnSinprocHandler
  rw [bind_assoc]
  refine .assert fun _ => ?_
  dsimp only
  rw [hidle]
  simp only [ok_bind, pure_eq_ok, World.set_set, World.set_sess, Function.update_self, Side.other]
  refine .raiseto fun w' hsess hraised => ?_
  refine ⟨.connecting, h.advance (s := .a) hsess ?_ ?_ (by simp [hidle, SinprocState.Gone])
    (by simp [SinprocState.Gone]) (by simp) (fun t ht => absurd ht id) (fun e he => ?_)
      (fun e he => ?_)⟩
  · exact ⟨rfl, rfl, by simp, fun hp => absurd hp hpipe, by simp, ha.queue,
      fun hr => absurd (ha.receiving hr) id⟩
  · exact ⟨hb.allows, hb.runs, hb.peer, hb.pipe, hb.fresh, hb.queue,
      fun hr => absurd (hb.receiving hr) id⟩
  · exact hraised.pending_only (h.handshake e he)
  · refine hraised.pending_of_ne ?_
    rintro rfl
    simp at he

theorem Life.event (h : Life g w) {w₁ : World} {e : Ev} (htake : Raised w₁ w e)
    (he : e.kind = .connect ∨ e.kind = .ready ∨ e.kind = .accepted) : g.event = some e := by
  have hone := htake.pending_self
  rw [h.handshake e he] at hone
  by_contra hne
  rw [if_neg hne] at hone
  omega

theorem Life.accept (h : Life g w) {w₁ : World} (hw₁ : w₁.sess = w.sess)
    (htake : Raised w₁ w ⟨s, .connect⟩) :
    OkOrAssert (fun w' => ∃ g', Life g' w') (nnSinprocAccept w₁ s s.other) := by
  have hevent := h.event htake (Or.inl rfl)
  obtain ⟨rfl, rfl⟩ : g = .connecting ∧ s = .b := by
    cases g <;> simp [Stage.event] at hevent
    exact ⟨rfl, hevent.symm⟩
  have ha := h.fits .a
  have hb := h.fits .b
  have hidle : (w.sess .b).state = .idle := hb.allows
  have hpipe : (w.sess .b).pipebase.state ≠ .active := by
    intro hp
    rw [hb.pipe hp] at hidle
    cases hidle
  unfold nnSinprocAccept
  refine .assert fun _ => ?_
  dsimp only
  rw [hw₁]
  -- the rest of the function, once READY is raised
  refine OkOrAssert.bind
    (P := fun w' => w'.sess = Function.update w.sess .b { w.sess .b with peer := some .a } ∧
      Raised w₁ w' ⟨.a, .ready⟩) (.raiseto fun w' hsess hraised => ⟨?_, hraised⟩) ?_
  · rw [hsess, World.set_sess, hw₁]
    rfl
  rintro w' ⟨hsess, hraised⟩
  have hself : w'.sess .b = { w.sess .b with peer := some .a } := by
    rw [hsess, Function.update_self]
  unfold World.fsmStart
  rw [bind_assoc]
  refine .assert fun _ => ?_
  unfold World.feed nnSinprocHandler
  simp only [hself, hidle, ok_bind, pure_eq_ok, World.set_set, World.set_sess, Function.update_self]
  refine ⟨.accepting, h.advance (s := .b) (y := { w.sess .b with
    peer := some .a, state := .ready, fsm := .active }) ?_ ?_ ?_
      (by simp [hidle, SinprocState.Gone])
    (by simp [SinprocState.Gone]) (by simp) (fun t ht => ?_) (fun e he => ?_) (fun e he => ?_)⟩
  · simp [hsess]
  · exact ⟨Or.inl rfl, rfl, fun _ => rfl, fun hp => absurd hp hpipe, by simp, hb.queue,
      fun hr => absurd (hb.receiving hr) id⟩
  · exact ⟨ha.allows, ha.runs, ha.peer, ha.pipe, ha.fresh, ha.queue,
      fun hr => absurd (ha.receiving hr) id⟩
  · cases t <;> exact absurd ht id
  · exact hraised.pending_only (h.handshake_zero hevent htake e he)
  · rw [World.set_pending, hraised.pending_of_ne (by rintro rfl; simp at he),
      htake.pending_of_ne (by rintro rfl; simp at he)]

theorem start_okOrAssert (p : Pipebase) (added : Bool) {Q : Bool × Pipebase → Prop}
    (h : p.state = .idle →
      Q (added,
        { state := if added then .active else .failed, instate := .async, outstate := .idle })) :
    OkOrAssert Q (p.start added) := by
  unfold Pipebase.start
  exact .assert h

theorem Life.ready (h : Life g w) {w₁ : World} (hw₁ : w₁.sess = w.sess)
    (htake : Raised w₁ w ⟨s, .ready⟩) (added : Bool) :
    OkOrAssert (fun w' => ∃ g', Life g' w') (w₁.feed s s.other added (.peer .ready)) := by
  have hevent := h.event htake (Or.inr (Or.inl rfl))
  obtain ⟨rfl, rfl⟩ : g = .accepting ∧ s = .a := by
    cases g <;> simp [Stage.event] at hevent
    exact ⟨rfl, hevent.symm⟩
  have ha := h.fits .a
  have hb := h.fits .b
  have hstate : (w.sess .a).state = .connecting := ha.allows
  have hfsm : (w.sess .a).fsm = .active := by
    have := ha.runs
    rwa [hstate] at this
  rw [World.feed_active (by rw [hw₁, hfsm])]
  unfold nnSinprocHandler
  dsimp only
  rw [hw₁, hstate]
  dsimp only
  refine OkOrAssert.bind (P := fun r => r =
    (added, { state := if added then .active else .failed, instate := .async, outstate := .idle }))
    (start_okOrAssert _ _ fun _ => rfl) ?_
  rintro _ rfl
  dsimp only
  refine .assert fun hadded => .raiseto fun w' hsess hraised => ?_
  refine ⟨.accepted, h.advance (s := .a) (y := { w.sess .a with
    peer := some .b, state :=
      .active, pipebase := { state := .active, instate := .async, outstate := .idle } })
    ?_ ?_ ?_ (by simp [hstate, SinprocState.Gone]) (by simp [SinprocState.Gone]) (by simp [hfsm])
      (fun t ht => ?_)
    (fun e he => ?_) (fun e he => ?_)⟩
  · rw [hsess, World.set_sess, hw₁, hadded]
    rfl
  · exact ⟨Or.inl rfl, hfsm, fun _ => rfl, fun _ => rfl, by simp, ha.queue,
      fun hr => absurd (ha.receiving hr) id⟩
  · exact ⟨hb.allows, hb.runs, hb.peer, hb.pipe, hb.fresh, hb.queue,
      fun hr => absurd (hb.receiving hr) id⟩
  · cases t <;> exact absurd ht id
  · exact hraised.pending_only (h.handshake_zero hevent htake e he)
  · rw [hraised.pending_of_ne (by rintro rfl; simp at he), World.set_pending,
      htake.pending_of_ne (by rintro rfl; simp at he)]

/-! ### Shutting down -/

/-- A session that waits for the events in the queues only has no `RECEIVED` in the hands of a
thread. -/
def World.NoneLate (w : World) (s : Side) : Prop :=
  (w.sess s).state = .stopping → ⟨s, .received⟩ ∉ w.inHand

/-- The hands of the other threads stay as they are when an event is delivered. -/
theorem World.inHand_deliver {i : ℕ} {e e' : Ev} {rest : List Ev}
    (hflight : w.flight[i]? = some ⟨some e', rest⟩) (h : e ∉ w.otherHands i) :
    e ∉ World.inHand { w with flight := w.flight.set i ⟨none, rest⟩ } := by
  have hlt : i < w.flight.length := (List.getElem?_eq_some_iff.1 hflight).1
  unfold World.otherHands at h
  unfold World.inHand
  rw [List.eraseIdx_eq_take_drop_succ, List.filterMap_append] at h
  rw [List.set_eq_take_append_cons_drop, if_pos hlt, List.filterMap_append,
    List.filterMap_cons_none rfl]
  exact h

theorem Life.finish (h : Life g w) (hstate : (w.sess s).state = .stopping)
    (hrecd : w.pending ⟨s, .received⟩ = 0) : Life g (w.set s { w.sess s with fsm := .idle }) := by
  have hs := h.fits s
  have hdisc := h.disconnect s.other
  have hsent := h.sent s.other
  rw [Side.other_other] at hdisc hsent
  have htold := h.told s.other
  rw [Side.other_other] at htold
  refine Life.of_update (World.set_sess _ _ _) ?_ (h.fits _)
    (h.told s) htold h.handshake (h.disconnect s) hdisc
    (h.sent s) hsent (fun hp => ?_) (h.received _)
  · refine ⟨hs.allows, ?_, hs.peer, hs.pipe, hs.fresh, hs.queue, hs.receiving⟩
    show SinprocState.Runs (w.sess s).state FsmState.idle
    rw [hstate]
    exact Or.inr rfl
  · rw [World.set_pending, hrecd] at hp
    omega

theorem Life.shutdown {input : SinprocInput}
    (h : OkOrAssert (fun w' => Life g w' ∧ w'.NoneLate s) (nnSinprocShutdownEvents w s input)) :
    OkOrAssert (Life g) (nnSinprocShutdown w s input) := by
  unfold nnSinprocShutdown
  refine .assert fun _ => OkOrAssert.bind h fun w' h' => ?_
  obtain ⟨h', hhand⟩ := h'
  split_ifs with hstate hactive
  · exact h'
  · exact h'
  · rw [not_or] at hactive
    rw [not_not] at hstate
    exact .assert fun _ => .assert fun _ => .assert fun _ =>
      h'.finish hstate (World.pending_eq_zero hactive.1 (hhand hstate))

/-- A session that stops ignores what does not tell it that its peer stops, too. -/
theorem Life.shutdown_ignores (h : Life g w) (hstate : (w.sess s).state = .stoppingPeer)
    {kind : Kind} (hkind : kind ≠ .disconnect) :
    OkOrAssert (Life g) (nnSinprocShutdown w s (.peer kind)) := by
  refine Life.shutdown ?_
  have hlate : w.NoneLate s := by
    intro hstop
    rw [hstate] at hstop
    cases hstop
  unfold nnSinprocShutdownEvents
  cases kind <;>
    first | exact absurd rfl hkind | exact ⟨h, hlate⟩ | (dsimp only; rw [hstate]; exact ⟨h, hlate⟩)

theorem World.feed_stopping {w : World} {s src : Side} {added : Bool} {input : SinprocInput}
    (h : (w.sess s).fsm = .stopping) : w.feed s src added input = nnSinprocShutdown w s input := by
  unfold World.feed
  rw [if_neg (by simp [h])]

theorem Life.established (h : Life .accepted w) {w₁ : World} (hw₁ : w₁.sess = w.sess)
    (htake : Raised w₁ w ⟨.b, .accepted⟩) (hstate : (w.sess .b).state = .stoppingPeer) :
    Life .active w₁ := by
  constructor
  · intro t
    have ht := h.fits t
    rw [hw₁]
    refine ⟨?_, ht.runs, ht.peer, ht.pipe, ht.fresh, ht.queue, fun _ => trivial⟩
    cases t with
    | a => exact ht.allows
    | b => exact Or.inr (by rw [hstate]; trivial)
  · rw [hw₁]
    exact h.told
  · intro e he
    exact h.handshake_zero rfl htake e he
  · intro t
    rw [← htake.pending_of_ne (by simp), hw₁]
    exact h.disconnect t
  · intro t ht
    rw [← htake.pending_of_ne (by simp)] at ht
    rw [hw₁]
    exact ⟨trivial, (h.sent t ht).2⟩
  · intro t ht
    rw [← htake.pending_of_ne (by simp)] at ht
    rw [hw₁]
    exact ⟨trivial, (h.received t ht).2⟩

theorem Life.accepted (h : Life g w) {w₁ : World} (hw₁ : w₁.sess = w.sess)
    (htake : Raised w₁ w ⟨s, .accepted⟩) :
    OkOrAssert (fun w' => ∃ g', Life g' w') (w₁.feed s s.other true (.peer .accepted)) := by
  have hevent := h.event htake (Or.inr (Or.inr rfl))
  obtain ⟨rfl, rfl⟩ : g = .accepted ∧ s = .b := by
    cases g <;> simp [Stage.event] at hevent
    exact ⟨rfl, hevent.symm⟩
  have ha := h.fits .a
  have hb := h.fits .b
  have hruns := hb.runs
  rcases hb.allows with hstate | hstate
  · have hfsm : (w.sess .b).fsm = .active := by rwa [hstate] at hruns
    rw [World.feed_active (by rw [hw₁, hfsm])]
    unfold nnSinprocHandler
    dsimp only
    rw [hw₁, hstate]
    dsimp only
    refine OkOrAssert.bind (start_okOrAssert _ _ fun _ => Eq.refl _) ?_
    rintro _ rfl
    refine ⟨.active, h.advance (s := .b) (y := { w.sess .b with
      state := .active, pipebase := { state := .active, instate := .async, outstate := .idle } })
      ?_ ?_ ?_ (by simp [hstate, SinprocState.Gone]) (by simp [SinprocState.Gone]) (by simp [hfsm])
      (fun _ _ => trivial) (fun e he => ?_) (fun e he => ?_)⟩
    · rw [World.set_sess, hw₁]
      rfl
    · exact ⟨Or.inl rfl, hfsm, fun _ => hb.peer (Or.inl hstate), fun _ => rfl, by simp, hb.queue,
        fun _ => trivial⟩
    · exact ⟨ha.allows, ha.runs, ha.peer, ha.pipe, ha.fresh, ha.queue, fun _ => trivial⟩
    · exact h.handshake_zero rfl htake e he
    · rw [World.set_pending, htake.pending_of_ne (by rintro rfl; simp at he)]
  · have hfsm : (w.sess .b).fsm = .stopping := by rwa [hstate] at hruns
    have h₁ : OkOrAssert (Life .active) (nnSinprocShutdown w₁ .b (.peer .accepted)) :=
      (h.established hw₁ htake hstate).shutdown_ignores (by rw [hw₁, hstate]) (by simp)
    rw [World.feed_stopping (by rw [hw₁, hfsm])]
    cases heq : nnSinprocShutdown w₁ .b (.peer .accepted) with
    | ok w' =>
      rw [heq] at h₁
      exact ⟨.active, h₁⟩
    | error f =>
      rw [heq] at h₁
      exact h₁

/-- Unless `DISCONNECT` overtook the handshake, it comes to a session that has been `ACTIVE`. -/
theorem Life.started_of_disconnect (h : Life g w) (hgone : (w.sess s.other).state.Gone)
    (hready : w.pending ⟨s, .ready⟩ = 0) (haccepted : w.pending ⟨s, .accepted⟩ = 0) :
    g.Started s := by
  have hs := (h.fits s).allows
  have ht := (h.fits s.other).allows
  rw [h.handshake _ (by simp)] at hready haccepted
  cases g <;> cases s <;>
    simp_all [Stage.Allows, Stage.Started, Stage.event, SinprocState.Gone, Side.other]

theorem Life.disconnect_pending (h : Life g w) {w₁ : World} (htake : Raised w₁ w ⟨s, .disconnect⟩) :
    (w.sess s.other).state.Gone ∧ ¬ (w.sess s).state.Over ∧ w₁.pending ⟨s, .disconnect⟩ = 0 := by
  have hone := htake.pending_self
  rw [h.disconnect s] at hone
  split_ifs at hone with hcond
  exact ⟨hcond.1, hcond.2, by omega⟩

theorem Life.disconnected (h : Life g w) {w₁ : World} (hw₁ : w₁.sess = w.sess)
    (htake : Raised w₁ w ⟨s, .disconnect⟩) (hsent : w.pending ⟨s, .sent⟩ = 0)
    (hstate : (w.sess s).state = .active) (added : Bool) :
    OkOrAssert (Life g) (w₁.feed s s.other added (.peer .disconnect)) := by
  obtain ⟨hgone, -, hzero⟩ := h.disconnect_pending htake
  obtain ⟨hover, -⟩ := h.peer_of_active hstate
  have hs := h.fits s
  have hallows := hs.allows
  have hruns := hs.runs
  rw [hstate] at hallows hruns
  have hfsm : (w.sess s).fsm = .active := hruns
  have hstarted := hallows.started
  rw [World.feed_active (by rw [hw₁, hfsm])]
  unfold nnSinprocHandler
  dsimp only
  rw [hw₁, hstate, hs.peer (Or.inr hstate)]
  dsimp only
  refine OkOrAssert.bind (P := fun w' => w'.sess = Function.update w.sess s { w.sess s with
    pipebase := (w.sess s).pipebase.stop } ∧ Raised w₁ w' ⟨s.other, .disconnect⟩)
    (.raiseto fun w' hsess hraised => ⟨?_, hraised⟩) ?_
  · rw [hsess, World.set_sess, hw₁]
    simp [hstate, hs.peer (Or.inr hstate)]
  rintro w' ⟨hsess, hraised⟩
  refine Life.of_update (s := s) (y := { w.sess s with
    pipebase := (w.sess s).pipebase.stop, state := .disconnected, peer := none }) (w := w)
      ?_ ?_ (h.fits _)
    (fun _ => hgone) (fun _ => trivial) (fun e he => ?_) ?_ ?_ (fun hp => ?_) (fun hp => ?_)
      (fun hp => ?_) (fun hp => ?_)
  · rw [World.set_sess, hsess]
    simp
  · refine ⟨?_, hfsm, by simp, by simp [Pipebase.stop], by simp, hs.queue, hs.receiving⟩
    cases g <;> cases s <;> first | exact Or.inr trivial | exact absurd hstarted id
  · rw [World.set_pending, hraised.pending_of_ne (by rintro rfl; simp at he),
      ← htake.pending_of_ne (by rintro rfl; simp at he)]
    exact h.handshake e he
  · rw [World.set_pending, hraised.pending_of_ne (by simp), hzero]
    simp [SinprocState.Over]
  · have hbefore := h.disconnect s.other
    rw [Side.other_other, hstate, htake.pending_of_ne (by simp)] at hbefore
    rw [World.set_pending, hraised.pending_self, hbefore]
    simp [SinprocState.Gone, hover]
  · rw [World.set_pending, hraised.pending_of_ne (by simp), ← htake.pending_of_ne (by simp),
      hsent] at hp
    omega
  · rw [World.set_pending, hraised.pending_of_ne (by simp), ← htake.pending_of_ne (by simp)] at hp
    have := h.sent _ hp
    rw [Side.other_other] at this
    exact this
  · exact ⟨hstarted, by simp [hfsm]⟩
  · rw [World.set_pending, hraised.pending_of_ne (by simp), ← htake.pending_of_ne (by simp)] at hp
    exact h.received _ hp

theorem Life.stopped_both (h : Life g w) {w₁ : World} (hw₁ : w₁.sess = w.sess)
    (htake : Raised w₁ w ⟨s, .disconnect⟩) (hsent : w.pending ⟨s, .sent⟩ = 0)
    (hstarted : g.Started s) (hstate : (w.sess s).state = .stoppingPeer)
    (hhand : ⟨s, .received⟩ ∉ w₁.inHand) (added : Bool) :
    OkOrAssert (Life g) (w₁.feed s s.other added (.peer .disconnect)) := by
  obtain ⟨hgone, -, hzero⟩ := h.disconnect_pending htake
  have hs := h.fits s
  have hruns := hs.runs
  rw [hstate] at hruns
  have hfsm : (w.sess s).fsm = .stopping := hruns
  rw [World.feed_stopping (by rw [hw₁, hfsm])]
  refine Life.shutdown ?_
  unfold nnSinprocShutdownEvents
  dsimp only
  rw [hw₁, hstate]
  refine ⟨?_, fun _ => hhand⟩
  refine Life.of_update (s := s) (w := w) (y := { w.sess s with state := .stopping }) ?_ ?_
    (h.fits _)
    (fun _ => hgone) (fun _ => trivial) (fun e he => ?_) ?_ ?_ (fun hp => ?_) (fun hp => ?_)
      (fun hp => ?_) (fun hp => ?_)
  · rw [World.set_sess, hw₁]
  · refine ⟨?_, Or.inl hfsm, by simp, fun hp => ?_, by simp, hs.queue, hs.receiving⟩
    · cases g <;> cases s <;> first | exact Or.inr trivial | exact absurd hstarted id
    · have := hs.pipe hp
      rw [hstate] at this
      cases this
  · rw [World.set_pending, ← htake.pending_of_ne (by rintro rfl; simp at he)]
    exact h.handshake e he
  · rw [World.set_pending, hzero]
    simp [SinprocState.Over]
  · have hbefore := h.disconnect s.other
    rw [Side.other_other, hstate, htake.pending_of_ne (by simp)] at hbefore
    rw [World.set_pending, hbefore]
    simp [SinprocState.Gone]
  · rw [World.set_pending, ← htake.pending_of_ne (by simp), hsent] at hp
    omega
  · rw [World.set_pending, ← htake.pending_of_ne (by simp)] at hp
    have := h.sent _ hp
    rw [Side.other_other] at this
    exact this
  · rw [World.set_pending, ← htake.pending_of_ne (by simp)] at hp
    exact ⟨(h.received s hp).1, by simp [hfsm]⟩
  · rw [World.set_pending, ← htake.pending_of_ne (by simp)] at hp
    exact h.received _ hp

theorem Stage.Allows.stoppingPeer {st : SinprocState} (h : g.Allows s st)
    (hst : st = .ready ∨ st = .active) :
    g.Allows s .stoppingPeer := by
  rcases hst with rfl | rfl <;> cases g <;> cases s <;>
    first | exact Or.inr rfl | exact Or.inr trivial | (simp [Stage.Allows] at h)

/-- A session that is connected tells its peer that it stops. -/
theorem Life.stop_connected (h : Life g w)
    (hstate : (w.sess s).state = .ready ∨ (w.sess s).state = .active) :
    OkOrAssert (fun w' => Life g w' ∧ w'.NoneLate s)
      (nnSinprocShutdownEvents (w.set s { w.sess s with fsm := .stopping }) s .fsmStop) := by
  have hs := h.fits s
  have hnot : ¬ (w.sess s).state.Gone := by
    rcases hstate with hstate | hstate <;> simp [hstate, SinprocState.Gone]
  have hover : ¬ (w.sess s).state.Over := fun ho => hnot ho.gone
  have hother : ¬ (w.sess s.other).state.Over := by
    intro ho
    have := h.told _ ho
    rw [Side.other_other] at this
    exact hnot this
  have hdisc := h.disconnect s.other
  have hsent := h.sent s.other
  rw [Side.other_other] at hdisc hsent
  unfold nnSinprocShutdownEvents
  dsimp only
  simp only [World.set_sess, Function.update_self, World.set_set]
  rw [if_pos (by rcases hstate with hstate | hstate <;> simp [hstate])]
  refine .assert fun _ => ?_
  rw [hs.peer hstate]
  dsimp only
  refine OkOrAssert.bind (P := fun w' => w'.sess = Function.update w.sess s { w.sess s with
    fsm := .stopping, pipebase := (w.sess s).pipebase.stop } ∧ Raised w w' ⟨s.other, .disconnect⟩)
    (.raiseto fun w' hsess hraised => ⟨?_, hraised⟩) ?_
  · rw [hsess, World.set_sess]
    simp [hs.peer hstate]
  rintro w' ⟨hsess, hraised⟩
  refine ⟨?_, fun hstop => by simp at hstop⟩
  refine Life.of_update (s := s) (w := w) (y := { w.sess s with
    fsm := .stopping, pipebase := (w.sess s).pipebase.stop, state := .stoppingPeer })
      ?_ ?_ (h.fits _)
    (fun ho => absurd ho id) (fun ho => absurd ho hother)
      (fun e he => ?_) ?_ ?_ (fun hp => ?_) (fun hp => ?_)
    (fun hp => ?_) (fun hp => ?_)
  · rw [World.set_sess, hsess]
    simp
  · exact ⟨hs.allows.stoppingPeer hstate, rfl, by simp, by simp [Pipebase.stop], by simp,
      hs.queue, hs.receiving⟩
  · rw [World.set_pending, hraised.pending_of_ne (by rintro rfl; simp at he)]
    exact h.handshake e he
  · rw [World.set_pending, hraised.pending_of_ne (by simp), h.disconnect s]
    simp only [hover, show ¬ SinprocState.Over .stoppingPeer from id]
  · rw [World.set_pending, hraised.pending_self, hdisc, if_neg (fun hc => hnot hc.1),
      if_pos ⟨trivial, hother⟩]
  · rw [World.set_pending, hraised.pending_of_ne (by simp)] at hp
    exact ⟨(h.sent s hp).1, id⟩
  · rw [World.set_pending, hraised.pending_of_ne (by simp)] at hp
    exact hsent hp
  · rw [World.set_pending, hraised.pending_of_ne (by simp)] at hp
    exact ⟨(h.received s hp).1, by simp⟩
  · rw [World.set_pending, hraised.pending_of_ne (by simp)] at hp
    exact h.received _ hp

/-- A session whose peer is gone just stops. -/
theorem Life.stop_disconnected (h : Life g w) (hstate : (w.sess s).state = .disconnected)
    (hhand : ⟨s, .received⟩ ∉ w.inHand) :
    OkOrAssert (fun w' => Life g w' ∧ w'.NoneLate s)
      (nnSinprocShutdownEvents (w.set s { w.sess s with fsm := .stopping }) s .fsmStop) := by
  have hs := h.fits s
  have hgone := h.told s (by rw [hstate]; trivial)
  have hdisc := h.disconnect s.other
  have hsent := h.sent s.other
  rw [Side.other_other, hstate] at hdisc
  rw [Side.other_other] at hsent
  unfold nnSinprocShutdownEvents
  dsimp only
  simp only [World.set_sess, Function.update_self, World.set_set]
  rw [if_neg (by simp [hstate])]
  refine ⟨?_, fun _ => hhand⟩
  refine Life.of_update (s := s) (w := w) (World.set_sess _ _ _) ?_ (h.fits _) (fun _ => hgone)
    (fun _ => trivial) h.handshake ?_ hdisc (fun hp => ?_) hsent
      (fun hp => ⟨(h.received s hp).1, by simp⟩)
    (h.received _)
  · refine ⟨?_, Or.inl rfl, by simp, fun hp => ?_, by simp, hs.queue, hs.receiving⟩
    · have := hs.allows
      rw [hstate] at this
      cases g <;> cases s <;> first | exact Or.inr trivial | (simp [Stage.Allows] at this)
    · have := hs.pipe hp
      rw [hstate] at this
      cases this
  · rw [World.set_pending, h.disconnect s, hstate]
    rfl
  · have := (h.sent s hp).2
    rw [hstate] at this
    exact absurd trivial this

theorem Life.stop (h : Life g w) (hcareful : Careful w (.stop s)) :
    OkOrAssert (Life g) (nnSinprocStop w s) := by
  unfold nnSinprocStop
  split_ifs with hfsm
  · exact h
  have hfsm : (w.sess s).fsm = .active := not_not.1 hfsm
  have hruns := (h.fits s).runs
  refine Life.shutdown ?_
  cases hstate : (w.sess s).state with
  | connecting => exact absurd hstate hcareful.1
  | disconnected => exact h.stop_disconnected hstate (hcareful.2 hstate)
  | ready => exact h.stop_connected (Or.inl hstate)
  | active => exact h.stop_connected (Or.inr hstate)
  | idle =>
    rw [hstate, hfsm] at hruns
    cases hruns
  | stoppingPeer =>
    rw [hstate, hfsm] at hruns
    cases hruns
  | stopping =>
    rw [hstate, hfsm] at hruns
    rcases hruns with hruns | hruns <;> cases hruns

/-! ### Steps and runs -/

theorem Life.sent_delivered (h : Life g w) {w₁ : World} (hw₁ : w₁.sess = w.sess)
    (htake : Raised w₁ w ⟨s, .sent⟩) (hcareful : ¬ Overtakes w ⟨s, .sent⟩) (added : Bool) :
    OkOrAssert (Life g) (w₁.feed s s.other added (.peer .sent)) := by
  have h₁ := h.take hw₁ htake (Or.inl rfl)
  obtain ⟨hstarted, hover⟩ := h.sent s (by rw [htake.pending_self]; omega)
  have hs := (h.fits s).allows
  have hruns := (h.fits s).runs
  have hcase : (w.sess s).state = .active ∨ (w.sess s).state = .stoppingPeer := by
    by_cases hself : g.Started s
    · exact (hs.of_started hself).imp_right fun hgone => hgone.stoppingPeer hover
    · -- only the session that accepted can be behind its peer, and then ACCEPTED is on its way
      obtain ⟨rfl, rfl⟩ : g = .accepted ∧ s = .b := by
        cases g <;> cases s <;> first | exact ⟨rfl, rfl⟩ | exact absurd hstarted id |
          exact absurd trivial hself
      by_contra hne
      rw [not_or] at hne
      refine hcareful ⟨hne.2, ?_⟩
      rw [h.handshake _ (by simp)]
      exact Nat.one_pos
  rcases hcase with hstate | hstate
  · rw [hstate] at hruns
    have hfsm : (w₁.sess s).fsm = .active := by
      rw [hw₁]
      exact hruns
    rw [World.feed_active hfsm]
    exact h₁.handler_sent (by rw [hw₁, hstate]) hstarted added
  · rw [hstate] at hruns
    have hfsm : (w₁.sess s).fsm = .stopping := by
      rw [hw₁]
      exact hruns
    rw [World.feed_stopping hfsm]
    exact h₁.shutdown_ignores (by rw [hw₁, hstate]) (by simp)

theorem Life.received_delivered (h : Life g w) {w₁ : World} (hw₁ : w₁.sess = w.sess)
    (htake : Raised w₁ w ⟨s, .received⟩)
    (hhand : Ends w ⟨s, .received⟩ → ⟨s, .received⟩ ∉ w₁.inHand) (added : Bool) :
    OkOrAssert (Life g) (w₁.feed s s.other added (.peer .received)) := by
  have h₁ := h.take hw₁ htake (Or.inr rfl)
  obtain ⟨hstarted, hfsm⟩ := h.received s (by rw [htake.pending_self]; omega)
  have hs := (h.fits s).allows.of_started hstarted
  by_cases hstop : (w.sess s).fsm = .stopping
  · rw [World.feed_stopping (by rw [hw₁, hstop])]
    refine Life.shutdown ⟨h₁, fun hstate => hhand (Or.inl ?_)⟩
    rwa [hw₁] at hstate
  · unfold World.feed
    rw [if_pos (by rw [hw₁]; exact hstop)]
    have hruns := (h.fits s).runs
    cases hstate : (w.sess s).state with
    | active => exact h₁.handler_received (by rw [hw₁, hstate]) added
    | disconnected =>
      unfold nnSinprocHandler
      dsimp only
      rw [hw₁, hstate]
      exact h₁
    | stoppingPeer =>
      rw [hstate] at hruns
      exact absurd hruns hstop
    | stopping =>
      rw [hstate] at hruns
      exact (hruns.elim hstop hfsm).elim
    | _ => simp [hstate, SinprocState.Gone] at hs

theorem Life.disconnect_delivered (h : Life g w) {w₁ : World} (hw₁ : w₁.sess = w.sess)
    (htake : Raised w₁ w ⟨s, .disconnect⟩) (hcareful : ¬ Overtakes w ⟨s, .disconnect⟩)
    (hhand : Ends w ⟨s, .disconnect⟩ → ⟨s, .received⟩ ∉ w₁.inHand) (added : Bool) :
    OkOrAssert (Life g) (w₁.feed s s.other added (.peer .disconnect)) := by
  simp only [Overtakes, not_or, Nat.pos_iff_ne_zero, not_not] at hcareful
  obtain ⟨hready, haccepted, hsent⟩ := hcareful
  obtain ⟨hgone, hover, -⟩ := h.disconnect_pending htake
  have hstarted := h.started_of_disconnect hgone hready haccepted
  rcases (h.fits s).allows.of_started hstarted with hstate | hgone'
  · exact h.disconnected hw₁ htake hsent hstate added
  · have hstate := hgone'.stoppingPeer hover
    exact h.stopped_both hw₁ htake hsent hstarted hstate (hhand (Or.inr ⟨hstate, rfl⟩)) added

theorem Life.deliver (h : Life g w) {i : ℕ} {added : Bool}
    (hcareful : Careful w (.deliver i added)) :
    OkOrAssert (fun r => ∃ g', Life g' r.1) (w.step (.deliver i added)) := by
  unfold World.step
  dsimp only
  cases hflight : w.flight[i]? with
  | none => exact ⟨g, h⟩
  | some batch =>
    obtain ⟨hand, rest⟩ := batch
    cases hand with
    | none => exact ⟨g, h⟩
    | some e =>
      obtain ⟨s, kind⟩ := e
      obtain ⟨hovertakes, hadded, hlate⟩ := hcareful ⟨s, kind⟩ (by simp [hflight])
      have hhand := fun hends => World.inHand_deliver hflight (hlate hends)
      have htake := raised_take hflight
      have hw₁ : World.sess { w with flight := w.flight.set i ⟨none, rest⟩ } = w.sess := rfl
      have hkeep : ∀ x : Except Fault World, OkOrAssert (Life g) x →
          OkOrAssert (fun r => ∃ g', Life g' r.1)
            (x >>= fun w' => pure (w', (none : Option Msg))) :=
        fun x hx => hx.bind fun w' h' => ⟨g, h'⟩
      have hnext : ∀ x : Except Fault World, OkOrAssert (fun w' => ∃ g', Life g' w') x →
          OkOrAssert (fun r => ∃ g', Life g' r.1)
            (x >>= fun w' => pure (w', (none : Option Msg))) :=
        fun x hx => hx.bind fun w' h' => h'
      cases kind with
      | connect => exact hnext _ (h.accept hw₁ htake)
      | ready => exact hnext _ (h.ready hw₁ htake added)
      | accepted =>
        obtain rfl := hadded rfl
        exact hnext _ (h.accepted hw₁ htake)
      | sent => exact hkeep _ (h.sent_delivered hw₁ htake hovertakes added)
      | received => exact hkeep _ (h.received_delivered hw₁ htake hhand added)
      | disconnect => exact hkeep _ (h.disconnect_delivered hw₁ htake hovertakes hhand added)

/-- A careful step returns and keeps the invariant, or an assertion fails. -/
theorem Life.step (h : Life g w) {e : Step} (he : Enabled w e) (hcareful : Careful w e) :
    OkOrAssert (fun r => ∃ g', Life g' r.1) (w.step e) := by
  cases e with
  | connect => exact OkOrAssert.bind (h.connect he.1) fun w' h' => h'
  | send s msg => exact OkOrAssert.bind (h.pipeSend ((h.fits s).pipe he.1) msg) fun w' h' => ⟨g, h'⟩
  | recv s =>
    refine OkOrAssert.bind (h.pipeRecv ((h.fits s).pipe he.1)) ?_
    rintro ⟨msg, w'⟩ h'
    exact ⟨g, h'⟩
  | stop s => exact OkOrAssert.bind (h.stop hcareful) fun w' h' => ⟨g, h'⟩
  | leave s => exact ⟨g, h.congr rfl (pending_leave w s)⟩
  | take i =>
    obtain ⟨w', heq, hsess, hpending⟩ := w.step_take i
    rw [heq]
    exact ⟨g, h.congr hsess hpending⟩
  | deliver i added => exact h.deliver hcareful

end Life

theorem exists_life_of_trace {rcvbuf : Side → ℕ} {es : List Step} {w : World}
    (h : Runs.Trace World.step (fun w e => Enabled w e ∧ Careful w e) (World.init rcvbuf) es w) :
    ∃ g, Life g w := by
  refine h.invariant (I := fun _ w => ∃ g, Life g w) ⟨.fresh, init_life rcvbuf⟩ ?_
  rintro es w e w' msg ⟨g, hlife⟩ ⟨he, hcareful⟩ heq
  have := hlife.step he hcareful
  rw [heq] at this
  exact this

/-- In a run of careful steps no session meets an event that its state does not list, and none
follows a NULL peer. -/
theorem careful_run_never_aborts (rcvbuf : Side → ℕ) (es : List Step) (w : World)
    (h : Runs.Trace World.step (fun w e => Enabled w e ∧ Careful w e) (World.init rcvbuf) es w)
    (e : Step) (he : Enabled w e) (hcareful : Careful w e) :
    w.step e ≠ .error .badAction ∧ w.step e ≠ .error .badState ∧ w.step e ≠ .error .badSource ∧
      w.step e ≠ .error .nullDeref := by
  obtain ⟨g, hlife⟩ := exists_life_of_trace h
  have hstep := hlife.step he hcareful
  have hfault : ∀ f, w.step e = .error f → f = .assertFailed := by
    intro f hf
    rwa [hf] at hstep
  refine ⟨fun hf => ?_, fun hf => ?_, fun hf => ?_, fun hf => ?_⟩ <;> cases hfault _ hf

/-- The handshake. -/
def connectRun : List Step :=
  [.connect, .leave .a, .take 0, .deliver 0 true, .leave .b, .take 1, .deliver 1 true, .leave .a,
    .take 2, .deliver 2 true]

/-- The handshake, then both sessions stop while a message is on its way. -/
def closeRun : List Step :=
  connectRun ++ [.send .a ⟨[], [], [1]⟩, .leave .a, .stop .b, .leave .b, .take 3, .deliver 3 true,
    .stop .a, .leave .a, .take 5, .deliver 5 true, .take 4, .deliver 4 true]

theorem closeRun_returns :
    (Runs.runWhile World.step (fun w e => Enabled w e ∧ Careful w e) (World.init fun _ => 3)
      closeRun).isSome := by
  decide

theorem careful_run_never_aborts_close :
    let w := (Runs.runWhile World.step (fun w e => Enabled w e ∧ Careful w e)
      (World.init fun _ => 3) closeRun).get closeRun_returns
    (w.sess .a).fsm = .idle ∧ (w.sess .b).fsm = .idle ∧ w.step (.stop .a) ≠ .error .nullDeref := by
  intro w
  refine ⟨by decide, by decide, ?_⟩
  exact (careful_run_never_aborts (fun _ => 3) closeRun w (Runs.Trace.of_runWhile closeRun_returns)
    (.stop .a) trivial (by decide)).2.2.2

theorem connecting_returns :
    (Runs.runWhile World.step Enabled (World.init fun _ => 3) [.connect]).isSome := by
  decide

/-- The handshake up to the point where the session that connected is `ACTIVE`; then it sends a
message, and another thread announces it before `ACCEPTED` is delivered. -/
def overtakingRun : List Step :=
  [.connect, .leave .a, .take 0, .deliver 0 true, .leave .b, .take 1, .deliver 1 true, .leave .a,
    .send .a ⟨[], [], [1]⟩, .leave .a, .take 3]

theorem overtakingRun_returns :
    (Runs.runWhile World.step Enabled (World.init fun _ => 3) overtakingRun).isSome := by
  decide

/-- A message is received, and one thread takes `RECEIVED` from its queue.  Before it delivers the
event, the receiver of the message stops, another thread delivers its `DISCONNECT`, and the sender
of the message stops, too. -/
def lateRun : List Step :=
  connectRun ++ [.send .a ⟨[], [], [1]⟩, .leave .a, .take 3, .deliver 3 true, .leave .b, .take 4,
    .stop .b, .leave .b, .take 5, .deliver 5 true, .leave .a, .stop .a]

theorem lateRun_returns :
    (Runs.runWhile World.step Enabled (World.init fun _ => 3) lateRun).isSome := by
  decide

/-- Stopping a session that waits for its peer follows a NULL pointer, a message that overtakes the
end of the handshake aborts the receiver, and so does `RECEIVED` when it comes to a session that has
stopped. -/
theorem session_aborts :
    (∃ w, Runs.Trace World.step Enabled (World.init fun _ => 3) [.connect] w ∧
      Enabled w (.stop .a) ∧ w.step (.stop .a) = .error .nullDeref) ∧
    (∃ w, Runs.Trace World.step Enabled (World.init fun _ => 3) overtakingRun w ∧
      Enabled w (.deliver 3 true) ∧ w.step (.deliver 3 true) = .error .badAction) ∧
    ∃ w, Runs.Trace World.step Enabled (World.init fun _ => 3) lateRun w ∧
      Enabled w (.deliver 4 true) ∧ w.step (.deliver 4 true) = .error .badState :=
  ⟨⟨_, Runs.Trace.of_runWhile connecting_returns, trivial, rfl⟩,
    ⟨_, Runs.Trace.of_runWhile overtakingRun_returns, trivial, rfl⟩,
    ⟨_, Runs.Trace.of_runWhile lateRun_returns, trivial, rfl⟩⟩

end NanoSocket.Inproc

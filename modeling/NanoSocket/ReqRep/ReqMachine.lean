import NanoSocket.ReqRep.Req

/-!
# The REQ state machine

`Next` is the state machine on paper: which input takes which state to which.  `Req.Wf` ties a state
to the phase of the re-send timer and to the pipe of the request; `nnReqHandler_spec` says that the
handler follows `Next` and keeps `Req.Wf`, and what it leaves alone (`Frame`).  `Drains` describes
the receive loop of `nn_req_in` turn by turn.
-/

namespace NanoSocket.ReqRep

variable {P : Type} [DecidableEq P]

/-- The phase in which a state finds the re-send timer. -/
def ReqState.phase : ReqState → TimerState
  | .idle | .passive | .delayed | .done => .idle
  | .active => .active
  | .timedOut | .cancelling | .stoppingTimer | .stopping => .stopping

/-- The transitions of the state machine. -/
inductive Next : ReqState → ReqInput → ReqState → Prop
  | send {s : ReqState} (hs : s = .passive ∨ s = .done) : Next s (.action .sent) .active
  | sendDelayed {s : ReqState} (hs : s = .passive ∨ s = .done) : Next s (.action .sent) .delayed
  | out : Next .delayed (.action .pipeOut) .active
  | replaceDelayed : Next .delayed (.action .sent) .delayed
  | reply : Next .active (.action .pipeIn) .stoppingTimer
  | cancel {s : ReqState}
      (hs : s = .active ∨ s = .timedOut ∨ s = .cancelling ∨ s = .stoppingTimer) :
      Next s (.action .sent) .cancelling
  | pipeRm : Next .active (.action .pipeRm) .timedOut
  | timeout : Next .active (.resendTimer .timeout) .timedOut
  | resend {s : ReqState} (hs : s = .timedOut ∨ s = .cancelling) :
      Next s (.resendTimer .stopped) .active
  | resendDelayed {s : ReqState} (hs : s = .timedOut ∨ s = .cancelling) :
      Next s (.resendTimer .stopped) .delayed
  | stored : Next .stoppingTimer (.resendTimer .stopped) .done
  | received : Next .done (.action .received) .passive

theorem Next.of_pipeIn {s s' : ReqState} (h : Next s (.action .pipeIn) s') :
    s' = .stoppingTimer := by
  cases h
  rfl

theorem Next.of_received {s s' : ReqState} (h : Next s (.action .received) s') : s' = .passive := by
  cases h
  rfl

theorem Next.of_passive {s s' : ReqState} {src : ReqInput} (h : Next s src s') (hs : s = .passive) :
    src = .action .sent := by
  cases h <;> first | rfl | simp_all

/-- A reply is stored by `NN_REQ_ACTION_IN` only. -/
theorem Next.to_stoppingTimer {s s' : ReqState} {src : ReqInput} (h : Next s src s')
    (hs : s' = .stoppingTimer) : src = .action .pipeIn := by
  cases h <;> first | rfl | simp_all

theorem Next.to_done {s s' : ReqState} {src : ReqInput} (h : Next s src s') (hs : s' = .done) :
    src = .resendTimer .stopped ∧ s = .stoppingTimer := by
  cases h <;> simp_all

/-- The state machine is never idle or stopping while it runs. -/
theorem Next.running {s s' : ReqState} {src : ReqInput} (h : Next s src s') :
    s' ≠ .idle ∧ s' ≠ .stopping := by
  cases h <;> simp

theorem Next.exists_sent {s : ReqState} (h : s ≠ .idle ∧ s ≠ .stopping) :
    ∃ s', Next s (.action .sent) s' := by
  cases s with
  | idle => exact absurd rfl h.1
  | passive => exact ⟨_, .send (Or.inl rfl)⟩
  | delayed => exact ⟨_, .replaceDelayed⟩
  | active => exact ⟨_, .cancel (by simp)⟩
  | timedOut => exact ⟨_, .cancel (by simp)⟩
  | cancelling => exact ⟨_, .cancel (by simp)⟩
  | stoppingTimer => exact ⟨_, .cancel (by simp)⟩
  | done => exact ⟨_, .send (Or.inr rfl)⟩
  | stopping => exact absurd rfl h.2

theorem Next.exists_stopped {s : ReqState} (h : s ≠ .idle ∧ s ≠ .stopping)
    (hp : s.phase = .stopping) : ∃ s', Next s (.resendTimer .stopped) s' := by
  cases s with
  | timedOut => exact ⟨_, .resend (Or.inl rfl)⟩
  | cancelling => exact ⟨_, .resend (Or.inr rfl)⟩
  | stoppingTimer => exact ⟨_, .stored⟩
  | stopping => exact absurd rfl h.2
  | _ => cases hp

theorem ReqState.phase_eq_active {s : ReqState} (h : s.phase = .active) : s = .active := by
  cases s <;> first | rfl | cases h

/-- What the state machine leaves alone. -/
structure Frame (r r' : Req P) : Prop where
  fsm : r'.fsm = r.fsm
  id : r'.task.id = r.task.id
  request : r'.task.request = r.task.request
  reply : r'.task.reply = r.task.reply
  ivl : r'.resendIvl = r.resendIvl
  fq : r'.xreq.fq = r.xreq.fq
  inward : ∀ p, (r'.xreq.pipes p).map Pipe.inward = (r.xreq.pipes p).map Pipe.inward

omit [DecidableEq P] in
theorem Frame.exists_pipe {r r' : Req P} (h : Frame r r') {p : P} {pipe' : Pipe}
    (hp : r'.xreq.pipes p = some pipe') :
    ∃ pipe, r.xreq.pipes p = some pipe ∧ pipe.inbox = pipe'.inbox ∧
      pipe.inRaised = pipe'.inRaised := by
  have hmap := h.inward p
  rw [hp] at hmap
  obtain ⟨pipe, hpipe, heq⟩ := Option.map_eq_some_iff.1 hmap.symm
  exact ⟨pipe, hpipe, congrArg Prod.fst heq, congrArg Prod.snd heq⟩

omit [DecidableEq P] in
theorem Frame.neglected {r r' : Req P} (h : Frame r r') {p : P} (hn : r'.xreq.Neglected p) :
    r.xreq.Neglected p := by
  obtain ⟨pipe', hp, hne, hraised, hna⟩ := hn
  obtain ⟨pipe, hp', hin, hir⟩ := h.exists_pipe hp
  exact ⟨pipe, hp', hin ▸ hne, hir.trans hraised, h.fq ▸ hna⟩

/-- The invariant of a REQ socket before it is stopped. -/
structure Req.Wf (r : Req P) : Prop where
  xreq : r.xreq.Wf
  ivl : 0 ≤ r.resendIvl
  timer : r.task.timer.In r.state.phase
  sent : r.task.sentTo ≠ none ↔ r.state = .active
  attached : ∀ p, r.task.sentTo = some p → (r.xreq.pipes p).isSome

/-! ### The handler -/

/-- `nn_req_action_send` with an idle timer. -/
theorem nnReqActionSend_spec {r : Req P} (hx : r.xreq.Wf) (hivl : 0 ≤ r.resendIvl)
    (ht : r.task.timer.In .idle) (hsent : r.task.sentTo = none) {allowDelay : Bool}
    (hd : allowDelay = true ∨ ∃ p, r.xreq.lb.Active p) (sync : Bool) :
    ∃ r', nnReqActionSend r allowDelay sync = .ok r' ∧ r'.Wf ∧ Frame r r' ∧
      (r'.state = .active ∨ r'.state = .delayed ∧ allowDelay = true) := by
  unfold nnReqActionSend
  rcases nnXreqSendTo_spec hx r.task.request sync with
    ⟨hnone, heq⟩ | ⟨p, x', heq, hx', hfq, hp, hinward, -⟩
  · have hallow : allowDelay = true := hd.resolve_right fun ⟨p, hp⟩ => hnone p hp
    refine ⟨{ r with state := .delayed }, ?_, ⟨hx, hivl, ht, by simp [hsent], by simp [hsent]⟩,
      ⟨rfl, rfl, rfl, rfl, rfl, rfl, fun _ => rfl⟩, Or.inr ⟨rfl, hallow⟩⟩
    rw [heq, ok_bind]
    simp only [hallow, nnAssert_of]
    rfl
  · obtain ⟨t', hstart, ht'⟩ := ht.start hivl
    refine ⟨{ r with xreq := x', task.timer := t', task.sentTo := some p, state := .active }, ?_,
      ⟨hx', hivl, ht', by simp, ?_⟩, ⟨rfl, rfl, rfl, rfl, rfl, hfq, hinward⟩, Or.inl rfl⟩
    · rw [heq, ok_bind]
      simp only [hstart, ok_bind]
      rfl
    · rintro q ⟨⟩
      exact hp

omit [DecidableEq P] in
theorem Req.giveUp_spec {r : Req P} (hx : r.xreq.Wf) (hivl : 0 ≤ r.resendIvl)
    (ht : r.task.timer.In .active) {s : ReqState} (hs : s.phase = .stopping) :
    ∃ r', r.giveUp s = .ok r' ∧ r'.Wf ∧ Frame r r' ∧ r'.state = s := by
  obtain ⟨t', hstop, ht'⟩ := ht.stop
  have hna : s ≠ .active := by rintro rfl; cases hs
  refine ⟨{ r with task.timer := t', task.sentTo := none, state := s }, by simp [Req.giveUp, hstop],
    ⟨hx, hivl, hs ▸ ht', by simp [hna], by simp⟩, ⟨rfl, rfl, rfl, rfl, rfl, rfl, fun _ => rfl⟩, rfl⟩

/-- An input that the state machine expects: the handler returns, follows `Next` and keeps the
invariant. The timer's own state machine has already moved when it is the source. -/
theorem nnReqHandler_spec {r : Req P} (src : ReqInput) (hx : r.xreq.Wf) (hivl : 0 ≤ r.resendIvl)
    (ht : r.task.timer.In (if src = .resendTimer .stopped then .idle else r.state.phase))
    (hsent : r.task.sentTo ≠ none ↔ r.state = .active) {s' : ReqState} (hnext : Next r.state src s')
    (hout : src = .action .pipeOut → ∃ p, r.xreq.lb.Active p) (sync : Bool) :
    ∃ r', nnReqHandler r sync src = .ok r' ∧ r'.Wf ∧ Frame r r' ∧ Next r.state src r'.state := by
  generalize hst : r.state = st at hnext ht hsent
  have hframe : ∀ s, Frame r { r with state := s } :=
    fun s => ⟨rfl, rfl, rfl, rfl, rfl, rfl, fun _ => rfl⟩
  have hnone : st ≠ .active → r.task.sentTo = none := fun hne => not_not.1 fun h => hne (hsent.1 h)
  -- a new state with the same timer and no pipe
  have hstay : ∀ s, st ≠ .active → s ≠ .active → r.task.timer.In s.phase →
      Req.Wf { r with state := s } := by
    intro s hst hs htimer
    exact ⟨hx, hivl, htimer, by simp [hnone hst, hs], by simp [hnone hst]⟩
  have hkeep : st ≠ .active → r.task.timer.In st.phase → Next st src st →
      ∃ r', (.ok r : Except Fault (Req P)) = .ok r' ∧ r'.Wf ∧ Frame r r' ∧
        Next st src r'.state := by
    intro hne htimer hnx
    refine ⟨r, rfl, ⟨hx, hivl, by rwa [hst], by rwa [hst], by simp [hnone hne]⟩, ?_, by rwa [hst]⟩
    exact ⟨rfl, rfl, rfl, rfl, rfl, rfl, fun _ => rfl⟩
  -- the four places that call `nn_req_action_send`
  have hsend : st ≠ .active → r.task.timer.In .idle → ∀ allow,
      (allow = true ∨ ∃ p, r.xreq.lb.Active p) → Next st src .active →
      (allow = true → Next st src .delayed) →
      ∃ r', nnReqActionSend r allow sync = .ok r' ∧ r'.Wf ∧ Frame r r' ∧ Next st src r'.state := by
    intro hne htimer allow hallow hact hdel
    obtain ⟨r', heq, hwf, hfr, hstate⟩ :=
      nnReqActionSend_spec hx hivl htimer (hnone hne) hallow sync
    refine ⟨r', heq, hwf, hfr, ?_⟩
    rcases hstate with h | ⟨h, hd⟩
    · exact h ▸ hact
    · exact h ▸ hdel hd
  have hgive : ∀ s, st = .active → src ≠ .resendTimer .stopped →
      s.phase = .stopping → Next st src s →
      ∃ r', r.giveUp s = .ok r' ∧ r'.Wf ∧ Frame r r' ∧ Next st src r'.state := by
    intro s hact hsrc hs hnx
    rw [if_neg hsrc, hact] at ht
    obtain ⟨r', heq, hwf, hfr, hstate⟩ := Req.giveUp_spec hx hivl ht hs
    exact ⟨r', heq, hwf, hfr, hstate ▸ hnx⟩
  unfold nnReqHandler
  rw [hst]
  cases hnext with
  | send hs =>
    rcases hs with rfl | rfl
    · exact hsend (by simp) ht true (Or.inl rfl) (.send (Or.inl rfl)) fun _ =>
        .sendDelayed (Or.inl rfl)
    · exact hsend (by simp) ht true (Or.inl rfl) (.send (Or.inr rfl)) fun _ =>
        .sendDelayed (Or.inr rfl)
  | sendDelayed hs =>
    rcases hs with rfl | rfl
    · exact hsend (by simp) ht true (Or.inl rfl) (.send (Or.inl rfl)) fun _ =>
        .sendDelayed (Or.inl rfl)
    · exact hsend (by simp) ht true (Or.inl rfl) (.send (Or.inr rfl)) fun _ =>
        .sendDelayed (Or.inr rfl)
  | out => exact hsend (by simp) ht false (Or.inr (hout rfl)) .out fun h => nomatch h
  | replaceDelayed => exact hkeep (by simp) ht .replaceDelayed
  | reply => exact hgive .stoppingTimer rfl (by simp) rfl .reply
  | cancel hs =>
    rcases hs with rfl | rfl | rfl | rfl
    · exact hgive .cancelling rfl (by simp) rfl (.cancel (by simp))
    · exact ⟨_, rfl, hstay .cancelling (by simp) (by simp) ht, hframe _, .cancel (by simp)⟩
    · exact hkeep (by simp) ht (.cancel (by simp))
    · exact ⟨_, rfl, hstay .cancelling (by simp) (by simp) ht, hframe _, .cancel (by simp)⟩
  | pipeRm => exact hgive .timedOut rfl (by simp) rfl .pipeRm
  | timeout => exact hgive .timedOut rfl (by simp) rfl .timeout
  | resend hs =>
    rcases hs with rfl | rfl
    · exact hsend (by simp) ht true (Or.inl rfl) (.resend (Or.inl rfl)) fun _ =>
        .resendDelayed (Or.inl rfl)
    · exact hsend (by simp) ht true (Or.inl rfl) (.resend (Or.inr rfl)) fun _ =>
        .resendDelayed (Or.inr rfl)
  | resendDelayed hs =>
    rcases hs with rfl | rfl
    · exact hsend (by simp) ht true (Or.inl rfl) (.resend (Or.inl rfl)) fun _ =>
        .resendDelayed (Or.inl rfl)
    · exact hsend (by simp) ht true (Or.inl rfl) (.resend (Or.inr rfl)) fun _ =>
        .resendDelayed (Or.inr rfl)
  | stored => exact ⟨_, rfl, hstay .done (by simp) (by simp) ht, hframe _, .stored⟩
  | received => exact ⟨_, rfl, hstay .passive (by simp) (by simp) ht, hframe _, .received⟩

/-! ### The receive loop -/

/-- A reply to the current request: its header is the request's id with the top bit set. -/
def Req.Accepts (r : Req P) (reply : Msg) : Prop :=
  nnReqInprogress r = true ∧ reply.sphdr = nnPutl (r.task.id ||| 0x80000000)

/-- The loop of `nn_req_in`, turn by turn. -/
inductive Drains : Req P → Req P → Prop
  | empty {r : Req P} (h : ∀ p, ¬ r.xreq.fq.Active p) : Drains r r
  | malformed {r : Req P} {p : P} {m : Inbound} {x : Xreq P} (ht : XreqTaken r.xreq p m x)
      (hs : m.split = .ok .malformed) : Drains r { r with xreq := x, task.reply := none }
  | skip {r r' : Req P} {p : P} {m : Inbound} {x : Xreq P} {g : Msg} (ht : XreqTaken r.xreq p m x)
      (hs : m.split = .ok (.msg g)) (hn : ¬ r.Accepts g)
      (hrest : Drains { r with xreq := x, task.reply := none } r') : Drains r r'
  | store {r : Req P} {p : P} {m : Inbound} {x : Xreq P} {g : Msg} (ht : XreqTaken r.xreq p m x)
      (hs : m.split = .ok (.msg g)) (ha : r.Accepts g) (hst : r.state ≠ .active) :
      Drains r { r with xreq := x, task.reply := some { g with sphdr := [] } }
  | deliver {r r' : Req P} {p : P} {m : Inbound} {x : Xreq P} {g : Msg}
      (ht : XreqTaken r.xreq p m x)
      (hs : m.split = .ok (.msg g)) (ha : r.Accepts g) (hst : r.state = .active)
      (hf : Frame { r with xreq := x, task.reply := some { g with sphdr := [] } } r')
      (hst' : r'.state = .stoppingTimer) : Drains r r'

theorem topBit_ne_zero (v : UInt32) : (v ||| 0x80000000) &&& 0x80000000 ≠ 0 := by
  have h : (v ||| 0x80000000) &&& 0x80000000 = 0x80000000 := by
    apply UInt32.toBitVec_inj.1
    apply BitVec.eq_of_getLsbD_eq
    intro i hi
    simp only [UInt32.toBitVec_and, UInt32.toBitVec_or, BitVec.getLsbD_and, BitVec.getLsbD_or]
    cases (UInt32.toBitVec 0x80000000).getLsbD i <;> simp
  rw [h]
  decide

theorem Req.Wf.taken {r : Req P} (h : r.Wf) {p : P} {m : Inbound} {x : Xreq P}
    (ht : XreqTaken r.xreq p m x) (reply : Option Msg) :
    Req.Wf { r with xreq := x, task.reply := reply } :=
  ⟨ht.wf, h.ivl, h.timer, h.sent, fun q hq => by
    have := h.attached q hq
    rwa [← ht.attached q] at this⟩

/-- With enough fuel for the messages at hand, the loop returns and is described by `Drains`. -/
theorem nnReqInLoop_spec {r : Req P} (h : r.Wf) (hfsm : r.fsm = .active) {n : ℕ}
    (hn : pending r.xreq.fq r.xreq.pipes < n) :
    ∃ r', nnReqInLoop n r = .ok (r', false) ∧ r'.Wf ∧ Drains r r' := by
  induction n generalizing r with
  | zero => omega
  | succ n ih =>
    rw [nnReqInLoop]
    rcases nnXreqRecv_spec h.xreq with ⟨hnone, heq⟩ | ⟨p, m, x, g, ht, hs, hne, heq⟩
    · exact ⟨r, by rw [heq]; rfl, h, .empty hnone⟩
    · rw [heq, ok_bind]
      simp only
      cases g with
      | empty => exact absurd rfl hne
      | malformed => exact ⟨_, rfl, h.taken ht none, .malformed ht hs⟩
      | msg reply =>
        have hlt := ht.pending_lt
        obtain ⟨r', hloop, hwf, hdr⟩ := ih (r := { r with xreq := x, task.reply := none })
          (h.taken ht none) hfsm (by simp only; omega)
        have hskip : ¬ r.Accepts reply →
            ∃ r', nnReqInLoop n { r with xreq := x, task.reply := none } = .ok (r', false) ∧ r'.Wf ∧
              Drains r r' := fun hna => ⟨r', hloop, hwf, .skip ht hs hna hdr⟩
        simp only [show nnReqInprogress { r with xreq := x } = nnReqInprogress r from rfl]
        by_cases hprog : nnReqInprogress r = true
        swap
        · rw [if_pos (by simpa using hprog)]
          exact hskip fun ha => hprog ha.1
        rw [if_neg (by simpa using hprog)]
        by_cases hlen : reply.sphdr.length = 4
        swap
        · rw [if_pos hlen]
          exact hskip fun ha => hlen (by rw [ha.2]; rfl)
        rw [if_neg (not_not_intro hlen)]
        obtain ⟨reqid, hget⟩ := nnGetl_of_length hlen.ge
        have hput := nnPutl_of_nnGetl hlen hget
        rw [hget, ok_bind]
        by_cases htop : reqid &&& 0x80000000 = 0
        · rw [if_pos htop]
          refine hskip fun ha => topBit_ne_zero r.task.id ?_
          rwa [← nnPutl_injective (hput.trans ha.2)]
        rw [if_neg htop]
        by_cases hid : reqid = r.task.id ||| 0x80000000
        swap
        · rw [if_pos hid]
          exact hskip fun ha => hid (nnPutl_injective (hput.trans ha.2))
        rw [if_neg (not_not_intro hid)]
        have ha : r.Accepts reply := ⟨hprog, by rw [← hput, hid]⟩
        by_cases hact : r.state = .active
        · rw [if_pos hact]
          have hwf' := h.taken ht (some { reply with sphdr := [] })
          obtain ⟨r', heq', hwf'', hfr, hnext⟩ :=
            nnReqHandler_spec (.action .pipeIn) hwf'.xreq hwf'.ivl
            hwf'.timer hwf'.sent (hact ▸ Next.reply) (by rintro ⟨⟩) true
          refine ⟨r', ?_, hwf'', .deliver ht hs ha hact hfr ?_⟩
          · rw [Req.feed, if_pos (by simp [hfsm]), heq']
            rfl
          · exact hnext.of_pipeIn
        · rw [if_neg hact]
          exact ⟨_, rfl, h.taken ht _, .store ht hs ha hact⟩

/-- `nn_req_in` for a pipe whose `IN` event was raised. -/
theorem nnReqIn_spec {r : Req P} (h : r.Wf) (hfsm : r.fsm = .active) {p : P} {pipe : Pipe}
    (hp : r.xreq.pipes p = some pipe) (hr : pipe.InReady) (hna : ¬ r.xreq.fq.Active p) :
    ∃ fq r', nnReqIn r p = .ok (r', false) ∧ r'.Wf ∧ r.xreq.fq.activate p = .ok fq ∧
      Xreq.Wf { r.xreq with fq := fq } ∧ (∀ q, fq.Active q ↔ r.xreq.fq.Active q ∨ q = p) ∧
      Drains { r with xreq.fq := fq } r' := by
  obtain ⟨fq, hin, hwf, hact⟩ := nnXreqIn_spec h.xreq hp hr hna
  have hwf' : Req.Wf { r with xreq.fq := fq } := ⟨hwf, h.ivl, h.timer, h.sent, h.attached⟩
  obtain ⟨r', hloop, hwf'', hdr⟩ := nnReqInLoop_spec hwf' hfsm (Nat.lt_succ_self _)
  refine ⟨fq, r', ?_, hwf'', ?_, hwf, hact, hdr⟩
  · rw [nnReqIn, hin, ok_bind]
    exact hloop
  · rw [nnXreqIn] at hin
    obtain ⟨fq', heq, hfq⟩ := bind_eq_ok.1 hin
    cases hfq
    exact heq

theorem Drains.running {r r' : Req P} (h : Drains r r')
    (hst : r.state ≠ .idle ∧ r.state ≠ .stopping) :
    r'.fsm = r.fsm ∧ r'.state ≠ .idle ∧ r'.state ≠ .stopping := by
  induction h with
  | empty => exact ⟨rfl, hst⟩
  | malformed => exact ⟨rfl, hst⟩
  | skip _ _ _ _ ih => exact ih hst
  | store => exact ⟨rfl, hst⟩
  | deliver _ _ _ _ hf hst' => exact ⟨hf.fsm, by simp [hst'], by simp [hst']⟩

end NanoSocket.ReqRep

import NanoSocket.Lib.Runs
import NanoSocket.Survey.Surveyor

/-!
# Surveys, responses and deadlines

`SurveyorState.next` is the state machine on paper.  `Surveyor.Wf` ties a state to the phase of the
deadline timer, and `nnSurveyorHandler_spec` says that the handler follows `next` and keeps
`Surveyor.Wf`.

`Log` is what an observer of the socket knows: the survey that was submitted last, and, when a
survey has expired and no other one was submitted since, the number of receives since then.
`surveyor_protocol` is the result: in every run the responses that a receive returns carry the id of
the last survey, expired surveys are reported once, and nothing aborts.
-/

namespace NanoSocket.Survey

open Runs

variable {P : Type} [DecidableEq P]

/-- The phase in which a state finds the deadline timer. -/
def SurveyorState.phase : SurveyorState → TimerState
  | .idle | .passive => .idle
  | .active => .active
  | .cancelling | .stoppingTimer | .stopping => .stopping

/-- The transitions of the state machine. -/
def SurveyorState.next : SurveyorState → SurveyorInput → Option SurveyorState
  | .passive, .action .start => some .active
  | .active, .action .cancel => some .cancelling
  | .active, .deadlineTimer .timeout => some .stoppingTimer
  | .cancelling, .action .cancel => some .cancelling
  | .cancelling, .deadlineTimer .stopped => some .active
  | .stoppingTimer, .action .cancel => some .cancelling
  | .stoppingTimer, .deadlineTimer .stopped => some .passive
  | _, _ => none

/-- The invariant of a SURVEYOR socket before it is stopped. -/
structure Surveyor.Wf (r : Surveyor P) : Prop where
  xsurveyor : r.xsurveyor.Wf
  deadline : 0 ≤ r.deadline
  timer : r.timer.In r.state.phase

/-- What the state machine leaves alone. -/
structure Frame (r r' : Surveyor P) : Prop where
  fsm : r'.fsm = r.fsm
  surveyid : r'.surveyid = r.surveyid
  tosend : r'.tosend = r.tosend

omit [DecidableEq P] in
theorem Frame.refl (r : Surveyor P) : Frame r r := ⟨rfl, rfl, rfl⟩

/-! ### The handler -/

theorem Surveyor.open_spec {r : Surveyor P} (hx : r.xsurveyor.Wf) (hd : 0 ≤ r.deadline)
    (ht : r.timer.In .idle) (sync : P → Bool) :
    ∃ r', r.open sync = .ok r' ∧ r'.Wf ∧ Frame r r' ∧ r'.state = .active ∧
      r'.timedout = r.timedout := by
  obtain ⟨x', hsend, hx', -⟩ := nnXsurveyorSend_spec hx r.tosend sync
  obtain ⟨t', hstart, ht'⟩ := ht.start hd
  refine ⟨{ r with xsurveyor := x', timer := t', state := .active }, ?_, ⟨hx', hd, ht'⟩,
    ⟨rfl, rfl, rfl⟩, rfl, rfl⟩
  unfold Surveyor.open nnSurveyorResend
  rw [hsend, ok_bind]
  show (nnTimerStart r.timer r.deadline >>= _) = _
  rw [hstart]
  rfl

/-- An input that the state machine expects: the handler returns, follows `next` and keeps the
invariant.  The timer's own state machine has already moved when it is the source. -/
theorem nnSurveyorHandler_spec {r : Surveyor P} (src : SurveyorInput) (hx : r.xsurveyor.Wf)
    (hd : 0 ≤ r.deadline)
    (ht : r.timer.In (if src = .deadlineTimer .stopped then .idle else r.state.phase))
    {st : SurveyorState} (hnext : r.state.next src = some st) (sync : P → Bool) :
    ∃ r', nnSurveyorHandler r sync src = .ok r' ∧ r'.Wf ∧ Frame r r' ∧ r'.state = st ∧
      (r'.timedout = true ↔ r.timedout = true ∨ src = .deadlineTimer .timeout) := by
  generalize hst : r.state = st₀ at hnext ht
  have hopen : r.timer.In .idle → src ≠ .deadlineTimer .timeout →
      ∃ r', r.open sync = .ok r' ∧ r'.Wf ∧ Frame r r' ∧ r'.state = .active ∧
        (r'.timedout = true ↔ r.timedout = true ∨ src = .deadlineTimer .timeout) := by
    intro htimer hsrc
    obtain ⟨r', heq, hwf, hfr, hact, htim⟩ := Surveyor.open_spec hx hd htimer sync
    exact ⟨r', heq, hwf, hfr, hact, by simp [htim, hsrc]⟩
  unfold nnSurveyorHandler
  rw [hst]
  cases st₀ with
  | idle => cases hnext
  | passive =>
    match src, hnext, ht with
    | .action .start, rfl, ht => exact hopen ht (by simp)
  | active =>
    match src, hnext, ht with
    | .action .cancel, rfl, ht =>
      obtain ⟨t, heq, ht'⟩ := Timer.In.stop ht
      refine ⟨{ r with timer := t, state := .cancelling }, by rw [heq]; rfl, ⟨hx, hd, ht'⟩,
        ⟨rfl, rfl, rfl⟩, rfl, by simp⟩
    | .deadlineTimer .timeout, rfl, ht =>
      obtain ⟨t, heq, ht'⟩ := Timer.In.stop ht
      refine ⟨{ r with timer := t, state := .stoppingTimer, timedout := true }, by rw [heq]; rfl,
        ⟨hx, hd, ht'⟩, ⟨rfl, rfl, rfl⟩, rfl, by simp⟩
  | cancelling =>
    match src, hnext, ht with
    | .action .cancel, rfl, ht => exact ⟨r, rfl, ⟨hx, hd, hst ▸ ht⟩, .refl r, hst, by simp⟩
    | .deadlineTimer .stopped, rfl, ht => exact hopen ht (by simp)
  | stoppingTimer =>
    match src, hnext, ht with
    | .action .cancel, rfl, ht => exact ⟨_, rfl, ⟨hx, hd, ht⟩, ⟨rfl, rfl, rfl⟩, rfl, by simp⟩
    | .deadlineTimer .stopped, rfl, ht =>
      exact ⟨_, rfl, ⟨hx, hd, ht⟩, ⟨rfl, rfl, rfl⟩, rfl, by simp⟩
  | stopping => cases hnext

/-! ### Receiving -/

/-- The message `msg` is the body of a response at hand whose header is the id of the current
survey. -/
def Surveyor.Response (r : Surveyor P) (msg : Msg) : Prop :=
  ∃ p pipe m g, r.xsurveyor.pipes p = some pipe ∧ m ∈ pipe.inbox ∧ m.split = .ok (.msg g) ∧
    g.sphdr = nnPutl r.surveyid ∧ msg = { g with sphdr := [] }

/-- With enough fuel for the messages at hand, the loop returns. -/
theorem nnSurveyorRecvLoop_spec {r : Surveyor P} (h : r.Wf) {n : ℕ}
    (hn : pending r.xsurveyor.inpipes r.xsurveyor.pipes < n) :
    ∃ res x, nnSurveyorRecvLoop n r = .ok (res, { r with xsurveyor := x }) ∧ x.Wf ∧
      ∀ msg, res = .ok msg → r.Response msg := by
  induction n generalizing r with
  | zero => omega
  | succ n ih =>
    rw [nnSurveyorRecvLoop]
    rcases nnXsurveyorRecv_spec h.xsurveyor with ⟨-, heq⟩ | ⟨p, m, x, g, ht, hs, hne, heq⟩
    · exact ⟨.error .eagain, r.xsurveyor, by rw [heq]; rfl, h.xsurveyor, fun _ h => nomatch h⟩
    rw [heq, ok_bind]
    cases g with
    | empty => exact absurd rfl hne
    | malformed => exact ⟨.error .eagain, x, rfl, ht.wf, fun _ h => nomatch h⟩
    | msg g =>
      have hlt := ht.pending_lt
      -- a stale response is skipped
      have hskip : ∃ res x', nnSurveyorRecvLoop n { r with xsurveyor := x } =
          .ok (res, { r with xsurveyor := x' }) ∧ x'.Wf ∧ ∀ msg, res = .ok msg →
            r.Response msg := by
        have hx : Surveyor.Wf { r with xsurveyor := x } := ⟨ht.wf, h.deadline, h.timer⟩
        obtain ⟨res, x', heq', hwf, hres⟩ := ih hx (by simp only; omega)
        refine ⟨res, x', heq', hwf, fun msg hmsg => ?_⟩
        obtain ⟨q, pipe, m', g', hq, hm', hrest⟩ := hres msg hmsg
        obtain ⟨pipe', hq', hin⟩ := ht.exists_of_mem hq hm'
        exact ⟨q, pipe', m', g', hq', hin, hrest⟩
      show ∃ res x', (if g.sphdr.length ≠ 4 then _ else _) = _ ∧ _
      split_ifs with hlen
      · exact hskip
      · obtain ⟨v, hv⟩ := nnGetl_of_length (l := g.sphdr) (by omega)
        have hhdr := nnPutl_of_nnGetl (not_not.1 hlen) hv
        rw [hv, ok_bind]
        show ∃ res x', (if v ≠ r.surveyid then _ else _) = _ ∧ _
        split_ifs with hid
        · exact hskip
        · refine ⟨_, x, rfl, ht.wf, ?_⟩
          rintro msg ⟨⟩
          obtain ⟨pipe, pipe', hp, -, hin⟩ := ht.inbox
          exact ⟨p, pipe, m, g, hp, by simp [hin], hs, by rw [← hhdr, not_not.1 hid], rfl⟩

/-! ### What an observer knows -/

/-- The survey that was submitted last, with its header; and the number of receives since the socket
became passive because a survey expired, unless another one was submitted since. -/
structure Log where
  survey : Option Msg
  expired : Option ℕ
  deriving DecidableEq, Repr

/-- What an event that was answered with `a` adds.  A socket that is being closed answers `-EBADF`
itself. -/
def Log.next (log : Log) (s s' : Sock P) (a : Answer) : Event P → Log
  | .send _ _ => if a = .code none then ⟨some s'.surveyor.tosend, none⟩ else log
  | .recv => if a = .code (some .ebadf) then log
      else { log with expired := log.expired.map (· + 1) }
  | _ =>
    if s.surveyor.state = .stoppingTimer ∧
      s'.surveyor.state = .passive then { log with expired := some 0 }
    else log

/-- A socket together with its observer. -/
def Sock.track (s : Sock P × Log) (e : Event P) : Except Fault ((Sock P × Log) × Answer) := do
  let (s', a) ← s.1.step e
  return ((s', s.2.next s.1 s' a e), a)

/-- How the log matches the state of the socket. -/
structure Records (r : Surveyor P) (log : Log) : Prop where
  submitted : ∀ m, log.survey = some m → m.sphdr = nnPutl r.surveyid ∧ r.tosend = m
  nothing : log.survey = none → r.state = .passive
  expired : ∀ n, log.expired = some n → r.state = .passive ∧ (r.timedout = true ↔ n = 0)
  timedout : r.state = .stoppingTimer → r.timedout = true

/-- The invariant: the socket runs, waits for its timer, or is stopped. -/
inductive Sock.Inv : Sock P → Log → Prop
  | running {s : Sock P} {log : Log} (hs : s.state = .active ∨ s.state = .stoppingEps)
      (hfsm : s.surveyor.fsm = .active) (hwf : s.surveyor.Wf)
      (hst : s.surveyor.state ≠ .idle ∧ s.surveyor.state ≠ .stopping)
      (hrec : Records s.surveyor log) :
      s.Inv log
  | stopping {s : Sock P} {log : Log} (hs : s.state = .stopping) (hfsm : s.surveyor.fsm = .stopping)
      (hst : s.surveyor.state = .stopping) (ht : s.surveyor.timer.In .stopping)
      (hp : ∀ p, s.surveyor.xsurveyor.pipes p = none) : s.Inv log
  | fini {s : Sock P} {log : Log} (hs : s.state = .fini) (hst : s.surveyor.state = .idle)
      (ht : s.surveyor.timer.In .idle) (hp : ∀ p, s.surveyor.xsurveyor.pipes p = none) : s.Inv log

omit [DecidableEq P] in
theorem Sock.init_inv (surveyid : UInt32) : (Sock.init surveyid : Sock P).Inv ⟨none, none⟩ :=
  .running (Or.inl rfl) rfl ⟨Xsurveyor.init_wf, by simp [Sock.init, nnSurveyorInit], Timer.init_in⟩
    ⟨by simp [Sock.init, nnSurveyorInit], by simp [Sock.init, nnSurveyorInit]⟩
    ⟨fun _ h => (nomatch h), fun _ => rfl, fun _ h => (nomatch h), fun h => (nomatch h)⟩

omit [DecidableEq P] in
/-- The records depend on a few fields only. -/
theorem Records.congr {r r' : Surveyor P} {log : Log} (h : Records r log) (hfr : Frame r r')
    (hst : r'.state = r.state) (htim : r'.timedout = r.timedout) : Records r' log := by
  refine ⟨fun m hm => ?_, fun hn => ?_, fun n hn => ?_, fun hs => ?_⟩
  · rw [hfr.surveyid, hfr.tosend]
    exact h.submitted m hm
  · rw [hst]
    exact h.nothing hn
  · rw [hst, htim]
    exact h.expired n hn
  · rw [htim]
    exact h.timedout (hst ▸ hs)

omit [DecidableEq P] in
/-- While a survey is going on, the records do not depend on the state. -/
theorem Records.open {r r' : Surveyor P} {log : Log} (h : Records r log) (hfr : Frame r r')
    (hst : r.state ≠ .passive) (htim : r'.state = .stoppingTimer → r'.timedout = true) :
    Records r' log := by
  refine ⟨fun m hm => ?_, fun hn => absurd (h.nothing hn) hst,
    fun n hn => absurd (h.expired n hn).1 hst, htim⟩
  rw [hfr.surveyid, hfr.tosend]
  exact h.submitted m hm

/-- The events that change neither the state of the protocol nor the log. -/
def Event.isQuiet : Event P → Bool
  | .add _ _ | .rm _ | .arrive _ _ | .sent _ | .pipeIn _ | .pipeOut _ | .setDeadline _ | .close =>
    true
  | _ => false

omit [DecidableEq P] in
theorem Log.next_of_state {log : Log} {s s' : Sock P} {a : Answer} {e : Event P}
    (hsend : ∀ msg sync, e ≠ .send msg sync) (hrecv : e ≠ .recv)
    (hst : s'.surveyor.state = s.surveyor.state) : log.next s s' a e = log := by
  have hno : ¬ (s.surveyor.state = .stoppingTimer ∧ s'.surveyor.state = .passive) := by
    rintro ⟨h, h'⟩
    rw [hst, h] at h'
    cases h'
  cases e with
  | send msg sync => exact absurd rfl (hsend msg sync)
  | recv => exact absurd rfl hrecv
  | _ => exact if_neg hno

/-- The socket after `nn_surveyor_send` has tagged and stored the survey. -/
def Surveyor.tagged (r : Surveyor P) (msg : Msg) : Surveyor P :=
  { r with
    surveyid := (r.surveyid + 1) ||| 0x80000000
    tosend := { msg with sphdr := nnPutl ((r.surveyid + 1) ||| 0x80000000) } }

/-- What `nn_surveyor_send` tells the state machine. -/
def Surveyor.sendAction (r : Surveyor P) : SurveyorAction :=
  if nnSurveyorInprogress r then .cancel else .start

theorem nnSurveyorSend_eq {r : Surveyor P} {msg : Msg} (hmsg : msg.sphdr = []) {sync : P → Bool}
    {q : Surveyor P × Bool} (h : (r.tagged msg).feed sync (.action r.sendAction) = .ok q) :
    nnSurveyorSend r msg sync = .ok (none, q) := by
  have hprog : nnSurveyorInprogress (r.tagged msg) = nnSurveyorInprogress r := rfl
  unfold nnSurveyorSend
  rw [nnAssert_of hmsg, ok_bind]
  show (if nnSurveyorInprogress (r.tagged msg) = true then _ else _) = _
  unfold Surveyor.sendAction at h
  rw [hprog]
  split_ifs at h ⊢ with hp hev
  · cases hev
  · show ((r.tagged msg).feed sync (.action .cancel) >>= _) = _
    rw [h]
    rfl
  · show ((r.tagged msg).feed sync (.action .start) >>= _) = _
    rw [h]
    rfl

section Running

variable {s : Sock P} {log : Log} (hs : s.state = .active ∨ s.state = .stoppingEps)
  (hfsm : s.surveyor.fsm = .active) (hwf : s.surveyor.Wf)
  (hst : s.surveyor.state ≠ .idle ∧ s.surveyor.state ≠ .stopping) (hrec : Records s.surveyor log)

include hs hfsm hwf hst hrec

omit [DecidableEq P] in
/-- The raw socket changes. -/
theorem Sock.Inv.put_xsurveyor {x : Xsurveyor P} (hx : x.Wf) :
    Sock.Inv { s with surveyor.xsurveyor := x } log :=
  .running hs hfsm ⟨hx, hwf.deadline, hwf.timer⟩ hst (hrec.congr ⟨rfl, rfl, rfl⟩ rfl rfl)

/-- The events of pipes, of the options and of `nn_close`. -/
theorem step_quiet {e : Event P} (he : Enabled s e) (hq : e.isQuiet = true) :
    ∃ s' a, s.step e = .ok (s', a) ∧ s'.surveyor.state = s.surveyor.state ∧ s'.Inv log := by
  have hput := fun {x : Xsurveyor P} (hx : x.Wf) => Sock.Inv.put_xsurveyor hs hfsm hwf hst hrec hx
  have hx := hwf.xsurveyor
  cases e with
  | add p rcvprio => exact ⟨_, _, rfl, rfl, hput (nnXsurveyorAdd_wf hx he.1 rcvprio)⟩
  | rm p => exact ⟨_, _, rfl, rfl, hput (nnXsurveyorRm_wf hx p)⟩
  | arrive p m =>
    obtain ⟨pipe, hp⟩ := Option.isSome_iff_exists.1 he.1
    obtain ⟨pipe', heq, hwf', hin, hout, hor, -, hir⟩ := (hx.pipes p pipe hp).arrive m
    refine ⟨s.setPipe p pipe', .none, by simp [Sock.step, hp, heq], rfl,
      hput (hx.update hwf' (fun ha => ?_) (fun hm => ?_) fun m' hm' => ?_)⟩
    · obtain ⟨hne, hr⟩ := hx.inpipes.of_active hp ha
      exact ⟨by simp [hin], by simpa [hr, hne] using hir⟩
    · obtain ⟨hidle, hr⟩ := hx.outpipes.of_mem hp hm
      exact ⟨hout.trans hidle, hor.trans hr⟩
    · rw [hin, List.mem_append, List.mem_singleton] at hm'
      rcases hm' with hm' | rfl
      · exact hx.inbox p pipe hp m' hm'
      · exact he.2
  | sent p =>
    obtain ⟨pipe, hp, hasync⟩ := he
    obtain ⟨pipe', heq, hwf', hin, hir, -, hos, hor⟩ := (hx.pipes p pipe hp).sent hasync
    refine ⟨s.setPipe p pipe', .none, by simp [Sock.step, hp, heq], rfl,
      hput (hx.update hwf' (fun ha => ?_) (fun hm => ?_) fun m' hm' => ?_)⟩
    · obtain ⟨hne, hr⟩ := hx.inpipes.of_active hp ha
      exact ⟨hin ▸ hne, hir.trans hr⟩
    · have hidle := (hx.outpipes.of_mem hp hm).1
      rw [hasync] at hidle
      cases hidle
    · rw [hin] at hm'
      exact hx.inbox p pipe hp m' hm'
  | pipeIn p =>
    obtain ⟨pipe, hp, hr⟩ := he
    have hne : pipe.inbox ≠ [] := (hx.pipes p pipe hp).inRaised hr
    have hna : ¬ s.surveyor.xsurveyor.inpipes.Active p :=
      hx.inpipes.not_active hp fun hin => by simp [hin.2] at hr
    have hx' := (hx.inPopped hp)
    simp only [Sock.step, hp]
    split_ifs with hact
    · exact ⟨_, _, rfl, rfl, hput hx'⟩
    · obtain ⟨inpipes, heq, hwf'⟩ := nnXsurveyorIn_spec hx' (Function.update_self ..) ⟨hne, rfl⟩ hna
      have heq' : nnXsurveyorIn (s.setPipe p { pipe with inRaised := false }).surveyor.xsurveyor p =
          _ := heq
      rw [heq', ok_bind]
      exact ⟨_, _, rfl, rfl, hput hwf'⟩
  | pipeOut p =>
    obtain ⟨pipe, hp, hr⟩ := he
    have hidle : pipe.outstate = .idle := (hx.pipes p pipe hp).outRaised hr
    have hnm : p ∉ s.surveyor.xsurveyor.outpipes.pipes := fun hm => by
      simp [(hx.outpipes.of_mem hp hm).2] at hr
    have hx' := (hx.outPopped hp)
    simp only [Sock.step, hp]
    split_ifs with hact
    · exact ⟨_, _, rfl, rfl, hput hx'⟩
    · obtain ⟨outpipes, heq, hwf'⟩ :=
        nnXsurveyorOut_spec hx' (Function.update_self ..) ⟨hidle, rfl⟩ hnm
      have heq' :
          nnXsurveyorOut (s.setPipe p { pipe with outRaised := false }).surveyor.xsurveyor p = _ :=
        heq
      rw [heq', ok_bind]
      exact ⟨_, _, rfl, rfl, hput hwf'⟩
  | setDeadline deadline =>
    exact ⟨_, _, rfl, rfl,
      .running hs hfsm ⟨hx, he, hwf.timer⟩ hst (hrec.congr ⟨rfl, rfl, rfl⟩ rfl rfl)⟩
  | close =>
    exact ⟨_, _, rfl, rfl, .running (Or.inr rfl) hfsm hwf hst hrec⟩
  | _ => cases hq

omit hrec hst hfsm hwf in
/-- The state machine is fed with an input that it expects. -/
theorem Sock.Inv.feed {r : Surveyor P} {log' : Log} (src : SurveyorInput) (hrfsm : r.fsm = .active)
    (hx : r.xsurveyor.Wf) (hd : 0 ≤ r.deadline)
    (ht : r.timer.In (if src = .deadlineTimer .stopped then .idle else r.state.phase))
    {st : SurveyorState} (hnext : r.state.next src = some st) (hst' : st ≠ .idle ∧ st ≠ .stopping)
    (hrec' : ∀ r', Frame r r' → r'.state = st →
      (r'.timedout = true ↔ r.timedout = true ∨ src = .deadlineTimer .timeout) → Records r' log')
    (sync : P → Bool) :
    ∃ r', r.feed sync src = .ok (r', false) ∧ r'.state = st ∧ Frame r r' ∧
      (s.put (r', false)).Inv log' := by
  obtain ⟨r', heq, hwf', hfr, hstate, htim⟩ := nnSurveyorHandler_spec src hx hd ht hnext sync
  refine ⟨r', ?_, hstate, hfr, .running hs (hfr.fsm.trans hrfsm) hwf' ?_ (hrec' r' hfr hstate htim)⟩
  · unfold Surveyor.feed
    rw [if_pos (by simp [hrfsm]), heq]
    rfl
  · exact hstate.symm ▸ hst'

omit hrec in
theorem step_send (ha : s.state = .active) {msg : Msg} (hmsg : msg.sphdr = []) (sync : P → Bool) :
    ∃ s', s.step (.send msg sync) = .ok (s', .code none) ∧
      s'.Inv ⟨some s'.surveyor.tosend, none⟩ := by
  have hrec' : ∀ {st : SurveyorState}, st ≠ .stoppingTimer →
      ∀ r', Frame (s.surveyor.tagged msg) r' →
      r'.state = st → Records r' ⟨some (s.surveyor.tagged msg).tosend, none⟩ := by
    intro st hne r' hfr hstate
    refine ⟨?_, fun h => (nomatch h), fun _ h => (nomatch h),
      fun h => absurd (hstate.symm.trans h) hne⟩
    rintro m ⟨⟩
    exact ⟨by rw [hfr.surveyid]; rfl, hfr.tosend⟩
  -- the state machine expects one of the two actions
  obtain ⟨st, hnext, hrun, hne⟩ :
    ∃ st, s.surveyor.state.next (.action s.surveyor.sendAction) = some st ∧
      (st ≠ .idle ∧ st ≠ .stopping) ∧ st ≠ .stoppingTimer := by
    unfold Surveyor.sendAction nnSurveyorInprogress
    cases hcur : s.surveyor.state with
    | idle => exact absurd hcur hst.1
    | stopping => exact absurd hcur hst.2
    | passive => exact ⟨.active, by simp [SurveyorState.next], by simp, by simp⟩
    | _ => exact ⟨.cancelling, by simp [SurveyorState.next], by simp, by simp⟩
  obtain ⟨r', heq, -, hfr, hinv⟩ :=
    Sock.Inv.feed hs (.action s.surveyor.sendAction) (r := s.surveyor.tagged msg)
    hfsm hwf.xsurveyor hwf.deadline (by rw [if_neg (by simp)]; exact hwf.timer) hnext hrun
    (fun r' hfr hstate _ => hrec' hne r' hfr hstate) sync
  refine ⟨s.put (r', false), ?_, ?_⟩
  · simp only [Sock.step, ha, ne_eq, not_true_eq_false, if_false,
      nnSurveyorSend_eq hmsg heq, ok_bind]
    rfl
  · show (s.put (r', false)).Inv ⟨some r'.tosend, none⟩
    rw [hfr.tosend]
    exact hinv

/-- What a receive answers. -/
theorem step_recv :
    ∃ s' a, s.step .recv = .ok (s', a) ∧ s'.Inv (log.next s s' a .recv) ∧
      (∀ msg, a = .recv msg → ∃ m, msg = some m ∧ log.survey ≠ none ∧ s.surveyor.Response m) ∧
      (∀ n, log.expired = some n → s.state = .active →
        a = .code (some (if n = 0 then .etimedout else .efsm))) := by
  by_cases ha : s.state = .active
  swap
  · exact ⟨s, .code (some .ebadf), if_pos ha, .running hs hfsm hwf hst hrec, fun _ h => (nomatch h),
      fun _ _ h => absurd h ha⟩
  by_cases hprog : nnSurveyorInprogress s.surveyor = true
  · -- a survey is going on: the loop answers
    have hnp : s.surveyor.state ≠ .passive := fun h => by simp [nnSurveyorInprogress, h] at hprog
    have hexp : log.expired = none := by
      cases h : log.expired with
      | none => rfl
      | some n => exact absurd (hrec.expired n h).1 hnp
    obtain ⟨res, x, heq, hx, hres⟩ := nnSurveyorRecvLoop_spec hwf (Nat.lt_succ_self _)
    have hrecv : nnSurveyorRecv s.surveyor = .ok (res, { s.surveyor with xsurveyor := x }) := by
      rw [nnSurveyorRecv, if_neg (by simp [hprog])]
      exact heq
    have hinv := Sock.Inv.put_xsurveyor hs hfsm hwf hst hrec hx
    have hlog : ∀ s' a, log.next s s' a .recv = log := by
      intro s' a
      show (if a = .code (some .ebadf) then log else _) = log
      split_ifs
      · rfl
      · rw [hexp, Option.map_none, ← hexp]
    cases res with
    | ok msg =>
      refine ⟨_, .recv (some msg), ?_, (hlog _ _).symm ▸ hinv, ?_, fun n hn => ?_⟩
      · simp only [Sock.step, ha, ne_eq, not_true_eq_false, if_false, hrecv, ok_bind]
        rfl
      · rintro _ ⟨⟩
        exact ⟨msg, rfl, fun h => hnp (hrec.nothing h), hres msg rfl⟩
      · rw [hexp] at hn
        cases hn
    | error e =>
      refine ⟨_, .code (some e), ?_, (hlog _ _).symm ▸ hinv, fun _ h => (nomatch h), fun n hn => ?_⟩
      · simp only [Sock.step, ha, ne_eq, not_true_eq_false, if_false, hrecv, ok_bind]
        rfl
      · rw [hexp] at hn
        cases hn
  · have hpass : s.surveyor.state = .passive := by
      cases h : s.surveyor.state <;> simp_all [nnSurveyorInprogress]
    cases htim : s.surveyor.timedout with
    | true =>
      refine ⟨{ s with surveyor.timedout := false }, .code (some .etimedout), ?_, ?_,
        fun _ h => (nomatch h), fun n hn _ => ?_⟩
      · simp [Sock.step, ha, nnSurveyorRecv, hprog, htim]
      · refine .running hs hfsm ⟨hwf.xsurveyor, hwf.deadline, hwf.timer⟩ hst
          ⟨hrec.submitted, hrec.nothing, fun n hn => ⟨hpass, ?_⟩, fun h => ?_⟩
        · obtain ⟨k, -, rfl⟩ := Option.map_eq_some_iff.1 hn
          simp
        · exact absurd (hpass.symm.trans h) (by simp)
      · rw [if_pos ((hrec.expired n hn).2.1 htim)]
    | false =>
      refine ⟨s, .code (some .efsm), ?_, ?_, fun _ h => (nomatch h), fun n hn _ => ?_⟩
      · simp only [Sock.step, ha, ne_eq, not_true_eq_false, if_false, nnSurveyorRecv, hprog, htim,
          ok_bind, Bool.not_false, if_true, Bool.false_eq_true]
        rw [← ha]
        rfl
      · refine .running hs hfsm hwf hst
          ⟨hrec.submitted, hrec.nothing, fun n hn => ⟨hpass, ?_⟩, hrec.timedout⟩
        obtain ⟨k, -, rfl⟩ := Option.map_eq_some_iff.1 hn
        simp [htim]
      · have hne : n ≠ 0 := fun h0 => by simpa [htim] using (hrec.expired n hn).2.2 h0
        rw [if_neg hne]

omit hrec in
theorem timer_silent {t : Timer} (ht : t.In s.surveyor.state.phase) (hrec : Records s.surveyor log)
    (sync : P → Bool) :
    ∃ s', s.timerEvent sync (t, none) = .ok s' ∧
      s'.surveyor.state = s.surveyor.state ∧ s'.Inv log :=
  ⟨_, rfl, rfl,
    .running hs hfsm ⟨hwf.xsurveyor, hwf.deadline, ht⟩ hst (hrec.congr ⟨rfl, rfl, rfl⟩ rfl rfl)⟩

omit hst hrec in
/-- An event of the timer that the state machine expects. -/
theorem timer_raises {t : Timer} {e : TimerEvent} {log' : Log}
    (ht : t.popped.In (if SurveyorInput.deadlineTimer e = .deadlineTimer .stopped then .idle
      else s.surveyor.state.phase)) {st : SurveyorState}
    (hnext : s.surveyor.state.next (.deadlineTimer e) = some st)
    (hst' : st ≠ .idle ∧ st ≠ .stopping) (hrec' : ∀ r', Frame s.surveyor r' → r'.state = st →
      (r'.timedout = true ↔ s.surveyor.timedout = true ∨
        SurveyorInput.deadlineTimer e = .deadlineTimer .timeout) → Records r' log')
    (sync : P → Bool) :
    ∃ s', s.timerEvent sync (t, some e) = .ok s' ∧ s'.surveyor.state = st ∧ s'.Inv log' := by
  obtain ⟨r', heq, hstate, -, hinv⟩ := Sock.Inv.feed hs (.deadlineTimer e)
    (r := { s.surveyor with timer := t.popped }) hfsm hwf.xsurveyor hwf.deadline ht hnext hst'
    (fun r' hfr => hrec' r' ⟨hfr.fsm, hfr.surveyid, hfr.tosend⟩) sync
  exact ⟨s.put (r', false), by simp [Sock.timerEvent, heq], hstate, hinv⟩

/-- The timer of an open survey has stopped: the waiting survey is sent, or the old one is over. -/
theorem step_runTask (sync : P → Bool) :
    ∃ s', s.step (.runTask sync) = .ok (s', .none) ∧
      s'.Inv (log.next s s' .none (.runTask sync)) := by
  simp only [Sock.step]
  rcases hwf.timer.runTask with ⟨t, heq, ht⟩ | ⟨hph, t, heq, ht⟩
  · obtain ⟨s', hs', hstate, hinv⟩ := timer_silent hs hfsm hwf hst ht hrec sync
    refine ⟨s', by rw [heq, ok_bind, hs']; rfl, ?_⟩
    rwa [Log.next_of_state (by simp) (by simp) hstate]
  · have ht' :
        t.popped.In (if SurveyorInput.deadlineTimer .stopped = .deadlineTimer .stopped then .idle
          else s.surveyor.state.phase) := by rwa [if_pos rfl]
    rw [heq, ok_bind]
    cases hcur : s.surveyor.state with
    | idle => exact absurd hcur hst.1
    | stopping => exact absurd hcur hst.2
    | passive => simp [hcur, SurveyorState.phase] at hph
    | active => simp [hcur, SurveyorState.phase] at hph
    | cancelling =>
      have hnp : s.surveyor.state ≠ .passive := by simp [hcur]
      have hrec' : ∀ r', Frame s.surveyor r' → r'.state = .active → Records r' log :=
        fun r' hfr hstate => hrec.open hfr hnp fun h => absurd (hstate.symm.trans h) (by simp)
      obtain ⟨s', hs', hstate, hinv⟩ := timer_raises hs hfsm hwf ht' (by rw [hcur]; rfl) (by simp)
        (fun r' hfr hstate _ => hrec' r' hfr hstate) sync
      refine ⟨s', by rw [hs']; rfl, ?_⟩
      rwa [show log.next s s' .none (.runTask sync) = log from if_neg (by simp [hcur])]
    | stoppingTimer =>
      have hnp : s.surveyor.state ≠ .passive := by simp [hcur]
      have hrec' : ∀ r', Frame s.surveyor r' → r'.state = .passive → r'.timedout = true →
          Records r' { log with expired := some 0 } := by
        intro r' hfr hstate htim
        refine ⟨fun m hm => ?_, fun h => absurd (hrec.nothing h) hnp, ?_,
          fun h => absurd (hstate.symm.trans h) (by simp)⟩
        · rw [hfr.surveyid, hfr.tosend]
          exact hrec.submitted m hm
        · rintro n ⟨⟩
          exact ⟨hstate, by simp [htim]⟩
      obtain ⟨s', hs', hstate, hinv⟩ := timer_raises hs hfsm hwf ht' (by rw [hcur]; rfl) (by simp)
        (fun r' hfr hstate htim => hrec' r' hfr hstate (htim.2 (Or.inl (hrec.timedout hcur)))) sync
      refine ⟨s', by rw [hs']; rfl, ?_⟩
      rwa [show log.next s s' .none (.runTask sync) = { log with expired := some 0 } from
        if_pos ⟨hcur, hstate⟩]

/-- The deadline of the survey. -/
theorem step_expire :
    ∃ s', s.step .expire = .ok (s', .none) ∧ s'.Inv (log.next s s' .none .expire) := by
  simp only [Sock.step]
  rcases hwf.timer.expire with ⟨t, heq, ht⟩ | ⟨hph, t, heq, ht⟩
  · obtain ⟨s', hs', hstate, hinv⟩ := timer_silent hs hfsm hwf hst ht hrec fun _ => true
    refine ⟨s', by rw [heq, ok_bind, hs']; rfl, ?_⟩
    rwa [Log.next_of_state (by simp) (by simp) hstate]
  · have hcur : s.surveyor.state = .active := by
      cases h : s.surveyor.state <;> simp [h, SurveyorState.phase] at hph
      rfl
    have hnp : s.surveyor.state ≠ .passive := by simp [hcur]
    have hpop : t.popped.In s.surveyor.state.phase := by
      rw [hph]
      exact ⟨ht.1, ht.2.1, rfl, ht.2.2.2⟩
    have hrec' : ∀ r', Frame s.surveyor r' → r'.timedout = true → Records r' log :=
      fun r' hfr htim => hrec.open hfr hnp fun _ => htim
    obtain ⟨s', hs', hstate, hinv⟩ := timer_raises (e := .timeout) hs hfsm hwf (by simpa using hpop)
      (by rw [hcur]; rfl) (by simp)
        (fun r' hfr _ htim => hrec' r' hfr (htim.2 (Or.inr rfl))) fun _ => true
    refine ⟨s', by rw [heq, ok_bind, hs']; rfl, ?_⟩
    rwa [show log.next s s' .none .expire = log from if_neg (by simp [hcur])]

omit hs hst hrec in
/-- The protocol is stopped after all pipes were removed. -/
theorem step_stop (hp : ∀ p, s.surveyor.xsurveyor.pipes p = none) (log' : Log) :
    ∃ s', s.step .stop = .ok (s', .none) ∧ s'.Inv log' := by
  simp only [Sock.step, nnSurveyorStop, hfsm, ne_eq, not_true_eq_false, if_false,
    nnSurveyorShutdown, if_true]
  by_cases hidle : s.surveyor.state.phase = .idle
  · -- the timer is idle: the socket is stopped at once
    have ht : s.surveyor.timer.In .idle := hidle ▸ hwf.timer
    have hi : nnTimerIsidle s.surveyor.timer = true := ht.isidle_iff.2 rfl
    refine ⟨{ state := .fini, surveyor := { s.surveyor with state := .idle, fsm := .idle } }, ?_,
      .fini rfl rfl ht hp⟩
    simp [ht.stop_of_ne, hi, nnAssert, Sock.put]
  · -- the timer is started or being stopped: the socket waits for it
    obtain ⟨t, heq, ht⟩ : ∃ t, nnTimerStop s.surveyor.timer = .ok t ∧ t.In .stopping := by
      cases hph : s.surveyor.state.phase with
      | idle => exact absurd hph hidle
      | active => exact Timer.In.stop (hph ▸ hwf.timer)
      | stopping =>
        have ht : s.surveyor.timer.In .stopping := hph ▸ hwf.timer
        exact ⟨_, ht.stop_of_ne (by simp), ht⟩
    have hi : nnTimerIsidle t = false := by
      simpa using (not_congr ht.isidle_iff).2 (by simp)
    refine ⟨{ state := .stopping, surveyor := { s.surveyor with state := .stopping,
                                                                fsm := .stopping, timer := t } },
      ?_, .stopping rfl rfl rfl ht hp⟩
    simp [heq, hi, Sock.put]

end Running

/-- The timer while the socket waits for it and afterwards. -/
theorem step_timer_stopped {s : Sock P} {log : Log} (h : s.Inv log)
    (hs : s.state = .stopping ∨ s.state = .fini) (log' : Log) (sync : P → Bool) :
    (∃ s', s.step (.runTask sync) = .ok (s', .none) ∧ s'.Inv log') ∧
      ∃ s', s.step .expire = .ok (s', .none) ∧ s'.Inv log' := by
  simp only [Sock.step]
  cases h with
  | running hs' => rcases hs with h | h <;> simp [h] at hs'
  | stopping hs hfsm hst ht hp =>
    constructor
    · rcases ht.runTask with ⟨t, heq, ht'⟩ | ⟨-, t, heq, ht'⟩
      · exact ⟨{ s with surveyor.timer := t }, by simp [heq, Sock.timerEvent],
          .stopping hs hfsm hst ht' hp⟩
      · have hi : nnTimerIsidle t.popped = true := ht'.isidle_iff.2 rfl
        refine ⟨{ state := .fini, surveyor := { s.surveyor with state := .idle, fsm := .idle,
                                                                timer := t.popped } },
          ?_, .fini rfl rfl ht' hp⟩
        simp [heq, Sock.timerEvent, Surveyor.feed, hfsm, nnSurveyorShutdown, hst, hi,
          nnAssert, Sock.put]
    · rcases ht.expire with ⟨t, heq, ht'⟩ | ⟨hph, -⟩
      · exact ⟨{ s with surveyor.timer := t }, by simp [heq, Sock.timerEvent],
          .stopping hs hfsm hst ht' hp⟩
      · cases hph
  | fini hs hst ht hp =>
    constructor
    · rcases ht.runTask with ⟨t, heq, ht'⟩ | ⟨hph, -⟩
      · exact ⟨{ s with surveyor.timer := t }, by simp [heq, Sock.timerEvent], .fini hs hst ht' hp⟩
      · cases hph
    · rcases ht.expire with ⟨t, heq, ht'⟩ | ⟨hph, -⟩
      · exact ⟨{ s with surveyor.timer := t }, by simp [heq, Sock.timerEvent], .fini hs hst ht' hp⟩
      · cases hph

/-- The only abort of a socket: `nn_surveyor_send` asserts that the user's message has no SP
header. -/
def Sock.Refuses (s : Sock P) (e : Event P) : Prop :=
  s.state = .active ∧ ∃ msg sync, e = .send msg sync ∧ msg.sphdr ≠ []

theorem Sock.Refuses.step {s : Sock P} {e : Event P} (h : s.Refuses e) :
    s.step e = .error .assertFailed := by
  obtain ⟨hs, msg, sync, rfl, hmsg⟩ := h
  simp [Sock.step, hs, nnSurveyorSend, nnAssert_of_not hmsg]

/-- One event: it returns and keeps the invariant. -/
theorem Sock.Inv.step {s : Sock P} {log : Log} (h : s.Inv log) {e : Event P} (he : Enabled s e)
    (hr : ¬ s.Refuses e) :
    ∃ s' a, s.step e = .ok (s', a) ∧ s'.Inv (log.next s s' a e) := by
  by_cases hstop : s.state = .stopping ∨ s.state = .fini
  · -- only the timer and the user are left
    have hany : ∀ log', s.Inv log' ∧ ∀ p, s.surveyor.xsurveyor.pipes p = none := by
      intro log'
      cases h with
      | running hs => rcases hstop with h | h <;> simp [h] at hs
      | stopping hs hfsm hst ht hp => exact ⟨.stopping hs hfsm hst ht hp, hp⟩
      | fini hs hst ht hp => exact ⟨.fini hs hst ht hp, hp⟩
    have hp := (hany log).2
    have hna : s.state ≠ .active := by rcases hstop with h | h <;> simp [h]
    cases e with
    | add p rcvprio => rcases hstop with h | h <;> simp [Enabled, h] at he
    | rm p => simp [Enabled, hp p] at he
    | arrive p m => simp [Enabled, hp p] at he
    | sent p => simp [Enabled, hp p] at he
    | pipeIn p => simp [Enabled, hp p] at he
    | pipeOut p => simp [Enabled, hp p] at he
    | send msg sync => exact ⟨s, _, if_pos hna, (hany _).1⟩
    | recv => exact ⟨s, _, if_pos hna, (hany _).1⟩
    | setDeadline deadline =>
      refine ⟨_, _, rfl, ?_⟩
      cases h with
      | running hs => rcases hstop with h | h <;> simp [h] at hs
      | stopping hs hfsm hst ht hp => exact .stopping hs hfsm hst ht hp
      | fini hs hst ht hp => exact .fini hs hst ht hp
    | runTask sync =>
      obtain ⟨s', heq, -⟩ := (step_timer_stopped h hstop log sync).1
      obtain ⟨s'', heq', hinv⟩ :=
        (step_timer_stopped h hstop (log.next s s' .none (.runTask sync)) sync).1
      rw [heq] at heq'
      cases heq'
      exact ⟨s', _, heq, hinv⟩
    | expire =>
      obtain ⟨s', heq, -⟩ := (step_timer_stopped h hstop log fun _ => true).2
      obtain ⟨s'', heq', hinv⟩ :=
        (step_timer_stopped h hstop (log.next s s' .none .expire) fun _ => true).2
      rw [heq] at heq'
      cases heq'
      exact ⟨s', _, heq, hinv⟩
    | close => exact absurd he hna
    | stop => rcases hstop with h | h <;> simp [Enabled, h] at he
  · cases h with
    | stopping hs => exact absurd (Or.inl hs) hstop
    | fini hs => exact absurd (Or.inr hs) hstop
    | running hs hfsm hwf hst hrec =>
      by_cases hq : e.isQuiet = true
      · obtain ⟨s', a, heq, hstate, hinv⟩ := step_quiet hs hfsm hwf hst hrec he hq
        refine ⟨s', a, heq, ?_⟩
        rwa [Log.next_of_state (by rintro msg sync rfl; cases hq) (by rintro rfl; cases hq) hstate]
      · cases e with
        | send msg sync =>
          by_cases ha : s.state = .active
          · have hmsg : msg.sphdr = [] := not_not.1 fun hne => hr ⟨ha, msg, sync, rfl, hne⟩
            obtain ⟨s', heq, hinv⟩ := step_send hs hfsm hwf hst ha hmsg sync
            exact ⟨s', _, heq, hinv⟩
          · exact ⟨s, _, if_pos ha, .running hs hfsm hwf hst hrec⟩
        | recv =>
          obtain ⟨s', a, heq, hinv, -⟩ := step_recv hs hfsm hwf hst hrec
          exact ⟨s', a, heq, hinv⟩
        | runTask sync =>
          obtain ⟨s', heq, hinv⟩ := step_runTask hs hfsm hwf hst hrec sync
          exact ⟨s', _, heq, hinv⟩
        | expire =>
          obtain ⟨s', heq, hinv⟩ := step_expire hs hfsm hwf hst hrec
          exact ⟨s', _, heq, hinv⟩
        | stop =>
          obtain ⟨s', heq, -⟩ := step_stop hfsm hwf he.2 log
          obtain ⟨s'', heq', hinv⟩ := step_stop hfsm hwf he.2 (log.next s s' .none .stop)
          rw [heq] at heq'
          cases heq'
          exact ⟨s', _, heq, hinv⟩
        | _ => exact absurd rfl hq

/-- Every reached state satisfies the invariant. -/
theorem Sock.Inv.of_trace {surveyid : UInt32} {es : List (Event P)} {s : Sock P} {log : Log}
    (h : Trace Sock.track (fun s e => Enabled s.1 e) (Sock.init surveyid,
      ⟨none, none⟩) es (s, log)) :
    s.Inv log := by
  refine h.invariant (I := fun _ s => s.1.Inv s.2) (Sock.init_inv surveyid) ?_
  intro es t e t' b hinv he heq
  obtain ⟨⟨s', a⟩, hstep, hpair⟩ := bind_eq_ok.1 heq
  cases hpair
  obtain ⟨s'', a', hstep', hinv'⟩ := hinv.step he fun hr => by
    rw [hr.step] at hstep
    cases hstep
  rw [hstep] at hstep'
  cases hstep'
  exact hinv'

/-- In every run of a SURVEYOR socket: nothing that can happen aborts (but for a user's message with
an SP header); a message that a receive returns is the body of a response at hand, whose header is
the one of the survey submitted last; and after a survey has expired, the first receive reports
`-ETIMEDOUT` and the further ones report `-EFSM`, until another survey is submitted. -/
theorem surveyor_protocol (surveyid : UInt32) (es : List (Event P)) (s : Sock P) (log : Log)
    (h : Trace Sock.track (fun s e => Enabled s.1 e) (Sock.init surveyid,
      ⟨none, none⟩) es (s, log)) :
    (∀ e, Enabled s e → ¬ s.Refuses e → ∃ s' a, s.step e = .ok (s', a)) ∧
    (∀ s' msg, s.step .recv = .ok (s', .recv msg) →
      ∃ survey p pipe m g, log.survey = some survey ∧ survey.sphdr = nnPutl s.surveyor.surveyid ∧
        s.surveyor.xsurveyor.pipes p = some pipe ∧ m ∈ pipe.inbox ∧ m.split = .ok (.msg g) ∧
        g.sphdr = survey.sphdr ∧ msg = some { g with sphdr := [] }) ∧
    ∀ n, log.expired = some n → s.state = .active →
      ∃ s', s.step .recv = .ok (s', .code (some (if n = 0 then .etimedout else .efsm))) := by
  have hinv := Sock.Inv.of_trace h
  refine ⟨fun e he hr => ?_, fun s' msg hrecv => ?_, fun n hn hs => ?_⟩
  · obtain ⟨s', a, heq, -⟩ := hinv.step he hr
    exact ⟨s', a, heq⟩
  · cases hinv with
    | stopping hs => simp [Sock.step, hs] at hrecv
    | fini hs => simp [Sock.step, hs] at hrecv
    | running hs hfsm hwf hst hrec =>
      obtain ⟨s'', a, heq, -, hmsg, -⟩ := step_recv hs hfsm hwf hst hrec
      rw [hrecv] at heq
      cases heq
      obtain ⟨m, rfl, hsome, p, pipe, m', g, hp, hm', hg, hhdr, rfl⟩ := hmsg msg rfl
      obtain ⟨survey, hsurvey⟩ := Option.ne_none_iff_exists'.1 hsome
      have hid := (hrec.submitted survey hsurvey).1
      exact ⟨survey, p, pipe, m', g, hsurvey, hid, hp, hm', hg, hhdr.trans hid.symm, rfl⟩
  · cases hinv with
    | stopping hs' => simp [hs'] at hs
    | fini hs' => simp [hs'] at hs
    | running hs' hfsm hwf hst hrec =>
      obtain ⟨s', a, heq, -, -, hcode⟩ := step_recv hs' hfsm hwf hst hrec
      rw [hcode n hn hs] at heq
      exact ⟨s', heq⟩

/-- A survey is answered twice, once with the id of another survey, and then expires. -/
def expiredRun : List (Event (Fin 2)) :=
  [.add 0 1, .pipeOut 0, .send ⟨[], [], [1]⟩ (fun _ => true), .runTask (fun _ => true),
    .arrive 0 { msg := ⟨[], [], [0x80, 0, 0, 7, 5]⟩, parsed := false }, .pipeIn 0,
    .arrive 0 { msg := ⟨[], [], [0x80, 0, 0, 8, 6]⟩, parsed := false }, .recv, .expire,
    .runTask (fun _ => true)]

theorem expiredRun_returns :
    (runWhile Sock.track (fun s e => Enabled s.1 e) (Sock.init 7, ⟨none, none⟩)
      expiredRun).isSome := by
  decide

/-- Where the run ends. -/
def expiredEnd : Sock (Fin 2) × Log :=
  (runWhile Sock.track (fun s e => Enabled s.1 e) (Sock.init 7, ⟨none, none⟩) expiredRun).get
    expiredRun_returns

theorem surveyor_protocol_expired :
    ∃ (s : Sock (Fin 2)) (log : Log),
      Trace Sock.track (fun s e => Enabled s.1 e) (Sock.init 7, ⟨none, none⟩) expiredRun (s, log) ∧
      log = ⟨some ⟨[0x80, 0, 0, 8], [], [1]⟩, some 0⟩ ∧
      ∃ s', s.step .recv = .ok (s', .code (some .etimedout)) := by
  have htr : Trace Sock.track (fun s e => Enabled s.1 e) (Sock.init 7, ⟨none, none⟩) expiredRun
      (expiredEnd.1, expiredEnd.2) := Trace.of_runWhile expiredRun_returns
  have hlog : expiredEnd.2 = ⟨some ⟨[0x80, 0, 0, 8], [], [1]⟩, some 0⟩ := by decide
  have hact : expiredEnd.1.state = .active := by decide
  have h := surveyor_protocol 7 expiredRun _ _ htr
  exact ⟨_, _, htr, hlog, h.2.2 0 (by rw [hlog]) hact⟩

end NanoSocket.Survey

import NanoSocket.Lib.Runs
import NanoSocket.ReqRep.ReqMachine

/-!
# Safety of REQ sockets

`Sock.Inv` is the invariant of a socket over its whole life, `Did` lists everything that an event
can do, and `Sock.Inv.step` says that every event that can happen returns, keeps the invariant and
does one of these things.

`req_never_aborts` is the result for whole runs: no event that can happen makes the socket abort,
and a pipe is recorded for the request exactly in the state `ACTIVE`.
-/

namespace NanoSocket.ReqRep

open Runs

variable {P : Type} [DecidableEq P]

/-- The invariant of a socket: it is running, its timer is being stopped, or it is stopped. -/
inductive Sock.Inv (s : Sock P) : Prop
  | running (hs : s.state = .active ∨ s.state = .stoppingEps) (hfsm : s.req.fsm = .active)
      (hwf : s.req.Wf) (hst : s.req.state ≠ .idle ∧ s.req.state ≠ .stopping)
  | stopping (hs : s.state = .stopping) (hfsm : s.req.fsm = .stopping)
      (hst : s.req.state = .stopping)
      (ht : s.req.task.timer.In .stopping) (hp : ∀ p, s.req.xreq.pipes p = none)
  | fini (hs : s.state = .fini) (hfsm : s.req.fsm = .idle) (ht : s.req.task.timer.In .idle)
      (hp : ∀ p, s.req.xreq.pipes p = none)

omit [DecidableEq P] in
theorem Sock.init_inv (lastid : UInt32) : (Sock.init lastid : Sock P).Inv :=
  .running (Or.inl rfl) rfl
    ⟨Xreq.init_wf, by simp [Sock.init, nnReqInit], Timer.init_in, by simp [Sock.init, nnReqInit],
      by simp [Sock.init, nnReqInit]⟩ (by simp [Sock.init, nnReqInit])

/-- Feeding an expected input to a running socket. -/
theorem Sock.Inv.feed {s : Sock P} (src : ReqInput)
    (hs : s.state = .active ∨ s.state = .stoppingEps) {r : Req P} (hfsm : r.fsm = .active)
    (hx : r.xreq.Wf) (hivl : 0 ≤ r.resendIvl)
    (ht : r.task.timer.In (if src = .resendTimer .stopped then .idle else r.state.phase))
    (hsent : r.task.sentTo ≠ none ↔ r.state = .active) {s' : ReqState} (hnext : Next r.state src s')
    (hout : src = .action .pipeOut → ∃ p, r.xreq.lb.Active p) (sync : Bool) :
    ∃ r', r.feed sync src = .ok (r', false) ∧ (s.put (r', false)).Inv ∧ r'.Wf ∧ Frame r r' ∧
      Next r.state src r'.state := by
  obtain ⟨r', heq, hwf, hfr, hnx⟩ := nnReqHandler_spec src hx hivl ht hsent hnext hout sync
  refine ⟨r', ?_, .running hs (hfr.fsm.trans hfsm) hwf hnx.running, hwf, hfr, hnx⟩
  rw [Req.feed, if_pos (by simp [hfsm]), heq]
  rfl

/-- An event that leaves the request, the stored reply and the messages at hand alone. -/
structure Kept (s s' : Sock P) : Prop where
  id : s'.req.task.id = s.req.task.id
  request : s'.req.task.request = s.req.task.request
  reply : s'.req.task.reply = s.req.task.reply
  fq : ∀ q, s'.req.xreq.fq.Active q → s.req.xreq.fq.Active q
  inbox : ∀ p pipe', s'.req.xreq.pipes p = some pipe' → ∀ m ∈ pipe'.inbox,
    ∃ pipe, s.req.xreq.pipes p = some pipe ∧ m ∈ pipe.inbox
  neglected : s'.state = .active → ∀ p, s'.req.xreq.Neglected p → s.req.xreq.Neglected p
  state : s'.state = .active → s'.req.state = s.req.state ∨
    ∃ src, src ≠ .action .pipeIn ∧ src ≠ .action .sent ∧ Next s.req.state src s'.req.state
  sock : s'.state = .active → s.state = .active

/-- The events that bring something new to an active socket. -/
def Event.isNews : Event P → Bool
  | .arrive _ _ | .csend _ _ | .pipeIn _ => true
  | _ => false

/-- Everything that an event can do. -/
inductive Did (s : Sock P) : Event P → Sock P → Answer → Prop
  | quiet {e : Event P} {s' : Sock P} {a : Answer} (h : Kept s s') (ha : ∀ m, a ≠ .recv m)
      (he : s.state = .active → e.isNews = false) : Did s e s' a
  | arrive {p : P} {m : Inbound} {pipe pipe' : Pipe} (hp : s.req.xreq.pipes p = some pipe)
      (hin : pipe'.inbox = pipe.inbox ++ [m])
      (hir : pipe'.inRaised = true ↔ pipe.inRaised = true ∨ pipe.inbox = []) : Did s (.arrive p m)
      (s.setPipe p pipe') .none
  | csend {msg : Msg} {sync : Bool} {r : Req P} (hs : s.state = .active)
      (hf : Frame { s.req with
        task.id := s.req.task.id + 1
        task.request := { msg with sphdr := nnPutl ((s.req.task.id + 1) ||| 0x80000000) } } r)
      (hn : Next s.req.state (.action .sent) r.state) :
      Did s (.csend msg sync) (s.put (r, false)) (.code none)
  | crecv {r : Req P} (hs : s.state = .active) (hst : s.req.state = .done)
      (hf : Frame { s.req with task.reply := some .init } r) (hst' : r.state = .passive) :
      Did s .crecv (s.put (r, false)) (.recv s.req.task.reply)
  | pipeIn {p : P} {pipe : Pipe} {x : Xreq P} {r : Req P} (hs : s.state = .active)
      (hp : s.req.xreq.pipes p = some pipe) (hin : pipe.inbox ≠ [])
      (hact : ∀ q, x.fq.Active q ↔ s.req.xreq.fq.Active q ∨ q = p)
      (hfq : s.req.xreq.fq.activate p = .ok x.fq)
      (hpipes : x.pipes = Function.update s.req.xreq.pipes p (some { pipe with inRaised := false }))
      (hx : x.Wf) (hd : Drains { s.req with xreq := x } r) : Did s (.pipeIn p)
      (s.put (r, false)) .none

omit [DecidableEq P] in
theorem Kept.refl (s : Sock P) : Kept s s :=
  ⟨rfl, rfl, rfl, fun _ h => h, fun _ pipe' hp _ hm => ⟨pipe', hp, hm⟩, fun _ _ h => h,
    fun _ => Or.inl rfl, fun h => h⟩

/-- Changing a pipe of a running socket. -/
theorem Req.Wf.setPipe {r : Req P} (h : r.Wf) {p : P} {pipe : Pipe} (hwf : pipe.Wf)
    (hfq : r.xreq.fq.Active p → pipe.InReady) (hlb : r.xreq.lb.Active p → pipe.OutReady)
    (hin : ∀ m ∈ pipe.inbox, m.Wf) :
    Req.Wf { r with xreq.pipes := Function.update r.xreq.pipes p (some pipe) } := by
  refine ⟨h.xreq.update hwf hfq hlb hin, h.ivl, h.timer, h.sent, fun q hq => ?_⟩
  by_cases hqp : q = p
  · subst hqp
    simp
  · simpa [hqp] using h.attached q hq

theorem Kept.setPipe {s : Sock P} {p : P} {pipe pipe' : Pipe} (hp : s.req.xreq.pipes p = some pipe)
    (hin : pipe'.inbox = pipe.inbox) (hir : s.state = .active → pipe'.inRaised = pipe.inRaised) :
    Kept s (s.setPipe p pipe') := by
  refine ⟨rfl, rfl, rfl, fun _ h => h, fun q r hq m hm => ?_, fun hs q hn => ?_,
    fun _ => Or.inl rfl, fun h => h⟩
  · by_cases hqp : q = p
    · subst hqp
      simp only [Sock.setPipe, Function.update_self] at hq
      cases hq
      exact ⟨pipe, hp, hin ▸ hm⟩
    · simp only [Sock.setPipe, Function.update_of_ne hqp] at hq
      exact ⟨r, hq, hm⟩
  · obtain ⟨r, hq, hne, hraised, hna⟩ := hn
    by_cases hqp : q = p
    · subst hqp
      simp only [Sock.setPipe, Function.update_self] at hq
      cases hq
      exact ⟨pipe, hp, hin ▸ hne, (hir hs).symm.trans hraised, hna⟩
    · simp only [Sock.setPipe, Function.update_of_ne hqp] at hq
      exact ⟨r, hq, hne, hraised, hna⟩

omit [DecidableEq P] in
/-- The state machine moved, and nothing else did. -/
theorem Kept.of_frame {s : Sock P} {r : Req P} (h : Frame s.req r) {src : ReqInput}
    (hin : src ≠ .action .pipeIn) (hsent : src ≠ .action .sent)
    (hn : Next s.req.state src r.state) :
    Kept s (s.put (r, false)) := by
  refine ⟨h.id, h.request, h.reply, fun q hq => h.fq ▸ hq, ?_, fun _ p hn => h.neglected hn,
    fun _ => Or.inr ⟨src, hin, hsent, hn⟩, fun h => h⟩
  intro p pipe' hp m hm
  obtain ⟨pipe, hp', hinbox, -⟩ := h.exists_pipe hp
  exact ⟨pipe, hp', hinbox ▸ hm⟩

omit [DecidableEq P] in
theorem Kept.trans {s s' s'' : Sock P} (h : Kept s s') (h' : Kept s' s'')
    (hst : s'.req.state = s.req.state) : Kept s s'' := by
  refine ⟨h'.id.trans h.id, h'.request.trans h.request, h'.reply.trans h.reply,
    fun q hq => h.fq q (h'.fq q hq), ?_, fun ha q hn =>
      h.neglected (h'.sock ha) q (h'.neglected ha q hn),
    fun ha => hst ▸ h'.state ha, fun ha => h.sock (h'.sock ha)⟩
  intro p pipe'' hp m hm
  obtain ⟨pipe', hp', hm'⟩ := h'.inbox p pipe'' hp m hm
  exact h.inbox p pipe' hp' m hm'

omit [DecidableEq P] in
/-- The socket does not accept calls any more. -/
theorem Kept.of_stopped {s s' : Sock P} (hna : s'.state ≠ .active)
    (hid : s'.req.task.id = s.req.task.id) (hreq : s'.req.task.request = s.req.task.request)
    (hrep : s'.req.task.reply = s.req.task.reply) (hx : s'.req.xreq = s.req.xreq) : Kept s s' :=
  ⟨hid, hreq, hrep, fun _ hq => hx ▸ hq, fun _ pipe' hq _ hm => ⟨pipe', hx ▸ hq, hm⟩,
    fun h => absurd h hna, fun h => absurd h hna, fun h => absurd h hna⟩

theorem Kept.rm {s : Sock P} (h : s.req.Wf) (p : P) :
    Kept s { s with req.xreq := nnXreqRm s.req.xreq p } := by
  have hact := (h.xreq.fq.wf.rm p).2.2
  have hpipe : ∀ q pipe, (nnXreqRm s.req.xreq p).pipes q = some pipe → q ≠ p ∧
      s.req.xreq.pipes q = some pipe := by
    intro q pipe hq
    by_cases hqp : q = p
    · subst hqp
      simp [nnXreqRm] at hq
    · simp only [nnXreqRm, Function.update_of_ne hqp] at hq
      exact ⟨hqp, hq⟩
  refine ⟨rfl, rfl, rfl, fun q hq => ((hact q).1 hq).1, ?_, ?_, fun _ => Or.inl rfl, fun h => h⟩
  · intro q pipe hq m hm
    exact ⟨pipe, (hpipe q pipe hq).2, hm⟩
  · rintro - q ⟨pipe, hq, hne, hraised, hna⟩
    obtain ⟨hqp, hq⟩ := hpipe q pipe hq
    exact ⟨pipe, hq, hne, hraised, fun ha => hna ((hact q).2 ⟨ha, hqp⟩)⟩

section Running

variable {s : Sock P} (hs : s.state = .active ∨ s.state = .stoppingEps) (hfsm : s.req.fsm = .active)
  (hwf : s.req.Wf) (hst : s.req.state ≠ .idle ∧ s.req.state ≠ .stopping)

include hs hfsm hwf hst

theorem step_add {p : P} (hp : s.req.xreq.pipes p = none) (sndprio rcvprio : Fin 16) :
    Sock.Inv { s with req.xreq := nnXreqAdd s.req.xreq p sndprio rcvprio } ∧
      Kept s { s with req.xreq := nnXreqAdd s.req.xreq p sndprio rcvprio } := by
  have hpipes : ∀ q ≠ p, (nnXreqAdd s.req.xreq p sndprio rcvprio).pipes q = s.req.xreq.pipes q :=
    fun q hq => Function.update_of_ne hq ..
  constructor
  · refine .running hs hfsm ⟨nnXreqAdd_wf hwf.xreq hp sndprio rcvprio, hwf.ivl, hwf.timer, hwf.sent,
      fun q hq => ?_⟩ hst
    have hatt := hwf.attached q hq
    have hqp : q ≠ p := by
      rintro rfl
      simp [hp] at hatt
    simp only [hpipes q hqp]
    exact hatt
  · have hna : ¬ s.req.xreq.fq.Active p := fun ha => by
      obtain ⟨r, hr, -⟩ := hwf.xreq.fq.ready p ha
      rw [hp] at hr
      cases hr
    have hact := (hwf.xreq.fq.wf.add hna rcvprio).2
    have hold : ∀ q pipe, (nnXreqAdd s.req.xreq p sndprio rcvprio).pipes q = some pipe →
        pipe.inbox ≠ [] → s.req.xreq.pipes q = some pipe := by
      intro q pipe hq hne
      by_cases hqp : q = p
      · subst hqp
        simp only [nnXreqAdd, Function.update_self] at hq
        cases hq
        exact absurd rfl hne
      · rwa [hpipes q hqp] at hq
    refine ⟨rfl, rfl, rfl, fun q hq => (hact q).1 hq, ?_, ?_, fun _ => Or.inl rfl, fun h => h⟩
    · intro q pipe hq m hm
      exact ⟨pipe, hold q pipe hq (List.ne_nil_of_mem hm), hm⟩
    · rintro - q ⟨pipe, hq, hne, hraised, hna'⟩
      exact ⟨pipe, hold q pipe hq hne, hne, hraised, fun ha => hna' ((hact q).2 ha)⟩

theorem step_rm (p : P) :
    ∃ r, nnReqRm s.req p = .ok (r, false) ∧ (s.put (r, false)).Inv ∧ Kept s (s.put (r, false)) := by
  have hx := nnXreqRm_wf hwf.xreq p
  unfold nnReqRm
  simp only
  split_ifs with hsent
  · have hact : s.req.state = .active := hwf.sent.1 (by simp [hsent])
    obtain ⟨r, heq, hinv, -, hfr, hnx⟩ := Sock.Inv.feed (s := s) (.action .pipeRm) hs
      (r := { s.req with xreq := nnXreqRm s.req.xreq p }) hfsm hx hwf.ivl hwf.timer hwf.sent
      (hact ▸ Next.pipeRm) (fun h => nomatch h) true
    refine ⟨r, heq, hinv, (Kept.rm hwf p).trans ?_ rfl⟩
    exact Kept.of_frame (s := { s with req.xreq := nnXreqRm s.req.xreq p }) hfr
      (by simp) (by simp) hnx
  · refine ⟨_, rfl, .running hs hfsm ⟨hx, hwf.ivl, hwf.timer, hwf.sent, fun q hq => ?_⟩ hst,
      Kept.rm hwf p⟩
    have hqp : q ≠ p := by
      rintro rfl
      exact hsent hq
    simpa [Sock.put, nnXreqRm, hqp] using hwf.attached q hq

theorem step_arrive {p : P} {pipe : Pipe} (hp : s.req.xreq.pipes p = some pipe) {m : Inbound}
    (hm : m.Wf) :
    ∃ pipe', pipe.arrive m = .ok pipe' ∧ (s.setPipe p pipe').Inv ∧ pipe'.inbox = pipe.inbox ++ [m] ∧
      (pipe'.inRaised = true ↔ pipe.inRaised = true ∨ pipe.inbox = []) := by
  obtain ⟨pipe', heq, hwf', hin, hout, hor, -, hir⟩ := (hwf.xreq.pipes p pipe hp).arrive m
  refine ⟨pipe', heq, .running hs hfsm (hwf.setPipe hwf' (fun ha => ?_) (fun ha => ?_) ?_) hst, hin,
    hir⟩
  · obtain ⟨hne, hr⟩ := hwf.xreq.fq.of_active hp ha
    exact ⟨by simp [hin], by simpa [hr, hne] using hir⟩
  · obtain ⟨ho, hr⟩ := hwf.xreq.lb.of_active hp ha
    exact ⟨hout.trans ho, hor.trans hr⟩
  · intro x hx
    rw [hin, List.mem_append, List.mem_singleton] at hx
    rcases hx with hx | rfl
    · exact hwf.xreq.inbox p pipe hp x hx
    · exact hm

theorem step_sent {p : P} {pipe : Pipe} (hp : s.req.xreq.pipes p = some pipe)
    (ho : pipe.outstate = .async) :
    ∃ pipe', nnPipebaseSent pipe = .ok pipe' ∧ (s.setPipe p pipe').Inv ∧
      Kept s (s.setPipe p pipe') := by
  obtain ⟨pipe', heq, hwf', hin, hir, -⟩ := (hwf.xreq.pipes p pipe hp).sent ho
  refine ⟨pipe', heq, .running hs hfsm (hwf.setPipe hwf' (fun ha => ?_) (fun ha => ?_) ?_) hst,
    .setPipe hp hin fun _ => hir⟩
  · obtain ⟨hne, hr⟩ := hwf.xreq.fq.of_active hp ha
    exact ⟨hin ▸ hne, hir.trans hr⟩
  · have := (hwf.xreq.lb.of_active hp ha).1
    rw [ho] at this
    cases this
  · rw [hin]
    exact hwf.xreq.inbox p pipe hp

omit hs hfsm hst in
/-- The `IN` event of a pipe is taken out of the queue. -/
theorem wf_inPopped {p : P} {pipe : Pipe} (hp : s.req.xreq.pipes p = some pipe) :
    (s.setPipe p { pipe with inRaised := false }).req.Wf := by
  have hpw := hwf.xreq.pipes p pipe hp
  have hpw' : Pipe.Wf { pipe with inRaised := false } :=
    ⟨hpw.instate, hpw.outstate, by simp, hpw.outRaised⟩
  exact hwf.setPipe hpw' (fun ha => ⟨(hwf.xreq.fq.of_active hp ha).1, rfl⟩)
    (fun ha => have h := hwf.xreq.lb.of_active hp ha; ⟨h.1, h.2⟩) (hwf.xreq.inbox p pipe hp)

omit hs hfsm hst in
/-- The `OUT` event of a pipe is taken out of the queue. -/
theorem wf_outPopped {p : P} {pipe : Pipe} (hp : s.req.xreq.pipes p = some pipe) :
    (s.setPipe p { pipe with outRaised := false }).req.Wf := by
  have hpw := hwf.xreq.pipes p pipe hp
  have hpw' : Pipe.Wf { pipe with outRaised := false } :=
    ⟨hpw.instate, hpw.outstate, hpw.inRaised, by simp⟩
  exact hwf.setPipe hpw' (fun ha => have h := hwf.xreq.fq.of_active hp ha; ⟨h.1, h.2⟩)
    (fun ha => ⟨(hwf.xreq.lb.of_active hp ha).1, rfl⟩) (hwf.xreq.inbox p pipe hp)

omit [DecidableEq P] hs hfsm hst in
/-- A pipe whose `IN` event is under way has a message and is not in the fair queue. -/
theorem not_active_of_inRaised {p : P} {pipe : Pipe} (hp : s.req.xreq.pipes p = some pipe)
    (hr : pipe.inRaised = true) : pipe.inbox ≠ [] ∧ ¬ s.req.xreq.fq.Active p := by
  refine ⟨(hwf.xreq.pipes p pipe hp).inRaised hr, fun ha => ?_⟩
  have := (hwf.xreq.fq.of_active hp ha).2
  rw [hr] at this
  cases this

theorem step_pipeIn {p : P} {pipe : Pipe} (hp : s.req.xreq.pipes p = some pipe)
    (hr : pipe.inRaised = true) :
    ∃ s', s.step (.pipeIn p) = .ok (s', .none) ∧ s'.Inv ∧ Did s (.pipeIn p) s' .none := by
  have hwf' := wf_inPopped hwf hp
  obtain ⟨hne, hna⟩ := not_active_of_inRaised hwf hp hr
  simp only [Sock.step, hp]
  split_ifs with hact
  · exact ⟨_, rfl, .running hs hfsm hwf' hst,
      .quiet (.setPipe hp rfl fun h => absurd h hact) (by simp) fun h => absurd h hact⟩
  · have hp' : (s.setPipe p { pipe with inRaised := false }).req.xreq.pipes p =
        some { pipe with inRaised := false } := Function.update_self ..
    obtain ⟨fq, r, heq, hrwf, hfq, hxwf, hiff, hdr⟩ := nnReqIn_spec hwf' hfsm hp' ⟨hne, rfl⟩ hna
    have hrun := hdr.running hst
    rw [heq, ok_bind]
    exact ⟨_, rfl, .running hs (hrun.1.trans hfsm) hrwf hrun.2,
      .pipeIn (x := { (s.setPipe p { pipe with inRaised := false }).req.xreq with fq := fq })
        (not_not.1 hact) hp hne hiff hfq rfl hxwf hdr⟩

theorem step_pipeOut {p : P} {pipe : Pipe} (hp : s.req.xreq.pipes p = some pipe)
    (hr : pipe.outRaised = true) (sync : Bool) :
    ∃ s', s.step (.pipeOut p sync) = .ok (s', .none) ∧ s'.Inv ∧ Kept s s' := by
  have hwf' := wf_outPopped hwf hp
  have ho : pipe.outstate = .idle := (hwf.xreq.pipes p pipe hp).outRaised hr
  have hna : ¬ s.req.xreq.lb.Active p := by
    intro ha
    have := (hwf.xreq.lb.of_active hp ha).2
    rw [hr] at this
    cases this
  have hkept : Kept s (s.setPipe p { pipe with outRaised := false }) := .setPipe hp rfl fun _ => rfl
  simp only [Sock.step, hp]
  split_ifs with hact
  · exact ⟨_, rfl, .running hs hfsm hwf' hst, hkept⟩
  · have hp' : (s.setPipe p { pipe with outRaised := false }).req.xreq.pipes p =
        some { pipe with outRaised := false } := Function.update_self ..
    obtain ⟨lb, heq, hxwf, hiff⟩ := nnXreqOut_spec hwf'.xreq hp' ⟨ho, rfl⟩ hna
    rw [nnReqOut, heq, ok_bind]
    simp only
    split_ifs with hdel
    · obtain ⟨r, heq', hinv, -, hfr, hnx⟩ := Sock.Inv.feed (s := s) (.action .pipeOut) hs
        (r := { (s.setPipe p { pipe with outRaised := false }).req with
          xreq.lb := lb }) hfsm hxwf hwf'.ivl hwf'.timer hwf'.sent
        (hdel ▸ Next.out) (fun _ => ⟨p, (hiff p).2 (Or.inr rfl)⟩) sync
      refine ⟨_, by rw [heq']; rfl, hinv, hkept.trans ?_ rfl⟩
      exact Kept.of_frame ⟨hfr.fsm, hfr.id, hfr.request, hfr.reply, hfr.ivl, hfr.fq, hfr.inward⟩
        (by simp) (by simp) hnx
    · exact ⟨_, rfl, .running hs hfsm ⟨hxwf, hwf'.ivl, hwf'.timer, hwf'.sent, hwf'.attached⟩ hst,
        ⟨hkept.id, hkept.request, hkept.reply, hkept.fq, hkept.inbox, hkept.neglected, hkept.state,
          hkept.sock⟩⟩

theorem step_csend (ha : s.state = .active) {msg : Msg} (hmsg : msg.sphdr = []) (sync : Bool) :
    ∃ s', s.step (.csend msg sync) = .ok (s', .code none) ∧ s'.Inv ∧
      Did s (.csend msg sync) s' (.code none) := by
  obtain ⟨st, hnx⟩ := Next.exists_sent hst
  obtain ⟨r, heq, hinv, -, hfr, hnx'⟩ := Sock.Inv.feed (s := s) (.action .sent) hs
    (r := { s.req with
      task.id := s.req.task.id + 1
      task.request := { msg with sphdr := nnPutl ((s.req.task.id + 1) ||| 0x80000000) } })
    hfsm hwf.xreq hwf.ivl hwf.timer hwf.sent hnx (fun h => nomatch h) sync
  refine ⟨s.put (r, false), ?_, hinv, .csend ha hfr hnx'⟩
  simp only [Sock.step, ha, ne_eq, not_true_eq_false, if_false, nnReqCsend,
    nnAssert_of hmsg, ok_bind]
  rw [heq]
  rfl

theorem step_crecv :
    ∃ s' a, s.step .crecv = .ok (s', a) ∧ s'.Inv ∧ Did s .crecv s' a := by
  have hinv : s.Inv := .running hs hfsm hwf hst
  simp only [Sock.step, nnReqCrecv]
  split_ifs with hact hprog hdone
  · exact ⟨s, _, rfl, hinv, .quiet (.refl s) (by simp) fun _ => rfl⟩
  · exact ⟨_, _, rfl, hinv, .quiet (.refl s) (by simp) fun _ => rfl⟩
  · exact ⟨_, _, rfl, hinv, .quiet (.refl s) (by simp) fun _ => rfl⟩
  · have hdone : s.req.state = .done := not_not.1 hdone
    obtain ⟨r, heq, hinv', -, hfr, hnx⟩ := Sock.Inv.feed (s := s) (.action .received) hs
      (r := { s.req with task.reply := some .init }) hfsm hwf.xreq hwf.ivl hwf.timer hwf.sent
      (hdone ▸ Next.received) (fun h => nomatch h) true
    refine ⟨_, _, by rw [heq]; rfl, hinv', .crecv (not_not.1 hact) hdone hfr ?_⟩
    exact hnx.of_received

/-- A move of the timer's worker that the owner does not notice. -/
theorem timer_silent {t : Timer} (ht : t.In s.req.state.phase) (sync : Bool) :
    ∃ s', s.timerEvent sync (t, none) = .ok s' ∧ s'.Inv ∧ Kept s s' :=
  ⟨_, rfl, .running hs hfsm ⟨hwf.xreq, hwf.ivl, ht, hwf.sent, hwf.attached⟩ hst,
    rfl, rfl, rfl, fun _ h => h, fun _ pipe' hp _ hm => ⟨pipe', hp, hm⟩, fun _ _ h =>
      h, fun _ => Or.inl rfl,
    fun h => h⟩

omit hst in
/-- An event of the timer that the state machine expects. -/
theorem timer_raises {t : Timer} {e : TimerEvent}
    (ht : t.popped.In (if (ReqInput.resendTimer e) = .resendTimer .stopped then .idle
      else s.req.state.phase)) {st : ReqState}
        (hnx : Next s.req.state (.resendTimer e) st) (sync : Bool) :
    ∃ s', s.timerEvent sync (t, some e) = .ok s' ∧ s'.Inv ∧ Kept s s' := by
  obtain ⟨r, heq, hinv, -, hfr, hnx'⟩ := Sock.Inv.feed (s := s) (.resendTimer e) hs
    (r := { s.req with task.timer := t.popped }) hfsm hwf.xreq hwf.ivl ht hwf.sent hnx
    (fun h => nomatch h) sync
  refine ⟨s.put (r, false), by simp [Sock.timerEvent, heq], hinv,
    Kept.of_frame ?_ (by simp) (by simp) hnx'⟩
  exact ⟨hfr.fsm, hfr.id, hfr.request, hfr.reply, hfr.ivl, hfr.fq, hfr.inward⟩

theorem step_runTask (sync : Bool) :
    ∃ s', s.step (.runTask sync) = .ok (s', .none) ∧ s'.Inv ∧ Kept s s' := by
  simp only [Sock.step]
  rcases hwf.timer.runTask with ⟨t, heq, ht⟩ | ⟨hph, t, heq, ht⟩
  · obtain ⟨s', hs', hrest⟩ := timer_silent hs hfsm hwf hst ht sync
    exact ⟨s', by rw [heq, ok_bind, hs']; rfl, hrest⟩
  · obtain ⟨st, hnx⟩ := Next.exists_stopped hst hph
    obtain ⟨s', hs', hrest⟩ := timer_raises hs hfsm hwf (by simpa using ht) hnx sync
    exact ⟨s', by rw [heq, ok_bind, hs']; rfl, hrest⟩

theorem step_expire : ∃ s', s.step .expire = .ok (s', .none) ∧ s'.Inv ∧ Kept s s' := by
  simp only [Sock.step]
  rcases hwf.timer.expire with ⟨t, heq, ht⟩ | ⟨hph, t, heq, ht⟩
  · obtain ⟨s', hs', hrest⟩ := timer_silent hs hfsm hwf hst ht true
    exact ⟨s', by rw [heq, ok_bind, hs']; rfl, hrest⟩
  · have hact := ReqState.phase_eq_active hph
    have hpop : t.popped.In s.req.state.phase := by
      rw [hph]
      exact ⟨ht.1, ht.2.1, rfl, ht.2.2.2⟩
    obtain ⟨s', hs', hrest⟩ := timer_raises hs hfsm hwf (e := .timeout) (by simpa using hpop)
      (hact ▸ Next.timeout) true
    exact ⟨s', by rw [heq, ok_bind, hs']; rfl, hrest⟩

omit hs hst in
/-- The protocol is stopped after all pipes were removed. -/
theorem step_stop (hp : ∀ p, s.req.xreq.pipes p = none) :
    ∃ s', s.step .stop = .ok (s', .none) ∧ s'.Inv ∧ Kept s s' := by
  simp only [Sock.step, nnReqStop, hfsm, ne_eq, not_true_eq_false, if_false, nnReqShutdown, if_true]
  by_cases hidle : s.req.state.phase = .idle
  · -- the timer is idle: the socket is stopped at once
    have ht : s.req.task.timer.In .idle := hidle ▸ hwf.timer
    have hi : nnTimerIsidle s.req.task.timer = true := ht.isidle_iff.2 rfl
    refine ⟨{ state := .fini, req := { s.req with state := .idle, fsm := .idle } }, ?_,
      .fini rfl rfl ht hp, .of_stopped (by simp) rfl rfl rfl rfl⟩
    simp [ht.stop_of_ne, hi, nnAssert, Sock.put]
  · -- the timer is started or being stopped: the socket waits for it
    obtain ⟨t, heq, ht⟩ : ∃ t, nnTimerStop s.req.task.timer = .ok t ∧ t.In .stopping := by
      cases hph : s.req.state.phase with
      | idle => exact absurd hph hidle
      | active => exact Timer.In.stop (hph ▸ hwf.timer)
      | stopping =>
        have ht : s.req.task.timer.In .stopping := hph ▸ hwf.timer
        exact ⟨_, ht.stop_of_ne (by simp), ht⟩
    have hi : nnTimerIsidle t = false := by
      simpa using (not_congr ht.isidle_iff).2 (by simp)
    refine ⟨{ state := .stopping, req := { s.req with state := .stopping, fsm := .stopping,
                                                      task.timer := t } },
      ?_, .stopping rfl rfl rfl ht hp, .of_stopped (by simp) rfl rfl rfl rfl⟩
    simp [heq, hi, Sock.put]

end Running

section Stopped

variable {s : Sock P} (hs : s.state = .stopping ∨ s.state = .fini)

include hs

theorem step_csend_stopped (msg : Msg) (sync : Bool) :
    s.step (.csend msg sync) = .ok (s, .code (some .ebadf)) :=
  if_pos (by rcases hs with h | h <;> simp [h])

theorem step_crecv_stopped : s.step .crecv = .ok (s, .code (some .ebadf)) :=
  if_pos (by rcases hs with h | h <;> simp [h])

end Stopped

/-- The events of the timer while the socket waits for it and afterwards. -/
theorem step_runTask_stopped {s : Sock P} (h : s.Inv) (hs : s.state = .stopping ∨ s.state = .fini)
    (sync : Bool) : ∃ s', s.step (.runTask sync) = .ok (s', .none) ∧ s'.Inv ∧ Kept s s' := by
  simp only [Sock.step]
  cases h with
  | running hs' => rcases hs with h | h <;> simp [h] at hs'
  | stopping hst hfsm hreq ht hp =>
    rcases ht.runTask with ⟨t, heq, ht'⟩ | ⟨-, t, heq, ht'⟩
    · refine ⟨{ s with req.task.timer := t }, by simp [heq, Sock.timerEvent],
        .stopping hst hfsm hreq ht' hp, .of_stopped (by simp [hst]) rfl rfl rfl rfl⟩
    · have hi : nnTimerIsidle t.popped = true := ht'.isidle_iff.2 rfl
      refine ⟨{ state := .fini, req := { s.req with state := .idle, fsm := .idle,
                                                    task.timer := t.popped } },
        ?_, .fini rfl rfl ht' hp, .of_stopped (by simp) rfl rfl rfl rfl⟩
      simp [heq, Sock.timerEvent, Req.feed, hfsm, nnReqShutdown, hreq, hi, nnAssert, Sock.put]
  | fini hst hfsm ht hp =>
    rcases ht.runTask with ⟨t, heq, ht'⟩ | ⟨hph, -⟩
    · refine ⟨{ s with req.task.timer := t }, by simp [heq, Sock.timerEvent], .fini hst hfsm ht' hp,
        .of_stopped (by simp [hst]) rfl rfl rfl rfl⟩
    · cases hph

theorem step_expire_stopped {s : Sock P} (h : s.Inv) (hs : s.state = .stopping ∨ s.state = .fini) :
    ∃ s', s.step .expire = .ok (s', .none) ∧ s'.Inv ∧ Kept s s' := by
  simp only [Sock.step]
  cases h with
  | running hs' => rcases hs with h | h <;> simp [h] at hs'
  | stopping hst hfsm hreq ht hp =>
    rcases ht.expire with ⟨t, heq, ht'⟩ | ⟨hph, -⟩
    · refine ⟨{ s with req.task.timer := t }, by simp [heq, Sock.timerEvent],
        .stopping hst hfsm hreq ht' hp, .of_stopped (by simp [hst]) rfl rfl rfl rfl⟩
    · cases hph
  | fini hst hfsm ht hp =>
    rcases ht.expire with ⟨t, heq, ht'⟩ | ⟨hph, -⟩
    · refine ⟨{ s with req.task.timer := t }, by simp [heq, Sock.timerEvent], .fini hst hfsm ht' hp,
        .of_stopped (by simp [hst]) rfl rfl rfl rfl⟩
    · cases hph

/-- The only abort of a socket: `nn_req_csend` asserts that the user's message has no SP header. -/
def Sock.Refuses (s : Sock P) (e : Event P) : Prop :=
  s.state = .active ∧ ∃ msg sync, e = .csend msg sync ∧ msg.sphdr ≠ []

theorem Sock.Refuses.step {s : Sock P} {e : Event P} (h : s.Refuses e) :
    s.step e = .error .assertFailed := by
  obtain ⟨hs, msg, sync, rfl, hmsg⟩ := h
  simp [Sock.step, hs, nnReqCsend, nnAssert_of_not hmsg]

/-- One event: it returns, keeps the invariant and has one of the effects of `Did`. -/
theorem Sock.Inv.step {s : Sock P} (h : s.Inv) {e : Event P} (he : Enabled s e)
    (hr : ¬ s.Refuses e) :
    ∃ s' a, s.step e = .ok (s', a) ∧ s'.Inv ∧ Did s e s' a := by
  have hquiet : ∀ {e : Event P}, e.isNews = false →
      (∃ s', s.step e = .ok (s', .none) ∧ s'.Inv ∧ Kept s s') →
      ∃ s' a, s.step e = .ok (s', a) ∧ s'.Inv ∧ Did s e s' a := by
    rintro e hne ⟨s', heq, hinv, hk⟩
    exact ⟨s', _, heq, hinv, .quiet hk (by simp) fun _ => hne⟩
  by_cases hstop : s.state = .stopping ∨ s.state = .fini
  · have hp : ∀ p, s.req.xreq.pipes p = none := by
      cases h with
      | running hs => rcases hstop with h | h <;> simp [h] at hs
      | stopping _ _ _ _ hp => exact hp
      | fini _ _ _ hp => exact hp
    have hna : s.state ≠ .active := by rcases hstop with h | h <;> simp [h]
    cases e with
    | add p => rcases hstop with h | h <;> simp [Enabled, h] at he
    | rm p => simp [Enabled, hp p] at he
    | arrive p m => simp [Enabled, hp p] at he
    | sent p => simp [Enabled, hp p] at he
    | pipeIn p => simp [Enabled, hp p] at he
    | pipeOut p sync => simp [Enabled, hp p] at he
    | csend msg sync =>
      exact ⟨s, _, step_csend_stopped hstop msg sync, h,
        .quiet (.refl s) (by simp) fun h => absurd h hna⟩
    | crecv => exact ⟨s, _, step_crecv_stopped hstop, h, .quiet (.refl s) (by simp) fun _ => rfl⟩
    | setResendIvl ivl =>
      refine ⟨_, _, rfl, ?_, .quiet (.of_stopped hna rfl rfl rfl rfl) (by simp) fun _ => rfl⟩
      cases h with
      | running hs => rcases hstop with h | h <;> simp [h] at hs
      | stopping hst hfsm hreq ht hp => exact .stopping hst hfsm hreq ht hp
      | fini hst hfsm ht hp => exact .fini hst hfsm ht hp
    | runTask sync => exact hquiet rfl (step_runTask_stopped h hstop sync)
    | expire => exact hquiet rfl (step_expire_stopped h hstop)
    | close => exact absurd he hna
    | stop => rcases hstop with h | h <;> simp [Enabled, h] at he
  · cases h with
    | stopping hs => exact absurd (Or.inl hs) hstop
    | fini hs => exact absurd (Or.inr hs) hstop
    | running hs hfsm hwf hst =>
      cases e with
      | add p sndprio rcvprio =>
        obtain ⟨hinv, hk⟩ := step_add hs hfsm hwf hst he.1 sndprio rcvprio
        exact hquiet rfl ⟨_, rfl, hinv, hk⟩
      | rm p =>
        obtain ⟨r, heq, hinv, hk⟩ := step_rm hs hfsm hwf hst p
        exact hquiet rfl ⟨_, by simp [Sock.step, heq], hinv, hk⟩
      | arrive p m =>
        obtain ⟨pipe, hp⟩ := Option.isSome_iff_exists.1 he.1
        obtain ⟨pipe', heq, hinv, hin, hir⟩ := step_arrive hs hfsm hwf hst hp he.2
        exact ⟨_, _, by simp [Sock.step, hp, heq], hinv, .arrive hp hin hir⟩
      | sent p =>
        obtain ⟨pipe, hp, ho⟩ := he
        obtain ⟨pipe', heq, hinv, hk⟩ := step_sent hs hfsm hwf hst hp ho
        exact hquiet rfl ⟨_, by simp [Sock.step, hp, heq], hinv, hk⟩
      | pipeIn p =>
        obtain ⟨pipe, hp, hraised⟩ := he
        obtain ⟨s', heq, hinv, hd⟩ := step_pipeIn hs hfsm hwf hst hp hraised
        exact ⟨s', _, heq, hinv, hd⟩
      | pipeOut p sync =>
        obtain ⟨pipe, hp, hraised⟩ := he
        exact hquiet rfl (step_pipeOut hs hfsm hwf hst hp hraised sync)
      | csend msg sync =>
        by_cases ha : s.state = .active
        · have hmsg : msg.sphdr = [] := not_not.1 fun hne => hr ⟨ha, msg, sync, rfl, hne⟩
          obtain ⟨s', heq, hinv, hd⟩ := step_csend hs hfsm hwf hst ha hmsg sync
          exact ⟨s', _, heq, hinv, hd⟩
        · exact ⟨s, _, if_pos ha, .running hs hfsm hwf hst,
            .quiet (.refl s) (by simp) fun h => absurd h ha⟩
      | crecv => exact step_crecv hs hfsm hwf hst
      | setResendIvl ivl =>
        refine ⟨_, _, rfl, .running hs hfsm ⟨hwf.xreq, he, hwf.timer, hwf.sent, hwf.attached⟩ hst,
          ?_⟩
        refine .quiet ⟨rfl, rfl, rfl, fun _ h => h, fun _ pipe' hp _ hm => ⟨pipe', hp, hm⟩,
          fun _ _ h => h, fun _ => Or.inl rfl, fun h => h⟩ (by simp) fun _ => rfl
      | runTask sync => exact hquiet rfl (step_runTask hs hfsm hwf hst sync)
      | expire => exact hquiet rfl (step_expire hs hfsm hwf hst)
      | close =>
        refine hquiet rfl ⟨_, rfl, .running (Or.inr rfl) hfsm hwf hst, ?_⟩
        exact .of_stopped (by simp) rfl rfl rfl rfl
      | stop => exact hquiet rfl (step_stop hfsm hwf he.2)

theorem Sock.Inv.did {s s' : Sock P} {e : Event P} {a : Answer} (h : s.Inv) (he : Enabled s e)
    (heq : s.step e = .ok (s', a)) : s'.Inv ∧ Did s e s' a := by
  obtain ⟨s'', a', heq', hinv, hd⟩ := h.step he fun hr => by
    rw [hr.step] at heq
    cases heq
  rw [heq] at heq'
  cases heq'
  exact ⟨hinv, hd⟩

/-- Every reached state satisfies the invariant. -/
theorem Sock.Inv.of_trace {lastid : UInt32} {es : List (Event P)} {s : Sock P}
    (h : Trace Sock.step Enabled (Sock.init lastid) es s) : s.Inv :=
  h.invariant (I := fun _ s => s.Inv) (Sock.init_inv lastid) fun _ _ _ _ _ hinv he heq =>
    (hinv.did he heq).1

/-- A socket that was closed is not opened again. -/
theorem Did.active {s s' : Sock P} {e : Event P} {a : Answer} (h : Did s e s' a)
    (hs : s'.state = .active) :
    s.state = .active := by
  cases h with
  | quiet hk => exact hk.sock hs
  | arrive => exact hs
  | csend ha => exact ha
  | crecv ha => exact ha
  | pipeIn ha => exact ha

/-- No event that can happen makes a REQ socket abort, whatever happened before: the only assertion
that can fail is that of `nn_req_csend` about the header of the user's message, which fails before
the state machine is involved.  Until the socket is stopped, a pipe is recorded for the request
exactly in the state `ACTIVE`. -/
theorem req_never_aborts (lastid : UInt32) (es : List (Event P)) (s : Sock P)
    (h : Trace Sock.step Enabled (Sock.init lastid) es s) :
    (∀ e, Enabled s e → ¬ s.Refuses e → ∃ s' a, s.step e = .ok (s', a)) ∧
      (s.state = .active ∨ s.state = .stoppingEps →
        (s.req.task.sentTo ≠ none ↔ s.req.state = .active)) := by
  have hinv := Sock.Inv.of_trace h
  refine ⟨fun e he hr => ?_, fun hs => ?_⟩
  · obtain ⟨s', a, heq, -⟩ := hinv.step he hr
    exact ⟨s', a, heq⟩
  · cases hinv with
    | running _ _ hwf => exact hwf.sent
    | stopping hst => rcases hs with h | h <;> simp [hst] at h
    | fini hst => rcases hs with h | h <;> simp [hst] at h

/-- The pipe of the first request is lost, the second request replaces the first while the timer is
being stopped, and is sent to another pipe when the timer has stopped. -/
def resendRun : List (Event (Fin 2)) :=
  [.add 0 1 1, .pipeOut 0 false, .csend ⟨[], [], [1, 2]⟩ false, .runTask true, .rm 0,
    .csend ⟨[], [], [3]⟩ true, .add 1 1 1, .pipeOut 1 true, .runTask true]

theorem resendRun_returns : (runWhile Sock.step Enabled (Sock.init 7) resendRun).isSome := by
  decide

theorem req_never_aborts_resend :
    ∃ s : Sock (Fin 2), Trace Sock.step Enabled (Sock.init 7) resendRun s ∧
      (s.req.task.sentTo ≠ none ↔ s.req.state = .active) ∧ s.req.task.sentTo = some 1 ∧
      s.req.task.id = 9 ∧ ∃ s' a, s.step .expire = .ok (s', a) := by
  have h := req_never_aborts 7 resendRun _ (Trace.of_runWhile resendRun_returns)
  refine ⟨_, Trace.of_runWhile resendRun_returns, h.2 (Or.inl (by decide)), by decide,
    by decide, h.1 .expire trivial ?_⟩
  rintro ⟨-, _, _, h, -⟩
  cases h

end NanoSocket.ReqRep

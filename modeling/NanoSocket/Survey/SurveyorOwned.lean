import NanoSocket.Lib.Ownership
import NanoSocket.Lib.Runs
import NanoSocket.ReqRep.ReqOwned
import NanoSocket.Survey.Surveyor

/-!
# Who owns the responses of a SURVEYOR socket

A response passes through the variable of the caller of `nn_surveyor_recv`.  The loop receives into
it until there is a response to the current survey; a response that it skips is not terminated, so
that the next one is received over it or the caller, who is told `-EAGAIN`, forgets it.

As for REQ sockets, the functions are given a ledger of the messages that passed through the
variable.  `survey_ledger` is the result for whole runs: every response has exactly one fate if and
only if no receive found a stale response at the head of its queue.  `replies_owned_iff` puts the
two sockets side by side.
-/

namespace NanoSocket.Survey

open Runs

variable {P : Type} [DecidableEq P]

namespace Owned

/-- The loop of `nn_surveyor_recv`. -/
def nnSurveyorRecvLoop :
    ℕ → Surveyor P → Ledger → Except Fault ((Except Errno Msg × Surveyor P) × Ledger)
  | 0, _, _ => .error .diverged
  | fuel + 1, surveyor, l => do
    -- get next response
    let (got, xsurveyor) ← nnXsurveyorRecv surveyor.xsurveyor
    let surveyor := { surveyor with xsurveyor := xsurveyor }
    match got with
    | .msg msg =>
      let l := l.receive
      -- get the survey ID, ignore any stale responses: they are not terminated
      if msg.sphdr.length ≠ 4 then nnSurveyorRecvLoop fuel surveyor l
      else
        let surveyid ← nnGetl msg.sphdr
        if surveyid ≠ surveyor.surveyid then nnSurveyorRecvLoop fuel surveyor l
        -- discard the header and return the message to the user
        else return ((.ok { msg with sphdr := [] }, surveyor), l.giveAway)
    | .empty => return ((.error .eagain, surveyor), l)
    -- `nn_xsurveyor_recv` terminates what it has received
    | .malformed => return ((.error .eagain, surveyor), l.receive.terminate)

/-- `nn_surveyor_recv`: the message, or an error code. -/
def nnSurveyorRecv (surveyor : Surveyor P) (l : Ledger) :
    Except Fault ((Except Errno Msg × Surveyor P) × Ledger) :=
  -- if no survey is going on return EFSM error
  if !nnSurveyorInprogress surveyor then
    if surveyor.timedout then .ok ((.error .etimedout, { surveyor with timedout := false }), l)
    else .ok ((.error .efsm, surveyor), l)
  else nnSurveyorRecvLoop (pending surveyor.xsurveyor.inpipes surveyor.xsurveyor.pipes + 1) surveyor
    l

end Owned

/-! ### The socket and its ledger -/

/-- A SURVEYOR socket with the ledger of its responses. -/
structure SurveyWorld (P : Type) where
  sock : Sock P
  ledger : Ledger

/-- A response that does not carry the id of the survey in its header. -/
def Stale (surveyid : UInt32) (m : Inbound) : Prop :=
  match m.split with
  | .ok (.msg g) => g.sphdr ≠ nnPutl surveyid
  | _ => False

instance decidableStale (surveyid : UInt32) (m : Inbound) : Decidable (Stale surveyid m) := by
  unfold Stale
  split <;> infer_instance

/-- The next response at hand is a stale one. -/
def Surveyor.StaleNext (r : Surveyor P) : Prop :=
  ∃ q ∈ fqNext r.xsurveyor.inpipes r.xsurveyor.pipes, Stale r.surveyid q.2

instance Surveyor.decidableStaleNext (r : Surveyor P) : Decidable r.StaleNext :=
  inferInstanceAs (Decidable (∃ q ∈ fqNext r.xsurveyor.inpipes r.xsurveyor.pipes,
    Stale r.surveyid q.2))

namespace SurveyWorld

/-- A socket fresh from `nn_socket`. -/
def init (surveyid : UInt32) : SurveyWorld P := { sock := .init surveyid, ledger := .init }

/-- An event happens. A caller who gets an error code does not look at the variable. -/
def step (w : SurveyWorld P) : Event P → Except Fault (SurveyWorld P × Answer)
  | .recv =>
    if w.sock.state ≠ .active then .ok (w, .code (some .ebadf))
    else do
      let ((r, surveyor), l) ← Owned.nnSurveyorRecv w.sock.surveyor w.ledger
      let s := { w.sock with surveyor := surveyor }
      match r with
      | .error e => return ({ sock := s, ledger := l.forget }, .code (some e))
      | .ok msg => return ({ sock := s, ledger := l }, .recv (some msg))
  | e => do
    let (s, a) ← w.sock.step e
    return ({ w with sock := s }, a)

/-- When an event can happen. -/
def Enabled (w : SurveyWorld P) (e : Event P) : Prop := Survey.Enabled w.sock e

/-- The next response is not a stale one when a receive looks for it. -/
def Careful (w : SurveyWorld P) : Event P → Prop
  | .recv => w.sock.state = .active → nnSurveyorInprogress w.sock.surveyor = true →
      ¬ w.sock.surveyor.StaleNext
  | _ => True

instance decidableEnabled [Fintype P] (w : SurveyWorld P) (e : Event P) : Decidable (w.Enabled e) :=
  inferInstanceAs (Decidable (Survey.Enabled w.sock e))

instance decidableCareful (w : SurveyWorld P) (e : Event P) : Decidable (w.Careful e) :=
  match e with
  | .recv => inferInstanceAs (Decidable (_ → _ → ¬ _))
  | .add .. | .rm _ | .arrive .. | .sent _ | .pipeIn _ | .pipeOut _ | .send .. |
      .setDeadline _ | .runTask _
  | .expire | .close | .stop => inferInstanceAs (Decidable True)

end SurveyWorld

/-! ### Without the ledger -/

theorem Owned.nnSurveyorRecvLoop_erase (n : ℕ) (r : Surveyor P) (l : Ledger) :
    (Owned.nnSurveyorRecvLoop n r l).map Prod.fst = Survey.nnSurveyorRecvLoop n r := by
  induction n generalizing r l with
  | zero => rfl
  | succ n ih =>
    rw [Owned.nnSurveyorRecvLoop, Survey.nnSurveyorRecvLoop]
    cases nnXsurveyorRecv r.xsurveyor with
    | error e => rfl
    | ok res =>
      obtain ⟨got, x⟩ := res
      cases got with
      | empty => rfl
      | malformed => rfl
      | msg g =>
        simp only [ok_bind]
        split_ifs
        · exact ih _ _
        · cases nnGetl g.sphdr with
          | error e => rfl
          | ok surveyid =>
            simp only [ok_bind]
            split_ifs
            · exact ih _ _
            · rfl

theorem Owned.nnSurveyorRecv_erase (r : Surveyor P) (l : Ledger) :
    (Owned.nnSurveyorRecv r l).map Prod.fst = Survey.nnSurveyorRecv r := by
  rw [Owned.nnSurveyorRecv, Survey.nnSurveyorRecv]
  split_ifs
  · rfl
  · rfl
  · exact Owned.nnSurveyorRecvLoop_erase _ _ _

/-- The ledger only watches: without it, an event is what it was. -/
theorem SurveyWorld.step_erase (w : SurveyWorld P) (e : Event P) :
    (w.step e).map (fun r => (r.1.sock, r.2)) = w.sock.step e := by
  cases e with
  | recv =>
    simp only [SurveyWorld.step, Sock.step]
    split_ifs with hact
    · rfl
    · rw [← Owned.nnSurveyorRecv_erase _ w.ledger]
      cases Owned.nnSurveyorRecv w.sock.surveyor w.ledger with
      | error e => rfl
      | ok r =>
        obtain ⟨⟨r, surveyor⟩, l⟩ := r
        cases r <;> rfl
  | _ =>
    simp only [SurveyWorld.step]
    cases Sock.step w.sock _ with
    | error e => rfl
    | ok r => rfl

/-! ### What the loop does to the ledger -/

/-- The loop of `nn_surveyor_recv`, turn by turn. -/
inductive Drained : Surveyor P → Ledger → Ledger → Prop
  | empty {r : Surveyor P} {x : Xsurveyor P} {l : Ledger}
      (h : nnXsurveyorRecv r.xsurveyor = .ok (.empty, x)) :
      Drained r l l
  | malformed {r : Surveyor P} {x : Xsurveyor P} {l : Ledger}
      (h : nnXsurveyorRecv r.xsurveyor = .ok (.malformed, x)) : Drained r l l.receive.terminate
  | stale {r : Surveyor P} {x : Xsurveyor P} {g : Msg} {l l' : Ledger}
      (h : nnXsurveyorRecv r.xsurveyor = .ok (.msg g, x)) (hid : g.sphdr ≠ nnPutl r.surveyid)
      (hrest : Drained { r with xsurveyor := x } l.receive l') : Drained r l l'
  | answer {r : Surveyor P} {x : Xsurveyor P} {g : Msg} {l : Ledger}
      (h : nnXsurveyorRecv r.xsurveyor = .ok (.msg g, x)) (hid : g.sphdr = nnPutl r.surveyid) :
      Drained r l l.receive.giveAway

/-- The loop returns a message only when it gives one away. -/
theorem Owned.nnSurveyorRecvLoop_drained {n : ℕ} {r r' : Surveyor P} {res : Except Errno Msg}
    {l l' : Ledger} (h : Owned.nnSurveyorRecvLoop n r l = .ok ((res, r'), l')) :
    Drained r l l' ∧ ∀ msg, res = .ok msg → l'.held = none := by
  induction n generalizing r l with
  | zero => cases h
  | succ n ih =>
    rw [Owned.nnSurveyorRecvLoop] at h
    obtain ⟨⟨got, x⟩, hrecv, h⟩ := bind_eq_ok.1 h
    cases got with
    | empty =>
      cases h
      exact ⟨.empty hrecv, nofun⟩
    | malformed =>
      cases h
      exact ⟨.malformed hrecv, nofun⟩
    | msg g =>
      simp only at h
      split at h
      · rename_i hlen
        have hid : g.sphdr ≠ nnPutl r.surveyid := fun heq => hlen (by rw [heq, length_nnPutl])
        exact ⟨.stale hrecv hid (ih h).1, (ih h).2⟩
      · rename_i hlen
        obtain ⟨surveyid, hget, h⟩ := bind_eq_ok.1 h
        have hput := nnPutl_of_nnGetl (not_not.1 hlen) hget
        split at h
        · rename_i hne
          have hid : g.sphdr ≠ nnPutl r.surveyid := fun heq =>
            hne (nnPutl_injective (hput.trans heq))
          exact ⟨.stale hrecv hid (ih h).1, (ih h).2⟩
        · rename_i heq
          cases h
          exact ⟨.answer hrecv (by rw [← hput, not_not.1 heq]), fun _ _ => rfl⟩

/-- What the raw receive gives was next in the fair queue. -/
theorem fqNext_of_nnXsurveyorRecv {x x' : Xsurveyor P} {got : Got}
    (h : nnXsurveyorRecv x = .ok (got, x')) :
    fqNext x.inpipes x.pipes = none ∧ got = .empty ∨
      ∃ p m, fqNext x.inpipes x.pipes = some (p, m) ∧ m.split = .ok got := by
  rw [nnXsurveyorRecv] at h
  obtain ⟨⟨res, inpipes, pipes⟩, hrecv, h⟩ := bind_eq_ok.1 h
  cases res with
  | none =>
    cases h
    exact Or.inl ⟨fqNext_of_nnFqRecv hrecv, rfl⟩
  | some r =>
    obtain ⟨p, m⟩ := r
    obtain ⟨got, hsplit, h⟩ := bind_eq_ok.1 h
    cases h
    exact Or.inr ⟨p, m, fqNext_of_nnFqRecv hrecv, hsplit⟩

/-- The next response at hand is a stale one exactly if the raw receive gives one. -/
theorem Surveyor.staleNext_iff {r : Surveyor P} {x : Xsurveyor P} {got : Got}
    (h : nnXsurveyorRecv r.xsurveyor = .ok (got, x)) :
    r.StaleNext ↔ ∃ g, got = .msg g ∧ g.sphdr ≠ nnPutl r.surveyid := by
  rcases fqNext_of_nnXsurveyorRecv h with ⟨hnone, rfl⟩ | ⟨p, m, hnext, hsplit⟩
  · simp [Surveyor.StaleNext, hnone]
  · cases got <;> simp [Surveyor.StaleNext, hnext, Stale, hsplit]

variable {r : Surveyor P} {l l' : Ledger}

theorem Drained.wf (h : Drained r l l') (hl : l.Wf) : l'.Wf := by
  induction h with
  | empty => exact hl
  | malformed => exact hl.receive.terminate
  | stale _ _ _ ih => exact ih hl.receive
  | answer => exact hl.receive.giveAway

theorem Drained.broken (h : Drained r l l') (hl : l.Broken) : l'.Broken := by
  induction h with
  | empty => exact hl
  | malformed => exact hl.receive.terminate
  | stale _ _ _ ih => exact ih hl.receive
  | answer => exact hl.receive.giveAway

/-- A message that the variable holds when the loop goes on is lost. -/
theorem Drained.broken_of_live (h : Drained r l l') (hwf : l.Wf) (hl : l.Live) :
    l'.forget.Broken := by
  have hlost := hwf.broken_receive hl
  cases h with
  | empty => exact hwf.broken_forget hl
  | malformed => exact hlost.terminate.forget
  | stale _ _ hrest => exact (hrest.broken hlost).forget
  | answer => exact hlost.giveAway.forget

/-- Nothing is lost, unless the first response is a stale one. -/
theorem Drained.balanced (h : Drained r l l') (hwf : l.Wf) (hb : l.Balanced) (hlive : ¬ l.Live)
    (hnext : ¬ r.StaleNext) : l'.forget.Balanced := by
  have hrecv := hb.receive hwf hlive
  have hd := Ledger.not_dangling_of_live hwf.live_receive
  cases h with
  | empty => exact hb.forget hlive
  | malformed => exact (hrecv.terminate hwf.receive hd).forget (Ledger.not_live_terminate _)
  | stale h hid => exact absurd ((Surveyor.staleNext_iff h).2 ⟨_, rfl, hid⟩) hnext
  | answer => exact (hrecv.giveAway hwf.receive hd).forget (Ledger.not_live_giveAway _)

/-- A stale response at the head of the queue is lost. -/
theorem Drained.broken_of_stale (h : Drained r l l') (hwf : l.Wf) (hnext : r.StaleNext) :
    l'.forget.Broken := by
  cases h with
  | empty h =>
    obtain ⟨g, hg, -⟩ := (Surveyor.staleNext_iff h).1 hnext
    cases hg
  | malformed h =>
    obtain ⟨g, hg, -⟩ := (Surveyor.staleNext_iff h).1 hnext
    cases hg
  | stale _ _ hrest => exact hrest.broken_of_live hwf.receive hwf.live_receive
  | answer h hid =>
    obtain ⟨g, ⟨⟩, hne⟩ := (Surveyor.staleNext_iff h).1 hnext
    exact absurd hid hne

/-! ### One event -/

namespace SurveyWorld

/-- The invariant of every run: between two events the variable is not in use. -/
structure Inv (w : SurveyWorld P) : Prop where
  ledger : w.ledger.Wf
  held : w.ledger.held = none

variable {w w' : SurveyWorld P} {a : Answer}

omit [DecidableEq P] in
theorem init_inv (surveyid : UInt32) : (init surveyid : SurveyWorld P).Inv := ⟨Ledger.init_wf, rfl⟩

/-- What a receive does to the ledger. -/
theorem step_recv_cases (h : w.Inv) (heq : w.step .recv = .ok (w', a)) :
    w'.ledger = w.ledger ∧ (w.sock.state = .active → nnSurveyorInprogress w.sock.surveyor = false) ∨
      w.sock.state = .active ∧ nnSurveyorInprogress w.sock.surveyor = true ∧
        ∃ l, Drained w.sock.surveyor w.ledger l ∧ w'.ledger = l.forget := by
  simp only [step] at heq
  split_ifs at heq with hact
  · cases heq
    exact Or.inl ⟨rfl, fun ha => absurd ha hact⟩
  · obtain ⟨⟨⟨res, r⟩, l⟩, hrecv, heq⟩ := bind_eq_ok.1 heq
    rw [Owned.nnSurveyorRecv] at hrecv
    split_ifs at hrecv with hprog htimedout
    · cases hrecv
      cases heq
      exact Or.inl ⟨Ledger.forget_of_held h.held, fun _ => by simpa using hprog⟩
    · cases hrecv
      cases heq
      exact Or.inl ⟨Ledger.forget_of_held h.held, fun _ => by simpa using hprog⟩
    · obtain ⟨hd, hheld⟩ := Owned.nnSurveyorRecvLoop_drained hrecv
      refine Or.inr ⟨not_not.1 hact, by simpa using hprog, l, hd, ?_⟩
      cases res with
      | error e =>
        cases heq
        rfl
      | ok msg =>
        cases heq
        exact (Ledger.forget_of_held (hheld msg rfl)).symm

/-- The other events leave the responses alone. -/
theorem step_other {e : Event P} (he : e ≠ .recv) (heq : w.step e = .ok (w', a)) :
    w'.ledger = w.ledger := by
  cases e with
  | recv => exact absurd rfl he
  | _ =>
    simp only [step] at heq
    obtain ⟨r, -, heq⟩ := bind_eq_ok.1 heq
    cases heq
    rfl

/-- One event: what it needs to keep every response accounted for, and that nothing mends a broken
ledger. -/
theorem Inv.step (h : w.Inv) {e : Event P} (heq : w.step e = .ok (w', a)) :
    w'.Inv ∧ (w.ledger.Broken → w'.ledger.Broken) ∧
      (w.ledger.Balanced → w.Careful e → w'.ledger.Balanced) ∧
        (¬ w.Careful e → w'.ledger.Broken) := by
  have hsame : w'.ledger = w.ledger → w.Careful e →
      w'.Inv ∧ (w.ledger.Broken → w'.ledger.Broken) ∧
        (w.ledger.Balanced → w.Careful e → w'.ledger.Balanced) ∧
          (¬ w.Careful e → w'.ledger.Broken) := by
    intro hl hc
    exact ⟨⟨hl ▸ h.ledger, hl ▸ h.held⟩, fun hb => hl ▸ hb, fun hb _ => hl ▸ hb,
      fun hn => absurd hc hn⟩
  by_cases he : e = .recv
  · subst he
    rcases step_recv_cases h heq with ⟨hl, hprog⟩ | ⟨hact, hprog, l, hd, hl⟩
    · refine hsame hl fun ha hp => ?_
      rw [hprog ha] at hp
      cases hp
    · refine ⟨⟨hl ▸ (hd.wf h.ledger).forget, hl ▸ rfl⟩, fun hb => hl ▸ (hd.broken hb).forget,
        fun hb hc => ?_, fun hc => ?_⟩
      · exact hl ▸ hd.balanced h.ledger hb (Ledger.not_live_of_held h.held) (hc hact hprog)
      · exact hl ▸ hd.broken_of_stale h.ledger (not_not.1 fun hn => hc fun _ _ => hn)
  · refine hsame (step_other he heq) ?_
    cases e with
    | recv => exact absurd rfl he
    | _ => trivial

end SurveyWorld

/-- In every run of a SURVEYOR socket: every response has exactly one fate, if and only if no
receive found a stale response at the head of its queue. -/
theorem survey_ledger {surveyid : UInt32} {es : List (Event P)} {w : SurveyWorld P}
    (hrun : Trace SurveyWorld.step SurveyWorld.Enabled (.init surveyid) es w) :
    w.ledger.Balanced ↔
      Trace SurveyWorld.step (fun w e => w.Enabled e ∧ w.Careful e) (.init surveyid) es w := by
  rcases hrun.good_or_bad (G := fun w => w.ledger.Balanced) (B := fun w => w.ledger.Broken)
    (SurveyWorld.init_inv surveyid) Ledger.init_balanced (fun _ _ _ _ h _ heq => h.step heq) with
    ⟨-, ⟨hc, hb⟩ | ⟨hc, hb⟩⟩
  · exact iff_of_true hb hc
  · exact iff_of_false hb.not_balanced hc

end NanoSocket.Survey

namespace NanoSocket

open Runs ReqRep Survey

/-- In every run of a REQ socket and of a SURVEYOR socket: every message obtained from the raw
receive is returned, terminated once, or the stored reply, in exactly one of these ways, if and only
if every step of the run was careful. -/
theorem replies_owned_iff {P : Type} [DecidableEq P] (lastid surveyid : UInt32) :
    (∀ (cs : List (ReplyCall P)) (w : ReplyWorld P),
      Trace ReplyWorld.step ReplyWorld.Enabled (.init lastid) cs w →
        (w.ledger.Balanced ↔
          Trace ReplyWorld.step (fun w c => w.Enabled c ∧ w.Careful c) (.init lastid) cs w)) ∧
    ∀ (es : List (Survey.Event P)) (w : SurveyWorld P),
      Trace SurveyWorld.step SurveyWorld.Enabled (.init surveyid) es w →
        (w.ledger.Balanced ↔
          Trace SurveyWorld.step (fun w e => w.Enabled e ∧ w.Careful e) (.init surveyid) es w) :=
  ⟨fun _ _ hrun => req_ledger hrun, fun _ _ hrun => survey_ledger hrun⟩

/-- A request is answered, the reply is received, and the socket is closed. -/
def answeredRun : List (ReplyCall (Fin 1)) :=
  [.event (.add 0 1 1), .event (.pipeOut 0 false), .event (.csend ⟨[], [], [1]⟩ true),
    .event (.arrive 0 { msg := ⟨[], [], [0x80, 0, 0, 8, 5]⟩, parsed := false }), .event (.pipeIn 0),
    .event (.runTask true), .event (.runTask true), .event .crecv, .event .close,
      .event (.rm 0), .event .stop,
    .destroy]

/-- A survey is answered, and the response is received. -/
def surveyedRun : List (Survey.Event (Fin 1)) :=
  [.add 0 1, .pipeOut 0, .send ⟨[], [], [1]⟩ (fun _ => true),
    .arrive 0 { msg := ⟨[], [], [0x80, 0, 0, 8, 5]⟩, parsed := false }, .pipeIn 0, .recv]

theorem replies_owned_iff_answered :
    (∃ w, Trace ReplyWorld.step ReplyWorld.Enabled (.init 7) answeredRun w ∧
      w.ledger = ⟨1, [0], [], none⟩ ∧ w.ledger.Balanced) ∧
    ∃ w, Trace SurveyWorld.step SurveyWorld.Enabled (.init 7) surveyedRun w ∧
      w.ledger = ⟨1, [0], [], none⟩ ∧
      w.ledger.Balanced := by
  have h := replies_owned_iff (P := Fin 1) 7 7
  constructor
  · obtain ⟨w, hrun, hw⟩ : ∃ w, Trace ReplyWorld.step (fun w c => w.Enabled c ∧ w.Careful c)
      (.init 7) answeredRun w ∧
        w.ledger = ⟨1, [0], [], none⟩ :=
      Trace.exists_of_runWhile (Q := fun w : ReplyWorld (Fin 1) => w.ledger = ⟨1, [0], [], none⟩)
        (by decide)
    have hrun' := hrun.mono fun (w : ReplyWorld (Fin 1)) c (h : w.Enabled c ∧ w.Careful c) => h.1
    exact ⟨w, hrun', hw, (h.1 _ _ hrun').2 hrun⟩
  · obtain ⟨w, hrun, hw⟩ : ∃ w, Trace SurveyWorld.step (fun w e => w.Enabled e ∧ w.Careful e)
      (.init 7) surveyedRun w ∧
        w.ledger = ⟨1, [0], [], none⟩ :=
      Trace.exists_of_runWhile (Q := fun w : SurveyWorld (Fin 1) => w.ledger = ⟨1, [0], [], none⟩)
        (by decide)
    have hrun' := hrun.mono fun (w : SurveyWorld (Fin 1)) e (h : w.Enabled e ∧ w.Careful e) => h.1
    exact ⟨w, hrun', hw, (h.2 _ _ hrun').2 hrun⟩

/-- The reply to a request arrives twice before the user has received it. -/
def duplicateRun : List (ReplyCall (Fin 1)) :=
  [.event (.add 0 1 1), .event (.pipeOut 0 false), .event (.csend ⟨[], [], [1]⟩ true),
    .event (.arrive 0 { msg := ⟨[], [], [0x80, 0, 0, 8, 5]⟩, parsed := false }), .event (.pipeIn 0),
    .event (.arrive 0 { msg := ⟨[], [], [0x80, 0, 0, 8, 5]⟩, parsed := false }), .event (.pipeIn 0)]

/-- The response to a survey arrives after another survey was submitted. -/
def lateRun : List (Survey.Event (Fin 1)) :=
  [.add 0 1, .pipeOut 0, .send ⟨[], [], [1]⟩ (fun _ => true), .send ⟨[], [], [2]⟩ (fun _ => true),
    .arrive 0 { msg := ⟨[], [], [0x80, 0, 0, 8, 5]⟩, parsed := false }, .pipeIn 0, .recv]

/-- The first of two replies is overwritten, and the late response is forgotten: neither was
returned or terminated. -/
theorem replies_lost :
    (∃ w, Trace ReplyWorld.step ReplyWorld.Enabled (.init 7) duplicateRun w ∧
      (w.ledger = ⟨2, [], [], some 1⟩ ∧ ¬ w.ledger.Balanced)) ∧
    ∃ w, Trace SurveyWorld.step SurveyWorld.Enabled (.init 7) lateRun w ∧
      (w.ledger = ⟨1, [], [], none⟩ ∧ ¬ w.ledger.Balanced) :=
  ⟨Trace.exists_of_runWhile
      (Q := fun w : ReplyWorld (Fin 1) => w.ledger = ⟨2, [], [], some 1⟩ ∧ ¬ w.ledger.Balanced)
      (by decide),
    Trace.exists_of_runWhile
      (Q := fun w : SurveyWorld (Fin 1) => w.ledger = ⟨1, [], [], none⟩ ∧ ¬ w.ledger.Balanced)
        (by decide)⟩

end NanoSocket

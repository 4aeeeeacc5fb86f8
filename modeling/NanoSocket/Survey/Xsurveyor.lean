import NanoSocket.Protocols.Dist

/-!
# Raw SURVEYOR sockets (`protocols/survey/xsurveyor.c`)

A raw SURVEYOR socket gives a survey to all pipes that can send, and takes responses from its fair
queue.

`Xsurveyor.Wf` is the invariant of the socket's lists and pipes, and each function has one lemma
that says that it returns, keeps the invariant and has the expected effect.
-/

namespace NanoSocket.Survey

variable {P : Type} [DecidableEq P]

/-- `struct nn_xsurveyor` and the pipes attached to it. -/
structure Xsurveyor (P : Type) where
  outpipes : Dist P
  inpipes : Priolist P
  pipes : P → Option Pipe

/-- `nn_xsurveyor_init`. -/
def Xsurveyor.init : Xsurveyor P :=
  { outpipes := nnDistInit, inpipes := .init, pipes := fun _ => none }

/-- `nn_xsurveyor_add`, called by `nn_pipebase_start`. -/
def nnXsurveyorAdd (self : Xsurveyor P) (pipe : P) (rcvprio : Fin 16) : Xsurveyor P :=
  { self with
    inpipes := self.inpipes.add pipe rcvprio
    pipes := Function.update self.pipes pipe (some nnPipebaseStart) }

/-- `nn_xsurveyor_rm`. -/
def nnXsurveyorRm (self : Xsurveyor P) (pipe : P) : Xsurveyor P :=
  { inpipes := self.inpipes.rm pipe
    outpipes := nnDistRm self.outpipes pipe
    pipes := Function.update self.pipes pipe none }

/-- `nn_xsurveyor_in`. -/
def nnXsurveyorIn (self : Xsurveyor P) (pipe : P) : Except Fault (Xsurveyor P) :=
  return { self with inpipes := ← self.inpipes.activate pipe }

/-- `nn_xsurveyor_out`. -/
def nnXsurveyorOut (self : Xsurveyor P) (pipe : P) : Except Fault (Xsurveyor P) :=
  return { self with outpipes := ← nnDistOut self.outpipes pipe }

/-- `nn_xsurveyor_events`: the flags `NN_SOCKBASE_EVENT_OUT` and `NN_SOCKBASE_EVENT_IN`. -/
def nnXsurveyorEvents (self : Xsurveyor P) : Bool × Bool := (true, self.inpipes.isActive)

/-- `nn_xsurveyor_send`. -/
def nnXsurveyorSend (self : Xsurveyor P) (msg : Msg) (sync : P → Bool) :
    Except Fault (Xsurveyor P) := do
  let (outpipes, pipes) ← nnDistSend self.outpipes self.pipes msg none sync
  return { self with outpipes := outpipes, pipes := pipes }

/-- `nn_xsurveyor_recv`. -/
def nnXsurveyorRecv (self : Xsurveyor P) : Except Fault (Got × Xsurveyor P) := do
  let (r, inpipes, pipes) ← nnFqRecv self.inpipes self.pipes
  let self := { self with inpipes := inpipes, pipes := pipes }
  match r with
  | none => return (.empty, self)
  | some (_, m) => return (← m.split, self)

/-! ### The invariant -/

/-- The invariant of a raw SURVEYOR socket. -/
structure Xsurveyor.Wf (x : Xsurveyor P) : Prop where
  pipes : PipesWf x.pipes
  inpipes : Ready Pipe.InReady x.inpipes x.pipes
  outpipes : x.outpipes.Ready x.pipes
  inbox : ∀ p pipe, x.pipes p = some pipe → ∀ m ∈ pipe.inbox, m.Wf

omit [DecidableEq P] in
theorem Xsurveyor.init_wf : (Xsurveyor.init : Xsurveyor P).Wf :=
  ⟨fun _ _ h => (nomatch h), ⟨Priolist.init_wf, fun p h => absurd h (Priolist.not_active_init p)⟩,
    nnDistInit_ready _, fun _ _ h => (nomatch h)⟩

theorem inbox_update {pipes : P → Option Pipe}
    (h : ∀ p pipe, pipes p = some pipe → ∀ m ∈ pipe.inbox, m.Wf) {p : P} {pipe : Option Pipe}
    (hin : ∀ r, pipe = some r → ∀ m ∈ r.inbox, m.Wf) :
    ∀ q r, Function.update pipes p pipe q = some r → ∀ m ∈ r.inbox, m.Wf := by
  intro q r hq
  by_cases hqp : q = p
  · subst hqp
    rw [Function.update_self] at hq
    exact hin r hq
  · rw [Function.update_of_ne hqp] at hq
    exact h q r hq

/-- Changing a pipe, with what its lists need to know about it. -/
theorem Xsurveyor.Wf.update {x : Xsurveyor P} (h : x.Wf) {p : P} {pipe : Pipe} (hwf : pipe.Wf)
    (hin : x.inpipes.Active p → pipe.InReady) (hout : p ∈ x.outpipes.pipes → pipe.OutReady)
    (hinbox : ∀ m ∈ pipe.inbox, m.Wf) :
    Xsurveyor.Wf { x with pipes := Function.update x.pipes p (some pipe) } := by
  refine ⟨h.pipes.update p hwf, h.inpipes.update hin, h.outpipes.update hout,
    inbox_update h.inbox ?_⟩
  rintro r ⟨⟩
  exact hinbox

/-- The `IN` event of a pipe is taken out of the queue. -/
theorem Xsurveyor.Wf.inPopped {x : Xsurveyor P} (h : x.Wf) {p : P} {pipe : Pipe}
    (hp : x.pipes p = some pipe) :
    Xsurveyor.Wf { x with
      pipes := Function.update x.pipes p (some { pipe with inRaised := false }) } := by
  have hw := h.pipes p pipe hp
  exact h.update ⟨hw.instate, hw.outstate, fun h => (nomatch h), hw.outRaised⟩
    (fun ha => ⟨(h.inpipes.of_active hp ha).1, rfl⟩)
    (fun hm => show pipe.OutReady from h.outpipes.of_mem hp hm) (h.inbox p pipe hp)

/-- The `OUT` event of a pipe is taken out of the queue. -/
theorem Xsurveyor.Wf.outPopped {x : Xsurveyor P} (h : x.Wf) {p : P} {pipe : Pipe}
    (hp : x.pipes p = some pipe) :
    Xsurveyor.Wf { x with
      pipes := Function.update x.pipes p (some { pipe with outRaised := false }) } := by
  have hw := h.pipes p pipe hp
  exact h.update ⟨hw.instate, hw.outstate, hw.inRaised, fun h => (nomatch h)⟩
    (fun ha => show pipe.InReady from h.inpipes.of_active hp ha)
    (fun hm => ⟨(h.outpipes.of_mem hp hm).1, rfl⟩) (h.inbox p pipe hp)

theorem nnXsurveyorAdd_wf {x : Xsurveyor P} (h : x.Wf) {p : P} (hp : x.pipes p = none)
    (rcvprio : Fin 16) :
    (nnXsurveyorAdd x p rcvprio).Wf := by
  refine ⟨h.pipes.update p nnPipebaseStart_wf, h.inpipes.add hp _,
    h.outpipes.update fun hm => absurd hm (h.outpipes.not_mem hp), inbox_update h.inbox ?_⟩
  rintro r ⟨⟩ m hm
  cases hm

theorem nnXsurveyorRm_wf {x : Xsurveyor P} (h : x.Wf) (p : P) : (nnXsurveyorRm x p).Wf := by
  refine ⟨h.pipes.remove p, h.inpipes.remove p, h.outpipes.remove p, inbox_update h.inbox ?_⟩
  rintro r ⟨⟩

theorem nnXsurveyorIn_spec {x : Xsurveyor P} (h : x.Wf) {p : P} {pipe : Pipe}
    (hp : x.pipes p = some pipe) (hr : pipe.InReady) (hna : ¬ x.inpipes.Active p) :
    ∃ inpipes, nnXsurveyorIn x p = .ok { x with inpipes := inpipes } ∧
      Xsurveyor.Wf { x with inpipes := inpipes } := by
  obtain ⟨inpipes, heq, hready, -⟩ := h.inpipes.activate hp hr hna
  exact ⟨inpipes, by rw [nnXsurveyorIn, heq]; rfl, h.pipes, hready, h.outpipes, h.inbox⟩

theorem nnXsurveyorOut_spec {x : Xsurveyor P} (h : x.Wf) {p : P} {pipe : Pipe}
    (hp : x.pipes p = some pipe) (hr : pipe.OutReady) (hm : p ∉ x.outpipes.pipes) :
    ∃ outpipes, nnXsurveyorOut x p = .ok { x with outpipes := outpipes } ∧
      Xsurveyor.Wf { x with outpipes := outpipes } := by
  obtain ⟨outpipes, heq, hready, -⟩ := h.outpipes.out hp hr hm
  exact ⟨outpipes, by rw [nnXsurveyorOut, heq]; rfl, h.pipes, h.inpipes, hready, h.inbox⟩

/-- A survey is sent; what has arrived is not touched. -/
theorem nnXsurveyorSend_spec {x : Xsurveyor P} (h : x.Wf) (msg : Msg) (sync : P → Bool) :
    ∃ x', nnXsurveyorSend x msg sync = .ok x' ∧ x'.Wf ∧ x'.inpipes = x.inpipes ∧
      DistSent x.outpipes.pipes x'.outpipes.pipes none msg x.pipes x'.pipes := by
  obtain ⟨outpipes, pipes', heq, hready, hsent⟩ := nnDistSend_spec h.pipes h.outpipes msg none sync
  refine ⟨{ x with outpipes := outpipes, pipes := pipes' }, by rw [nnXsurveyorSend, heq]; rfl,
    ⟨hsent.pipesWf h.pipes, ⟨h.inpipes.wf, fun p hp => ?_⟩, hready, fun p pipe' hp => ?_⟩, rfl,
      hsent⟩
  · obtain ⟨pipe, hpipe, hin⟩ := h.inpipes.ready p hp
    have hmap := hsent.inward p
    rw [hpipe] at hmap
    obtain ⟨pipe', hp', heq'⟩ := Option.map_eq_some_iff.1 hmap
    have hinbox := congrArg Prod.fst heq'
    have hraised := congrArg Prod.snd heq'
    simp only [Pipe.inward] at hinbox hraised
    exact ⟨pipe', hp', hinbox ▸ hin.1, hraised.trans hin.2⟩
  · have hmap := hsent.inward p
    simp only at hp
    rw [hp] at hmap
    obtain ⟨pipe, hpipe, heq'⟩ := Option.map_eq_some_iff.1 hmap.symm
    have hinbox := congrArg Prod.fst heq'
    simp only [Pipe.inward] at hinbox
    rw [← hinbox]
    exact h.inbox p pipe hpipe

/-- `nn_xsurveyor_recv` took the message `m` from the pipe `p`. -/
structure XsurveyorTaken (x : Xsurveyor P) (p : P) (m : Inbound) (x' : Xsurveyor P) : Prop where
  wf : x'.Wf
  inbox : ∃ pipe pipe', x.pipes p = some pipe ∧ x'.pipes p = some pipe' ∧
    pipe.inbox = m :: pipe'.inbox
  others : ∀ q ≠ p, x'.pipes q = x.pipes q
  pending_lt : pending x'.inpipes x'.pipes < pending x.inpipes x.pipes

theorem nnXsurveyorRecv_spec {x : Xsurveyor P} (h : x.Wf) :
    ((∀ p, ¬ x.inpipes.Active p) ∧ nnXsurveyorRecv x = .ok (.empty, x)) ∨
      ∃ p m x' g, XsurveyorTaken x p m x' ∧ m.split = .ok g ∧ g ≠ .empty ∧
        nnXsurveyorRecv x = .ok (g, x') := by
  rcases nnFqRecv_spec h.pipes h.inpipes with ⟨hnone, heq⟩ | ⟨p, pipe, m, rest, fq', pipe', ht, heq⟩
  · exact Or.inl ⟨hnone, by rw [nnXsurveyorRecv, heq]; rfl⟩
  · have hact : x.inpipes.Active p := by
      rcases h.inpipes.wf.getpipe with ⟨hn, -⟩ | ⟨q, hq, hqa⟩
      · rw [ht.next] at hn
        cases hn
      · rw [ht.next] at hq
        cases hq
        exact hqa
    have hin := h.inbox p pipe ht.attached
    rw [ht.inbox] at hin
    obtain ⟨g, hg, hne⟩ := Inbound.split_ok (hin m List.mem_cons_self)
    refine Or.inr ⟨p, m, { x with inpipes := fq', pipes := Function.update x.pipes p (some pipe') },
      g, ⟨⟨h.pipes.update p ht.wf, ht.ready, h.outpipes.update fun hm => ?_,
        inbox_update h.inbox ?_⟩,
        ⟨pipe, pipe', ht.attached, Function.update_self .., by rw [ht.inbox, ht.inbox']⟩,
        fun q hq => Function.update_of_ne hq .., ht.pending_lt h.inpipes.wf hact⟩, hg, hne, ?_⟩
    · have hout := h.outpipes.of_mem ht.attached hm
      exact ⟨ht.outstate.trans hout.1, ht.outRaised.trans hout.2⟩
    · rintro r ⟨⟩ m' hm'
      rw [ht.inbox'] at hm'
      exact hin m' (List.mem_cons_of_mem _ hm')
    · rw [nnXsurveyorRecv, heq, ok_bind]
      simp only [hg, ok_bind]
      rfl

/-- What is left to receive was there before. -/
theorem XsurveyorTaken.exists_of_mem {x x' : Xsurveyor P} {p : P} {m : Inbound}
    (h : XsurveyorTaken x p m x') {q : P} {pipe : Pipe} (hq : x'.pipes q = some pipe) {m' : Inbound}
    (hm : m' ∈ pipe.inbox) :
    ∃ pipe, x.pipes q = some pipe ∧ m' ∈ pipe.inbox := by
  by_cases hqp : q = p
  · subst hqp
    obtain ⟨pipe₀, pipe', hp, hp', hin⟩ := h.inbox
    rw [hq] at hp'
    cases hp'
    exact ⟨pipe₀, hp, by simp [hin, hm]⟩
  · exact ⟨pipe, h.others q hqp ▸ hq, hm⟩

end NanoSocket.Survey

import NanoSocket.Protocols.Fq

/-!
# Raw REQ sockets (`protocols/reqrep/xreq.c`)

A raw REQ socket gives requests to its load balancer and takes replies from its fair queue.  A reply
whose transport did not split off the SP header has its first four bytes moved into the header.

`Xreq.Wf` is the invariant of the socket's lists and pipes, and each function has one lemma that
says that it returns, keeps the invariant and has the expected effect.
-/

namespace NanoSocket.ReqRep

variable {P : Type} [DecidableEq P]

/-- `struct nn_xreq` and the pipes attached to it. -/
structure Xreq (P : Type) where
  lb : Priolist P
  fq : Priolist P
  pipes : P → Option Pipe

/-- `nn_xreq_init`. -/
def Xreq.init : Xreq P := { lb := .init, fq := .init, pipes := fun _ => none }

/-- `nn_xreq_add`, called by `nn_pipebase_start`. -/
def nnXreqAdd (self : Xreq P) (pipe : P) (sndprio rcvprio : Fin 16) : Xreq P :=
  { lb := self.lb.add pipe sndprio
    fq := self.fq.add pipe rcvprio
    pipes := Function.update self.pipes pipe (some nnPipebaseStart) }

/-- `nn_xreq_rm`. -/
def nnXreqRm (self : Xreq P) (pipe : P) : Xreq P :=
  { lb := self.lb.rm pipe
    fq := self.fq.rm pipe
    pipes := Function.update self.pipes pipe none }

/-- `nn_xreq_in`. -/
def nnXreqIn (self : Xreq P) (pipe : P) : Except Fault (Xreq P) :=
  return { self with fq := ← self.fq.activate pipe }

/-- `nn_xreq_out`. -/
def nnXreqOut (self : Xreq P) (pipe : P) : Except Fault (Xreq P) :=
  return { self with lb := ← self.lb.activate pipe }

/-- `nn_xreq_send_to`: the pipe that took the request, `none` being `-EAGAIN`. -/
def nnXreqSendTo (self : Xreq P) (msg : Msg) (sync : Bool) : Except Fault (Option P × Xreq P) := do
  let (pipe, lb, pipes) ← nnLbSend self.lb self.pipes msg sync
  return (pipe, { self with lb := lb, pipes := pipes })

/-- `nn_xreq_send`. -/
def nnXreqSend (self : Xreq P) (msg : Msg) (sync : Bool) := nnXreqSendTo self msg sync

/-- `nn_xreq_recv`. -/
def nnXreqRecv (self : Xreq P) : Except Fault (Got × Xreq P) := do
  let (r, fq, pipes) ← nnFqRecv self.fq self.pipes
  let self := { self with fq := fq, pipes := pipes }
  match r with
  | none => return (.empty, self)
  | some (_, m) => return (← m.split, self)

/-! ### The invariant -/

/-- The invariant of a raw REQ socket. -/
structure Xreq.Wf (x : Xreq P) : Prop where
  pipes : PipesWf x.pipes
  fq : Ready Pipe.InReady x.fq x.pipes
  lb : Ready Pipe.OutReady x.lb x.pipes
  inbox : ∀ p pipe, x.pipes p = some pipe → ∀ m ∈ pipe.inbox, m.Wf

omit [DecidableEq P] in
theorem Xreq.init_wf : (Xreq.init : Xreq P).Wf :=
  ⟨fun _ _ h => (nomatch h), ⟨Priolist.init_wf, fun p h => absurd h (Priolist.not_active_init p)⟩,
    ⟨Priolist.init_wf, fun p h => absurd h (Priolist.not_active_init p)⟩, fun _ _ h => (nomatch h)⟩

/-- Changing a pipe, with what its lists need to know about it. -/
theorem Xreq.Wf.update {x : Xreq P} (h : x.Wf) {p : P} {pipe : Pipe} (hwf : pipe.Wf)
    (hfq : x.fq.Active p → pipe.InReady) (hlb : x.lb.Active p → pipe.OutReady)
    (hin : ∀ m ∈ pipe.inbox, m.Wf) :
    Xreq.Wf { x with pipes := Function.update x.pipes p (some pipe) } := by
  refine ⟨h.pipes.update p hwf, h.fq.update hfq, h.lb.update hlb, fun q r hq => ?_⟩
  simp only at hq
  by_cases hqp : q = p
  · subst hqp
    rw [Function.update_self] at hq
    cases hq
    exact hin
  · rw [Function.update_of_ne hqp] at hq
    exact h.inbox q r hq

theorem nnXreqAdd_wf {x : Xreq P} (h : x.Wf) {p : P} (hp : x.pipes p = none)
    (sndprio rcvprio : Fin 16) :
    (nnXreqAdd x p sndprio rcvprio).Wf := by
  refine ⟨h.pipes.update p nnPipebaseStart_wf, h.fq.add hp _, h.lb.add hp _, fun q r hq => ?_⟩
  simp only [nnXreqAdd] at hq
  by_cases hqp : q = p
  · subst hqp
    rw [Function.update_self] at hq
    cases hq
    exact fun m hm => nomatch hm
  · rw [Function.update_of_ne hqp] at hq
    exact h.inbox q r hq

theorem nnXreqRm_wf {x : Xreq P} (h : x.Wf) (p : P) : (nnXreqRm x p).Wf := by
  refine ⟨h.pipes.remove p, h.fq.remove p, h.lb.remove p, fun q r hq => ?_⟩
  simp only [nnXreqRm] at hq
  by_cases hqp : q = p
  · subst hqp
    rw [Function.update_self] at hq
    cases hq
  · rw [Function.update_of_ne hqp] at hq
    exact h.inbox q r hq

theorem nnXreqIn_spec {x : Xreq P} (h : x.Wf) {p : P} {pipe : Pipe} (hp : x.pipes p = some pipe)
    (hr : pipe.InReady) (hna : ¬ x.fq.Active p) :
    ∃ fq, nnXreqIn x p = .ok { x with fq := fq } ∧ Xreq.Wf { x with fq := fq } ∧
      ∀ q, fq.Active q ↔ x.fq.Active q ∨ q = p := by
  obtain ⟨fq, heq, hready, hact⟩ := h.fq.activate hp hr hna
  exact ⟨fq, by simp [nnXreqIn, heq], ⟨h.pipes, hready, h.lb, h.inbox⟩, hact⟩

theorem nnXreqOut_spec {x : Xreq P} (h : x.Wf) {p : P} {pipe : Pipe} (hp : x.pipes p = some pipe)
    (hr : pipe.OutReady) (hna : ¬ x.lb.Active p) :
    ∃ lb, nnXreqOut x p = .ok { x with lb := lb } ∧ Xreq.Wf { x with lb := lb } ∧
      ∀ q, lb.Active q ↔ x.lb.Active q ∨ q = p := by
  obtain ⟨lb, heq, hready, hact⟩ := h.lb.activate hp hr hna
  exact ⟨lb, by simp [nnXreqOut, heq], ⟨h.pipes, h.fq, hready, h.inbox⟩, hact⟩

/-- `nn_xreq_send_to` gave the message to the pipe `p`. -/
structure XreqGiven (x : Xreq P) (msg : Msg) (p : P) (x' : Xreq P) : Prop where
  next : x.lb.getpipe = .ok (some p)
  outbox : ∃ pipe pipe', x.pipes p = some pipe ∧ x'.pipes p = some pipe' ∧
    pipe'.outbox = pipe.outbox ++ [msg]
  others : ∀ q ≠ p, x'.pipes q = x.pipes q

/-- Sending fails only when no pipe can send. -/
theorem nnXreqSendTo_spec {x : Xreq P} (h : x.Wf) (msg : Msg) (sync : Bool) :
    ((∀ p, ¬ x.lb.Active p) ∧ nnXreqSendTo x msg sync = .ok (none, x)) ∨
      ∃ p x', nnXreqSendTo x msg sync = .ok (some p, x') ∧ x'.Wf ∧ x'.fq = x.fq ∧
        (x'.pipes p).isSome ∧ (∀ q, (x'.pipes q).map Pipe.inward = (x.pipes q).map Pipe.inward) ∧
        XreqGiven x msg p x' := by
  rcases nnLbSend_spec h.pipes h.lb msg sync with ⟨hnone, heq⟩ | ⟨p, pipe, lb', pipe', hg, heq⟩
  · exact Or.inl ⟨hnone, by simp [nnXreqSendTo, heq]⟩
  · refine Or.inr ⟨p, { x with lb := lb', pipes := Function.update x.pipes p (some pipe') },
      by simp [nnXreqSendTo, heq], ⟨h.pipes.update p hg.wf, h.fq.update fun ha => ?_, hg.ready,
        fun q r hq => ?_⟩, rfl, by simp, fun q => ?_,
        ⟨hg.next, ⟨pipe, pipe', hg.attached, Function.update_self .., hg.outbox⟩,
          fun q hq => Function.update_of_ne hq ..⟩⟩
    · have hin := h.fq.of_active hg.attached ha
      exact ⟨hg.inbox ▸ hin.1, hg.inRaised.trans hin.2⟩
    · simp only at hq
      by_cases hqp : q = p
      · subst hqp
        rw [Function.update_self] at hq
        cases hq
        rw [hg.inbox]
        exact h.inbox q pipe hg.attached
      · rw [Function.update_of_ne hqp] at hq
        exact h.inbox q r hq
    · by_cases hqp : q = p
      · subst hqp
        simp [hg.attached, Pipe.inward, hg.inbox, hg.inRaised]
      · simp [hqp]

/-- `nn_xreq_recv` took the message `m` from the pipe `p`. -/
structure XreqTaken (x : Xreq P) (p : P) (m : Inbound) (x' : Xreq P) : Prop where
  wf : x'.Wf
  next : fqNext x.fq x.pipes = some (p, m)
  recv : nnFqRecv x.fq x.pipes = .ok (some (p, m), x'.fq, x'.pipes)
  active : x.fq.Active p
  inbox : ∃ pipe pipe', x.pipes p = some pipe ∧ x'.pipes p = some pipe' ∧
    pipe.inbox = m :: pipe'.inbox ∧ ∀ q, x'.fq.Active q ↔ x.fq.Active q ∧ (pipe'.inbox = [] → q ≠ p)
  others : ∀ q ≠ p, x'.pipes q = x.pipes q
  pending_lt : pending x'.fq x'.pipes < pending x.fq x.pipes
  lb : x'.lb = x.lb

theorem nnXreqRecv_spec {x : Xreq P} (h : x.Wf) :
    ((∀ p, ¬ x.fq.Active p) ∧ nnXreqRecv x = .ok (.empty, x)) ∨
      ∃ p m x' g, XreqTaken x p m x' ∧ m.split = .ok g ∧ g ≠ .empty ∧
        nnXreqRecv x = .ok (g, x') := by
  rcases nnFqRecv_spec h.pipes h.fq with ⟨hnone, heq⟩ | ⟨p, pipe, m, rest, fq', pipe', ht, heq⟩
  · exact Or.inl ⟨hnone, by simp [nnXreqRecv, heq]⟩
  · have hact : x.fq.Active p := by
      rcases h.fq.wf.getpipe with ⟨hn, -⟩ | ⟨q, hq, hqa⟩
      · rw [ht.next] at hn
        cases hn
      · rw [ht.next] at hq
        cases hq
        exact hqa
    have hin := h.inbox p pipe ht.attached
    rw [ht.inbox] at hin
    obtain ⟨g, hg, hne⟩ := Inbound.split_ok (hin m List.mem_cons_self)
    refine Or.inr ⟨p, m, { x with fq := fq', pipes := Function.update x.pipes p (some pipe') }, g,
      ⟨⟨h.pipes.update p ht.wf, ht.ready, h.lb.update fun ha => ?_, fun q r hq => ?_⟩, ht.fqNext,
        heq, hact,
        ⟨pipe, pipe', ht.attached, Function.update_self .., by rw [ht.inbox, ht.inbox'], ?_⟩,
        fun q hq => Function.update_of_ne hq .., ht.pending_lt h.fq.wf hact, rfl⟩,
      hg, hne, by simp [nnXreqRecv, heq, hg]⟩
    · have hout := h.lb.of_active ht.attached ha
      exact ⟨ht.outstate.trans hout.1, ht.outRaised.trans hout.2⟩
    · simp only at hq
      by_cases hqp : q = p
      · subst hqp
        rw [Function.update_self] at hq
        cases hq
        rw [ht.inbox']
        exact fun m hm => hin m (List.mem_cons_of_mem _ hm)
      · rw [Function.update_of_ne hqp] at hq
        exact h.inbox q r hq
    · rw [ht.inbox']
      exact ht.active_iff

theorem XreqTaken.attached {x x' : Xreq P} {p : P} {m : Inbound}
    (h : XreqTaken x p m x') (q : P) : (x'.pipes q).isSome = (x.pipes q).isSome := by
  by_cases hq : q = p
  · subst hq
    obtain ⟨pipe, pipe', hp, hp', -⟩ := h.inbox
    rw [hp, hp']
    rfl
  · rw [h.others q hq]

theorem XreqTaken.exists_of_mem {x x' : Xreq P} {p : P} {m : Inbound} (h : XreqTaken x p m x')
    {q : P} {pipe : Pipe} (hq : x'.pipes q = some pipe) {m' : Inbound} (hm : m' ∈ pipe.inbox) :
    ∃ pipe, x.pipes q = some pipe ∧ m' ∈ pipe.inbox := by
  by_cases hqp : q = p
  · subst hqp
    obtain ⟨pipe₀, pipe', hp, hp', hin, -⟩ := h.inbox
    rw [hq] at hp'
    cases hp'
    exact ⟨pipe₀, hp, by simp [hin, hm]⟩
  · exact ⟨pipe, h.others q hqp ▸ hq, hm⟩

/-- The pipe holds a message that nobody will come for: it is not in the fair queue, and no `IN`
event is under way. -/
def Xreq.Neglected (x : Xreq P) (p : P) : Prop :=
  ∃ pipe, x.pipes p = some pipe ∧ pipe.inbox ≠ [] ∧ pipe.inRaised = false ∧ ¬ x.fq.Active p

/-- A pipe with messages left stays in the fair queue. -/
theorem XreqTaken.neglected {x x' : Xreq P} {p : P} {m : Inbound} (h : XreqTaken x p m x') {q : P}
    (hn : x'.Neglected q) : x.Neglected q := by
  obtain ⟨pipe, hq, hne, hraised, hna⟩ := hn
  obtain ⟨pipe₀, pipe', hp, hp', hin, hact⟩ := h.inbox
  by_cases hqp : q = p
  · subst hqp
    rw [hq] at hp'
    cases hp'
    exact absurd ((hact q).2 ⟨h.active, fun hnil => absurd hnil hne⟩) hna
  · exact ⟨pipe, h.others q hqp ▸ hq, hne, hraised, fun ha => hna ((hact q).2 ⟨ha, fun _ => hqp⟩)⟩

/-! ### The messages at hand -/

theorem queueFrom_eq {x : Xreq P} (h : x.Wf) {n k : ℕ} (hn : pending x.fq x.pipes ≤ n)
    (hk : pending x.fq x.pipes ≤ k) : queueFrom n x.fq x.pipes = queueFrom k x.fq x.pipes := by
  induction n generalizing k x with
  | zero =>
    cases k with
    | zero => rfl
    | succ k =>
      rw [queueFrom, queueFrom]
      rcases nnXreqRecv_spec h with ⟨hnone, -⟩ | ⟨p, m, x', -, ht, -⟩
      · rw [nnFqRecv_of_not_active h.pipes h.fq hnone]
      · have := ht.pending_lt
        omega
  | succ n ih =>
    rcases nnXreqRecv_spec h with ⟨hnone, -⟩ | ⟨p, m, x', -, ht, -⟩
    · have heq := nnFqRecv_of_not_active h.pipes h.fq hnone
      cases k <;> simp [queueFrom, heq]
    · have hlt := ht.pending_lt
      obtain ⟨k, rfl⟩ : ∃ k', k = k' + 1 := ⟨k - 1, by omega⟩
      rw [queueFrom, queueFrom, ht.recv]
      simp only [List.cons.injEq, true_and]
      exact ih ht.wf (by omega) (by omega)

/-- The head of the queue is the message that `nn_xreq_recv` takes. -/
theorem XreqTaken.queue_eq {x x' : Xreq P} {p : P} {m : Inbound}
    (h : XreqTaken x p m x') (hwf : x.Wf) :
    queue x.fq x.pipes = m :: queue x'.fq x'.pipes := by
  have hlt := h.pending_lt
  rw [queue, queueFrom_eq hwf le_rfl (Nat.le_succ _), queueFrom, h.recv]
  simp only [List.cons.injEq, true_and]
  exact queueFrom_eq h.wf hlt.le le_rfl

theorem queue_eq_nil_iff {x : Xreq P} (h : x.Wf) :
    queue x.fq x.pipes = [] ↔ ∀ p, ¬ x.fq.Active p := by
  rcases nnXreqRecv_spec h with ⟨hnone, -⟩ | ⟨p, m, x', -, ht, -⟩
  · refine iff_of_true ?_ hnone
    rw [queue, queueFrom_eq h le_rfl (Nat.le_succ _), queueFrom,
      nnFqRecv_of_not_active h.pipes h.fq hnone]
  · refine iff_of_false ?_ fun hna => hna p ht.active
    simp [ht.queue_eq h]

/-- The queue holds messages of the attached pipes. -/
theorem exists_of_mem_queue {x : Xreq P} (h : x.Wf) {m : Inbound} (hm : m ∈ queue x.fq x.pipes) :
    ∃ p pipe, x.pipes p = some pipe ∧ m ∈ pipe.inbox := by
  generalize hn : pending x.fq x.pipes = n
  induction n using Nat.strong_induction_on generalizing x with
  | _ n ih =>
    rcases nnXreqRecv_spec h with ⟨hnone, -⟩ | ⟨p, m', x', -, ht, -⟩
    · rw [(queue_eq_nil_iff h).2 hnone] at hm
      cases hm
    · rw [ht.queue_eq h, List.mem_cons] at hm
      rcases hm with rfl | hm
      · obtain ⟨pipe, pipe', hp, -, hin, -⟩ := ht.inbox
        exact ⟨p, pipe, hp, by simp [hin]⟩
      · obtain ⟨q, pipe, hq, hin⟩ := ih _ (hn ▸ ht.pending_lt) ht.wf hm rfl
        exact ⟨q, ht.exists_of_mem hq hin⟩

end NanoSocket.ReqRep

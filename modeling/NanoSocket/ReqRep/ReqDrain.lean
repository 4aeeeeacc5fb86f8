import NanoSocket.ReqRep.ReqReply

/-!
# How REQ sockets drain their input

`nn_req_in` is called when a pipe raises its `IN` event, and a pipe raises it for the first message
that it holds.  A pipe that is left in the fair queue with a message therefore waits until another
pipe has an event.  The loop of `nn_req_in` ends at the first accepted or undersized message, also
when more messages are at hand; `req_in_drains_iff` says exactly when it leaves none behind.
-/

namespace NanoSocket.ReqRep

open Runs

variable {P : Type} [DecidableEq P]

/-- The message ends the loop of `nn_req_in`: it is undersized, or a reply to the current
request. -/
def Req.ends (r : Req P) (m : Inbound) : Bool :=
  match m.split with
  | .ok .malformed => true
  | .ok (.msg g) => r.Accepts g
  | _ => false

/-- Every pipe that holds a message has an `IN` event under way, and is not in the fair queue. -/
def Sock.Attended (s : Sock P) : Prop :=
  ∀ p pipe, s.req.xreq.pipes p = some pipe → pipe.inbox ≠ [] →
    pipe.inRaised = true ∧ ¬ s.req.xreq.fq.Active p

/-- A call of `nn_req_in` that empties the fair queue: none of the messages at hand but the last one
ends the loop. -/
def Sock.Empties (s : Sock P) : Event P → Prop
  | .pipeIn p => s.state = .active → ∀ m ∈ (s.offered p).dropLast, s.req.ends m = false
  | _ => True

/-! ### The loop -/

section Drains

variable {r r' : Req P}

theorem Drains.neglected (h : Drains r r') {q : P} (hn : r'.xreq.Neglected q) :
    r.xreq.Neglected q := by
  induction h with
  | empty => exact hn
  | malformed ht => exact ht.neglected hn
  | skip ht _ _ _ ih => exact ht.neglected (ih hn)
  | store ht => exact ht.neglected hn
  | deliver ht _ _ _ hf => exact ht.neglected (hf.neglected hn)

/-- The loop empties the fair queue exactly when none of the messages but the last one ends it. -/
theorem Drains.drained_iff (h : Drains r r') (hwf : r.xreq.Wf) :
    (∀ q, ¬ r'.xreq.fq.Active q) ↔
      ∀ m ∈ (queue r.xreq.fq r.xreq.pipes).dropLast, r.ends m = false := by
  -- a message that ends the loop is the last one when nothing is left behind
  have hend : ∀ {r : Req P} {p : P} {m : Inbound} {x : Xreq P}, r.xreq.Wf → XreqTaken r.xreq p m x →
      r.ends m = true → ((∀ q, ¬ x.fq.Active q) ↔
        ∀ m ∈ (queue r.xreq.fq r.xreq.pipes).dropLast, r.ends m = false) := by
    intro r p m x hwf ht hm
    rw [ht.queue_eq hwf, ← queue_eq_nil_iff ht.wf]
    cases queue x.fq x.pipes with
    | nil => simp
    | cons a l => simp [hm]
  induction h with
  | empty hnone => simp [(queue_eq_nil_iff hwf).2 hnone, hnone]
  | malformed ht hs => exact hend hwf ht (by simp [Req.ends, hs])
  | store ht hs ha => exact hend hwf ht (by simp [Req.ends, hs, ha])
  | deliver ht hs ha _ hf =>
    rw [← hend hwf ht (by simp [Req.ends, hs, ha]), hf.fq]
  | @skip r _ _ m x g ht hs hn _ ih =>
    have hm : r.ends m = false := by simp [Req.ends, hs, hn]
    refine (ih ht.wf).trans ?_
    rw [ht.queue_eq hwf]
    change (∀ m ∈ (queue x.fq x.pipes).dropLast, r.ends m = false) ↔ _
    cases queue x.fq x.pipes with
    | nil => simp
    | cons a l => simp [hm]

end Drains

/-! ### Whole runs -/

section Runs

variable {s s' : Sock P} {e : Event P} {a : Answer}

/-- No event makes an active socket neglect a pipe. -/
theorem Did.neglected (h : Did s e s' a) (ha : s'.state = .active) {q : P}
    (hn : s'.req.xreq.Neglected q) :
    s.req.xreq.Neglected q := by
  cases h with
  | quiet hk => exact hk.neglected ha q hn
  | @arrive p m pipe pipe' hp hin hir =>
    obtain ⟨r, hq, hne, hraised, hna⟩ := hn
    by_cases hqp : q = p
    · subst hqp
      simp only [Sock.setPipe, Function.update_self] at hq
      cases hq
      have hold : ¬ (pipe.inRaised = true ∨ pipe.inbox = []) := by
        rw [← hir, hraised]
        simp
      rw [not_or] at hold
      exact ⟨pipe, hp, hold.2, by simpa using hold.1, hna⟩
    · simp only [Sock.setPipe, Function.update_of_ne hqp] at hq
      exact ⟨r, hq, hne, hraised, hna⟩
  | csend _ hf => exact hf.neglected hn
  | crecv _ _ hf => exact hf.neglected hn
  | @pipeIn p pipe x r _ hp _ hact _ hpipes _ hd =>
    obtain ⟨pipe', hq, hne, hraised, hna⟩ := hd.neglected hn
    have hqp : q ≠ p := fun hqp => hna ((hact q).2 (Or.inr hqp))
    simp only [hpipes, Function.update_of_ne hqp] at hq
    exact ⟨pipe', hq, hne, hraised, fun ha => hna ((hact q).2 (Or.inl ha))⟩

theorem not_neglected_of_trace {lastid : UInt32} {es : List (Event P)}
    (h : Trace Sock.step Enabled (Sock.init lastid) es s) :
    s.Inv ∧ (s.state = .active → ∀ q, ¬ s.req.xreq.Neglected q) := by
  refine h.invariant (I := fun _ s => s.Inv ∧ (s.state = .active → ∀ q, ¬ s.req.xreq.Neglected q))
    ⟨Sock.init_inv lastid, fun _ q hn => ?_⟩ ?_
  · obtain ⟨pipe, hp, -⟩ := hn
    cases hp
  · intro es s e s' a hI he heq
    obtain ⟨hinv', hd⟩ := hI.1.did he heq
    exact ⟨hinv', fun ha q hn => hI.2 (hd.active ha) q (hd.neglected ha hn)⟩

omit [DecidableEq P] in
/-- Pipes are attended exactly when the fair queue is empty. -/
theorem Sock.attended_iff (hx : s.req.xreq.Wf) (hn : ∀ q, ¬ s.req.xreq.Neglected q) :
    s.Attended ↔ ∀ q, ¬ s.req.xreq.fq.Active q := by
  constructor
  · intro h q hq
    obtain ⟨pipe, hp, hne, -⟩ := hx.fq.ready q hq
    exact (h q pipe hp hne).2 hq
  · intro h p pipe hp hne
    refine ⟨?_, h p⟩
    by_contra hraised
    exact hn p ⟨pipe, hp, hne, by simpa using hraised, h p⟩

omit [DecidableEq P] in
theorem Sock.Inv.xreq_wf (h : s.Inv) (ha : s.state = .active) : s.req.xreq.Wf := by
  cases h with
  | running _ _ hwf => exact hwf.xreq
  | stopping hs => simp [hs] at ha
  | fini hs => simp [hs] at ha

/-- What one call of `nn_req_in` leaves in the fair queue. -/
theorem Did.drained_iff {p : P} (h : Did s (.pipeIn p) s' a) (ha : s.state = .active) :
    (∀ q, ¬ s'.req.xreq.fq.Active q) ↔ s.Empties (.pipeIn p) := by
  cases h with
  | quiet _ _ hnews => cases hnews ha
  | pipeIn _ hp _ _ hfq hpipes hx hd =>
    refine (hd.drained_iff hx).trans ?_
    simp only [Sock.queue_offered hp hfq hpipes]
    exact ⟨fun h _ => h, fun h => h ha⟩

theorem Did.fq_of_empties (h : Did s e s' a) (hem : s.Empties e)
    (hfq : ∀ q, ¬ s.req.xreq.fq.Active q) : ∀ q, ¬ s'.req.xreq.fq.Active q := by
  cases h with
  | quiet hk => exact fun q hq => hfq q (hk.fq q hq)
  | arrive => exact hfq
  | csend _ hf => exact fun q hq => hfq q (hf.fq ▸ hq)
  | crecv _ _ hf => exact fun q hq => hfq q (hf.fq ▸ hq)
  | pipeIn ha hp hin hact hfq' hpipes hx hd =>
    exact (Did.drained_iff (.pipeIn ha hp hin hact hfq' hpipes hx hd) ha).2 hem

end Runs

/-- In every reachable state of an active socket, a call of `nn_req_in` leaves no pipe in the fair
queue, and every pipe that holds a message with an `IN` event under way, exactly when none of the
messages at hand but the last one ends its loop.  In a run in which every call meets this condition,
that is so in every state. -/
theorem req_in_drains_iff (lastid : UInt32) :
    (∀ (es : List (Event P)) (s : Sock P), Trace Sock.step Enabled (Sock.init lastid) es s →
      ∀ p, Enabled s (.pipeIn p) → s.state = .active →
      ∃ s', s.step (.pipeIn p) = .ok (s', .none) ∧ (s'.Attended ↔ s.Empties (.pipeIn p))) ∧
    ∀ (es : List (Event P)) (s : Sock P),
      Trace Sock.step (fun s e => Enabled s e ∧ s.Empties e) (Sock.init lastid) es s →
      s.state = .active → s.Attended := by
  constructor
  · intro es s h p he ha
    obtain ⟨hinv, hn⟩ := not_neglected_of_trace h
    obtain ⟨s', a, heq, hinv', hd⟩ := hinv.step he fun hr => by
      obtain ⟨-, _, _, h, -⟩ := hr
      cases h
    have ha' : s'.state = .active ∧ a = .none := by
      cases hd with
      | quiet _ _ hnews => cases hnews ha
      | pipeIn => exact ⟨ha, rfl⟩
    refine ⟨s', ha'.2 ▸ heq, ?_⟩
    rw [Sock.attended_iff (hinv'.xreq_wf ha'.1) fun q hq => hn ha q (hd.neglected ha'.1 hq)]
    exact hd.drained_iff ha
  · intro es s h ha
    obtain ⟨hinv, hn⟩ := not_neglected_of_trace (h.mono fun _ _ h => h.1)
    rw [Sock.attended_iff (hinv.xreq_wf ha) (hn ha)]
    have hI := h.invariant (I := fun _ s => s.Inv ∧ ∀ q, ¬ s.req.xreq.fq.Active q)
      ⟨Sock.init_inv lastid, Priolist.not_active_init⟩ fun _ _ _ _ _ hI he heq =>
        ⟨(hI.1.did he.1 heq).1, (hI.1.did he.1 heq).2.fq_of_empties he.2 hI.2⟩
    exact hI.2

/-- A request, and a stale and a current reply to it that wait in one pipe. -/
def staleFirstRun : List (Event (Fin 1)) :=
  [.add 0 1 1, .pipeOut 0 true, .csend ⟨[], [], [1]⟩ true, .runTask true,
    .arrive 0 { msg := ⟨[], [], [0x80, 0, 0, 7, 4]⟩, parsed := false }, .arrive 0 (replyTo8 2)]

theorem staleFirstRun_returns :
    (runWhile Sock.step Enabled (Sock.init 7) staleFirstRun).isSome := by decide

theorem req_in_drains_stale_first :
    ∃ s s' : Sock (Fin 1), Trace Sock.step Enabled (Sock.init 7) staleFirstRun s ∧
      s.step (.pipeIn 0) = .ok (s', .none) ∧ s'.Attended := by
  have htr := Trace.of_runWhile staleFirstRun_returns
  obtain ⟨s', heq, hiff⟩ := (req_in_drains_iff 7).1 staleFirstRun _ htr 0 (by decide) (by decide)
  refine ⟨_, s', htr, heq, hiff.2 fun _ => ?_⟩
  decide

/-- The same with the current reply first. -/
def currentFirstRun : List (Event (Fin 1)) :=
  [.add 0 1 1, .pipeOut 0 true, .csend ⟨[], [], [1]⟩ true, .runTask true, .arrive 0 (replyTo8 2),
    .arrive 0 { msg := ⟨[], [], [0x80, 0, 0, 7, 4]⟩, parsed := false }]

theorem currentFirstRun_returns :
    (runWhile Sock.step Enabled (Sock.init 7) currentFirstRun).isSome := by decide

/-- The loop ends at the accepted reply, and the pipe stays in the fair queue with the other one. -/
theorem req_in_leaves_pipe :
    ¬ ∀ (es : List (Event (Fin 1))) (s s' : Sock (Fin 1)) (p : Fin 1),
      Trace Sock.step Enabled (Sock.init 7) es s → s.state = .active →
      s.step (.pipeIn p) = .ok (s', .none) →
      ∀ q pipe, s'.req.xreq.pipes q = some pipe → pipe.inbox ≠ [] → ¬ s'.req.xreq.fq.Active q := by
  intro h
  have hne := h currentFirstRun _ _ 0 (Trace.of_runWhile currentFirstRun_returns) (by decide) rfl
    0 _ rfl (by decide)
  exact hne (by decide)

end NanoSocket.ReqRep

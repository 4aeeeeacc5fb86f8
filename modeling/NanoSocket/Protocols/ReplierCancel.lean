import NanoSocket.Protocols.Replier

/-!
# A receive cancels the pending request (`reqrep/rep.c`, `survey/respondent.c`)

`Replier` keeps the bytes of the backtrace.  In the source the backtrace is a chunk reference,
initialised while `NN_REP_INPROGRESS` is set and at no other time: a send moves it away, and a
receive terminates it before it asks the raw socket for a message.  `HeldReplier` is the socket with
the chunk reference, and `Replier.held` the view of a `Replier` as one; the calls of the two are the
same (`step_held`).

`failed_receive_cancels` is the result: a receive without a message leaves no pending request
behind, so that every send fails until another receive returns a message.
-/

namespace NanoSocket

open Runs

variable {P : Type} [DecidableEq P]

/-- `struct nn_rep`: the backtrace is `none` where the chunk reference is not initialised. -/
structure HeldReplier (P : Type) where
  router : Router P
  inprogress : Bool
  backtrace : Option (List UInt8)

/-- The content of an initialised chunk reference. -/
def initialised (ref : Option (List UInt8)) : Except Fault (List UInt8) :=
  match ref with
  | some bytes => .ok bytes
  | none => .error .outOfBounds

namespace HeldReplier

/-- `nn_rep_init` clears the flags and leaves the backtrace alone. -/
def init (nextKey : UInt32) : HeldReplier P :=
  { router := .init nextKey, inprogress := false, backtrace := none }

/-- `nn_rep_send` over the raw send. -/
def send (raw : Router P → Msg → Bool → Except Fault (Router P)) (self : HeldReplier P) (msg : Msg)
    (sync : Bool) : Except Fault (Option Errno × HeldReplier P) :=
  if !self.inprogress then .ok (some .efsm, self)
  else do
    nnAssert (msg.sphdr = [])
    -- `nn_chunkref_mv` leaves its source uninitialised
    let msg := { msg with sphdr := ← initialised self.backtrace }
    let self := { self with backtrace := none, inprogress := false }
    return (none, { self with router := ← raw self.router msg sync })

/-- If a request is already being processed, its backtrace is terminated. -/
def cancel (self : HeldReplier P) : Except Fault (HeldReplier P) :=
  if self.inprogress then do
    let _ ← initialised self.backtrace
    return { self with backtrace := none, inprogress := false }
  else .ok self

/-- `nn_rep_recv` over the raw receive. -/
def recv (raw : Router P → Except Fault (Got × Router P)) (self : HeldReplier P) :
    Except Fault (Except Errno Msg × HeldReplier P) := do
  let self ← self.cancel
  let (got, router) ← raw self.router
  let self := { self with router := router }
  match got with
  | .msg msg =>
    return (.ok { msg with sphdr := [] },
      { self with backtrace := some msg.sphdr, inprogress := true })
  | _ => return (.error .eagain, self)

/-- An event happens. -/
def step (proto : Proto) (s : HeldReplier P) : RouterEvent P → Except Fault (HeldReplier P × Answer)
  | .send msg sync => do
    let (rc, s) ← match proto with
      | .rep => s.send nnXrepSend msg sync
      | .respondent => s.send nnXrespondentSend msg sync
    return (s, .code rc)
  | .recv => do
    let (r, s) ← match proto with
      | .rep => s.recv nnXrepRecv
      | .respondent => s.recv nnXrespondentRecv
    match r with
    | .ok msg => return (s, .recv (some msg))
    | .error e => return (s, .code (some e))
  | e => do
    let (router, a) ← s.router.step proto e
    return ({ s with router := router }, a)

/-- The messages handed to a pipe. -/
def outbox (s : HeldReplier P) (p : P) : Option (List Msg) := (s.router.pipes p).map Pipe.outbox

end HeldReplier

/-! ### The chunk reference and the bytes -/

/-- The socket with its backtrace as a chunk reference. -/
def Replier.held (s : Replier P) : HeldReplier P :=
  { router := s.router, inprogress := s.inprogress,
    backtrace := if s.inprogress then some s.backtrace else none }

section Held

variable {s : Replier P}

omit [DecidableEq P] in
theorem Replier.held_of_none (h : s.inprogress = false) : s.held = ⟨s.router, false, none⟩ := by
  simp [Replier.held, h]

omit [DecidableEq P] in
theorem Replier.held_of_some (h : s.inprogress = true) :
    s.held = ⟨s.router, true, some s.backtrace⟩ := by
  simp [Replier.held, h]

/-- The same answer, and the state as the other socket has it. -/
def Replier.seen {β : Type} (r : Except Fault (β × Replier P)) : Except Fault (β × HeldReplier P) :=
  r.map fun x => (x.1, x.2.held)

omit [DecidableEq P] in
theorem Replier.send_held (raw : Router P → Msg → Bool → Except Fault (Router P)) (s : Replier P)
    (msg : Msg) (sync : Bool) : s.held.send raw msg sync = Replier.seen (s.send raw msg sync) := by
  cases hp : s.inprogress with
  | false =>
    rw [Replier.held_of_none hp]
    simp [HeldReplier.send, Replier.send, Replier.seen, Except.map, hp, Replier.held_of_none hp]
  | true =>
    rw [Replier.held_of_some hp]
    by_cases hmsg : msg.sphdr = []
    · cases hraw : raw s.router { msg with sphdr := s.backtrace } sync <;>
        simp [HeldReplier.send, Replier.send, Replier.seen, Except.map, initialised, Replier.held,
          nnAssert, hp, hmsg, hraw]
    · simp [HeldReplier.send, Replier.send, Replier.seen, Except.map, nnAssert, hp, hmsg]

omit [DecidableEq P] in
theorem Replier.recv_held (raw : Router P → Except Fault (Got × Router P)) (s : Replier P) :
    s.held.recv raw = Replier.seen (s.recv raw) := by
  have hcancel : s.held.cancel = .ok ⟨s.router, false, none⟩ := by
    cases hp : s.inprogress with
    | false => rw [Replier.held_of_none hp]; rfl
    | true => rw [Replier.held_of_some hp]; rfl
  rw [HeldReplier.recv, hcancel, ok_bind]
  cases hraw : raw s.router with
  | error e => simp [Replier.recv, Replier.seen, Except.map, hraw]
  | ok r =>
    obtain ⟨got, router⟩ := r
    cases got <;> simp [Replier.recv, Replier.seen, Except.map, Replier.held, hraw]

omit [DecidableEq P] in
theorem Replier.seen_eq_ok {β : Type} {r : Except Fault (β × Replier P)} {b : β} {t : HeldReplier P}
    (h : Replier.seen r = .ok (b, t)) : ∃ s', r = .ok (b, s') ∧ t = s'.held := by
  cases r with
  | error e => cases h
  | ok x =>
    cases h
    exact ⟨x.2, rfl, rfl⟩

/-- The two sockets take the same steps. -/
theorem Replier.step_held {proto : Proto} {e : RouterEvent P} {t : HeldReplier P} {b : Answer}
    (h : s.held.step proto e = .ok (t, b)) : ∃ s', s.step proto e = .ok (s', b) ∧ t = s'.held := by
  cases e with
  | send msg sync =>
    cases proto
    all_goals
      obtain ⟨⟨rc, t'⟩, hsend, hpair⟩ := bind_eq_ok.1 h
      cases hpair
      rw [Replier.send_held] at hsend
      obtain ⟨s', hsend', rfl⟩ := Replier.seen_eq_ok hsend
      exact ⟨s', by simp [Replier.step, nnRepSend, nnRespondentSend, hsend'], rfl⟩
  | recv =>
    cases proto
    all_goals
      obtain ⟨⟨r, t'⟩, hrecv, hpair⟩ := bind_eq_ok.1 h
      rw [Replier.recv_held] at hrecv
      obtain ⟨s', hrecv', rfl⟩ := Replier.seen_eq_ok hrecv
      cases r
      all_goals
        cases hpair
        exact ⟨s', by simp [Replier.step, nnRepRecv, nnRespondentRecv, hrecv'], rfl⟩
  | _ =>
    -- the events of pipes change the raw socket alone
    obtain ⟨⟨router, c⟩, hstep, hpair⟩ := bind_eq_ok.1 h
    cases hpair
    exact ⟨{ s with router := router }, by rw [Replier.step_pipe rfl]; exact bind_eq_ok.2 ⟨_,
      hstep, rfl⟩, rfl⟩

/-- A run of the socket with the chunk reference, with the request that waits at its end. -/
theorem HeldReplier.exists_track {proto : Proto} {nextKey : UInt32} {es : List (RouterEvent P)}
    {t : HeldReplier P}
    (h : Trace (HeldReplier.step proto) (fun t e => t.router.Enabled e) (.init nextKey) es t) :
    ∃ s pend, Trace (Replier.track proto) (fun s e => s.1.router.Enabled e)
      (Replier.init nextKey, .none) es
      (s, pend) ∧ t = s.held := by
  have hstep : ∀ (s : Replier P × Pending P) e t b, s.1.held.step proto e = .ok (t, b) →
      ∃ s', Replier.track proto s e = .ok (s', b) ∧ t = s'.1.held := by
    intro s e t b heq
    obtain ⟨s', heq', rfl⟩ := Replier.step_held heq
    exact ⟨(s', s.2.next s.1 e), by simp [Replier.track, heq'], rfl⟩
  obtain ⟨⟨s, pend⟩, hrun, hs⟩ := Trace.exists_of_view (fun s : Replier P × Pending P => s.1.held)
    (Replier.init nextKey, .none) (P := fun s e => s.1.router.Enabled e) (fun _ _ he => he) hstep h
  exact ⟨s, pend, hrun, hs⟩

end Held

/-! ### The receive without a message -/

/-- An event that gives the user no message. -/
def HeldReplier.Quiet (proto : Proto) (s : HeldReplier P) (e : RouterEvent P) : Prop :=
  s.router.Enabled e ∧ ∀ s' msg, s.step proto e ≠ .ok (s', .recv (some msg))

section Cancel

variable {proto : Proto} {s s' : HeldReplier P}

/-- Sending without a pending request. -/
theorem HeldReplier.step_send_none (proto : Proto) (h : s.inprogress = false)
    (msg : Msg) (sync : Bool) :
    s.step proto (.send msg sync) = .ok (s, .code (some .efsm)) := by
  cases proto <;> simp [HeldReplier.step, HeldReplier.send, h]

omit [DecidableEq P] in
/-- A receive returns a message or leaves no request pending. -/
theorem HeldReplier.recv_cases {raw : Router P → Except Fault (Got × Router P)}
    {r : Except Errno Msg} (h : s.recv raw = .ok (r, s')) :
    (∃ msg, r = .ok msg) ∨ s'.inprogress = false := by
  obtain ⟨t, ht, hraw⟩ := bind_eq_ok.1 h
  have hp : t.inprogress = false := by
    rw [HeldReplier.cancel] at ht
    split_ifs at ht with hs
    · obtain ⟨bytes, -, hpair⟩ := bind_eq_ok.1 ht
      cases hpair
      rfl
    · cases ht
      simpa using hs
  obtain ⟨⟨got, router⟩, -, hgot⟩ := bind_eq_ok.1 hraw
  cases got with
  | msg msg =>
    cases hgot
    exact Or.inl ⟨_, rfl⟩
  | _ =>
    cases hgot
    exact Or.inr hp

/-- Where a receive leaves no request waiting. -/
theorem Replier.next_of_none {s : Replier P} {pend : Pending P} (hwf : s.router.Wf)
    (h : pend.next s .recv = .none) : s.router.next = none ∨
      ∃ p m, s.router.next = some (p, m) ∧ Router.split s.router.maxttl m = .ok .malformed := by
  rcases hwf.recv with ⟨hnone, -⟩ | ⟨p, m, d, g, pipe, pipe', x', hnext, -, hg, hne, -⟩
  · exact Or.inl hnone
  · cases g with
    | empty => exact absurd rfl hne
    | malformed => exact Or.inr ⟨p, m, hnext, hg⟩
    | msg g => simp [Pending.next, hnext, hg] at h

/-- No event but a message that is received makes a request pending. -/
theorem HeldReplier.Quiet.step {e : RouterEvent P} {b : Answer} (h : s.Quiet proto e)
    (hp : s.inprogress = false) (heq : s.step proto e = .ok (s', b)) : s'.inprogress = false := by
  cases e with
  | send msg sync =>
    rw [HeldReplier.step_send_none proto hp] at heq
    cases heq
    exact hp
  | recv =>
    have hquiet := h.2
    cases proto
    all_goals
      obtain ⟨⟨r, t⟩, hrecv, hpair⟩ := bind_eq_ok.1 heq
      rcases HeldReplier.recv_cases hrecv with ⟨msg, rfl⟩ | hnone
      · cases hpair
        exact absurd heq (hquiet _ _)
      · cases r
        all_goals
          cases hpair
          exact hnone
  | _ =>
    obtain ⟨⟨router, c⟩, -, hpair⟩ := bind_eq_ok.1 heq
    cases hpair
    exact hp

/-- Until a receive returns a message, no request is pending. -/
theorem HeldReplier.inprogress_of_quiet {fs : List (RouterEvent P)} {t : HeldReplier P}
    (hp : s.inprogress = false)
    (h : Trace (HeldReplier.step proto) (HeldReplier.Quiet proto) s fs t) : t.inprogress = false :=
  h.invariant (I := fun _ t => t.inprogress = false) hp fun _ _ _ _ _ ht hq heq => hq.step ht heq

end Cancel

/-- In every reachable state, a receive that returns `-EAGAIN` found no message or a malformed one.
It leaves no request pending and its backtrace terminated, so that it changes neither exactly when
no request was pending; and until a receive returns a message, every send returns `-EFSM` and
changes nothing. -/
theorem failed_receive_cancels (proto : Proto) (nextKey : UInt32) (es : List (RouterEvent P))
    (s s' : HeldReplier P)
    (h : Trace (HeldReplier.step proto) (fun s e => s.router.Enabled e) (.init nextKey) es s)
    (hrecv : s.step proto .recv = .ok (s', .code (some .eagain))) :
    (s.router.next = none ∨
      ∃ p m, s.router.next = some (p, m) ∧ Router.split s.router.maxttl m = .ok .malformed) ∧
    (s'.inprogress = false ∧ s'.backtrace = none) ∧
    ((s'.inprogress = s.inprogress ∧ s'.backtrace = s.backtrace) ↔ s.inprogress = false) ∧
    ∀ fs t, Trace (HeldReplier.step proto) (HeldReplier.Quiet proto) s' fs t →
      ∀ msg sync, t.step proto (.send msg sync) = .ok (t, .code (some .efsm)) := by
  obtain ⟨s₀, pend, hrun, rfl⟩ := HeldReplier.exists_track h
  obtain ⟨hwf, -, -⟩ := Replier.inv_of_trace hrun
  obtain ⟨s₁, hrecv', rfl⟩ := Replier.step_held hrecv
  obtain ⟨s₂, b, heq, -, -, hout⟩ := Replier.step_recv hwf proto pend
  rw [hrecv'] at heq
  cases heq
  rcases hout with ⟨p, m, g, d, -, -, -, hans, -⟩ | ⟨-, hnone, hnext⟩
  · cases hans
  · refine ⟨Replier.next_of_none hwf hnext, ?_, ?_, fun fs t hquiet msg sync => ?_⟩
    · rw [Replier.held_of_none hnone]
      exact ⟨rfl, rfl⟩
    · rw [Replier.held_of_none hnone]
      constructor
      · rintro ⟨hp, -⟩
        exact hp.symm
      · intro hp
        rw [Replier.held_of_none hp]
        exact ⟨rfl, rfl⟩
    · exact HeldReplier.step_send_none proto (HeldReplier.inprogress_of_quiet hnone hquiet) msg sync

unseal Router.headerWords in
theorem heldRun_returns :
    (runWhile (HeldReplier.step .rep) (fun s e => s.router.Enabled e) (.init 3)
      requestRun).isSome := by
  decide

/-- Where the run with the request ends. -/
def heldEnd : HeldReplier (Fin 2) :=
  (runWhile (HeldReplier.step .rep) (fun s e => s.router.Enabled e) (.init 3) requestRun).get
    heldRun_returns

unseal Router.headerWords in
theorem failed_receive_cancels_request :
    ∃ s', heldEnd.step .rep .recv = .ok (s', .code (some .eagain)) ∧ s'.inprogress = false ∧
      s'.backtrace = none ∧
      s'.step .rep (.send ⟨[], [], [7]⟩ true) = .ok (s', .code (some .efsm)) := by
  obtain ⟨s', hrecv⟩ : ∃ s', heldEnd.step .rep .recv = .ok (s', .code (some .eagain)) :=
    exists_of_answer (by decide)
  have h :=
    failed_receive_cancels .rep 3 requestRun heldEnd s' (Trace.of_runWhile heldRun_returns) hrecv
  obtain ⟨-, ⟨hp, hback⟩, -, hsend⟩ := h
  exact ⟨s', hrecv, hp, hback, hsend [] s' .nil _ _⟩

/-- What the user and the first pipe see of a state. -/
def HeldReplier.shown (s : HeldReplier (Fin 2)) : Bool × Option (List UInt8) × Option (List Msg) :=
  (s.inprogress, s.backtrace, s.outbox 0)

unseal Router.headerWords in
/-- The request is pending and a reply would reach its pipe, but after a receive without a message
the backtrace is gone and the same reply is refused. -/
theorem failed_receive_forgets :
    ∃ s s' t, Trace (HeldReplier.step .rep) (fun s e => s.router.Enabled e) (.init 3) requestRun s ∧
      s.shown = (true, some [0, 0, 0, 3, 0, 0, 0, 5, 0x80, 0, 0, 9], some []) ∧
      s.step .rep (.send ⟨[], [], [7]⟩ true) = .ok (t, .code none) ∧
      t.outbox 0 = some [⟨[0, 0, 0, 5, 0x80, 0, 0, 9], [], [7]⟩] ∧
      s.step .rep .recv = .ok (s', .code (some .eagain)) ∧ s'.shown = (false, none, some []) ∧
      s'.step .rep (.send ⟨[], [], [7]⟩ true) = .ok (s', .code (some .efsm)) := by
  have hrun := Trace.of_runWhile heldRun_returns
  obtain ⟨⟨t, a⟩, hsend, ht⟩ :
    ∃ r, (heldEnd.step .rep (.send ⟨[], [], [7]⟩ true)).toOption = some r ∧
      (r.2, r.1.outbox 0) = (.code none, some [⟨[0, 0, 0, 5, 0x80, 0, 0, 9], [], [7]⟩]) :=
    Option.map_eq_some_iff.1 (by decide)
  obtain ⟨⟨s', b⟩, hrecv, hs'⟩ : ∃ r, (heldEnd.step .rep .recv).toOption = some r ∧
      (r.2, r.1.shown) = (.code (some .eagain), (false, none, some [])) :=
    Option.map_eq_some_iff.1 (by decide)
  obtain ⟨rfl, ht⟩ := Prod.mk.inj ht
  obtain ⟨rfl, hs'⟩ := Prod.mk.inj hs'
  refine ⟨heldEnd, s', t, hrun, by decide, eq_ok_of_toOption hsend, ht,
    eq_ok_of_toOption hrecv, hs', ?_⟩
  exact HeldReplier.step_send_none .rep (congrArg Prod.fst hs') _ _

end NanoSocket

import NanoSocket.Protocols.RouterKeys

/-!
# REP and RESPONDENT sockets (`reqrep/rep.c`, `survey/respondent.c`)

A cooked socket keeps the backtrace of the last request it gave to the user, key first, and puts it
before the reply.  The two files differ in the raw functions that they call.

`Pending` says, from the events alone, which request waits for its reply and whether its pipe was
removed.  `reply_routing` is the result: a reply goes to the pipe of the pending request with the
header that came with the request, or nowhere.
-/

namespace NanoSocket

open Runs

variable {P : Type} [DecidableEq P]

/-- `struct nn_rep`: the flag `NN_REP_INPROGRESS` and the backtrace. -/
structure Replier (P : Type) where
  router : Router P
  inprogress : Bool
  backtrace : List UInt8

namespace Replier

/-- `nn_rep_init`. -/
def init (nextKey : UInt32) : Replier P :=
  { router := .init nextKey, inprogress := false, backtrace := [] }

/-- `nn_rep_send` over the raw send: `none` or an error code. -/
def send (raw : Router P → Msg → Bool → Except Fault (Router P)) (self : Replier P) (msg : Msg)
    (sync : Bool) : Except Fault (Option Errno × Replier P) :=
  -- if no request was received, there's nowhere to send the reply to
  if !self.inprogress then .ok (some .efsm, self)
  else do
    nnAssert (msg.sphdr = [])
    let msg := { msg with sphdr := self.backtrace }
    let self := { self with inprogress := false }
    return (none, { self with router := ← raw self.router msg sync })

/-- `nn_rep_recv` over the raw receive. -/
def recv (raw : Router P → Except Fault (Got × Router P)) (self : Replier P) :
    Except Fault (Except Errno Msg × Replier P) := do
  -- if a request is already being processed, cancel it
  let self := { self with inprogress := false }
  let (got, router) ← raw self.router
  let self := { self with router := router }
  match got with
  | .msg msg =>
    return (.ok { msg with sphdr := [] }, { self with backtrace := msg.sphdr, inprogress := true })
  | _ => return (.error .eagain, self)

end Replier

/-- `nn_rep_send`. -/
def nnRepSend (self : Replier P) (msg : Msg) (sync : Bool) := self.send nnXrepSend msg sync

/-- `nn_rep_recv`. -/
def nnRepRecv (self : Replier P) := self.recv nnXrepRecv

/-- `nn_respondent_send`. -/
def nnRespondentSend (self : Replier P) (msg : Msg) (sync : Bool) :=
  self.send nnXrespondentSend msg sync

/-- `nn_respondent_recv`. -/
def nnRespondentRecv (self : Replier P) := self.recv nnXrespondentRecv

namespace Replier

/-- An event happens. The events of pipes go to the raw socket. -/
def step (proto : Proto) (s : Replier P) : RouterEvent P → Except Fault (Replier P × Answer)
  | .send msg sync => do
    let (rc, s) ← match proto with
      | .rep => nnRepSend s msg sync
      | .respondent => nnRespondentSend s msg sync
    return (s, .code rc)
  | .recv => do
    let (r, s) ← match proto with
      | .rep => nnRepRecv s
      | .respondent => nnRespondentRecv s
    match r with
    | .ok msg => return (s, .recv (some msg))
    | .error e => return (s, .code (some e))
  | e => do
    let (router, a) ← s.router.step proto e
    return ({ s with router := router }, a)

/-- The messages handed to a pipe. -/
def outbox (s : Replier P) (p : P) : Option (List Msg) := (s.router.pipes p).map Pipe.outbox

/-- The pipe has the flag `NN_XREP_OUT`. -/
def CanSend (s : Replier P) (p : P) : Prop := ∃ d, s.router.data p = some d ∧ d.out = true

end Replier

/-! ### The pending request -/

/-- The request that waits for its reply: none, one whose pipe was removed, or one from the pipe `p`
with the header `hdr`. -/
inductive Pending (P : Type)
  | none
  | gone
  | request (p : P) (hdr : List UInt8)
  deriving DecidableEq, Repr

/-- The request that waits after an event. -/
def Pending.next (s : Replier P) (pend : Pending P) : RouterEvent P → Pending P
  | .recv =>
    match s.router.next with
    | some (p, m) =>
      match Router.split s.router.maxttl m with
      | .ok (.msg g) => .request p g.sphdr
      | _ => .none
    | _ => .none
  | .send _ _ => .none
  | .rm p =>
    match pend with
    | .request q hdr => if q = p then .gone else .request q hdr
    | pend => pend
  | _ => pend

/-- A socket together with its pending request. -/
def Replier.track (proto : Proto) (s : Replier P × Pending P) (e : RouterEvent P) :
    Except Fault ((Replier P × Pending P) × Answer) := do
  let (s', a) ← s.1.step proto e
  return ((s', s.2.next s.1 e), a)

/-- What the socket stores for the pending request. -/
def Replier.Stores (nextKey : UInt32) (a : Additions P) (s : Replier P) : Pending P → Prop
  | .none => s.inprogress = false
  | .gone => s.inprogress = true ∧ ∃ j hdr, j < a.count ∧
      s.backtrace = nnPutl (keyOf nextKey j) ++ hdr ∧
      ∀ q d, s.router.data q = some d → a.number q ≠ j
  | .request p hdr => s.inprogress = true ∧ ∃ d, s.router.data p = some d ∧
      s.backtrace = nnPutl d.key ++ hdr

section Send

variable {s : Replier P}

/-- Sending without a pending request. -/
theorem Replier.step_send_none (proto : Proto) (h : s.inprogress = false)
    (msg : Msg) (sync : Bool) :
    s.step proto (.send msg sync) = .ok (s, .code (some .efsm)) := by
  cases proto <;> simp [Replier.step, nnRepSend, nnRespondentSend, Replier.send, h]

theorem Replier.step_send {proto : Proto} (h : s.inprogress = true) {msg : Msg}
    (hmsg : msg.sphdr = []) {sync : Bool} {x : Router P}
    (hx : s.router.send { msg with sphdr := s.backtrace } sync = .ok x) :
    s.step proto (.send msg sync) = .ok ({ s with inprogress := false, router := x },
      .code none) := by
  cases proto <;>
    simp [Replier.step, nnRepSend, nnRespondentSend, Replier.send, h, hmsg, nnAssert, nnXrepSend,
      nnXrespondentSend, hx]

theorem Replier.step_send_header (proto : Proto) (h : s.inprogress = true) {msg : Msg}
    (hmsg : msg.sphdr ≠ []) (sync : Bool) :
    s.step proto (.send msg sync) = .error .assertFailed := by
  cases proto <;>
    simp [Replier.step, nnRepSend, nnRespondentSend, Replier.send, h, nnAssert_of_not hmsg]

/-- Receiving: the message and its pipe, or `-EAGAIN`. -/
theorem Replier.step_recv (hwf : s.router.Wf) (proto : Proto) (pend : Pending P) :
    ∃ s' a, s.step proto .recv = .ok (s', a) ∧ s'.router.Wf ∧ Router.Same s.router s'.router ∧
      ((∃ p m g d, s.router.next = some (p, m) ∧ Router.split s.router.maxttl m = .ok (.msg g) ∧
          s.router.data p = some d ∧ a = .recv (some { g with sphdr := [] }) ∧
            s'.inprogress = true ∧
          s'.backtrace = nnPutl d.key ++ g.sphdr ∧ pend.next s .recv = .request p g.sphdr) ∨
        a = .code (some .eagain) ∧ s'.inprogress = false ∧ pend.next s .recv = .none) := by
  rcases hwf.recv with
    ⟨hnone, heq⟩ | ⟨p, m, d, g, pipe, pipe', x', hnext, hd, hg, hne, heq, hwf', hkey,
      hdata, -⟩
  · refine ⟨{ s with inprogress := false }, .code (some .eagain), ?_, hwf, .refl _,
      Or.inr ⟨rfl, rfl, by simp [Pending.next, hnone]⟩⟩
    cases proto <;>
      simp [Replier.step, nnRepRecv, nnRespondentRecv, Replier.recv, nnXrepRecv,
        nnXrespondentRecv, heq]
  · cases g with
    | empty => exact absurd rfl hne
    | malformed =>
      refine ⟨{ s with inprogress := false, router := x' }, .code (some .eagain), ?_, hwf',
        .of_data hkey hdata, Or.inr ⟨rfl, rfl, by simp [Pending.next, hnext, hg]⟩⟩
      cases proto <;>
        simp [Replier.step, nnRepRecv, nnRespondentRecv, Replier.recv, nnXrepRecv,
          nnXrespondentRecv, heq, Router.keyed]
    | msg g =>
      refine ⟨⟨x', true, nnPutl d.key ++ g.sphdr⟩, .recv (some { g with sphdr := [] }), ?_, hwf',
        .of_data hkey hdata,
        Or.inl ⟨p, m, g, d, hnext, hg, hd, rfl, rfl, rfl, by simp [Pending.next, hnext, hg]⟩⟩
      cases proto <;>
        simp [Replier.step, nnRepRecv, nnRespondentRecv, Replier.recv, nnXrepRecv,
          nnXrespondentRecv, heq, Router.keyed]

end Send

/-! ### Whole runs -/

/-- The calls of the user. -/
def RouterEvent.isCall : RouterEvent P → Bool
  | .send _ _ | .recv => true
  | _ => false

section Runs

variable {nextKey : UInt32} {a : Additions P} {s : Replier P} {pend : Pending P} {e : RouterEvent P}

theorem Replier.step_pipe {proto : Proto} (hc : e.isCall = false) :
    s.step proto e = (do
      let (router, b) ← s.router.step proto e
      return ({ s with router := router }, b)) := by
  cases e with
  | send msg sync => cases hc
  | recv => cases hc
  | _ => rfl

/-- The events of pipes keep what is stored. -/
theorem Replier.Stores.pipe (h : s.Stores nextKey a pend) (hwf : s.router.Wf)
    (hnum : s.router.Numbered nextKey a) (he : s.router.Enabled e) (hc : e.isCall = false)
    {x : Router P} (hd : Router.Did s.router e x) :
    Replier.Stores nextKey (a.next e) { s with router := x } (pend.next s e) := by
  cases hd with
  | @add p rcvprio x hfree hnext hdata =>
    cases pend with
    | none => exact h
    | gone =>
      obtain ⟨hp, j, hdr, hj, hback, hne⟩ := h
      refine ⟨hp, j, hdr, Nat.lt_succ_of_lt hj, hback, fun q d hq => ?_⟩
      by_cases hqp : q = p
      · subst hqp
        simp only [Additions.next, Function.update_self]
        omega
      · simp only [hdata, Function.update_of_ne hqp] at hq
        simp only [Additions.next, Function.update_of_ne hqp]
        exact hne q d hq
    | request q hdr =>
      obtain ⟨hp, d, hd, hback⟩ := h
      have hqp : q ≠ p := by
        rintro rfl
        obtain ⟨pipe, hpipe⟩ := hwf.pipe_of_data hd
        have hnone : s.router.pipes q = none := he
        rw [hpipe] at hnone
        cases hnone
      exact ⟨hp, d, by simpa only [hdata, Function.update_of_ne hqp] using hd, hback⟩
  | @rm p x hnext hdata =>
    have hold : ∀ q d, x.data q = some d → q ≠ p ∧ s.router.data q = some d := by
      intro q d hq
      by_cases hqp : q = p
      · subst hqp
        simp [hdata] at hq
      · rw [hdata, Function.update_of_ne hqp] at hq
        exact ⟨hqp, hq⟩
    cases pend with
    | none => exact h
    | gone =>
      obtain ⟨hp, j, hdr, hj, hback, hne⟩ := h
      exact ⟨hp, j, hdr, hj, hback, fun q d hq => hne q d (hold q d hq).2⟩
    | request q hdr =>
      obtain ⟨hp, d, hd, hback⟩ := h
      by_cases hqp : q = p
      · -- the pipe of the request is removed: its number is not used again
        subst hqp
        simp only [Pending.next, if_true]
        refine ⟨hp, a.number q, hdr, hnum.lt q d hd, ?_, fun r e hr heq => ?_⟩
        · rw [← hnum.key q d hd]
          exact hback
        · obtain ⟨hrq, hr⟩ := hold r e hr
          refine hrq (hwf.eq_of_key hr hd ?_)
          rw [hnum.key r e hr, hnum.key q d hd]
          exact congrArg _ heq
      · simp only [Pending.next, if_neg hqp]
        exact ⟨hp, d, by simpa only [hdata, Function.update_of_ne hqp] using hd, hback⟩
  | same hs hadd hrm =>
    have hnext : a.next e = a := by
      cases e with
      | add p rcvprio => exact absurd rfl (hadd p rcvprio)
      | _ => rfl
    have hpend : pend.next s e = pend := by
      cases e with
      | rm p => exact absurd rfl (hrm p)
      | send msg sync => cases hc
      | recv => cases hc
      | _ => rfl
    rw [hnext, hpend]
    cases pend with
    | none => exact h
    | gone =>
      obtain ⟨hp, j, hdr, hj, hback, hne⟩ := h
      refine ⟨hp, j, hdr, hj, hback, fun q d hq => ?_⟩
      obtain ⟨d', hd', -⟩ := hs.data_iff.1 ⟨d, hq, rfl⟩
      exact hne q d' hd'
    | request q hdr =>
      obtain ⟨hp, d, hd, hback⟩ := h
      obtain ⟨d', hd', hk⟩ := hs.data_iff.2 ⟨d, hd, rfl⟩
      refine ⟨hp, d', hd', ?_⟩
      rw [hk]
      exact hback

/-- One event. -/
theorem Replier.track_inv {proto : Proto} (hwf : s.router.Wf) (hnum : s.router.Numbered nextKey a)
    (h : s.Stores nextKey a pend) (he : s.router.Enabled e) {s' : Replier P} {pend' : Pending P}
    {b : Answer} (heq : Replier.track proto (s, pend) e = .ok ((s', pend'), b)) :
    s'.router.Wf ∧ s'.router.Numbered nextKey (a.next e) ∧ s'.Stores nextKey (a.next e) pend' := by
  obtain ⟨⟨t, c⟩, hstep, hpair⟩ := bind_eq_ok.1 heq
  cases hpair
  by_cases hc : e.isCall = false
  · rw [Replier.step_pipe hc] at hstep
    obtain ⟨⟨x, c'⟩, hx, hpair⟩ := bind_eq_ok.1 hstep
    cases hpair
    rcases hwf.step proto he with ⟨-, herr⟩ | ⟨-, x', c'', heq', hwf', hd⟩
    · rw [herr] at hx
      cases hx
    · rw [hx] at heq'
      cases heq'
      exact ⟨hwf', hnum.step hd, h.pipe hwf hnum he hc hd⟩
  · cases e with
    | send msg sync =>
      cases hp : s.inprogress with
      | false =>
        rw [Replier.step_send_none proto hp] at hstep
        cases hstep
        exact ⟨hwf, hnum, hp⟩
      | true =>
        by_cases hmsg : msg.sphdr = []
        · obtain ⟨x, hx, hwf', hsame⟩ := hwf.send_returns { msg with sphdr := s.backtrace } sync
          rw [Replier.step_send hp hmsg hx] at hstep
          cases hstep
          exact ⟨hwf', hnum.step (.same (e := .send msg sync) hsame (by simp) (by simp)), rfl⟩
        · rw [Replier.step_send_header proto hp hmsg] at hstep
          cases hstep
    | recv =>
      obtain ⟨t', c', heq', hwf', hsame, hout⟩ := Replier.step_recv hwf proto pend
      rw [hstep] at heq'
      cases heq'
      refine ⟨hwf', hnum.step (.same (e := .recv) hsame (by simp) (by simp)), ?_⟩
      rcases hout with ⟨p, m, g, d, -, -, hd, -, hin, hback, hpend⟩ | ⟨-, hin, hpend⟩
      · obtain ⟨d', hd', hk⟩ := hsame.data_iff.2 ⟨d, hd, rfl⟩
        rw [show pend.next s .recv = _ from hpend]
        refine ⟨hin, d', hd', ?_⟩
        rw [hk]
        exact hback
      · rw [show pend.next s .recv = _ from hpend]
        exact hin
    | _ => exact absurd rfl hc

/-- What holds at the end of a run. -/
theorem Replier.inv_of_trace {proto : Proto} {es : List (RouterEvent P)}
    (h : Trace (Replier.track proto) (fun s e => s.1.router.Enabled e) (Replier.init nextKey,
      .none) es (s, pend)) :
    s.router.Wf ∧ s.router.Numbered nextKey (additions es) ∧
      s.Stores nextKey (additions es) pend := by
  refine h.invariant (I := fun es s => s.1.router.Wf ∧ s.1.router.Numbered nextKey (additions es) ∧
    s.1.Stores nextKey (additions es) s.2) ?_ ?_
  · exact ⟨Router.init_wf nextKey,
      ⟨by simp [Replier.init, Router.init, additions], fun _ _ h => (nomatch h),
        fun _ _ h => (nomatch h), fun _ _ h => (nomatch h)⟩, rfl⟩
  · intro es t e t' b hI he heq
    rw [additions_snoc]
    exact Replier.track_inv hI.1 hI.2.1 hI.2.2 he heq

end Runs

/-- What sending `msg` does, as far as the user and the pipes can see. -/
def Replier.Routes (s : Replier P) (msg : Msg) (s' : Replier P) (b : Answer) : Pending P → Prop
  | .none => b = .code (some .efsm) ∧ s' = s
  | .gone => b = .code none ∧ ∀ q, s'.outbox q = s.outbox q
  | .request p hdr => b = .code none ∧ (∀ q ≠ p, s'.outbox q = s.outbox q) ∧
      (s.CanSend p → ∃ msgs, s.outbox p = some msgs ∧
        s'.outbox p = some (msgs ++ [{ msg with sphdr := hdr }])) ∧
      (¬ s.CanSend p → s'.outbox p = s.outbox p)

theorem Replier.Stores.routes {nextKey : UInt32} {a : Additions P} {s : Replier P}
    {pend : Pending P} (h : s.Stores nextKey a pend) (hwf : s.router.Wf)
    (hnum : s.router.Numbered nextKey a) (hcount : a.count < 2 ^ 31) (proto : Proto) {msg : Msg}
    (hmsg : msg.sphdr = []) (sync : Bool) :
    ∃ s' b, s.step proto (.send msg sync) = .ok (s', b) ∧ s.Routes msg s' b pend := by
  cases pend with
  | none => exact ⟨s, _, Replier.step_send_none proto h msg sync, rfl, rfl⟩
  | gone =>
    obtain ⟨hp, j, hdr, hj, hback, hne⟩ := h
    have hnot : ∀ q, ¬ s.router.Writable q (keyOf nextKey j) := by
      rintro q ⟨d, hd, hk, -⟩
      have hlt := hnum.lt q d hd
      have hmod := keyOf_eq_iff.1 ((hnum.key q d hd).symm.trans hk)
      exact hne q d hd (by omega)
    have hrouted :
        ({ msg with sphdr := s.backtrace } : Msg).sphdr = nnPutl (keyOf nextKey j) ++ hdr := hback
    rcases hwf.send hrouted sync with ⟨-, heq⟩ | ⟨q, -, -, -, hw, -⟩
    · exact ⟨_, _, Replier.step_send hp hmsg heq, rfl, fun _ => rfl⟩
    · exact absurd hw (hnot q)
  | request p hdr =>
    obtain ⟨hp, d, hd, hback⟩ := h
    have hrouted : ({ msg with sphdr := s.backtrace } : Msg).sphdr = nnPutl d.key ++ hdr := hback
    rcases hwf.send hrouted sync with
      ⟨hnot, heq⟩ | ⟨q, pipe, pipe', x, hw, hpipe, hob, heq, -, -, hpipes⟩
    · refine ⟨_, _, Replier.step_send hp hmsg heq, rfl, fun _ _ => rfl, ?_, fun _ => rfl⟩
      rintro ⟨e, he, hout⟩
      rw [hd] at he
      cases he
      exact absurd ⟨d, hd, rfl, hout⟩ (hnot p)
    · obtain ⟨e, he, hk, hout⟩ := hw
      obtain rfl := hwf.eq_of_key he hd hk
      refine ⟨_, _, Replier.step_send hp hmsg heq, rfl, fun r hr => ?_, fun _ => ?_, fun hnot => ?_⟩
      · simp only [Replier.outbox, hpipes, Function.update_of_ne hr]
      · exact ⟨pipe.outbox, by simp [Replier.outbox, hpipe], by simp [Replier.outbox, hpipes, hob]⟩
      · exact absurd ⟨e, he, hout⟩ hnot

/-- With fewer than 2^31 additions of pipes, whatever else happened: a send is routed by the pending
request alone, and the pending request is the last one that a receive returned, unless a receive
without a message or a send came after it. -/
theorem reply_routing (proto : Proto) (nextKey : UInt32) (es : List (RouterEvent P)) (s : Replier P)
    (pend : Pending P)
    (h : Trace (Replier.track proto) (fun s e => s.1.router.Enabled e)
      (Replier.init nextKey, .none) es (s, pend))
    (hadds : (additions es).count < 2 ^ 31) :
    (∀ msg sync, msg.sphdr = [] → ∃ s' b, s.step proto (.send msg sync) = .ok (s', b)) ∧
    (∀ msg sync s' b, s.step proto (.send msg sync) = .ok (s', b) → s.Routes msg s' b pend) ∧
    ∃ s' b, s.step proto .recv = .ok (s', b) ∧
      ((∃ p m g, s.router.next = some (p, m) ∧ Router.split s.router.maxttl m = .ok (.msg g) ∧
          b = .recv (some { g with sphdr := [] }) ∧ pend.next s .recv = .request p g.sphdr) ∨
        b = .code (some .eagain) ∧ pend.next s .recv = .none) := by
  obtain ⟨hwf, hnum, hst⟩ := Replier.inv_of_trace h
  refine ⟨fun msg sync hmsg => ?_, fun msg sync s' b heq => ?_, ?_⟩
  · obtain ⟨s', b, heq, -⟩ := hst.routes hwf hnum hadds proto hmsg sync
    exact ⟨s', b, heq⟩
  · by_cases hmsg : msg.sphdr = []
    · obtain ⟨s'', b', heq', hr⟩ := hst.routes hwf hnum hadds proto hmsg sync
      rw [heq] at heq'
      cases heq'
      exact hr
    · -- only a socket without a pending request returns
      cases hp : s.inprogress with
      | false =>
        rw [Replier.step_send_none proto hp] at heq
        cases heq
        cases pend with
        | none => exact ⟨rfl, rfl⟩
        | gone => exact absurd hst.1 (by simp [hp])
        | request p hdr => exact absurd hst.1 (by simp [hp])
      | true =>
        rw [Replier.step_send_header proto hp hmsg] at heq
        cases heq
  · obtain ⟨s', b, heq, -, -, hout⟩ := Replier.step_recv hwf proto pend
    refine ⟨s', b, heq, ?_⟩
    rcases hout with ⟨p, m, g, d, hnext, hg, -, hb, -, -, hpend⟩ | ⟨hb, -, hpend⟩
    · exact Or.inl ⟨p, m, g, hnext, hg, hb, hpend⟩
    · exact Or.inr ⟨hb, hpend⟩

/-- A request that came through one device arrives at the first of two pipes. -/
def requestRun : List (RouterEvent (Fin 2)) :=
  [.add 0 1, .add 1 1, .pipeOut 0, .pipeOut 1,
    .arrive 0 { msg := ⟨[], [], [0, 0, 0, 5, 0x80, 0, 0, 9, 1, 2]⟩, parsed := false },
      .pipeIn 0, .recv]

unseal Router.headerWords in
theorem requestRun_returns :
    (runWhile (Replier.track .rep) (fun s e => s.1.router.Enabled e) (Replier.init 3, .none)
      requestRun).isSome := by
  decide

/-- Where the run ends. -/
def requestEnd : Replier (Fin 2) × Pending (Fin 2) :=
  (runWhile (Replier.track .rep) (fun s e => s.1.router.Enabled e) (Replier.init 3,
    .none) requestRun).get
    requestRun_returns

unseal Router.headerWords in
theorem reply_routing_request :
    ∃ s s' b, Trace (Replier.track .rep) (fun s e => s.1.router.Enabled e) (Replier.init 3, .none)
        requestRun (s, .request 0 [0, 0, 0, 5, 0x80, 0, 0, 9]) ∧
      s.step .rep (.send ⟨[], [], [7]⟩ true) = .ok (s', b) ∧
      s'.outbox 0 = some [⟨[0, 0, 0, 5, 0x80, 0, 0, 9], [], [7]⟩] ∧ s'.outbox 1 = s.outbox 1 := by
  have htr : Trace (Replier.track .rep) (fun s e => s.1.router.Enabled e)
      (Replier.init 3, .none) requestRun
      (requestEnd.1, requestEnd.2) := Trace.of_runWhile requestRun_returns
  have hpend : requestEnd.2 = .request 0 [0, 0, 0, 5, 0x80, 0, 0, 9] := by decide
  have hempty : requestEnd.1.outbox 0 = some [] := by decide
  rw [hpend] at htr
  have h := reply_routing .rep 3 requestRun _ _ htr (by decide)
  obtain ⟨s', b, heq⟩ := h.1 ⟨[], [], [7]⟩ true rfl
  obtain ⟨-, hothers, hsent, -⟩ := h.2.1 _ _ _ _ heq
  obtain ⟨msgs, hmsgs, hout⟩ := hsent ⟨⟨3, true⟩, by decide, rfl⟩
  rw [hempty] at hmsgs
  cases hmsgs
  exact ⟨_, s', b, htr, heq, hout, hothers 1 (by decide)⟩

end NanoSocket

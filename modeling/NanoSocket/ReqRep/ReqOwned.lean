import NanoSocket.Lib.Ownership
import NanoSocket.ReqRep.ReqSafety

/-!
# Who owns the replies of a REQ socket

All replies pass through `task.reply`: `nn_req_in` receives into it, terminates what it drops and
leaves there what it keeps; `nn_req_crecv` takes it out; `nn_req_term` terminates it with the
socket.  Here the functions that touch `task.reply` are given a ledger of the messages that passed
through it, and `step_erase` says that the socket itself behaves as before.

`req_ledger` is the result for whole runs: every reply has exactly one fate if and only if no `IN`
event was handled while an earlier reply was still stored, and the socket was not destroyed with a
reply in `task.reply` that was dropped.
-/

namespace NanoSocket.ReqRep

open Runs

variable {P : Type} [DecidableEq P]

namespace Owned

/-- The loop of `nn_req_in`. -/
def nnReqInLoop : ℕ → Req P → Ledger → Except Fault ((Req P × Bool) × Ledger)
  | 0, _, _ => .error .diverged
  | fuel + 1, req, l => do
    -- get new reply
    let (got, xreq) ← nnXreqRecv req.xreq
    let req := { req with xreq := xreq }
    match got with
    | .empty => return ((req, false), l)
    -- `nn_xreq_recv` terminates what it has received
    | .malformed => return (({ req with task.reply := none }, false), l.receive.terminate)
    | .msg reply =>
      let l := l.receive
      let drop := { req with task.reply := none }
      -- no request was sent: getting a reply doesn't make sense
      if !nnReqInprogress req then nnReqInLoop fuel drop l.terminate
      -- ignore malformed replies
      else if reply.sphdr.length ≠ 4 then nnReqInLoop fuel drop l.terminate
      else
        -- ignore replies with incorrect request IDs
        let reqid ← nnGetl reply.sphdr
        if reqid &&& 0x80000000 = 0 then nnReqInLoop fuel drop l.terminate
        else if reqid ≠ (req.task.id ||| 0x80000000) then nnReqInLoop fuel drop l.terminate
        else
          -- trim the request ID
          let req := { req with task.reply := some { reply with sphdr := [] } }
          if req.state = .active then return (← req.feed true (.action .pipeIn), l)
          else return ((req, false), l)

/-- `nn_req_in`. -/
def nnReqIn (req : Req P) (pipe : P) (l : Ledger) : Except Fault ((Req P × Bool) × Ledger) := do
  let xreq ← nnXreqIn req.xreq pipe
  nnReqInLoop (pending xreq.fq xreq.pipes + 1) { req with xreq := xreq } l

/-- `nn_req_crecv`: the message, or an error code. -/
def nnReqCrecv (req : Req P) (l : Ledger) :
    Except Fault ((Except Errno (Option Msg) × Req P × Bool) × Ledger) :=
  if !nnReqInprogress req then .ok ((.error .efsm, req, false), l)
  else if req.state ≠ .done then .ok ((.error .eagain, req, false), l)
  else do
    let msg := req.task.reply
    let r ← Req.feed { req with task.reply := some .init } true (.action .received)
    return ((.ok msg, r), l.giveAway)

end Owned

/-! ### The socket and its ledger -/

/-- A REQ socket with the ledger of its replies. -/
structure ReplyWorld (P : Type) where
  sock : Sock P
  ledger : Ledger
  destroyed : Bool

/-- An event, or `nn_sock` destroys the socket. -/
inductive ReplyCall (P : Type)
  | event (e : Event P)
  | destroy

namespace ReplyWorld

/-- A socket fresh from `nn_socket`. -/
def init (lastid : UInt32) : ReplyWorld P :=
  { sock := .init lastid, ledger := .init, destroyed := false }

/-- An event happens, or the socket is destroyed (`nn_req_term`). -/
def step (w : ReplyWorld P) : ReplyCall P → Except Fault (ReplyWorld P × Answer)
  | .event (.pipeIn p) =>
    match w.sock.req.xreq.pipes p with
    | none => .error .nullDeref
    | some pipe => do
      let s := w.sock.setPipe p { pipe with inRaised := false }
      if s.state ≠ .active then return ({ w with sock := s }, .none)
      let (r, l) ← Owned.nnReqIn s.req p w.ledger
      return ({ w with sock := s.put r, ledger := l }, .none)
  | .event .crecv =>
    if w.sock.state ≠ .active then .ok (w, .code (some .ebadf))
    else do
      let ((r, req), l) ← Owned.nnReqCrecv w.sock.req w.ledger
      let w := { w with sock := w.sock.put req, ledger := l }
      match r with
      | .error e => return (w, .code (some e))
      | .ok msg => return (w, .recv msg)
  | .event e => do
    let (s, a) ← w.sock.step e
    return ({ w with sock := s }, a)
  | .destroy => do
    nnAssert (w.sock.req.task.timer.state = .idle)
    nnAssert (w.sock.req.fsm = .idle)
    return ({ w with ledger := w.ledger.terminate, destroyed := true }, .none)

/-- A socket is destroyed when it has stopped, and nothing happens to it afterwards. -/
def Enabled (w : ReplyWorld P) : ReplyCall P → Prop
  | .event e => w.destroyed = false ∧ ReqRep.Enabled w.sock e
  | .destroy => w.destroyed = false ∧ w.sock.state = .fini

/-- No message is received over a stored reply, and `task.reply` is not terminated twice. -/
def Careful (w : ReplyWorld P) : ReplyCall P → Prop
  | .event (.pipeIn _) => w.sock.state = .active → ¬ w.ledger.Live
  | .event _ => True
  | .destroy => ¬ w.ledger.Dangling

instance decidableEnabled [Fintype P] (w : ReplyWorld P) (c : ReplyCall P) :
    Decidable (w.Enabled c) :=
  match c with
  | .event _ => inferInstanceAs (Decidable (_ ∧ _))
  | .destroy => inferInstanceAs (Decidable (_ ∧ _))

instance decidableCareful (w : ReplyWorld P) (c : ReplyCall P) : Decidable (w.Careful c) :=
  match c with
  | .event (.pipeIn _) => inferInstanceAs (Decidable (_ → _))
  | .destroy => inferInstanceAs (Decidable (¬ _))
  | .event (.add ..) | .event (.rm _) | .event (.arrive ..) | .event (.sent _) |
      .event (.pipeOut ..)
  | .event (.csend ..) | .event .crecv | .event (.setResendIvl _) |
      .event (.runTask _) | .event .expire
  | .event .close | .event .stop => inferInstanceAs (Decidable True)

end ReplyWorld

/-! ### Without the ledger -/

theorem map_fst_bind {α β : Type} (x : Except Fault α) (b : β) :
    (x >>= fun a => pure (a, b)).map Prod.fst = x := by
  cases x <;> rfl

theorem Owned.nnReqInLoop_erase (n : ℕ) (req : Req P) (l : Ledger) :
    (Owned.nnReqInLoop n req l).map Prod.fst = ReqRep.nnReqInLoop n req := by
  induction n generalizing req l with
  | zero => rfl
  | succ n ih =>
    rw [Owned.nnReqInLoop, ReqRep.nnReqInLoop]
    cases nnXreqRecv req.xreq with
    | error e => rfl
    | ok r =>
      obtain ⟨got, x⟩ := r
      cases got with
      | empty => rfl
      | malformed => rfl
      | msg reply =>
        simp only [ok_bind]
        by_cases hprog : (!nnReqInprogress { req with xreq := x }) = true
        · rw [if_pos hprog, if_pos hprog]
          exact ih _ _
        rw [if_neg hprog, if_neg hprog]
        by_cases hlen : reply.sphdr.length ≠ 4
        · rw [if_pos hlen, if_pos hlen]
          exact ih _ _
        rw [if_neg hlen, if_neg hlen]
        cases nnGetl reply.sphdr with
        | error e => rfl
        | ok reqid =>
          simp only [ok_bind]
          split_ifs
          · exact ih _ _
          · exact ih _ _
          · exact map_fst_bind _ _
          · rfl

theorem Owned.nnReqIn_erase (req : Req P) (p : P) (l : Ledger) :
    (Owned.nnReqIn req p l).map Prod.fst = ReqRep.nnReqIn req p := by
  rw [Owned.nnReqIn, ReqRep.nnReqIn]
  cases nnXreqIn req.xreq p with
  | error e => rfl
  | ok x => exact Owned.nnReqInLoop_erase _ _ _

theorem Owned.nnReqCrecv_erase (req : Req P) (l : Ledger) :
    (Owned.nnReqCrecv req l).map Prod.fst = ReqRep.nnReqCrecv req := by
  rw [Owned.nnReqCrecv, ReqRep.nnReqCrecv]
  split_ifs
  · rfl
  · rfl
  · cases Req.feed { req with task.reply := some .init } true (.action .received) with
    | error e => rfl
    | ok r => rfl

/-- The ledger only watches: without it, an event is what it was. -/
theorem ReplyWorld.step_erase (w : ReplyWorld P) (e : Event P) :
    (w.step (.event e)).map (fun r => (r.1.sock, r.2)) = w.sock.step e := by
  cases e with
  | pipeIn p =>
    simp only [ReplyWorld.step, Sock.step]
    cases w.sock.req.xreq.pipes p with
    | none => rfl
    | some pipe =>
      simp only
      split_ifs with hact
      · rfl
      · rw [← Owned.nnReqIn_erase _ p w.ledger]
        cases Owned.nnReqIn (w.sock.setPipe p { pipe with inRaised := false }).req p w.ledger with
        | error e => rfl
        | ok r => rfl
  | crecv =>
    simp only [ReplyWorld.step, Sock.step]
    split_ifs with hact
    · rfl
    · rw [← Owned.nnReqCrecv_erase _ w.ledger]
      cases Owned.nnReqCrecv w.sock.req w.ledger with
      | error e => rfl
      | ok r =>
        obtain ⟨⟨r, req⟩, l⟩ := r
        cases r <;> rfl
  | _ =>
    simp only [ReplyWorld.step]
    cases Sock.step w.sock _ with
    | error e => rfl
    | ok r => rfl

/-! ### What the loop does to the ledger -/

/-- The loop of `nn_req_in`, turn by turn. -/
inductive Drained : Req P → Ledger → Req P → Ledger → Prop
  | empty {r : Req P} {x : Xreq P} {l : Ledger} (h : nnXreqRecv r.xreq = .ok (.empty, x)) :
      Drained r l { r with xreq := x } l
  | malformed {r : Req P} {x : Xreq P} {l : Ledger} (h : nnXreqRecv r.xreq = .ok (.malformed, x)) :
      Drained r l { r with xreq := x, task.reply := none } l.receive.terminate
  | drop {r r' : Req P} {x : Xreq P} {g : Msg} {l l' : Ledger}
      (h : nnXreqRecv r.xreq = .ok (.msg g, x))
      (hrest : Drained { r with xreq := x, task.reply := none } l.receive.terminate r' l') :
      Drained r l r' l'
  | keep {r r' : Req P} {x : Xreq P} {g : Msg} {l : Ledger}
      (h : nnXreqRecv r.xreq = .ok (.msg g, x)) :
      Drained r l r' l.receive

theorem Owned.nnReqInLoop_drained {n : ℕ} {r r' : Req P} {b : Bool} {l l' : Ledger}
    (h : Owned.nnReqInLoop n r l = .ok ((r', b), l')) : Drained r l r' l' := by
  induction n generalizing r l with
  | zero => cases h
  | succ n ih =>
    rw [Owned.nnReqInLoop] at h
    obtain ⟨⟨got, x⟩, hrecv, h⟩ := bind_eq_ok.1 h
    cases got with
    | empty =>
      cases h
      exact .empty hrecv
    | malformed =>
      cases h
      exact .malformed hrecv
    | msg reply =>
      simp only at h
      split at h
      · exact .drop hrecv (ih h)
      · split at h
        · exact .drop hrecv (ih h)
        · obtain ⟨reqid, -, h⟩ := bind_eq_ok.1 h
          split at h
          · exact .drop hrecv (ih h)
          · split at h
            · exact .drop hrecv (ih h)
            · split at h
              · obtain ⟨r, -, h⟩ := bind_eq_ok.1 h
                cases h
                exact .keep hrecv
              · cases h
                exact .keep hrecv

theorem Drained.wf {r r' : Req P} {l l' : Ledger} (h : Drained r l r' l') (hl : l.Wf) : l'.Wf := by
  induction h with
  | empty => exact hl
  | malformed => exact hl.receive.terminate
  | drop _ _ ih => exact ih hl.receive.terminate
  | keep => exact hl.receive

theorem Drained.broken {r r' : Req P} {l l' : Ledger} (h : Drained r l r' l') (hl : l.Broken) :
    l'.Broken := by
  induction h with
  | empty => exact hl
  | malformed => exact hl.receive.terminate
  | drop _ _ ih => exact ih hl.receive.terminate
  | keep => exact hl.receive

/-- With no reply stored, the loop drops what it drops and stores at most one reply. -/
theorem Drained.balanced {r r' : Req P} {l l' : Ledger} (h : Drained r l r' l') (hwf : l.Wf)
    (hb : l.Balanced) (hl : ¬ l.Live) : l'.Balanced ∧ (l'.Live ∨ r'.state = r.state) := by
  have hdrop : ∀ {l : Ledger}, l.Wf → l.Balanced → ¬ l.Live → l.receive.terminate.Balanced := by
    intro l hwf hb hl
    exact (hb.receive hwf hl).terminate hwf.receive (Ledger.not_dangling_of_live hwf.live_receive)
  induction h with
  | empty => exact ⟨hb, Or.inr rfl⟩
  | malformed => exact ⟨hdrop hwf hb hl, Or.inr rfl⟩
  | drop _ _ ih => exact ih hwf.receive.terminate (hdrop hwf hb hl) (Ledger.not_live_terminate _)
  | keep => exact ⟨hb.receive hwf hl, Or.inl hwf.live_receive⟩

/-- A stored reply is overwritten by the first message at hand. -/
theorem Drained.broken_of_live {r r' : Req P} {l l' : Ledger} (h : Drained r l r' l')
    (hx : r.xreq.Wf) (hact : ∃ p, r.xreq.fq.Active p) (hwf : l.Wf) (hl : l.Live) : l'.Broken := by
  have hlost := hwf.broken_receive hl
  cases h with
  | empty h =>
    obtain ⟨p, hp⟩ := hact
    rcases nnXreqRecv_spec hx with ⟨hnone, -⟩ | ⟨_, _, _, g, -, -, hne, heq⟩
    · exact absurd hp (hnone p)
    · rw [h] at heq
      cases heq
      exact absurd rfl hne
  | malformed => exact hlost.terminate
  | drop _ hrest => exact hrest.broken hlost.terminate
  | keep => exact hlost

/-! ### One call -/

/-- A reply is kept for the user. -/
def Sock.Keeps (s : Sock P) : Prop :=
  s.state = .active ∧ (s.req.state = .stoppingTimer ∨ s.req.state = .done)

/-- Only an `IN` event makes a socket keep a reply. -/
theorem Did.keeps {s s' : Sock P} {e : Event P} {a : Answer} (h : Did s e s' a)
    (he : s.state = .active → ∀ p, e ≠ .pipeIn p) (hk : s'.Keeps) : s.Keeps := by
  cases h with
  | quiet hq =>
    refine ⟨hq.sock hk.1, ?_⟩
    rcases hq.state hk.1 with heq | ⟨src, hin, -, hn⟩
    · exact heq ▸ hk.2
    · rcases hk.2 with hst | hst
      · exact absurd (hn.to_stoppingTimer hst) hin
      · exact Or.inl (hn.to_done hst).2
  | arrive => exact hk
  | csend hs _ hn =>
    rcases hk.2 with hst | hst
    · cases hn.to_stoppingTimer hst
    · cases (hn.to_done hst).1
  | crecv _ _ _ hst' =>
    rcases hk.2 with hst | hst <;> cases hst'.symm.trans hst
  | pipeIn hs => exact absurd rfl (he hs _)

namespace ReplyWorld

/-- The invariant of every run. -/
structure Inv (w : ReplyWorld P) : Prop where
  sock : w.sock.Inv
  ledger : w.ledger.Wf

/-- The invariant of a careful run: what is kept for the user is there. -/
structure Good (w : ReplyWorld P) : Prop where
  balanced : w.ledger.Balanced
  stored : w.sock.Keeps → w.ledger.Live

omit [DecidableEq P] in
theorem init_inv (lastid : UInt32) : (init lastid : ReplyWorld P).Inv :=
  ⟨Sock.init_inv lastid, Ledger.init_wf⟩

omit [DecidableEq P] in
theorem init_good (lastid : UInt32) : (init lastid : ReplyWorld P).Good :=
  ⟨Ledger.init_balanced, fun h => by rcases h.2 with h | h <;> cases h⟩

variable {w w' : ReplyWorld P} {a : Answer}

theorem did_of_step (h : w.Inv) {e : Event P} (hen : w.Enabled (.event e))
    (heq : w.step (.event e) = .ok (w', a)) : w'.sock.Inv ∧ Did w.sock e w'.sock a := by
  refine h.sock.did hen.2 ?_
  rw [← step_erase, heq]
  rfl

/-- What `nn_req_crecv` does to the ledger. -/
theorem step_crecv_cases (heq : w.step (.event .crecv) = .ok (w', a)) :
    w'.ledger = w.ledger ∧ (∀ m, a ≠ .recv m) ∨
      w.sock.Keeps ∧ w'.ledger = w.ledger.giveAway ∧ ∃ m, a = .recv m := by
  simp only [step] at heq
  split_ifs at heq with hact
  · cases heq
    exact Or.inl ⟨rfl, nofun⟩
  · obtain ⟨⟨⟨r, req⟩, l⟩, hrecv, heq⟩ := bind_eq_ok.1 heq
    rw [Owned.nnReqCrecv] at hrecv
    split_ifs at hrecv with hprog hdone
    · cases hrecv
      cases heq
      exact Or.inl ⟨rfl, nofun⟩
    · cases hrecv
      cases heq
      exact Or.inl ⟨rfl, nofun⟩
    · obtain ⟨r', -, hrecv⟩ := bind_eq_ok.1 hrecv
      cases hrecv
      cases heq
      exact Or.inr ⟨⟨not_not.1 hact, Or.inr (not_not.1 hdone)⟩, rfl, _, rfl⟩

/-- What an `IN` event does to the ledger. -/
theorem step_pipeIn_cases {p : P} (h : w.Inv) (hen : w.Enabled (.event (.pipeIn p)))
    (heq : w.step (.event (.pipeIn p)) = .ok (w', a)) :
    w.sock.state ≠ .active ∧ w'.ledger = w.ledger ∨
      w.sock.state = .active ∧ ∃ r, r.xreq.Wf ∧ (∃ q, r.xreq.fq.Active q) ∧
        r.state = w.sock.req.state ∧ Drained r w.ledger w'.sock.req w'.ledger := by
  have hdid := (did_of_step h hen heq).2
  obtain ⟨pipe, hp, hraised⟩ := hen.2
  simp only [step, hp] at heq
  split_ifs at heq with hact
  · cases heq
    exact Or.inl ⟨hact, rfl⟩
  · have hactive : w.sock.state = .active := not_not.1 hact
    obtain ⟨⟨⟨r, b⟩, l⟩, hin, heq⟩ := bind_eq_ok.1 heq
    cases heq
    obtain ⟨x, hx, hloop⟩ := bind_eq_ok.1 hin
    cases h.sock with
    | stopping hs => cases hs.symm.trans hactive
    | fini hs => cases hs.symm.trans hactive
    | running hs hfsm hwf hst =>
      obtain ⟨hne, hna⟩ := not_active_of_inRaised hwf hp hraised
      have hp' : (w.sock.setPipe p { pipe with inRaised := false }).req.xreq.pipes p =
          some { pipe with inRaised := false } := Function.update_self ..
      obtain ⟨fq, heq, hxwf, hiff⟩ := nnXreqIn_spec (wf_inPopped hwf hp).xreq hp' ⟨hne, rfl⟩ hna
      cases heq.symm.trans hx
      refine Or.inr ⟨hactive, _, ?_, ?_, ?_, Owned.nnReqInLoop_drained hloop⟩
      · exact hxwf
      · exact ⟨p, (hiff p).2 (Or.inr rfl)⟩
      · rfl

/-- The events that leave `task.reply` alone. -/
theorem step_other {e : Event P} (hin : ∀ p, e ≠ .pipeIn p) (hrecv : e ≠ .crecv)
    (heq : w.step (.event e) = .ok (w', a)) : w'.ledger = w.ledger := by
  cases e with
  | pipeIn p => exact absurd rfl (hin p)
  | crecv => exact absurd rfl hrecv
  | _ =>
    simp only [step] at heq
    obtain ⟨r, -, heq⟩ := bind_eq_ok.1 heq
    cases heq
    rfl

/-- What a call does for the replies: a careful one keeps them all accounted for, one that is not
breaks the ledger, and nothing mends a broken ledger. -/
structure Audited (w : ReplyWorld P) (c : ReplyCall P) (w' : ReplyWorld P) : Prop where
  inv : w'.Inv
  broken : w.ledger.Broken → w'.ledger.Broken
  good : w.Good → w.Careful c → w'.Good
  lost : ¬ w.Careful c → w'.ledger.Broken

theorem audited_of_same {e : Event P} (h : w.Inv) (hinv : w'.sock.Inv)
    (hdid : Did w.sock e w'.sock a) (hl : w'.ledger = w.ledger)
    (he : w.sock.state = .active → ∀ p, e ≠ .pipeIn p) : w.Audited (.event e) w' := by
  constructor
  · exact ⟨hinv, hl ▸ h.ledger⟩
  · exact fun hb => hl ▸ hb
  · intro hg _
    refine ⟨hl ▸ hg.balanced, fun hk => ?_⟩
    rw [hl]
    exact hg.stored (hdid.keeps he hk)
  · intro hc
    refine absurd ?_ hc
    cases e with
    | pipeIn p => exact fun hact => absurd rfl (he hact p)
    | _ => trivial

theorem audited_destroy (h : w.Inv) (hen : w.Enabled .destroy)
    (heq : w.step .destroy = .ok (w', a)) :
    w.Audited .destroy w' := by
  simp only [step] at heq
  obtain ⟨_, -, heq⟩ := bind_eq_ok.1 heq
  obtain ⟨_, -, heq⟩ := bind_eq_ok.1 heq
  cases heq
  constructor
  · exact ⟨h.sock, h.ledger.terminate⟩
  · exact fun hb => hb.terminate
  · intro hg hd
    refine ⟨hg.balanced.terminate h.ledger hd, fun hk => ?_⟩
    cases hk.1.symm.trans hen.2
  · exact fun hd => h.ledger.broken_terminate (not_not.1 hd)

theorem audited_pipeIn {p : P} (h : w.Inv) (hen : w.Enabled (.event (.pipeIn p)))
    (heq : w.step (.event (.pipeIn p)) = .ok (w', a)) : w.Audited (.event (.pipeIn p)) w' := by
  obtain ⟨hinv, hdid⟩ := did_of_step h hen heq
  rcases step_pipeIn_cases h hen heq with ⟨hact, hl⟩ | ⟨hact, r, hx, hne, hst, hd⟩
  · exact audited_of_same h hinv hdid hl fun ha => absurd ha hact
  constructor
  · exact ⟨hinv, hd.wf h.ledger⟩
  · exact hd.broken
  · -- no reply was stored, so that the socket did not keep one for the user
    intro hg hc
    have hlive := hc hact
    obtain ⟨hb, hstored⟩ := hd.balanced h.ledger hg.balanced hlive
    refine ⟨hb, fun hk => hstored.resolve_right fun heq => hlive (hg.stored ⟨hact, ?_⟩)⟩
    rw [← hst, ← heq]
    exact hk.2
  · exact fun hc => hd.broken_of_live hx hne h.ledger (not_not.1 fun hl => hc fun _ => hl)

theorem audited_crecv (h : w.Inv) (hen : w.Enabled (.event .crecv))
    (heq : w.step (.event .crecv) = .ok (w', a)) :
    w.Audited (.event .crecv) w' := by
  obtain ⟨hinv, hdid⟩ := did_of_step h hen heq
  rcases step_crecv_cases heq with ⟨hl, -⟩ | ⟨hkeeps, hl, m, rfl⟩
  · exact audited_of_same h hinv hdid hl fun _ _ => nofun
  constructor
  · exact ⟨hinv, hl ▸ h.ledger.giveAway⟩
  · exact fun hb => hl ▸ hb.giveAway
  · intro hg _
    have hlive := hg.stored hkeeps
    refine ⟨hl ▸ hg.balanced.giveAway h.ledger (Ledger.not_dangling_of_live hlive), fun hk => ?_⟩
    generalize w'.sock = s' at hdid hk
    cases hdid with
    | quiet _ ha => exact absurd rfl (ha m)
    | crecv _ _ _ hst' => rcases hk.2 with hst | hst <;> cases hst'.symm.trans hst
  · exact fun hc => absurd trivial hc

theorem Inv.audited (h : w.Inv) {c : ReplyCall P} (hen : w.Enabled c)
    (heq : w.step c = .ok (w', a)) :
    w.Audited c w' := by
  cases c with
  | destroy => exact audited_destroy h hen heq
  | event e =>
    by_cases hin : ∃ p, e = .pipeIn p
    · obtain ⟨p, rfl⟩ := hin
      exact audited_pipeIn h hen heq
    have hin' : ∀ p, e ≠ .pipeIn p := fun p hp => hin ⟨p, hp⟩
    by_cases hrecv : e = .crecv
    · subst hrecv
      exact audited_crecv h hen heq
    · obtain ⟨hinv, hdid⟩ := did_of_step h hen heq
      exact audited_of_same h hinv hdid (step_other hin' hrecv heq) fun _ => hin'

end ReplyWorld

/-- In every run of a REQ socket: every reply has exactly one fate, if and only if no `IN` event was
handled while an earlier reply was stored and the socket was not destroyed with a dropped reply in
`task.reply`. -/
theorem req_ledger {lastid : UInt32} {cs : List (ReplyCall P)} {w : ReplyWorld P}
    (hrun : Trace ReplyWorld.step ReplyWorld.Enabled (.init lastid) cs w) :
    w.ledger.Balanced ↔
      Trace ReplyWorld.step (fun w c => w.Enabled c ∧ w.Careful c) (.init lastid) cs w := by
  obtain ⟨-, ⟨hc, hg⟩ | ⟨hc, hb⟩⟩ :=
    hrun.good_or_bad (Q := ReplyWorld.Careful) (G := ReplyWorld.Good)
    (B := fun w => w.ledger.Broken) (ReplyWorld.init_inv lastid)
        (ReplyWorld.init_good lastid) fun w c w' a h hen heq =>
      have haudit := h.audited hen heq
      ⟨haudit.inv, haudit.broken, haudit.good, haudit.lost⟩
  · exact iff_of_true hg.balanced hc
  · exact iff_of_false hb.not_balanced hc

end NanoSocket.ReqRep

import NanoSocket.ReqRep.ReqSafety

/-!
# Replies to REQ sockets

`nn_req_in` takes every message straight into the place where the accepted reply waits for the user.
`crecv_returns_reply` says what the user gets from a run in which no such message destroys a stored
reply, and that the condition is exact; `crecv_returns_terminated` is a run in which the user gets a
terminated message.
-/

namespace NanoSocket.ReqRep

open Runs

variable {P : Type} [DecidableEq P]

instance (r : Req P) (reply : Msg) : Decidable (r.Accepts reply) :=
  inferInstanceAs (Decidable (_ ∧ _))

/-- A reply to the current request is found before an undersized message ends the loop. -/
def Req.finds (r : Req P) : List Inbound → Bool
  | [] => false
  | m :: ms =>
    match m.split with
    | .ok (.msg g) => if r.Accepts g then true else r.finds ms
    | _ => false

/-- The messages at hand when `nn_req_in` is called for the pipe `p`, in the order of the fair
queue. -/
def Sock.offered (s : Sock P) (p : P) : List Inbound :=
  match s.req.xreq.pipes p, s.req.xreq.fq.activate p with
  | some pipe, .ok fq =>
    queue fq (Function.update s.req.xreq.pipes p (some { pipe with inRaised := false }))
  | _, _ => []

omit [DecidableEq P] in
theorem Req.finds_congr {r r' : Req P} (h : ∀ g, r.Accepts g ↔ r'.Accepts g) {ms : List Inbound} :
    r.finds ms = r'.finds ms := by
  induction ms with
  | nil => rfl
  | cons m ms ih =>
    simp only [Req.finds, ih]
    cases m.split with
    | error e => rfl
    | ok g => cases g <;> simp [h]

/-! ### The loop -/

section Drains

variable {r r' : Req P}

theorem Drains.task (h : Drains r r') :
    r'.task.id = r.task.id ∧ r'.task.request = r.task.request := by
  induction h with
  | empty => exact ⟨rfl, rfl⟩
  | malformed => exact ⟨rfl, rfl⟩
  | skip _ _ _ _ ih => exact ih
  | store => exact ⟨rfl, rfl⟩
  | deliver _ _ _ _ hf => exact ⟨hf.id, hf.request⟩

theorem Drains.exists_of_mem (h : Drains r r') {q : P} {pipe : Pipe}
    (hq : r'.xreq.pipes q = some pipe) {m : Inbound} (hm : m ∈ pipe.inbox) :
    ∃ pipe, r.xreq.pipes q = some pipe ∧ m ∈ pipe.inbox := by
  induction h with
  | empty => exact ⟨pipe, hq, hm⟩
  | malformed ht => exact ht.exists_of_mem hq hm
  | skip ht _ _ _ ih =>
    obtain ⟨pipe', hq', hm'⟩ := ih hq
    exact ht.exists_of_mem hq' hm'
  | store ht => exact ht.exists_of_mem hq hm
  | deliver ht _ _ _ hf =>
    obtain ⟨pipe', hq', hin, -⟩ := hf.exists_pipe hq
    exact ht.exists_of_mem hq' (hin ▸ hm)

/-- What the loop leaves in the place of the reply, and in which state. -/
theorem Drains.reply (h : Drains r r') (hwf : r.xreq.Wf) :
    (r.finds (queue r.xreq.fq r.xreq.pipes) = true →
      ∃ m ∈ queue r.xreq.fq r.xreq.pipes, ∃ g, m.split = .ok (.msg g) ∧ r.Accepts g ∧
        r'.task.reply = some { g with sphdr := [] }) ∧
    (r.finds (queue r.xreq.fq r.xreq.pipes) = false →
      queue r.xreq.fq r.xreq.pipes ≠ [] ∨ r.task.reply = none → r'.task.reply = none) ∧
    (r'.state = r.state ∨ r'.state = .stoppingTimer ∧
      r.finds (queue r.xreq.fq r.xreq.pipes) = true) := by
  induction h with
  | empty hnone => simp [(queue_eq_nil_iff hwf).2 hnone, Req.finds]
  | malformed ht hs => simp [ht.queue_eq hwf, Req.finds, hs]
  | store ht hs ha => simp [ht.queue_eq hwf, Req.finds, hs, ha]
  | deliver ht hs ha hst hf hst' =>
    rw [ht.queue_eq hwf]
    simp [Req.finds, hs, ha, hf.reply, hst']
  | @skip r r' p m x g ht hs hn _ ih =>
    obtain ⟨hfound, hlost, hstate⟩ := ih ht.wf
    have hsame : Req.finds { r with xreq := x, task.reply := none } (queue x.fq x.pipes) =
        r.finds (queue x.fq x.pipes) := by
      apply Req.finds_congr
      intro _
      rfl
    rw [ht.queue_eq hwf]
    have hfinds : r.finds (m :: queue x.fq x.pipes) = r.finds (queue x.fq x.pipes) := by
      simp [Req.finds, hs, hn]
    rw [hfinds]
    refine ⟨fun hf => ?_, fun hf _ => hlost (hsame.trans hf) (Or.inr rfl),
      hstate.imp_right fun h => ⟨h.1, hsame.symm.trans h.2⟩⟩
    obtain ⟨m', hm', hrest⟩ := hfound (hsame.trans hf)
    exact ⟨m', List.mem_cons_of_mem _ hm', hrest⟩

end Drains

/-! ### Matching replies -/

section Offered

variable {s : Sock P} {p : P} {pipe : Pipe} {x : Xreq P} (hp : s.req.xreq.pipes p = some pipe)
  (hfq : s.req.xreq.fq.activate p = .ok x.fq)
  (hpipes : x.pipes = Function.update s.req.xreq.pipes p (some { pipe with inRaised := false }))

include hp hfq hpipes

theorem Sock.queue_offered : queue x.fq x.pipes = s.offered p := by
  simp [Sock.offered, hp, hfq, hpipes]

theorem Sock.finds_offered :
    Req.finds { s.req with xreq := x } (queue x.fq x.pipes) = s.req.finds (s.offered p) := by
  rw [Sock.queue_offered hp hfq hpipes]
  apply Req.finds_congr
  intro _
  rfl

end Offered

/-- The requests that were submitted. -/
def requests (es : List (Event P)) : List Msg :=
  es.filterMap fun
    | .csend msg _ => some msg
    | _ => none

/-- The id of the most recently submitted request. -/
def requestId (lastid : UInt32) (es : List (Event P)) : UInt32 :=
  lastid + .ofNat (requests es).length

/-- The message is the body of a well-formed reply to the most recently submitted request, and that
reply arrived. -/
def Replied (lastid : UInt32) (es : List (Event P)) (msg : Option Msg) : Prop :=
  requests es ≠ [] ∧ ∃ p x g, .arrive p x ∈ es ∧ Inbound.split x = .ok (.msg g) ∧
    g.sphdr = nnPutl (requestId lastid es ||| 0x80000000) ∧ msg = some { g with sphdr := [] }

/-- A call of `nn_req_in` that spares the stored reply: when there is one, the first message that
ends the loop is a reply to the same request. -/
def Sock.Spares (s : Sock P) : Event P → Prop
  | .pipeIn p => s.state = .active → s.req.state = .stoppingTimer ∨ s.req.state = .done →
      s.req.finds (s.offered p) = true
  | _ => True

/-- What the socket knows about the run. -/
structure Sock.Recalls (lastid : UInt32) (es : List (Event P)) (s : Sock P) : Prop where
  arrived : ∀ p pipe, s.req.xreq.pipes p = some pipe → ∀ m ∈ pipe.inbox, .arrive p m ∈ es
  id : s.req.task.id = requestId lastid es
  request : ∀ msg, (requests es).getLast? = some msg →
    s.req.task.request = { msg with sphdr := nnPutl (requestId lastid es ||| 0x80000000) }
  sent : s.req.state ≠ .passive → requests es ≠ []
  reply : s.req.state = .stoppingTimer ∨ s.req.state = .done → Replied lastid es s.req.task.reply

section Recalls

variable {lastid : UInt32} {es : List (Event P)} {s : Sock P} {e : Event P}

omit [DecidableEq P] in
theorem requests_snoc_of_ne (h : ∀ msg sync, e ≠ .csend msg sync) :
    requests (es ++ [e]) = requests es := by
  cases e with
  | csend msg sync => exact absurd rfl (h msg sync)
  | _ => simp [requests]

omit [DecidableEq P] in
theorem requestId_snoc_of_ne (h : ∀ msg sync, e ≠ .csend msg sync) :
    requestId lastid (es ++ [e]) = requestId lastid es := by
  rw [requestId, requests_snoc_of_ne h, requestId]

omit [DecidableEq P] in
theorem requests_csend (msg : Msg) (sync : Bool) :
    requests (es ++ [.csend msg sync]) = requests es ++ [msg] := by
  simp [requests]

omit [DecidableEq P] in
theorem requestId_csend (msg : Msg) (sync : Bool) :
    requestId lastid (es ++ [.csend msg sync]) = requestId lastid es + 1 := by
  simp [requestId, requests_csend, UInt32.add_assoc]

omit [DecidableEq P] in
theorem Replied.snoc {msg : Option Msg} (h : Replied lastid es msg)
    (he : ∀ msg sync, e ≠ .csend msg sync) :
    Replied lastid (es ++ [e]) msg := by
  obtain ⟨hne, p, x, g, harr, hs, hhdr, hmsg⟩ := h
  refine ⟨by rwa [requests_snoc_of_ne he], p, x, g, List.mem_append_left _ harr, hs, ?_, hmsg⟩
  rwa [requestId_snoc_of_ne he]

omit [DecidableEq P] in
/-- An event other than a request, which may bring a message and move the state machine. -/
theorem Sock.Recalls.snoc {s' : Sock P} (h : s.Recalls lastid es)
    (he : ∀ msg sync, e ≠ .csend msg sync)
    (harr : ∀ p pipe', s'.req.xreq.pipes p = some pipe' → ∀ m ∈ pipe'.inbox,
      e = .arrive p m ∨ ∃ pipe, s.req.xreq.pipes p = some pipe ∧ m ∈ pipe.inbox)
    (hid : s'.req.task.id = s.req.task.id) (hreq : s'.req.task.request = s.req.task.request)
    (hsent : s.req.state = .passive → s'.req.state = .passive)
    (hrep : s'.req.state = .stoppingTimer ∨ s'.req.state = .done →
      Replied lastid (es ++ [e]) s'.req.task.reply) : s'.Recalls lastid (es ++ [e]) := by
  refine ⟨fun p pipe' hp m hm => ?_, ?_, ?_, fun hst => ?_, hrep⟩
  · rcases harr p pipe' hp m hm with rfl | ⟨pipe, hp', hm'⟩
    · simp
    · exact List.mem_append_left _ (h.arrived p pipe hp' m hm')
  · rw [hid, h.id, requestId_snoc_of_ne he]
  · intro msg
    rw [requests_snoc_of_ne he, requestId_snoc_of_ne he, hreq]
    exact h.request msg
  · rw [requests_snoc_of_ne he]
    exact h.sent fun hp => hst (hsent hp)

omit [DecidableEq P] in
theorem Sock.Recalls.quiet {s' : Sock P} (h : s.Recalls lastid es) (hk : Kept s s')
    (ha : s'.state = .active) (he : ∀ msg sync, e ≠ .csend msg sync) :
    s'.Recalls lastid (es ++ [e]) := by
  refine h.snoc he (fun p pipe' hp m hm => Or.inr (hk.inbox p pipe' hp m hm)) hk.id hk.request ?_ ?_
  · intro hp
    rcases hk.state ha with heq | ⟨src, -, hns, hnx⟩
    · rw [heq, hp]
    · exact absurd (hnx.of_passive hp) hns
  · -- a reply is stored by `nn_req_in` only
    intro hst
    rw [hk.reply]
    refine (h.reply ?_).snoc he
    rcases hk.state ha with heq | ⟨src, hin, -, hnx⟩
    · rwa [heq] at hst
    · rcases hst with hst | hst
      · exact absurd (hnx.to_stoppingTimer hst) hin
      · exact Or.inl (hnx.to_done hst).2

/-- One event, when it spares the stored reply. -/
theorem Sock.Recalls.step {s' : Sock P} {a : Answer} (h : s.Recalls lastid es)
    (hs : s.state = .active) (hd : Did s e s' a) (hsp : s.Spares e) (ha : s'.state = .active) :
    s'.Recalls lastid (es ++ [e]) := by
  cases hd with
  | quiet hk _ he =>
    refine h.quiet hk ha ?_
    rintro msg sync rfl
    cases he hs
  | @arrive p m pipe pipe' hp hin =>
    refine h.snoc (by simp) (fun q r hq m' hm' => ?_) rfl rfl (fun h => h) fun hst =>
      (h.reply hst).snoc (by simp)
    by_cases hqp : q = p
    · subst hqp
      simp only [Sock.setPipe, Function.update_self] at hq
      cases hq
      rw [hin, List.mem_append, List.mem_singleton] at hm'
      rcases hm' with hm' | rfl
      · exact Or.inr ⟨pipe, hp, hm'⟩
      · exact Or.inl rfl
    · simp only [Sock.setPipe, Function.update_of_ne hqp] at hq
      exact Or.inr ⟨r, hq, hm'⟩
  | @csend msg sync r _ hf hn =>
    refine ⟨fun p pipe' hp m hm => ?_, ?_, ?_, fun _ => by simp [requests_csend], fun hst => ?_⟩
    · obtain ⟨pipe, hp', hin, -⟩ := hf.exists_pipe hp
      exact List.mem_append_left _ (h.arrived p pipe hp' m (hin ▸ hm))
    · rw [requestId_csend, ← h.id]
      exact hf.id
    · rw [requests_csend, List.getLast?_append_of_ne_nil _ (by simp), requestId_csend, ← h.id]
      rintro m ⟨⟩
      exact hf.request
    · change r.state = _ ∨ r.state = _ at hst
      rcases hst with hst | hst
      · cases hn.to_stoppingTimer hst
      · cases (hn.to_done hst).1
  | @crecv r _ _ hf hst =>
    refine h.snoc (by simp) (fun p pipe' hp m hm => ?_) hf.id hf.request (fun _ => hst) fun hst' =>
      ?_
    · obtain ⟨pipe, hp', hin, -⟩ := hf.exists_pipe hp
      exact Or.inr ⟨pipe, hp', hin ▸ hm⟩
    · change r.state = _ ∨ r.state = _ at hst'
      rw [hst] at hst'
      rcases hst' with h | h <;> cases h
  | @pipeIn p pipe x r _ hp _ _ hfq hpipes hx hd =>
    have hinbox : ∀ q pipe', x.pipes q = some pipe' → ∀ m ∈ pipe'.inbox,
        ∃ pipe, s.req.xreq.pipes q = some pipe ∧ m ∈ pipe.inbox := by
      intro q pipe' hq m hm
      rw [hpipes] at hq
      by_cases hqp : q = p
      · subst hqp
        rw [Function.update_self] at hq
        cases hq
        exact ⟨pipe, hp, hm⟩
      · rw [Function.update_of_ne hqp] at hq
        exact ⟨pipe', hq, hm⟩
    obtain ⟨hfound, -, hstate⟩ := hd.reply hx
    have hfinds := Sock.finds_offered hp hfq hpipes
    refine h.snoc (by simp) (fun q pipe' hq m hm => ?_) hd.task.1 hd.task.2 ?_ fun hst => ?_
    · obtain ⟨pipe₁, hq₁, hm₁⟩ := hd.exists_of_mem hq hm
      exact Or.inr (hinbox q pipe₁ hq₁ m hm₁)
    · intro hpas
      rcases hstate with heq | ⟨-, hf⟩
      · exact heq.trans hpas
      · obtain ⟨-, -, g, -, hacc, -⟩ := hfound hf
        simp [Req.Accepts, nnReqInprogress, hpas] at hacc
    · have hf : s.req.finds (s.offered p) = true := by
        rcases hstate with heq | ⟨-, hf⟩
        · exact hsp hs (heq ▸ hst)
        · exact hfinds ▸ hf
      obtain ⟨m, hm, g, hs, hacc, hrep⟩ := hfound (hfinds.trans hf)
      obtain ⟨q, pipe₁, hq, hm₁⟩ := exists_of_mem_queue hx hm
      obtain ⟨pipe₂, hq₂, hm₂⟩ := hinbox q pipe₁ hq m hm₁
      have hne : requests es ≠ [] := h.sent fun hpas => by
        simp [Req.Accepts, nnReqInprogress, hpas] at hacc
      refine Replied.snoc ⟨hne, q, m, g, h.arrived q pipe₂ hq₂ m hm₂, hs, ?_, hrep⟩ (by simp)
      rw [hacc.2, ← h.id]

end Recalls

omit [DecidableEq P] in
theorem Sock.init_recalls (lastid : UInt32) : (Sock.init lastid : Sock P).Recalls lastid [] where
  arrived _ _ hp := nomatch hp
  id := by simp [Sock.init, nnReqInit, requestId, requests]
  request _ h := nomatch h
  sent h := absurd rfl h
  reply h := by rcases h with h | h <;> cases h

theorem Sock.Recalls.of_trace {lastid : UInt32} {es : List (Event P)} {s : Sock P}
    (h : Trace Sock.step (fun s e => Enabled s e ∧ s.Spares e) (Sock.init lastid) es s) :
    s.Inv ∧ (s.state = .active → s.Recalls lastid es) := by
  refine h.invariant (I := fun es s => s.Inv ∧ (s.state = .active → s.Recalls lastid es))
    ⟨Sock.init_inv lastid, fun _ => Sock.init_recalls lastid⟩ ?_
  intro es s e s' a hI he heq
  obtain ⟨hinv, hrec⟩ := hI
  obtain ⟨hinv', hd⟩ := hinv.did he.1 heq
  refine ⟨hinv', fun ha => ?_⟩
  have hs := hd.active ha
  exact (hrec hs).step hs hd he.2 ha

/-- In a run in which every call of `nn_req_in` spares the stored reply, `nn_req_crecv` returns
replies to the most recently submitted request only, as they arrived.  A call of `nn_req_in` that
does not spare the stored reply leaves a terminated message in its place. -/
theorem crecv_returns_reply (lastid : UInt32) (es : List (Event P)) (s : Sock P)
    (h : Trace Sock.step (fun s e => Enabled s e ∧ s.Spares e) (Sock.init lastid) es s) :
    (∀ s' msg, s.step .crecv = .ok (s', .recv msg) → Replied lastid es msg) ∧
    (∀ msg, s.state = .active → (requests es).getLast? = some msg →
      s.req.task.request = { msg with sphdr := nnPutl (requestId lastid es ||| 0x80000000) }) ∧
    ∀ p, Enabled s (.pipeIn p) → s.state = .active →
      s.req.state = .stoppingTimer ∨ s.req.state = .done →
      ∃ s', s.step (.pipeIn p) = .ok (s', .none) ∧
        (s'.req.task.reply = none ↔ ¬ s.Spares (.pipeIn p)) := by
  obtain ⟨hinv, hrec⟩ := Sock.Recalls.of_trace h
  refine ⟨fun s' msg heq => ?_, fun msg ha hlast => (hrec ha).request msg hlast,
    fun p he ha hst => ?_⟩
  · obtain ⟨-, hd⟩ := hinv.did (e := .crecv) trivial heq
    cases hd with
    | quiet _ hne => exact absurd rfl (hne msg)
    | crecv ha hdone => exact (hrec ha).reply (Or.inr hdone)
  · obtain ⟨s', a, heq, -, hd⟩ := hinv.step he fun hr => by
      obtain ⟨-, _, _, h, -⟩ := hr
      cases h
    cases hd with
    | quiet _ _ hnews => cases hnews ha
    | @pipeIn _ pipe x r _ hp _ hact hfq hpipes hx hd =>
      obtain ⟨hfound, hlost, -⟩ := hd.reply hx
      have hfinds := Sock.finds_offered hp hfq hpipes
      have hne : queue x.fq x.pipes ≠ [] := fun hnil =>
        (queue_eq_nil_iff hx).1 hnil p ((hact p).2 (Or.inr rfl))
      refine ⟨_, heq, ?_⟩
      have hsp : s.Spares (.pipeIn p) ↔ s.req.finds (s.offered p) = true :=
        ⟨fun h => h ha hst, fun h _ _ => h⟩
      rw [hsp, Bool.not_eq_true, ← hfinds]
      refine ⟨fun hnone => ?_, fun hf => hlost hf (Or.inl hne)⟩
      by_contra hf
      obtain ⟨-, -, g, -, -, hrep⟩ := hfound (by simpa using hf)
      change r.task.reply = none at hnone
      rw [hnone] at hrep
      cases hrep

instance (s : Sock P) (e : Event P) : Decidable (s.Spares e) :=
  match e with
  | .pipeIn _ => inferInstanceAs (Decidable (_ → _ → _))
  | .add _ _ _ | .rm _ | .arrive _ _ | .sent _ | .pipeOut _ _ | .csend _ _ |
      .crecv | .setResendIvl _
  | .runTask _ | .expire | .close | .stop => inferInstanceAs (Decidable True)

/-- The bytes of a reply to the request with the id 8 and the body `b`. -/
def replyTo8 (b : UInt8) : Inbound := { msg := ⟨[], [], [0x80, 0, 0, 8, b]⟩, parsed := false }

/-- A request is sent, and its reply arrives and is stored. -/
def repliedRun : List (Event (Fin 1)) :=
  [.add 0 1 1, .pipeOut 0 true, .csend ⟨[], [], [1]⟩ true, .runTask true, .arrive 0 (replyTo8 2),
    .pipeIn 0, .runTask true]

/-- A second copy of the reply, as after a re-send. -/
def duplicateRun : List (Event (Fin 1)) := repliedRun ++ [.arrive 0 (replyTo8 3), .pipeIn 0]

theorem duplicateRun_returns :
    (runWhile Sock.step (fun s e => Enabled s e ∧ s.Spares e) (Sock.init 7)
      duplicateRun).isSome := by
  decide

theorem crecv_returns_reply_duplicate :
    ∃ s s' : Sock (Fin 1), Trace Sock.step (fun s e => Enabled s e ∧ s.Spares e)
      (Sock.init 7) duplicateRun s ∧ s.step .crecv = .ok (s', .recv (some ⟨[], [], [3]⟩)) ∧
      Replied 7 duplicateRun (some ⟨[], [], [3]⟩) := by
  have htr := Trace.of_runWhile duplicateRun_returns
  have h := crecv_returns_reply 7 duplicateRun _ htr
  exact ⟨_, _, htr, rfl, h.1 _ _ rfl⟩

/-- A late copy of the reply to the previous request, whose id was 7. -/
def staleRun : List (Event (Fin 1)) :=
  repliedRun ++ [.arrive 0 { msg := ⟨[], [], [0x80, 0, 0, 7, 4]⟩, parsed := false }, .pipeIn 0]

theorem staleRun_returns : (runWhile Sock.step Enabled (Sock.init 7) staleRun).isSome := by
  decide

/-- The stale reply destroys the stored one: the user gets a terminated message. -/
theorem crecv_returns_terminated :
    ¬ ∀ (es : List (Event (Fin 1))) (s s' : Sock (Fin 1)) (msg : Option Msg),
      Trace Sock.step Enabled (Sock.init 7) es s → s.step .crecv = .ok (s', .recv msg) →
      Replied 7 es msg := by
  intro h
  obtain ⟨-, _, _, _, -, -, -, hmsg⟩ := h staleRun _ _ none (Trace.of_runWhile staleRun_returns) rfl
  cases hmsg

end NanoSocket.ReqRep

import NanoSocket.Protocols.Dist

/-!
# Raw BUS sockets (`protocols/bus/xbus.c`)

A raw BUS socket puts the pointer of the pipe that a message came from into its header, and does not
give a message to the pipe whose pointer is in its header.

`Xbus.Wf` is the invariant.  `nnXbusRecv_spec` and `nnXbusSend_spec` say what the two calls do: a
message is taken from an inbox and marked, and a marked message goes to every pipe that can send but
the one that it came from.

The bytes of a pointer are the parameter `addr`.  A pointer in a header is only compared with those
of attached pipes.  A pipe is its pointer here: when a pipe is attached at the address of one that
was removed, it is the same pipe again, and a message that came from the old one is not given to the
new one, as in the source.
-/

namespace NanoSocket.Bus

variable {P : Type} [DecidableEq P]

/-- `struct nn_xbus` and the pipes attached to it. -/
structure Xbus (P : Type) where
  outpipes : Dist P
  inpipes : Priolist P
  pipes : P → Option Pipe

/-- `nn_xbus_init`. -/
def nnXbusInit : Xbus P := { outpipes := nnDistInit, inpipes := .init, pipes := fun _ => none }

/-- `nn_xbus_add`, called by `nn_pipebase_start`; `nn_dist_add` has nothing to do before the first
`OUT` event. -/
def nnXbusAdd (self : Xbus P) (pipe : P) (rcvprio : Fin 16) : Xbus P :=
  { self with
    inpipes := self.inpipes.add pipe rcvprio
    pipes := Function.update self.pipes pipe (some nnPipebaseStart) }

/-- `nn_xbus_rm`. -/
def nnXbusRm (self : Xbus P) (pipe : P) : Xbus P :=
  { inpipes := self.inpipes.rm pipe
    outpipes := nnDistRm self.outpipes pipe
    pipes := Function.update self.pipes pipe none }

/-- `nn_xbus_in`. -/
def nnXbusIn (self : Xbus P) (pipe : P) : Except Fault (Xbus P) :=
  return { self with inpipes := ← self.inpipes.activate pipe }

/-- `nn_xbus_out`. -/
def nnXbusOut (self : Xbus P) (pipe : P) : Except Fault (Xbus P) :=
  return { self with outpipes := ← nnDistOut self.outpipes pipe }

/-- The attached pipe that a pointer leads to. -/
def pipeAt (addr : P → List UInt8) (self : Xbus P) (hdr : List UInt8) : Option P :=
  self.outpipes.pipes.find? fun p => addr p = hdr

/-- `nn_xbus_send`; `false` is `-EINVAL`. -/
def nnXbusSend (addr : P → List UInt8) (self : Xbus P) (msg : Msg) (sync : P → Bool) :
    Except Fault (Bool × Xbus P) :=
  let hdrsz := msg.sphdr.length
  if hdrsz = 0 then do
    let (outpipes, pipes) ← nnDistSend self.outpipes self.pipes msg none sync
    return (true, { self with outpipes, pipes })
  else if hdrsz = 8 then do
    let exclude := pipeAt addr self msg.sphdr
    let (outpipes, pipes) ← nnDistSend self.outpipes self.pipes
      { msg with sphdr := [] } exclude sync
    return (true, { self with outpipes, pipes })
  else .ok (false, self)

/-- The loop of `nn_xbus_recv`, with the pipe that the message came from; `none` is `-EAGAIN`. -/
def xbusRecvLoop (addr : P → List UInt8) : ℕ → Xbus P → Except Fault (Option (P × Msg) × Xbus P)
  | 0, _ => .error .diverged
  | n + 1, self => do
    let (r, inpipes, pipes) ← nnFqRecv self.inpipes self.pipes
    let self := { self with inpipes, pipes }
    match r with
    | none => return (none, self)
    | some (pipe, m) =>
      -- drop malformed messages
      if m.msg.sphdr.length = 0 then return (some (pipe, { m.msg with sphdr := addr pipe }), self)
      else xbusRecvLoop addr n self

/-- `nn_xbus_recv`; every round takes a message. -/
def nnXbusRecv (addr : P → List UInt8) (self : Xbus P) : Except Fault (Option (P × Msg) × Xbus P) :=
  xbusRecvLoop addr (pending self.inpipes self.pipes + 1) self

/-! ### The socket -/

/-- The invariant of a raw BUS socket. -/
structure Xbus.Wf (x : Xbus P) : Prop where
  pipes : PipesWf x.pipes
  inpipes : Ready Pipe.InReady x.inpipes x.pipes
  outpipes : x.outpipes.Ready x.pipes
  full : x.outpipes.Full x.pipes

/-- Messages were taken from the pipes of `x`, in order. -/
def Drained (x x' : Xbus P) : Prop :=
  ∀ p pipe', x'.pipes p = some pipe' →
    ∃ pipe, x.pipes p = some pipe ∧ pipe'.outbox = pipe.outbox ∧ pipe'.inbox <:+ pipe.inbox

section Socket

variable {x x' x'' : Xbus P} {p : P} {pipe pipe' : Pipe}

omit [DecidableEq P] in
theorem nnXbusInit_wf : (nnXbusInit : Xbus P).Wf := by
  refine ⟨?_, ⟨Priolist.init_wf, fun p h => absurd h (Priolist.not_active_init p)⟩,
    nnDistInit_ready _, ?_⟩
  · rintro p pipe ⟨⟩
  · rintro p pipe ⟨⟩

theorem nnXbusAdd_wf (h : x.Wf) (hp : x.pipes p = none) (rcvprio : Fin 16) :
    (nnXbusAdd x p rcvprio).Wf := by
  refine ⟨h.pipes.update p nnPipebaseStart_wf, h.inpipes.add hp _,
    h.outpipes.update fun hm => absurd hm (h.outpipes.not_mem hp),
      h.full.update (fun _ hq _ => hq) ?_⟩
  rintro ⟨-, ⟨⟩⟩

theorem nnXbusRm_wf (h : x.Wf) (p : P) : (nnXbusRm x p).Wf :=
  ⟨h.pipes.remove p, h.inpipes.remove p, h.outpipes.remove p, h.full.remove p⟩

omit [DecidableEq P] in
theorem Xbus.Wf.mem_iff (h : x.Wf) (hp : x.pipes p = some pipe) :
    p ∈ x.outpipes.pipes ↔ pipe.OutReady :=
  ⟨h.outpipes.of_mem hp, h.full p pipe hp⟩

/-- Changing a pipe, with what its lists need to know about it. -/
theorem Xbus.Wf.update (h : x.Wf) (hwf : pipe'.Wf) (hin : x.inpipes.Active p → pipe'.InReady)
    (hout : p ∈ x.outpipes.pipes ↔ pipe'.OutReady) :
    Xbus.Wf { x with pipes := Function.update x.pipes p (some pipe') } :=
  ⟨h.pipes.update p hwf, h.inpipes.update hin, h.outpipes.update hout.1,
    h.full.update (fun _ hq _ => hq) hout.2⟩

/-- The `IN` event of a pipe. -/
theorem nnXbusIn_spec (h : x.Wf) (hp : x.pipes p = some pipe) (hraised : pipe.inRaised = true) :
    ∃ x', nnXbusIn { x with
      pipes := Function.update x.pipes p (some { pipe with inRaised := false }) } p = .ok x' ∧
      x'.Wf ∧ x'.pipes = Function.update x.pipes p (some { pipe with inRaised := false }) := by
  have hw := h.pipes p pipe hp
  have hna : ¬ x.inpipes.Active p := by
    intro ha
    have := (h.inpipes.of_active hp ha).2
    rw [hraised] at this
    cases this
  have hout := h.mem_iff hp
  have hpopped : Xbus.Wf { x with
    pipes := Function.update x.pipes p (some { pipe with inRaised := false }) } :=
    h.update ⟨hw.instate, hw.outstate, by simp, hw.outRaised⟩ (fun ha => absurd ha hna) hout
  obtain ⟨inpipes, heq, hready, -⟩ :=
    hpopped.inpipes.activate (Function.update_self ..) ⟨hw.inRaised hraised, rfl⟩ hna
  refine ⟨⟨x.outpipes, inpipes, Function.update x.pipes p (some { pipe with inRaised := false })⟩,
    ?_, ⟨hpopped.pipes, hready, hpopped.outpipes, hpopped.full⟩, rfl⟩
  rw [nnXbusIn, heq]
  rfl

/-- The `OUT` event of a pipe. -/
theorem nnXbusOut_spec (h : x.Wf) (hp : x.pipes p = some pipe) (hraised : pipe.outRaised = true) :
    ∃ x', nnXbusOut { x with
      pipes := Function.update x.pipes p (some { pipe with outRaised := false }) } p = .ok x' ∧
      x'.Wf ∧ x'.pipes = Function.update x.pipes p (some { pipe with outRaised := false }) := by
  have hw := h.pipes p pipe hp
  have hnm : p ∉ x.outpipes.pipes := by
    intro hm
    have := (h.outpipes.of_mem hp hm).2
    rw [hraised] at this
    cases this
  have hready :
      x.outpipes.Ready (Function.update x.pipes p (some { pipe with outRaised := false })) :=
    h.outpipes.update fun hm => absurd hm hnm
  obtain ⟨outpipes, heq, hready', hpipes⟩ :=
    hready.out (Function.update_self ..) ⟨hw.outRaised hraised, rfl⟩ hnm
  refine ⟨⟨outpipes, x.inpipes, Function.update x.pipes p (some { pipe with outRaised := false })⟩,
    ?_, ⟨?_, ?_, hready', ?_⟩, rfl⟩
  · rw [nnXbusOut, heq]
    rfl
  · exact h.pipes.update p ⟨hw.instate, hw.outstate, hw.inRaised, by simp⟩
  · exact h.inpipes.update fun ha => ⟨(h.inpipes.of_active hp ha).1, (h.inpipes.of_active hp ha).2⟩
  · apply h.full.update
    · intro q hq _
      exact hpipes ▸ List.mem_append_left _ hq
    · intro _
      exact hpipes ▸ List.mem_append_right _ (List.mem_singleton_self p)

omit [DecidableEq P] in
theorem Drained.refl (x : Xbus P) : Drained x x :=
  fun _ pipe' hp => ⟨pipe', hp, rfl, List.suffix_rfl⟩

omit [DecidableEq P] in
theorem Drained.trans (h : Drained x x') (h' : Drained x' x'') : Drained x x'' := by
  intro p pipe'' hp
  obtain ⟨pipe', hp', hout', hin'⟩ := h' p pipe'' hp
  obtain ⟨pipe, hp, hout, hin⟩ := h p pipe' hp'
  exact ⟨pipe, hp, hout'.trans hout, hin'.trans hin⟩

/-- One message is taken. -/
theorem Drained.of_taken {m : Inbound} {rest : List Inbound} {fq' : Priolist P}
    (h : Taken x.inpipes x.pipes p pipe m rest fq' pipe') :
    Drained x ⟨x.outpipes, fq', Function.update x.pipes p (some pipe')⟩ := by
  intro q r hq
  by_cases hqp : q = p
  · subst hqp
    simp only [Function.update_self, Option.some.injEq] at hq
    subst hq
    exact ⟨pipe, h.attached, h.outbox, h.inbox' ▸ h.inbox ▸ List.suffix_cons m rest⟩
  · simp only [Function.update_of_ne hqp] at hq
    exact ⟨r, hq, rfl, List.suffix_rfl⟩

theorem Xbus.Wf.taken (hx : x.Wf) {m : Inbound} {rest : List Inbound} {fq' : Priolist P}
    (h : Taken x.inpipes x.pipes p pipe m rest fq' pipe') :
    Xbus.Wf ⟨x.outpipes, fq', Function.update x.pipes p (some pipe')⟩ := by
  have hout : p ∈ x.outpipes.pipes ↔ pipe'.OutReady := by
    rw [hx.mem_iff h.attached, Pipe.OutReady, Pipe.OutReady, h.outstate, h.outRaised]
  exact ⟨hx.pipes.update p h.wf, h.ready, hx.outpipes.update hout.1,
    hx.full.update (fun _ hq _ => hq) hout.2⟩

/-- What a call of `nn_xbus_recv` hands out: a message from an inbox, marked with its pipe. -/
def Marked (addr : P → List UInt8) (x : Xbus P) (r : Option (P × Msg)) : Prop :=
  ∀ p msg, r = some (p, msg) → msg.sphdr = addr p ∧
    ∃ pipe, x.pipes p = some pipe ∧ ∃ m ∈ pipe.inbox, m.msg.body = msg.body

/-- A message without a header is taken and marked; those with a header are dropped. -/
theorem xbusRecvLoop_spec {addr : P → List UInt8} {n : ℕ} (h : x.Wf)
    (hn : pending x.inpipes x.pipes < n) :
    ∃ r x', xbusRecvLoop addr n x = .ok (r, x') ∧ x'.Wf ∧ Drained x x' ∧ Marked addr x r := by
  induction n generalizing x with
  | zero => exact absurd hn (Nat.not_lt_zero _)
  | succ n ih =>
    rw [xbusRecvLoop]
    rcases nnFqRecv_spec h.pipes h.inpipes with ⟨-, heq⟩ | ⟨p, pipe, m, rest, fq', pipe', ht, heq⟩
    · refine ⟨none, x, by rw [heq]; rfl, h, .refl x, ?_⟩
      rintro p msg ⟨⟩
    · have hact : x.inpipes.Active p := by
        rcases h.inpipes.wf.getpipe with ⟨hnone, -⟩ | ⟨q, hq, hqa⟩
        · cases ht.next.symm.trans hnone
        · cases ht.next.symm.trans hq
          exact hqa
      let x' : Xbus P := ⟨x.outpipes, fq', Function.update x.pipes p (some pipe')⟩
      have hwf : x'.Wf := h.taken ht
      have hdrained : Drained x x' := .of_taken ht
      rw [heq, ok_bind]
      by_cases hhdr : m.msg.sphdr.length = 0
      · refine ⟨some (p, { m.msg with sphdr := addr p }), x', if_pos hhdr, hwf, hdrained, ?_⟩
        rintro q msg ⟨⟩
        exact ⟨rfl, pipe, ht.attached, m, ht.inbox ▸ List.mem_cons_self, rfl⟩
      · have hlt : pending x'.inpipes x'.pipes < n :=
          lt_of_lt_of_le (ht.pending_lt h.inpipes.wf hact) (Nat.lt_succ_iff.1 hn)
        obtain ⟨r, x'', hloop, hwf', hdrained', hmarked⟩ := ih hwf hlt
        refine ⟨r, x'', (if_neg hhdr).trans hloop, hwf', hdrained.trans hdrained', ?_⟩
        intro q msg hr
        obtain ⟨hsphdr, pipe'', hq, m', hm', hbody⟩ := hmarked q msg hr
        obtain ⟨pipe₀, hq₀, -, hsuffix⟩ := hdrained q pipe'' hq
        exact ⟨hsphdr, pipe₀, hq₀, m', hsuffix.subset hm', hbody⟩

theorem nnXbusRecv_spec (addr : P → List UInt8) (h : x.Wf) :
    ∃ r x', nnXbusRecv addr x = .ok (r, x') ∧ x'.Wf ∧ Drained x x' ∧ Marked addr x r :=
  xbusRecvLoop_spec h (Nat.lt_succ_self _)

omit [DecidableEq P] in
/-- The pointer in a marked message leads to the pipe that it came from. -/
theorem pipeAt_iff {addr : P → List UInt8} (haddr : Function.Injective addr) {origin q : P}
    (hq : q ∈ x.outpipes.pipes) : some q = pipeAt addr x (addr origin) ↔ q = origin := by
  rw [pipeAt]
  constructor
  · intro hfind
    exact haddr (by simpa using List.find?_some hfind.symm)
  · rintro rfl
    cases hfind : x.outpipes.pipes.find? fun p => addr p = addr q with
    | none =>
      have := List.find?_eq_none.1 hfind q hq
      simp at this
    | some p =>
      have hp : addr p = addr q := by simpa using List.find?_some hfind
      rw [haddr hp]

/-- A message that is marked with its pipe goes to all pipes that can send but this one. -/
theorem nnXbusSend_spec {addr : P → List UInt8} (haddr : Function.Injective addr)
    (hlen : ∀ p, (addr p).length = 8) (h : x.Wf) {origin : P} {msg : Msg}
    (hhdr : msg.sphdr = addr origin) (sync : P → Bool) :
    ∃ x', nnXbusSend addr x msg sync = .ok (true, x') ∧ x'.Wf ∧
      ∀ q pipe', x'.pipes q = some pipe' → ∃ pipe, x.pipes q = some pipe ∧
        pipe'.inbox = pipe.inbox ∧
        pipe'.outbox = pipe.outbox ++ if pipe.OutReady ∧ q ≠ origin then [{ msg with sphdr := [] }]
          else [] := by
  obtain ⟨d', pipes', heq, hready, hsent⟩ :=
    nnDistSend_spec h.pipes h.outpipes { msg with sphdr := [] } (pipeAt addr x msg.sphdr) sync
  have hsize : msg.sphdr.length = 8 := hhdr ▸ hlen origin
  have hinward : ∀ {q pipe'}, pipes' q = some pipe' → ∃ pipe, x.pipes q = some pipe ∧
      pipe.inbox = pipe'.inbox ∧ pipe.inRaised = pipe'.inRaised := by
    intro q pipe' hq
    have hmap := hsent.inward q
    rw [hq] at hmap
    obtain ⟨pipe, hp, heq'⟩ := Option.map_eq_some_iff.1 hmap.symm
    exact ⟨pipe, hp, congrArg Prod.fst heq', congrArg Prod.snd heq'⟩
  have hin : Ready Pipe.InReady x.inpipes pipes' := by
    refine ⟨h.inpipes.wf, fun p hp => ?_⟩
    obtain ⟨pipe, hpipe, hin⟩ := h.inpipes.ready p hp
    have hmap := hsent.inward p
    rw [hpipe] at hmap
    obtain ⟨pipe', hp', -⟩ := Option.map_eq_some_iff.1 hmap
    obtain ⟨r, hr, hinbox, hraised⟩ := hinward hp'
    cases hpipe.symm.trans hr
    exact ⟨pipe', hp', hinbox ▸ hin.1, hraised ▸ hin.2⟩
  refine ⟨⟨d', x.inpipes, pipes'⟩, ?_,
    ⟨hsent.pipesWf h.pipes, hin, hready, nnDistSend_full h.pipes h.outpipes h.full heq hsent⟩, ?_⟩
  · rw [nnXbusSend]
    simp [hsize, heq]
  · intro q pipe' hq
    obtain ⟨pipe, hp, hinbox, -⟩ := hinward hq
    refine ⟨pipe, hp, hinbox.symm, ?_⟩
    by_cases hm : q ∈ x.outpipes.pipes
    · obtain ⟨r, r', hr, hr', hg⟩ := hsent.given q hm
      cases hp.symm.trans hr
      cases hq.symm.trans hr'
      simp only [hg.outbox, copies, hm, true_and, (h.mem_iff hp).1 hm, hhdr, Ne,
        pipeAt_iff haddr hm]
    · have hnot : ¬ pipe.OutReady := mt (h.mem_iff hp).2 hm
      cases hq.symm.trans ((hsent.others q hm).trans hp)
      simp [hnot]

end Socket

end NanoSocket.Bus

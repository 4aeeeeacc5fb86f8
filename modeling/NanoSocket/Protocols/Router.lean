import NanoSocket.Core.Hash
import NanoSocket.Protocols.Fq

/-!
# Raw REP and raw RESPONDENT sockets (`reqrep/xrep.c`, `survey/xrespondent.c`)

The two files are the same code under two names.  A pipe gets a key when it is added.  A message
that is received from it has the key put before its header, which is the backtrace of the message; a
message that is sent is routed by the first key of its header, and dropped when there is no such
pipe or when it cannot send.

`Router` is the socket and `Router.add`, `Router.send` and so on are the functions; each of the two
sockets has them under its own names.  `Router.Wf` is the invariant, and every function has one
lemma that says that it returns, keeps the invariant and has the expected effect.
-/

namespace NanoSocket

variable {P : Type} [DecidableEq P]

/-- `struct nn_xrep_data`: the key of the item in the hash table and the flag `NN_XREP_OUT`. -/
structure RouteData where
  key : UInt32
  out : Bool
  deriving DecidableEq, Repr

/-- `struct nn_xrep` and the pipes attached to it.  The option `NN_MAXTTL` belongs to the socket
core. -/
structure Router (P : Type) where
  nextKey : UInt32
  outpipes : Hash P
  inpipes : Priolist P
  data : P → Option RouteData
  pipes : P → Option Pipe
  maxttl : ℕ

namespace Router

/-- `nn_xrep_init`: the random number `nextKey` is arbitrary. -/
def init (nextKey : UInt32) : Router P :=
  { nextKey := nextKey, outpipes := nnHashInit, inpipes := .init, data := fun _ => none,
    pipes := fun _ => none, maxttl := 8 }

/-- `nn_xrep_add`, called by `nn_pipebase_start`. -/
def add (self : Router P) (pipe : P) (rcvprio : Fin 16) : Except Fault (Router P) := do
  let key := self.nextKey &&& 0x7fffffff
  let outpipes ← nnHashInsert self.outpipes key pipe
  return { self with
    nextKey := self.nextKey + 1
    outpipes := outpipes
    inpipes := self.inpipes.add pipe rcvprio
    data := Function.update self.data pipe (some { key := key, out := false })
    pipes := Function.update self.pipes pipe (some nnPipebaseStart) }

/-- `nn_xrep_rm`. -/
def rm (self : Router P) (pipe : P) : Except Fault (Router P) :=
  match self.data pipe with
  | none => .error .nullDeref
  | some data => do
    let outpipes ← nnHashErase self.outpipes data.key pipe
    return { self with
      outpipes := outpipes
      inpipes := self.inpipes.rm pipe
      data := Function.update self.data pipe none
      pipes := Function.update self.pipes pipe none }

/-- `nn_xrep_in`. -/
def pipeIn (self : Router P) (pipe : P) : Except Fault (Router P) :=
  return { self with inpipes := ← self.inpipes.activate pipe }

/-- `nn_xrep_out`. -/
def pipeOut (self : Router P) (pipe : P) : Except Fault (Router P) :=
  match self.data pipe with
  | none => .error .nullDeref
  | some data =>
    .ok { self with data := Function.update self.data pipe (some { data with out := true }) }

/-- `nn_xrep_send`. -/
def send (self : Router P) (msg : Msg) (sync : Bool) : Except Fault (Router P) :=
  -- an invalid peer id is treated as if the peer was non-existent
  if msg.sphdr.length < 4 then .ok self
  else do
    let key ← nnGetl msg.sphdr
    let msg := { msg with sphdr := msg.sphdr.drop 4 }
    match nnHashGet self.outpipes key with
    | none => return self
    | some p =>
      match self.data p, self.pipes p with
      | some data, some pipe =>
        if !data.out then return self
        let (release, pipe) ← nnPipeSend pipe msg sync
        return { self with
          data := Function.update self.data p (some { data with out := data.out && !release })
          pipes := Function.update self.pipes p (some pipe) }
      | _, _ => throw .nullDeref

/-- The loop of `nn_xrep_recv` from the word `i` on: the number of words down to the bottom of the
stack. -/
def headerWords (body : List UInt8) (i : ℕ) : Except Fault (Option ℕ) :=
  -- malformed requests without the bottom of the stack
  if _h : (i + 1) * 4 > body.length then .ok none
  else do
    let word ← nnGetl (body.drop (i * 4))
    if word &&& 0x80000000 ≠ 0 then return some (i + 1)
    headerWords body (i + 1)
termination_by body.length - i * 4

/-- Split the header and the body, unless the transport did. -/
def split (maxttl : ℕ) (m : Inbound) : Except Fault Got :=
  if m.parsed then .ok (.msg m.msg)
  else do
    match ← headerWords m.msg.body 0 with
    | none => return .malformed
    | some i =>
      if i > maxttl then return .malformed
      nnAssert (m.msg.sphdr = [])
      return .msg { m.msg with sphdr := m.msg.body.take (i * 4), body := m.msg.body.drop (i * 4) }

/-- `nn_xrep_recv`. -/
def recv (self : Router P) : Except Fault (Got × Router P) := do
  let (r, inpipes, pipes) ← nnFqRecv self.inpipes self.pipes
  let self := { self with inpipes := inpipes, pipes := pipes }
  match r with
  | none => return (.empty, self)
  | some (p, m) =>
    match ← split self.maxttl m with
    | .msg msg =>
      -- prepend the header by the pipe key
      match self.data p with
      | none => throw .nullDeref
      | some data => return (.msg { msg with sphdr := nnPutl data.key ++ msg.sphdr }, self)
    | got => return (got, self)

end Router

/-! ### The two sockets -/

/-- `nn_xrep_add`. -/
def nnXrepAdd (self : Router P) (pipe : P) (rcvprio : Fin 16) := self.add pipe rcvprio

/-- `nn_xrep_rm`. -/
def nnXrepRm (self : Router P) (pipe : P) := self.rm pipe

/-- `nn_xrep_in`. -/
def nnXrepIn (self : Router P) (pipe : P) := self.pipeIn pipe

/-- `nn_xrep_out`. -/
def nnXrepOut (self : Router P) (pipe : P) := self.pipeOut pipe

/-- `nn_xrep_send`. -/
def nnXrepSend (self : Router P) (msg : Msg) (sync : Bool) := self.send msg sync

/-- `nn_xrep_recv`. -/
def nnXrepRecv (self : Router P) := self.recv

/-- `nn_xrespondent_add`. -/
def nnXrespondentAdd (self : Router P) (pipe : P) (rcvprio : Fin 16) := self.add pipe rcvprio

/-- `nn_xrespondent_rm`. -/
def nnXrespondentRm (self : Router P) (pipe : P) := self.rm pipe

/-- `nn_xrespondent_in`. -/
def nnXrespondentIn (self : Router P) (pipe : P) := self.pipeIn pipe

/-- `nn_xrespondent_out`. -/
def nnXrespondentOut (self : Router P) (pipe : P) := self.pipeOut pipe

/-- `nn_xrespondent_send`. -/
def nnXrespondentSend (self : Router P) (msg : Msg) (sync : Bool) := self.send msg sync

/-- `nn_xrespondent_recv`. -/
def nnXrespondentRecv (self : Router P) := self.recv

/-! ### The invariant -/

namespace Router

/-- The invariant of a router: the hash table maps the keys of the attached pipes to them, and a
pipe with the flag `NN_XREP_OUT` can send. -/
structure Wf (x : Router P) : Prop where
  pipes : PipesWf x.pipes
  inpipes : Ready Pipe.InReady x.inpipes x.pipes
  inbox : ∀ p pipe, x.pipes p = some pipe → ∀ m ∈ pipe.inbox, m.Wf
  data : ∀ p, (x.data p).isSome ↔ (x.pipes p).isSome
  out : ∀ p d pipe, x.data p = some d → x.pipes p = some pipe → d.out = true → pipe.OutReady
  table : x.outpipes.Good
  get : ∀ k p, nnHashGet x.outpipes k = some p ↔ ∃ d, x.data p = some d ∧ d.key = k
  top : ∀ p d, x.data p = some d → d.key &&& 0x80000000 = 0
  ttl : x.maxttl ≤ 255

omit [DecidableEq P] in
theorem init_wf (nextKey : UInt32) : (init nextKey : Router P).Wf where
  pipes _ _ h := nomatch h
  inpipes := ⟨Priolist.init_wf, fun p h => absurd h (Priolist.not_active_init p)⟩
  inbox _ _ h := nomatch h
  data _ := by simp [init]
  out _ _ _ h := nomatch h
  table := nnHashInit_good
  get k p := by simp [init, nnHashGet_init]
  top _ _ h := nomatch h
  ttl := by simp [init]

omit [DecidableEq P] in
theorem Wf.data_of_pipe {x : Router P} (h : x.Wf) {p : P} {pipe : Pipe}
    (hp : x.pipes p = some pipe) :
    ∃ d, x.data p = some d := Option.isSome_iff_exists.1 ((h.data p).2 (by simp [hp]))

omit [DecidableEq P] in
theorem Wf.pipe_of_data {x : Router P} (h : x.Wf) {p : P} {d : RouteData} (hd : x.data p = some d) :
    ∃ pipe, x.pipes p = some pipe := Option.isSome_iff_exists.1 ((h.data p).1 (by simp [hd]))

omit [DecidableEq P] in
/-- Two attached pipes have different keys. -/
theorem Wf.eq_of_key {x : Router P} (h : x.Wf) {p q : P} {d e : RouteData} (hp : x.data p = some d)
    (hq : x.data q = some e) (hk : d.key = e.key) : p = q := by
  have hgp := (h.get d.key p).2 ⟨d, hp, rfl⟩
  have hgq := (h.get d.key q).2 ⟨e, hq, hk.symm⟩
  rw [hgp] at hgq
  exact Option.some.inj hgq

omit [DecidableEq P] in
theorem Wf.get_eq_none_iff {x : Router P} (h : x.Wf) {k : UInt32} :
    nnHashGet x.outpipes k = none ↔ ∀ q d, x.data q = some d → d.key ≠ k := by
  constructor
  · rintro hnone q d hd rfl
    rw [(h.get d.key q).2 ⟨d, hd, rfl⟩] at hnone
    cases hnone
  · intro hne
    cases hget : nnHashGet x.outpipes k with
    | none => rfl
    | some p =>
      obtain ⟨d, hd, hk⟩ := (h.get k p).1 hget
      exact absurd hk (hne p d hd)

/-- Changing an attached pipe, its flag and the fair queue. -/
theorem Wf.update {x : Router P} (h : x.Wf) {p : P} {d : RouteData} (hd : x.data p = some d)
    {pipe : Pipe} (out : Bool) (hwf : pipe.Wf) {fq : Priolist P}
    (hin : Ready Pipe.InReady fq (Function.update x.pipes p (some pipe)))
    (hinbox : ∀ m ∈ pipe.inbox, m.Wf) (hout : out = true → pipe.OutReady) :
    Wf { x with
      inpipes := fq
      data := Function.update x.data p (some { d with out := out })
      pipes := Function.update x.pipes p (some pipe) } := by
  refine ⟨h.pipes.update p hwf, hin, fun q r hq => ?_, fun q => ?_, fun q e r he hr => ?_, h.table,
    fun k q => ?_, fun q e he => ?_, h.ttl⟩
  all_goals by_cases hqp : q = p
  · subst hqp
    simp only [Function.update_self] at hq
    cases hq
    exact hinbox
  · simp only [Function.update_of_ne hqp] at hq
    exact h.inbox q r hq
  · subst hqp
    simp
  · simpa only [Function.update_of_ne hqp] using h.data q
  · subst hqp
    simp only [Function.update_self] at he hr
    cases he
    cases hr
    exact hout
  · simp only [Function.update_of_ne hqp] at he hr
    exact h.out q e r he hr
  · subst hqp
    rw [h.get k q]
    simp [hd]
  · rw [h.get k q]
    simp [Function.update_of_ne hqp]
  · subst hqp
    simp only [Function.update_self] at he
    cases he
    exact h.top q d hd
  · simp only [Function.update_of_ne hqp] at he
    exact h.top q e he

/-- What sending, receiving and the events of pipes leave alone. -/
structure Same (x x' : Router P) : Prop where
  nextKey : x'.nextKey = x.nextKey
  key : ∀ q, (x'.data q).map RouteData.key = (x.data q).map RouteData.key

omit [DecidableEq P] in
theorem Same.refl (x : Router P) : Same x x := ⟨rfl, fun _ => rfl⟩

omit [DecidableEq P] in
theorem Same.of_data {x x' : Router P} (hnext : x'.nextKey = x.nextKey) (hdata : x'.data = x.data) :
    Same x x' := ⟨hnext, fun _ => by rw [hdata]⟩

omit [DecidableEq P] in
theorem Same.data_iff {x x' : Router P} (h : Same x x') {p : P} {k : UInt32} :
    (∃ d, x'.data p = some d ∧ d.key = k) ↔ ∃ d, x.data p = some d ∧ d.key = k := by
  have := h.key p
  rw [← Option.map_eq_some_iff, ← Option.map_eq_some_iff, this]

theorem Same.update {x : Router P} {p : P} {d : RouteData} (hd : x.data p = some d) (out : Bool)
    (pipes : P → Option Pipe) :
    Same x { x with data := Function.update x.data p (some { d with out := out }),
                    pipes := pipes } := by
  refine ⟨rfl, fun q => ?_⟩
  by_cases hqp : q = p
  · subst hqp
    simp [hd]
  · simp [Function.update_of_ne hqp]

/-! ### Adding and removing pipes -/

theorem mask_topBit (v : UInt32) : (v &&& 0x7fffffff) &&& 0x80000000 = 0 := by
  rw [UInt32.and_assoc]
  have h : (0x7fffffff : UInt32) &&& 0x80000000 = 0 := by decide
  rw [h, UInt32.and_zero]

/-- A pipe is added when its key is free; otherwise the hash table aborts. -/
theorem Wf.add {x : Router P} (h : x.Wf) {p : P} (hp : x.pipes p = none) (rcvprio : Fin 16) :
    (∀ q d, x.data q = some d → d.key ≠ x.nextKey &&& 0x7fffffff) ∧
      (∃ x', x.add p rcvprio = .ok x' ∧ x'.Wf ∧ x'.nextKey = x.nextKey + 1 ∧
        x'.data = Function.update x.data p
          (some { key := x.nextKey &&& 0x7fffffff, out := false })) ∨
    (∃ q d, x.data q = some d ∧ d.key = x.nextKey &&& 0x7fffffff) ∧
      x.add p rcvprio = .error .assertFailed := by
  have hdn : x.data p = none := by
    have := (h.data p).not
    rw [hp] at this
    simpa using this
  cases hget : nnHashGet x.outpipes (x.nextKey &&& 0x7fffffff) with
  | some q =>
    refine Or.inr ⟨?_, ?_⟩
    · obtain ⟨d, hd, hk⟩ := (h.get _ q).1 hget
      exact ⟨q, d, hd, hk⟩
    · rw [Router.add, nnHashInsert_of_some h.table (by simp [hget])]
      rfl
  | none =>
    have hfree := h.get_eq_none_iff.1 hget
    obtain ⟨table, heq, hgood, hmap⟩ := nnHashInsert_spec h.table hget p
    refine Or.inl ⟨hfree, _, by rw [Router.add, heq]; rfl, ?_, rfl, rfl⟩
    refine ⟨h.pipes.update p nnPipebaseStart_wf, h.inpipes.add hp _, fun q r hq => ?_, fun q => ?_,
      fun q d r hd hr => ?_, hgood, fun k q => ?_, fun q d hd => ?_, h.ttl⟩
    · by_cases hqp : q = p
      · subst hqp
        simp only [Function.update_self] at hq
        cases hq
        exact fun m hm => nomatch hm
      · simp only [Function.update_of_ne hqp] at hq
        exact h.inbox q r hq
    · by_cases hqp : q = p
      · subst hqp
        simp
      · simpa only [Function.update_of_ne hqp] using h.data q
    · by_cases hqp : q = p
      · subst hqp
        simp only [Function.update_self] at hd
        cases hd
        exact fun hout => nomatch hout
      · simp only [Function.update_of_ne hqp] at hd hr
        exact h.out q d r hd hr
    · simp only [hmap]
      by_cases hk : k = x.nextKey &&& 0x7fffffff
      · subst hk
        rw [Function.update_self]
        by_cases hqp : q = p
        · subst hqp
          simp
        · rw [Function.update_of_ne hqp]
          refine iff_of_false (by simpa using Ne.symm hqp) ?_
          rintro ⟨d, hd, hdk⟩
          exact hfree q d hd hdk
      · rw [Function.update_of_ne hk, h.get k q]
        by_cases hqp : q = p
        · subst hqp
          simp [hdn, Ne.symm hk]
        · rw [Function.update_of_ne hqp]
    · by_cases hqp : q = p
      · subst hqp
        simp only [Function.update_self] at hd
        cases hd
        exact mask_topBit x.nextKey
      · simp only [Function.update_of_ne hqp] at hd
        exact h.top q d hd

theorem Wf.rm {x : Router P} (h : x.Wf) {p : P} (hp : (x.pipes p).isSome) :
    ∃ x', x.rm p = .ok x' ∧ x'.Wf ∧ x'.nextKey = x.nextKey ∧
      x'.data = Function.update x.data p none := by
  obtain ⟨d, hd⟩ := Option.isSome_iff_exists.1 ((h.data p).2 hp)
  obtain ⟨table, heq, hgood, hmap⟩ := nnHashErase_spec h.table ((h.get d.key p).2 ⟨d, hd, rfl⟩)
  refine ⟨{ x with
    outpipes := table
    inpipes := x.inpipes.rm p
    data := Function.update x.data p none
    pipes := Function.update x.pipes p none }, ?_, ?_, rfl, rfl⟩
  · simp only [Router.rm, hd, heq]
    rfl
  refine ⟨h.pipes.remove p, h.inpipes.remove p, fun q r hq => ?_, fun q => ?_,
    fun q e r he hr => ?_, hgood, fun k q => ?_, fun q e he => ?_, h.ttl⟩
  all_goals by_cases hqp : q = p
  · subst hqp
    simp at hq
  · simp only [Function.update_of_ne hqp] at hq
    exact h.inbox q r hq
  · subst hqp
    simp
  · simpa only [Function.update_of_ne hqp] using h.data q
  · subst hqp
    simp at he
  · simp only [Function.update_of_ne hqp] at he hr
    exact h.out q e r he hr
  · subst hqp
    simp only [hmap, Function.update_self]
    refine iff_of_false (fun hk => ?_) (by simp)
    by_cases hkd : k = d.key
    · subst hkd
      simp at hk
    · rw [Function.update_of_ne hkd, h.get k q] at hk
      obtain ⟨e, he, hek⟩ := hk
      rw [hd] at he
      cases he
      exact hkd hek.symm
  · simp only [hmap, Function.update_of_ne hqp]
    rw [← h.get k q]
    by_cases hkd : k = d.key
    · subst hkd
      rw [Function.update_self]
      refine iff_of_false (by simp) fun hk => hqp ?_
      obtain ⟨e, he, hek⟩ := (h.get _ q).1 hk
      exact h.eq_of_key he hd hek
    · rw [Function.update_of_ne hkd]
  · subst hqp
    simp at he
  · simp only [Function.update_of_ne hqp] at he
    exact h.top q e he

/-! ### Events of pipes -/

/-- A pipe changes but not its flag: a message arrives or is taken, or a send is completed. -/
theorem Wf.setPipe {x : Router P} (h : x.Wf) {p : P} {pipe pipe' : Pipe}
    (hp : x.pipes p = some pipe) (hwf : pipe'.Wf) {fq : Priolist P}
    (hin : Ready Pipe.InReady fq (Function.update x.pipes p (some pipe')))
    (hinbox : ∀ m ∈ pipe'.inbox, m.Wf) (hout : pipe.OutReady → pipe'.OutReady) :
    Wf { x with inpipes := fq, pipes := Function.update x.pipes p (some pipe') } := by
  obtain ⟨d, hd⟩ := h.data_of_pipe hp
  have := h.update hd d.out hwf hin hinbox fun ho => hout (h.out p d pipe hd hp ho)
  rwa [show (some { d with out := d.out } : Option RouteData) = x.data p from hd.symm,
    Function.update_eq_self] at this

theorem Wf.pipeIn {x : Router P} (h : x.Wf) {p : P} {pipe : Pipe} (hp : x.pipes p = some pipe)
    (hr : pipe.InReady) (hna : ¬ x.inpipes.Active p) :
    ∃ x', x.pipeIn p = .ok x' ∧ x'.Wf ∧ Same x x' := by
  obtain ⟨inpipes, heq, hready, -⟩ := h.inpipes.activate hp hr hna
  refine ⟨{ x with inpipes := inpipes }, ?_,
    ⟨h.pipes, hready, h.inbox, h.data, h.out, h.table, h.get, h.top, h.ttl⟩, rfl, fun _ => rfl⟩
  rw [Router.pipeIn, heq]
  rfl

theorem Wf.pipeOut {x : Router P} (h : x.Wf) {p : P} {pipe : Pipe} (hp : x.pipes p = some pipe)
    (hr : pipe.OutReady) : ∃ x', x.pipeOut p = .ok x' ∧ x'.Wf ∧ Same x x' := by
  obtain ⟨d, hd⟩ := h.data_of_pipe hp
  have hwf := h.update hd true (h.pipes p pipe hp) (h.inpipes.update (h.inpipes.of_active hp))
    (h.inbox p pipe hp) fun _ => hr
  rw [show some pipe = x.pipes p from hp.symm, Function.update_eq_self] at hwf
  exact ⟨_, by simp only [Router.pipeOut, hd], hwf, .update hd true x.pipes⟩

/-! ### Sending -/

/-- The pipe with the key `k` is attached and can send. -/
def Writable (x : Router P) (p : P) (k : UInt32) : Prop :=
  ∃ d, x.data p = some d ∧ d.key = k ∧ d.out = true

/-- A message is dropped, or given to the pipe that its first key names. -/
theorem Wf.send {x : Router P} (h : x.Wf) {msg : Msg} {k : UInt32} {hdr : List UInt8}
    (hmsg : msg.sphdr = nnPutl k ++ hdr) (sync : Bool) :
    ((∀ p, ¬ x.Writable p k) ∧ x.send msg sync = .ok x) ∨
      ∃ p pipe pipe' x', x.Writable p k ∧ x.pipes p = some pipe ∧
        pipe'.outbox = pipe.outbox ++ [{ msg with sphdr := hdr }] ∧
          x.send msg sync = .ok x' ∧ x'.Wf ∧
        Same x x' ∧ x'.pipes = Function.update x.pipes p (some pipe') := by
  have hlen : ¬ msg.sphdr.length < 4 := by simp [hmsg]
  have hkey : nnGetl msg.sphdr = .ok k := by rw [hmsg, nnGetl_nnPutl]
  have hdrop : msg.sphdr.drop 4 = hdr := by
    rw [hmsg, List.drop_append_of_le_length (by simp)]
    rfl
  unfold Router.send
  rw [if_neg hlen, hkey, ok_bind]
  simp only [hdrop]
  cases hget : nnHashGet x.outpipes k with
  | none =>
    refine Or.inl ⟨?_, rfl⟩
    rintro p ⟨d, hd, hk, -⟩
    exact h.get_eq_none_iff.1 hget p d hd hk
  | some p =>
    obtain ⟨d, hd, hk⟩ := (h.get k p).1 hget
    obtain ⟨pipe, hp⟩ := h.pipe_of_data hd
    simp only [hd, hp]
    cases hout : d.out with
    | false =>
      refine Or.inl ⟨?_, rfl⟩
      rintro q ⟨e, he, hek, heout⟩
      obtain rfl := h.eq_of_key he hd (hek.trans hk.symm)
      rw [hd] at he
      cases he
      rw [hout] at heout
      cases heout
    | true =>
      obtain ⟨hidle, hraised⟩ := h.out p d pipe hd hp hout
      obtain ⟨pipe', heq, hinbox, hir, hob, hor, hos, hwf⟩ :=
        (h.pipes p pipe hp).send hidle { msg with sphdr := hdr } sync
      refine Or.inr ⟨p, pipe, pipe', _, ⟨d, hd, hk, hout⟩, hp, hob, ?_, ?_, .update hd sync _, rfl⟩
      · simp only [Bool.not_true, Bool.false_eq_true, if_false, heq, ok_bind,
          Bool.not_not, Bool.true_and]
        rfl
      · refine h.update hd sync (hwf hraised) (h.inpipes.update fun ha => ?_) ?_ fun hs => ?_
        · obtain ⟨hne, hr⟩ := h.inpipes.of_active hp ha
          exact ⟨hinbox ▸ hne, hir.trans hr⟩
        · rw [hinbox]
          exact h.inbox p pipe hp
        · exact ⟨by rw [hos, if_pos hs], hor.trans hraised⟩

/-- Every message can be sent. -/
theorem Wf.send_returns {x : Router P} (h : x.Wf) (msg : Msg) (sync : Bool) :
    ∃ x', x.send msg sync = .ok x' ∧ x'.Wf ∧ Same x x' := by
  by_cases hlen : msg.sphdr.length < 4
  · exact ⟨x, by rw [Router.send, if_pos hlen], h, .refl x⟩
  · obtain ⟨k, hdr, hmsg⟩ := exists_nnPutl_append (not_lt.1 hlen)
    rcases h.send hmsg sync with ⟨-, heq⟩ | ⟨-, -, -, x', -, -, -, heq, hwf, hsame, -⟩
    · exact ⟨x, heq, h, .refl x⟩
    · exact ⟨x', heq, hwf, hsame⟩

/-! ### Receiving -/

/-- The search for the bottom of the stack stays inside the message. -/
theorem headerWords_ok (body : List UInt8) (i : ℕ) : ∃ r, headerWords body i = .ok r := by
  induction hn : body.length - i * 4 using Nat.strong_induction_on generalizing i with
  | _ n ih =>
    rw [headerWords]
    split_ifs with hlen
    · exact ⟨_, rfl⟩
    · obtain ⟨word, hword⟩ :=
        nnGetl_of_length (l := body.drop (i * 4)) (by rw [List.length_drop]; omega)
      rw [hword, ok_bind]
      split_ifs with htop
      · exact ⟨_, rfl⟩
      · exact ih _ (by omega) (i + 1) rfl

theorem split_ok {m : Inbound} (h : m.Wf) (maxttl : ℕ) :
    ∃ g, split maxttl m = .ok g ∧ g ≠ .empty := by
  unfold split
  split_ifs with hp
  · exact ⟨_, rfl, by simp⟩
  · obtain ⟨r, hr⟩ := headerWords_ok m.msg.body 0
    rw [hr, ok_bind]
    cases r with
    | none => exact ⟨_, rfl, by simp⟩
    | some i =>
      simp only
      split_ifs with hi
      · exact ⟨_, rfl, by simp⟩
      · rw [nnAssert_of (h (by simpa using hp))]
        exact ⟨_, rfl, by simp⟩

/-- The message that `nn_xrep_recv` takes next, and its pipe. -/
def next (x : Router P) : Option (P × Inbound) := fqNext x.inpipes x.pipes

/-- Put the key of the pipe before the header. -/
def keyed (key : UInt32) : Got → Got
  | .msg m => .msg { m with sphdr := nnPutl key ++ m.sphdr }
  | g => g

/-- Receiving takes the next message, splits it, and puts the key of its pipe before the header. -/
theorem Wf.recv {x : Router P} (h : x.Wf) :
    (x.next = none ∧ x.recv = .ok (.empty, x)) ∨
      ∃ p m d g pipe pipe' x', x.next = some (p, m) ∧ x.data p = some d ∧ split x.maxttl m = .ok g ∧
        g ≠ .empty ∧ x.recv = .ok (keyed d.key g, x') ∧ x'.Wf ∧ x'.nextKey = x.nextKey ∧
        x'.data = x.data ∧ x.pipes p = some pipe ∧
        x'.pipes = Function.update x.pipes p (some pipe') ∧ pipe.inbox = m :: pipe'.inbox ∧
        pipe'.outbox = pipe.outbox := by
  rcases nnFqRecv_spec h.pipes h.inpipes with ⟨hnone, heq⟩ | ⟨p, pipe, m, rest, fq', pipe', ht, heq⟩
  · exact Or.inl ⟨fqNext_of_not_active h.inpipes.wf hnone, by simp [Router.recv, heq]⟩
  · obtain ⟨d, hd⟩ := h.data_of_pipe ht.attached
    have hin := h.inbox p pipe ht.attached
    rw [ht.inbox] at hin
    obtain ⟨g, hg, hne⟩ := split_ok (hin m List.mem_cons_self) x.maxttl
    have hwf : Wf { x with inpipes := fq', pipes := Function.update x.pipes p (some pipe') } := by
      refine h.setPipe ht.attached ht.wf ht.ready (fun m' hm' => ?_) fun ho => ?_
      · rw [ht.inbox'] at hm'
        exact hin m' (List.mem_cons_of_mem _ hm')
      · exact ⟨ht.outstate.trans ho.1, ht.outRaised.trans ho.2⟩
    refine Or.inr ⟨p, m, d, g, pipe, pipe',
      { x with inpipes := fq', pipes := Function.update x.pipes p (some pipe') }, ?_, hd,
        hg, hne, ?_, hwf,
      rfl, rfl, ht.attached, rfl, by rw [ht.inbox, ht.inbox'], ht.outbox⟩
    · exact ht.fqNext
    · rw [Router.recv, heq, ok_bind]
      simp only [hg, ok_bind]
      cases g with
      | empty => exact absurd rfl hne
      | malformed => rfl
      | msg g =>
        simp only [hd]
        rfl

end Router

end NanoSocket

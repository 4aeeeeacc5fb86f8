import NanoSocket.Core.Pipe
import NanoSocket.Protocols.Priolist

/-!
# The fair queue and the load balancer (`protocols/utils/fq.c`, `lb.c`)

Both are priority lists of pipes: the fair queue holds the pipes that a message can be taken from,
the load balancer those that one can be given to.  `pipes` is what the pipe pointers lead to, `none`
for a pipe that is not attached to the socket.

`Ready good l pipes` says that the list `l` holds attached pipes with the property `good` only; with
`Pipe.InReady` and `Pipe.OutReady` for `good`, neither `nn_pipe_recv` nor `nn_pipe_send` fails an
assertion.
-/

namespace NanoSocket

variable {P : Type} [DecidableEq P]

/-- `nn_fq_recv`: the pipe and its message, `none` being `-EAGAIN`. -/
def nnFqRecv (fq : Priolist P) (pipes : P → Option Pipe) :
    Except Fault (Option (P × Inbound) × Priolist P × (P → Option Pipe)) := do
  match ← fq.getpipe with
  | none => return (none, fq, pipes)
  | some p =>
    match pipes p with
    | none => throw .nullDeref
    | some pipe =>
      let (m, release, pipe) ← nnPipeRecv pipe
      let fq ← fq.advance release
      return (some (p, m), fq, Function.update pipes p (some pipe))

/-- The pipe and the message that `nn_fq_recv` takes next. -/
def fqNext (fq : Priolist P) (pipes : P → Option Pipe) : Option (P × Inbound) :=
  match fq.getpipe with
  | .ok (some p) => (pipes p).bind fun pipe => pipe.inbox.head?.map fun m => (p, m)
  | _ => none

/-- `nn_lb_send`: the pipe that took the message, `none` being `-EAGAIN`. -/
def nnLbSend (lb : Priolist P) (pipes : P → Option Pipe) (msg : Msg) (sync : Bool) :
    Except Fault (Option P × Priolist P × (P → Option Pipe)) := do
  match ← lb.getpipe with
  | none => return (none, lb, pipes)
  | some p =>
    match pipes p with
    | none => throw .nullDeref
    | some pipe =>
      let (release, pipe) ← nnPipeSend pipe msg sync
      let lb ← lb.advance release
      return (some p, lb, Function.update pipes p (some pipe))

/-- Every attached pipe is well formed. -/
def PipesWf (pipes : P → Option Pipe) : Prop := ∀ p pipe, pipes p = some pipe → pipe.Wf

/-- The pipe holds a message and its `IN` event was processed. -/
def Pipe.InReady (p : Pipe) : Prop := p.inbox ≠ [] ∧ p.inRaised = false

/-- The pipe can send and its `OUT` event was processed. -/
def Pipe.OutReady (p : Pipe) : Prop := p.outstate = .idle ∧ p.outRaised = false

/-- The list holds attached pipes that are `good`. -/
structure Ready (good : Pipe → Prop) (l : Priolist P) (pipes : P → Option Pipe) : Prop where
  wf : l.Wf
  ready : ∀ p, l.Active p → ∃ pipe, pipes p = some pipe ∧ good pipe

/-! ### Changing a pipe -/

section Update

variable {pipes : P → Option Pipe} {p : P} {pipe pipe' : Pipe} {good : Pipe → Prop} {l : Priolist P}

theorem PipesWf.update (h : PipesWf pipes) (p : P) (hwf : pipe'.Wf) :
    PipesWf (Function.update pipes p (some pipe')) := by
  intro q r hq
  by_cases hqp : q = p
  · subst hqp
    rw [Function.update_self] at hq
    cases hq
    exact hwf
  · rw [Function.update_of_ne hqp] at hq
    exact h q r hq

theorem PipesWf.remove (h : PipesWf pipes) (p : P) : PipesWf (Function.update pipes p none) := by
  intro q r hq
  by_cases hqp : q = p
  · subst hqp
    rw [Function.update_self] at hq
    cases hq
  · rw [Function.update_of_ne hqp] at hq
    exact h q r hq

omit [DecidableEq P] in
theorem Ready.of_active (h : Ready good l pipes) (hp : pipes p = some pipe) (ha : l.Active p) :
    good pipe := by
  obtain ⟨r, hr, hg⟩ := h.ready p ha
  rw [hp] at hr
  cases hr
  exact hg

omit [DecidableEq P] in
theorem Ready.not_active (h : Ready good l pipes) (hp : pipes p = some pipe) (hg : ¬ good pipe) :
    ¬ l.Active p := fun ha => hg (h.of_active hp ha)

theorem Ready.update (h : Ready good l pipes) (hp : l.Active p → good pipe') :
    Ready good l (Function.update pipes p (some pipe')) := by
  refine ⟨h.wf, fun q hq => ?_⟩
  by_cases hqp : q = p
  · subst hqp
    exact ⟨pipe', Function.update_self .., hp hq⟩
  · rw [Function.update_of_ne hqp]
    exact h.ready q hq

/-- The pipe is removed from the list and from the socket. -/
theorem Ready.remove (h : Ready good l pipes) (p : P) :
    Ready good (l.rm p) (Function.update pipes p none) := by
  obtain ⟨hwf, -, hact⟩ := h.wf.rm p
  refine ⟨hwf, fun q hq => ?_⟩
  obtain ⟨hq, hne⟩ := (hact q).1 hq
  rw [Function.update_of_ne hne]
  exact h.ready q hq

/-- A new pipe is attached; it enters the list with an event only. -/
theorem Ready.add (h : Ready good l pipes) (hp : pipes p = none) (priority : Fin 16) :
    Ready good (l.add p priority) (Function.update pipes p (some pipe')) := by
  have hna : ¬ l.Active p := fun ha => by
    obtain ⟨r, hr, -⟩ := h.ready p ha
    rw [hp] at hr
    cases hr
  obtain ⟨hwf, hact⟩ := h.wf.add hna priority
  have hadd : Ready good (l.add p priority) pipes := ⟨hwf, fun q hq => h.ready q ((hact q).1 hq)⟩
  exact hadd.update fun ha => absurd ((hact p).1 ha) hna

/-- The event of a pipe puts it into the list. -/
theorem Ready.activate (h : Ready good l pipes) (hp : pipes p = some pipe) (hg : good pipe)
    (hna : ¬ l.Active p) :
    ∃ l', l.activate p = .ok l' ∧ Ready good l' pipes ∧ ∀ q, l'.Active q ↔ l.Active q ∨ q = p := by
  obtain ⟨l', heq, hwf, -, hact⟩ := h.wf.activate hna
  refine ⟨l', heq, ⟨hwf, fun q hq => ?_⟩, hact⟩
  rcases (hact q).1 hq with hq | rfl
  · exact h.ready q hq
  · exact ⟨pipe, hp, hg⟩

end Update

/-! ### Receiving and sending -/

/-- `nn_fq_recv` took the message `m` from the pipe `p`. -/
structure Taken (fq : Priolist P) (pipes : P → Option Pipe) (p : P) (pipe : Pipe) (m : Inbound)
    (rest : List Inbound) (fq' : Priolist P) (pipe' : Pipe) : Prop where
  next : fq.getpipe = .ok (some p)
  attached : pipes p = some pipe
  inbox : pipe.inbox = m :: rest
  inbox' : pipe'.inbox = rest
  wf : pipe'.Wf
  outstate : pipe'.outstate = pipe.outstate
  outRaised : pipe'.outRaised = pipe.outRaised
  outbox : pipe'.outbox = pipe.outbox
  inRaised : pipe'.inRaised = false
  ready : Ready Pipe.InReady fq' (Function.update pipes p (some pipe'))
  active_iff : ∀ q, fq'.Active q ↔ fq.Active q ∧ (rest = [] → q ≠ p)

theorem nnFqRecv_spec {fq : Priolist P} {pipes : P → Option Pipe} (hw : PipesWf pipes)
    (h : Ready Pipe.InReady fq pipes) :
    ((∀ p, ¬ fq.Active p) ∧ nnFqRecv fq pipes = .ok (none, fq, pipes)) ∨
      ∃ p pipe m rest fq' pipe', Taken fq pipes p pipe m rest fq' pipe' ∧
        nnFqRecv fq pipes = .ok (some (p, m), fq', Function.update pipes p (some pipe')) := by
  unfold nnFqRecv
  rcases h.wf.getpipe with ⟨hnone, hempty⟩ | ⟨p, hsome, hact⟩
  · exact Or.inl ⟨hempty, by rw [hnone]; rfl⟩
  · obtain ⟨pipe, hpipe, hne, hraised⟩ := h.ready p hact
    obtain ⟨m, rest, hinbox⟩ := List.exists_cons_of_ne_nil hne
    obtain ⟨pipe', hrecv, hinbox', hout, hor, hob, hir, hwf⟩ := (hw p pipe hpipe).recv hinbox
    obtain ⟨fq', hadv, hfq, -, hiff⟩ := h.wf.advance hsome rest.isEmpty
    have hiff' : ∀ q, fq'.Active q ↔ fq.Active q ∧ (rest = [] → q ≠ p) := by
      simpa only [List.isEmpty_iff] using hiff
    refine Or.inr ⟨p, pipe, m, rest, fq', pipe',
      ⟨hsome, hpipe, hinbox, hinbox', hwf hraised, hout, hor, hob, hir.trans hraised, ?_, hiff'⟩,
      ?_⟩
    · have hold : Ready Pipe.InReady fq' pipes := ⟨hfq, fun q hq => h.ready q ((hiff' q).1 hq).1⟩
      refine hold.update fun ha => ⟨?_, hir.trans hraised⟩
      intro hnil
      exact ((hiff' p).1 ha).2 (hinbox' ▸ hnil) rfl
    · rw [hsome, ok_bind]
      simp only [hpipe, hrecv, ok_bind, hadv]
      rfl

omit [DecidableEq P] in
theorem fqNext_of_not_active {fq : Priolist P} {pipes : P → Option Pipe} (h : fq.Wf)
    (hnone : ∀ p, ¬ fq.Active p) : fqNext fq pipes = none := by
  rcases h.getpipe with ⟨hn, -⟩ | ⟨q, -, hq⟩
  · simp [fqNext, hn]
  · exact absurd hq (hnone q)

theorem Taken.fqNext {fq fq' : Priolist P} {pipes : P → Option Pipe} {p : P} {pipe pipe' : Pipe}
    {m : Inbound} {rest : List Inbound} (h : Taken fq pipes p pipe m rest fq' pipe') :
    fqNext fq pipes = some (p, m) := by
  simp [NanoSocket.fqNext, h.next, h.attached, h.inbox]

/-- A pipe gives its messages in order. -/
theorem head?_of_nnPipeRecv {pipe pipe' : Pipe} {m : Inbound} {release : Bool}
    (h : nnPipeRecv pipe = .ok (m, release, pipe')) : pipe.inbox.head? = some m := by
  rw [nnPipeRecv] at h
  obtain ⟨_, -, h⟩ := bind_eq_ok.1 h
  obtain ⟨⟨m', pipe''⟩, htake, h⟩ := bind_eq_ok.1 h
  have hm : m' = m := by
    simp only at h
    split at h
    · cases h
      rfl
    · obtain ⟨_, -, h⟩ := bind_eq_ok.1 h
      cases h
      rfl
  rw [Pipe.take] at htake
  cases hin : pipe.inbox with
  | nil =>
    simp only [hin] at htake
    cases htake
  | cons x rest =>
    simp only [hin] at htake
    split at htake
    · cases htake
      rw [List.head?_cons, hm]
    · obtain ⟨_, -, htake⟩ := bind_eq_ok.1 htake
      cases htake
      rw [List.head?_cons, hm]

/-- `nn_fq_recv` takes the next message, whatever state the pipes are in. -/
theorem fqNext_of_nnFqRecv {fq fq' : Priolist P} {pipes pipes' : P → Option Pipe}
    {r : Option (P × Inbound)} (h : nnFqRecv fq pipes = .ok (r, fq', pipes')) :
    fqNext fq pipes = r := by
  rw [nnFqRecv] at h
  rw [fqNext]
  obtain ⟨next, hnext, h⟩ := bind_eq_ok.1 h
  rw [hnext]
  cases next with
  | none =>
    cases h
    rfl
  | some p =>
    simp only at h ⊢
    cases hp : pipes p with
    | none =>
      rw [hp] at h
      cases h
    | some pipe =>
      rw [hp] at h
      obtain ⟨⟨m, release, pipe'⟩, hrecv, h⟩ := bind_eq_ok.1 h
      obtain ⟨_, -, h⟩ := bind_eq_ok.1 h
      cases h
      rw [Option.bind_some, head?_of_nnPipeRecv hrecv, Option.map_some]

theorem nnFqRecv_of_not_active {fq : Priolist P} {pipes : P → Option Pipe} (hw : PipesWf pipes)
    (h : Ready Pipe.InReady fq pipes) (hnone : ∀ p, ¬ fq.Active p) :
    nnFqRecv fq pipes = .ok (none, fq, pipes) := by
  rcases nnFqRecv_spec hw h with ⟨-, heq⟩ | ⟨p, _, _, _, _, _, ht, -⟩
  · exact heq
  · rcases h.wf.getpipe with ⟨hn, -⟩ | ⟨q, -, hq⟩
    · rw [ht.next] at hn
      cases hn
    · exact absurd hq (hnone q)

/-- `nn_lb_send` gave the message to the pipe `p`. -/
structure Given (lb : Priolist P) (pipes : P → Option Pipe) (msg : Msg) (p : P) (pipe : Pipe)
    (lb' : Priolist P) (pipe' : Pipe) : Prop where
  next : lb.getpipe = .ok (some p)
  attached : pipes p = some pipe
  inbox : pipe'.inbox = pipe.inbox
  inRaised : pipe'.inRaised = pipe.inRaised
  outbox : pipe'.outbox = pipe.outbox ++ [msg]
  wf : pipe'.Wf
  ready : Ready Pipe.OutReady lb' (Function.update pipes p (some pipe'))

theorem nnLbSend_spec {lb : Priolist P} {pipes : P → Option Pipe} (hw : PipesWf pipes)
    (h : Ready Pipe.OutReady lb pipes) (msg : Msg) (sync : Bool) :
    ((∀ p, ¬ lb.Active p) ∧ nnLbSend lb pipes msg sync = .ok (none, lb, pipes)) ∨
      ∃ p pipe lb' pipe', Given lb pipes msg p pipe lb' pipe' ∧
        nnLbSend lb pipes msg sync = .ok (some p, lb', Function.update pipes p (some pipe')) := by
  unfold nnLbSend
  rcases h.wf.getpipe with ⟨hnone, hempty⟩ | ⟨p, hsome, hact⟩
  · exact Or.inl ⟨hempty, by rw [hnone]; rfl⟩
  · obtain ⟨pipe, hpipe, hidle, hraised⟩ := h.ready p hact
    obtain ⟨pipe', hsend, hinbox, hir, hob, hor, hout, hwf⟩ := (hw p pipe hpipe).send hidle msg sync
    obtain ⟨lb', hadv, hlb, -, hiff⟩ := h.wf.advance hsome (!sync)
    refine Or.inr ⟨p, pipe, lb', pipe', ⟨hsome, hpipe, hinbox, hir, hob, hwf hraised, ?_⟩, ?_⟩
    · have hold : Ready Pipe.OutReady lb' pipes := ⟨hlb, fun q hq => h.ready q ((hiff q).1 hq).1⟩
      refine hold.update fun ha => ⟨?_, hor.trans hraised⟩
      cases sync with
      | true => simpa using hout
      | false => exact absurd rfl (((hiff p).1 ha).2 rfl)
    · rw [hsome, ok_bind]
      simp only [hpipe, hsend, ok_bind, hadv]
      rfl

/-! ### What is left to receive -/

/-- The number of messages at hand in the pipes of the fair queue. -/
def pending (fq : Priolist P) (pipes : P → Option Pipe) : ℕ :=
  ∑ p ∈ fq.actives, ((pipes p).elim 0 fun pipe => pipe.inbox.length)

/-- Every receive takes one message away. -/
theorem Taken.pending_lt {fq fq' : Priolist P} {pipes : P → Option Pipe} {p : P} {pipe pipe' : Pipe}
    {m : Inbound} {rest : List Inbound} (h : Taken fq pipes p pipe m rest fq' pipe') (hwf : fq.Wf)
    (hp : fq.Active p) : pending fq' (Function.update pipes p (some pipe')) < pending fq pipes := by
  have hpm : p ∈ fq.actives := hwf.mem_actives.2 hp
  have hold : pending fq pipes = ((pipes p).elim 0 fun pipe => pipe.inbox.length) +
      ∑ q ∈ fq.actives.erase p, ((pipes q).elim 0 fun pipe => pipe.inbox.length) :=
    (Finset.add_sum_erase _ _ hpm).symm
  have hsame : ∀ s : Finset P, p ∉ s →
      ∑ q ∈ s, ((Function.update pipes p (some pipe') q).elim 0 fun pipe => pipe.inbox.length) =
        ∑ q ∈ s, ((pipes q).elim 0 fun pipe => pipe.inbox.length) := by
    intro s hs
    refine Finset.sum_congr rfl fun q hq => ?_
    have hqp : q ≠ p := fun h => hs (h ▸ hq)
    rw [Function.update_of_ne hqp]
  rw [hold, h.attached, pending]
  cases rest with
  | nil =>
    have hset : fq'.actives = fq.actives.erase p := by
      ext q
      rw [h.ready.wf.mem_actives, Finset.mem_erase, hwf.mem_actives, h.active_iff]
      simp [and_comm]
    rw [hset, hsame _ (Finset.notMem_erase p _)]
    simp [h.inbox]
  | cons a l =>
    have hset : fq'.actives = fq.actives := by
      ext q
      rw [h.ready.wf.mem_actives, hwf.mem_actives, h.active_iff]
      simp
    rw [hset, ← Finset.add_sum_erase _ _ hpm, hsame _ (Finset.notMem_erase p _)]
    simp [h.inbox, h.inbox']

/-- The next messages of the fair queue, at most `n` of them. -/
def queueFrom : ℕ → Priolist P → (P → Option Pipe) → List Inbound
  | 0, _, _ => []
  | n + 1, fq, pipes =>
    match nnFqRecv fq pipes with
    | .ok (some (_, m), fq, pipes) => m :: queueFrom n fq pipes
    | _ => []

/-- The messages at hand, in the order in which the fair queue gives them out. -/
def queue (fq : Priolist P) (pipes : P → Option Pipe) : List Inbound :=
  queueFrom (pending fq pipes) fq pipes

/-! ### Four-byte headers -/

/-- What the raw receive of a socket leaves in the message buffer it is given. -/
inductive Got
  /-- `-EAGAIN`, and the buffer is untouched. -/
  | empty
  /-- `-EAGAIN`, and the buffer holds a terminated message. -/
  | malformed
  | msg (m : Msg)
  deriving DecidableEq, Repr

/-- Split the message into the header and the body. -/
def Inbound.split (m : Inbound) : Except Fault Got :=
  if m.parsed then .ok (.msg m.msg)
  else if m.msg.body.length < 4 then .ok .malformed
  else do
    nnAssert (m.msg.sphdr = [])
    return .msg { m.msg with sphdr := m.msg.body.take 4, body := m.msg.body.drop 4 }

/-- A message that was not parsed has no header yet. -/
def Inbound.Wf (m : Inbound) : Prop := m.parsed = false → m.msg.sphdr = []

instance (m : Inbound) : Decidable (m.Wf) :=
  inferInstanceAs (Decidable (m.parsed = false → m.msg.sphdr = []))

theorem Inbound.split_ok {m : Inbound} (h : m.Wf) : ∃ g, m.split = .ok g ∧ g ≠ .empty := by
  unfold Inbound.split
  split_ifs with hp hlen
  · exact ⟨_, rfl, by simp⟩
  · exact ⟨_, rfl, by simp⟩
  · rw [nnAssert_of (h (by simpa using hp))]
    exact ⟨_, rfl, by simp⟩

end NanoSocket

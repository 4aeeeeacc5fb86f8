import NanoSocket.Core.Timer
import NanoSocket.Core.Wire
import NanoSocket.Lib.Runs

/-!
# Sockets that shut down with their endpoints (`core/sock.c`, `core/ep.c`)

A socket has a list of its endpoints and a list of those that are shutting down.  `nn_sock_stop`
asks all endpoints to stop, which takes as long as their transports take; the protocol is stopped
when the last endpoint is gone, and then the semaphore is posted that `nn_sock_term` waits for.

`Sock.Good` is the invariant.  `Sock.orderly_shutdown` is about runs in which no endpoint is added
after the stop: no assertion fails, every endpoint is freed once, the protocol outlives all
endpoints, and a socket that was stopped goes on until `nn_sock_term` has returned.
`nn_sock_add_ep` does not look at the state of the socket; `late_endpoint` says where an endpoint
that comes too late ends the program.

The events of a context are processed in any order here, and the transports and the protocol stop at
any time.  The events of pipes are left out, and so is the semaphore `relesem`, for which
`nn_sock_term` waits after that of the shutdown: the holds on a socket are the matter of
`Core/GlobalHolds.lean`.
-/

namespace NanoSocket.Endpoints

open Runs

/-! ### Endpoints -/

/-- `NN_EP_STATE_*`. -/
inductive EpState
  | idle
  | active
  | stopping
  deriving DecidableEq, Repr

/-- What the event `fsm.stopped` of an endpoint carries when it is queued: `NN_EP_ACTION_STOPPED` to
the endpoint, or `NN_EP_STOPPED` to the socket. -/
inductive EpStopped
  | action
  | toSock
  deriving DecidableEq, Repr

/-- How far something has stopped that was asked to. -/
inductive Stopping
  | running
  | asked
  | done
  deriving DecidableEq, Repr

/-- `struct nn_ep`, and its transport. -/
structure Ep where
  fsm : FsmState
  state : EpState
  stopped : Option EpStopped
  tran : Stopping
  deriving DecidableEq, Repr

/-- What is fed to the state machine of an endpoint. -/
inductive EpInput
  | fsmStart
  | fsmStop
  | actionStopped
  deriving DecidableEq, Repr

/-- `nn_ep_init`, after the transport has accepted the endpoint. -/
def nnEpInit : Ep := { fsm := .idle, state := .idle, stopped := none, tran := .running }

/-- `nn_ep_handler`. -/
def nnEpHandler (ep : Ep) (src : EpInput) : Except Fault Ep :=
  if ep.state = .idle ∧ src = .fsmStart then .ok { ep with state := .active }
  else .error .assertFailed

/-- `nn_ep_shutdown`. -/
def nnEpShutdown (ep : Ep) (src : EpInput) : Except Fault Ep :=
  if src = .fsmStop then .ok { ep with tran := .asked, state := .stopping }
  else if ep.state = .stopping then
    if src ≠ .actionStopped then .ok ep
    else do
      -- `nn_fsm_stopped` raises the event that was just taken out of the queue
      nnAssert (ep.fsm = .stopping)
      nnAssert (ep.stopped = none)
      return { ep with state := .idle, stopped := some .toSock, fsm := .idle }
  else .error .assertFailed

/-- `nn_fsm_feed`. -/
def Ep.feed (ep : Ep) (src : EpInput) : Except Fault Ep :=
  if ep.fsm ≠ .stopping then nnEpHandler ep src else nnEpShutdown ep src

/-- `nn_ep_start`. -/
def nnEpStart (self : Ep) : Except Fault Ep := do
  nnAssert (self.fsm = .idle ∧ self.stopped = none)
  return { ← nnEpHandler self .fsmStart with fsm := .active }

/-- `nn_ep_stop`. -/
def nnEpStop (self : Ep) : Except Fault Ep :=
  if self.fsm ≠ .active then .ok self else nnEpShutdown { self with fsm := .stopping } .fsmStop

/-- `nn_ep_stopped`, which the transport calls. -/
def nnEpStopped (self : Ep) : Except Fault Ep := do
  nnAssert (self.stopped = none)
  return { self with tran := .done, stopped := some .action }

/-- The assertions of `nn_ep_term`. -/
def nnEpTerm (self : Ep) : Except Fault Unit := do
  nnAssert (self.state = .idle)
  nnAssert (self.fsm = .idle ∧ self.stopped = none)

/-! ### Sockets -/

/-- `struct nn_sock` after `nn_sock_init`.  Endpoints are known by their ids.  `stopped` says that
the event `NN_SOCK_ACTION_STOPPED` is queued, `sockbase` is the protocol until it is destroyed, and
`freed` collects the endpoints that were freed. -/
structure Sock where
  fsm : FsmState
  state : SockState
  stopped : Bool
  sockbase : Option Stopping
  eid : ℕ
  eps : List ℕ
  sdeps : List ℕ
  heap : ℕ → Option Ep
  termsem : ℕ
  freed : List ℕ

/-- What is fed to the state machine of a socket. -/
inductive SockInput
  | fsmStop
  | epStopped (eid : ℕ)
  | actionStopped
  deriving DecidableEq, Repr

/-- `nn_sock_init`. -/
def nnSockInit : Sock :=
  { fsm := .active, state := .active, stopped := false, sockbase := some .running, eid := 1,
    eps := [], sdeps := []
    heap := fun _ => none, termsem := 0, freed := [] }

/-- A call for an endpoint. -/
def Sock.atEp (self : Sock) (eid : ℕ) (f : Ep → Except Fault Ep) : Except Fault Sock :=
  match self.heap eid with
  | none => .error .nullDeref
  | some ep => return { self with heap := Function.update self.heap eid (some (← f ep)) }

/-- The loop of `nn_sock_shutdown` over the endpoints. -/
def stopEps (sock : Sock) : List ℕ → Except Fault Sock
  | [] => .ok sock
  | eid :: rest => do
    stopEps (← { sock with eps := rest, sdeps := sock.sdeps ++ [eid] : Sock }.atEp eid nnEpStop)
      rest

/-- An endpoint is taken out of its list, terminated and freed. -/
def Sock.freeEp (self : Sock) (eid : ℕ) : Except Fault Sock :=
  match self.heap eid with
  | none => .error .nullDeref
  | some ep => do
    nnAssert (eid ∈ self.sdeps)
    nnEpTerm ep
    return { self with sdeps := self.sdeps.erase eid, heap := Function.update self.heap eid none
                       freed := self.freed ++ [eid] }

/-- From `finish1` in `nn_sock_shutdown`: the protocol is destroyed, and `nn_sock_term` may go
on. -/
def Sock.finish1 (sock : Sock) : Except Fault Sock :=
  match sock.sockbase with
  | none => .error .nullDeref
  | some _ => .ok { sock with sockbase := none, state := .fini, termsem := sock.termsem + 1 }

/-- From `finish2`. `hasStop` says that the protocol has a function `stop`. -/
def Sock.finish2 (hasStop : Bool) (sock : Sock) : Except Fault Sock :=
  if sock.sdeps ≠ [] then .ok sock
  else do
    nnAssert (sock.eps = [])
    let sock := { sock with state := .stopping }
    if !hasStop then sock.finish1
    else
      match sock.sockbase with
      | none => throw .nullDeref
      | some _ => return { sock with sockbase := some .asked }

/-- `nn_sock_shutdown`. -/
def nnSockShutdown (hasStop : Bool) (sock : Sock) (src : SockInput) : Except Fault Sock :=
  if src = .fsmStop then do
    nnAssert (sock.state = .active)
    let sock ← stopEps sock sock.eps
    { sock with state := .stoppingEps : Sock }.finish2 hasStop
  else
    match sock.state with
    | .stoppingEps =>
      match src with
      | .epStopped eid => do (← sock.freeEp eid).finish2 hasStop
      | _ => .ok sock
    | .stopping => do
      nnAssert (src = .actionStopped)
      sock.finish1
    | _ => .error .assertFailed

/-- `nn_sock_handler`, without the events of pipes. -/
def nnSockHandler (sock : Sock) (src : SockInput) : Except Fault Sock :=
  match sock.state, src with
  | .active, .epStopped eid => sock.freeEp eid
  | _, _ => .error .assertFailed

/-- `nn_fsm_feed`. -/
def Sock.feed (hasStop : Bool) (sock : Sock) (src : SockInput) : Except Fault Sock :=
  if sock.fsm ≠ .stopping then nnSockHandler sock src else nnSockShutdown hasStop sock src

/-- `nn_sock_add_ep`; `created` says that the transport accepts the endpoint. -/
def nnSockAddEp (self : Sock) (created : Bool) : Except Fault Sock :=
  if !created then .ok self
  else do
    let ep ← nnEpStart nnEpInit
    return { self with heap := Function.update self.heap self.eid (some ep), eid := self.eid + 1
                       eps := self.eps ++ [self.eid] }

/-- `nn_sock_rm_ep`; nothing happens if there is no such endpoint. -/
def nnSockRmEp (self : Sock) (eid : ℕ) : Except Fault Sock :=
  if eid ∉ self.eps then .ok self
  else { self with eps := self.eps.erase eid, sdeps := self.sdeps ++ [eid] : Sock }.atEp eid
    nnEpStop

/-- `nn_sock_stop`. -/
def nnSockStop (hasStop : Bool) (self : Sock) : Except Fault Sock :=
  if self.fsm ≠ .active then .ok self
    else nnSockShutdown hasStop { self with fsm := .stopping } .fsmStop

/-- `nn_sock_stopped`, which the protocol calls. -/
def nnSockStopped (self : Sock) : Except Fault Sock := do
  nnAssert (self.stopped = false)
  return { self with stopped := true, sockbase := some .done }

/-- `nn_sock_term`, after the semaphores. -/
def nnSockTerm (self : Sock) : Except Fault Sock := do
  nnAssert (self.fsm = .stopping)
  nnAssert (self.stopped = false)
  nnAssert (self.sdeps = [])
  nnAssert (self.eps = [])
  return { self with fsm := .idle, termsem := self.termsem - 1 }

/-! ### Runs -/

/-- What happens at a socket: calls of its users, calls of a transport or of the protocol that was
asked to stop, and events of the context. -/
inductive SockEvent
  | addEp (created : Bool)
  | rmEp (eid : ℕ)
  | stop
  | epStopped (eid : ℕ)
  | popEp (eid : ℕ)
  | sockStopped
  | pop
  | term
  deriving DecidableEq, Repr

/-- The event of an endpoint is processed. -/
def Sock.popEp (hasStop : Bool) (s : Sock) (eid : ℕ) : Except Fault Sock :=
  match s.heap eid with
  | none => .error .nullDeref
  | some ep =>
    match ep.stopped with
    | none => .ok s
    | some .action => s.atEp eid fun ep => Ep.feed { ep with stopped := none } .actionStopped
    | some .toSock =>
      { s with heap := Function.update s.heap eid (some { ep with stopped := none }) : Sock }.feed
        hasStop (.epStopped eid)

/-- One event. -/
def Sock.step (hasStop : Bool) (s : Sock) : SockEvent → Except Fault Sock
  | .addEp created => nnSockAddEp s created
  | .rmEp eid => nnSockRmEp s eid
  | .stop => nnSockStop hasStop s
  | .epStopped eid => s.atEp eid nnEpStopped
  | .popEp eid => s.popEp hasStop eid
  | .sockStopped => nnSockStopped s
  | .pop => { s with stopped := false : Sock }.feed hasStop .actionStopped
  | .term => nnSockTerm s

/-- The same as a call without an answer. -/
def Sock.call (hasStop : Bool) (s : Sock) (e : SockEvent) : Except Fault (Sock × Unit) :=
  return (← s.step hasStop e, ())

/-- What an event needs to happen. -/
def Sock.Offers (s : Sock) : SockEvent → Prop
  | .addEp _ => True
  | .rmEp _ => True
  | .stop => True
  | .epStopped eid => ((s.heap eid).any fun ep => ep.tran = .asked) = true
  | .popEp eid => ((s.heap eid).any fun ep => ep.stopped.isSome) = true
  | .sockStopped => s.sockbase = some .asked
  | .pop => s.stopped = true
  | .term => 0 < s.termsem

/-- The events that can happen; none does after `nn_sock_term`. -/
def Sock.Enabled (s : Sock) (e : SockEvent) : Prop := s.fsm ≠ .idle ∧ s.Offers e

/-- No endpoint is added to a socket that was stopped. -/
def Sock.Timely (s : Sock) (e : SockEvent) : Prop :=
  (∃ created, e = .addEp created) → s.fsm = .active

instance Sock.decidableOffers (s : Sock) : (e : SockEvent) → Decidable (s.Offers e)
  | .addEp _ | .rmEp _ | .stop => inferInstanceAs (Decidable True)
  | .epStopped eid =>
    inferInstanceAs (Decidable (((s.heap eid).any fun ep => ep.tran = .asked) = true))
  | .popEp eid =>
    inferInstanceAs (Decidable (((s.heap eid).any fun ep => ep.stopped.isSome) = true))
  | .sockStopped => inferInstanceAs (Decidable (s.sockbase = some .asked))
  | .pop => inferInstanceAs (Decidable (s.stopped = true))
  | .term => inferInstanceAs (Decidable (0 < s.termsem))

instance Sock.decidableEnabled (s : Sock) (e : SockEvent) : Decidable (s.Enabled e) :=
  inferInstanceAs (Decidable (s.fsm ≠ .idle ∧ s.Offers e))

instance Sock.decidableTimely (s : Sock) (e : SockEvent) : Decidable (s.Timely e) :=
  inferInstanceAs (Decidable ((∃ created, e = .addEp created) → s.fsm = .active))

/-- The events by which a shutdown goes on. -/
def SockEvent.Drives (e : SockEvent) : Prop :=
  (∀ created, e ≠ .addEp created) ∧ (∀ eid, e ≠ .rmEp eid) ∧ e ≠ .stop

/-! ### The invariant -/

/-- An endpoint that has not been asked to stop. -/
def Ep.live : Ep := { fsm := .active, state := .active, stopped := none, tran := .running }

/-- How an endpoint shuts down: its transport is asked to stop, has stopped, and the endpoint has
told the socket. -/
inductive Ep.Closing : Ep → Prop
  | asked : Ep.Closing ⟨.stopping, .stopping, none, .asked⟩
  | reported : Ep.Closing ⟨.stopping, .stopping, some .action, .done⟩
  | finished : Ep.Closing ⟨.idle, .idle, some .toSock, .done⟩

/-- Every endpoint is in one of the two lists or was freed; `next` is the id of the next one. -/
structure Owned (eps sdeps freed : List ℕ) (heap : ℕ → Option Ep) (next : ℕ) : Prop where
  places : (eps ++ (sdeps ++ freed)).Perm (List.range' 1 (next - 1))
  live : ∀ eid ∈ eps, heap eid = some .live
  closing : ∀ eid ∈ sdeps, ∃ ep, heap eid = some ep ∧ ep.Closing
  listed : ∀ eid ep, heap eid = some ep → eid ∈ eps ∨ eid ∈ sdeps
  next_pos : 1 ≤ next

/-- The endpoints of a socket. -/
def Sock.Owned (s : Sock) : Prop := Endpoints.Owned s.eps s.sdeps s.freed s.heap s.eid

/-- How many events an endpoint needs to be freed. -/
def Ep.left (ep : Ep) : ℕ :=
  if ep.tran = .asked then 3 else if ep.stopped = some .action then 2 else 1

/-- The same for the endpoints of a list. -/
def epsLeft (heap : ℕ → Option Ep) (l : List ℕ) : ℕ :=
  (l.map fun eid => ((heap eid).map Ep.left).getD 0).sum

/-- The same for the protocol and `nn_sock_term`. -/
def Sock.baseLeft (s : Sock) : ℕ :=
  match s.sockbase with
  | some .running => 4
  | some .asked => 3
  | some .done => 2
  | none => s.termsem

/-- A bound for the events by which a shutdown goes on. -/
def Sock.left (s : Sock) : ℕ := epsLeft s.heap s.sdeps + s.baseLeft

/-- How far a socket has shut down. -/
inductive Sock.Phase (s : Sock) : Prop
  | active (fsm : s.fsm = .active) (state : s.state = .active) (stopped : s.stopped = false)
      (sockbase : s.sockbase = some .running) (termsem : s.termsem = 0)
  | stoppingEps (fsm : s.fsm = .stopping) (state : s.state = .stoppingEps)
      (stopped : s.stopped = false)
      (sockbase : s.sockbase = some .running) (termsem : s.termsem = 0) (eps : s.eps = [])
      (sdeps : s.sdeps ≠ [])
  | stopping (fsm : s.fsm = .stopping) (state : s.state = .stopping)
      (sockbase : s.sockbase = some .asked ∧ s.stopped = false ∨ s.sockbase = some .done ∧
        s.stopped = true)
      (termsem : s.termsem = 0) (eps : s.eps = []) (sdeps : s.sdeps = [])
  | fini (fsm : s.fsm = .stopping) (state : s.state = .fini) (stopped : s.stopped = false)
      (sockbase : s.sockbase = none)
      (termsem : s.termsem = 1) (eps : s.eps = []) (sdeps : s.sdeps = [])
  | closed (fsm : s.fsm = .idle) (stopped : s.stopped = false) (sockbase : s.sockbase = none)
      (termsem : s.termsem = 0)
      (eps : s.eps = []) (sdeps : s.sdeps = [])

/-- The invariant of a socket. -/
structure Sock.Good (s : Sock) : Prop where
  owned : s.Owned
  phase : s.Phase

section Owned

variable {eps sdeps freed : List ℕ} {heap : ℕ → Option Ep} {next eid : ℕ} {ep : Ep}

theorem Owned.nodup (h : Owned eps sdeps freed heap next) : (eps ++ (sdeps ++ freed)).Nodup :=
  h.places.nodup_iff.2 List.nodup_range'

theorem Owned.lt (h : Owned eps sdeps freed heap next) (hmem : eid ∈ eps ++ (sdeps ++ freed)) :
    eid < next := by
  have hrange := List.mem_range'_1.1 (h.places.mem_iff.1 hmem)
  have := h.next_pos
  omega

theorem Owned.ne_of_mem (h : Owned eps sdeps freed heap next) {e : ℕ} (he : e ∈ eps)
    (hmem : eid ∈ sdeps) : e ≠ eid :=
  (List.nodup_append.1 h.nodup).2.2 e he eid (List.mem_append_left _ hmem)

/-- A new endpoint. -/
theorem Owned.add (h : Owned eps sdeps freed heap next) :
    Owned (eps ++ [next]) sdeps freed (Function.update heap next (some .live)) (next + 1) := by
  have hne : ∀ {e}, e ∈ eps ++ (sdeps ++ freed) → e ≠ next := fun he => (h.lt he).ne
  refine ⟨?_, ?_, ?_, ?_, Nat.le_add_left 1 _⟩
  · obtain ⟨n, hn⟩ := Nat.exists_eq_add_of_le h.next_pos
    have hrange : List.range' 1 (next + 1 - 1) = List.range' 1 (next - 1) ++ [next] := by
      rw [hn, Nat.add_sub_cancel, Nat.add_sub_cancel_left, Nat.add_comm 1 n, List.range'_concat,
        Nat.one_mul, Nat.add_comm 1 n]
    rw [hrange]
    refine List.perm_iff_count.2 fun a => ?_
    have := h.places.count_eq a
    simp only [List.count_append] at this ⊢
    omega
  · intro e he
    rcases List.mem_append.1 he with he | he
    · rw [Function.update_of_ne (hne (List.mem_append_left _ he))]
      exact h.live e he
    · rw [List.mem_singleton.1 he, Function.update_self]
  · intro e he
    rw [Function.update_of_ne (hne (List.mem_append_right _ (List.mem_append_left _ he)))]
    exact h.closing e he
  · intro e ep he
    by_cases heq : e = next
    · exact Or.inl (List.mem_append_right _ (List.mem_singleton.2 heq))
    · rw [Function.update_of_ne heq] at he
      exact (h.listed e ep he).imp_left (List.mem_append_left _)

/-- An endpoint is asked to stop. -/
theorem Owned.move (h : Owned eps sdeps freed heap next) (hmem : eid ∈ eps) :
    Owned (eps.erase eid) (sdeps ++ [eid]) freed
      (Function.update heap eid (some ⟨.stopping, .stopping, none, .asked⟩)) next := by
  have hnodup : eps.Nodup := (List.nodup_append.1 h.nodup).1
  refine ⟨?_, ?_, ?_, ?_, h.next_pos⟩
  · refine List.perm_iff_count.2 fun a => ?_
    have := h.places.count_eq a
    have herase := (List.perm_cons_erase hmem).count_eq a
    simp only [List.count_append, List.count_cons, List.count_nil] at this herase ⊢
    omega
  · intro e he
    obtain ⟨hne, he⟩ := hnodup.mem_erase_iff.1 he
    rw [Function.update_of_ne hne]
    exact h.live e he
  · intro e he
    by_cases heq : e = eid
    · subst heq
      exact ⟨_, Function.update_self .., .asked⟩
    · rw [Function.update_of_ne heq]
      exact h.closing e ((List.mem_append.1 he).resolve_right (mt List.mem_singleton.1 heq))
  · intro e ep he
    by_cases heq : e = eid
    · exact Or.inr (List.mem_append_right _ (List.mem_singleton.2 heq))
    · rw [Function.update_of_ne heq] at he
      exact (h.listed e ep he).imp (List.mem_erase_of_ne heq).2 (List.mem_append_left _)

/-- An endpoint shuts down further. -/
theorem Owned.change (h : Owned eps sdeps freed heap next) (hmem : eid ∈ sdeps)
    (hclosing : ep.Closing) :
    Owned eps sdeps freed (Function.update heap eid (some ep)) next := by
  refine ⟨h.places, ?_, ?_, ?_, h.next_pos⟩
  · intro e he
    rw [Function.update_of_ne (h.ne_of_mem he hmem)]
    exact h.live e he
  · intro e he
    by_cases heq : e = eid
    · subst heq
      exact ⟨ep, Function.update_self .., hclosing⟩
    · rw [Function.update_of_ne heq]
      exact h.closing e he
  · intro e ep he
    by_cases heq : e = eid
    · exact Or.inr (heq ▸ hmem)
    · rw [Function.update_of_ne heq] at he
      exact h.listed e ep he

/-- An endpoint is freed. -/
theorem Owned.free (h : Owned eps sdeps freed heap next) (hmem : eid ∈ sdeps) :
    Owned eps (sdeps.erase eid) (freed ++ [eid]) (Function.update heap eid none) next := by
  have hnodup : sdeps.Nodup := (List.nodup_append.1 (List.nodup_append.1 h.nodup).2.1).1
  refine ⟨?_, ?_, ?_, ?_, h.next_pos⟩
  · refine List.perm_iff_count.2 fun a => ?_
    have := h.places.count_eq a
    have herase := (List.perm_cons_erase hmem).count_eq a
    simp only [List.count_append, List.count_cons, List.count_nil] at this herase ⊢
    omega
  · intro e he
    rw [Function.update_of_ne (h.ne_of_mem he hmem)]
    exact h.live e he
  · intro e he
    obtain ⟨hne, he⟩ := hnodup.mem_erase_iff.1 he
    rw [Function.update_of_ne hne]
    exact h.closing e he
  · intro e ep he
    by_cases heq : e = eid
    · subst heq
      rw [Function.update_self] at he
      cases he
    · rw [Function.update_of_ne heq] at he
      exact (h.listed e ep he).imp_right (List.mem_erase_of_ne heq).2

theorem epsLeft_erase {l : List ℕ} (hmem : eid ∈ l) (hep : heap eid = some ep) :
    epsLeft heap l = ep.left + epsLeft heap (l.erase eid) := by
  have hperm := ((List.perm_cons_erase hmem).map fun eid => ((heap eid).map Ep.left).getD 0).sum_eq
  simpa [epsLeft, hep] using hperm

theorem epsLeft_update {l : List ℕ} (hmem : eid ∉ l) (ep : Option Ep) :
    epsLeft (Function.update heap eid ep) l = epsLeft heap l := by
  rw [epsLeft, epsLeft]
  congr 1
  refine List.map_congr_left fun e he => ?_
  rw [Function.update_of_ne (ne_of_mem_of_not_mem he hmem)]

/-- What is left when an endpoint is freed. -/
theorem Owned.left_free (h : Owned eps sdeps freed heap next) (hmem : eid ∈ sdeps)
    (hep : heap eid = some ep) (new : Option Ep) :
    epsLeft (Function.update heap eid new) (sdeps.erase eid) + ep.left = epsLeft heap sdeps := by
  have hnodup : sdeps.Nodup := (List.nodup_append.1 (List.nodup_append.1 h.nodup).2.1).1
  rw [epsLeft_update hnodup.not_mem_erase, epsLeft_erase hmem hep, Nat.add_comm]

/-- What is left when an endpoint shuts down further. -/
theorem Owned.left_change (h : Owned eps sdeps freed heap next) (hmem : eid ∈ sdeps)
    (hep : heap eid = some ep) (ep' : Ep) :
    epsLeft (Function.update heap eid (some ep')) sdeps + ep.left =
    epsLeft heap sdeps + ep'.left := by
  have hfree := h.left_free hmem hep (some ep')
  rw [epsLeft_erase hmem (Function.update_self ..), ← hfree]
  omega

end Owned

section Calls

variable {s : Sock} {eid : ℕ} {ep ep' : Ep}

theorem Sock.atEp_eq {f : Ep → Except Fault Ep} (h : s.heap eid = some ep) (hf : f ep = .ok ep') :
    s.atEp eid f = .ok { s with heap := Function.update s.heap eid (some ep') } := by
  simp only [Sock.atEp, h, hf]
  rfl

/-- All endpoints are asked to stop. -/
theorem stopEps_spec (h : s.Owned) {l : List ℕ} (hl : s.eps = l) :
    ∃ sdeps heap, stopEps s l = .ok { s with eps := [], sdeps, heap } ∧
      Sock.Owned { s with eps := [], sdeps, heap } := by
  induction l generalizing s with
  | nil => exact ⟨s.sdeps, s.heap, by rw [stopEps, ← hl], by rw [← hl]; exact h⟩
  | cons eid rest ih =>
    have hmem : eid ∈ s.eps := hl ▸ List.mem_cons_self
    have hmoved := Owned.move h hmem
    rw [hl, List.erase_cons_head] at hmoved
    obtain ⟨sdeps, heap, heq, howned⟩ :=
      ih (s := { s with eps := rest, sdeps := s.sdeps ++ [eid]
                        heap := Function.update s.heap eid
                          (some ⟨.stopping, .stopping, none, .asked⟩) }) hmoved rfl
    refine ⟨sdeps, heap, ?_, howned⟩
    have hstep : Sock.atEp { s with eps := rest, sdeps := s.sdeps ++ [eid] } eid nnEpStop =
        .ok { s with eps := rest, sdeps := s.sdeps ++ [eid]
                     heap := Function.update s.heap eid
                       (some ⟨.stopping, .stopping, none, .asked⟩) } :=
      Sock.atEp_eq (h.live eid hmem) rfl
    rw [stopEps, hstep, ok_bind]
    exact heq

/-- The socket is told that an endpoint has stopped. -/
theorem Sock.freeEp_eq (hep : s.heap eid = some ⟨.idle, .idle, none, .done⟩)
    (hmem : eid ∈ s.sdeps) :
    s.freeEp eid = .ok { s with sdeps := s.sdeps.erase eid, heap := Function.update s.heap eid none
                                freed := s.freed ++ [eid] } := by
  simp only [Sock.freeEp, hep]
  rw [nnAssert_of hmem]
  rfl

/-- The branches of the two handlers that a shutdown takes. -/
theorem nnSockShutdown_fsmStop {hasStop : Bool} {s' : Sock} (h : s.state = .active)
    (heq : stopEps s s.eps = .ok s') :
    nnSockShutdown hasStop s .fsmStop = Sock.finish2 hasStop { s' with state := .stoppingEps } := by
  unfold nnSockShutdown
  rw [if_pos rfl, nnAssert_of h, ok_bind, heq]
  rfl

theorem nnSockShutdown_epStopped {hasStop : Bool} {s' : Sock} (h : s.state = .stoppingEps)
    (heq : s.freeEp eid = .ok s') :
    nnSockShutdown hasStop s (.epStopped eid) = s'.finish2 hasStop := by
  unfold nnSockShutdown
  rw [if_neg (by simp)]
  simp only [h, heq, ok_bind]

theorem nnSockShutdown_actionStopped {hasStop : Bool} (h : s.state = .stopping) :
    nnSockShutdown hasStop s .actionStopped = s.finish1 := by
  unfold nnSockShutdown
  rw [if_neg (by simp)]
  simp only [h]
  rfl

theorem nnSockHandler_epStopped (h : s.state = .active) :
    nnSockHandler s (.epStopped eid) = s.freeEp eid := by
  unfold nnSockHandler
  simp only [h]

end Calls

section Steps

variable {hasStop : Bool} {s : Sock} {eid : ℕ}

theorem nnSockInit_good : nnSockInit.Good := by
  refine ⟨⟨List.Perm.refl _, ?_, ?_, ?_, le_rfl⟩, .active rfl rfl rfl rfl rfl⟩
  · rintro eid ⟨⟩
  · rintro eid ⟨⟩
  · rintro eid ep ⟨⟩

/-- The socket goes on when its last endpoint is gone. -/
theorem Sock.Owned.finish2 (h : s.Owned) (hasStop : Bool) (hfsm : s.fsm = .stopping)
    (hstate : s.state = .stoppingEps) (hstopped : s.stopped = false)
    (hbase : s.sockbase = some .running) (hterm : s.termsem = 0) (heps : s.eps = []) :
    ∃ s', s.finish2 hasStop = .ok s' ∧ s'.Good ∧ s'.left ≤ s.left := by
  by_cases hsdeps : s.sdeps = []
  · cases hasStop with
    | false =>
      refine ⟨{ s with sockbase := none, state := .fini, termsem := s.termsem + 1 }, ?_,
        ⟨h, .fini hfsm rfl hstopped rfl (by simp [hterm]) heps hsdeps⟩, by simp [Sock.left,
          Sock.baseLeft, hbase, hterm]⟩
      rw [Sock.finish2, if_neg (not_not.2 hsdeps), nnAssert_of heps]
      simp [Sock.finish1, hbase]
    | true =>
      refine ⟨{ s with sockbase := some .asked, state := .stopping }, ?_,
        ⟨h, .stopping hfsm rfl (Or.inl ⟨rfl, hstopped⟩) hterm heps hsdeps⟩, by simp [Sock.left,
          Sock.baseLeft, hbase]⟩
      rw [Sock.finish2, if_neg (not_not.2 hsdeps), nnAssert_of heps]
      simp [hbase]
  · exact ⟨s, by rw [Sock.finish2, if_pos hsdeps],
      ⟨h, .stoppingEps hfsm hstate hstopped hbase hterm heps hsdeps⟩, le_rfl⟩

/-- A change of an endpoint does not concern the socket. -/
theorem Sock.Phase.heap (h : s.Phase) (heap : ℕ → Option Ep) : Sock.Phase { s with heap } := by
  cases h with
  | active fsm state stopped sockbase termsem => exact .active fsm state stopped sockbase termsem
  | stoppingEps fsm state stopped sockbase termsem eps sdeps =>
    exact .stoppingEps fsm state stopped sockbase termsem eps sdeps
  | stopping fsm state sockbase termsem eps sdeps =>
    exact .stopping fsm state sockbase termsem eps sdeps
  | fini fsm state stopped sockbase termsem eps sdeps =>
    exact .fini fsm state stopped sockbase termsem eps sdeps
  | closed fsm stopped sockbase termsem eps sdeps =>
    exact .closed fsm stopped sockbase termsem eps sdeps

/-- A socket that was not stopped. -/
theorem Sock.Phase.of_active (h : s.Phase) (hactive : s.fsm = .active) :
    s.state = .active ∧ s.stopped = false ∧ s.sockbase = some .running ∧ s.termsem = 0 := by
  cases h with
  | active _ state stopped sockbase termsem => exact ⟨state, stopped, sockbase, termsem⟩
  | stoppingEps fsm => cases hactive.symm.trans fsm
  | stopping fsm => cases hactive.symm.trans fsm
  | fini fsm => cases hactive.symm.trans fsm
  | closed fsm => cases hactive.symm.trans fsm

/-- A socket that was stopped has no live endpoints. -/
theorem Sock.Phase.active_of_mem (h : s.Phase) (hmem : eid ∈ s.eps) : s.fsm = .active := by
  have hne : s.eps ≠ [] := List.ne_nil_of_mem hmem
  cases h with
  | active fsm => exact fsm
  | stoppingEps _ _ _ _ _ eps => exact absurd eps hne
  | stopping _ _ _ _ eps => exact absurd eps hne
  | fini _ _ _ _ _ eps => exact absurd eps hne
  | closed _ _ _ _ eps => exact absurd eps hne

/-- A socket whose semaphore was posted. -/
theorem Sock.Phase.of_posted (h : s.Phase) (hposted : 0 < s.termsem) :
    s.fsm = .stopping ∧ s.stopped = false ∧ s.sockbase = none ∧ s.termsem = 1 ∧ s.eps = [] ∧
      s.sdeps = [] := by
  cases h with
  | active _ _ _ _ termsem => omega
  | stoppingEps _ _ _ _ termsem => omega
  | stopping _ _ _ termsem => omega
  | fini fsm _ stopped sockbase termsem eps sdeps =>
    exact ⟨fsm, stopped, sockbase, termsem, eps, sdeps⟩
  | closed _ _ _ termsem => omega

theorem Sock.Good.addEp (h : s.Good) (hactive : s.fsm = .active) (created : Bool) :
    ∃ s', nnSockAddEp s created = .ok s' ∧ s'.Good := by
  cases created with
  | false => exact ⟨s, rfl, h⟩
  | true =>
    obtain ⟨hstate, hstopped, hbase, hterm⟩ := h.phase.of_active hactive
    exact ⟨_, rfl, Owned.add h.owned, .active hactive hstate hstopped hbase hterm⟩

theorem Sock.Good.rmEp (h : s.Good) (eid : ℕ) : ∃ s', nnSockRmEp s eid = .ok s' ∧ s'.Good := by
  by_cases hmem : eid ∈ s.eps
  · refine ⟨{ s with eps := s.eps.erase eid, sdeps := s.sdeps ++ [eid]
                     heap := Function.update s.heap eid
                       (some ⟨.stopping, .stopping, none, .asked⟩) }, ?_,
      Owned.move h.owned hmem, ?_⟩
    · rw [nnSockRmEp, if_neg (not_not.2 hmem)]
      exact Sock.atEp_eq (h.owned.live eid hmem) rfl
    · have hactive := h.phase.active_of_mem hmem
      obtain ⟨hstate, hstopped, hbase, hterm⟩ := h.phase.of_active hactive
      exact .active hactive hstate hstopped hbase hterm
  · exact ⟨s, if_pos hmem, h⟩

theorem Sock.Good.stop (h : s.Good) : ∃ s', nnSockStop hasStop s = .ok s' ∧ s'.Good := by
  by_cases hactive : s.fsm = .active
  · obtain ⟨hstate, hstopped, hbase, hterm⟩ := h.phase.of_active hactive
    let s₁ : Sock := { s with fsm := .stopping }
    have howned₁ : s₁.Owned := h.owned
    obtain ⟨sdeps, heap, heq, howned⟩ := stopEps_spec howned₁ rfl
    let s₂ : Sock := { s₁ with eps := [], sdeps, heap, state := .stoppingEps }
    have howned₂ : s₂.Owned := howned
    obtain ⟨s', hfinish, hgood, -⟩ := howned₂.finish2 hasStop rfl rfl hstopped hbase hterm rfl
    refine ⟨s', ?_, hgood⟩
    rw [nnSockStop, if_neg (not_not.2 hactive)]
    exact (nnSockShutdown_fsmStop (s := s₁) hstate heq).trans hfinish
  · exact ⟨s, if_pos hactive, h⟩

/-- What is known about an endpoint that is not live. -/
theorem Sock.Owned.of_ne_live (h : s.Owned) {ep : Ep} (hep : s.heap eid = some ep)
    (hne : ep ≠ .live) :
    eid ∈ s.sdeps ∧ ep.Closing := by
  have hmem : eid ∈ s.sdeps := by
    refine (h.listed eid ep hep).resolve_left fun hmem => ?_
    cases hep.symm.trans (h.live eid hmem)
    exact hne rfl
  obtain ⟨ep', hep', hclosing⟩ := h.closing eid hmem
  cases hep.symm.trans hep'
  exact ⟨hmem, hclosing⟩

/-- An endpoint shuts down further. -/
theorem Sock.Good.change (h : s.Good) {ep ep' : Ep} (hmem : eid ∈ s.sdeps)
    (hep : s.heap eid = some ep) (hclosing : ep'.Closing) (hlt : ep'.left < ep.left) :
    Sock.Good { s with heap := Function.update s.heap eid (some ep') } ∧
      Sock.left { s with heap := Function.update s.heap eid (some ep') } < s.left := by
  refine ⟨⟨Owned.change h.owned hmem hclosing, h.phase.heap _⟩, ?_⟩
  have hleft := Owned.left_change h.owned hmem hep ep'
  show epsLeft (Function.update s.heap eid (some ep')) s.sdeps + s.baseLeft <
    epsLeft s.heap s.sdeps + s.baseLeft
  omega

/-- A transport has stopped. -/
theorem Sock.Good.epStopped (h : s.Good) {ep : Ep} (hep : s.heap eid = some ep)
    (hasked : ep.tran = .asked) :
    ∃ s', s.atEp eid nnEpStopped = .ok s' ∧ s'.Good ∧ s'.left < s.left := by
  have hne : ep ≠ .live := by
    rintro rfl
    cases hasked
  obtain ⟨hmem, hclosing⟩ := h.owned.of_ne_live hep hne
  cases hclosing with
  | asked => exact ⟨_, Sock.atEp_eq hep rfl, h.change hmem hep .reported (by decide)⟩
  | reported => cases hasked
  | finished => cases hasked

/-- The socket frees an endpoint that has stopped, and goes on if it was the last one. -/
theorem Sock.Good.told (h : s.Good) (hep : s.heap eid = some ⟨.idle, .idle, some .toSock, .done⟩)
    (hmem : eid ∈ s.sdeps) :
    ∃ s', { s with heap := Function.update s.heap eid (some ⟨.idle, .idle, none, .done⟩) :
      Sock }.feed hasStop
      (.epStopped eid) = .ok s' ∧ s'.Good ∧ s'.left < s.left := by
  let s₁ : Sock := { s with heap := Function.update s.heap eid (some ⟨.idle, .idle, none, .done⟩) }
  let s₂ : Sock := { s with sdeps := s.sdeps.erase eid, heap := Function.update s.heap eid none
                            freed := s.freed ++ [eid] }
  have hfree : s₁.freeEp eid = .ok s₂ := by
    rw [Sock.freeEp_eq (s := s₁) (Function.update_self ..) hmem]
    simp only [s₁, s₂, Function.update_idem]
  have howned : s₂.Owned := Owned.free h.owned hmem
  have hleft : s₂.left < s.left := by
    have hfreed := Owned.left_free h.owned hmem hep none
    have hone : (⟨.idle, .idle, some .toSock, .done⟩ : Ep).left = 1 := rfl
    show epsLeft (Function.update s.heap eid none) (s.sdeps.erase eid) + s.baseLeft <
      epsLeft s.heap s.sdeps + s.baseLeft
    omega
  have hnil : s.sdeps ≠ [] := List.ne_nil_of_mem hmem
  cases h.phase with
  | active fsm state stopped sockbase termsem =>
    refine ⟨s₂, ?_, ⟨howned, .active fsm state stopped sockbase termsem⟩, hleft⟩
    rw [Sock.feed, if_pos (by rw [fsm]; decide)]
    exact (nnSockHandler_epStopped (s := s₁) state).trans hfree
  | stoppingEps fsm state stopped sockbase termsem eps =>
    obtain ⟨s', hfinish, hgood, hle⟩ :=
      howned.finish2 hasStop fsm state stopped sockbase termsem eps
    refine ⟨s', ?_, hgood, hle.trans_lt hleft⟩
    rw [Sock.feed, if_neg (not_not.2 fsm)]
    exact (nnSockShutdown_epStopped (s := s₁) state hfree).trans hfinish
  | stopping _ _ _ _ _ sdeps => exact absurd sdeps hnil
  | fini _ _ _ _ _ _ sdeps => exact absurd sdeps hnil
  | closed _ _ _ _ _ sdeps => exact absurd sdeps hnil

/-- The event of an endpoint is processed: by the endpoint first, and then by the socket. -/
theorem Sock.Good.popEp (h : s.Good) {ep : Ep} (hep : s.heap eid = some ep)
    (hqueued : ep.stopped.isSome) :
    ∃ s', s.popEp hasStop eid = .ok s' ∧ s'.Good ∧ s'.left < s.left := by
  have hne : ep ≠ .live := by
    rintro rfl
    cases hqueued
  obtain ⟨hmem, hclosing⟩ := h.owned.of_ne_live hep hne
  cases hclosing with
  | asked => cases hqueued
  | reported =>
    refine ⟨{ s with heap := Function.update s.heap eid (some ⟨.idle, .idle, some .toSock, .done⟩)
      }, ?_, h.change hmem hep .finished (by decide)⟩
    simp only [Sock.popEp, hep]
    exact Sock.atEp_eq hep rfl
  | finished =>
    simp only [Sock.popEp, hep]
    exact h.told hep hmem

/-- The protocol has stopped. -/
theorem Sock.Good.sockStopped (h : s.Good) (hasked : s.sockbase = some .asked) :
    ∃ s', nnSockStopped s = .ok s' ∧ s'.Good ∧ s'.left < s.left := by
  cases h.phase with
  | active _ _ _ sockbase => cases hasked.symm.trans sockbase
  | stoppingEps _ _ _ sockbase => cases hasked.symm.trans sockbase
  | stopping fsm state sockbase termsem eps sdeps =>
    rcases sockbase with ⟨-, hstopped⟩ | ⟨hdone, -⟩
    · refine ⟨{ s with stopped := true, sockbase := some .done }, ?_,
        ⟨h.owned, .stopping fsm state (Or.inr ⟨rfl, rfl⟩) termsem eps sdeps⟩, by simp [Sock.left,
          Sock.baseLeft, hasked]⟩
      rw [nnSockStopped, nnAssert_of hstopped]
      rfl
    · cases hasked.symm.trans hdone
  | fini _ _ _ sockbase => cases hasked.symm.trans sockbase
  | closed _ _ sockbase => cases hasked.symm.trans sockbase

/-- The socket processes the event of its protocol. -/
theorem Sock.Good.pop (h : s.Good) (hqueued : s.stopped = true) :
    ∃ s', { s with stopped := false : Sock }.feed hasStop .actionStopped = .ok s' ∧ s'.Good ∧
      s'.left < s.left := by
  cases h.phase with
  | active _ _ stopped => cases hqueued.symm.trans stopped
  | stoppingEps _ _ stopped => cases hqueued.symm.trans stopped
  | stopping fsm state sockbase termsem eps sdeps =>
    rcases sockbase with ⟨-, hstopped⟩ | ⟨hdone, -⟩
    · cases hqueued.symm.trans hstopped
    · refine ⟨{ s with stopped := false, sockbase := none, state := .fini,
                       termsem := s.termsem + 1 }, ?_,
        ⟨h.owned, .fini fsm rfl rfl rfl (by simp [termsem]) eps sdeps⟩,
        by simp [Sock.left, Sock.baseLeft, hdone, termsem]⟩
      let s₁ : Sock := { s with stopped := false }
      rw [Sock.feed, if_neg (not_not.2 fsm), nnSockShutdown_actionStopped (s := s₁) state]
      simp only [s₁, Sock.finish1, hdone]
  | fini _ _ stopped => cases hqueued.symm.trans stopped
  | closed _ stopped => cases hqueued.symm.trans stopped

/-- `nn_sock_term` finds nothing left. -/
theorem Sock.Good.term (h : s.Good) (hposted : 0 < s.termsem) :
    ∃ s', nnSockTerm s = .ok s' ∧ s'.Good ∧ s'.left < s.left := by
  obtain ⟨fsm, stopped, sockbase, termsem, eps, sdeps⟩ := h.phase.of_posted hposted
  refine ⟨{ s with fsm := .idle, termsem := s.termsem - 1 }, ?_,
    ⟨h.owned, .closed rfl stopped sockbase (by simp [termsem]) eps sdeps⟩,
    by simp [Sock.left, Sock.baseLeft, sockbase, termsem]⟩
  rw [nnSockTerm, nnAssert_of fsm, nnAssert_of stopped, nnAssert_of sdeps, nnAssert_of eps]
  rfl

/-- An event by which a shutdown goes on. -/
theorem Sock.Good.drive (h : s.Good) {e : SockEvent} (he : s.Enabled e) (hdrives : e.Drives) :
    ∃ s', s.step hasStop e = .ok s' ∧ s'.Good ∧ s'.left < s.left := by
  cases e with
  | addEp created => exact absurd rfl (hdrives.1 created)
  | rmEp eid => exact absurd rfl (hdrives.2.1 eid)
  | stop => exact absurd rfl hdrives.2.2
  | epStopped eid =>
    obtain ⟨ep, hep, hasked⟩ := Option.any_eq_true _ _ |>.1 he.2
    exact h.epStopped hep (of_decide_eq_true hasked)
  | popEp eid =>
    obtain ⟨ep, hep, hqueued⟩ := Option.any_eq_true _ _ |>.1 he.2
    exact h.popEp hep hqueued
  | sockStopped => exact h.sockStopped he.2
  | pop => exact h.pop he.2
  | term => exact h.term he.2

/-- No assertion fails, and every event keeps the invariant. -/
theorem Sock.Good.step (h : s.Good) {e : SockEvent} (he : s.Enabled e) (htimely : s.Timely e) :
    ∃ s', s.step hasStop e = .ok s' ∧ s'.Good := by
  by_cases hdrives : e.Drives
  · obtain ⟨s', heq, hgood, -⟩ := h.drive he hdrives
    exact ⟨s', heq, hgood⟩
  · cases e with
    | addEp created => exact h.addEp (htimely ⟨created, rfl⟩) created
    | rmEp eid => exact h.rmEp eid
    | stop => exact h.stop
    | epStopped | popEp | sockStopped | pop | term =>
      exact absurd (by simp [SockEvent.Drives]) hdrives

/-- A socket that was stopped can go on until `nn_sock_term` has returned. -/
theorem Sock.Good.progress (h : s.Good) (hstopping : s.fsm = .stopping) :
    ∃ e : SockEvent, e.Drives ∧ s.Enabled e := by
  have hne : s.fsm ≠ .idle := by
    rw [hstopping]
    decide
  cases h.phase with
  | active fsm => cases hstopping.symm.trans fsm
  | stoppingEps _ _ _ _ _ _ sdeps =>
    obtain ⟨eid, hmem⟩ := List.exists_mem_of_ne_nil _ sdeps
    obtain ⟨ep, hep, hclosing⟩ := h.owned.closing eid hmem
    cases hclosing with
    | asked => exact ⟨.epStopped eid, by simp [SockEvent.Drives], hne, by simp [Sock.Offers, hep]⟩
    | reported => exact ⟨.popEp eid, by simp [SockEvent.Drives], hne, by simp [Sock.Offers, hep]⟩
    | finished => exact ⟨.popEp eid, by simp [SockEvent.Drives], hne, by simp [Sock.Offers, hep]⟩
  | stopping _ _ sockbase =>
    rcases sockbase with ⟨hasked, -⟩ | ⟨-, hqueued⟩
    · exact ⟨.sockStopped, by simp [SockEvent.Drives], hne, hasked⟩
    · exact ⟨.pop, by simp [SockEvent.Drives], hne, hqueued⟩
  | fini _ _ _ _ termsem =>
    exact ⟨.term, by simp [SockEvent.Drives], hne, by simp [Sock.Offers, termsem]⟩
  | closed fsm => cases hstopping.symm.trans fsm

/-- All endpoints were freed before the protocol was asked to stop. -/
theorem Sock.Good.all_freed (h : s.Good) (hbase : s.sockbase ≠ some .running) :
    s.freed.Perm (List.range' 1 (s.eid - 1)) := by
  have hplaces := h.owned.places
  cases h.phase with
  | active _ _ _ sockbase => exact absurd sockbase hbase
  | stoppingEps _ _ _ sockbase => exact absurd sockbase hbase
  | stopping _ _ _ _ eps sdeps => simpa [eps, sdeps] using hplaces
  | fini _ _ _ _ _ eps sdeps => simpa [eps, sdeps] using hplaces
  | closed _ _ _ _ eps sdeps => simpa [eps, sdeps] using hplaces

end Steps

/-- In a run in which no endpoint is added after the stop, no assertion fails.  Every endpoint is in
one of the two lists or was freed once, all were freed before the protocol was asked to stop, the
protocol is destroyed before `nn_sock_term` goes on, and until that has returned the shutdown can go
on, by a number of events that `Sock.left` bounds. -/
theorem Sock.orderly_shutdown {hasStop : Bool} {es : List SockEvent} {s : Sock}
    (h : Trace (Sock.call hasStop) (fun s e => s.Enabled e ∧ s.Timely e) nnSockInit es s) :
    (∀ e, s.Enabled e → s.Timely e → ∃ s', s.step hasStop e = .ok s') ∧
      (s.eps ++ (s.sdeps ++ s.freed)).Perm (List.range' 1 (s.eid - 1)) ∧
      (s.sockbase ≠ some .running → s.freed.Perm (List.range' 1 (s.eid - 1))) ∧
      (0 < s.termsem → s.sockbase = none) ∧
      (s.fsm = .stopping → ∃ e : SockEvent, e.Drives ∧ s.Enabled e) ∧
      ∀ (e : SockEvent) (s' : Sock), e.Drives → s.Enabled e → s.step hasStop e = .ok s' →
        s'.left < s.left := by
  have hgood : s.Good := by
    apply h.invariant_of_step (I := fun _ s => s.Good) nnSockInit_good
    intro es s e hs he
    have hstep : ∃ s', s.step hasStop e = .ok s' ∧ s'.Good := hs.step he.1 he.2
    obtain ⟨s', heq, hs'⟩ := hstep
    exact ⟨s', (), by rw [Sock.call, heq]; rfl, hs'⟩
  refine ⟨fun e he ht => (hgood.step he ht).imp fun s' hs' => hs'.1, hgood.owned.places,
    hgood.all_freed, fun hposted => (hgood.phase.of_posted hposted).2.2.1, hgood.progress, ?_⟩
  intro e s' hdrives he heq
  have hdrive : ∃ s', s.step hasStop e = .ok s' ∧ s'.Good ∧ s'.left < s.left :=
    hgood.drive he hdrives
  obtain ⟨s'', heq', -, hlt⟩ := hdrive
  cases heq.symm.trans heq'
  exact hlt

/-- A socket with two endpoints, one of which is removed before the other is stopped with the
socket. -/
theorem Sock.orderly_shutdown_two :
    ∃ s, Trace (Sock.call true) (fun s e => s.Enabled e ∧ s.Timely e) nnSockInit
        [.addEp true, .addEp true, .rmEp 1, .epStopped 1, .popEp 1, .stop, .popEp 1, .epStopped 2,
          .popEp 2, .popEp 2, .sockStopped, .pop] s ∧ s.freed = [1, 2] ∧ s.sockbase = none := by
  have hrun : ∃ s, Trace (Sock.call true) (fun s e => s.Enabled e ∧ s.Timely e) nnSockInit
      [.addEp true, .addEp true, .rmEp 1, .epStopped 1, .popEp 1, .stop, .popEp 1, .epStopped 2,
        .popEp 2, .popEp 2, .sockStopped, .pop] s ∧ s.freed = [1, 2] ∧
        0 < s.termsem := Trace.exists_of_runWhile (by decide)
  obtain ⟨s, h, hfreed, hposted⟩ := hrun
  exact ⟨s, h, hfreed, (Sock.orderly_shutdown h).2.2.2.1 hposted⟩

/-- An endpoint that was added after the stop ends the program when the last of the others is
gone. -/
theorem late_endpoint (hasStop : Bool) {s : Sock} {eid : ℕ} (hfsm : s.fsm = .stopping)
    (hstate : s.state = .stoppingEps) (hlast : s.sdeps = [eid])
    (hep : s.heap eid = some ⟨.idle, .idle, some .toSock, .done⟩) (hlate : s.eps ≠ []) :
    s.step hasStop (.popEp eid) = .error .assertFailed := by
  let s₁ : Sock := { s with heap := Function.update s.heap eid (some ⟨.idle, .idle, none, .done⟩) }
  have hfree : s₁.freeEp eid = .ok { s₁ with sdeps := s₁.sdeps.erase eid,
                                             heap := Function.update s₁.heap eid none
                                             freed := s₁.freed ++ [eid] } :=
    Sock.freeEp_eq (Function.update_self ..) (hlast ▸ List.mem_singleton_self eid)
  have hnil : s₁.sdeps.erase eid = [] := by
    show s.sdeps.erase eid = []
    rw [hlast, List.erase_cons_head]
  simp only [Sock.step, Sock.popEp, hep]
  rw [Sock.feed, if_neg (not_not.2 hfsm)]
  refine (nnSockShutdown_epStopped (s := s₁) hstate hfree).trans ?_
  rw [Sock.finish2, if_neg (not_not.2 hnil), nnAssert_of_not hlate]
  rfl

/-- A thread that connects while another one closes. -/
theorem late_endpoint_connect :
    ∃ s, Trace (Sock.call false) Sock.Enabled nnSockInit
      [.addEp true, .stop, .addEp true, .epStopped 1, .popEp 1] s ∧
        s.step false (.popEp 1) = .error .assertFailed := by
  have hrun : ∃ s, Trace (Sock.call false) Sock.Enabled nnSockInit
      [.addEp true, .stop, .addEp true, .epStopped 1, .popEp 1] s ∧ s.fsm = .stopping ∧
        s.state = .stoppingEps ∧
        s.sdeps = [1] ∧ s.heap 1 = some ⟨.idle, .idle, some .toSock, .done⟩ ∧ s.eps ≠ [] :=
    Trace.exists_of_runWhile (by decide)
  obtain ⟨s, h, hfsm, hstate, hlast, hep, hlate⟩ := hrun
  exact ⟨s, h, late_endpoint false hfsm hstate hlast hep hlate⟩

end NanoSocket.Endpoints

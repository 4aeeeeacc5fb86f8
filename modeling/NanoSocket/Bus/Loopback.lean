import NanoSocket.Bus.Xbus
import NanoSocket.Lib.Runs
import NanoSocket.ReqRep.Device

/-!
# Loopback devices on raw BUS sockets (`devices/device.c`)

`nn_device_loopback` moves messages from a socket to the same socket until something fails.  On a
raw BUS socket this connects all pipes: a message goes to all other pipes.

`Loopback` is the device with its socket.  Pipes come and go, messages arrive and sends complete at
any time, also between the two calls of `nn_device_mvmsg`.  `Loopback.Good` is the invariant, and
`Loopback.forwards` is the result: the device stops only when the size of a body that it took is
negative as an `int`, and every pipe was given what arrived at the others while it could send, and
nothing else.
-/

namespace NanoSocket.Bus

open Runs
open NanoSocket.Core (toInt toInt_nonneg_iff)
open ReqRep (nnDeviceRewritemsg wire)

variable {P : Type} [DecidableEq P]

/-- What `nn_device_mvmsg` has between its two calls; the pipe that the message came from is there
for the specification only. -/
structure Held (P : Type) where
  origin : P
  body : List UInt8
  control : List UInt8

/-- A device.  For the specification, `arrived` collects the bodies that came from each pipe,
`taken` those that `nn_recvmsg` took, and `given` what each pipe should have been given since it was
attached. -/
structure Loopback (P : Type) where
  xbus : Xbus P
  held : Option (Held P)
  running : Bool
  arrived : P → List (List UInt8)
  taken : List (List UInt8)
  given : P → List (List UInt8)

/-- A device before it receives. -/
def Loopback.init : Loopback P :=
  { xbus := nnXbusInit, held := none, running := true, arrived := fun _ => [], taken := [],
    given := fun _ => [] }

/-- What happens at a device.  A `recv` that finds no message waits; `memory` is what `nn_recvmsg`
leaves behind the header in the control data, and `sync` says which sessions complete a send within
the call. -/
inductive LoopbackEvent (P : Type)
  | add (pipe : P) (rcvprio : Fin 16)
  | rm (pipe : P)
  | arrive (pipe : P) (m : Inbound)
  | sent (pipe : P)
  | popIn (pipe : P)
  | popOut (pipe : P)
  | recv (memory : ℕ → UInt8)
  | send (sync : P → Bool)

/-- What the pipe should be given of a message. -/
def Loopback.share (d : Loopback P) (held : Held P) (q : P) : List (List UInt8) :=
  match d.xbus.pipes q with
  | none => []
  | some pipe => if pipe.OutReady ∧ q ≠ held.origin then [held.body] else []

/-- A session or an event changes a pipe. -/
def Loopback.atPipe (d : Loopback P) (p : P) (f : Pipe → Except Fault Pipe) :
    Except Fault (Loopback P) :=
  match d.xbus.pipes p with
  | none => .error .nullDeref
  | some pipe => do
    return { d with
      xbus := { d.xbus with pipes := Function.update d.xbus.pipes p (some (← f pipe)) } }

/-- One event.  The first half of `nn_device_mvmsg` is `recv`, the second one is `send`. -/
def Loopback.step (addr : P → List UInt8) (d : Loopback P) :
    LoopbackEvent P → Except Fault (Loopback P)
  | .add p rcvprio =>
    .ok { d with xbus := nnXbusAdd d.xbus p rcvprio, given := Function.update d.given p [] }
  | .rm p => .ok { d with xbus := nnXbusRm d.xbus p }
  | .arrive p m => do
    let d ← d.atPipe p fun pipe => pipe.arrive m
    return { d with arrived := Function.update d.arrived p (d.arrived p ++ [m.msg.body]) }
  | .sent p => d.atPipe p nnPipebaseSent
  | .popIn p => do
    let d ← d.atPipe p fun pipe => .ok { pipe with inRaised := false }
    return { d with xbus := ← nnXbusIn d.xbus p }
  | .popOut p => do
    let d ← d.atPipe p fun pipe => .ok { pipe with outRaised := false }
    return { d with xbus := ← nnXbusOut d.xbus p }
  | .recv memory => do
    let (r, xbus) ← nnXbusRecv addr d.xbus
    match r with
    | none => return { d with xbus }
    | some (origin, msg) =>
      let d := { d with xbus, taken := d.taken ++ [msg.body] }
      -- a size that is negative as an `int` is taken for an error
      if toInt msg.body.length < 0 then return { d with running := false }
      return { d with held := some ⟨origin, msg.body, nnRecvmsgControl msg memory⟩ }
  | .send sync =>
    match d.held with
    | none => .ok d
    | some held => do
      let rc := nnDeviceRewritemsg held.body held.control (toInt held.body.length)
      if rc = -1 then return { d with held := none, running := false }
      else if rc = 0 then return { d with held := none }
      nnAssert (rc = 1)
      let (accepted, xbus) ← nnXbusSend addr d.xbus (← nnSendmsg held.body held.control) sync
      -- any error is fatal
      let rc := if accepted then toInt held.body.length else -1
      return { d with xbus, held := none, running := decide (0 ≤ rc),
                      given := fun q => d.given q ++ d.share held q }

/-- The same as a call without an answer. -/
def Loopback.call (addr : P → List UInt8) (d : Loopback P) (e : LoopbackEvent P) :
    Except Fault (Loopback P × Unit) :=
  return (← d.step addr e, ())

/-- The events that can happen: what sessions and workers do with the pipes, and the next call of
the device. -/
def Loopback.Enabled (d : Loopback P) : LoopbackEvent P → Prop
  | .add p _ => d.xbus.pipes p = none
  | .rm p | .arrive p _ => (d.xbus.pipes p).isSome
  | .sent p => ((d.xbus.pipes p).any fun pipe => pipe.outstate = .async) = true
  | .popIn p => ((d.xbus.pipes p).any fun pipe => pipe.inRaised) = true
  | .popOut p => ((d.xbus.pipes p).any fun pipe => pipe.outRaised) = true
  | .recv _ => d.running = true ∧ d.held.isNone
  | .send _ => d.running = true ∧ d.held.isSome

instance Loopback.decidableEnabled (d : Loopback P) :
    (e : LoopbackEvent P) → Decidable (d.Enabled e)
  | .add p _ => inferInstanceAs (Decidable (d.xbus.pipes p = none))
  | .rm p | .arrive p _ => inferInstanceAs (Decidable ((d.xbus.pipes p).isSome = true))
  | .sent p =>
    inferInstanceAs (Decidable (((d.xbus.pipes p).any fun pipe => pipe.outstate = .async) = true))
  | .popIn p =>
    inferInstanceAs (Decidable (((d.xbus.pipes p).any fun pipe => pipe.inRaised) = true))
  | .popOut p =>
    inferInstanceAs (Decidable (((d.xbus.pipes p).any fun pipe => pipe.outRaised) = true))
  | .recv _ => inferInstanceAs (Decidable (d.running = true ∧ d.held.isNone = true))
  | .send _ => inferInstanceAs (Decidable (d.running = true ∧ d.held.isSome = true))

/-! ### The invariant -/

/-- The device holds a marked message that arrived at the pipe that it is marked with, and its size
is no error. -/
structure Held.Good (addr : P → List UInt8) (arrived : P → List (List UInt8)) (held : Held P) :
    Prop where
  size : 0 ≤ toInt held.body.length
  control : ∃ msg memory, held.control = nnRecvmsgControl msg memory ∧ msg.sphdr = addr held.origin
  arrived : held.body ∈ arrived held.origin

/-- The invariant of a device. -/
structure Loopback.Good (addr : P → List UInt8) (d : Loopback P) : Prop where
  xbus : d.xbus.Wf
  running : d.running = true ↔ ∀ body ∈ d.taken, 0 ≤ toInt body.length
  taken : ∀ body ∈ d.taken, ∃ p, body ∈ d.arrived p
  held : ∀ held, d.held = some held → held.Good addr d.arrived
  inbox : ∀ p pipe, d.xbus.pipes p = some pipe → ∀ m ∈ pipe.inbox, m.msg.body ∈ d.arrived p
  outbox : ∀ q pipe, d.xbus.pipes q = some pipe → pipe.outbox.map wire = d.given q
  origin : ∀ q, ∀ body ∈ d.given q, ∃ p, p ≠ q ∧ body ∈ d.arrived p

section Steps

variable {addr : P → List UInt8} {d : Loopback P} {p : P} {pipe pipe' : Pipe}

omit [DecidableEq P] in
theorem Loopback.init_good : (Loopback.init : Loopback P).Good addr := by
  refine ⟨nnXbusInit_wf, ⟨fun _ _ hbody => (nomatch hbody), fun _ => rfl⟩,
    fun _ hbody => (nomatch hbody), ?_, ?_, ?_, ?_⟩
  · rintro held ⟨⟩
  · rintro p pipe ⟨⟩
  · rintro q pipe ⟨⟩
  · rintro q body ⟨⟩

theorem Loopback.Good.add (h : d.Good addr) (hp : d.xbus.pipes p = none) (rcvprio : Fin 16) :
    Loopback.Good addr { d with xbus := nnXbusAdd d.xbus p rcvprio,
                                given := Function.update d.given p [] } := by
  refine ⟨nnXbusAdd_wf h.xbus hp rcvprio, h.running, h.taken, h.held, ?_, ?_, ?_⟩
  · intro q r hq
    by_cases hqp : q = p
    · subst hqp
      simp only [nnXbusAdd, Function.update_self, Option.some.injEq] at hq
      subst hq
      rintro m ⟨⟩
    · simp only [nnXbusAdd, Function.update_of_ne hqp] at hq
      exact h.inbox q r hq
  · intro q r hq
    by_cases hqp : q = p
    · subst hqp
      simp only [nnXbusAdd, Function.update_self, Option.some.injEq] at hq
      subst hq
      simp only [Function.update_self]
      rfl
    · simp only [nnXbusAdd, Function.update_of_ne hqp] at hq
      simp only [Function.update_of_ne hqp]
      exact h.outbox q r hq
  · intro q body hbody
    by_cases hqp : q = p
    · subst hqp
      simp only [Function.update_self] at hbody
      cases hbody
    · simp only [Function.update_of_ne hqp] at hbody
      exact h.origin q body hbody

theorem Loopback.Good.rm (h : d.Good addr) (p : P) :
    Loopback.Good addr { d with xbus := nnXbusRm d.xbus p } := by
  have hold : ∀ {q r}, (nnXbusRm d.xbus p).pipes q = some r → d.xbus.pipes q = some r := by
    intro q r hq
    by_cases hqp : q = p
    · subst hqp
      simp only [nnXbusRm, Function.update_self] at hq
      cases hq
    · simpa only [nnXbusRm, Function.update_of_ne hqp] using hq
  exact ⟨nnXbusRm_wf h.xbus p, h.running, h.taken, h.held, fun q r hq => h.inbox q r (hold hq),
    fun q r hq => h.outbox q r (hold hq), h.origin⟩

/-- Something happens at a pipe that leaves its outbox alone. -/
theorem Loopback.Good.at_pipe (h : d.Good addr) (hp : d.xbus.pipes p = some pipe) {x : Xbus P}
    (hx : x.Wf) (hpipes : x.pipes = Function.update d.xbus.pipes p (some pipe'))
    (hout : pipe'.outbox = pipe.outbox) {arrived : P → List (List UInt8)}
    (hmono : ∀ q, d.arrived q ⊆ arrived q) (hin : ∀ m ∈ pipe'.inbox, m.msg.body ∈ arrived p) :
    Loopback.Good addr { d with xbus := x, arrived := arrived } := by
  have hcases : ∀ {q r}, x.pipes q = some r → q = p ∧ r = pipe' ∨ d.xbus.pipes q = some r := by
    intro q r hq
    rw [hpipes] at hq
    by_cases hqp : q = p
    · subst hqp
      rw [Function.update_self] at hq
      exact Or.inl ⟨rfl, (Option.some.inj hq).symm⟩
    · rw [Function.update_of_ne hqp] at hq
      exact Or.inr hq
  refine ⟨hx, h.running, ?_, ?_, ?_, ?_, ?_⟩
  · intro body hbody
    obtain ⟨o, ho⟩ := h.taken body hbody
    exact ⟨o, hmono o ho⟩
  · intro held hheld
    have hold := h.held held hheld
    exact ⟨hold.size, hold.control, hmono _ hold.arrived⟩
  · intro q r hq
    rcases hcases hq with ⟨rfl, rfl⟩ | hq
    · exact hin
    · exact fun m hm => hmono q (h.inbox q r hq m hm)
  · intro q r hq
    rcases hcases hq with ⟨rfl, rfl⟩ | hq
    · exact hout ▸ h.outbox q pipe hp
    · exact h.outbox q r hq
  · intro q body hbody
    obtain ⟨o, hne, ho⟩ := h.origin q body hbody
    exact ⟨o, hne, hmono o ho⟩

/-- A message arrives. -/
theorem Loopback.Good.arrive (h : d.Good addr) (hp : d.xbus.pipes p = some pipe) (m : Inbound) :
    ∃ d', d.step addr (.arrive p m) = .ok d' ∧ d'.Good addr := by
  obtain ⟨pipe', heq, hwf, hinbox, hos, hor, hob, hraised⟩ := (h.xbus.pipes p pipe hp).arrive m
  refine ⟨_, by simp only [Loopback.step, Loopback.atPipe, hp, heq, ok_bind]; rfl, ?_⟩
  have hxbus : Xbus.Wf { d.xbus with pipes := Function.update d.xbus.pipes p (some pipe') } := by
    apply h.xbus.update hwf
    · intro ha
      obtain ⟨hne, hnot⟩ := h.xbus.inpipes.of_active hp ha
      refine ⟨by simp [hinbox], Bool.eq_false_iff.2 fun hr => ?_⟩
      rcases hraised.1 hr with hr | hnil
      · rw [hnot] at hr
        cases hr
      · exact hne hnil
    · rw [h.xbus.mem_iff hp, Pipe.OutReady, Pipe.OutReady, hos, hor]
  refine h.at_pipe hp hxbus rfl hob ?_ ?_
  · intro q body hbody
    by_cases hqp : q = p
    · subst hqp
      simp only [Function.update_self]
      exact List.mem_append_left _ hbody
    · simpa only [Function.update_of_ne hqp] using hbody
  · intro m' hm'
    simp only [Function.update_self]
    rw [hinbox] at hm'
    rcases List.mem_append.1 hm' with hm' | hm'
    · exact List.mem_append_left _ (h.inbox p pipe hp m' hm')
    · rw [List.mem_singleton.1 hm']
      exact List.mem_append_right _ (List.mem_singleton_self _)

/-- A session completes a send; the pipe can send again when its `OUT` event is processed. -/
theorem Loopback.Good.sent (h : d.Good addr) (hp : d.xbus.pipes p = some pipe)
    (hasync : pipe.outstate = .async) :
    ∃ d', d.step addr (.sent p) = .ok d' ∧ d'.Good addr := by
  obtain ⟨pipe', heq, hwf, hinbox, hir, hob, -, hor⟩ := (h.xbus.pipes p pipe hp).sent hasync
  refine ⟨_, by simp only [Loopback.step, Loopback.atPipe, hp, heq, ok_bind]; rfl, ?_⟩
  have hxbus : Xbus.Wf { d.xbus with pipes := Function.update d.xbus.pipes p (some pipe') } := by
    apply h.xbus.update hwf
    · intro ha
      obtain ⟨hne, hnot⟩ := h.xbus.inpipes.of_active hp ha
      exact ⟨hinbox ▸ hne, hir.trans hnot⟩
    · rw [h.xbus.mem_iff hp]
      constructor
      · intro hready
        cases hready.1.symm.trans hasync
      · intro hready
        cases hready.2.symm.trans hor
  exact h.at_pipe hp hxbus rfl hob (fun q => List.Subset.refl _) fun m hm =>
    h.inbox p pipe hp m (hinbox ▸ hm)

theorem Loopback.Good.popIn (h : d.Good addr) (hp : d.xbus.pipes p = some pipe)
    (hraised : pipe.inRaised = true) :
    ∃ d', d.step addr (.popIn p) = .ok d' ∧ d'.Good addr := by
  obtain ⟨x, heq, hx, hpipes⟩ := nnXbusIn_spec h.xbus hp hraised
  have hstep : d.step addr (.popIn p) = .ok { d with xbus := x } := by
    simp only [Loopback.step, Loopback.atPipe, hp, ok_bind]
    simp [heq]
  refine ⟨{ d with xbus := x }, hstep, ?_⟩
  exact h.at_pipe hp hx hpipes rfl (fun q => List.Subset.refl _) (h.inbox p pipe hp)

theorem Loopback.Good.popOut (h : d.Good addr) (hp : d.xbus.pipes p = some pipe)
    (hraised : pipe.outRaised = true) :
    ∃ d', d.step addr (.popOut p) = .ok d' ∧ d'.Good addr := by
  obtain ⟨x, heq, hx, hpipes⟩ := nnXbusOut_spec h.xbus hp hraised
  have hstep : d.step addr (.popOut p) = .ok { d with xbus := x } := by
    simp only [Loopback.step, Loopback.atPipe, hp, ok_bind]
    simp [heq]
  refine ⟨{ d with xbus := x }, hstep, ?_⟩
  exact h.at_pipe hp hx hpipes rfl (fun q => List.Subset.refl _) (h.inbox p pipe hp)

/-- The device takes a message from an inbox; when its size looks like an error, the message is lost
and the device stops. -/
theorem Loopback.Good.recv (h : d.Good addr) (hrun : d.running = true) (hfree : d.held = none)
    (memory : ℕ → UInt8) :
    ∃ d', d.step addr (.recv memory) = .ok d' ∧ d'.Good addr := by
  obtain ⟨r, x, heq, hx, hdrained, hmarked⟩ := nnXbusRecv_spec addr h.xbus
  have hinbox : ∀ q pipe', x.pipes q = some pipe' →
      ∀ m ∈ pipe'.inbox, m.msg.body ∈ d.arrived q := by
    intro q pipe' hq m hm
    obtain ⟨pipe, hp, -, hsuffix⟩ := hdrained q pipe' hq
    exact h.inbox q pipe hp m (hsuffix.subset hm)
  have houtbox : ∀ q pipe', x.pipes q = some pipe' → pipe'.outbox.map wire = d.given q := by
    intro q pipe' hq
    obtain ⟨pipe, hp, hout, -⟩ := hdrained q pipe' hq
    exact hout ▸ h.outbox q pipe hp
  have hfit := h.running.1 hrun
  rw [Loopback.step, heq, ok_bind]
  cases r with
  | none => exact ⟨_, rfl, hx, h.running, h.taken, h.held, hinbox, houtbox, h.origin⟩
  | some r =>
    obtain ⟨origin, msg⟩ := r
    obtain ⟨hsphdr, pipe, hp, m, hm, hbody⟩ := hmarked origin msg rfl
    have harrived : msg.body ∈ d.arrived origin := hbody ▸ h.inbox origin pipe hp m hm
    have htaken : ∀ body ∈ d.taken ++ [msg.body], ∃ p, body ∈ d.arrived p := by
      intro body hmem
      rcases List.mem_append.1 hmem with hmem | hmem
      · exact h.taken body hmem
      · exact ⟨origin, List.mem_singleton.1 hmem ▸ harrived⟩
    simp only
    by_cases hsize : toInt msg.body.length < 0
    · rw [if_pos hsize]
      refine ⟨_, rfl, hx, ⟨fun hfalse => (nomatch hfalse), fun hall => ?_⟩, htaken, ?_, hinbox,
        houtbox, h.origin⟩
      · exact absurd hsize (not_lt.2 (hall _ (List.mem_append_right _ (List.mem_singleton_self _))))
      · intro held hheld
        simp only [hfree] at hheld
        cases hheld
    · rw [if_neg hsize]
      refine ⟨_, rfl, hx, ⟨fun _ body hmem => ?_, fun _ => hrun⟩, htaken, ?_, hinbox,
        houtbox, h.origin⟩
      · rcases List.mem_append.1 hmem with hmem | hmem
        · exact hfit body hmem
        · rw [List.mem_singleton.1 hmem]
          exact not_lt.1 hsize
      · rintro held ⟨⟩
        exact ⟨not_lt.1 hsize, ⟨msg, memory, rfl, hsphdr⟩, harrived⟩

/-- The device sends what it holds; the socket finds the pointer in the control data. -/
theorem Loopback.Good.send (haddr : Function.Injective addr) (hlen : ∀ p, (addr p).length = 8)
    (h : d.Good addr) (hrun : d.running = true) {held : Held P} (hheld : d.held = some held)
    (sync : P → Bool) :
    ∃ d', d.step addr (.send sync) = .ok d' ∧ d'.Good addr := by
  obtain ⟨hsize, ⟨msg, memory, hcontrol, hsphdr⟩, harrived⟩ := h.held held hheld
  have hsendmsg : nnSendmsg held.body held.control = .ok ⟨msg.sphdr, held.control, held.body⟩ := by
    rw [hcontrol]
    exact nnSendmsg_nnRecvmsg msg memory held.body (by rw [hsphdr, hlen]; decide)
  have hmarked : (⟨msg.sphdr, held.control, held.body⟩ : Msg).sphdr = addr held.origin := hsphdr
  obtain ⟨x, heq, hx, hpipes⟩ := nnXbusSend_spec haddr hlen h.xbus hmarked sync
  have hforward : nnDeviceRewritemsg held.body held.control (toInt held.body.length) = 1 := rfl
  refine ⟨{ d with xbus := x, held := none, running := true,
                   given := fun q => d.given q ++ d.share held q },
    ?_, hx, ⟨fun _ => h.running.1 hrun, fun _ => rfl⟩, h.taken, ?_, ?_, ?_, ?_⟩
  · simp only [Loopback.step, hheld, hforward]
    rw [if_neg (by decide), if_neg (by decide), nnAssert_of trivial, ok_bind, hsendmsg,
      ok_bind, heq, ok_bind]
    simp only [if_true, hsize, decide_true]
    rfl
  · rintro held' ⟨⟩
  · intro q pipe' hq
    obtain ⟨pipe, hp, hinbox, -⟩ := hpipes q pipe' hq
    exact hinbox ▸ h.inbox q pipe hp
  · intro q pipe' hq
    obtain ⟨pipe, hp, -, hout⟩ := hpipes q pipe' hq
    simp only [hout, List.map_append, h.outbox q pipe hp, Loopback.share, hp]
    split_ifs <;> rfl
  · intro q body hbody
    rcases List.mem_append.1 hbody with hbody | hbody
    · exact h.origin q body hbody
    · rw [Loopback.share] at hbody
      cases hp : d.xbus.pipes q with
      | none =>
        simp only [hp] at hbody
        cases hbody
      | some pipe =>
        simp only [hp] at hbody
        split_ifs at hbody with hready
        · rw [List.mem_singleton.1 hbody]
          exact ⟨held.origin, hready.2.symm, harrived⟩
        · cases hbody

/-- No assertion fails, and every event keeps the invariant. -/
theorem Loopback.Good.step (haddr : Function.Injective addr) (hlen : ∀ p, (addr p).length = 8)
    (h : d.Good addr) {e : LoopbackEvent P} (he : d.Enabled e) :
    ∃ d', d.step addr e = .ok d' ∧ d'.Good addr := by
  cases e with
  | add p rcvprio => exact ⟨_, rfl, h.add he rcvprio⟩
  | rm p => exact ⟨_, rfl, h.rm p⟩
  | arrive p m =>
    obtain ⟨pipe, hp⟩ := Option.isSome_iff_exists.1 he
    exact h.arrive hp m
  | sent p =>
    obtain ⟨pipe, hp, hasync⟩ := Option.any_eq_true _ _ |>.1 he
    exact h.sent hp (of_decide_eq_true hasync)
  | popIn p =>
    obtain ⟨pipe, hp, hraised⟩ := Option.any_eq_true _ _ |>.1 he
    exact h.popIn hp hraised
  | popOut p =>
    obtain ⟨pipe, hp, hraised⟩ := Option.any_eq_true _ _ |>.1 he
    exact h.popOut hp hraised
  | recv memory => exact h.recv he.1 (Option.isNone_iff_eq_none.1 he.2) memory
  | send sync =>
    obtain ⟨held, hheld⟩ := Option.isSome_iff_exists.1 he.2
    exact h.send haddr hlen he.1 hheld sync

end Steps

/-- Whatever happens at a loopback device on a raw BUS socket, no assertion fails.  The device runs
if and only if no body that it took has a negative size; the bodies that it took arrived at a pipe.
Every pipe was given, in this order and once each, the messages that the device moved while it could
send, except its own ones, and nothing that did not arrive at another pipe. -/
theorem Loopback.forwards {addr : P → List UInt8} (haddr : Function.Injective addr)
    (hlen : ∀ p, (addr p).length = 8) {es : List (LoopbackEvent P)} {d : Loopback P}
    (h : Trace (Loopback.call addr) Loopback.Enabled .init es d) :
    (∀ e, d.Enabled e → ∃ d', d.step addr e = .ok d') ∧
      (d.running = true ↔ ∀ body ∈ d.taken, body.length % 2 ^ 32 < 2 ^ 31) ∧
      (∀ body ∈ d.taken, ∃ p, body ∈ d.arrived p) ∧
      ∀ q pipe, d.xbus.pipes q = some pipe → pipe.outbox.map wire = d.given q ∧
        ∀ body ∈ d.given q, ∃ p, p ≠ q ∧ body ∈ d.arrived p := by
  have hgood : d.Good addr := by
    apply h.invariant_of_step (I := fun _ d => d.Good addr) Loopback.init_good
    intro es d e hd he
    obtain ⟨d', heq, hd'⟩ := hd.step haddr hlen he
    exact ⟨d', (), by rw [Loopback.call, heq]; rfl, hd'⟩
  have hrunning := hgood.running
  simp only [toInt_nonneg_iff] at hrunning
  refine ⟨fun e he => (hgood.step haddr hlen he).imp fun d' hd' => hd'.1, hrunning, hgood.taken, ?_⟩
  intro q pipe hq
  exact ⟨hgood.outbox q pipe hq, hgood.origin q⟩

/-- Three pipes; a message that arrives at one of them goes to the others. -/
theorem Loopback.forwards_three :
    ∃ d, Trace (Loopback.call fun p : Fin 3 => p.val.toUInt8 :: List.replicate 7 0xC0)
      Loopback.Enabled .init
        [.add 0 0, .add 1 0, .add 2 0, .popOut 0, .popOut 1, .popOut 2,
          .arrive 1 ⟨⟨[], [], [0x41]⟩, true⟩, .popIn 1, .recv fun _ => 0, .send fun _ => false] d ∧
      d.given 0 = [[0x41]] ∧ d.given 1 = [] ∧ d.given 2 = [[0x41]] ∧ d.running = true ∧
      ∀ q pipe, d.xbus.pipes q = some pipe → pipe.outbox.map wire = d.given q := by
  have hrun : ∃ d, Trace (Loopback.call fun p : Fin 3 => p.val.toUInt8 :: List.replicate 7 0xC0)
      Loopback.Enabled .init
      [.add 0 0, .add 1 0, .add 2 0, .popOut 0, .popOut 1, .popOut 2,
        .arrive 1 ⟨⟨[], [], [0x41]⟩, true⟩, .popIn 1, .recv fun _ => 0, .send fun _ => false] d ∧
      d.given 0 = [[0x41]] ∧ d.given 1 = [] ∧ d.given 2 = [[0x41]] ∧ d.taken = [[0x41]] :=
    Trace.exists_of_runWhile (by decide)
  obtain ⟨d, h, hgiven⟩ := hrun
  have haddr : Function.Injective fun p : Fin 3 =>
      p.val.toUInt8 :: List.replicate 7 0xC0 := by decide
  obtain ⟨-, hrunning, -, hforwards⟩ := Loopback.forwards haddr (fun _ => rfl) h
  refine ⟨d, h, hgiven.1, hgiven.2.1, hgiven.2.2.1, hrunning.2 ?_,
    fun q pipe hq => (hforwards q pipe hq).1⟩
  rw [hgiven.2.2.2]
  decide

end NanoSocket.Bus

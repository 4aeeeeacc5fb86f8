import NanoSocket.Core.Cmsg
import NanoSocket.Core.Wire
import NanoSocket.Core.Timer
import NanoSocket.Lib.Runs

/-!
# The header of a stream (`transports/utils/streamhdr.c`)

Before two sessions exchange messages over a stream, each writes eight bytes, `"\0SP\0"` and the
protocol number of its socket, and reads as many.  The exchange ends within a second or the
connection is dropped.

* `Streamhdr` is the state machine of one end, with the transfers of the underlying socket: `unsent`
  bytes of the buffer `protohdr` are still to be written, `wanted` bytes of it still to be read.
  One buffer serves for both.
* `Party` is an end with what it wrote, read and reported.  The session that gets the socket back
  writes and reads bytes of its own.  What an end reads is arbitrary here.

The event `done` and the event `stopped` reach the owner before the context is left, so they are
answers of the call that raises them.
-/

namespace NanoSocket.Tcp

open Runs

/-- `NN_STREAMHDR_STATE_*`. -/
inductive StreamhdrState
  | idle
  | sending
  | receiving
  | stoppingTimerError
  | stoppingTimerDone
  | done
  | stopping
  deriving DecidableEq, Repr

/-- What is fed to the state machine: actions, events of the underlying socket, events of the
timer. -/
inductive StreamhdrInput
  | fsmStart
  | fsmStop
  | sent
  | received
  | shutdown
  | error
  | timeout
  | timerStopped
  deriving DecidableEq, Repr

/-- `NN_STREAMHDR_OK`, `NN_STREAMHDR_ERROR` and `NN_STREAMHDR_STOPPED`. -/
inductive StreamhdrReport
  | ok
  | error
  | stopped
  deriving DecidableEq, Repr

/-- `struct nn_streamhdr`; `usock` says that it owns the underlying socket. -/
structure Streamhdr where
  fsm : FsmState
  state : StreamhdrState
  timer : Timer
  usock : Bool
  pipebase : Option Socktype
  protohdr : List UInt8
  unsent : ℕ
  wanted : ℕ
  deriving DecidableEq, Repr

/-- `nn_streamhdr_init`. -/
def nnStreamhdrInit : Streamhdr :=
  { fsm := .idle, state := .idle, timer := .init, usock := false, pipebase := none
    protohdr := List.replicate 8 0, unsent := 0, wanted := 0 }

/-- `nn_streamhdr_isidle`. -/
def nnStreamhdrIsidle (self : Streamhdr) : Bool := self.fsm = .idle

/-- `nn_puts`. -/
def nnPuts (val : ℕ) : List UInt8 := (putLe 2 val).reverse

/-- `nn_gets`. -/
def nnGets (buf : List UInt8) : ℕ := getLe (buf.take 2).reverse

/-- `"\0SP\0"`. -/
def signature : List UInt8 := [0x00, 0x53, 0x50, 0x00]

/-- The protocol header that `nn_streamhdr_start` composes. -/
def protohdrOf (protocol : ℕ) : List UInt8 := signature ++ nnPuts protocol ++ [0, 0]

/-- Stop the timer and go on to a state that waits for it. -/
def Streamhdr.stopTimer (streamhdr : Streamhdr) (state : StreamhdrState) :
    Except Fault (Streamhdr × Option StreamhdrReport) := do
  return ({ streamhdr with timer := ← nnTimerStop streamhdr.timer, state }, none)

/-- The socket goes back to its owner, which is told how the exchange ended. -/
def Streamhdr.giveBack (streamhdr : Streamhdr) (report : StreamhdrReport) :
    Streamhdr × Option StreamhdrReport :=
  ({ streamhdr with usock := false, state := .done }, some report)

/-- `nn_streamhdr_handler`. -/
def nnStreamhdrHandler (streamhdr : Streamhdr) (src : StreamhdrInput) :
    Except Fault (Streamhdr × Option StreamhdrReport) :=
  match streamhdr.state with
  | .idle =>
    match src with
    | .fsmStart => do
      let timer ← nnTimerStart streamhdr.timer 1000
      return ({ streamhdr with timer, unsent := 8, state := .sending }, none)
    | .fsmStop => .error .badAction
    | _ => .error .badSource
  | .sending =>
    match src with
    | .sent => .ok ({ streamhdr with wanted := 8, state := .receiving }, none)
    -- ignored: the error event follows
    | .shutdown => .ok (streamhdr, none)
    | .error => streamhdr.stopTimer .stoppingTimerError
    | .timeout => streamhdr.stopTimer .stoppingTimerError
    | .received => .error .badAction
    | .timerStopped => .error .badAction
    | _ => .error .badSource
  | .receiving =>
    match src with
    | .received =>
      -- does the peer speak the same protocol as this socket
      if streamhdr.protohdr.take 4 ≠ signature then streamhdr.stopTimer .stoppingTimerError
      else
        match streamhdr.pipebase with
        | none => .error .nullDeref
        | some pipebase =>
          if nnSockIspeer pipebase (nnGets (streamhdr.protohdr.drop 4)) then
            streamhdr.stopTimer .stoppingTimerDone
          else streamhdr.stopTimer .stoppingTimerError
    | .shutdown => .ok (streamhdr, none)
    | .error => streamhdr.stopTimer .stoppingTimerError
    | .timeout => streamhdr.stopTimer .stoppingTimerError
    | .sent => .error .assertFailed
    | .timerStopped => .error .badAction
    | _ => .error .badSource
  | .stoppingTimerError =>
    match src with
    | .sent | .received | .shutdown | .error => .ok (streamhdr, none)
    | .timerStopped => .ok (streamhdr.giveBack .error)
    | .timeout => .error .badAction
    | _ => .error .badSource
  | .stoppingTimerDone =>
    match src with
    | .sent | .received | .shutdown | .error => .ok (streamhdr, none)
    | .timerStopped => .ok (streamhdr.giveBack .ok)
    | .timeout => .error .badAction
    | _ => .error .badSource
  | .done => .error .badSource
  | .stopping => .error .badState

/-- `nn_streamhdr_shutdown`. -/
def nnStreamhdrShutdown (streamhdr : Streamhdr) (src : StreamhdrInput) :
    Except Fault (Streamhdr × Option StreamhdrReport) := do
  let streamhdr ←
    if src = .fsmStop then
      pure { streamhdr with timer := ← nnTimerStop streamhdr.timer,
                            state := StreamhdrState.stopping }
    else pure streamhdr
  if streamhdr.state = .stopping then
    if !nnTimerIsidle streamhdr.timer then return (streamhdr, none)
    nnAssert (streamhdr.fsm = .stopping)
    return ({ streamhdr with state := .idle, fsm := .idle }, some .stopped)
  .error .badState

/-- `nn_fsm_feed`. -/
def Streamhdr.feed (streamhdr : Streamhdr) (src : StreamhdrInput) :
    Except Fault (Streamhdr × Option StreamhdrReport) :=
  if streamhdr.fsm ≠ .stopping then nnStreamhdrHandler streamhdr src
    else nnStreamhdrShutdown streamhdr src

/-- `nn_streamhdr_start`. -/
def nnStreamhdrStart (self : Streamhdr) (pipebase : Socktype) : Except Fault Streamhdr := do
  -- take ownership of the underlying socket
  nnAssert (self.usock = false)
  let self :=
    { self with usock := true, pipebase := some pipebase, protohdr := protohdrOf pipebase.protocol }
  nnAssert (nnStreamhdrIsidle self = true)
  return { (← nnStreamhdrHandler self .fsmStart).1 with fsm := .active }

/-- `nn_streamhdr_stop`. -/
def nnStreamhdrStop (self : Streamhdr) : Except Fault (Streamhdr × Option StreamhdrReport) :=
  if self.fsm ≠ .active then .ok (self, none)
    else nnStreamhdrShutdown { self with fsm := .stopping } .fsmStop

/-! ### An end of a connection -/

/-- An end: all bytes that it wrote and read, those of its session among them, and what was
reported.  `failed` says that the socket failed or the timer expired, `gaveUp` that the owner
stopped the exchange before there was a result. -/
structure Party where
  streamhdr : Streamhdr
  wrote : List UInt8
  got : List UInt8
  sent : List UInt8
  received : List UInt8
  reports : List StreamhdrReport
  failed : Bool
  gaveUp : Bool
  deriving DecidableEq, Repr

/-- What happens at an end.  The underlying socket writes and reads some bytes, fails, or the worker
of the timer acts; `send` and `recv` are the session's. -/
inductive PartyEvent
  | start
  | stop
  | write (n : ℕ)
  | read (bytes : List UInt8)
  | shutdown
  | error
  | runTask
  | expire
  | send (bytes : List UInt8)
  | recv (bytes : List UInt8)
  deriving DecidableEq, Repr

/-- An end before it is started. -/
def Party.init : Party :=
  { streamhdr := nnStreamhdrInit, wrote := [], got := [], sent := [], received := [],
    reports := [], failed := false
    gaveUp := false }

/-- Note how a call left the state machine. -/
def Party.answer (p : Party) (r : Streamhdr × Option StreamhdrReport) : Party :=
  { p with streamhdr := r.1, reports := p.reports ++ r.2.toList }

/-- Feed an event. -/
def Party.feed (p : Party) (src : StreamhdrInput) : Except Fault Party :=
  return p.answer (← p.streamhdr.feed src)

/-- An event of the timer. -/
def Party.timed (p : Party) (r : Timer × Option TimerEvent) : Except Fault Party :=
  match r.2 with
  | none => .ok { p with streamhdr := { p.streamhdr with timer := r.1 } }
  | some .timeout =>
    Party.feed { p with streamhdr := { p.streamhdr with timer := r.1 }, failed := true } .timeout
  | some .stopped =>
    Party.feed { p with streamhdr := { p.streamhdr with timer := r.1.popped } } .timerStopped

/-- The socket writes the next `n` bytes of the send in progress. -/
def Party.write (p : Party) (n : ℕ) : Party :=
  { p with wrote := p.wrote ++ (p.streamhdr.protohdr.drop (8 - p.streamhdr.unsent)).take n
           streamhdr := { p.streamhdr with unsent := p.streamhdr.unsent - n } }

/-- The socket stores bytes where the receive in progress has got to. -/
def Party.store (p : Party) (bytes : List UInt8) : Party :=
  let pos := 8 - p.streamhdr.wanted
  { p with got := p.got ++ bytes
           streamhdr := { p.streamhdr with
             protohdr := p.streamhdr.protohdr.take pos ++ bytes ++ p.streamhdr.protohdr.drop
               (pos + bytes.length)
             wanted := p.streamhdr.wanted - bytes.length } }

/-- The session has the socket. -/
def Party.InSession (p : Party) : Prop := p.reports = [.ok, .stopped]

instance Party.decidableInSession (p : Party) : Decidable p.InSession :=
  inferInstanceAs (Decidable (_ = _))

/-- The state machine has the socket. -/
def Party.HasUsock (p : Party) : Prop := p.streamhdr.usock = true ∧ p.streamhdr.fsm ≠ .idle

instance Party.decidableHasUsock (p : Party) : Decidable p.HasUsock :=
  inferInstanceAs (Decidable (_ ∧ _))

/-- One event at an end of type `t`. -/
def Party.step (t : Socktype) (p : Party) : PartyEvent → Except Fault Party
  | .start => do return { p with streamhdr := ← nnStreamhdrStart p.streamhdr t }
  | .stop => do
    let early := p.streamhdr.fsm = .active ∧ p.reports = []
    return Party.answer { p with gaveUp := p.gaveUp || early } (← nnStreamhdrStop p.streamhdr)
  | .write n => if p.streamhdr.unsent = n then (p.write n).feed .sent else .ok (p.write n)
  | .read bytes =>
    if p.streamhdr.wanted = bytes.length then (p.store bytes).feed .received
      else .ok (p.store bytes)
  | .shutdown => p.feed .shutdown
  | .error => Party.feed { p with failed := true } .error
  | .runTask => do p.timed (← p.streamhdr.timer.runTask)
  | .expire => do p.timed (← p.streamhdr.timer.expire)
  | .send bytes => .ok { p with wrote := p.wrote ++ bytes, sent := p.sent ++ bytes }
  | .recv bytes => .ok { p with got := p.got ++ bytes, received := p.received ++ bytes }

/-- The events that can happen: an exchange is started once, the socket transfers what it was asked
to, and the session uses it only when it has it. -/
def Party.Enabled (p : Party) : PartyEvent → Prop
  | .start => p.streamhdr.state = .idle ∧ p.reports = []
  | .write n => p.HasUsock ∧ 0 < n ∧ n ≤ p.streamhdr.unsent
  | .read bytes => p.HasUsock ∧ 0 < bytes.length ∧ bytes.length ≤ p.streamhdr.wanted
  | .shutdown | .error => p.HasUsock
  | .send _ | .recv _ => p.InSession
  | .stop | .runTask | .expire => True

instance Party.decidableEnabled (p : Party) (a : PartyEvent) : Decidable (p.Enabled a) := by
  cases a <;> simp only [Party.Enabled] <;> infer_instance

/-! ### What holds at an end -/

/-- A header is one of a peer of `t`. -/
def Accepts (t : Socktype) (hdr : List UInt8) : Prop :=
  hdr.take 4 = signature ∧ nnSockIspeer t (nnGets (hdr.drop 4)) = true

instance decidableAccepts (t : Socktype) (hdr : List UInt8) : Decidable (Accepts t hdr) :=
  inferInstanceAs (Decidable (_ ∧ _))

@[simp] theorem length_nnPuts (val : ℕ) : (nnPuts val).length = 2 := by simp [nnPuts]

@[simp] theorem length_protohdrOf (protocol : ℕ) :
    (protohdrOf protocol).length = 8 := by simp [protohdrOf, signature]

theorem nnGets_nnPuts {val : ℕ} (h : val < 2 ^ 16) (rest : List UInt8) :
    nnGets (nnPuts val ++ rest) = val := by
  rw [nnGets, List.take_left' (length_nnPuts val), nnPuts, List.reverse_reverse, getLe_putLe]
  exact Nat.mod_eq_of_lt h

theorem protocol_lt (t : Socktype) : t.protocol < 2 ^ 16 := by cases t <;> decide

/-- The header of an end is accepted by its peers. -/
theorem accepts_protohdrOf (t t' : Socktype) :
    Accepts t (protohdrOf t'.protocol) ↔ nnEpIspeerEp t t' = true := by
  have hdrop : (protohdrOf t'.protocol).drop 4 = nnPuts t'.protocol ++ [0, 0] := rfl
  rw [Accepts, hdrop, nnGets_nnPuts (protocol_lt t')]
  exact and_iff_right rfl

/-- How far the transfers of a socket have got. -/
inductive Party.Io (t : Socktype) (p : Party) : Prop
  | writing (hpos : 0 < p.streamhdr.unsent) (hle : p.streamhdr.unsent ≤ 8)
      (hwanted : p.streamhdr.wanted = 0)
      (hbuf : p.streamhdr.protohdr = protohdrOf t.protocol)
      (hwrote : p.wrote = (protohdrOf t.protocol).take (8 - p.streamhdr.unsent)) (hgot : p.got = [])
  | written (hunsent : p.streamhdr.unsent = 0) (hwanted : p.streamhdr.wanted = 0)
      (hlen : p.streamhdr.protohdr.length = 8)
      (hwrote : p.wrote = protohdrOf t.protocol) (hgot : p.got = [])
  | reading (hunsent : p.streamhdr.unsent = 0) (hle : p.streamhdr.wanted ≤ 8)
      (hlen : p.streamhdr.protohdr.length = 8)
      (hbuf : p.streamhdr.protohdr.take (8 - p.streamhdr.wanted) = p.got)
      (hwrote : p.wrote = protohdrOf t.protocol)

/-- The end wrote its header, read the header of a peer, and nothing else but what its session wrote
and read. -/
def Party.Exchanged (t : Socktype) (p : Party) : Prop :=
  ∃ hdr, hdr.length = 8 ∧ Accepts t hdr ∧ p.wrote = protohdrOf t.protocol ++ p.sent ∧
    p.got = hdr ++ p.received

/-- Why an exchange goes wrong: the socket failed, the timer expired, or the header that was read is
not one of a peer. -/
def Party.Cause (t : Socktype) (p : Party) : Prop :=
  p.failed = true ∨ p.wrote = protohdrOf t.protocol ∧ p.got.length = 8 ∧ ¬ Accepts t p.got

/-- No session had the socket, and nothing but the header of the end was written. -/
def Party.Quiet (t : Socktype) (p : Party) : Prop :=
  p.sent = [] ∧ p.received = [] ∧ p.wrote <+: protohdrOf t.protocol

/-- The exchange went wrong. -/
def Party.Rejected (t : Socktype) (p : Party) : Prop := p.Quiet t ∧ p.Cause t

/-- The state machine of an end owns the socket. -/
structure Party.During (t : Socktype) (fsm : FsmState) (state : StreamhdrState)
    (timer : TimerState) (p : Party) :
    Prop where
  gaveUp : p.gaveUp = decide (fsm = .stopping)
  fsm : p.streamhdr.fsm = fsm
  state : p.streamhdr.state = state
  timer : p.streamhdr.timer.In timer
  usock : p.streamhdr.usock = true
  pipebase : p.streamhdr.pipebase = some t
  reports : p.reports = []
  sent : p.sent = []
  received : p.received = []
  io : p.Io t

/-- What holds at an end in each state. -/
inductive Party.Good (t : Socktype) (p : Party) : Prop
  | fresh (hfsm : p.streamhdr.fsm = .idle) (hstate : p.streamhdr.state = .idle)
      (htimer : p.streamhdr.timer.In .idle)
      (husock : p.streamhdr.usock = false) (hwanted : p.streamhdr.wanted = 0)
      (hwrote : p.wrote = [])
      (hgot : p.got = []) (hsent : p.sent = []) (hreceived : p.received = [])
      (hreports : p.reports = [])
      (hgaveUp : p.gaveUp = false)
  | sending (h : p.During t .active .sending .active) (hunsent : 0 < p.streamhdr.unsent)
  | receiving (h : p.During t .active .receiving .active) (hwanted : 0 < p.streamhdr.wanted)
  | stoppingTimerError (h : p.During t .active .stoppingTimerError .stopping) (hcause : p.Cause t)
  | stoppingTimerDone (h : p.During t .active .stoppingTimerDone .stopping)
      (hunsent : p.streamhdr.unsent = 0)
      (hwanted : p.streamhdr.wanted = 0) (hexchanged : p.Exchanged t)
  | done (hfsm : p.streamhdr.fsm = .active) (hstate : p.streamhdr.state = .done)
      (htimer : p.streamhdr.timer.In .idle)
      (husock : p.streamhdr.usock = false) (hgaveUp : p.gaveUp = false)
      (hresult : p.reports = [.ok] ∧ p.Exchanged t ∨ p.reports = [.error] ∧ p.Rejected t)
  | stopping (h : p.During t .stopping .stopping .stopping)
  | ended (hfsm : p.streamhdr.fsm = .idle) (hstate : p.streamhdr.state = .idle)
      (htimer : p.streamhdr.timer.In .idle)
      (hresult : p.gaveUp = false ∧ p.reports = [.ok, .stopped] ∧ p.Exchanged t ∨
        p.gaveUp = false ∧ p.reports = [.error, .stopped] ∧ p.Rejected t ∨
        p.gaveUp = true ∧ p.reports = [.stopped] ∧ p.Quiet t)

theorem Party.init_good (t : Socktype) : Party.init.Good t :=
  .fresh rfl rfl Timer.init_in rfl rfl rfl rfl rfl rfl rfl rfl

section Steps

variable {t : Socktype} {p : Party} {fsm : FsmState} {state : StreamhdrState} {timer : TimerState}

theorem Party.Io.wrote_prefix (h : p.Io t) : p.wrote <+: protohdrOf t.protocol := by
  cases h with
  | writing _ _ _ _ hwrote => exact hwrote ▸ List.take_prefix _ _
  | written _ _ _ hwrote => exact hwrote ▸ List.prefix_rfl
  | reading _ _ _ _ hwrote => exact hwrote ▸ List.prefix_rfl

theorem Party.During.quiet (h : p.During t fsm state timer) : p.Quiet t :=
  ⟨h.sent, h.received, h.io.wrote_prefix⟩

/-- The socket writes bytes of the header. -/
theorem Party.Io.write (h : p.Io t) {n : ℕ} (hpos : 0 < n) (hle : n ≤ p.streamhdr.unsent) :
    (p.write n).Io t := by
  cases h with
  | writing _ h8 hwanted hbuf hwrote hgot =>
    have hall : (p.write n).wrote =
        (protohdrOf t.protocol).take (8 - (p.streamhdr.unsent - n)) := by
      rw [Party.write, hwrote, hbuf, ← List.take_add]
      refine congrArg (fun k => (protohdrOf t.protocol).take k) ?_
      omega
    by_cases hn : p.streamhdr.unsent = n
    · refine .written (Nat.sub_eq_zero_of_le hn.le) hwanted (hbuf ▸ length_protohdrOf _) ?_ hgot
      rw [hall, hn, Nat.sub_self]
      exact List.take_of_length_le (length_protohdrOf _).le
    · exact .writing (Nat.sub_pos_of_lt (lt_of_le_of_ne hle (Ne.symm hn)))
        ((Nat.sub_le _ _).trans h8) hwanted hbuf
        hall hgot
  | written hunsent => omega
  | reading hunsent => omega

/-- The socket stores bytes that it read. -/
theorem Party.Io.read (h : p.Io t) {bytes : List UInt8} (hpos : 0 < bytes.length)
    (hle : bytes.length ≤ p.streamhdr.wanted) : (p.store bytes).Io t := by
  cases h with
  | writing _ _ hwanted => omega
  | written _ hwanted => omega
  | reading hunsent h8 hlen hbuf hwrote =>
    have hgot : p.got.length = 8 - p.streamhdr.wanted := by
      rw [← hbuf, List.length_take, hlen]
      omega
    refine .reading hunsent ((Nat.sub_le _ _).trans h8) ?_ ?_ hwrote
    · simp only [Party.store, List.length_append, List.length_take, List.length_drop, hlen]
      omega
    · dsimp only [Party.store]
      rw [hbuf]
      apply List.take_left'
      rw [List.length_append, hgot]
      omega

/-- Events of the socket are ignored while the timer is being stopped. -/
theorem Party.During.ignored (h : p.During t fsm state .stopping)
    (hstate : (fsm = .active ∧ (state = .stoppingTimerError ∨ state = .stoppingTimerDone)) ∨
      fsm = .stopping ∧ state = .stopping) {src : StreamhdrInput}
    (hsrc : src = .sent ∨ src = .received ∨ src = .shutdown ∨ src = .error) :
    p.feed src = .ok p := by
  have hfeed : p.streamhdr.feed src = .ok (p.streamhdr, none) := by
    rcases hstate with ⟨hfsm, hs⟩ | ⟨hfsm, hs⟩
    · rw [Streamhdr.feed, if_pos (by rw [h.fsm, hfsm]; decide)]
      unfold nnStreamhdrHandler
      rcases hs with hs | hs <;> rcases hsrc with rfl | rfl | rfl | rfl <;> simp only [h.state, hs]
    · have hidle : nnTimerIsidle p.streamhdr.timer = false := by
        rw [Bool.eq_false_iff, Ne, h.timer.isidle_iff]
        decide
      have hne : src ≠ .fsmStop := by rcases hsrc with rfl | rfl | rfl | rfl <;> decide
      rw [Streamhdr.feed, if_neg (by rw [h.fsm, hfsm]; decide)]
      simp [nnStreamhdrShutdown, hne, h.state, hs, hidle]
  simp [Party.feed, hfeed, Party.answer]

/-- The timer of a running exchange is stopped. -/
theorem Party.During.stopTimer (h : p.During t .active state .active) (next : StreamhdrState) :
    ∃ r, p.streamhdr.stopTimer next = .ok r ∧ (p.answer r).During t .active next .stopping := by
  obtain ⟨timer, heq, hin⟩ := h.timer.stop
  refine ⟨({ p.streamhdr with timer, state := next }, none), ?_, h.gaveUp, h.fsm, rfl, hin, h.usock,
    h.pipebase, ?_, h.sent, h.received, ?_⟩
  · simp [Streamhdr.stopTimer, heq]
  · exact (List.append_nil _).trans h.reports
  · cases h.io with
    | writing hpos hle hwanted hbuf hwrote hgot => exact .writing hpos hle hwanted hbuf hwrote hgot
    | written hunsent hwanted hlen hwrote hgot => exact .written hunsent hwanted hlen hwrote hgot
    | reading hunsent hle hlen hbuf hwrote => exact .reading hunsent hle hlen hbuf hwrote

theorem Party.During.feed_eq (h : p.During t .active state timer) {src : StreamhdrInput}
    {x : Except Fault (Streamhdr × Option StreamhdrReport)}
    (heq : nnStreamhdrHandler p.streamhdr src = x) :
    p.feed src = (return p.answer (← x)) := by
  rw [Party.feed, Streamhdr.feed, if_pos (by rw [h.fsm]; decide), heq]

/-- The socket fails or the time is over. -/
theorem Party.During.giveUp (h : p.During t .active state .active)
    (hstate : state = .sending ∨ state = .receiving) {src : StreamhdrInput}
    (hsrc : src = .error ∨ src = .timeout) (hcause : p.Cause t) :
    ∃ p', p.feed src = .ok p' ∧ p'.Good t := by
  obtain ⟨r, heq, hnext⟩ := h.stopTimer .stoppingTimerError
  have hhandler : nnStreamhdrHandler p.streamhdr src = .ok r := by
    unfold nnStreamhdrHandler
    rcases hstate with hs | hs <;> rcases hsrc with rfl | rfl <;> simp only [h.state, hs, heq]
  exact ⟨p.answer r, by rw [h.feed_eq hhandler]; rfl, .stoppingTimerError hnext hcause⟩

/-- `NN_USOCK_SENT`: the buffer is now filled with the header of the peer. -/
theorem Party.During.sent_good (h : p.During t .active .sending .active)
    (hunsent : p.streamhdr.unsent = 0) (hgot : p.got = []) :
    ∃ p', p.feed .sent = .ok p' ∧ p'.Good t := by
  let r : Streamhdr × Option StreamhdrReport :=
    ({ p.streamhdr with wanted := 8, state := .receiving }, none)
  have hhandler : nnStreamhdrHandler p.streamhdr .sent = .ok r := by
    unfold nnStreamhdrHandler
    simp only [h.state]
    rfl
  have hio : (p.answer r).Io t := by
    cases h.io with
    | writing hpos => omega
    | written _ _ hlen hwrote => exact .reading hunsent le_rfl hlen hgot.symm hwrote
    | reading _ _ hlen _ hwrote => exact .reading hunsent le_rfl hlen hgot.symm hwrote
  have hnext : (p.answer r).During t .active .receiving .active :=
    ⟨h.gaveUp, h.fsm, rfl, h.timer, h.usock, h.pipebase, (List.append_nil _).trans h.reports,
      h.sent, h.received, hio⟩
  exact ⟨p.answer r, by rw [h.feed_eq hhandler]; rfl, .receiving hnext (Nat.succ_pos 7)⟩

/-- `NN_USOCK_RECEIVED`: the header of the peer is checked. -/
theorem Party.During.received_good (h : p.During t .active .receiving .active)
    (hunsent : p.streamhdr.unsent = 0) (hwanted : p.streamhdr.wanted = 0)
    (hgot : p.got.length = 8) : ∃ p', p.feed .received = .ok p' ∧ p'.Good t := by
  have hbuf : p.streamhdr.protohdr = p.got ∧ p.wrote = protohdrOf t.protocol := by
    cases h.io with
    | writing hpos => omega
    | written _ _ _ _ hnil => simp [hnil] at hgot
    | reading _ _ hlen hbuf hwrote =>
      rw [hwanted, Nat.sub_zero, List.take_of_length_le hlen.le] at hbuf
      exact ⟨hbuf, hwrote⟩
  by_cases hacc : Accepts t p.got
  · obtain ⟨r, heq, hnext⟩ := h.stopTimer .stoppingTimerDone
    have hhandler : nnStreamhdrHandler p.streamhdr .received = .ok r := by
      unfold nnStreamhdrHandler
      simp only [h.state, hbuf.1, hacc.1, h.pipebase, hacc.2, heq]
      simp
    have hsocket : r.1.unsent = 0 ∧ r.1.wanted = 0 := by
      obtain ⟨timer, -, hr⟩ := bind_eq_ok.1 heq
      obtain rfl := Except.ok.inj hr
      exact ⟨hunsent, hwanted⟩
    refine ⟨p.answer r, by rw [h.feed_eq hhandler]; rfl,
      .stoppingTimerDone hnext hsocket.1 hsocket.2 ⟨p.got, hgot, hacc, ?_, ?_⟩⟩
    · exact hbuf.2.trans (by rw [hnext.sent, List.append_nil])
    · exact (List.append_nil _).symm.trans (congrArg _ h.received.symm)
  · obtain ⟨r, heq, hnext⟩ := h.stopTimer .stoppingTimerError
    have hhandler : nnStreamhdrHandler p.streamhdr .received = .ok r := by
      unfold nnStreamhdrHandler
      simp only [h.state, hbuf.1, h.pipebase]
      by_cases hsig : p.got.take 4 = signature
      · have hpeer : nnSockIspeer t (nnGets (p.got.drop 4)) = false :=
          Bool.eq_false_iff.2 fun hpeer => hacc ⟨hsig, hpeer⟩
        simp [hsig, hpeer, heq]
      · simp [hsig, heq]
    exact ⟨p.answer r, by rw [h.feed_eq hhandler]; rfl,
      .stoppingTimerError hnext (Or.inr ⟨hbuf.2, hgot, hacc⟩)⟩

/-- A change of the timer alone. -/
theorem Party.During.setTimer (h : p.During t fsm state timer) {tm : Timer} {ts : TimerState}
    (htm : tm.In ts) (failed : Bool) :
    Party.During t fsm state ts { p with streamhdr := { p.streamhdr with timer := tm },
                                         failed := failed } := by
  refine ⟨h.gaveUp, h.fsm, h.state, htm, h.usock, h.pipebase, h.reports, h.sent, h.received, ?_⟩
  cases h.io with
  | writing hpos hle hwanted hbuf hwrote hgot => exact .writing hpos hle hwanted hbuf hwrote hgot
  | written hunsent hwanted hlen hwrote hgot => exact .written hunsent hwanted hlen hwrote hgot
  | reading hunsent hle hlen hbuf hwrote => exact .reading hunsent hle hlen hbuf hwrote

/-- The timer goes on within its phase, or it expires, or it has been stopped. -/
theorem Party.Good.timed_none (h : p.Good t) {tm : Timer}
    (htm : ∀ s, p.streamhdr.timer.In s → tm.In s) :
    ∃ p', p.timed (tm, none) = .ok p' ∧ p'.Good t := by
  refine ⟨_, rfl, ?_⟩
  cases h with
  | fresh hfsm hstate htimer husock hwanted hwrote hgot hsent hreceived hreports hgaveUp =>
    exact .fresh hfsm hstate (htm _ htimer) husock hwanted hwrote hgot hsent hreceived
      hreports hgaveUp
  | sending h hunsent => exact .sending (h.setTimer (htm _ h.timer) _) hunsent
  | receiving h hwanted => exact .receiving (h.setTimer (htm _ h.timer) _) hwanted
  | stoppingTimerError h hcause => exact .stoppingTimerError (h.setTimer (htm _ h.timer) _) hcause
  | stoppingTimerDone h hunsent hwanted hex =>
    exact .stoppingTimerDone (h.setTimer (htm _ h.timer) _) hunsent hwanted hex
  | done hfsm hstate htimer husock hgaveUp hresult =>
    exact .done hfsm hstate (htm _ htimer) husock hgaveUp hresult
  | stopping h => exact .stopping (h.setTimer (htm _ h.timer) _)
  | ended hfsm hstate htimer hresult => exact .ended hfsm hstate (htm _ htimer) hresult

theorem Party.Good.timed_timeout (h : p.Good t) (hactive : p.streamhdr.timer.In .active)
    {tm : Timer} (htm : tm.In .active) :
    ∃ p', p.timed (tm, some .timeout) = .ok p' ∧ p'.Good t := by
  cases h with
  | sending h => exact (h.setTimer htm true).giveUp (Or.inl rfl) (Or.inr rfl) (Or.inl rfl)
  | receiving h => exact (h.setTimer htm true).giveUp (Or.inr rfl) (Or.inr rfl) (Or.inl rfl)
  | fresh _ _ htimer => cases htimer.unique hactive
  | stoppingTimerError h => cases h.timer.unique hactive
  | stoppingTimerDone h => cases h.timer.unique hactive
  | done _ _ htimer => cases htimer.unique hactive
  | stopping h => cases h.timer.unique hactive
  | ended _ _ htimer => cases htimer.unique hactive

theorem Party.Good.timed_stopped (h : p.Good t) (hstopping : p.streamhdr.timer.In .stopping)
    {tm : Timer} (htm : tm.popped.In .idle) :
    ∃ p', p.timed (tm, some .stopped) = .ok p' ∧ p'.Good t := by
  let q : Party := { p with streamhdr := { p.streamhdr with timer := tm.popped } }
  change ∃ p', q.feed .timerStopped = .ok p' ∧ p'.Good t
  cases h with
  | stoppingTimerError h hcause =>
    have hhandler :
        nnStreamhdrHandler q.streamhdr .timerStopped = .ok (q.streamhdr.giveBack .error) := by
      unfold nnStreamhdrHandler
      simp only [q, h.state]
    have hreports : (q.answer (q.streamhdr.giveBack .error)).reports = [.error] :=
      congrArg (· ++ [_]) h.reports
    refine ⟨q.answer (q.streamhdr.giveBack .error), ?_, .done h.fsm rfl htm rfl h.gaveUp
      (Or.inr ⟨hreports, h.quiet, hcause⟩)⟩
    rw [(h.setTimer htm p.failed).feed_eq hhandler]
    rfl
  | stoppingTimerDone h _ _ hex =>
    have hhandler :
        nnStreamhdrHandler q.streamhdr .timerStopped = .ok (q.streamhdr.giveBack .ok) := by
      unfold nnStreamhdrHandler
      simp only [q, h.state]
    have hreports : (q.answer (q.streamhdr.giveBack .ok)).reports = [.ok] :=
      congrArg (· ++ [_]) h.reports
    refine ⟨q.answer (q.streamhdr.giveBack .ok), ?_,
      .done h.fsm rfl htm rfl h.gaveUp (Or.inl ⟨hreports, hex⟩)⟩
    rw [(h.setTimer htm p.failed).feed_eq hhandler]
    rfl
  | stopping h =>
    let r : Streamhdr × Option StreamhdrReport :=
      ({ q.streamhdr with state := .idle, fsm := .idle }, some .stopped)
    have hfeed : q.streamhdr.feed .timerStopped = .ok r := by
      have hidle : nnTimerIsidle tm.popped = true := htm.isidle_iff.2 rfl
      simp [Streamhdr.feed, nnStreamhdrShutdown, q, r, h.fsm, h.state, hidle, nnAssert_of]
    have hreports : (q.answer r).reports = [.stopped] := congrArg (· ++ [_]) h.reports
    refine ⟨q.answer r, ?_, .ended rfl rfl htm (Or.inr (Or.inr ⟨h.gaveUp, hreports, h.quiet⟩))⟩
    rw [Party.feed, hfeed]
    rfl
  | sending h => cases h.timer.unique hstopping
  | receiving h => cases h.timer.unique hstopping
  | fresh _ _ htimer => cases htimer.unique hstopping
  | done _ _ htimer => cases htimer.unique hstopping
  | ended _ _ htimer => cases htimer.unique hstopping

/-- `nn_streamhdr_start`. -/
theorem Party.Good.start (h : p.Good t) (hidle : p.streamhdr.state = .idle)
    (hreports : p.reports = []) :
    ∃ p', p.step t .start = .ok p' ∧ p'.Good t := by
  cases h with
  | fresh hfsm _ htimer husock hwanted hwrote hgot hsent hreceived _ hgaveUp =>
    obtain ⟨timer, heq, hin⟩ := htimer.start (n := 1000) (by decide)
    have hhandler : ∀ h : Streamhdr, h.state = .idle → h.timer = p.streamhdr.timer →
        nnStreamhdrHandler h .fsmStart =
          .ok ({ h with timer, unsent := 8, state := .sending }, none) := by
      intro h hstate htm
      unfold nnStreamhdrHandler
      simp [hstate, htm, heq]
    refine ⟨{ p with streamhdr := { p.streamhdr with
      usock := true, pipebase := some t, protohdr := protohdrOf t.protocol, timer, unsent :=
        8, state := .sending
      fsm := .active } }, ?_,
        .sending ⟨hgaveUp, rfl, rfl, hin, rfl, rfl, hreports, hsent, hreceived,
        .writing (Nat.succ_pos 7) le_rfl hwanted rfl (by simp [hwrote]) hgot⟩ (Nat.succ_pos 7)⟩
    simp [Party.step, nnStreamhdrStart, husock, nnAssert_of, nnStreamhdrIsidle, hfsm,
      hhandler, hidle]
  | ended _ _ _ hresult => rcases hresult with ⟨-, hr, -⟩ | ⟨-, hr, -⟩ | ⟨-, hr, -⟩ <;>
      simp [hreports] at hr
  | sending h => cases hidle.symm.trans h.state
  | receiving h => cases hidle.symm.trans h.state
  | stoppingTimerError h => cases hidle.symm.trans h.state
  | stoppingTimerDone h => cases hidle.symm.trans h.state
  | done _ hstate => cases hidle.symm.trans hstate
  | stopping h => cases hidle.symm.trans h.state

/-- The owner gives up before there is a result. -/
theorem Party.During.stop (h : p.During t .active state timer) (htimer : timer ≠ .idle) :
    ∃ p', p.step t .stop = .ok p' ∧ p'.Good t := by
  obtain ⟨tm, heq, hin⟩ : ∃ tm, nnTimerStop p.streamhdr.timer = .ok tm ∧ tm.In .stopping := by
    cases timer with
    | idle => exact absurd rfl htimer
    | active => exact h.timer.stop
    | stopping => exact ⟨_, h.timer.stop_of_ne (by decide), h.timer⟩
  have hidle : nnTimerIsidle tm = false := by
    rw [Bool.eq_false_iff, Ne, hin.isidle_iff]
    decide
  have hstop : nnStreamhdrStop p.streamhdr =
      .ok ({ p.streamhdr with fsm := .stopping, timer := tm, state := .stopping }, none) := by
    simp [nnStreamhdrStop, h.fsm, nnStreamhdrShutdown, heq, hidle]
  refine ⟨{ p with streamhdr := { p.streamhdr with fsm := .stopping, timer := tm,
                                                   state := .stopping }
                   gaveUp := true }, ?_,
                     .stopping ⟨rfl, rfl, rfl, hin, h.usock, h.pipebase, h.reports, h.sent,
                     h.received, ?_⟩⟩
  · simp [Party.step, hstop, h.fsm, h.reports, Party.answer]
  · cases h.io with
    | writing hpos hle hwanted hbuf hwrote hgot => exact .writing hpos hle hwanted hbuf hwrote hgot
    | written hunsent hwanted hlen hwrote hgot => exact .written hunsent hwanted hlen hwrote hgot
    | reading hunsent hle hlen hbuf hwrote => exact .reading hunsent hle hlen hbuf hwrote

/-- `nn_streamhdr_stop`. -/
theorem Party.Good.stop (h : p.Good t) : ∃ p', p.step t .stop = .ok p' ∧ p'.Good t := by
  have unchanged : p.streamhdr.fsm ≠ .active → p.step t .stop = .ok p := by
    intro hfsm
    simp [Party.step, nnStreamhdrStop, hfsm, Party.answer]
  have hgood := h
  cases h with
  | fresh hfsm => exact ⟨p, unchanged (by rw [hfsm]; decide), hgood⟩
  | sending h => exact h.stop (by decide)
  | receiving h => exact h.stop (by decide)
  | stoppingTimerError h => exact h.stop (by decide)
  | stoppingTimerDone h => exact h.stop (by decide)
  | done hfsm hstate htimer husock hgaveUp hresult =>
    let r : Streamhdr × Option StreamhdrReport :=
      ({ p.streamhdr with state := .idle, fsm := .idle }, some .stopped)
    have hstop : nnStreamhdrStop p.streamhdr = .ok r := by
      have hidle : nnTimerIsidle p.streamhdr.timer = true := htimer.isidle_iff.2 rfl
      simp [nnStreamhdrStop, hfsm, nnStreamhdrShutdown, htimer.stop_of_ne, hidle, nnAssert_of, r]
    have hsome : p.reports ≠ [] := by rcases hresult with ⟨hr, -⟩ | ⟨hr, -⟩ <;> simp [hr]
    refine ⟨p.answer r, ?_, .ended rfl rfl htimer ?_⟩
    · simp [Party.step, hstop, hsome, Party.answer]
    · rcases hresult with ⟨hr, hex⟩ | ⟨hr, hrej⟩
      · exact Or.inl ⟨hgaveUp, congrArg (· ++ [_]) hr, hex⟩
      · exact Or.inr (Or.inl ⟨hgaveUp, congrArg (· ++ [_]) hr, hrej⟩)
  | stopping h => exact ⟨p, unchanged (by rw [h.fsm]; decide), hgood⟩
  | ended hfsm => exact ⟨p, unchanged (by rw [hfsm]; decide), hgood⟩

/-- The socket writes a part of the header. -/
theorem Party.Good.write (h : p.Good t) (husock : p.HasUsock) {n : ℕ} (hpos : 0 < n)
    (hle : n ≤ p.streamhdr.unsent) : ∃ p', p.step t (.write n) = .ok p' ∧ p'.Good t := by
  have hgot : p.Io t → p.got = [] ∧ p.streamhdr.wanted = 0 := by
    intro hio
    cases hio with
    | writing _ _ hwanted _ _ hgot => exact ⟨hgot, hwanted⟩
    | written hunsent => omega
    | reading hunsent => omega
  have during : ∀ {fsm state timer}, p.During t fsm state timer →
    (p.write n).During t fsm state timer :=
    fun h => ⟨h.gaveUp, h.fsm, h.state, h.timer, h.usock, h.pipebase, h.reports, h.sent, h.received,
      h.io.write hpos hle⟩
  have waiting : (p.write n).Good t → (p.write n).feed .sent = .ok (p.write n) →
      ∃ p', p.step t (.write n) = .ok p' ∧ p'.Good t := by
    intro hgood hfeed
    refine ⟨p.write n, ?_, hgood⟩
    rw [Party.step, hfeed, ite_self]
  cases h with
  | sending h _ =>
    by_cases hn : p.streamhdr.unsent = n
    · rw [Party.step, if_pos hn]
      exact (during h).sent_good (Nat.sub_eq_zero_of_le hn.le) (hgot h.io).1
    · rw [Party.step, if_neg hn]
      exact ⟨_, rfl, .sending (during h) (Nat.sub_pos_of_lt (lt_of_le_of_ne hle (Ne.symm hn)))⟩
  | receiving h hwanted => exact absurd (hgot h.io).2 hwanted.ne'
  | stoppingTimerError h hcause =>
    have hfailed : p.failed = true := by
      rcases hcause with hf | ⟨-, hlen, -⟩
      · exact hf
      · simp [(hgot h.io).1] at hlen
    exact waiting (.stoppingTimerError (during h) (Or.inl hfailed))
      ((during h).ignored (Or.inl ⟨rfl, Or.inl rfl⟩) (Or.inl rfl))
  | stoppingTimerDone h hunsent => omega
  | stopping h =>
    exact waiting (.stopping (during h)) ((during h).ignored (Or.inr ⟨rfl, rfl⟩) (Or.inl rfl))
  | fresh _ _ _ hu => cases hu.symm.trans husock.1
  | done _ _ _ hu => cases hu.symm.trans husock.1
  | ended hfsm => exact absurd hfsm husock.2

/-- The socket reads a part of a header. -/
theorem Party.Good.read (h : p.Good t) (husock : p.HasUsock) {bytes : List UInt8}
    (hpos : 0 < bytes.length) (hle : bytes.length ≤ p.streamhdr.wanted) :
    ∃ p', p.step t (.read bytes) = .ok p' ∧ p'.Good t := by
  have hgot : p.Io t → p.streamhdr.unsent = 0 ∧ p.got.length + p.streamhdr.wanted = 8 := by
    intro hio
    cases hio with
    | writing _ _ hwanted => omega
    | written _ hwanted => omega
    | reading hunsent h8 hlen hbuf =>
      refine ⟨hunsent, ?_⟩
      rw [← hbuf, List.length_take, hlen]
      omega
  have during : ∀ {fsm state timer}, p.During t fsm state timer →
    (p.store bytes).During t fsm state timer :=
    fun h => ⟨h.gaveUp, h.fsm, h.state, h.timer, h.usock, h.pipebase, h.reports, h.sent, h.received,
      h.io.read hpos hle⟩
  have waiting : (p.store bytes).Good t → (p.store bytes).feed .received = .ok (p.store bytes) →
      ∃ p', p.step t (.read bytes) = .ok p' ∧ p'.Good t := by
    intro hgood hfeed
    refine ⟨p.store bytes, ?_, hgood⟩
    rw [Party.step, hfeed, ite_self]
  cases h with
  | sending h hunsent => exact absurd (hgot h.io).1 hunsent.ne'
  | receiving h _ =>
    by_cases hn : p.streamhdr.wanted = bytes.length
    · have hlen : (p.store bytes).got.length = 8 := by
        rw [Party.store, List.length_append, ← hn]
        exact (hgot h.io).2
      rw [Party.step, if_pos hn]
      exact (during h).received_good (hgot h.io).1 (Nat.sub_eq_zero_of_le hn.le) hlen
    · rw [Party.step, if_neg hn]
      exact ⟨_, rfl, .receiving (during h) (Nat.sub_pos_of_lt (lt_of_le_of_ne hle (Ne.symm hn)))⟩
  | stoppingTimerError h hcause =>
    have hfailed : p.failed = true := by
      rcases hcause with hf | ⟨-, hlen, -⟩
      · exact hf
      · have := (hgot h.io).2
        omega
    exact waiting (.stoppingTimerError (during h) (Or.inl hfailed))
      ((during h).ignored (Or.inl ⟨rfl, Or.inl rfl⟩) (Or.inr (Or.inl rfl)))
  | stoppingTimerDone h _ hwanted => omega
  | stopping h =>
    exact waiting (.stopping (during h))
      ((during h).ignored (Or.inr ⟨rfl, rfl⟩) (Or.inr (Or.inl rfl)))
  | fresh _ _ _ hu => cases hu.symm.trans husock.1
  | done _ _ _ hu => cases hu.symm.trans husock.1
  | ended hfsm => exact absurd hfsm husock.2

/-- `NN_USOCK_SHUTDOWN` and `NN_USOCK_ERROR`. -/
theorem Party.Good.fails (h : p.Good t) (husock : p.HasUsock) :
    (∃ p', p.step t .shutdown = .ok p' ∧ p'.Good t) ∧
      ∃ p', p.step t .error = .ok p' ∧ p'.Good t := by
  have hgood := h
  have shutdown_ignored : ∀ {state}, p.During t .active state .active → state = .sending ∨
      state = .receiving → p.feed .shutdown = .ok p := by
    intro state h hstate
    have hhandler : nnStreamhdrHandler p.streamhdr .shutdown = .ok (p.streamhdr, none) := by
      unfold nnStreamhdrHandler
      rcases hstate with hs | hs <;> simp only [h.state, hs]
    rw [h.feed_eq hhandler]
    simp [Party.answer]
  let q : Party := { p with failed := true }
  have during : ∀ {fsm state timer}, p.During t fsm state timer → q.During t fsm state timer :=
    fun h => h.setTimer h.timer true
  cases h with
  | sending h =>
    exact ⟨⟨p, shutdown_ignored h (Or.inl rfl), hgood⟩,
      (during h).giveUp (Or.inl rfl) (Or.inl rfl) (Or.inl rfl)⟩
  | receiving h =>
    exact ⟨⟨p, shutdown_ignored h (Or.inr rfl), hgood⟩,
      (during h).giveUp (Or.inr rfl) (Or.inl rfl) (Or.inl rfl)⟩
  | stoppingTimerError h =>
    exact ⟨⟨p, h.ignored (Or.inl ⟨rfl, Or.inl rfl⟩) (Or.inr (Or.inr (Or.inl rfl))), hgood⟩,
      q, (during h).ignored (Or.inl ⟨rfl, Or.inl rfl⟩) (Or.inr (Or.inr (Or.inr rfl))),
        .stoppingTimerError (during h) (Or.inl rfl)⟩
  | stoppingTimerDone h hunsent hwanted hex =>
    exact ⟨⟨p, h.ignored (Or.inl ⟨rfl, Or.inr rfl⟩) (Or.inr (Or.inr (Or.inl rfl))), hgood⟩,
      q, (during h).ignored (Or.inl ⟨rfl, Or.inr rfl⟩) (Or.inr (Or.inr (Or.inr rfl))),
        .stoppingTimerDone (during h) hunsent hwanted hex⟩
  | stopping h =>
    exact ⟨⟨p, h.ignored (Or.inr ⟨rfl, rfl⟩) (Or.inr (Or.inr (Or.inl rfl))), hgood⟩,
      q, (during h).ignored (Or.inr ⟨rfl, rfl⟩) (Or.inr (Or.inr (Or.inr rfl))),
        .stopping (during h)⟩
  | fresh _ _ _ hu => cases hu.symm.trans husock.1
  | done _ _ _ hu => cases hu.symm.trans husock.1
  | ended hfsm => exact absurd hfsm husock.2

/-- What the session writes and reads. -/
theorem Party.Good.session (h : p.Good t) (hsession : p.InSession) (bytes : List UInt8) :
    Party.Good t { p with wrote := p.wrote ++ bytes, sent := p.sent ++ bytes } ∧
      Party.Good t { p with got := p.got ++ bytes, received := p.received ++ bytes } := by
  have hreports : p.reports = [.ok, .stopped] := hsession
  cases h with
  | ended hfsm hstate htimer hresult =>
    rcases hresult with ⟨hgaveUp, -, hdr, hlen, hacc, hwrote, hgot⟩ | ⟨-, hr, -⟩ | ⟨-, hr, -⟩
    · constructor
      · exact .ended hfsm hstate htimer
          (Or.inl ⟨hgaveUp, hreports, hdr, hlen, hacc, by simp [hwrote], hgot⟩)
      · exact .ended hfsm hstate htimer
          (Or.inl ⟨hgaveUp, hreports, hdr, hlen, hacc, hwrote, by simp [hgot]⟩)
    · simp [hreports] at hr
    · simp [hreports] at hr
  | fresh _ _ _ _ _ _ _ _ _ hr => simp [hreports] at hr
  | sending h => simp [h.reports] at hreports
  | receiving h => simp [h.reports] at hreports
  | stoppingTimerError h => simp [h.reports] at hreports
  | stoppingTimerDone h => simp [h.reports] at hreports
  | stopping h => simp [h.reports] at hreports
  | done _ _ _ _ _ hresult => rcases hresult with ⟨hr, -⟩ | ⟨hr, -⟩ <;> simp [hreports] at hr

/-- The phase of the timer. -/
theorem Party.Good.timer_in (h : p.Good t) : ∃ s, p.streamhdr.timer.In s := by
  cases h with
  | fresh _ _ htimer => exact ⟨_, htimer⟩
  | done _ _ htimer => exact ⟨_, htimer⟩
  | ended _ _ htimer => exact ⟨_, htimer⟩
  | sending h => exact ⟨_, h.timer⟩
  | receiving h => exact ⟨_, h.timer⟩
  | stoppingTimerError h => exact ⟨_, h.timer⟩
  | stoppingTimerDone h => exact ⟨_, h.timer⟩
  | stopping h => exact ⟨_, h.timer⟩

/-- Whatever happens at an end, nothing aborts, and the end stays good. -/
theorem Party.Good.step (h : p.Good t) {a : PartyEvent} (ha : p.Enabled a) :
    ∃ p', p.step t a = .ok p' ∧ p'.Good t := by
  cases a with
  | start => exact h.start ha.1 ha.2
  | stop => exact h.stop
  | write n => exact h.write ha.1 ha.2.1 ha.2.2
  | read bytes => exact h.read ha.1 ha.2.1 ha.2.2
  | shutdown => exact (h.fails ha).1
  | error => exact (h.fails ha).2
  | runTask =>
    obtain ⟨s, hs⟩ := h.timer_in
    rw [Party.step]
    rcases hs.runTask with ⟨tm, heq, htm⟩ | ⟨rfl, tm, heq, htm⟩
    · rw [heq]
      exact h.timed_none fun s' hs' => hs.unique hs' ▸ htm
    · rw [heq]
      exact h.timed_stopped hs htm
  | expire =>
    obtain ⟨s, hs⟩ := h.timer_in
    rw [Party.step]
    rcases hs.expire with ⟨tm, heq, htm⟩ | ⟨rfl, tm, heq, htm⟩
    · rw [heq]
      exact h.timed_none fun s' hs' => hs.unique hs' ▸ htm
    · rw [heq]
      exact h.timed_timeout hs htm
  | send bytes => exact ⟨_, rfl, (h.session ha bytes).1⟩
  | recv bytes => exact ⟨_, rfl, (h.session ha bytes).2⟩

end Steps

end NanoSocket.Tcp

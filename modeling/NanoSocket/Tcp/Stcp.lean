import NanoSocket.Core.Cmsg
import NanoSocket.Core.Pipe
import NanoSocket.Lib.Runs

/-!
# TCP sessions (`transports/tcp/stcp.c`)

A message travels as its size in eight bytes, its SP header and its body.  A session reads the size,
checks it against `NN_RCVMAXSIZE`, reads as many bytes, and asks for the next size when the socket
has taken the message.

The underlying socket fills the buffer of the receive in progress with the next bytes of the stream,
and writes the bytes of the send in progress in as many pieces as it likes.  Its events wait in the
queue of the context: `NN_USOCK_SENT` is raised when everything is written, and `NN_USOCK_SHUTDOWN`
when a call finds the connection broken, behind a `NN_USOCK_SENT` that waits.  When a session is
`DONE`, what waits in the queue is still processed before the owner stops it.  Memory suffices for
every size that a `size_t` can hold together with the header of a chunk.
-/

namespace NanoSocket.Tcp

open Runs

/-- `NN_STCP_STATE_*`, from the start of the session to its stop. -/
inductive StcpState
  | protohdr
  | stoppingStreamhdr
  | active
  | shuttingDown
  | done
  deriving DecidableEq, Repr

/-- `NN_STCP_INSTATE_*`; a new session has `-1` (`init`). -/
inductive StcpInstate
  | init
  | hdr
  | body
  | hasmsg
  deriving DecidableEq, Repr

/-- `NN_STCP_OUTSTATE_*`; a new session has `-1` (`init`). -/
inductive StcpOutstate
  | init
  | idle
  | sending
  deriving DecidableEq, Repr

/-- The buffers that a session receives into. -/
inductive Buf
  | inhdr
  | body
  deriving DecidableEq, Repr

/-- `struct nn_usock`: the receive in progress, and what is left of the send in progress; when
nothing is left, `event_sent` waits in the queue.  `eventError` says that `event_error` does, with
`NN_USOCK_SHUTDOWN`. -/
structure Usock where
  recv : Option (Buf × ℕ)
  send : Option (List UInt8)
  eventError : Bool
  deriving DecidableEq, Repr

/-- `struct nn_stcp`, with the event `done` that was raised. -/
structure Stcp where
  state : StcpState
  usock : Usock
  pipebase : Pipebase
  instate : StcpInstate
  inhdr : List UInt8
  inmsg : Msg
  outstate : StcpOutstate
  outhdr : List UInt8
  outmsg : Msg
  raised : Bool
  deriving DecidableEq, Repr

/-- `nn_stcp_init` and `nn_stcp_start`. -/
def nnStcpStart : Stcp :=
  { state := .protohdr, usock := { recv := none, send := none, eventError := false }
    pipebase := { state := .idle, instate := .deactivated, outstate := .deactivated }
    instate := .init, inhdr := List.replicate 8 0, inmsg := .init
    outstate := .init, outhdr := List.replicate 8 0, outmsg := .init, raised := false }

/-- `nn_putll`. -/
def nnPutll (val : ℕ) : List UInt8 := (putLe 8 val).reverse

/-- `nn_getll`. -/
def nnGetll (buf : List UInt8) : ℕ := getLe buf.reverse

/-- A chunk of `size` bytes can be asked for: it lies in the message, or with its header in
memory. -/
def ChunkFits (size : ℕ) : Prop := size < 32 ∨ 32 + size < 2 ^ 64

instance (size : ℕ) : Decidable (ChunkFits size) := inferInstanceAs (Decidable (_ ∨ _))

/-- `nn_msg_init`; the bytes of a new chunk are not set. -/
def nnMsgInit (size : ℕ) : Except Fault Msg := do
  nnAssert (ChunkFits size)
  return { sphdr := [], hdrs := [], body := List.replicate size 0 }

/-- `nn_stcp_send`. -/
def nnStcpSend (stcp : Stcp) (msg : Msg) : Except Fault Stcp := do
  nnAssert (stcp.state = .active)
  nnAssert (stcp.outstate = .idle)
  -- serialise the message header
  let outhdr := nnPutll (msg.sphdr.length + msg.body.length)
  return { stcp with outmsg := msg, outhdr, outstate := .sending
                     usock := { stcp.usock with send := some (outhdr ++ msg.sphdr ++ msg.body) } }

/-- `nn_stcp_recv`. -/
def nnStcpRecv (stcp : Stcp) : Except Fault (Msg × Stcp) := do
  nnAssert (stcp.state = .active)
  nnAssert (stcp.instate = .hasmsg)
  -- start receiving new message
  return (stcp.inmsg, { stcp with inmsg := .init, instate := .hdr
                                  usock := { stcp.usock with recv := some (.inhdr, 8) } })

/-- The size of a message is not acceptable; `opt` is `NN_RCVMAXSIZE`. -/
def Oversize (opt : ℤ) (size : ℕ) : Prop := opt ≥ 0 ∧ size > opt.toNat

instance (opt : ℤ) (size : ℕ) : Decidable (Oversize opt size) := inferInstanceAs (Decidable (_ ∧ _))

/-- `NN_USOCK_RECEIVED` in the state `ACTIVE`. -/
def Stcp.received (opt : ℤ) (stcp : Stcp) : Except Fault Stcp :=
  match stcp.instate with
  | .hdr => do
    let size := nnGetll stcp.inhdr
    if Oversize opt size then return { stcp with state := .done, raised := true }
    let stcp := { stcp with inmsg := ← nnMsgInit size }
    -- special case when size of the message body is 0
    if size = 0 then return { stcp with instate := .hasmsg, pipebase := ← stcp.pipebase.received }
    return { stcp with instate := .body, usock := { stcp.usock with recv := some (.body, size) } }
  | .body => do return { stcp with instate := .hasmsg, pipebase := ← stcp.pipebase.received }
  | _ => .error .badState

/-- The events that a session handles, from its stream header and its underlying socket. -/
inductive StcpEvent
  | streamhdrOk
  | streamhdrError
  | streamhdrStopped (added : Bool)
  | sent
  | received
  | shutdown
  | error
  deriving DecidableEq, Repr

/-- `nn_stcp_handler`. -/
def nnStcpHandler (opt : ℤ) (stcp : Stcp) (ev : StcpEvent) : Except Fault Stcp :=
  match stcp.state, ev with
  | .protohdr, .streamhdrOk => .ok { stcp with state := .stoppingStreamhdr }
  | .protohdr, .streamhdrError => .ok { stcp with state := .done, raised := true }
  | .protohdr, .streamhdrStopped _ => .error .badAction
  | .stoppingStreamhdr, .streamhdrStopped added => do
    let (ok, pipebase) ← stcp.pipebase.start added
    if !ok then return { stcp with pipebase, state := .done, raised := true }
    return { stcp with pipebase, instate := .hdr,
                       usock := { stcp.usock with recv := some (.inhdr, 8) }
                       outstate := .idle, state := .active }
  | .stoppingStreamhdr, .streamhdrOk | .stoppingStreamhdr, .streamhdrError => .error .badAction
  | .active, .sent => do
    nnAssert (stcp.outstate = .sending)
    return { stcp with outstate := .idle, outmsg := .init, pipebase := ← stcp.pipebase.sent }
  | .active, .received => stcp.received opt
  | .active, .shutdown => .ok { stcp with pipebase := stcp.pipebase.stop, state := .shuttingDown }
  | .active, .error =>
    .ok { stcp with pipebase := stcp.pipebase.stop, state := .done, raised := true }
  | .shuttingDown, .error => .ok { stcp with state := .done, raised := true }
  | .shuttingDown, .sent | .shuttingDown, .received | .shuttingDown, .shutdown => .error .badAction
  | _, _ => .error .badSource

/-- `nn_pipe_send`. -/
def Stcp.pipeSend (stcp : Stcp) (msg : Msg) : Except Fault Stcp := do
  nnAssert (stcp.pipebase.outstate = .idle)
  let stcp ← nnStcpSend { stcp with pipebase := { stcp.pipebase with outstate := .sending } } msg
  -- the underlying socket reports the end of the send later
  nnAssert (stcp.pipebase.outstate = .sending)
  return { stcp with pipebase := { stcp.pipebase with outstate := .async } }

/-- `nn_pipe_recv`. -/
def Stcp.pipeRecv (stcp : Stcp) : Except Fault (Msg × Stcp) := do
  nnAssert (stcp.pipebase.instate = .idle)
  let (msg, stcp) ← nnStcpRecv
    { stcp with pipebase := { stcp.pipebase with instate := .receiving } }
  nnAssert (stcp.pipebase.instate = .receiving)
  return (msg, { stcp with pipebase := { stcp.pipebase with instate := .async } })

/-! ### Runs -/

/-- A session, the bytes behind the stream header that have arrived and wait, the bytes that were
written, and the messages the socket has got. -/
structure World where
  stcp : Stcp
  stream : List UInt8
  written : List UInt8
  delivered : List Msg
  deriving DecidableEq, Repr

/-- A session that starts with the stream header. -/
def World.start : World := { stcp := nnStcpStart, stream := [], written := [], delivered := [] }

/-- What can happen: the stream header is exchanged, bytes arrive, the underlying socket writes
bytes or is found broken by a call, its events are processed, and the owner of the pipe receives and
sends. -/
inductive Action
  | streamhdrOk
  | streamhdrError
  | streamhdrStopped (added : Bool)
  | arrive (bytes : List UInt8)
  | write (count : ℕ)
  | reset
  | received
  | sent
  | shutdown
  | error
  | recv
  | send (msg : Msg)
  deriving DecidableEq, Repr

/-- The size of a message on the wire. -/
def msgSize (m : Msg) : ℕ := m.sphdr.length + m.body.length

/-- The receive in progress can be completed. -/
def World.CanReceive (w : World) : Prop :=
  w.stcp.state = .active ∧ ∃ r ∈ w.stcp.usock.recv, r.2 ≤ w.stream.length

instance (w : World) : Decidable w.CanReceive := inferInstanceAs (Decidable (_ ∧ _))

/-- The socket can take a message. -/
def World.CanRecv (w : World) : Prop := w.stcp.state = .active ∧ w.stcp.pipebase.instate = .idle

instance (w : World) : Decidable w.CanRecv := inferInstanceAs (Decidable (_ ∧ _))

/-- The underlying socket is the worker's: it writes as long as the session is alive and no call has
found the connection broken. -/
def World.CanWrite (w : World) : Prop :=
  w.stcp.state ≠ .shuttingDown ∧ w.stcp.state ≠ .done ∧ w.stcp.usock.eventError = false

instance (w : World) : Decidable w.CanWrite := inferInstanceAs (Decidable (_ ∧ _ ∧ _))

/-- The worker finds the connection broken. It processes nothing while an event waits. -/
def World.CanFail (w : World) : Prop :=
  w.stcp.state = .active ∧ w.stcp.usock.send ≠ some [] ∧ w.stcp.usock.eventError = false ∨
    w.stcp.state = .shuttingDown

instance (w : World) : Decidable w.CanFail := inferInstanceAs (Decidable (_ ∨ _))

/-- When an action can happen.  An event that waits is processed in every state.  The socket uses a
pipe that is attached, and as `nn_pipe_send` and `nn_pipe_recv` ask for; the two chunks of a message
lie in memory. -/
def World.Enabled (w : World) : Action → Prop
  | .streamhdrOk | .streamhdrError => w.stcp.state = .protohdr
  | .streamhdrStopped _ => w.stcp.state = .stoppingStreamhdr
  | .arrive _ => True
  | .write _ => w.CanWrite
  | .reset => w.stcp.state = .active ∧ w.stcp.usock.eventError = false
  | .received => w.CanReceive
  | .sent => w.stcp.usock.send = some []
  | .shutdown => w.stcp.usock.eventError = true ∧ w.stcp.usock.send ≠ some []
  | .error => w.CanFail
  | .recv => w.CanRecv
  | .send msg =>
    w.stcp.pipebase.state = .active ∧ w.stcp.pipebase.outstate = .idle ∧ ChunkFits (msgSize msg)

instance (w : World) (a : Action) : Decidable (w.Enabled a) :=
  match a with
  | .streamhdrOk | .streamhdrError | .streamhdrStopped _ | .sent =>
    inferInstanceAs (Decidable (_ = _))
  | .arrive _ => .isTrue trivial
  | .write _ => inferInstanceAs (Decidable w.CanWrite)
  | .reset | .shutdown => inferInstanceAs (Decidable (_ ∧ _))
  | .received => inferInstanceAs (Decidable w.CanReceive)
  | .error => inferInstanceAs (Decidable w.CanFail)
  | .recv => inferInstanceAs (Decidable w.CanRecv)
  | .send _ => inferInstanceAs (Decidable (_ ∧ _ ∧ _))

/-- The size of the next message has arrived, and it is not acceptable. -/
def World.Refused (opt : ℤ) (w : World) : Prop :=
  w.stcp.instate = .hdr ∧ Oversize opt (nnGetll (w.stream.take 8))

instance (opt : ℤ) (w : World) : Decidable (w.Refused opt) := inferInstanceAs (Decidable (_ ∧ _))

/-- A size that is not acceptable is not processed while an event of the underlying socket waits
behind it, and the socket does not use a session that has ended. -/
def World.Careful (opt : ℤ) (w : World) : Action → Prop
  | .received => w.Refused opt → w.stcp.usock.send ≠ some [] ∧ w.stcp.usock.eventError = false
  | .send _ => w.stcp.state = .active
  | _ => True

instance (opt : ℤ) (w : World) (a : Action) : Decidable (w.Careful opt a) :=
  match a with
  | .received => inferInstanceAs (Decidable (_ → _))
  | .send _ => inferInstanceAs (Decidable (_ = _))
  | .streamhdrOk | .streamhdrError | .streamhdrStopped _ | .arrive _ | .write _ | .reset | .sent |
      .shutdown | .error
  | .recv => .isTrue trivial

/-- The actions of a run that is careful. -/
def World.Allowed (opt : ℤ) (w : World) (a : Action) : Prop := w.Enabled a ∧ w.Careful opt a

instance (opt : ℤ) (w : World) (a : Action) : Decidable (w.Allowed opt a) :=
  inferInstanceAs (Decidable (_ ∧ _))

/-- The underlying socket fills a buffer. -/
def Stcp.fill (stcp : Stcp) (buf : Buf) (bytes : List UInt8) : Stcp :=
  let usock := { stcp.usock with recv := none }
  match buf with
  | .inhdr => { stcp with usock, inhdr := bytes }
  | .body => { stcp with usock, inmsg := { stcp.inmsg with body := bytes } }

/-- The underlying socket completes the receive in progress. -/
def World.received (opt : ℤ) (w : World) : Except Fault World :=
  match w.stcp.usock.recv with
  | none => .ok w
  | some (buf, len) => do
    let stcp ← nnStcpHandler opt (w.stcp.fill buf (w.stream.take len)) .received
    return { w with stcp, stream := w.stream.drop len }

/-- The underlying socket writes some bytes of the send in progress. -/
def World.write (count : ℕ) (w : World) : World :=
  let bytes := w.stcp.usock.send.getD []
  { w with stcp := {
    w.stcp with usock := { w.stcp.usock with send := w.stcp.usock.send.map fun l => l.drop count } }
           written := w.written ++ bytes.take count }

/-- `event_error` is raised, or taken from the queue. -/
def World.setEventError (w : World) (raised : Bool) : World :=
  { w with stcp := { w.stcp with usock := { w.stcp.usock with eventError := raised } } }

/-- The socket receives a message. -/
def World.recv (w : World) : Except Fault World := do
  let (msg, stcp) ← w.stcp.pipeRecv
  return { w with stcp, delivered := w.delivered ++ [msg] }

/-- One action. -/
def World.step (opt : ℤ) (w : World) (a : Action) : Except Fault (World × Unit) := do
  let feed (stcp : Stcp) (ev : StcpEvent) : Except Fault World := do
    return { w with stcp := ← nnStcpHandler opt stcp ev }
  let w ← match a with
    | .streamhdrOk => feed w.stcp .streamhdrOk
    | .streamhdrError => feed w.stcp .streamhdrError
    | .streamhdrStopped added => feed w.stcp (.streamhdrStopped added)
    | .arrive bytes => pure { w with stream := w.stream ++ bytes }
    | .write count => pure (w.write count)
    | .reset => pure (w.setEventError true)
    | .received => w.received opt
    | .sent => feed { w.stcp with usock := { w.stcp.usock with send := none } } .sent
    | .shutdown => feed (w.setEventError false).stcp .shutdown
    | .error => feed w.stcp .error
    | .recv => w.recv
    | .send msg => do pure { w with stcp := ← w.stcp.pipeSend msg }
  return (w, ())

end NanoSocket.Tcp

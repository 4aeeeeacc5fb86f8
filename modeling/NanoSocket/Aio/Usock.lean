import NanoSocket.Core.Cmsg
import NanoSocket.Lib.Runs

/-!
# Underlying sockets (`aio/usock_posix.inc`)

A `usock` that is connected receives into a buffer of its owner and sends a list of buffers.  Either
is tried at once, in the thread of the owner; what remains is left to the worker thread, which is
told by the poller when the socket is ready.  Small receives go through a batch buffer.

An iovec is the list of the bytes that it describes, and the array `in.batch` is a list of bytes
that is allocated with the first receive.  What the operating system does is part of an action:
`recvmsg` and `sendmsg` transfer as many bytes as it likes, or none.  Buffers are smaller than 2^63
bytes, so no length wraps.
-/

namespace NanoSocket.Aio

/-- `NN_USOCK_BATCH_SIZE`. -/
def nnUsockBatchSize : ℕ := 2048

/-- `NN_USOCK_MAX_IOVCNT`. -/
def nnUsockMaxIovcnt : ℕ := 3

/-- `NN_USOCK_STATE_*`, from `ACTIVE` on. -/
inductive UsockState
  | active
  | removingFd
  | done
  deriving DecidableEq, Repr

/-- The events that are raised to the owner. -/
inductive UsockEvent
  | sent
  | received
  | shutdown
  | error
  deriving DecidableEq, Repr

/-- Store bytes in a buffer, as `memcpy` and `recvmsg` do. -/
def writeBytes (mem : List UInt8) (off : ℕ) (data : List UInt8) : Except Fault (List UInt8) :=
  if off + data.length ≤ mem.length then .ok (mem.take off ++ data ++ mem.drop (off + data.length))
  else .error .outOfBounds

/-! ### Receiving -/

/-- What the operating system does in a call of `recvmsg`: it gives at most `count` bytes of those
that have arrived, perhaps with a file descriptor, it has none, the peer has closed the connection,
or there is an error. -/
inductive OsRecv
  | give (count : ℕ) (fd : Option ℕ)
  | again
  | closed
  | failed
  deriving DecidableEq, Repr

/-- The members related to receiving data.  `dest` is the buffer of the owner that is filled, and
`buf` the position in it; `arrived` is what waits in the socket.  A descriptor goes to `fd` if there
is a place for it. -/
structure Incoming where
  dest : List UInt8
  buf : ℕ
  len : ℕ
  batch : Option (List UInt8)
  batchLen : ℕ
  batchPos : ℕ
  arrived : List UInt8
  pfd : Bool
  fd : Option ℕ
  closedFds : List ℕ
  deriving DecidableEq, Repr

/-- `recvmsg` with a buffer of `size` bytes: the bytes and the descriptor, or nothing for an error.
No bytes stand for `EAGAIN`. -/
def recvmsg (os : OsRecv) (arrived : List UInt8) (size : ℕ) : Option (List UInt8 × Option ℕ) :=
  match os with
  | .give count fd =>
    let data := arrived.take (min count size)
    some (data, if data = [] then none else fd)
  | .again => some ([], none)
  | .closed => none
  | .failed => none

/-- Extract the associated file descriptor, if any. -/
def Incoming.extract (self : Incoming) (fd : Option ℕ) : Incoming :=
  match fd with
  | none => self
  | some fd =>
    if self.pfd then { self with fd := some fd, pfd := false }
    else { self with closedFds := self.closedFds ++ [fd] }

/-- The call of `recvmsg` in `nn_usock_recv_raw`, for a request of `len` bytes of which `length` are
missing. -/
def Incoming.refill (self : Incoming) (os : OsRecv) (batch : List UInt8) (buf length len : ℕ) :
    Except Fault (Option ℕ × Incoming) := do
  let direct := nnUsockBatchSize < length
  match recvmsg os self.arrived (if direct then length else nnUsockBatchSize) with
  | none => return (none, self)
  | some (data, fd) =>
    let self := Incoming.extract { self with arrived := self.arrived.drop data.length } fd
    if direct then
      -- the data were received directly into the place
      return (some (len - (length - data.length)),
        { self with dest := ← writeBytes self.dest buf data })
    let batch ← writeBytes batch 0 data
    let sz := if data.length > length then length else data.length
    let dest ← writeBytes self.dest buf (← readBytes batch 0 sz)
    return (some (len - (length - sz)),
      { self with dest, batch := some batch, batchLen := data.length, batchPos := sz })

/-- `nn_usock_recv_raw`: the number of bytes, or nothing for `-ECONNRESET`. -/
def nnUsockRecvRaw (os : OsRecv) (self : Incoming) (buf len : ℕ) :
    Except Fault (Option ℕ × Incoming) := do
  let batch := self.batch.getD (List.replicate nnUsockBatchSize 0)
  let self := { self with batch := some batch }
  let sz := self.batchLen - self.batchPos
  if sz = 0 then self.refill os batch buf len len
  else
    -- satisfy the request by data from the batch buffer
    let sz := if sz > len then len else sz
    let dest ← writeBytes self.dest buf (← readBytes batch self.batchPos sz)
    let self := { self with dest, batchPos := self.batchPos + sz }
    if len - sz = 0 then return (some len, self)
    self.refill os batch (buf + sz) (len - sz) len

/-! ### Sending -/

/-- What the operating system does in a call of `sendmsg`. -/
inductive OsSend
  | take (count : ℕ)
  | again
  | failed
  deriving DecidableEq, Repr

/-- `struct msghdr`: the array `out.iov`, and the window of it that is left to send. -/
structure Msghdr where
  iov : List (List UInt8)
  msgIov : ℕ
  msgIovlen : ℕ
  deriving DecidableEq, Repr

/-- The bytes that are left to send. -/
def Msghdr.left (self : Msghdr) : List UInt8 :=
  ((self.iov.drop self.msgIov).take self.msgIovlen).flatten

/-- What `nn_usock_send_raw` returns. -/
inductive SendRc
  | ok
  | again
  | reset
  deriving DecidableEq, Repr

/-- The loop that adjusts the iovecs; `msg_iovlen` counts down in every turn. -/
def adjust (iov : List (List UInt8)) (msgIov : ℕ) : ℕ → ℕ → Except Fault (SendRc × Msghdr)
  | msgIovlen, 0 => .ok (if msgIovlen > 0 then .again else .ok, { iov, msgIov, msgIovlen })
  | 0, _ + 1 => .error .outOfBounds
  | msgIovlen + 1, nbytes + 1 =>
    match iov[msgIov]? with
    | none => .error .outOfBounds
    | some entry =>
      if nbytes + 1 ≥ entry.length then do
        if msgIovlen = 0 then
          nnAssert (nbytes + 1 = entry.length)
          return (.ok, { iov, msgIov, msgIovlen })
        adjust iov (msgIov + 1) msgIovlen (nbytes + 1 - entry.length)
      else .ok (.again,
        { iov := iov.set msgIov (entry.drop (nbytes + 1)), msgIov, msgIovlen := msgIovlen + 1 })
  termination_by structural msgIovlen => msgIovlen

/-- `nn_usock_send_raw`: the return value, the bytes that were written, and the header. -/
def nnUsockSendRaw (os : OsSend) (self : Msghdr) : Except Fault (SendRc × List UInt8 × Msghdr) :=
  match os with
  | .failed => .ok (.reset, [], self)
  | .again => do
    let (rc, hdr) ← adjust self.iov self.msgIov self.msgIovlen 0
    return (rc, [], hdr)
  | .take count => do
    let nbytes := min count self.left.length
    let (rc, hdr) ← adjust self.iov self.msgIov self.msgIovlen nbytes
    return (rc, self.left.take nbytes, hdr)

/-- Copy the iovecs to the socket, without those that are empty. -/
def copyIov (iov : List (List UInt8)) : Msghdr :=
  let out := iov.filter fun entry => entry.length ≠ 0
  { iov := out, msgIov := 0, msgIovlen := out.length }

/-! ### The state machine -/

/-- `struct nn_usock`, with what was written to the socket, the tasks that wait for the worker, the
events for which the worker polls the socket, and the events that were raised.  `completed` holds
the buffers of the receives that were reported, as they were then. -/
structure Usock where
  state : UsockState
  inc : Incoming
  out : Msghdr
  wire : List UInt8
  taskRecv : Bool
  taskSend : Bool
  taskStop : Bool
  pollIn : Bool
  pollOut : Bool
  raised : List UsockEvent
  completed : List (List UInt8)
  deriving DecidableEq, Repr

/-- `nn_fsm_raise`. -/
def Usock.raise (self : Usock) (e : UsockEvent) : Usock :=
  { self with raised := self.raised ++ [e] }

/-- Raise `NN_USOCK_RECEIVED`. -/
def Usock.raiseReceived (self : Usock) : Usock :=
  { self with completed := self.completed ++ [self.inc.dest] }.raise .received

/-- The action `NN_USOCK_ACTION_ERROR`. -/
def Usock.actionError (self : Usock) : Usock :=
  match self.state with
  | .active => { self with state := .removingFd, taskStop := true }.raise .shutdown
  | .removingFd => self
  | .done => self

/-- The label `error` of the handler. -/
def Usock.fail (self : Usock) : Usock := { self with state := .done }.raise .error

/-- `nn_usock_recv` into the buffer `dest`. -/
def nnUsockRecv (os : OsRecv) (self : Usock) (dest : List UInt8) (fd : Bool) :
    Except Fault Usock := do
  if self.state ≠ .active then return self.actionError
  match ← nnUsockRecvRaw os { self.inc with dest, pfd := fd, fd := none } 0 dest.length with
  | (none, inc) => return { self with inc }.actionError
  | (some nbytes, inc) =>
    if nbytes = dest.length then return { self with inc }.raiseReceived
    -- ask the worker thread to receive the remaining data
    return { self with inc := { inc with buf := nbytes, len := dest.length - nbytes },
                       taskRecv := true }

/-- `nn_usock_send`. -/
def nnUsockSend (os : OsSend) (self : Usock) (iov : List (List UInt8)) : Except Fault Usock := do
  if self.state ≠ .active then return self.actionError
  nnAssert (iov.length ≤ nnUsockMaxIovcnt)
  let (rc, bytes, out) ← nnUsockSendRaw os (copyIov iov)
  let self := { self with out, wire := self.wire ++ bytes }
  match rc with
  | .ok => return self.raise .sent
  | .reset => return self.actionError
  | .again => return { self with taskSend := true }

/-- `NN_WORKER_FD_IN` in the state `ACTIVE`. -/
def Usock.fdIn (os : OsRecv) (self : Usock) : Except Fault Usock := do
  match ← nnUsockRecvRaw os self.inc self.inc.buf self.inc.len with
  | (none, inc) => return { self with inc }.fail
  | (some sz, inc) =>
    let self := { self with inc := { inc with len := inc.len - sz, buf := inc.buf + sz } }
    if self.inc.len = 0 then return { self with pollIn := false }.raiseReceived
    return self

/-- `NN_WORKER_FD_OUT` in the state `ACTIVE`. -/
def Usock.fdOut (os : OsSend) (self : Usock) : Except Fault Usock := do
  let (rc, bytes, out) ← nnUsockSendRaw os self.out
  let self := { self with out, wire := self.wire ++ bytes }
  match rc with
  | .ok => return { self with pollOut := false }.raise .sent
  | .again => return self
  | .reset => return self.fail

/-- What happens to a connected socket: bytes arrive, the owner asks for a receive or a send, and
the worker executes a task or is told by the poller that the socket is ready or broken. -/
inductive UsockAction
  | arrive (bytes : List UInt8)
  | recv (dest : List UInt8) (fd : Bool) (os : OsRecv)
  | send (iov : List (List UInt8)) (os : OsSend)
  | taskRecv
  | taskSend
  | taskStop
  | fdIn (os : OsRecv)
  | fdOut (os : OsSend)
  | fdErr
  deriving DecidableEq, Repr

/-- An action on a socket. -/
def Usock.step (self : Usock) : UsockAction → Except Fault (Usock × Unit)
  | .arrive bytes =>
    .ok ({ self with inc := { self.inc with arrived := self.inc.arrived ++ bytes } }, ())
  | .recv dest fd os => do return (← nnUsockRecv os self dest fd, ())
  | .send iov os => do return (← nnUsockSend os self iov, ())
  | .taskRecv => .ok ({ self with taskRecv := false, pollIn := true }, ())
  | .taskSend => .ok ({ self with taskSend := false, pollOut := true }, ())
  | .taskStop =>
    match self.state with
    | .removingFd => .ok ({ self with taskStop := false }.fail, ())
    | .done => .ok ({ self with taskStop := false }, ())
    | .active => .error .badSource
  | .fdIn os =>
    match self.state with
    | .active => do return (← self.fdIn os, ())
    | _ => .ok (self, ())
  | .fdOut os =>
    match self.state with
    | .active => do return (← self.fdOut os, ())
    | _ => .ok (self, ())
  | .fdErr =>
    match self.state with
    | .active => .ok (self.fail, ())
    | _ => .ok (self, ())

/-- An action can happen: the owner waits for a receive or a send before it asks for another one,
and a send has at most three buffers, with at least one byte. -/
def Usock.Enabled (self : Usock) : UsockAction → Prop
  | .arrive _ => True
  | .recv _ _ _ => self.inc.len = 0
  | .send iov _ => self.out.left = [] ∧ iov.length ≤ nnUsockMaxIovcnt ∧ iov.flatten ≠ []
  | .taskRecv => self.taskRecv = true
  | .taskSend => self.taskSend = true
  | .taskStop => self.taskStop = true
  | .fdIn _ => self.pollIn = true
  | .fdOut _ => self.pollOut = true
  | .fdErr => True

instance (self : Usock) : DecidablePred self.Enabled
  | .arrive _ => .isTrue trivial
  | .recv _ _ _ => inferInstanceAs (Decidable (self.inc.len = 0))
  | .send iov _ =>
    inferInstanceAs (Decidable (_ ∧ iov.length ≤ nnUsockMaxIovcnt ∧ iov.flatten ≠ []))
  | .taskRecv => inferInstanceAs (Decidable (self.taskRecv = true))
  | .taskSend => inferInstanceAs (Decidable (self.taskSend = true))
  | .taskStop => inferInstanceAs (Decidable (self.taskStop = true))
  | .fdIn _ => inferInstanceAs (Decidable (self.pollIn = true))
  | .fdOut _ => inferInstanceAs (Decidable (self.pollOut = true))
  | .fdErr => .isTrue trivial

/-- A socket that has just been activated. -/
def Usock.start : Usock :=
  { state := .active
    inc := { dest := [], buf := 0, len := 0, batch := none, batchLen := 0, batchPos := 0,
             arrived := [],
             pfd := false, fd := none, closedFds := [] }
    out := { iov := [], msgIov := 0, msgIovlen := 0 }
    wire := [], taskRecv := false, taskSend := false, taskStop := false, pollIn :=
      false, pollOut := false
    raised := [], completed := [] }

end NanoSocket.Aio

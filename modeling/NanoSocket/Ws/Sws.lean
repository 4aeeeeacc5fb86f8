import NanoSocket.Core.Cmsg
import NanoSocket.Core.Pipe
import NanoSocket.Ws.Utf8

/-!
# WebSocket sessions (`transports/ws/sws.c`)

A session reads frames from a socket in two or three steps (the first two bytes of the header, the
rest of the header, the payload), collects the fragments of a message in `inmsg_array`, checks text
as it arrives, and gives whole messages to the pipe.  A frame that is not in order ends the
connection with a close frame.

An event that is raised in a context is processed before the context is left, in the order of the
queue.  `NN_USOCK_SENT` and `NN_USOCK_SHUTDOWN` can wait there while the session handles other
events; those that wait when it becomes `DONE` it still gets, before its owner stops it.  A `World`
is a session with the bytes of the peer that wait to be received; `World.step` is what can happen
next.
-/

namespace NanoSocket.Ws

/-- `NN_WS_CLIENT` and `NN_WS_SERVER`. -/
inductive Mode
  | client
  | server
  deriving DecidableEq, Repr

/-- `NN_SWS_STATE_*`, from the start of the session to its stop. -/
inductive SwsState
  | handshake
  | stoppingHandshake
  | active
  | closingConnection
  | brokenConnection
  | done
  deriving DecidableEq, Repr

/-- `NN_SWS_INSTATE_*`; a new session has `-1` (`init`). -/
inductive SwsInstate
  | init
  | recvHdr
  | recvHdrext
  | recvPayload
  | recvdChunked
  | recvdControl
  | closed
  deriving DecidableEq, Repr

/-- `NN_SWS_OUTSTATE_*`; a new session has `-1` (`init`). -/
inductive SwsOutstate
  | init
  | idle
  | sending
  deriving DecidableEq, Repr

/-- `NN_WS_OPCODE_*`. -/
inductive Opcode
  | fragment
  | text
  | binary
  | close
  | ping
  | pong
  | unused
  deriving DecidableEq, Repr

/-- The opcode in the first byte of a header. -/
def opcodeOf (b : UInt8) : Opcode :=
  match (b &&& 0x0F).toNat with
  | 0x00 => .fragment
  | 0x01 => .text
  | 0x02 => .binary
  | 0x08 => .close
  | 0x09 => .ping
  | 0x0A => .pong
  | _ => .unused

/-- `NN_SWS_FRAME_BITMASK_FIN` in the first byte of a header. -/
def isFin (b : UInt8) : Bool := b &&& 0x80 ≠ 0

/-- The four bytes of a mask. -/
abbrev Mask := Vector UInt8 4

/-- The buffers that a session passes to its socket. -/
inductive Buf
  | null
  | inhdr (off : ℕ)
  | control
  | chunk
  deriving DecidableEq, Repr

/-- The states of a connected `nn_usock`. -/
inductive UsockState
  | active
  | removingFd
  | done
  deriving DecidableEq, Repr

/-- The send in progress: there is none, its bytes are being written, or all are and `event_sent`
waits in the queue. -/
inductive UsockSend
  | idle
  | writing
  | written
  deriving DecidableEq, Repr

/-- `struct nn_usock`: the receive and the send in progress, whether `event_error` waits in the
queue with `NN_USOCK_SHUTDOWN`, and all that was given to send.  Until `NN_USOCK_SHUTDOWN` is
processed the socket is `active` here, and a receive that was complete before can be processed. -/
structure Usock where
  state : UsockState
  recv : Option (Buf × ℕ)
  send : UsockSend
  eventError : Bool
  sent : List UInt8
  deriving DecidableEq, Repr

/-- `nn_usock_recv`; the sessions call it on an active socket. -/
def nnUsockRecv (self : Usock) (buf : Buf) (len : ℕ) : Except Fault Usock := do
  nnAssert (self.state = .active)
  return { self with recv := some (buf, len) }

/-- `nn_usock_send`; the sessions call it on an active socket. -/
def nnUsockSend (self : Usock) (bytes : List UInt8) : Except Fault Usock := do
  nnAssert (self.state = .active)
  return { self with send := .writing, sent := self.sent ++ bytes }

/-- What lies outside the session: the option `NN_RCVMAXSIZE`, whether `nn_alloc` finds memory, and
what is in memory that was not written. -/
structure Env where
  rcvmaxsize : ℤ
  mem : ℕ → Bool
  memory : ℕ → UInt8

/-- `nn_chunkref_init` finds memory: small chunks need none, and the size of others must not
overflow. -/
def Env.Chunkref (env : Env) (size : ℕ) : Prop :=
  size < 32 ∨ 32 + size < 2 ^ 64 ∧ env.mem (32 + size) = true

instance (env : Env) (size : ℕ) : Decidable (env.Chunkref size) :=
  inferInstanceAs (Decidable (_ ∨ _ ∧ _))

/-- `nn_msg_chunk_new` finds memory. -/
def Env.MsgChunk (env : Env) (size : ℕ) : Prop := env.mem 48 = true ∧ env.Chunkref size

instance (env : Env) (size : ℕ) : Decidable (env.MsgChunk size) :=
  inferInstanceAs (Decidable (_ ∧ _))

/-- `struct nn_sws`.  The array `utf8_code_pt_fragment` is cut off after `utf8_code_pt_fragment_len`
bytes, and `mask` is the place of the mask in `inhdr`. -/
structure Sws where
  state : SwsState
  msgType : UInt8
  mode : Mode
  usock : Usock
  pipebase : Pipebase
  instate : SwsInstate
  inhdr : List UInt8
  opcode : Opcode
  payloadCtl : ℕ
  masked : Bool
  mask : Option ℕ
  extHdrLen : ℕ
  isFinalFrame : Bool
  isControlFrame : Bool
  continuing : Bool
  utf8CodePtFragment : List UInt8
  inmsgArray : List (List UInt8)
  inmsgCurrentChunkBuf : Buf
  inmsgCurrentChunkLen : ℕ
  inmsgTotalSize : ℕ
  inmsgHdr : UInt8
  inmsgControl : List UInt8
  outstate : SwsOutstate
  outmsg : Msg
  deriving DecidableEq

/-- `nn_sws_init` and `nn_sws_start`. -/
def nnSwsStart (mode : Mode) (msgType : UInt8) : Sws :=
  { state := .handshake, msgType, mode
    usock := { state := .active, recv := none, send := .idle, eventError := false, sent := [] }
    pipebase := { state := .idle, instate := .deactivated, outstate := .deactivated }
    instate := .init, inhdr := List.replicate 14 0, opcode := .fragment, payloadCtl :=
      0, masked := false
    mask := none, extHdrLen := 0, isFinalFrame := false, isControlFrame :=
      false, continuing := false
    utf8CodePtFragment := [], inmsgArray := [], inmsgCurrentChunkBuf :=
      .null, inmsgCurrentChunkLen := 0
    inmsgTotalSize := 0, inmsgHdr := 0, inmsgControl := List.replicate 125 0, outstate := .init
    outmsg := .init }

/-! ### Buffers -/

/-- Write bytes into an object. -/
def writeBytes (data : List UInt8) (off : ℕ) (bytes : List UInt8) : Except Fault (List UInt8) :=
  if off + bytes.length ≤ data.length then
    .ok (data.take off ++ bytes ++ data.drop (off + bytes.length))
  else .error .outOfBounds

/-- The bytes of a buffer. -/
def Sws.load (self : Sws) (buf : Buf) (len : ℕ) : Except Fault (List UInt8) :=
  match buf with
  | .null => .error .nullDeref
  | .inhdr off => readBytes self.inhdr off len
  | .control => readBytes self.inmsgControl 0 len
  | .chunk =>
    match self.inmsgArray.getLast? with
    | none => .error .nullDeref
    | some ch => readBytes ch 0 len

/-- Write to a buffer; `chunk` is the chunk that was allocated last. -/
def Sws.store (self : Sws) (buf : Buf) (bytes : List UInt8) : Except Fault Sws :=
  match buf with
  | .null => .error .nullDeref
  | .inhdr off => do return { self with inhdr := ← writeBytes self.inhdr off bytes }
  | .control => do return { self with inmsgControl := ← writeBytes self.inmsgControl 0 bytes }
  | .chunk =>
    match self.inmsgArray.getLast? with
    | none => .error .nullDeref
    | some ch => do
      return { self with inmsgArray := self.inmsgArray.dropLast ++ [← writeBytes ch 0 bytes] }

/-- `nn_puts`. -/
def nnPuts (val : ℕ) : List UInt8 := (putLe 2 val).reverse

/-- `nn_putll`. -/
def nnPutll (val : ℕ) : List UInt8 := (putLe 8 val).reverse

/-- `nn_gets` and `nn_getll`: a number in network order. -/
def getBe (bytes : List UInt8) : ℕ := getLe bytes.reverse

/-- The bytes of a text. -/
def ascii (s : String) : List UInt8 := s.toList.map fun c => UInt8.ofNat c.toNat

/-- A literal is such a text, and rewriting with this is much faster than evaluating it. -/
theorem ascii_ofList (l : List Char) :
    ascii (String.ofList l) = l.map fun c => UInt8.ofNat c.toNat := by
  rw [ascii, String.toList_ofList]

theorem length_ascii (l : List Char) : (ascii (String.ofList l)).length = l.length := by
  rw [ascii_ofList, List.length_map]

theorem length_ascii_le (l : List Char) {n : ℕ} (h : l.length ≤ n) :
    (ascii (String.ofList l)).length ≤ n :=
  (length_ascii l).trans_le h

theorem ascii_append (s t : String) : ascii (s ++ t) = ascii s ++ ascii t := by
  rw [ascii, String.toList_append, List.map_append]
  rfl

theorem mod_four_lt (pos : ℕ) : pos % 4 < 4 := Nat.mod_lt pos (by decide)

/-- The bytes of a payload, combined with the mask from a position on. -/
def maskFrom (mask : Mask) : ℕ → List UInt8 → List UInt8
  | _, [] => []
  | pos, b :: l => (b ^^^ mask.get ⟨pos % 4, mod_four_lt pos⟩) :: maskFrom mask (pos + 1) l

/-- `nn_sws_mask_payload`: the new payload and the position of the mask after it.  The loop counts
with an `unsigned`, so it does not end when the payload has 2^32 bytes or more. -/
def nnSwsMaskPayload (payload : List UInt8) (mask : Mask) (pos : ℕ) :
    Except Fault (List UInt8 × ℕ) :=
  if payload.length < 2 ^ 32 then .ok (maskFrom mask pos payload, (payload.length + pos) % 4)
  else .error .diverged

/-! ### Receiving -/

/-- `nn_sws_recv_hdr`. -/
def nnSwsRecvHdr (self : Sws) : Except Fault Sws := do
  let self ← if self.continuing then pure self
    else do
      nnAssert (self.inmsgArray = [])
      pure { self with inmsgCurrentChunkBuf := .null, inmsgCurrentChunkLen := 0,
                       inmsgTotalSize := 0 }
  return { self with inmsgControl := List.replicate 125 0, inhdr := List.replicate 14 0,
                     instate := .recvHdr, usock := ← nnUsockRecv self.usock (.inhdr 0) 2 }

/-- The message is complete: tell the pipe. -/
def Sws.recvd (self : Sws) (instate : SwsInstate) : Except Fault Sws := do
  return { self with instate, pipebase := ← self.pipebase.received }

/-- The close frame that `nn_sws_fail_conn` builds in `fail_msg`. -/
def failMsg (mode : Mode) (rand : Mask) (code : ℕ) (reason : String) :
    Except Fault (List UInt8) := do
  let payload := nnPuts code ++ ascii reason
  nnAssert (payload.length ≤ 125)
  match mode with
  | .server => return 0x88 :: UInt8.ofNat payload.length :: payload
  | .client =>
    let (payload, _) ← nnSwsMaskPayload payload rand 0
    return 0x88 :: (UInt8.ofNat payload.length ||| 0x80) :: (rand.toList ++ payload)

/-- `nn_sws_fail_conn`; `rand` is the mask of a client. -/
def nnSwsFailConn (rand : Mask) (self : Sws) (code : ℕ) (reason : String) : Except Fault Sws := do
  nnAssert (self.state = .active)
  -- stop user send/recv actions, and destroy any remnant incoming message fragments
  let self := { self with instate := .closed, pipebase := self.pipebase.stop, inmsgArray := [] }
  let msg ← failMsg self.mode rand code reason
  if 125 < msg.length then throw .outOfBounds
  if self.outstate = .idle then
    return { self with usock := ← nnUsockSend self.usock msg, outstate := .sending
                       state := .closingConnection }
  else return { self with state := .done }

/-- How a loop over code points ends. -/
inductive Utf8Scan
  | wellFormed
  | invalid
  | fragment (rest : List UInt8)
  deriving DecidableEq, Repr

/-- The loop of `nn_sws_validate_utf8_chunk` and `nn_sws_acknowledge_close_handshake` over code
points. -/
def utf8Loop : ℕ → List UInt8 → Except Fault Utf8Scan
  | _, [] => .ok .wellFormed
  | 0, _ :: _ => .error .diverged
  | fuel + 1, b :: l =>
    match nnUtf8CodePoint (b :: l) with
    | .valid n => do
      nnAssert (n ≤ (b :: l).length)
      utf8Loop fuel ((b :: l).drop n)
    | .invalid => .ok .invalid
    | .fragment => .ok (.fragment (b :: l))

/-- The second part of `nn_sws_validate_utf8_chunk`: `bytes` are what is left of the chunk. -/
def Sws.validateRest (rand : Mask) (self : Sws) (bytes : List UInt8) : Except Fault Sws := do
  nnAssert (self.utf8CodePtFragment.length < 4)
  match ← utf8Loop bytes.length bytes with
  | .invalid =>
    nnSwsFailConn rand { self with utf8CodePtFragment := [] } 1007
      "Invalid UTF-8 code point in payload."
  | .fragment rest =>
    nnAssert (rest.length < 4)
    let self := { self with utf8CodePtFragment := rest }
    if self.isFinalFrame then
      nnSwsFailConn rand self 1007 "Truncated UTF-8 payload with invalid code point."
    else nnSwsRecvHdr self
  | .wellFormed =>
    let self := { self with utf8CodePtFragment := [] }
    if self.isFinalFrame then self.recvd .recvdChunked else nnSwsRecvHdr self

/-- `nn_sws_validate_utf8_chunk`. -/
def nnSwsValidateUtf8Chunk (rand : Mask) (self : Sws) : Except Fault Sws := do
  let chunk ← self.load self.inmsgCurrentChunkBuf self.inmsgCurrentChunkLen
  if self.utf8CodePtFragment = [] then self.validateRest rand chunk
  else do
    nnAssert (self.utf8CodePtFragment.length < 4)
    match chunk with
    | [] => self.validateRest rand []
    | b :: bytes =>
      -- every branch leaves the loop `while (len > 0)`, so one byte is added to the fragment
      let self := { self with utf8CodePtFragment := self.utf8CodePtFragment ++ [b] }
      match nnUtf8CodePoint self.utf8CodePtFragment with
      | .valid _ => self.validateRest rand bytes
      | .invalid => nnSwsFailConn rand self 1007 "Invalid UTF-8 code point split on previous frame."
      | .fragment =>
        if self.isFinalFrame then
          nnSwsFailConn rand self 1007 "Truncated UTF-8 payload with invalid code point."
        else nnSwsRecvHdr self

/-- The close codes that are repeated to the peer. -/
def closeCodeKnown (code : ℕ) : Bool :=
  code ∈ [1000, 1001, 1002, 1003, 1007, 1008, 1009, 1010, 1011] || (3000 ≤ code && code ≤ 3999) ||
    (4000 ≤ code && code ≤ 4999)

/-- `nn_sws_acknowledge_close_handshake`. -/
def nnSwsAcknowledgeCloseHandshake (rand : Mask) (self : Sws) : Except Fault Sws :=
  if self.inmsgCurrentChunkLen = 0 then nnSwsFailConn rand self 1000 ""
  else do
    nnAssert (2 ≤ self.inmsgCurrentChunkLen)
    let chunk ← self.load self.inmsgCurrentChunkBuf self.inmsgCurrentChunkLen
    match ← utf8Loop (chunk.drop 2).length (chunk.drop 2) with
    | .wellFormed =>
      let closeCode := getBe (chunk.take 2)
      if closeCodeKnown closeCode then nnSwsFailConn rand self closeCode ""
      else nnSwsFailConn rand self 1002 "Unrecognized close code."
    | _ => nnSwsFailConn rand self 1002 "Invalid UTF-8 sent as Close Reason."

/-- Receive the payload, whose length is known: the same code after either part of the header. -/
def Sws.recvPayload (env : Env) (rand : Mask) (self : Sws) (toobig : String) : Except Fault Sws :=
  if self.isControlFrame then do
    return { self with inmsgCurrentChunkBuf := .control, instate := .recvPayload
                       usock := ← nnUsockRecv self.usock .control self.inmsgCurrentChunkLen }
  else
    let self :=
      { self with inmsgTotalSize := (self.inmsgTotalSize + self.inmsgCurrentChunkLen) % 2 ^ 64 }
    if env.rcvmaxsize ≥ 0 ∧ (self.inmsgTotalSize : ℤ) > env.rcvmaxsize then
      nnSwsFailConn rand self 1009 toobig
    else do
      -- `nn_msg_chunk_new`
      nnAssert (env.MsgChunk self.inmsgCurrentChunkLen)
      return { self with
        inmsgArray := self.inmsgArray ++ [List.replicate self.inmsgCurrentChunkLen 0]
        inmsgCurrentChunkBuf := .chunk, instate := .recvPayload
        usock := ← nnUsockRecv self.usock .chunk self.inmsgCurrentChunkLen }

/-- The end of `NN_SWS_INSTATE_RECV_HDR`: go on with the payload or the rest of the header. -/
def Sws.recvRest (env : Env) (rand : Mask) (self : Sws) : Except Fault Sws :=
  if self.extHdrLen = 0 then do
    nnAssert (self.mode = .client)
    nnAssert (0 < self.payloadCtl ∧ self.payloadCtl ≤ 125)
    Sws.recvPayload env rand { self with inmsgCurrentChunkLen := self.payloadCtl }
      "Message larger than application allows."
  else do
    return { self with instate := .recvHdrext,
                       usock := ← nnUsockRecv self.usock (.inhdr 2) self.extHdrLen }

/-- The header of a data frame: the cases `TEXT`, `BINARY` and `FRAGMENT` end alike. -/
def Sws.dataFrame (env : Env) (rand : Mask) (self : Sws) : Except Fault Sws :=
  if self.extHdrLen = 0 ∧ self.payloadCtl = 0 then do
    nnAssert (self.mode = .client)
    let self := { self with inmsgCurrentChunkLen := 0 }
    if self.continuing then nnSwsRecvHdr self else self.recvd .recvdChunked
  else self.recvRest env rand

/-- The header of a frame `PING` or `PONG`. -/
def Sws.pingFrame (env : Env) (rand : Mask) (self : Sws) : Except Fault Sws :=
  let self := { self with isControlFrame := true }
  if self.payloadCtl > 125 then
    nnSwsFailConn rand self 1002 "Control frame payload exceeds allowable length."
  else if ¬ self.isFinalFrame then
    nnSwsFailConn rand self 1002 "Cannot fragment control message (FIN=0)."
  else if self.extHdrLen = 0 ∧ self.payloadCtl = 0 then
    Sws.recvd { self with inmsgCurrentChunkLen := 0 } .recvdControl
  else self.recvRest env rand

/-- The header of a frame `CLOSE`. -/
def Sws.closeFrame (env : Env) (rand : Mask) (self : Sws) : Except Fault Sws :=
  let self := { self with isControlFrame := true }
  if ¬ self.isFinalFrame then
    nnSwsFailConn rand self 1002 "Cannot fragment control message (FIN=0)."
  else if self.payloadCtl > 125 then
    nnSwsFailConn rand self 1002 "Control frame payload exceeds allowable length."
  else if self.payloadCtl = 1 then nnSwsFailConn rand self 1002 "Expected 2byte close code."
  else if self.extHdrLen = 0 ∧ self.payloadCtl = 0 then
    nnSwsAcknowledgeCloseHandshake rand { self with inmsgCurrentChunkLen := 0 }
  else self.recvRest env rand

/-- The bytes of the header after the first two: the mask, and the length in one of three forms. -/
def extHdrLenOf (mode : Mode) (payloadCtl : ℕ) : ℕ :=
  (match mode with
    | .server => 4
    | .client => 0) +
  if payloadCtl ≤ 125 then 0 else if payloadCtl = 0x7E then 2 else 8

/-- `NN_USOCK_RECEIVED` in `NN_SWS_INSTATE_RECV_HDR`. -/
def Sws.recvdHdr (env : Env) (rand : Mask) (self : Sws) : Except Fault Sws :=
  let b0 := self.inhdr.getD 0 0
  let b1 := self.inhdr.getD 1 0
  if b0 &&& 0x40 ≠ 0 ∨ b0 &&& 0x20 ≠ 0 ∨ b0 &&& 0x10 ≠ 0 then
    nnSwsFailConn rand self 1002 "RSV1, RSV2, and RSV3 must be unset."
  else
    let self := { self with isFinalFrame := isFin b0, masked := b1 &&& 0x80 ≠ 0 }
    if self.mode = .server ∧ ¬ self.masked then
      nnSwsFailConn rand self 1002 "Server expects MASK bit to be set."
    else if self.mode = .client ∧ self.masked then
      nnSwsFailConn rand self 1002 "Client expects MASK bit to be unset."
    else
      let self := { self with opcode := opcodeOf b0, payloadCtl := (b1 &&& 0x7F).toNat }
      if ¬ self.continuing ∧ self.opcode = .fragment then
        nnSwsFailConn rand self 1002 "No message to continue."
      else
        let self := { self with
          inmsgHdr := if self.continuing then self.inmsgHdr else b0 ||| 0x80
          extHdrLen := extHdrLenOf self.mode self.payloadCtl }
        match self.opcode with
        | .text | .binary =>
          let self := { self with isControlFrame := false }
          if self.continuing then nnSwsFailConn rand self 1002 "Expected continuation frame opcode."
          else Sws.dataFrame env rand { self with continuing := !self.isFinalFrame }
        | .fragment =>
          Sws.dataFrame env rand { self with isControlFrame := false,
                                             continuing := !self.isFinalFrame }
        | .ping | .pong => self.pingFrame env rand
        | .close => self.closeFrame env rand
        | .unused => nnSwsFailConn rand self 1002 "Invalid opcode."

/-- `NN_USOCK_RECEIVED` in `NN_SWS_INSTATE_RECV_HDREXT`. -/
def Sws.recvdHdrext (env : Env) (rand : Mask) (self : Sws) : Except Fault Sws := do
  nnAssert (self.extHdrLen > 0)
  -- the length, and the place of the mask
  let (len, mask) :=
    if self.payloadCtl ≤ 125 then (self.payloadCtl, 2)
    else if self.payloadCtl = 0x7E then (getBe ((self.inhdr.drop 2).take 2), 4)
    else (getBe ((self.inhdr.drop 2).take 8), 10)
  let self :=
    { self with inmsgCurrentChunkLen := len, mask := if self.masked then some mask else none }
  if self.inmsgCurrentChunkLen = 0 then
    if self.isFinalFrame then
      if self.opcode = .close then nnSwsAcknowledgeCloseHandshake rand self
      else self.recvd (if self.isControlFrame then .recvdControl else .recvdChunked)
    else nnSwsRecvHdr self
  else self.recvPayload env rand "Message size exceeds limit."

/-- The last frame of a message or not. -/
def Sws.chunkDone (self : Sws) : Except Fault Sws :=
  if self.isFinalFrame then self.recvd .recvdChunked else nnSwsRecvHdr self

/-- Unmask the payload that was received. -/
def Sws.unmask (self : Sws) : Except Fault Sws :=
  match self.mask with
  | none => throw .nullDeref
  | some off => do
    let mask : Mask := Vector.ofFn fun i => self.inhdr.getD (off + i) 0
    let payload ← self.load self.inmsgCurrentChunkBuf self.inmsgCurrentChunkLen
    let (payload, _) ← nnSwsMaskPayload payload mask 0
    self.store self.inmsgCurrentChunkBuf payload

/-- What the opcode asks for, once the payload is there. -/
def Sws.payloadDone (rand : Mask) (self : Sws) : Except Fault Sws :=
  match self.opcode with
  | .text => nnSwsValidateUtf8Chunk rand self
  | .binary => self.chunkDone
  | .fragment =>
    -- the opcode of the first frame says whether this fragment needs UTF-8 validation
    if opcodeOf self.inmsgHdr = .text then nnSwsValidateUtf8Chunk rand self else self.chunkDone
  | .ping | .pong => self.recvd .recvdControl
  | .close => nnSwsAcknowledgeCloseHandshake rand self
  | .unused => throw .assertFailed

/-- `NN_USOCK_RECEIVED` in `NN_SWS_INSTATE_RECV_PAYLOAD`. -/
def Sws.recvdPayload (rand : Mask) (self : Sws) : Except Fault Sws := do
  let self ← if self.masked then self.unmask else pure self
  self.payloadDone rand

/-- What is fed to the state machine of a session. -/
inductive SwsEvent
  | handshakeOk
  | handshakeError
  | handshakeStopped (added : Bool)
  | sent
  | received
  | shutdown
  | error
  deriving DecidableEq, Repr

/-- `nn_sws_handler`. -/
def nnSwsHandler (env : Env) (rand : Mask) (self : Sws) (ev : SwsEvent) : Except Fault Sws :=
  match self.state with
  | .handshake =>
    match ev with
    | .handshakeOk => .ok { self with state := .stoppingHandshake }
    | .handshakeError => .ok { self with state := .done }
    | .handshakeStopped _ => .error .badAction
    | _ => .error .badSource
  | .stoppingHandshake =>
    match ev with
    | .handshakeStopped added => do
      let (started, pipebase) ← self.pipebase.start added
      let self := { self with pipebase }
      if ¬ started then return { self with state := .done }
      return { ← nnSwsRecvHdr self with outstate := .idle, state := .active }
    | .handshakeOk | .handshakeError => .error .badAction
    | _ => .error .badSource
  | .active =>
    match ev with
    | .sent => do
      nnAssert (self.outstate = .sending)
      return { self with outstate := .idle, outmsg := .init, pipebase := ← self.pipebase.sent }
    | .received =>
      match self.instate with
      | .recvHdr => self.recvdHdr env rand
      | .recvHdrext => self.recvdHdrext env rand
      | .recvPayload => self.recvdPayload rand
      | _ => .error .badState
    | .shutdown => .ok { self with pipebase := self.pipebase.stop, state := .brokenConnection }
    | .error => .ok { self with pipebase := self.pipebase.stop, state := .done }
    | _ => .error .badSource
  | .closingConnection =>
    match ev with
    | .sent => do
      nnAssert (self.outstate = .sending)
      return { self with outstate := .idle, state := .done }
    | .shutdown => .ok self
    | .error => .ok { self with state := .done }
    | .received => .error .badAction
    | _ => .error .badSource
  | .brokenConnection =>
    match ev with
    | .error => .ok { self with state := .done }
    | .sent | .received | .shutdown => .error .badAction
    | _ => .error .badSource
  | .done => .error .badSource

/-! ### Calls of the socket -/

/-- The loop of `nn_sws_recv` that copies the chunks to a body of `size` bytes. -/
def gather (size : ℕ) (body : List UInt8) : List (List UInt8) → Except Fault (List UInt8)
  | [] => .ok body
  | ch :: rest =>
    if body.length + ch.length ≤ size then gather size (body ++ ch) rest else .error .outOfBounds

/-- The property `NN_WS_MSG_TYPE` that `nn_sws_recv` adds to a message; `NN_WS` is `-4`. -/
def wsHdrs (env : Env) (opcodeHdr : UInt8) : List UInt8 :=
  putLe 8 (nnCmsgSpace 1) ++ putLe 4 (2 ^ 32 - 4) ++ putLe 4 1 ++ opcodeHdr ::
    (List.range 7).map env.memory

/-- `nn_sws_recv`. -/
def nnSwsRecv (env : Env) (sws : Sws) : Except Fault (Msg × Sws) := do
  nnAssert (sws.state = .active)
  match sws.instate with
  | .recvdChunked =>
    let opcodeHdr := sws.inmsgHdr
    nnAssert (sws.isFinalFrame = true)
    nnAssert (isFin opcodeHdr = true)
    let opcodeHdr := opcodeHdr &&& 0x7F
    nnAssert (opcodeOf opcodeHdr = .binary ∨ opcodeOf opcodeHdr = .text)
    -- `nn_msg_init`
    nnAssert (env.Chunkref sws.inmsgTotalSize)
    let body ← gather sws.inmsgTotalSize [] sws.inmsgArray
    nnAssert (body.length = sws.inmsgTotalSize)
    -- no longer collecting scatter array of incoming msg chunks
    let sws ← nnSwsRecvHdr { sws with inmsgArray := [], continuing := false }
    return ({ sphdr := [], hdrs := wsHdrs env opcodeHdr, body }, sws)
  | .recvdControl =>
    let opcodeHdr := sws.inhdr.getD 0 0
    nnAssert (sws.isFinalFrame = true)
    nnAssert (isFin opcodeHdr = true)
    let opcodeHdr := opcodeHdr &&& 0x7F
    nnAssert (opcodeOf opcodeHdr = .ping ∨ opcodeOf opcodeHdr = .pong)
    nnAssert (env.Chunkref sws.inmsgCurrentChunkLen)
    let body ← readBytes sws.inmsgControl 0 sws.inmsgCurrentChunkLen
    let sws ← nnSwsRecvHdr sws
    return ({ sphdr := [], hdrs := wsHdrs env opcodeHdr, body }, sws)
  | _ => throw .assertFailed

/-- The search of `nn_sws_send` for the property `NN_WS_MSG_TYPE`, and the opcode in it. -/
def findMsgType (control : List UInt8) : ℕ → Option ℕ → Except Fault (Option UInt8)
  | 0, _ => .error .diverged
  | _ + 1, none => .ok none
  | fuel + 1, some cmsg => do
    let level ← readLe control (cmsg + 8) 4
    let type ← readLe control (cmsg + 12) 4
    if level = 2 ^ 32 - 4 ∧ type = 1 then return (← readBytes control (cmsg + 16) 1).head?
    else findMsgType control fuel (← nnCmsgNxthdr control (some cmsg))

/-- The opcode that the headers of a message ask for. -/
def hdrsMsgType (hdrs : List UInt8) : Except Fault (Option UInt8) :=
  if hdrs = [] then .ok none
  else do findMsgType hdrs (hdrs.length + 1) (← nnCmsgNxthdr hdrs none)

/-- The length in a header, as `nn_sws_send` writes it: the second byte without the mask bit, and
the bytes after it. -/
def lengthField (size : ℕ) : UInt8 × List UInt8 :=
  if size ≤ 125 then (UInt8.ofNat size, [])
  else if size ≤ 65535 then (0x7E, nnPuts size)
  else (0x7F, nnPutll size)

/-- `nn_sws_send`; `rand` is the mask of a client. -/
def nnSwsSend (sws : Sws) (msg : Msg) (rand : Mask) : Except Fault Sws := do
  nnAssert (sws.state = .active)
  nnAssert (sws.outstate = .idle)
  let cmsg ← hdrsMsgType msg.hdrs
  -- outgoing messages are the final frame
  let b0 := cmsg.getD sws.msgType ||| 0x80
  let (b1, len) := lengthField (msg.sphdr.length + msg.body.length)
  match sws.mode with
  | .client =>
    -- mask payload, beginning with header and moving to body
    let (sphdr, pos) ← nnSwsMaskPayload msg.sphdr rand 0
    let (body, _) ← nnSwsMaskPayload msg.body rand pos
    let usock ← nnUsockSend sws.usock (b0 :: (b1 ||| 0x80) :: (len ++ rand.toList ++ sphdr ++ body))
    return { sws with usock, outstate := .sending, outmsg := { msg with sphdr, body } }
  | .server =>
    let usock ← nnUsockSend sws.usock (b0 :: b1 :: (len ++ msg.sphdr ++ msg.body))
    return { sws with usock, outstate := .sending, outmsg := msg }

/-- `nn_pipe_send`. -/
def Sws.pipeSend (sws : Sws) (msg : Msg) (rand : Mask) : Except Fault Sws := do
  nnAssert (sws.pipebase.outstate = .idle)
  let sws := { sws with pipebase := { sws.pipebase with outstate := .sending } }
  let sws ← nnSwsSend sws msg rand
  -- the socket reports the end of the send later
  nnAssert (sws.pipebase.outstate = .sending)
  return { sws with pipebase := { sws.pipebase with outstate := .async } }

/-- `nn_pipe_recv`. -/
def Sws.pipeRecv (env : Env) (sws : Sws) : Except Fault (Msg × Sws) := do
  nnAssert (sws.pipebase.instate = .idle)
  let sws := { sws with pipebase := { sws.pipebase with instate := .receiving } }
  let (msg, sws) ← nnSwsRecv env sws
  nnAssert (sws.pipebase.instate = .receiving)
  return (msg, { sws with pipebase := { sws.pipebase with instate := .async } })

/-! ### Runs -/

/-- A session, the bytes of the peer that wait to be received, the messages the socket has got, and
the first bytes of the frames so far. -/
structure World where
  sws : Sws
  stream : List UInt8
  delivered : List Msg
  headers : List UInt8
  deriving DecidableEq

/-- A session that starts with the handshake. -/
def World.init (mode : Mode) (msgType : UInt8) : World :=
  { sws := nnSwsStart mode msgType, stream := [], delivered := [], headers := [] }

/-- What can happen: the handshake ends, bytes arrive, the underlying socket has sent everything or
is found broken by a call, its events are processed, and the owner of the pipe receives and
sends. -/
inductive Action
  | handshakeOk
  | handshakeError
  | handshakeStopped (added : Bool)
  | arrive (bytes : List UInt8)
  | flush
  | reset
  | received (rand : Mask)
  | sent
  | shutdown
  | error
  | recv
  | send (msg : Msg) (rand : Mask)
  deriving DecidableEq

/-- The session gets the events of the underlying socket. -/
def SwsState.Connected : SwsState → Prop
  | .active | .closingConnection | .brokenConnection => True
  | _ => False

instance (s : SwsState) : Decidable s.Connected :=
  match s with
  | .active | .closingConnection | .brokenConnection => .isTrue trivial
  | .handshake | .stoppingHandshake | .done => .isFalse id

/-- The receive in progress can be completed. -/
def World.CanReceive (w : World) : Prop :=
  w.sws.state.Connected ∧ w.sws.usock.state = .active ∧
    ∃ r ∈ w.sws.usock.recv, r.2 ≤ w.stream.length

instance (w : World) : Decidable w.CanReceive := inferInstanceAs (Decidable (_ ∧ _ ∧ _))

/-- The underlying socket is in use, and no call has found it broken. -/
def World.Linked (w : World) : Prop :=
  w.sws.state.Connected ∧ w.sws.usock.state = .active ∧ w.sws.usock.eventError = false

instance (w : World) : Decidable w.Linked := inferInstanceAs (Decidable (_ ∧ _ ∧ _))

/-- No event of the underlying socket waits in the queue. -/
def Usock.Quiet (u : Usock) : Prop := u.send ≠ .written ∧ u.eventError = false

instance (u : Usock) : Decidable u.Quiet := inferInstanceAs (Decidable (_ ∧ _))

/-- When an action can happen.  An event that waits is processed in every state; `NN_USOCK_ERROR` is
raised by the worker, when nothing waits.  While the connection is closed there is no call but that
of the close frame.  The socket uses a pipe as long as it is in its hands, and as `nn_pipe_send` and
`nn_pipe_recv` ask for. -/
def World.Enabled (w : World) : Action → Prop
  | .handshakeOk | .handshakeError => w.sws.state = .handshake
  | .handshakeStopped _ => w.sws.state = .stoppingHandshake
  | .arrive _ => True
  | .flush => w.Linked ∧ w.sws.usock.send = .writing
  | .reset => w.Linked ∧ (w.sws.state = .closingConnection → w.sws.usock.send = .writing)
  | .received _ => w.CanReceive
  | .sent => w.sws.usock.send = .written
  | .shutdown => w.sws.usock.eventError = true ∧ w.sws.usock.send ≠ .written
  | .error => w.sws.state.Connected ∧ w.sws.usock.state ≠ .done ∧ w.sws.usock.Quiet
  | .recv => w.sws.pipebase.state = .active ∧ w.sws.pipebase.instate = .idle
  | .send _ _ => w.sws.pipebase.state = .active ∧ w.sws.pipebase.outstate = .idle

instance (w : World) (a : Action) : Decidable (w.Enabled a) :=
  match a with
  | .handshakeOk | .handshakeError | .handshakeStopped _ | .sent =>
    inferInstanceAs (Decidable (_ = _))
  | .arrive _ => .isTrue trivial
  | .received _ => inferInstanceAs (Decidable w.CanReceive)
  | .reset => inferInstanceAs (Decidable (_ ∧ (_ → _)))
  | .error => inferInstanceAs (Decidable (_ ∧ _ ∧ _))
  | .flush | .shutdown | .recv | .send _ _ => inferInstanceAs (Decidable (_ ∧ _))

/-- The underlying socket has filled the buffer of the receive in progress. -/
def World.received (env : Env) (rand : Mask) (w : World) : Except Fault World :=
  match w.sws.usock.recv with
  | none => .ok w
  | some (buf, len) => do
    let bytes := w.stream.take len
    let sws ← Sws.store { w.sws with usock := { w.sws.usock with recv := none } } buf bytes
    let headers := if w.sws.instate = .recvHdr then w.headers ++ bytes.take 1 else w.headers
    return { w with sws := ← nnSwsHandler env rand sws .received, stream := w.stream.drop len,
                    headers }

/-- The socket receives a message. -/
def World.recv (env : Env) (w : World) : Except Fault World := do
  let (msg, sws) ← w.sws.pipeRecv env
  return { w with sws, delivered := w.delivered ++ [msg] }

/-- One action. -/
def World.step (env : Env) (w : World) (a : Action) : Except Fault (World × Unit) := do
  let usock := w.sws.usock
  -- no mask is needed outside `received` and `send`
  let feed (sws : Sws) (ev : SwsEvent) : Except Fault World := do
    return { w with sws := ← nnSwsHandler env (Vector.replicate 4 0) sws ev }
  let w ← match a with
    | .handshakeOk => feed w.sws .handshakeOk
    | .handshakeError => feed w.sws .handshakeError
    | .handshakeStopped added => feed w.sws (.handshakeStopped added)
    | .arrive bytes => pure { w with stream := w.stream ++ bytes }
    | .flush => pure { w with sws := { w.sws with usock := { usock with send := .written } } }
    | .reset => pure { w with sws := { w.sws with usock := { usock with eventError := true } } }
    | .received rand => w.received env rand
    | .sent => feed { w.sws with usock := { usock with send := .idle } } .sent
    | .shutdown =>
      feed { w.sws with usock := { usock with state := .removingFd, eventError := false } }
        .shutdown
    | .error => feed { w.sws with usock := { usock with state := .done } } .error
    | .recv => w.recv env
    | .send msg rand => do pure { w with sws := ← w.sws.pipeSend msg rand }
  return (w, ())

end NanoSocket.Ws

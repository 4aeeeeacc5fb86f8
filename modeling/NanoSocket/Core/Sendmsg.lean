import NanoSocket.Core.ChunkMsg
import NanoSocket.Core.CmsgWalk
import NanoSocket.Core.Iovec

/-!
# Sending a message (`core/global.c`, `utils/msg.c`)

`nn_sendmsg` builds a message from the buffers or chunks of the user, and gives it to the socket.
When the socket does not take it, the message is destroyed, and what the user owns is given back.

The memory of the user has bytes and, for `NN_MSG`, pointers to chunks; the chunks are in a heap of
their own.  What other code does is a part of the call: `hold` and `send` are the errors of
`nn_global_hold_socket` and of `nn_sock_send`, which does not touch a message that it does not take.
-/

namespace NanoSocket.Core

open Slice

/-- `struct nn_msghdr`; `msgControl` is 0 for NULL. -/
structure NnMsghdr where
  msgIov : List NnIovec
  msgIovlen : ℤ
  msgControl : ℕ
  msgControllen : UInt64

/-- A call of `nn_sendmsg`: the memory of the user, what `nn_alloc` has for the parts of the
message, what is on the stack, and what the functions that it calls return. -/
structure SendCall where
  bytes : Memory UInt8
  pointer : ℕ → Option (Option ChunkPtr)
  fresh : MsgPart → Fresh
  avail : MsgPart → Bool
  stack : ChunkMsg
  hold : Option MsgErrno
  send : ChunkMsg → Option MsgErrno

/-- What `nn_alloc` returns for a part of the message. -/
def SendCall.alloc (call : SendCall) (part : MsgPart) : Option Fresh :=
  if call.avail part then some (call.fresh part) else none

/-- What `nn_sendmsg` returns: the size of a message that the socket took, or -1 and an error
code. -/
inductive SendResult
  | sent (rc : ℤ) (msg : ChunkMsg)
  | failed (errno : MsgErrno)

/-- A message that is built: its size, and whether its body is a chunk of the user. -/
structure Built where
  msg : ChunkMsg
  sz : ℕ
  nnmsg : Bool

/-- `nn_msg_init`. -/
def nnMsgInit (self : ChunkMsg) (heap : ChunkHeap) (size : ℕ) (mem : Option Fresh) :
    Except Fault (ChunkMsg × ChunkHeap) := do
  let (sphdr, heap) ← nnChunkrefInit self.sphdr heap 0 none
  let (hdrs, heap) ← nnChunkrefInit self.hdrs heap 0 none
  let (body, heap) ← nnChunkrefInit self.body heap size mem
  return (⟨sphdr, hdrs, body⟩, heap)

/-- `nn_msg_init_chunk`. -/
def nnMsgInitChunk (self : ChunkMsg) (heap : ChunkHeap) (chunk : ChunkPtr) :
    Except Fault (ChunkMsg × ChunkHeap) := do
  let (sphdr, heap) ← nnChunkrefInit self.sphdr heap 0 none
  let (hdrs, heap) ← nnChunkrefInit self.hdrs heap 0 none
  return (⟨sphdr, hdrs, nnChunkrefInitChunk self.body chunk⟩, heap)

/-- The entries of the array. -/
def NnMsghdr.iovs (msghdr : NnMsghdr) : Except Fault (List NnIovec) :=
  if msghdr.msgIovlen.toNat ≤ msghdr.msgIov.length then
    .ok (msghdr.msgIov.take msghdr.msgIovlen.toNat)
  else .error .outOfBounds

/-- `msg_iovlen == 1 && msg_iov [0].iov_len == NN_MSG`, and where the pointer to the chunk is
then. -/
def nnMsgBase : List NnIovec → Option ℕ
  | [iov] => if iov.iovLen = nnMsg then some iov.iovBase else none
  | _ => none

/-- The body of the message. -/
def sendBody (call : SendCall) (iovs : List NnIovec) (heap : ChunkHeap) :
    Except Fault (Except MsgErrno (Built × ChunkHeap)) :=
  match nnMsgBase iovs with
  | some base =>
    match call.pointer base with
    | none => .error .nullDeref
    | some none => .ok (.error .efault)
    | some (some chunk) => do
      let sz ← nnChunkSize heap chunk
      let (msg, heap) ← nnMsgInitChunk call.stack heap chunk
      return .ok (⟨msg, sz, true⟩, heap)
  | none =>
    match gatherSize iovs 0 with
    | .error e => .ok (.error e)
    | .ok sz => do
      let (msg, heap) ← nnMsgInit call.stack heap sz.toNat (call.alloc .body)
      let (body, heap) ← gatherCopy call.bytes iovs 0 msg.body heap
      return .ok (⟨{ msg with body := body }, sz.toNat, false⟩, heap)

/-- The control data become the headers of the message; they are returned. -/
def sendHdrs (call : SendCall) (msghdr : NnMsghdr) (msg : ChunkMsg) (heap : ChunkHeap) :
    Except Fault (List UInt8 × ChunkMsg × ChunkHeap) :=
  if msghdr.msgControllen = nnMsg then
    match call.pointer msghdr.msgControl with
    | none => .error .nullDeref
    | some none => .error .nullDeref
    | some (some chunk) => do
      let heap ← nnChunkrefTerm msg.hdrs heap
      let control ← chunkRead heap chunk (← nnChunkSize heap chunk)
      return (control, { msg with hdrs := nnChunkrefInitChunk msg.hdrs chunk }, heap)
  else do
    let heap ← nnChunkrefTerm msg.hdrs heap
    let (hdrs, heap) ← nnChunkrefInit msg.hdrs heap msghdr.msgControllen.toNat (call.alloc .hdrs)
    let control ← loadUser call.bytes msghdr.msgControl msghdr.msgControllen.toNat
    let (hdrs, heap) ← chunkrefWrite hdrs heap 0 control
    return (control, { msg with hdrs := hdrs }, heap)

/-- The SP_HDR property of the control data becomes the SP header of the message. -/
def sendSphdr (call : SendCall) (control : List UInt8) (msg : ChunkMsg) (heap : ChunkHeap) :
    Except Fault (ChunkMsg × ChunkHeap) := do
  let alloc := fun n => (nnChunkAlloc heap n 0 (call.alloc .sphdr)).isOk
  match ← searchSphdr alloc control (control.length + 1) with
  | none => return (msg, heap)
  | some header =>
    let heap ← nnChunkrefTerm msg.sphdr heap
    let (sphdr, heap) ← nnChunkrefInit msg.sphdr heap header.length (call.alloc .sphdr)
    let (sphdr, heap) ← chunkrefWrite sphdr heap 0 header
    return ({ msg with sphdr := sphdr }, heap)

/-- Add ancillary data to the message. -/
def sendControl (call : SendCall) (msghdr : NnMsghdr) (msg : ChunkMsg) (heap : ChunkHeap) :
    Except Fault (ChunkMsg × ChunkHeap) :=
  if msghdr.msgControl = 0 then .ok (msg, heap)
  else do
    let (control, msg, heap) ← sendHdrs call msghdr msg heap
    sendSphdr call control msg heap

/-- The message that `nn_sendmsg` builds. -/
def buildMsg (call : SendCall) (msghdr : Option NnMsghdr) (heap : ChunkHeap) :
    Except Fault (Except MsgErrno (Built × ChunkHeap)) :=
  match call.hold with
  | some e => .ok (.error e)
  | none =>
    match msghdr with
    | none => .ok (.error .einval)
    | some msghdr =>
      if msghdr.msgIovlen < 0 then .ok (.error .emsgsize)
      else do
        match ← sendBody call (← msghdr.iovs) heap with
        | .error e => return .error e
        | .ok (built, heap) =>
          let (msg, heap) ← sendControl call msghdr built.msg heap
          return .ok ({ built with msg := msg }, heap)

/-- What happens to a message that the socket does not take. -/
def discardMsg (built : Built) (heap : ChunkHeap) : Except Fault ChunkHeap := do
  -- a buffer of the user is detached from the message object
  let (body, heap) ← if built.nnmsg then nnChunkrefInit built.msg.body heap 0 none
    else .ok (built.msg.body, heap)
  nnMsgTerm { built.msg with body := body } heap

/-- `nn_sendmsg`. -/
def nnSendmsg (call : SendCall) (msghdr : Option NnMsghdr) (heap : ChunkHeap) :
    Except Fault (SendResult × ChunkHeap) := do
  match ← buildMsg call msghdr heap with
  | .error e => return (.failed e, heap)
  | .ok (built, heap) =>
    match call.send built.msg with
    | none => return (.sent (toInt built.sz) built.msg, heap)
    | some e => return (.failed e, ← discardMsg built heap)

/-! ### References of the call -/

/-- The reference has its data in itself, and there is nothing at the address; or it is the only
reference to a chunk there. -/
def Owns (x : Chunkref) (heap : ChunkHeap) (addr : ℕ) : Prop :=
  if x.tag = 0xff then x.chunk.addr = addr ∧ ∃ c bytes, heap addr = some c ∧ c.refcount = 1 ∧
    c.Holds x.chunk.pos bytes ∧ c.area.length ≤ x.chunk.pos + bytes.length
  else heap addr = none

section Owns

variable {x x' : Chunkref} {heap heap' : ChunkHeap} {addr i size : ℕ} {bytes : List UInt8}

theorem owns_heap (htag : x.tag = 0xff) :
    Owns x heap addr ↔ x.chunk.addr = addr ∧ ∃ c bytes, heap addr = some c ∧ c.refcount = 1 ∧
      c.Holds x.chunk.pos bytes ∧ c.area.length ≤ x.chunk.pos + bytes.length := by
  rw [Owns, if_pos htag]

theorem owns_inline (htag : x.tag ≠ 0xff) : Owns x heap addr ↔ heap addr = none := by
  rw [Owns, if_neg htag]

theorem Owns.congr (h : Owns x heap addr) (hheap : heap' addr = heap addr) : Owns x heap' addr := by
  unfold Owns at *
  rwa [hheap]

/-- Nothing is left of a reference that is terminated. -/
theorem Owns.term (h : Owns x heap addr) :
    nnChunkrefTerm x heap = .ok (Function.update heap addr none) := by
  by_cases htag : x.tag = 0xff
  · obtain ⟨rfl, c, bytes, hc, hrefs, hholds, -⟩ := (owns_heap htag).1 h
    rw [nnChunkrefTerm, if_pos htag]
    exact hholds.free_last hc hrefs
  · rw [owns_inline htag] at h
    rw [nnChunkrefTerm, if_neg htag, ← h, Function.update_eq_self]

/-- A new reference owns what it allocates. -/
theorem owns_init {mem : Option Fresh} (hmem : ∀ f ∈ mem, f.addr = addr) (hfree : heap addr = none)
    (heq : nnChunkrefInit x heap size mem = .ok (x', heap')) :
    Owns x' heap' addr ∧ ∀ a ≠ addr, heap' a = heap a := by
  rw [nnChunkrefInit] at heq
  by_cases hsize : size < nnChunkrefMax
  · rw [if_pos hsize] at heq
    cases heq
    exact ⟨(owns_inline (nnChunkrefInit_inline x heap hsize none).2.1).2 hfree, fun _ _ => rfl⟩
  · rw [if_neg hsize] at heq
    cases halloc : nnChunkAlloc heap size 0 mem with
    | error e =>
      rw [halloc] at heq
      cases heq
    | ok r =>
      obtain ⟨chunk, heap''⟩ := r
      rw [halloc] at heq
      cases heq
      obtain ⟨f, c, rfl, rfl, rfl, hholds, hrefs, harea⟩ := nnChunkAlloc_inv halloc
      obtain rfl := hmem f rfl
      refine ⟨(owns_heap rfl).2 ⟨rfl, c, _, Function.update_self .., hrefs, hholds, ?_⟩,
        fun a ha => ?_⟩
      · rw [harea, List.length_map, List.length_range]
      · exact Function.update_of_ne ha ..

/-- Writing to what is owned. -/
theorem Owns.write (h : Owns x heap addr) (heq : chunkrefWrite x heap i bytes = .ok (x', heap')) :
    Owns x' heap' addr ∧ ∀ a ≠ addr, heap' a = heap a := by
  by_cases htag : x.tag = 0xff
  · obtain ⟨rfl, c, old, hc, hrefs, hholds, harea⟩ := (owns_heap htag).1 h
    rw [chunkrefWrite, if_pos htag] at heq
    obtain ⟨heap'', hwrite, heq⟩ := bind_eq_ok.1 heq
    cases heq
    have hin : i + bytes.length ≤ old.length := by
      rw [chunkWrite, hc] at hwrite
      obtain ⟨area, harea', -⟩ := bind_eq_ok.1 hwrite
      rw [writeArea] at harea'
      split_ifs at harea' with hle
      omega
    obtain ⟨c', hwrite', hholds', hrefs', harea'⟩ := hholds.write hc hin
    cases hwrite.symm.trans hwrite'
    refine ⟨(owns_heap htag).2 ⟨rfl, c', _, Function.update_self .., hrefs'.trans hrefs, hholds',
      ?_⟩, fun a ha => ?_⟩
    · rw [length_splice hin, harea']
      exact harea
    · exact Function.update_of_ne ha ..
  · rw [chunkrefWrite, if_neg htag] at heq
    obtain ⟨ref, -, heq⟩ := bind_eq_ok.1 heq
    cases heq
    exact ⟨(owns_inline htag).2 ((owns_inline htag).1 h), fun _ _ => rfl⟩

theorem Owns.gatherCopy {mem : Memory UInt8} {iovs : List NnIovec} {sz : ℕ} (h : Owns x heap addr)
    (heq : Core.gatherCopy mem iovs sz x heap = .ok (x', heap')) :
    Owns x' heap' addr ∧ ∀ a ≠ addr, heap' a = heap a := by
  induction iovs generalizing sz x heap with
  | nil =>
    cases heq
    exact ⟨h, fun _ _ => rfl⟩
  | cons iov rest ih =>
    rw [Core.gatherCopy] at heq
    obtain ⟨data, -, heq⟩ := bind_eq_ok.1 heq
    obtain ⟨⟨x₁, heap₁⟩, hwrite, heq⟩ := bind_eq_ok.1 heq
    obtain ⟨h₁, hframe₁⟩ := h.write hwrite
    obtain ⟨h₂, hframe₂⟩ := ih h₁ heq
    exact ⟨h₂, fun a ha => (hframe₂ a ha).trans (hframe₁ a ha)⟩

/-- A chunk that is freed has a reference less, or is gone. -/
theorem nnChunkFree_ne {p : ChunkPtr} (heq : nnChunkFree heap p = .ok heap') :
    heap' p.addr ≠ heap p.addr ∧ ∀ a ≠ p.addr, heap' a = heap a := by
  rw [nnChunkFree] at heq
  obtain ⟨c, hget, heq⟩ := bind_eq_ok.1 heq
  have hc := (nnChunkGetptr_iff.1 hget).1
  split_ifs at heq with hrefs
  · obtain ⟨_, -, heq⟩ := bind_eq_ok.1 heq
    cases heq
    refine ⟨?_, fun a ha => Function.update_of_ne ha ..⟩
    rw [Function.update_self, hc]
    rintro ⟨⟩
  · cases heq
    refine ⟨?_, fun a ha => Function.update_of_ne ha ..⟩
    rw [Function.update_self, hc]
    intro hsame
    have := congrArg NnChunk.refcount (Option.some_inj.1 hsame)
    simp only at this
    omega

end Owns

end NanoSocket.Core

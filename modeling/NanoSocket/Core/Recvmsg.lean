import NanoSocket.Core.GatherScatter

/-!
# The SP header in the control data (`core/global.c`)

`nn_recvmsg` fills a chunk or a buffer of the user with the SP header of a message and with its
other headers, as far as there is space for them.  Given to `nn_sendmsg` as they are, the control
data make the same SP header (`sphdr_round_trip`): a device forwards messages like this.
-/

namespace NanoSocket.Core

open Slice

/-- The memory for the control data: the buffer of the user, or a new chunk of `ctrlsz` bytes;
`fresh` is what `nn_alloc` returns. -/
def controlArea (ctrlsz : ℕ) (msgControllen : UInt64) (user : List UInt8)
    (fresh : Option (ℕ → UInt8)) :
    Except Fault (List UInt8) :=
  if msgControllen = nnMsg then
    match fresh with
    | none => .error .assertFailed
    | some fresh => .ok ((List.range ctrlsz).map fresh)
  else .ok user

/-- The SP_HDR property is filled in, and as many remaining properties as possible.  If the SP
header alone does not fit, nothing is. -/
def fillControl (sphdr hdrs ctrl : List UInt8) : Except Fault (List UInt8) :=
  let spsz := sphdr.length
  let sptotalsz := nnCmsgSpace (spsz + 8)
  let ctrlsz := ctrl.length
  if ctrlsz ≥ sptotalsz then do
    let ctrl ← writeArea ctrl 0 (putLe 8 sptotalsz)
    let ctrl ← writeArea ctrl 8 (putLe 4 1)
    let ctrl ← writeArea ctrl 12 (putLe 4 1)
    let ctrl ← writeArea ctrl 16 (putLe 8 spsz)
    let ctrl ← writeArea ctrl 24 sphdr
    -- truncate the trailing properties if necessary
    let hdrssz := if hdrs.length > ctrlsz - sptotalsz then ctrlsz - sptotalsz else hdrs.length
    writeArea ctrl sptotalsz (hdrs.take hdrssz)
  else .ok ctrl

/-- The control data that `nn_recvmsg` returns. -/
def recvControl (sphdr hdrs : List UInt8) (msgControllen : UInt64) (user : List UInt8)
    (fresh : Option (ℕ → UInt8)) :
    Except Fault (List UInt8) := do
  let ctrl ← controlArea (nnCmsgSpace (sphdr.length + 8) + hdrs.length) msgControllen user fresh
  fillControl sphdr hdrs ctrl

/-- The control data of a call of `nn_sendmsg`: a chunk or a buffer of the user holds them. -/
def ControlData (call : SendCall) (msghdr : NnMsghdr) (heap : ChunkHeap) (control : List UInt8) :
    Prop :=
  if msghdr.msgControllen = nnMsg then
    ∃ chunk c, call.pointer msghdr.msgControl = some (some chunk) ∧ heap chunk.addr = some c ∧
      c.Holds chunk.pos control
  else call.bytes.load msghdr.msgControl msghdr.msgControllen.toNat = some control

/-- A call of `nn_sendmsg` with these control data: its body is accepted, and there is memory for
the message. -/
structure SendsControl (call : SendCall) (msghdr : NnMsghdr) (heap : ChunkHeap) (len : UInt64)
    (control : List UInt8) :
    Prop where
  sound : call.Sound heap
  held : call.hold = none
  count : 0 ≤ msghdr.msgIovlen
  body : ∃ iovs built heap', msghdr.iovs = .ok iovs ∧
    sendBody call iovs heap = .ok (.ok (built, heap'))
  given : msghdr.msgControl ≠ 0
  controllen : msghdr.msgControllen = len
  data : ControlData call msghdr heap control
  memory : ∀ part, call.avail part
  stack : ∀ part, (call.stack.part part).ref.length = 31

/-! ### What is filled in -/

section

variable {sphdr hdrs user area bytes done : List UInt8} {len : UInt64} {fresh : Option (ℕ → UInt8)}

/-- A write behind what was written. -/
theorem writeArea_append {i : ℕ} (hi : done.length = i) (hle : bytes.length ≤ area.length) :
    writeArea (done ++ area) i bytes = .ok ((done ++ bytes) ++ area.drop bytes.length) := by
  rw [writeArea_of_le (by rw [List.length_append]; omega), splice_append hi.le, hi, Nat.sub_self,
    splice, List.take_zero, List.nil_append, Nat.zero_add, List.append_assoc]

/-- The property is written in front; what is behind it keeps its length. -/
theorem fill_sphdr (hle : 24 + sphdr.length ≤ area.length) {α : Type}
    (k : List UInt8 → Except Fault α) :
    (do
      let ctrl ← writeArea area 0 (putLe 8 (nnCmsgSpace (sphdr.length + 8)))
      let ctrl ← writeArea ctrl 8 (putLe 4 1)
      let ctrl ← writeArea ctrl 12 (putLe 4 1)
      let ctrl ← writeArea ctrl 16 (putLe 8 sphdr.length)
      let ctrl ← writeArea ctrl 24 sphdr
      k ctrl) = k (sphdrCmsg sphdr ++ area.drop (24 + sphdr.length)) := by
  have hfirst : writeArea ([] ++ area) 0 (putLe 8 (nnCmsgSpace (sphdr.length + 8))) = _ :=
    writeArea_append rfl (by rw [length_putLe]; omega)
  rw [List.nil_append] at hfirst
  rw [hfirst, ok_bind, writeArea_append (by simp) (by simp; omega), ok_bind,
    writeArea_append (by simp) (by simp; omega), ok_bind, writeArea_append (by simp)
      (by simp; omega), ok_bind,
    writeArea_append (by simp) (by simp; omega), ok_bind]
  simp only [List.drop_drop, length_putLe, sphdrCmsg, List.nil_append]

/-- The control data begin with the SP_HDR property, if there is space for it. -/
theorem recvControl_eq (hdrs : List UInt8) (hlen : sphdr.length < 2 ^ 63)
    (hfresh : len = nnMsg → fresh.isSome)
    (huser : len ≠ nnMsg → nnCmsgSpace (sphdr.length + 8) ≤ user.length) :
    ∃ rest, recvControl sphdr hdrs len user fresh = .ok (sphdrCmsg sphdr ++ rest) ∧
      nnCmsgSpace (sphdr.length + 8) ≤ (sphdrCmsg sphdr ++ rest).length ∧
      (sphdrCmsg sphdr ++ rest).length =
        if len = nnMsg then nnCmsgSpace (sphdr.length + 8) + hdrs.length else user.length := by
  have hspace := nnCmsgSpace_eq hlen
  -- the memory that is filled
  obtain ⟨ctrl, hctrl, hsize, hroom⟩ : ∃ ctrl,
      controlArea (nnCmsgSpace (sphdr.length + 8) + hdrs.length) len user fresh = .ok ctrl ∧
      ctrl.length = (if len = nnMsg then nnCmsgSpace (sphdr.length + 8) + hdrs.length
        else user.length) ∧
      nnCmsgSpace (sphdr.length + 8) ≤ ctrl.length := by
    unfold controlArea
    by_cases hmsg : len = nnMsg
    · obtain ⟨f, rfl⟩ := Option.isSome_iff_exists.1 (hfresh hmsg)
      rw [if_pos hmsg, if_pos hmsg]
      refine ⟨_, rfl, ?_, ?_⟩
      all_goals rw [List.length_map, List.length_range]
      omega
    · rw [if_neg hmsg, if_neg hmsg]
      exact ⟨user, rfl, rfl, huser hmsg⟩
  rw [recvControl, hctrl, ok_bind, fillControl]
  simp only [if_pos hroom]
  rw [fill_sphdr (by omega), ← hsize]
  -- the headers are written behind the property
  generalize hn : (if hdrs.length > ctrl.length - nnCmsgSpace (sphdr.length + 8) then
    ctrl.length - nnCmsgSpace (sphdr.length + 8) else hdrs.length) = n
  have hle : n ≤ ctrl.length - nnCmsgSpace (sphdr.length + 8) := by
    rw [← hn]
    split_ifs
    · exact le_rfl
    · omega
  have htake : (hdrs.take n).length ≤ n := List.length_take_le ..
  have hin : nnCmsgSpace (sphdr.length + 8) + (hdrs.take n).length ≤
      (sphdrCmsg sphdr ++ ctrl.drop (24 + sphdr.length)).length := by
    rw [List.length_append, length_sphdrCmsg, List.length_drop]
    omega
  have hbehind : (sphdrCmsg sphdr).length ≤ nnCmsgSpace (sphdr.length + 8) := by
    rw [length_sphdrCmsg]
    omega
  have hfront := @splice_append _ _ (hdrs.take n) (ctrl.drop (24 + sphdr.length)) _ hbehind
  rw [writeArea_of_le hin, hfront]
  have hlength :
      (splice (sphdrCmsg sphdr ++ ctrl.drop (24 + sphdr.length)) (nnCmsgSpace (sphdr.length + 8))
        (hdrs.take n)).length = ctrl.length := by
    rw [length_splice hin, List.length_append, length_sphdrCmsg, List.length_drop]
    omega
  rw [hfront] at hlength
  exact ⟨_, rfl, hroom.trans_eq hlength.symm, hlength⟩

end

/-! ### What is sent -/

section

variable {call : SendCall} {msghdr : NnMsghdr} {msg : ChunkMsg} {heap : ChunkHeap}
  {sphdr control rest bytes : List UInt8}
  {part : MsgPart} {x : Chunkref} {found : Option (List UInt8)}

/-- The assertion that there is memory for the header is all that `alloc` is for. -/
theorem sphdrAt_alloc {alloc : ℕ → Bool} {cmsg : Option ℕ}
    (h : sphdrAt (fun _ => true) control cmsg = .ok found)
    (halloc : ∀ header ∈ found, alloc header.length) : sphdrAt alloc control cmsg = .ok found := by
  cases cmsg with
  | none => exact h
  | some off =>
    rw [sphdrAt] at h ⊢
    obtain ⟨len, hlen, h⟩ := bind_eq_ok.1 h
    rw [hlen, ok_bind]
    simp only at h ⊢
    split_ifs at h ⊢
    · obtain ⟨spsz, hspsz, h⟩ := bind_eq_ok.1 h
      rw [hspsz, ok_bind]
      split_ifs at h ⊢
      · obtain ⟨-, -, h⟩ := bind_eq_ok.1 h
        obtain ⟨header, hheader, h⟩ := bind_eq_ok.1 h
        cases h
        have hlength : header.length = spsz := by
          rw [readBytes] at hheader
          split_ifs at hheader
          cases hheader
          rw [List.length_take, List.length_drop]
          omega
        have hmem := halloc header rfl
        rw [hlength] at hmem
        rw [nnAssert_of (Or.inr hmem), ok_bind, hheader]
        rfl
      · exact h
    · exact h

/-- The search finds the property in front. -/
theorem searchSphdr_sphdrCmsg (alloc : ℕ → Bool) (hlen : sphdr.length < 2 ^ 63)
    (hcontrol : control = sphdrCmsg sphdr ++ rest)
    (hsz : nnCmsgSpace (sphdr.length + 8) ≤ control.length) (halloc : alloc sphdr.length) :
    ∃ found, searchSphdr alloc control (control.length + 1) = .ok found ∧
      found.getD [] = sphdr := by
  have hsend := nnSendmsg_sphdrCmsg [] hlen hcontrol hsz
  rw [NanoSocket.nnSendmsg] at hsend
  obtain ⟨first, hfirst, hsend⟩ := bind_eq_ok.1 hsend
  obtain ⟨found, hfound, hsend⟩ := bind_eq_ok.1 hsend
  have hsphdr : found.getD [] = sphdr := congrArg Msg.sphdr (Except.ok.inj hsend)
  rw [findSphdr_eq] at hfound
  obtain ⟨r, hsearch, hat⟩ := bind_eq_ok.1 hfound
  refine ⟨found, ?_, hsphdr⟩
  rw [searchSphdr, hfirst, ok_bind, hsearch, ok_bind]
  refine sphdrAt_alloc hat fun header hheader => ?_
  rw [Option.mem_def.1 hheader, Option.getD_some] at hsphdr
  rwa [hsphdr]

/-- An empty reference is initialised and filled. -/
theorem exists_refill (heap : ChunkHeap) (htag : x.tag ≠ 0xff) (hlen : x.ref.length = 31)
    (hsize : nnChunkHdrsize + bytes.length < 2 ^ 64)
    (havail : call.avail part) :
    nnChunkrefTerm x heap = .ok heap ∧ ∃ x₁ heap₁ x₂ heap₂,
      nnChunkrefInit x heap bytes.length (call.alloc part) = .ok (x₁, heap₁) ∧
      chunkrefWrite x₁ heap₁ 0 bytes = .ok (x₂, heap₂) ∧ x₂.Holds heap₂ bytes := by
  obtain ⟨⟨x₁, heap₁⟩, hinit⟩ := exists_nnChunkrefInit x heap hsize havail
  obtain ⟨hlen₁, old, hold, hholds⟩ := nnChunkrefInit_holds hlen hinit
  obtain ⟨x₂, heap₂, hwrite, hholds₂, -⟩ :=
    hholds.write hlen₁ (show 0 + bytes.length ≤ old.length by omega)
  have hall : splice old 0 bytes = bytes := by
    rw [splice, List.take_zero, List.nil_append, List.drop_of_length_le (by omega), List.append_nil]
  rw [hall] at hholds₂
  exact ⟨if_neg htag, x₁, heap₁, x₂, heap₂, hinit, hwrite, hholds₂⟩

/-- The control data are the headers of the message. -/
theorem exists_sendHdrs (hdata : ControlData call msghdr heap control) (htag : msg.hdrs.tag ≠ 0xff)
    (hlen : msg.hdrs.ref.length = 31)
    (hsize : msghdr.msgControllen ≠ nnMsg → nnChunkHdrsize + control.length < 2 ^ 64)
    (havail : call.avail .hdrs) :
    ∃ msg' heap', sendHdrs call msghdr msg heap = .ok (control, msg', heap') ∧
      msg'.sphdr = msg.sphdr := by
  rw [ControlData] at hdata
  rw [sendHdrs]
  by_cases hmsg : msghdr.msgControllen = nnMsg
  · rw [if_pos hmsg] at hdata ⊢
    obtain ⟨chunk, c, hpointer, hc, hholds⟩ := hdata
    have hterm : nnChunkrefTerm msg.hdrs heap = .ok heap := if_neg htag
    rw [hpointer]
    simp only
    rw [hterm, ok_bind, hholds.size_eq hc, ok_bind, hholds.read hc, ok_bind]
    exact ⟨_, heap, rfl, rfl⟩
  · rw [if_neg hmsg] at hdata ⊢
    have hlength := Memory.length_load hdata
    have hload : loadUser call.bytes msghdr.msgControl msghdr.msgControllen.toNat =
        .ok control := by
      rw [loadUser, hdata]
    obtain ⟨hterm, x₁, heap₁, x₂, heap₂, hinit, hwrite, -⟩ :=
      exists_refill heap htag hlen (hsize hmsg) havail
    rw [hlength] at hinit
    rw [hterm, ok_bind, hinit, ok_bind]
    simp only
    rw [hload, ok_bind, hwrite, ok_bind]
    exact ⟨_, heap₂, rfl, rfl⟩

/-- The header in the property is the SP header of the message. -/
theorem exists_sendSphdr (heap : ChunkHeap) (hlen : sphdr.length < 2 ^ 63)
    (hcontrol : control = sphdrCmsg sphdr ++ rest)
    (hsz : nnCmsgSpace (sphdr.length + 8) ≤ control.length) (htag : msg.sphdr.tag = 0)
    (href : msg.sphdr.ref.length = 31) (havail : call.avail .sphdr) :
    ∃ msg' heap', sendSphdr call control msg heap = .ok (msg', heap') ∧
      msg'.sphdr.Holds heap' sphdr := by
  have hsize : nnChunkHdrsize + sphdr.length < 2 ^ 64 := by
    unfold nnChunkHdrsize
    omega
  have hne : msg.sphdr.tag ≠ 0xff := by
    rw [htag]
    decide
  have halloc : (nnChunkAlloc heap sphdr.length 0 (call.alloc .sphdr)).isOk := by
    obtain ⟨c, heq, -⟩ := nnChunkAlloc_ok heap hsize (call.fresh .sphdr)
    rw [SendCall.alloc, if_pos havail, heq]
    rfl
  obtain ⟨found, hfound, hget⟩ := searchSphdr_sphdrCmsg
    (fun n => (nnChunkAlloc heap n 0 (call.alloc .sphdr)).isOk) hlen hcontrol hsz halloc
  rw [sendSphdr]
  simp only
  rw [hfound, ok_bind]
  cases found with
  | none =>
    refine ⟨msg, heap, rfl, (Chunkref.Holds.of_inline hne).2 ⟨?_, ?_⟩⟩
    · rw [htag]
      decide
    · rw [← hget, htag]
      rfl
  | some header =>
    obtain rfl : header = sphdr := hget
    obtain ⟨hterm, x₁, heap₁, x₂, heap₂, hinit, hwrite, hholds⟩ :=
      exists_refill heap hne href hsize havail
    simp only
    rw [hterm, ok_bind, hinit, ok_bind]
    simp only
    rw [hwrite, ok_bind]
    exact ⟨_, heap₂, rfl, hholds⟩

/-- A new message has no headers. -/
theorem sendBody_headers {iovs : List NnIovec} {built : Built} {heap' : ChunkHeap}
    (heq : sendBody call iovs heap = .ok (.ok (built, heap'))) :
    built.msg.sphdr = { call.stack.sphdr with tag := 0 } ∧
      built.msg.hdrs = { call.stack.hdrs with tag := 0 } := by
  rw [sendBody] at heq
  split at heq
  · split at heq
    · cases heq
    · cases heq
    · obtain ⟨sz, -, heq⟩ := bind_eq_ok.1 heq
      cases heq
      exact ⟨rfl, rfl⟩
  · split at heq
    · cases heq
    · obtain ⟨⟨msg, heap₁⟩, hinit, heq⟩ := bind_eq_ok.1 heq
      obtain ⟨⟨body, heap₂⟩, -, heq⟩ := bind_eq_ok.1 heq
      cases heq
      rw [nnMsgInit_eq] at hinit
      obtain ⟨⟨x, heap₃⟩, -, hinit⟩ := bind_eq_ok.1 hinit
      cases hinit
      exact ⟨rfl, rfl⟩

/-- The control data are where they were when the body is there. -/
theorem ControlData.sendBody {iovs : List NnIovec} {built : Built} {heap' : ChunkHeap}
    (hsound : call.Sound heap) (heq : Core.sendBody call iovs heap = .ok (.ok (built, heap')))
    (h : ControlData call msghdr heap control) :
    ControlData call msghdr heap' control := by
  unfold ControlData at *
  split_ifs at *
  · obtain ⟨chunk, c, hpointer, hc, hholds⟩ := h
    refine ⟨chunk, c, hpointer, ?_, hholds⟩
    rw [(keeps_sendBody hsound heq).frame chunk.addr fun part hpart => ?_, hc]
    exact hsound.live _ _ hpointer (hpart ▸ hsound.free part)
  · exact h

end

/-- The control data that `nn_recvmsg` makes of a message give a message with the same SP header
when they are sent. -/
theorem sphdr_round_trip {sphdr hdrs user : List UInt8} {len : UInt64} {fresh : Option (ℕ → UInt8)}
    (hsize : sphdr.length + hdrs.length < 2 ^ 63) (hfresh : len = nnMsg → fresh.isSome)
    (huser : len ≠ nnMsg → user.length = len.toNat ∧ user.length < 2 ^ 63 ∧
      nnCmsgSpace (sphdr.length + 8) ≤ user.length) :
    ∃ control, recvControl sphdr hdrs len user fresh = .ok control ∧
      ∀ call msghdr heap, SendsControl call msghdr heap len control →
        ∃ built heap', buildMsg call (some msghdr) heap = .ok (.ok (built, heap')) ∧
          built.msg.sphdr.Holds heap' sphdr := by
  have hlen : sphdr.length < 2 ^ 63 := by omega
  obtain ⟨rest, hrecv, hroom, hlength⟩ := recvControl_eq hdrs hlen hfresh fun hne => (huser hne).2.2
  refine ⟨_, hrecv, fun call msghdr heap h => ?_⟩
  obtain ⟨iovs, built, heap₁, hiovs, hbody⟩ := h.body
  obtain ⟨hsphdr, hhdrs⟩ := sendBody_headers hbody
  have hdata := h.data.sendBody h.sound hbody
  have hempty : built.msg.hdrs.tag ≠ 0xff := by
    have htag : built.msg.hdrs.tag = 0 := by rw [hhdrs]
    rw [htag]
    decide
  have href : built.msg.hdrs.ref.length = 31 := by
    rw [hhdrs]
    exact h.stack .hdrs
  have hcopy : msghdr.msgControllen ≠ nnMsg →
      nnChunkHdrsize + (sphdrCmsg sphdr ++ rest).length < 2 ^ 64 := by
    intro hne
    rw [h.controllen] at hne
    have hshort := (huser hne).2.1
    rw [hlength, if_neg hne, nnChunkHdrsize]
    omega
  obtain ⟨msg₁, heap₂, hset, hsame⟩ := exists_sendHdrs hdata hempty href hcopy (h.memory .hdrs)
  have htag' : msg₁.sphdr.tag = 0 := by rw [hsame, hsphdr]
  have href' : msg₁.sphdr.ref.length = 31 := by
    rw [hsame, hsphdr]
    exact h.stack .sphdr
  obtain ⟨msg₂, heap₃, hfound, hholds⟩ :=
    exists_sendSphdr heap₂ hlen rfl hroom htag' href' (h.memory .sphdr)
  refine ⟨{ built with msg := msg₂ }, heap₃, ?_, hholds⟩
  rw [buildMsg, h.held]
  simp only [if_neg (not_lt.2 h.count), hiovs, ok_bind, hbody]
  rw [sendControl, if_neg h.given, hset, ok_bind]
  simp only
  rw [hfound]
  rfl

/-- What `nn_recvmsg` makes of a SP header of four bytes in so much memory. -/
def forwardControl (size : ℕ) : List UInt8 := sphdrCmsg [1, 2, 3, 4] ++ List.replicate (size - 28) 0

/-- A call of `nn_sendmsg` with a buffer of 48 bytes at the address 400. -/
def forwardCall : SendCall :=
  { busyCall with
    bytes := fun a => if 400 ≤ a then (forwardControl 48)[a - 400]? else none
    send := fun _ => none }

/-- A heap with a chunk of 32 bytes with control data. -/
def forwardHeap : ChunkHeap :=
  Function.update busyHeap 2 (some ⟨1, 32, nnPutl 0 ++ nnPutl nnChunkTag ++ forwardControl 32⟩)

/-- A buffer of the user, and a chunk. -/
theorem sphdr_round_trip_forward :
    (recvControl [1, 2, 3, 4] [] 48 (List.replicate 48 0) none = .ok (forwardControl 48) ∧
      ∃ built heap', buildMsg forwardCall (some ⟨[⟨100, nnMsg⟩], 1, 400, 48⟩) busyHeap =
        .ok (.ok (built, heap')) ∧ built.msg.sphdr.Holds heap' [1, 2, 3, 4]) ∧
      recvControl [1, 2, 3, 4] [] nnMsg [] (some fun _ => 0) = .ok (forwardControl 32) ∧
      ∃ built heap', buildMsg forwardCall (some ⟨[⟨100, nnMsg⟩], 1, 108, nnMsg⟩) forwardHeap =
          .ok (.ok (built, heap')) ∧
        built.msg.sphdr.Holds heap' [1, 2, 3, 4] := by
  have hbuffer : recvControl [1, 2, 3, 4] [] 48 (List.replicate 48 0) none =
      .ok (forwardControl 48) := rfl
  have hchunk : recvControl [1, 2, 3, 4] [] nnMsg [] (some fun _ => 0) = .ok (forwardControl 32) :=
    rfl
  refine ⟨⟨hbuffer, ?_⟩, hchunk, ?_⟩
  · obtain ⟨control, hrecv, hsend⟩ :=
      @sphdr_round_trip [1, 2, 3, 4] [] (List.replicate 48 0) 48 none (by decide)
      (fun h => absurd h (by decide)) fun _ => by decide
    obtain rfl : control = forwardControl 48 := Except.ok.inj (hrecv.symm.trans hbuffer)
    refine hsend forwardCall ⟨[⟨100, nnMsg⟩], 1, 400, 48⟩ busyHeap ?_
    refine ⟨⟨busyCall_sound.free, busyCall_sound.distinct, busyCall_sound.live⟩, rfl, by decide,
      ⟨_, _, _, rfl, rfl⟩, by decide, rfl, ?_, fun _ => rfl, fun part => ?_⟩
    · rw [ControlData, if_neg (by decide)]
      rfl
    · cases part <;> rfl
  · obtain ⟨control, hrecv, hsend⟩ :=
      @sphdr_round_trip [1, 2, 3, 4] [] [] nnMsg (some fun _ => 0) (by decide)
      (fun _ => rfl) fun h => absurd rfl h
    obtain rfl : control = forwardControl 32 := Except.ok.inj (hrecv.symm.trans hchunk)
    refine hsend forwardCall ⟨[⟨100, nnMsg⟩], 1, 108, nnMsg⟩ forwardHeap ?_
    have hlive : ∀ addr, busyHeap addr ≠ none → forwardHeap addr ≠ none := by
      intro addr hne
      by_cases hctl : addr = 2
      · rw [forwardHeap, hctl, Function.update_self]
        exact Option.some_ne_none _
      · rwa [forwardHeap, Function.update_of_ne hctl]
    refine ⟨⟨fun part => ?_, busyCall_sound.distinct,
      fun base chunk h => hlive _ (busyCall_sound.live base chunk h)⟩, rfl, by decide,
      ⟨_, _, _, rfl, rfl⟩, by decide, rfl, ?_, fun _ => rfl, fun part => ?_⟩
    · cases part <;> rfl
    · rw [ControlData, if_pos rfl]
      exact ⟨⟨2, 8⟩, _, rfl, Function.update_self ..,
        ⟨by decide, by decide, by decide, rfl, rfl, by decide, rfl⟩⟩
    · cases part <;> rfl

/-! ### Messages that are handed over whole

A device uses `NN_MSG` for the body and for the control data.  `nnRecvmsgControl` and
`NanoSocket.nnSendmsg` are these calls on the contents of the chunks alone. -/

section

variable {call : SendCall} {heap heap' : ChunkHeap} {built : Built}
  {sphdr hdrs front pad tail body control : List UInt8}

/-- The property, what the memory held behind it, and the headers. -/
theorem fillControl_eq (hlen : sphdr.length < 2 ^ 63) (hfront : front.length = 24 + sphdr.length)
    (hpad : front.length + pad.length = nnCmsgSpace (sphdr.length + 8))
    (htail : tail.length = hdrs.length) :
    fillControl sphdr hdrs (front ++ (pad ++ tail)) = .ok (sphdrCmsg sphdr ++ (pad ++ hdrs)) := by
  have hspace := nnCmsgSpace_eq hlen
  have htotal : (front ++ (pad ++ tail)).length = nnCmsgSpace (sphdr.length + 8) + hdrs.length := by
    simp only [List.length_append]
    omega
  have hroom :
      ¬ hdrs.length > (front ++ (pad ++ tail)).length - nnCmsgSpace (sphdr.length + 8) := by omega
  have hdrop : (front ++ (pad ++ tail)).drop (24 + sphdr.length) = pad ++ tail := by
    rw [← hfront, List.drop_left]
  have hin :
      nnCmsgSpace (sphdr.length + 8) + hdrs.length ≤ (sphdrCmsg sphdr ++ (pad ++ tail)).length := by
    simp only [List.length_append, length_sphdrCmsg]
    omega
  have hbehind : nnCmsgSpace (sphdr.length + 8) - (sphdrCmsg sphdr).length - pad.length = 0 := by
    rw [length_sphdrCmsg]
    omega
  rw [fillControl]
  simp only [if_neg hroom, List.take_length]
  rw [if_pos (by omega), fill_sphdr (by omega), hdrop, writeArea_of_le hin,
    splice_append (by rw [length_sphdrCmsg]; omega),
      splice_append (by rw [length_sphdrCmsg]; omega), hbehind, splice,
    List.take_zero, List.nil_append, Nat.zero_add, ← htail, List.drop_length, List.append_nil]

theorem map_range_add {α : Type} (f : ℕ → α) (a b : ℕ) :
    (List.range (a + b)).map f = (List.range a).map f ++ (List.range b).map fun i => f (a + i) := by
  rw [List.range_add, List.map_append, List.map_map]
  rfl

/-- The control data that a device receives. -/
theorem recvControl_nnMsg (msg : Msg) (hlen : msg.sphdr.length < 2 ^ 63) (user : List UInt8)
    (fresh : ℕ → UInt8) :
    recvControl msg.sphdr msg.hdrs nnMsg user (some fresh) =
      .ok (nnRecvmsgControl msg fun i => fresh (24 + msg.sphdr.length + i)) := by
  have hspace := nnCmsgSpace_eq hlen
  have hsplit : nnCmsgSpace (msg.sphdr.length + 8) + msg.hdrs.length = (24 + msg.sphdr.length) +
      ((nnCmsgSpace (msg.sphdr.length + 8) - 24 - msg.sphdr.length) + msg.hdrs.length) := by omega
  rw [recvControl, controlArea, if_pos rfl, ok_bind, hsplit,
    map_range_add fresh (24 + msg.sphdr.length),
    map_range_add (fun i => fresh (24 + msg.sphdr.length + i)), fillControl_eq hlen (by simp)
    (by simp; omega) (by simp)]
  simp only [nnRecvmsgControl, sphdrCmsg, List.append_assoc]

/-- Whether there is memory does not matter to what is found. -/
theorem sphdrAt_ok {alloc : ℕ → Bool} {cmsg : Option ℕ} {found : Option (List UInt8)}
    (h : sphdrAt alloc control cmsg = .ok found) :
    sphdrAt (fun _ => true) control cmsg = .ok found := by
  cases cmsg with
  | none => exact h
  | some off =>
    rw [sphdrAt] at h ⊢
    obtain ⟨len, hlen, h⟩ := bind_eq_ok.1 h
    rw [hlen, ok_bind]
    simp only at h ⊢
    split_ifs at h ⊢
    · obtain ⟨spsz, hspsz, h⟩ := bind_eq_ok.1 h
      rw [hspsz, ok_bind]
      split_ifs at h ⊢
      · obtain ⟨-, -, h⟩ := bind_eq_ok.1 h
        rw [nnAssert_of (Or.inr trivial), ok_bind]
        exact h
      · exact h
    · exact h

/-- A message that is built of two chunks is the one of `NanoSocket.nnSendmsg`. -/
theorem nnSendmsg_of_buildMsg {base ctl : ℕ} {p q : ChunkPtr} {c d : NnChunk}
    (hsound : call.Sound heap) (hstack : (call.stack.part .sphdr).ref.length = 31)
    (hbody : call.pointer base = some (some p)) (hp : heap p.addr = some c)
    (hc : c.Holds p.pos body) (hctl : ctl ≠ 0) (hcontrol : call.pointer ctl = some (some q))
    (hq : heap q.addr = some d) (hd : d.Holds q.pos control)
    (heq : buildMsg call (some ⟨[⟨base, nnMsg⟩], 1, ctl, nnMsg⟩) heap = .ok (.ok (built, heap'))) :
    ∃ msg, NanoSocket.nnSendmsg body control = .ok msg ∧ built.sz = body.length ∧
      built.msg.sphdr.Holds heap' msg.sphdr ∧ built.msg.hdrs.Holds heap' msg.hdrs ∧
      built.msg.body.Holds heap' msg.body := by
  -- the chunks of the user are not where new memory is
  have huser : ∀ {a chunk part}, call.pointer a = some (some chunk) →
      chunk.addr ≠ (call.fresh part).addr :=
    fun hpointer hsame => hsound.live _ _ hpointer (hsame ▸ hsound.free _)
  obtain ⟨⟨e, ⟨⟩⟩, -⟩ | ⟨hdr, iovs, built₁, heap₁, msg, heap₂, hhdr, -, -, hiovs, -,
      hbuilt, hset, hres⟩ :=
    buildMsg_inv heq
  cases hhdr
  cases hres
  cases hiovs
  have hbuilt : sendBody call [⟨base, nnMsg⟩] heap = .ok (.ok (built₁, heap₁)) := hbuilt
  have hkeeps := keeps_sendBody hsound hbuilt
  rw [sendBody] at hbuilt
  simp only [nnMsgBase, if_true, hbody, hc.size_eq hp, ok_bind] at hbuilt
  cases hbuilt
  -- the headers are the chunk with the control data
  rw [sendControl, if_neg hctl] at hset
  obtain ⟨⟨_, msg₁, heap₁⟩, hhdrs, hset⟩ := bind_eq_ok.1 hset
  have hmine : MsgPart.hdrs ∈ ownedWith true ∧ MsgPart.sphdr ∈ (ownedWith true).erase .hdrs := by
    decide
  obtain ⟨hkeeps₁, -⟩ := keeps_sendHdrs hsound hkeeps hmine.1 hhdrs
  rw [if_pos rfl] at hkeeps₁
  obtain ⟨-, -, -, hframe⟩ := keeps_sendSphdr hsound hkeeps₁ hmine.2 hset
  rw [sendHdrs, if_pos rfl] at hhdrs
  simp only [hcontrol] at hhdrs
  obtain ⟨_, hterm, hhdrs⟩ := bind_eq_ok.1 hhdrs
  cases hterm
  rw [hd.size_eq hq, ok_bind, hd.read hq] at hhdrs
  cases hhdrs
  have hholds : (nnChunkrefInitChunk { call.stack.hdrs with tag := 0 } q).Holds heap' control ∧
      (nnChunkrefInitChunk call.stack.body p).Holds heap' body :=
    ⟨(Chunkref.Holds.of_heap rfl).2 ⟨d, (hframe _ (huser hcontrol)).trans hq, hd⟩,
      (Chunkref.Holds.of_heap rfl).2 ⟨c, (hframe _ (huser hbody)).trans hp, hc⟩⟩
  -- the SP header is what is found in them
  obtain ⟨found, hfound, hset⟩ := bind_eq_ok.1 hset
  refine ⟨⟨found.getD [], control, body⟩, ?_, rfl, ?_⟩
  · obtain ⟨first, hfirst, hsearch⟩ := bind_eq_ok.1 hfound
    obtain ⟨visited, hvisited, hat⟩ := bind_eq_ok.1 hsearch
    rw [NanoSocket.nnSendmsg, hfirst, ok_bind, findSphdr_eq, hvisited, ok_bind, sphdrAt_ok hat]
    rfl
  cases found with
  | none =>
    cases hset
    have hempty : UInt8.ofNat 0 ≠ 0xff ∧ (UInt8.ofNat 0).toNat < nnChunkrefMax := by decide
    exact ⟨(Chunkref.Holds.of_inline hempty.1).2 ⟨hempty.2, rfl⟩, hholds⟩
  | some header =>
    obtain ⟨_, hterm, hset⟩ := bind_eq_ok.1 hset
    cases hterm
    obtain ⟨⟨x, heap₂⟩, hinit, hset⟩ := bind_eq_ok.1 hset
    obtain ⟨⟨x', heap₃⟩, hwrite, hset⟩ := bind_eq_ok.1 hset
    cases hset
    obtain ⟨hlen, old, hold, hnew⟩ := nnChunkrefInit_holds hstack hinit
    obtain ⟨_, _, hwrite', hwritten, -⟩ :=
      hnew.write hlen (show 0 + header.length ≤ old.length by omega)
    rw [hwrite] at hwrite'
    cases hwrite'
    have hall : splice old 0 header = header := by
      rw [splice, List.take_zero, List.nil_append, List.drop_of_length_le (by omega),
        List.append_nil]
    rw [hall] at hwritten
    exact ⟨hwritten, hholds⟩

end

end NanoSocket.Core

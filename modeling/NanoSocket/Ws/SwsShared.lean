import NanoSocket.Core.CmsgWalk
import NanoSocket.Core.MsgCopies
import NanoSocket.Ws.SwsFrames

/-!
# What is sent: control data and chunks (`transports/ws/sws.c`)

`nn_sws_send` looks for the message type in the control data that `nn_sendmsg` copied from the user,
with the same loop.  Both loops end, and look at one property behind the other, exactly for proper
chains (`cmsg_loops_end_iff`).

`nnSwsSendChunks` is what `nn_sws_send` does with the chunks of a message: the last message is
terminated, the new one is moved in its place, and a client masks the header and the body where they
are.  `ws_send_undisturbed_iff` says when the other copies of the message do not see it.
-/

namespace NanoSocket

/-! ### Control data -/

namespace Ws

section Control

open Walk

variable {control : List UInt8} {n : ℕ} {start : Option ℕ}

/-- What `nn_sws_send` does with the property at which it stops. -/
def msgTypeAt (control : List UInt8) : Option ℕ → Except Fault (Option UInt8)
  | none => .ok none
  | some cmsg => return (← readBytes control (cmsg + 16) 1).head?

/-- The search of `nn_sws_send` is the loop for the message type. -/
theorem findMsgType_eq :
    findMsgType control n start = cmsgSearch control (2 ^ 32 - 4) 1 n start >>= fun r =>
      msgTypeAt control r.2 := by
  refine cmsgSearch_bind (fun _ => rfl) (fun _ => rfl) fun n off => ?_
  rw [findMsgType]
  rfl

/-- The loops of `nn_sendmsg` and of `nn_sws_send` end after strictly increasing offsets inside the
buffer exactly if every property that they pass over is proper. -/
theorem cmsg_loops_end_iff (hlen : control.length < 2 ^ 63) :
    (SearchEnds control 1 1 ↔ ProperChain control 1 1) ∧
      (SearchEnds control (2 ^ 32 - 4) 1 ↔ ProperChain control (2 ^ 32 - 4) 1) ∧
      (∀ n start, findSphdr control n start =
        cmsgSearch control 1 1 n start >>= fun r => sphdrAt (fun _ => true) control r.2) ∧
      ∀ n start, findMsgType control n start =
        cmsgSearch control (2 ^ 32 - 4) 1 n start >>= fun r => msgTypeAt control r.2 :=
  ⟨searchEnds_iff hlen, searchEnds_iff hlen, fun _ _ => findSphdr_eq, fun _ _ => findMsgType_eq⟩

/-- A chain of two properties: the first search stops at the second one, the other search goes past
both. -/
theorem cmsg_loops_end_iff_two :
    SearchEnds twoProperties 1 1 ∧ SearchEnds twoProperties (2 ^ 32 - 4) 1 := by
  have hlen : twoProperties.length < 2 ^ 63 := by decide
  obtain ⟨hsphdr, htype, -⟩ := cmsg_loops_end_iff hlen
  have hproper : ∀ off ∈ [0, 24], 1 ≤ cmsgLen twoProperties off ∧
      cmsgLen twoProperties off ≤ twoProperties.length := by
    decide
  constructor
  · refine hsphdr.2 fun off hr _ _ => hproper off ?_
    have hvisits : visits (cmsgStep twoProperties 1 1) 3 (cmsgFirst twoProperties) =
        some [0, 24] := by decide
    exact mem_of_reached hvisits hr
  · refine htype.2 fun off hr _ _ => hproper off ?_
    have hvisits : visits (cmsgStep twoProperties (2 ^ 32 - 4) 1) 3 (cmsgFirst twoProperties) =
        some [0, 24] := by decide
    exact mem_of_reached hvisits hr

/-- Sixteen zeros are a property of another level that is not even one byte long: neither loop
ends. -/
theorem cmsg_loops_stay (n : ℕ) :
    (nnCmsgNxthdr (List.replicate 16 0) none >>= cmsgSearch (List.replicate 16 0) 1 1 n) =
      .error .diverged ∧
      (nnCmsgNxthdr (List.replicate 16 0) none >>=
        cmsgSearch (List.replicate 16 0) (2 ^ 32 - 4) 1 n) = .error .diverged :=
  ⟨cmsgSearch_diverges (by decide) (by decide) (by decide) n,
    cmsgSearch_diverges (by decide) (by decide) (by decide) n⟩

/-- So the searches do not end. -/
theorem cmsg_loops_never_end :
    ¬ SearchEnds (List.replicate 16 0) 1 1 ∧ ¬ SearchEnds (List.replicate 16 0) (2 ^ 32 - 4) 1 := by
  constructor
  · rintro ⟨n, visited, r, heq, -⟩
    cases (cmsg_loops_stay n).1.symm.trans heq
  · rintro ⟨n, visited, r, heq, -⟩
    cases (cmsg_loops_stay n).2.symm.trans heq

end Control

end Ws

/-! ### Masking what is shared -/

open Slice

/-- `nn_msg_mv`: what `dst` becomes. -/
def nnMsgMv (dst src : ChunkMsg) : Except Fault ChunkMsg := do
  let sphdr ← nnChunkrefMv dst.sphdr src.sphdr
  let hdrs ← nnChunkrefMv dst.hdrs src.hdrs
  let body ← nnChunkrefMv dst.body src.body
  return ⟨sphdr, hdrs, body⟩

namespace Ws

/-- `nn_sws_mask_payload` for the data of a reference. -/
def maskChunkref (x : Chunkref) (heap : ChunkHeap) (mask : Mask) (pos : ℕ) :
    Except Fault (Chunkref × ChunkHeap × ℕ) := do
  let size ← nnChunkrefSize x heap
  let (payload, pos) ← nnSwsMaskPayload (← chunkrefRead x heap size) mask pos
  let (x, heap) ← chunkrefWrite x heap 0 payload
  return (x, heap, pos)

/-- `nn_sws_send`, as far as it concerns the chunks: the new `outmsg` and the heap. -/
def nnSwsSendChunks (mode : Mode) (outmsg : ChunkMsg) (heap : ChunkHeap)
    (msg : ChunkMsg) (rand : Mask) :
    Except Fault (ChunkMsg × ChunkHeap) := do
  let heap ← nnMsgTerm outmsg heap
  let outmsg ← nnMsgMv outmsg msg
  match mode with
  | .client =>
    -- mask payload, beginning with header and moving to body
    let (sphdr, heap, pos) ← maskChunkref outmsg.sphdr heap rand 0
    let (body, heap, _) ← maskChunkref outmsg.body heap rand pos
    return ({ outmsg with sphdr, body }, heap)
  | .server => return (outmsg, heap)

end Ws

/-! ### The steps -/

/-- The parts of the message have chunks of their own. -/
def ChunkMsg.Separate (m : ChunkMsg) : Prop :=
  ∀ p q, p ≠ q → (m.part p).tag = 0xff → (m.part q).tag = 0xff →
    (m.part p).chunk.addr ≠ (m.part q).chunk.addr

theorem ChunkMsg.refsTo_pos {m : ChunkMsg} {part : MsgPart} (htag : (m.part part).tag = 0xff) :
    0 < m.refsTo (m.part part).chunk.addr := by
  have hone : (m.part part).refsTo (m.part part).chunk.addr = 1 := if_pos ⟨htag, rfl⟩
  unfold refsTo
  cases part <;> simp only [ChunkMsg.part] at hone ⊢ <;> omega

/-- The moved message is the old one. -/
theorem nnMsgMv_ok {dst src : ChunkMsg} {heap heap' : ChunkHeap}
    {bytes bytes' : MsgPart → List UInt8} (hdst : dst.Filled heap bytes)
    (hsrc : src.Filled heap' bytes') :
    ∃ m, nnMsgMv dst src = .ok m ∧ m.Filled heap' bytes' ∧
      ∀ part, (m.part part).tag = (src.part part).tag ∧
      ((src.part part).tag = 0xff → (m.part part).chunk = (src.part part).chunk) := by
  obtain ⟨x, hx, hxholds, hxtag, hxchunk, hxlen⟩ :=
    (hsrc .sphdr).2.mv (hdst .sphdr).1 (hsrc .sphdr).1
  obtain ⟨y, hy, hyholds, hytag, hychunk, hylen⟩ := (hsrc .hdrs).2.mv (hdst .hdrs).1 (hsrc .hdrs).1
  obtain ⟨z, hz, hzholds, hztag, hzchunk, hzlen⟩ := (hsrc .body).2.mv (hdst .body).1 (hsrc .body).1
  refine ⟨⟨x, y, z⟩, ?_, fun part => ?_, fun part => ?_⟩
  · change (nnChunkrefMv dst.sphdr src.sphdr >>=
      fun sphdr => nnChunkrefMv dst.hdrs src.hdrs >>= fun hdrs =>
      nnChunkrefMv dst.body src.body >>= fun body => pure (⟨sphdr, hdrs, body⟩ : ChunkMsg)) = _
    rw [show nnChunkrefMv dst.sphdr src.sphdr = .ok x from hx,
      show nnChunkrefMv dst.hdrs src.hdrs = .ok y from hy,
      show nnChunkrefMv dst.body src.body = .ok z from hz]
    rfl
  · cases part with
    | sphdr => exact ⟨hxlen, hxholds⟩
    | hdrs => exact ⟨hylen, hyholds⟩
    | body => exact ⟨hzlen, hzholds⟩
  · cases part with
    | sphdr => exact ⟨hxtag, hxchunk⟩
    | hdrs => exact ⟨hytag, hychunk⟩
    | body => exact ⟨hztag, hzchunk⟩

namespace Ws

/-- Masking changes nothing only where the mask is zero. -/
theorem maskFrom_eq_self_iff (mask : Mask) (pos : ℕ) (l : List UInt8) :
    maskFrom mask pos l = l ↔ ∀ i < l.length, mask[(pos + i) % 4] = 0 := by
  induction l generalizing pos with
  | nil => exact iff_of_true rfl nofun
  | cons b l ih =>
    rw [maskFrom, List.cons.injEq, ih]
    have hb : b ^^^ mask.get ⟨pos % 4, mod_four_lt pos⟩ = b ↔
        mask.get ⟨pos % 4, mod_four_lt pos⟩ = 0 := by
      constructor
      · intro h
        have := congrArg (b ^^^ ·) h
        simpa [← UInt8.xor_assoc] using this
      · intro h
        rw [h, UInt8.xor_zero]
    rw [hb]
    constructor
    · rintro ⟨hzero, hrest⟩ i hi
      cases i with
      | zero => exact hzero
      | succ i =>
        have hindex : (pos + 1 + i) % 4 = (pos + (i + 1)) % 4 := by omega
        simpa only [hindex] using hrest i (by rw [List.length_cons] at hi; omega)
    · intro hall
      refine ⟨hall 0 (by simp), fun i hi => ?_⟩
      have hindex : (pos + (i + 1)) % 4 = (pos + 1 + i) % 4 := by omega
      simpa only [hindex] using hall (i + 1) (by rw [List.length_cons]; omega)

/-- The data of a reference is masked in its place. -/
theorem maskChunkref_ok {x : Chunkref} {heap : ChunkHeap} {bytes : List UInt8}
    (hlen : x.ref.length = 31) (h : x.Holds heap bytes) (hsize : bytes.length < 2 ^ 32)
    (mask : Mask) (pos : ℕ) :
    ∃ x' heap', maskChunkref x heap mask pos = .ok (x', heap', (bytes.length + pos) % 4) ∧
      x'.Holds heap' (maskFrom mask pos bytes) ∧ x'.tag = x.tag ∧ x'.chunk = x.chunk ∧
      ∀ a, (x.tag = 0xff → a ≠ x.chunk.addr) → heap' a = heap a := by
  have hroom : 0 + (maskFrom mask pos bytes).length ≤ bytes.length := by
    rw [length_maskFrom, zero_add]
  obtain ⟨x', heap', heq, hholds, htag, hchunk, -, hframe⟩ := h.write hlen hroom
  refine ⟨x', heap', ?_, ?_, htag, hchunk, hframe⟩
  · rw [maskChunkref, h.size_eq hlen, ok_bind, h.read hlen, ok_bind, nnSwsMaskPayload,
      if_pos hsize, ok_bind]
    simp only
    rw [heq]
    rfl
  · rwa [splice, List.take_zero, List.nil_append,
      List.drop_of_length_le (by rw [length_maskFrom]; omega), List.append_nil] at hholds

theorem maskChunkref_long {x : Chunkref} {heap : ChunkHeap} {bytes : List UInt8}
    (hlen : x.ref.length = 31) (h : x.Holds heap bytes) (hsize : ¬ bytes.length < 2 ^ 32)
    (mask : Mask) (pos : ℕ) :
    maskChunkref x heap mask pos = .error .diverged := by
  rw [maskChunkref, h.size_eq hlen, ok_bind, h.read hlen, ok_bind, nnSwsMaskPayload, if_neg hsize]
  rfl

end Ws

/-! ### What the other copies see -/

theorem observe_of_holds {x : Chunkref} {heap : ChunkHeap} {bytes : List UInt8}
    (hlen : x.ref.length = 31) (h : x.Holds heap bytes) :
    observe x heap = .ok (bytes.length, bytes) := by
  rw [observe, h.size_eq hlen, ok_bind, h.read hlen]
  rfl

/-- A message looks as it did when it holds what it did. -/
theorem Copies.undisturbed_iff {w : Copies} {heap' : ChunkHeap} {j : ℕ}
    {bytes bytes' : MsgPart → List UInt8} (h : (w.msgs j).Filled w.heap bytes)
    (h' : (w.msgs j).Filled heap' bytes') :
    w.Undisturbed j ⟨heap', w.msgs⟩ ↔ ∀ part, bytes' part = bytes part := by
  constructor
  · intro hund part
    have hobs := (hund part).1
    rw [observe_of_holds (h part).1 (h part).2, observe_of_holds (h' part).1 (h' part).2] at hobs
    exact (Prod.mk.inj (Except.ok.inj hobs)).2
  · intro heq part
    refine ⟨?_, fun htag => ?_⟩
    · rw [observe_of_holds (h part).1 (h part).2, observe_of_holds (h' part).1 (h' part).2, heq]
    · obtain ⟨c, hc, hholds⟩ := (Chunkref.Holds.of_heap htag).1 (h' part).2
      exact ⟨c, hholds.getptr hc⟩

/-- The message that was sent before is there, and all references are counted. -/
structure OutCounted (outmsg msg : ChunkMsg) (heap : ChunkHeap) : Prop where
  filled : ∃ bytes, outmsg.Filled heap bytes
  live : ∀ a, ∀ c ∈ heap a, 0 < c.refcount
  refs : ∀ a, outmsg.refsTo a + msg.refsTo a ≤ counts heap a

namespace Ws

/-- A masked part, and another reference to its chunk. -/
theorem seen_of_mask {x x' y : Chunkref} {heap heap' : ChunkHeap} {bytes new : List UInt8}
    (hy : y.Holds heap bytes) (htag : x.tag = y.tag) (hchunk : y.tag = 0xff → x.chunk = y.chunk)
    (hx' : x'.Holds heap' new) (htag' : x'.tag = x.tag) (hchunk' : x'.chunk = x.chunk) :
    y.Holds heap' (if y.tag = 0xff then new else bytes) := by
  split_ifs with hheap
  · have hmasked := (Chunkref.Holds.of_heap ((htag'.trans htag).trans hheap)).1 hx'
    rw [hchunk', hchunk hheap] at hmasked
    exact (Chunkref.Holds.of_heap hheap).2 hmasked
  · exact (Chunkref.Holds.of_inline hheap).2 ((Chunkref.Holds.of_inline hheap).1 hy)

/-- What is in the parts of the other copies after a client has sent one. -/
def seen (msg : ChunkMsg) (mask : Mask) (bytes : MsgPart → List UInt8) : MsgPart → List UInt8
  | .sphdr => if msg.sphdr.tag = 0xff then maskFrom mask 0 (bytes .sphdr) else bytes .sphdr
  | .hdrs => bytes .hdrs
  | .body => if msg.body.tag = 0xff then maskFrom mask (bytes .sphdr).length (bytes .body)
      else bytes .body

/-- A server leaves the chunks alone; a client masks the header and the body, if the loop of the
masking ends. -/
theorem nnSwsSendChunks_spec {outmsg msg : ChunkMsg} {heap : ChunkHeap}
    {bytes : MsgPart → List UInt8} (mode : Mode) (hmsg : msg.Filled heap bytes)
    (hown : msg.Separate) (hout : OutCounted outmsg msg heap) (mask : Mask) :
    match mode with
    | .server => ∃ out' heap', nnSwsSendChunks mode outmsg heap msg mask = .ok (out', heap') ∧
        msg.Filled heap' bytes
    | .client =>
      if (bytes .sphdr).length < 2 ^ 32 ∧ (bytes .body).length < 2 ^ 32 then
        ∃ out' heap', nnSwsSendChunks mode outmsg heap msg mask = .ok (out', heap') ∧
          msg.Filled heap' (seen msg mask bytes)
      else nnSwsSendChunks mode outmsg heap msg mask = .error .diverged := by
  obtain ⟨old, hold⟩ := hout.filled
  have hterm := nnMsgTerm_counts (fun part => ⟨_, (hold part).2⟩) fun a =>
    le_trans (Nat.le_add_right _ _) (hout.refs a)
  rw [withCounts_counts hout.live] at hterm
  generalize hheap : withCounts heap (fun a => counts heap a - outmsg.refsTo a) = heap₁ at hterm
  -- the chunks of the message survive the end of the old one
  have hmsg₁ : msg.Filled heap₁ bytes := by
    intro part
    refine ⟨(hmsg part).1, hheap ▸ (hmsg part).2.withCounts fun htag => ?_⟩
    have := ChunkMsg.refsTo_pos htag
    have := hout.refs (msg.part part).chunk.addr
    omega
  obtain ⟨m, hmv, hm, hsame⟩ := nnMsgMv_ok hold hmsg₁
  cases mode with
  | server =>
    refine ⟨m, heap₁, ?_, hmsg₁⟩
    rw [nnSwsSendChunks, hterm, ok_bind, hmv]
    rfl
  | client =>
    -- masking one part does not reach the chunks of the others
    have hother : ∀ p q, q ≠ p → (msg.part q).tag = 0xff → (m.part p).tag = 0xff →
        (msg.part q).chunk.addr ≠ (m.part p).chunk.addr := by
      intro p q hne hq hp
      rw [(hsame p).1] at hp
      rw [(hsame p).2 hp]
      exact hown q p hne hq hp
    simp only
    rw [nnSwsSendChunks, hterm, ok_bind, hmv, ok_bind]
    simp only
    by_cases hhdr : (bytes .sphdr).length < 2 ^ 32
    swap
    · rw [if_neg fun h => hhdr h.1,
        maskChunkref_long (x := m.sphdr) (hm .sphdr).1 (hm .sphdr).2 hhdr]
      rfl
    obtain ⟨x', heap₂, hx, hxholds, hxtag, hxchunk, hxframe⟩ :=
      maskChunkref_ok (x := m.sphdr) (hm .sphdr).1 (hm .sphdr).2 hhdr mask 0
    have hrest : ∀ part, part ≠ .sphdr → (msg.part part).Holds heap₂ (bytes part) := fun part hne =>
      (hmsg₁ part).2.congr fun htag => hxframe _ fun hp => hother .sphdr part hne htag hp
    have hbody₂ : m.body.Holds heap₂ (bytes .body) := by
      refine (hm .body).2.congr fun htag => hxframe _ fun hp => ?_
      rw [(hsame .body).1] at htag
      rw [(hsame .body).2 htag]
      exact hother .sphdr .body nofun htag hp
    rw [hx, ok_bind]
    simp only
    by_cases hbody : (bytes .body).length < 2 ^ 32
    swap
    · rw [if_neg fun h => hbody h.2, maskChunkref_long (x := m.body) (hm .body).1 hbody₂ hbody]
      rfl
    obtain ⟨z', heap₃, hz, hzholds, hztag, hzchunk, hzframe⟩ :=
      maskChunkref_ok (x := m.body) (hm .body).1 hbody₂ hbody mask (((bytes .sphdr).length + 0) % 4)
    rw [add_zero, maskFrom_mod] at hzholds
    rw [if_pos ⟨hhdr, hbody⟩, hz]
    refine ⟨_, _, rfl, fun part => ⟨(hmsg part).1, ?_⟩⟩
    cases part with
    | sphdr =>
      have hseen :=
        seen_of_mask (hmsg₁ .sphdr).2 (hsame .sphdr).1 (hsame .sphdr).2 hxholds hxtag hxchunk
      exact hseen.congr fun htag => hzframe _ fun hp => hother .body .sphdr nofun htag hp
    | hdrs => exact (hrest .hdrs nofun).congr fun htag => hzframe _ fun hp =>
        hother .body .hdrs nofun htag hp
    | body =>
      exact seen_of_mask (hrest .body nofun) (hsame .body).1 (hsame .body).2 hzholds hztag hzchunk

/-- After a message was copied, a WebSocket session sends one of the copies, and the other ones look
as they did, exactly if it is a server; or if the masking ends, and meets zeros in the mask wherever
the header or the body is in a chunk. -/
theorem ws_send_undisturbed_iff {msg : ChunkMsg} {heap : ChunkHeap} {bytes : MsgPart → List UInt8}
    (hmsg : msg.Filled heap bytes) (hown : msg.Separate) {w : Copies} (h : Copied msg heap w)
    {outmsg : ChunkMsg} (hout : OutCounted outmsg msg w.heap) (mode : Mode)
    (mask : Mask) (i j : ℕ) :
    (∃ out' heap', nnSwsSendChunks mode outmsg w.heap (w.msgs i) mask = .ok (out', heap') ∧
        w.Undisturbed j ⟨heap', w.msgs⟩) ↔
      mode = .server ∨ (bytes .sphdr).length < 2 ^ 32 ∧ (bytes .body).length < 2 ^ 32 ∧
        (msg.sphdr.tag = 0xff → ∀ k < (bytes .sphdr).length, mask[k % 4] = 0) ∧
        (msg.body.tag = 0xff → ∀ k < (bytes .body).length,
          mask[((bytes .sphdr).length + k) % 4] = 0) := by
  obtain ⟨hsame, n, hstart⟩ := Copies.of_copied h
  have hfilled : msg.Filled w.heap bytes := fun part =>
    ⟨(hmsg part).1, (hmsg part).2.msgBulkcopyStart hstart⟩
  have hfilled' : (w.msgs j).Filled w.heap bytes := by rwa [hsame j]
  have hspec := nnSwsSendChunks_spec mode hfilled hown hout mask
  rw [hsame i]
  cases mode with
  | server =>
    obtain ⟨out', heap', heq, hafter⟩ := hspec
    refine iff_of_true ⟨out', heap', heq, ?_⟩ (Or.inl rfl)
    exact (Copies.undisturbed_iff hfilled' (by rwa [hsame j])).2 fun _ => rfl
  | client =>
    simp only at hspec
    split_ifs at hspec with hsize
    · obtain ⟨out', heap', heq, hafter⟩ := hspec
      have hund := Copies.undisturbed_iff (w := w) (j := j) hfilled' (by rwa [hsame j])
      have hseen : (∀ part, seen msg mask bytes part = bytes part) ↔
          (msg.sphdr.tag = 0xff → ∀ k < (bytes .sphdr).length, mask[k % 4] = 0) ∧
            (msg.body.tag = 0xff → ∀ k < (bytes .body).length,
              mask[((bytes .sphdr).length + k) % 4] = 0) := by
        have hhdr := maskFrom_eq_self_iff mask 0 (bytes .sphdr)
        simp only [zero_add] at hhdr
        rw [← hhdr, ← maskFrom_eq_self_iff]
        constructor
        · intro hall
          exact ⟨fun htag => (if_pos htag).symm.trans (hall .sphdr),
            fun htag => (if_pos htag).symm.trans (hall .body)⟩
        · rintro ⟨hsphdr, hbody⟩ part
          cases part with
          | sphdr => exact ite_eq_right_iff.2 hsphdr
          | hdrs => rfl
          | body => exact ite_eq_right_iff.2 hbody
      constructor
      · rintro ⟨out₁, heap₁, heq₁, hund₁⟩
        obtain ⟨rfl, rfl⟩ := Prod.mk.inj (Except.ok.inj (heq.symm.trans heq₁))
        exact Or.inr ⟨hsize.1, hsize.2, hseen.1 (hund.1 hund₁)⟩
      · rintro (h | ⟨-, -, hzero⟩)
        · cases h
        · exact ⟨out', heap', heq, hund.2 (hseen.2 hzero)⟩
    · refine iff_of_false ?_ ?_
      · rintro ⟨out', heap', heq, -⟩
        rw [hspec] at heq
        cases heq
      · rintro (h | ⟨hhdr, hbody, -⟩)
        · cases h
        · exact hsize ⟨hhdr, hbody⟩

/-- The message of a new session. -/
def emptyMsg : ChunkMsg :=
  ⟨⟨0, List.replicate 31 0, ⟨0, 0⟩⟩, ⟨0, List.replicate 31 0, ⟨0, 0⟩⟩,
    ⟨0, List.replicate 31 0, ⟨0, 0⟩⟩⟩

theorem emptyMsg_counted {heap : ChunkHeap}
    (h : nnMsgBulkcopyStart sharedMsg sharedHeap 1 = .ok heap) :
    OutCounted emptyMsg sharedMsg heap := by
  have hheap : nnMsgBulkcopyStart sharedMsg sharedHeap 1 = .ok (Function.update sharedHeap 0
      (some ⟨2, 40, nnPutl 0 ++ nnPutl nnChunkTag ++ List.replicate 40 0⟩)) := by rfl
  obtain rfl := Except.ok.inj (hheap.symm.trans h)
  refine ⟨⟨fun _ => [], fun part => ?_⟩, fun a c hc => ?_, fun a => ?_⟩
  · cases part <;>
      exact ⟨rfl, (Chunkref.Holds.of_inline (show (0 : UInt8) ≠ 0xff by decide)).2 ⟨by decide, rfl⟩⟩
  · rw [Function.update_apply] at hc
    split_ifs at hc
    · rw [← Option.mem_some_iff.1 hc]
      exact Nat.two_pos
    · rw [refcount_sharedHeap hc]
      exact Nat.one_pos
  · by_cases ha : a = 0
    · subst ha
      decide
    · have hzero : emptyMsg.refsTo a + sharedMsg.refsTo a = 0 := by
        simp [ChunkMsg.refsTo, Chunkref.refsTo, emptyMsg, sharedMsg, Ne.symm ha]
      rw [hzero]
      exact Nat.zero_le _

/-- A message without chunks. -/
def inlineMsg : ChunkMsg :=
  ⟨⟨4, [0x80, 0, 0, 8] ++ List.replicate 27 0, ⟨0, 0⟩⟩, ⟨0, List.replicate 31 0, ⟨0, 0⟩⟩,
    ⟨2, [5, 6] ++ List.replicate 29 0, ⟨0, 0⟩⟩⟩

/-- The bytes of `inlineMsg`. -/
def inlineBytes : MsgPart → List UInt8
  | .sphdr => [0x80, 0, 0, 8]
  | .hdrs => []
  | .body => [5, 6]

theorem inlineMsg_filled (heap : ChunkHeap) : inlineMsg.Filled heap inlineBytes := by
  intro part
  cases part <;> exact ⟨rfl, (Chunkref.Holds.of_inline (by decide)).2 ⟨by decide, rfl⟩⟩

theorem emptyMsg_counted_inline : OutCounted emptyMsg inlineMsg fun _ => none := by
  refine ⟨⟨fun _ => [], fun part => ?_⟩, (fun a c hc => nomatch hc), fun a => ?_⟩
  · cases part <;>
      exact ⟨rfl, (Chunkref.Holds.of_inline (show (0 : UInt8) ≠ 0xff by decide)).2 ⟨by decide, rfl⟩⟩
  · have hzero : emptyMsg.refsTo a + inlineMsg.refsTo a = 0 := by
      simp [ChunkMsg.refsTo, Chunkref.refsTo, emptyMsg, inlineMsg]
    rw [hzero]
    exact Nat.zero_le _

/-- A client sends a copy of a message without chunks, and a copy of a message with a body in a
chunk, under a mask of zeros. -/
theorem ws_send_undisturbed_iff_client :
    (∃ w out' heap', Copied inlineMsg (fun _ => none) w ∧
      nnSwsSendChunks .client emptyMsg w.heap (w.msgs 1) #v[1, 2, 3, 4] = .ok (out', heap') ∧
        w.Undisturbed 0 ⟨heap', w.msgs⟩) ∧
      ∃ w out' heap', Copied sharedMsg sharedHeap w ∧
        nnSwsSendChunks .client emptyMsg w.heap (w.msgs 1) #v[0, 0, 0, 0] = .ok (out', heap') ∧
          w.Undisturbed 0 ⟨heap', w.msgs⟩ := by
  constructor
  · have hcp : ∃ w, Copied inlineMsg (fun _ => none) w ∧ w.heap = fun _ => none := ⟨_, .cp rfl, rfl⟩
    obtain ⟨w, h, hheap⟩ := hcp
    have hown : inlineMsg.Separate := by
      intro p q _ hp _
      cases p <;> exact absurd hp (by decide)
    obtain ⟨out', heap', heq, hund⟩ := (ws_send_undisturbed_iff (inlineMsg_filled _) hown h
      (hheap ▸ emptyMsg_counted_inline) .client #v[1, 2, 3, 4] 1 0).2 (Or.inr ⟨by decide, by decide,
        fun htag => absurd htag (by decide), fun htag => absurd htag (by decide)⟩)
    exact ⟨w, out', heap', h, heq, hund⟩
  · have hcp : ∃ w, Copied sharedMsg sharedHeap w ∧
        nnMsgBulkcopyStart sharedMsg sharedHeap 1 = .ok w.heap :=
      ⟨_, .cp rfl, rfl⟩
    obtain ⟨w, h, hstart⟩ := hcp
    have hown : sharedMsg.Separate := by
      intro p q hpq hp hq
      cases p <;> cases q <;> first | exact absurd rfl hpq | exact absurd hp (by decide) |
        exact absurd hq (by decide)
    have hzero : ∀ k : Fin 4, (#v[0, 0, 0, 0] : Mask)[k] = 0 := by decide
    obtain ⟨out', heap', heq, hund⟩ :=
      (ws_send_undisturbed_iff sharedMsg_filled hown h (emptyMsg_counted hstart) .client
      #v[0, 0, 0, 0] 1 0).2
      (Or.inr ⟨by decide, by decide, fun _ k _ => hzero ⟨_, Nat.mod_lt k (Nat.succ_pos 3)⟩,
        fun _ k _ => hzero ⟨_, Nat.mod_lt _ (Nat.succ_pos 3)⟩⟩)
    exact ⟨w, out', heap', h, heq, hund⟩

/-- After a client has sent a copy, the body of the source begins with the mask. -/
theorem masked_copy_disturbs : ∃ w out' heap', Copied sharedMsg sharedHeap w ∧
    nnSwsSendChunks .client emptyMsg w.heap (w.msgs 1) #v[1, 2, 3, 4] = .ok (out', heap') ∧
      observe (w.msgs 0).body w.heap = .ok (40, List.replicate 40 0) ∧
      (observe (w.msgs 0).body heap').map (fun r => r.2.take 4) = .ok [1, 2, 3, 4] :=
  ⟨_, _, _, .cp rfl, rfl, by decide, by decide⟩

end Ws

end NanoSocket

import NanoSocket.Core.Sendmsg

/-!
# What a failed send gives back (`core/global.c`)

While `nn_sendmsg` builds a message, each part of it is a reference of the call, or a chunk of the
user.  `SendCall.Keeps` is the invariant: the call owns some of the parts, at the addresses that
`nn_alloc` has for them, and the rest of the heap is what it was.

Only the body is detached from a message that the socket does not take.  So a chunk of the user with
control data is released with the message (`nnSendmsg_failed_iff`).
-/

namespace NanoSocket.Core

open Slice

/-- What the call relies on: `nn_alloc` returns memory that is not in use, and a pointer of the user
is one to a chunk. -/
structure SendCall.Sound (call : SendCall) (heap : ChunkHeap) : Prop where
  free : ∀ part, heap (call.fresh part).addr = none
  distinct : ∀ part part', (call.fresh part).addr = (call.fresh part').addr → part = part'
  live : ∀ base chunk, call.pointer base = some (some chunk) → heap chunk.addr ≠ none

/-- The call owns these parts of the message, and has not touched anything else. -/
structure SendCall.Keeps (call : SendCall) (owned : Finset MsgPart) (msg : ChunkMsg)
    (before heap : ChunkHeap) :
    Prop where
  own : ∀ part ∈ owned, Owns (msg.part part) heap (call.fresh part).addr
  unused : ∀ part ∉ owned, heap (call.fresh part).addr = none
  frame : ∀ a, (∀ part, a ≠ (call.fresh part).addr) → heap a = before a

/-- The body is accepted: the pointer to its chunk is not NULL, or its entries have a size. -/
def BodyAccepted (call : SendCall) (iovs : List NnIovec) : Prop :=
  match nnMsgBase iovs with
  | some base => call.pointer base ≠ some none
  | none => ∃ sz, gatherSize iovs 0 = .ok sz

/-- The user hands over a chunk with control data: the call gets as far as the control data, and
their length is `NN_MSG`. -/
structure HandsOverControl (call : SendCall) (msghdr : NnMsghdr) : Prop where
  held : call.hold = none
  count : 0 ≤ msghdr.msgIovlen
  body : ∃ iovs, msghdr.iovs = .ok iovs ∧ BodyAccepted call iovs
  control : msghdr.msgControl ≠ 0
  chunk : msghdr.msgControllen = nnMsg

namespace SendCall

variable {call : SendCall} {owned : Finset MsgPart} {msg : ChunkMsg} {before heap heap' : ChunkHeap}
  {part : MsgPart}
  {x : Chunkref}

/-- A reference to new memory is put in a place of the message. -/
theorem Keeps.put (hsound : call.Sound before) (h : call.Keeps owned msg before heap)
    (hown : Owns x heap' (call.fresh part).addr)
    (hframe : ∀ a ≠ (call.fresh part).addr, heap' a = heap a) :
    call.Keeps (insert part owned) (msg.setPart x part) before heap' := by
  have hne : ∀ part', part' ≠ part → heap' (call.fresh part').addr = heap (call.fresh part').addr :=
    fun part' hpart => hframe _ fun heq => hpart (hsound.distinct _ _ heq)
  refine ⟨fun part' hmem => ?_, fun part' hmem => ?_, fun a ha => ?_⟩
  · rw [ChunkMsg.part_setPart]
    by_cases heq : part' = part
    · rw [if_pos heq, heq]
      exact hown
    · rw [if_neg heq]
      exact (h.own part' (Finset.mem_of_mem_insert_of_ne hmem heq)).congr (hne part' heq)
  · rw [Finset.mem_insert, not_or] at hmem
    rw [hne part' hmem.1]
    exact h.unused part' hmem.2
  · rw [hframe a (ha part)]
    exact h.frame a ha

/-- A chunk of the user is put in a place of the message. -/
theorem Keeps.give (h : call.Keeps owned msg before heap) (hpart : part ∉ owned) :
    call.Keeps owned (msg.setPart x part) before heap := by
  refine ⟨fun part' hmem => ?_, h.unused, h.frame⟩
  have hne : part' ≠ part := ne_of_mem_of_not_mem hmem hpart
  rw [ChunkMsg.part_setPart, if_neg hne]
  exact h.own part' hmem

/-- A part of the call is terminated. -/
theorem Keeps.term (hsound : call.Sound before) (h : call.Keeps owned msg before heap)
    (part : MsgPart) (hpart : part ∈ owned)
    (heq : nnChunkrefTerm (msg.part part) heap = .ok heap') :
    call.Keeps (owned.erase part) msg before heap' ∧ ∀ a ≠ (call.fresh part).addr,
      heap' a = heap a := by
  rw [(h.own part hpart).term] at heq
  cases heq
  have hne : ∀ part', part' ≠ part →
      Function.update heap (call.fresh part).addr none (call.fresh part').addr =
      heap (call.fresh part').addr :=
    fun part' hpart' => Function.update_of_ne (fun heq => hpart' (hsound.distinct _ _ heq)) ..
  refine ⟨⟨fun part' hmem => ?_, fun part' hmem => ?_, fun a ha => ?_⟩,
    fun a ha => Function.update_of_ne ha ..⟩
  · rw [Finset.mem_erase] at hmem
    exact (h.own part' hmem.2).congr (hne part' hmem.1)
  · by_cases heq : part' = part
    · rw [heq, Function.update_self]
    · rw [hne part' heq]
      exact h.unused part' fun hmem' => hmem (Finset.mem_erase.2 ⟨heq, hmem'⟩)
  · rw [Function.update_of_ne (ha part)]
    exact h.frame a ha

/-- When the call has nothing any more, the heap is what it was. -/
theorem Keeps.restored (hsound : call.Sound before) (h : call.Keeps ∅ msg before heap) :
    heap = before := by
  funext a
  by_cases ha : ∀ part, a ≠ (call.fresh part).addr
  · exact h.frame a ha
  · obtain ⟨part, hpart⟩ := not_forall.1 ha
    obtain rfl := not_not.1 hpart
    rw [h.unused part (Finset.notMem_empty part), hsound.free part]

end SendCall

section

variable {call : SendCall} {owned : Finset MsgPart} {msg msg' : ChunkMsg}
  {before heap heap' : ChunkHeap}

theorem alloc_addr {part : MsgPart} : ∀ f ∈ call.alloc part, f.addr = (call.fresh part).addr := by
  intro f hf
  rw [SendCall.alloc] at hf
  split_ifs at hf
  · rw [Option.mem_some_iff.1 hf]
  · cases hf

/-- A reference to nothing. -/
theorem owns_empty {x : Chunkref} {addr : ℕ} (hfree : heap addr = none) :
    Owns { x with tag := 0 } heap addr :=
  (owns_inline (x := { x with tag := 0 }) (by change (0 : UInt8) ≠ 0xff; decide)).2 hfree

theorem keeps_empty (hsound : call.Sound before) (msg : ChunkMsg) :
    call.Keeps ∅ msg before before :=
  ⟨fun _ hmem => absurd hmem (Finset.notMem_empty _),
    fun part _ => hsound.free part, fun _ _ => rfl⟩

/-- The SP header and the headers of a new message. -/
theorem keeps_headers (hsound : call.Sound before) (stack : ChunkMsg) (body : Chunkref) :
    call.Keeps {.hdrs, .sphdr} ⟨{ stack.sphdr with tag := 0 }, { stack.hdrs with tag := 0 }, body⟩
      before before :=
  ((keeps_empty hsound ⟨stack.sphdr, stack.hdrs, body⟩).put hsound (owns_empty (hsound.free .sphdr))
    fun _ _ => rfl).put hsound (owns_empty (hsound.free .hdrs)) fun _ _ => rfl

theorem nnMsgInit_eq (self : ChunkMsg) (heap : ChunkHeap) (size : ℕ) (mem : Option Fresh) :
    nnMsgInit self heap size mem = (nnChunkrefInit self.body heap size mem >>= fun r =>
      .ok (⟨{ self.sphdr with tag := 0 }, { self.hdrs with tag := 0 }, r.1⟩, r.2)) := rfl

/-- The parts that the call owns when the body is there. -/
def ownedWith (nnmsg : Bool) : Finset MsgPart :=
  if nnmsg then {.hdrs, .sphdr} else {.body, .hdrs, .sphdr}

/-- The body: a chunk of the user, or a reference of the call. -/
theorem keeps_sendBody {iovs : List NnIovec} {built : Built} (hsound : call.Sound before)
    (heq : sendBody call iovs before = .ok (.ok (built, heap))) :
    call.Keeps (ownedWith built.nnmsg) built.msg before heap := by
  rw [sendBody] at heq
  split at heq
  · split at heq
    · cases heq
    · cases heq
    · obtain ⟨sz, -, heq⟩ := bind_eq_ok.1 heq
      cases heq
      exact keeps_headers hsound call.stack _
  · split at heq
    · cases heq
    · rename_i sz _
      obtain ⟨⟨msg, heap₁⟩, hinit, heq⟩ := bind_eq_ok.1 heq
      obtain ⟨⟨body, heap₂⟩, hcopy, heq⟩ := bind_eq_ok.1 heq
      cases heq
      rw [nnMsgInit_eq] at hinit
      obtain ⟨⟨x, heap₃⟩, hbody, hinit⟩ := bind_eq_ok.1 hinit
      cases hinit
      obtain ⟨hown, hframe⟩ := owns_init alloc_addr (hsound.free .body) hbody
      obtain ⟨hown', hframe'⟩ := hown.gatherCopy hcopy
      exact (keeps_headers hsound call.stack x).put hsound hown' fun a ha =>
        (hframe' a ha).trans (hframe a ha)

/-- A part of the call is terminated, initialised again and filled. -/
theorem keeps_refill {part : MsgPart} {size i : ℕ} {bytes : List UInt8} {x x' : Chunkref}
    {heap₁ heap₂ : ChunkHeap} (hsound : call.Sound before) (h : call.Keeps owned msg before heap)
    (hpart : part ∈ owned) (hterm : nnChunkrefTerm (msg.part part) heap = .ok heap₁)
    (hinit : nnChunkrefInit (msg.part part) heap₁ size (call.alloc part) = .ok (x, heap₂))
    (hwrite : chunkrefWrite x heap₂ i bytes = .ok (x', heap')) :
    call.Keeps owned (msg.setPart x' part) before heap' ∧
      ∀ a ≠ (call.fresh part).addr, heap' a = heap a := by
  obtain ⟨hkeeps, hframe₁⟩ := h.term hsound _ hpart hterm
  obtain ⟨hown₂, hframe₂⟩ :=
    owns_init alloc_addr (hkeeps.unused part (Finset.notMem_erase _ _)) hinit
  obtain ⟨hown', hframe'⟩ := hown₂.write hwrite
  have hput := hkeeps.put hsound hown' fun a ha => (hframe' a ha).trans (hframe₂ a ha)
  rw [Finset.insert_erase hpart] at hput
  exact ⟨hput, fun a ha => ((hframe' a ha).trans (hframe₂ a ha)).trans (hframe₁ a ha)⟩

/-- The headers: a chunk of the user, or a copy of the control data. -/
theorem keeps_sendHdrs {msghdr : NnMsghdr} {control : List UInt8} (hsound : call.Sound before)
    (h : call.Keeps owned msg before heap) (hpart : .hdrs ∈ owned)
    (heq : sendHdrs call msghdr msg heap = .ok (control, msg', heap')) :
    call.Keeps (if msghdr.msgControllen = nnMsg then owned.erase .hdrs else owned)
      msg' before heap' ∧ msg'.body = msg.body ∧ (∀ a ≠ (call.fresh .hdrs).addr, heap' a = heap a) ∧
      (msghdr.msgControllen = nnMsg →
        msg'.hdrs.tag = 0xff ∧ call.pointer msghdr.msgControl = some (some msg'.hdrs.chunk)) := by
  rw [sendHdrs] at heq
  by_cases hmsg : msghdr.msgControllen = nnMsg
  · rw [if_pos hmsg] at heq ⊢
    split at heq
    · cases heq
    · cases heq
    · rename_i chunk hpointer
      obtain ⟨heap₁, hterm, heq⟩ := bind_eq_ok.1 heq
      obtain ⟨size, -, heq⟩ := bind_eq_ok.1 heq
      obtain ⟨bytes, -, heq⟩ := bind_eq_ok.1 heq
      cases heq
      obtain ⟨hkeeps, hframe⟩ := h.term hsound _ hpart hterm
      exact ⟨hkeeps.give (Finset.notMem_erase _ _), rfl, hframe, fun _ => ⟨rfl, hpointer⟩⟩
  · rw [if_neg hmsg] at heq ⊢
    obtain ⟨heap₁, hterm, heq⟩ := bind_eq_ok.1 heq
    obtain ⟨⟨x, heap₂⟩, hinit, heq⟩ := bind_eq_ok.1 heq
    obtain ⟨bytes, -, heq⟩ := bind_eq_ok.1 heq
    obtain ⟨⟨x', heap₃⟩, hwrite, heq⟩ := bind_eq_ok.1 heq
    cases heq
    obtain ⟨hkeeps, hframe⟩ := keeps_refill hsound h hpart hterm hinit hwrite
    exact ⟨hkeeps, rfl, hframe, fun hmsg' => absurd hmsg' hmsg⟩

/-- The SP header: a copy of a property, if there is one. -/
theorem keeps_sendSphdr {control : List UInt8} (hsound : call.Sound before)
    (h : call.Keeps owned msg before heap) (hpart : .sphdr ∈ owned)
    (heq : sendSphdr call control msg heap = .ok (msg', heap')) :
    call.Keeps owned msg' before heap' ∧ msg'.body = msg.body ∧ msg'.hdrs = msg.hdrs ∧
      ∀ a ≠ (call.fresh .sphdr).addr, heap' a = heap a := by
  obtain ⟨found, -, heq⟩ := bind_eq_ok.1 heq
  cases found with
  | none =>
    cases heq
    exact ⟨h, rfl, rfl, fun _ _ => rfl⟩
  | some header =>
    obtain ⟨heap₁, hterm, heq⟩ := bind_eq_ok.1 heq
    obtain ⟨⟨x, heap₂⟩, hinit, heq⟩ := bind_eq_ok.1 heq
    obtain ⟨⟨x', heap₃⟩, hwrite, heq⟩ := bind_eq_ok.1 heq
    cases heq
    obtain ⟨hkeeps, hframe⟩ := keeps_refill hsound h hpart hterm hinit hwrite
    exact ⟨hkeeps, rfl, rfl, hframe⟩

/-- The ancillary data; the body stays as it is. -/
theorem keeps_sendControl {msghdr : NnMsghdr} (hsound : call.Sound before)
    (h : call.Keeps owned msg before heap) (hsphdr : .sphdr ∈ owned) (hhdrs : .hdrs ∈ owned)
    (heq : sendControl call msghdr msg heap = .ok (msg', heap')) :
    call.Keeps (if msghdr.msgControl ≠ 0 ∧ msghdr.msgControllen = nnMsg then owned.erase .hdrs
      else owned) msg' before
        heap' ∧
      msg'.body = msg.body ∧
      (∀ a, a ≠ (call.fresh .hdrs).addr → a ≠ (call.fresh .sphdr).addr → heap' a = heap a) ∧
      (msghdr.msgControl ≠ 0 → msghdr.msgControllen = nnMsg →
        msg'.hdrs.tag = 0xff ∧ call.pointer msghdr.msgControl = some (some msg'.hdrs.chunk)) := by
  rw [sendControl] at heq
  by_cases hcontrol : msghdr.msgControl = 0
  · rw [if_pos hcontrol] at heq
    cases heq
    rw [if_neg fun hand => hand.1 hcontrol]
    exact ⟨h, rfl, fun _ _ _ => rfl, fun hne => absurd hcontrol hne⟩
  · rw [if_neg hcontrol] at heq
    obtain ⟨⟨control, msg₁, heap₁⟩, hset, heq⟩ := bind_eq_ok.1 heq
    obtain ⟨hkeeps₁, hbody₁, hframe₁, hgiven⟩ := keeps_sendHdrs hsound h hhdrs hset
    have hmem : MsgPart.sphdr ∈ if msghdr.msgControllen = nnMsg then owned.erase .hdrs
        else owned := by
      split_ifs
      · exact Finset.mem_erase.2 ⟨by decide, hsphdr⟩
      · exact hsphdr
    obtain ⟨hkeeps', hbody', hhdrs', hframe'⟩ := keeps_sendSphdr hsound hkeeps₁ hmem heq
    simp only [ne_eq, hcontrol, not_false_eq_true, true_and, hhdrs']
    exact ⟨hkeeps', hbody'.trans hbody₁, fun a h₁ h₂ => (hframe' a h₂).trans (hframe₁ a h₁),
      fun _ => hgiven⟩

/-- A message of the call is terminated. -/
theorem nnMsgTerm_restored (hsound : call.Sound before)
    (h : call.Keeps {.body, .hdrs, .sphdr} msg before heap) (heq : nnMsgTerm msg heap = .ok heap') :
    heap' = before := by
  obtain ⟨heap₁, hsphdr, heq⟩ := bind_eq_ok.1 heq
  obtain ⟨heap₂, hhdrs, hbody⟩ := bind_eq_ok.1 heq
  have h₁ := (h.term hsound .sphdr (by decide) hsphdr).1
  have h₂ := (h₁.term hsound .hdrs (by decide) hhdrs).1
  have h₃ := (h₂.term hsound .body (by decide) hbody).1
  exact h₃.restored hsound

/-- A message with a chunk of the user as its headers is terminated. -/
theorem nnMsgTerm_given (hsound : call.Sound before) (h : call.Keeps owned msg before heap)
    (hsphdr : .sphdr ∈ owned) (hbody : .body ∈ owned) (htag : msg.hdrs.tag = 0xff)
    (hlive : before msg.hdrs.chunk.addr ≠ none)
    (heq : nnMsgTerm msg heap = .ok heap') :
    heap' msg.hdrs.chunk.addr ≠ before msg.hdrs.chunk.addr := by
  obtain ⟨heap₁, hterm, heq⟩ := bind_eq_ok.1 heq
  obtain ⟨heap₂, hfree, heq⟩ := bind_eq_ok.1 heq
  -- the chunk is not memory of the call
  have hne : ∀ part, msg.hdrs.chunk.addr ≠ (call.fresh part).addr :=
    fun part hpart => hlive (hpart ▸ hsound.free part)
  have h₁ := (h.term hsound .sphdr hsphdr hterm).1
  rw [nnChunkrefTerm, if_pos htag] at hfree
  obtain ⟨hfreed, hframe⟩ := nnChunkFree_ne hfree
  have hown : Owns msg.body heap₂ (call.fresh .body).addr :=
    (h₁.own .body (Finset.mem_erase.2 ⟨by decide, hbody⟩)).congr (hframe _ (hne .body).symm)
  rw [hown.term] at heq
  cases heq
  rw [Function.update_of_ne (hne .body), ← h₁.frame _ hne]
  exact hfreed

/-- The body is accepted, or an error is returned. -/
theorem sendBody_accepted {iovs : List NnIovec} {r : Except MsgErrno (Built × ChunkHeap)}
    (heq : sendBody call iovs heap = .ok r) : BodyAccepted call iovs ↔ ∃ built, r = .ok built := by
  rw [sendBody] at heq
  rw [BodyAccepted]
  cases hbase : nnMsgBase iovs with
  | some base =>
    rw [hbase] at heq
    dsimp only at heq ⊢
    cases hpointer : call.pointer base with
    | none =>
      rw [hpointer] at heq
      cases heq
    | some ptr =>
      rw [hpointer] at heq
      cases ptr with
      | none =>
        cases heq
        exact iff_of_false (fun hne => hne rfl) (by rintro ⟨_, ⟨⟩⟩)
      | some chunk =>
        obtain ⟨sz, -, heq⟩ := bind_eq_ok.1 heq
        cases heq
        exact iff_of_true (by rintro ⟨⟩) ⟨_, rfl⟩
  | none =>
    rw [hbase] at heq
    dsimp only at heq ⊢
    cases hsize : gatherSize iovs 0 with
    | error e =>
      rw [hsize] at heq
      cases heq
      exact iff_of_false (by rintro ⟨_, ⟨⟩⟩) (by rintro ⟨_, ⟨⟩⟩)
    | ok sz =>
      rw [hsize] at heq
      obtain ⟨⟨msg, heap₁⟩, -, heq⟩ := bind_eq_ok.1 heq
      obtain ⟨⟨body, heap₂⟩, -, heq⟩ := bind_eq_ok.1 heq
      cases heq
      exact iff_of_true ⟨sz, rfl⟩ ⟨_, rfl⟩

/-- What a message that was built comes from. -/
theorem buildMsg_inv {msghdr : Option NnMsghdr} {r : Except MsgErrno (Built × ChunkHeap)}
    (heq : buildMsg call msghdr heap = .ok r) :
    (∃ e, r = .error e) ∧ (∀ hdr ∈ msghdr, ¬ HandsOverControl call hdr) ∨
      ∃ hdr iovs built heap₁ msg heap₂, msghdr = some hdr ∧ call.hold = none ∧ 0 ≤ hdr.msgIovlen ∧
        hdr.iovs = .ok iovs ∧
        BodyAccepted call iovs ∧ sendBody call iovs heap = .ok (.ok (built, heap₁)) ∧
        sendControl call hdr built.msg heap₁ = .ok (msg, heap₂) ∧
          r = .ok ({ built with msg := msg }, heap₂) := by
  unfold buildMsg at heq
  split at heq
  · rename_i e hhold
    cases heq
    refine Or.inl ⟨⟨e, rfl⟩, fun hdr _ h => ?_⟩
    rw [h.held] at hhold
    cases hhold
  · rename_i hhold
    cases msghdr with
    | none =>
      cases heq
      exact Or.inl ⟨⟨_, rfl⟩, by rintro _ ⟨⟩⟩
    | some hdr =>
      simp only at heq
      by_cases hlen : hdr.msgIovlen < 0
      · rw [if_pos hlen] at heq
        cases heq
        refine Or.inl ⟨⟨_, rfl⟩, fun hdr' hmem h => ?_⟩
        obtain rfl := Option.mem_some_iff.1 hmem
        exact absurd hlen (not_lt.2 h.count)
      · rw [if_neg hlen] at heq
        obtain ⟨iovs, hiovs, heq⟩ := bind_eq_ok.1 heq
        obtain ⟨body, hbody, heq⟩ := bind_eq_ok.1 heq
        cases body with
        | error e =>
          cases heq
          refine Or.inl ⟨⟨e, rfl⟩, fun hdr' hmem h => ?_⟩
          obtain rfl := Option.mem_some_iff.1 hmem
          obtain ⟨iovs', hiovs', haccepted⟩ := h.body
          rw [hiovs] at hiovs'
          cases hiovs'
          obtain ⟨_, ⟨⟩⟩ := (sendBody_accepted hbody).1 haccepted
        | ok r₁ =>
          obtain ⟨built, heap₁⟩ := r₁
          obtain ⟨⟨msg, heap₂⟩, hcontrol, heq⟩ := bind_eq_ok.1 heq
          cases heq
          exact Or.inr ⟨hdr, iovs, built, heap₁, msg, heap₂, rfl, hhold, not_lt.1 hlen, hiovs,
            (sendBody_accepted hbody).2 ⟨_, rfl⟩, hbody, hcontrol, rfl⟩

/-- The body of a message that is discarded is one of the call: a chunk of the user is detached. -/
theorem keeps_detach (built : Built) {heap₁ : ChunkHeap} {user : Finset MsgPart}
    (hsound : call.Sound before)
    (h : call.Keeps (ownedWith built.nnmsg \ user) built.msg before heap) (huser : .body ∉ user)
    (heq : discardMsg built heap = .ok heap₁) :
    ∃ body, call.Keeps ({.body, .hdrs, .sphdr} \ user) { built.msg with body := body } before heap ∧
      nnMsgTerm { built.msg with body := body } heap = .ok heap₁ := by
  rw [discardMsg] at heq
  cases hnn : built.nnmsg with
  | false =>
    rw [hnn] at h heq
    exact ⟨built.msg.body, h, heq⟩
  | true =>
    rw [hnn] at h heq
    refine ⟨{ built.msg.body with tag := 0 }, ?_, heq⟩
    have hfree := h.unused .body fun hmem => by
      obtain ⟨hmem, -⟩ := Finset.mem_sdiff.1 hmem
      exact absurd hmem (by decide)
    have hput := h.put hsound (owns_empty (x := built.msg.body) hfree) fun _ _ => rfl
    rw [← Finset.insert_sdiff_of_notMem _ huser] at hput
    exact hput

/-- A send that fails leaves the heap as it was, unless a chunk with control data was handed over:
that chunk is not detached, and loses a reference.  (A message of 2^32 - 1 bytes is sent, though the
`int` that is returned for it is -1: no point of failure is reached.) -/
theorem nnSendmsg_failed_iff {msghdr : Option NnMsghdr} {e : MsgErrno} (hsound : call.Sound heap)
    (heq : nnSendmsg call msghdr heap = .ok (.failed e, heap')) :
    heap' = heap ↔ ∀ hdr ∈ msghdr, ¬ HandsOverControl call hdr := by
  obtain ⟨r, hbuild, heq⟩ := bind_eq_ok.1 heq
  obtain ⟨⟨e', rfl⟩, hnot⟩ | ⟨hdr, iovs, built, heap₁, msg, heap₂, rfl, hhold, hlen, hiovs,
    haccepted, hbody, hcontrol, rfl⟩ := buildMsg_inv hbuild
  · cases heq
    exact iff_of_true rfl hnot
  · simp only at heq
    split at heq
    · cases heq
    · obtain ⟨heap₃, hdiscard, heq⟩ := bind_eq_ok.1 heq
      cases heq
      have hkeeps := keeps_sendBody hsound hbody
      have hsphdr : MsgPart.sphdr ∈ ownedWith built.nnmsg := by
        cases built.nnmsg <;> decide
      have hhdrs : MsgPart.hdrs ∈ ownedWith built.nnmsg := by
        cases built.nnmsg <;> decide
      obtain ⟨hkeeps', -, -, hgiven⟩ := keeps_sendControl hsound hkeeps hsphdr hhdrs hcontrol
      by_cases hhand : hdr.msgControl ≠ 0 ∧ hdr.msgControllen = nnMsg
      · rw [if_pos hhand, Finset.erase_eq] at hkeeps'
        obtain ⟨body, hkeeps'', hterm⟩ :=
          keeps_detach { built with msg := msg } hsound hkeeps' (by decide)
          hdiscard
        obtain ⟨htag, hpointer⟩ := hgiven hhand.1 hhand.2
        have hlost := nnMsgTerm_given hsound hkeeps'' (by decide)
          (by decide) htag (hsound.live _ _ hpointer) hterm
        refine iff_of_false (fun hsame => hlost (congrFun hsame _)) fun hnot => ?_
        exact hnot hdr rfl ⟨hhold, hlen, ⟨iovs, hiovs, haccepted⟩, hhand.1, hhand.2⟩
      · rw [if_neg hhand, ← Finset.sdiff_empty (s := ownedWith built.nnmsg)] at hkeeps'
        obtain ⟨body, hkeeps'', hterm⟩ := keeps_detach { built with msg := msg } hsound hkeeps'
          (Finset.notMem_empty _) hdiscard
        rw [Finset.sdiff_empty] at hkeeps''
        refine iff_of_true (nnMsgTerm_restored hsound hkeeps'' hterm) fun hdr' hmem h => hhand ?_
        obtain rfl := Option.mem_some_iff.1 hmem
        exact ⟨h.control, h.chunk⟩

end

/-- A call with a chunk of three bytes as the body and an empty chunk with control data; the socket
is busy. -/
def busyCall : SendCall where
  bytes := fun _ => none
  pointer := fun base => if base = 100 then some (some ⟨1, 8⟩)
    else if base = 108 then some (some ⟨2, 8⟩) else none
  fresh := fun part => ⟨match part with | .sphdr => 10 | .hdrs => 11 | .body => 12, fun _ => 0⟩
  avail := fun _ => true
  stack := ⟨⟨0, .replicate 31 0, ⟨0, 0⟩⟩, ⟨0, .replicate 31 0, ⟨0, 0⟩⟩,
    ⟨0, .replicate 31 0, ⟨0, 0⟩⟩⟩
  hold := none
  send := fun _ => some .eagain

/-- The two chunks. -/
def busyHeap : ChunkHeap := fun addr =>
  if addr = 1 then some ⟨1, 3, nnPutl 0 ++ nnPutl nnChunkTag ++ [1, 2, 3]⟩
  else if addr = 2 then some ⟨1, 0, nnPutl 0 ++ nnPutl nnChunkTag⟩
  else none

/-- Both chunks are handed over. -/
def busyMsghdr : NnMsghdr := ⟨[⟨100, nnMsg⟩], 1, 108, nnMsg⟩

theorem busyCall_sound : busyCall.Sound busyHeap := by
  refine ⟨fun part => ?_, fun part part' heq => ?_, fun base chunk hpointer => ?_⟩
  · cases part <;> rfl
  · cases part <;> cases part' <;> first | rfl | exact absurd heq (by decide)
  · simp only [busyCall] at hpointer
    split_ifs at hpointer <;> cases hpointer <;> simp [busyHeap]

/-- The body survives the failure; the chunk with the control data is gone. -/
theorem failed_send_frees_control :
    ∃ heap', nnSendmsg busyCall (some busyMsghdr) busyHeap = .ok (.failed .eagain, heap') ∧
      heap' 1 = busyHeap 1 ∧ (busyHeap 2).isSome ∧ heap' 2 = none := by
  refine ⟨_, rfl, ?_, ?_, ?_⟩
  all_goals rfl

/-- Without control data nothing is lost. -/
theorem nnSendmsg_failed_iff_busy :
    ∃ heap', nnSendmsg busyCall (some { busyMsghdr with msgControl := 0 }) busyHeap =
      .ok (.failed .eagain, heap') ∧ heap' = busyHeap := by
  obtain ⟨heap', heq⟩ :
    ∃ heap', nnSendmsg busyCall (some { busyMsghdr with msgControl := 0 }) busyHeap =
      .ok (.failed .eagain, heap') := ⟨_, rfl⟩
  refine ⟨heap', heq, (nnSendmsg_failed_iff busyCall_sound heq).2 fun hdr hmem h => h.control ?_⟩
  rw [← Option.mem_some_iff.1 hmem]

end NanoSocket.Core

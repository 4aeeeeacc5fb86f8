import NanoSocket.Core.SendOwned

/-!
# What is sent and what is received (`core/global.c`)

`nn_sendmsg` makes the body of a message of the bytes at the addresses of the entries, and
`nn_recvmsg` stores a body at the addresses of the entries.  `Gathers` and `Scatters` say what they
should do.

`nn_sendmsg` looks for entries with a NULL base, and `nn_recvmsg` does not; and the size of a body
from 2^31 bytes on is not an `int` (`gathers_and_scatters_iff`).
-/

namespace NanoSocket.Core

open Slice

/-- `nn_sendmsg` builds a message with these bytes as its body.  It returns no error before the
socket has the message; with control data it may not get there. -/
structure Gathers (call : SendCall) (msghdr : NnMsghdr) (heap : ChunkHeap) (bytes : List UInt8) :
    Prop where
  body : ∀ built heap', buildMsg call (some msghdr) heap = .ok (.ok (built, heap')) →
    built.sz = bytes.length ∧ toInt built.sz = bytes.length ∧ built.msg.body.Holds heap' bytes
  accepted : ∀ e, buildMsg call (some msghdr) heap ≠ .ok (.error e)
  builds : msghdr.msgControl = 0 → call.avail .body →
    ∃ built heap', buildMsg call (some msghdr) heap = .ok (.ok (built, heap'))

/-- These bytes are at the addresses of the entries. -/
def EntryBytes (mem : Memory UInt8) (iovs : List NnIovec) (bytes : List UInt8) : Prop :=
  List.Forall₂ (fun a b => mem a = some b) (entryAddresses iovs) bytes

/-- `nn_recvmsg` stores the body over the entries, and nothing else, and returns its size. -/
def Scatters (iovs : List NnIovec) (body : List UInt8) (mem : Memory UInt8) : Prop :=
  recvBody iovs body mem = .ok (.ok (body.length, poke mem ((entryAddresses iovs).zip body)))

section

variable {call : SendCall} {iovs : List NnIovec} {bytes : List UInt8} {mem : Memory UInt8}
  {x : Chunkref}
  {heap : ChunkHeap}

/-- The sizes are added up. -/
theorem gatherSize_ok (sz : UInt64) (hentries : ∀ iov ∈ iovs, iov.iovLen ≠ nnMsg ∧ iov.iovBase ≠ 0)
    (hsize : sz.toNat + (entryAddresses iovs).length < 2 ^ 64) :
    ∃ total, gatherSize iovs sz = .ok total ∧
      total.toNat = sz.toNat + (entryAddresses iovs).length := by
  induction iovs generalizing sz with
  | nil => exact ⟨sz, rfl, rfl⟩
  | cons iov rest ih =>
    obtain ⟨hnotMsg, hbase⟩ := hentries iov List.mem_cons_self
    have hlength : (entryAddresses (iov :: rest)).length = iov.iovLen.toNat +
        (entryAddresses rest).length := by
      rw [entryAddresses_cons, List.length_append, List.length_map, List.length_range]
    rw [hlength] at hsize ⊢
    have hadd : (sz + iov.iovLen).toNat = sz.toNat + iov.iovLen.toNat := by
      rw [UInt64.toNat_add, Nat.mod_eq_of_lt (by omega)]
    have hwrap : ¬ sz + iov.iovLen < sz := by
      rw [UInt64.lt_iff_toNat_lt, hadd]
      omega
    obtain ⟨total, heq, htotal⟩ :=
      ih (sz + iov.iovLen) (fun iov' hmem => hentries iov' (List.mem_cons_of_mem _ hmem))
      (by omega)
    refine ⟨total, ?_, by omega⟩
    rw [gatherSize, if_neg hnotMsg, if_neg (fun h => hbase h.1), if_neg hwrap, heq]

/-- A new reference has place for so many bytes. -/
theorem nnChunkrefInit_holds {x' : Chunkref} {heap' : ChunkHeap} {size : ℕ} {mem : Option Fresh}
    (hlen : x.ref.length = 31) (heq : nnChunkrefInit x heap size mem = .ok (x', heap')) :
    x'.ref.length = 31 ∧ ∃ old, old.length = size ∧ x'.Holds heap' old := by
  by_cases hsmall : size < nnChunkrefMax
  · obtain ⟨heq', -, hholds⟩ := nnChunkrefInit_inline x heap hsmall mem
    rw [heq'] at heq
    cases heq
    refine ⟨hlen, _, ?_, hholds⟩
    unfold nnChunkrefMax at hsmall
    rw [List.length_take]
    omega
  · rw [nnChunkrefInit, if_neg hsmall] at heq
    split at heq
    · cases heq
    · rename_i halloc
      cases heq
      obtain ⟨f, c, rfl, rfl, rfl, hholds, -⟩ := nnChunkAlloc_inv halloc
      refine ⟨hlen, _, ?_, (Chunkref.Holds.of_heap rfl).2 ⟨c, Function.update_self .., hholds⟩⟩
      rw [List.length_map, List.length_range]

theorem exists_nnChunkrefInit (x : Chunkref) (heap : ChunkHeap) {size : ℕ} {part : MsgPart}
    (hsize : nnChunkHdrsize + size < 2 ^ 64)
    (havail : call.avail part) : ∃ r, nnChunkrefInit x heap size (call.alloc part) = .ok r := by
  by_cases hsmall : size < nnChunkrefMax
  · exact ⟨_, (nnChunkrefInit_inline x heap hsmall _).1⟩
  · have halloc : call.alloc part = some (call.fresh part) := if_pos havail
    obtain ⟨c, heq, -⟩ := nnChunkrefInit_heap x heap (not_lt.1 hsmall) hsize (call.fresh part)
    exact ⟨_, halloc ▸ heq⟩

/-- The bytes of an entry, and those of the entries behind it. -/
theorem EntryBytes.cons {iov : NnIovec} {rest : List NnIovec}
    (h : EntryBytes mem (iov :: rest) bytes) :
    ∃ first behind, bytes = first ++ behind ∧
      loadUser mem iov.iovBase iov.iovLen.toNat = .ok first ∧
      first.length = iov.iovLen.toNat ∧ EntryBytes mem rest behind := by
  have hrange : ((List.range iov.iovLen.toNat).map (iov.iovBase + ·)).length =
      iov.iovLen.toNat := by
    rw [List.length_map, List.length_range]
  rw [EntryBytes, entryAddresses_cons] at h
  have hfirst := List.forall₂_take iov.iovLen.toNat h
  have hbehind := List.forall₂_drop iov.iovLen.toNat h
  rw [List.take_left' hrange] at hfirst
  rw [List.drop_left' hrange] at hbehind
  have hlength := hfirst.length_eq.symm.trans hrange
  have hload : mem.load iov.iovBase iov.iovLen.toNat = some (bytes.take iov.iovLen.toNat) := by
    refine Memory.load_eq_some.2 ⟨hlength, fun i hi => ?_⟩
    have hget := hfirst.get (i := i) (by omega) (by omega)
    simp only [List.get_eq_getElem, List.getElem_map, List.getElem_range] at hget
    rw [hget, List.getElem?_eq_getElem (by omega)]
  refine ⟨_, _, (List.take_append_drop _ bytes).symm, ?_, hlength, hbehind⟩
  rw [loadUser, hload]

/-- The entries are copied behind what was copied before. -/
theorem gatherCopy_holds {done old : List UInt8} (hbytes : EntryBytes mem iovs bytes)
    (hlen : x.ref.length = 31) (h : x.Holds heap (done ++ old)) (hold : old.length = bytes.length) :
    ∃ x' heap', gatherCopy mem iovs done.length x heap = .ok (x', heap') ∧
      x'.Holds heap' (done ++ bytes) := by
  induction iovs generalizing done old bytes x heap with
  | nil =>
    have hnil : bytes = [] := List.forall₂_nil_left_iff.1 hbytes
    rw [hnil, List.length_nil, List.length_eq_zero_iff] at hold
    rw [hold] at h
    exact ⟨x, heap, rfl, hnil ▸ h⟩
  | cons iov rest ih =>
    obtain ⟨first, behind, rfl, hload, hlength, hrest⟩ := hbytes.cons
    rw [List.length_append] at hold
    obtain ⟨x₁, heap₁, hwrite, hholds₁, -, -, hlen₁, -⟩ := h.write hlen
      (show done.length + first.length ≤ (done ++ old).length by rw [List.length_append]; omega)
    have hsplice :
        splice (done ++ old) done.length first = (done ++ first) ++ old.drop first.length := by
      rw [splice, List.take_left, List.drop_append, List.drop_of_length_le (by omega)]
      simp
    rw [hsplice] at hholds₁
    obtain ⟨x', heap', hcopy, hholds'⟩ := ih hrest hlen₁ hholds₁ (by rw [List.length_drop]; omega)
    rw [List.append_assoc] at hholds'
    refine ⟨x', heap', ?_, hholds'⟩
    rw [gatherCopy, hload, ok_bind, hwrite, ok_bind, ← hlength]
    rw [List.length_append] at hcopy
    exact hcopy

/-- There is no pointer to a chunk instead of the entries. -/
theorem nnMsgBase_none (hentries : ∀ iov ∈ iovs, iov.iovLen ≠ nnMsg ∧ iov.iovBase ≠ 0) :
    nnMsgBase iovs = none := by
  match iovs with
  | [] => rfl
  | [iov] => exact if_neg (hentries iov List.mem_cons_self).1
  | _ :: _ :: _ => rfl

/-- The body is made of the entries. -/
theorem sendBody_cases (heap : ChunkHeap)
    (hentries : ∀ iov ∈ iovs, iov.iovLen ≠ nnMsg ∧ iov.iovBase ≠ 0)
    (hbytes : EntryBytes call.bytes iovs bytes) (hsize : bytes.length < 2 ^ 31)
    (hlen : call.stack.body.ref.length = 31) :
    (∀ e, sendBody call iovs heap ≠ .ok (.error e)) ∧
      (∀ built heap', sendBody call iovs heap = .ok (.ok (built, heap')) →
        built.sz = bytes.length ∧ built.nnmsg = false ∧ built.msg.body.Holds heap' bytes) ∧
      (call.avail .body → ∃ built heap', sendBody call iovs heap = .ok (.ok (built, heap'))) := by
  have hlength : (entryAddresses iovs).length = bytes.length := hbytes.length_eq
  have hzero : (0 : UInt64).toNat = 0 := rfl
  obtain ⟨total, htotal, hnat⟩ := gatherSize_ok 0 hentries (by omega)
  rw [hzero, zero_add, hlength] at hnat
  have hbody : sendBody call iovs heap =
      (nnMsgInit call.stack heap bytes.length (call.alloc .body) >>= fun r =>
      gatherCopy call.bytes iovs 0 r.1.body r.2 >>= fun r' =>
        .ok (.ok (⟨{ r.1 with body := r'.1 }, bytes.length, false⟩, r'.2))) := by
    rw [sendBody, nnMsgBase_none hentries, htotal]
    simp only [hnat]
    rfl
  rw [hbody, nnMsgInit_eq]
  -- the copy goes through, whatever is in the new body
  have hcopy : ∀ x heap₁, nnChunkrefInit call.stack.body heap bytes.length (call.alloc .body) =
      .ok (x, heap₁) →
      ∃ x' heap', gatherCopy call.bytes iovs 0 x heap₁ = .ok (x', heap') ∧
        x'.Holds heap' bytes := by
    intro x heap₁ hinit
    obtain ⟨hlen₁, old, hold, hholds⟩ := nnChunkrefInit_holds hlen hinit
    have hdone : x.Holds heap₁ ([] ++ old) := hholds
    exact gatherCopy_holds hbytes hlen₁ hdone hold
  refine ⟨fun e heq => ?_, fun built heap' heq => ?_, fun havail => ?_⟩
  · obtain ⟨_, -, heq⟩ := bind_eq_ok.1 heq
    obtain ⟨_, -, ⟨⟩⟩ := bind_eq_ok.1 heq
  · obtain ⟨⟨msg, heap₁⟩, hinit, heq⟩ := bind_eq_ok.1 heq
    obtain ⟨⟨x, heap₂⟩, hinit', hmsg⟩ := bind_eq_ok.1 hinit
    cases hmsg
    obtain ⟨x', heap₃, hcopied, hholds⟩ := hcopy x heap₂ hinit'
    simp only [hcopied] at heq
    cases heq
    exact ⟨rfl, rfl, hholds⟩
  · have hsize' : nnChunkHdrsize + bytes.length < 2 ^ 64 := by
      unfold nnChunkHdrsize
      omega
    obtain ⟨⟨x, heap₁⟩, hinit⟩ := exists_nnChunkrefInit call.stack.body heap hsize' havail
    obtain ⟨x', heap', hcopied, -⟩ := hcopy x heap₁ hinit
    rw [hinit, ok_bind, ok_bind]
    simp only [hcopied]
    exact ⟨_, _, rfl⟩

/-- The control data do not touch a body of the call. -/
theorem holds_sendControl {msghdr : NnMsghdr} {owned : Finset MsgPart} {msg msg' : ChunkMsg}
    {before heap' : ChunkHeap} (hholds : msg.body.Holds heap bytes) (hsound : call.Sound before)
    (h : call.Keeps owned msg before heap) (hall : ∀ part, part ∈ owned)
    (heq : sendControl call msghdr msg heap = .ok (msg', heap')) : msg'.body.Holds heap' bytes := by
  obtain ⟨-, hbody, hframe, -⟩ := keeps_sendControl hsound h (hall .sphdr) (hall .hdrs) heq
  rw [hbody]
  refine hholds.congr fun htag => ?_
  rw [((owns_heap htag).1 (h.own .body (hall .body))).1]
  exact hframe _ (fun heq => nomatch hsound.distinct _ _ heq) fun heq =>
    nomatch hsound.distinct _ _ heq

/-- `nn_sendmsg` gathers. -/
theorem gathers {msghdr : NnMsghdr} (hsound : call.Sound heap) (hhold : call.hold = none)
    (hcount : 0 ≤ msghdr.msgIovlen) (hiovs : msghdr.iovs = .ok iovs)
    (hentries : ∀ iov ∈ iovs, iov.iovLen ≠ nnMsg ∧ iov.iovBase ≠ 0)
    (hbytes : EntryBytes call.bytes iovs bytes) (hsize : bytes.length < 2 ^ 31)
    (hlen : call.stack.body.ref.length = 31) :
    Gathers call msghdr heap bytes := by
  obtain ⟨hnot, hbody, hbuilds⟩ := sendBody_cases heap hentries hbytes hsize hlen
  refine ⟨fun built heap' heq => ?_, fun e heq => ?_, fun hcontrol havail => ?_⟩
  · obtain ⟨⟨e, ⟨⟩⟩, -⟩ | ⟨hdr, iovs', built₁, heap₁, msg, heap₂, hhdr, -, -, hiovs', -, hbody',
        hcontrol, heq'⟩ :=
      buildMsg_inv heq
    cases hhdr
    cases heq'
    rw [hiovs] at hiovs'
    cases hiovs'
    obtain ⟨hsz, hnn, hholds⟩ := hbody built₁ heap₁ hbody'
    have hkeeps := keeps_sendBody hsound hbody'
    rw [hnn] at hkeeps
    refine ⟨hsz, ?_,
      holds_sendControl hholds hsound hkeeps (fun part => by cases part <;> decide) hcontrol⟩
    rw [hsz]
    exact toInt_eq_iff.2 hsize
  · obtain ⟨-, hnot'⟩ | ⟨hdr, iovs', built₁, heap₁, msg, heap₂, -, -, -, -, -, -, -, ⟨⟩⟩ :=
      buildMsg_inv heq
    rw [buildMsg, hhold] at heq
    simp only [if_neg (not_lt.2 hcount), hiovs, ok_bind] at heq
    obtain ⟨r, hr, heq⟩ := bind_eq_ok.1 heq
    cases r with
    | error e' => exact hnot e' hr
    | ok r =>
      obtain ⟨_, -, ⟨⟩⟩ := bind_eq_ok.1 heq
  · obtain ⟨built, heap', heq⟩ := hbuilds havail
    refine ⟨built, heap', ?_⟩
    rw [buildMsg, hhold]
    simp only [if_neg (not_lt.2 hcount), hiovs, ok_bind, heq]
    rw [sendControl, if_pos hcontrol]
    rfl

end

/-- The entries are gathered by every send; they are scattered by a receive if and only if no byte
goes to NULL, and the size of the body is an `int`. -/
theorem gathers_and_scatters_iff {call : SendCall} {msghdr : NnMsghdr} {heap : ChunkHeap}
    {entries : List NnIovec} {bytes : List UInt8} (hsound : call.Sound heap)
    (hhold : call.hold = none) (hcount : 0 ≤ msghdr.msgIovlen) (hiovs : msghdr.iovs = .ok entries)
    (hentries : ∀ iov ∈ entries, iov.iovLen ≠ nnMsg ∧ iov.iovBase ≠ 0)
    (hbytes : EntryBytes call.bytes entries bytes) (hsize : bytes.length < 2 ^ 31)
    (hlen : call.stack.body.ref.length = 31) {iovs : List NnIovec} {body : List UInt8}
    {mem : Memory UInt8} (hbuffers : Buffers mem iovs) :
    Gathers call msghdr heap bytes ∧
      (Scatters iovs body mem ↔ NoByteToNull iovs body ∧ body.length < 2 ^ 31) :=
  ⟨gathers hsound hhold hcount hiovs hentries hbytes hsize hlen, recvBody_eq_iff hbuffers⟩

/-- No address is mapped. -/
def unmapped : Memory UInt8 := fun _ => none

/-- An entry without a buffer is written to; and the size of a body of 2^31 bytes is returned as a
negative number. -/
theorem recvBody_null_and_negative :
    recvBody [⟨0, 4⟩] [1] unmapped = .error .nullDeref ∧
      recvBody [] (List.replicate (2 ^ 31) 0) unmapped = .ok (.ok (-2 ^ 31, unmapped)) ∧
      ¬ Scatters [⟨0, 4⟩] [1] unmapped ∧ ¬ Scatters [] (List.replicate (2 ^ 31) 0) unmapped := by
  have hnull : recvBody [⟨0, 4⟩] [1] unmapped = .error .nullDeref := rfl
  have hnegative :
      recvBody [] (List.replicate (2 ^ 31) 0) unmapped = .ok (.ok (-2 ^ 31, unmapped)) := by
    have hempty : ∀ body, recvBody [] body unmapped = .ok (.ok (toInt body.length, unmapped)) :=
      fun _ => rfl
    have hint : toInt (2 ^ 31) = -2 ^ 31 := by decide
    rw [hempty, List.length_replicate, hint]
  refine ⟨hnull, hnegative, fun h => ?_, fun h => ?_⟩
  · cases hnull.symm.trans h
  · have heq := hnegative.symm.trans h
    simp only [List.length_replicate, Except.ok.injEq, Prod.mk.injEq] at heq
    exact absurd heq.1 (by norm_num)

/-- A call with three bytes at the addresses from 200 on. -/
def gatherCall : SendCall :=
  { busyCall with
    bytes := fun a => if 200 ≤ a ∧ a < 203 then some (.ofNat a) else none
    send := fun _ => none }

theorem gathers_and_scatters_iff_three :
    Gathers gatherCall ⟨[⟨200, 1⟩, ⟨300, 0⟩, ⟨201, 2⟩], 3, 0, 0⟩ busyHeap [200, 201, 202] ∧
      (Scatters [⟨200, 1⟩, ⟨0, 0⟩, ⟨201, 2⟩] [1, 2, 3, 4] gatherCall.bytes ↔
        NoByteToNull [⟨200, 1⟩, ⟨0, 0⟩, ⟨201, 2⟩] [1, 2, 3, 4] ∧ [1, 2, 3, 4].length < 2 ^ 31) := by
  have hsound : gatherCall.Sound busyHeap :=
    ⟨busyCall_sound.free, busyCall_sound.distinct, busyCall_sound.live⟩
  have hentries : ∀ iov ∈ ([⟨200, 1⟩, ⟨300, 0⟩, ⟨201, 2⟩] : List NnIovec), iov.iovLen ≠ nnMsg ∧
      iov.iovBase ≠ 0 := by
    decide
  have hbytes : EntryBytes gatherCall.bytes [⟨200, 1⟩, ⟨300, 0⟩, ⟨201, 2⟩] [200, 201, 202] := by
    change List.Forall₂ _ [200, 201, 202] [200, 201, 202]
    exact .cons rfl (.cons rfl (.cons rfl .nil))
  have hbuffers : Buffers gatherCall.bytes [⟨200, 1⟩, ⟨0, 0⟩, ⟨201, 2⟩] := by
    refine ⟨rfl, ?_⟩
    decide
  exact gathers_and_scatters_iff hsound rfl (by decide) rfl hentries hbytes (by decide)
    (by decide) hbuffers

end NanoSocket.Core

import NanoSocket.Core.ChunkMsg
import NanoSocket.Lib.Runs

/-!
# What the copies of a message share (`utils/msg.c`, `utils/chunkref.c`, `utils/chunk.c`)

The references to a chunk share the size in its structure, and the data that a new header is written
over. `copies_independent_iff` says which calls on one copy of a message can be seen through another
one: those that trim something off a part that has a chunk.
-/

namespace NanoSocket

open Runs Slice

/-- The chunks, and a message (number 0) with its copies. -/
structure Copies where
  heap : ChunkHeap
  msgs : ℕ → ChunkMsg

/-- The ways to copy a message. -/
inductive Copied (msg : ChunkMsg) (heap : ChunkHeap) : Copies → Prop
  | cp {dst : ChunkMsg} {heap' : ChunkHeap} : nnMsgCp msg heap = .ok (dst, heap') →
      Copied msg heap ⟨heap', fun k => if k = 0 then msg else dst⟩
  | bulkcopy {heap' : ChunkHeap} (copies : ℕ) : nnMsgBulkcopyStart msg heap copies = .ok heap' →
      Copied msg heap ⟨heap', fun k => if k = 0 then msg else nnMsgBulkcopyCp msg⟩

/-- A call on a part of a message. -/
inductive CopyCall
  | trim (part : MsgPart) (n : ℕ)
  | size (part : MsgPart)
  | data (part : MsgPart)

/-- The size that is seen through a reference, and the bytes. -/
def observe (x : Chunkref) (heap : ChunkHeap) : Except Fault (ℕ × List UInt8) := do
  let n ← nnChunkrefSize x heap
  return (n, ← chunkrefRead x heap n)

namespace Copies

/-- Make a call on the message number `i`. -/
def call (i : ℕ) (w : Copies) : CopyCall → Except Fault (Copies × (ℕ × List UInt8))
  | .trim part n => do
    let (x, heap) ← nnChunkrefTrim ((w.msgs i).part part) w.heap n
    return (⟨heap, Function.update w.msgs i ((w.msgs i).setPart x part)⟩, (0, []))
  | .size part => do return (w, (← nnChunkrefSize ((w.msgs i).part part) w.heap, []))
  | .data part => do return (w, ← observe ((w.msgs i).part part) w.heap)

/-- The message number `j` looks as it did, and its pointers lead to chunks. -/
def Undisturbed (j : ℕ) (w w' : Copies) : Prop :=
  ∀ part, observe ((w'.msgs j).part part) w'.heap = observe ((w.msgs j).part part) w.heap ∧
    (((w'.msgs j).part part).tag = 0xff → ∃ c,
      nnChunkGetptr w'.heap ((w'.msgs j).part part).chunk = .ok c)

/-- The call trims something off a part that has the chunk at this address. -/
def Cuts (msg : ChunkMsg) (c : CopyCall) (a : ℕ) : Prop :=
  ∃ part n, c = .trim part n ∧ 0 < n ∧ (msg.part part).tag = 0xff ∧ (msg.part part).chunk.addr = a

end Copies

/-- What trimming does. -/
theorem nnChunkTrim_ok {heap heap' : ChunkHeap} {p p' : ChunkPtr} {n : ℕ}
    (h : nnChunkTrim heap p n = .ok (p', heap')) :
    ∃ c area, heap p.addr = some c ∧ n ≤ c.size ∧ p' = ⟨p.addr, p.pos + n⟩ ∧
      (n = 0 → area = c.area) ∧
      heap' = Function.update heap p.addr (some { c with area := area, size := c.size - n }) := by
  obtain ⟨c, hptr, h⟩ := bind_eq_ok.1 h
  obtain ⟨⟨⟩, hn, h⟩ := bind_eq_ok.1 h
  obtain ⟨area, harea, h⟩ := bind_eq_ok.1 h
  obtain ⟨⟨⟩, hempty, h⟩ := bind_eq_ok.1 h
  obtain ⟨area', harea', h⟩ := bind_eq_ok.1 h
  obtain ⟨rfl, rfl⟩ := Prod.mk.inj (Except.ok.inj h)
  obtain ⟨hc, hpos, -, hlen, hheader⟩ := nnChunkGetptr_iff.1 hptr
  refine ⟨c, area', hc, ?_, rfl, ?_, rfl⟩
  · by_contra hlt
    rw [nnAssert_of_not hlt] at hn
    cases hn
  · rintro rfl
    -- the header that is written is the one that the pointer was followed by
    have hfour : (nnPutl (.ofNat (p.pos - 8))).length = 4 := length_nnPutl _
    have hoff : slice c.area (p.pos - 8) 4 = nnPutl (.ofNat (p.pos - 8)) := by
      rw [slice_take hheader (by omega)]
      exact List.take_left' hfour
    have htag : slice c.area (p.pos - 4) 4 = nnPutl nnChunkTag := by
      have := slice_drop (m := 4) (n := 4) hheader
      rw [show p.pos - 8 + 4 = p.pos - 4 by omega] at this
      rw [this]
      exact List.drop_left' hfour
    rw [add_zero, writeArea_of_le (by rw [length_nnPutl]; omega),
      splice_slice (by rw [length_nnPutl]; exact htag)] at harea
    obtain rfl := Except.ok.inj harea
    rw [add_zero, writeArea_of_le (by rw [hfour]; omega),
      splice_slice (by rw [hfour]; exact hoff)] at harea'
    exact (Except.ok.inj harea').symm

namespace Copies

variable {i : ℕ} {w w' : Copies}

/-- What calls on the message number `i` do: to the others nothing, and the sizes of the chunks only
go down. -/
structure Effect (i : ℕ) (w w' : Copies) (calls : List CopyCall) : Prop where
  others : ∀ k ≠ i, w'.msgs k = w.msgs k
  tag : ∀ part, ((w'.msgs i).part part).tag = 0xff ↔ ((w.msgs i).part part).tag = 0xff
  addr : ∀ part, ((w.msgs i).part part).tag = 0xff →
    ((w'.msgs i).part part).chunk.addr = ((w.msgs i).part part).chunk.addr
  sizes : ∀ a c', w'.heap a = some c' → ∃ c, w.heap a = some c ∧ c'.size ≤ c.size ∧
    ((∃ call ∈ calls, Cuts (w.msgs i) call a) → c'.size < c.size)
  quiet : (∀ a, ∀ call ∈ calls, ¬ Cuts (w.msgs i) call a) → w'.heap = w.heap

theorem Effect.refl (i : ℕ) (w : Copies) {calls : List CopyCall}
    (h : ∀ a, ∀ call ∈ calls, ¬ Cuts (w.msgs i) call a) :
    Effect i w w calls := by
  refine ⟨fun _ _ => rfl, fun _ => Iff.rfl, fun _ _ => rfl,
    fun a c hc => ⟨c, hc, le_refl _, ?_⟩, fun _ => rfl⟩
  rintro ⟨call, hcall, hcut⟩
  exact absurd hcut (h a call hcall)

theorem Effect.cuts_iff {calls : List CopyCall} (h : Effect i w w' calls) (c : CopyCall) (a : ℕ) :
    Cuts (w'.msgs i) c a ↔ Cuts (w.msgs i) c a := by
  refine exists_congr fun part => exists_congr fun n => and_congr_right fun _ =>
    and_congr_right fun _ => ?_
  rw [h.tag]
  refine and_congr_right fun htag => ?_
  rw [h.addr part htag]

theorem Effect.trans {w'' : Copies} {calls calls' : List CopyCall} (h : Effect i w w' calls)
    (h' : Effect i w' w'' calls') : Effect i w w'' (calls ++ calls') := by
  refine ⟨fun k hk => (h'.others k hk).trans (h.others k hk),
    fun part => (h'.tag part).trans (h.tag part), fun part htag =>
    (h'.addr part ((h.tag part).2 htag)).trans (h.addr part htag), fun a c'' hc'' => ?_,
    fun hquiet => ?_⟩
  · obtain ⟨c', hc', hle', hlt'⟩ := h'.sizes a c'' hc''
    obtain ⟨c, hc, hle, hlt⟩ := h.sizes a c' hc'
    refine ⟨c, hc, hle'.trans hle, ?_⟩
    rintro ⟨call, hcall, hcut⟩
    rcases List.mem_append.1 hcall with hcall | hcall
    · exact hle'.trans_lt (hlt ⟨call, hcall, hcut⟩)
    · exact (hlt' ⟨call, hcall, (h.cuts_iff call a).2 hcut⟩).trans_le hle
  · refine (h'.quiet fun a call hcall hcut => ?_).trans (h.quiet fun a call hcall => ?_)
    · exact hquiet a call (List.mem_append_right _ hcall) ((h.cuts_iff call a).1 hcut)
    · exact hquiet a call (List.mem_append_left _ hcall)

/-- A part of one message is replaced. -/
theorem part_update (i k : ℕ) (w : Copies) (part q : MsgPart) (x : Chunkref) :
    (Function.update w.msgs i ((w.msgs i).setPart x part) k).part q =
      if k = i ∧ q = part then x else (w.msgs k).part q := by
  by_cases hk : k = i
  · subst hk
    rw [Function.update_self, ChunkMsg.part_setPart]
    simp
  · rw [Function.update_of_ne hk, if_neg fun h => hk h.1]

/-- An inline part stays inline. -/
theorem tag_sub_ne {tag : UInt8} {n : ℕ} (htag : tag ≠ 0xff) (hn : n ≤ tag.toNat) :
    tag - .ofNat n ≠ 0xff := by
  have hofNat : (UInt8.ofNat n).toNat = n := UInt8.toNat_ofNat_of_lt' (hn.trans_lt tag.toNat_lt)
  intro heq
  have hsub := congrArg UInt8.toNat heq
  rw [UInt8.toNat_sub_of_le _ _ (UInt8.le_iff_toNat_le.2 (by rw [hofNat]; exact hn)),
    hofNat] at hsub
  have hlt : tag.toNat ≠ 255 := fun h => htag (UInt8.toNat_inj.1 h)
  have := tag.toNat_lt
  change _ = 255 at hsub
  omega

/-- The part has a chunk, which is trimmed. -/
theorem effect_of_trim_heap {part : MsgPart} {n : ℕ} {x' : Chunkref} {heap' : ChunkHeap}
    (htag : ((w.msgs i).part part).tag = 0xff)
    (h : nnChunkrefTrim ((w.msgs i).part part) w.heap n = .ok (x', heap')) :
    Effect i w ⟨heap', Function.update w.msgs i ((w.msgs i).setPart x' part)⟩ [.trim part n] := by
  have hothers : ∀ k ≠ i, Function.update w.msgs i ((w.msgs i).setPart x' part) k = w.msgs k :=
    fun k hk => Function.update_of_ne hk ..
  rw [nnChunkrefTrim, if_pos htag] at h
  obtain ⟨⟨p', heap₁⟩, htrim, h⟩ := bind_eq_ok.1 h
  obtain ⟨rfl, rfl⟩ := Prod.mk.inj (Except.ok.inj h)
  obtain ⟨c, area, hc, hn, rfl, hsame, rfl⟩ := nnChunkTrim_ok htrim
  refine ⟨hothers, fun q => ?_, fun q _ => ?_, fun a c' hc' => ?_, fun hquiet => ?_⟩
  · simp only [part_update]
    split_ifs with hq
    · rw [hq.2]
    · rfl
  · simp only [part_update]
    split_ifs with hq
    · rw [hq.2]
    · rfl
  · by_cases ha : a = ((w.msgs i).part part).chunk.addr
    · subst ha
      simp only [Function.update_self] at hc'
      obtain rfl := Option.some_inj.1 hc'
      refine ⟨c, hc, Nat.sub_le .., ?_⟩
      rintro ⟨call, hcall, q, m, hcut, hm, -⟩
      rw [List.mem_singleton] at hcall
      obtain ⟨-, rfl⟩ := CopyCall.trim.inj (hcall.symm.trans hcut)
      exact Nat.sub_lt_of_pos_le hm hn
    · simp only [Function.update_of_ne ha] at hc'
      refine ⟨c', hc', le_refl _, ?_⟩
      rintro ⟨call, hcall, q, m, hcut, -, -, haddr⟩
      rw [List.mem_singleton] at hcall
      obtain ⟨rfl, -⟩ := CopyCall.trim.inj (hcall.symm.trans hcut)
      exact absurd haddr.symm ha
  · have hzero : n = 0 := by
      by_contra hne
      exact hquiet _ _ (List.mem_singleton_self _) ⟨part, n, rfl, Nat.pos_of_ne_zero hne, htag, rfl⟩
    obtain rfl := hsame hzero
    simp only [hzero, Nat.sub_zero]
    exact Function.update_eq_self_iff.2 hc.symm

/-- The part is stored inline. -/
theorem effect_of_trim_inline {part : MsgPart} {n : ℕ} {x' : Chunkref} {heap' : ChunkHeap}
    (htag : ((w.msgs i).part part).tag ≠ 0xff)
    (h : nnChunkrefTrim ((w.msgs i).part part) w.heap n = .ok (x', heap')) :
    Effect i w ⟨heap', Function.update w.msgs i ((w.msgs i).setPart x' part)⟩ [.trim part n] := by
  have hothers : ∀ k ≠ i, Function.update w.msgs i ((w.msgs i).setPart x' part) k = w.msgs k :=
    fun k hk => Function.update_of_ne hk ..
  rw [nnChunkrefTrim, if_neg htag] at h
  obtain ⟨⟨⟩, hn, h⟩ := bind_eq_ok.1 h
  obtain ⟨data, -, h⟩ := bind_eq_ok.1 h
  obtain ⟨ref, -, h⟩ := bind_eq_ok.1 h
  obtain ⟨rfl, rfl⟩ := Prod.mk.inj (Except.ok.inj h)
  have hle : n ≤ ((w.msgs i).part part).tag.toNat := by
    by_contra hlt
    rw [nnAssert_of_not hlt] at hn
    cases hn
  have hcuts : ∀ a, ¬ Cuts (w.msgs i) (.trim part n) a := by
    rintro a ⟨q, m, hcut, -, hq, -⟩
    obtain ⟨rfl, -⟩ := CopyCall.trim.inj hcut
    exact htag hq
  refine ⟨hothers, fun q => ?_, fun q hq => ?_,
    fun a c' hc' => ⟨c', hc', le_refl _, ?_⟩, fun _ => rfl⟩
  · simp only [part_update]
    split_ifs with hpart
    · rw [hpart.2]
      exact iff_of_false (tag_sub_ne htag hle) htag
    · rfl
  · simp only [part_update]
    split_ifs with hpart
    · rw [hpart.2]
    · rfl
  · rintro ⟨call, hcall, hcut⟩
    exact absurd (List.mem_singleton.1 hcall ▸ hcut) (hcuts a)

theorem effect_of_trim {part : MsgPart} {n : ℕ} {x' : Chunkref} {heap' : ChunkHeap}
    (h : nnChunkrefTrim ((w.msgs i).part part) w.heap n = .ok (x', heap')) :
    Effect i w ⟨heap', Function.update w.msgs i ((w.msgs i).setPart x' part)⟩ [.trim part n] := by
  by_cases htag : ((w.msgs i).part part).tag = 0xff
  · exact effect_of_trim_heap htag h
  · exact effect_of_trim_inline htag h

/-- One call. -/
theorem effect_of_call {c : CopyCall} {b : ℕ × List UInt8} (h : call i w c = .ok (w', b)) :
    Effect i w w' [c] := by
  cases c with
  | trim part n =>
    obtain ⟨⟨x', heap'⟩, htrim, h⟩ := bind_eq_ok.1 h
    obtain ⟨rfl, -⟩ := Prod.mk.inj (Except.ok.inj h)
    exact effect_of_trim htrim
  | size part =>
    obtain ⟨m, -, h⟩ := bind_eq_ok.1 h
    obtain ⟨rfl, -⟩ := Prod.mk.inj (Except.ok.inj h)
    refine Effect.refl i w fun a call hcall => ?_
    obtain rfl := List.mem_singleton.1 hcall
    rintro ⟨_, _, heq, -⟩
    cases heq
  | data part =>
    obtain ⟨m, -, h⟩ := bind_eq_ok.1 h
    obtain ⟨rfl, -⟩ := Prod.mk.inj (Except.ok.inj h)
    refine Effect.refl i w fun a call hcall => ?_
    obtain rfl := List.mem_singleton.1 hcall
    rintro ⟨_, _, heq, -⟩
    cases heq

/-- All calls of a run. -/
theorem effect_of_run {calls : List CopyCall} {answers : List (ℕ × List UInt8)}
    (h : run (call i) w calls = .ok (w', answers)) : Effect i w w' calls := by
  induction calls generalizing w answers with
  | nil =>
    obtain ⟨rfl, -⟩ := Prod.mk.inj (Except.ok.inj h)
    exact Effect.refl i w nofun
  | cons c calls ih =>
    obtain ⟨⟨w₁, b⟩, hcall, h⟩ := bind_eq_ok.1 h
    obtain ⟨⟨w₂, bs⟩, hrun, h⟩ := bind_eq_ok.1 h
    obtain ⟨rfl, -⟩ := Prod.mk.inj (Except.ok.inj h)
    exact (effect_of_call hcall).trans (ih hrun)

/-- Every copy is the message, and copying only counts the references. -/
theorem of_copied {msg : ChunkMsg} {heap : ChunkHeap} (h : Copied msg heap w) :
    (∀ k, w.msgs k = msg) ∧ ∃ n, nnMsgBulkcopyStart msg heap n = .ok w.heap := by
  cases h with
  | @cp dst heap' h =>
    rw [nnMsgCp_eq] at h
    obtain ⟨heap₁, hstart, h⟩ := bind_eq_ok.1 h
    obtain ⟨rfl, rfl⟩ := Prod.mk.inj (Except.ok.inj h)
    exact ⟨fun k => ite_self _, 1, hstart⟩
  | bulkcopy n h => exact ⟨fun k => ite_self _, n, h⟩

/-- After a message was copied, calls on one of the copies leave the sizes, the bytes and the
pointers of another one alone exactly if they trim nothing off the parts that have chunks. -/
theorem copies_independent_iff {msg : ChunkMsg} {heap : ChunkHeap}
    (hmsg : ∀ part, ∃ bytes, (msg.part part).ref.length = 31 ∧ (msg.part part).Holds heap bytes)
    (h : Copied msg heap w) {j : ℕ} (hij : j ≠ i) {calls : List CopyCall}
    {answers : List (ℕ × List UInt8)} (hrun : run (call i) w calls = .ok (w', answers)) :
    Undisturbed j w w' ↔ ∀ part n, CopyCall.trim part n ∈ calls → 0 < n →
      (msg.part part).tag ≠ 0xff := by
  obtain ⟨hsame, n, hstart⟩ := of_copied h
  have heffect := effect_of_run hrun
  have hother : w'.msgs j = msg := (heffect.others j hij).trans (hsame j)
  constructor
  · intro hund part n hcall hn htag
    obtain ⟨bytes, hlen, hholds⟩ := hmsg part
    have hsize := (hholds.msgBulkcopyStart hstart).size_eq hlen
    have hread := (hholds.msgBulkcopyStart hstart).read hlen
    obtain ⟨hobs, hptr⟩ := hund part
    rw [hother, hsame j] at hobs
    rw [hother] at hptr
    obtain ⟨c', hc'⟩ := hptr htag
    obtain ⟨c, hc, -, hlt⟩ := heffect.sizes _ c' (nnChunkGetptr_iff.1 hc').1
    have hshrunk := hlt ⟨_, hcall, part, n, rfl, hn, by rw [hsame i]; exact htag, by rw [hsame i]⟩
    -- the size that is seen is the one in the chunk
    have hbefore : c.size = bytes.length := by
      obtain ⟨c₁, hc₁, hholds₁⟩ := (Chunkref.Holds.of_heap htag).1 (hholds.msgBulkcopyStart hstart)
      obtain rfl := Option.some_inj.1 (hc.symm.trans hc₁)
      exact hholds₁.size
    have hafter : nnChunkrefSize (msg.part part) w'.heap = .ok c'.size := by
      rw [nnChunkrefSize, if_pos htag, nnChunkSize, hc']
      rfl
    rw [observe, observe, hsize, hafter, ok_bind, ok_bind, hread, ok_bind] at hobs
    obtain ⟨_, _, heq⟩ := bind_eq_ok.1 hobs
    have := (Prod.mk.inj (Except.ok.inj heq)).1
    omega
  · intro hquiet
    have hheap : w'.heap = w.heap := by
      refine heffect.quiet ?_
      rintro a call hcall ⟨part, n, rfl, hn, htag, -⟩
      rw [hsame i] at htag
      exact hquiet part n hcall hn htag
    intro part
    rw [hother, hsame j, hheap]
    refine ⟨rfl, fun htag => ?_⟩
    obtain ⟨bytes, -, hholds⟩ := hmsg part
    obtain ⟨c, hc, hholds⟩ := (Chunkref.Holds.of_heap htag).1 (hholds.msgBulkcopyStart hstart)
    exact ⟨c, hholds.getptr hc⟩

end Copies

/-- Looking at the copy does not disturb the source, and neither does trimming a short part. -/
theorem copies_independent_iff_looking : ∃ w w' answers, Copied sharedMsg sharedHeap w ∧
    run (Copies.call 1) w [.size .body, .trim .hdrs 0, .data .body] = .ok (w', answers) ∧
      w.Undisturbed 0 w' := by
  have hrun : ∃ w w' answers, Copied sharedMsg sharedHeap w ∧
      run (Copies.call 1) w [.size .body, .trim .hdrs 0, .data .body] = .ok (w', answers) :=
    ⟨_, _, _, .cp rfl, rfl⟩
  obtain ⟨w, w', answers, h, hrun⟩ := hrun
  refine ⟨w, w', answers, h, hrun,
    (Copies.copies_independent_iff (fun part => ⟨_, sharedMsg_filled part⟩) h (by decide) hrun).2
    ?_⟩
  intro part n hcall hn
  simp only [List.mem_cons, reduceCtorEq, List.not_mem_nil, or_false, false_or,
    CopyCall.trim.injEq] at hcall
  omega

/-- After four bytes were trimmed off the copy, the size of the source cannot be asked for. -/
theorem trimmed_copy_disturbs : ∃ w w' answers, Copied sharedMsg sharedHeap w ∧
    run (Copies.call 1) w [.trim .body 4] = .ok (w', answers) ∧
    observe (w.msgs 0).body w.heap = .ok (40, List.replicate 40 0) ∧
    observe (w'.msgs 0).body w'.heap = .error .assertFailed :=
  ⟨_, _, _, .cp rfl, rfl, by decide, by decide⟩

end NanoSocket

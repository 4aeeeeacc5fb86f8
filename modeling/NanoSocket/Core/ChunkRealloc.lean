import NanoSocket.Core.Chunk

/-!
# Changing the size of a chunk (`nn_chunk_realloc` of `utils/chunk.c`)

A chunk with one reference is cut off in place, or moved into its empty space; any other chunk is
copied.  The move returns the old pointer, which then has the moved bytes in front of it, and the
copy begins at the untrimmed data and takes all of it even when the new chunk is smaller.

`Reallocated` is what a caller can expect, and `realloc_iff` says when it gets that.
-/

namespace NanoSocket

open Slice

/-- The part of `nn_chunk_realloc` that grows into empty space. -/
def chunkGrow (heap : ChunkHeap) (self : NnChunk) (size : ℕ) (p : ChunkPtr) :
    Except Fault (Except ChunkErrno ChunkPtr × ChunkHeap) := do
  let grow := size - self.size
  let newPtr := p.pos - grow
  let data ← readArea self.area p.pos self.size
  let area ← writeArea self.area newPtr data
  -- recalculate the size of empty space, and reconstruct the tag and prefix
  let empty := newPtr - 8
  let area ← writeArea area (newPtr - 4) (nnPutl nnChunkTag)
  let area ← writeArea area (newPtr - 8) (nnPutl (.ofNat empty))
  return (.ok p, Function.update heap p.addr (some { self with size := size, area := area }))

/-- The part of `nn_chunk_realloc` that creates a new chunk and copies the data. -/
def chunkCopy (heap : ChunkHeap) (self : NnChunk) (size : ℕ) (p : ChunkPtr) (mem : Option Fresh) :
    Except Fault (Except ChunkErrno ChunkPtr × ChunkHeap) :=
  match nnChunkAlloc heap size 0 mem with
  | .error rc => .ok (.error rc, heap)
  | .ok (newPtr, heap) => do
    let data ← readArea self.area (nnChunkGetdata p.addr).pos self.size
    match heap newPtr.addr with
    | none => throw .outOfBounds
    | some new =>
      let area ← writeArea new.area newPtr.pos data
      let heap := Function.update heap newPtr.addr (some { new with area := area })
      return (.ok newPtr, ← nnChunkFree heap p)

/-- `nn_chunk_realloc`; `mem` is what `nn_alloc` returns, should it be called. -/
def nnChunkRealloc (heap : ChunkHeap) (size : ℕ) (p : ChunkPtr) (mem : Option Fresh) :
    Except Fault (Except ChunkErrno ChunkPtr × ChunkHeap) := do
  let self ← nnChunkGetptr heap p
  if self.refcount = 1 ∧ size ≤ self.size then
    return (.ok p, Function.update heap p.addr (some { self with size := size }))
  else if self.refcount = 1 ∧ (nnChunkHdrsize + size) % 2 ^ 64 < size then
    return (.error .enomem, heap)
  else if self.refcount = 1 ∧ size - self.size ≤ p.pos - 8 then chunkGrow heap self size p
  else chunkCopy heap self size p mem

/-- `nn_reallocmsg`; `none` is `NULL`. -/
def nnReallocmsg (heap : ChunkHeap) (msg : ChunkPtr) (size : ℕ) (mem : Option Fresh) :
    Except Fault (Option ChunkPtr × ChunkHeap) := do
  let (rc, heap) ← nnChunkRealloc heap size msg mem
  return (rc.toOption, heap)

/-! ### What a caller can expect -/

section Realloc

variable (heap : ChunkHeap) (p : ChunkPtr) (c : NnChunk) (bytes : List UInt8) (size : ℕ)
  (mem : Option Fresh)

/-- The call returns a chunk of the new size that begins with the old data, other references to the
old chunk see what they saw before, and nothing else changes; or it fails and nothing changes. -/
def Reallocated : Prop :=
  match nnChunkRealloc heap size p mem with
  | .error _ => False
  | .ok (.error _, heap') => heap' = heap
  | .ok (.ok q, heap') =>
    (∃ c' bytes', heap' q.addr = some c' ∧ c'.Holds q.pos bytes' ∧ bytes'.length = size ∧
      bytes'.take (min bytes.length size) = bytes.take (min bytes.length size)) ∧
    (1 < c.refcount → heap' p.addr = some { c with refcount := c.refcount - 1 }) ∧
    ∀ a, a ≠ p.addr → a ≠ q.addr → heap' a = heap a

/-- The chunk has one reference and more empty space than it is to grow. -/
def Grows : Prop :=
  c.refcount = 1 ∧ bytes.length < size ∧ nnChunkHdrsize + size < 2 ^ 64 ∧
    size - bytes.length ≤ p.pos - 8

/-- The eight bytes in front of the data at a position, and the data. -/
def withHeader (pos : ℕ) (bytes : List UInt8) : List UInt8 :=
  nnPutl (.ofNat (pos - 8)) ++ nnPutl nnChunkTag ++ bytes

/-- The bytes that are moved in front of the old pointer repeat what is there, and there is room
behind the old data for the new size. -/
def Repeats : Prop :=
  p.pos + size ≤ c.area.length ∧
    (withHeader (p.pos - (size - bytes.length)) bytes).drop (size - bytes.length) <+:
      withHeader p.pos bytes

/-- When a chunk can be reallocated: it is cut off in place; or there is no memory for a new one; or
it was not trimmed, or begins with the same bytes as before, and does not become smaller. -/
def ReallocKeeps : Prop :=
  Grows p c bytes size ∧ Repeats p c bytes size ∨
    ¬ Grows p c bytes size ∧
      (c.refcount = 1 ∧ size ≤ bytes.length ∨ 2 ^ 64 ≤ nnChunkHdrsize + size ∨ mem = none ∨
        bytes.length ≤ size ∧ slice c.area 8 bytes.length = bytes)

end Realloc

section Cases

variable {heap : ChunkHeap} {p : ChunkPtr} {c : NnChunk} {bytes : List UInt8} {size : ℕ}
  {mem : Option Fresh}

theorem length_withHeader (pos : ℕ) (bytes : List UInt8) :
    (withHeader pos bytes).length = 8 + bytes.length := by
  rw [withHeader, List.length_append, List.length_append, length_nnPutl, length_nnPutl]

/-- A chunk holds some data when the data is there with its header. -/
theorem holds_iff {pos : ℕ} : c.Holds pos bytes ↔ 0 < c.refcount ∧ 8 ≤ pos ∧ pos - 8 < 2 ^ 32 - 1 ∧
    c.size = bytes.length ∧ pos + bytes.length ≤ c.area.length ∧
      slice c.area (pos - 8) (8 + bytes.length) = withHeader pos bytes := by
  constructor
  · intro h
    refine ⟨h.refs, h.start, h.empty, h.size, h.fits, ?_⟩
    have hheader : slice c.area (pos - 8) (nnPutl (.ofNat (pos - 8)) ++ nnPutl nnChunkTag).length =
        nnPutl (.ofNat (pos - 8)) ++ nnPutl nnChunkTag := h.header
    refine slice_append hheader ?_
    exact (congrArg (slice c.area · bytes.length) (Nat.sub_add_cancel h.start)).trans h.data
  · rintro ⟨hrefs, hstart, hempty, hsize, hfits, hslice⟩
    refine ⟨hrefs, hstart, hempty, ?_, hsize, hfits, ?_⟩
    · rw [slice_take hslice (Nat.le_add_right 8 _)]
      exact List.take_left' rfl
    · have hdata := slice_drop hslice
      rw [Nat.sub_add_cancel hstart] at hdata
      rw [hdata]
      exact List.drop_left' rfl

/-- The chunk is cut off. -/
theorem NnChunk.Holds.shrink {pos : ℕ} (h : c.Holds pos bytes) (hle : size ≤ bytes.length) :
    ({ c with size := size } : NnChunk).Holds pos (bytes.take size) := by
  have hlen : (bytes.take size).length = size := by
    rw [List.length_take]
    omega
  have hfits := h.fits
  refine ⟨h.refs, h.start, h.empty, h.header, hlen.symm, by rw [hlen]; simp only; omega, ?_⟩
  rw [hlen]
  exact slice_take h.data hle

/-- The data is moved with a new header, and the old pointer is returned. -/
theorem chunkGrow_eq (h : c.Holds p.pos bytes) (hg : Grows p c bytes size) :
    chunkGrow heap c size p = .ok (.ok p, Function.update heap p.addr (some { c with
      size := size
      area := splice c.area (p.pos - (size - bytes.length) - 8)
        (withHeader (p.pos - (size - bytes.length)) bytes) })) := by
  obtain ⟨-, hlt, -, hle⟩ := hg
  have hstart := h.start
  have hfits := h.fits
  have hsize := h.size
  obtain ⟨new, hnew⟩ : ∃ new, new + 8 = p.pos - (size - bytes.length) :=
    ⟨_, Nat.sub_add_cancel (by omega)⟩
  have hdata : new + 4 + 4 + bytes.length ≤ c.area.length := by omega
  have hone : splice (splice c.area (new + 4 + 4) bytes) (new + 4) (nnPutl nnChunkTag) =
      splice c.area (new + 4) (nnPutl nnChunkTag ++ bytes) :=
    @splice_splice _ _ bytes (nnPutl nnChunkTag) _ hdata
  have hboth :
      splice (splice c.area (new + 4) (nnPutl nnChunkTag ++ bytes)) new (nnPutl (.ofNat new)) =
      splice c.area new (nnPutl (.ofNat new) ++ (nnPutl nnChunkTag ++ bytes)) := by
    refine @splice_splice _ _ _ (nnPutl (.ofNat new)) _ ?_
    rw [List.length_append, length_nnPutl, length_nnPutl]
    omega
  unfold chunkGrow withHeader
  rw [hsize, readArea_of_le hfits, ok_bind, h.data]
  simp only [← hnew, Nat.add_sub_cancel, show new + 8 - 4 = new + 4 by omega]
  rw [show new + 8 = new + 4 + 4 from rfl, writeArea_of_le hdata, ok_bind,
    writeArea_of_le (by rw [length_splice hdata, length_nnPutl]; omega), ok_bind, hone,
    writeArea_of_le (by
      rw [length_splice (by rw [List.length_append, length_nnPutl]; omega), length_nnPutl]
      omega), ok_bind, hboth, List.append_assoc]
  rfl

theorem withHeader_take {pos n : ℕ} :
    (withHeader pos bytes).take (8 + n) = withHeader pos (bytes.take n) := by
  have hlen : (nnPutl (.ofNat (pos - 8)) ++ nnPutl nnChunkTag).length = 8 := rfl
  rw [withHeader, withHeader, List.take_append, hlen, Nat.add_sub_cancel_left,
    List.take_of_length_le (by omega)]

/-- After the move the old pointer has the old data when the moved bytes repeat it. -/
theorem grown_iff (h : c.Holds p.pos bytes) (hg : Grows p c bytes size) {area : List UInt8}
    (harea : area = splice c.area (p.pos - (size - bytes.length) - 8)
      (withHeader (p.pos - (size - bytes.length)) bytes)) :
    (∃ bytes', ({ c with size := size, area := area } : NnChunk).Holds p.pos bytes' ∧
      bytes'.length = size ∧ bytes'.take bytes.length = bytes) ↔ Repeats p c bytes size := by
  obtain ⟨-, hlt, -, hle⟩ := hg
  have hstart := h.start
  have hfits := h.fits
  have hin : p.pos - (size - bytes.length) - 8 +
      (withHeader (p.pos - (size - bytes.length)) bytes).length ≤
      c.area.length := by
    rw [length_withHeader]
    omega
  have hlen : area.length = c.area.length := by rw [harea, length_splice hin]
  have hshift : p.pos - (size - bytes.length) - 8 + (size - bytes.length) = p.pos - 8 := by omega
  have hold : slice c.area (p.pos - 8) (8 + bytes.length) = withHeader p.pos bytes :=
    (holds_iff.1 h).2.2.2.2.2
  -- the bytes at the old pointer
  have hiff : slice area (p.pos - 8) (8 + bytes.length) = withHeader p.pos bytes ↔
      (withHeader (p.pos - (size - bytes.length)) bytes).drop (size - bytes.length) <+:
        withHeader p.pos bytes := by
    rw [← length_withHeader (p.pos - (size - bytes.length)), ← hshift] at hold ⊢
    rw [harea]
    exact slice_splice_eq_iff hin hold
  unfold Repeats
  rw [← hiff]
  constructor
  · rintro ⟨bytes', hholds, hsize, htake⟩
    obtain ⟨-, -, -, -, hfits', hslice⟩ := holds_iff.1 hholds
    refine ⟨by rw [← hlen, ← hsize]; exact hfits', ?_⟩
    rw [slice_take hslice (by omega), withHeader_take, htake]
  · rintro ⟨hroom, hslice⟩
    have hbytes' : (slice area p.pos size).length = size := length_slice (by omega)
    have hheader : slice area (p.pos - 8) 8 = nnPutl (.ofNat (p.pos - 8)) ++ nnPutl nnChunkTag := by
      rw [slice_take hslice (by omega)]
      exact List.take_left' rfl
    refine ⟨slice area p.pos size,
      ⟨h.refs, hstart, h.empty, hheader, hbytes'.symm, ?_, by rw [hbytes']⟩, hbytes', ?_⟩
    · rw [hbytes', hlen]
      exact hroom
    · rw [← slice_take (l := area) (i := p.pos) rfl hlt.le]
      have hdata := slice_drop hslice
      rw [Nat.sub_add_cancel hstart] at hdata
      rw [hdata]
      exact List.drop_left' rfl

/-- A copy has the bytes from the untrimmed beginning; it is written beyond its end when it is
smaller. -/
theorem copied (hc : heap p.addr = some c) (h : c.Holds p.pos bytes)
    (hsize : nnChunkHdrsize + size < 2 ^ 64) {f : Fresh} (hf : heap f.addr = none) :
    if size < bytes.length then ∃ e, chunkCopy heap c size p (some f) = .error e
    else ∃ c' heap', chunkCopy heap c size p (some f) = .ok (.ok ⟨f.addr, 8⟩, heap') ∧
      heap' f.addr = some c' ∧
      (∃ rest, c'.Holds 8 (slice c.area 8 bytes.length ++ rest) ∧
        bytes.length + rest.length = size) ∧
      (1 < c.refcount → heap' p.addr = some { c with refcount := c.refcount - 1 }) ∧
      ∀ a, a ≠ p.addr → a ≠ f.addr → heap' a = heap a := by
  have hstart := h.start
  have hfits := h.fits
  have hne : f.addr ≠ p.addr := by
    intro heq
    rw [heq, hc] at hf
    cases hf
  have hread : 8 + bytes.length ≤ c.area.length := by omega
  have hdata := length_slice hread
  obtain ⟨new, halloc, hnew, hrefs, hlen⟩ := nnChunkAlloc_ok heap hsize f
  unfold chunkCopy
  rw [halloc]
  simp only [h.size]
  rw [show (nnChunkGetdata p.addr).pos = 8 from rfl, readArea_of_le hread, ok_bind,
    Function.update_self]
  simp only
  split_ifs with hlt
  · exact ⟨.outOfBounds, by rw [writeArea, if_neg (by rw [hdata]; omega)]; rfl⟩
  have hin : 8 + (slice c.area 8 bytes.length).length ≤ new.area.length := by omega
  have hold : Function.update (Function.update heap f.addr (some new)) f.addr (some { new with
      area := splice new.area 8 (slice c.area 8 bytes.length) }) p.addr = some c := by
    rw [Function.update_of_ne hne.symm, Function.update_of_ne hne.symm, hc]
  have hholds :
      ({ new with area := splice new.area 8 (slice c.area 8 bytes.length) } : NnChunk).Holds 8
      (slice c.area 8 bytes.length ++ slice new.area (8 + bytes.length) (size - bytes.length)) := by
    have hrest : (slice new.area (8 + bytes.length) (size - bytes.length)).length =
        size - bytes.length :=
      length_slice (by omega)
    have hnewsize : new.size = size := by rw [hnew.size, List.length_map, List.length_range]
    refine ⟨hnew.refs, le_refl 8, by decide, ?_, ?_, ?_, ?_⟩
    · rw [slice_splice_before hin (by omega)]
      exact hnew.header
    · rw [List.length_append, hdata, hrest, hnewsize]
      omega
    · rw [List.length_append, hdata, hrest, length_splice hin, hlen]
      omega
    · rw [List.length_append, hrest]
      refine slice_append (slice_splice_self hin) ?_
      rw [slice_splice_after hin le_rfl, hdata]
  have hrest :
      bytes.length + (slice new.area (8 + bytes.length) (size - bytes.length)).length = size := by
    rw [length_slice (by omega)]
    omega
  rw [writeArea_of_le hin, ok_bind]
  rcases Nat.lt_or_ge 1 c.refcount with hshared | hone
  · refine ⟨_, _, by rw [h.free_shared hold hshared]; rfl, ?_, ⟨_, hholds, hrest⟩, fun _ => ?_,
      fun a hap haf => ?_⟩
    · rw [Function.update_of_ne hne, Function.update_self]
    · rw [Function.update_self, ← h.size]
    · rw [Function.update_of_ne hap, Function.update_of_ne haf, Function.update_of_ne haf]
  · have hrefs' := h.refs
    refine ⟨_, _, by rw [h.free_last hold (by omega)]; rfl, ?_, ⟨_, hholds, hrest⟩,
      fun hshared => ?_, fun a hap haf => ?_⟩
    · rw [Function.update_of_ne hne, Function.update_self]
    · omega
    · rw [Function.update_of_ne hap, Function.update_of_ne haf, Function.update_of_ne haf]

/-- Which path `nn_chunk_realloc` takes. -/
theorem nnChunkRealloc_eq (hc : heap p.addr = some c) (h : c.Holds p.pos bytes) :
    nnChunkRealloc heap size p mem =
      if c.refcount = 1 ∧ size ≤ bytes.length then
        .ok (.ok p, Function.update heap p.addr (some { c with size := size }))
      else if c.refcount = 1 ∧ (nnChunkHdrsize + size) % 2 ^ 64 < size then
        .ok (.error .enomem, heap)
      else if c.refcount = 1 ∧ size - bytes.length ≤ p.pos - 8 then chunkGrow heap c size p
      else chunkCopy heap c size p mem := by
  rw [nnChunkRealloc, h.getptr hc, ok_bind, h.size]
  rfl

/-- The chunk is cut off in place. -/
theorem reallocated_of_shrink (hc : heap p.addr = some c) (h : c.Holds p.pos bytes)
    (hshrink : c.refcount = 1 ∧ size ≤ bytes.length) : Reallocated heap p c bytes size mem := by
  unfold Reallocated
  rw [nnChunkRealloc_eq hc h, if_pos hshrink]
  refine ⟨⟨_, _, Function.update_self .., h.shrink hshrink.2, ?_, ?_⟩, ?_, ?_⟩
  · rw [List.length_take, min_eq_left hshrink.2]
  · rw [min_eq_right hshrink.2, List.take_take, min_self]
  · intro hshared
    rw [hshrink.1] at hshared
    exact absurd hshared (lt_irrefl 1)
  · intro a ha _
    exact Function.update_of_ne ha ..

/-- There is no such amount of memory. -/
theorem reallocated_of_overflow (hc : heap p.addr = some c) (h : c.Holds p.pos bytes)
    (hsize : size < 2 ^ 64) (hshrink : ¬ (c.refcount = 1 ∧ size ≤ bytes.length))
    (hwrap : 2 ^ 64 ≤ nnChunkHdrsize + size) :
    Reallocated heap p c bytes size mem := by
  have hmod : (nnChunkHdrsize + size) % 2 ^ 64 = nnChunkHdrsize + size - 2 ^ 64 := by
    unfold nnChunkHdrsize at hwrap ⊢
    omega
  have hlt : (nnChunkHdrsize + size) % 2 ^ 64 < size := by
    rw [hmod]
    unfold nnChunkHdrsize at hwrap ⊢
    omega
  have halloc : nnChunkAlloc heap size 0 mem = .error .enomem :=
    if_pos (by rw [hmod]; unfold nnChunkHdrsize; omega)
  have hcopy : chunkCopy heap c size p mem = .ok (.error .enomem, heap) := by rw [chunkCopy, halloc]
  unfold Reallocated
  rw [nnChunkRealloc_eq hc h, if_neg hshrink]
  by_cases hone : c.refcount = 1
  · rw [if_pos ⟨hone, hlt⟩]
  · rw [if_neg fun hcond => hone hcond.1, if_neg fun hcond => hone hcond.1, hcopy]

/-- The chunk grows into its empty space. -/
theorem reallocated_iff_of_grows (hc : heap p.addr = some c) (h : c.Holds p.pos bytes)
    (hg : Grows p c bytes size) :
    Reallocated heap p c bytes size mem ↔ Repeats p c bytes size := by
  obtain ⟨hone, hlt, hsmall, hroom⟩ := hg
  have heq : nnChunkRealloc heap size p mem = chunkGrow heap c size p := by
    rw [nnChunkRealloc_eq hc h, if_neg fun hcond => absurd hcond.2 (not_le.2 hlt), if_neg,
      if_pos ⟨hone, hroom⟩]
    rw [Nat.mod_eq_of_lt hsmall]
    exact fun hcond => absurd hcond.2 (not_lt.2 (Nat.le_add_left ..))
  have hmin : min bytes.length size = bytes.length := min_eq_left hlt.le
  unfold Reallocated
  rw [heq, chunkGrow_eq h ⟨hone, hlt, hsmall, hroom⟩]
  simp only [Function.update_self, Option.some.injEq]
  rw [← grown_iff h ⟨hone, hlt, hsmall, hroom⟩ rfl, hmin, List.take_length]
  constructor
  · rintro ⟨⟨c', bytes', rfl, hholds, hlen, htake⟩, -⟩
    exact ⟨bytes', hholds, hlen, htake⟩
  · rintro ⟨bytes', hholds, hlen, htake⟩
    refine ⟨⟨_, bytes', rfl, hholds, hlen, htake⟩, fun hshared => ?_,
      fun a ha _ => Function.update_of_ne ha ..⟩
    omega

/-- Any other chunk is copied. -/
theorem nnChunkRealloc_eq_copy (hc : heap p.addr = some c) (h : c.Holds p.pos bytes)
    (hshrink : ¬ (c.refcount = 1 ∧ size ≤ bytes.length)) (hsmall : nnChunkHdrsize + size < 2 ^ 64)
    (hng : ¬ Grows p c bytes size) :
    nnChunkRealloc heap size p mem = chunkCopy heap c size p mem := by
  rw [nnChunkRealloc_eq hc h, if_neg hshrink, if_neg, if_neg]
  · rintro ⟨hone, hroom⟩
    exact hng ⟨hone, not_le.1 fun hle => hshrink ⟨hone, hle⟩, hsmall, hroom⟩
  · rw [Nat.mod_eq_of_lt hsmall]
    exact fun hcond => absurd hcond.2 (not_lt.2 (Nat.le_add_left ..))

/-- The copy goes to a new chunk. -/
theorem reallocated_iff_of_copy (hc : heap p.addr = some c) (h : c.Holds p.pos bytes) {f : Fresh}
    (hf : heap f.addr = none) (hshrink : ¬ (c.refcount = 1 ∧ size ≤ bytes.length))
    (hsmall : nnChunkHdrsize + size < 2 ^ 64) (hng : ¬ Grows p c bytes size) :
    Reallocated heap p c bytes size (some f) ↔ bytes.length ≤ size ∧
      slice c.area 8 bytes.length = bytes := by
  unfold Reallocated
  rw [nnChunkRealloc_eq_copy hc h hshrink hsmall hng]
  have hcopied := copied hc h hsmall hf
  split_ifs at hcopied with hlt
  · obtain ⟨e, heq⟩ := hcopied
    rw [heq]
    exact iff_of_false id fun hle => absurd hle.1 (not_le.2 hlt)
  obtain ⟨c', heap', heq, hc', ⟨rest, hholds, hlen⟩, hshared, hothers⟩ := hcopied
  have hle := not_lt.1 hlt
  have hread : (slice c.area 8 bytes.length).length = bytes.length := by
    have hstart := h.start
    have hfits := h.fits
    exact length_slice (by omega)
  rw [heq]
  simp only [min_eq_left hle, List.take_length]
  constructor
  · rintro ⟨⟨c'', bytes', hc'', hholds', hlen', htake⟩, -⟩
    obtain rfl := Option.some_inj.1 (hc'.symm.trans hc'')
    refine ⟨hle, ?_⟩
    have hsame : bytes' = slice c'.area 8 size := by rw [← hlen', hholds'.data]
    have hsame' : slice c.area 8 bytes.length ++ rest = slice c'.area 8 size := by
      have := hholds.data
      rw [List.length_append, hread, hlen] at this
      exact this.symm
    calc slice c.area 8 bytes.length
        = (slice c.area 8 bytes.length ++ rest).take bytes.length := (List.take_left' hread).symm
      _ = bytes'.take bytes.length := by rw [hsame', ← hsame]
      _ = bytes := htake
  · rintro ⟨-, hdata⟩
    refine ⟨⟨c', _, hc', hholds, ?_, ?_⟩, fun hs => by rw [hshared hs, h.size], hothers⟩
    · rw [List.length_append, hread, hlen]
    · rw [List.take_left' hread, hdata]

/-- There is no memory for a new chunk. -/
theorem reallocated_of_none (hc : heap p.addr = some c) (h : c.Holds p.pos bytes)
    (hshrink : ¬ (c.refcount = 1 ∧ size ≤ bytes.length)) (hsmall : nnChunkHdrsize + size < 2 ^ 64)
    (hng : ¬ Grows p c bytes size) : Reallocated heap p c bytes size none := by
  have halloc : nnChunkAlloc heap size 0 none = .error .enomem := by
    rw [nnChunkAlloc, if_neg (by rw [Nat.mod_eq_of_lt hsmall]; omega), if_neg (by decide)]
  unfold Reallocated
  rw [nnChunkRealloc_eq_copy hc h hshrink hsmall hng, chunkCopy, halloc]

/-- A call of `nn_chunk_realloc` on any live chunk, for any size and whatever the allocator returns,
keeps what a caller can expect exactly when `ReallocKeeps` holds: in particular when the chunk is
cut off in place, when it is copied without having been trimmed and without becoming smaller, and
when there is no memory. -/
theorem realloc_iff (hc : heap p.addr = some c) (h : c.Holds p.pos bytes) (hsize : size < 2 ^ 64)
    (hmem : ∀ f ∈ mem, heap f.addr = none) :
    Reallocated heap p c bytes size mem ↔ ReallocKeeps p c bytes size mem := by
  unfold ReallocKeeps
  by_cases hg : Grows p c bytes size
  · rw [reallocated_iff_of_grows hc h hg]
    simp only [hg, true_and, not_true_eq_false, false_and, or_false]
  simp only [hg, false_and, false_or, not_false_eq_true, true_and]
  by_cases hshrink : c.refcount = 1 ∧ size ≤ bytes.length
  · exact iff_of_true (reallocated_of_shrink hc h hshrink) (.inl hshrink)
  by_cases hwrap : 2 ^ 64 ≤ nnChunkHdrsize + size
  · exact iff_of_true (reallocated_of_overflow hc h hsize hshrink hwrap) (.inr (.inl hwrap))
  simp only [hshrink, hwrap, false_or]
  cases mem with
  | none => exact iff_of_true (reallocated_of_none hc h hshrink (not_le.1 hwrap) hg) (.inl rfl)
  | some f =>
    rw [reallocated_iff_of_copy hc h (hmem f rfl) hshrink (not_le.1 hwrap) hg]
    simp only [reduceCtorEq, false_or]

end Cases

/-- Memory that is filled with its indices. -/
def countingMemory (addr : ℕ) : Fresh := ⟨addr, fun i => .ofNat i⟩

/-- A new chunk of six bytes. -/
def sixBytes : NnChunk := ⟨1, 6, [0, 0, 0, 0, 0xde, 0xad, 0xca, 0xfe, 0, 1, 2, 3, 4, 5]⟩

theorem realloc_iff_six :
    Reallocated (Function.update (fun _ => none) 7 (some sixBytes)) ⟨7, 8⟩ sixBytes
    [0, 1, 2, 3, 4, 5] 9 (some (countingMemory 3)) := by
  refine (realloc_iff rfl ⟨by decide, le_refl 8, by decide, by decide, rfl, by decide, by decide⟩
    (by decide) ?_).2 ?_
  · rintro f ⟨⟩
    decide
  · exact .inr ⟨by unfold Grows; decide, .inr (.inr (.inr (by decide)))⟩

/-- A chunk of ten bytes is trimmed by four bytes and grows by two: the bytes in front of the
pointer that is returned are not those of a chunk any more. -/
theorem grown_chunk_lost :
    ∃ p heap q heap' c,
      nnChunkAlloc (fun _ => none) 10 0 (some (countingMemory 7)) = .ok (p, heap) ∧
      nnChunkTrim heap p 4 = .ok (q, heap') ∧ heap' q.addr = some c ∧
        c.Holds q.pos [4, 5, 6, 7, 8, 9] ∧
      ¬ Reallocated heap' q c [4, 5, 6, 7, 8, 9] 8 none := by
  refine ⟨_, _, _, _, _, rfl, rfl, rfl, ?_, ?_⟩
  · exact ⟨by decide, by decide, by decide, by decide, by decide, by decide, by decide⟩
  · rintro ⟨⟨c', bytes', hc', hholds, -⟩, -⟩
    cases hc'
    exact absurd hholds.header (by decide)

end NanoSocket

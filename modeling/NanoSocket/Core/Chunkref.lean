import NanoSocket.Core.Chunk

/-!
# References to chunks (`utils/chunkref.c`, `utils/msg.c`)

A reference keeps up to 31 bytes in itself, with their number in its first byte; a first byte of
`0xff` says that it has a pointer to a chunk instead.  A message has three of them.

`Chunkref.Holds` says what a reference holds, in either form.
-/

namespace NanoSocket

open Slice

/-- `NN_CHUNKREF_MAX`. -/
def nnChunkrefMax : ℕ := 32

/-- `struct nn_chunkref`: the first byte, the 31 bytes behind it, and the pointer that lies over the
bytes 8 to 15.  No function looks at the bytes when the tag is `0xff`, or at the pointer when it is
not. -/
structure Chunkref where
  tag : UInt8
  ref : List UInt8
  chunk : ChunkPtr
  deriving DecidableEq, Repr

/-- `nn_chunkref_init`; `mem` is what `nn_alloc` returns, should it be called. -/
def nnChunkrefInit (self : Chunkref) (heap : ChunkHeap) (size : ℕ) (mem : Option Fresh) :
    Except Fault (Chunkref × ChunkHeap) :=
  if size < nnChunkrefMax then .ok ({ self with tag := .ofNat size }, heap)
  else
    match nnChunkAlloc heap size 0 mem with
    | .error _ => .error .assertFailed
    | .ok (chunk, heap) => .ok ({ self with tag := 0xff, chunk := chunk }, heap)

/-- `nn_chunkref_init_chunk`. -/
def nnChunkrefInitChunk (self : Chunkref) (chunk : ChunkPtr) : Chunkref :=
  { self with tag := 0xff, chunk := chunk }

/-- `nn_chunkref_term`. -/
def nnChunkrefTerm (self : Chunkref) (heap : ChunkHeap) : Except Fault ChunkHeap :=
  if self.tag = 0xff then nnChunkFree heap self.chunk else .ok heap

/-- `nn_chunkref_getchunk`. -/
def nnChunkrefGetchunk (self : Chunkref) (heap : ChunkHeap) (mem : Option Fresh) :
    Except Fault (ChunkPtr × Chunkref × ChunkHeap) :=
  if self.tag = 0xff then .ok (self.chunk, { self with tag := 0 }, heap)
  else
    match nnChunkAlloc heap self.tag.toNat 0 mem with
    | .error _ => .error .assertFailed
    | .ok (chunk, heap) => do
      let heap ← chunkWrite heap chunk 0 (← readArea self.ref 0 self.tag.toNat)
      return (chunk, { self with tag := 0 }, heap)

/-- `nn_chunkref_mv`: the whole pointer is copied, or the bytes that are in use. -/
def nnChunkrefMv (dst src : Chunkref) : Except Fault Chunkref :=
  if src.tag = 0xff then .ok { tag := src.tag, ref := splice dst.ref 0 (src.ref.take 15),
                               chunk := src.chunk }
  else do
    let ref ← writeArea dst.ref 0 (← readArea src.ref 0 src.tag.toNat)
    return { dst with tag := src.tag, ref := ref }

/-- `nn_chunkref_cp`: what `dst` becomes. -/
def nnChunkrefCp (src : Chunkref) (heap : ChunkHeap) : Except Fault (Chunkref × ChunkHeap) :=
  if src.tag = 0xff then return (src, ← nnChunkAddref heap src.chunk 1) else .ok (src, heap)

/-- Read the bytes at `nn_chunkref_data`. -/
def chunkrefRead (self : Chunkref) (heap : ChunkHeap) (n : ℕ) : Except Fault (List UInt8) :=
  if self.tag = 0xff then chunkRead heap self.chunk n else readArea self.ref 0 n

/-- Write to the bytes at `nn_chunkref_data`. -/
def chunkrefWrite (self : Chunkref) (heap : ChunkHeap) (i : ℕ) (bytes : List UInt8) :
    Except Fault (Chunkref × ChunkHeap) :=
  if self.tag = 0xff then return (self, ← chunkWrite heap self.chunk i bytes)
  else return ({ self with ref := ← writeArea self.ref i bytes }, heap)

/-- `nn_chunkref_size`. -/
def nnChunkrefSize (self : Chunkref) (heap : ChunkHeap) : Except Fault ℕ :=
  if self.tag = 0xff then nnChunkSize heap self.chunk else .ok self.tag.toNat

/-- `nn_chunkref_trim`. -/
def nnChunkrefTrim (self : Chunkref) (heap : ChunkHeap) (n : ℕ) :
    Except Fault (Chunkref × ChunkHeap) :=
  if self.tag = 0xff then do
    let (chunk, heap) ← nnChunkTrim heap self.chunk n
    return ({ self with chunk := chunk }, heap)
  else do
    nnAssert (n ≤ self.tag.toNat)
    let ref ← writeArea self.ref 0 (← readArea self.ref n (self.tag.toNat - n))
    return ({ self with tag := self.tag - .ofNat n, ref := ref }, heap)

/-- `nn_chunkref_bulkcopy_start`. -/
def nnChunkrefBulkcopyStart (self : Chunkref) (heap : ChunkHeap) (copies : ℕ) :
    Except Fault ChunkHeap :=
  if self.tag = 0xff then nnChunkAddref heap self.chunk copies else .ok heap

/-- `nn_chunkref_bulkcopy_cp`: what `dst` becomes. -/
def nnChunkrefBulkcopyCp (src : Chunkref) : Chunkref := src

/-! ### What a reference holds -/

/-- The reference holds these bytes, in itself or in a chunk. -/
def Chunkref.Holds (x : Chunkref) (heap : ChunkHeap) (bytes : List UInt8) : Prop :=
  if x.tag = 0xff then ∃ c, heap x.chunk.addr = some c ∧ c.Holds x.chunk.pos bytes
  else x.tag.toNat < nnChunkrefMax ∧ bytes = x.ref.take x.tag.toNat

namespace Chunkref.Holds

variable {x : Chunkref} {heap heap' : ChunkHeap} {bytes : List UInt8} {n : ℕ}

theorem of_heap (htag : x.tag = 0xff) :
    x.Holds heap bytes ↔ ∃ c, heap x.chunk.addr = some c ∧ c.Holds x.chunk.pos bytes := by
  rw [Chunkref.Holds, if_pos htag]

theorem of_inline (htag : x.tag ≠ 0xff) :
    x.Holds heap bytes ↔ x.tag.toNat < nnChunkrefMax ∧ bytes = x.ref.take x.tag.toNat := by
  rw [Chunkref.Holds, if_neg htag]

/-- Only the own chunk matters. -/
theorem congr (h : x.Holds heap bytes)
    (hheap : x.tag = 0xff → heap' x.chunk.addr = heap x.chunk.addr) :
    x.Holds heap' bytes := by
  by_cases htag : x.tag = 0xff
  · rw [of_heap htag] at h ⊢
    rwa [hheap htag]
  · rwa [of_inline htag] at h ⊢

theorem size_eq (hlen : x.ref.length = 31) (h : x.Holds heap bytes) :
    nnChunkrefSize x heap = .ok bytes.length := by
  by_cases htag : x.tag = 0xff
  · obtain ⟨c, hc, hholds⟩ := (of_heap htag).1 h
    rw [nnChunkrefSize, if_pos htag, hholds.size_eq hc]
  · obtain ⟨hlt, rfl⟩ := (of_inline htag).1 h
    unfold nnChunkrefMax at hlt
    rw [nnChunkrefSize, if_neg htag, List.length_take, min_eq_left (by omega)]

theorem read (hlen : x.ref.length = 31) (h : x.Holds heap bytes) :
    chunkrefRead x heap bytes.length = .ok bytes := by
  by_cases htag : x.tag = 0xff
  · obtain ⟨c, hc, hholds⟩ := (of_heap htag).1 h
    rw [chunkrefRead, if_pos htag, hholds.read hc]
  · obtain ⟨hlt, rfl⟩ := (of_inline htag).1 h
    unfold nnChunkrefMax at hlt
    have hlen' : (x.ref.take x.tag.toNat).length = x.tag.toNat := by
      rw [List.length_take]
      omega
    rw [chunkrefRead, if_neg htag, hlen', readArea_of_le (by omega)]
    rfl

/-- The pointer is changed by trimming only. -/
theorem write (hlen : x.ref.length = 31) (h : x.Holds heap bytes) {i : ℕ} {new : List UInt8}
    (hi : i + new.length ≤ bytes.length) :
    ∃ x' heap', chunkrefWrite x heap i new = .ok (x', heap') ∧ x'.Holds heap' (splice bytes i new) ∧
      x'.tag = x.tag ∧ x'.chunk = x.chunk ∧ x'.ref.length = 31 ∧
      ∀ a, (x.tag = 0xff → a ≠ x.chunk.addr) → heap' a = heap a := by
  by_cases htag : x.tag = 0xff
  · obtain ⟨c, hc, hholds⟩ := (of_heap htag).1 h
    obtain ⟨c', heq, hholds', -⟩ := hholds.write hc hi
    refine ⟨x, _, by rw [chunkrefWrite, if_pos htag, heq]; rfl, ?_, rfl, rfl, hlen, ?_⟩
    · exact (of_heap htag).2 ⟨c', Function.update_self .., hholds'⟩
    · intro a ha
      exact Function.update_of_ne (ha htag) ..
  · obtain ⟨hlt, rfl⟩ := (of_inline htag).1 h
    unfold nnChunkrefMax at hlt
    rw [List.length_take] at hi
    have hin : i + new.length ≤ x.ref.length := by omega
    refine ⟨{ x with ref := splice x.ref i new }, heap, ?_, ?_, rfl, rfl, ?_, fun _ _ => rfl⟩
    · rw [chunkrefWrite, if_neg htag, writeArea_of_le hin]
      rfl
    · refine (of_inline (x := { x with ref := splice x.ref i new }) htag).2 ⟨hlt, ?_⟩
      change _ = (splice x.ref i new).take x.tag.toNat
      apply List.ext_getElem?
      intro k
      rw [getElem?_splice (by rw [List.length_take]; omega), List.getElem?_take, List.getElem?_take,
        getElem?_splice hin]
      split_ifs
      all_goals first | rfl | omega
    · exact (length_splice hin).trans hlen

/-- Trimming takes bytes off the front. -/
theorem trim (hlen : x.ref.length = 31) (h : x.Holds heap bytes) (hn : n ≤ bytes.length)
    (hempty : x.tag = 0xff → x.chunk.pos + n - 8 < 2 ^ 32 - 1) :
    ∃ x' heap', nnChunkrefTrim x heap n = .ok (x', heap') ∧ x'.Holds heap' (bytes.drop n) ∧
      (x'.tag = 0xff ↔ x.tag = 0xff) ∧ (x.tag = 0xff → x'.chunk = ⟨x.chunk.addr, x.chunk.pos + n⟩) ∧
      x'.ref.length = 31 ∧ ∀ a, (x.tag = 0xff → a ≠ x.chunk.addr) → heap' a = heap a := by
  by_cases htag : x.tag = 0xff
  · obtain ⟨c, hc, hholds⟩ := (of_heap htag).1 h
    obtain ⟨c', heq, hholds', -⟩ := hholds.trim hc hn (hempty htag)
    refine ⟨{ x with chunk := ⟨x.chunk.addr, x.chunk.pos + n⟩ },
      Function.update heap x.chunk.addr (some c'), ?_, ?_, Iff.rfl, fun _ => rfl, hlen, ?_⟩
    · rw [nnChunkrefTrim, if_pos htag, heq]
      rfl
    · exact (of_heap (x := { x with chunk := ⟨x.chunk.addr, x.chunk.pos + n⟩ }) htag).2
        ⟨c', Function.update_self .., hholds'⟩
    · intro a ha
      exact Function.update_of_ne (ha htag) ..
  · obtain ⟨hlt, rfl⟩ := (of_inline htag).1 h
    unfold nnChunkrefMax at hlt
    rw [List.length_take] at hn
    have hle : n ≤ x.tag.toNat := by omega
    have hofNat : (UInt8.ofNat n).toNat = n := UInt8.toNat_ofNat_of_lt' (by change n < 256; omega)
    have hsub : (x.tag - .ofNat n).toNat = x.tag.toNat - n := by
      rw [UInt8.toNat_sub_of_le _ _ (UInt8.le_iff_toNat_le.2 (by rw [hofNat]; exact hle)), hofNat]
    have htag' : x.tag - .ofNat n ≠ 0xff := by
      intro heq
      have := congrArg UInt8.toNat heq
      rw [hsub] at this
      change _ = 255 at this
      omega
    have hlen' : (slice x.ref n (x.tag.toNat - n)).length = x.tag.toNat - n :=
      length_slice (by omega)
    have hin : 0 + (slice x.ref n (x.tag.toNat - n)).length ≤ x.ref.length := by omega
    refine ⟨{ x with tag := x.tag - .ofNat n,
                     ref := splice x.ref 0 (slice x.ref n (x.tag.toNat - n)) }, heap,
      ?_, ?_, iff_of_false htag' htag, fun h => absurd h htag, (length_splice hin).trans hlen,
        fun _ _ => rfl⟩
    · rw [nnChunkrefTrim, if_neg htag, nnAssert_of hle, ok_bind, readArea_of_le (by omega), ok_bind,
        writeArea_of_le hin]
      rfl
    · refine (of_inline (x := { x with tag := _, ref := _ }) htag').2 ⟨?_, ?_⟩
      · simp only [nnChunkrefMax, hsub]
        omega
      · have hfirst := slice_splice_self hin
        rw [hlen', slice, List.drop_zero] at hfirst
        rw [hsub, hfirst, slice, List.drop_take]

/-- A reference that was moved holds what it held, and its old place is as good as a new one. -/
theorem mv {dst : Chunkref} (hdst : dst.ref.length = 31) (hlen : x.ref.length = 31)
    (h : x.Holds heap bytes) :
    ∃ x', nnChunkrefMv dst x = .ok x' ∧ x'.Holds heap bytes ∧ x'.tag = x.tag ∧
      (x.tag = 0xff → x'.chunk = x.chunk) ∧ x'.ref.length = 31 := by
  by_cases htag : x.tag = 0xff
  · have hin : 0 + (x.ref.take 15).length ≤ dst.ref.length := by
      rw [List.length_take]
      omega
    refine ⟨{ tag := x.tag, ref := splice dst.ref 0 (x.ref.take 15), chunk := x.chunk },
      if_pos htag, ?_, rfl, fun _ => rfl, (length_splice hin).trans hdst⟩
    rw [of_heap (x := { tag := x.tag, ref := splice dst.ref 0 (x.ref.take 15), chunk := x.chunk })
      htag]
    exact (of_heap htag).1 h
  · obtain ⟨hlt, rfl⟩ := (of_inline htag).1 h
    unfold nnChunkrefMax at hlt
    have hlen' : (slice x.ref 0 x.tag.toNat).length = x.tag.toNat := length_slice (by omega)
    have hin : 0 + (slice x.ref 0 x.tag.toNat).length ≤ dst.ref.length := by omega
    refine ⟨{ dst with tag := x.tag, ref := splice dst.ref 0 (slice x.ref 0 x.tag.toNat) }, ?_, ?_,
      rfl, fun h => absurd h htag, (length_splice hin).trans hdst⟩
    · rw [nnChunkrefMv, if_neg htag, readArea_of_le (by omega), ok_bind, writeArea_of_le hin]
      rfl
    · refine (of_inline (x := { dst with tag := x.tag, ref := _ }) htag).2 ⟨hlt, ?_⟩
      have hfirst := slice_splice_self hin
      rw [hlen', slice, List.drop_zero] at hfirst
      exact hfirst.symm

/-- The chunk that is taken out of a reference; one that had none has to make it. -/
theorem getchunk (hlen : x.ref.length = 31) (h : x.Holds heap bytes) (mem : Option Fresh)
    (hmem : x.tag ≠ 0xff → mem.isSome) :
    ∃ p heap' c, nnChunkrefGetchunk x heap mem = .ok (p, { x with tag := 0 }, heap') ∧
      heap' p.addr = some c ∧
      c.Holds p.pos bytes ∧ (x.tag = 0xff → p = x.chunk ∧ heap' = heap) ∧
        (x.tag ≠ 0xff → ∃ f ∈ mem, p = ⟨f.addr, 8⟩) ∧
      ∀ a ≠ p.addr, heap' a = heap a := by
  by_cases htag : x.tag = 0xff
  · obtain ⟨c, hc, hholds⟩ := (of_heap htag).1 h
    exact ⟨x.chunk, heap, c, by rw [nnChunkrefGetchunk, if_pos htag], hc, hholds,
      fun _ => ⟨rfl, rfl⟩, fun h => absurd htag h, fun _ _ => rfl⟩
  · obtain ⟨f, rfl⟩ := Option.isSome_iff_exists.1 (hmem htag)
    obtain ⟨hlt, rfl⟩ := (of_inline htag).1 h
    unfold nnChunkrefMax at hlt
    have hsize : nnChunkHdrsize + x.tag.toNat < 2 ^ 64 := by
      unfold nnChunkHdrsize
      omega
    obtain ⟨c, heq, hholds, -⟩ := nnChunkAlloc_ok heap hsize f
    have hlen' : (slice x.ref 0 x.tag.toNat).length = x.tag.toNat := length_slice (by omega)
    have hself : Function.update heap f.addr (some c) f.addr = some c := Function.update_self ..
    have hroom :
        0 + (slice x.ref 0 x.tag.toNat).length ≤ ((List.range x.tag.toNat).map f.bytes).length := by
      rw [hlen', zero_add, List.length_map, List.length_range]
    obtain ⟨c', heq', hholds', -⟩ := hholds.write hself hroom
    refine ⟨⟨f.addr, 8⟩, Function.update (Function.update heap f.addr (some c)) f.addr (some c'),
      c', ?_, Function.update_self .., ?_, fun h => absurd h htag, fun _ => ⟨f, rfl, rfl⟩, ?_⟩
    · rw [nnChunkrefGetchunk, if_neg htag, heq]
      simp only
      rw [readArea_of_le (by omega), ok_bind, heq']
      rfl
    · have hall : splice ((List.range x.tag.toNat).map f.bytes) 0 (slice x.ref 0 x.tag.toNat) =
          x.ref.take x.tag.toNat := by
        rw [splice, List.take_zero, List.nil_append, hlen', List.drop_of_length_le (by simp),
          List.append_nil, slice, List.drop_zero]
      rwa [hall] at hholds'
    · intro a ha
      rw [Function.update_of_ne ha, Function.update_of_ne ha]

end Chunkref.Holds

/-- A new reference holds what happens to be in the memory. -/
theorem nnChunkrefInit_inline (x : Chunkref) (heap : ChunkHeap) {size : ℕ}
    (hsize : size < nnChunkrefMax) (mem : Option Fresh) :
    nnChunkrefInit x heap size mem = .ok ({ x with tag := .ofNat size }, heap) ∧
      UInt8.ofNat size ≠ 0xff ∧
      ({ x with tag := .ofNat size } : Chunkref).Holds heap (x.ref.take size) := by
  have hofNat : (UInt8.ofNat size).toNat = size :=
    UInt8.toNat_ofNat_of_lt' (hsize.trans (by decide))
  have htag : UInt8.ofNat size ≠ 0xff := by
    intro heq
    have := congrArg UInt8.toNat heq
    rw [hofNat] at this
    change _ = 255 at this
    unfold nnChunkrefMax at hsize
    omega
  exact ⟨if_pos hsize, htag,
    (Chunkref.Holds.of_inline htag).2 ⟨hofNat.symm ▸ hsize, by rw [hofNat]⟩⟩

theorem nnChunkrefInit_heap (x : Chunkref) (heap : ChunkHeap) {size : ℕ}
    (hsize : nnChunkrefMax ≤ size) (hmax : nnChunkHdrsize + size < 2 ^ 64) (mem : Fresh) :
    ∃ c, nnChunkrefInit x heap size (some mem) =
        .ok ({ x with tag := 0xff, chunk := ⟨mem.addr, 8⟩ },
          Function.update heap mem.addr (some c)) ∧
      c.Holds 8 ((List.range size).map mem.bytes) := by
  obtain ⟨c, heq, hholds, -⟩ := nnChunkAlloc_ok heap hmax mem
  refine ⟨c, ?_, hholds⟩
  rw [nnChunkrefInit, if_neg (not_lt.2 hsize), heq]

end NanoSocket

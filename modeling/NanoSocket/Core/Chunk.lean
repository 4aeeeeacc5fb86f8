import NanoSocket.Core.Wire
import NanoSocket.Lib.Slice

/-!
# Chunks (`utils/chunk.c`)

A chunk is allocated memory with a count of the references to it.  Behind its structure comes empty
space, then the size of the empty space and a tag, and then the data: a pointer to the data leads
back to the structure through the eight bytes in front of it.  Trimming moves the pointer and writes
these bytes again.

`NnChunk.Holds` says that a chunk has these bytes in front of a pointer, and `nnChunkGetptr_iff`
that they are what `nn_chunk_getptr` checks; each function has a lemma about chunks that hold some
data.
-/

namespace NanoSocket

open Slice

/-- `NN_CHUNK_TAG`. -/
def nnChunkTag : UInt32 := 0xdeadcafe

/-- `NN_CHUNK_TAG_DEALLOCATED`. -/
def nnChunkTagDeallocated : UInt32 := 0xbeadfeed

/-- `struct nn_chunk`, with the memory behind it.  Every chunk is freed by
`nn_chunk_default_free`. -/
structure NnChunk where
  refcount : ℕ
  size : ℕ
  area : List UInt8
  deriving DecidableEq, Repr

/-- A pointer to the data of a chunk: the address of the structure, and how far behind the structure
it points. -/
structure ChunkPtr where
  addr : ℕ
  pos : ℕ
  deriving DecidableEq, Repr

/-- The chunks by their address. -/
abbrev ChunkHeap := ℕ → Option NnChunk

/-- Memory from `nn_alloc`: its address, and what happens to be in it. -/
structure Fresh where
  addr : ℕ
  bytes : ℕ → UInt8

/-- The error codes of `chunk.c`. -/
inductive ChunkErrno
  | enomem
  | einval
  deriving DecidableEq, Repr

/-- Read from the memory behind the structure. -/
def readArea (area : List UInt8) (i n : ℕ) : Except Fault (List UInt8) :=
  if i + n ≤ area.length then .ok (slice area i n) else .error .outOfBounds

/-- Write to the memory behind the structure. -/
def writeArea (area : List UInt8) (i : ℕ) (bytes : List UInt8) : Except Fault (List UInt8) :=
  if i + bytes.length ≤ area.length then .ok (splice area i bytes) else .error .outOfBounds

/-- `sizeof (struct nn_chunk)` and the size and the tag behind it. -/
def nnChunkHdrsize : ℕ := 24 + 8

/-- `nn_chunk_getptr`; a pointer that does not lead to a chunk is not followed. -/
def nnChunkGetptr (heap : ChunkHeap) (p : ChunkPtr) : Except Fault NnChunk :=
  match heap p.addr with
  | none => .error .outOfBounds
  | some self =>
    if p.pos < 8 then .error .outOfBounds
    else do
      let tag ← nnGetl (← readArea self.area (p.pos - 4) 4)
      nnAssert (tag = nnChunkTag)
      let off ← nnGetl (← readArea self.area (p.pos - 8) 4)
      if off.toNat = p.pos - 8 then return self
      throw .outOfBounds

/-- `nn_chunk_getdata`: the data of a chunk that was not trimmed. -/
def nnChunkGetdata (addr : ℕ) : ChunkPtr := ⟨addr, 8⟩

/-- `nn_chunk_alloc`; `mem` is what `nn_alloc` returns. -/
def nnChunkAlloc (heap : ChunkHeap) (size : ℕ) (type : ℤ) (mem : Option Fresh) :
    Except ChunkErrno (ChunkPtr × ChunkHeap) :=
  if (nnChunkHdrsize + size) % 2 ^ 64 < nnChunkHdrsize then .error .enomem
  else if type ≠ 0 then .error .einval
  else
    match mem with
    | none => .error .enomem
    | some mem =>
      let area := nnPutl 0 ++ nnPutl nnChunkTag ++ (List.range size).map mem.bytes
      let self := { refcount := 1, size := size, area := area }
      .ok (nnChunkGetdata mem.addr, Function.update heap mem.addr (some self))

/-- `nn_chunk_free`. -/
def nnChunkFree (heap : ChunkHeap) (p : ChunkPtr) : Except Fault ChunkHeap := do
  let self ← nnChunkGetptr heap p
  if self.refcount ≤ 1 then
    let _ ← writeArea self.area (p.pos - 4) (nnPutl nnChunkTagDeallocated)
    return Function.update heap p.addr none
  return Function.update heap p.addr (some { self with refcount := self.refcount - 1 })

/-- `nn_chunk_addref`. -/
def nnChunkAddref (heap : ChunkHeap) (p : ChunkPtr) (n : ℕ) : Except Fault ChunkHeap := do
  let self ← nnChunkGetptr heap p
  return Function.update heap p.addr (some { self with refcount := self.refcount + n })

/-- `nn_chunk_size`. -/
def nnChunkSize (heap : ChunkHeap) (p : ChunkPtr) : Except Fault ℕ := do
  let self ← nnChunkGetptr heap p
  return self.size

/-- `nn_chunk_trim`. -/
def nnChunkTrim (heap : ChunkHeap) (p : ChunkPtr) (n : ℕ) :
    Except Fault (ChunkPtr × ChunkHeap) := do
  let self ← nnChunkGetptr heap p
  nnAssert (n ≤ self.size)
  let pos := p.pos + n
  let area ← writeArea self.area (pos - 4) (nnPutl nnChunkTag)
  let emptySpace := pos - 8
  nnAssert (emptySpace < 2 ^ 32 - 1)
  let area ← writeArea area (pos - 8) (nnPutl (.ofNat emptySpace))
  let self := { self with area := area, size := self.size - n }
  return (⟨p.addr, pos⟩, Function.update heap p.addr (some self))

/-- Read the data at a pointer. -/
def chunkRead (heap : ChunkHeap) (p : ChunkPtr) (n : ℕ) : Except Fault (List UInt8) :=
  match heap p.addr with
  | none => .error .outOfBounds
  | some self => readArea self.area p.pos n

/-- Write to the data at a pointer. -/
def chunkWrite (heap : ChunkHeap) (p : ChunkPtr) (i : ℕ) (bytes : List UInt8) :
    Except Fault ChunkHeap :=
  match heap p.addr with
  | none => .error .outOfBounds
  | some self => do
    let area ← writeArea self.area (p.pos + i) bytes
    return Function.update heap p.addr (some { self with area := area })

/-! ### What a chunk holds -/

/-- The chunk has the data `bytes` for a pointer to the position `pos`. -/
structure NnChunk.Holds (c : NnChunk) (pos : ℕ) (bytes : List UInt8) : Prop where
  refs : 0 < c.refcount
  start : 8 ≤ pos
  empty : pos - 8 < 2 ^ 32 - 1
  header : slice c.area (pos - 8) 8 = nnPutl (.ofNat (pos - 8)) ++ nnPutl nnChunkTag
  size : c.size = bytes.length
  fits : pos + bytes.length ≤ c.area.length
  data : slice c.area pos bytes.length = bytes

theorem readArea_of_le {area : List UInt8} {i n : ℕ} (h : i + n ≤ area.length) :
    readArea area i n = .ok (slice area i n) := if_pos h

theorem writeArea_of_le {area bytes : List UInt8} {i : ℕ} (h : i + bytes.length ≤ area.length) :
    writeArea area i bytes = .ok (splice area i bytes) := if_pos h

theorem toNat_ofNat_sub {n : ℕ} (h : n < 2 ^ 32) : (UInt32.ofNat n).toNat = n := by
  rw [UInt32.toNat_ofNat', Nat.mod_eq_of_lt h]

theorem nnGetl_slice {area : List UInt8} {i : ℕ} {v : UInt32} (h : i + 4 ≤ area.length) :
    nnGetl (slice area i 4) = .ok v ↔ slice area i 4 = nnPutl v := by
  constructor
  · intro hv
    exact (nnPutl_of_nnGetl (length_slice h) hv).symm
  · intro hv
    rw [hv, ← List.append_nil (nnPutl v), nnGetl_nnPutl]

/-- A pointer is followed when it leads to a chunk whose header says so. -/
theorem nnChunkGetptr_iff {heap : ChunkHeap} {p : ChunkPtr} {c : NnChunk} :
    nnChunkGetptr heap p = .ok c ↔ heap p.addr = some c ∧ 8 ≤ p.pos ∧ p.pos - 8 < 2 ^ 32 ∧
      p.pos ≤ c.area.length ∧ slice c.area (p.pos - 8) 8 = nnPutl (.ofNat (p.pos - 8)) ++
        nnPutl nnChunkTag := by
  unfold nnChunkGetptr
  cases hc : heap p.addr with
  | none => simp
  | some self =>
    simp only
    split_ifs with hpos
    · refine iff_of_false nofun ?_
      rintro ⟨-, h, -⟩
      omega
    by_cases hlen : p.pos ≤ self.area.length
    swap
    · rw [readArea, if_neg (by omega)]
      refine iff_of_false nofun ?_
      rintro ⟨heq, -, -, h, -⟩
      obtain rfl := Option.some_inj.1 heq
      exact hlen h
    have hheader : slice self.area (p.pos - 8) 8 = slice self.area (p.pos - 8) 4 ++ slice self.area
        (p.pos - 4) 4 := by
      rw [show p.pos - 4 = p.pos - 8 + 4 by omega, ← slice_add]
    rw [readArea_of_le (by omega), readArea_of_le (by omega), ok_bind]
    constructor
    · intro h
      obtain ⟨tag, htag, h⟩ := bind_eq_ok.1 h
      obtain ⟨⟨⟩, hassert, h⟩ := bind_eq_ok.1 h
      rw [ok_bind] at h
      obtain ⟨off, hoff, h⟩ := bind_eq_ok.1 h
      rw [nnGetl_slice (by omega)] at htag hoff
      have htageq : tag = nnChunkTag := by
        by_contra hne
        rw [nnAssert_of_not hne] at hassert
        cases hassert
      split_ifs at h with heq
      · cases h
        refine ⟨rfl, by omega, heq ▸ off.toNat_lt, hlen, ?_⟩
        rw [hheader, htag, hoff, htageq, ← heq, UInt32.ofNat_toNat]
    · rintro ⟨heq, -, hlt, -, hsl⟩
      obtain rfl := Option.some_inj.1 heq
      rw [hheader] at hsl
      obtain ⟨hoff, htag⟩ := List.append_inj hsl (by rw [length_slice (by omega), length_nnPutl])
      rw [(nnGetl_slice (by omega)).2 htag, ok_bind, nnAssert_of rfl, ok_bind, ok_bind,
        (nnGetl_slice (by omega)).2 hoff, ok_bind, if_pos (toNat_ofNat_sub hlt)]
      rfl

namespace NnChunk.Holds

variable {c : NnChunk} {heap : ChunkHeap} {a pos n : ℕ} {bytes : List UInt8}

theorem getptr (h : c.Holds pos bytes) (hc : heap a = some c) :
    nnChunkGetptr heap ⟨a, pos⟩ = .ok c :=
  nnChunkGetptr_iff.2 ⟨hc, h.start, h.empty.trans (by decide),
    (Nat.le_add_right ..).trans h.fits, h.header⟩

theorem size_eq (h : c.Holds pos bytes) (hc : heap a = some c) :
    nnChunkSize heap ⟨a, pos⟩ = .ok bytes.length := by
  rw [nnChunkSize, h.getptr hc, ← h.size]
  rfl

/-- The bytes in front of the trimmed data become the new header. -/
theorem trim (h : c.Holds pos bytes) (hc : heap a = some c) (hn : n ≤ bytes.length)
    (hempty : pos + n - 8 < 2 ^ 32 - 1) :
    ∃ c', nnChunkTrim heap ⟨a, pos⟩ n = .ok (⟨a, pos + n⟩, Function.update heap a (some c')) ∧
      c'.Holds (pos + n) (bytes.drop n) ∧ c'.refcount = c.refcount ∧
        c'.area.length = c.area.length := by
  have hfits := h.fits
  have hstart := h.start
  have htag : pos + n - 4 + (nnPutl nnChunkTag).length ≤ c.area.length := by
    rw [length_nnPutl]
    omega
  have hoff : pos + n - 8 + (nnPutl (.ofNat (pos + n - 8))).length ≤
      (splice c.area (pos + n - 4) (nnPutl nnChunkTag)).length := by
    rw [length_nnPutl, length_splice htag]
    omega
  refine ⟨{ c with
    area := splice (splice c.area (pos + n - 4) (nnPutl nnChunkTag)) (pos + n - 8)
      (nnPutl (.ofNat (pos + n - 8)))
    size := c.size - n }, ?_, ⟨h.refs, by omega, hempty, ?_, ?_, ?_, ?_⟩, rfl, ?_⟩
  · rw [nnChunkTrim, h.getptr hc, ok_bind, nnAssert_of (by rw [h.size]; exact hn), ok_bind]
    simp only
    rw [writeArea_of_le htag, ok_bind, nnAssert_of hempty, ok_bind, writeArea_of_le hoff]
    rfl
  · refine slice_append (n := 4) (slice_splice_self hoff) ?_
    rw [slice_splice_after hoff (le_refl _), length_nnPutl,
      show pos + n - 8 + 4 = pos + n - 4 by omega]
    exact slice_splice_self htag
  · rw [List.length_drop, ← h.size]
  · rw [length_splice hoff, length_splice htag, List.length_drop]
    omega
  · rw [slice_splice_after hoff (by rw [length_nnPutl]; omega),
      slice_splice_after htag (by rw [length_nnPutl]; omega), List.length_drop]
    refine slice_drop ?_
    rw [Nat.add_sub_cancel' hn]
    exact h.data
  · rw [length_splice hoff, length_splice htag]

/-- The empty space has to fit in its four bytes. -/
theorem trim_abort (h : c.Holds pos bytes) (hc : heap a = some c) (hn : n ≤ bytes.length)
    (hempty : 2 ^ 32 - 1 ≤ pos + n - 8) : nnChunkTrim heap ⟨a, pos⟩ n = .error .assertFailed := by
  have hfits := h.fits
  have htag : pos + n - 4 + (nnPutl nnChunkTag).length ≤ c.area.length := by
    rw [length_nnPutl]
    omega
  rw [nnChunkTrim, h.getptr hc, ok_bind, nnAssert_of (by rw [h.size]; exact hn), ok_bind]
  simp only
  rw [writeArea_of_le htag, ok_bind, nnAssert_of_not (not_lt.2 hempty)]
  rfl

theorem free_last (h : c.Holds pos bytes) (hc : heap a = some c) (hrefs : c.refcount = 1) :
    nnChunkFree heap ⟨a, pos⟩ = .ok (Function.update heap a none) := by
  have hfits := h.fits
  have hstart := h.start
  have hle : pos - 4 + (nnPutl nnChunkTagDeallocated).length ≤ c.area.length := by
    rw [length_nnPutl]
    omega
  rw [nnChunkFree, h.getptr hc, ok_bind, if_pos hrefs.le, writeArea_of_le hle]
  rfl

theorem free_shared (h : c.Holds pos bytes) (hc : heap a = some c) (hrefs : 1 < c.refcount) :
    nnChunkFree heap ⟨a, pos⟩ =
      .ok (Function.update heap a (some { c with refcount := c.refcount - 1 })) := by
  rw [nnChunkFree, h.getptr hc, ok_bind, if_neg (by omega)]
  rfl

theorem addref (h : c.Holds pos bytes) (hc : heap a = some c) (n : ℕ) :
    nnChunkAddref heap ⟨a, pos⟩ n =
      .ok (Function.update heap a (some { c with refcount := c.refcount + n })) := by
  rw [nnChunkAddref, h.getptr hc]
  rfl

theorem read (h : c.Holds pos bytes) (hc : heap a = some c) :
    chunkRead heap ⟨a, pos⟩ bytes.length = .ok bytes := by
  unfold chunkRead
  rw [hc]
  exact (readArea_of_le h.fits).trans (congrArg Except.ok h.data)

/-- Writes stay inside the data. -/
theorem write (h : c.Holds pos bytes) (hc : heap a = some c) {i : ℕ} {new : List UInt8}
    (hi : i + new.length ≤ bytes.length) :
    ∃ c', chunkWrite heap ⟨a, pos⟩ i new = .ok (Function.update heap a (some c')) ∧
      c'.Holds pos (splice bytes i new) ∧
      c'.refcount = c.refcount ∧ c'.area.length = c.area.length := by
  have hfits := h.fits
  have hstart := h.start
  have hin : pos + i + new.length ≤ c.area.length := by omega
  refine ⟨{ c with area := splice c.area (pos + i) new }, ?_,
    ⟨h.refs, hstart, h.empty, ?_, ?_, ?_, ?_⟩, rfl, length_splice hin⟩
  · unfold chunkWrite
    rw [hc]
    simp only
    rw [writeArea_of_le hin]
    rfl
  · rw [slice_splice_before hin (by omega)]
    exact h.header
  · rw [length_splice hi]
    exact h.size
  · rw [length_splice hi, length_splice hin]
    exact hfits
  · rw [length_splice hi]
    apply List.ext_getElem?
    intro k
    rw [getElem?_slice, getElem?_splice hin, getElem?_splice hi]
    have hdata : ∀ k < bytes.length, c.area[pos + k]? = bytes[k]? := by
      intro k hk
      conv_rhs => rw [← h.data, getElem?_slice, if_pos hk]
    split_ifs with hk h1 h2 h3 h4 h5
    all_goals first | omega | exact hdata k hk | skip
    · congr 1
      omega
    · rw [List.getElem?_eq_none (by omega)]

/-- The count of the references does not matter to what a chunk holds. -/
theorem recount (h : c.Holds pos bytes) {n : ℕ} (hn : 0 < n) :
    ({ c with refcount := n } : NnChunk).Holds pos bytes :=
  ⟨hn, h.start, h.empty, h.header, h.size, h.fits, h.data⟩

end NnChunk.Holds

/-- A new chunk holds what the memory held. -/
theorem NnChunk.holds_new (bytes : List UInt8) :
    (⟨1, bytes.length, nnPutl 0 ++ nnPutl nnChunkTag ++ bytes⟩ : NnChunk).Holds 8 bytes := by
  refine ⟨Nat.one_pos, le_refl 8, by decide, rfl, rfl, ?_, ?_⟩
  · simp only [List.length_append, length_nnPutl, le_refl]
  · rw [slice, List.drop_left' (by rfl), List.take_length]

theorem nnChunkAlloc_ok (heap : ChunkHeap) {size : ℕ}
    (hsize : nnChunkHdrsize + size < 2 ^ 64) (mem : Fresh) :
    ∃ c, nnChunkAlloc heap size 0 (some mem) =
      .ok (⟨mem.addr, 8⟩, Function.update heap mem.addr (some c)) ∧
      c.Holds 8 ((List.range size).map mem.bytes) ∧ c.refcount = 1 ∧ c.area.length = 8 + size := by
  have hholds := NnChunk.holds_new ((List.range size).map mem.bytes)
  rw [List.length_map, List.length_range] at hholds
  refine ⟨⟨1, size, nnPutl 0 ++ nnPutl nnChunkTag ++ (List.range size).map mem.bytes⟩, ?_,
    hholds, rfl, ?_⟩
  · rw [nnChunkAlloc, if_neg (by rw [Nat.mod_eq_of_lt hsize]; omega), if_neg (by decide)]
    rfl
  · simp only [List.length_append, length_nnPutl, List.length_map, List.length_range]

/-- What an allocation that does not fail has done. -/
theorem nnChunkAlloc_inv {heap heap' : ChunkHeap} {size : ℕ} {mem : Option Fresh} {p : ChunkPtr}
    (h : nnChunkAlloc heap size 0 mem = .ok (p, heap')) :
    ∃ f c, mem = some f ∧ p = ⟨f.addr, 8⟩ ∧ heap' = Function.update heap f.addr (some c) ∧
      c.Holds 8 ((List.range size).map f.bytes) ∧ c.refcount = 1 ∧ c.area.length = 8 + size := by
  unfold nnChunkAlloc at h
  split_ifs at h
  cases mem with
  | none => cases h
  | some f =>
    cases h
    have hholds := NnChunk.holds_new ((List.range size).map f.bytes)
    rw [List.length_map, List.length_range] at hholds
    refine ⟨f, _, rfl, rfl, rfl, hholds, rfl, ?_⟩
    simp only [List.length_append, length_nnPutl, List.length_map, List.length_range]

end NanoSocket

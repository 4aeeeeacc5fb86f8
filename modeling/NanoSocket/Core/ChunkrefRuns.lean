import NanoSocket.Core.Chunkref
import NanoSocket.Lib.Runs

/-!
# Chunk references as lists of bytes (`utils/chunkref.c`, `utils/chunk.c`)

`ChunkrefWorld` has any number of references and the chunks that were taken out of such, with the
lists of bytes that they stand for.  `chunkref_refines_list` says that after any calls the
references have these bytes, wherever they keep them, and that every pointer to a chunk leads back
to it.
-/

namespace NanoSocket

open Runs Slice

/-- What a reference stands for: its bytes, how many were trimmed off since it was made, and the
address of its chunk if it has one. -/
structure Content where
  bytes : List UInt8
  trimmed : ℕ
  home : Option ℕ
  deriving DecidableEq

/-- The reference has this content. -/
structure Content.In (y : Content) (x : Chunkref) (heap : ChunkHeap) : Prop where
  length : x.ref.length = 31
  holds : x.Holds heap y.bytes
  inline : x.tag ≠ 0xff → y.home = none
  pointer : x.tag = 0xff → y.home = some x.chunk.addr ∧ x.chunk.pos = 8 + y.trimmed

theorem Content.In.frame {y : Content} {x : Chunkref} {heap : ChunkHeap} (h : y.In x heap) {a : ℕ}
    (ha : y.home ≠ some a) (htag : x.tag = 0xff) : a ≠ x.chunk.addr := by
  rintro rfl
  exact ha (h.pointer htag).1

/-- A call of one of the functions, or a write to the data.  `mem` is what `nn_alloc` returns. -/
inductive ChunkrefCall
  | init (v size : ℕ) (mem : Option Fresh)
  | write (v i : ℕ) (bytes : List UInt8)
  | trim (v n : ℕ)
  | mv (dst src : ℕ)
  | getchunk (v : ℕ) (mem : Option Fresh)

/-- The chunks, the references, and the chunks that were taken out; with what they stand for. -/
structure ChunkrefWorld where
  heap : ChunkHeap
  refs : ℕ → Chunkref
  contents : ℕ → Option Content
  taken : List (ChunkPtr × Content)

namespace ChunkrefWorld

/-- No chunks, and references that are not initialised. -/
def init (refs : ℕ → Chunkref) : ChunkrefWorld := ⟨fun _ => none, refs, fun _ => none, []⟩

/-- What a new reference stands for: the bytes that happen to be in its memory. -/
def newContent (x : Chunkref) (size : ℕ) (mem : Option Fresh) : Content :=
  if size < nnChunkrefMax then ⟨x.ref.take size, 0, none⟩
  else ⟨(List.range size).map (mem.elim (fun _ => 0) Fresh.bytes), 0, mem.map Fresh.addr⟩

/-- Make a call, and do the same to the lists of bytes. -/
def call (w : ChunkrefWorld) : ChunkrefCall → Except Fault (ChunkrefWorld × Unit)
  | .init v size mem => do
    let (x, heap) ← nnChunkrefInit (w.refs v) w.heap size mem
    let y := newContent (w.refs v) size mem
    return ({ w with
      heap := heap, refs := Function.update w.refs v x, contents :=
        Function.update w.contents v (some y) }, ())
  | .write v i bytes => do
    let (x, heap) ← chunkrefWrite (w.refs v) w.heap i bytes
    let y := (w.contents v).map fun y => { y with bytes := splice y.bytes i bytes }
    return ({ w with
      heap := heap, refs := Function.update w.refs v x, contents :=
        Function.update w.contents v y }, ())
  | .trim v n => do
    let (x, heap) ← nnChunkrefTrim (w.refs v) w.heap n
    let y := (w.contents v).map fun y =>
      { y with bytes := y.bytes.drop n, trimmed := y.trimmed + n }
    return ({ w with
      heap := heap, refs := Function.update w.refs v x, contents :=
        Function.update w.contents v y }, ())
  | .mv dst src => do
    let x ← nnChunkrefMv (w.refs dst) (w.refs src)
    let contents := Function.update (Function.update w.contents src none) dst (w.contents src)
    return ({ w with refs := Function.update w.refs dst x, contents := contents }, ())
  | .getchunk v mem => do
    let (p, x, heap) ← nnChunkrefGetchunk (w.refs v) w.heap mem
    let y := (w.contents v).map fun y => if y.home = none then ⟨y.bytes, 0, some p.addr⟩ else y
    return ({
      heap := heap
      refs := Function.update w.refs v x
      contents := Function.update w.contents v (some ⟨[], 0, none⟩)
      taken := w.taken ++ y.toList.map fun y => (p, y) }, ())

/-- The memory is not in use. -/
def IsFresh (w : ChunkrefWorld) (mem : Option Fresh) : Prop := ∃ f ∈ mem, w.heap f.addr = none

/-- References are initialised once, and used when they are; writes and trims are inside of the
data; what is trimmed off in all stays below `UINT32_MAX`; and there is memory. -/
def Enabled (w : ChunkrefWorld) : ChunkrefCall → Prop
  | .init v size mem => w.contents v = none ∧
      (nnChunkrefMax ≤ size → nnChunkHdrsize + size < 2 ^ 64 ∧ w.IsFresh mem)
  | .write v i bytes => ∃ y ∈ w.contents v, i + bytes.length ≤ y.bytes.length
  | .trim v n => ∃ y ∈ w.contents v, n ≤ y.bytes.length ∧ y.trimmed + n < 2 ^ 32 - 1
  | .mv dst src => w.contents dst = none ∧ ∃ y, w.contents src = some y
  | .getchunk v mem => ∃ y ∈ w.contents v, y.home = none → w.IsFresh mem

/-- The reference has the chunk at this address. -/
def At (w : ChunkrefWorld) (a v : ℕ) : Prop := ∃ y ∈ w.contents v, y.home = some a

/-- Everything has its content, and every chunk belongs to one reference or was taken out. -/
structure Inv (w : ChunkrefWorld) : Prop where
  length : ∀ v, (w.refs v).ref.length = 31
  holds : ∀ v, ∀ y ∈ w.contents v, y.In (w.refs v) w.heap
  apart : ∀ a v v', w.At a v → w.At a v' → v = v'
  taken : ∀ p y, (p, y) ∈ w.taken → y.home = some p.addr ∧ p.pos = 8 + y.trimmed ∧
    (∀ v, ¬ w.At p.addr v) ∧ ∃ c, w.heap p.addr = some c ∧ c.Holds p.pos y.bytes

theorem init_inv {refs : ℕ → Chunkref} (hrefs : ∀ v, (refs v).ref.length = 31) : (init refs).Inv :=
  ⟨hrefs, nofun, nofun, nofun⟩

variable {w : ChunkrefWorld} {v : ℕ} {x : Chunkref} {y : Content} {heap : ChunkHeap}

theorem Inv.heap_of_at (h : w.Inv) {a : ℕ} (ha : w.At a v) : ∃ c, w.heap a = some c := by
  obtain ⟨y, hy, hhome⟩ := ha
  obtain ⟨-, hholds, hinline, hptr⟩ := h.holds v y hy
  by_cases htag : (w.refs v).tag = 0xff
  · obtain ⟨c, hc, -⟩ := (Chunkref.Holds.of_heap htag).1 hholds
    obtain rfl := Option.some_inj.1 ((hptr htag).1.symm.trans hhome)
    exact ⟨c, hc⟩
  · cases (hinline htag).symm.trans hhome

/-- A reference gets a new value, and only its own chunk changes. -/
theorem Inv.put (h : w.Inv) (hx : y.In x heap) (hheap : ∀ a, y.home ≠ some a → heap a = w.heap a)
    (hfree : ∀ a, y.home = some a → (∀ v' ≠ v, ¬ w.At a v') ∧ ∀ p y',
      (p, y') ∈ w.taken → p.addr ≠ a) :
    Inv { w with
      heap := heap, refs := Function.update w.refs v x, contents :=
        Function.update w.contents v (some y) } := by
  have hat : ∀ a v', At { w with
      heap := heap, refs := Function.update w.refs v x, contents :=
    Function.update w.contents v (some y) } a v' ↔
      if v' = v then y.home = some a else w.At a v' := by
    intro a v'
    by_cases hv : v' = v
    · subst hv
      simp [At]
    · simp [At, hv]
  refine ⟨fun v' => ?_, fun v' y' hy' => ?_, fun a v₁ v₂ h₁ h₂ => ?_, fun p y' hp => ?_⟩
  · by_cases hv : v' = v
    · subst hv
      simpa using hx.length
    · simpa [hv] using h.length v'
  · by_cases hv : v' = v
    · subst hv
      simp only [Function.update_self, Option.mem_some_iff] at hy' ⊢
      exact hy' ▸ hx
    · simp only [Function.update_of_ne hv] at hy' ⊢
      obtain ⟨hlen, hholds, hinline, hptr⟩ := h.holds v' y' hy'
      refine ⟨hlen, hholds.congr fun htag => hheap _ fun hhome => ?_, hinline, hptr⟩
      exact (hfree _ hhome).1 v' hv ⟨y', hy', (hptr htag).1⟩
  · rw [hat] at h₁ h₂
    split_ifs at h₁ h₂ with hv₁ hv₂ hv₂
    · rw [hv₁, hv₂]
    · exact absurd h₂ ((hfree a h₁).1 v₂ hv₂)
    · exact absurd h₁ ((hfree a h₂).1 v₁ hv₁)
    · exact h.apart a v₁ v₂ h₁ h₂
  · obtain ⟨hhome, hpos, hnot, c, hc, hholds⟩ := h.taken p y' hp
    have hne : y.home ≠ some p.addr := fun heq => (hfree _ heq).2 p y' hp rfl
    refine ⟨hhome, hpos, fun v' hv' => ?_, c, (hheap _ hne).trans hc, hholds⟩
    rw [hat] at hv'
    split_ifs at hv'
    · exact hne hv'
    · exact hnot v' hv'

/-- A reference is no longer used. -/
theorem Inv.drop (h : w.Inv) (v : ℕ) :
    Inv { w with contents := Function.update w.contents v none } := by
  have hat : ∀ a v', At { w with contents := Function.update w.contents v none } a v' →
      w.At a v' := by
    rintro a v' ⟨y, hy, hhome⟩
    by_cases hv : v' = v
    · subst hv
      simp at hy
    · exact ⟨y, by simpa [hv] using hy, hhome⟩
  refine ⟨h.length, fun v' y' hy' => ?_,
    fun a v₁ v₂ h₁ h₂ => h.apart a v₁ v₂ (hat a v₁ h₁) (hat a v₂ h₂), fun p y' hp => ?_⟩
  · by_cases hv : v' = v
    · subst hv
      simp at hy'
    · exact h.holds v' y' (by simpa [hv] using hy')
  · obtain ⟨hhome, hpos, hnot, hc⟩ := h.taken p y' hp
    exact ⟨hhome, hpos, fun v' hv' => hnot v' (hat _ v' hv'), hc⟩

/-- Nobody has the chunk of a reference that is no longer used. -/
theorem Inv.not_at_drop (h : w.Inv) {a : ℕ} (ha : w.At a v) (v' : ℕ) :
    ¬ At { w with contents := Function.update w.contents v none } a v' := by
  rintro ⟨z, hz, hhome⟩
  have hv' : v' ≠ v := by
    rintro rfl
    simp at hz
  simp only [Function.update_of_ne hv'] at hz
  exact hv' (h.apart a v' v ⟨z, hz, hhome⟩ ha)

/-- A chunk is taken out of a reference. -/
theorem Inv.take (h : w.Inv) {p : ChunkPtr} (hdrop : ∀ v, ¬ w.At p.addr v) {c : NnChunk}
    (hc : w.heap p.addr = some c) (hholds : c.Holds p.pos y.bytes) (hhome : y.home = some p.addr)
    (hpos : p.pos = 8 + y.trimmed) :
    Inv { w with taken := w.taken ++ [(p, y)] } := by
  refine ⟨h.length, h.holds, h.apart, fun q z hq => ?_⟩
  rcases List.mem_append.1 hq with hq | hq
  · exact h.taken q z hq
  · obtain ⟨rfl, rfl⟩ := Prod.mk.inj (List.mem_singleton.1 hq)
    exact ⟨hhome, hpos, hdrop, c, hc, hholds⟩

theorem Inv.not_at_of_fresh (h : w.Inv) {a : ℕ} (hfresh : w.heap a = none) (v : ℕ) :
    ¬ w.At a v := by
  intro ha
  obtain ⟨c, hc⟩ := h.heap_of_at ha
  rw [hfresh] at hc
  cases hc

theorem Inv.not_taken_of_fresh (h : w.Inv) {p : ChunkPtr} (hp : (p, y) ∈ w.taken) {a : ℕ}
    (hfresh : w.heap a = none) :
    p.addr ≠ a := by
  rintro rfl
  obtain ⟨-, -, -, c, hc, -⟩ := h.taken p y hp
  rw [hfresh] at hc
  cases hc

/-- The reference is written in place. -/
theorem Inv.replace (h : w.Inv) {y' : Content} (hy : w.contents v = some y)
    (hhome : y'.home = y.home) (hx : y'.In x heap)
    (hheap : ∀ a, y.home ≠ some a → heap a = w.heap a) :
    Inv { w with
      heap := heap, refs := Function.update w.refs v x, contents :=
        Function.update w.contents v (some y') } := by
  refine h.put hx (hhome ▸ hheap) fun a ha => ?_
  have hat : w.At a v := ⟨y, hy, hhome ▸ ha⟩
  refine ⟨fun v' hv' hat' => hv' (h.apart a v' v hat' hat), fun p z hp heq => ?_⟩
  exact (h.taken p z hp).2.2.1 v (heq ▸ hat)

theorem Inv.alloc (h : w.Inv) (hheap : ∀ a, w.heap a ≠ none → heap a = w.heap a) :
    Inv { w with heap := heap } := by
  refine ⟨h.length, fun v y hy => ?_, h.apart, fun p y hp => ?_⟩
  · obtain ⟨hlen, hholds, hinline, hptr⟩ := h.holds v y hy
    refine ⟨hlen, hholds.congr fun htag => hheap _ ?_, hinline, hptr⟩
    obtain ⟨c, hc⟩ := h.heap_of_at ⟨y, hy, (hptr htag).1⟩
    exact hc ▸ Option.some_ne_none c
  · obtain ⟨hhome, hpos, hnot, c, hc, hholds⟩ := h.taken p y hp
    exact ⟨hhome, hpos, hnot, c, (hheap _ (hc ▸ Option.some_ne_none c)).trans hc, hholds⟩

theorem Inv.call_init (h : w.Inv) {size : ℕ} {mem : Option Fresh}
    (hc : w.Enabled (.init v size mem)) :
    ∃ w', w.call (.init v size mem) = .ok (w', ()) ∧ w'.Inv := by
  obtain ⟨hnone, hfresh⟩ := hc
  have hlen := h.length v
  by_cases hsize : size < nnChunkrefMax
  · obtain ⟨heq, htag, hholds⟩ := nnChunkrefInit_inline (w.refs v) w.heap hsize mem
    refine ⟨_, by rw [call, heq]; rfl, h.put ?_ (fun _ _ => rfl) ?_⟩
    · rw [newContent, if_pos hsize]
      exact ⟨hlen, hholds, fun _ => rfl, fun h => absurd h htag⟩
    · rw [newContent, if_pos hsize]
      nofun
  · obtain ⟨hmax, f, rfl, hfree⟩ := hfresh (not_lt.1 hsize)
    obtain ⟨c, heq, hholds⟩ := nnChunkrefInit_heap (w.refs v) w.heap (not_lt.1 hsize) hmax f
    refine ⟨_, by rw [call, heq]; rfl, h.put ?_ ?_ ?_⟩
    · rw [newContent, if_neg hsize]
      refine ⟨hlen, ?_, fun h => absurd rfl h, fun _ => ⟨rfl, rfl⟩⟩
      rw [Chunkref.Holds.of_heap (x := { w.refs v with tag := 0xff, chunk := ⟨f.addr, 8⟩ }) rfl]
      exact ⟨c, Function.update_self .., hholds⟩
    · intro a ha
      rw [newContent, if_neg hsize] at ha
      exact Function.update_of_ne (fun heq => ha (congrArg some heq.symm)) ..
    · rw [newContent, if_neg hsize]
      rintro a ⟨⟩
      exact ⟨fun v' _ => h.not_at_of_fresh hfree v', fun p y hp => h.not_taken_of_fresh hp hfree⟩

theorem Inv.call_write (h : w.Inv) {i : ℕ} {bytes : List UInt8}
    (hc : w.Enabled (.write v i bytes)) :
    ∃ w', w.call (.write v i bytes) = .ok (w', ()) ∧ w'.Inv := by
  obtain ⟨y, hy, hi⟩ := hc
  have hin := h.holds v y hy
  obtain ⟨x', heap', heq, hholds, htag, hchunk, hlen, hframe⟩ := hin.holds.write hin.length hi
  refine ⟨_, by rw [call, heq]; rfl, ?_⟩
  rw [show w.contents v = some y from hy]
  refine h.replace hy rfl ⟨hlen, hholds, ?_, ?_⟩ fun a ha => hframe a (hin.frame ha)
  · rw [htag]
    exact hin.inline
  · rw [htag, hchunk]
    exact hin.pointer

theorem Inv.call_trim (h : w.Inv) {n : ℕ} (hc : w.Enabled (.trim v n)) :
    ∃ w', w.call (.trim v n) = .ok (w', ()) ∧ w'.Inv := by
  obtain ⟨y, hy, hn, hempty⟩ := hc
  have hin := h.holds v y hy
  obtain ⟨x', heap', heq, hholds, htag, hchunk, hlen, hframe⟩ :=
    hin.holds.trim hin.length hn fun htag => by
    rw [(hin.pointer htag).2]
    omega
  refine ⟨_, by rw [call, heq]; rfl, ?_⟩
  rw [show w.contents v = some y from hy]
  refine h.replace hy rfl ⟨hlen, hholds, fun h => hin.inline fun heq => h (htag.2 heq), fun h => ?_⟩
    fun a ha => hframe a (hin.frame ha)
  obtain ⟨hhome, hpos⟩ := hin.pointer (htag.1 h)
  rw [hchunk (htag.1 h)]
  exact ⟨hhome, by simp only [hpos, add_assoc]⟩

theorem Inv.call_mv (h : w.Inv) {dst src : ℕ} (hc : w.Enabled (.mv dst src)) :
    ∃ w', w.call (.mv dst src) = .ok (w', ()) ∧ w'.Inv := by
  obtain ⟨hnone, y, hy⟩ := hc
  have hin := h.holds src y hy
  obtain ⟨x', heq, hholds, htag, hchunk, hlen⟩ := hin.holds.mv (h.length dst) hin.length
  refine ⟨_, by rw [call, heq]; rfl, ?_⟩
  rw [hy]
  refine (h.drop src).put ⟨hlen, hholds, ?_, fun h => ?_⟩ (fun _ _ => rfl) fun a ha =>
    ⟨?_, fun p z hp heq => ?_⟩
  · rw [htag]
    exact hin.inline
  · rw [htag] at h
    rw [hchunk h]
    exact hin.pointer h
  · exact fun v' _ => h.not_at_drop ⟨y, hy, ha⟩ v'
  · exact (h.taken p z hp).2.2.1 src (heq ▸ ⟨y, hy, ha⟩)

theorem Inv.call_getchunk (h : w.Inv) {mem : Option Fresh} (hc : w.Enabled (.getchunk v mem)) :
    ∃ w', w.call (.getchunk v mem) = .ok (w', ()) ∧ w'.Inv := by
  obtain ⟨y, hy, hfresh⟩ := hc
  have hin := h.holds v y hy
  obtain ⟨p, heap', c, heq, hc, hholds, hold, hnew, hframe⟩ :=
    hin.holds.getchunk hin.length mem fun htag => by
    obtain ⟨f, rfl, -⟩ := hfresh (hin.inline htag)
    rfl
  refine ⟨_, by rw [call, heq]; rfl, ?_⟩
  rw [show w.contents v = some y from hy]
  have hempty : Content.In ⟨[], 0, none⟩ { w.refs v with tag := 0 } heap' :=
    ⟨hin.length, (Chunkref.Holds.of_inline (x := { w.refs v with tag := 0 })
      (show (0 : UInt8) ≠ 0xff by decide)).2 ⟨show (0 : UInt8).toNat < nnChunkrefMax by decide,
      rfl⟩, fun _ => rfl, fun h => absurd h (show (0 : UInt8) ≠ 0xff by decide)⟩
  -- either way the chunk has no other owner, and the other chunks are what they were
  have hchunk : (∀ a, w.heap a ≠ none → heap' a = w.heap a) ∧
      (∀ v', ¬ At { w with contents := Function.update w.contents v none } p.addr v') ∧
      ∃ y', (if y.home = none then ⟨y.bytes, 0, some p.addr⟩ else y) = y' ∧ y'.bytes = y.bytes ∧
        y'.home = some p.addr ∧ p.pos = 8 + y'.trimmed := by
    by_cases htag : (w.refs v).tag = 0xff
    · obtain ⟨hhome, hpos⟩ := hin.pointer htag
      obtain ⟨rfl, rfl⟩ := hold htag
      exact ⟨fun _ _ => rfl, h.not_at_drop ⟨y, hy, hhome⟩, y,
        if_neg (hhome ▸ Option.some_ne_none _), rfl, hhome, hpos⟩
    · obtain ⟨f, rfl, hfree⟩ := hfresh (hin.inline htag)
      obtain ⟨f', hf', rfl⟩ := hnew htag
      obtain rfl := Option.mem_some_iff.1 hf'
      refine ⟨fun a ha => hframe a ?_, ?_, _, if_pos (hin.inline htag), rfl, rfl, rfl⟩
      · rintro rfl
        exact ha hfree
      · exact fun v' => (h.drop v).not_at_of_fresh hfree v'
  obtain ⟨hheap, hdrop, y', hy', hbytes, hhome, hpos⟩ := hchunk
  have hinv :=
    (((h.drop v).alloc hheap).take hdrop hc (hbytes ▸ hholds) hhome hpos).put (v := v) hempty
    (fun _ _ => rfl) nofun
  rw [Function.update_idem] at hinv
  rw [Option.map_some, hy']
  exact hinv

/-- Every call that is allowed returns and keeps the invariant. -/
theorem Inv.step (h : w.Inv) {c : ChunkrefCall} (hc : w.Enabled c) :
    ∃ w', w.call c = .ok (w', ()) ∧ w'.Inv := by
  cases c with
  | init v size mem => exact h.call_init hc
  | write v i bytes => exact h.call_write hc
  | trim v n => exact h.call_trim hc
  | mv dst src => exact h.call_mv hc
  | getchunk v mem => exact h.call_getchunk hc

theorem inv_of_trace {refs : ℕ → Chunkref} (hrefs : ∀ v, (refs v).ref.length = 31)
    {calls : List ChunkrefCall} (h : Trace call Enabled (init refs) calls w) : w.Inv := by
  apply h.invariant_of_step (I := fun _ w => w.Inv) (init_inv hrefs)
  intro _ w c hi hen
  obtain ⟨w', heq, hi'⟩ := hi.step hen
  exact ⟨w', (), heq, hi'⟩

/-- After any calls that are allowed, every reference has the size and the bytes of the list that it
stands for; the pointer of one that has a chunk is as far behind the start of the chunk as was
trimmed off, and leads to the chunk that was allocated for it; the chunks that were taken out have
their bytes, and their pointers lead to them; and every further call that is allowed returns. -/
theorem chunkref_refines_list {refs : ℕ → Chunkref} (hrefs : ∀ v, (refs v).ref.length = 31)
    {calls : List ChunkrefCall} (h : Trace call Enabled (init refs) calls w) :
    (∀ v, ∀ y ∈ w.contents v, nnChunkrefSize (w.refs v) w.heap = .ok y.bytes.length ∧
        chunkrefRead (w.refs v) w.heap y.bytes.length = .ok y.bytes ∧
        ((w.refs v).tag = 0xff ↔ y.home ≠ none) ∧
        ∀ a ∈ y.home, (w.refs v).chunk = ⟨a, 8 + y.trimmed⟩ ∧
          ∃ c, w.heap a = some c ∧ nnChunkGetptr w.heap (w.refs v).chunk = .ok c) ∧
      (∀ p y, (p, y) ∈ w.taken → nnChunkSize w.heap p = .ok y.bytes.length ∧
        chunkRead w.heap p y.bytes.length = .ok y.bytes ∧ y.home = some p.addr ∧
          p.pos = 8 + y.trimmed ∧
        ∃ c, w.heap p.addr = some c ∧ nnChunkGetptr w.heap p = .ok c) ∧
      ∀ c, w.Enabled c → ∃ w', w.call c = .ok (w', ()) := by
  have hi := inv_of_trace hrefs h
  refine ⟨fun v y hy => ?_, fun p y hp => ?_, fun c hc => ?_⟩
  · have hin := hi.holds v y hy
    refine ⟨hin.holds.size_eq hin.length, hin.holds.read hin.length,
      ⟨fun htag => ?_, fun hhome => ?_⟩, fun a ha => ?_⟩
    · rw [(hin.pointer htag).1]
      exact Option.some_ne_none _
    · by_contra htag
      exact hhome (hin.inline htag)
    · have htag : (w.refs v).tag = 0xff := by
        by_contra htag
        cases (hin.inline htag).symm.trans ha
      obtain ⟨hhome, hpos⟩ := hin.pointer htag
      obtain rfl := Option.some_inj.1 (hhome.symm.trans ha)
      obtain ⟨c, hc, hholds⟩ := (Chunkref.Holds.of_heap htag).1 hin.holds
      exact ⟨by rw [← hpos], c, hc, hholds.getptr hc⟩
  · obtain ⟨hhome, hpos, -, c, hc, hholds⟩ := hi.taken p y hp
    exact ⟨hholds.size_eq hc, hholds.read hc, hhome, hpos, c, hc, hholds.getptr hc⟩
  · obtain ⟨w', heq, -⟩ := hi.step hc
    exact ⟨w', heq⟩

instance (w : ChunkrefWorld) (mem : Option Fresh) : Decidable (w.IsFresh mem) :=
  inferInstanceAs (Decidable (∃ f ∈ mem, w.heap f.addr = none))

instance (w : ChunkrefWorld) : (c : ChunkrefCall) → Decidable (w.Enabled c)
  | .init v size mem => inferInstanceAs (Decidable (w.contents v = none ∧
      (nnChunkrefMax ≤ size → nnChunkHdrsize + size < 2 ^ 64 ∧ w.IsFresh mem)))
  | .write v i bytes =>
    inferInstanceAs (Decidable (∃ y ∈ w.contents v, i + bytes.length ≤ y.bytes.length))
  | .trim v n =>
    inferInstanceAs (Decidable (∃ y ∈ w.contents v, n ≤ y.bytes.length ∧
      y.trimmed + n < 2 ^ 32 - 1))
  | .mv dst src =>
    have : Decidable (∃ y, w.contents src = some y) := decidable_of_iff _ Option.isSome_iff_exists
    inferInstanceAs (Decidable (w.contents dst = none ∧ ∃ y, w.contents src = some y))
  | .getchunk v mem =>
    inferInstanceAs (Decidable (∃ y ∈ w.contents v, y.home = none → w.IsFresh mem))

/-- A body of 40 bytes that is written, trimmed twice by less than a header, moved and taken out. -/
theorem chunkref_refines_list_forty :
    ∃ w p y, Trace call Enabled (init fun _ => ⟨0, List.replicate 31 0, ⟨0, 0⟩⟩)
        [.init 0 40 (some ⟨7, fun _ => 0⟩), .write 0 3 [1, 2, 3, 4], .trim 0 3, .trim 0 2, .mv 1 0,
          .getchunk 1 none] w ∧
      (p, y) ∈ w.taken ∧ y.bytes.take 3 = [3, 4, 0] ∧ nnChunkSize w.heap p = .ok 35 := by
  have hrun : ∃ w, Trace call Enabled (init fun _ => ⟨0, List.replicate 31 0, ⟨0, 0⟩⟩)
      [.init 0 40 (some ⟨7, fun _ => 0⟩), .write 0 3 [1, 2, 3, 4], .trim 0 3, .trim 0 2, .mv 1 0,
        .getchunk 1 none] w ∧ ∃ g ∈ w.taken, g.2.bytes.take 3 = [3, 4, 0] ∧ g.2.bytes.length = 35 :=
    Trace.exists_of_runWhile (by decide)
  obtain ⟨w, h, ⟨p, y⟩, hg, htake, hlen⟩ := hrun
  obtain ⟨-, htaken, -⟩ := chunkref_refines_list (fun _ => by rfl) h
  exact ⟨w, p, y, h, hg, htake, hlen ▸ (htaken p y hg).1⟩

/-- A body of 2^32 bytes cannot be trimmed by 2^32 - 1 bytes. -/
theorem trim_beyond_aborts :
    ∃ w, call (init fun _ => ⟨0, List.replicate 31 0, ⟨0, 0⟩⟩)
      (.init 0 (2 ^ 32) (some ⟨0, fun _ => 0⟩)) = .ok (w, ()) ∧
      nnChunkrefSize (w.refs 0) w.heap = .ok (2 ^ 32) ∧
        call w (.trim 0 (2 ^ 32 - 1)) = .error .assertFailed := by
  have hsize : nnChunkrefMax ≤ 2 ^ 32 := by decide
  obtain ⟨c, heq, hholds⟩ :=
    nnChunkrefInit_heap ⟨0, List.replicate 31 0, ⟨0, 0⟩⟩ (fun _ => none) hsize (by decide)
    ⟨0, fun _ => 0⟩
  have hlen : ((List.range (2 ^ 32)).map fun _ => (0 : UInt8)).length = 2 ^ 32 := by
    rw [List.length_map, List.length_range]
  refine ⟨_, by rw [call, init, heq]; rfl, ?_, ?_⟩
  · rw [nnChunkrefSize, if_pos (by simp)]
    simp only [Function.update_self]
    rw [hholds.size_eq (Function.update_self ..), hlen]
  · rw [call, nnChunkrefTrim, if_pos (by simp)]
    simp only [Function.update_self]
    rw [hholds.trim_abort (Function.update_self ..) (by rw [hlen]; omega) (by omega)]
    rfl

end ChunkrefWorld

end NanoSocket

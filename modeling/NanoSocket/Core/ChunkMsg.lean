import NanoSocket.Core.Chunkref

/-!
# Messages (`utils/msg.c`)

A message is three references.  Copies of a message refer to the same chunks: copying counts the
references, and a copy of one part is the part itself.
-/

namespace NanoSocket

/-- `struct nn_msg`. -/
structure ChunkMsg where
  sphdr : Chunkref
  hdrs : Chunkref
  body : Chunkref
  deriving DecidableEq, Repr

/-- `nn_msg_term`. -/
def nnMsgTerm (self : ChunkMsg) (heap : ChunkHeap) : Except Fault ChunkHeap := do
  let heap ← nnChunkrefTerm self.sphdr heap
  let heap ← nnChunkrefTerm self.hdrs heap
  nnChunkrefTerm self.body heap

/-- `nn_msg_cp`: what `dst` becomes. -/
def nnMsgCp (src : ChunkMsg) (heap : ChunkHeap) : Except Fault (ChunkMsg × ChunkHeap) := do
  let (sphdr, heap) ← nnChunkrefCp src.sphdr heap
  let (hdrs, heap) ← nnChunkrefCp src.hdrs heap
  let (body, heap) ← nnChunkrefCp src.body heap
  return (⟨sphdr, hdrs, body⟩, heap)

/-- `nn_msg_bulkcopy_start`. -/
def nnMsgBulkcopyStart (self : ChunkMsg) (heap : ChunkHeap) (copies : ℕ) :
    Except Fault ChunkHeap := do
  let heap ← nnChunkrefBulkcopyStart self.sphdr heap copies
  let heap ← nnChunkrefBulkcopyStart self.hdrs heap copies
  nnChunkrefBulkcopyStart self.body heap copies

/-- `nn_msg_bulkcopy_cp`: what `dst` becomes. -/
def nnMsgBulkcopyCp (src : ChunkMsg) : ChunkMsg :=
  ⟨nnChunkrefBulkcopyCp src.sphdr, nnChunkrefBulkcopyCp src.hdrs, nnChunkrefBulkcopyCp src.body⟩

/-- The parts of a message. -/
inductive MsgPart
  | sphdr
  | hdrs
  | body
  deriving DecidableEq, Repr

namespace ChunkMsg

/-- One of the parts. -/
def part (m : ChunkMsg) : MsgPart → Chunkref
  | .sphdr => m.sphdr
  | .hdrs => m.hdrs
  | .body => m.body

/-- Replace one of the parts. -/
def setPart (m : ChunkMsg) (x : Chunkref) : MsgPart → ChunkMsg
  | .sphdr => { m with sphdr := x }
  | .hdrs => { m with hdrs := x }
  | .body => { m with body := x }

theorem part_setPart (m : ChunkMsg) (x : Chunkref) (p q : MsgPart) :
    (m.setPart x p).part q = if q = p then x else m.part q := by
  cases p <;> cases q <;> rfl

end ChunkMsg

/-- Every part of the message is initialised, and holds these bytes. -/
def ChunkMsg.Filled (m : ChunkMsg) (heap : ChunkHeap) (bytes : MsgPart → List UInt8) : Prop :=
  ∀ part, (m.part part).ref.length = 31 ∧ (m.part part).Holds heap (bytes part)

@[simp] theorem nnMsgBulkcopyCp_eq (src : ChunkMsg) : nnMsgBulkcopyCp src = src := rfl

/-- A copy is a bulk copy of one. -/
theorem nnMsgCp_eq (src : ChunkMsg) (heap : ChunkHeap) :
    nnMsgCp src heap = (do return (src, ← nnMsgBulkcopyStart src heap 1)) := by
  have hcp : ∀ (x : Chunkref) (heap : ChunkHeap),
      nnChunkrefCp x heap = (do return (x, ← nnChunkrefBulkcopyStart x heap 1)) := by
    intro x heap
    unfold nnChunkrefCp nnChunkrefBulkcopyStart
    by_cases htag : x.tag = 0xff
    · rw [if_pos htag, if_pos htag]
    · rw [if_neg htag, if_neg htag]
      rfl
  unfold nnMsgCp nnMsgBulkcopyStart
  simp only [hcp, bind_assoc, pure_bind]

/-- More references to the chunk of a reference do not change what any reference holds. -/
theorem Chunkref.Holds.bulkcopyStart {x y : Chunkref} {heap heap' : ChunkHeap} {bytes : List UInt8}
    {n : ℕ} (h : x.Holds heap bytes) (hstart : nnChunkrefBulkcopyStart y heap n = .ok heap') :
    x.Holds heap' bytes := by
  unfold nnChunkrefBulkcopyStart at hstart
  split_ifs at hstart with hy
  · obtain ⟨c, hptr, heq⟩ := bind_eq_ok.1 hstart
    obtain rfl := Except.ok.inj heq
    by_cases hx : x.tag = 0xff
    · obtain ⟨c', hc', hholds⟩ := (of_heap hx).1 h
      refine (of_heap hx).2 ?_
      by_cases haddr : x.chunk.addr = y.chunk.addr
      · obtain rfl : c' = c := by
          have := (nnChunkGetptr_iff.1 hptr).1
          rw [← haddr, hc'] at this
          exact Option.some_inj.1 this
        refine ⟨_, by rw [haddr, Function.update_self], hholds.recount ?_⟩
        exact Nat.add_pos_left hholds.refs n
      · exact ⟨c', (Function.update_of_ne haddr ..).trans hc', hholds⟩
    · exact (of_inline hx).2 ((of_inline hx).1 h)
  · obtain rfl := Except.ok.inj hstart
    exact h

theorem Chunkref.Holds.msgBulkcopyStart {x : Chunkref} {m : ChunkMsg} {heap heap' : ChunkHeap}
    {bytes : List UInt8} {n : ℕ} (h : x.Holds heap bytes)
    (hstart : nnMsgBulkcopyStart m heap n = .ok heap') : x.Holds heap' bytes := by
  obtain ⟨heap₁, h₁, hstart⟩ := bind_eq_ok.1 hstart
  obtain ⟨heap₂, h₂, h₃⟩ := bind_eq_ok.1 hstart
  exact ((h.bulkcopyStart h₁).bulkcopyStart h₂).bulkcopyStart h₃

/-! ### Counting the references -/

/-- The chunks of a heap with other counts of references; those without any are freed. -/
def withCounts (heap : ChunkHeap) (f : ℕ → ℕ) : ChunkHeap :=
  fun a => (heap a).bind fun c => if f a = 0 then none else some { c with refcount := f a }

/-- The counts in a heap. -/
def counts (heap : ChunkHeap) (a : ℕ) : ℕ := (heap a).elim 0 NnChunk.refcount

/-- How many references to the chunk at an address a reference is. -/
def Chunkref.refsTo (x : Chunkref) (a : ℕ) : ℕ := if x.tag = 0xff ∧ x.chunk.addr = a then 1 else 0

/-- How many references to the chunk at an address a message has. -/
def ChunkMsg.refsTo (m : ChunkMsg) (a : ℕ) : ℕ :=
  m.sphdr.refsTo a + m.hdrs.refsTo a + m.body.refsTo a

section Counts

variable {heap : ChunkHeap} {f : ℕ → ℕ} {x : Chunkref} {m : ChunkMsg} {bytes : List UInt8}
  {a : ℕ} {c : NnChunk}

theorem withCounts_counts (hlive : ∀ a, ∀ c ∈ heap a, 0 < c.refcount) :
    withCounts heap (counts heap) = heap := by
  funext a
  unfold withCounts counts
  cases hc : heap a with
  | none => rfl
  | some c => exact if_neg (hlive a c hc).ne'

theorem withCounts_pos (hc : heap a = some c) (hf : 0 < f a) :
    withCounts heap f a = some { c with refcount := f a } := by
  unfold withCounts
  rw [hc, Option.bind_some, if_neg hf.ne']

theorem Chunkref.Holds.withCounts (h : x.Holds heap bytes)
    (hf : x.tag = 0xff → 0 < f x.chunk.addr) :
    x.Holds (withCounts heap f) bytes := by
  by_cases htag : x.tag = 0xff
  · obtain ⟨c, hc, hholds⟩ := (of_heap htag).1 h
    exact (of_heap htag).2 ⟨_, withCounts_pos hc (hf htag), hholds.recount (hf htag)⟩
  · exact (of_inline htag).2 ((of_inline htag).1 h)

/-- The count of one chunk changes. -/
theorem update_withCounts (hc : heap a = some c) (n : ℕ) :
    Function.update (withCounts heap f) a (if n = 0 then none else some { c with refcount := n }) =
      withCounts heap (Function.update f a n) := by
  funext b
  by_cases hb : b = a
  · subst hb
    rw [Function.update_self, withCounts, hc, Option.bind_some, Function.update_self]
  · rw [Function.update_of_ne hb, withCounts, withCounts, Function.update_of_ne hb]

theorem Chunkref.refsTo_heap (htag : x.tag = 0xff) (g : ℕ → ℕ → ℕ) (hg : ∀ n, g n 0 = n) :
    Function.update f x.chunk.addr (g (f x.chunk.addr) 1) = fun a => g (f a) (x.refsTo a) := by
  funext b
  unfold refsTo
  by_cases hb : b = x.chunk.addr
  · subst hb
    rw [Function.update_self, if_pos ⟨htag, rfl⟩]
  · rw [Function.update_of_ne hb, if_neg fun h => hb h.2.symm, hg]

theorem Chunkref.refsTo_inline (htag : x.tag ≠ 0xff) (a : ℕ) : x.refsTo a = 0 :=
  if_neg fun h => htag h.1

/-- A reference less. -/
theorem nnChunkrefTerm_counts (h : x.Holds heap bytes) (hf : ∀ a, x.refsTo a ≤ f a) :
    nnChunkrefTerm x (withCounts heap f) = .ok (withCounts heap fun a => f a - x.refsTo a) := by
  by_cases htag : x.tag = 0xff
  · obtain ⟨c, hc, hholds⟩ := (Chunkref.Holds.of_heap htag).1 h
    have hpos : 0 < f x.chunk.addr := by
      have := hf x.chunk.addr
      rwa [Chunkref.refsTo, if_pos ⟨htag, rfl⟩] at this
    have hc' := withCounts_pos hc hpos
    rw [nnChunkrefTerm,
      if_pos htag, ← Chunkref.refsTo_heap htag (· - ·) Nat.sub_zero, ← update_withCounts hc]
    by_cases hone : f x.chunk.addr = 1
    · rw [(hholds.recount hpos).free_last hc' hone, hone]
      rfl
    · rw [(hholds.recount hpos).free_shared hc' (by simp only; omega), if_neg (by omega)]
  · rw [nnChunkrefTerm, if_neg htag]
    simp only [Chunkref.refsTo_inline htag, Nat.sub_zero]

/-- More references. -/
theorem nnChunkrefBulkcopyStart_counts (h : x.Holds heap bytes)
    (hf : ∀ a, x.refsTo a ≤ f a) (n : ℕ) :
    nnChunkrefBulkcopyStart x (withCounts heap f) n =
      .ok (withCounts heap fun a => f a + n * x.refsTo a) := by
  by_cases htag : x.tag = 0xff
  · obtain ⟨c, hc, hholds⟩ := (Chunkref.Holds.of_heap htag).1 h
    have hpos : 0 < f x.chunk.addr := by
      have := hf x.chunk.addr
      rwa [Chunkref.refsTo, if_pos ⟨htag, rfl⟩] at this
    have hc' := withCounts_pos hc hpos
    rw [nnChunkrefBulkcopyStart, if_pos htag, (hholds.recount hpos).addref hc',
      ← Chunkref.refsTo_heap htag (fun k r => k + n * r) fun _ => rfl, ← update_withCounts hc,
        if_neg (by omega), mul_one]
  · rw [nnChunkrefBulkcopyStart, if_neg htag]
    simp only [Chunkref.refsTo_inline htag, mul_zero, add_zero]

variable (hm : ∀ part, ∃ bytes, (m.part part).Holds heap bytes) (hf : ∀ a, m.refsTo a ≤ f a)

include hm hf

theorem nnMsgTerm_counts :
    nnMsgTerm m (withCounts heap f) = .ok (withCounts heap fun a => f a - m.refsTo a) := by
  obtain ⟨_, hsphdr⟩ := hm .sphdr
  obtain ⟨_, hhdrs⟩ := hm .hdrs
  obtain ⟨_, hbody⟩ := hm .body
  have hle := fun a => (show m.sphdr.refsTo a + m.hdrs.refsTo a + m.body.refsTo a ≤ f a from hf a)
  rw [nnMsgTerm, nnChunkrefTerm_counts (x := m.sphdr) hsphdr fun a => ?_, ok_bind,
    nnChunkrefTerm_counts (x := m.hdrs) hhdrs fun a => ?_, ok_bind,
    nnChunkrefTerm_counts (x := m.body) hbody fun a => ?_]
  · simp only [Nat.sub_sub, ChunkMsg.refsTo]
  all_goals
    have := hle a
    omega

theorem nnMsgBulkcopyStart_counts (n : ℕ) :
    nnMsgBulkcopyStart m (withCounts heap f) n =
      .ok (withCounts heap fun a => f a + n * m.refsTo a) := by
  obtain ⟨_, hsphdr⟩ := hm .sphdr
  obtain ⟨_, hhdrs⟩ := hm .hdrs
  obtain ⟨_, hbody⟩ := hm .body
  have hle := fun a => (show m.sphdr.refsTo a + m.hdrs.refsTo a + m.body.refsTo a ≤ f a from hf a)
  rw [nnMsgBulkcopyStart, nnChunkrefBulkcopyStart_counts (x := m.sphdr) hsphdr fun a => ?_, ok_bind,
    nnChunkrefBulkcopyStart_counts (x := m.hdrs) hhdrs fun a => ?_, ok_bind,
    nnChunkrefBulkcopyStart_counts (x := m.body) hbody fun a => ?_]
  · simp only [ChunkMsg.refsTo, mul_add, add_assoc]
  all_goals
    have := hle a
    omega

end Counts

/-! ### An example -/

/-- A message with a body of 40 bytes, in a chunk at the address 0. -/
def sharedMsg : ChunkMsg :=
  ⟨⟨0, List.replicate 31 0, ⟨0, 0⟩⟩, ⟨0, List.replicate 31 0, ⟨0, 0⟩⟩,
    ⟨0xff, List.replicate 31 0, ⟨0, 8⟩⟩⟩

/-- The chunk of `sharedMsg`. -/
def sharedHeap : ChunkHeap :=
  Function.update (fun _ => none) 0
    (some ⟨1, 40, nnPutl 0 ++ nnPutl nnChunkTag ++ List.replicate 40 0⟩)

theorem refcount_sharedHeap {a : ℕ} {c : NnChunk} (hc : c ∈ sharedHeap a) : c.refcount = 1 := by
  unfold sharedHeap at hc
  rw [Function.update_apply] at hc
  split_ifs at hc
  · rw [← Option.mem_some_iff.1 hc]
  · cases hc

/-- What is in the parts of `sharedMsg`. -/
def sharedBytes : MsgPart → List UInt8
  | .sphdr | .hdrs => []
  | .body => List.replicate 40 0

theorem sharedMsg_filled : sharedMsg.Filled sharedHeap sharedBytes := by
  intro part
  cases part with
  | sphdr => exact ⟨rfl, (Chunkref.Holds.of_inline (by decide)).2 ⟨by decide, rfl⟩⟩
  | hdrs => exact ⟨rfl, (Chunkref.Holds.of_inline (by decide)).2 ⟨by decide, rfl⟩⟩
  | body =>
    refine ⟨rfl, (Chunkref.Holds.of_heap rfl).2 ⟨_, rfl, ?_⟩⟩
    exact ⟨by decide, by decide, by decide, by decide, by decide, by decide, by decide⟩

end NanoSocket

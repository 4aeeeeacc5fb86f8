import NanoSocket.Core.ChunkMsg
import NanoSocket.Lib.Runs
import NanoSocket.Protocols.Dist

/-!
# What the distributor does with the references (`protocols/utils/dist.c`)

`nnDistSendChunks` is `nn_dist_send` with the chunks of the message: the references of all copies
are added before the loop, each copy is given away or terminated, and the message is terminated at
the end.  The pipes keep the copies that they are given.

`DistWorld` is a distributor with the pipes that should be active; `dist_exact` says what a call of
`nn_dist_send` does in any state that it can get into.
-/

namespace NanoSocket

open Runs

variable {P : Type} [DecidableEq P]

/-- The loop of `nn_dist_send` over the rest of the list.  `release` says which pipes return
`NN_PIPE_RELEASE`. -/
def nnDistSendChunksLoop (msg : ChunkMsg) (exclude : Option P) (release : P → Bool) :
    List P → ℕ → ChunkHeap → Except Fault (List P × ℕ × ChunkHeap × List (P × ChunkMsg))
  | [], count, heap => .ok ([], count, heap, [])
  | p :: rest, count, heap => do
    let copy := nnMsgBulkcopyCp msg
    if some p = exclude then
      let heap ← nnMsgTerm copy heap
      let (l, count, heap, handed) ← nnDistSendChunksLoop msg exclude release rest count heap
      return (p :: l, count, heap, handed)
    else if release p then
      let (l, count, heap, handed) ← nnDistSendChunksLoop msg exclude release rest (count - 1) heap
      return (l, count, heap, (p, copy) :: handed)
    else
      let (l, count, heap, handed) ← nnDistSendChunksLoop msg exclude release rest count heap
      return (p :: l, count, heap, (p, copy) :: handed)

/-- `nn_dist_send`: what is left of the list and the heap, and the copies that the pipes were
given. -/
def nnDistSendChunks (self : Dist P) (heap : ChunkHeap) (msg : ChunkMsg) (exclude : Option P)
    (release : P → Bool) :
    Except Fault (Dist P × ChunkHeap × List (P × ChunkMsg)) :=
  if self.count = 0 then do return (self, ← nnMsgTerm msg heap, [])
  else do
    let heap ← nnMsgBulkcopyStart msg heap self.count
    let (l, count, heap, handed) ← nnDistSendChunksLoop msg exclude release
      self.pipes self.count heap
    return ({ count := count, pipes := l }, ← nnMsgTerm msg heap, handed)

/-- The parts of the message are there, and its references are counted. -/
structure ChunkMsg.Alive (m : ChunkMsg) (heap : ChunkHeap) : Prop where
  parts : ∀ part, ∃ bytes, (m.part part).Holds heap bytes
  live : ∀ a, ∀ c ∈ heap a, 0 < c.refcount
  refs : ∀ a, ∀ c ∈ heap a, m.refsTo a ≤ c.refcount

/-! ### One call -/

section Send

variable {heap : ChunkHeap} {msg : ChunkMsg} {exclude : Option P} {release : P → Bool}

/-- The pipes that stay in the list. -/
def kept (exclude : Option P) (release : P → Bool) (l : List P) : List P :=
  l.filter fun p => some p = exclude ∨ release p = false

/-- The copies that are given away. -/
def handedOut (msg : ChunkMsg) (exclude : Option P) (l : List P) : List (P × ChunkMsg) :=
  (l.filter fun p => some p ≠ exclude).map fun p => (p, msg)

/-- The copies that are not given away. -/
theorem length_handedOut (msg : ChunkMsg) (exclude : Option P) (l : List P) :
    (handedOut msg exclude l).length + l.countP (fun p => some p = exclude) = l.length := by
  rw [handedOut, List.length_map, ← List.countP_eq_length_filter, List.length_eq_countP_add_countP
    (fun p => decide (some p = exclude)), add_comm]
  simp only [decide_not, decide_eq_true_eq]

theorem nnDistSendChunksLoop_spec (exclude : Option P) (release : P → Bool)
    (hm : ∀ part, ∃ bytes, (msg.part part).Holds heap bytes) (l : List P) {count : ℕ}
    (hcount : l.length ≤ count) {f : ℕ → ℕ}
    (hf : ∀ a, l.countP (fun p => some p = exclude) * msg.refsTo a ≤ f a) :
    ∃ count', nnDistSendChunksLoop msg exclude release l count (withCounts heap f) =
        .ok (kept exclude release l, count',
          withCounts heap fun a => f a - l.countP (fun p => some p = exclude) * msg.refsTo a,
          handedOut msg exclude l) ∧
      count' + l.length = count + (kept exclude release l).length := by
  induction l generalizing count f with
  | nil =>
    refine ⟨count, ?_, rfl⟩
    simp only [List.countP_nil, zero_mul, Nat.sub_zero]
    rfl
  | cons p l ih =>
    rw [List.length_cons] at hcount
    rw [nnDistSendChunksLoop]
    simp only [nnMsgBulkcopyCp_eq]
    by_cases hex : some p = exclude
    · simp only [List.countP_cons, hex, decide_true, if_true] at hf ⊢
      have hone : ∀ a, msg.refsTo a ≤ f a :=
        fun a => le_trans (Nat.le_mul_of_pos_left _ (Nat.succ_pos _)) (hf a)
      have hle : l.length ≤ count := by omega
      have hrest : ∀ a, l.countP (fun p => some p = exclude) * msg.refsTo a ≤
          f a - msg.refsTo a := by
        intro a
        have := hf a
        rw [Nat.add_mul, one_mul] at this
        omega
      obtain ⟨count', heq, hlen⟩ := ih hle hrest
      refine ⟨count', ?_, ?_⟩
      · rw [nnMsgTerm_counts hm hone, ok_bind, heq, ok_bind]
        simp only [kept, handedOut, hex, List.filter_cons, true_or, decide_true, if_true, ne_eq,
          not_true_eq_false, decide_false, Bool.false_eq_true, if_false, Nat.sub_sub, Nat.add_mul,
          one_mul, pure_eq_ok]
        simp only [add_comm]
      · simp only [kept, hex, List.filter_cons, true_or, decide_true, if_true,
          List.length_cons] at hlen ⊢
        omega
    · simp only [List.countP_cons, hex, decide_false, Bool.false_eq_true, if_false,
        add_zero] at hf ⊢
      cases hrel : release p with
      | true =>
        have hle : l.length ≤ count - 1 := by omega
        obtain ⟨count', heq, hlen⟩ := ih hle hf
        refine ⟨count', ?_, ?_⟩
        · simp [heq, kept, handedOut, hex, hrel]
        · simp only [kept, hex, hrel, List.filter_cons, List.length_cons] at hlen ⊢
          simp only [Bool.true_eq_false, or_self, decide_false, Bool.false_eq_true, if_false]
          omega
      | false =>
        have hle : l.length ≤ count := by omega
        obtain ⟨count', heq, hlen⟩ := ih hle hf
        refine ⟨count', ?_, ?_⟩
        · simp [heq, kept, handedOut, hex, hrel]
        · simp only [kept, hex, hrel, List.filter_cons, List.length_cons] at hlen ⊢
          simp only [or_true, decide_true, if_true, List.length_cons]
          omega

/-- Every pipe of the list but the excluded one is given a copy, and the pipes that do not release
stay in the list. -/
theorem nnDistSendChunks_spec {d : Dist P} (hd : d.count = d.pipes.length) (hmsg : msg.Alive heap)
    (exclude : Option P) (release : P → Bool) :
    nnDistSendChunks d heap msg exclude release =
      .ok (⟨(kept exclude release d.pipes).length, kept exclude release d.pipes⟩,
        withCounts heap fun a =>
          counts heap a + (handedOut msg exclude d.pipes).length * msg.refsTo a - msg.refsTo a,
        handedOut msg exclude d.pipes) := by
  have hrefs : ∀ a, msg.refsTo a ≤ counts heap a := by
    intro a
    unfold counts
    cases hc : heap a with
    | none =>
      -- nothing refers to an address without a chunk
      have hnone : ∀ x : Chunkref, (∃ bytes, x.Holds heap bytes) → x.refsTo a = 0 := by
        rintro x ⟨bytes, hholds⟩
        refine if_neg ?_
        rintro ⟨htag, rfl⟩
        obtain ⟨c, hc', -⟩ := (Chunkref.Holds.of_heap htag).1 hholds
        rw [hc] at hc'
        cases hc'
      rw [ChunkMsg.refsTo, hnone msg.sphdr (hmsg.parts .sphdr), hnone msg.hdrs (hmsg.parts .hdrs),
        hnone msg.body (hmsg.parts .body)]
      exact le_refl _
    | some c => exact hmsg.refs a c hc
  have hstart := withCounts_counts hmsg.live
  unfold nnDistSendChunks
  by_cases hzero : d.count = 0
  · have hnil : d.pipes = [] := List.length_eq_zero_iff.1 (hd ▸ hzero)
    have hterm := nnMsgTerm_counts hmsg.parts hrefs
    rw [hstart] at hterm
    rw [if_pos hzero, hterm]
    cases d with
    | mk count pipes =>
      obtain rfl : count = 0 := hzero
      obtain rfl : pipes = [] := hnil
      simp [kept, handedOut]
  · have hlen := length_handedOut msg exclude d.pipes
    have hcopies := nnMsgBulkcopyStart_counts hmsg.parts hrefs d.pipes.length
    have hexcluded : d.pipes.countP (fun p => some p = exclude) ≤ d.pipes.length :=
      List.countP_le_length
    rw [hstart] at hcopies
    have hadded : ∀ a, d.pipes.countP (fun p => some p = exclude) * msg.refsTo a ≤
        counts heap a + d.pipes.length * msg.refsTo a :=
      fun a => le_trans (Nat.mul_le_mul_right _ hexcluded) (Nat.le_add_left ..)
    obtain ⟨count', heq, hcount⟩ :=
      nnDistSendChunksLoop_spec exclude release hmsg.parts d.pipes (le_refl _) hadded
    obtain rfl : count' = (kept exclude release d.pipes).length := by omega
    -- what was added for the excluded pipe is taken away again
    have hgiven : ∀ a, counts heap a + d.pipes.length * msg.refsTo a -
        d.pipes.countP (fun p => some p = exclude) * msg.refsTo a =
          counts heap a + (handedOut msg exclude d.pipes).length * msg.refsTo a := by
      intro a
      have := congrArg (· * msg.refsTo a) hlen
      simp only [Nat.add_mul] at this
      omega
    simp only [hgiven] at heq
    rw [if_neg hzero, hd, hcopies, ok_bind, heq, ok_bind]
    simp only
    rw [nnMsgTerm_counts hmsg.parts fun a => (hrefs a).trans (Nat.le_add_right ..)]
    rfl

/-- A session that takes the message within the call does not release the pipe. -/
theorem release_of_nnPipeSend {pipe pipe' : Pipe} {m : Msg} {sync r : Bool}
    (h : nnPipeSend pipe m sync = .ok (r, pipe')) : r = !sync := by
  obtain ⟨⟨⟩, -, h⟩ := bind_eq_ok.1 h
  cases sync with
  | true =>
    simp only [nnPipebaseSent, if_true] at h
    obtain ⟨q, hq, h⟩ := bind_eq_ok.1 h
    simp at hq
    subst hq
    simp at h
    rw [h.1]
    rfl
  | false =>
    simp [nnAssert] at h
    rw [h.1]
    rfl

theorem kept_of_nnDistSendLoop {m : Msg} {sync : P → Bool} {l l' : List P} {count count' : ℕ}
    {pipes pipes' : P → Option Pipe}
    (h : nnDistSendLoop m exclude sync l count pipes = .ok (l', count', pipes'))
    (hcount : l.length ≤ count) :
    l' = kept exclude (fun p => !sync p) l ∧ count' + l.length = count + l'.length := by
  induction l generalizing l' count pipes with
  | nil =>
    cases h
    exact ⟨rfl, rfl⟩
  | cons p l ih =>
    rw [List.length_cons] at hcount
    rw [nnDistSendLoop] at h
    by_cases hex : some p = exclude
    · rw [if_pos hex] at h
      obtain ⟨⟨l₁, count₁, pipes₁⟩, heq, h⟩ := bind_eq_ok.1 h
      simp only [pure_eq_ok, Except.ok.injEq, Prod.mk.injEq] at h
      obtain ⟨rfl, rfl, rfl⟩ := h
      obtain ⟨rfl, hlen⟩ := ih heq (by omega)
      refine ⟨by simp [kept, hex], ?_⟩
      simp only [List.length_cons]
      omega
    · rw [if_neg hex] at h
      cases hp : pipes p with
      | none => simp [hp] at h
      | some pipe =>
        simp only [hp] at h
        obtain ⟨⟨r, pipe'⟩, hsend, h⟩ := bind_eq_ok.1 h
        obtain rfl := release_of_nnPipeSend hsend
        cases hsync : sync p with
        | true =>
          simp only [hsync, Bool.not_true, Bool.false_eq_true, if_false] at h
          obtain ⟨⟨l₁, count₁, pipes₁⟩, heq, h⟩ := bind_eq_ok.1 h
          simp only [pure_eq_ok, Except.ok.injEq, Prod.mk.injEq] at h
          obtain ⟨rfl, rfl, rfl⟩ := h
          obtain ⟨rfl, hlen⟩ := ih heq (by omega)
          refine ⟨by simp [kept, hsync], ?_⟩
          simp only [List.length_cons]
          omega
        | false =>
          simp only [hsync, Bool.not_false, if_true] at h
          obtain ⟨rfl, hlen⟩ := ih h (by omega)
          refine ⟨by simp [kept, hex, hsync], ?_⟩
          simp only [List.length_cons]
          omega

/-- The call with the chunks leaves the same list as the one with the pipes. -/
theorem nnDistSendChunks_of_nnDistSend {d d' : Dist P} {m : Msg} {sync : P → Bool}
    {pipes pipes' : P → Option Pipe} (h : nnDistSend d pipes m exclude sync = .ok (d', pipes'))
    (hd : d.count = d.pipes.length) (hmsg : msg.Alive heap) :
    ∃ heap' handed, nnDistSendChunks d heap msg exclude (fun p => !sync p) =
      .ok (d', heap', handed) := by
  suffices heq : d' = ⟨(kept exclude (fun p => !sync p) d.pipes).length,
      kept exclude (fun p => !sync p) d.pipes⟩ by
    rw [heq]
    exact ⟨_, _, nnDistSendChunks_spec hd hmsg exclude _⟩
  rw [nnDistSend] at h
  split_ifs at h with hzero
  · cases h
    have hnil : d.pipes = [] := List.length_eq_zero_iff.1 (hd ▸ hzero)
    cases d with
    | mk count l =>
      obtain rfl : count = 0 := hzero
      obtain rfl : l = [] := hnil
      rfl
  · obtain ⟨⟨l', count', pipes₁⟩, heq, h⟩ := bind_eq_ok.1 h
    simp only [pure_eq_ok, Except.ok.injEq, Prod.mk.injEq] at h
    obtain ⟨rfl, rfl⟩ := h
    obtain ⟨rfl, hlen⟩ := kept_of_nnDistSendLoop heq hd.ge
    rw [hd, add_comm, Nat.add_left_cancel_iff] at hlen
    rw [hlen]

end Send

/-! ### Runs -/

/-- A call of one of the functions.  A message comes with the chunks that there are at the time. -/
inductive DistCall (P : Type)
  | add (pipe : P)
  | out (pipe : P)
  | rm (pipe : P)
  | send (heap : ChunkHeap) (msg : ChunkMsg) (exclude : Option P) (release : P → Bool)

/-- A distributor, the pipes that were added, and those that can send. -/
structure DistWorld (P : Type) where
  dist : Dist P
  added : Finset P
  active : Finset P

namespace DistWorld

/-- A new distributor. -/
def init : DistWorld P := ⟨nnDistInit, ∅, ∅⟩

/-- Make a call.  `nn_dist_add` initialises the item of the pipe only. -/
def call (w : DistWorld P) : DistCall P → Except Fault (DistWorld P × Unit)
  | .add p => .ok ({ w with added := insert p w.added }, ())
  | .out p => do
    let dist ← nnDistOut w.dist p
    return ({ w with dist := dist, active := insert p w.active }, ())
  | .rm p =>
    .ok ({ dist := nnDistRm w.dist p, added := w.added.erase p, active := w.active.erase p }, ())
  | .send heap msg exclude release => do
    let (dist, _, _) ← nnDistSendChunks w.dist heap msg exclude release
    return ({ w with dist := dist,
                     active := w.active.filter fun p => some p = exclude ∨ release p = false }, ())

/-- A pipe is added once; it can send after it was added, and says so again after it has released
only. -/
def Enabled (w : DistWorld P) : DistCall P → Prop
  | .add p => p ∉ w.added
  | .out p => p ∈ w.added ∧ p ∉ w.active
  | .rm p => p ∈ w.added
  | .send heap msg _ _ => msg.Alive heap

/-- The list holds the active pipes, each once. -/
structure Inv (w : DistWorld P) : Prop where
  nodup : w.dist.pipes.Nodup
  count : w.dist.count = w.dist.pipes.length
  mem : ∀ p, p ∈ w.dist.pipes ↔ p ∈ w.active

omit [DecidableEq P] in
theorem init_inv : (init : DistWorld P).Inv :=
  ⟨List.nodup_nil, rfl, fun p => iff_of_false List.not_mem_nil (Finset.notMem_empty p)⟩

/-- Every call that is allowed returns and keeps the invariant. -/
theorem Inv.step {w : DistWorld P} (h : w.Inv) {c : DistCall P} (hc : w.Enabled c) :
    ∃ w', w.call c = .ok (w', ()) ∧ w'.Inv := by
  cases c with
  | add p => exact ⟨_, rfl, h.nodup, h.count, h.mem⟩
  | out p =>
    have hp : p ∉ w.dist.pipes := fun hp => hc.2 ((h.mem p).1 hp)
    refine ⟨_, by rw [call, nnDistOut, nnAssert_of hp]; rfl, ?_, ?_, fun q => ?_⟩
    · simpa only [List.concat_eq_append] using h.nodup.concat hp
    · simp [h.count]
    · simp [h.mem, or_comm]
  | rm p =>
    refine ⟨_, rfl, ?_⟩
    unfold nnDistRm
    split_ifs with hp
    · refine ⟨h.nodup.erase p, ?_, fun q => ?_⟩
      · simp only
        rw [List.length_erase_of_mem hp, h.count]
      · simp only
        rw [h.nodup.mem_erase_iff, h.mem, Finset.mem_erase]
    · refine ⟨h.nodup, h.count, fun q => ?_⟩
      rw [h.mem, Finset.mem_erase]
      exact ⟨fun hq => ⟨fun heq => hp ((h.mem p).2 (heq ▸ hq)), hq⟩, fun hq => hq.2⟩
  | send heap msg exclude release =>
    refine ⟨_, by rw [call, nnDistSendChunks_spec h.count hc exclude release]; rfl, ?_,
      rfl, fun q => ?_⟩
    · exact h.nodup.filter _
    · simp [kept, h.mem]

theorem inv_of_trace {calls : List (DistCall P)} {w : DistWorld P}
    (h : Trace call Enabled init calls w) : w.Inv := by
  apply h.invariant_of_step (I := fun _ w => w.Inv) init_inv
  intro _ w c hi hen
  obtain ⟨w', heq, hi'⟩ := hi.step hen
  exact ⟨w', (), heq, hi'⟩

/-- In every state that a distributor can reach, `nn_dist_send` returns, having given one copy of
the message to every active pipe but the excluded one, with what the message held; the list holds
the pipes that did not release, each once, and is as long as the count says; and the count of the
references to a chunk of the message has changed, for each of the references of the message, by the
number of the copies less one, where the chunk is freed at zero. -/
theorem dist_exact {calls : List (DistCall P)} {w : DistWorld P}
    (h : Trace call Enabled init calls w) {heap : ChunkHeap} {msg : ChunkMsg}
    (hmsg : msg.Alive heap) (exclude : Option P) (release : P → Bool) :
    ∃ dist heap' handed, nnDistSendChunks w.dist heap msg exclude release =
      .ok (dist, heap', handed) ∧
      ((handed.map Prod.fst).Nodup ∧ ∀ p, p ∈ handed.map Prod.fst ↔
        p ∈ w.active ∧ some p ≠ exclude) ∧
      (∀ p copy, (p, copy) ∈ handed → copy = msg ∧
        ∀ part bytes, (msg.part part).Holds heap bytes → (copy.part part).Holds heap' bytes) ∧
      (dist.count = dist.pipes.length ∧ dist.pipes.Nodup ∧
        ∀ p, p ∈ dist.pipes ↔ p ∈ w.active ∧ (some p = exclude ∨ release p = false)) ∧
      ∀ a, heap' a = (heap a).bind fun c =>
        let n := c.refcount + handed.length * msg.refsTo a - msg.refsTo a
        if n = 0 then none else some { c with refcount := n } := by
  have hi := inv_of_trace h
  refine ⟨_, _, _, nnDistSendChunks_spec hi.count hmsg exclude release, ⟨?_, fun p => ?_⟩,
    fun p copy hp => ?_, ⟨rfl, ?_, fun p => ?_⟩, fun a => ?_⟩
  · simp only [handedOut, List.map_map, Function.comp_def, List.map_id']
    exact hi.nodup.filter _
  · simp [handedOut, hi.mem]
  · obtain ⟨-, heq⟩ : (some p ≠ exclude ∧ p ∈ w.dist.pipes) ∧ msg = copy := by
      simpa [handedOut, and_comm, and_assoc] using hp
    refine ⟨heq.symm, fun part bytes hholds => heq ▸ hholds.withCounts fun htag => ?_⟩
    -- there is a copy, so that the count did not go down
    have hlen := List.length_pos_of_mem hp
    obtain ⟨c, hc, hholds⟩ := (Chunkref.Holds.of_heap htag).1 hholds
    have hpos := hholds.refs
    have hmul := Nat.le_mul_of_pos_left (msg.refsTo (msg.part part).chunk.addr) hlen
    simp only [counts, hc, Option.elim_some]
    omega
  · exact hi.nodup.filter _
  · simp [kept, hi.mem]
  · cases hc : heap a with
    | none => simp only [withCounts, hc, Option.bind_none]
    | some c => simp only [withCounts, counts, hc, Option.bind_some, Option.elim_some]

/-- Of two active pipes, the one that is not excluded is given the message. -/
theorem dist_exact_two :
    ∃ (w : DistWorld ℕ) (dist : Dist ℕ) (heap' : ChunkHeap) (handed : List (ℕ × ChunkMsg)),
    Trace call Enabled init [.add 0, .add 1, .out 0, .out 1] w ∧
      nnDistSendChunks w.dist sharedHeap sharedMsg (some 0) (fun _ => true) =
        .ok (dist, heap', handed) ∧
      1 ∈ handed.map Prod.fst ∧ 0 ∈ dist.pipes := by
  have h₁ : Trace call Enabled (init : DistWorld ℕ) [.add 0] ⟨nnDistInit, {0}, ∅⟩ :=
    Trace.nil.snoc (show 0 ∉ ∅ by decide) rfl
  have h₂ : Trace call Enabled (init : DistWorld ℕ) [.add 0, .add 1] ⟨nnDistInit, {1, 0}, ∅⟩ :=
    h₁.snoc (show 1 ∉ {0} by decide) rfl
  have h₃ : Trace call Enabled (init : DistWorld ℕ)
      [.add 0, .add 1, .out 0] ⟨⟨1, [0]⟩, {1, 0}, {0}⟩ :=
    h₂.snoc (show 0 ∈ {1, 0} ∧ 0 ∉ ∅ by decide) rfl
  have h : Trace call Enabled (init : DistWorld ℕ)
      [.add 0, .add 1, .out 0, .out 1] ⟨⟨2, [0, 1]⟩, {1, 0}, {1, 0}⟩ :=
    h₃.snoc (show 1 ∈ {1, 0} ∧ 1 ∉ {0} by decide) rfl
  have halive : sharedMsg.Alive sharedHeap := by
    refine ⟨fun part => ⟨_, (sharedMsg_filled part).2⟩, fun a c hc => ?_, fun a c hc => ?_⟩
    · rw [refcount_sharedHeap hc]
      exact Nat.one_pos
    · rw [refcount_sharedHeap hc]
      have hbody : sharedMsg.body.refsTo a ≤ 1 := by
        unfold Chunkref.refsTo
        split_ifs <;> omega
      rw [ChunkMsg.refsTo, Chunkref.refsTo_inline (by decide), Chunkref.refsTo_inline (by decide),
        zero_add, zero_add]
      exact hbody
  obtain ⟨dist, heap', handed, heq, ⟨-, hgiven⟩, -, ⟨-, -, hlist⟩, -⟩ :=
    dist_exact h halive (some 0) fun _ => true
  exact ⟨_, dist, heap', handed, h, heq, (hgiven 1).2 ⟨by decide, by decide⟩,
    (hlist 0).2 ⟨by decide, Or.inl rfl⟩⟩

end DistWorld

end NanoSocket

import NanoSocket.Inproc.Msgqueue
import NanoSocket.Lib.Runs

/-!
# The chunks of an inproc queue (`transports/inproc/msgqueue.c`)

Here the chunks are objects on the heap that point to each other, as in the source: a chunk that
waits in the cache keeps the link it had, and it is written over only when the chunk after it is
known.

`Represents` says which queue of `Msgqueue.lean` the pointers stand for; both functions keep it.
The run theorem is `msgqueue_bounded_fifo`.
-/

namespace NanoSocket.Inproc

open Runs

/-- `struct nn_msgqueue_chunk`. -/
structure ChunkNode where
  msgs : Chunk
  next : Option ℕ

/-- `struct nn_msgqueue` and the chunks on the heap, by their address. -/
structure ChunkQueue where
  nodes : ℕ → Option ChunkNode
  outChunk : Option ℕ
  outPos : Fin 126
  inChunk : Option ℕ
  inPos : Fin 126
  count : ℕ
  mem : ℕ
  maxmem : ℕ
  cache : Option ℕ

namespace ChunkQueue

/-- The chunk that a pointer leads to. -/
def deref (nodes : ℕ → Option ChunkNode) : Option ℕ → Except Fault (ℕ × ChunkNode)
  | none => .error .nullDeref
  | some a =>
    match nodes a with
    | none => .error .outOfBounds
    | some n => .ok (a, n)

/-- `nn_msgqueue_init`; `addr` is what `nn_alloc` returns. -/
def nnMsgqueueInit (maxmem addr : ℕ) : ChunkQueue :=
  { nodes := Function.update (fun _ => none) addr (some ⟨.fresh, none⟩), outChunk := some addr,
    outPos := 0,
    inChunk := some addr, inPos := 0, count := 0, mem := 0, maxmem := maxmem, cache := none }

/-- `nn_msgqueue_send`; `addr` is what `nn_alloc` returns, should it be called. -/
def nnMsgqueueSend (self : ChunkQueue) (msg : Msg) (addr : ℕ) : Except Fault (Bool × ChunkQueue) :=
  if self.count > 0 ∧ (self.mem + msgsz msg) % 2 ^ 64 ≥ self.maxmem then .ok (false, self)
  else do
    let self : ChunkQueue :=
      { self with count := self.count + 1, mem := (self.mem + msgsz msg) % 2 ^ 64 }
    let (out, node) ← deref self.nodes self.outChunk
    let node : ChunkNode := { node with msgs := node.msgs.set self.outPos msg }
    let self : ChunkQueue := { self with nodes := Function.update self.nodes out (some node) }
    if self.outPos.val + 1 = 126 then
      let (chunk, nodes) :=
        match self.cache with
        | some chunk => (chunk, self.nodes)
        | none => (addr, Function.update self.nodes addr (some ⟨.fresh, none⟩))
      -- a chunk from the cache keeps its old link
      let nodes := Function.update nodes out (some { node with next := some chunk })
      return (true,
        { self with nodes := nodes, outChunk := some chunk, cache := none, outPos := 0 })
    return (true, { self with outPos := self.outPos + 1 })

/-- `nn_msgqueue_recv`; `none` is `-EAGAIN`. -/
def nnMsgqueueRecv (self : ChunkQueue) : Except Fault (Option Msg × ChunkQueue) :=
  if self.count = 0 then .ok (none, self)
  else do
    let (o, node) ← deref self.nodes self.inChunk
    let msg := node.msgs[self.inPos]
    let self :=
      if self.inPos.val + 1 = 126 then
        let self := { self with inChunk := node.next, inPos := 0 }
        match self.cache with
        | none => { self with cache := some o }
        | some _ => { self with nodes := Function.update self.nodes o none }
      else { self with inPos := self.inPos + 1 }
    return (some msg, { self with
      count := self.count - 1
      mem := (self.mem + (2 ^ 64 - msgsz msg % 2 ^ 64)) % 2 ^ 64 })

end ChunkQueue

/-! ### Chains -/

/-- The chunks at these addresses are linked in this order; where the last link leads to is open. -/
def Links (nodes : ℕ → Option ChunkNode) : List ℕ → List Chunk → Prop
  | [a], [c] => ∃ next, nodes a = some ⟨c, next⟩
  | a :: b :: as, c :: cs => nodes a = some ⟨c, some b⟩ ∧ Links nodes (b :: as) cs
  | _, _ => False

variable {nodes nodes' : ℕ → Option ChunkNode} {addrs : List ℕ} {chunks : List Chunk}

theorem Links.congr (h : Links nodes addrs chunks) (heq : ∀ a ∈ addrs, nodes' a = nodes a) :
    Links nodes' addrs chunks := by
  induction addrs generalizing chunks with
  | nil => cases h
  | cons a as ih =>
    cases as with
    | nil =>
      match chunks, h with
      | [c], ⟨next, hn⟩ => exact ⟨next, (heq a (by simp)).trans hn⟩
    | cons b as =>
      match chunks, h with
      | c :: cs, ⟨hn, hrest⟩ =>
        exact ⟨(heq a (by simp)).trans hn, ih hrest fun x hx => heq x (List.mem_cons_of_mem a hx)⟩

/-- The first chunk, with its link when there is a second one. -/
theorem Links.head {a : ℕ} {as : List ℕ} (h : Links nodes (a :: as) chunks) :
    ∃ c cs next, chunks = c :: cs ∧ nodes a = some ⟨c, next⟩ ∧
      (as ≠ [] → next = as.head? ∧ Links nodes as cs) ∧ (as = [] → cs = []) := by
  cases as with
  | nil =>
    match chunks, h with
    | [c], ⟨next, hn⟩ => exact ⟨c, [], next, rfl, hn, fun h => absurd rfl h, fun _ => rfl⟩
  | cons b as =>
    match chunks, h with
    | c :: cs, ⟨hn, hrest⟩ =>
      exact ⟨c, cs, some b, rfl, hn, fun _ => ⟨rfl, hrest⟩, fun h => nomatch h⟩

theorem Links.alive (h : Links nodes addrs chunks) {a : ℕ} (ha : a ∈ addrs) : nodes a ≠ none := by
  induction addrs generalizing chunks with
  | nil => cases ha
  | cons b as ih =>
    obtain ⟨c, cs, next, rfl, hn, hrest, -⟩ := h.head
    rcases List.mem_cons.1 ha with rfl | ha
    · rw [hn]
      exact Option.some_ne_none _
    · exact ih (hrest (List.ne_nil_of_mem ha)).2 ha

/-- A message is written into the last chunk. -/
theorem Links.writeLast {as : List ℕ} {a : ℕ} (h : Links nodes (as ++ [a]) chunks) (hnd : a ∉ as)
    (pos : Fin 126) (msg : Msg) :
    ∃ n chunks', nodes a = some n ∧ writeLast pos msg chunks = .ok chunks' ∧
      Links (Function.update nodes a (some { n with msgs := n.msgs.set pos msg pos.isLt }))
        (as ++ [a]) chunks' := by
  induction as generalizing chunks with
  | nil =>
    match chunks, h with
    | [c], ⟨next, hn⟩ =>
      exact ⟨⟨c, next⟩, [c.set pos msg], hn, rfl, next, by rw [Function.update_self]⟩
  | cons b as ih =>
    have hba : b ≠ a := fun h => hnd (h ▸ List.mem_cons_self)
    obtain ⟨c, cs, next, rfl, hn, hrest, -⟩ := h.head
    obtain ⟨rfl, hlinks⟩ := hrest (by simp)
    obtain ⟨n, chunks', hna, hw, hl⟩ := ih hlinks fun h => hnd (List.mem_cons_of_mem b h)
    refine ⟨n, c :: chunks', hna, ?_, ?_⟩
    · cases cs with
      | nil => cases hw
      | cons c' cs =>
        rw [Inproc.writeLast, hw]
        · rfl
        · exact List.cons_ne_nil c' cs
    · have hnb : Function.update nodes a (some { n with msgs := n.msgs.set pos msg }) b =
          some ⟨c, (as ++ [a]).head?⟩ := by
        rw [Function.update_of_ne hba, hn]
        rfl
      cases as with
      | nil => exact ⟨hnb, hl⟩
      | cons x as => exact ⟨hnb, hl⟩

/-- A chunk is linked behind the last one. -/
theorem Links.snoc {as : List ℕ} {a b : ℕ} {n m : ChunkNode} (h : Links nodes (as ++ [a]) chunks)
    (hnd : (as ++ [a] ++ [b]).Nodup) (ha : nodes a = some n) (hb : nodes b = some m) :
    Links (Function.update nodes a (some { n with next := some b })) (as ++ [a] ++ [b])
      (chunks ++ [m.msgs]) := by
  induction as generalizing chunks with
  | nil =>
    have hab : b ≠ a := by
      rintro rfl
      simp at hnd
    match chunks, h with
    | [c], ⟨next, hn⟩ =>
      obtain rfl : n = ⟨c, next⟩ := Option.some_inj.1 (ha.symm.trans hn)
      exact ⟨by rw [Function.update_self], m.next, by rw [Function.update_of_ne hab, hb]⟩
  | cons x as ih =>
    have hxa : x ≠ a := by
      rintro rfl
      simp at hnd
    obtain ⟨c, cs, next, rfl, hn, hrest, -⟩ := h.head
    obtain ⟨rfl, hlinks⟩ := hrest (by simp)
    have hl := ih hlinks (List.nodup_cons.1 hnd).2
    have hnx : Function.update nodes a (some { n with next := some b }) x =
        some ⟨c, (as ++ [a]).head?⟩ := by
      rw [Function.update_of_ne hxa, hn]
      rfl
    cases as with
    | nil => exact ⟨hnx, hl⟩
    | cons y as => exact ⟨hnx, hl⟩

/-- The chunks at `addrs`, from `in.chunk` to `out.chunk`, and the one in the cache stand for a
queue; there are no others. -/
structure Represents (h : ChunkQueue) (addrs : List ℕ) (q : Msgqueue) : Prop where
  links : Links h.nodes addrs q.chunks
  nodup : addrs.Nodup
  inChunk : h.inChunk = addrs.head?
  outChunk : h.outChunk = addrs.getLast?
  cached : ∀ a, h.cache = some a → a ∉ addrs ∧ ∃ n, h.nodes a = some n ∧ q.cache = some n.msgs
  uncached : h.cache = none → q.cache = none
  alive : ∀ a, h.nodes a ≠ none → a ∈ addrs ∨ h.cache = some a
  inPos : h.inPos = q.inPos
  outPos : h.outPos = q.outPos
  count : h.count = q.count
  mem : h.mem = q.mem
  maxmem : h.maxmem = q.maxmem

theorem represents_init (maxmem addr : ℕ) :
    Represents (ChunkQueue.nnMsgqueueInit maxmem addr) [addr] (nnMsgqueueInit maxmem) where
  links := ⟨none, by simp [ChunkQueue.nnMsgqueueInit]⟩
  nodup := List.nodup_singleton addr
  inChunk := rfl
  outChunk := rfl
  cached := nofun
  uncached := fun _ => rfl
  alive := by
    intro a ha
    by_contra hne
    rw [not_or, List.mem_singleton] at hne
    exact ha (by simp [ChunkQueue.nnMsgqueueInit, hne.1])
  inPos := rfl
  outPos := rfl
  count := rfl
  mem := rfl
  maxmem := rfl

namespace Represents

variable {h : ChunkQueue} {q q' : Msgqueue}

theorem exists_snoc (hr : Represents h addrs q) :
    ∃ as a, addrs = as ++ [a] ∧ h.outChunk = some a := by
  cases addrs using List.reverseRecOn with
  | nil => exact absurd hr.links id
  | append_singleton as a => exact ⟨as, a, rfl, by rw [hr.outChunk, List.getLast?_concat]⟩

/-- The queue is written to in the same way. -/
theorem send (hr : Represents h addrs q) {msg : Msg} {addr : ℕ} {b : Bool}
    (hfresh : h.nodes addr = none) (hq : nnMsgqueueSend q msg = .ok (b, q')) :
    ∃ h' addrs', h.nnMsgqueueSend msg addr = .ok (b, h') ∧ Represents h' addrs' q' := by
  unfold nnMsgqueueSend at hq
  unfold ChunkQueue.nnMsgqueueSend
  rw [hr.count, hr.mem, hr.maxmem]
  by_cases hfull : q.Full msg
  · rw [if_pos hfull] at hq
    obtain ⟨rfl, rfl⟩ := Prod.mk.inj (Except.ok.inj hq)
    exact ⟨h, addrs, if_pos hfull, hr⟩
  rw [if_neg hfull] at hq
  rw [if_neg (show ¬ (q.count > 0 ∧ (q.mem + msgsz msg) % 2 ^ 64 ≥ q.maxmem) from hfull)]
  obtain ⟨as, a, rfl, hout⟩ := hr.exists_snoc
  have hnd := hr.nodup
  have ha : a ∉ as := fun h => (List.nodup_append.1 hnd).2.2 a h a (by simp) rfl
  obtain ⟨n, chunks', hn, hw, hl⟩ := hr.links.writeLast ha q.outPos msg
  simp only [hout, ChunkQueue.deref, hn, hw, ok_bind, hr.outPos] at hq ⊢
  have hsame : ∀ x, x ≠ a →
      Function.update h.nodes a (some { n with msgs := n.msgs.set q.outPos msg }) x = h.nodes x :=
    fun x hx => Function.update_of_ne hx ..
  split_ifs at hq ⊢ with hend
  · obtain ⟨rfl, rfl⟩ := Prod.mk.inj (Except.ok.inj hq)
    cases hcache : h.cache with
    | some c =>
      -- the chunk of the cache
      obtain ⟨hc, m, hm, hqc⟩ := hr.cached c hcache
      have hca : c ≠ a := fun h => hc (by simp [h])
      have hnd' : (as ++ [a] ++ [c]).Nodup := List.nodup_append.2 ⟨hnd, by simp, fun x hx y hy h =>
        hc (List.mem_singleton.1 hy ▸ h ▸ hx)⟩
      refine ⟨_, as ++ [a] ++ [c], rfl, ?_, hnd', ?_, ?_, nofun, fun _ => rfl, ?_, hr.inPos,
        rfl, rfl, rfl, rfl⟩
      · rw [hqc]
        exact hl.snoc hnd' (Function.update_self ..) ((hsame c hca).trans hm)
      · rw [hr.inChunk]
        cases as <;> rfl
      · rw [List.getLast?_concat]
      · intro x hx
        by_cases hxa : x = a
        · simp [hxa]
        have hx : h.nodes x ≠ none := by simpa [hxa] using hx
        rcases hr.alive x hx with hx | hx
        · exact .inl (List.mem_append_left _ hx)
        · obtain rfl : c = x := Option.some_inj.1 (hcache.symm.trans hx)
          simp
    | none =>
      have hmem : ∀ x ∈ as ++ [a], x ≠ addr := by
        rintro x hx rfl
        exact hr.links.alive hx hfresh
      have haddr : addr ∉ as ++ [a] := fun h => hmem addr h rfl
      have hnd' : (as ++ [a] ++ [addr]).Nodup :=
        List.nodup_append.2 ⟨hnd, by simp, fun x hx y hy h =>
        hmem x hx (h.trans (List.mem_singleton.1 hy))⟩
      have hl' := @Links.congr _ (Function.update _ addr (some ⟨.fresh, none⟩)) _ _ hl fun x hx =>
        Function.update_of_ne (hmem x hx) ..
      refine ⟨_, as ++ [a] ++ [addr], rfl, ?_, hnd', ?_, ?_, nofun, fun _ => rfl, ?_, hr.inPos,
        rfl, rfl, rfl, rfl⟩
      · rw [hr.uncached hcache]
        refine hl'.snoc (n := { n with msgs := n.msgs.set q.outPos msg }) hnd' ?_
          (Function.update_self ..)
        rw [Function.update_of_ne (hmem a (by simp)), Function.update_self]
      · rw [hr.inChunk]
        cases as <;> rfl
      · rw [List.getLast?_concat]
      · intro x hx
        by_cases hxa : x = a
        · simp [hxa]
        by_cases hxn : x = addr
        · simp [hxn]
        have hx : h.nodes x ≠ none := by simpa [hxa, hxn] using hx
        rcases hr.alive x hx with hx | hx
        · exact .inl (List.mem_append_left _ hx)
        · cases hcache.symm.trans hx
  · obtain ⟨rfl, rfl⟩ := Prod.mk.inj (Except.ok.inj hq)
    refine ⟨_, as ++ [a], rfl, hl, hnd, hr.inChunk, hout.symm.trans hr.outChunk, ?_, hr.uncached,
      ?_, hr.inPos, rfl, rfl, rfl, rfl⟩
    · intro c hc
      obtain ⟨hca, m, hm, hqc⟩ := hr.cached c hc
      exact ⟨hca, m, (hsame c fun h => hca (by simp [h])).trans hm, hqc⟩
    · intro x hx
      by_cases hxa : x = a
      · simp [hxa]
      · exact hr.alive x (hsame x hxa ▸ hx)

/-- The queue is read in the same way. -/
theorem recv (hr : Represents h addrs q) {answer : Option Msg}
    (hq : nnMsgqueueRecv q = .ok (answer, q')) (hle : q'.chunks ≠ []) :
    ∃ h' addrs', h.nnMsgqueueRecv = .ok (answer, h') ∧ Represents h' addrs' q' := by
  unfold nnMsgqueueRecv at hq
  unfold ChunkQueue.nnMsgqueueRecv
  rw [hr.count]
  by_cases hzero : q.count = 0
  · rw [if_pos hzero] at hq
    obtain ⟨rfl, rfl⟩ := Prod.mk.inj (Except.ok.inj hq)
    exact ⟨h, addrs, if_pos hzero, hr⟩
  rw [if_neg hzero] at hq ⊢
  cases addrs with
  | nil => exact absurd hr.links id
  | cons a as =>
    obtain ⟨c, cs, next, hchunks, hn, hrest, hlast⟩ := hr.links.head
    have ha : a ∉ as := (List.nodup_cons.1 hr.nodup).1
    simp only [hchunks] at hq
    obtain ⟨rfl, rfl⟩ := Prod.mk.inj (Except.ok.inj hq)
    have hin : h.inChunk = some a := hr.inChunk
    simp only [hin, ChunkQueue.deref, hn, ok_bind, hr.inPos, hr.mem]
    split_ifs at hle ⊢ with hend
    swap
    · exact ⟨_, a :: as, rfl, hchunks ▸ hr.links, hr.nodup, rfl, hr.outChunk, hr.cached,
        hr.uncached, hr.alive, rfl, hr.outPos, rfl, rfl, hr.maxmem⟩
    -- the chunk is read to its end, and there is another one
    have hne : as ≠ [] := fun h => hle (hlast h)
    obtain ⟨rfl, hlinks⟩ := hrest hne
    have hout : h.outChunk = as.getLast? := by
      rw [hr.outChunk]
      obtain ⟨b, bs, rfl⟩ := List.exists_cons_of_ne_nil hne
      rw [List.getLast?_cons_cons]
    cases hcache : h.cache with
    | none =>
      refine ⟨_, as, rfl, hlinks, (List.nodup_cons.1 hr.nodup).2, rfl, hout, ?_, nofun, ?_, rfl,
        hr.outPos, rfl, rfl, hr.maxmem⟩
      · rintro x ⟨⟩
        exact ⟨ha, _, hn, by rw [hr.uncached hcache]; rfl⟩
      · intro x hx
        rcases hr.alive x hx with hx | hx
        · rcases List.mem_cons.1 hx with rfl | hx
          · exact .inr rfl
          · exact .inl hx
        · cases hcache.symm.trans hx
    | some b =>
      obtain ⟨hb, m, hm, hqc⟩ := hr.cached b hcache
      have hba : b ≠ a := fun h => hb (h ▸ List.mem_cons_self)
      have hupdate : ∀ x, x ≠ a → Function.update h.nodes a none x = h.nodes x :=
        fun x hx => Function.update_of_ne hx ..
      refine ⟨_, as, rfl, hlinks.congr fun x hx => hupdate x fun h => ha (h ▸ hx),
        (List.nodup_cons.1 hr.nodup).2, rfl, hout, ?_, nofun, ?_, rfl, hr.outPos,
        rfl, rfl, hr.maxmem⟩
      · rintro x ⟨⟩
        exact ⟨fun h => hb (List.mem_cons_of_mem a h), m,
          (hupdate b hba).trans hm, by rw [hqc]; rfl⟩
      · intro x hx
        by_cases hxa : x = a
        · subst hxa
          exact absurd (Function.update_self ..) hx
        rcases hr.alive x (hupdate x hxa ▸ hx) with hx | hx
        · exact .inl ((List.mem_cons.1 hx).resolve_left hxa)
        · exact .inr (hcache.symm.trans hx)

end Represents

/-! ### Runs -/

/-- A call, with the address of the next free object for `nn_alloc`. -/
inductive QueueCall
  | send (msg : Msg) (addr : ℕ)
  | recv

/-- The queue, with the messages that it accepted and those that it gave out. -/
structure QueueWorld where
  queue : ChunkQueue
  accepted : List Msg
  received : List Msg

/-- A new queue. -/
def QueueWorld.init (maxmem addr : ℕ) : QueueWorld :=
  ⟨ChunkQueue.nnMsgqueueInit maxmem addr, [], []⟩

/-- Make a call. -/
def QueueWorld.call (w : QueueWorld) : QueueCall → Except Fault (QueueWorld × Unit)
  | .send msg addr => do
    let (sent, queue) ← w.queue.nnMsgqueueSend msg addr
    return ({ w with queue := queue, accepted := if sent then w.accepted ++ [msg] else w.accepted },
      ())
  | .recv => do
    let (msg, queue) ← w.queue.nnMsgqueueRecv
    return ({ w with queue := queue, received := w.received ++ msg.toList }, ())

/-- The allocator returns an address that is not in use, and no message has more than `PTRDIFF_MAX`
bytes. -/
def QueueWorld.Enabled (w : QueueWorld) : QueueCall → Prop
  | .send msg addr => w.queue.nodes addr = none ∧ msgsz msg < 2 ^ 63
  | .recv => True

instance QueueWorld.decidableEnabled (w : QueueWorld) : (c : QueueCall) → Decidable (w.Enabled c)
  | .send msg addr => inferInstanceAs (Decidable (w.queue.nodes addr = none ∧ msgsz msg < 2 ^ 63))
  | .recv => .isTrue trivial

/-- The queue stands for one that holds what was accepted and not yet received. -/
structure QueueWorld.Inv (maxmem : ℕ) (addrs : List ℕ) (q : Msgqueue) (w : QueueWorld) : Prop where
  represents : Represents w.queue addrs q
  wf : q.Wf
  maxmem : q.maxmem = maxmem
  small : (q.contents.map msgsz).sum < 2 ^ 63
  kept : w.accepted = w.received ++ q.contents

/-- An empty queue has one chunk. -/
theorem Msgqueue.Wf.chunks_of_nil {q : Msgqueue} (h : q.Wf) (hnil : q.contents = []) :
    q.chunks.length = 1 := by
  have hpos := List.length_pos_iff.2 h.chunks
  have hin := q.inPos.isLt
  have hlen := h.length_contents
  rw [hnil, List.length_nil] at hlen
  have htop : q.top = 126 * (q.chunks.length - 1) + q.outPos := rfl
  omega

theorem Represents.same_chunk {h : ChunkQueue} {q : Msgqueue} (hr : Represents h addrs q)
    (hq : q.chunks.length = 1) :
    h.inChunk = h.outChunk := by
  rw [hr.inChunk, hr.outChunk]
  match addrs, hr.links with
  | [a], _ => rfl
  | a :: b :: as, hlinks =>
    obtain ⟨c, cs, next, hchunks, -, hrest, -⟩ := hlinks.head
    obtain ⟨c', cs', next', hchunks', -⟩ := (hrest (List.cons_ne_nil b as)).2.head
    rw [hchunks, hchunks'] at hq
    cases hq

namespace QueueWorld

variable {w w' : QueueWorld} {q : Msgqueue} {maxmem : ℕ}

theorem Inv.mem_eq (h : Inv maxmem addrs q w) : q.mem = (q.contents.map msgsz).sum := by
  rw [h.wf.mem, Nat.mod_eq_of_lt (by have := h.small; omega)]

/-- The sum in the test does not wrap. -/
theorem Inv.full_iff (h : Inv maxmem addrs q w) {msg : Msg} (hmsg : msgsz msg < 2 ^ 63) :
    q.Full msg ↔ ¬ (q.contents = [] ∨ (q.contents.map msgsz).sum + msgsz msg < maxmem) := by
  have hsmall := h.small
  have hmod : (q.mem + msgsz msg) % 2 ^ 64 = (q.contents.map msgsz).sum + msgsz msg := by
    rw [h.mem_eq, Nat.mod_eq_of_lt (by omega)]
  unfold Msgqueue.Full
  rw [hmod, h.wf.count, h.maxmem, gt_iff_lt, List.length_pos_iff, not_or, not_lt]

/-- A message is accepted when the queue is empty or has room for it. -/
theorem Inv.send (h : Inv maxmem addrs q w) (hmax : maxmem ≤ 2 ^ 63) {msg : Msg} {addr : ℕ}
    (hfresh : w.queue.nodes addr = none) (hmsg : msgsz msg < 2 ^ 63) :
    ∃ queue q' addrs', w.queue.nnMsgqueueSend msg addr =
        .ok (decide (q.contents = [] ∨ (q.contents.map msgsz).sum + msgsz msg < maxmem), queue) ∧
      Represents queue addrs' q' ∧ q'.Wf ∧ q'.maxmem = maxmem ∧
        (q'.contents.map msgsz).sum < 2 ^ 63 ∧
      q'.contents = q.contents ++
        if q.contents = [] ∨ (q.contents.map msgsz).sum + msgsz msg < maxmem then [msg]
          else [] := by
  have hiff := h.full_iff hmsg
  rcases nnMsgqueueSend_spec h.wf msg with ⟨hfull, heq⟩ | ⟨hfull, q', heq, hwf, hq', hcont⟩
  · have hno := hiff.1 hfull
    obtain ⟨queue, addrs', hsend, hr⟩ := h.represents.send hfresh heq
    refine ⟨queue, q, addrs', ?_, hr, h.wf, h.maxmem, h.small, ?_⟩
    · rw [hsend, decide_eq_false hno]
    · rw [if_neg hno, List.append_nil]
  · have hyes := not_not.1 (mt hiff.2 hfull)
    obtain ⟨queue, addrs', hsend, hr⟩ := h.represents.send hfresh heq
    refine ⟨queue, q', addrs', ?_, hr, hwf, hq'.trans h.maxmem, ?_, ?_⟩
    · rw [hsend, decide_eq_true hyes]
    · rw [hcont, List.map_append, List.sum_append, List.map_singleton, List.sum_singleton]
      rcases hyes with hnil | hroom
      · simpa [hnil] using hmsg
      · omega
    · rw [if_pos hyes, hcont]

/-- The oldest message is given out. -/
theorem Inv.recv (h : Inv maxmem addrs q w) :
    ∃ queue q' addrs', w.queue.nnMsgqueueRecv = .ok (q.contents.head?, queue) ∧
      Represents queue addrs' q' ∧ q'.Wf ∧
      q'.maxmem = maxmem ∧ q.contents = q.contents.head?.toList ++ q'.contents := by
  rcases nnMsgqueueRecv_spec h.wf with ⟨hnil, heq⟩ | ⟨msg, q', heq, hwf, hq', hcont⟩
  · obtain ⟨queue, addrs', hrecv, hr⟩ := h.represents.recv heq h.wf.chunks
    exact ⟨queue, q, addrs', by rw [hrecv, hnil]; rfl, hr, h.wf, h.maxmem, by rw [hnil]; rfl⟩
  · obtain ⟨queue, addrs', hrecv, hr⟩ := h.represents.recv heq hwf.chunks
    exact ⟨queue, q', addrs', by rw [hrecv, hcont]; rfl, hr, hwf,
      hq'.trans h.maxmem, by rw [hcont]; rfl⟩

theorem Inv.step (h : Inv maxmem addrs q w) (hmax : maxmem ≤ 2 ^ 63) {c : QueueCall}
    (hen : w.Enabled c) (heq : w.call c = .ok (w', ())) : ∃ q' addrs', Inv maxmem addrs' q' w' := by
  cases c with
  | send msg addr =>
    obtain ⟨queue, q', addrs', hsend, hr, hwf, hq', hsmall, hcont⟩ := h.send hmax hen.1 hen.2
    simp only [QueueWorld.call, hsend, ok_bind] at heq
    obtain ⟨rfl, -⟩ := Prod.mk.inj (Except.ok.inj heq)
    refine ⟨q', addrs', hr, hwf, hq', hsmall, ?_⟩
    simp only [hcont, decide_eq_true_eq]
    split_ifs
    · rw [← List.append_assoc, h.kept]
    · rw [List.append_nil, h.kept]
  | recv =>
    obtain ⟨queue, q', addrs', hrecv, hr, hwf, hq', hcont⟩ := h.recv
    simp only [QueueWorld.call, hrecv, ok_bind] at heq
    obtain ⟨rfl, -⟩ := Prod.mk.inj (Except.ok.inj heq)
    refine ⟨q', addrs', hr, hwf, hq', ?_, ?_⟩
    · have hsmall := h.small
      rw [hcont, List.map_append, List.sum_append] at hsmall
      omega
    · rw [List.append_assoc, ← hcont, h.kept]

theorem init_inv (maxmem addr : ℕ) : Inv maxmem [addr] (nnMsgqueueInit maxmem) (init maxmem addr) :=
  ⟨represents_init maxmem addr, nnMsgqueueInit_wf maxmem,
    rfl, by simp [nnMsgqueueInit_contents], rfl⟩

/-- After any run, what was received is a prefix of what was accepted and the queue holds the rest.
It counts its messages and their bytes, accepts a message when it is empty or stays below `maxmem`,
gives out the oldest one, and has one chunk when it is drained. -/
theorem msgqueue_bounded_fifo {maxmem addr : ℕ} (hmax : maxmem ≤ 2 ^ 63) {calls : List QueueCall}
    {w : QueueWorld} (h : Trace call Enabled (init maxmem addr) calls w) :
    ∃ queued, w.accepted = w.received ++ queued ∧ w.queue.count = queued.length ∧
      w.queue.mem = (queued.map msgsz).sum ∧
      (∀ msg addr, w.Enabled (.send msg addr) → ∃ queue, w.queue.nnMsgqueueSend msg addr =
        .ok (decide (queued = [] ∨ (queued.map msgsz).sum + msgsz msg < maxmem), queue)) ∧
      (∃ queue, w.queue.nnMsgqueueRecv = .ok (queued.head?, queue)) ∧
      (queued = [] → w.queue.inChunk = w.queue.outChunk) := by
  have hinv : ∃ q addrs, Inv maxmem addrs q w := by
    refine h.invariant (I := fun _ w => ∃ q addrs, Inv maxmem addrs q w)
      ⟨_, _, init_inv maxmem addr⟩ ?_
    rintro - w c w' ⟨⟩ ⟨q, addrs, hi⟩ hen heq
    exact hi.step hmax hen heq
  obtain ⟨q, addrs, hi⟩ := hinv
  refine ⟨q.contents, hi.kept, ?_, ?_, ?_, ?_, ?_⟩
  · rw [hi.represents.count, hi.wf.count]
  · rw [hi.represents.mem, hi.mem_eq]
  · intro msg addr hen
    obtain ⟨queue, -, -, hsend, -⟩ := hi.send hmax hen.1 hen.2
    exact ⟨queue, hsend⟩
  · obtain ⟨queue, -, -, hrecv, -⟩ := hi.recv
    exact ⟨queue, hrecv⟩
  · intro hnil
    exact hi.represents.same_chunk (hi.wf.chunks_of_nil hnil)

/-- A chunk is filled and read, so that it waits in the cache, and is the next one to be filled. -/
def chunkRun : List QueueCall :=
  List.replicate 126 (.send ⟨[], [], [7]⟩ 1) ++ List.replicate 10 (.send ⟨[], [], [8]⟩ 2) ++
    List.replicate 127 .recv ++ List.replicate 126 (.send ⟨[], [], [9]⟩ 2)

/-- After this run the first chunk is in use again, the oldest message is in the second one, and
there is no room for five more bytes. -/
theorem msgqueue_bounded_fifo_chunks :
    ∃ w queued, Trace call Enabled (init 140 0) chunkRun w ∧ w.queue.inChunk = some 1 ∧
      w.queue.outChunk = some 0 ∧ w.accepted = w.received ++ queued ∧ queued.length = 135 ∧
      (∃ queue, w.queue.nnMsgqueueSend ⟨[], [], [1, 2, 3, 4, 5]⟩ 2 = .ok (false, queue)) ∧
      ∃ queue, w.queue.nnMsgqueueRecv = .ok (queued.head?, queue) := by
  have hrun : ∃ w, Trace call Enabled (init 140 0) chunkRun w ∧ w.queue.inChunk = some 1 ∧
      w.queue.outChunk = some 0 ∧
      w.queue.count = 135 ∧ w.queue.mem = 135 ∧ w.Enabled (.send ⟨[], [], [1, 2, 3, 4, 5]⟩ 2) :=
    Trace.exists_of_runWhile (by decide +kernel)
  obtain ⟨w, h, hin, hout, hcount, hmem, hen⟩ := hrun
  obtain ⟨queued, hkept, hlen, hsum, hsend, hrecv, -⟩ := msgqueue_bounded_fifo (by decide) h
  have hlength : queued.length = 135 := hlen.symm.trans hcount
  have hfull :
      ¬ (queued = [] ∨ (queued.map msgsz).sum + msgsz ⟨[], [], [1, 2, 3, 4, 5]⟩ < 140) := by
    rintro (rfl | hroom)
    · cases hlength
    · rw [← hsum, hmem] at hroom
      exact absurd hroom (by decide)
  obtain ⟨queue, heq⟩ := hsend _ _ hen
  rw [decide_eq_false hfull] at heq
  exact ⟨w, queued, h, hin, hout, hkept, hlength, ⟨queue, heq⟩, hrecv⟩

end QueueWorld

end NanoSocket.Inproc

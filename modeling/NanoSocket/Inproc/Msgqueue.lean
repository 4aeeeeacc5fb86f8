import NanoSocket.Core.Wire

/-!
# The queue of an inproc session (`transports/inproc/msgqueue.c`)

The queue is a chain of chunks of 126 messages each, read at a position of the first chunk and
written at a position of the last one.  It takes one message of any size, and further ones as long
as they fit into `maxmem` bytes.

`Msgqueue.contents` is the list of messages that the queue holds; `nnMsgqueueSend_spec` and
`nnMsgqueueRecv_spec` say that the two functions append to it and take from its front.
-/

namespace NanoSocket.Inproc

/-- `struct nn_msgqueue_chunk` without its link; `NN_MSGQUEUE_GRANULARITY` is 126. -/
abbrev Chunk := Vector Msg 126

instance neZero_granularity : NeZero 126 := ⟨by decide⟩

/-- `struct nn_msgqueue`: the chunks from `in.chunk` to `out.chunk`, linked in this order. -/
structure Msgqueue where
  chunks : List Chunk
  outPos : Fin 126
  inPos : Fin 126
  count : ℕ
  mem : ℕ
  maxmem : ℕ
  cache : Option Chunk

/-- A chunk fresh from `nn_alloc`, whose contents do not matter. -/
def Chunk.fresh : Chunk := Vector.replicate 126 .init

/-- `nn_msgqueue_init`. -/
def nnMsgqueueInit (maxmem : ℕ) : Msgqueue :=
  { chunks := [.fresh], outPos := 0, inPos := 0, count := 0, mem := 0,
    maxmem := maxmem, cache := none }

/-- `nn_msgqueue_empty`. -/
def nnMsgqueueEmpty (self : Msgqueue) : Bool := self.count = 0

/-- The size that a message counts with. -/
def msgsz (msg : Msg) : ℕ := msg.sphdr.length + msg.body.length

/-- There is no room for the message; `size_t` has 64 bits. -/
def Msgqueue.Full (self : Msgqueue) (msg : Msg) : Prop :=
  self.count > 0 ∧ (self.mem + msgsz msg) % 2 ^ 64 ≥ self.maxmem

instance (self : Msgqueue) (msg : Msg) : Decidable (self.Full msg) :=
  inferInstanceAs (Decidable (_ ∧ _))

/-- Write into `out.chunk`. -/
def writeLast (pos : Fin 126) (msg : Msg) : List Chunk → Except Fault (List Chunk)
  | [] => .error .nullDeref
  | [c] => .ok [c.set pos msg]
  | c :: rest => do return c :: (← writeLast pos msg rest)

/-- `nn_msgqueue_send`; `false` is `-EAGAIN`. -/
def nnMsgqueueSend (self : Msgqueue) (msg : Msg) : Except Fault (Bool × Msgqueue) :=
  if self.Full msg then .ok (false, self)
  else do
    let self := { self with count := self.count + 1, mem := (self.mem + msgsz msg) % 2 ^ 64 }
    let self := { self with chunks := ← writeLast self.outPos msg self.chunks }
    -- no space for a new message: re-use the cached chunk or allocate a new one
    if self.outPos.val + 1 = 126 then
      let chunk := self.cache.getD .fresh
      return (true, { self with chunks := self.chunks ++ [chunk], cache := none, outPos := 0 })
    return (true, { self with outPos := self.outPos + 1 })

/-- `nn_msgqueue_recv`; `none` is `-EAGAIN`. -/
def nnMsgqueueRecv (self : Msgqueue) : Except Fault (Option Msg × Msgqueue) :=
  if self.count = 0 then .ok (none, self)
  else
    match self.chunks with
    | [] => .error .nullDeref
    | chunk :: rest =>
      let msg := chunk[self.inPos]
      let self :=
        if self.inPos.val + 1 = 126 then
          { self with chunks := rest, inPos := 0, cache := some (self.cache.getD chunk) }
        else { self with inPos := self.inPos + 1 }
      .ok (some msg, { self with
        count := self.count - 1
        mem := (self.mem + (2 ^ 64 - msgsz msg % 2 ^ 64)) % 2 ^ 64 })

/-! ### The contents -/

/-- All places of the chunks in their order. -/
def places (chunks : List Chunk) : List Msg := (chunks.map Vector.toList).flatten

/-- The place that is written next. -/
def Msgqueue.top (q : Msgqueue) : ℕ := 126 * (q.chunks.length - 1) + q.outPos

/-- The messages in the queue, the next one first. -/
def Msgqueue.contents (q : Msgqueue) : List Msg := ((places q.chunks).take q.top).drop q.inPos

/-- The invariant of a queue. -/
structure Msgqueue.Wf (q : Msgqueue) : Prop where
  chunks : q.chunks ≠ []
  le : (q.inPos : ℕ) ≤ q.top
  count : q.count = q.contents.length
  mem : q.mem = (q.contents.map msgsz).sum % 2 ^ 64

@[simp] theorem length_places (chunks : List Chunk) :
    (places chunks).length = 126 * chunks.length := by
  induction chunks with
  | nil => rfl
  | cons c rest ih =>
    unfold places at ih ⊢
    rw [List.map_cons, List.flatten_cons, List.length_append, ih, Vector.length_toList,
      List.length_cons]
    omega

theorem places_append (l l' : List Chunk) : places (l ++ l') = places l ++ places l' := by
  unfold places
  rw [List.map_append, List.flatten_append]

theorem Msgqueue.Wf.top_lt {q : Msgqueue} (h : q.Wf) : q.top < (places q.chunks).length := by
  have hpos := List.length_pos_iff.2 h.chunks
  have := q.outPos.isLt
  rw [length_places, Msgqueue.top]
  omega

theorem Msgqueue.Wf.length_contents {q : Msgqueue} (h : q.Wf) :
    q.contents.length = q.top - q.inPos := by
  have := h.top_lt
  unfold Msgqueue.contents
  rw [List.length_drop, List.length_take]
  omega

theorem nnMsgqueueInit_contents (maxmem : ℕ) : (nnMsgqueueInit maxmem).contents = [] := rfl

theorem nnMsgqueueInit_wf (maxmem : ℕ) : (nnMsgqueueInit maxmem).Wf :=
  ⟨by simp [nnMsgqueueInit], Nat.zero_le _, rfl, rfl⟩

theorem nnMsgqueueEmpty_iff {q : Msgqueue} (h : q.Wf) :
    nnMsgqueueEmpty q = true ↔ q.contents = [] := by
  unfold nnMsgqueueEmpty
  rw [decide_eq_true_iff, h.count, List.length_eq_zero_iff]

/-! ### Writing and reading -/

theorem writeLast_spec (pos : Fin 126) (msg : Msg) {chunks : List Chunk} (h : chunks ≠ []) :
    ∃ chunks', writeLast pos msg chunks = .ok chunks' ∧ chunks'.length = chunks.length ∧
      places chunks' = (places chunks).set (126 * (chunks.length - 1) + pos) msg := by
  induction chunks with
  | nil => exact absurd rfl h
  | cons c rest ih =>
    cases rest with
    | nil =>
      refine ⟨[c.set pos msg], rfl, rfl, ?_⟩
      simp [places, Vector.toList_set]
    | cons c' rest =>
      obtain ⟨chunks', heq, hlen, hplaces⟩ := ih (by simp)
      refine ⟨c :: chunks', by simp [writeLast, heq], by rw [List.length_cons, hlen]; rfl, ?_⟩
      have hcons : ∀ l, places (c :: l) = c.toList ++ places l := fun l => by simp [places]
      have hidx : 126 * ((c :: c' :: rest).length - 1) + pos.val =
          c.toList.length + (126 * ((c' :: rest).length - 1) + pos.val) := by
        rw [Vector.length_toList, List.length_cons, List.length_cons]
        omega
      rw [hcons, hcons, hplaces, hidx, List.set_append_right _ _ (by omega)]
      congr 2
      omega

theorem take_set_succ {l : List Msg} {n : ℕ} (hn : n < l.length) (a : Msg) :
    (l.set n a).take (n + 1) = l.take n ++ [a] := by
  have hlen : (l.take n ++ [a]).length = n + 1 := by
    rw [List.length_append, List.length_take, List.length_singleton]
    omega
  rw [List.set_eq_take_append_cons_drop,
    if_pos hn, ← List.singleton_append, ← List.append_assoc, ← hlen, List.take_left]

/-- The statistics follow the contents. -/
theorem Msgqueue.Wf.of_append {q q' : Msgqueue} (h : q.Wf) {msg : Msg} (hc : q'.chunks ≠ [])
    (hle : (q'.inPos : ℕ) ≤ q'.top) (hcont : q'.contents = q.contents ++ [msg])
    (hcount : q'.count = q.count + 1) (hmem : q'.mem = (q.mem + msgsz msg) % 2 ^ 64) : q'.Wf := by
  refine ⟨hc, hle, ?_, ?_⟩
  · rw [hcont, hcount, h.count, List.length_append, List.length_singleton]
  · rw [hcont, hmem, h.mem, List.map_append, List.sum_append, List.map_singleton,
      List.sum_singleton, Nat.mod_add_mod]

/-- A message is appended to the contents, or there is no room for it. -/
theorem nnMsgqueueSend_spec {q : Msgqueue} (h : q.Wf) (msg : Msg) :
    (q.Full msg ∧ nnMsgqueueSend q msg = .ok (false, q)) ∨
      ¬ q.Full msg ∧ ∃ q', nnMsgqueueSend q msg = .ok (true, q') ∧ q'.Wf ∧ q'.maxmem = q.maxmem ∧
        q'.contents = q.contents ++ [msg] := by
  unfold nnMsgqueueSend
  by_cases hfull : q.Full msg
  · exact Or.inl ⟨hfull, if_pos hfull⟩
  refine Or.inr ⟨hfull, ?_⟩
  obtain ⟨chunks', heq, hlen, hplaces⟩ := writeLast_spec q.outPos msg h.chunks
  have hpos := List.length_pos_iff.2 h.chunks
  have htop := h.top_lt
  have hle := h.le
  have hne : chunks' ≠ [] := List.length_pos_iff.1 (hlen ▸ hpos)
  have htake : ((places chunks').take (q.top + 1)).drop q.inPos = q.contents ++ [msg] := by
    rw [hplaces, show 126 * (q.chunks.length - 1) + (q.outPos : ℕ) = q.top from rfl,
      take_set_succ htop, List.drop_append_of_le_length (by rw [List.length_take]; omega)]
    rfl
  have hdone : ∀ q' : Msgqueue, q'.inPos = q.inPos → q'.chunks ≠ [] → q'.top = q.top + 1 →
      (places q'.chunks).take (q.top + 1) = (places chunks').take (q.top + 1) →
        q'.count = q.count + 1 →
      q'.mem = (q.mem + msgsz msg) % 2 ^ 64 → q'.Wf ∧ q'.contents = q.contents ++ [msg] := by
    intro q' hin hc ht hp hcount hmem
    have hcont : q'.contents = q.contents ++ [msg] := by
      rw [Msgqueue.contents, ht, hp, hin, htake]
    exact ⟨h.of_append hc (by rw [hin, ht]; omega) hcont hcount hmem, hcont⟩
  have hlen' : (places chunks').length = 126 * q.chunks.length := by rw [length_places, hlen]
  have htop' : q.top = 126 * (q.chunks.length - 1) + (q.outPos : ℕ) := rfl
  rw [if_neg hfull]
  show ∃ q', (writeLast q.outPos msg q.chunks >>= _) = _ ∧ _
  rw [heq, ok_bind]
  show ∃ q', (if q.outPos.val + 1 = 126 then _ else _) = _ ∧ _
  split_ifs with hend
  · -- the last chunk is full
    have hfit : q.top + 1 = (places chunks').length := by omega
    obtain ⟨hwf, hcont⟩ := hdone { q with
      chunks := chunks' ++ [q.cache.getD .fresh], cache := none, outPos := 0, count := q.count + 1,
      mem := (q.mem + msgsz msg) % 2 ^ 64 } rfl (by simp)
      (by
        simp only [Msgqueue.top, List.length_append, List.length_singleton, hlen, Fin.val_zero]
        omega)
      (by rw [places_append, hfit, List.take_left, List.take_length]) rfl rfl
    exact ⟨_, rfl, hwf, rfl, hcont⟩
  · have hsucc : ((q.outPos + 1 : Fin 126) : ℕ) = q.outPos + 1 := by
      have := q.outPos.isLt
      rw [Fin.val_add, Fin.val_one, Nat.mod_eq_of_lt (by omega)]
    obtain ⟨hwf, hcont⟩ := hdone { q with
      chunks := chunks', outPos := q.outPos + 1, count := q.count + 1,
      mem := (q.mem + msgsz msg) % 2 ^ 64 } rfl hne
      (by simp only [Msgqueue.top, hlen, hsucc]; omega) rfl rfl rfl
    exact ⟨_, rfl, hwf, rfl, hcont⟩

/-- The first message of the contents is taken. -/
theorem nnMsgqueueRecv_spec {q : Msgqueue} (h : q.Wf) :
    (q.contents = [] ∧ nnMsgqueueRecv q = .ok (none, q)) ∨
      ∃ msg q', nnMsgqueueRecv q = .ok (some msg, q') ∧ q'.Wf ∧ q'.maxmem = q.maxmem ∧
        q.contents = msg :: q'.contents := by
  have htop := h.top_lt
  have hlen := h.length_contents
  unfold nnMsgqueueRecv
  by_cases hzero : q.count = 0
  · exact Or.inl ⟨List.length_eq_zero_iff.1 (h.count ▸ hzero), if_pos hzero⟩
  refine Or.inr ?_
  rw [if_neg hzero]
  have hlt : (q.inPos : ℕ) < q.top := by
    have := h.count
    omega
  cases hchunks : q.chunks with
  | nil => exact absurd hchunks h.chunks
  | cons chunk rest =>
    have hpl : places q.chunks = chunk.toList ++ places rest := by simp [hchunks, places]
    have hget : (places q.chunks)[(q.inPos : ℕ)]? = some chunk[q.inPos] := by
      have := q.inPos.isLt
      rw [hpl, List.getElem?_append_left (by rw [Vector.length_toList]; omega)]
      simp
    have hcons :
        q.contents = chunk[q.inPos] :: ((places q.chunks).take q.top).drop (q.inPos + 1) := by
      have hget' : ((places q.chunks).take q.top)[(q.inPos : ℕ)]? = some chunk[q.inPos] := by
        rw [List.getElem?_take_of_lt hlt, hget]
      obtain ⟨hidx, heq⟩ := List.getElem?_eq_some_iff.1 hget'
      rw [Msgqueue.contents, List.drop_eq_getElem_cons hidx, heq]
    have hmem : (q.mem + (2 ^ 64 - msgsz chunk[q.inPos] % 2 ^ 64)) % 2 ^ 64 =
        ((((places q.chunks).take q.top).drop (q.inPos + 1)).map msgsz).sum % 2 ^ 64 := by
      rw [h.mem, hcons, List.map_cons, List.sum_cons]
      omega
    have hcount : q.count - 1 = (((places q.chunks).take q.top).drop (q.inPos + 1)).length := by
      have := congrArg List.length hcons
      rw [List.length_cons] at this
      rw [h.count]
      omega
    have hdone : ∀ q' : Msgqueue, q'.chunks ≠ [] → (q'.inPos : ℕ) ≤ q'.top →
        q'.contents = ((places q.chunks).take q.top).drop (q.inPos + 1) → q'.count = q.count - 1 →
        q'.mem = (q.mem + (2 ^ 64 - msgsz chunk[q.inPos] % 2 ^ 64)) % 2 ^ 64 →
        q'.Wf ∧ q.contents = chunk[q.inPos] :: q'.contents := by
      intro q' hc hle hcont hcount' hmem'
      exact ⟨⟨hc, hle, by rw [hcont, hcount', hcount], by rw [hcont, hmem', hmem]⟩, by rw [hcont,
        hcons]⟩
    have htop' : q.top = 126 * rest.length + (q.outPos : ℕ) := by simp [Msgqueue.top, hchunks]
    show ∃ msg q', (Except.ok (some chunk[q.inPos], _) : Except Fault (Option Msg × Msgqueue)) = _ ∧
      _
    by_cases hend : q.inPos.val + 1 = 126
    · -- the first chunk is read to its end, so that there is another one
      have hout := q.outPos.isLt
      have hrest : rest ≠ [] := by
        rintro rfl
        simp only [List.length_nil] at htop'
        omega
      have hpos := List.length_pos_iff.2 hrest
      obtain ⟨hwf, hcont⟩ := hdone { q with
        chunks := rest, inPos := 0, cache := some (q.cache.getD chunk), count := q.count - 1,
        mem := (q.mem + (2 ^ 64 - msgsz chunk[q.inPos] % 2 ^ 64)) % 2 ^ 64 } hrest (Nat.zero_le _)
        (by
          have hskip : (places q.chunks).drop 126 = places rest := by
            rw [hpl, List.drop_left' Vector.length_toList]
          have htop'' : 126 * (rest.length - 1) + (q.outPos : ℕ) = q.top - 126 := by omega
          show ((places rest).take (126 * (rest.length - 1) + (q.outPos : ℕ))).drop 0 = _
          rw [List.drop_zero, hend, List.drop_take, hskip, htop'']) rfl rfl
      refine ⟨_, _, ?_, hwf, rfl, hcont⟩
      rw [if_pos hend]
    · have hsucc : ((q.inPos + 1 : Fin 126) : ℕ) = q.inPos + 1 := by
        have := q.inPos.isLt
        rw [Fin.val_add, Fin.val_one, Nat.mod_eq_of_lt (by omega)]
      obtain ⟨hwf, hcont⟩ := hdone { q with
        inPos := q.inPos + 1, count := q.count - 1,
        mem := (q.mem + (2 ^ 64 - msgsz chunk[q.inPos] % 2 ^ 64)) % 2 ^ 64 } h.chunks
        (by show ((q.inPos + 1 : Fin 126) : ℕ) ≤ q.top; omega)
        (by
          show ((places q.chunks).take q.top).drop ((q.inPos + 1 : Fin 126) : ℕ) = _
          rw [hsucc]) rfl rfl
      refine ⟨_, _, ?_, hwf, rfl, hcont⟩
      rw [if_neg hend, hchunks]

end NanoSocket.Inproc

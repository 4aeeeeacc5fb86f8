import NanoSocket.Core.Fault
import NanoSocket.Lib.Linked

/-!
# Queues (`utils/queue.c`)

`struct nn_queue` with its items, which carry one link each.  As for the lists, `Represents` says
which sequence the links stand for, and `queueCalls_refine` that the calls do to it what they say:
the oldest item is taken first, and any item can be taken out.
-/

namespace NanoSocket.IntrusiveQueue

open Linked

variable {α : Type} [DecidableEq α]

/-- `struct nn_queue`, with the links of the items that can be in it; `NN_QUEUE_NOTINQUEUE` is the
link of an item in no queue. -/
structure NnQueue (α : Type) where
  head : Link α
  tail : Link α
  next : α → Link α

namespace NnQueue

/-- `it->next`. -/
def load (self : NnQueue α) : Link α → Except Fault (Link α)
  | .null => .error .nullDeref
  | .unlinked => .error .outOfBounds
  | .item a => .ok (self.next a)

def put (self : NnQueue α) (a : α) (link : Link α) : NnQueue α :=
  { self with next := Function.update self.next a link }

/-- `it->next = link`. -/
def setNext (self : NnQueue α) (it link : Link α) : Except Fault (NnQueue α) :=
  match it with
  | .null => .error .nullDeref
  | .unlinked => .error .outOfBounds
  | .item a => .ok (self.put a link)

/-- `nn_queue_init`, and `nn_queue_item_init` for all items. -/
def nnQueueInit : NnQueue α := ⟨.null, .null, fun _ => .unlinked⟩

/-- `nn_queue_empty`. -/
def nnQueueEmpty (self : NnQueue α) : Bool := self.head = .null

/-- `nn_queue_item_isinqueue`. -/
def nnQueueItemIsinqueue (self : NnQueue α) (item : α) : Bool := self.next item ≠ .unlinked

/-- `nn_queue_item_term`. -/
def nnQueueItemTerm (self : NnQueue α) (item : α) : Except Fault Unit :=
  nnAssert (self.next item = .unlinked)

/-- `nn_queue_push`. -/
def nnQueuePush (self : NnQueue α) (item : α) : Except Fault (NnQueue α) := do
  nnAssert (self.next item = .unlinked)
  let self := self.put item .null
  let self := if self.head = .null then { self with head := .item item } else self
  let self ← (if self.tail ≠ .null then self.setNext self.tail (.item item) else .ok self)
  return { self with tail := .item item }

/-- The loop of `nn_queue_remove`. -/
def removeLoop (item : α) : ℕ → NnQueue α → Link α → Link α → Except Fault (NnQueue α)
  | 0, _, _, _ => .error .diverged
  | fuel + 1, self, prev, it =>
    if it = .null then .ok self
    else do
      let next ← self.load it
      if it = .item item then
        let self := if self.head = it then { self with head := next } else self
        let self := if self.tail = it then { self with tail := prev } else self
        let self ← (if prev ≠ .null then self.setNext prev next else .ok self)
        return self.put item .unlinked
      else removeLoop item fuel self it next

/-- `nn_queue_remove`. -/
def nnQueueRemove (fuel : ℕ) (self : NnQueue α) (item : α) : Except Fault (NnQueue α) :=
  if self.next item = .unlinked then .ok self else removeLoop item fuel self .null self.head

/-- `nn_queue_pop`. -/
def nnQueuePop (self : NnQueue α) : Except Fault (NnQueue α × Link α) :=
  match self.head with
  | .null => .ok (self, .null)
  | .unlinked => .error .outOfBounds
  | .item result =>
    let self := { self with head := self.next result }
    let self := if self.head = .null then { self with tail := .null } else self
    .ok (self.put result .unlinked, .item result)

end NnQueue

/-! ### The calls -/

/-- A call of the interface. -/
inductive QueueCall (α : Type)
  | push (item : α)
  | pop
  | remove (item : α)
  | empty
  | isinqueue (item : α)
  | itemTerm (item : α)
  deriving DecidableEq, Repr

/-- What a call returns. -/
inductive Answer (α : Type)
  | done
  | link (it : Link α)
  | flag (b : Bool)
  deriving DecidableEq, Repr

/-- A call to the queue. -/
def call (fuel : ℕ) (self : NnQueue α) : QueueCall α → Except Fault (NnQueue α × Answer α)
  | .push item => do return (← self.nnQueuePush item, .done)
  | .pop => do
    let (self, result) ← self.nnQueuePop
    return (self, .link result)
  | .remove item => do return (← self.nnQueueRemove fuel item, .done)
  | .empty => .ok (self, .flag self.nnQueueEmpty)
  | .isinqueue item => .ok (self, .flag (self.nnQueueItemIsinqueue item))
  | .itemTerm item => do
    self.nnQueueItemTerm item
    return (self, .done)

/-- What the calls mean for the sequence of the items. -/
def spec (s : List α) : QueueCall α → List α × Answer α
  | .push item => (s ++ [item], .done)
  | .pop => (s.tail, .link (.of s.head?))
  | .remove item => (s.erase item, .done)
  | .empty => (s, .flag s.isEmpty)
  | .isinqueue item => (s, .flag (item ∈ s))
  | .itemTerm _ => (s, .done)

/-- Only free items are put in or terminated. -/
def Allowed (s : List α) : QueueCall α → Prop
  | .push item | .itemTerm item => item ∉ s
  | .pop | .remove _ | .empty | .isinqueue _ => True

instance (s : List α) : ∀ c : QueueCall α, Decidable (Allowed s c)
  | .push item | .itemTerm item => inferInstanceAs (Decidable (item ∉ s))
  | .pop | .remove _ | .empty | .isinqueue _ => .isTrue trivial

/-! ### The links and the sequence -/

/-- The links stand for the sequence. -/
structure Represents (w : NnQueue α) (s : List α) : Prop where
  nodup : s.Nodup
  head : w.head = .of s.head?
  tail : w.tail = .of s.getLast?
  member : ∀ a ∈ s, w.next a = .of (successor s a)
  free : ∀ a ∉ s, w.next a = .unlinked

theorem represents_init : Represents (NnQueue.nnQueueInit : NnQueue α) [] :=
  ⟨List.nodup_nil, rfl, rfl, nofun, fun _ _ => rfl⟩

section Represents

variable {w : NnQueue α} {s l r : List α} {x : α}

theorem Represents.next_eq_unlinked (h : Represents w s) (a : α) :
    w.next a = .unlinked ↔ a ∉ s := by
  refine ⟨fun hnext ha => ?_, h.free a⟩
  rw [h.member a ha] at hnext
  exact Link.of_ne_unlinked _ hnext

/-- A member in the middle. -/
theorem Represents.next (h : Represents w (l ++ x :: r)) : w.next x = .of r.head? := by
  have hl : x ∉ l := fun hmem => (List.nodup_append.1 h.nodup).2.2 x hmem x List.mem_cons_self rfl
  rw [h.member x (by simp), successor_self hl]

/-- A queue in which a member is free and the links of its neighbours go past it stands for the
sequence without it. -/
theorem represents_remove (h : Represents w (l ++ x :: r)) {w' : NnQueue α}
    (hhead : w'.head = .of (l ++ r).head?) (htail : w'.tail = .of (l ++ r).getLast?)
    (hself : w'.next x = .unlinked)
    (hnext : ∀ b, b ≠ x → w'.next b = if l.getLast? = some b then .of r.head? else w.next b) :
    Represents w' (l ++ r) := by
  obtain ⟨hx, hnodup⟩ := List.nodup_cons.1 (List.nodup_middle.1 h.nodup)
  refine ⟨hnodup, hhead, htail, ?_, ?_⟩
  · intro b hb
    have hbx : b ≠ x := fun heq => hx (heq ▸ hb)
    have hmem : b ∈ l ++ x :: r := by
      simp only [List.mem_append, List.mem_cons] at hb ⊢
      tauto
    rw [hnext b hbx, h.member b hmem, successor_erase hnodup hx hb]
    split_ifs <;> rfl
  · intro b hb
    by_cases hbx : b = x
    · rw [hbx, hself]
    · rw [List.mem_append, not_or] at hb
      have hfree : b ∉ l ++ x :: r := by
        simp only [List.mem_append, List.mem_cons]
        tauto
      rw [hnext b hbx, h.free b hfree, if_neg fun hlast => hb.1 (List.mem_of_getLast? hlast)]

/-! ### What the functions do -/

/-- The link of the object before, if there is one. -/
theorem setNext_of (w : NnQueue α) (o : Option α) (q : Link α) :
    (if Link.of o ≠ .null then w.setNext (.of o) q else .ok w) =
      .ok { w with next := fun b => if o = some b then q else w.next b } := by
  cases o with
  | none => simp
  | some p =>
    rw [if_pos (by simp), Link.of_some, NnQueue.setNext, NnQueue.put]
    congr 2
    funext b
    by_cases hb : p = b
    · subst hb
      simp
    · rw [Function.update_of_ne fun heq => hb heq.symm, if_neg fun heq => hb (Option.some.inj heq)]

theorem Represents.push_head (h : Represents w s) :
    (if (w.put x .null).head = .null then { w.put x .null with head := .item x }
      else w.put x .null) = ⟨.of (s ++ [x]).head?, .of s.getLast?, (w.put x .null).next⟩ := by
  have hput : w.put x .null = ⟨.of s.head?, .of s.getLast?, (w.put x .null).next⟩ := by
    rw [← h.head, ← h.tail]
    rfl
  rw [hput]
  cases s <;> rfl

theorem nnQueuePush_ok (h : Represents w s) (hx : x ∉ s) :
    ∃ w', w.nnQueuePush x = .ok w' ∧ Represents w' (s ++ [x]) := by
  have hlast : s.getLast? ≠ some x := fun hlast => hx (List.mem_of_getLast? hlast)
  have hnodup : (s ++ []).Nodup := by
    rw [List.append_nil]
    exact h.nodup
  have hx' : x ∉ s ++ [] := by
    rw [List.append_nil]
    exact hx
  rw [NnQueue.nnQueuePush, nnAssert_of (h.free x hx), ok_bind]
  simp only [h.push_head]
  rw [setNext_of, ok_bind]
  refine ⟨_, rfl, List.nodup_middle.2 (List.nodup_cons.2 ⟨hx', hnodup⟩), rfl, by simp, ?_, ?_⟩
  · intro b hb
    rw [successor_insert hnodup hx' b, List.append_nil]
    by_cases hbx : b = x
    · subst hbx
      simp [NnQueue.put, hlast]
    · have hmem : b ∈ s := by simpa [hbx] using hb
      simp only [NnQueue.put, if_neg hbx, Function.update_of_ne hbx, h.member b hmem]
      split_ifs <;> rfl
  · intro b hb
    rw [List.mem_append, List.mem_singleton, not_or] at hb
    simp only [NnQueue.put, Function.update_of_ne hb.2, h.free b hb.1]
    exact if_neg fun hlast => hb.1 (List.mem_of_getLast? hlast)

theorem nnQueuePush_used (h : Represents w s) (hx : x ∈ s) :
    w.nnQueuePush x = .error .assertFailed := by
  have hused : ¬ w.next x = .unlinked := fun hnext => (h.next_eq_unlinked x).1 hnext hx
  rw [NnQueue.nnQueuePush, nnAssert_of_not hused, error_bind]

theorem nnQueuePop_ok (h : Represents w s) :
    ∃ w', w.nnQueuePop = .ok (w', .of s.head?) ∧ Represents w' s.tail := by
  cases s with
  | nil => exact ⟨w, by rw [NnQueue.nnQueuePop, h.head]; rfl, h⟩
  | cons x r =>
    have hx : w.next x = .of r.head? := Represents.next (l := []) h
    have htail : (if Link.of r.head? = .null then Link.null else w.tail) = .of r.getLast? := by
      cases r with
      | nil => rfl
      | cons a r => rw [if_neg (by simp), h.tail, List.getLast?_cons_cons]
    rw [NnQueue.nnQueuePop, h.head]
    simp only [List.head?_cons, Link.of_some, hx]
    refine ⟨_, rfl, represents_remove (l := []) h ?_ ?_ ?_ ?_⟩
    · split_ifs <;> rfl
    · rw [List.nil_append, ← htail]
      split_ifs <;> rfl
    · exact Function.update_self ..
    · intro b hb
      have hnone : (if (none : Option α) = some b then Link.of r.head? else w.next b) = w.next b :=
        if_neg nofun
      rw [List.getLast?_nil, hnone]
      simp only [NnQueue.put, Function.update_of_ne hb]
      split_ifs <;> rfl

theorem Represents.remove_head (h : Represents w (l ++ x :: r)) :
    (if w.head = .item x then { w with head := .of r.head? } else w) =
      ⟨.of (l ++ r).head?, w.tail, w.next⟩ := by
  cases l with
  | nil =>
    have hhead : w.head = .item x := h.head
    rw [if_pos hhead]
    rfl
  | cons a l =>
    have hhead : w.head = .item a := h.head
    have hne : w.head ≠ .item x := by
      rw [hhead]
      rintro ⟨⟩
      exact (List.nodup_cons.1 h.nodup).1 (by simp)
    rw [if_neg hne]
    exact congrArg (fun p => (⟨p, w.tail, w.next⟩ : NnQueue α)) hhead

theorem Represents.remove_tail (h : Represents w (l ++ x :: r)) (head : Link α) :
    (if w.tail = .item x then ⟨head, .of l.getLast?, w.next⟩ else ⟨head, w.tail, w.next⟩) =
      (⟨head, .of (l ++ r).getLast?, w.next⟩ : NnQueue α) := by
  cases r with
  | nil =>
    have htail : w.tail = .item x := by
      rw [h.tail]
      simp
    rw [if_pos htail, List.append_nil]
  | cons a r =>
    have hsame : (l ++ x :: a :: r).getLast? = (l ++ a :: r).getLast? := by
      simp [List.getLast?_append, List.getLast?_cons]
    have hne : w.tail ≠ .item x := by
      rw [h.tail, hsame]
      intro hlast
      have hmem := List.mem_of_getLast? (Link.of_eq_item.1 hlast)
      exact (List.nodup_cons.1 (List.nodup_middle.1 h.nodup)).1 hmem
    rw [if_neg hne, h.tail, hsame]

/-- The loop has come to the item. -/
theorem removeLoop_found (h : Represents w (l ++ x :: r)) (fuel : ℕ) :
    ∃ w', NnQueue.removeLoop x (fuel + 1) w (.of l.getLast?) (.item x) = .ok w' ∧
      Represents w' (l ++ r) := by
  rw [NnQueue.removeLoop, if_neg nofun, NnQueue.load, ok_bind, if_pos rfl, h.next]
  simp only [h.remove_head, h.remove_tail]
  rw [setNext_of, ok_bind]
  refine ⟨_, rfl, represents_remove h rfl rfl (Function.update_self ..) fun b hb => ?_⟩
  simp only [NnQueue.put, Function.update_of_ne hb]

/-- The loop has come behind `l₁`, and the item is behind `l₂`. -/
theorem removeLoop_ok (l₁ : List α) {l₂ : List α} (h : Represents w (l₁ ++ l₂ ++ x :: r)) {fuel : ℕ}
    (hfuel : l₂.length < fuel) :
    ∃ w', NnQueue.removeLoop x fuel w (.of l₁.getLast?) (.of (l₂ ++ x :: r).head?) = .ok w' ∧
      Represents w' (l₁ ++ l₂ ++ r) := by
  induction l₂ generalizing l₁ fuel with
  | nil =>
    obtain ⟨fuel, rfl⟩ := Nat.exists_eq_add_of_lt hfuel
    rw [List.append_nil] at h ⊢
    exact removeLoop_found h _
  | cons a l₂ ih =>
    obtain _ | fuel := fuel
    · cases hfuel
    have hsplit : l₁ ++ a :: l₂ = (l₁ ++ [a]) ++ l₂ := by simp
    have hax : a ≠ x := by
      rintro rfl
      exact (List.nodup_cons.1 (List.nodup_middle.1 h.nodup)).1 (by simp)
    have hnext : w.next a = .of (l₂ ++ x :: r).head? := by
      rw [List.append_assoc, List.cons_append] at h
      exact h.next
    rw [hsplit] at h ⊢
    obtain ⟨w', hloop, hw'⟩ := ih (l₁ ++ [a]) h (Nat.lt_of_succ_lt_succ hfuel)
    refine ⟨w', ?_, hw'⟩
    rw [← hloop, NnQueue.removeLoop, List.cons_append, List.head?_cons, Link.of_some, if_neg nofun,
      NnQueue.load, ok_bind, if_neg fun heq => hax (Link.item.inj heq), hnext,
      List.getLast?_concat, Link.of_some]

theorem nnQueueRemove_ok (h : Represents w s) {fuel : ℕ} (hfuel : s.length < fuel) (x : α) :
    ∃ w', w.nnQueueRemove fuel x = .ok w' ∧ Represents w' (s.erase x) := by
  by_cases hx : x ∈ s
  · obtain ⟨l, r, rfl, hxl⟩ := List.eq_append_cons_of_mem hx
    have hne : w.next x ≠ .unlinked := fun hnext => (h.next_eq_unlinked x).1 hnext hx
    have hlt : l.length < fuel := by
      rw [List.length_append] at hfuel
      omega
    obtain ⟨w', hloop, hw'⟩ := removeLoop_ok [] h hlt
    refine ⟨w', ?_, ?_⟩
    · rw [NnQueue.nnQueueRemove, if_neg hne, h.head]
      exact hloop
    · rw [List.erase_append_right _ hxl, List.erase_cons_head]
      exact hw'
  · refine ⟨w, ?_, ?_⟩
    · rw [NnQueue.nnQueueRemove, if_pos (h.free x hx)]
    · rw [List.erase_of_not_mem hx]
      exact h

/-! ### The calls and the sequence -/

/-- Every call that is still to come can put in one item more. -/
def Within (fuel n : ℕ) (w : NnQueue α) (s : List α) : Prop := Represents w s ∧ s.length + n < fuel

theorem call_ok {fuel n : ℕ} (h : Within fuel (n + 1) w s) (c : QueueCall α) (hc : Allowed s c) :
    ∃ w', call fuel w c = .ok (w', (spec s c).2) ∧ Within fuel n w' (spec s c).1 := by
  obtain ⟨h, hlt⟩ := h
  match c with
  | .push x =>
    obtain ⟨w', hpush, hw'⟩ := nnQueuePush_ok h hc
    refine ⟨w', by rw [call, hpush]; rfl, hw', ?_⟩
    rw [spec, List.length_append, List.length_singleton]
    omega
  | .pop =>
    obtain ⟨w', hpop, hw'⟩ := nnQueuePop_ok h
    refine ⟨w', by rw [call, hpop]; rfl, hw', ?_⟩
    rw [spec, List.length_tail]
    omega
  | .remove x =>
    have hlt : s.length < fuel := by omega
    obtain ⟨w', hremove, hw'⟩ := nnQueueRemove_ok h hlt x
    refine ⟨w', by rw [call, hremove]; rfl, hw', ?_⟩
    have hle := List.length_erase_le (a := x) (l := s)
    simp only [spec]
    omega
  | .empty =>
    refine ⟨w, ?_, h, Nat.lt_of_succ_lt hlt⟩
    rw [call, NnQueue.nnQueueEmpty, h.head, spec]
    cases s <;> rfl
  | .isinqueue a =>
    refine ⟨w, ?_, h, Nat.lt_of_succ_lt hlt⟩
    rw [call, NnQueue.nnQueueItemIsinqueue, spec]
    simp [h.next_eq_unlinked]
  | .itemTerm a =>
    refine ⟨w, ?_, h, Nat.lt_of_succ_lt hlt⟩
    rw [call, NnQueue.nnQueueItemTerm, nnAssert_of (h.free a hc)]
    rfl

/-- An item that is not free can neither be put in nor be terminated. -/
theorem call_fails {fuel n : ℕ} (h : Within fuel (n + 1) w s) (c : QueueCall α)
    (hc : ¬ Allowed s c) :
    ∃ f, call fuel w c = .error f := by
  obtain ⟨h, -⟩ := h
  match c with
  | .push x =>
    have hx : x ∈ s := not_not.1 hc
    exact ⟨.assertFailed, by rw [call, nnQueuePush_used h hx]; rfl⟩
  | .itemTerm a =>
    have ha : a ∈ s := not_not.1 hc
    have hused : ¬ w.next a = .unlinked := fun hnext => (h.next_eq_unlinked a).1 hnext ha
    exact ⟨.assertFailed, by rw [call, NnQueue.nnQueueItemTerm, nnAssert_of_not hused]; rfl⟩
  | .pop => exact absurd trivial hc
  | .remove x => exact absurd trivial hc
  | .empty => exact absurd trivial hc
  | .isinqueue a => exact absurd trivial hc

/-! ### The queue as its users see it -/

/-- Following the links from the head leads through the sequence, the tail is its last item, and the
items in it are marked. -/
structure Shows (w : NnQueue α) (s : List α) : Prop where
  nodup : s.Nodup
  forward : Walks w.load w.head s
  tail : w.tail = .of s.getLast?
  tail_null : w.tail = .null ↔ s = []
  marked : ∀ a, w.nnQueueItemIsinqueue a = true ↔ a ∈ s

theorem Represents.shows (h : Represents w s) : Shows w s where
  nodup := h.nodup
  forward := by
    rw [h.head]
    exact walks_of_successor h.nodup fun a ha => congrArg Except.ok (h.member a ha)
  tail := h.tail
  tail_null := by rw [h.tail, Link.of_eq_null, List.getLast?_eq_none_iff]
  marked a := by simp [NnQueue.nnQueueItemIsinqueue, h.next_eq_unlinked]

end Represents

/-- All calls, one after another: as long as only free items are put in, they return what they say
about the sequence, and the queue shows it; otherwise the program ends.  The loop of a removal ends
within the number of the calls. -/
theorem queueCalls_refine (cs : List (QueueCall α)) (k : ℕ) :
    if Runs.Along spec Allowed [] cs then
      ∃ w, Runs.run (call (cs.length + k + 1)) NnQueue.nnQueueInit cs =
        .ok (w, (Runs.specRun spec [] cs).2) ∧ Shows w (Runs.specRun spec [] cs).1
    else ∃ f, Runs.run (call (cs.length + k + 1)) NnQueue.nnQueueInit cs = .error f := by
  have hinit : Within (cs.length + k + 1) cs.length (NnQueue.nnQueueInit : NnQueue α) [] :=
    ⟨represents_init, by rw [List.length_nil]; omega⟩
  split_ifs with hcs
  · obtain ⟨w, hrun, hw, -⟩ := Runs.run_simulates_within (R := Within (cs.length + k + 1))
      (fun _ _ _ c h hc => call_ok h c hc) hinit hcs
    exact ⟨w, hrun, hw.shows⟩
  · exact Runs.run_fails (R := Within (cs.length + k + 1)) (fun _ _ _ c h hc => call_ok h c hc)
      (fun _ _ _ c h hc => call_fails h c hc) hinit hcs

/-- The last item is taken out, then the first one, and another one is put behind the rest. -/
example : (Runs.run (call 9) (NnQueue.nnQueueInit : NnQueue ℕ)
    [.push 1, .push 2, .push 3, .remove 3, .remove 1, .push 4, .pop, .pop, .pop]).toOption.map
      Prod.snd = some [.done, .done, .done, .done, .done, .done, .link (.item 2), .link (.item 4),
        .link .null] := by
  decide

end NanoSocket.IntrusiveQueue

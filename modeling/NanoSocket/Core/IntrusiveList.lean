import NanoSocket.Core.Fault
import NanoSocket.Lib.Linked

/-!
# Lists (`utils/list.c`)

`struct nn_list` with its items, which carry their links themselves.  `Represents` says which
sequence the links stand for; `listCalls_refine` is about all calls of the interface: they do what
they do to the sequence, and an item that is in the list where it must be free, or free where it
must be in the list, ends the program.
-/

namespace NanoSocket.IntrusiveList

open Linked

variable {α : Type} [DecidableEq α]

/-- `struct nn_list_item`; `NN_LIST_NOTINLIST` is the link of an item in no list. -/
structure NnListItem (α : Type) where
  next : Link α
  prev : Link α
  deriving DecidableEq, Repr

/-- An item that is in no list. -/
def NnListItem.free : NnListItem α := ⟨.unlinked, .unlinked⟩

/-- `struct nn_list`, with the items that can be in it. -/
structure NnList (α : Type) where
  first : Link α
  last : Link α
  items : α → NnListItem α

namespace NnList

/-- `*it`. -/
def load (self : NnList α) : Link α → Except Fault (NnListItem α)
  | .null => .error .nullDeref
  | .unlinked => .error .outOfBounds
  | .item a => .ok (self.items a)

def put (self : NnList α) (a : α) (item : NnListItem α) : NnList α :=
  { self with items := Function.update self.items a item }

/-- `it->next = link`. -/
def setNext (self : NnList α) (it link : Link α) : Except Fault (NnList α) :=
  match it with
  | .null => .error .nullDeref
  | .unlinked => .error .outOfBounds
  | .item a => .ok (self.put a { self.items a with next := link })

/-- `it->prev = link`. -/
def setPrev (self : NnList α) (it link : Link α) : Except Fault (NnList α) :=
  match it with
  | .null => .error .nullDeref
  | .unlinked => .error .outOfBounds
  | .item a => .ok (self.put a { self.items a with prev := link })

/-- `nn_list_init`, and `nn_list_item_init` for all items. -/
def nnListInit : NnList α := ⟨.null, .null, fun _ => .free⟩

/-- `nn_list_term`. -/
def nnListTerm (self : NnList α) : Except Fault Unit := do
  nnAssert (self.first = .null)
  nnAssert (self.last = .null)

/-- `nn_list_empty`. -/
def nnListEmpty (self : NnList α) : Bool := self.first = .null

/-- `nn_list_begin`; `nn_list_end` is a null pointer. -/
def nnListBegin (self : NnList α) : Link α := self.first

/-- `nn_list_prev`. -/
def nnListPrev (self : NnList α) (it : Link α) : Except Fault (Link α) :=
  if it = .null then .ok self.last
  else do
    let item ← self.load it
    nnAssert (item.prev ≠ .unlinked)
    return item.prev

/-- `nn_list_next`. -/
def nnListNext (self : NnList α) (it : Link α) : Except Fault (Link α) := do
  let item ← self.load it
  nnAssert (item.next ≠ .unlinked)
  return item.next

/-- `nn_list_item_isinlist`. -/
def nnListItemIsinlist (self : NnList α) (item : α) : Bool := (self.items item).prev ≠ .unlinked

/-- `nn_list_item_term`. -/
def nnListItemTerm (self : NnList α) (item : α) : Except Fault Unit :=
  nnAssert (self.nnListItemIsinlist item = false)

/-- `nn_list_insert`. -/
def nnListInsert (self : NnList α) (item : α) (it : Link α) : Except Fault (NnList α) := do
  nnAssert (self.nnListItemIsinlist item = false)
  let prev ← (if it ≠ .null then (·.prev) <$> self.load it else .ok self.last)
  let self := self.put item { self.items item with prev }
  let self := self.put item { self.items item with next := it }
  let self ← (if (self.items item).prev ≠ .null then self.setNext (self.items item).prev
    (.item item) else .ok self)
  let self ← (if (self.items item).next ≠ .null then self.setPrev (self.items item).next
    (.item item) else .ok self)
  let self :=
    if self.first = .null ∨ self.first = it then { self with first := .item item } else self
  return if it = .null then { self with last := .item item } else self

/-- `nn_list_erase`. -/
def nnListErase (self : NnList α) (item : α) : Except Fault (NnList α × Link α) := do
  nnAssert (self.nnListItemIsinlist item = true)
  let self ←
    (if (self.items item).prev ≠ .null then self.setNext (self.items item).prev
      (self.items item).next
    else .ok { self with first := (self.items item).next })
  let self ←
    (if (self.items item).next ≠ .null then self.setPrev (self.items item).next
      (self.items item).prev
    else .ok { self with last := (self.items item).prev })
  let next := (self.items item).next
  return (self.put item .free, next)

end NnList

/-! ### The calls -/

/-- A call of the interface; `none` is a null pointer. -/
inductive ListCall (α : Type)
  | insert (item : α) (it : Option α)
  | erase (item : α)
  | start
  | next (it : Option α)
  | prev (it : Option α)
  | empty
  | isinlist (item : α)
  | itemTerm (item : α)
  | term
  deriving DecidableEq, Repr

/-- What a call returns. -/
inductive Answer (α : Type)
  | done
  | link (it : Link α)
  | flag (b : Bool)
  deriving DecidableEq, Repr

/-- A call to the list. -/
def call (self : NnList α) : ListCall α → Except Fault (NnList α × Answer α)
  | .insert item it => do return (← self.nnListInsert item (.of it), .done)
  | .erase item => do
    let (self, next) ← self.nnListErase item
    return (self, .link next)
  | .start => .ok (self, .link self.nnListBegin)
  | .next it => do return (self, .link (← self.nnListNext (.of it)))
  | .prev it => do return (self, .link (← self.nnListPrev (.of it)))
  | .empty => .ok (self, .flag self.nnListEmpty)
  | .isinlist item => .ok (self, .flag (self.nnListItemIsinlist item))
  | .itemTerm item => do
    self.nnListItemTerm item
    return (self, .done)
  | .term => do
    self.nnListTerm
    return (self, .done)

/-- A new member in front of another one. -/
def insertBefore (x a : α) : List α → List α
  | [] => []
  | b :: l => if b = a then x :: b :: l else b :: insertBefore x a l

/-- What the calls mean for the sequence of the items. -/
def spec (s : List α) : ListCall α → List α × Answer α
  | .insert item none => (s ++ [item], .done)
  | .insert item (some it) => (insertBefore item it s, .done)
  | .erase item => (s.erase item, .link (.of (successor s item)))
  | .start => (s, .link (.of s.head?))
  | .next none => (s, .done)
  | .next (some it) => (s, .link (.of (successor s it)))
  | .prev none => (s, .link (.of s.getLast?))
  | .prev (some it) => (s, .link (.of (successor s.reverse it)))
  | .empty => (s, .flag s.isEmpty)
  | .isinlist item => (s, .flag (item ∈ s))
  | .itemTerm _ => (s, .done)
  | .term => (s, .done)

/-- A free item is put in front of a member or at the end; what is taken out, and where a traversal
goes on, is a member; only free items and the empty list are terminated. -/
def Allowed (s : List α) : ListCall α → Prop
  | .insert item none => item ∉ s
  | .insert item (some it) => item ∉ s ∧ it ∈ s
  | .erase item => item ∈ s
  | .next none => False
  | .next (some it) => it ∈ s
  | .prev (some it) => it ∈ s
  | .itemTerm item => item ∉ s
  | .term => s = []
  | .start | .prev none | .empty | .isinlist _ => True

instance (s : List α) : ∀ c : ListCall α, Decidable (Allowed s c)
  | .insert item none => inferInstanceAs (Decidable (item ∉ s))
  | .insert item (some it) => inferInstanceAs (Decidable (item ∉ s ∧ it ∈ s))
  | .erase item => inferInstanceAs (Decidable (item ∈ s))
  | .next none => .isFalse id
  | .next (some it) => inferInstanceAs (Decidable (it ∈ s))
  | .prev (some it) => inferInstanceAs (Decidable (it ∈ s))
  | .itemTerm item => inferInstanceAs (Decidable (item ∉ s))
  | .term => inferInstanceAs (Decidable (s = []))
  | .start | .prev none | .empty | .isinlist _ => .isTrue trivial

/-! ### The links and the sequence -/

/-- The links stand for the sequence. -/
structure Represents (w : NnList α) (s : List α) : Prop where
  nodup : s.Nodup
  first : w.first = .of s.head?
  last : w.last = .of s.getLast?
  member : ∀ a ∈ s, w.items a = ⟨.of (successor s a), .of (successor s.reverse a)⟩
  free : ∀ a ∉ s, w.items a = .free

theorem represents_init : Represents (NnList.nnListInit : NnList α) [] :=
  ⟨List.nodup_nil, rfl, rfl, nofun, fun _ _ => rfl⟩

section Represents

variable {w : NnList α} {s l r : List α} {x : α}

theorem Represents.isinlist (h : Represents w s) (a : α) :
    w.nnListItemIsinlist a = decide (a ∈ s) := by
  by_cases ha : a ∈ s
  · simp [NnList.nnListItemIsinlist, h.member a ha, ha, Link.of_ne_unlinked]
  · simp [NnList.nnListItemIsinlist, h.free a ha, ha, NnListItem.free]

/-- A member in the middle. -/
theorem Represents.items (h : Represents w (l ++ x :: r)) :
    w.items x = ⟨.of r.head?, .of l.getLast?⟩ := by
  have hnodup := List.nodup_append.1 h.nodup
  have hl : x ∉ l := fun hmem => hnodup.2.2 x hmem x List.mem_cons_self rfl
  have hr : x ∉ r.reverse := fun hmem => (List.nodup_cons.1 hnodup.2.1).1 (List.mem_reverse.1 hmem)
  rw [h.member x (by simp), successor_self hl, List.reverse_append, List.reverse_cons,
    List.append_assoc, List.singleton_append, successor_self hr, List.head?_reverse]

/-- A list in which the links of a new member and of its neighbours are set stands for the sequence
with it. -/
theorem represents_insert (h : Represents w (l ++ r)) (hx : x ∉ l ++ r) {w' : NnList α}
    (hfirst : w'.first = .of (l ++ x :: r).head?) (hlast : w'.last = .of (l ++ x :: r).getLast?)
    (hself : w'.items x = ⟨.of r.head?, .of l.getLast?⟩)
    (hitems : ∀ b, b ≠ x → w'.items b =
      ⟨if l.getLast? = some b then .item x else (w.items b).next,
        if r.head? = some b then .item x else (w.items b).prev⟩) : Represents w' (l ++ x :: r) := by
  have hrev : (r.reverse ++ l.reverse).Nodup := by
    rw [← List.reverse_append]
    exact List.nodup_reverse.2 h.nodup
  have hxrev : x ∉ r.reverse ++ l.reverse := by
    rw [← List.reverse_append, List.mem_reverse]
    exact hx
  have hsplit : (l ++ x :: r).reverse = r.reverse ++ x :: l.reverse := by simp
  refine ⟨List.nodup_middle.2 (List.nodup_cons.2 ⟨hx, h.nodup⟩), hfirst, hlast, ?_, ?_⟩
  · intro b hb
    rw [hsplit, successor_insert h.nodup hx b, successor_insert hrev hxrev b, List.getLast?_reverse,
      List.head?_reverse]
    by_cases hbx : b = x
    · subst hbx
      rw [hself, if_pos rfl, if_pos rfl]
    · have hmem : b ∈ l ++ r := by
        simp only [List.mem_append, List.mem_cons] at hb ⊢
        tauto
      rw [if_neg hbx, if_neg hbx, hitems b hbx, h.member b hmem, ← List.reverse_append]
      congr 1 <;> split_ifs <;> rfl
  · intro b hb
    simp only [List.mem_append, List.mem_cons, not_or] at hb
    have hfree : b ∉ l ++ r := by
      rw [List.mem_append]
      tauto
    rw [hitems b hb.2.1, h.free b hfree, if_neg, if_neg]
    · exact fun hhead => hb.2.2 (List.mem_of_head? hhead)
    · exact fun hlast => hb.1 (List.mem_of_getLast? hlast)

/-- A list in which a member is free and the links of its neighbours go past it stands for the
sequence without it. -/
theorem represents_erase (h : Represents w (l ++ x :: r)) {w' : NnList α}
    (hfirst : w'.first = .of (l ++ r).head?) (hlast : w'.last = .of (l ++ r).getLast?)
    (hself : w'.items x = .free) (hitems : ∀ b, b ≠ x → w'.items b =
      ⟨if l.getLast? = some b then .of r.head? else (w.items b).next,
        if r.head? = some b then .of l.getLast? else (w.items b).prev⟩) : Represents
          w' (l ++ r) := by
  obtain ⟨hx, hnodup⟩ := List.nodup_cons.1 (List.nodup_middle.1 h.nodup)
  have hrev : (r.reverse ++ l.reverse).Nodup := by
    rw [← List.reverse_append]
    exact List.nodup_reverse.2 hnodup
  have hxrev : x ∉ r.reverse ++ l.reverse := by
    rw [← List.reverse_append, List.mem_reverse]
    exact hx
  refine ⟨hnodup, hfirst, hlast, ?_, ?_⟩
  · intro b hb
    have hbx : b ≠ x := fun heq => hx (heq ▸ hb)
    have hbrev : b ∈ r.reverse ++ l.reverse := by
      rw [← List.reverse_append, List.mem_reverse]
      exact hb
    have hmem : b ∈ l ++ x :: r := by
      simp only [List.mem_append, List.mem_cons] at hb ⊢
      tauto
    have hsplit : (l ++ x :: r).reverse = r.reverse ++ x :: l.reverse := by simp
    rw [hitems b hbx, h.member b hmem, hsplit, List.reverse_append, successor_erase hnodup hx hb,
      successor_erase hrev hxrev hbrev, List.getLast?_reverse, List.head?_reverse]
    congr 1 <;> split_ifs <;> rfl
  · intro b hb
    by_cases hbx : b = x
    · rw [hbx, hself]
    · rw [List.mem_append, not_or] at hb
      have hfree : b ∉ l ++ x :: r := by
        simp only [List.mem_append, List.mem_cons]
        tauto
      rw [hitems b hbx, h.free b hfree, if_neg, if_neg]
      · exact fun hhead => hb.2 (List.mem_of_head? hhead)
      · exact fun hlast => hb.1 (List.mem_of_getLast? hlast)

/-! ### What the functions do -/

/-- The links of the object before, if there is one. -/
theorem setNext_of (w : NnList α) (o : Option α) (q : Link α) :
    (if Link.of o ≠ .null then w.setNext (.of o) q else .ok w) =
      .ok { w with items := fun b => ⟨if o = some b then q else (w.items b).next,
        (w.items b).prev⟩ } := by
  cases o with
  | none => simp
  | some p =>
    rw [if_pos (by simp), Link.of_some, NnList.setNext, NnList.put]
    congr 2
    funext b
    by_cases hb : p = b
    · subst hb
      simp
    · rw [Function.update_of_ne fun heq => hb heq.symm, if_neg fun heq => hb (Option.some.inj heq)]

theorem setPrev_of (w : NnList α) (o : Option α) (q : Link α) :
    (if Link.of o ≠ .null then w.setPrev (.of o) q else .ok w) =
      .ok { w with items := fun b => ⟨(w.items b).next, if o = some b then q
        else (w.items b).prev⟩ } := by
  cases o with
  | none => simp
  | some p =>
    rw [if_pos (by simp), Link.of_some, NnList.setPrev, NnList.put]
    congr 2
    funext b
    by_cases hb : p = b
    · subst hb
      simp
    · rw [Function.update_of_ne fun heq => hb heq.symm, if_neg fun heq => hb (Option.some.inj heq)]

/-- The place before `it`, or the last one. -/
theorem Represents.before (h : Represents w (l ++ r)) :
    (if Link.of r.head? ≠ .null then (·.prev) <$> w.load (.of r.head?) else .ok w.last) =
      .ok (.of l.getLast?) := by
  cases r with
  | nil => simp [h.last]
  | cons a r =>
    rw [if_pos (by simp)]
    simp [NnList.load, h.items]

theorem Represents.first_insert (h : Represents w (l ++ r)) :
    (if w.first = .null ∨ w.first = .of r.head? then Link.item x else w.first) =
      .of (l ++ x :: r).head? := by
  cases l with
  | nil => rw [h.first, List.nil_append, if_pos (Or.inr rfl)]; rfl
  | cons a l =>
    have hne : r.head? ≠ some a := fun hhead =>
      (List.nodup_append.1 h.nodup).2.2 a List.mem_cons_self a (List.mem_of_head? hhead) rfl
    rw [h.first, if_neg]
    · rfl
    · rintro (hnull | hitem)
      · cases hnull
      · exact hne (Link.of_eq_item.1 hitem.symm)

theorem Represents.last_insert (h : Represents w (l ++ r)) :
    (if Link.of r.head? = .null then Link.item x else w.last) = .of (l ++ x :: r).getLast? := by
  cases r with
  | nil => simp
  | cons a r => simp [h.last, List.getLast?_append, List.getLast?_cons]

theorem nnListInsert_ok (h : Represents w (l ++ r)) (hx : x ∉ l ++ r) :
    ∃ w', w.nnListInsert x (.of r.head?) = .ok w' ∧ Represents w' (l ++ x :: r) := by
  have hfree : w.nnListItemIsinlist x = false := by
    rw [h.isinlist, decide_eq_false hx]
  rw [List.mem_append, not_or] at hx
  have hl : l.getLast? ≠ some x := fun hlast => hx.1 (List.mem_of_getLast? hlast)
  have hr : r.head? ≠ some x := fun hhead => hx.2 (List.mem_of_head? hhead)
  rw [NnList.nnListInsert, nnAssert_of hfree, ok_bind, h.before, ok_bind]
  simp only [NnList.put, Function.update_self, Function.update_idem]
  rw [setNext_of, ok_bind]
  simp only [Function.update_self, if_neg hl]
  rw [setPrev_of, ok_bind]
  refine ⟨_, rfl, represents_insert h (by rw [List.mem_append, not_or]; exact hx) ?_ ?_ ?_ ?_⟩
  · rw [← h.first_insert]
    split_ifs <;> rfl
  · rw [← h.last_insert]
    split_ifs <;> rfl
  · split_ifs <;> simp [hl, hr]
  · intro b hb
    split_ifs <;> simp [*]

/-- The link past the member, from the object before it or from the list. -/
theorem setNext_or_first (w : NnList α) (o : Option α) (q : Link α) :
    (if Link.of o ≠ .null then w.setNext (.of o) q else .ok { w with first := q }) =
      .ok { w with
        first := if o = none then q else w.first
        items := fun b => ⟨if o = some b then q else (w.items b).next, (w.items b).prev⟩ } := by
  cases o with
  | none => simp
  | some p =>
    have hset := setNext_of w (some p) q
    rw [if_pos (by simp)] at hset
    rw [if_pos (by simp), hset, if_neg (by simp)]

theorem setPrev_or_last (w : NnList α) (o : Option α) (q : Link α) :
    (if Link.of o ≠ .null then w.setPrev (.of o) q else .ok { w with last := q }) =
      .ok { w with
        last := if o = none then q else w.last
        items := fun b => ⟨(w.items b).next, if o = some b then q else (w.items b).prev⟩ } := by
  cases o with
  | none => simp
  | some p =>
    have hset := setPrev_of w (some p) q
    rw [if_pos (by simp)] at hset
    rw [if_pos (by simp), hset, if_neg (by simp)]

theorem nnListErase_ok (h : Represents w (l ++ x :: r)) :
    ∃ w', w.nnListErase x = .ok (w', .of r.head?) ∧ Represents w' (l ++ r) := by
  have hmem : w.nnListItemIsinlist x = true := by
    rw [h.isinlist, decide_eq_true (by simp)]
  have hx := (List.nodup_cons.1 (List.nodup_middle.1 h.nodup)).1
  rw [List.mem_append, not_or] at hx
  have hl : l.getLast? ≠ some x := fun hlast => hx.1 (List.mem_of_getLast? hlast)
  have hr : r.head? ≠ some x := fun hhead => hx.2 (List.mem_of_head? hhead)
  rw [NnList.nnListErase, nnAssert_of hmem, ok_bind]
  simp only [h.items]
  rw [setNext_or_first, ok_bind]
  simp only [h.items, if_neg hl]
  rw [setPrev_or_last, ok_bind]
  simp only [h.items, if_neg hl]
  refine ⟨_, rfl, represents_erase h ?_ ?_ ?_ ?_⟩
  · cases l with
    | nil => rfl
    | cons a l => simp [NnList.put, h.first]
  · cases r with
    | nil => simp [NnList.put]
    | cons a r => simp [NnList.put, h.last, List.getLast?_append, List.getLast?_cons]
  · simp [NnList.put]
  · intro b hb
    simp [NnList.put, hb]

theorem nnListInsert_used (h : Represents w s) (hx : x ∈ s) (it : Link α) :
    w.nnListInsert x it = .error .assertFailed := by
  have hused : ¬ w.nnListItemIsinlist x = false := by
    rw [h.isinlist, decide_eq_true hx]
    exact Bool.noConfusion
  rw [NnList.nnListInsert, nnAssert_of_not hused, error_bind]

/-- In front of an item that is in no list, the link to the item before it is none. -/
theorem nnListInsert_before_free (h : Represents w s) (hx : x ∉ s) {a : α} (ha : a ∉ s) :
    w.nnListInsert x (.item a) = .error .outOfBounds := by
  have hfree : w.nnListItemIsinlist x = false := by
    rw [h.isinlist, decide_eq_false hx]
  rw [NnList.nnListInsert, nnAssert_of hfree, ok_bind, if_pos nofun, NnList.load, h.free a ha]
  simp [NnListItem.free, NnList.put, NnList.setNext]

theorem nnListErase_free (h : Represents w s) (hx : x ∉ s) :
    w.nnListErase x = .error .assertFailed := by
  have hfree : ¬ w.nnListItemIsinlist x = true := by
    rw [h.isinlist, decide_eq_false hx]
    exact Bool.noConfusion
  rw [NnList.nnListErase, nnAssert_of_not hfree, error_bind]

theorem nnListNext_item (h : Represents w s) (a : α) :
    w.nnListNext (.item a) = if a ∈ s then .ok (.of (successor s a)) else .error .assertFailed := by
  rw [NnList.nnListNext, NnList.load, ok_bind]
  split_ifs with ha
  · rw [h.member a ha, nnAssert_of (Link.of_ne_unlinked _)]
    rfl
  · rw [h.free a ha, nnAssert_of_not fun hne => hne rfl]
    rfl

theorem nnListPrev_item (h : Represents w s) (a : α) :
    w.nnListPrev (.item a) = if a ∈ s then .ok (.of (successor s.reverse a))
      else .error .assertFailed := by
  rw [NnList.nnListPrev, if_neg nofun, NnList.load, ok_bind]
  split_ifs with ha
  · rw [h.member a ha, nnAssert_of (Link.of_ne_unlinked _)]
    rfl
  · rw [h.free a ha, nnAssert_of_not fun hne => hne rfl]
    rfl

theorem insertBefore_append {a : α} (ha : a ∉ l) :
    insertBefore x a (l ++ a :: r) = l ++ x :: a :: r := by
  induction l with
  | nil => exact if_pos rfl
  | cons b l ih =>
    rw [List.mem_cons, not_or] at ha
    rw [List.cons_append, insertBefore, if_neg fun hba => ha.1 hba.symm, ih ha.2]
    rfl

/-! ### The calls and the sequence -/

/-- An allowed call does to the sequence what it says. -/
theorem call_ok (h : Represents w s) (c : ListCall α) (hc : Allowed s c) :
    ∃ w', call w c = .ok (w', (spec s c).2) ∧ Represents w' (spec s c).1 := by
  match c with
  | .insert x none =>
    have hx : x ∉ s ++ [] := by
      rw [List.append_nil]
      exact hc
    obtain ⟨w', hins, hw'⟩ :=
      nnListInsert_ok (l := s) (r := []) (by rw [List.append_nil]; exact h) hx
    refine ⟨w', ?_, hw'⟩
    have hins' : w.nnListInsert x (.of none) = .ok w' := hins
    rw [call, hins']
    rfl
  | .insert x (some a) =>
    obtain ⟨hx, ha⟩ := hc
    obtain ⟨l, r, rfl, hal⟩ := List.eq_append_cons_of_mem ha
    obtain ⟨w', hins, hw'⟩ := nnListInsert_ok (r := a :: r) h hx
    refine ⟨w', ?_, ?_⟩
    · have hins' : w.nnListInsert x (.of (some a)) = .ok w' := hins
      rw [call, hins']
      rfl
    · rw [spec, insertBefore_append hal]
      exact hw'
  | .erase x =>
    obtain ⟨l, r, rfl, hxl⟩ := List.eq_append_cons_of_mem hc
    obtain ⟨w', herase, hw'⟩ := nnListErase_ok h
    refine ⟨w', ?_, ?_⟩
    · rw [call, herase, spec, successor_self hxl]
      rfl
    · rw [spec, List.erase_append_right _ hxl, List.erase_cons_head]
      exact hw'
  | .start => exact ⟨w, by rw [call, NnList.nnListBegin, h.first]; rfl, h⟩
  | .next (some a) =>
    have ha : a ∈ s := hc
    refine ⟨w, ?_, h⟩
    rw [call, Link.of_some, nnListNext_item h, if_pos ha]
    rfl
  | .prev none =>
    exact ⟨w, by rw [call, Link.of_none, NnList.nnListPrev, if_pos rfl, h.last]; rfl, h⟩
  | .prev (some a) =>
    have ha : a ∈ s := hc
    refine ⟨w, ?_, h⟩
    rw [call, Link.of_some, nnListPrev_item h, if_pos ha]
    rfl
  | .empty =>
    refine ⟨w, ?_, h⟩
    rw [call, NnList.nnListEmpty, h.first, spec]
    cases s <;> rfl
  | .isinlist a => exact ⟨w, by rw [call, h.isinlist]; rfl, h⟩
  | .itemTerm a =>
    refine ⟨w, ?_, h⟩
    rw [call, NnList.nnListItemTerm, h.isinlist, nnAssert_of (decide_eq_false hc)]
    rfl
  | .term =>
    obtain rfl : s = [] := hc
    refine ⟨w, ?_, h⟩
    have hfirst : w.first = .null := h.first
    have hlast : w.last = .null := h.last
    rw [call, NnList.nnListTerm, nnAssert_of hfirst, ok_bind, nnAssert_of hlast]
    rfl

/-- Any other call ends the program. -/
theorem call_fails (h : Represents w s) (c : ListCall α) (hc : ¬ Allowed s c) :
    ∃ f, call w c = .error f := by
  match c with
  | .insert x none =>
    have hx : x ∈ s := not_not.1 hc
    exact ⟨_, by rw [call, nnListInsert_used h hx]; rfl⟩
  | .insert x (some a) =>
    by_cases hx : x ∈ s
    · exact ⟨_, by rw [call, nnListInsert_used h hx]; rfl⟩
    · have ha : a ∉ s := fun ha => hc ⟨hx, ha⟩
      exact ⟨_, by rw [call, Link.of_some, nnListInsert_before_free h hx ha]; rfl⟩
  | .erase x => exact ⟨_, by rw [call, nnListErase_free h hc]; rfl⟩
  | .start => exact absurd trivial hc
  | .next none => exact ⟨.nullDeref, rfl⟩
  | .next (some a) =>
    have ha : a ∉ s := hc
    exact ⟨_, by rw [call, Link.of_some, nnListNext_item h, if_neg ha]; rfl⟩
  | .prev none => exact absurd trivial hc
  | .prev (some a) =>
    have ha : a ∉ s := hc
    exact ⟨_, by rw [call, Link.of_some, nnListPrev_item h, if_neg ha]; rfl⟩
  | .empty => exact absurd trivial hc
  | .isinlist a => exact absurd trivial hc
  | .itemTerm a =>
    have ha : a ∈ s := not_not.1 hc
    refine ⟨.assertFailed, ?_⟩
    rw [call, NnList.nnListItemTerm, h.isinlist, decide_eq_true ha,
      nnAssert_of_not Bool.noConfusion]
    rfl
  | .term =>
    refine ⟨.assertFailed, ?_⟩
    have hfirst : ¬ w.first = .null := by
      rw [h.first, Link.of_eq_null, List.head?_eq_none_iff]
      exact hc
    rw [call, NnList.nnListTerm, nnAssert_of_not hfirst]
    rfl

/-! ### The list as its users see it -/

/-- Following the links from both ends leads through the sequence, and the items in it are
marked. -/
structure Shows (w : NnList α) (s : List α) : Prop where
  nodup : s.Nodup
  forward : Walks w.nnListNext w.nnListBegin s
  backward : ∃ p, w.nnListPrev .null = .ok p ∧ Walks w.nnListPrev p s.reverse
  marked : ∀ a, w.nnListItemIsinlist a = true ↔ a ∈ s

theorem Represents.shows (h : Represents w s) : Shows w s where
  nodup := h.nodup
  forward := by
    rw [NnList.nnListBegin, h.first]
    exact walks_of_successor h.nodup fun a ha => by rw [nnListNext_item h, if_pos ha]
  backward := by
    refine ⟨_, rfl, ?_⟩
    rw [h.last, ← List.head?_reverse]
    refine walks_of_successor (List.nodup_reverse.2 h.nodup) fun a ha => ?_
    rw [nnListPrev_item h, if_pos (List.mem_reverse.1 ha)]
  marked a := by rw [h.isinlist, decide_eq_true_iff]

end Represents

/-- All calls, one after another: as long as they are allowed, they return what they say about the
sequence, and the list shows it; otherwise the program ends. -/
theorem listCalls_refine (cs : List (ListCall α)) :
    if Runs.Along spec Allowed [] cs then
      ∃ w, Runs.run call NnList.nnListInit cs = .ok (w, (Runs.specRun spec [] cs).2) ∧
        Shows w (Runs.specRun spec [] cs).1
    else ∃ f, Runs.run call NnList.nnListInit cs = .error f := by
  split_ifs with hcs
  · obtain ⟨w, hrun, hw⟩ :=
      Runs.run_simulates (R := Represents) (fun _ _ c h hc => call_ok h c hc) represents_init hcs
    exact ⟨w, hrun, hw.shows⟩
  · exact Runs.run_fails (R := fun _ => Represents) (fun _ _ _ c h hc => call_ok h c hc)
      (fun _ _ _ c h hc => call_fails h c hc) represents_init hcs

/-- An item is taken out while the list is traversed. -/
example : (Runs.run call (NnList.nnListInit : NnList ℕ)
    [.insert 1 none, .insert 3 none, .insert 2 (some 3), .start, .next (some 1), .erase 2,
      .prev (some 3)]).toOption.map
      Prod.snd = some [.done, .done, .done, .link (.item 1), .link (.item 2), .link (.item 3),
        .link (.item 1)] := by
  decide

end NanoSocket.IntrusiveList

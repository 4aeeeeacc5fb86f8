import NanoSocket.Lib.Runs

/-!
# Intrusive links

An object that can be a member of one list carries the links of the list itself.  A `Link` names no
object, another object, or says that its owner is in no list.  `successor` is the order of a list
without repetitions, seen from its members, and the lemmas say how it changes when a member is put
in or taken out; `Walks` follows links from one object to the next until there is none.
-/

namespace Linked

variable {α ε : Type*}

/-- A link from one object to another. -/
inductive Link (α : Type*)
  | null
  | unlinked
  | item (a : α)
  deriving DecidableEq, Repr

/-- The link to an object, if there is one. -/
def Link.of : Option α → Link α
  | none => .null
  | some a => .item a

@[simp] theorem Link.of_none : Link.of (none : Option α) = .null := rfl

@[simp] theorem Link.of_some (a : α) : Link.of (some a) = .item a := rfl

theorem Link.of_ne_unlinked (o : Option α) : Link.of o ≠ .unlinked := by
  cases o <;> exact nofun

@[simp] theorem Link.of_eq_null {o : Option α} : Link.of o = .null ↔ o = none := by
  cases o <;> simp

@[simp] theorem Link.of_eq_item {o : Option α} {a : α} : Link.of o = .item a ↔ o = some a := by
  cases o <;> simp

/-! ### The order of the members -/

section Successor

variable [DecidableEq α]

/-- The member behind another one. -/
def successor : List α → α → Option α
  | [], _ => none
  | a :: l, b => if a = b then l.head? else successor l b

variable {l r : List α} {x b : α}

theorem successor_of_not_mem (h : b ∉ l) : successor (l ++ r) b = successor r b := by
  induction l with
  | nil => rfl
  | cons a l ih =>
    rw [List.mem_cons, not_or] at h
    rw [List.cons_append, successor, if_neg fun hab => h.1 hab.symm, ih h.2]

theorem successor_self (h : x ∉ l) : successor (l ++ x :: r) x = r.head? := by
  rw [successor_of_not_mem h, successor, if_pos rfl]

/-- The last member of a part has the first one of the rest behind it. -/
theorem successor_getLast (h : l.Nodup) (hb : l.getLast? = some b) :
    successor (l ++ r) b = r.head? := by
  obtain ⟨l, rfl⟩ := List.getLast?_eq_some_iff.1 hb
  rw [List.append_assoc]
  exact successor_self
    (fun hmem => (List.nodup_append.1 h).2.2 _ hmem _ (List.mem_singleton_self b) rfl)

/-- A member that is put in has the rest behind it, and only the member before it sees it. -/
theorem successor_insert (h : (l ++ r).Nodup) (hx : x ∉ l ++ r) (b : α) :
    successor (l ++ x :: r) b =
      if b = x then r.head? else if l.getLast? = some b then some x else successor (l ++ r) b := by
  rw [List.mem_append, not_or] at hx
  split_ifs with hbx hlast
  · subst hbx
    exact successor_self hx.1
  · exact successor_getLast (List.nodup_append.1 h).1 hlast
  · induction l with
    | nil => rw [List.nil_append, List.nil_append, successor, if_neg fun hxb => hbx hxb.symm]
    | cons a l ih =>
      rw [List.cons_append, List.nodup_cons] at h
      rw [List.mem_cons, not_or] at hx
      rw [List.cons_append, List.cons_append, successor, successor]
      split_ifs with hab
      · -- the first member sees `x` only if it is the last one before it
        subst hab
        cases l with
        | nil => exact absurd rfl hlast
        | cons c l => rfl
      · refine ih h.2 ⟨hx.1.2, hx.2⟩ fun hl => hlast ?_
        rw [List.getLast?_cons, hl]
        rfl

/-- When a member is taken out, only the member before it sees another one. -/
theorem successor_erase (h : (l ++ r).Nodup) (hx : x ∉ l ++ r) (hb : b ∈ l ++ r) :
    successor (l ++ r) b = if l.getLast? = some b then r.head? else successor (l ++ x :: r) b := by
  have hbx : b ≠ x := fun heq => hx (heq ▸ hb)
  rw [successor_insert h hx b, if_neg hbx]
  split_ifs with hlast
  · exact successor_getLast (List.nodup_append.1 h).1 hlast
  · rfl

end Successor

/-! ### Following the links -/

/-- Following the links from `p` leads to the objects of a list and ends behind the last one. -/
inductive Walks (next : Link α → Except ε (Link α)) : Link α → List α → Prop
  | nil : Walks next .null []
  | cons {a : α} {p : Link α} {l : List α} : next (.item a) = .ok p → Walks next p l →
      Walks next (.item a) (a :: l)

/-- Links to the successors lead through the members. -/
theorem walks_of_successor [DecidableEq α] {next : Link α → Except ε (Link α)} {s : List α}
    (h : s.Nodup) (hnext : ∀ a ∈ s, next (.item a) = .ok (.of (successor s a))) :
    Walks next (.of s.head?) s := by
  have hsuffix : ∀ r l, l ++ r = s → Walks next (.of r.head?) r := by
    intro r
    induction r with
    | nil => exact fun l _ => .nil
    | cons a r ih =>
      rintro l rfl
      refine .cons (hnext a (by simp)) ?_
      have ha : a ∉ l := fun hmem => (List.nodup_append.1 h).2.2 a hmem a List.mem_cons_self rfl
      rw [successor_self ha]
      exact ih (l ++ [a]) (by simp)
  exact hsuffix s [] rfl

end Linked

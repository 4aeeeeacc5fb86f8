import NanoSocket.Core.Fault
import NanoSocket.Lib.Words

/-!
# The nodes of the subscription trie (`protocols/pubsub/trie.h`, `trie.c`)

A node adds a prefix of at most ten bytes to the string of its parent and holds its children either
in a sparse array (up to eight characters, each with a child pointer) or in a dense array of
pointers for the characters `min`, …, `max`.  Ownership in the trie is a tree, so a child pointer is
an `Option Node` (`none` is `NULL`), and a function that writes through `struct nn_trie_node **`
returns the new content of that slot.

`count slot t` is the reference count stored for the string `t` below `slot`.
-/

namespace NanoSocket.PubSub

open Words

/-- `NN_TRIE_PREFIX_MAX`. -/
def nnTriePrefixMax : ℕ := 10

/-- `NN_TRIE_SPARSE_MAX`. -/
def nnTrieSparseMax : ℕ := 8

/-- The child array. `sparse` is `u.sparse.children` with the pointers that follow the structure,
`type` being its length; `dense` is the mode with `type == NN_TRIE_DENSE_TYPE`. -/
inductive Kids (N : Type)
  | sparse (children : List (UInt8 × Option N))
  | dense (min max : UInt8) (nbr : ℕ) (slots : List (Option N))

/-- `struct nn_trie_node`. -/
structure Node where
  refcount : UInt32
  pfx : List UInt8
  kids : Kids Node

/-- `nn_node_check_prefix`: how many characters of the `size` bytes at `data` match the prefix.
A byte of `data` is read only while `size` is not zero. -/
def nnNodeCheckPrefix : List UInt8 → List UInt8 → ℕ → Except Fault ℕ
  | [], _, _ => .ok 0
  | p :: ps, data, size =>
    if size = 0 then .ok 0
    else
      match data with
      | [] => .error .outOfBounds
      | d :: ds => if p ≠ d then .ok 0 else do return (← nnNodeCheckPrefix ps ds (size - 1)) + 1

/-- `nn_node_child`, dereferenced: the `index`-th child pointer. -/
def Kids.child {N : Type} : Kids N → ℕ → Option N
  | .sparse children, i => children[i]?.bind (·.2)
  | .dense _ _ _ slots, i => slots[i]?.join

/-- A write through `nn_node_child (self, index)`. -/
def Kids.setChild {N : Type} : Kids N → ℕ → Option N → Kids N
  | .sparse children, i, ch => .sparse (children.modify i fun p => (p.1, ch))
  | .dense mn mx nbr slots, i, ch => .dense mn mx nbr (slots.set i ch)

/-- `nn_node_next`: the index of the slot for the character `c`, `none` when there is no slot. -/
def Kids.index {N : Type} : Kids N → UInt8 → Option ℕ
  | .sparse children, c => children.findIdx? (·.1 == c)
  | .dense mn mx _ _, c => if c < mn || c > mx then none else some (c.toNat - mn.toNat)

/-- The child behind `nn_node_next`, when there is a slot and it is not `NULL`. -/
def Kids.next {N : Type} (k : Kids N) (c : UInt8) : Option N := (k.index c).bind k.child

/-! ### Looking up a character -/

section Lookup

variable {N : Type}

@[simp] theorem next_sparse_nil (c : UInt8) :
    (Kids.sparse ([] : List (UInt8 × Option N))).next c = none :=
  rfl

theorem index_sparse_cons (p : UInt8 × Option N) (cs : List (UInt8 × Option N)) (c : UInt8) :
    (Kids.sparse (p :: cs)).index c =
      if p.1 = c then some 0 else ((Kids.sparse cs).index c).map (· + 1) := by
  simp [Kids.index, List.findIdx?_cons]

theorem next_sparse_cons (p : UInt8 × Option N) (cs : List (UInt8 × Option N)) (c : UInt8) :
    (Kids.sparse (p :: cs)).next c = if p.1 = c then p.2 else (Kids.sparse cs).next c := by
  unfold Kids.next
  rw [index_sparse_cons]
  split_ifs with h
  · simp [Kids.child]
  · cases (Kids.sparse cs).index c with
    | none => rfl
    | some i => simp [Kids.child]

theorem next_dense (mn mx : UInt8) (nbr : ℕ) (slots : List (Option N)) (c : UInt8) :
    (Kids.dense mn mx nbr slots).next c =
      if mn ≤ c ∧ c ≤ mx then slots[c.toNat - mn.toNat]?.join else none := by
  unfold Kids.next Kids.index
  by_cases h : mn ≤ c ∧ c ≤ mx
  · have h1 : ¬ c < mn := UInt8.not_lt.2 h.1
    have h2 : ¬ c > mx := UInt8.not_lt.2 h.2
    simp [h, h1, h2, Kids.child]
  · have h1 : c < mn ∨ c > mx := by
      rcases not_and_or.1 h with h | h
      · exact Or.inl (UInt8.not_le.1 h)
      · exact Or.inr (UInt8.not_le.1 h)
    simp [h, h1]

/-- The pointer array of a dense node has one entry for each character of its range. -/
def Kids.Fits : Kids N → Prop
  | .sparse _ => True
  | .dense mn mx _ slots => slots.length = mx.toNat - mn.toNat + 1

/-- Writing the slot of `c` changes the child of `c` and no other. -/
theorem next_setChild {k : Kids N} {c : UInt8} {i : ℕ} (hf : k.Fits) (hi : k.index c = some i)
    (ch : Option N) : (k.setChild i ch).next = Function.update k.next c ch := by
  cases k with
  | sparse cs =>
    clear hf
    induction cs generalizing i with
    | nil => simp [Kids.index] at hi
    | cons p cs ih =>
      rw [index_sparse_cons] at hi
      funext e
      split_ifs at hi with hp
      · cases hi
        by_cases he : e = c
        · subst he; simp [Kids.setChild, next_sparse_cons, hp]
        · simp [Kids.setChild, next_sparse_cons, hp, he, Ne.symm he]
      · obtain ⟨j, hj, rfl⟩ := Option.map_eq_some_iff.1 hi
        have hrec := congrFun (ih hj) e
        simp only [Kids.setChild] at hrec ⊢
        rw [List.modify_succ_cons, next_sparse_cons, hrec]
        by_cases he : e = c
        · subst he; simp [hp]
        · simp [next_sparse_cons, he]
  | dense mn mx nbr slots =>
    simp only [Kids.index] at hi
    split_ifs at hi with hr
    cases hi
    simp only [Bool.or_eq_true, decide_eq_true_eq, not_or, gt_iff_lt, UInt8.not_lt] at hr
    simp only [Kids.Fits] at hf
    funext e
    have hc := UInt8.le_iff_toNat_le.1 hr.1
    have hc' := UInt8.le_iff_toNat_le.1 hr.2
    simp only [Kids.setChild, next_dense]
    by_cases he : e = c
    · subst he
      rw [Function.update_self, if_pos hr, List.getElem?_set_self (by omega)]
      rfl
    · rw [Function.update_of_ne he, next_dense]
      split_ifs with hre
      · have h1 := UInt8.le_iff_toNat_le.1 hre.1
        have h2 : e.toNat ≠ c.toNat := fun h => he (UInt8.toNat_inj.1 h)
        rw [List.getElem?_set_ne (by omega)]
      · rfl

theorem fits_setChild {k : Kids N} (hf : k.Fits) (i : ℕ) (ch : Option N) :
    (k.setChild i ch).Fits := by
  cases k with
  | sparse cs => trivial
  | dense mn mx nbr slots => simpa [Kids.Fits, Kids.setChild] using hf

end Lookup

/-! ### The counts of a trie -/

/-- The reference count of the string `t` in the trie below `slot`. -/
def count : Option Node → List UInt8 → ℕ
  | none, _ => 0
  | some n, t =>
    if n.pfx <+: t then
      match _h : t.drop n.pfx.length with
      | [] => n.refcount.toNat
      | c :: r => count (n.kids.next c) r
    else 0
  termination_by _ t => t.length
  decreasing_by
    have := congrArg List.length _h
    simp only [List.length_drop, List.length_cons] at this
    omega

@[simp] theorem count_none : count none = 0 := by
  funext t
  rw [count]
  rfl

/-- A node is its prefix, then its own count and the counts of its children. -/
theorem count_some (n : Node) :
    count (some n) = under n.pfx (fork n.refcount.toNat fun c => count (n.kids.next c)) := by
  funext t
  rw [count]
  split_ifs with h
  · obtain ⟨r, rfl⟩ := h
    rw [under_apply_append]
    split <;> rename_i heq <;> rw [List.drop_left] at heq <;> subst heq <;> rfl
  · rw [under_apply_of_not _ h]

end NanoSocket.PubSub

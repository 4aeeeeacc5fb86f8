import NanoSocket.PubSub.TrieArray

/-!
# `nn_trie_subscribe`

The function walks down the trie (step 1), splits a prefix that matches only in part (step 2), makes
room in a child array (step 3), appends nodes for the rest of the topic (step 4) and increments the
reference count (step 5).  The loop of step 1 is the recursion of `subscribeSlot`.

`Node.Wf` is the invariant of the nodes.  `subscribeSlot_spec` says that a subscription keeps it and
adds one to the count of its topic and to no other, as long as the 32-bit reference count does not
wrap and no subscribed topic has its ninth continuation added: the conversion of a full sparse array
into a dense one starts from a zero reference count.
-/

namespace NanoSocket.PubSub

open Words

/-- `nn_node_has_subscribers`. -/
def nnNodeHasSubscribers (node : Node) : Bool := node.refcount ≠ 0

/-- `nn_node_compact`: try to merge the node with its child. -/
def nnNodeCompact (self : Node) : Except Fault Node :=
  -- a node that is a subscription cannot be compacted
  if nnNodeHasSubscribers self then .ok self
  else
    match self.kids with
    | .sparse [(c, ptr)] =>
      match ptr with
      | none => .error .nullDeref
      | some ch =>
        if self.pfx.length + ch.pfx.length + 1 > nnTriePrefixMax then .ok self
        else .ok { ch with pfx := self.pfx ++ c :: ch.pfx }
    | _ => .ok self

/-- Step 2: split the prefix into two parts after `pos` characters, of which the next one is `c`. -/
def splitPrefix (ch : Node) (pos : ℕ) (c : UInt8) : Except Fault Node := do
  let below ← nnNodeCompact { ch with pfx := ch.pfx.drop (pos + 1) }
  return { refcount := 0, pfx := ch.pfx.take pos, kids := .sparse [(c, some below)] }

/-- Step 5: create the subscription as such. -/
def step5 (node : Node) : Node × ℤ :=
  let node := { node with refcount := node.refcount + 1 }
  (node, if node.refcount = 1 then 1 else 0)

/-- Step 4: create new nodes for the remaining part of the subscription. -/
def step4 (data : List UInt8) : Node × ℤ :=
  match _h : data.drop nnTriePrefixMax with
  | [] => step5 { refcount := 0, pfx := data, kids := .sparse [] }
  | c :: rest =>
    let r := step4 rest
    ({ refcount := 0, pfx := data.take nnTriePrefixMax, kids := .sparse [(c, some r.1)] }, r.2)
  termination_by data.length
  decreasing_by
    have := congrArg List.length _h
    simp only [List.length_drop, List.length_cons] at this
    omega

/-- The node after its child array was adjusted for `c`, and the index of the new slot. A node
converted into the dense mode is a new one, with its reference count set to zero. -/
def adjustNode (node : Node) (c : UInt8) : Node × ℕ :=
  let r := node.kids.adjust c
  match node.kids with
  | .sparse children =>
    if children.length < nnTrieSparseMax then ({ node with kids := r.1 }, r.2)
    else ({ refcount := 0, pfx := node.pfx, kids := r.1 }, r.2)
  | .dense .. => ({ node with kids := r.1 }, r.2)

/-- Step 3: adjust the child array to accommodate the new character, then proceed to step 4. -/
def step3 (node : Node) : List UInt8 → Except Fault (Node × ℤ)
  | [] => .ok (step5 node)
  | c :: rest => do
    let r := adjustNode node c
    nnAssert (r.1.kids.child r.2).isNone
    let ch := step4 rest
    return ({ r.1 with kids := r.1.kids.setChild r.2 (some ch.1) }, ch.2)

/-- Steps 1 to 5 at the slot `*node` with the rest `data` of the subscription. -/
def subscribeSlot : Option Node → List UInt8 → Except Fault (Node × ℤ)
  | none, data => .ok (step4 data)
  | some n, data => do
    let pos ← nnNodeCheckPrefix n.pfx data data.length
    -- only part of the prefix matches
    if _h : pos < n.pfx.length then
      let node ← splitPrefix n pos n.pfx[pos]
      step3 node (data.drop pos)
    else
      match _h : data.drop pos with
      | [] => return step5 n
      | c :: rest =>
        match n.kids.index c with
        | none => step3 n (c :: rest)
        | some i =>
          match n.kids.child i with
          | none => step3 n (c :: rest)
          | some ch => do
            let r ← subscribeSlot (some ch) rest
            return ({ n with kids := n.kids.setChild i (some r.1) }, r.2)
  termination_by _ data => data.length
  decreasing_by
    have := congrArg List.length _h
    simp only [List.length_drop, List.length_cons] at this
    omega

/-- `nn_trie_subscribe`. -/
def nnTrieSubscribe (root : Option Node) (data : List UInt8) : Except Fault (Option Node × ℤ) := do
  let r ← subscribeSlot root data
  return (some r.1, r.2)

/-! ### The invariant of the nodes -/

/-- The invariant of a node and of everything below it. -/
inductive Node.Wf : Node → Prop
  | intro {n : Node} (pfx_le : n.pfx.length ≤ nnTriePrefixMax) (shape : n.kids.Shape)
      (leaf : n.refcount = 0 → degree n.kids.next ≠ 0)
      (child : ∀ c m, n.kids.next c = some m → Node.Wf m) : Node.Wf n

theorem Node.Wf.pfx_le {n : Node} : n.Wf → n.pfx.length ≤ nnTriePrefixMax
  | .intro h _ _ _ => h

theorem Node.Wf.shape {n : Node} : n.Wf → n.kids.Shape
  | .intro _ h _ _ => h

theorem Node.Wf.leaf {n : Node} : n.Wf → n.refcount = 0 → degree n.kids.next ≠ 0
  | .intro _ _ h _ => h

theorem Node.Wf.child {n : Node} : n.Wf → ∀ c m, n.kids.next c = some m → m.Wf
  | .intro _ _ _ h => h

/-- A slot is `NULL` or points to a well-formed node. -/
def SlotWf (slot : Option Node) : Prop := ∀ n, slot = some n → n.Wf

theorem slotWf_none : SlotWf none := fun _ h => nomatch h

theorem Node.Wf.slot {n : Node} (h : n.Wf) : SlotWf (some n) := by
  intro m hm
  cases hm
  exact h

theorem Node.Wf.slot_next {n : Node} (h : n.Wf) (c : UInt8) : SlotWf (n.kids.next c) := h.child c

/-- Every branch of a well-formed trie leads to a subscription. -/
theorem Node.Wf.exists_count_ne_zero {n : Node} (h : n.Wf) : ∃ t, count (some n) t ≠ 0 := by
  induction h with
  | @intro n _ _ leaf _ ih =>
    rw [count_some]
    by_cases hr : n.refcount = 0
    · have hcard : 0 < degree n.kids.next := Nat.pos_of_ne_zero (leaf hr)
      obtain ⟨c, hc⟩ := Finset.card_pos.1 hcard
      obtain ⟨m, hm⟩ := Option.isSome_iff_exists.1 (Finset.mem_filter.1 hc).2
      obtain ⟨t, ht⟩ := ih c m hm
      exact ⟨n.pfx ++ c :: t, by simpa [hm] using ht⟩
    · refine ⟨n.pfx, ?_⟩
      rw [under_apply_self, fork_nil]
      exact fun h => hr (UInt32.toNat_inj.1 h)

/-- The letters that follow the string of a node are the characters of its children. -/
theorem Node.Wf.follow_ncard {n : Node} (h : n.Wf) :
    (follow (count (some n)) n.pfx).ncard = degree n.kids.next := by
  have hset : follow (count (some n)) n.pfx =
      ((Finset.univ.filter fun c => (n.kids.next c).isSome : Finset UInt8) : Set UInt8) := by
    rw [count_some, follow_under_fork_self]
    ext c
    simp only [Set.mem_ofPred_eq, Finset.coe_filter, Finset.mem_univ, true_and]
    cases hc : n.kids.next c with
    | none => simp
    | some m =>
      obtain ⟨t, ht⟩ := (h.child c m hc).exists_count_ne_zero
      simpa using ⟨t, ht⟩
  rw [hset, Set.ncard_coe_finset]
  rfl

/-! ### The prefix of a node -/

/-- `nn_node_check_prefix` within the data: the length of the common prefix. -/
theorem nnNodeCheckPrefix_spec (pfx data : List UInt8) :
    ∃ pos, nnNodeCheckPrefix pfx data data.length = .ok pos ∧ pos ≤ pfx.length ∧
      data = pfx.take pos ++ data.drop pos ∧
      (pos < pfx.length → (data.drop pos).head? ≠ pfx[pos]?) := by
  induction pfx generalizing data with
  | nil => exact ⟨0, rfl, le_rfl, rfl, fun h => absurd h (Nat.lt_irrefl 0)⟩
  | cons p ps ih =>
    cases data with
    | nil => exact ⟨0, rfl, Nat.zero_le _, rfl, fun _ => by simp⟩
    | cons d ds =>
      by_cases hp : p = d
      · subst hp
        obtain ⟨pos, heq, hle, hdata, hne⟩ := ih ds
        refine ⟨pos + 1, ?_, Nat.succ_le_succ hle, ?_, fun h => ?_⟩
        · simp [nnNodeCheckPrefix, heq]
        · rw [List.take_succ_cons, List.drop_succ_cons, List.cons_append, ← hdata]
        · rw [List.drop_succ_cons, List.getElem?_cons_succ]
          exact hne (Nat.lt_of_succ_lt_succ h)
      · refine ⟨0, ?_, Nat.zero_le _, rfl, fun _ => ?_⟩
        · simp [nnNodeCheckPrefix, hp]
        · simpa using Ne.symm hp

/-- The prefix is not part of the data: `nn_node_check_prefix` stops before its end. -/
theorem nnNodeCheckPrefix_lt_of_not {pfx data : List UInt8} (h : ¬ pfx <+: data) :
    ∃ pos, nnNodeCheckPrefix pfx data data.length = .ok pos ∧ pos < pfx.length ∧
      data = pfx.take pos ++ data.drop pos ∧ (data.drop pos).head? ≠ pfx[pos]? := by
  obtain ⟨pos, heq, hle, hdata, hne⟩ := nnNodeCheckPrefix_spec pfx data
  have hlt : pos < pfx.length := by
    refine lt_of_le_of_ne hle fun hpos => h ?_
    rw [hdata, hpos, List.take_length]
    exact List.prefix_append _ _
  exact ⟨pos, heq, hlt, hdata, hne hlt⟩

theorem nnNodeCheckPrefix_append (pfx rest : List UInt8) :
    nnNodeCheckPrefix pfx (pfx ++ rest) (pfx ++ rest).length = .ok pfx.length := by
  induction pfx with
  | nil => rfl
  | cons p ps ih =>
    rw [List.length_append] at ih
    simp [nnNodeCheckPrefix, ih]

/-! ### Merging and splitting nodes -/

/-- A node with one child is a longer word. -/
theorem count_single (r : UInt32) (p : List UInt8) (c : UInt8) (ch : Node) (hr : r = 0) :
    count (some ⟨r, p, .sparse [(c, some ch)]⟩) = under (p ++ [c]) (count (some ch)) := by
  subst hr
  rw [count_some, under_append, under_cons_eq_fork, under_nil]
  congr 2
  funext d
  simp only [next_sparse_cons, next_sparse_nil]
  by_cases hd : d = c
  · subst hd; simp
  · simp [Ne.symm hd, hd]

theorem nnNodeCompact_spec {n : Node} (h : n.Wf) :
    ∃ n', nnNodeCompact n = .ok n' ∧ n'.Wf ∧ count (some n') = count (some n) := by
  unfold nnNodeCompact
  split_ifs with hs
  · exact ⟨n, rfl, h, rfl⟩
  have hr : n.refcount = 0 := by simpa [nnNodeHasSubscribers] using hs
  split
  · rename_i c ptr hk
    cases ptr with
    | none =>
      have hptr := SparseShape.ptr (hk ▸ h.shape) (c, none) (by simp)
      exact absurd rfl hptr
    | some ch =>
      simp only
      split_ifs with hlen
      · exact ⟨n, rfl, h, rfl⟩
      · have hch : ch.Wf := h.child c ch (by rw [hk]; simp [next_sparse_cons])
        refine ⟨_, rfl, .intro ?_ hch.shape hch.leaf hch.child, ?_⟩
        · simp only [List.length_append, List.length_cons]
          omega
        · obtain ⟨r, p, k⟩ := n
          simp only at hr hk
          subst hk
          rw [count_single r p c ch hr, count_some, count_some,
            List.append_cons p c ch.pfx, under_append]
  · exact ⟨n, rfl, h, rfl⟩

theorem splitPrefix_spec {n : Node} (h : n.Wf) {pos : ℕ} (hpos : pos < n.pfx.length) :
    ∃ ch, splitPrefix n pos n.pfx[pos] =
        .ok { refcount := 0, pfx := n.pfx.take pos, kids := .sparse [(n.pfx[pos], some ch)] } ∧
      ch.Wf ∧ under (n.pfx.take pos ++ [n.pfx[pos]]) (count (some ch)) = count (some n) := by
  have hle := h.pfx_le
  have hlow : Node.Wf { n with pfx := n.pfx.drop (pos + 1) } :=
    .intro (by simp only [List.length_drop]; omega) h.shape h.leaf h.child
  obtain ⟨ch, hch, hwf, hcount⟩ := nnNodeCompact_spec hlow
  refine ⟨ch, by simp [splitPrefix, hch], hwf, ?_⟩
  rw [hcount, count_some, count_some, ← under_append]
  congr 1
  rw [List.append_assoc, List.singleton_append, List.getElem_cons_drop, List.take_append_drop]

theorem sparseShape_single (c : UInt8) (ch : Node) : SparseShape [(c, some ch)] :=
  ⟨by simp [nnTrieSparseMax], by simp, by simp⟩

theorem degree_sparse_cons_ne_zero (c : UInt8) (ch : Node) :
    degree (Kids.sparse [(c, some ch)]).next ≠ 0 := by
  rw [degree_sparse (sparseShape_single c ch)]
  simp

/-- A node with a single child below a short enough prefix is well formed. -/
theorem wf_single {p : List UInt8} (hp : p.length ≤ nnTriePrefixMax) (r : UInt32) (c : UInt8)
    {ch : Node} (hch : ch.Wf) : Node.Wf ⟨r, p, .sparse [(c, some ch)]⟩ := by
  refine .intro hp (sparseShape_single c ch) (fun _ => degree_sparse_cons_ne_zero c ch) ?_
  intro d m hm
  rw [next_sparse_cons] at hm
  split_ifs at hm
  · cases hm; exact hch
  · cases hm

/-! ### Steps 3 to 5 -/

theorem toNat_add_one {r : UInt32} (h : r.toNat + 1 < 2 ^ 32) : (r + 1).toNat = r.toNat + 1 := by
  rw [UInt32.toNat_add]
  exact Nat.mod_eq_of_lt h

theorem add_one_ne_zero {r : UInt32} (h : r.toNat + 1 < 2 ^ 32) : r + 1 ≠ 0 := by
  intro h0
  have := congrArg UInt32.toNat h0
  rw [toNat_add_one h] at this
  simp at this

/-- Step 5 adds one to the count of the node's own string. -/
theorem step5_spec {n : Node} (hr : n.refcount.toNat + 1 < 2 ^ 32) :
    count (some (step5 n).1) = Function.update (count (some n)) n.pfx (n.refcount.toNat + 1) ∧
      (step5 n).2 = if n.refcount.toNat = 0 then 1 else 0 := by
  constructor
  · have hup := update_under n.pfx [] (fork n.refcount.toNat fun c => count (n.kids.next c))
      (n.refcount.toNat + 1)
    rw [List.append_nil, update_fork_nil] at hup
    rw [count_some n, hup, count_some, step5, toNat_add_one hr]
  · have hiff : n.refcount + 1 = 1 ↔ n.refcount.toNat = 0 := by
      rw [← UInt32.toNat_inj, toNat_add_one hr]
      simp
    simp only [step5, hiff]

theorem step5_wf {n : Node} (hr : n.refcount.toNat + 1 < 2 ^ 32)
    (hp : n.pfx.length ≤ nnTriePrefixMax) (hs : n.kids.Shape)
    (hc : ∀ c m, n.kids.next c = some m → m.Wf) : (step5 n).1.Wf :=
  .intro hp hs (fun h => absurd h (add_one_ne_zero hr)) hc

/-- Step 4 makes a chain of nodes that holds its topic once and nothing else. -/
theorem step4_spec (data : List UInt8) :
    (step4 data).1.Wf ∧ count (some (step4 data).1) = Function.update (0 : List UInt8 → ℕ) data 1 ∧
      (step4 data).2 = 1 := by
  induction hn : data.length using Nat.strong_induction_on generalizing data with
  | _ n ih =>
    rw [step4]
    split
    · rename_i hdrop
      have hlen : data.length ≤ nnTriePrefixMax := List.drop_eq_nil_iff.1 hdrop
      have hzero : count (some ⟨0, data, .sparse []⟩) = 0 := by
        rw [count_some]
        have : fork (0 : UInt32).toNat (fun c => count ((Kids.sparse []).next c)) = 0 := by
          funext t
          cases t <;> simp
        simp only [this, under_zero]
      obtain ⟨h1, h2⟩ := step5_spec (n := ⟨0, data, .sparse []⟩) (by simp)
      refine ⟨step5_wf (by simp) hlen ⟨by simp, by simp, by simp⟩ (by simp), ?_, h2⟩
      rw [h1, hzero]
      rfl
    · rename_i c rest hdrop
      have hlt : rest.length < n := by
        have := congrArg List.length hdrop
        simp only [List.length_drop, List.length_cons] at this
        omega
      obtain ⟨hwf, hcount, hrc⟩ := ih _ hlt rest rfl
      refine ⟨wf_single (by simp) 0 c hwf, ?_, hrc⟩
      have hdata : data = (data.take nnTriePrefixMax ++ [c]) ++ rest := by
        rw [List.append_assoc, List.singleton_append, ← hdrop, List.take_append_drop]
      rw [count_single 0 _ c _ rfl, hcount, ← update_under, under_zero, ← hdata]

/-- The adjusted node keeps its reference count unless its sparse array was full. -/
theorem adjustNode_eq {n : Node} (h : n.kids.Shape) (c : UInt8) :
    adjustNode n c = ({ refcount := if degree n.kids.next = nnTrieSparseMax then 0 else n.refcount
                        pfx := n.pfx
                        kids := (n.kids.adjust c).1 }, (n.kids.adjust c).2) := by
  obtain ⟨r, p, k⟩ := n
  cases k with
  | sparse cs =>
    have h : SparseShape cs := h
    have hle := h.length_le
    simp only [adjustNode, degree_sparse h]
    by_cases hl : cs.length < nnTrieSparseMax
    · rw [if_pos hl, if_neg (by omega)]
    · rw [if_neg hl, if_pos (by omega)]
  | dense mn mx nbr slots =>
    obtain ⟨-, -, hnbr, hlt, -, -⟩ := denseShape_iff_next.1 (show DenseShape mn mx nbr slots from h)
    simp only [adjustNode]
    rw [if_neg (by omega)]

/-- Step 3 with a character to add: the topic is new, and the node's own count survives unless the
node is converted. -/
theorem step3_spec {n : Node} (h : n.Wf) {c : UInt8} (hc : n.kids.next c = none)
    (rest : List UInt8) :
    ∃ n', step3 n (c :: rest) = .ok (n', 1) ∧ n'.Wf ∧
      (n.refcount = 0 ∨ degree n.kids.next ≠ nnTrieSparseMax →
        count (some n') = Function.update (count (some n)) (n.pfx ++ c :: rest) 1) := by
  obtain ⟨hwf, hcount, hrc⟩ := step4_spec rest
  have hadj := adjust_adjusted h.shape hc
  have hnext := next_adjust_setChild h.shape hc (step4 rest).1
  have hnull : ((n.kids.adjust c).1.child (n.kids.adjust c).2).isNone := by
    have := congrFun hadj.next c
    rw [hc, Kids.next, hadj.index] at this
    exact Option.isNone_iff_eq_none.2 this
  refine ⟨{ refcount := if degree n.kids.next = nnTrieSparseMax then 0 else n.refcount
            pfx := n.pfx
            kids := (n.kids.adjust c).1.setChild (n.kids.adjust c).2 (some (step4 rest).1) },
    ?_, .intro h.pfx_le (shape_adjust_setChild h.shape hc _) ?_ ?_, fun hkeep => ?_⟩
  · rw [step3, adjustNode_eq h.shape]
    simp only
    rw [nnAssert_of hnull, hrc]
    rfl
  · intro _
    rw [hnext, degree_update_some hc]
    omega
  · intro d m hm
    rw [hnext] at hm
    by_cases hd : d = c
    · subst hd
      rw [Function.update_self] at hm
      cases hm
      exact hwf
    · rw [Function.update_of_ne hd] at hm
      exact h.child d m hm
  · have hr : (if degree n.kids.next = nnTrieSparseMax then 0 else n.refcount) = n.refcount := by
      split_ifs with hdeg
      · exact (hkeep.resolve_right (not_not_intro hdeg)).symm
      · rfl
    rw [count_some, count_some, update_under, update_fork_cons]
    simp only [hr, hnext, hc, count_none, ← hcount]
    congr 2
    funext d
    by_cases hd : d = c
    · subst hd; simp
    · simp [hd]

/-- A subscribed node that gets its ninth child has its fan-out cross the limit of a sparse
array. -/
theorem not_steady_of_convert {n : Node} (h : n.Wf) {c : UInt8} (hc : n.kids.next c = none)
    (rest : List UInt8) (hr : n.refcount ≠ 0) (hdeg : degree n.kids.next = nnTrieSparseMax) :
    ¬ Steady nnTrieSparseMax (count (some n))
      (Function.update (count (some n)) (n.pfx ++ c :: rest) 1) := by
  intro hst
  have hself : count (some n) n.pfx ≠ 0 := by
    rw [count_some, under_apply_self, fork_nil]
    exact fun h => hr (UInt32.toNat_inj.1 h)
  have hself' : Function.update (count (some n)) (n.pfx ++ c :: rest) 1 n.pfx ≠ 0 := by
    rwa [Function.update_of_ne (by simp)]
  have hins : follow (Function.update (count (some n)) (n.pfx ++ c :: rest) 1) n.pfx =
      insert c (follow (count (some n)) n.pfx) := by
    ext d
    rw [Set.mem_insert_iff, mem_follow, mem_follow]
    by_cases hd : d = c
    · subst hd
      simpa using ⟨rest, by simp⟩
    · simp [hd]
  have hnot : c ∉ follow (count (some n)) n.pfx := by
    rw [count_some, follow_under_fork_self]
    simp [hc]
  have hfin : (follow (count (some n)) n.pfx).Finite := Set.toFinite _
  have := hst n.pfx hself hself'
  rw [hins, Set.ncard_insert_of_notMem hnot hfin, h.follow_ncard, hdeg] at this
  omega

/-! ### The whole walk -/

/-- What a subscription to `t` does to a slot: it keeps the invariant and, as long as no subscribed
topic is converted, counts `t` once more and reports whether it is fresh. -/
structure Subscribed (slot : Option Node) (t : List UInt8) (r : Node × ℤ) : Prop where
  wf : r.1.Wf
  count_eq :
    Steady nnTrieSparseMax (count slot) (Function.update (count slot) t (count slot t + 1)) →
    count (some r.1) = Function.update (count slot) t (count slot t + 1)
  rc : r.2 = if count slot t = 0 then 1 else 0

theorem Subscribed.congr {slot slot' : Option Node} {t : List UInt8} {r : Node × ℤ}
    (h : Subscribed slot t r) (hc : count slot = count slot') : Subscribed slot' t r :=
  ⟨h.wf, hc ▸ h.count_eq, hc ▸ h.rc⟩

theorem subscribed_step3 {n : Node} (h : n.Wf) {c : UInt8} (hc : n.kids.next c = none)
    (rest : List UInt8) :
    ∃ r, step3 n (c :: rest) = .ok r ∧ Subscribed (some n) (n.pfx ++ c :: rest) r := by
  obtain ⟨n', heq, hwf, hcount⟩ := step3_spec h hc rest
  have hzero : count (some n) (n.pfx ++ c :: rest) = 0 := by
    rw [count_some, under_apply_append, fork_cons, hc, count_none]
    rfl
  refine ⟨(n', 1), heq, hwf, fun hst => ?_, by simp [hzero]⟩
  rw [hzero, Nat.zero_add] at hst ⊢
  apply hcount
  by_contra hlose
  rw [not_or, not_not] at hlose
  exact not_steady_of_convert h hc rest hlose.1 hlose.2 hst

theorem subscribed_step5 {n : Node} (h : n.Wf) (hlt : n.refcount.toNat + 1 < 2 ^ 32) :
    Subscribed (some n) n.pfx (step5 n) := by
  have hself : count (some n) n.pfx = n.refcount.toNat := by
    rw [count_some, under_apply_self, fork_nil]
  obtain ⟨h1, h2⟩ := step5_spec hlt
  exact ⟨step5_wf hlt h.pfx_le h.shape h.child, fun _ => by rw [hself, h1], by rw [hself, h2]⟩

/-- Part of the prefix matches: the node is split first. -/
theorem subscribed_split {n : Node} (h : n.Wf) {pos : ℕ} (hpos : pos < n.pfx.length)
    {data : List UInt8} (hdata : data = n.pfx.take pos ++ data.drop pos)
    (hne : (data.drop pos).head? ≠ n.pfx[pos]?) :
    ∃ r, (splitPrefix n pos n.pfx[pos] >>= fun node => step3 node (data.drop pos)) = .ok r ∧
      Subscribed (some n) data r := by
  obtain ⟨ch, hsplit, hch, hcount⟩ := splitPrefix_spec h hpos
  have hplen := h.pfx_le
  have hnode : Node.Wf ⟨0, n.pfx.take pos, .sparse [(n.pfx[pos], some ch)]⟩ :=
    wf_single (by rw [List.length_take]; omega) 0 _ hch
  have hsame : count (some ⟨0, n.pfx.take pos, .sparse [(n.pfx[pos], some ch)]⟩) =
      count (some n) := by
    rw [count_single 0 _ _ _ rfl, hcount]
  rw [hsplit, ok_bind]
  cases hd : data.drop pos with
  | nil =>
    have hpfx : data = n.pfx.take pos := by rw [hd, List.append_nil] at hdata; exact hdata
    refine ⟨_, rfl, Subscribed.congr ?_ hsame⟩
    rw [hpfx]
    exact subscribed_step5 hnode (by simp)
  | cons c rest =>
    have hc : (Kids.sparse [(n.pfx[pos], some ch)]).next c = none := by
      rw [hd, List.head?_cons, List.getElem?_eq_getElem hpos, ne_eq, Option.some.injEq] at hne
      rw [next_sparse_cons, if_neg (Ne.symm hne)]
      rfl
    obtain ⟨r, hr, hsub⟩ := subscribed_step3 hnode hc rest
    refine ⟨r, hr, Subscribed.congr ?_ hsame⟩
    rw [hdata, hd]
    exact hsub

/-- A subscription below a child. -/
theorem subscribed_child {n ch : Node} (h : n.Wf) {c : UInt8} {i : ℕ} (hi : n.kids.index c = some i)
    (hch : n.kids.child i = some ch) {rest : List UInt8} {r : Node × ℤ}
    (hsub : Subscribed (some ch) rest r) :
    Subscribed (some n) (n.pfx ++ c :: rest)
      ({ n with kids := n.kids.setChild i (some r.1) }, r.2) := by
  have hnext : n.kids.next c = some ch := by rw [Kids.next, hi]; exact hch
  have hset := next_setChild h.shape.fits hi (some r.1)
  have hval : count (some n) (n.pfx ++ c :: rest) = count (some ch) rest := by
    rw [count_some, under_apply_append, fork_cons, hnext]
  refine ⟨.intro h.pfx_le (shape_setChild h.shape hi (by rw [hnext]; simp) _) ?_ ?_,
    fun hst => ?_, ?_⟩
  · intro hr
    have := h.leaf hr
    simp only [hset]
    rwa [degree_update_some_of_ne_none (by rw [hnext]; simp)]
  · intro d m hm
    simp only [hset] at hm
    by_cases hd : d = c
    · subst hd
      rw [Function.update_self] at hm
      cases hm
      exact hsub.wf
    · rw [Function.update_of_ne hd] at hm
      exact h.child d m hm
  · rw [hval] at hst ⊢
    rw [count_some n, update_under, update_fork_cons] at hst ⊢
    have hbr := hst.branch (c := c)
    simp only [Function.update_self, hnext] at hbr
    rw [count_some]
    simp only [hset, hnext, ← hsub.count_eq hbr]
    congr 2
    funext d
    by_cases hd : d = c
    · subst hd; simp
    · simp [hd]
  · rw [hval]; exact hsub.rc

/-- A subscription to a well-formed trie, from any of its slots. -/
theorem subscribeSlot_spec {slot : Option Node} (h : SlotWf slot) (t : List UInt8)
    (hlt : count slot t + 1 < 2 ^ 32) :
    ∃ r, subscribeSlot slot t = .ok r ∧ Subscribed slot t r := by
  -- the walk goes one child deeper with at least one byte less
  induction hn : t.length using Nat.strong_induction_on generalizing slot t with
  | _ len ih =>
    cases slot with
    | none =>
      obtain ⟨hwf, hcount, hrc⟩ := step4_spec t
      refine ⟨step4 t, by rw [subscribeSlot], hwf, fun _ => ?_, ?_⟩
      · simpa using hcount
      · simpa using hrc
    | some n =>
      have hnwf := h n rfl
      rw [subscribeSlot]
      by_cases hp : n.pfx <+: t
      · obtain ⟨r, rfl⟩ := hp
        rw [nnNodeCheckPrefix_append, ok_bind, dif_neg (lt_irrefl _)]
        split
        · rename_i hdrop
          rw [List.drop_left] at hdrop
          subst hdrop
          rw [List.append_nil] at hlt ⊢
          rw [count_some, under_apply_self, fork_nil] at hlt
          exact ⟨_, rfl, subscribed_step5 hnwf hlt⟩
        · rename_i c rest hdrop
          rw [List.drop_left] at hdrop
          subst hdrop
          split
          · rename_i hidx
            exact subscribed_step3 hnwf (by rw [Kids.next, hidx]; rfl) rest
          · rename_i i hidx
            split
            · rename_i hchild
              exact subscribed_step3 hnwf (by rw [Kids.next, hidx]; exact hchild) rest
            · rename_i ch hchild
              have hnext : n.kids.next c = some ch := by rw [Kids.next, hidx]; exact hchild
              rw [count_some, under_apply_append, fork_cons, hnext] at hlt
              obtain ⟨r, hr, hsub⟩ := ih rest.length
                (by rw [← hn, List.length_append, List.length_cons]; omega)
                (hnwf.child c ch hnext).slot rest hlt rfl
              rw [hr, ok_bind]
              exact ⟨_, rfl, subscribed_child hnwf hidx hchild hsub⟩
      · obtain ⟨pos, hpos, hltp, hdata, hne⟩ := nnNodeCheckPrefix_lt_of_not hp
        rw [hpos, ok_bind, dif_pos hltp]
        exact subscribed_split hnwf hltp hdata hne

end NanoSocket.PubSub

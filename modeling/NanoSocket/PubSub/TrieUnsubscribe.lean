import NanoSocket.PubSub.TrieSubscribe

/-!
# `nn_trie_unsubscribe`

`nn_node_unsubscribe` recurses to the node of the topic, decrements its reference count and prunes
the trie on the way back: an empty node is deleted, its character is taken out of the parent's child
array, and a node with a single child is merged with it.

`nnNodeUnsubscribe_spec` is the case of a subscribed topic: the invariant of the nodes is kept, and
the count of the topic and no other drops by one, as long as no subscribed topic loses its ninth
continuation: the conversion of a dense array into a sparse one starts from a zero reference count.
-/

namespace NanoSocket.PubSub

open Words

/-- The error code returned for a subscription that does not exist. -/
def einval : ℤ := 22

/-- The number stored in `type`. -/
def Kids.type {N : Type} : Kids N → ℕ
  | .sparse children => children.length
  | .dense .. => nnTrieSparseMax + 1

/-- The label `found`: we are at the end of the subscription. -/
def found : Option Node → Except Fault (Option Node × ℤ)
  | none => .ok (none, -einval)
  | some self =>
    -- the subscription doesn't exist
    if !nnNodeHasSubscribers self then .ok (some self, -einval)
    else do
      let self := { self with refcount := self.refcount - 1 }
      if self.refcount = 0 then
        if self.kids.type = 0 then return (none, 1)
        return (some (← nnNodeCompact self), 1)
      return (some self, 0)

/-- The child for `data` was destroyed: take it out of the child array and compact the node. -/
def removeChild (self : Node) (data : UInt8) : Except Fault (Option Node × ℤ) :=
  match self.kids with
  | .sparse children => do
    let self := { self with kids := .sparse (← dropSparse children data) }
    if self.kids.type = 0 ∧ !nnNodeHasSubscribers self then return (none, 1)
    return (some (← nnNodeCompact self), 1)
  | .dense mn mx nbr slots =>
    if nbr > nnTrieSparseMax + 1 then
      if data = mn then .ok (some { self with kids := trimLeft mn mx nbr slots }, 1)
      else if data = mx then .ok (some { self with kids := trimRight mn mx nbr slots }, 1)
      else .ok (some { self with kids := .dense mn mx (nbr - 1) slots }, 1)
    else do
      -- convert the dense array into a sparse array, in a new node
      let children := sparsify mn 0 slots
      nnAssert (children.length = nnTrieSparseMax)
      return (some { refcount := 0, pfx := self.pfx, kids := .sparse children }, 1)

/-- The way back up: what follows the recursive call for the child at `index`, which returned
`r`. -/
def ascend (self : Node) (index : ℕ) (data : UInt8) (r : Option Node × ℤ) :
    Except Fault (Option Node × ℤ) :=
  let self := { self with kids := self.kids.setChild index r.1 }
  -- the subscription wasn't really removed
  if r.2 = 0 then .ok (some self, 0)
  -- the following node remains in place
  else if r.1.isSome then .ok (some self, 1)
  else removeChild self data

/-- `nn_node_unsubscribe`: the new content of the slot `*self` and the return value. -/
def nnNodeUnsubscribe : Option Node → List UInt8 → Except Fault (Option Node × ℤ)
  | self, [] => found self
  | none, _ :: _ => .error .nullDeref
  | some self, d :: ds => do
    let pos ← nnNodeCheckPrefix self.pfx (d :: ds) (d :: ds).length
    -- the prefix does not match the data
    if pos ≠ self.pfx.length then return (some self, 0)
    match _h : (d :: ds).drop self.pfx.length with
    | [] => found (some self)
    | c :: rest =>
      match self.kids.index c with
      | none => return (some self, 0)
      | some i => do ascend self i c (← nnNodeUnsubscribe (self.kids.child i) rest)
  termination_by _ data => data.length
  decreasing_by
    have := congrArg List.length _h
    simp only [List.length_drop, List.length_cons] at this
    simp only [List.length_cons]
    omega

/-- `nn_trie_unsubscribe`. -/
def nnTrieUnsubscribe (root : Option Node) (data : List UInt8) : Except Fault (Option Node × ℤ) :=
  nnNodeUnsubscribe root data

/-! ### Unsubscribing a subscribed topic -/

/-- What unsubscribing a subscribed topic `t` does to a slot. -/
structure Unsubscribed (slot : Option Node) (t : List UInt8) (r : Option Node × ℤ) : Prop where
  wf : SlotWf r.1
  count_eq :
    Steady nnTrieSparseMax (count slot) (Function.update (count slot) t (count slot t - 1)) →
    count r.1 = Function.update (count slot) t (count slot t - 1)
  rc : r.2 = if count slot t = 1 then 1 else 0
  live : r.2 = 0 → r.1.isSome

theorem type_eq_zero_iff {N : Type} {k : Kids N} (h : k.Shape) :
    k.type = 0 ↔ degree k.next = 0 := by
  cases k with
  | sparse cs => rw [degree_sparse (show SparseShape cs from h)]; rfl
  | dense mn mx nbr slots =>
    obtain ⟨-, -, hnbr, hlt, -, -⟩ := denseShape_iff_next.1 (show DenseShape mn mx nbr slots from h)
    simp only [Kids.type]
    omega

theorem next_eq_none_of_degree {N : Type} {nx : UInt8 → Option N} (h : degree nx = 0) (c : UInt8) :
    nx c = none := by
  by_contra hc
  have hmem : c ∈ Finset.univ.filter fun c => (nx c).isSome := by
    simpa [Option.isSome_iff_ne_none] using hc
  rw [Finset.card_eq_zero.1 h] at hmem
  exact absurd hmem (Finset.notMem_empty c)

/-- A node without subscribers and children holds no topic. -/
theorem count_eq_zero {n : Node} (hr : n.refcount = 0) (hd : ∀ c, n.kids.next c = none) :
    count (some n) = 0 := by
  have hfork : fork n.refcount.toNat (fun c => count (n.kids.next c)) = 0 := by
    funext t
    cases t <;> simp [hr, hd]
  rw [count_some, hfork, under_zero]

theorem count_pfx (n : Node) : count (some n) n.pfx = n.refcount.toNat := by
  rw [count_some, under_apply_self, fork_nil]

theorem toNat_sub_one {r : UInt32} (h : r ≠ 0) : (r - 1).toNat = r.toNat - 1 := by
  have h1 : (1 : UInt32) ≤ r := by
    rw [UInt32.le_iff_toNat_le]
    exact Nat.one_le_iff_ne_zero.2 fun h0 => h (UInt32.toNat_inj.1 h0)
  rw [UInt32.toNat_sub_of_le _ _ h1]
  rfl

/-- At the node of the topic. -/
theorem unsubscribed_found {n : Node} (h : n.Wf) (hr : n.refcount ≠ 0) :
    ∃ r, found (some n) = .ok r ∧ Unsubscribed (some n) n.pfx r := by
  have hsub := toNat_sub_one hr
  have hcount : count (some { n with refcount := n.refcount - 1 }) =
      Function.update (count (some n)) n.pfx (n.refcount.toNat - 1) := by
    have hup := update_under n.pfx [] (fork n.refcount.toNat fun c => count (n.kids.next c))
      (n.refcount.toNat - 1)
    rw [List.append_nil, update_fork_nil] at hup
    rw [count_some n, hup, count_some, hsub]
  have hs : nnNodeHasSubscribers n = true := by simpa [nnNodeHasSubscribers] using hr
  have hpos : n.refcount.toNat ≠ 0 := fun h0 => hr (UInt32.toNat_inj.1 h0)
  have hone : n.refcount - 1 = 0 ↔ n.refcount.toNat = 1 := by
    rw [← UInt32.toNat_inj, hsub, show (0 : UInt32).toNat = 0 from rfl]
    omega
  simp only [found, hs, Bool.not_true, Bool.false_eq_true, if_false]
  split_ifs with h0 htype
  · refine ⟨_, rfl, slotWf_none, fun _ => ?_, ?_, by simp⟩
    · rw [count_pfx, ← hcount]
      have hzero := count_eq_zero (n := { n with refcount := n.refcount - 1 }) h0
        (next_eq_none_of_degree ((type_eq_zero_iff h.shape).1 htype))
      exact count_none.trans hzero.symm
    · rw [count_pfx, if_pos (hone.1 h0)]
  · have hwf : Node.Wf { n with refcount := n.refcount - 1 } :=
      .intro h.pfx_le h.shape (fun _ hdeg => htype ((type_eq_zero_iff h.shape).2 hdeg)) h.child
    obtain ⟨n', heq, hwf', hcount'⟩ := nnNodeCompact_spec hwf
    refine ⟨(some n', 1), by rw [heq]; rfl, hwf'.slot, fun _ => ?_, ?_, fun _ => rfl⟩
    · rw [count_pfx, ← hcount, ← hcount']
    · rw [count_pfx, if_pos (hone.1 h0)]
  · refine ⟨_, rfl, Node.Wf.slot (.intro h.pfx_le h.shape (fun hz => absurd hz h0) h.child),
      fun _ => ?_, ?_, fun _ => rfl⟩
    · rw [count_pfx, ← hcount]
    · rw [count_pfx, if_neg (fun h1 => h0 (hone.2 h1))]

/-- Replacing the child for `c` by a subtree that holds `count ch` changes the counts below `c`. -/
theorem count_replace {n : Node} {k : Kids Node} {c : UInt8} {ch : Option Node} {rest : List UInt8}
    {v : ℕ} (hnext : k.next = Function.update n.kids.next c ch)
    (hch : count ch = Function.update (count (n.kids.next c)) rest v) :
    count (some { n with kids := k }) =
      Function.update (count (some n)) (n.pfx ++ c :: rest) v := by
  rw [count_some n, update_under, update_fork_cons, count_some]
  congr 2
  funext d
  simp only [hnext]
  by_cases hd : d = c
  · subst hd
    rw [Function.update_self, Function.update_self, hch]
  · rw [Function.update_of_ne hd, Function.update_of_ne hd]

theorem child_replace {n : Node} (h : n.Wf) {k : Kids Node} {c : UInt8} {ch : Option Node}
    (hnext : k.next = Function.update n.kids.next c ch) (hch : SlotWf ch) (d : UInt8) (m : Node)
    (hm : k.next d = some m) : m.Wf := by
  rw [hnext] at hm
  by_cases hd : d = c
  · subst hd
    rw [Function.update_self] at hm
    exact hch m hm
  · rw [Function.update_of_ne hd] at hm
    exact h.child d m hm

/-- The child remains in place. -/
theorem unsubscribed_child {n ch : Node} (h : n.Wf) {c : UInt8} {i : ℕ}
    (hi : n.kids.index c = some i) (hch : n.kids.child i = some ch) {rest : List UInt8} {m : Node}
    {rc : ℤ} (hsub : Unsubscribed (some ch) rest (some m, rc)) :
    Unsubscribed (some n) (n.pfx ++ c :: rest)
      (some { n with kids := n.kids.setChild i (some m) }, rc) := by
  have hnext : n.kids.next c = some ch := by rw [Kids.next, hi]; exact hch
  have hsome : n.kids.next c ≠ none := by rw [hnext]; simp
  have hset := next_setChild h.shape.fits hi (some m)
  have hval : count (some n) (n.pfx ++ c :: rest) = count (some ch) rest := by
    rw [count_some, under_apply_append, fork_cons, hnext]
  refine ⟨Node.Wf.slot (.intro h.pfx_le (shape_setChild h.shape hi hsome m) (fun hr => ?_)
    (child_replace h hset hsub.wf)), fun hst => ?_, by rw [hval]; exact hsub.rc, fun _ => rfl⟩
  · simp only [hset]
    rw [degree_update_some_of_ne_none hsome]
    exact h.leaf hr
  · rw [hval] at hst ⊢
    refine count_replace hset ?_
    rw [count_some n, update_under, update_fork_cons] at hst
    have hbr := hst.branch (c := c)
    simp only [Function.update_self, hnext] at hbr
    rw [hnext]
    exact hsub.count_eq hbr

/-- Taking out a character whose slot is already `NULL`: the array keeps the other children, and
the node's own count survives unless the node is converted. -/
structure Removed (n : Node) (c : UInt8) (k : Kids Node) (slot : Option Node) : Prop where
  next : k.next = Function.update n.kids.next c none
  wf : SlotWf slot
  count_eq : n.refcount = 0 ∨ degree n.kids.next ≠ nnTrieSparseMax + 1 →
    count slot = count (some { n with kids := k })
  dead : slot = none → n.refcount = 0 ∧ degree k.next = 0

theorem wf_of_removed {n : Node} (h : n.Wf) {c : UInt8} {k : Kids Node} (hk : k.Shape)
    (hnext : k.next = Function.update n.kids.next c none) {r : UInt32}
    (hleaf : r = 0 → degree k.next ≠ 0) : Node.Wf { refcount := r, pfx := n.pfx, kids := k } :=
  .intro h.pfx_le hk hleaf (child_replace h hnext slotWf_none)

theorem removeChild_sparse {n : Node} (h : n.Wf) {c : UInt8} {cs cs₁ : List (UInt8 × Option Node)}
    (hk : n.kids = .sparse cs) (hkeys : cs₁.map Prod.fst = cs.map Prod.fst)
    (hptr : ∀ p ∈ cs₁, p.1 ≠ c → p.2 ≠ none) (hc : n.kids.next c ≠ none)
    (hset : (Kids.sparse cs₁).next = Function.update n.kids.next c none) :
    ∃ k slot, removeChild { n with kids := .sparse cs₁ } c = .ok (slot, 1) ∧
      Removed n c k slot := by
  have hs : SparseShape cs := by have := h.shape; rwa [hk] at this
  have hmem : c ∈ cs₁.map Prod.fst := by
    rw [hkeys]
    by_contra hn
    exact hc (by rw [hk, (hs.next_eq_none_iff c).2 hn])
  obtain ⟨cs', hdrop, hnext, hnd, hlen, hsub⟩ := dropSparse_spec (hkeys ▸ hs.nodup) hmem
    (by rw [hset, Function.update_self])
  have hlen₁ : cs₁.length = cs.length := by
    rw [← List.length_map Prod.fst, hkeys, List.length_map]
  have hle := hs.length_le
  have hshape : SparseShape cs' := ⟨by omega, hnd, fun p hp => hptr p (hsub p hp).1 (hsub p hp).2⟩
  have hnext' : (Kids.sparse cs').next = Function.update n.kids.next c none := hnext.trans hset
  have hdeg := degree_sparse hshape
  simp only [removeChild, hdrop, ok_bind, Kids.type, pure_eq_ok]
  by_cases hdead : cs'.length = 0 ∧ (!nnNodeHasSubscribers { n with kids := .sparse cs' }) = true
  · have hr : n.refcount = 0 := by simpa [nnNodeHasSubscribers] using hdead.2
    refine ⟨.sparse cs', none, if_pos hdead, hnext', slotWf_none, fun _ => ?_,
      fun _ => ⟨hr, hdeg.trans hdead.1⟩⟩
    rw [count_none]
    exact (count_eq_zero (n := { n with kids := .sparse cs' }) hr
      (next_eq_none_of_degree (hdeg.trans hdead.1))).symm
  · have hwf : Node.Wf { n with kids := .sparse cs' } := by
      refine wf_of_removed h (k := .sparse cs') hshape hnext' fun hr hd =>
        hdead ⟨hdeg.symm.trans hd, ?_⟩
      simpa [nnNodeHasSubscribers] using hr
    obtain ⟨n', heq, hwf', hcount⟩ := nnNodeCompact_spec hwf
    exact ⟨.sparse cs', some n', (if_neg hdead).trans (by rw [heq]; rfl), hnext', hwf'.slot,
      fun _ => hcount, by rintro ⟨⟩⟩

theorem removeChild_dense {n : Node} (h : n.Wf) {c mn mx : UInt8} {nbr : ℕ}
    {slots slots₁ : List (Option Node)} (hk : n.kids = .dense mn mx nbr slots)
    (hlen : slots₁.length = mx.toNat - mn.toNat + 1) (hc : n.kids.next c ≠ none)
    (hset : (Kids.dense mn mx nbr slots₁).next = Function.update n.kids.next c none) :
    ∃ k slot, removeChild { n with kids := .dense mn mx nbr slots₁ } c = .ok (slot, 1) ∧
      Removed n c k slot := by
  have hs : DenseShape mn mx nbr slots := by have := h.shape; rwa [hk] at this
  obtain ⟨hle, -, hnbr, hlt, hfirst, hlast⟩ := denseShape_iff_next.1 hs
  rw [← hk] at hnbr hfirst hlast
  have hdeg := degree_update_none hc
  rw [← hset, ← hnbr] at hdeg
  -- an end of the range other than the removed character keeps its child
  have hend : ∀ d, n.kids.next d ≠ none → d ≠ c → (Kids.dense mn mx nbr slots₁).next d ≠ none := by
    intro d hd hdc
    rwa [hset, Function.update_of_ne hdc]
  have hdone : ∀ k : Kids Node, k.next = (Kids.dense mn mx nbr slots₁).next → k.Shape →
      nnTrieSparseMax < degree (Kids.dense mn mx nbr slots₁).next →
      Removed n c k (some { n with kids := k }) := by
    intro k hnext hshape hgt
    exact ⟨hnext.trans hset,
      (wf_of_removed h hshape (hnext.trans hset) fun _ => by rw [hnext]; omega).slot,
      fun _ => rfl, by rintro ⟨⟩⟩
  unfold removeChild
  simp only
  split_ifs with hbig hmin hmax
  · subst hmin
    have hne : mx ≠ c := by
      rintro rfl
      have hcount := List.countP_le_length (p := fun s : Option Node => s.isSome) (l := slots₁)
      rw [← @degree_dense Node mx mx nbr slots₁ hle hlen] at hcount
      rw [Nat.sub_self] at hlen
      have hmax : nnTrieSparseMax = 8 := rfl
      omega
    obtain ⟨hnext, hshape⟩ := trimLeft_spec hle hlen hdeg.symm (by omega) (hend mx hlast hne)
    exact ⟨_, _, rfl, hdone _ hnext hshape (by omega)⟩
  · subst hmax
    obtain ⟨hnext, hshape⟩ := trimRight_spec hle hlen hdeg.symm (by omega)
      (hend mn hfirst fun h => hmin h.symm)
    exact ⟨_, _, rfl, hdone _ hnext hshape (by omega)⟩
  · have hnext : (Kids.dense mn mx (nbr - 1) slots₁).next = (Kids.dense mn mx nbr slots₁).next := by
      funext d
      simp only [next_dense]
    refine ⟨_, _, rfl, hdone _ hnext ?_ (by omega)⟩
    refine denseShape_iff_next.2 ⟨hle, hlen, by rw [hnext]; omega, by omega, ?_, ?_⟩
    · rw [hnext]; exact hend mn hfirst fun h => hmin h.symm
    · rw [hnext]; exact hend mx hlast fun h => hmax h.symm
  · obtain ⟨hnext, hlen', hshape⟩ := @sparsify_spec Node mn mx nbr slots₁ hle hlen (by omega)
    rw [nnAssert_of hlen']
    refine ⟨_, _, rfl, hnext.trans hset,
      (wf_of_removed h (k := .sparse _) hshape (hnext.trans hset) fun _ => ?_).slot,
      fun hkeep => ?_, by rintro ⟨⟩⟩
    · rw [degree_sparse hshape, hlen']
      decide
    · rw [hkeep.resolve_right (not_not_intro (by omega))]

/-- Taking out the character of a destroyed child, for either kind of array. -/
theorem removeChild_spec {n : Node} (h : n.Wf) {c : UInt8} {i : ℕ} (hi : n.kids.index c = some i)
    (hc : n.kids.next c ≠ none) :
    ∃ k slot, removeChild { n with kids := n.kids.setChild i none } c = .ok (slot, 1) ∧
      Removed n c k slot := by
  have hset := next_setChild h.shape.fits hi none
  have hfits := fits_setChild h.shape.fits i none
  cases hk : n.kids with
  | sparse cs =>
    rw [hk] at hset
    have hs : SparseShape cs := by have := h.shape; rwa [hk] at this
    have hkeys : (cs.modify i fun p => (p.1, none)).map Prod.fst = cs.map Prod.fst := by
      apply List.ext_getElem?
      intro j
      rw [List.getElem?_map, List.getElem?_map, List.getElem?_modify]
      by_cases hj : i = j
      · subst hj
        cases cs[i]? <;> simp
      · simp [hj]
    refine removeChild_sparse h hk hkeys (fun p hp hpc hnone => ?_) hc (hk ▸ hset)
    have hmem : p.1 ∈ cs.map Prod.fst := hkeys ▸ List.mem_map_of_mem hp
    have hnext := next_sparse_of_mem (hkeys ▸ hs.nodup) hp
    rw [hnone, show (Kids.sparse (cs.modify i fun p => (p.1, none))).next = _ from hset,
      Function.update_of_ne hpc] at hnext
    exact (hs.next_eq_none_iff p.1).1 hnext hmem
  | dense mn mx nbr slots =>
    rw [hk] at hset hfits
    exact removeChild_dense h hk hfits hc (hk ▸ hset)

/-- A subscribed node that loses its ninth child has its fan-out cross the limit of a sparse
array. -/
theorem not_steady_of_sparsify {n : Node} (h : n.Wf) {c : UInt8} {rest : List UInt8}
    (hone : count (n.kids.next c) rest ≠ 0)
    (hgone : Function.update (count (n.kids.next c)) rest 0 = 0) (hr : n.refcount ≠ 0)
    (hdeg : degree n.kids.next = nnTrieSparseMax + 1) :
    ¬ Steady nnTrieSparseMax (count (some n))
      (Function.update (count (some n)) (n.pfx ++ c :: rest) 0) := by
  intro hst
  have hself : count (some n) n.pfx ≠ 0 := by
    rw [count_pfx]
    exact fun h => hr (UInt32.toNat_inj.1 h)
  have hself' : Function.update (count (some n)) (n.pfx ++ c :: rest) 0 n.pfx ≠ 0 := by
    rwa [Function.update_of_ne (by simp)]
  have hmem : c ∈ follow (count (some n)) n.pfx := by
    rw [mem_follow]
    exact ⟨rest, by rwa [count_some, under_apply_append, fork_cons]⟩
  have hdiff : follow (Function.update (count (some n)) (n.pfx ++ c :: rest) 0) n.pfx =
      follow (count (some n)) n.pfx \ {c} := by
    rw [count_some, update_under, update_fork_cons, hgone, follow_under_fork_self,
      follow_under_fork_self]
    ext d
    by_cases hd : d = c
    · subst hd
      simp
    · simp [hd]
  have := hst n.pfx hself hself'
  rw [hdiff, Set.ncard_sdiff_singleton_of_mem hmem, h.follow_ncard, hdeg] at this
  omega

/-- The child was destroyed. -/
theorem unsubscribed_remove {n ch : Node} (h : n.Wf) {c : UInt8} {i : ℕ}
    (hi : n.kids.index c = some i) (hch : n.kids.child i = some ch) {rest : List UInt8} {rc : ℤ}
    (hpos : count (some ch) rest ≠ 0) (hsub : Unsubscribed (some ch) rest (none, rc)) :
    rc = 1 ∧ ∃ r, removeChild { n with kids := n.kids.setChild i none } c = .ok r ∧
      Unsubscribed (some n) (n.pfx ++ c :: rest) r := by
  have hnext : n.kids.next c = some ch := by rw [Kids.next, hi]; exact hch
  have hone : count (some ch) rest = 1 := by
    by_contra hne
    have hrc := hsub.rc
    rw [if_neg hne] at hrc
    exact absurd (hsub.live hrc) (by simp)
  have hval : count (some n) (n.pfx ++ c :: rest) = 1 := by
    rw [count_some, under_apply_append, fork_cons, hnext, hone]
  obtain ⟨k, slot, heq, hrem⟩ := removeChild_spec h hi (by rw [hnext]; simp)
  refine ⟨by have := hsub.rc; rwa [if_pos hone] at this, (slot, 1), heq, hrem.wf, fun hst => ?_,
    by rw [if_pos hval], fun h => absurd h (by norm_num)⟩
  rw [hval, Nat.sub_self] at hst ⊢
  have hgone : Function.update (count (some ch)) rest 0 = 0 := by
    have hbr := hst
    rw [count_some n, update_under, update_fork_cons] at hbr
    have hbr := hbr.branch (c := c)
    simp only [Function.update_self, hnext] at hbr
    have hcount := hsub.count_eq (by rwa [hone, Nat.sub_self])
    rw [hone, Nat.sub_self] at hcount
    exact hcount.symm.trans count_none
  have hkeep : n.refcount = 0 ∨ degree n.kids.next ≠ nnTrieSparseMax + 1 := by
    by_contra hlose
    rw [not_or, not_not] at hlose
    exact not_steady_of_sparsify h (by rw [hnext]; exact hpos) (by rw [hnext]; exact hgone)
      hlose.1 hlose.2 hst
  rw [hrem.count_eq hkeep]
  exact count_replace hrem.next (by rw [hnext, hgone]; exact count_none)

/-! ### The whole walk -/

theorem nnNodeUnsubscribe_pfx (n : Node) : nnNodeUnsubscribe (some n) n.pfx = found (some n) := by
  cases hp : n.pfx with
  | nil => rw [nnNodeUnsubscribe]
  | cons d ds =>
    have hcheck := nnNodeCheckPrefix_append n.pfx []
    rw [List.append_nil] at hcheck
    rw [nnNodeUnsubscribe, ← hp, hcheck, ok_bind, if_neg (by simp)]
    split
    · rfl
    · rename_i hdrop
      simp at hdrop

/-- The turn of the recursion at a node whose prefix matches. -/
theorem nnNodeUnsubscribe_below (n : Node) (c : UInt8) (rest : List UInt8) :
    nnNodeUnsubscribe (some n) (n.pfx ++ c :: rest) =
      match n.kids.index c with
      | none => .ok (some n, 0)
      | some i => nnNodeUnsubscribe (n.kids.child i) rest >>= ascend n i c := by
  cases ht : n.pfx ++ c :: rest with
  | nil => simp at ht
  | cons d ds =>
    rw [nnNodeUnsubscribe, ← ht, nnNodeCheckPrefix_append, ok_bind, if_neg (by simp)]
    split <;> rename_i hdrop <;> rw [List.drop_left] at hdrop <;> cases hdrop
    rfl

/-- Unsubscribing a subscribed topic of a well-formed trie, from any of its slots. -/
theorem nnNodeUnsubscribe_spec {slot : Option Node} (h : SlotWf slot) {t : List UInt8}
    (hpos : count slot t ≠ 0) :
    ∃ r, nnNodeUnsubscribe slot t = .ok r ∧ Unsubscribed slot t r := by
  -- the recursion goes one child deeper with at least one byte less
  induction hn : t.length using Nat.strong_induction_on generalizing slot t with
  | _ len ih =>
    cases slot with
    | none => exact absurd (by rw [count_none]; rfl) hpos
    | some n =>
      have hnwf := h n rfl
      obtain ⟨r, rfl, hr⟩ := under_ne_zero (by rwa [count_some] at hpos)
      cases r with
      | nil =>
        rw [List.append_nil, nnNodeUnsubscribe_pfx]
        refine unsubscribed_found hnwf fun h0 => hr ?_
        rw [fork_nil, h0]
        rfl
      | cons c rest =>
        rw [fork_cons] at hr
        have hsome : n.kids.next c ≠ none := fun h0 => hr (by rw [h0, count_none]; rfl)
        rw [nnNodeUnsubscribe_below]
        cases hi : n.kids.index c with
        | none => exact absurd (by rw [Kids.next, hi]; rfl) hsome
        | some i =>
          have hnext : n.kids.next c = n.kids.child i := by rw [Kids.next, hi]; rfl
          obtain ⟨ch, hch⟩ := Option.ne_none_iff_exists'.1 (hnext ▸ hsome)
          rw [hnext, hch] at hr
          obtain ⟨⟨slot', rc⟩, heq, hsub⟩ := ih rest.length
            (by rw [← hn, List.length_append, List.length_cons]; omega)
            (hnwf.child c ch (hnext.trans hch)).slot hr rfl
          simp only [hch, heq, ok_bind]
          cases slot' with
          | some m =>
            refine ⟨_, ?_, unsubscribed_child hnwf hi hch hsub⟩
            have hrc := hsub.rc
            unfold ascend
            by_cases h0 : rc = 0
            · rw [if_pos h0, h0]
            · have h1 : rc = 1 := by
                split_ifs at hrc
                · exact hrc
                · exact absurd hrc h0
              rw [if_neg h0, h1]
              rfl
          | none =>
            obtain ⟨rfl, r', hr', hsub'⟩ := unsubscribed_remove hnwf hi hch hr hsub
            exact ⟨r', hr', hsub'⟩

end NanoSocket.PubSub

import NanoSocket.PubSub.TrieRefinement

/-!
# Unsubscribing a topic that is not there

`nn_node_unsubscribe` has two ways to say that a topic does not exist: `0` when the walk leaves the
trie, which every level above passes on, and `-EINVAL` at the label `found`, which a level above
takes for a removal.  A topic that ends inside the prefix of a node below the root is taken for the
topic of that node, since `size` is tested before the prefix, and a `NULL` slot is dereferenced.

`unsubscribe_absent_iff` says exactly which absent topics are rejected without an effect.
-/

namespace NanoSocket.PubSub

open Words Runs

/-- Before the topic ends, the walk comes to a prefix that does not match or to a character without
a slot. -/
def strays : Option Node → List UInt8 → Bool
  | _, [] => false
  | none, _ :: _ => false
  | some n, d :: ds =>
    if n.pfx <+: d :: ds then
      match _h : (d :: ds).drop n.pfx.length with
      | [] => false
      | c :: rest =>
        match n.kids.index c with
        | none => true
        | some i => strays (n.kids.child i) rest
    else true
  termination_by _ t => t.length
  decreasing_by
    have := congrArg List.length _h
    simp only [List.length_drop, List.length_cons] at this
    simp only [List.length_cons]
    omega

/-- The topic strays from the trie, is the string of the root, or is empty with no subscribers at
the root. -/
def misses (root : Option Node) (t : List UInt8) : Bool :=
  strays root t || root.any (·.pfx = t) || (t = [] && root.all (·.refcount = 0))

/-- What unsubscribing an absent topic should do: no success, no effect, no abort. -/
def RejectsAbsent (root : Option Node) (t : List UInt8) : Prop :=
  ∃ r, nnTrieUnsubscribe root t = .ok r ∧ r.2 ≠ 1 ∧ (∀ u, count r.1 u = count root u) ∧
    ∀ data size, nnTrieMatch r.1 data size = nnTrieMatch root data size

/-! ### Topics that are rejected -/

theorem setChild_child {N : Type} (k : Kids N) (i : ℕ) : k.setChild i (k.child i) = k := by
  cases k with
  | sparse cs =>
    simp only [Kids.setChild, Kids.child, Kids.sparse.injEq]
    apply List.ext_getElem?
    intro j
    rw [List.getElem?_modify]
    by_cases hj : i = j
    · subst hj
      cases cs[i]? <;> simp
    · simp [hj]
  | dense mn mx nbr slots =>
    simp only [Kids.setChild, Kids.child, Kids.dense.injEq, true_and]
    by_cases hi : i < slots.length
    · rw [List.getElem?_eq_getElem hi]
      exact List.set_getElem_self hi
    · exact List.set_eq_of_length_le (not_lt.1 hi)

theorem ascend_unchanged (n : Node) (i : ℕ) (c : UInt8) :
    ascend n i c (n.kids.child i, 0) = .ok (some n, 0) := by
  simp only [ascend, if_true, setChild_child]
  cases n
  rfl

theorem nnNodeUnsubscribe_of_not {n : Node} {t : List UInt8} (ht : t ≠ []) (h : ¬ n.pfx <+: t) :
    nnNodeUnsubscribe (some n) t = .ok (some n, 0) := by
  cases t with
  | nil => exact absurd rfl ht
  | cons d ds =>
    obtain ⟨pos, hpos, hlt, -, -⟩ := nnNodeCheckPrefix_lt_of_not h
    rw [nnNodeUnsubscribe, hpos, ok_bind, if_pos hlt.ne]
    rfl

theorem strays_pfx (n : Node) : strays (some n) n.pfx = false := by
  cases hp : n.pfx with
  | nil => rw [strays]
  | cons d ds =>
    rw [strays, if_pos (hp ▸ List.prefix_refl _)]
    split
    · rfl
    · rename_i hdrop
      simp [hp] at hdrop

theorem strays_below (n : Node) (c : UInt8) (rest : List UInt8) :
    strays (some n) (n.pfx ++ c :: rest) =
      match n.kids.index c with
      | none => true
      | some i => strays (n.kids.child i) rest := by
  cases ht : n.pfx ++ c :: rest with
  | nil => simp at ht
  | cons d ds =>
    rw [strays, ← ht, if_pos (List.prefix_append _ _)]
    split <;> rename_i hdrop <;> rw [List.drop_left] at hdrop <;> cases hdrop
    rfl

/-- A topic that strays from the trie is passed back with the value zero. -/
theorem nnNodeUnsubscribe_of_strays {slot : Option Node} {t : List UInt8}
    (h : strays slot t = true) :
    nnNodeUnsubscribe slot t = .ok (slot, 0) := by
  induction hn : t.length using Nat.strong_induction_on generalizing slot t with
  | _ len ih =>
    have ht : t ≠ [] := by
      rintro rfl
      rw [strays] at h
      cases h
    cases slot with
    | none =>
      cases t with
      | nil => exact absurd rfl ht
      | cons d ds => rw [strays] at h; cases h
    | some n =>
      by_cases hp : n.pfx <+: t
      · obtain ⟨r, rfl⟩ := hp
        cases r with
        | nil => rw [List.append_nil, strays_pfx] at h; cases h
        | cons c rest =>
          rw [strays_below] at h
          rw [nnNodeUnsubscribe_below]
          cases hi : n.kids.index c with
          | none => rfl
          | some i =>
            rw [hi] at h
            have hlt : rest.length < len := by
              rw [← hn, List.length_append, List.length_cons]
              omega
            simp only [ih rest.length hlt h rfl, ok_bind, ascend_unchanged]
      · exact nnNodeUnsubscribe_of_not ht hp

/-- At a node without subscribers. -/
theorem found_of_bare {slot : Option Node} (h : ∀ n, slot = some n → n.refcount = 0) :
    found slot = .ok (slot, -einval) := by
  cases slot with
  | none => rfl
  | some n =>
    have hs : nnNodeHasSubscribers n = false := by simpa [nnNodeHasSubscribers] using h n rfl
    rw [found, hs]
    rfl

theorem rejectsAbsent_of_eq {root : Option Node} {t : List UInt8} {rc : ℤ} (hrc : rc ≠ 1)
    (h : nnTrieUnsubscribe root t = .ok (root, rc)) : RejectsAbsent root t :=
  ⟨(root, rc), h, hrc, fun _ => rfl, fun _ _ => rfl⟩

theorem rejectsAbsent_of_misses {root : Option Node} {t : List UInt8} (h : count root t = 0)
    (hm : misses root t = true) : RejectsAbsent root t := by
  have heinval : -einval ≠ 1 := by decide
  simp only [misses, Bool.or_eq_true, Bool.and_eq_true] at hm
  rcases hm with (hm | hm) | ⟨ht, hm⟩
  · exact rejectsAbsent_of_eq (by decide) (nnNodeUnsubscribe_of_strays hm)
  · cases root with
    | none => simp at hm
    | some n =>
      have hp : n.pfx = t := by simpa using hm
      subst hp
      rw [count_pfx] at h
      refine rejectsAbsent_of_eq heinval ((nnNodeUnsubscribe_pfx n).trans (found_of_bare ?_))
      rintro m ⟨⟩
      exact UInt32.toNat_inj.1 h
  · have ht : t = [] := by simpa using ht
    subst ht
    refine rejectsAbsent_of_eq heinval ?_
    rw [nnTrieUnsubscribe, nnNodeUnsubscribe]
    refine found_of_bare ?_
    rintro n rfl
    simpa using hm

/-! ### Topics that are not rejected -/

/-- A level below the root that does not return zero, or that changed a count, misleads the level
above. -/
def Misled (slot : Option Node) (r : Option Node × ℤ) : Prop := r.2 ≠ 0 ∨ count r.1 ≠ count slot

theorem found_subscribed {n : Node} (hr : n.refcount ≠ 0) {r : Option Node × ℤ}
    (h : found (some n) = .ok r) : r.2 = 1 ∨ count r.1 ≠ count (some n) := by
  have hs : nnNodeHasSubscribers n = true := by simpa [nnNodeHasSubscribers] using hr
  simp only [found, hs, Bool.not_true, Bool.false_eq_true, if_false] at h
  split_ifs at h with h0 htype
  · cases h; exact Or.inl rfl
  · obtain ⟨n', -, hn'⟩ := bind_eq_ok.1 h
    cases hn'
    exact Or.inl rfl
  · cases h
    refine Or.inr fun hc => ?_
    have hpfx := congrFun hc n.pfx
    rw [count_pfx n, count_pfx { n with refcount := n.refcount - 1 }, toNat_sub_one hr] at hpfx
    have hpos : n.refcount.toNat ≠ 0 := fun h0 => hr (UInt32.toNat_inj.1 h0)
    omega

theorem misled_found (slot : Option Node) (r : Option Node × ℤ) (h : found slot = .ok r) :
    Misled slot r := by
  have heinval : -einval ≠ 0 := by decide
  cases slot with
  | none => cases h; exact Or.inl heinval
  | some n =>
    by_cases hr : n.refcount = 0
    · rw [found_of_bare (by rintro m ⟨⟩; exact hr)] at h
      cases h
      exact Or.inl heinval
    · exact (found_subscribed hr h).imp_left fun h1 => by rw [h1]; decide

theorem removeChild_returns_one {self : Node} {c : UInt8} {s : Option Node × ℤ}
    (h : removeChild self c = .ok s) : s.2 = 1 := by
  unfold removeChild at h
  split at h
  · obtain ⟨cs', -, h⟩ := bind_eq_ok.1 h
    simp only at h
    split_ifs at h
    · cases h; rfl
    · obtain ⟨n', -, hn'⟩ := bind_eq_ok.1 h
      cases hn'
      rfl
  · split_ifs at h
    · cases h; rfl
    · cases h; rfl
    · cases h; rfl
    · obtain ⟨_, -, h⟩ := bind_eq_ok.1 h
      cases h
      rfl

/-- Writing an occupied slot, in any array. -/
theorem next_setChild_of_child {N : Type} {k : Kids N} {c : UInt8} {i : ℕ} {ch : N}
    (hi : k.index c = some i) (hch : k.child i = some ch) (x : Option N) :
    (k.setChild i x).next c = x := by
  cases k with
  | sparse cs => rw [next_setChild (k := .sparse cs) trivial hi, Function.update_self]
  | dense mn mx nbr slots =>
    have hlt : i < slots.length := by
      by_contra hge
      simp [Kids.child, List.getElem?_eq_none (not_lt.1 hge)] at hch
    have hi' : (Kids.dense mn mx nbr (slots.set i x)).index c = some i := hi
    rw [Kids.setChild, Kids.next, hi']
    simp [Kids.child, hlt]

theorem ascend_misled {n ch : Node} {c : UInt8} {i : ℕ} (hi : n.kids.index c = some i)
    {r s : Option Node × ℤ} (hm : Misled (n.kids.child i) r)
    (hch : r.2 = 0 → n.kids.child i = some ch) (h : ascend n i c r = .ok s) :
    s.2 = 1 ∨ count s.1 ≠ count (some n) := by
  simp only [ascend] at h
  split_ifs at h with h0 hsome
  · cases h
    refine Or.inr fun hcount => hm.resolve_left (not_not_intro h0) ?_
    have hnext : n.kids.next c = n.kids.child i := by rw [Kids.next, hi]; rfl
    funext u
    have hu := congrFun hcount (n.pfx ++ c :: u)
    rw [count_some n, count_some { n with kids := n.kids.setChild i r.1 }, under_apply_append,
      under_apply_append, fork_cons, fork_cons, hnext] at hu
    rwa [next_setChild_of_child hi (hch h0)] at hu
  · cases h; exact Or.inl rfl
  · exact Or.inl (removeChild_returns_one h)

/-- One level of the recursion whose child is misled. -/
theorem below_misled {n : Node} {c : UInt8} {rest : List UInt8} {s : Option Node × ℤ}
    (hst : strays (some n) (n.pfx ++ c :: rest) = false)
    (hchild : ∀ i r, n.kids.index c = some i →
      nnNodeUnsubscribe (n.kids.child i) rest = .ok r → Misled (n.kids.child i) r)
    (h : nnNodeUnsubscribe (some n) (n.pfx ++ c :: rest) = .ok s) :
    s.2 = 1 ∨ count s.1 ≠ count (some n) := by
  rw [strays_below] at hst
  rw [nnNodeUnsubscribe_below] at h
  cases hi : n.kids.index c with
  | none => rw [hi] at hst; cases hst
  | some i =>
    rw [hi] at h
    obtain ⟨r, hr, h⟩ := bind_eq_ok.1 h
    have hm := hchild i r hi hr
    cases hch : n.kids.child i with
    | some ch => exact ascend_misled hi hm (fun _ => hch) h
    | none =>
      -- a `NULL` slot: either a dereference, or the error code of `found`
      rw [hch] at hr
      cases rest with
      | nil =>
        rw [nnNodeUnsubscribe] at hr
        cases hr
        exact @ascend_misled n n c i hi _ s hm (fun h0 => absurd h0 (by decide)) h
      | cons d ds => rw [nnNodeUnsubscribe] at hr; cases hr

theorem misled_of_not_strays {slot : Option Node} {t : List UInt8} (hz : count slot t = 0)
    (hst : strays slot t = false) {r : Option Node × ℤ} (h : nnNodeUnsubscribe slot t = .ok r) :
    Misled slot r := by
  induction hn : t.length using Nat.strong_induction_on generalizing slot t r with
  | _ len ih =>
    cases t with
    | nil =>
      rw [nnNodeUnsubscribe] at h
      exact misled_found slot r h
    | cons d ds =>
      cases slot with
      | none => rw [nnNodeUnsubscribe] at h; cases h
      | some n =>
        by_cases hp : n.pfx <+: d :: ds
        · obtain ⟨u, hu⟩ := hp
          rw [← hu] at h hst hz hn
          cases u with
          | nil =>
            rw [List.append_nil, nnNodeUnsubscribe_pfx] at h
            exact misled_found _ r h
          | cons c rest =>
            refine (below_misled hst (fun i s hi hs => ?_) h).imp_left fun h1 => by rw [h1]; decide
            have hnext : n.kids.next c = n.kids.child i := by rw [Kids.next, hi]; rfl
            rw [strays_below, hi] at hst
            rw [count_some, under_apply_append, fork_cons, hnext] at hz
            exact ih rest.length (by rw [← hn, List.length_append, List.length_cons]; omega)
              hz hst hs rfl
        · rw [strays, if_neg hp] at hst
          cases hst

theorem not_rejectsAbsent {root : Option Node} {t : List UInt8} (hz : count root t = 0)
    (hm : misses root t = false) : ¬ RejectsAbsent root t := by
  rintro ⟨r, heq, hne, hcount, -⟩
  have hcount : count r.1 = count root := funext hcount
  simp only [misses, Bool.or_eq_false_iff] at hm
  obtain ⟨⟨hst, hpfx⟩, hnil⟩ := hm
  rw [nnTrieUnsubscribe] at heq
  cases root with
  | none =>
    cases t with
    | nil => simp at hnil
    | cons d ds => rw [nnNodeUnsubscribe] at heq; cases heq
  | some n =>
    have hpfx : n.pfx ≠ t := by simpa using hpfx
    by_cases hp : n.pfx <+: t
    · obtain ⟨u, rfl⟩ := hp
      cases u with
      | nil => simp at hpfx
      | cons c rest =>
        have hchild : ∀ i s, n.kids.index c = some i →
            nnNodeUnsubscribe (n.kids.child i) rest = .ok s → Misled (n.kids.child i) s := by
          intro i s hi hs
          have hnext : n.kids.next c = n.kids.child i := by rw [Kids.next, hi]; rfl
          rw [strays_below, hi] at hst
          rw [count_some, under_apply_append, fork_cons, hnext] at hz
          exact misled_of_not_strays hz hst hs
        rcases below_misled hst hchild heq with h | h
        · exact hne h
        · exact h hcount
    · cases t with
      | cons d ds => rw [strays, if_neg hp] at hst; cases hst
      | nil =>
        -- the root is subscribed and its own topic loses a reference
        have hr : n.refcount ≠ 0 := by simpa using hnil
        rw [nnNodeUnsubscribe] at heq
        rcases found_subscribed hr heq with h | h
        · exact hne h
        · exact h hcount

/-- Which topics without a subscription are rejected, in any trie. -/
theorem unsubscribe_absent_iff (root : Option Node) (t : List UInt8) (h : count root t = 0) :
    RejectsAbsent root t ↔ misses root t = true := by
  constructor
  · intro hrej
    by_contra hm
    exact not_rejectsAbsent h (Bool.not_eq_true _ ▸ hm) hrej
  · exact rejectsAbsent_of_misses h

unseal step4 subscribeSlot count strays in
/-- A topic that leaves the trie `abc`, `abd` at the missing character `x`. -/
theorem unsubscribe_absent_abx :
    ∃ root codes, run TrieOp.exec none [.subscribe [97, 98, 99], .subscribe [97, 98, 100]] =
        .ok (root, codes) ∧ count root [97, 98, 120] = 0 ∧ RejectsAbsent root [97, 98, 120] := by
  have h : (run TrieOp.exec none [.subscribe [97, 98, 99], .subscribe [97, 98, 100]] >>= fun r =>
      .ok (count r.1 [97, 98, 120], misses r.1 [97, 98, 120])) = .ok (0, true) := by decide
  obtain ⟨⟨root, codes⟩, hrun, h⟩ := bind_eq_ok.1 h
  simp only [Except.ok.injEq, Prod.mk.injEq] at h
  exact ⟨root, codes, hrun, h.1, (unsubscribe_absent_iff root _ h.1).2 h.2⟩

/-- A topic is unsubscribed from an empty trie. -/
theorem unsubscribe_absent_null_deref :
    ¬ ∀ ops root codes, run TrieOp.exec none ops = .ok (root, codes) →
      ∀ t, count root t = 0 → RejectsAbsent root t := by
  intro h
  obtain ⟨r, heq, -⟩ := h [] none [] rfl [97] (by rw [count_none]; rfl)
  rw [nnTrieUnsubscribe, nnNodeUnsubscribe] at heq
  cases heq

end NanoSocket.PubSub

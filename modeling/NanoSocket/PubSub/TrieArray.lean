import NanoSocket.PubSub.TrieNode
import Mathlib.Data.FinEnum

/-!
# The child arrays of the subscription trie

Step 3 of `nn_trie_subscribe` makes room for a new character in the child array
(`Kids.adjust`); `nn_node_unsubscribe` takes a character out (`Kids.dropSparse`, `Kids.trimLeft`,
`Kids.trimRight`, `Kids.sparsify`).  Each of these is a rearrangement of pointers, and each is
described here by its effect on `Kids.next` alone.

`Kids.Shape` is what the arrays keep: distinct characters and no `NULL` pointers in sparse mode, at
least nine children counted by `nbr` and occupied ends in dense mode.
-/

namespace NanoSocket.PubSub

variable {N : Type}

/-- The invariant of a sparse array. -/
structure SparseShape (cs : List (UInt8 × Option N)) : Prop where
  length_le : cs.length ≤ nnTrieSparseMax
  nodup : (cs.map Prod.fst).Nodup
  ptr : ∀ p ∈ cs, p.2 ≠ none

/-- The invariant of a dense array. -/
structure DenseShape (mn mx : UInt8) (nbr : ℕ) (slots : List (Option N)) : Prop where
  le : mn ≤ mx
  length_eq : slots.length = mx.toNat - mn.toNat + 1
  nbr_eq : nbr = slots.countP (·.isSome)
  lt_nbr : nnTrieSparseMax < nbr
  first : slots[0]?.join ≠ none
  last : slots[mx.toNat - mn.toNat]?.join ≠ none

/-- The invariant of a child array. -/
def Kids.Shape : Kids N → Prop
  | .sparse cs => SparseShape cs
  | .dense mn mx nbr slots => DenseShape mn mx nbr slots

theorem Kids.Shape.fits {k : Kids N} (h : k.Shape) : k.Fits := by
  cases k with
  | sparse cs => trivial
  | dense mn mx nbr slots => exact DenseShape.length_eq h

/-- `x < y ? x : y`. -/
def pickMin (a b : UInt8) : UInt8 := if a < b then a else b

/-- `x > y ? x : y`. -/
def pickMax (a b : UInt8) : UInt8 := if a > b then a else b

/-- Step 3 of `nn_trie_subscribe`: adjust the child array to accommodate the character `c`. The
result is the new array, with a `NULL` slot for `c`, and the index of that slot. -/
def Kids.adjust (k : Kids N) (c : UInt8) : Kids N × ℕ :=
  match k with
  | .sparse children =>
    if children.length < nnTrieSparseMax then
      (.sparse (children ++ [(c, none)]), children.length)
    else
      -- no more children fit into the sparse array: convert it into a dense one
      let newMin := pickMin (children.foldl (fun m p => pickMin m p.1) 255) c
      let newMax := pickMax (children.foldl (fun m p => pickMax m p.1) 0) c
      let slots := List.replicate (newMax.toNat - newMin.toNat + 1) none
      let slots := children.foldl (fun s p => s.set (p.1.toNat - newMin.toNat) p.2) slots
      (.dense newMin newMax (children.length + 1) slots, c.toNat - newMin.toNat)
  | .dense mn mx nbr slots =>
    if c < mn || c > mx then
      let newMin := pickMin mn c
      let newMax := pickMax mx c
      let oldChildren := mx.toNat - mn.toNat + 1
      let newChildren := newMax.toNat - newMin.toNat + 1
      let slots :=
        if mn ≠ newMin then List.replicate (mn.toNat - newMin.toNat) none ++ slots
        else slots ++ List.replicate (newChildren - oldChildren) none
      (.dense newMin newMax (nbr + 1) slots, c.toNat - newMin.toNat)
    else (.dense mn mx (nbr + 1) slots, c.toNat - mn.toNat)

/-! ### Sparse arrays -/

theorem next_sparse_append (cs : List (UInt8 × Option N)) (p : UInt8 × Option N) (c : UInt8)
    (h : p.1 ∉ cs.map Prod.fst) :
    (Kids.sparse (cs ++ [p])).next c = if p.1 = c then p.2 else (Kids.sparse cs).next c := by
  induction cs with
  | nil => rw [List.nil_append, next_sparse_cons]
  | cons q cs ih =>
    simp only [List.map_cons, List.mem_cons, not_or] at h
    rw [List.cons_append, next_sparse_cons, ih h.2, next_sparse_cons]
    by_cases hq : q.1 = c
    · simp [hq, hq ▸ h.1]
    · simp [hq]

theorem next_sparse_of_mem {cs : List (UInt8 × Option N)} (hn : (cs.map Prod.fst).Nodup)
    {p : UInt8 × Option N} (hp : p ∈ cs) : (Kids.sparse cs).next p.1 = p.2 := by
  induction cs with
  | nil => cases hp
  | cons q cs ih =>
    simp only [List.map_cons, List.nodup_cons] at hn
    rw [next_sparse_cons]
    rcases List.mem_cons.1 hp with rfl | hp
    · simp
    · have hne : q.1 ≠ p.1 := fun h => hn.1 (h ▸ List.mem_map_of_mem hp)
      rw [if_neg hne, ih hn.2 hp]

theorem next_sparse_of_notMem {cs : List (UInt8 × Option N)} {c : UInt8}
    (h : c ∉ cs.map Prod.fst) : (Kids.sparse cs).next c = none := by
  induction cs with
  | nil => rfl
  | cons q cs ih =>
    simp only [List.map_cons, List.mem_cons, not_or] at h
    rw [next_sparse_cons, if_neg (Ne.symm h.1), ih h.2]

/-- In a well-shaped sparse array the characters present are those with a child. -/
theorem SparseShape.next_eq_none_iff {cs : List (UInt8 × Option N)}
    (h : SparseShape cs) (c : UInt8) :
    (Kids.sparse cs).next c = none ↔ c ∉ cs.map Prod.fst := by
  refine ⟨fun hc hm => ?_, next_sparse_of_notMem⟩
  obtain ⟨p, hp, rfl⟩ := List.mem_map.1 hm
  exact h.ptr p hp (by rw [← next_sparse_of_mem h.nodup hp, hc])

/-! ### The number of children -/

/-- The number of characters with a child. -/
def degree (nx : UInt8 → Option N) : ℕ := (Finset.univ.filter fun c => (nx c).isSome).card

theorem degree_update_some {nx : UInt8 → Option N} {c : UInt8} (h : nx c = none) (ch : N) :
    degree (Function.update nx c (some ch)) = degree nx + 1 := by
  have hset : (Finset.univ.filter fun d => (Function.update nx c (some ch) d).isSome) =
      insert c (Finset.univ.filter fun d => (nx d).isSome) := by
    ext d
    by_cases hd : d = c
    · subst hd; simp
    · simp [hd]
  rw [degree, hset, Finset.card_insert_of_notMem (by simp [h])]
  rfl

theorem degree_update_none {nx : UInt8 → Option N} {c : UInt8} (h : nx c ≠ none) :
    degree (Function.update nx c none) + 1 = degree nx := by
  obtain ⟨ch, hch⟩ := Option.ne_none_iff_exists'.1 h
  have hup := degree_update_some (Function.update_self c none nx) ch
  rw [Function.update_idem, ← hch, Function.update_eq_self] at hup
  exact hup.symm

theorem degree_update_some_of_ne_none {nx : UInt8 → Option N} {c : UInt8}
    (h : nx c ≠ none) (ch : N) :
    degree (Function.update nx c (some ch)) = degree nx := by
  have hup := degree_update_some (Function.update_self c none nx) ch
  rw [Function.update_idem] at hup
  rw [hup, degree_update_none h]

theorem degree_sparse {cs : List (UInt8 × Option N)} (h : SparseShape cs) :
    degree (Kids.sparse cs).next = cs.length := by
  have hset : (Finset.univ.filter fun d => ((Kids.sparse cs).next d).isSome) =
      (cs.map Prod.fst).toFinset := by
    ext d
    have := h.next_eq_none_iff d
    rw [Finset.mem_filter, List.mem_toFinset, ← not_iff_not, ← this]
    simp
  rw [degree, hset, List.toFinset_card_of_nodup h.nodup, List.length_map]

theorem countP_isSome_eq_card (l : List (Option N)) :
    l.countP (·.isSome) = ((Finset.range l.length).filter fun i => l[i]?.join.isSome).card := by
  induction l using List.reverseRecOn with
  | nil => rfl
  | append_singleton l a ih =>
    have hset : ((Finset.range l.length).filter fun i => (l ++ [a])[i]?.join.isSome) =
        (Finset.range l.length).filter fun i => l[i]?.join.isSome := by
      apply Finset.filter_congr
      intro i hi
      rw [List.getElem?_append_left (Finset.mem_range.1 hi)]
    rw [List.countP_append, ih, List.length_append, List.length_singleton, Finset.range_add_one,
      Finset.filter_insert, hset, List.getElem?_concat_length]
    cases a with
    | none => simp
    | some a => simp

/-- In a dense array the occupied slots are the characters with a child. -/
theorem degree_dense {mn mx : UInt8} {nbr : ℕ} {slots : List (Option N)} (hle : mn ≤ mx)
    (hlen : slots.length = mx.toNat - mn.toNat + 1) :
    degree (Kids.dense mn mx nbr slots).next = slots.countP (·.isSome) := by
  have hle' := UInt8.le_iff_toNat_le.1 hle
  have hmx := UInt8.toNat_lt mx
  rw [countP_isSome_eq_card, degree]
  apply Finset.card_bij (fun c _ => c.toNat - mn.toNat)
  · intro c hc
    simp only [Finset.mem_filter, Finset.mem_univ, true_and, next_dense] at hc
    split_ifs at hc with hr
    · have h1 := UInt8.le_iff_toNat_le.1 hr.1
      have h2 := UInt8.le_iff_toNat_le.1 hr.2
      simp only [Finset.mem_filter, Finset.mem_range]
      exact ⟨by omega, hc⟩
    · simp at hc
  · intro c hc d hd hcd
    simp only [Finset.mem_filter, Finset.mem_univ, true_and, next_dense] at hc hd
    split_ifs at hc hd with hr hr'
    · have h1 := UInt8.le_iff_toNat_le.1 hr.1
      have h2 := UInt8.le_iff_toNat_le.1 hr'.1
      exact UInt8.toNat_inj.1 (by omega)
    all_goals simp at hc hd
  · intro i hi
    simp only [Finset.mem_filter, Finset.mem_range] at hi
    have hlt : mn.toNat + i < 256 := by omega
    have hval : (UInt8.ofNat (mn.toNat + i)).toNat = mn.toNat + i := by
      simp [UInt8.toNat_ofNat', Nat.mod_eq_of_lt hlt]
    refine ⟨UInt8.ofNat (mn.toNat + i), ?_, by rw [hval]; omega⟩
    simp only [Finset.mem_filter, Finset.mem_univ, true_and, next_dense]
    rw [if_pos ⟨UInt8.le_iff_toNat_le.2 (by omega), UInt8.le_iff_toNat_le.2 (by omega)⟩, hval,
      Nat.add_sub_cancel_left]
    exact hi.2

/-! ### Making room for a character -/

/-- The two loops that determine the range of children keep either the accumulator or the
character; `pick` stands for both. -/
theorem foldl_pick_mem {pick : UInt8 → UInt8 → UInt8} (hp : ∀ a b, pick a b = a ∨ pick a b = b)
    (cs : List (UInt8 × Option N)) (m : UInt8) :
    cs.foldl (fun m p => pick m p.1) m = m ∨
      cs.foldl (fun m p => pick m p.1) m ∈ cs.map Prod.fst := by
  induction cs generalizing m with
  | nil => exact Or.inl rfl
  | cons q cs ih =>
    rw [List.foldl_cons, List.map_cons]
    rcases ih (pick m q.1) with h | h
    · rw [h]
      rcases hp m q.1 with h' | h' <;> rw [h']
      · exact Or.inl rfl
      · exact Or.inr List.mem_cons_self
    · exact Or.inr (List.mem_cons_of_mem _ h)

theorem foldl_pick_bound {pick : UInt8 → UInt8 → UInt8} {r : UInt8 → UInt8 → Prop}
    (hr : ∀ a, r a a) (ht : ∀ a b c, r a b → r b c → r a c)
    (hp : ∀ a b, r (pick a b) a ∧ r (pick a b) b) (cs : List (UInt8 × Option N)) (m : UInt8) :
    r (cs.foldl (fun m p => pick m p.1) m) m ∧
      ∀ p ∈ cs, r (cs.foldl (fun m p => pick m p.1) m) p.1 := by
  induction cs generalizing m with
  | nil => exact ⟨hr m, fun p h => nomatch h⟩
  | cons q cs ih =>
    obtain ⟨ih1, ih2⟩ := ih (pick m q.1)
    rw [List.foldl_cons]
    refine ⟨ht _ _ _ ih1 (hp m q.1).1, fun p h => ?_⟩
    rcases List.mem_cons.1 h with rfl | h
    · exact ht _ _ _ ih1 (hp m p.1).2
    · exact ih2 p h

theorem pickMin_cases (a b : UInt8) : pickMin a b = a ∨ pickMin a b = b := by
  unfold pickMin; split_ifs <;> simp

theorem pickMax_cases (a b : UInt8) : pickMax a b = a ∨ pickMax a b = b := by
  unfold pickMax; split_ifs <;> simp

theorem pickMin_le (a b : UInt8) :
    (pickMin a b).toNat ≤ a.toNat ∧ (pickMin a b).toNat ≤ b.toNat := by
  unfold pickMin
  split_ifs with h
  · exact ⟨le_rfl, (UInt8.lt_iff_toNat_lt.1 h).le⟩
  · exact ⟨UInt8.le_iff_toNat_le.1 (UInt8.not_lt.1 h), le_rfl⟩

theorem le_pickMax (a b : UInt8) :
    a.toNat ≤ (pickMax a b).toNat ∧ b.toNat ≤ (pickMax a b).toNat := by
  unfold pickMax
  split_ifs with h
  · exact ⟨le_rfl, (UInt8.lt_iff_toNat_lt.1 h).le⟩
  · exact ⟨UInt8.le_iff_toNat_le.1 (UInt8.not_lt.1 h), le_rfl⟩

theorem length_foldl_set (cs : List (UInt8 × Option N)) (f : UInt8 → ℕ) (s : List (Option N)) :
    (cs.foldl (fun s p => s.set (f p.1) p.2) s).length = s.length := by
  induction cs generalizing s with
  | nil => rfl
  | cons q cs ih => rw [List.foldl_cons, ih, List.length_set]

theorem getElem?_foldl_set (cs : List (UInt8 × Option N)) (f : UInt8 → ℕ) (s : List (Option N))
    (c : UInt8) (hn : (cs.map Prod.fst).Nodup) (hf : ∀ p ∈ cs, f p.1 = f c → p.1 = c)
    (hlt : f c < s.length) (hs : s[f c]?.join = none) :
    (cs.foldl (fun s p => s.set (f p.1) p.2) s)[f c]?.join = (Kids.sparse cs).next c := by
  induction cs using List.reverseRecOn with
  | nil => simpa using hs
  | append_singleton cs q ih =>
    simp only [List.map_append, List.map_cons, List.map_nil, List.nodup_append,
      List.mem_singleton, forall_eq] at hn
    have hq : q.1 ∉ cs.map Prod.fst := fun h => hn.2.2 q.1 h rfl
    rw [List.foldl_append, List.foldl_cons, List.foldl_nil, next_sparse_append _ _ _ hq]
    by_cases hc : q.1 = c
    · rw [if_pos hc, hc, List.getElem?_set_self (by rw [length_foldl_set]; exact hlt)]
      rfl
    · rw [if_neg hc, List.getElem?_set_ne, ih hn.1]
      · exact fun p hp => hf p (List.mem_append_left _ hp)
      · exact fun h => hc (hf q (by simp) h)

/-- The invariant of a dense array, read off the lookup function. -/
theorem denseShape_iff_next {mn mx : UInt8} {nbr : ℕ} {slots : List (Option N)} :
    DenseShape mn mx nbr slots ↔ mn ≤ mx ∧ slots.length = mx.toNat - mn.toNat + 1 ∧
      nbr = degree (Kids.dense mn mx nbr slots).next ∧ nnTrieSparseMax < nbr ∧
      (Kids.dense mn mx nbr slots).next mn ≠ none ∧
        (Kids.dense mn mx nbr slots).next mx ≠ none := by
  have key : mn ≤ mx → (Kids.dense mn mx nbr slots).next mn = slots[0]?.join ∧
      (Kids.dense mn mx nbr slots).next mx = slots[mx.toNat - mn.toNat]?.join := by
    intro hle
    rw [next_dense, next_dense, if_pos ⟨UInt8.le_refl mn, hle⟩, if_pos ⟨hle, UInt8.le_refl mx⟩,
      Nat.sub_self]
    exact ⟨rfl, rfl⟩
  constructor
  · rintro ⟨hle, hlen, hnbr, hlt, hfirst, hlast⟩
    obtain ⟨h1, h2⟩ := key hle
    exact ⟨hle, hlen, by rw [degree_dense hle hlen]; exact hnbr, hlt, h1 ▸ hfirst, h2 ▸ hlast⟩
  · rintro ⟨hle, hlen, hnbr, hlt, hfirst, hlast⟩
    obtain ⟨h1, h2⟩ := key hle
    exact ⟨hle, hlen, by rw [degree_dense hle hlen] at hnbr; exact hnbr, hlt, h1 ▸ hfirst,
      h2 ▸ hlast⟩

/-- What step 3 leaves: the same children, and a slot for `c`. -/
structure Adjusted (k : Kids N) (c : UInt8) (r : Kids N × ℕ) : Prop where
  next : r.1.next = k.next
  fits : r.1.Fits
  index : r.1.index c = some r.2

theorem index_dense {mn mx c : UInt8} {nbr : ℕ} {slots : List (Option N)} (h1 : mn ≤ c)
    (h2 : c ≤ mx) : (Kids.dense mn mx nbr slots).index c = some (c.toNat - mn.toNat) := by
  simp [Kids.index, UInt8.not_lt.2 h1, UInt8.not_lt.2 h2]

theorem adjusted_sparse_push {cs : List (UInt8 × Option N)} {c : UInt8}
    (hc : c ∉ cs.map Prod.fst) :
    Adjusted (.sparse cs) c (.sparse (cs ++ [(c, none)]), cs.length) where
  next := by
    funext d
    rw [next_sparse_append _ _ _ hc]
    split_ifs with h
    · rw [← h, next_sparse_of_notMem hc]
    · rfl
  fits := trivial
  index := by
    have hnone : List.findIdx? (fun p => p.1 == c) cs = none := by
      rw [List.findIdx?_eq_none_iff]
      intro p hp
      simpa using fun h : p.1 = c => hc (h ▸ List.mem_map_of_mem hp)
    simp [Kids.index, List.findIdx?_append, hnone]

/-- The range that the conversion computes covers the old characters and the new one. -/
theorem densify_range (cs : List (UInt8 × Option N)) (c d : UInt8)
    (hd : d = c ∨ d ∈ cs.map Prod.fst) :
    (pickMin (cs.foldl (fun m p => pickMin m p.1) 255) c).toNat ≤ d.toNat ∧
      d.toNat ≤ (pickMax (cs.foldl (fun m p => pickMax m p.1) 0) c).toNat := by
  have hmin := pickMin_le (cs.foldl (fun m p => pickMin m p.1) 255) c
  have hmax := le_pickMax (cs.foldl (fun m p => pickMax m p.1) 0) c
  rcases hd with rfl | hd
  · exact ⟨hmin.2, hmax.2⟩
  · obtain ⟨p, hp, rfl⟩ := List.mem_map.1 hd
    have h1 := (foldl_pick_bound (r := fun a b => a.toNat ≤ b.toNat) (fun _ => le_rfl)
      (fun _ _ _ => le_trans) pickMin_le cs 255).2 p hp
    have h2 := (foldl_pick_bound (r := fun a b => b.toNat ≤ a.toNat) (fun _ => le_rfl)
      (fun _ _ _ h h' => le_trans h' h) le_pickMax cs 0).2 p hp
    exact ⟨hmin.1.trans h1, h2.trans hmax.1⟩

/-- Both ends of that range are occupied. -/
theorem densify_ends (cs : List (UInt8 × Option N)) (c : UInt8) :
    (pickMin (cs.foldl (fun m p => pickMin m p.1) 255) c = c ∨
      pickMin (cs.foldl (fun m p => pickMin m p.1) 255) c ∈ cs.map Prod.fst) ∧
    (pickMax (cs.foldl (fun m p => pickMax m p.1) 0) c = c ∨
      pickMax (cs.foldl (fun m p => pickMax m p.1) 0) c ∈ cs.map Prod.fst) := by
  constructor
  · rcases foldl_pick_mem pickMin_cases cs 255 with h | h
    · rw [h]
      left
      rcases pickMin_cases 255 c with h' | h'
      · have hle := (pickMin_le 255 c).2
        have hc := UInt8.toNat_lt c
        rw [h'] at hle ⊢
        rw [show (255 : UInt8).toNat = 255 from rfl] at hle
        exact UInt8.toNat_inj.1 (show 255 = c.toNat by omega)
      · exact h'
    · rcases pickMin_cases (cs.foldl (fun m p => pickMin m p.1) 255) c with h' | h'
      · exact Or.inr (h'.symm ▸ h)
      · exact Or.inl h'
  · rcases foldl_pick_mem pickMax_cases cs 0 with h | h
    · rw [h]
      left
      rcases pickMax_cases 0 c with h' | h'
      · have hle := (le_pickMax 0 c).2
        rw [h'] at hle ⊢
        rw [show (0 : UInt8).toNat = 0 from rfl] at hle
        exact UInt8.toNat_inj.1 (show 0 = c.toNat by omega)
      · exact h'
    · rcases pickMax_cases (cs.foldl (fun m p => pickMax m p.1) 0) c with h' | h'
      · exact Or.inr (h'.symm ▸ h)
      · exact Or.inl h'

theorem adjusted_densify {cs : List (UInt8 × Option N)} (hn : (cs.map Prod.fst).Nodup)
    {c mn mx : UInt8}
    (hr : ∀ d, d = c ∨ d ∈ cs.map Prod.fst → mn.toNat ≤ d.toNat ∧ d.toNat ≤ mx.toNat) (nbr : ℕ) :
    Adjusted (.sparse cs) c
      (.dense mn mx nbr (cs.foldl (fun s p => s.set (p.1.toNat - mn.toNat) p.2)
        (List.replicate (mx.toNat - mn.toNat + 1) none)), c.toNat - mn.toNat) where
  next := by
    funext d
    rw [next_dense]
    split_ifs with hd
    · have h1 := UInt8.le_iff_toNat_le.1 hd.1
      have h2 := UInt8.le_iff_toNat_le.1 hd.2
      apply getElem?_foldl_set cs (fun x => x.toNat - mn.toNat) _ d hn
      · intro p hp h
        have h3 := (hr p.1 (Or.inr (List.mem_map_of_mem hp))).1
        exact UInt8.toNat_inj.1 (by omega)
      · rw [List.length_replicate]; omega
      · rw [List.getElem?_replicate]
        split_ifs <;> rfl
    · refine (next_sparse_of_notMem fun hm => hd ?_).symm
      exact (hr d (Or.inr hm)).imp UInt8.le_iff_toNat_le.2 UInt8.le_iff_toNat_le.2
  fits := by
    rw [Kids.Fits, length_foldl_set cs (fun x => x.toNat - mn.toNat), List.length_replicate]
  index := by
    obtain ⟨h1, h2⟩ := hr c (Or.inl rfl)
    exact index_dense (UInt8.le_iff_toNat_le.2 h1) (UInt8.le_iff_toNat_le.2 h2)

theorem adjusted_grow_left {mn mx c : UInt8} {nbr : ℕ} {slots : List (Option N)}
    (hlen : slots.length = mx.toNat - mn.toNat + 1) (hle : mn ≤ mx) (hc : c < mn) (nbr' : ℕ) :
    Adjusted (.dense mn mx nbr slots) c
      (.dense c mx nbr' (List.replicate (mn.toNat - c.toNat) none ++ slots),
          c.toNat - c.toNat) where
  next := by
    have h1 := UInt8.le_iff_toNat_le.1 hle
    have h2 := UInt8.lt_iff_toNat_lt.1 hc
    funext d
    rw [next_dense, next_dense]
    by_cases hd : d < mn
    · have h3 := UInt8.lt_iff_toNat_lt.1 hd
      rw [if_neg (fun h : mn ≤ d ∧ d ≤ mx => UInt8.not_lt.2 h.1 hd)]
      split_ifs with h
      · have h4 := UInt8.le_iff_toNat_le.1 h.1
        rw [List.getElem?_append_left (by rw [List.length_replicate]; omega),
          List.getElem?_replicate, if_pos (by omega)]
        rfl
      · rfl
    · have h3 := UInt8.le_iff_toNat_le.1 (UInt8.not_lt.1 hd)
      have h4 : c ≤ d := UInt8.le_iff_toNat_le.2 (by omega)
      simp only [h4, UInt8.not_lt.1 hd, true_and]
      rw [List.getElem?_append_right (by rw [List.length_replicate]; omega), List.length_replicate,
        show d.toNat - c.toNat - (mn.toNat - c.toNat) = d.toNat - mn.toNat by omega]
  fits := by
    have h1 := UInt8.le_iff_toNat_le.1 hle
    have h2 := UInt8.lt_iff_toNat_lt.1 hc
    rw [Kids.Fits, List.length_append, List.length_replicate, hlen]
    omega
  index := by
    have h1 := UInt8.le_iff_toNat_le.1 hle
    have h2 := UInt8.lt_iff_toNat_lt.1 hc
    exact index_dense (UInt8.le_refl c) (UInt8.le_iff_toNat_le.2 (by omega))

theorem adjusted_grow_right {mn mx c : UInt8} {nbr : ℕ} {slots : List (Option N)}
    (hlen : slots.length = mx.toNat - mn.toNat + 1) (hle : mn ≤ mx) (hc : mx < c) (nbr' : ℕ) :
    Adjusted (.dense mn mx nbr slots) c
      (.dense mn c nbr' (slots ++ List.replicate
        (c.toNat - mn.toNat + 1 - (mx.toNat - mn.toNat + 1)) none), c.toNat - mn.toNat) where
  next := by
    have h1 := UInt8.le_iff_toNat_le.1 hle
    have h2 := UInt8.lt_iff_toNat_lt.1 hc
    funext d
    rw [next_dense, next_dense]
    by_cases hd : mx < d
    · have h3 := UInt8.lt_iff_toNat_lt.1 hd
      rw [if_neg (fun h : mn ≤ d ∧ d ≤ mx => UInt8.not_lt.2 h.2 hd)]
      split_ifs with h
      · rw [List.getElem?_append_right (by omega), List.getElem?_replicate]
        split_ifs <;> rfl
      · rfl
    · have h3 := UInt8.le_iff_toNat_le.1 (UInt8.not_lt.1 hd)
      have h4 : d ≤ c := UInt8.le_iff_toNat_le.2 (by omega)
      simp only [h4, UInt8.not_lt.1 hd, and_true]
      split_ifs with h
      · have h5 := UInt8.le_iff_toNat_le.1 h
        rw [List.getElem?_append_left (by omega)]
      · rfl
  fits := by
    have h1 := UInt8.le_iff_toNat_le.1 hle
    have h2 := UInt8.lt_iff_toNat_lt.1 hc
    rw [Kids.Fits, List.length_append, List.length_replicate, hlen]
    omega
  index := by
    have h1 := UInt8.le_iff_toNat_le.1 hle
    have h2 := UInt8.lt_iff_toNat_lt.1 hc
    exact index_dense (UInt8.le_iff_toNat_le.2 (by omega)) (UInt8.le_refl c)

theorem adjust_sparse_of_lt {cs : List (UInt8 × Option N)} (h : cs.length < nnTrieSparseMax)
    (c : UInt8) : (Kids.sparse cs).adjust c = (.sparse (cs ++ [(c, none)]), cs.length) := if_pos h

theorem adjust_sparse_of_ge {cs : List (UInt8 × Option N)} (h : ¬ cs.length < nnTrieSparseMax)
    (c : UInt8) :
    let mn := pickMin (cs.foldl (fun m p => pickMin m p.1) 255) c
    let mx := pickMax (cs.foldl (fun m p => pickMax m p.1) 0) c
    (Kids.sparse cs).adjust c = (.dense mn mx (cs.length + 1)
      (cs.foldl (fun s p => s.set (p.1.toNat - mn.toNat) p.2)
        (List.replicate (mx.toNat - mn.toNat + 1) none)), c.toNat - mn.toNat) := if_neg h

/-- A dense array stays dense, and a moved end is the new character. -/
theorem adjust_dense {mn mx : UInt8} {nbr : ℕ} {slots : List (Option N)}
    (hk : DenseShape mn mx nbr slots) (c : UInt8) :
    ∃ mn' mx' slots' i, (Kids.dense mn mx nbr slots).adjust c =
      (.dense mn' mx' (nbr + 1) slots', i) ∧
      mn' ≤ mx' ∧ (mn' = mn ∨ mn' = c) ∧ (mx' = mx ∨ mx' = c) ∧
      Adjusted (.dense mn mx nbr slots) c (.dense mn' mx' (nbr + 1) slots', i) := by
  have hle := UInt8.le_iff_toNat_le.1 hk.le
  by_cases hlt : c < mn
  · have h1 := UInt8.lt_iff_toNat_lt.1 hlt
    have hmin : pickMin mn c = c := if_neg (UInt8.not_lt.2 (UInt8.le_of_lt hlt))
    have hmax : pickMax mx c = mx := if_pos (UInt8.lt_iff_toNat_lt.2 (by omega))
    have hne : mn ≠ c := fun h => UInt8.lt_irrefl c (h ▸ hlt)
    refine ⟨c, mx, _, _, ?_, UInt8.le_iff_toNat_le.2 (by omega), Or.inr rfl, Or.inl rfl,
      adjusted_grow_left hk.length_eq hk.le hlt _⟩
    simp [Kids.adjust, hlt, hmin, hmax, hne]
  · by_cases hgt : mx < c
    · have h1 := UInt8.lt_iff_toNat_lt.1 hgt
      have hmin : pickMin mn c = mn := if_pos (UInt8.lt_iff_toNat_lt.2 (by omega))
      have hmax : pickMax mx c = c := if_neg (UInt8.not_lt.2 (UInt8.le_of_lt hgt))
      refine ⟨mn, c, _, _, ?_, UInt8.le_iff_toNat_le.2 (by omega), Or.inl rfl, Or.inr rfl,
        adjusted_grow_right hk.length_eq hk.le hgt _⟩
      simp [Kids.adjust, hgt, hmin, hmax]
    · refine ⟨mn, mx, slots, _, ?_, hk.le, Or.inl rfl, Or.inl rfl, ?_, hk.length_eq,
        index_dense (UInt8.not_lt.1 hlt) (UInt8.not_lt.1 hgt)⟩
      · simp [Kids.adjust, hlt, hgt]
      · funext d
        simp only [next_dense]

/-- Step 3 keeps every child and makes a slot for the new character. -/
theorem adjust_adjusted {k : Kids N} (hk : k.Shape) {c : UInt8} (hc : k.next c = none) :
    Adjusted k c (k.adjust c) := by
  cases k with
  | sparse cs =>
    have hk : SparseShape cs := hk
    rw [hk.next_eq_none_iff] at hc
    by_cases hl : cs.length < nnTrieSparseMax
    · rw [adjust_sparse_of_lt hl]
      exact adjusted_sparse_push hc
    · rw [adjust_sparse_of_ge hl]
      exact adjusted_densify hk.nodup (fun d hd => densify_range cs c d hd) _
  | dense mn mx nbr slots =>
    obtain ⟨mn', mx', slots', i, heq, -, -, -, hadj⟩ := adjust_dense hk c
    rw [heq]
    exact hadj

theorem next_adjust_setChild {k : Kids N} (hk : k.Shape) {c : UInt8} (hc : k.next c = none)
    (ch : N) : ((k.adjust c).1.setChild (k.adjust c).2 (some ch)).next =
      Function.update k.next c (some ch) := by
  have hadj := adjust_adjusted hk hc
  rw [next_setChild hadj.fits hadj.index, hadj.next]

/-- Step 3 followed by writing the new child restores the invariant of the array. -/
theorem shape_adjust_setChild {k : Kids N} (hk : k.Shape) {c : UInt8} (hc : k.next c = none)
    (ch : N) : ((k.adjust c).1.setChild (k.adjust c).2 (some ch)).Shape := by
  have hnext := next_adjust_setChild hk hc ch
  have hdeg := degree_update_some hc ch
  have hfits := fits_setChild (adjust_adjusted hk hc).fits (k.adjust c).2 (some ch)
  -- an end of the new range is the new character or a character that had a child
  have hval : ∀ d, d = c ∨ k.next d ≠ none → Function.update k.next c (some ch) d ≠ none := by
    intro d hd
    by_cases hdc : d = c
    · subst hdc; simp
    · rw [Function.update_of_ne hdc]
      exact hd.resolve_left hdc
  cases k with
  | sparse cs =>
    have hk : SparseShape cs := hk
    rw [degree_sparse hk] at hdeg
    by_cases hl : cs.length < nnTrieSparseMax
    · have hmem := (hk.next_eq_none_iff c).1 hc
      have hset : (cs ++ [(c, none)]).modify cs.length (fun p => (p.1, some ch)) =
          cs ++ [(c, some ch)] := by
        rw [List.modify_eq_take_cons_drop (by simp)]
        simp
      rw [adjust_sparse_of_lt hl]
      simp only [Kids.setChild, hset]
      refine ⟨by rw [List.length_append, List.length_singleton]; omega, ?_, ?_⟩
      · rw [List.map_append, List.nodup_append]
        refine ⟨hk.nodup, by simp, fun a ha b hb hab => hmem ?_⟩
        have hb : b = c := List.mem_singleton.1 hb
        exact hb ▸ hab ▸ ha
      · intro p hp
        rcases List.mem_append.1 hp with hp | hp
        · exact hk.ptr p hp
        · simp [List.mem_singleton.1 hp]
    · have hlen : cs.length = nnTrieSparseMax := le_antisymm hk.length_le (not_lt.1 hl)
      obtain ⟨hmin, hmax⟩ := densify_ends cs c
      have hrange := densify_range cs c c (Or.inl rfl)
      rw [adjust_sparse_of_ge hl] at hnext hfits ⊢
      refine denseShape_iff_next.2 ⟨UInt8.le_iff_toNat_le.2 (by omega), hfits,
        hdeg.symm.trans (congrArg degree hnext.symm), by omega, ?_, ?_⟩
      · exact congrFun hnext _ ▸ hval _ (hmin.imp_right (by simpa [hk.next_eq_none_iff] using ·))
      · exact congrFun hnext _ ▸ hval _ (hmax.imp_right (by simpa [hk.next_eq_none_iff] using ·))
  | dense mn mx nbr slots =>
    have hk : DenseShape mn mx nbr slots := hk
    obtain ⟨-, -, hnbr, hlt, hfirst, hlast⟩ := denseShape_iff_next.1 hk
    obtain ⟨mn', mx', slots', i, heq, hle, hmn, hmx, hadj⟩ := adjust_dense hk c
    rw [heq] at hnext hfits ⊢
    refine denseShape_iff_next.2 ⟨hle, hfits, ?_, by omega, ?_, ?_⟩
    · rw [← hnbr] at hdeg
      exact hdeg.symm.trans (congrArg degree hnext.symm)
    · refine congrFun hnext _ ▸ hval _ ?_
      rcases hmn with rfl | rfl
      · exact Or.inr hfirst
      · exact Or.inl rfl
    · refine congrFun hnext _ ▸ hval _ ?_
      rcases hmx with rfl | rfl
      · exact Or.inr hlast
      · exact Or.inl rfl

/-- Replacing a child by a child keeps the invariant of the array. -/
theorem shape_setChild {k : Kids N} (hk : k.Shape) {c : UInt8} {i : ℕ} (hi : k.index c = some i)
    (hc : k.next c ≠ none) (ch : N) : (k.setChild i (some ch)).Shape := by
  have hset := next_setChild hk.fits hi (some ch)
  cases k with
  | sparse cs =>
    have hk : SparseShape cs := hk
    refine ⟨by rw [List.length_modify]; exact hk.length_le, ?_, ?_⟩
    · have hkeys : (cs.modify i fun p => (p.1, some ch)).map Prod.fst = cs.map Prod.fst := by
        apply List.ext_getElem?
        intro j
        simp only [List.getElem?_map, List.getElem?_modify]
        cases cs[j]? with
        | none => rfl
        | some p => by_cases hij : i = j <;> simp [hij]
      rw [hkeys]
      exact hk.nodup
    · intro p hp
      obtain ⟨j, hj⟩ := List.mem_iff_getElem?.1 hp
      rw [List.getElem?_modify] at hj
      cases hcs : cs[j]? with
      | none => rw [hcs] at hj; cases hj
      | some q =>
        rw [hcs] at hj
        cases hj
        by_cases hij : i = j
        · simp [hij]
        · simpa [hij] using hk.ptr q (List.mem_of_getElem? hcs)
  | dense mn mx nbr slots =>
    obtain ⟨hle, hlen, hnbr, hlt, hfirst, hlast⟩ :=
      denseShape_iff_next.1 (show DenseShape mn mx nbr slots from hk)
    have hval : ∀ d, (Kids.dense mn mx nbr slots).next d ≠ none →
        Function.update (Kids.dense mn mx nbr slots).next c (some ch) d ≠ none := by
      intro d hd
      by_cases hdc : d = c
      · subst hdc; simp
      · rwa [Function.update_of_ne hdc]
    refine denseShape_iff_next.2 ⟨hle, by rw [List.length_set]; exact hlen, ?_, hlt, ?_, ?_⟩
    · exact hnbr.trans
        ((degree_update_some_of_ne_none hc ch).symm.trans (congrArg degree hset.symm))
    · exact congrFun hset mn ▸ hval mn hfirst
    · exact congrFun hset mx ▸ hval mx hlast

/-! ### Taking a character out -/

/-- The sparse branch of the removal: find the character, then erase it from both lists. -/
def dropSparse (children : List (UInt8 × Option N)) (c : UInt8) :
    Except Fault (List (UInt8 × Option N)) := do
  let index := children.findIdx (·.1 == c)
  nnAssert (index ≠ children.length)
  return children.eraseIdx index

/-- The removed item is the leftmost one: trim the array from the left side. -/
def trimLeft (mn mx : UInt8) (nbr : ℕ) (slots : List (Option N)) : Kids N :=
  let i := slots.findIdx (·.isSome)
  .dense (UInt8.ofNat (i + mn.toNat)) mx (nbr - 1) (slots.drop i)

/-- The loop of the right trim: the last occupied index up to `i`, or zero. -/
def lastIndex (slots : List (Option N)) : ℕ → ℕ
  | 0 => 0
  | i + 1 => if slots[i + 1]?.join.isSome then i + 1 else lastIndex slots i

/-- The removed item is the rightmost one: trim the array from the right side. -/
def trimRight (mn mx : UInt8) (nbr : ℕ) (slots : List (Option N)) : Kids N :=
  let i := lastIndex slots (mx.toNat - mn.toNat)
  .dense mn (UInt8.ofNat (i + mn.toNat)) (nbr - 1) (slots.take (i + 1))

/-- The loop that copies the children of a dense array into a sparse one, from index `i` on. -/
def sparsify (mn : UInt8) : ℕ → List (Option N) → List (UInt8 × Option N)
  | _, [] => []
  | i, none :: slots => sparsify mn (i + 1) slots
  | i, some ch :: slots => (UInt8.ofNat (i + mn.toNat), some ch) :: sparsify mn (i + 1) slots

/-- Erasing a character whose pointer is `NULL` changes no child. -/
theorem dropSparse_spec {cs : List (UInt8 × Option N)} (hn : (cs.map Prod.fst).Nodup) {c : UInt8}
    (hmem : c ∈ cs.map Prod.fst) (hc : (Kids.sparse cs).next c = none) :
    ∃ cs', dropSparse cs c = .ok cs' ∧ (Kids.sparse cs').next = (Kids.sparse cs).next ∧
      (cs'.map Prod.fst).Nodup ∧ cs'.length + 1 = cs.length ∧
      ∀ p ∈ cs', p ∈ cs ∧ p.1 ≠ c := by
  induction cs with
  | nil => cases hmem
  | cons q cs ih =>
    simp only [List.map_cons, List.nodup_cons] at hn
    by_cases hq : q.1 = c
    · refine ⟨cs, ?_, ?_, hn.2, rfl, fun p hp => ⟨List.mem_cons_of_mem _ hp, fun h => hn.1 ?_⟩⟩
      · simp [dropSparse, List.findIdx_cons, hq, nnAssert]
      · rw [next_sparse_cons, if_pos hq] at hc
        funext d
        rw [next_sparse_cons]
        split_ifs with hd
        · rw [hc, ← hd, next_sparse_of_notMem hn.1]
        · rfl
      · rw [hq, ← h]
        exact List.mem_map_of_mem hp
    · rw [next_sparse_cons, if_neg hq] at hc
      have hmem' : c ∈ cs.map Prod.fst := by
        simpa [Ne.symm hq] using hmem
      obtain ⟨cs', hdrop, hnext, hnd, hlen, hsub⟩ := ih hn.2 hmem' hc
      have hidx : cs.findIdx (·.1 == c) ≠ cs.length := by
        intro h
        simp [dropSparse, nnAssert, h] at hdrop
      have hcs' : cs.eraseIdx (cs.findIdx (·.1 == c)) = cs' := by
        simpa [dropSparse, nnAssert, hidx] using hdrop
      refine ⟨q :: cs', ?_, ?_, ?_, by simp [← hlen], ?_⟩
      · have hb : (q.1 == c) = false := by simpa using hq
        simp [dropSparse, nnAssert, List.findIdx_cons, hb, hidx, hcs']
      · funext d
        rw [next_sparse_cons, next_sparse_cons, hnext]
      · rw [List.map_cons, List.nodup_cons]
        refine ⟨fun h => hn.1 ?_, hnd⟩
        obtain ⟨p, hp, hpq⟩ := List.mem_map.1 h
        exact hpq ▸ List.mem_map_of_mem (hsub p hp).1
      · intro p hp
        rcases List.mem_cons.1 hp with rfl | hp
        · exact ⟨List.mem_cons_self, hq⟩
        · exact ⟨List.mem_cons_of_mem _ (hsub p hp).1, (hsub p hp).2⟩

theorem toNat_ofNat_of_lt {n : ℕ} (h : n < 256) : (UInt8.ofNat n).toNat = n := by
  rw [UInt8.toNat_ofNat', Nat.mod_eq_of_lt h]

theorem length_sparsify (mn : UInt8) (i : ℕ) (slots : List (Option N)) :
    (sparsify mn i slots).length = slots.countP (·.isSome) := by
  induction slots generalizing i with
  | nil => rfl
  | cons s slots ih => cases s <;> simp [sparsify, ih]

theorem ptr_sparsify (mn : UInt8) (i : ℕ) (slots : List (Option N)) :
    ∀ p ∈ sparsify mn i slots, p.2 ≠ none := by
  induction slots generalizing i with
  | nil => simp [sparsify]
  | cons s slots ih => cases s <;> simp [sparsify] <;>
      exact fun a b h => by simpa using ih (i + 1) (a, b) h

/-- The copied characters start at index `i`. -/
theorem le_of_mem_sparsify {mn : UInt8} {i : ℕ} {slots : List (Option N)}
    (h : i + mn.toNat + slots.length ≤ 256) :
    ∀ c ∈ (sparsify mn i slots).map Prod.fst, i + mn.toNat ≤ c.toNat := by
  induction slots generalizing i with
  | nil => simp [sparsify]
  | cons s slots ih =>
    rw [List.length_cons] at h
    have hrec := ih (i := i + 1) (by omega)
    cases s with
    | none => exact fun c hc => by have := hrec c hc; omega
    | some ch =>
      intro c hc
      rcases List.mem_cons.1 hc with rfl | hc
      · rw [toNat_ofNat_of_lt (by omega)]
      · have := hrec c hc; omega

theorem nodup_sparsify {mn : UInt8} {i : ℕ} {slots : List (Option N)}
    (h : i + mn.toNat + slots.length ≤ 256) : ((sparsify mn i slots).map Prod.fst).Nodup := by
  induction slots generalizing i with
  | nil => exact List.nodup_nil
  | cons s slots ih =>
    rw [List.length_cons] at h
    have hrec := ih (i := i + 1) (by omega)
    cases s with
    | none => exact hrec
    | some ch =>
      refine List.nodup_cons.2 ⟨fun hm => ?_, hrec⟩
      have := le_of_mem_sparsify (by omega) _ hm
      rw [toNat_ofNat_of_lt (by omega)] at this
      omega

theorem next_sparsify {mn : UInt8} {i : ℕ} {slots : List (Option N)}
    (h : i + mn.toNat + slots.length ≤ 256) (d : UInt8) :
    (Kids.sparse (sparsify mn i slots)).next d =
      if i + mn.toNat ≤ d.toNat then slots[d.toNat - (i + mn.toNat)]?.join else none := by
  induction slots generalizing i with
  | nil => simp [sparsify]
  | cons s slots ih =>
    rw [List.length_cons] at h
    have hrec := ih (i := i + 1) (by omega)
    -- the head of the array is the character `i + mn`
    have hhead : UInt8.ofNat (i + mn.toNat) = d ↔ d.toNat = i + mn.toNat := by
      rw [← UInt8.toNat_inj, toNat_ofNat_of_lt (by omega)]
      exact eq_comm
    have hstep :
        (if i + 1 + mn.toNat ≤ d.toNat then slots[d.toNat - (i + 1 + mn.toNat)]?.join else none) =
        if d.toNat = i + mn.toNat then none else
          if i + mn.toNat ≤ d.toNat then (s :: slots)[d.toNat - (i + mn.toNat)]?.join
            else none := by
      by_cases h1 : d.toNat = i + mn.toNat
      · rw [if_pos h1, if_neg (by omega)]
      · rw [if_neg h1]
        by_cases h2 : i + mn.toNat ≤ d.toNat
        · rw [if_pos h2, if_pos (by omega),
            show d.toNat - (i + mn.toNat) = d.toNat - (i + 1 + mn.toNat) + 1 by omega,
            List.getElem?_cons_succ]
        · rw [if_neg h2, if_neg (by omega)]
    rw [hstep] at hrec
    cases s with
    | none =>
      rw [sparsify, hrec]
      by_cases h1 : d.toNat = i + mn.toNat
      · simp [h1]
      · rw [if_neg h1]
    | some ch =>
      rw [sparsify, next_sparse_cons, hrec]
      by_cases h1 : d.toNat = i + mn.toNat
      · simp [hhead.2 h1, h1]
      · rw [if_neg (fun h => h1 (hhead.1 h)), if_neg h1]

/-- A dense array trimmed to the range `mn'`, …, `mx'` outside which every slot is `NULL`. -/
theorem next_dense_slice {mn mx mn' mx' : UInt8} {nbr nbr' : ℕ} {slots : List (Option N)}
    (hmn : mn ≤ mn') (hmx : mx' ≤ mx)
    (hout : ∀ d, d < mn' ∨ mx' < d → (Kids.dense mn mx nbr slots).next d = none) :
    (Kids.dense mn' mx' nbr' ((slots.drop (mn'.toNat - mn.toNat)).take
      (mx'.toNat - mn'.toNat + 1))).next = (Kids.dense mn mx nbr slots).next := by
  have h1 := UInt8.le_iff_toNat_le.1 hmn
  funext d
  rw [next_dense]
  split_ifs with hd
  · have h2 := UInt8.le_iff_toNat_le.1 hd.1
    have h3 := UInt8.le_iff_toNat_le.1 hd.2
    have h4 := UInt8.le_iff_toNat_le.1 hmx
    rw [next_dense, if_pos ⟨UInt8.le_trans hmn hd.1, UInt8.le_trans hd.2 hmx⟩,
      List.getElem?_take_of_lt (by omega), List.getElem?_drop,
      show mn'.toNat - mn.toNat + (d.toNat - mn'.toNat) = d.toNat - mn.toNat by omega]
  · refine (hout d ?_).symm
    rcases not_and_or.1 hd with h | h
    · exact Or.inl (UInt8.not_le.1 h)
    · exact Or.inr (UInt8.not_le.1 h)

/-- Nine or more children remain, so some slot is occupied. -/
theorem exists_slot_of_lt_degree {mn mx : UInt8} {nbr : ℕ} {slots : List (Option N)} (hle : mn ≤ mx)
    (hlen : slots.length = mx.toNat - mn.toNat + 1)
    (hdeg : nnTrieSparseMax < degree (Kids.dense mn mx nbr slots).next) :
    ∃ s ∈ slots, s.isSome := by
  rw [degree_dense hle hlen] at hdeg
  exact List.countP_pos_iff.1 (Nat.zero_lt_of_lt hdeg)

theorem trimLeft_spec {mn mx : UInt8} {nbr : ℕ} {slots : List (Option N)} (hle : mn ≤ mx)
    (hlen : slots.length = mx.toNat - mn.toNat + 1)
    (hnbr : nbr = degree (Kids.dense mn mx nbr slots).next + 1)
    (hdeg : nnTrieSparseMax < degree (Kids.dense mn mx nbr slots).next)
    (hlast : (Kids.dense mn mx nbr slots).next mx ≠ none) :
    (trimLeft mn mx nbr slots).next = (Kids.dense mn mx nbr slots).next ∧
      (trimLeft mn mx nbr slots).Shape := by
  have hle' := UInt8.le_iff_toNat_le.1 hle
  have hmx := UInt8.toNat_lt mx
  obtain ⟨s, hs, hsome⟩ := exists_slot_of_lt_degree hle hlen hdeg
  have hlt : slots.findIdx (·.isSome) < slots.length :=
    List.findIdx_lt_length_of_exists ⟨s, hs, hsome⟩
  set i := slots.findIdx (·.isSome) with hi
  have hmn' : (UInt8.ofNat (i + mn.toNat)).toNat = i + mn.toNat := toNat_ofNat_of_lt (by omega)
  have hslice : slots.drop i = (slots.drop ((UInt8.ofNat (i + mn.toNat)).toNat - mn.toNat)).take
      (mx.toNat - (UInt8.ofNat (i + mn.toNat)).toNat + 1) := by
    rw [hmn', Nat.add_sub_cancel, List.take_of_length_le]
    rw [List.length_drop]
    omega
  have hnext : (trimLeft mn mx nbr slots).next = (Kids.dense mn mx nbr slots).next := by
    simp only [trimLeft, ← hi]
    rw [hslice]
    refine next_dense_slice (UInt8.le_iff_toNat_le.2 (by omega)) (UInt8.le_refl mx) fun d hd => ?_
    rw [next_dense]
    split_ifs with hr
    · -- below the first occupied slot there is nothing
      have h1 := UInt8.le_iff_toNat_le.1 hr.1
      have h2 := UInt8.lt_iff_toNat_lt.1 (hd.resolve_right (UInt8.not_lt.2 hr.2))
      have h3 : d.toNat - mn.toNat < i := by omega
      have h4 := List.not_of_lt_findIdx h3
      rw [List.getElem?_eq_getElem (by omega)]
      simpa using h4
    · rfl
  refine ⟨hnext, ?_⟩
  simp only [trimLeft, ← hi] at hnext ⊢
  refine denseShape_iff_next.2 ⟨UInt8.le_iff_toNat_le.2 (by omega), ?_, ?_, by omega, ?_, ?_⟩
  · rw [List.length_drop, hmn']; omega
  · rw [hnext]; omega
  · rw [next_dense, if_pos ⟨UInt8.le_refl _, UInt8.le_iff_toNat_le.2 (by omega)⟩, Nat.sub_self,
      List.getElem?_drop, Nat.add_zero, List.getElem?_eq_getElem hlt]
    have hocc : (slots[i]).isSome := List.findIdx_getElem (w := hlt)
    exact fun h => absurd (show slots[i] = none from h) (Option.isSome_iff_ne_none.1 hocc)
  · rw [hnext]; exact hlast

theorem lastIndex_le (slots : List (Option N)) (i : ℕ) : lastIndex slots i ≤ i := by
  induction i with
  | zero => exact le_rfl
  | succ i ih =>
    rw [lastIndex]
    split_ifs
    · exact le_rfl
    · omega

/-- Above the last occupied index there is nothing. -/
theorem getElem?_of_lastIndex_lt (slots : List (Option N)) (i j : ℕ) (hj : lastIndex slots i < j)
    (hji : j ≤ i) : slots[j]?.join = none := by
  induction i with
  | zero => rw [lastIndex] at hj; omega
  | succ i ih =>
    rw [lastIndex] at hj
    split_ifs at hj with h
    · omega
    · rcases Nat.lt_or_ge i j with hij | hij
      · obtain rfl : j = i + 1 := by omega
        simpa using h
      · exact ih hj hij

theorem getElem?_lastIndex (slots : List (Option N)) (i : ℕ) (h0 : slots[0]?.join ≠ none) :
    slots[lastIndex slots i]?.join ≠ none := by
  induction i with
  | zero => exact h0
  | succ i ih =>
    rw [lastIndex]
    split_ifs with h
    · exact Option.isSome_iff_ne_none.1 h
    · exact ih

theorem trimRight_spec {mn mx : UInt8} {nbr : ℕ} {slots : List (Option N)} (hle : mn ≤ mx)
    (hlen : slots.length = mx.toNat - mn.toNat + 1)
    (hnbr : nbr = degree (Kids.dense mn mx nbr slots).next + 1)
    (hdeg : nnTrieSparseMax < degree (Kids.dense mn mx nbr slots).next)
    (hfirst : (Kids.dense mn mx nbr slots).next mn ≠ none) :
    (trimRight mn mx nbr slots).next = (Kids.dense mn mx nbr slots).next ∧
      (trimRight mn mx nbr slots).Shape := by
  have hle' := UInt8.le_iff_toNat_le.1 hle
  have hmx := UInt8.toNat_lt mx
  have h0 : slots[0]?.join ≠ none := by
    rwa [next_dense, if_pos ⟨UInt8.le_refl mn, hle⟩, Nat.sub_self] at hfirst
  have hi := lastIndex_le slots (mx.toNat - mn.toNat)
  have hnone := getElem?_of_lastIndex_lt slots (mx.toNat - mn.toNat)
  have hocc := getElem?_lastIndex slots (mx.toNat - mn.toNat) h0
  unfold trimRight
  generalize lastIndex slots (mx.toNat - mn.toNat) = i at hi hnone hocc
  have hmx' : (UInt8.ofNat (i + mn.toNat)).toNat = i + mn.toNat := toNat_ofNat_of_lt (by omega)
  have hslice : slots.take (i + 1) = (slots.drop (mn.toNat - mn.toNat)).take
      ((UInt8.ofNat (i + mn.toNat)).toNat - mn.toNat + 1) := by
    rw [hmx', Nat.add_sub_cancel, Nat.sub_self, List.drop_zero]
  have hnext : (Kids.dense mn (UInt8.ofNat (i + mn.toNat)) (nbr - 1) (slots.take (i + 1))).next =
      (Kids.dense mn mx nbr slots).next := by
    rw [hslice]
    refine next_dense_slice (UInt8.le_refl mn) (UInt8.le_iff_toNat_le.2 (by omega)) fun d hd => ?_
    rw [next_dense]
    split_ifs with hr
    · have h1 := UInt8.le_iff_toNat_le.1 hr.2
      have h2 := UInt8.lt_iff_toNat_lt.1 (hd.resolve_left (UInt8.not_lt.2 hr.1))
      exact hnone _ (by omega) (by omega)
    · rfl
  refine ⟨hnext, denseShape_iff_next.2
    ⟨UInt8.le_iff_toNat_le.2 (by omega), ?_, ?_, by omega, ?_, ?_⟩⟩
  · rw [List.length_take, hmx']; omega
  · rw [hnext]; omega
  · rw [hnext]; exact hfirst
  · rw [hnext, next_dense,
      if_pos ⟨UInt8.le_iff_toNat_le.2 (by omega), UInt8.le_iff_toNat_le.2 (by omega)⟩, hmx',
      Nat.add_sub_cancel]
    exact hocc

/-- The conversion to a sparse array keeps every child. -/
theorem sparsify_spec {mn mx : UInt8} {nbr : ℕ} {slots : List (Option N)} (hle : mn ≤ mx)
    (hlen : slots.length = mx.toNat - mn.toNat + 1)
    (hdeg : degree (Kids.dense mn mx nbr slots).next = nnTrieSparseMax) :
    (Kids.sparse (sparsify mn 0 slots)).next = (Kids.dense mn mx nbr slots).next ∧
      (sparsify mn 0 slots).length = nnTrieSparseMax ∧ SparseShape (sparsify mn 0 slots) := by
  have hle' := UInt8.le_iff_toNat_le.1 hle
  have hmx := UInt8.toNat_lt mx
  have hlength : (sparsify mn 0 slots).length = nnTrieSparseMax := by
    rw [length_sparsify]
    exact (degree_dense hle hlen).symm.trans hdeg
  refine ⟨?_, hlength, hlength.le, nodup_sparsify (by omega), ptr_sparsify mn 0 slots⟩
  funext d
  rw [next_sparsify (by omega), next_dense, Nat.zero_add]
  by_cases h1 : mn ≤ d
  · rw [if_pos (UInt8.le_iff_toNat_le.1 h1)]
    by_cases h2 : d ≤ mx
    · rw [if_pos ⟨h1, h2⟩]
    · have h3 := UInt8.lt_iff_toNat_lt.1 (UInt8.not_le.1 h2)
      have h4 := UInt8.le_iff_toNat_le.1 h1
      rw [if_neg (fun h => h2 h.2), List.getElem?_eq_none (by omega)]
      rfl
  · rw [if_neg (fun h => h1 (UInt8.le_iff_toNat_le.2 h)), if_neg (fun h => h1 h.1)]

end NanoSocket.PubSub

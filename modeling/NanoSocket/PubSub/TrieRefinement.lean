import NanoSocket.Lib.Runs
import NanoSocket.PubSub.TrieMatch
import NanoSocket.PubSub.TrieUnsubscribe

/-!
# The subscription trie as a multiset of topics

What the trie is for is a multiset of topics: `nn_trie_subscribe` adds one copy and tells whether it
is the first, `nn_trie_unsubscribe` removes one and tells whether it was the last, and
`nn_trie_match` asks for a topic that is a prefix of the message.

`trie_refines_multiset` is the refinement for whole runs.  It needs two conditions that the code
does not check: a reference count stays below `2 ^ 32`, and no call moves the number of bytes that
continue a subscribed topic across the capacity of a sparse array, because both conversions between
sparse and dense nodes start a new node with the reference count zero.
-/

namespace NanoSocket.PubSub

open Words Runs

/-- A call that changes the trie. -/
inductive TrieOp
  | subscribe (topic : List UInt8)
  | unsubscribe (topic : List UInt8)
  deriving DecidableEq

/-- The call, made on the trie. -/
def TrieOp.exec (root : Option Node) : TrieOp → Except Fault (Option Node × ℤ)
  | .subscribe t => nnTrieSubscribe root t
  | .unsubscribe t => nnTrieUnsubscribe root t

/-- The call, made on the multiset of topics. -/
def TrieOp.spec (s : Multiset (List UInt8)) : TrieOp → Multiset (List UInt8) × ℤ
  | .subscribe t => (t ::ₘ s, if s.count t = 0 then 1 else 0)
  | .unsubscribe t => (s.erase t, if (s.erase t).count t = 0 then 1 else 0)

/-- Only existing subscriptions are removed. -/
def TrieOp.Legal (s : Multiset (List UInt8)) : TrieOp → Prop
  | .subscribe _ => True
  | .unsubscribe t => 0 < s.count t

/-- The bytes that continue the string `p` towards a topic. -/
def nextBytes (s : Multiset (List UInt8)) (p : List UInt8) : Finset UInt8 :=
  (s.filterMap fun t => if p <+: t then t[p.length]? else none).toFinset

/-- The reference count of the topic has room for one more. -/
def TrieOp.Counts (s : Multiset (List UInt8)) : TrieOp → Prop
  | .subscribe t => s.count t + 1 < 2 ^ 32
  | .unsubscribe _ => True

/-- No topic that stays subscribed gets more than `NN_TRIE_SPARSE_MAX` continuations, or loses as
many as to have no more than that. -/
def TrieOp.KeepsModes (s : Multiset (List UInt8)) (op : TrieOp) : Prop :=
  ∀ p ∈ s, p ∈ (op.spec s).1 →
    (nnTrieSparseMax < (nextBytes s p).card ↔ nnTrieSparseMax < (nextBytes (op.spec s).1 p).card)

/-- The condition under which a call does what the specification says. -/
def TrieOp.Safe (s : Multiset (List UInt8)) (op : TrieOp) : Prop :=
  op.Legal s ∧ op.Counts s ∧ op.KeepsModes s

instance (s : Multiset (List UInt8)) (op : TrieOp) : Decidable (op.Legal s) := by
  cases op with
  | subscribe t => exact inferInstanceAs (Decidable True)
  | unsubscribe t => exact inferInstanceAs (Decidable (0 < s.count t))

instance (s : Multiset (List UInt8)) (op : TrieOp) : Decidable (op.Counts s) := by
  cases op with
  | subscribe t => exact inferInstanceAs (Decidable (s.count t + 1 < 2 ^ 32))
  | unsubscribe t => exact inferInstanceAs (Decidable True)

instance (s : Multiset (List UInt8)) (op : TrieOp) : Decidable (op.KeepsModes s) :=
  inferInstanceAs (Decidable (∀ p ∈ s, p ∈ (op.spec s).1 →
    (nnTrieSparseMax < (nextBytes s p).card ↔ nnTrieSparseMax < (nextBytes (op.spec s).1 p).card)))

instance (s : Multiset (List UInt8)) (op : TrieOp) : Decidable (op.Safe s) :=
  inferInstanceAs (Decidable (op.Legal s ∧ op.Counts s ∧ op.KeepsModes s))

/-- Some topic is a prefix of the message. -/
def Subscribes (s : Multiset (List UInt8)) (msg : List UInt8) : Prop := ∃ t ∈ s, t <+: msg

instance (s : Multiset (List UInt8)) (msg : List UInt8) : Decidable (Subscribes s msg) :=
  Multiset.decidableExistsMultiset

/-- The trie below `root` is well formed and holds the topics `s`. -/
structure Holds (root : Option Node) (s : Multiset (List UInt8)) : Prop where
  wf : SlotWf root
  count_eq : count root = fun t => s.count t

theorem holds_init : Holds none 0 := ⟨slotWf_none, by rw [count_none]; funext t; simp⟩

/-! ### One call -/

theorem mem_nextBytes {s : Multiset (List UInt8)} {p : List UInt8} {c : UInt8} :
    c ∈ nextBytes s p ↔ ∃ r, p ++ c :: r ∈ s := by
  simp only [nextBytes, Multiset.mem_toFinset, Multiset.mem_filterMap]
  constructor
  · rintro ⟨t, ht, hc⟩
    split_ifs at hc with hp
    obtain ⟨r, rfl⟩ := hp
    cases r with
    | nil => simp at hc
    | cons d r =>
      simp at hc
      exact ⟨r, hc ▸ ht⟩
  · rintro ⟨r, hr⟩
    exact ⟨_, hr, by simp⟩

theorem follow_count (s : Multiset (List UInt8)) (p : List UInt8) :
    (follow (fun t => s.count t) p).ncard = (nextBytes s p).card := by
  rw [← Set.ncard_coe_finset]
  congr 1
  ext c
  rw [mem_follow, Finset.mem_coe, mem_nextBytes]
  simp only [ne_eq, Multiset.count_eq_zero, not_not]

theorem TrieOp.KeepsModes.steady {s : Multiset (List UInt8)} {op : TrieOp} (h : op.KeepsModes s) :
    Steady nnTrieSparseMax (fun t => s.count t) (fun t => (op.spec s).1.count t) := by
  intro p hp hp'
  rw [follow_count, follow_count]
  exact h p (Multiset.count_ne_zero.1 hp) (Multiset.count_ne_zero.1 hp')

theorem update_count_cons (s : Multiset (List UInt8)) (t : List UInt8) :
    Function.update (fun u => s.count u) t (s.count t + 1) = fun u => (t ::ₘ s).count u := by
  funext u
  by_cases h : u = t
  · subst h; simp
  · simp [h]

theorem update_count_erase (s : Multiset (List UInt8)) (t : List UInt8) :
    Function.update (fun u => s.count u) t (s.count t - 1) = fun u => (s.erase t).count u := by
  funext u
  by_cases h : u = t
  · subst h; simp
  · simp [h]

theorem Holds.subscribe {root : Option Node} {s : Multiset (List UInt8)} (h : Holds root s)
    {t : List UInt8} (hsafe : (TrieOp.subscribe t).Safe s) :
    ∃ root', nnTrieSubscribe root t = .ok (root', if s.count t = 0 then 1 else 0) ∧
      Holds root' (t ::ₘ s) := by
  obtain ⟨-, hlt, hmodes⟩ := hsafe
  have hval : count root t = s.count t := congrFun h.count_eq t
  obtain ⟨⟨n, rc⟩, heq, hsub⟩ := subscribeSlot_spec h.wf t (by rw [hval]; exact hlt)
  have hrc : rc = if s.count t = 0 then 1 else 0 := hval ▸ hsub.rc
  refine ⟨some n, by rw [nnTrieSubscribe, heq, ← hrc]; rfl, hsub.wf.slot, ?_⟩
  have hst := hmodes.steady
  have hcount := hsub.count_eq
  rw [hval, h.count_eq, update_count_cons] at hcount
  exact hcount hst

theorem Holds.unsubscribe {root : Option Node} {s : Multiset (List UInt8)} (h : Holds root s)
    {t : List UInt8} (hsafe : (TrieOp.unsubscribe t).Safe s) :
    ∃ root', nnTrieUnsubscribe root t = .ok (root', if (s.erase t).count t = 0 then 1 else 0) ∧
      Holds root' (s.erase t) := by
  obtain ⟨hpos, -, hmodes⟩ := hsafe
  have hpos : 0 < s.count t := hpos
  have hval : count root t = s.count t := congrFun h.count_eq t
  obtain ⟨⟨root', rc⟩, heq, hsub⟩ := nnNodeUnsubscribe_spec h.wf (t := t) (by rw [hval]; omega)
  have hrc : rc = if (s.erase t).count t = 0 then 1 else 0 := by
    have hiff : s.count t = 1 ↔ (s.erase t).count t = 0 := by
      rw [Multiset.count_erase_self]
      omega
    have := hsub.rc
    simpa only [hval, hiff] using this
  refine ⟨root', by rw [nnTrieUnsubscribe, heq, ← hrc], hsub.wf, ?_⟩
  have hst := hmodes.steady
  have hcount := hsub.count_eq
  rw [hval, h.count_eq, update_count_erase] at hcount
  exact hcount hst

/-- A safe call keeps the correspondence and answers as the specification does. -/
theorem Holds.exec {root : Option Node} {s : Multiset (List UInt8)} (h : Holds root s) (op : TrieOp)
    (hsafe : op.Safe s) :
    ∃ root', op.exec root = .ok (root', (op.spec s).2) ∧ Holds root' (op.spec s).1 := by
  cases op with
  | subscribe t => exact h.subscribe hsafe
  | unsubscribe t => exact h.unsubscribe hsafe

theorem Holds.covers_iff {root : Option Node} {s : Multiset (List UInt8)} (h : Holds root s)
    (msg : List UInt8) : Covers root msg ↔ Subscribes s msg := by
  simp only [Covers, Subscribes, h.count_eq, Multiset.count_ne_zero, and_comm]

/-- `nn_trie_match` answers for the multiset, whatever follows the message in memory, exactly when
the message does not end at a node without subscribers. -/
theorem Holds.match_iff {root : Option Node} {s : Multiset (List UInt8)} (h : Holds root s)
    {msg : List UInt8} (hlen : msg.length < 2 ^ 64) :
    (∀ rest, nnTrieMatch root (msg ++ rest) msg.length =
      .ok (if Subscribes s msg then 1 else 0)) ↔ endsBare root msg = false := by
  constructor
  · intro hall
    rw [← Bool.not_eq_true]
    intro hbare
    have := hall []
    rw [List.append_nil, nnTrieMatch_overrun hlen hbare] at this
    cases this
  · intro hbare rest
    have := Classical.propDecidable (Covers root msg)
    rw [nnTrieMatch_eq hlen hbare rest]
    simp only [h.covers_iff]

/-! ### Runs -/

/-- A run from `nn_trie_init` whose calls are safe answers as the multiset does, and after it the
trie matches a message exactly when a topic is a prefix of it. -/
theorem trie_refines_multiset (ops : List TrieOp) (hsafe : Along TrieOp.spec TrieOp.Safe 0 ops) :
    ∃ root, run TrieOp.exec none ops = .ok (root, (specRun TrieOp.spec 0 ops).2) ∧
      (∀ t, count root t = (specRun TrieOp.spec 0 ops).1.count t) ∧
      ∀ msg : List UInt8, msg.length < 2 ^ 64 →
        ((∀ rest, nnTrieMatch root (msg ++ rest) msg.length =
          .ok (if Subscribes (specRun TrieOp.spec 0 ops).1 msg then 1 else 0)) ↔
        endsBare root msg = false) := by
  obtain ⟨root, heq, h⟩ := run_simulates (R := Holds) (fun _ _ op h hsafe => h.exec op hsafe)
    holds_init hsafe
  exact ⟨root, heq, congrFun h.count_eq, fun msg hlen => h.match_iff hlen⟩

/-- Two topics with a common prefix, one of them subscribed twice and unsubscribed once. -/
theorem trie_refines_multiset_abc :
    ∃ root, run TrieOp.exec none [.subscribe [97, 98, 99], .subscribe [97, 98, 100],
        .subscribe [97, 98, 99], .unsubscribe [97, 98, 99]] = .ok (root, [1, 1, 0, 0]) ∧
      count root [97, 98, 99] = 1 := by
  obtain ⟨root, hrun, hcount, -⟩ := trie_refines_multiset
    [.subscribe [97, 98, 99], .subscribe [97, 98, 100], .subscribe [97, 98, 99],
      .unsubscribe [97, 98, 99]] (by decide)
  exact ⟨root, hrun, (hcount _).trans (by decide)⟩

unseal step4 subscribeSlot nnTrieMatch in
/-- With the empty topic and nine topics of one byte, the empty topic is lost. -/
theorem trie_not_refines_multiset :
    ¬ ∀ ops : List TrieOp, Along TrieOp.spec TrieOp.Legal 0 ops →
      ∃ root, run TrieOp.exec none ops = .ok (root, (specRun TrieOp.spec 0 ops).2) ∧
        ∀ msg rest : List UInt8, msg.length < 2 ^ 64 →
          nnTrieMatch root (msg ++ rest) msg.length =
            .ok (if Subscribes (specRun TrieOp.spec 0 ops).1 msg then 1 else 0) := by
  intro h
  obtain ⟨root, hrun, hmatch⟩ :=
    h (.subscribe [] :: [0, 1, 2, 3, 4, 5, 6, 7, 8].map fun b => .subscribe [b])
    (by decide)
  have hlost : (run TrieOp.exec none (.subscribe [] ::
      [0, 1, 2, 3, 4, 5, 6, 7, 8].map fun b => .subscribe [b]) >>= fun r => nnTrieMatch r.1 [100] 1)
        = .ok 0 := by decide
  rw [hrun] at hlost
  have := hmatch [100] [] (by decide)
  rw [show nnTrieMatch root ([100] ++ []) [(100 : UInt8)].length = .ok 0 from hlost] at this
  exact absurd this (by decide)

end NanoSocket.PubSub

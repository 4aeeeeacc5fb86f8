import NanoSocket.PubSub.TrieRefinement

/-!
# The nodes of a subscription trie

`NodeAt slot s n` says that the node `n` below `slot` stands for the string `s`.  `trie_keeps_sound`
is the invariant of all nodes along a run, and `match_reads_message_iff` tells from the nodes and
the topics whether `nn_trie_match` looks behind the end of a message.
-/

namespace NanoSocket.PubSub

open Words Runs

/-- The node `n` below `slot` stands for the string `s`. -/
inductive NodeAt : Option Node → List UInt8 → Node → Prop
  | root (n : Node) : NodeAt (some n) n.pfx n
  | child {n m : Node} {c : UInt8} {s : List UInt8} (h : NodeAt (n.kids.next c) s m) :
      NodeAt (some n) (n.pfx ++ c :: s) m

theorem not_nodeAt_none {s : List UInt8} {n : Node} : ¬ NodeAt none s n := nofun

theorem NodeAt.pfx_prefix {n m : Node} {s : List UInt8} (h : NodeAt (some n) s m) :
    n.pfx <+: s := by
  cases h with
  | root => exact List.prefix_rfl
  | child h => exact List.prefix_append _ _

theorem nodeAt_below_iff {n m : Node} {c : UInt8} {s : List UInt8} :
    NodeAt (some n) (n.pfx ++ c :: s) m ↔ NodeAt (n.kids.next c) s m := by
  constructor
  · intro h
    generalize ht : n.pfx ++ c :: s = t at h
    cases h with
    | root => simp at ht
    | child h =>
      cases List.append_cancel_left ht
      exact h
  · exact .child

/-! ### Messages -/

/-- A message ends at a node without subscribers when it is the string of a node and no topic is a
prefix of it. -/
theorem endsBare_iff {slot : Option Node} {msg : List UInt8} :
    endsBare slot msg = true ↔ (∃ n, NodeAt slot msg n) ∧ ¬ Covers slot msg := by
  induction hlen : msg.length using Nat.strong_induction_on generalizing slot msg with
  | _ len ih =>
    subst hlen
    cases slot with
    | none =>
      rw [endsBare]
      exact iff_of_false Bool.false_ne_true fun h => not_nodeAt_none h.1.choose_spec
    | some n =>
      by_cases hp : n.pfx <+: msg
      · obtain ⟨r, rfl⟩ := hp
        by_cases hr : n.refcount = 0
        · rw [endsBare_append hr]
          cases r with
          | nil =>
            rw [List.append_nil]
            refine iff_of_true rfl ⟨⟨n, .root n⟩, ?_⟩
            rintro ⟨t, ht, hcount⟩
            rw [count_some] at hcount
            obtain ⟨s, rfl, hs⟩ := under_ne_zero hcount
            have hnil : s = [] := by simpa using ht.length_le
            rw [hnil, fork_nil, hr] at hs
            exact hs rfl
          | cons c r =>
            have hlt : r.length < (n.pfx ++ c :: r).length := by
              rw [List.length_append, List.length_cons]
              omega
            rw [covers_bare_iff hr]
            simp only [nodeAt_below_iff]
            exact ih r.length hlt rfl
        · rw [endsBare, if_neg fun h => hr h.2]
          exact iff_of_false Bool.false_ne_true fun h => h.2 (covers_of_subscribed r hr)
      · rw [endsBare, if_neg fun h => hp h.1]
        exact iff_of_false Bool.false_ne_true fun h => hp h.1.choose_spec.pfx_prefix

/-- The answer depends on the message only, and nothing behind it is read, exactly when the message
is not the string of a node above all topics. -/
theorem match_reads_message_iff (root : Option Node) (msg : List UInt8)
    (hlen : msg.length < 2 ^ 64) :
    ((∀ mem mem', msg <+: mem → msg <+: mem' →
      nnTrieMatch root mem msg.length = nnTrieMatch root mem' msg.length) ∧
      nnTrieMatch root msg msg.length ≠ .error .outOfBounds) ↔
    ¬ ((∃ n, NodeAt root msg n) ∧ ¬ Covers root msg) := by
  rw [← endsBare_iff, Bool.not_eq_true]
  have := Classical.propDecidable (Covers root msg)
  constructor
  · rintro ⟨-, hread⟩
    by_contra hbare
    exact hread (nnTrieMatch_overrun hlen (Bool.not_eq_false _ ▸ hbare))
  · intro hbare
    have heq := nnTrieMatch_eq hlen hbare
    refine ⟨?_, ?_⟩
    · rintro _ _ ⟨rest, rfl⟩ ⟨rest', rfl⟩
      rw [heq rest, heq rest']
    · have hself := heq []
      rw [List.append_nil] at hself
      rw [hself]
      nofun

/-- The trie of two topics that begin alike. -/
def forkedTrie : Except Fault (Option Node) :=
  return (← run TrieOp.exec none [.subscribe [97, 98], .subscribe [97, 99]]).1

unseal step4 subscribeSlot nnTrieMatch in
/-- A message that is what both topics have in common is compared with the memory behind it. -/
theorem match_reads_behind_message :
    (forkedTrie >>= fun root => nnTrieMatch root [97, 98] 1) = .ok 1 ∧
      (forkedTrie >>= fun root => nnTrieMatch root [97, 100] 1) = .ok 0 ∧
      (forkedTrie >>= fun root => nnTrieMatch root [97] 1) = .error .outOfBounds := by
  decide

/-- A message that the trie of one topic does not lead to. -/
theorem match_reads_message_iff_b :
    (∀ mem mem', [98] <+: mem → [98] <+: mem' → nnTrieMatch (some ⟨1, [97], .sparse []⟩) mem 1 =
        nnTrieMatch (some ⟨1, [97], .sparse []⟩) mem' 1) ∧
      nnTrieMatch (some ⟨1, [97], .sparse []⟩) [98] 1 ≠ .error .outOfBounds := by
  refine (match_reads_message_iff (some ⟨1, [97], .sparse []⟩) [98] (by decide)).2 ?_
  rintro ⟨⟨n, hn⟩, -⟩
  exact absurd hn.pfx_prefix (by decide)

/-! ### Runs -/

/-- What every node keeps. -/
structure Node.Sound (n : Node) : Prop where
  pfx_le : n.pfx.length ≤ nnTriePrefixMax
  shape : n.kids.Shape
  leaf : n.refcount = 0 → ∃ c, n.kids.next c ≠ none

theorem Node.Wf.sound {n : Node} (h : n.Wf) : n.Sound := by
  refine ⟨h.pfx_le, h.shape, fun hr => ?_⟩
  by_contra hno
  push Not at hno
  apply h.leaf hr
  rw [degree, Finset.card_eq_zero, Finset.filter_eq_empty_iff]
  intro c _
  simp [hno c]

theorem NodeAt.wf {slot : Option Node} {s : List UInt8} {n : Node} (h : NodeAt slot s n)
    (hslot : SlotWf slot) :
    n.Wf := by
  induction h with
  | root n => exact hslot n rfl
  | child _ ih => exact ih ((hslot _ rfl).slot_next _)

/-- Only topics whose node has a positive reference count are unsubscribed. -/
def TrieOp.Subscribed (root : Option Node) : TrieOp → Prop
  | .subscribe _ => True
  | .unsubscribe t => count root t ≠ 0

/-- A subscription does not make the reference count of its node wrap. -/
def TrieOp.Room (root : Option Node) : TrieOp → Prop
  | .subscribe t => count root t + 1 < 2 ^ 32
  | .unsubscribe _ => True

instance (root : Option Node) : (op : TrieOp) → Decidable (op.Subscribed root)
  | .subscribe _ => .isTrue trivial
  | .unsubscribe t => inferInstanceAs (Decidable (count root t ≠ 0))

instance (root : Option Node) : (op : TrieOp) → Decidable (op.Room root)
  | .subscribe t => inferInstanceAs (Decidable (count root t + 1 < 2 ^ 32))
  | .unsubscribe _ => .isTrue trivial

theorem exec_wf {root : Option Node} (h : SlotWf root) {op : TrieOp} (hsub : op.Subscribed root)
    (hroom : op.Room root) : ∃ r, op.exec root = .ok r ∧ SlotWf r.1 := by
  cases op with
  | subscribe t =>
    obtain ⟨r, heq, hr⟩ := subscribeSlot_spec h t hroom
    refine ⟨(some r.1, r.2), ?_, hr.wf.slot⟩
    unfold TrieOp.exec nnTrieSubscribe
    simp only
    rw [heq]
    rfl
  | unsubscribe t =>
    obtain ⟨r, heq, hr⟩ := nnNodeUnsubscribe_spec h hsub
    exact ⟨r, heq, hr.wf⟩

/-- Along a run without a wrapped reference count every node is sound, and no call fails an
assertion. -/
theorem trie_keeps_sound (ops : List TrieOp) (root : Option Node)
    (h : Trace TrieOp.exec (fun root op => op.Subscribed root ∧ op.Room root) none ops root) :
    (∀ s n, NodeAt root s n → n.Sound) ∧
      ∀ op : TrieOp, op.Subscribed root → op.Room root → ∃ r, op.exec root = .ok r := by
  have hwf : SlotWf root := by
    apply h.invariant_of_step (I := fun _ root => SlotWf root) slotWf_none
    intro _ root op hroot hop
    obtain ⟨r, heq, hr⟩ := exec_wf hroot hop.1 hop.2
    exact ⟨r.1, r.2, heq, hr⟩
  refine ⟨fun s n hn => (hn.wf hwf).sound, fun op hsub hroom => ?_⟩
  obtain ⟨r, heq, -⟩ := exec_wf hwf hsub hroom
  exact ⟨r, heq⟩

theorem exec_none_subscribe (t : List UInt8) :
    TrieOp.exec none (.subscribe t) = .ok (some (step4 t).1, (step4 t).2) := by
  unfold TrieOp.exec nnTrieSubscribe
  simp only
  rw [subscribeSlot, ok_bind]
  rfl

unseal step4 subscribeSlot nnNodeUnsubscribe count in
/-- Of three topics one is subscribed twice and unsubscribed once.  What two of them have in common
is left as a node of its own. -/
theorem trie_keeps_sound_abc : ∃ root n,
    Trace TrieOp.exec (fun root op => op.Subscribed root ∧ op.Room root) none
      [.subscribe [97, 98, 99], .subscribe [97, 98, 100], .subscribe [97, 98, 99], .subscribe [98],
        .unsubscribe [97, 98, 99]] root ∧
      (count root [97, 98, 99], count root [97, 98, 100], count root [98]) = (1, 1, 1) ∧
      NodeAt root [97, 98] n ∧ n.refcount = 0 ∧ n.Sound := by
  have hrun : ∃ root, Trace TrieOp.exec (fun root op => op.Subscribed root ∧ op.Room root) none
      [.subscribe [97, 98, 99], .subscribe [97, 98, 100], .subscribe [97, 98, 99], .subscribe [98],
        .unsubscribe [97, 98, 99]] root ∧
      (count root [97, 98, 99], count root [97, 98, 100], count root [98]) = (1, 1, 1) ∧
      root.map Node.pfx = some [] ∧
      ((root.bind fun r => r.kids.next 97).map fun n => (n.pfx, n.refcount)) = some ([98], 0) :=
    Trace.exists_of_runWhile (by decide)
  obtain ⟨root, h, hcount, hroot, hnext⟩ := hrun
  obtain ⟨r, rfl, hpfx⟩ := Option.map_eq_some_iff.1 hroot
  obtain ⟨n, hn, hfork⟩ := Option.map_eq_some_iff.1 hnext
  obtain ⟨hnpfx, href⟩ := Prod.mk.inj hfork
  have hnext : r.kids.next 97 = some n := hn
  have hat : NodeAt (some r) (r.pfx ++ 97 :: n.pfx) n := .child (hnext ▸ .root n)
  rw [hpfx, hnpfx] at hat
  exact ⟨some r, n, h, hcount, hat, href, (trie_keeps_sound _ _ h).1 _ _ hat⟩

theorem exec_subscribe_nil (r : UInt32) :
    TrieOp.exec (some ⟨r, [], .sparse []⟩) (.subscribe []) =
      .ok (some ⟨r + 1, [], .sparse []⟩, if r + 1 = 1 then 1 else 0) := by
  unfold TrieOp.exec nnTrieSubscribe
  simp only
  rw [subscribeSlot]
  rfl

/-- The trie after subscriptions to the empty topic only. -/
theorem trace_subscribe_nil (k : ℕ) :
    Trace TrieOp.exec (fun root op => op.Subscribed root) none
      (List.replicate (k + 1) (.subscribe []))
      (some ⟨UInt32.ofNat (k + 1), [], .sparse []⟩) := by
  induction k with
  | zero =>
    have hstep : step4 [] = (⟨1, [], .sparse []⟩, 1) := by
      rw [step4]
      rfl
    have heq := exec_none_subscribe []
    rw [hstep] at heq
    exact .snoc .nil trivial heq
  | succ k ih =>
    rw [List.replicate_succ']
    have heq := exec_subscribe_nil (UInt32.ofNat (k + 1))
    rw [← UInt32.ofNat_one, ← UInt32.ofNat_add] at heq
    exact ih.snoc trivial heq

/-- The reference count of the empty topic wraps, and a node is left that has neither subscribers
nor children. -/
theorem trie_loses_sound :
    ∃ ops root, Trace TrieOp.exec (fun root op => op.Subscribed root) none ops root ∧
    ∃ s n, NodeAt root s n ∧ ¬ n.Sound := by
  refine ⟨_, _, trace_subscribe_nil (2 ^ 32 - 1), _, _, .root _, fun h => ?_⟩
  obtain ⟨c, hc⟩ := h.leaf rfl
  exact hc rfl

end NanoSocket.PubSub

import NanoSocket.PubSub.TrieSubscribe

/-!
# `nn_trie_match`

The loop follows the message down the trie until a node with subscribers is passed.  It reads the
next byte of the message without testing `size`: when the message ends exactly at a node without
subscribers, the read is behind its end and `size` wraps around.  The memory at `data` is therefore
a list of its own, the message being its first `size` bytes; a read behind the memory is a fault.

`nnTrieMatch_eq` and `nnTrieMatch_overrun` give the answer for every trie and every message.
-/

namespace NanoSocket.PubSub

open Words

/-- `--size` on a `size_t`. -/
def decSize (size : ℕ) : ℕ := (size + (2 ^ 64 - 1)) % 2 ^ 64

/-- `nn_trie_match`, from the node `node` on. -/
def nnTrieMatch : Option Node → List UInt8 → ℕ → Except Fault ℤ
  | none, _, _ => .ok 0
  | some node, data, size => do
    let pos ← nnNodeCheckPrefix node.pfx data size
    if pos ≠ node.pfx.length then return 0
    if nnNodeHasSubscribers node then return 1
    match _h : data.drop node.pfx.length with
    | [] => .error .outOfBounds
    | c :: data => nnTrieMatch (node.kids.next c) data (decSize (size - node.pfx.length))
  termination_by _ data => data.length
  decreasing_by
    have := congrArg List.length _h
    simp only [List.length_drop, List.length_cons] at this
    omega

/-- The message `t` ends exactly at a node without subscribers, and so does every node above it. -/
def endsBare : Option Node → List UInt8 → Bool
  | none, _ => false
  | some n, t =>
    if n.pfx <+: t ∧ n.refcount = 0 then
      match _h : t.drop n.pfx.length with
      | [] => true
      | c :: r => endsBare (n.kids.next c) r
    else false
  termination_by _ t => t.length
  decreasing_by
    have := congrArg List.length _h
    simp only [List.length_drop, List.length_cons] at this
    omega

/-- Some topic below `slot` is a prefix of the message. -/
def Covers (slot : Option Node) (msg : List UInt8) : Prop := ∃ t, t <+: msg ∧ count slot t ≠ 0

theorem not_covers_none (msg : List UInt8) : ¬ Covers none msg := by
  rintro ⟨t, -, ht⟩
  exact ht (by rw [count_none]; rfl)

theorem not_covers_of_not {n : Node} {msg : List UInt8} (h : ¬ n.pfx <+: msg) :
    ¬ Covers (some n) msg := by
  rintro ⟨t, ht, hc⟩
  rw [count_some] at hc
  obtain ⟨r, rfl, -⟩ := under_ne_zero hc
  exact h ((List.prefix_append _ _).trans ht)

theorem covers_of_subscribed {n : Node} (r : List UInt8) (h : n.refcount ≠ 0) :
    Covers (some n) (n.pfx ++ r) := by
  refine ⟨n.pfx, List.prefix_append _ _, ?_⟩
  rw [count_some, under_apply_self, fork_nil]
  exact fun h0 => h (UInt32.toNat_inj.1 h0)

/-- Below a node without subscribers the message is matched by a child. -/
theorem covers_bare_iff {n : Node} (h : n.refcount = 0) (c : UInt8) (r : List UInt8) :
    Covers (some n) (n.pfx ++ c :: r) ↔ Covers (n.kids.next c) r := by
  constructor
  · rintro ⟨t, ht, hc⟩
    rw [count_some] at hc
    obtain ⟨s, rfl, hs⟩ := under_ne_zero hc
    cases s with
    | nil => rw [fork_nil, h] at hs; exact absurd rfl hs
    | cons d s =>
      rw [List.prefix_append_right_inj, List.cons_prefix_cons] at ht
      obtain ⟨rfl, ht⟩ := ht
      exact ⟨s, ht, hs⟩
  · rintro ⟨t, ht, hc⟩
    refine ⟨n.pfx ++ c :: t, ?_, ?_⟩
    · rwa [List.prefix_append_right_inj, List.cons_prefix_cons, and_iff_right rfl]
    · rwa [count_some, under_apply_append, fork_cons]

theorem decSize_length (c : UInt8) (r : List UInt8) (h : (c :: r).length < 2 ^ 64) :
    decSize (c :: r).length = r.length := by
  simp only [decSize, List.length_cons] at h ⊢
  omega

/-- Only bytes of the message are compared with a prefix. -/
theorem nnNodeCheckPrefix_append_memory (pfx msg rest : List UInt8) :
    nnNodeCheckPrefix pfx (msg ++ rest) msg.length = nnNodeCheckPrefix pfx msg msg.length := by
  induction pfx generalizing msg with
  | nil => rfl
  | cons p ps ih =>
    cases msg with
    | nil => simp [nnNodeCheckPrefix]
    | cons d ds =>
      simp only [nnNodeCheckPrefix, List.cons_append, List.length_cons, Nat.add_sub_cancel, ih]

theorem endsBare_append {n : Node} (hr : n.refcount = 0) (r : List UInt8) :
    endsBare (some n) (n.pfx ++ r) =
      match r with
      | [] => true
      | c :: r => endsBare (n.kids.next c) r := by
  rw [endsBare, if_pos ⟨List.prefix_append _ _, hr⟩]
  split <;> rename_i hdrop <;> rw [List.drop_left] at hdrop <;> subst hdrop <;> rfl

/-- One turn of the loop at a node without subscribers whose prefix matches. -/
theorem nnTrieMatch_bare {n : Node} (hr : n.refcount = 0) (c : UInt8) (r rest : List UInt8)
    (hlen : (n.pfx ++ c :: r).length < 2 ^ 64) :
    nnTrieMatch (some n) (n.pfx ++ c :: r ++ rest) (n.pfx ++ c :: r).length =
      nnTrieMatch (n.kids.next c) (r ++ rest) r.length := by
  have hs : nnNodeHasSubscribers n = false := by simpa [nnNodeHasSubscribers] using hr
  rw [nnTrieMatch, nnNodeCheckPrefix_append_memory, nnNodeCheckPrefix_append, ok_bind,
    if_neg (by simp), hs, if_neg (by simp)]
  split <;> rename_i hdrop <;> rw [List.append_assoc, List.drop_left] at hdrop <;> cases hdrop
  rw [List.length_append] at hlen ⊢
  rw [Nat.add_sub_cancel_left, decSize_length c r (by omega)]
  rfl

/-- The answer for a message that does not end at a node without subscribers, whatever follows it in
memory. -/
theorem nnTrieMatch_eq {slot : Option Node} {msg : List UInt8} (hlen : msg.length < 2 ^ 64)
    (h : endsBare slot msg = false) (rest : List UInt8) [Decidable (Covers slot msg)] :
    nnTrieMatch slot (msg ++ rest) msg.length = .ok (if Covers slot msg then 1 else 0) := by
  induction hn : msg.length using Nat.strong_induction_on generalizing slot msg with
  | _ len ih =>
    subst hn
    cases slot with
    | none => rw [nnTrieMatch, if_neg (not_covers_none msg)]
    | some n =>
      by_cases hp : n.pfx <+: msg
      · obtain ⟨r, rfl⟩ := hp
        by_cases hr : n.refcount = 0
        · rw [endsBare_append hr] at h
          cases r with
          | nil => cases h
          | cons c r =>
            have := Classical.propDecidable (Covers (n.kids.next c) r)
            have hlt : r.length < (n.pfx ++ c :: r).length := by
              rw [List.length_append, List.length_cons]
              omega
            rw [nnTrieMatch_bare hr c r rest hlen, ih r.length hlt (hlt.trans hlen) h rfl]
            simp only [covers_bare_iff hr]
        · have hs : nnNodeHasSubscribers n = true := by simpa [nnNodeHasSubscribers] using hr
          rw [nnTrieMatch, nnNodeCheckPrefix_append_memory, nnNodeCheckPrefix_append, ok_bind,
            if_neg (by simp), hs, if_pos rfl, if_pos (covers_of_subscribed r hr)]
          rfl
      · obtain ⟨pos, hpos, hlt, -, -⟩ := nnNodeCheckPrefix_lt_of_not hp
        rw [nnTrieMatch, nnNodeCheckPrefix_append_memory, hpos, ok_bind, if_pos hlt.ne,
          if_neg (not_covers_of_not hp)]
        rfl

/-- A message that ends at a node without subscribers makes `nn_trie_match` read behind it. -/
theorem nnTrieMatch_overrun {slot : Option Node} {msg : List UInt8} (hlen : msg.length < 2 ^ 64)
    (h : endsBare slot msg = true) :
    nnTrieMatch slot msg msg.length = .error .outOfBounds := by
  induction hn : msg.length using Nat.strong_induction_on generalizing slot msg with
  | _ len ih =>
    subst hn
    cases slot with
    | none => rw [endsBare] at h; cases h
    | some n =>
      have hp : n.pfx <+: msg ∧ n.refcount = 0 := by
        by_contra hp
        rw [endsBare, if_neg hp] at h
        cases h
      obtain ⟨⟨r, rfl⟩, hr⟩ := hp
      rw [endsBare_append hr] at h
      cases r with
      | nil =>
        have hs : nnNodeHasSubscribers n = false := by simpa [nnNodeHasSubscribers] using hr
        rw [nnTrieMatch, nnNodeCheckPrefix_append, ok_bind, if_neg (by simp), hs, if_neg (by simp)]
        split
        · rfl
        · rename_i hdrop
          simp at hdrop
      | cons c r =>
        have hlt : r.length < (n.pfx ++ c :: r).length := by
          rw [List.length_append, List.length_cons]
          omega
        have hturn := nnTrieMatch_bare hr c r [] hlen
        rw [List.append_nil, List.append_nil] at hturn
        rw [hturn]
        exact ih r.length hlt (hlt.trans hlen) h rfl

end NanoSocket.PubSub

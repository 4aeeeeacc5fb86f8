import Mathlib.Tactic

/-!
# Slices of a list

`slice l i n` are the `n` elements of a list from the position `i` on, and `splice l i bs` is the
list with `bs` written over the elements from there on.  The elements of both are known
(`getElem?_slice`, `getElem?_splice`), and from these how reads and writes at several places of one
buffer go together.
-/

namespace Slice

variable {α : Type*} {l bs cs : List α} {i j m n : ℕ}

/-- The elements from a position on. -/
def slice (l : List α) (i n : ℕ) : List α := (l.drop i).take n

/-- Other elements from a position on. -/
def splice (l : List α) (i : ℕ) (bs : List α) : List α := l.take i ++ bs ++ l.drop (i + bs.length)

theorem getElem?_slice (l : List α) (i n k : ℕ) :
    (slice l i n)[k]? = if k < n then l[i + k]? else none := by
  rw [slice, List.getElem?_take, List.getElem?_drop]

theorem length_slice (h : i + n ≤ l.length) : (slice l i n).length = n := by
  rw [slice, List.length_take, List.length_drop]
  omega

theorem length_slice_le (l : List α) (i n : ℕ) : (slice l i n).length ≤ n := by
  rw [slice, List.length_take]
  exact min_le_left ..

theorem length_splice (h : i + bs.length ≤ l.length) : (splice l i bs).length = l.length := by
  simp only [splice, List.length_append, List.length_take, List.length_drop]
  omega

theorem getElem?_splice (h : i + bs.length ≤ l.length) (k : ℕ) :
    (splice l i bs)[k]? = if k < i then l[k]? else if k < i + bs.length then bs[k - i]?
      else l[k]? := by
  have hi : (l.take i).length = i := by
    rw [List.length_take]
    omega
  have hib : (l.take i ++ bs).length = i + bs.length := by rw [List.length_append, hi]
  unfold splice
  split_ifs with hk hkb
  · rw [List.getElem?_append_left (by omega), List.getElem?_append_left (by omega),
      List.getElem?_take_of_lt hk]
  · rw [List.getElem?_append_left (by omega), List.getElem?_append_right (by omega), hi]
  · rw [List.getElem?_append_right (by omega), hib, List.getElem?_drop]
    congr 1
    omega

/-- What stands in front is left alone. -/
theorem splice_append (h : l.length ≤ i) :
    splice (l ++ cs) i bs = l ++ splice cs (i - l.length) bs := by
  have hdrop : i + bs.length - l.length = i - l.length + bs.length := by omega
  rw [splice, splice, List.take_append, List.take_of_length_le h, List.drop_append,
    List.drop_of_length_le (by omega), List.nil_append, hdrop]
  simp only [List.append_assoc]

/-! ### One slice -/

theorem slice_add (l : List α) (i m n : ℕ) :
    slice l i (m + n) = slice l i m ++ slice l (i + m) n := by
  rw [slice, List.take_add, List.drop_drop, slice, slice]

/-- Two neighbouring slices that are known. -/
theorem slice_append (hb : slice l i bs.length = bs) (hc : slice l (i + bs.length) n = cs) :
    slice l i (bs.length + n) = bs ++ cs := by
  rw [slice_add, hb, hc]

theorem slice_take (h : slice l i n = bs) (hmn : m ≤ n) : slice l i m = bs.take m := by
  rw [← h, slice, slice, List.take_take, min_eq_left hmn]

theorem slice_drop (h : slice l i (m + n) = bs) : slice l (i + m) n = bs.drop m := by
  rw [← h, slice, slice, List.drop_take, List.drop_drop, Nat.add_sub_cancel_left]

/-! ### Slices of what was written -/

section Splice

variable (h : i + bs.length ≤ l.length)

include h

theorem slice_splice_self : slice (splice l i bs) i bs.length = bs := by
  apply List.ext_getElem?
  intro k
  rw [getElem?_slice, getElem?_splice h]
  split_ifs with hk h1 h2
  · omega
  · rw [Nat.add_sub_cancel_left]
  · omega
  · rw [List.getElem?_eq_none (by omega)]

theorem slice_splice_before (hj : j + n ≤ i) : slice (splice l i bs) j n = slice l j n := by
  apply List.ext_getElem?
  intro k
  rw [getElem?_slice, getElem?_slice, getElem?_splice h]
  split_ifs with hk h1 h2
  · rfl
  · omega
  · rfl
  · rfl

theorem slice_splice_after (hj : i + bs.length ≤ j) : slice (splice l i bs) j n = slice l j n := by
  apply List.ext_getElem?
  intro k
  rw [getElem?_slice, getElem?_slice, getElem?_splice h]
  split_ifs with hk h1 h2
  · rfl
  · omega
  · rfl
  · rfl

omit h in
/-- Nothing changes when what is there is written. -/
theorem splice_slice (hs : slice l i bs.length = bs) : splice l i bs = l := by
  unfold splice
  conv_rhs => rw [← List.take_append_drop i l, ← List.take_append_drop bs.length (l.drop i)]
  rw [List.drop_drop, List.append_assoc, show (l.drop i).take bs.length = bs from hs]

end Splice

/-- Writing in front of what was written. -/
theorem splice_splice (h : i + cs.length + bs.length ≤ l.length) :
    splice (splice l (i + cs.length) bs) i cs = splice l i (cs ++ bs) := by
  have hlen : i + cs.length ≤ (splice l (i + cs.length) bs).length := by
    rw [length_splice h]
    omega
  have happend : i + (cs ++ bs).length ≤ l.length := by
    rw [List.length_append]
    omega
  apply List.ext_getElem?
  intro k
  rw [getElem?_splice hlen, getElem?_splice h, getElem?_splice happend, List.length_append]
  split_ifs with h1 h2 h3 h4 h5 h6 h7
  all_goals first | rfl | omega | skip
  · rw [List.getElem?_append_left (by omega)]
  · rw [List.getElem?_append_right (by omega)]
    congr 1
    omega

/-- What a write leaves of a slice that begins `n` places behind it. -/
theorem slice_splice_shift (h : i + bs.length ≤ l.length) (n : ℕ) :
    slice (splice l i bs) (i + n) bs.length = bs.drop n ++ (slice l (i + n) bs.length).drop
      (bs.length - n) := by
  apply List.ext_getElem?
  intro k
  rw [getElem?_slice, getElem?_splice h]
  by_cases hk : k < bs.length - n
  · rw [List.getElem?_append_left (by rw [List.length_drop]; exact hk), List.getElem?_drop,
      if_pos (by omega), if_neg (by omega), if_pos (by omega)]
    congr 1
    omega
  · rw [List.getElem?_append_right (by rw [List.length_drop]; omega), List.length_drop,
      List.getElem?_drop, getElem?_slice, Nat.add_sub_cancel' (not_lt.1 hk)]
    split_ifs with h1 h2 h3
    all_goals first | rfl | omega

/-- A slice survives a write in front of it when the write repeats it. -/
theorem slice_splice_eq_iff (h : i + bs.length ≤ l.length) (hcs : slice l (i + n) bs.length = cs) :
    slice (splice l i bs) (i + n) bs.length = cs ↔ bs.drop n <+: cs := by
  rw [slice_splice_shift h, hcs]
  constructor
  · intro heq
    exact ⟨_, heq⟩
  · rintro ⟨t, rfl⟩
    rw [List.drop_left' (List.length_drop ..)]

end Slice

import Mathlib.Tactic
import Mathlib.Data.List.TakeWhile

/-!
# Lists in the order of a key

`Sorts key l arrivals` says that `l` holds the elements of `arrivals` in the order of a key, and
those with the same key in the order in which they arrived.  Inserting an element behind all that
are not greater keeps this (`Sorts.insert`), and so does removing elements (`Sorts.filter`).  The
head of such a list is the first of the least arrivals (`Sorts.head?_eq`).
-/

namespace StableOrder

variable {α κ : Type*} [LinearOrder κ] {key : α → κ}

/-- The elements of `arrivals`, in the order of the key and then of arrival. -/
structure Sorts (key : α → κ) (l arrivals : List α) : Prop where
  sorted : l.Pairwise fun a b => key a ≤ key b
  stable : ∀ k, (l.filter fun a => key a = k) = arrivals.filter fun a => key a = k

/-- The first of the elements whose key is least. -/
def earliest (key : α → κ) (l : List α) : Option α := l.find? fun a => ∀ b ∈ l, key a ≤ key b

/-- Put an element in front of the first one that is greater. -/
def insert (key : α → κ) (a : α) (l : List α) : List α :=
  (l.takeWhile fun b => ¬ key a < key b) ++ a :: l.dropWhile fun b => ¬ key a < key b

theorem Sorts.nil : Sorts key [] [] := ⟨List.Pairwise.nil, fun _ => rfl⟩

theorem Sorts.mem_iff {l arrivals : List α} (h : Sorts key l arrivals) {a : α} :
    a ∈ l ↔ a ∈ arrivals := by
  have hfilter : a ∈ l.filter (fun b => key b = key a) ↔ a ∈ arrivals.filter fun b =>
      key b = key a := by
    rw [h.stable]
  simpa using hfilter

theorem Sorts.perm [DecidableEq α] {l arrivals : List α} (h : Sorts key l arrivals) :
    l.Perm arrivals := by
  rw [List.perm_iff_count]
  intro a
  have hcount := congrArg (List.count a) (h.stable (key a))
  rwa [List.count_filter (by simp), List.count_filter (by simp)] at hcount

theorem Sorts.filter {l arrivals : List α} (h : Sorts key l arrivals) (p : α → Bool) :
    Sorts key (l.filter p) (arrivals.filter p) := by
  refine ⟨h.sorted.filter p, fun k => ?_⟩
  rw [List.filter_comm, h.stable, List.filter_comm]

/-- Behind the place of insertion everything is greater. -/
theorem lt_of_mem_dropWhile {a b : α} {l : List α} (hs : l.Pairwise fun a b => key a ≤ key b)
    (hb : b ∈ l.dropWhile fun b => ¬ key a < key b) : key a < key b := by
  induction l with
  | nil => cases hb
  | cons c l ih =>
    rw [List.pairwise_cons] at hs
    by_cases hc : key a < key c
    · rw [List.dropWhile_cons_of_neg (by simpa using hc), List.mem_cons] at hb
      rcases hb with rfl | hb
      · exact hc
      · exact hc.trans_le (hs.1 b hb)
    · rw [List.dropWhile_cons_of_pos (by simpa using hc)] at hb
      exact ih hs.2 hb

theorem le_of_mem_takeWhile {a b : α} {l : List α} (hb : b ∈ l.takeWhile fun b => ¬ key a < key b) :
    key b ≤ key a := by
  simpa using List.mem_takeWhile_imp hb

theorem Sorts.insert {l arrivals : List α} (h : Sorts key l arrivals) (a : α) :
    Sorts key (insert key a l) (arrivals ++ [a]) := by
  have hsplit :
      (l.takeWhile fun b => ¬ key a < key b) ++ (l.dropWhile fun b => ¬ key a < key b) = l :=
    List.takeWhile_append_dropWhile
  have hs := h.sorted
  rw [← hsplit, List.pairwise_append] at hs
  obtain ⟨hbefore, hafter, hacross⟩ := hs
  constructor
  · rw [StableOrder.insert, List.pairwise_append, List.pairwise_cons]
    refine ⟨hbefore, ⟨fun b hb => (lt_of_mem_dropWhile h.sorted hb).le, hafter⟩, ?_⟩
    intro b hb c hc
    rcases List.mem_cons.1 hc with rfl | hc
    · exact le_of_mem_takeWhile hb
    · exact hacross b hb c hc
  · intro k
    rw [List.filter_append, ← h.stable k, StableOrder.insert, List.filter_append]
    nth_rewrite 3 [← hsplit]
    rw [List.filter_append, List.append_assoc]
    congr 1
    by_cases hk : key a = k
    · -- what stands behind the new element has a greater key
      have hnone : ((l.dropWhile fun b => ¬ key a < key b).filter fun b => key b = k) = [] := by
        rw [List.filter_eq_nil_iff]
        intro b hb
        have hlt := lt_of_mem_dropWhile h.sorted hb
        simpa [← hk] using hlt.ne'
      rw [List.filter_cons_of_pos (by simpa using hk), hnone, List.nil_append,
        List.filter_cons_of_pos (by simpa using hk), List.filter_nil]
    · simp [hk]

/-- The head is the first arrival of those with the least key. -/
theorem Sorts.head?_eq {l arrivals : List α} (h : Sorts key l arrivals) :
    l.head? = earliest key arrivals := by
  cases hl : l with
  | nil =>
    have hempty : arrivals = [] := by
      rw [List.eq_nil_iff_forall_not_mem]
      intro a ha
      rw [← h.mem_iff, hl] at ha
      cases ha
    rw [hempty]
    rfl
  | cons a l' =>
    have hs := h.sorted
    rw [hl, List.pairwise_cons] at hs
    have hle : ∀ b ∈ arrivals, key a ≤ key b := by
      intro b hb
      rw [← h.mem_iff, hl, List.mem_cons] at hb
      rcases hb with rfl | hb
      · exact le_rfl
      · exact hs.1 b hb
    have ha : a ∈ arrivals := by
      rw [← h.mem_iff, hl]
      exact List.mem_cons_self
    have hleast : earliest key arrivals = arrivals.find? fun b => key b = key a := by
      apply List.find?_congr
      intro b hb
      rw [decide_eq_decide]
      constructor
      · exact fun hb' => (hb' a ha).antisymm (hle b hb)
      · exact fun heq c hc => heq ▸ hle c hc
    rw [hleast, ← List.head?_filter, ← h.stable, hl]
    simp

end StableOrder

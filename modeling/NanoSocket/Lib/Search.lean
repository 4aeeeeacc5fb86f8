import Mathlib.Tactic

/-!
# Searching for a pattern

`cut pat l` splits a list at the first place where a pattern stands.  `border pat l` is the length
of the longest front of a pattern with which a list ends: a reader that has not met the pattern yet
and asks for `pat.length - border pat l` more elements cannot read past the end of its next
occurrence (`not_suffix_of_lt`).
-/

namespace Search

variable {α : Type*} [DecidableEq α]

/-- What stands before the first occurrence of a pattern, and what behind it. -/
def cut (pat : List α) : List α → Option (List α × List α)
  | [] => if pat = [] then some ([], []) else none
  | a :: l =>
    if pat <+: a :: l then some ([], (a :: l).drop pat.length)
    else (cut pat l).map fun r => (a :: r.1, r.2)

theorem eq_of_cut {pat l x y : List α} (h : cut pat l = some (x, y)) : l = x ++ pat ++ y := by
  induction l generalizing x with
  | nil =>
    rw [cut] at h
    split_ifs at h with hpat
    cases h
    simp [hpat]
  | cons a l ih =>
    rw [cut] at h
    split_ifs at h with hpre
    · cases h
      rw [List.nil_append]
      exact (List.prefix_append_drop hpre)
    · obtain ⟨r, hr, heq⟩ := Option.map_eq_some_iff.1 h
      cases heq
      rw [List.cons_append, List.cons_append, ← ih hr]

theorem cut_eq_none {pat l : List α} : cut pat l = none ↔ ¬ pat <:+: l := by
  induction l with
  | nil =>
    rw [cut]
    split_ifs with hpat
    · simp [hpat]
    · simp [hpat]
  | cons a l ih =>
    rw [cut, List.infix_cons_iff]
    split_ifs with hpre
    · simp [hpre]
    · simp [hpre, ih]

/-- A pattern is found where it stands when it does not end earlier. -/
theorem cut_append {pat x : List α} (hne : pat ≠ [])
    (h : ¬ pat <:+: x ++ pat.dropLast) (y : List α) :
    cut pat (x ++ pat ++ y) = some (x, y) := by
  induction x with
  | nil =>
    obtain ⟨a, p, rfl⟩ := List.exists_cons_of_ne_nil hne
    rw [List.nil_append, List.cons_append, cut,
      if_pos (by rw [← List.cons_append]; exact List.prefix_append _ _), ← List.cons_append,
      List.drop_left]
  | cons a x ih =>
    rw [List.cons_append, List.infix_cons_iff, not_or] at h
    have hpre : ¬ pat <+: a :: (x ++ pat ++ y) := by
      intro hpre
      refine h.1 ?_
      have hle : a :: (x ++ pat.dropLast) <+: a :: (x ++ pat ++ y) := by
        rw [List.cons_prefix_cons]
        refine ⟨rfl, ?_⟩
        rw [List.append_assoc]
        refine (List.prefix_append_right_inj x).2 ?_
        exact (List.dropLast_prefix pat).trans (List.prefix_append _ _)
      refine List.prefix_of_prefix_length_le hpre hle ?_
      have hpos := List.length_pos_of_ne_nil hne
      rw [List.length_cons, List.length_append, List.length_dropLast]
      omega
    rw [List.cons_append, List.cons_append, cut, if_neg hpre, ih h.2]
    rfl

/-- The first occurrence is found. -/
theorem not_infix_of_cut {pat l x y : List α} (hne : pat ≠ []) (h : cut pat l = some (x, y)) :
    ¬ pat <:+: x ++ pat.dropLast := by
  induction l generalizing x with
  | nil =>
    rw [cut, if_neg hne] at h
    cases h
  | cons a l ih =>
    rw [cut] at h
    split_ifs at h with hpre
    · cases h
      intro hin
      have hle := hin.length_le
      have hpos := List.length_pos_of_ne_nil hne
      rw [List.nil_append, List.length_dropLast] at hle
      omega
    · obtain ⟨r, hr, heq⟩ := Option.map_eq_some_iff.1 h
      cases heq
      rw [List.cons_append, List.infix_cons_iff, not_or]
      refine ⟨fun hcons => hpre ?_, ih hr⟩
      refine hcons.trans ?_
      rw [eq_of_cut hr, List.cons_prefix_cons, List.append_assoc]
      exact ⟨rfl, (List.prefix_append_right_inj r.1).2
        ((List.dropLast_prefix pat).trans (List.prefix_append _ _))⟩

/-- The longest front of a pattern, of length at most `n`, with which a list ends. -/
def border (pat l : List α) : ℕ → ℕ
  | 0 => 0
  | n + 1 => if pat.take (n + 1) <:+ l then n + 1 else border pat l n

theorem border_le (pat l : List α) (n : ℕ) : border pat l n ≤ n := by
  induction n with
  | zero => exact le_rfl
  | succ n ih =>
    rw [border]
    split_ifs
    · exact le_rfl
    · exact ih.trans n.le_succ

theorem le_border {pat l : List α} {k n : ℕ} (hk : k ≤ n) (h : pat.take k <:+ l) :
    k ≤ border pat l n := by
  induction n with
  | zero => exact hk
  | succ n ih =>
    rw [border]
    split_ifs with hsuf
    · exact hk
    · rcases Nat.lt_or_eq_of_le hk with hlt | rfl
      · exact ih (Nat.le_of_lt_succ hlt)
      · exact absurd h hsuf

theorem take_border_suffix (pat l : List α) (n : ℕ) : pat.take (border pat l n) <:+ l := by
  induction n with
  | zero => exact List.nil_suffix
  | succ n ih =>
    rw [border]
    split_ifs with hsuf
    · exact hsuf
    · exact ih

theorem border_lt {pat l : List α} (h : ¬ pat <:+ l) : border pat l pat.length < pat.length := by
  refine lt_of_le_of_ne (border_le _ _ _) fun heq => h ?_
  have := take_border_suffix pat l pat.length
  rwa [heq, List.take_length] at this

theorem border_eq_zero {pat l : List α} {a : α} (hne : pat ≠ []) (hlast : l.getLast? = some a)
    (h : a ∉ pat) (n : ℕ) :
    border pat l n = 0 := by
  induction n with
  | zero => rfl
  | succ n ih =>
    rw [border, if_neg, ih]
    intro hsuf
    have htake : pat.take (n + 1) ≠ [] := by simp [hne]
    have heq := List.getLast?_eq_getLast_of_ne_nil htake
    obtain ⟨t, rfl⟩ := hsuf
    rw [List.getLast?_append_of_ne_nil _ htake, heq, Option.some.injEq] at hlast
    exact h (List.mem_of_mem_take (hlast ▸ List.getLast_mem htake))

/-- The next occurrence of the pattern does not end before the missing elements have been read. -/
theorem not_suffix_of_lt {pat l t : List α}
    (hlt : t.length < pat.length - border pat l pat.length) :
    ¬ pat <:+ l ++ t := by
  intro hsuf
  have hlen : t.length ≤ pat.length := by omega
  obtain ⟨u, hu⟩ : t <:+ pat := List.suffix_of_suffix_length_le (List.suffix_append l t) hsuf hlen
  have hul : u.length + t.length = pat.length := by rw [← hu, List.length_append]
  have hul' : pat.take u.length = u := by rw [← hu, List.take_left]
  have husuf : u <:+ l := by
    rw [← hu, List.suffix_append_inj_of_length_eq] at hsuf
    · exact hsuf.1
    · rfl
  have hle : u.length ≤ border pat l pat.length := le_border (by omega) (by rwa [hul'])
  omega

end Search

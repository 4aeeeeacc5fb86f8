import Mathlib.Tactic
import Mathlib.Data.Set.Card

/-!
# Functions on words

A path-compressed trie stands for a function `List α → M` that is zero outside a finite set of
words.  Two constructions build such a function from smaller ones:

* `under p f` moves `f` below the word `p`;
* `fork m g` takes the value `m` at the empty word and `g c` below the letter `c`.

A trie node with prefix `p`, value `m` and children `g` is `under p (fork m g)`.  Splitting and
merging nodes is `under_append` and `under_cons_eq_fork`, and changing one value is
`update_under` and `update_fork_cons`.

`follow f p` is the set of letters that continue the word `p` towards a non-zero value.
-/

namespace Words

variable {α M : Type*}

/-- The value `m` at the empty word, and `g c` below the letter `c`. -/
def fork (m : M) (g : α → List α → M) : List α → M
  | [] => m
  | c :: t => g c t

@[simp] theorem fork_nil (m : M) (g : α → List α → M) : fork m g [] = m := rfl

@[simp] theorem fork_cons (m : M) (g : α → List α → M) (c : α) (t : List α) :
    fork m g (c :: t) = g c t := rfl

theorem update_fork_nil [DecidableEq α] (m v : M) (g : α → List α → M) :
    Function.update (fork m g) [] v = fork v g := by
  funext s
  cases s with
  | nil => simp
  | cons d s => simp

theorem update_fork_cons [DecidableEq α] (m v : M) (g : α → List α → M) (c : α) (t : List α) :
    Function.update (fork m g) (c :: t) v =
      fork m (Function.update g c (Function.update (g c) t v)) := by
  funext s
  cases s with
  | nil => simp
  | cons d s =>
    rw [fork_cons]
    by_cases hd : d = c
    · subst hd
      by_cases hs : s = t
      · subst hs
        simp
      · rw [Function.update_of_ne (by simpa using hs), Function.update_self,
          Function.update_of_ne hs, fork_cons]
    · rw [Function.update_of_ne (by simp [hd]), Function.update_of_ne hd, fork_cons]

variable [Zero M]

/-- The letters that continue `p` towards a non-zero value of `f`. -/
def follow (f : List α → M) (p : List α) : Set α := {c | ∃ r, f (p ++ c :: r) ≠ 0}

theorem mem_follow {f : List α → M} {p : List α} {c : α} :
    c ∈ follow f p ↔ ∃ r, f (p ++ c :: r) ≠ 0 := Iff.rfl

variable [DecidableEq α]

/-- The function `f` moved below the word `p`. -/
def under (p : List α) (f : List α → M) : List α → M :=
  fun t => if p <+: t then f (t.drop p.length) else 0

@[simp] theorem under_apply_append (p : List α) (f : List α → M) (t : List α) :
    under p f (p ++ t) = f t := by
  simp [under]

theorem under_apply_self (p : List α) (f : List α → M) : under p f p = f [] := by
  simp [under]

theorem under_apply_of_not {p t : List α} (f : List α → M) (h : ¬ p <+: t) :
    under p f t = 0 := if_neg h

theorem under_ne_zero {p t : List α} {f : List α → M} (h : under p f t ≠ 0) :
    ∃ r, t = p ++ r ∧ f r ≠ 0 := by
  by_cases hp : p <+: t
  · obtain ⟨r, rfl⟩ := hp
    exact ⟨r, rfl, by simpa using h⟩
  · exact absurd (under_apply_of_not f hp) h

@[simp] theorem under_nil (f : List α → M) : under [] f = f := by
  funext t
  simp [under]

@[simp] theorem under_zero (p : List α) : under p (0 : List α → M) = 0 := by
  funext t
  simp [under]

/-- Two words in a row. -/
theorem under_append (p q : List α) (f : List α → M) :
    under (p ++ q) f = under p (under q f) := by
  funext t
  by_cases hp : p <+: t
  · obtain ⟨r, rfl⟩ := hp
    by_cases hq : q <+: r
    · obtain ⟨s, rfl⟩ := hq
      rw [under_apply_append, under_apply_append, ← List.append_assoc, under_apply_append]
    · rw [under_apply_append, under_apply_of_not _ hq, under_apply_of_not]
      rwa [List.prefix_append_right_inj]
  · rw [under_apply_of_not _ hp, under_apply_of_not]
    exact fun h => hp ((List.prefix_append p q).trans h)

/-- A function below one letter is a fork with a single branch. -/
theorem under_cons_eq_fork (c : α) (q : List α) (f : List α → M) :
    under (c :: q) f = fork 0 (Function.update 0 c (under q f)) := by
  funext t
  cases t with
  | nil => simp [under]
  | cons d t =>
    rw [fork_cons]
    by_cases hd : d = c
    · subst hd
      simp [under]
    · rw [Function.update_of_ne hd, under_apply_of_not]
      · rfl
      · simp [Ne.symm hd]

theorem update_under (p t : List α) (f : List α → M) (v : M) :
    Function.update (under p f) (p ++ t) v = under p (Function.update f t v) := by
  funext s
  by_cases hp : p <+: s
  · obtain ⟨r, rfl⟩ := hp
    rw [under_apply_append]
    by_cases hr : r = t
    · subst hr
      simp
    · rw [Function.update_of_ne (by simpa using hr), Function.update_of_ne hr, under_apply_append]
  · rw [under_apply_of_not _ hp, Function.update_of_ne, under_apply_of_not _ hp]
    rintro rfl
    exact hp (List.prefix_append p t)

/-- Below `p` and a letter, the followers are those of the branch. -/
theorem follow_under_fork (p : List α) (m : M) (g : α → List α → M) (c : α) (q : List α) :
    follow (under p (fork m g)) (p ++ c :: q) = follow (g c) q := by
  ext d
  simp [follow]

/-- At `p` itself, the followers are the branches that are not identically zero. -/
theorem follow_under_fork_self (p : List α) (m : M) (g : α → List α → M) :
    follow (under p (fork m g)) p = {c | ∃ r, g c r ≠ 0} := by
  ext d
  simp [follow]

/-- No word that is in both supports has its number of followers cross the bound `θ`. -/
def Steady (θ : ℕ) (f f' : List α → M) : Prop :=
  ∀ p, f p ≠ 0 → f' p ≠ 0 → (θ < (follow f p).ncard ↔ θ < (follow f' p).ncard)

/-- A steady change below a letter is steady in the branch of that letter. -/
theorem Steady.branch {θ : ℕ} {p : List α} {m m' : M} {g g' : α → List α → M} {c : α}
    (h : Steady θ (under p (fork m g)) (under p (fork m' g'))) : Steady θ (g c) (g' c) := by
  intro q hq hq'
  have := h (p ++ c :: q) (by simpa using hq) (by simpa using hq')
  rwa [follow_under_fork, follow_under_fork] at this

end Words

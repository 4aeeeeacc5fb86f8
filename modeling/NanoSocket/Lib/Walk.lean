import Mathlib.Tactic

/-!
# Walks

A loop that follows a partial function from position to position.  `visits next n start` are the
positions that it comes to, if it ends within `n` steps, and `Reached` are those that it comes to at
all.

A walk within bounds ends after strictly increasing positions exactly if no step of it leads back or
stays (`exists_increasing_iff`), and it never ends when a step stays (`visits_eq_none_of_stays`).

A counter that goes through the terms of a sequence, and stays at the first one above a ceiling, is
at the place `Ceiling.reach w M c` after `c` steps.  So it gets to a place exactly when no term in
front of it is above the ceiling (`Ceiling.forall_reach_iff`); for a sequence that does not
decrease, the term there and the term of the step are cut off to the same value
(`Ceiling.min_reach`).
-/

namespace Walk

variable {α : Type*} {next : α → Option α} {start : Option α} {a b : α} {l : List α} {n : ℕ}

/-- The positions from `start` on, if the walk ends within `n` steps. -/
def visits (next : α → Option α) : ℕ → Option α → Option (List α)
  | 0, _ => none
  | _ + 1, none => some []
  | n + 1, some a => (visits next n (next a)).map (a :: ·)

/-- The positions that the walk comes to. -/
inductive Reached (next : α → Option α) (start : Option α) : α → Prop
  | start {a : α} : start = some a → Reached next start a
  | next {a b : α} : Reached next start a → next a = some b → Reached next start b

theorem visits_some_iff :
    visits next (n + 1) (some a) = some l ↔ ∃ l', visits next n (next a) = some l' ∧ a :: l' = l :=
  Option.map_eq_some_iff

/-- A walk that ends has come to every position that is reached. -/
theorem mem_of_reached (h : visits next n start = some l) (hr : Reached next start a) : a ∈ l := by
  have hclosed : ∀ (n : ℕ) (start : Option α) (l : List α), visits next n start = some l →
      ∀ x ∈ l, ∀ y, next x = some y → y ∈ l := by
    intro n
    induction n with
    | zero => intro start l h; cases h
    | succ n ih =>
      intro start l h x hx y hy
      cases start with
      | none =>
        cases h
        cases hx
      | some c =>
        obtain ⟨l', hl', rfl⟩ := visits_some_iff.1 h
        rcases List.mem_cons.1 hx with rfl | hx
        · rw [hy] at hl'
          cases n with
          | zero => cases hl'
          | succ n =>
            obtain ⟨l'', -, rfl⟩ := visits_some_iff.1 hl'
            simp
        · exact List.mem_cons_of_mem _ (ih _ _ hl' x hx y hy)
  induction hr with
  | start hstart =>
    subst hstart
    cases n with
    | zero => cases h
    | succ n =>
      obtain ⟨l', -, rfl⟩ := visits_some_iff.1 h
      exact List.mem_cons_self
  | next _ hnext ih => exact hclosed n start l h _ ih _ hnext

theorem Reached.of_next (h : Reached next (next a) b) : Reached next (some a) b := by
  induction h with
  | start hstart => exact .next (.start rfl) hstart
  | next _ hnext ih => exact .next ih hnext

/-- A walk that ends has come to no other position. -/
theorem reached_of_mem (h : visits next n start = some l) (ha : a ∈ l) : Reached next start a := by
  induction n generalizing start l with
  | zero => cases h
  | succ n ih =>
    cases start with
    | none =>
      cases h
      cases ha
    | some c =>
      obtain ⟨l', hl', rfl⟩ := visits_some_iff.1 h
      rcases List.mem_cons.1 ha with rfl | ha
      · exact .start rfl
      · exact (ih hl' ha).of_next

/-- A walk that stays at a position does not end. -/
theorem visits_eq_none_of_stays (hstay : next a = some a) (n : ℕ) :
    visits next n (some a) = none := by
  induction n with
  | zero => rfl
  | succ n ih => rw [visits, hstay, ih, Option.map_none]

/-- A walk that comes to a position with no next one ends. -/
theorem exists_visits_of_end (hr : Reached next start a) (hend : next a = none) :
    ∃ n l, visits next n start = some l := by
  have hback : ∀ b, Reached next start b → (∃ n l, visits next n (some b) = some l) →
      ∃ n l, visits next n start = some l := by
    intro b hb
    induction hb with
    | start hstart => exact fun h => hstart ▸ h
    | @next b c _ hnext ih =>
      rintro ⟨n, l, hl⟩
      refine ih ⟨n + 1, b :: l, visits_some_iff.2 ⟨l, ?_, rfl⟩⟩
      rwa [hnext]
  exact hback a hr ⟨2, [a], visits_some_iff.2 ⟨[], by rw [hend]; rfl, rfl⟩⟩

/-- A position with no next one is the last. -/
theorem getLast?_of_end (h : visits next n start = some l) (ha : a ∈ l) (hend : next a = none) :
    l.getLast? = some a := by
  induction n generalizing start l with
  | zero => cases h
  | succ n ih =>
    cases start with
    | none =>
      cases h
      cases ha
    | some c =>
      obtain ⟨l', hl', rfl⟩ := visits_some_iff.1 h
      rcases List.mem_cons.1 ha with rfl | ha
      · rw [hend] at hl'
        cases n with
        | zero => cases hl'
        | succ n =>
          cases hl'
          rfl
      · rw [List.getLast?_cons, ih hl' ha]
        rfl

/-- A walk comes to no more than one position with no next one. -/
theorem Reached.eq_of_ends (ha : Reached next start a) (hb : Reached next start b)
    (hend : next a = none) (hend' : next b = none) : a = b := by
  obtain ⟨n, l, hl⟩ := exists_visits_of_end ha hend
  have hlast := getLast?_of_end hl (mem_of_reached hl ha) hend
  rw [getLast?_of_end hl (mem_of_reached hl hb) hend'] at hlast
  exact (Option.some_inj.1 hlast).symm

/-- The next position stands behind a position in the list. -/
theorem lt_of_pairwise [Preorder α] (h : visits next n start = some l) (hl : l.Pairwise (· < ·))
    (ha : a ∈ l) (hnext : next a = some b) : a < b := by
  induction n generalizing start l with
  | zero => cases h
  | succ n ih =>
    cases start with
    | none =>
      cases h
      cases ha
    | some c =>
      obtain ⟨l', hl', rfl⟩ := visits_some_iff.1 h
      rw [List.pairwise_cons] at hl
      rcases List.mem_cons.1 ha with rfl | ha
      · refine hl.1 b (mem_of_reached hl' ?_)
        rw [hnext]
        exact .start rfl
      · exact ih hl' hl.2 ha

section Nat

variable {next : ℕ → Option ℕ} {start : Option ℕ} {N : ℕ}

/-- What is left of a walk below a bound gets shorter with every step forward. -/
theorem exists_visits_of_reached (hbound : ∀ a, Reached next start a → a < N)
    (hforward : ∀ a b, Reached next start a → next a = some b → a < b) {k a : ℕ}
    (hr : Reached next start a) (hk : N - a ≤ k) :
    ∃ l, visits next (k + 1) (some a) = some l ∧ l.Pairwise (· < ·) ∧ ∀ x ∈ l, a ≤ x := by
  induction k generalizing a with
  | zero =>
    have := hbound a hr
    omega
  | succ k ih =>
    cases hnext : next a with
    | none =>
      refine ⟨[a], ?_, List.pairwise_singleton _ _, by simp⟩
      rw [visits, hnext]
      rfl
    | some b =>
      have hlt := hforward a b hr hnext
      obtain ⟨l, hvisits, hl, hle⟩ := ih (.next hr hnext) (by omega)
      refine ⟨a :: l, ?_, List.pairwise_cons.2 ⟨fun x hx => hlt.trans_le (hle x hx), hl⟩, ?_⟩
      · rw [visits, hnext, hvisits]
        rfl
      · intro x hx
        rcases List.mem_cons.1 hx with rfl | hx
        · exact le_rfl
        · exact hlt.le.trans (hle x hx)

/-- A walk below a bound whose steps all lead forward ends. -/
theorem exists_visits (hbound : ∀ a, Reached next start a → a < N)
    (hforward : ∀ a b, Reached next start a → next a = some b → a < b) :
    ∃ l, visits next (N + 1) start = some l ∧ l.Pairwise (· < ·) := by
  cases hstart : start with
  | none => exact ⟨[], rfl, List.Pairwise.nil⟩
  | some a =>
    obtain ⟨l, hvisits, hl, -⟩ :=
      exists_visits_of_reached (k := N) hbound hforward (.start hstart) (Nat.sub_le N a)
    exact ⟨l, hvisits, hl⟩

/-- A walk below a bound ends after increasing positions exactly if every step leads forward. -/
theorem exists_increasing_iff (hbound : ∀ a, Reached next start a → a < N) :
    (∃ n l, visits next n start = some l ∧ l.Pairwise (· < ·)) ↔
      ∀ a b, Reached next start a → next a = some b → a < b := by
  constructor
  · rintro ⟨n, l, hvisits, hl⟩ a b hr hnext
    exact lt_of_pairwise hvisits hl (mem_of_reached hvisits hr) hnext
  · intro hforward
    obtain ⟨l, hvisits, hl⟩ := exists_visits hbound hforward
    exact ⟨_, l, hvisits, hl⟩

end Nat

end Walk

/-! ### Under a ceiling -/

namespace Ceiling

variable {α : Type*} [LinearOrder α] {w p : ℕ → α} {M : α} {c j : ℕ}

/-- The place after `c` steps. -/
def reach (w : ℕ → α) (M : α) : ℕ → ℕ
  | 0 => 0
  | c + 1 => if M < w (reach w M c) then reach w M c else reach w M c + 1

theorem le_of_lt_reach (h : j < reach w M c) : w j ≤ M := by
  induction c with
  | zero => exact absurd h (Nat.not_lt_zero j)
  | succ c ih =>
    rw [reach] at h
    split_ifs at h with habove
    · exact ih h
    · rcases Nat.lt_succ_iff_lt_or_eq.1 h with hlt | rfl
      · exact ih hlt
      · exact not_lt.1 habove

/-- Every step goes on, or the counter has stopped. -/
theorem reach_cases : reach w M c = c ∨ reach w M c < c ∧ M < w (reach w M c) := by
  induction c with
  | zero => exact Or.inl rfl
  | succ c ih =>
    rw [reach]
    split_ifs with habove
    · refine Or.inr ⟨?_, habove⟩
      rcases ih with heq | ⟨hlt, -⟩
      · exact heq.trans_lt (Nat.lt_succ_self c)
      · exact hlt.trans (Nat.lt_succ_self c)
    · rcases ih with heq | ⟨-, hstopped⟩
      · exact Or.inl (congrArg (· + 1) heq)
      · exact absurd hstopped habove

theorem reach_le : reach w M c ≤ c := by
  rcases reach_cases (w := w) (M := M) (c := c) with heq | ⟨hlt, -⟩
  · exact heq.le
  · exact hlt.le

theorem reach_eq (h : ∀ j < c, w j ≤ M) : reach w M c = c := by
  rcases reach_cases (w := w) (M := M) (c := c) with heq | ⟨hlt, habove⟩
  · exact heq
  · exact absurd habove (not_lt.2 (h _ hlt))

/-- The places that the counter gets to. -/
theorem forall_reach_iff {Q : ℕ → Prop} :
    (∀ c, Q (reach w M c)) ↔ ∀ c, (∀ j < c, w j ≤ M) → Q c := by
  constructor
  · intro h c hc
    rw [← reach_eq hc]
    exact h c
  · intro h c
    exact h _ fun j hj => le_of_lt_reach hj

/-- Only the terms up to the place matter. -/
theorem min_reach (hp : Monotone p) (h : w (reach w M c) = p (reach w M c)) :
    min M (w (reach w M c)) = min M (p c) := by
  rcases reach_cases (w := w) (M := M) (c := c) with heq | ⟨-, habove⟩
  · rw [h, heq]
  · have hle : M ≤ p c := (habove.trans_eq h).le.trans (hp reach_le)
    rw [min_eq_left habove.le, min_eq_left hle]

end Ceiling

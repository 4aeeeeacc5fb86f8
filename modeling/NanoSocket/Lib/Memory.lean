import Mathlib.Tactic

/-!
# Memory

A memory has a byte at some of its addresses; the others are not mapped.  `Memory.load` and
`Memory.store` go to several bytes at once and fail when one of them is not mapped; a failed store
changes nothing.

What a store leaves alone is `store_outside`, and `load_store` reads back what was stored.  A list
of blocks of one size is kept apart by `Apart`.
-/

/-- The cell at each address that is mapped. -/
def Memory (α : Type*) := ℕ → Option α

namespace Memory

variable {α : Type*} {m m' : Memory α} {a b n k : ℕ} {bs cs : List α}

/-- All of `n` addresses are mapped. -/
def Mapped (m : Memory α) (a n : ℕ) : Prop := ∀ i < n, (m (a + i)).isSome

instance (m : Memory α) (a n : ℕ) : Decidable (m.Mapped a n) :=
  inferInstanceAs (Decidable (∀ i < n, (m (a + i)).isSome))

/-- The cells at `n` addresses. -/
def load (m : Memory α) (a : ℕ) : ℕ → Option (List α)
  | 0 => some []
  | n + 1 => do
    let x ← m a
    let xs ← load m (a + 1) n
    return x :: xs

/-- Other cells at some addresses. -/
def write (m : Memory α) (a : ℕ) (bs : List α) : Memory α :=
  fun x => if a ≤ x ∧ x < a + bs.length then bs[x - a]? else m x

/-- Other cells at addresses that are mapped. -/
def store (m : Memory α) (a : ℕ) (bs : List α) : Option (Memory α) :=
  if m.Mapped a bs.length then some (m.write a bs) else none

/-! ### Loads -/

theorem load_eq_some : m.load a n = some bs ↔ bs.length = n ∧ ∀ i < n, m (a + i) = bs[i]? := by
  induction n generalizing a bs with
  | zero =>
    constructor
    · intro h
      cases h
      exact ⟨rfl, nofun⟩
    · rintro ⟨h, -⟩
      rw [List.length_eq_zero_iff.1 h]
      rfl
  | succ n ih =>
    constructor
    · intro h
      simp only [load, Option.bind_eq_bind, Option.bind_eq_some_iff, Option.pure_def,
        Option.some.injEq] at h
      obtain ⟨x, hx, xs, hxs, rfl⟩ := h
      obtain ⟨hlength, hget⟩ := ih.1 hxs
      refine ⟨by rw [List.length_cons, hlength], fun i hi => ?_⟩
      cases i with
      | zero => exact hx
      | succ i =>
        have := hget i (by omega)
        rwa [Nat.add_assoc, Nat.add_comm 1] at this
    · rintro ⟨hlength, hget⟩
      cases bs with
      | nil => simp at hlength
      | cons x xs =>
        have hx : m a = some x := hget 0 (by omega)
        have hxs : m.load (a + 1) n = some xs := by
          refine ih.2 ⟨by simpa using hlength, fun i hi => ?_⟩
          have := hget (i + 1) (by omega)
          rwa [← Nat.add_assoc, Nat.add_right_comm] at this
        simp [load, hx, hxs]

theorem length_load (h : m.load a n = some bs) : bs.length = n := (load_eq_some.1 h).1

/-- A load reads nothing but its addresses. -/
theorem load_congr (h : ∀ i < n, m' (a + i) = m (a + i)) : m'.load a n = m.load a n := by
  apply Option.ext
  intro bs
  rw [load_eq_some, load_eq_some]
  apply and_congr_right
  intro _
  constructor
  · intro hget i hi
    rw [← h i hi, hget i hi]
  · intro hget i hi
    rw [h i hi, hget i hi]

theorem load_eq_none (h : m a = none) (hn : 0 < n) : m.load a n = none := by
  cases n with
  | zero => omega
  | succ n => simp [load, h]

theorem Mapped.exists_load (h : m.Mapped a n) : ∃ bs, m.load a n = some bs := by
  induction n generalizing a with
  | zero => exact ⟨[], rfl⟩
  | succ n ih =>
    have hrest : m.Mapped (a + 1) n := by
      intro i hi
      rw [Nat.add_assoc, Nat.add_comm 1]
      exact h (i + 1) (Nat.succ_lt_succ hi)
    obtain ⟨x, hx⟩ : ∃ x, m a = some x := Option.isSome_iff_exists.1 (h 0 n.succ_pos)
    obtain ⟨xs, hxs⟩ := ih hrest
    exact ⟨x :: xs, by simp [load, hx, hxs]⟩

theorem Mapped.sub (h : m.Mapped a n) (hlo : a ≤ b) (hhi : b + k ≤ a + n) : m.Mapped b k := by
  intro i hi
  have := h (b - a + i) (by omega)
  rwa [← Nat.add_assoc, Nat.add_sub_cancel' hlo] at this

/-- A part of what is loaded. -/
theorem load_sub (h : m.load a n = some bs) {i : ℕ} (hi : i + k ≤ n) :
    m.load (a + i) k = some ((bs.drop i).take k) := by
  obtain ⟨hlength, hget⟩ := load_eq_some.1 h
  refine load_eq_some.2 ⟨?_, fun j hj => ?_⟩
  · rw [List.length_take, List.length_drop]
    omega
  · rw [List.getElem?_take_of_lt hj, List.getElem?_drop, Nat.add_assoc]
    exact hget (i + j) (by omega)

/-! ### Stores -/

theorem write_apply (m : Memory α) (a : ℕ) (bs : List α) (x : ℕ) :
    m.write a bs x = if a ≤ x ∧ x < a + bs.length then bs[x - a]? else m x := rfl

theorem write_outside {x : ℕ} (h : x < a ∨ a + bs.length ≤ x) : m.write a bs x = m x := by
  rw [write_apply, if_neg (by omega)]

theorem isSome_write (x : ℕ) (h : m.Mapped a bs.length) :
    (m.write a bs x).isSome = (m x).isSome := by
  rw [write_apply]
  split_ifs with hx
  · have := h (x - a) (by omega)
    rw [Nat.add_sub_cancel' hx.1] at this
    rw [this, List.getElem?_eq_getElem (by omega)]
    rfl
  · rfl

theorem store_of_mapped (h : m.Mapped a bs.length) : m.store a bs = some (m.write a bs) := if_pos h

theorem store_eq_some : m.store a bs = some m' ↔ m.Mapped a bs.length ∧ m.write a bs = m' := by
  unfold store
  split_ifs with h
  · simp [h]
  · simp [h]

theorem store_eq_none (h : m a = none) (hbs : bs ≠ []) : m.store a bs = none := by
  refine if_neg fun hmapped => ?_
  have := hmapped 0 (List.length_pos_iff.2 hbs)
  simp [h] at this

/-- A store changes nothing outside. -/
theorem store_outside (h : m.store a bs = some m') {x : ℕ} (hx : x < a ∨ a + bs.length ≤ x) :
    m' x = m x := by
  obtain ⟨-, rfl⟩ := store_eq_some.1 h
  exact write_outside hx

/-- A store maps nothing. -/
theorem store_isSome (h : m.store a bs = some m') (x : ℕ) : (m' x).isSome = (m x).isSome := by
  obtain ⟨hmapped, rfl⟩ := store_eq_some.1 h
  exact isSome_write x hmapped

/-- What was stored is loaded again. -/
theorem load_store (h : m.store a bs = some m') : m'.load a bs.length = some bs := by
  obtain ⟨-, rfl⟩ := store_eq_some.1 h
  refine load_eq_some.2 ⟨rfl, fun i hi => ?_⟩
  rw [write_apply, if_pos (by omega), Nat.add_sub_cancel_left]

/-- A store elsewhere does not change what is loaded. -/
theorem load_store_outside (h : m.store a bs = some m') (hout : b + n ≤ a ∨ a + bs.length ≤ b) :
    m'.load b n = m.load b n :=
  load_congr fun i hi => store_outside h (by omega)

/-- Cells behind others. -/
theorem write_write (m : Memory α) (a : ℕ) (bs cs : List α) :
    (m.write a bs).write (a + bs.length) cs = m.write a (bs ++ cs) := by
  funext x
  simp only [write_apply, List.length_append]
  by_cases hlt : x < a + bs.length
  · rw [if_neg (by omega)]
    by_cases ha : a ≤ x
    · rw [if_pos ⟨ha, hlt⟩, if_pos (by omega), List.getElem?_append_left (by omega)]
    · rw [if_neg (by omega), if_neg (by omega)]
  · by_cases hx : x < a + bs.length + cs.length
    · rw [if_pos (by omega), if_pos (by omega),
        List.getElem?_append_right (by omega), Nat.sub_add_eq]
    · rw [if_neg (by omega), if_neg (by omega), if_neg (by omega)]

theorem write_nil (m : Memory α) (a : ℕ) : m.write a [] = m := by
  funext x
  exact write_outside (by rw [List.length_nil]; omega)

theorem eq_none_of_isSome {x : ℕ} (h : (m' x).isSome = (m x).isSome) (hx : m x = none) :
    m' x = none := by
  rw [hx] at h
  exact Option.isNone_iff_eq_none.1 (by rw [← Option.not_isSome, h]; rfl)

theorem Mapped.congr (hmapped : m.Mapped a n) (h : ∀ x, (m' x).isSome = (m x).isSome) :
    m'.Mapped a n :=
  fun i hi => (h _).trans (hmapped i hi)

/-! ### Blocks -/

/-- Blocks of one size that do not overlap. -/
def Apart (size : ℕ) (blocks : List ℕ) : Prop :=
  blocks.Pairwise fun a b => a + size ≤ b ∨ b + size ≤ a

theorem Apart.nodup {size : ℕ} {blocks : List ℕ} (h : Apart size blocks) (hsize : 0 < size) :
    blocks.Nodup := by
  refine List.Pairwise.imp ?_ h
  rintro a b hab rfl
  omega

end Memory

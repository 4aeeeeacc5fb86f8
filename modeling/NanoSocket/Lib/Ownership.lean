import Mathlib.Tactic

/-!
# The ownership of messages that pass through one variable

A program obtains messages one after another into a variable, and each of them has to be given away
or to be terminated, once.  Nothing in the program says which: a variable that is assigned forgets
what it held, and a terminated message can be terminated again.

`Ledger` numbers the messages in the order in which they are obtained and keeps what was done to
them.  `Ledger.Balanced` says that every message has exactly one fate, and `Ledger.Broken` that some
message is lost or was disposed of twice, which no later action mends.  An action keeps a balanced
ledger balanced exactly if the variable holds what the action expects: an assignment that it holds
no live message, the others that it holds no terminated one.
-/

/-- What became of the messages obtained so far, and the one that the variable holds. -/
@[ext] structure Ledger where
  obtained : ℕ
  returned : List ℕ
  terminated : List ℕ
  held : Option ℕ
  deriving DecidableEq, Repr

namespace Ledger

/-- Nothing was obtained. -/
def init : Ledger := ⟨0, [], [], none⟩

/-- A new message is written over what the variable held. -/
def receive (l : Ledger) : Ledger := { l with obtained := l.obtained + 1, held := some l.obtained }

/-- What the variable holds is terminated; the variable still refers to it. -/
def terminate (l : Ledger) : Ledger := { l with terminated := l.held.toList ++ l.terminated }

/-- What the variable holds is given away, and the variable is empty. -/
def giveAway (l : Ledger) : Ledger :=
  { l with returned := l.held.toList ++ l.returned, held := none }

/-- The variable goes out of use. -/
def forget (l : Ledger) : Ledger := { l with held := none }

/-- The variable holds a message that was not terminated. -/
def Live (l : Ledger) : Prop := ∃ i ∈ l.held, i ∉ l.terminated

/-- The variable refers to a message that was terminated. -/
def Dangling (l : Ledger) : Prop := ∃ i ∈ l.held, i ∈ l.terminated

instance (l : Ledger) : Decidable l.Live :=
  inferInstanceAs (Decidable (∃ i ∈ l.held, i ∉ l.terminated))

instance (l : Ledger) : Decidable l.Dangling :=
  inferInstanceAs (Decidable (∃ i ∈ l.held, i ∈ l.terminated))

/-- Exactly one of three things is true of the message `i`: it was returned once, it was terminated
once, or the variable holds it. -/
def Accounted (l : Ledger) (i : ℕ) : Prop :=
  (l.returned.count i = 1 ∧ l.terminated.count i = 0 ∧ l.held ≠ some i) ∨
    (l.returned.count i = 0 ∧ l.terminated.count i = 1) ∨
    (l.returned.count i = 0 ∧ l.terminated.count i = 0 ∧ l.held = some i)

/-- Every message that was obtained has exactly one fate. -/
def Balanced (l : Ledger) : Prop := ∀ i < l.obtained, l.Accounted i

instance (l : Ledger) (i : ℕ) : Decidable (l.Accounted i) := inferInstanceAs (Decidable (_ ∨ _))

instance (l : Ledger) : Decidable l.Balanced :=
  inferInstanceAs (Decidable (∀ i < l.obtained, l.Accounted i))

/-- Only messages that were obtained are dealt with, and what the variable holds was not
returned. -/
structure Wf (l : Ledger) : Prop where
  returned : ∀ i ∈ l.returned, i < l.obtained
  terminated : ∀ i ∈ l.terminated, i < l.obtained
  held : ∀ i ∈ l.held, i < l.obtained ∧ i ∉ l.returned

/-- Some message is lost, or was disposed of twice. -/
def Broken (l : Ledger) : Prop :=
  ∃ i < l.obtained, 2 ≤ l.returned.count i + l.terminated.count i ∨
    l.returned.count i + l.terminated.count i = 0 ∧ l.held ≠ some i

theorem init_wf : init.Wf := ⟨nofun, nofun, nofun⟩

theorem init_balanced : init.Balanced := nofun

/-- An empty variable holds nothing. -/
theorem not_live_of_held {l : Ledger} (h : l.held = none) : ¬ l.Live := by
  rintro ⟨i, hi, -⟩
  rw [h] at hi
  cases hi

theorem forget_of_held {l : Ledger} (h : l.held = none) : l.forget = l := by
  ext <;> simp [forget, h]

theorem Broken.not_balanced {l : Ledger} (h : l.Broken) : ¬ l.Balanced := by
  obtain ⟨i, hi, hcount⟩ := h
  intro hb
  rcases hb i hi with ⟨h₁, h₂, -⟩ | ⟨h₁, h₂⟩ | ⟨h₁, h₂, h₃⟩
  · omega
  · omega
  · rcases hcount with hcount | ⟨-, hne⟩
    · omega
    · exact hne h₃

/-- What was not yet obtained has not been dealt with. -/
theorem Wf.count_eq_zero {l : Ledger} (h : l.Wf) {i : ℕ} (hi : l.obtained ≤ i) :
    l.returned.count i = 0 ∧ l.terminated.count i = 0 := by
  constructor
  · exact List.count_eq_zero.2 fun hm => absurd (h.returned i hm) (by omega)
  · exact List.count_eq_zero.2 fun hm => absurd (h.terminated i hm) (by omega)

/-! ### Receiving -/

theorem Wf.receive {l : Ledger} (h : l.Wf) : l.receive.Wf := by
  refine ⟨fun i hi => Nat.lt_succ_of_lt (h.returned i hi),
    fun i hi => Nat.lt_succ_of_lt (h.terminated i hi), ?_⟩
  rintro i ⟨⟩
  exact ⟨Nat.lt_succ_self _, List.count_eq_zero.1 (h.count_eq_zero le_rfl).1⟩

theorem Wf.live_receive {l : Ledger} (h : l.Wf) : l.receive.Live :=
  ⟨l.obtained, rfl, List.count_eq_zero.1 (h.count_eq_zero le_rfl).2⟩

/-- A balanced ledger whose variable held nothing live. -/
theorem Balanced.receive {l : Ledger} (h : l.Balanced) (hwf : l.Wf) (hl : ¬ l.Live) :
    l.receive.Balanced := by
  intro i hi
  rcases Nat.lt_succ_iff_lt_or_eq.1 hi with hlt | rfl
  · have hne : (some l.obtained : Option ℕ) ≠ some i :=
      fun h => absurd (Option.some.inj h) (by omega)
    rcases h i hlt with ⟨h₁, h₂, -⟩ | h | ⟨-, h₂, h₃⟩
    · exact Or.inl ⟨h₁, h₂, hne⟩
    · exact Or.inr (Or.inl h)
    · exact absurd ⟨i, h₃, List.count_eq_zero.1 h₂⟩ hl
  · exact Or.inr (Or.inr ⟨(hwf.count_eq_zero le_rfl).1, (hwf.count_eq_zero le_rfl).2, rfl⟩)

/-- A live message is overwritten. -/
theorem Wf.broken_receive {l : Ledger} (h : l.Wf) (hl : l.Live) : l.receive.Broken := by
  obtain ⟨i, hi, hterm⟩ := hl
  have hlt := h.held i hi
  refine ⟨i, Nat.lt_succ_of_lt hlt.1, Or.inr ⟨?_, fun heq => ?_⟩⟩
  · exact Nat.add_eq_zero_iff.2 ⟨List.count_eq_zero.2 hlt.2, List.count_eq_zero.2 hterm⟩
  · exact absurd (Option.some.inj heq) (by omega)

theorem Broken.receive {l : Ledger} (h : l.Broken) : l.receive.Broken := by
  obtain ⟨i, hi, hcount⟩ := h
  refine ⟨i, Nat.lt_succ_of_lt hi, hcount.imp_right fun h => ⟨h.1, fun heq => ?_⟩⟩
  exact absurd (Option.some.inj heq) (by omega)

/-! ### Terminating, giving away and forgetting -/

theorem Wf.terminate {l : Ledger} (h : l.Wf) : l.terminate.Wf := by
  refine ⟨h.returned, fun i hi => ?_, h.held⟩
  rcases List.mem_append.1 hi with hi | hi
  · exact (h.held i (Option.mem_toList.1 hi)).1
  · exact h.terminated i hi

theorem Wf.giveAway {l : Ledger} (h : l.Wf) : l.giveAway.Wf := by
  refine ⟨fun i hi => ?_, h.terminated, nofun⟩
  rcases List.mem_append.1 hi with hi | hi
  · exact (h.held i (Option.mem_toList.1 hi)).1
  · exact h.returned i hi

theorem Wf.forget {l : Ledger} (h : l.Wf) : l.forget.Wf := ⟨h.returned, h.terminated, nofun⟩

theorem not_live_terminate (l : Ledger) : ¬ l.terminate.Live := by
  rintro ⟨i, hi, hterm⟩
  exact hterm (List.mem_append_left _ (Option.mem_toList.2 hi))

theorem not_live_giveAway (l : Ledger) : ¬ l.giveAway.Live := not_live_of_held rfl

theorem not_dangling_of_live {l : Ledger} (h : l.Live) : ¬ l.Dangling := by
  obtain ⟨i, hi, hterm⟩ := h
  rintro ⟨j, hj, hterm'⟩
  obtain rfl := Option.mem_unique hi hj
  exact hterm hterm'

/-- How often a message stands in a list to which the variable's message was added. -/
theorem count_held (o : Option ℕ) (is : List ℕ) (i : ℕ) :
    (o.toList ++ is).count i = (if o = some i then 1 else 0) + is.count i := by
  cases o with
  | none => simp
  | some j => by_cases h : j = i <;> simp [h, Nat.add_comm]

/-- A message that the variable holds and that was not terminated has no other fate. -/
theorem Balanced.of_held {l : Ledger} (h : l.Balanced) (hwf : l.Wf) (hd : ¬ l.Dangling) {i : ℕ}
    (hi : l.held = some i) : l.returned.count i = 0 ∧ l.terminated.count i = 0 := by
  rcases h i (hwf.held i hi).1 with ⟨-, -, h⟩ | ⟨-, h⟩ | ⟨h₁, h₂, -⟩
  · exact absurd hi h
  · exact absurd ⟨i, hi, List.count_pos_iff.1 (by omega)⟩ hd
  · exact ⟨h₁, h₂⟩

/-- A balanced ledger whose variable refers to nothing terminated. -/
theorem Balanced.terminate {l : Ledger} (h : l.Balanced) (hwf : l.Wf) (hd : ¬ l.Dangling) :
    l.terminate.Balanced := by
  intro i hi
  simp only [Accounted, Ledger.terminate, count_held]
  by_cases heq : l.held = some i
  · obtain ⟨h₁, h₂⟩ := h.of_held hwf hd heq
    exact Or.inr (Or.inl ⟨h₁, by simp [heq, h₂]⟩)
  · rw [if_neg heq, zero_add]
    exact h i hi

theorem Balanced.giveAway {l : Ledger} (h : l.Balanced) (hwf : l.Wf) (hd : ¬ l.Dangling) :
    l.giveAway.Balanced := by
  intro i hi
  simp only [Accounted, Ledger.giveAway, count_held]
  by_cases heq : l.held = some i
  · obtain ⟨h₁, h₂⟩ := h.of_held hwf hd heq
    exact Or.inl ⟨by simp [heq, h₁], h₂, by simp⟩
  · rcases h i hi with ⟨h₁, h₂, -⟩ | ⟨h₁, h₂⟩ | ⟨-, -, h₃⟩
    · exact Or.inl ⟨by simpa [heq] using h₁, h₂, by simp⟩
    · exact Or.inr (Or.inl ⟨by simpa [heq] using h₁, h₂⟩)
    · exact absurd h₃ heq

theorem Balanced.forget {l : Ledger} (h : l.Balanced) (hl : ¬ l.Live) : l.forget.Balanced := by
  intro i hi
  rcases h i hi with ⟨h₁, h₂, -⟩ | h | ⟨-, h₂, h₃⟩
  · exact Or.inl ⟨h₁, h₂, nofun⟩
  · exact Or.inr (Or.inl h)
  · exact absurd ⟨i, h₃, List.count_eq_zero.1 h₂⟩ hl

/-- A terminated message is terminated again. -/
theorem Wf.broken_terminate {l : Ledger} (h : l.Wf) (hd : l.Dangling) : l.terminate.Broken := by
  obtain ⟨i, hi, hterm⟩ := hd
  refine ⟨i, (h.held i hi).1, Or.inl ?_⟩
  have hpos := List.count_pos_iff.2 hterm
  simp only [Ledger.terminate, count_held, if_pos (Option.mem_def.1 hi)]
  omega

/-- A live message is forgotten. -/
theorem Wf.broken_forget {l : Ledger} (h : l.Wf) (hl : l.Live) : l.forget.Broken := by
  obtain ⟨i, hi, hterm⟩ := hl
  have hlt := h.held i hi
  refine ⟨i, hlt.1, Or.inr ⟨?_, nofun⟩⟩
  exact Nat.add_eq_zero_iff.2 ⟨List.count_eq_zero.2 hlt.2, List.count_eq_zero.2 hterm⟩

theorem Broken.terminate {l : Ledger} (h : l.Broken) : l.terminate.Broken := by
  obtain ⟨i, hi, hcount⟩ := h
  refine ⟨i, hi, ?_⟩
  simp only [Ledger.terminate, count_held]
  rcases hcount with hcount | ⟨hzero, hne⟩
  · exact Or.inl (by omega)
  · exact Or.inr ⟨by rw [if_neg hne]; omega, hne⟩

theorem Broken.giveAway {l : Ledger} (h : l.Broken) : l.giveAway.Broken := by
  obtain ⟨i, hi, hcount⟩ := h
  refine ⟨i, hi, ?_⟩
  simp only [Ledger.giveAway, count_held]
  rcases hcount with hcount | ⟨hzero, hne⟩
  · exact Or.inl (by omega)
  · exact Or.inr ⟨by rw [if_neg hne]; omega, nofun⟩

theorem Broken.forget {l : Ledger} (h : l.Broken) : l.forget.Broken := by
  obtain ⟨i, hi, hcount⟩ := h
  exact ⟨i, hi, hcount.imp_right fun h => ⟨h.1, nofun⟩⟩

end Ledger

import Mathlib.Tactic

/-!
# Runs of a system of calls

A call takes a state and either returns a new state with an answer or fails.  `Runs.run` makes a
list of calls one after another and collects the answers; `Runs.specRun` does the same for a
specification, whose calls always return.  `Runs.Along` says that a condition on the specification's
state holds before every call of a run, and `run_simulates` is the induction behind every refinement
proof: a relation kept by single calls is kept by whole runs.

`Runs.Trace` collects the calls that led to a state when each of them met a condition on the state
before it; `Trace.invariant` is the induction along it.  `Runs.runWhile` computes such a run.

A system that has at most one way to go on is a function to the next state; `Runs.Reaches` says how
far it gets, and a state in which it stops lies behind every other one (`Reaches.of_stuck`).
-/

namespace Runs

variable {σ τ α β ε : Type*}

/-- Make the calls `as` one after another. -/
def run (call : σ → α → Except ε (σ × β)) : σ → List α → Except ε (σ × List β)
  | s, [] => .ok (s, [])
  | s, a :: as => do
    let r ← call s a
    let rs ← run call r.1 as
    return (rs.1, r.2 :: rs.2)

/-- The run of a specification. -/
def specRun (call : τ → α → τ × β) : τ → List α → τ × List β
  | t, [] => (t, [])
  | t, a :: as =>
    let r := call t a
    let rs := specRun call r.1 as
    (rs.1, r.2 :: rs.2)

/-- The condition `P` holds before every call of the run. -/
def Along (call : τ → α → τ × β) (P : τ → α → Prop) : τ → List α → Prop
  | _, [] => True
  | t, a :: as => P t a ∧ Along call P (call t a).1 as

instance Along.decidable (call : τ → α → τ × β) (P : τ → α → Prop) [∀ t a, Decidable (P t a)] :
    ∀ (t : τ) (as : List α), Decidable (Along call P t as)
  | _, [] => .isTrue trivial
  | t, a :: as =>
    have := Along.decidable call P (call t a).1 as
    inferInstanceAs (Decidable (P t a ∧ Along call P (call t a).1 as))

/-- If every call that meets `P` returns what the specification says and keeps `R`, which may depend
on how many calls are still to come, so does every run along which `P` holds. -/
theorem run_simulates_within {call : σ → α → Except ε (σ × β)} {spec : τ → α → τ × β}
    {P : τ → α → Prop} {R : ℕ → σ → τ → Prop}
    (hcall : ∀ n s t a, R (n + 1) s t → P t a → ∃ s', call s a = .ok (s', (spec t a).2) ∧
      R n s' (spec t a).1)
    {s : σ} {t : τ} {as : List α} (hR : R as.length s t) (hP : Along spec P t as) :
    ∃ s', run call s as = .ok (s', (specRun spec t as).2) ∧ R 0 s' (specRun spec t as).1 := by
  induction as generalizing s t with
  | nil => exact ⟨s, rfl, hR⟩
  | cons a as ih =>
    obtain ⟨s₁, heq₁, hR₁⟩ := hcall as.length s t a hR hP.1
    obtain ⟨s₂, heq₂, hR₂⟩ := ih hR₁ hP.2
    refine ⟨s₂, ?_, hR₂⟩
    rw [run, heq₁]
    change (run call s₁ as >>= fun rs => pure (rs.1, (spec t a).2 :: rs.2)) = _
    rw [heq₂]
    rfl

/-- The same for a relation that does not. -/
theorem run_simulates {call : σ → α → Except ε (σ × β)} {spec : τ → α → τ × β}
    {P : τ → α → Prop} {R : σ → τ → Prop}
    (hcall : ∀ s t a, R s t → P t a → ∃ s', call s a = .ok (s', (spec t a).2) ∧ R s' (spec t a).1)
    {s : σ} {t : τ} {as : List α} (hR : R s t) (hP : Along spec P t as) :
    ∃ s', run call s as = .ok (s', (specRun spec t as).2) ∧ R s' (specRun spec t as).1 :=
  run_simulates_within (R := fun _ => R) (fun _ => hcall) hR hP

/-- If besides every other call fails, so does every run along which `P` does not hold. -/
theorem run_fails {call : σ → α → Except ε (σ × β)} {spec : τ → α → τ × β} {P : τ → α → Prop}
    {R : ℕ → σ → τ → Prop} (hcall : ∀ n s t a, R (n + 1) s t → P t a → ∃ s',
      call s a = .ok (s', (spec t a).2) ∧ R n s' (spec t a).1)
    (hfail : ∀ n s t a, R (n + 1) s t → ¬ P t a → ∃ e, call s a = .error e)
    {s : σ} {t : τ} {as : List α} (hR : R as.length s t) (hP : ¬ Along spec P t as) :
    ∃ e, run call s as = .error e := by
  induction as generalizing s t with
  | nil => exact absurd trivial hP
  | cons a as ih =>
    by_cases ha : P t a
    · obtain ⟨s', heq, hR'⟩ := hcall as.length s t a hR ha
      obtain ⟨e, he⟩ := ih hR' fun has => hP ⟨ha, has⟩
      refine ⟨e, ?_⟩
      rw [run, heq]
      change (run call s' as >>= fun rs => pure (rs.1, (spec t a).2 :: rs.2)) = _
      rw [he]
      rfl
    · obtain ⟨e, he⟩ := hfail as.length s t a hR ha
      refine ⟨e, ?_⟩
      rw [run, he]
      rfl

/-- The calls `as`, each of which met `P` and returned, lead from `s₀` to a state. -/
inductive Trace (call : σ → α → Except ε (σ × β)) (P : σ → α → Prop) (s₀ : σ) : List α → σ → Prop
  | nil : Trace call P s₀ [] s₀
  | snoc {as : List α} {s s' : σ} {a : α} {b : β} : Trace call P s₀ as s → P s a →
      call s a = .ok (s', b) → Trace call P s₀ (as ++ [a]) s'

/-- What holds at the start and is kept by every call holds along every trace. -/
theorem Trace.invariant {call : σ → α → Except ε (σ × β)} {P : σ → α → Prop} {s₀ : σ}
    {I : List α → σ → Prop} (h₀ : I [] s₀)
    (hcall : ∀ as s a s' b, I as s → P s a → call s a = .ok (s', b) → I (as ++ [a]) s')
    {as : List α} {s : σ} (h : Trace call P s₀ as s) : I as s := by
  induction h with
  | nil => exact h₀
  | snoc _ hP heq ih => exact hcall _ _ _ _ _ ih hP heq

/-- If every call that meets `P` returns and keeps something, it holds along every trace. -/
theorem Trace.invariant_of_step {call : σ → α → Except ε (σ × β)} {P : σ → α → Prop} {s₀ : σ}
    {I : List α → σ → Prop} (h₀ : I [] s₀)
    (hstep : ∀ as s a, I as s → P s a → ∃ s' b, call s a = .ok (s', b) ∧ I (as ++ [a]) s')
    {as : List α} {s : σ} (h : Trace call P s₀ as s) : I as s := by
  apply h.invariant h₀
  intro as s a s' b hI hP heq
  obtain ⟨s'', b', heq', hI'⟩ := hstep as s a hI hP
  cases heq.symm.trans heq'
  exact hI'

/-- Make the calls `as` as long as each of them meets `P` and returns. -/
def runWhile (call : σ → α → Except ε (σ × β)) (P : σ → α → Prop) [∀ s a, Decidable (P s a)] :
    σ → List α → Option σ
  | s, [] => some s
  | s, a :: as =>
    if P s a then
      match call s a with
      | .ok r => runWhile call P r.1 as
      | .error _ => none
    else none

theorem Trace.append {call : σ → α → Except ε (σ × β)} {P : σ → α → Prop} [∀ s a, Decidable (P s a)]
    {s₀ s s' : σ} {as bs : List α} (h : Trace call P s₀ as s)
    (hrun : runWhile call P s bs = some s') :
    Trace call P s₀ (as ++ bs) s' := by
  induction bs generalizing as s with
  | nil =>
    cases hrun
    simpa using h
  | cons b bs ih =>
    rw [runWhile] at hrun
    split_ifs at hrun with hP
    cases hcall : call s b with
    | error e => simp [hcall] at hrun
    | ok r =>
      simp only [hcall] at hrun
      have := ih (h.snoc hP hcall) hrun
      rwa [List.append_assoc] at this

/-- A run that was computed is a trace. -/
theorem Trace.of_runWhile {call : σ → α → Except ε (σ × β)} {P : σ → α → Prop}
    [∀ s a, Decidable (P s a)] {s₀ : σ} {as : List α} (h : (runWhile call P s₀ as).isSome) :
    Trace call P s₀ as ((runWhile call P s₀ as).get h) :=
  Trace.append .nil (Option.some_get h).symm

/-- A run that was computed, with what was computed about its end. -/
theorem Trace.exists_of_runWhile {call : σ → α → Except ε (σ × β)} {P : σ → α → Prop}
    [∀ s a, Decidable (P s a)] {Q : σ → Prop} [DecidablePred Q] {s₀ : σ} {as : List α}
    (h : ((runWhile call P s₀ as).any fun s => Q s) = true) : ∃ s, Trace call P s₀ as s ∧ Q s := by
  cases hrun : runWhile call P s₀ as with
  | none => simp [hrun] at h
  | some s =>
    rw [hrun] at h
    exact ⟨s, Trace.append .nil hrun, of_decide_eq_true h⟩

/-- A call whose answer was computed. -/
theorem exists_of_answer {x : Except ε (σ × β)} {b : β} (h : x.toOption.map Prod.snd = some b) :
    ∃ s, x = .ok (s, b) := by
  cases x with
  | error e => simp [Except.toOption] at h
  | ok r => exact ⟨r.1, congrArg (fun b => Except.ok (r.1, b)) (Option.some_inj.1 h)⟩

/-- A weaker condition allows more traces. -/
theorem Trace.mono {call : σ → α → Except ε (σ × β)} {P Q : σ → α → Prop} {s₀ : σ}
    (hPQ : ∀ s a, P s a → Q s a) {as : List α} {s : σ} (h : Trace call P s₀ as s) :
    Trace call Q s₀ as s := by
  induction h with
  | nil => exact .nil
  | snoc _ hP heq ih => exact .snoc ih (hPQ _ _ hP) heq

/-- A trace of a system whose calls are those of another one, seen through `view`, comes from a
trace of that one. -/
theorem Trace.exists_of_view {call : σ → α → Except ε (σ × β)} {P : σ → α → Prop}
    {call' : τ → α → Except ε (τ × β)} {P' : τ → α → Prop} (view : σ → τ) (s₀ : σ)
    (hP : ∀ s a, P' (view s) a → P s a)
    (hcall : ∀ s a t b, call' (view s) a = .ok (t, b) → ∃ s', call s a = .ok (s', b) ∧ t = view s')
    {as : List α} {t : τ} (h : Trace call' P' (view s₀) as t) :
    ∃ s, Trace call P s₀ as s ∧ t = view s := by
  induction h with
  | nil => exact ⟨s₀, .nil, rfl⟩
  | snoc _ hP' heq ih =>
    obtain ⟨s, hrun, rfl⟩ := ih
    obtain ⟨s', heq', rfl⟩ := hcall _ _ _ _ heq
    exact ⟨s', hrun.snoc (hP _ _ hP') heq', rfl⟩

/-- The last call of a trace. -/
theorem Trace.snoc_inv {call : σ → α → Except ε (σ × β)} {P : σ → α → Prop} {s₀ s' : σ}
    {as : List α} {a : α} (h : Trace call P s₀ (as ++ [a]) s') :
    ∃ s b, Trace call P s₀ as s ∧ P s a ∧ call s a = .ok (s', b) := by
  generalize has : as ++ [a] = as' at h
  cases h with
  | nil => simp at has
  | snoc h hP heq =>
    obtain ⟨rfl, ha⟩ := List.append_inj' has rfl
    obtain rfl : a = _ := List.singleton_inj.1 ha
    exact ⟨_, _, h, hP, heq⟩

/-- The same calls lead to the same state. -/
theorem Trace.unique {call : σ → α → Except ε (σ × β)} {P Q : σ → α → Prop} {s₀ s s' : σ}
    {as : List α} (h : Trace call P s₀ as s) (h' : Trace call Q s₀ as s') : s = s' := by
  induction h generalizing s' with
  | nil =>
    generalize has : ([] : List α) = as at h'
    cases h' with
    | nil => rfl
    | snoc => simp at has
  | snoc _ _ heq ih =>
    obtain ⟨s₁, b, hrun, -, heq'⟩ := h'.snoc_inv
    obtain rfl := ih hrun
    cases heq.symm.trans heq'
    rfl

/-- A condition on every call of a trace. -/
theorem Trace.and_snoc_iff {call : σ → α → Except ε (σ × β)} {P Q : σ → α → Prop} {s₀ s s' : σ}
    {as : List α} {a : α} {b : β} (h : Trace call P s₀ as s) (hP : P s a)
    (heq : call s a = .ok (s', b)) :
    Trace call (fun s a => P s a ∧ Q s a) s₀ (as ++ [a]) s' ↔
      Trace call (fun s a => P s a ∧ Q s a) s₀ as s ∧ Q s a := by
  constructor
  · intro h'
    obtain ⟨s₁, b', hrun, ⟨-, hQ⟩, -⟩ := h'.snoc_inv
    obtain rfl := h.unique hrun
    exact ⟨hrun, hQ⟩
  · rintro ⟨hrun, hQ⟩
    exact hrun.snoc ⟨hP, hQ⟩ heq

/-- A run of calls that keep something good as long as they meet `Q`, and spoil it for ever when one
does not. -/
theorem Trace.good_or_bad {call : σ → α → Except ε (σ × β)} {P Q : σ → α → Prop} {I G B : σ → Prop}
    {s₀ s : σ} {as : List α} (h₀ : I s₀) (hgood : G s₀)
    (hcall : ∀ s a s' b, I s → P s a → call s a = .ok (s', b) →
      I s' ∧ (B s → B s') ∧ (G s → Q s a → G s') ∧ (¬ Q s a → B s'))
    (h : Trace call P s₀ as s) :
    I s ∧ (Trace call (fun s a => P s a ∧ Q s a) s₀ as s ∧ G s ∨
      ¬ Trace call (fun s a => P s a ∧ Q s a) s₀ as s ∧ B s) := by
  induction h with
  | nil => exact ⟨h₀, Or.inl ⟨.nil, hgood⟩⟩
  | @snoc as s s' a b hrun hP heq ih =>
    obtain ⟨hinv, hor⟩ := ih
    obtain ⟨hinv', hkeep, hnext, hlost⟩ := hcall s a s' b hinv hP heq
    refine ⟨hinv', ?_⟩
    rw [hrun.and_snoc_iff hP heq]
    rcases hor with ⟨hall, hg⟩ | ⟨hnot, hb⟩
    · by_cases hQ : Q s a
      · exact Or.inl ⟨⟨hall, hQ⟩, hnext hg hQ⟩
      · exact Or.inr ⟨fun hand => hQ hand.2, hlost hQ⟩
    · exact Or.inr ⟨fun hand => hnot hand.1, hkeep hb⟩

/-! ### Systems with one way to go on -/

section Reaches

variable {next : σ → Option (Except ε σ)} {a b c : σ}

/-- The system gets from one state to another. -/
def Reaches (next : σ → Option (Except ε σ)) : σ → σ → Prop :=
  Relation.ReflTransGen fun a b => next a = some (.ok b)

theorem Reaches.refl (a : σ) : Reaches next a a := Relation.ReflTransGen.refl

theorem Reaches.trans (h : Reaches next a b) (h' : Reaches next b c) : Reaches next a c :=
  Relation.ReflTransGen.trans h h'

theorem Reaches.tail (h : Reaches next a b) (h' : next b = some (.ok c)) : Reaches next a c :=
  Relation.ReflTransGen.tail h h'

/-- What every step keeps. -/
theorem Reaches.invariant {P : σ → Prop} (hstep : ∀ a b, P a → next a = some (.ok b) → P b)
    (h : Reaches next a b) (ha : P a) : P b := by
  induction h with
  | refl => exact ha
  | tail _ hnext ih => exact hstep _ _ ih hnext

/-- A state in which the system stops lies behind every other one. -/
theorem Reaches.of_stuck (h : Reaches next a b) (hstuck : ∀ c, next b ≠ some (.ok c))
    (h' : Reaches next a c) :
    Reaches next c b := by
  have hunique : Relator.RightUnique fun a b => next a = some (.ok b) := by
    intro x y z hy hz
    cases hy.symm.trans hz
    rfl
  rcases Relation.ReflTransGen.total_of_right_unique hunique h' h with hcb | hbc
  · exact hcb
  · rcases Relation.ReflTransGen.cases_head hbc with rfl | ⟨x, hx, -⟩
    · exact Relation.ReflTransGen.refl
    · exact absurd hx (hstuck x)

end Reaches

end Runs

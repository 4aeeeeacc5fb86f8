import Mathlib.Tactic

/-!
# Aborts and error codes

`nn_assert`, `errnum_assert` and the `nn_fsm_bad_*` macros end in `nn_err_abort`; a NULL
dereference or a read outside an object ends the process as well, or worse.  A function of the
library that can reach one of these is modelled in `Except Fault`: `.ok` is a return, `.error` the
way the process died.  A call that returns a negated error code returns an `Errno`.
-/

namespace NanoSocket

/-- The ways in which a call does not return. -/
inductive Fault
  | assertFailed
  | nullDeref
  | outOfBounds
  | badState
  | badSource
  | badAction
  | diverged
  deriving DecidableEq, Repr

/-- The error codes returned by the protocols. -/
inductive Errno
  | eagain
  | ebadf
  | efsm
  | etimedout
  | econnreset
  | eaddrinuse
  deriving DecidableEq, Repr

/-- `nn_assert (x)`. -/
def nnAssert (x : Prop) [Decidable x] : Except Fault Unit :=
  if x then .ok () else .error .assertFailed

theorem nnAssert_of {x : Prop} [Decidable x] (h : x) : nnAssert x = .ok () := if_pos h

theorem nnAssert_of_not {x : Prop} [Decidable x] (h : ¬ x) :
    nnAssert x = .error .assertFailed := if_neg h

section Except

variable {ε α β : Type}

@[simp] theorem ok_bind (a : α) (f : α → Except ε β) : ((.ok a : Except ε α) >>= f) = f a :=
  rfl

@[simp] theorem error_bind (e : ε) (f : α → Except ε β) :
    ((.error e : Except ε α) >>= f) = .error e := rfl

@[simp] theorem pure_eq_ok (a : α) : (pure a : Except ε α) = .ok a := rfl

@[simp] theorem throw_eq_error (e : ε) : (throw e : Except ε α) = .error e := rfl

/-- A value that was computed. -/
theorem eq_ok_of_toOption {x : Except ε α} {a : α} (h : x.toOption = some a) : x = .ok a := by
  cases x with
  | error e => cases h
  | ok b => exact congrArg Except.ok (Option.some_inj.1 h)

/-- A sequence returns only when both parts do. -/
theorem bind_eq_ok {x : Except ε α} {f : α → Except ε β} {b : β} :
    (x >>= f) = .ok b ↔ ∃ a, x = .ok a ∧ f a = .ok b := by
  cases x with
  | error e => simp
  | ok a => simp

end Except

/-! ### How a call ends -/

section Ends

variable {α β : Type} {E : Fault → Prop} {P : α → Prop} {Q : β → Prop}

/-- The call returns a value that satisfies `P`, or it fails in a way that `E` allows. -/
def Ends (E : Fault → Prop) (P : α → Prop) : Except Fault α → Prop
  | .ok a => P a
  | .error f => E f

theorem Ends.bind {x : Except Fault α} {f : α → Except Fault β} (h : Ends E P x)
    (hf : ∀ a, P a → Ends E Q (f a)) : Ends E Q (x >>= f) := by
  cases x with
  | error e => exact h
  | ok a => exact hf a h

theorem Ends.assert {x : Prop} [Decidable x] {f : Unit → Except Fault β} (hx : x ∨ E .assertFailed)
    (hf : x → Ends E Q (f ())) : Ends E Q (nnAssert x >>= f) := by
  by_cases h : x
  · rw [nnAssert_of h]
    exact hf h
  · rw [nnAssert_of_not h]
    exact hx.resolve_left h

theorem Ends.mono {x : Except Fault α} {P' : α → Prop} (h : Ends E P x) (hP : ∀ a, P a → P' a) :
    Ends E P' x := by
  cases x with
  | error e => exact h
  | ok a => exact hP a h

end Ends

end NanoSocket

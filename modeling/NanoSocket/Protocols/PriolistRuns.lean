import NanoSocket.Lib.Runs
import NanoSocket.Protocols.Priolist

/-!
# Runs of a priority list (`protocols/utils/priolist.c`)

`PriolistWorld` is a priority list with the set of the pipes that should be active and the
priorities that they were added with; `PriolistCall` are the calls.  `priolist_invariant` says that
the list holds the active pipes in the slots of their priorities, and that its cursors are where
they should be.
-/

namespace NanoSocket

open Runs

variable {P : Type} [DecidableEq P]

/-- A call of one of the functions of a priority list. -/
inductive PriolistCall (P : Type)
  | add (pipe : P) (priority : Fin 16)
  | activate (pipe : P)
  | advance (release : Bool)
  | rm (pipe : P)

/-- A priority list, the active pipes, and the priorities of all pipes. -/
structure PriolistWorld (P : Type) where
  list : Priolist P
  active : Finset P
  prio : P → Fin 16

namespace PriolistWorld

/-- An empty list. -/
def init : PriolistWorld P := ⟨.init, ∅, fun _ => 0⟩

/-- Make a call. -/
def call (w : PriolistWorld P) : PriolistCall P → Except Fault (PriolistWorld P × Unit)
  | .add p priority =>
    .ok ({ w with list := w.list.add p priority, prio := Function.update w.prio p priority }, ())
  | .activate p => do
    let list ← w.list.activate p
    return ({ w with list := list, active := insert p w.active }, ())
  | .advance release => do
    let p ← w.list.getpipe
    let list ← w.list.advance release
    return ({ w with list := list, active := if release then w.active \ p.toFinset else w.active },
      ())
  | .rm p => .ok ({ w with list := w.list.rm p, active := w.active.erase p }, ())

/-- A pipe is added or activated only when it is not active; the callers move on only from an active
pipe. -/
def Enabled (w : PriolistWorld P) : PriolistCall P → Prop
  | .add p _ | .activate p => p ∉ w.active
  | .advance _ => w.active.Nonempty
  | .rm _ => True

instance (w : PriolistWorld P) : (c : PriolistCall P) → Decidable (w.Enabled c)
  | .add p _ | .activate p => inferInstanceAs (Decidable (p ∉ w.active))
  | .advance _ => inferInstanceAs (Decidable w.active.Nonempty)
  | .rm _ => .isTrue trivial

/-- The list holds the active pipes. -/
structure Inv (w : PriolistWorld P) : Prop where
  wf : w.list.Wf
  active : ∀ p, w.list.Active p ↔ p ∈ w.active
  prio : w.list.prio = w.prio

omit [DecidableEq P] in
theorem init_inv : (init : PriolistWorld P).Inv :=
  ⟨Priolist.init_wf, fun p => iff_of_false (Priolist.not_active_init p) (Finset.notMem_empty p),
    rfl⟩

/-- Every call that is allowed returns and keeps the invariant. -/
theorem Inv.step {w : PriolistWorld P} (h : w.Inv) {c : PriolistCall P} (hc : w.Enabled c) :
    ∃ w', w.call c = .ok (w', ()) ∧ w'.Inv := by
  cases c with
  | add p priority =>
    obtain ⟨hwf, hactive⟩ := h.wf.add (mt (h.active p).1 hc) priority
    exact ⟨_, rfl, hwf, fun q => (hactive q).trans (h.active q), by rw [← h.prio]; rfl⟩
  | activate p =>
    obtain ⟨list, heq, hwf, hprio, hactive⟩ := h.wf.activate (mt (h.active p).1 hc)
    refine ⟨_, by rw [call, heq]; rfl, hwf, fun q => ?_, hprio.trans h.prio⟩
    rw [hactive, h.active, Finset.mem_insert, or_comm]
  | advance release =>
    rcases h.wf.getpipe with ⟨-, hnone⟩ | ⟨p, hget, -⟩
    · obtain ⟨q, hq⟩ := hc
      exact absurd ((h.active q).2 hq) (hnone q)
    obtain ⟨list, heq, hwf, hprio, hactive⟩ := h.wf.advance hget release
    refine ⟨_, by rw [call, hget, ok_bind, heq]; rfl, hwf, fun q => ?_, hprio.trans h.prio⟩
    rw [hactive, h.active]
    cases release with
    | true => simp
    | false => simp
  | rm p =>
    obtain ⟨hwf, hprio, hactive⟩ := h.wf.rm p
    refine ⟨_, rfl, hwf, fun q => ?_, hprio.trans h.prio⟩
    rw [hactive, h.active, Finset.mem_erase, and_comm]

theorem inv_of_trace {calls : List (PriolistCall P)} {w : PriolistWorld P}
    (h : Trace call Enabled init calls w) :
    w.Inv := by
  apply h.invariant_of_step (I := fun _ w => w.Inv) init_inv
  intro _ w c hi hen
  obtain ⟨w', heq, hi'⟩ := hi.step hen
  exact ⟨w', (), heq, hi'⟩

omit [DecidableEq P] in
/-- The current slot is the first one with an active pipe. -/
theorem Inv.current_iff {w : PriolistWorld P} (h : w.Inv) (i : Fin 16) :
    w.list.current = some i ↔ (∃ p ∈ w.active, w.prio p = i) ∧ ∀ p ∈ w.active, i ≤ w.prio p := by
  have hslot : ∀ j, (w.list.slots j).pipes ≠ [] ↔ ∃ p ∈ w.active, w.prio p = j := by
    intro j
    rw [← h.prio]
    constructor
    · intro hne
      obtain ⟨p, hp⟩ := List.exists_mem_of_ne_nil _ hne
      exact ⟨p, (h.active p).1 (h.wf.active_of_mem hp), h.wf.prio j p hp⟩
    · rintro ⟨p, hp, rfl⟩
      exact List.ne_nil_of_mem ((h.active p).2 hp)
  rw [h.wf.current, Fin.find?_eq_some_iff]
  simp only [Bool.not_eq_true', List.isEmpty_eq_false_iff, Bool.not_eq_false', List.isEmpty_iff]
  rw [hslot]
  refine and_congr_right fun _ => ⟨fun hlow p hp => ?_, fun hlow j hj => ?_⟩
  · by_contra hlt
    exact (hslot _).2 ⟨p, hp, rfl⟩ (hlow _ (not_le.1 hlt))
  · by_contra hne
    obtain ⟨p, hp, rfl⟩ := (hslot j).1 hne
    exact absurd (hlow p hp) (not_le.2 hj)

/-- In every state that a priority list can reach, its current slot is the first one that has an
active pipe, and there is none when no pipe is active; the cursor of a slot is in the list of the
slot when there is anything in it; every active pipe is in the slot of its priority once, and in no
other; and every further call that is allowed returns. -/
theorem priolist_invariant {calls : List (PriolistCall P)} {w : PriolistWorld P}
    (h : Trace call Enabled init calls w) :
    (∀ i, w.list.current = some i ↔ (∃ p ∈ w.active, w.prio p = i) ∧ ∀ p ∈ w.active, i ≤ w.prio p) ∧
      (w.list.current = none ↔ w.active = ∅) ∧
      (∀ i, (∃ p ∈ (w.list.slots i).current, p ∈ (w.list.slots i).pipes) ↔
        (w.list.slots i).pipes ≠ []) ∧
      (∀ i p, (w.list.slots i).pipes.count p = if p ∈ w.active ∧ w.prio p = i then 1 else 0) ∧
      ∀ c, w.Enabled c → ∃ w', w.call c = .ok (w', ()) := by
  have hi := inv_of_trace h
  refine ⟨hi.current_iff, ?_, fun i => ?_, fun i p => ?_, fun c hc => ?_⟩
  · constructor
    · intro hnone
      rw [Finset.eq_empty_iff_forall_notMem]
      exact fun p hp => hi.wf.of_current_none hnone p ((hi.active p).2 hp)
    · intro hempty
      by_contra hne
      obtain ⟨i, hcur⟩ := Option.ne_none_iff_exists'.1 hne
      obtain ⟨⟨p, hp, -⟩, -⟩ := (hi.current_iff i).1 hcur
      rw [hempty] at hp
      exact absurd hp (Finset.notMem_empty p)
  · constructor
    · rintro ⟨p, -, hp⟩
      exact List.ne_nil_of_mem hp
    · intro hne
      obtain ⟨p, hp⟩ := Option.ne_none_iff_exists'.1 ((hi.wf.slot i).cursor hne)
      exact ⟨p, hp, (hi.wf.slot i).mem p hp⟩
  · split_ifs with hp
    · obtain ⟨hp, rfl⟩ := hp
      rw [← hi.prio]
      exact List.count_eq_one_of_mem (hi.wf.slot _).nodup ((hi.active p).2 hp)
    · refine List.count_eq_zero_of_not_mem fun hmem => hp ⟨?_, ?_⟩
      · exact (hi.active p).1 (hi.wf.active_of_mem hmem)
      · rw [← hi.prio]
        exact hi.wf.prio i p hmem
  · obtain ⟨w', heq, -⟩ := hi.step hc
    exact ⟨w', heq⟩

/-- A pipe of a higher slot comes and goes. -/
theorem priolist_invariant_two :
    ∃ w : PriolistWorld Bool, Trace call Enabled init
        [.add true 3, .add false 8, .activate false, .activate true, .advance false, .rm true] w ∧
      w.list.current = some 8 ∧ (w.list.slots 8).pipes.count false = 1 := by
  have hrun : ∃ w : PriolistWorld Bool, Trace call Enabled init
      [.add true 3, .add false 8, .activate false, .activate true, .advance false, .rm true] w ∧
        w.active = {false} ∧ w.prio false = 8 := Trace.exists_of_runWhile (by decide)
  obtain ⟨w, h, hactive, hprio⟩ := hrun
  obtain ⟨hcurrent, -, -, hcount, -⟩ := priolist_invariant h
  refine ⟨w, h, (hcurrent 8).2 ?_, ?_⟩
  · simp [hactive, hprio]
  · rw [hcount, hactive, hprio]
    rfl

end PriolistWorld

end NanoSocket

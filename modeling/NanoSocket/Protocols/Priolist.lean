import NanoSocket.Core.Fault

/-!
# Priority lists (`protocols/utils/priolist.c`)

The pipes that are ready for an operation stand in sixteen slots, one for each priority, each with a
cursor for round-robin; `current` is the first slot that is not empty.  A priority `1`, …, `16` is
the slot index `0`, …, `15` here, and a `current` of `-1` is `none`.  The intrusive lists of the
slots are lists of pipes.

`Priolist.Active l p` says that `p` is in the list, and each operation is described by its effect on
that predicate.
-/

namespace NanoSocket

variable {P : Type}

/-- `struct nn_priolist_slot`. -/
structure Slot (P : Type) where
  pipes : List P
  current : Option P

instance neZero_slots : NeZero 16 := ⟨by decide⟩

-- where the pipes are numbered, there are one or two of them
instance neZero_onePipe : NeZero 1 := ⟨by decide⟩

instance neZero_twoPipes : NeZero 2 := ⟨by decide⟩

/-- `struct nn_priolist`, with the priorities that its `nn_priolist_data` hold. -/
structure Priolist (P : Type) where
  slots : Fin 16 → Slot P
  current : Option (Fin 16)
  prio : P → Fin 16

/-- `nn_list_next`: the item after `p`. -/
def listNext [DecidableEq P] : List P → P → Option P
  | [], _ => none
  | x :: l, p => if x = p then l.head? else listNext l p

namespace Priolist

section Operations

variable [DecidableEq P]

/-- `nn_priolist_init`. -/
def init : Priolist P := { slots := fun _ => ⟨[], none⟩, current := none, prio := fun _ => 0 }

/-- `nn_priolist_add`. -/
def add (self : Priolist P) (pipe : P) (priority : Fin 16) : Priolist P :=
  { self with prio := Function.update self.prio pipe priority }

/-- The loops that switch to lower priorities: the first slot from `i` on that is not empty. -/
def scan (slots : Fin 16 → Slot P) (i : Fin 16) : Option (Fin 16) :=
  Fin.find? fun j => i ≤ j && !(slots j).pipes.isEmpty

/-- `nn_priolist_rm`. -/
def rm (self : Priolist P) (pipe : P) : Priolist P :=
  let i := self.prio pipe
  let slot := self.slots i
  -- non-active pipes don't need any special processing
  if pipe ∉ slot.pipes then self
  else if slot.current ≠ some pipe then
    { self with slots := Function.update self.slots i ⟨slot.pipes.erase pipe, slot.current⟩ }
  else
    let pipes := slot.pipes.erase pipe
    let current := (listNext slot.pipes pipe).or pipes.head?
    let slots := Function.update self.slots i ⟨pipes, current⟩
    if self.current ≠ some i then { self with slots := slots }
    else { self with slots := slots, current := scan slots i }

/-- `nn_priolist_activate`. -/
def activate (self : Priolist P) (pipe : P) : Except Fault (Priolist P) :=
  let i := self.prio pipe
  let slot := self.slots i
  if slot.pipes ≠ [] then do
    nnAssert (pipe ∉ slot.pipes)
    return { self with slots := Function.update self.slots i ⟨slot.pipes ++ [pipe], slot.current⟩ }
  else
    let slots := Function.update self.slots i ⟨[pipe], some pipe⟩
    match self.current with
    | none => .ok { self with slots := slots, current := some i }
    | some cur =>
      if cur > i then .ok { self with slots := slots, current := some i }
      else .ok { self with slots := slots }

/-- `nn_priolist_is_active`. -/
def isActive (self : Priolist P) : Bool := self.current.isSome

/-- `nn_priolist_getpipe`. -/
def getpipe (self : Priolist P) : Except Fault (Option P) :=
  match self.current with
  | none => .ok none
  | some i =>
    match (self.slots i).current with
    | none => .error .nullDeref
    | some p => .ok (some p)

/-- `nn_priolist_advance`. -/
def advance (self : Priolist P) (release : Bool) : Except Fault (Priolist P) :=
  match self.current with
  | none => .error .assertFailed
  | some i =>
    let slot := self.slots i
    match slot.current with
    | none => .error .nullDeref
    | some p => do
      nnAssert (p ∈ slot.pipes)
      let pipes := if release then slot.pipes.erase p else slot.pipes
      let current := (listNext slot.pipes p).or pipes.head?
      let slots := Function.update self.slots i ⟨pipes, current⟩
      return { self with slots := slots, current := scan slots i }

end Operations

/-! ### The invariant -/

/-- The cursor of a slot points into its list. -/
structure SlotWf (s : Slot P) : Prop where
  nodup : s.pipes.Nodup
  mem : ∀ p, s.current = some p → p ∈ s.pipes
  cursor : s.pipes ≠ [] → s.current ≠ none

/-- The invariant of a priority list. -/
structure Wf (l : Priolist P) : Prop where
  slot : ∀ i, SlotWf (l.slots i)
  prio : ∀ i, ∀ p ∈ (l.slots i).pipes, l.prio p = i
  current : l.current = Fin.find? fun j => !(l.slots j).pipes.isEmpty

/-- The pipe is in the list. -/
def Active (l : Priolist P) (p : P) : Prop := p ∈ (l.slots (l.prio p)).pipes

instance [DecidableEq P] (l : Priolist P) (p : P) : Decidable (l.Active p) :=
  inferInstanceAs (Decidable (p ∈ (l.slots (l.prio p)).pipes))

theorem init_wf : (init : Priolist P).Wf :=
  ⟨fun _ => ⟨List.nodup_nil, by simp [init], fun h => absurd rfl h⟩, by simp [init],
    (Fin.find?_eq_none_iff.2 fun _ => rfl).symm⟩

theorem not_active_init (p : P) : ¬ (init : Priolist P).Active p := List.not_mem_nil

theorem Wf.of_current {l : Priolist P} (h : l.Wf) {i : Fin 16} (hi : l.current = some i) :
    (l.slots i).pipes ≠ [] ∧ ∀ j < i, (l.slots j).pipes = [] := by
  have := h.current
  rw [hi] at this
  obtain ⟨h1, h2⟩ := Fin.find?_eq_some_iff.1 this.symm
  constructor
  · simpa using h1
  · intro j hj
    simpa using h2 j hj

theorem Wf.of_current_none {l : Priolist P} (h : l.Wf) (hi : l.current = none) (p : P) :
    ¬ l.Active p := by
  have := h.current
  rw [hi] at this
  have hempty := Fin.find?_eq_none_iff.1 this.symm (l.prio p)
  intro hp
  rw [Active, show (l.slots (l.prio p)).pipes = [] by simpa using hempty] at hp
  exact absurd hp List.not_mem_nil

theorem Wf.active_of_mem {l : Priolist P} (h : l.Wf) {i : Fin 16} {p : P}
    (hp : p ∈ (l.slots i).pipes) : l.Active p := by
  rw [Active, h.prio i p hp]
  exact hp

/-- Replacing a slot. -/
theorem Wf.update {l : Priolist P} (h : l.Wf) {i : Fin 16} {s : Slot P} (hs : SlotWf s)
    (hp : ∀ p ∈ s.pipes, l.prio p = i) {cur : Option (Fin 16)}
    (hcur : cur = Fin.find? fun j => !(Function.update l.slots i s j).pipes.isEmpty) :
    Wf { l with slots := Function.update l.slots i s, current := cur } := by
  refine ⟨fun j => ?_, fun j p hj => ?_, hcur⟩
  · by_cases hj : j = i
    · subst hj
      simpa using hs
    · simpa [hj] using h.slot j
  · by_cases hji : j = i
    · subst hji
      exact hp p (by simpa using hj)
    · exact h.prio j p (by simpa [hji] using hj)

theorem active_update (l : Priolist P) (i : Fin 16) (s : Slot P) (cur : Option (Fin 16)) (p : P) :
    Active { l with slots := Function.update l.slots i s, current := cur } p ↔
      if l.prio p = i then p ∈ s.pipes else l.Active p := by
  unfold Active
  by_cases hp : l.prio p = i
  · simp [hp]
  · simp [hp]

theorem scan_eq {slots : Fin 16 → Slot P} {i : Fin 16} (h : ∀ j < i, (slots j).pipes = []) :
    scan slots i = Fin.find? fun j => !(slots j).pipes.isEmpty := by
  unfold scan
  congr 1
  funext j
  by_cases hj : j < i
  · simp [h j hj]
  · simp [not_lt.1 hj]

/-- The pipes of the list. -/
def actives [DecidableEq P] (l : Priolist P) : Finset P :=
  Finset.univ.biUnion fun i => (l.slots i).pipes.toFinset

theorem Wf.mem_actives [DecidableEq P] {l : Priolist P} (h : l.Wf) {p : P} :
    p ∈ l.actives ↔ l.Active p := by
  simp only [actives, Finset.mem_biUnion, Finset.mem_univ, true_and, List.mem_toFinset]
  exact ⟨fun ⟨_, hi⟩ => h.active_of_mem hi, fun ha => ⟨_, ha⟩⟩

/-! ### The operations -/

/-- The pipe that `nn_priolist_getpipe` returns is in the list; there is none only when the list is
empty. -/
theorem Wf.getpipe {l : Priolist P} (h : l.Wf) :
    (l.getpipe = .ok none ∧ ∀ p, ¬ l.Active p) ∨ ∃ p, l.getpipe = .ok (some p) ∧ l.Active p := by
  unfold Priolist.getpipe
  cases hi : l.current with
  | none => exact Or.inl ⟨rfl, h.of_current_none hi⟩
  | some i =>
    obtain ⟨p, hp⟩ := Option.ne_none_iff_exists'.1 ((h.slot i).cursor (h.of_current hi).1)
    refine Or.inr ⟨p, by simp [hp], h.active_of_mem ((h.slot i).mem p hp)⟩

variable [DecidableEq P]

theorem mem_erase_of_listNext {l : List P} {p q : P} (h : listNext l p = some q) :
    q ∈ l.erase p := by
  induction l with
  | nil => cases h
  | cons x l ih =>
    rw [listNext] at h
    by_cases hx : x = p
    · rw [if_pos hx] at h
      rw [hx, List.erase_cons_head]
      exact List.mem_of_head? h
    · rw [if_neg hx] at h
      rw [List.erase_cons_tail (by simpa using hx)]
      exact List.mem_cons_of_mem x (ih h)

/-- Moving the cursor to the next pipe, with wrap-over. -/
theorem slotWf_next {l pipes : List P} {p : P} (hn : pipes.Nodup) (hsub : l.erase p ⊆ pipes) :
    SlotWf ⟨pipes, (listNext l p).or pipes.head?⟩ := by
  refine ⟨hn, fun q hq => ?_, fun hne => ?_⟩
  · rcases Option.or_eq_some_iff.1 hq with hq | ⟨-, hq⟩
    · exact hsub (mem_erase_of_listNext hq)
    · exact List.mem_of_head? hq
  · obtain ⟨x, xs, hx⟩ := List.exists_cons_of_ne_nil hne
    subst hx
    simp

/-- `nn_priolist_advance` keeps the pipe unless it is released. -/
theorem Wf.advance {l : Priolist P} (h : l.Wf) {p : P} (hp : l.getpipe = .ok (some p))
    (release : Bool) :
    ∃ l', l.advance release = .ok l' ∧ l'.Wf ∧ l'.prio = l.prio ∧
      ∀ q, l'.Active q ↔ l.Active q ∧ (release = true → q ≠ p) := by
  unfold Priolist.getpipe at hp
  cases hi : l.current with
  | none => rw [hi] at hp; cases hp
  | some i =>
    rw [hi] at hp
    cases hc : (l.slots i).current with
    | none => simp [hc] at hp
    | some q =>
      simp only [hc, Except.ok.injEq, Option.some.injEq] at hp
      subst hp
      have hs := h.slot i
      have hmem := hs.mem q hc
      have hq := h.prio i q hmem
      generalize hpipes : (if release then (l.slots i).pipes.erase q else (l.slots i).pipes) = pipes
      have hiff : ∀ r, r ∈ pipes ↔ r ∈ (l.slots i).pipes ∧ (release = true → r ≠ q) := by
        intro r
        subst hpipes
        cases release with
        | true => simp [hs.nodup.mem_erase_iff, and_comm]
        | false => simp
      have hnodup : pipes.Nodup := by
        subst hpipes
        split_ifs
        · exact hs.nodup.erase q
        · exact hs.nodup
      have hsub : (l.slots i).pipes.erase q ⊆ pipes := by
        intro r hr
        rw [hs.nodup.mem_erase_iff] at hr
        exact (hiff r).2 ⟨hr.2, fun _ => hr.1⟩
      refine ⟨_, ?_, h.update (i := i) (slotWf_next hnodup hsub) ?_ (scan_eq (i := i) ?_), rfl,
        fun r => ?_⟩
      · unfold Priolist.advance
        simp only [hi, hc, hpipes]
        rw [nnAssert_of hmem]
        rfl
      · intro r hr
        exact h.prio i r ((hiff r).1 hr).1
      · intro j hj
        rw [Function.update_of_ne hj.ne]
        exact (h.of_current hi).2 j hj
      · rw [active_update]
        by_cases hr : l.prio r = i
        · rw [if_pos hr, hiff, Active, hr]
        · rw [if_neg hr]
          exact ⟨fun ha => ⟨ha, fun _ hrq => hr (hrq ▸ hq)⟩, fun ha => ha.1⟩

/-- `nn_priolist_activate` adds a pipe. -/
theorem Wf.activate {l : Priolist P} (h : l.Wf) {p : P} (hp : ¬ l.Active p) :
    ∃ l', l.activate p = .ok l' ∧ l'.Wf ∧ l'.prio = l.prio ∧
      ∀ q, l'.Active q ↔ l.Active q ∨ q = p := by
  have hs := h.slot (l.prio p)
  -- the new slot, whatever the cursor of the list becomes
  have hactive : ∀ (s : Slot P) cur, (∀ q, q ∈ s.pipes ↔ q ∈ (l.slots (l.prio p)).pipes ∨ q = p) →
      ∀ q, Active { l with slots := Function.update l.slots (l.prio p) s, current := cur } q ↔
        l.Active q ∨ q = p := by
    intro s cur hmem q
    rw [active_update]
    by_cases hq : l.prio q = l.prio p
    · rw [if_pos hq, hmem, Active, hq]
    · rw [if_neg hq, or_iff_left]
      rintro rfl
      exact hq rfl
  have hprio : ∀ q, q ∈ (l.slots (l.prio p)).pipes ∨ q = p → l.prio q = l.prio p := by
    rintro q (hq | rfl)
    · exact h.prio _ q hq
    · rfl
  unfold Priolist.activate
  by_cases hempty : (l.slots (l.prio p)).pipes = []
  · have hslot : SlotWf (⟨[p], some p⟩ : Slot P) := ⟨by simp, by simp, by simp⟩
    have hfirst :
        ∀ cur, (∀ j, cur = some j → (j = l.prio p ∨ (l.slots j).pipes ≠ []) ∧ j ≤ l.prio p ∧
          ∀ k < j, (l.slots k).pipes = []) → cur ≠ none →
        cur = Fin.find? fun j =>
          !(Function.update l.slots (l.prio p) ⟨[p], some p⟩ j).pipes.isEmpty := by
      intro cur hcur hne
      obtain ⟨j, hj⟩ := Option.ne_none_iff_exists'.1 hne
      obtain ⟨h1, h2, h3⟩ := hcur j hj
      rw [hj]
      refine (Fin.find?_eq_some_iff.2 ⟨?_, fun k hk => ?_⟩).symm
      · by_cases hjp : j = l.prio p
        · simp [hjp]
        · simpa [hjp] using h1.resolve_left hjp
      · simp [(hk.trans_le h2).ne, h3 k hk]
    have hmem : ∀ q, q ∈ ([p] : List P) ↔ q ∈ (l.slots (l.prio p)).pipes ∨ q = p := by
      intro q
      simp [hempty]
    simp only [hempty, ne_eq, not_true_eq_false, if_false]
    cases hi : l.current with
    | none =>
      refine ⟨_, rfl, h.update hslot (fun q hq => hprio q ((hmem q).1 hq)) (hfirst _ ?_ (by simp)),
        rfl, hactive _ _ hmem⟩
      rintro j ⟨⟩
      have hnone := h.current
      rw [hi] at hnone
      refine ⟨Or.inl rfl, le_rfl, fun k _ => ?_⟩
      simpa using Fin.find?_eq_none_iff.1 hnone.symm k
    | some cur =>
      obtain ⟨hne, hlow⟩ := h.of_current hi
      simp only
      split_ifs with hgt
      · refine ⟨_, rfl,
          h.update hslot (fun q hq => hprio q ((hmem q).1 hq)) (hfirst _ ?_ (by simp)), rfl,
          hactive _ _ hmem⟩
        rintro j ⟨⟩
        exact ⟨Or.inl rfl, le_rfl, fun k hk => hlow k (hk.trans hgt)⟩
      · refine ⟨_, rfl, h.update hslot (fun q hq => hprio q ((hmem q).1 hq))
          (hfirst _ ?_ (by simp)), rfl, hactive _ _ hmem⟩
        rintro j ⟨⟩
        exact ⟨Or.inr hne, not_lt.1 hgt, hlow⟩
  · have hmem : ∀ q, q ∈ (l.slots (l.prio p)).pipes ++ [p] ↔
        q ∈ (l.slots (l.prio p)).pipes ∨ q = p := by
      intro q
      simp
    simp only [hempty, ne_eq, not_false_eq_true, if_true]
    have hslot :
        SlotWf (⟨(l.slots (l.prio p)).pipes ++ [p], (l.slots (l.prio p)).current⟩ : Slot P) := by
      refine ⟨?_, fun q hq => List.mem_append_left _ (hs.mem q hq), fun _ => hs.cursor hempty⟩
      rw [List.nodup_append]
      refine ⟨hs.nodup, by simp, ?_⟩
      rintro a ha b hb rfl
      rw [List.mem_singleton] at hb
      exact hp (hb ▸ h.active_of_mem ha)
    rw [nnAssert_of (show p ∉ (l.slots (l.prio p)).pipes from hp)]
    refine ⟨_, rfl, h.update hslot (fun q hq => hprio q ((hmem q).1 hq)) ?_, rfl, hactive _ _ hmem⟩
    rw [h.current]
    congr 1
    funext j
    by_cases hj : j = l.prio p
    · subst hj
      rw [Function.update_self, List.isEmpty_eq_false_iff.2 hempty,
        List.isEmpty_eq_false_iff.2 (by simp)]
    · simp [hj]

/-- `nn_priolist_rm` removes a pipe. -/
theorem Wf.rm {l : Priolist P} (h : l.Wf) (p : P) :
    (l.rm p).Wf ∧ (l.rm p).prio = l.prio ∧ ∀ q, (l.rm p).Active q ↔ l.Active q ∧ q ≠ p := by
  have hs := h.slot (l.prio p)
  have hmem : ∀ q, q ∈ (l.slots (l.prio p)).pipes.erase p ↔
      q ∈ (l.slots (l.prio p)).pipes ∧ q ≠ p := by
    intro q
    rw [hs.nodup.mem_erase_iff, and_comm]
  have hactive : ∀ cur cur' q, Active { l with
      slots := Function.update l.slots (l.prio p) ⟨(l.slots (l.prio p)).pipes.erase p, cur'⟩,
      current := cur } q ↔ l.Active q ∧ q ≠ p := by
    intro cur cur' q
    rw [active_update]
    by_cases hq : l.prio q = l.prio p
    · rw [if_pos hq, hmem, Active, hq]
    · rw [if_neg hq, and_iff_left]
      rintro rfl
      exact hq rfl
  have hprio : ∀ q ∈ (l.slots (l.prio p)).pipes.erase p, l.prio q = l.prio p :=
    fun q hq => h.prio _ q ((hmem q).1 hq).1
  unfold Priolist.rm
  simp only
  by_cases hin : p ∈ (l.slots (l.prio p)).pipes
  swap
  · rw [if_pos hin]
    refine ⟨h, rfl, fun q => ⟨fun ha => ⟨ha, ?_⟩, fun ha => ha.1⟩⟩
    rintro rfl
    exact hin ha
  have hne := List.ne_nil_of_mem hin
  rw [if_neg (not_not_intro hin)]
  by_cases hcur : (l.slots (l.prio p)).current = some p
  swap
  · rw [if_pos hcur]
    have hslot :
        SlotWf (⟨(l.slots (l.prio p)).pipes.erase p, (l.slots (l.prio p)).current⟩ : Slot P) := by
      refine ⟨hs.nodup.erase p, fun q hq => (hmem q).2 ⟨hs.mem q hq, ?_⟩, fun _ => hs.cursor hne⟩
      rintro rfl
      exact hcur hq
    refine ⟨h.update hslot hprio ?_, rfl, hactive _ _⟩
    -- the cursor of the slot stays in the list, so the slot is not empty
    obtain ⟨c, hc⟩ := Option.ne_none_iff_exists'.1 (hs.cursor hne)
    have hcp : c ≠ p := fun h => hcur (h ▸ hc)
    have hne' := List.ne_nil_of_mem ((hmem c).2 ⟨hs.mem c hc, hcp⟩)
    rw [h.current]
    congr 1
    funext j
    by_cases hj : j = l.prio p
    · subst hj
      rw [Function.update_self, List.isEmpty_eq_false_iff.2 hne, List.isEmpty_eq_false_iff.2 hne']
    · simp [hj]
  rw [if_neg (not_not_intro hcur)]
  by_cases hfirst : l.current = some (l.prio p)
  · rw [if_neg (not_not_intro hfirst)]
    refine ⟨h.update (slotWf_next (hs.nodup.erase p) fun _ h => h) hprio (scan_eq ?_), rfl,
      hactive _ _⟩
    intro j hj
    rw [Function.update_of_ne hj.ne]
    exact (h.of_current hfirst).2 j hj
  · rw [if_pos hfirst]
    refine ⟨h.update (slotWf_next (hs.nodup.erase p) fun _ h => h) hprio ?_, rfl, hactive _ _⟩
    -- the current slot comes before this one
    cases hi : l.current with
    | none => exact absurd hin (h.of_current_none hi p)
    | some i =>
      obtain ⟨hi1, hlow⟩ := h.of_current hi
      have hip : i ≠ l.prio p := fun he => hfirst (he ▸ hi)
      have hlt : i < l.prio p := lt_of_le_of_ne (not_lt.1 fun hlt => hne (hlow _ hlt)) hip
      refine (Fin.find?_eq_some_iff.2 ⟨by simpa [hip] using hi1, fun k hk => ?_⟩).symm
      simp [(hk.trans hlt).ne, hlow k hk]

/-- A pipe that is not in the list gets a priority. -/
theorem Wf.add {l : Priolist P} (h : l.Wf) {p : P} (hp : ¬ l.Active p) (priority : Fin 16) :
    (l.add p priority).Wf ∧ ∀ q, (l.add p priority).Active q ↔ l.Active q := by
  have hnot : ∀ i, p ∉ (l.slots i).pipes := fun i hi => hp (h.active_of_mem hi)
  have hprio : ∀ i, ∀ q ∈ (l.slots i).pipes, (l.add p priority).prio q = l.prio q := by
    intro i q hq
    have hne : q ≠ p := fun he => hnot i (he ▸ hq)
    simp [Priolist.add, hne]
  refine ⟨⟨h.slot, fun i q hq => (hprio i q hq).trans (h.prio i q hq), h.current⟩, fun q => ?_⟩
  constructor
  · intro hq
    rw [Active, hprio _ q hq] at hq
    exact hq
  · intro hq
    rw [Active, hprio _ q hq]
    exact hq

end Priolist

end NanoSocket

import NanoSocket.Protocols.Rotation

/-!
# Round robin over the pipes of a slot (`protocols/utils/priolist.c`)

`RoundWorld` is a priority list with the history of its uses.  `Fair` says that between two uses of
a pipe every other pipe of its slot that stayed in the list had its turn.

The history may fail this when a pipe comes back: it is put at the end of the list, but the pipes in
front of the cursor come after it.  `Timely` is the condition on an activation under which nobody is
overtaken; `round_robin` says that a run whose activations are timely is fair.
-/

namespace NanoSocket

open Runs

variable {P : Type} [DecidableEq P]

/-- What happened to a pipe: it was used, when its slot held these pipes, or it left the list. -/
inductive PipeUse (P : Type)
  | used (pipe : P) (slot : Fin 16) (pipes : List P)
  | left (pipe : P)
  deriving DecidableEq

/-- A history, the latest event first: between two uses of a pipe from the same slot, every other
pipe that was in the slot at the first use and did not leave before the second was used as well. -/
def Fair (log : List (PipeUse P)) : Prop :=
  ∀ later between earlier p i pipes pipes' r,
    log = later ++ .used p i pipes' :: (between ++ .used p i pipes :: earlier) →
      r ∈ pipes → r ≠ p → .left r ∉ between → ∃ j pipes'', .used r j pipes'' ∈ between

/-- The pipes that have been in the slot `i` since some use of `p` from it and were not used
since. -/
def owed : List (PipeUse P) → P → Fin 16 → Finset P
  | [], _, _ => ∅
  | .used q j pipes :: log, p, i =>
    (owed log p i).erase q ∪ if q = p ∧ j = i then pipes.toFinset.erase p else ∅
  | .left q :: log, p, i => (owed log p i).erase q

/-- `r` is owed a turn when it was in the slot at a use of `p` and neither left nor was used
since. -/
def Waits (log : List (PipeUse P)) (p : P) (i : Fin 16) (r : P) : Prop :=
  ∃ between pipes earlier, log = between ++ .used p i pipes :: earlier ∧ r ∈ pipes ∧ r ≠ p ∧
    .left r ∉ between ∧ ∀ j pipes', .used r j pipes' ∉ between

omit [DecidableEq P] in
theorem waits_cons {log : List (PipeUse P)} {e : PipeUse P} {p r : P} {i : Fin 16} :
    Waits (e :: log) p i r ↔ (∃ pipes, e = .used p i pipes ∧ r ∈ pipes ∧ r ≠ p) ∨
      Waits log p i r ∧ e ≠ .left r ∧ ∀ j pipes, e ≠ .used r j pipes := by
  constructor
  · rintro ⟨between, pipes, earlier, hlog, hr, hne, hleft, hused⟩
    cases between with
    | nil =>
      obtain ⟨rfl, rfl⟩ := List.cons.inj hlog
      exact .inl ⟨pipes, rfl, hr, hne⟩
    | cons e' between =>
      obtain ⟨rfl, rfl⟩ := List.cons.inj hlog
      refine .inr
          ⟨⟨between, pipes, earlier, rfl, hr, hne,
            fun h => hleft (List.mem_cons_of_mem _ h), fun j q h =>
        hused j q (List.mem_cons_of_mem _ h)⟩, ?_, ?_⟩
      · rintro rfl
        exact hleft List.mem_cons_self
      · rintro j q rfl
        exact hused j q List.mem_cons_self
  · rintro (⟨pipes, rfl, hr, hne⟩ |
      ⟨⟨between, pipes, earlier, rfl, hr, hne, hleft, hused⟩, hel, heu⟩)
    · exact ⟨[], pipes, log, rfl, hr, hne, List.not_mem_nil, fun _ _ => List.not_mem_nil⟩
    · refine ⟨e :: between, pipes, earlier, rfl, hr, hne, ?_, fun j q h => ?_⟩
      · intro h
        rcases List.mem_cons.1 h with h | h
        · exact hel h.symm
        · exact hleft h
      · rcases List.mem_cons.1 h with h | h
        · exact heu j q h.symm
        · exact hused j q h

theorem mem_owed {log : List (PipeUse P)} {p r : P} {i : Fin 16} :
    r ∈ owed log p i ↔ Waits log p i r := by
  induction log with
  | nil =>
    refine iff_of_false (Finset.notMem_empty r) ?_
    rintro ⟨between, pipes, earlier, hlog, -⟩
    simp at hlog
  | cons e log ih =>
    rw [waits_cons]
    cases e with
    | left q =>
      rw [owed, Finset.mem_erase, ih]
      simp [and_comm, eq_comm]
    | used q j pipes =>
      rw [owed, Finset.mem_union, Finset.mem_erase, ih]
      by_cases hq : q = p ∧ j = i
      · obtain ⟨rfl, rfl⟩ := hq
        simp [and_comm, or_comm, eq_comm]
      · have hno : ∀ pipes', PipeUse.used q j pipes ≠ .used p i pipes' := by
          rintro pipes' heq
          injection heq with h1 h2
          exact hq ⟨h1, h2⟩
        simp only [if_neg hq, Finset.notMem_empty, or_false]
        simp [hno, and_comm, eq_comm]

/-- A history stays fair when nobody is owed a turn at the next use. -/
theorem Fair.cons {log : List (PipeUse P)} {e : PipeUse P} (h : Fair log)
    (he : ∀ p i pipes, e = .used p i pipes → owed log p i = ∅) : Fair (e :: log) := by
  intro later between earlier p i pipes pipes' r hlog hr hne hleft
  cases later with
  | nil =>
    obtain ⟨rfl, rfl⟩ := List.cons.inj hlog
    by_contra hused
    have hmem : r ∈ owed (between ++ .used p i pipes :: earlier) p i :=
      mem_owed.2 ⟨between, pipes, earlier, rfl, hr, hne, hleft, fun j q h => hused ⟨j, q, h⟩⟩
    rw [he p i pipes' rfl] at hmem
    exact absurd hmem (Finset.notMem_empty r)
  | cons e' later =>
    obtain ⟨-, rfl⟩ := List.cons.inj hlog
    exact h later between earlier p i pipes pipes' r rfl hr hne hleft

/-! ### Runs -/

/-- A priority list with its history, the latest event first. -/
structure RoundWorld (P : Type) where
  base : PriolistWorld P
  log : List (PipeUse P)

namespace RoundWorld

/-- An empty list. -/
def init : RoundWorld P := ⟨.init, []⟩

/-- The pipes that a call uses or removes. -/
def events (w : RoundWorld P) : PriolistCall P → List (PipeUse P)
  | .add _ _ | .activate _ => []
  | .advance release =>
    match w.base.list.current with
    | none => []
    | some i =>
      match (w.base.list.slots i).current with
      | none => []
      | some p => (if release then [.left p] else []) ++ [.used p i (w.base.list.slots i).pipes]
  | .rm p => if p ∈ w.base.active then [.left p] else []

/-- Make a call. -/
def call (w : RoundWorld P) (c : PriolistCall P) : Except Fault (RoundWorld P × Unit) := do
  let (base, _) ← w.base.call c
  return (⟨base, w.events c ++ w.log⟩, ())

/-- The calls that the users of a list make. -/
def Enabled (w : RoundWorld P) (c : PriolistCall P) : Prop := w.base.Enabled c

/-- No pipe in front of the cursor waits since a use of the pipe that is activated. -/
def Timely (w : RoundWorld P) : PriolistCall P → Prop
  | .activate p =>
    ∀ r ∈ (w.base.list.slots (w.base.list.prio p)).before, r ∉ owed w.log p (w.base.list.prio p)
  | _ => True

/-- A pipe that is owed a turn is in the list, and comes before the pipe that it waits for. -/
structure Inv (w : RoundWorld P) : Prop where
  base : w.base.Inv
  fair : Fair w.log
  waiting : ∀ i p, ∀ r ∈ owed w.log p i, r ∈ (w.base.list.slots i).rotation ∧
    (p ∈ (w.base.list.slots i).rotation → [r, p].Sublist (w.base.list.slots i).rotation)

omit [DecidableEq P] in
theorem init_fair : Fair ([] : List (PipeUse P)) := by
  intro later between earlier p i pipes pipes' r hlog
  simp at hlog

theorem init_inv : (init : RoundWorld P).Inv :=
  ⟨PriolistWorld.init_inv, init_fair, fun _ _ r hr => absurd hr (Finset.notMem_empty r)⟩

variable {w : RoundWorld P} {p : P}

/-- The pipe that is activated is put behind everyone that it owes a turn. -/
theorem Inv.activate (h : w.Inv) (hp : p ∉ w.base.active) (ht : w.Timely (.activate p))
    {list : Priolist P} (heq : w.base.list.activate p = .ok list) {i : Fin 16} {q r : P}
    (hr : r ∈ owed w.log q i) :
    r ∈ (list.slots i).rotation ∧
      (q ∈ (list.slots i).rotation → [r, q].Sublist (list.slots i).rotation) := by
  obtain ⟨hself, hrest⟩ := h.base.wf.activate_rotation (mt (h.base.active p).1 hp) heq
  obtain ⟨hmem, hbefore⟩ := h.waiting i q r hr
  by_cases hi : i = w.base.list.prio p
  swap
  · rw [hrest i hi]
    exact ⟨hmem, hbefore⟩
  subst hi
  have hsub : (w.base.list.slots (w.base.list.prio p)).rotation.Sublist
      ((w.base.list.slots (w.base.list.prio p)).after ++ [p] ++
        (w.base.list.slots (w.base.list.prio p)).before) :=
    List.Sublist.append_right (List.sublist_append_left ..) _
  rw [hself]
  refine ⟨hsub.subset hmem, fun hq => ?_⟩
  by_cases hqp : q = p
  · subst hqp
    have hafter := (List.mem_append.1 hmem).resolve_right fun h => ht r h hr
    exact ((List.singleton_sublist.2 hafter).append (List.Sublist.refl [q])).trans
      (List.sublist_append_left ..)
  · refine (hbefore ?_).trans hsub
    simpa [Slot.rotation, hqp] using hq

/-- The pipe at the cursor owes nobody a turn. -/
theorem Inv.owed_eq_empty (h : w.Inv) {i : Fin 16} {t : List P}
    (ht : (w.base.list.slots i).rotation = p :: t) :
    owed w.log p i = ∅ := by
  rw [Finset.eq_empty_iff_forall_notMem]
  intro r hr
  have hnodup := Slot.nodup_rotation (h.base.wf.slot i)
  obtain ⟨-, hbefore⟩ := h.waiting i p r hr
  obtain ⟨-, -, -, -, -, hne, -⟩ := mem_owed.1 hr
  rw [ht] at hbefore hnodup
  have hpair := hbefore List.mem_cons_self
  have hp : p ∈ t := by
    cases hpair with
    | cons _ hpair => exact hpair.subset (List.mem_cons_of_mem r List.mem_cons_self)
    | cons_cons _ hpair => exact absurd rfl hne
  exact (List.nodup_cons.1 hnodup).1 hp

/-- The pipe at the cursor goes behind everyone that it owes a turn now. -/
theorem Inv.advance (h : w.Inv) {i : Fin 16} {t : List P}
    (ht : (w.base.list.slots i).rotation = p :: t) {release : Bool} {list : Priolist P}
    (hself : (list.slots i).rotation = if release then t else t ++ [p])
    (hrest : ∀ j ≠ i, list.slots j = w.base.list.slots j) {j : Fin 16} {q r : P}
    (hr : r ∈ owed (.used p i (w.base.list.slots i).pipes :: w.log) q j) :
    r ∈ (list.slots j).rotation ∧
      (q ∈ (list.slots j).rotation → [r, q].Sublist (list.slots j).rotation) := by
  have hnodup := Slot.nodup_rotation (h.base.wf.slot i)
  rw [ht] at hnodup
  have hsub : t.Sublist (list.slots i).rotation := by
    rw [hself]
    split_ifs
    · exact List.Sublist.refl t
    · exact List.sublist_append_left t [p]
  rw [owed, Finset.mem_union, Finset.mem_erase] at hr
  rcases hr with ⟨hrp, hr⟩ | hr
  · obtain ⟨hmem, hbefore⟩ := h.waiting j q r hr
    by_cases hj : j = i
    swap
    · rw [hrest j hj]
      exact ⟨hmem, hbefore⟩
    subst hj
    rw [ht] at hmem hbefore
    refine ⟨hsub.subset ((List.mem_cons.1 hmem).resolve_left hrp), fun hq => ?_⟩
    have hqp : q ≠ p := by
      rintro rfl
      rw [h.owed_eq_empty ht] at hr
      exact absurd hr (Finset.notMem_empty r)
    have hqt : q ∈ p :: t := by
      rw [hself] at hq
      split_ifs at hq
      · exact List.mem_cons_of_mem p hq
      · rcases List.mem_append.1 hq with hq | hq
        · exact List.mem_cons_of_mem p hq
        · exact absurd (List.mem_singleton.1 hq) hqp
    have hpair : [r, q].Sublist t := by
      cases hbefore hqt with
      | cons _ hpair => exact hpair
      | cons_cons _ hpair => exact absurd rfl hrp
    exact hpair.trans hsub
  · split_ifs at hr with hqi
    swap
    · exact absurd hr (Finset.notMem_empty r)
    obtain ⟨rfl, rfl⟩ := hqi
    obtain ⟨hrp, hmem⟩ := Finset.mem_erase.1 hr
    rw [List.mem_toFinset, ← Slot.mem_rotation (h.base.wf.slot i), ht] at hmem
    have hrt := (List.mem_cons.1 hmem).resolve_left hrp
    refine ⟨hsub.subset hrt, fun hp => ?_⟩
    rw [hself] at hp ⊢
    split_ifs at hp ⊢
    · exact absurd hp (List.nodup_cons.1 hnodup).1
    · exact (List.singleton_sublist.2 hrt).append (List.Sublist.refl [p])

/-- Nobody is moved when a pipe is removed. -/
theorem Inv.rm (h : w.Inv) (p : P) {i : Fin 16} {q r : P} (hr : r ∈ owed w.log q i) (hrp : r ≠ p) :
    r ∈ ((w.base.list.rm p).slots i).rotation ∧ (q ∈ ((w.base.list.rm p).slots i).rotation →
      [r, q].Sublist ((w.base.list.rm p).slots i).rotation) := by
  obtain ⟨hself, hrest⟩ := h.base.wf.rm_rotation p
  obtain ⟨hmem, hbefore⟩ := h.waiting i q r hr
  by_cases hi : i = w.base.list.prio p
  swap
  · rw [hrest i hi]
    exact ⟨hmem, hbefore⟩
  subst hi
  have hnodup := Slot.nodup_rotation (h.base.wf.slot (w.base.list.prio p))
  rw [hself]
  refine ⟨hnodup.mem_erase_iff.2 ⟨hrp, hmem⟩, fun hq => ?_⟩
  obtain ⟨hqp, hq⟩ := hnodup.mem_erase_iff.1 hq
  have hpair := (hbefore hq).erase p
  rwa [List.erase_of_not_mem (by simp [Ne.symm hrp, Ne.symm hqp])] at hpair

theorem Inv.step {w' : RoundWorld P} (h : w.Inv) {c : PriolistCall P} (hc : w.Enabled c)
    (ht : w.Timely c) (heq : w.call c = .ok (w', ())) : w'.Inv := by
  obtain ⟨base, hbase, hinv⟩ := h.base.step hc
  unfold RoundWorld.call at heq
  rw [hbase] at heq
  obtain ⟨rfl, -⟩ := Prod.mk.inj (Except.ok.inj heq)
  cases c with
  | add p priority =>
    obtain ⟨rfl, -⟩ := Prod.mk.inj (Except.ok.inj hbase)
    exact ⟨hinv, h.fair, h.waiting⟩
  | activate p =>
    obtain ⟨list, hlist, hbase⟩ := bind_eq_ok.1 hbase
    obtain ⟨rfl, -⟩ := Prod.mk.inj (Except.ok.inj hbase)
    exact ⟨hinv, h.fair, fun i q r hr => h.activate hc ht hlist hr⟩
  | advance release =>
    obtain ⟨r, hget, hbase⟩ := bind_eq_ok.1 hbase
    obtain ⟨list, hlist, hbase⟩ := bind_eq_ok.1 hbase
    obtain ⟨rfl, -⟩ := Prod.mk.inj (Except.ok.inj hbase)
    rcases h.base.wf.getpipe with ⟨-, hnone⟩ | ⟨p, hget', -⟩
    · obtain ⟨q, hq⟩ := hc
      exact absurd ((h.base.active q).2 hq) (hnone q)
    obtain ⟨i, t, list', hi, hcur, -, hrot, hlist', hself, hrest, -⟩ :=
      h.base.wf.advance_rotation hget' release
    obtain rfl := Except.ok.inj (hlist.symm.trans hlist')
    have hevents : w.events (.advance release) =
        (if release then [.left p] else []) ++ [.used p i (w.base.list.slots i).pipes] := by
      simp only [events, hi, hcur]
    have hused : Fair (.used p i (w.base.list.slots i).pipes :: w.log) := by
      refine h.fair.cons ?_
      rintro q j pipes heq
      injection heq with hpq hij
      subst hpq hij
      exact h.owed_eq_empty hrot
    rw [hevents]
    cases release with
    | true =>
      refine ⟨hinv, hused.cons nofun, fun j q r hr => h.advance hrot hself hrest ?_⟩
      exact (Finset.mem_erase.1 hr).2
    | false => exact ⟨hinv, hused, fun j q r hr => h.advance hrot hself hrest hr⟩
  | rm p =>
    obtain ⟨rfl, -⟩ := Prod.mk.inj (Except.ok.inj hbase)
    by_cases hp : p ∈ w.base.active
    · have hevents : w.events (.rm p) = [.left p] := if_pos hp
      rw [hevents]
      refine ⟨hinv, h.fair.cons nofun, fun j q r hr => ?_⟩
      obtain ⟨hrp, hr⟩ := Finset.mem_erase.1 hr
      exact h.rm p hr hrp
    · have hevents : w.events (.rm p) = [] := if_neg hp
      rw [hevents]
      refine ⟨hinv, h.fair, fun j q r hr => h.rm p hr ?_⟩
      rintro rfl
      exact hp ((h.base.active r).1 (h.base.wf.active_of_mem
        ((Slot.mem_rotation (h.base.wf.slot j)).1 (h.waiting j q r hr).1)))

theorem base_inv {calls : List (PriolistCall P)} {w : RoundWorld P}
    (h : Trace call Enabled init calls w) :
    w.base.Inv := by
  refine h.invariant (I := fun _ w => w.base.Inv) PriolistWorld.init_inv ?_
  rintro - w c w' ⟨⟩ hi hc heq
  obtain ⟨base, hbase, hi'⟩ := hi.step hc
  unfold RoundWorld.call at heq
  rw [hbase] at heq
  obtain ⟨rfl, -⟩ := Prod.mk.inj (Except.ok.inj heq)
  exact hi'

/-- Whatever happened before, the steps of a round without a release use every pipe of the current
slot once, in the cyclic order of its list from the cursor on, and no other pipe; and a run in which
every activation is timely is fair. -/
theorem round_robin {calls : List (PriolistCall P)} {w : RoundWorld P}
    (h : Trace call Enabled init calls w) :
    (∀ i ps list, w.base.list.current = some i → Round w.base.list ps list →
      ps.length = (w.base.list.slots i).pipes.length →
        ps.head? = (w.base.list.slots i).current ∧ ps.Nodup ∧ ps ~r (w.base.list.slots i).pipes) ∧
      (Trace call (fun w c => w.Enabled c ∧ w.Timely c) init calls w → Fair w.log) := by
  constructor
  · have hbase := base_inv h
    intro i ps list hi hround hlen
    have hs := hbase.wf.slot i
    obtain ⟨rfl, -⟩ := hround.front hbase.wf hi (List.append_nil _).symm
      ((Slot.rotation_perm hs).length_eq.trans hlen.symm)
    refine ⟨?_, Slot.nodup_rotation hs, ?_⟩
    · obtain ⟨p, hp⟩ := Option.ne_none_iff_exists'.1 (hs.cursor (hbase.wf.of_current hi).1)
      obtain ⟨t, ht, -⟩ := Slot.rotation_next hs hp false
      rw [ht, hp]
      rfl
    · obtain ⟨a, b, heq, hn, hb⟩ := Slot.exists_parts hs
      rw [heq, Slot.rotation_ofParts hn hb]
      exact List.isRotated_append
  · intro ht
    have hi : w.Inv := by
      refine ht.invariant (I := fun _ (w : RoundWorld P) => w.Inv) init_inv ?_
      rintro - w c w' ⟨⟩ hi ⟨hc, htimely⟩ heq
      exact hi.step hc htimely heq
    exact hi.fair

instance (w : RoundWorld P) (c : PriolistCall P) : Decidable (w.Enabled c) :=
  inferInstanceAs (Decidable (w.base.Enabled c))

instance (w : RoundWorld P) : (c : PriolistCall P) → Decidable (w.Timely c)
  | .activate _ => inferInstanceAs (Decidable (∀ r ∈ _, _))
  | .add _ _ | .advance _ | .rm _ => .isTrue trivial

/-- The first of three pipes is used, leaves and comes back at the end of the round.  The next three
steps use each of them once. -/
theorem round_robin_three :
    ∃ w : RoundWorld (Fin 3), Trace call Enabled init [.activate 0, .activate 1,
      .activate 2, .advance true,
        .activate 0, .advance false, .advance false, .advance false] w ∧
          w.log.length = 5 ∧ Fair w.log ∧
      ∃ ps list, Round w.base.list ps list ∧ ps.Nodup ∧ ps ~r [1, 2, 0] := by
  have hrun : ∃ w : RoundWorld (Fin 3), Trace call (fun w c => w.Enabled c ∧ w.Timely c) init
      [.activate 0, .activate 1, .activate 2, .advance true, .activate 0, .advance false,
        .advance false, .advance false] w ∧
        w.log.length = 5 ∧ w.base.list.current = some 0 ∧ (w.base.list.slots 0).pipes = [1, 2, 0] :=
    Trace.exists_of_runWhile (by decide)
  obtain ⟨w, h, hlength, hcurrent, hpipes⟩ := hrun
  have hw := h.mono fun _ _ hc => hc.1
  obtain ⟨hround, hfair⟩ := round_robin hw
  obtain ⟨ps, list, hps, hlen⟩ := (base_inv hw).wf.exists_round hcurrent 3
  obtain ⟨-, hnodup, hrotated⟩ := hround 0 ps list hcurrent hps (by rw [hlen, hpipes]; rfl)
  exact ⟨w, hw, hlength, hfair h, ps, list, hps, hnodup, hpipes ▸ hrotated⟩

/-- The second of three pipes is used and comes back before the third one is: it is used again
before the first. -/
theorem overtaken :
    ∃ w : RoundWorld (Fin 3), Trace call Enabled init [.activate 0, .activate 1,
      .activate 2, .advance false,
        .advance true, .activate 1, .advance false, .advance false] w ∧ ¬ Fair w.log := by
  have hrun :
      ∃ w : RoundWorld (Fin 3), Trace call Enabled init [.activate 0, .activate 1, .activate 2,
        .advance false, .advance true, .activate 1, .advance false, .advance false] w ∧
        w.log = [.used 1 0 [0, 2, 1], .used 2 0 [0, 2, 1], .left 1, .used 1 0 [0, 1, 2],
          .used 0 0 [0, 1, 2]] :=
    Trace.exists_of_runWhile (by decide)
  obtain ⟨w, h, hlog⟩ := hrun
  refine ⟨w, h, fun hfair => ?_⟩
  obtain ⟨j, pipes, hused⟩ :=
    hfair [] [.used 2 0 [0, 2, 1], .left 1] [.used 0 0 [0, 1, 2]] 1 0 [0, 1, 2] [0, 2, 1] 0
    hlog (by decide) (by decide) (by decide)
  simp at hused

end RoundWorld

end NanoSocket

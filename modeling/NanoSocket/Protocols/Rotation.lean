import NanoSocket.Protocols.Fq
import NanoSocket.Protocols.PriolistRuns

/-!
# The order in which a slot is used (`protocols/utils/priolist.c`, `lb.c`, `fq.c`)

The pipes of a slot are used from its cursor to the end of its list and on from the beginning:
`Slot.rotation`.  Each operation is described by what it does to the rotation of a slot.  `Served`
is a step of `nn_lb_send` or `nn_fq_recv`, and `round_of_served` says that the steps of a round use
the rotation.
-/

namespace NanoSocket

open Runs

variable {P : Type} [DecidableEq P]

namespace Slot

/-- The pipes before the cursor. -/
def before (s : Slot P) : List P := s.current.elim [] fun c => s.pipes.takeWhile (· ≠ c)

/-- The pipes from the cursor on. -/
def after (s : Slot P) : List P := s.current.elim [] fun c => s.pipes.dropWhile (· ≠ c)

/-- The pipes in the order in which they are used. -/
def rotation (s : Slot P) : List P := s.after ++ s.before

/-- A slot whose list is cut at its cursor. -/
def ofParts (a b : List P) : Slot P := ⟨a ++ b, b.head?⟩

variable {s : Slot P} {a b : List P} {p q : P}

theorem takeWhile_append_cons (h : p ∉ a) : (a ++ p :: b).takeWhile (· ≠ p) = a := by
  induction a with
  | nil => simp
  | cons x a ih =>
    have hx : x ≠ p := fun he => h (he ▸ List.mem_cons_self)
    rw [List.cons_append, List.takeWhile_cons_of_pos (by simpa using hx),
      ih fun ha => h (List.mem_cons_of_mem x ha)]

theorem dropWhile_append_cons (h : p ∉ a) : (a ++ p :: b).dropWhile (· ≠ p) = p :: b := by
  induction a with
  | nil => simp
  | cons x a ih =>
    have hx : x ≠ p := fun he => h (he ▸ List.mem_cons_self)
    rw [List.cons_append, List.dropWhile_cons_of_pos (by simpa using hx),
      ih fun ha => h (List.mem_cons_of_mem x ha)]

section Parts

variable (hn : (a ++ b).Nodup) (hb : b = [] → a = [])

include hn hb

theorem before_ofParts : (ofParts a b).before = a := by
  cases b with
  | nil => exact (hb rfl).symm
  | cons p b =>
    exact takeWhile_append_cons fun h => (List.nodup_append.1 hn).2.2 p h p List.mem_cons_self rfl

theorem after_ofParts : (ofParts a b).after = b := by
  cases b with
  | nil => rfl
  | cons p b =>
    exact dropWhile_append_cons fun h => (List.nodup_append.1 hn).2.2 p h p List.mem_cons_self rfl

theorem rotation_ofParts : (ofParts a b).rotation = b ++ a := by
  rw [rotation, before_ofParts hn hb, after_ofParts hn hb]

end Parts

omit [DecidableEq P] in
/-- Every slot is the list before its cursor and the list from there on. -/
theorem exists_parts (h : Priolist.SlotWf s) :
    ∃ a b, s = ofParts a b ∧ (a ++ b).Nodup ∧ (b = [] → a = []) := by
  obtain ⟨pipes, current⟩ := s
  cases current with
  | none =>
    have hnil : pipes = [] := by
      by_contra hne
      exact h.cursor hne rfl
    subst hnil
    exact ⟨[], [], rfl, List.nodup_nil, fun _ => rfl⟩
  | some c =>
    obtain ⟨a, b, hab⟩ := List.append_of_mem (h.mem c rfl)
    simp only at hab
    subst hab
    exact ⟨a, c :: b, rfl, h.nodup, nofun⟩

theorem rotation_perm (h : Priolist.SlotWf s) : s.rotation.Perm s.pipes := by
  obtain ⟨a, b, rfl, hn, hb⟩ := exists_parts h
  rw [rotation_ofParts hn hb]
  exact List.perm_append_comm

theorem mem_rotation (h : Priolist.SlotWf s) : p ∈ s.rotation ↔ p ∈ s.pipes :=
  (rotation_perm h).mem_iff

theorem nodup_rotation (h : Priolist.SlotWf s) : s.rotation.Nodup :=
  (rotation_perm h).nodup_iff.2 h.nodup

theorem listNext_append_cons (h : p ∉ a) : listNext (a ++ p :: b) p = b.head? := by
  induction a with
  | nil => simp [listNext]
  | cons x a ih =>
    have hx : x ≠ p := fun he => h (he ▸ List.mem_cons_self)
    rw [List.cons_append, listNext, if_neg hx, ih fun ha => h (List.mem_cons_of_mem x ha)]

/-- The slot after its cursor moved to the next pipe, with or without the one it left. -/
def next (s : Slot P) (p : P) (release : Bool) : Slot P :=
  let pipes := if release then s.pipes.erase p else s.pipes
  ⟨pipes, (listNext s.pipes p).or pipes.head?⟩

theorem next_ofParts (hn : (a ++ p :: b).Nodup) (release : Bool) :
    ((ofParts a (p :: b)).next p release).rotation = b ++ a ++ if release then [] else [p] := by
  have hp : p ∉ a := fun h => (List.nodup_append.1 hn).2.2 p h p List.mem_cons_self rfl
  have hab : (a ++ b).Nodup := hn.sublist (List.Sublist.append_left (List.sublist_cons_self p b) a)
  simp only [next, ofParts, listNext_append_cons hp]
  cases release with
  | true =>
    have herase : (a ++ p :: b).erase p = a ++ b := by
      rw [List.erase_append_right _ hp, List.erase_cons_head]
    simp only [if_true, herase, List.append_nil]
    cases b with
    | nil =>
      rw [List.append_nil] at hab ⊢
      exact (rotation_ofParts (a := []) hab fun _ => rfl).trans (List.append_nil a)
    | cons x b => exact rotation_ofParts hab nofun
  | false =>
    simp only [Bool.false_eq_true, if_false]
    cases b with
    | nil =>
      exact (rotation_ofParts (a := []) hn fun _ => rfl).trans (List.append_nil _)
    | cons x b =>
      have hsplit : a ++ p :: x :: b = a ++ [p] ++ x :: b := by
        rw [List.append_assoc, List.singleton_append]
      rw [hsplit] at hn ⊢
      exact (rotation_ofParts hn nofun).trans (List.append_assoc ..).symm

/-- The pipe at the cursor goes to the end of the rotation, or leaves it. -/
theorem rotation_next (h : Priolist.SlotWf s) (hp : s.current = some p) (release : Bool) :
    ∃ t, s.rotation = p :: t ∧ (s.next p release).rotation = if release then t else t ++ [p] := by
  obtain ⟨a, b, rfl, hn, hb⟩ := exists_parts h
  obtain ⟨b, rfl⟩ := List.head?_eq_some_iff.1 hp
  refine ⟨b ++ a, rotation_ofParts hn hb, ?_⟩
  rw [next_ofParts hn]
  cases release with
  | true => exact List.append_nil _
  | false => rfl

/-- A pipe that is not at the cursor leaves. -/
theorem rotation_erase (h : Priolist.SlotWf s) (hp : p ∈ s.pipes) (hne : s.current ≠ some p) :
    (⟨s.pipes.erase p, s.current⟩ : Slot P).rotation = s.rotation.erase p := by
  obtain ⟨a, b, rfl, hn, hb⟩ := exists_parts h
  obtain ⟨-, -, hdisj⟩ := List.nodup_append.1 hn
  rw [rotation_ofParts hn hb]
  rcases List.mem_append.1 hp with ha | hbp
  · have hpb : p ∉ b := fun h => hdisj p ha p h rfl
    have heq : (⟨(a ++ b).erase p, b.head?⟩ : Slot P) = ofParts (a.erase p) b := by
      rw [List.erase_append_left _ ha]
      rfl
    rw [List.erase_append_right _ hpb]
    refine (congrArg rotation heq).trans (rotation_ofParts ?_ fun h => ?_)
    · exact hn.sublist (List.Sublist.append_right (List.erase_sublist ..) b)
    · rw [hb h, List.erase_nil]
  · have hpa : p ∉ a := fun h => hdisj p h p hbp rfl
    obtain ⟨c, b, rfl⟩ := List.exists_cons_of_ne_nil (List.ne_nil_of_mem hbp)
    have hcp : c ≠ p := fun h => hne (congrArg some h)
    have hbeq : ¬ (c == p) = true := by simpa using hcp
    have heq : (⟨(a ++ c :: b).erase p, (c :: b).head?⟩ : Slot P) = ofParts a (c :: b.erase p) := by
      rw [List.erase_append_right _ hpa, List.erase_cons_tail hbeq]
      rfl
    rw [List.erase_append_left _ hbp, List.erase_cons_tail hbeq]
    refine (congrArg rotation heq).trans (rotation_ofParts ?_ nofun)
    exact hn.sublist (List.Sublist.append_left ((List.erase_sublist ..).cons_cons c) a)

/-- A pipe is put at the end of the list: it is used before the pipes in front of the cursor. -/
theorem rotation_append (h : Priolist.SlotWf s) (hne : s.pipes ≠ []) (hp : p ∉ s.pipes) :
    (⟨s.pipes ++ [p], s.current⟩ : Slot P).rotation = s.after ++ [p] ++ s.before := by
  obtain ⟨a, b, rfl, hn, hb⟩ := exists_parts h
  rw [before_ofParts hn hb, after_ofParts hn hb]
  cases b with
  | nil =>
    obtain rfl := hb rfl
    exact absurd rfl hne
  | cons c b =>
    have heq : (⟨a ++ c :: b ++ [p], some c⟩ : Slot P) = ofParts a (c :: b ++ [p]) := by
      rw [List.append_assoc]
      rfl
    refine (congrArg rotation heq).trans (rotation_ofParts ?_ nofun)
    rw [← List.append_assoc]
    exact List.nodup_append.2
      ⟨hn, by simp, fun x hx y hy h => hp (List.mem_singleton.1 hy ▸ h ▸ hx)⟩

end Slot

namespace Priolist

variable {l l' : Priolist P} {p : P}

/-- What `nn_priolist_advance` does to the rotation of the current slot. -/
theorem Wf.advance_rotation (h : l.Wf) (hp : l.getpipe = .ok (some p)) (release : Bool) :
    ∃ i t l', l.current = some i ∧ (l.slots i).current = some p ∧ l.prio p = i ∧
      (l.slots i).rotation = p :: t ∧ l.advance release = .ok l' ∧
      (l'.slots i).rotation = (if release then t else t ++ [p]) ∧
        (∀ j ≠ i, l'.slots j = l.slots j) ∧
      (release = false → l'.current = some i) := by
  unfold Priolist.getpipe at hp
  cases hi : l.current with
  | none => rw [hi] at hp; cases hp
  | some i =>
    rw [hi] at hp
    cases hc : (l.slots i).current with
    | none => simp [hc] at hp
    | some q =>
      simp only [hc, Except.ok.injEq, Option.some.injEq] at hp
      subst hp
      have hs := h.slot i
      have hmem := hs.mem q hc
      obtain ⟨t, ht, hnext⟩ := Slot.rotation_next hs hc release
      refine ⟨i, t, { l with
        slots := Function.update l.slots i ((l.slots i).next q release)
        current := scan (Function.update l.slots i ((l.slots i).next q release)) i }, rfl, hc,
          h.prio i q hmem, ht, ?_, ?_,
        fun j hj => Function.update_of_ne hj .., ?_⟩
      · simp only [Priolist.advance, hi, hc, nnAssert_of hmem]
        rfl
      · rw [← hnext]
        exact congrArg Slot.rotation (Function.update_self ..)
      · rintro rfl
        show scan _ i = some i
        refine Fin.find?_eq_some_iff.2 ⟨?_, fun j hj => ?_⟩
        · simpa [Slot.next] using List.ne_nil_of_mem hmem
        · simp [hj]

/-- What `nn_priolist_activate` does to the rotations. -/
theorem Wf.activate_rotation (h : l.Wf) (hp : ¬ l.Active p) (heq : l.activate p = .ok l') :
    (l'.slots (l.prio p)).rotation = (l.slots (l.prio p)).after ++ [p] ++
      (l.slots (l.prio p)).before ∧ ∀ j ≠ l.prio p, l'.slots j = l.slots j := by
  unfold Priolist.activate at heq
  have hrest : ∀ (s : Slot P) cur, ∀ j ≠ l.prio p,
      ({ l with slots := Function.update l.slots (l.prio p) s, current := cur } : Priolist P).slots
        j = l.slots j :=
    fun s cur j hj => Function.update_of_ne hj ..
  have hself : ∀ (s : Slot P) cur,
      ({ l with slots := Function.update l.slots (l.prio p) s, current := cur } : Priolist P).slots
        (l.prio p) = s :=
    fun s cur => Function.update_self ..
  by_cases hempty : (l.slots (l.prio p)).pipes = []
  · have hcur : (l.slots (l.prio p)).current = none := by
      by_contra hne
      obtain ⟨c, hc⟩ := Option.ne_none_iff_exists'.1 hne
      have := (h.slot (l.prio p)).mem c hc
      rw [hempty] at this
      cases this
    have hparts : (l.slots (l.prio p)).after ++ [p] ++ (l.slots (l.prio p)).before = [p] := by
      simp [Slot.after, Slot.before, hcur]
    have hone : (⟨[p], some p⟩ : Slot P).rotation = [p] := by
      simp [Slot.rotation, Slot.after, Slot.before]
    simp only [hempty, ne_eq, not_true_eq_false, if_false] at heq
    rw [hparts]
    cases hi : l.current with
    | none =>
      rw [hi] at heq
      cases heq
      exact ⟨(congrArg Slot.rotation (hself _ _)).trans hone, hrest _ _⟩
    | some cur =>
      simp only [hi] at heq
      split_ifs at heq with hgt
      · cases heq
        exact ⟨(congrArg Slot.rotation (hself _ _)).trans hone, hrest _ _⟩
      · cases heq
        exact ⟨(congrArg Slot.rotation (hself _ _)).trans hone, hrest _ _⟩
  · simp only [hempty, ne_eq, not_false_eq_true, if_true] at heq
    rw [nnAssert_of (show p ∉ (l.slots (l.prio p)).pipes from hp)] at heq
    cases heq
    exact ⟨(congrArg Slot.rotation (hself _ _)).trans (Slot.rotation_append (h.slot _) hempty hp),
      hrest _ _⟩

/-- What `nn_priolist_rm` does to the rotations. -/
theorem Wf.rm_rotation (h : l.Wf) (p : P) :
    ((l.rm p).slots (l.prio p)).rotation = (l.slots (l.prio p)).rotation.erase p ∧
      ∀ j ≠ l.prio p, (l.rm p).slots j = l.slots j := by
  have hs := h.slot (l.prio p)
  unfold Priolist.rm
  simp only
  by_cases hin : p ∈ (l.slots (l.prio p)).pipes
  swap
  · rw [if_pos hin]
    refine ⟨?_, fun _ _ => rfl⟩
    rw [List.erase_of_not_mem (mt (Slot.mem_rotation hs).1 hin)]
  rw [if_neg (not_not_intro hin)]
  by_cases hcur : (l.slots (l.prio p)).current = some p
  swap
  · rw [if_pos hcur]
    refine ⟨?_, fun j hj => Function.update_of_ne hj ..⟩
    rw [← Slot.rotation_erase hs hin hcur]
    exact congrArg Slot.rotation (Function.update_self ..)
  rw [if_neg (not_not_intro hcur)]
  obtain ⟨t, ht, hnext⟩ := Slot.rotation_next hs hcur true
  have hrot :
      (l.slots (l.prio p)).rotation.erase p = ((l.slots (l.prio p)).next p true).rotation := by
    rw [hnext, ht, List.erase_cons_head]
    rfl
  rw [hrot]
  split_ifs
  · exact ⟨congrArg Slot.rotation (Function.update_self ..),
      fun j hj => Function.update_of_ne hj ..⟩
  · exact ⟨congrArg Slot.rotation (Function.update_self ..),
      fun j hj => Function.update_of_ne hj ..⟩

end Priolist

/-! ### Rounds -/

/-- `nn_lb_send` or `nn_fq_recv` used the pipe `p`, which left the list when `release` is set. -/
inductive Served (l : Priolist P) (p : P) (release : Bool) (l' : Priolist P) : Prop
  | send {pipes : P → Option Pipe} {pipe pipe' : Pipe} {msg : Msg} {sync : Bool}
      (hp : pipes p = some pipe)
      (hsend : nnPipeSend pipe msg sync = .ok (release, pipe'))
      (heq : nnLbSend l pipes msg sync = .ok (some p, l', Function.update pipes p (some pipe')))
  | recv {pipes : P → Option Pipe} {pipe pipe' : Pipe} {m : Inbound} (hp : pipes p = some pipe)
      (hrecv : nnPipeRecv pipe = .ok (m, release, pipe'))
      (heq : nnFqRecv l pipes = .ok (some (p, m), l', Function.update pipes p (some pipe')))

/-- Both use the pipe at the cursor and move on. -/
theorem Served.uses {l l' : Priolist P} {p : P} {release : Bool} (h : Served l p release l') :
    l.getpipe = .ok (some p) ∧ l.advance release = .ok l' := by
  cases h with
  | send hp hsend heq =>
    unfold nnLbSend at heq
    obtain ⟨r, hget, heq⟩ := bind_eq_ok.1 heq
    cases r with
    | none => cases heq
    | some q =>
      simp only at heq
      split at heq
      · cases heq
      · rename_i pipe hq
        obtain ⟨⟨release', pipe''⟩, hsend', heq⟩ := bind_eq_ok.1 heq
        obtain ⟨lb, hadvance, heq⟩ := bind_eq_ok.1 heq
        obtain ⟨hpq, hrest⟩ := Prod.mk.inj (Except.ok.inj heq)
        obtain rfl := Option.some_inj.1 hpq
        obtain rfl := (Prod.mk.inj hrest).1
        obtain rfl := Option.some_inj.1 (hp.symm.trans hq)
        obtain ⟨rfl, -⟩ := Prod.mk.inj (Except.ok.inj (hsend.symm.trans hsend'))
        exact ⟨hget, hadvance⟩
  | recv hp hrecv heq =>
    unfold nnFqRecv at heq
    obtain ⟨r, hget, heq⟩ := bind_eq_ok.1 heq
    cases r with
    | none => cases heq
    | some q =>
      simp only at heq
      split at heq
      · cases heq
      · rename_i pipe hq
        obtain ⟨⟨m, release', pipe''⟩, hrecv', heq⟩ := bind_eq_ok.1 heq
        obtain ⟨fq, hadvance, heq⟩ := bind_eq_ok.1 heq
        obtain ⟨hpq, hrest⟩ := Prod.mk.inj (Except.ok.inj heq)
        obtain ⟨rfl, -⟩ := Prod.mk.inj (Option.some_inj.1 hpq)
        obtain rfl := (Prod.mk.inj hrest).1
        obtain rfl := Option.some_inj.1 (hp.symm.trans hq)
        obtain ⟨-, hrelease⟩ := Prod.mk.inj (Except.ok.inj (hrecv.symm.trans hrecv'))
        obtain ⟨rfl, -⟩ := Prod.mk.inj hrelease
        exact ⟨hget, hadvance⟩

/-- Successive steps without a release, and the pipes that they used. -/
inductive Round : Priolist P → List P → Priolist P → Prop
  | nil (l : Priolist P) : Round l [] l
  | cons {l l' l'' : Priolist P} {p : P} {ps : List P} (h : Served l p false l')
      (hps : Round l' ps l'') :
    Round l (p :: ps) l''

/-- The steps use the pipes at the front of the rotation, which go to its end. -/
theorem Round.front {l l' : Priolist P} {ps : List P} (h : Round l ps l') (hwf : l.Wf) {i : Fin 16}
    (hi : l.current = some i) {a b : List P} (hab : (l.slots i).rotation = a ++ b)
    (hlen : a.length = ps.length) :
    ps = a ∧ (l'.slots i).rotation = b ++ a := by
  induction h generalizing a b with
  | nil l =>
    obtain rfl := List.length_eq_zero_iff.1 hlen
    exact ⟨rfl, by rw [hab, List.append_nil, List.nil_append]⟩
  | cons hserved hps ih =>
    obtain ⟨hget, hadvance⟩ := hserved.uses
    obtain ⟨j, t, l₁, hj, -, -, ht, hadvance', hnext, -, hcur⟩ := hwf.advance_rotation hget false
    obtain rfl := Option.some_inj.1 (hi.symm.trans hj)
    obtain rfl := Except.ok.inj (hadvance.symm.trans hadvance')
    cases a with
    | nil => cases hlen
    | cons p a =>
      rw [hab, List.cons_append] at ht
      obtain ⟨rfl, rfl⟩ := List.cons.inj ht
      obtain ⟨l₂, heq, hwf', -, -⟩ := hwf.advance hget false
      obtain rfl := Except.ok.inj (hadvance.symm.trans heq)
      obtain ⟨rfl, hrot⟩ := ih hwf' (hcur rfl) (a := a) (b := b ++ [p])
        (by rw [hnext]; simp) (Nat.succ.inj hlen)
      exact ⟨rfl, by rw [hrot, List.append_assoc, List.singleton_append]⟩

/-- A step that keeps the pipe is one of `nn_lb_send` over a pipe that takes the message at once. -/
theorem Served.of_uses {l l' : Priolist P} {p : P} (hget : l.getpipe = .ok (some p))
    (hadvance : l.advance false = .ok l') :
    Served l p false l' := by
  have hsend : nnPipeSend nnPipebaseStart ⟨[], [], []⟩ true =
      .ok (false, { nnPipebaseStart with outbox := [⟨[], [], []⟩] }) := rfl
  have heq : nnLbSend l (fun _ => some nnPipebaseStart) ⟨[], [], []⟩ true = .ok (some p, l',
      Function.update (fun _ => some nnPipebaseStart) p
        (some { nnPipebaseStart with outbox := [⟨[], [], []⟩] })) := by
    simp [nnLbSend, hget, hsend, hadvance]
  exact .send rfl hsend heq

/-- As long as there is a pipe, a round goes on. -/
theorem Priolist.Wf.exists_round {l : Priolist P} (h : l.Wf) {i : Fin 16}
    (hi : l.current = some i) (n : ℕ) :
    ∃ ps l', Round l ps l' ∧ ps.length = n := by
  induction n generalizing l with
  | zero => exact ⟨[], l, .nil l, rfl⟩
  | succ n ih =>
    obtain ⟨p, hp⟩ := Option.ne_none_iff_exists'.1 ((h.slot i).cursor (h.of_current hi).1)
    have hget : l.getpipe = .ok (some p) := by simp [Priolist.getpipe, hi, hp]
    obtain ⟨j, t, l₁, hj, -, -, -, hadvance, -, -, hcur⟩ := h.advance_rotation hget false
    obtain rfl := Option.some_inj.1 (hi.symm.trans hj)
    obtain ⟨l₂, heq, hwf, -, -⟩ := h.advance hget false
    obtain rfl := Except.ok.inj (hadvance.symm.trans heq)
    obtain ⟨ps, l', hround, hlen⟩ := ih hwf (hcur rfl)
    exact ⟨p :: ps, l', .cons (.of_uses hget hadvance) hround, congrArg Nat.succ hlen⟩

end NanoSocket

import NanoSocket.Protocols.Fq

/-!
# The distributor (`protocols/utils/dist.c`)

A distributor is the list of the pipes that can send.  `nn_dist_send` gives a copy of the message to
each of them, except possibly one, and takes those out of the list that cannot take another message
at once.

`Dist.Ready` is the invariant, and `nnDistSend_spec` says that every pipe of the list but the
excluded one gets the message and nothing else changes.  `Dist.Full` says that no pipe that can send
is missing.
-/

namespace NanoSocket

variable {P : Type} [DecidableEq P]

/-- `struct nn_dist`. -/
structure Dist (P : Type) where
  count : ℕ
  pipes : List P
  deriving DecidableEq, Repr

/-- `nn_dist_init`. -/
def nnDistInit : Dist P := { count := 0, pipes := [] }

/-- `nn_dist_rm`. -/
def nnDistRm (self : Dist P) (pipe : P) : Dist P :=
  if pipe ∈ self.pipes then { count := self.count - 1, pipes := self.pipes.erase pipe } else self

/-- `nn_dist_out`; `nn_list_insert` asserts that the item is not in a list. -/
def nnDistOut (self : Dist P) (pipe : P) : Except Fault (Dist P) := do
  nnAssert (pipe ∉ self.pipes)
  return { count := self.count + 1, pipes := self.pipes ++ [pipe] }

/-- The loop of `nn_dist_send` over the rest of the list.  `sync` says which sessions complete a
send within the call. -/
def nnDistSendLoop (msg : Msg) (exclude : Option P) (sync : P → Bool) :
    List P → ℕ → (P → Option Pipe) → Except Fault (List P × ℕ × (P → Option Pipe))
  | [], count, pipes => .ok ([], count, pipes)
  | p :: rest, count, pipes =>
    if some p = exclude then do
      let (l, count, pipes) ← nnDistSendLoop msg exclude sync rest count pipes
      return (p :: l, count, pipes)
    else
      match pipes p with
      | none => .error .nullDeref
      | some pipe => do
        let (release, pipe) ← nnPipeSend pipe msg (sync p)
        let pipes := Function.update pipes p (some pipe)
        if release then nnDistSendLoop msg exclude sync rest (count - 1) pipes
        else
          let (l, count, pipes) ← nnDistSendLoop msg exclude sync rest count pipes
          return (p :: l, count, pipes)

/-- `nn_dist_send`. -/
def nnDistSend (self : Dist P) (pipes : P → Option Pipe) (msg : Msg) (exclude : Option P)
    (sync : P → Bool) : Except Fault (Dist P × (P → Option Pipe)) :=
  -- no outbound pipes: there's nowhere to send the message to
  if self.count = 0 then .ok (self, pipes)
  else do
    let (l, count, pipes) ← nnDistSendLoop msg exclude sync self.pipes self.count pipes
    return ({ count := count, pipes := l }, pipes)

/-! ### The invariant -/

/-- The list holds attached pipes that can send, each once. -/
structure Dist.Ready (d : Dist P) (pipes : P → Option Pipe) : Prop where
  nodup : d.pipes.Nodup
  count : d.count = d.pipes.length
  ready : ∀ p ∈ d.pipes, ∃ pipe, pipes p = some pipe ∧ pipe.OutReady

omit [DecidableEq P] in
theorem nnDistInit_ready (pipes : P → Option Pipe) : (nnDistInit : Dist P).Ready pipes :=
  ⟨List.nodup_nil, rfl, fun _ h => nomatch h⟩

section Changes

variable {d : Dist P} {pipes : P → Option Pipe} {p : P} {pipe : Pipe}

/-- Changing a pipe. -/
theorem Dist.Ready.update (h : d.Ready pipes) (hp : p ∈ d.pipes → pipe.OutReady) :
    d.Ready (Function.update pipes p (some pipe)) := by
  refine ⟨h.nodup, h.count, fun q hq => ?_⟩
  by_cases hqp : q = p
  · subst hqp
    exact ⟨pipe, Function.update_self .., hp hq⟩
  · rw [Function.update_of_ne hqp]
    exact h.ready q hq

omit [DecidableEq P] in
theorem Dist.Ready.of_mem (h : d.Ready pipes) (hp : pipes p = some pipe) (hm : p ∈ d.pipes) :
    pipe.OutReady := by
  obtain ⟨r, hr, hg⟩ := h.ready p hm
  rw [hp] at hr
  cases hr
  exact hg

omit [DecidableEq P] in
theorem Dist.Ready.not_mem (h : d.Ready pipes) (hp : pipes p = none) : p ∉ d.pipes := by
  intro hm
  obtain ⟨r, hr, -⟩ := h.ready p hm
  rw [hp] at hr
  cases hr

/-- The pipe is removed from the list and from the socket. -/
theorem Dist.Ready.remove (h : d.Ready pipes) (p : P) :
    (nnDistRm d p).Ready (Function.update pipes p none) := by
  unfold nnDistRm
  split_ifs with hm
  · refine ⟨h.nodup.erase p, ?_, fun q hq => ?_⟩
    · rw [List.length_erase_of_mem hm, h.count]
    · obtain ⟨hne, hq⟩ := h.nodup.mem_erase_iff.1 hq
      rw [Function.update_of_ne hne]
      exact h.ready q hq
  · refine ⟨h.nodup, h.count, fun q hq => ?_⟩
    have hne : q ≠ p := fun heq => hm (heq ▸ hq)
    rw [Function.update_of_ne hne]
    exact h.ready q hq

/-- The `OUT` event of a pipe puts it into the list. -/
theorem Dist.Ready.out (h : d.Ready pipes) (hp : pipes p = some pipe) (hr : pipe.OutReady)
    (hm : p ∉ d.pipes) :
    ∃ d', nnDistOut d p = .ok d' ∧ d'.Ready pipes ∧ d'.pipes = d.pipes ++ [p] := by
  refine ⟨{ count := d.count + 1, pipes := d.pipes ++ [p] }, ?_, ⟨?_, ?_, fun q hq => ?_⟩, rfl⟩
  · rw [nnDistOut, nnAssert_of hm]
    rfl
  · rw [List.nodup_append]
    refine ⟨h.nodup, List.nodup_singleton p, ?_⟩
    rintro a ha b hb rfl
    exact hm (List.mem_singleton.1 hb ▸ ha)
  · rw [List.length_append, List.length_singleton, h.count]
  · rcases List.mem_append.1 hq with hq | hq
    · exact h.ready q hq
    · rw [List.mem_singleton.1 hq]
      exact ⟨pipe, hp, hr⟩

end Changes

/-! ### Sending -/

/-- The copies that a pipe gets. -/
def copies (l : List P) (exclude : Option P) (msg : Msg) (p : P) : List Msg :=
  if p ∈ l ∧ some p ≠ exclude then [msg] else []

/-- A pipe got the messages `sent`. -/
structure DistGiven (pipe : Pipe) (sent : List Msg) (pipe' : Pipe) : Prop where
  wf : pipe'.Wf
  inward : pipe'.inward = pipe.inward
  outbox : pipe'.outbox = pipe.outbox ++ sent

/-- What the loop did: `l'` is what it left of the list `l`. -/
structure DistSent (l l' : List P) (exclude : Option P) (msg : Msg)
    (pipes pipes' : P → Option Pipe) :
    Prop where
  sublist : l'.Sublist l
  ready : ∀ p ∈ l', ∃ pipe, pipes' p = some pipe ∧ pipe.OutReady
  others : ∀ p ∉ l, pipes' p = pipes p
  given : ∀ p ∈ l, ∃ pipe pipe', pipes p = some pipe ∧ pipes' p = some pipe' ∧
    DistGiven pipe (copies l exclude msg p) pipe'

section Loop

variable {l l' : List P} {exclude : Option P} {msg : Msg} {pipes pipes' : P → Option Pipe} {p : P}

/-- The rest of the loop does not touch the pipe before it. -/
theorem copies_cons_of_mem (hp : p ∉ l) {q : P} (hq : q ∈ l) :
    copies (p :: l) exclude msg q = copies l exclude msg q := by
  have hne : q ≠ p := fun h => hp (h ▸ hq)
  simp [copies, hne]

/-- The loop goes on behind an excluded pipe. -/
theorem DistSent.skip (h : DistSent l l' exclude msg pipes pipes') (hp : p ∉ l) {pipe : Pipe}
    (hpipe : pipes p = some pipe) (hwf : pipe.Wf) (hready : pipe.OutReady)
    (hex : some p = exclude) :
    DistSent (p :: l) (p :: l') exclude msg pipes pipes' := by
  have hsame : pipes' p = some pipe := (h.others p hp).trans hpipe
  refine ⟨h.sublist.cons_cons p, fun q hq => ?_, fun q hq => ?_, fun q hq => ?_⟩
  · rcases List.mem_cons.1 hq with rfl | hq
    · exact ⟨pipe, hsame, hready⟩
    · exact h.ready q hq
  · exact h.others q fun hm => hq (List.mem_cons_of_mem _ hm)
  · rcases List.mem_cons.1 hq with rfl | hq
    · exact ⟨pipe, pipe, hpipe, hsame, hwf, rfl, by simp [copies, hex]⟩
    · rw [copies_cons_of_mem hp hq]
      exact h.given q hq

/-- The loop goes on behind a pipe that took the message, and that stays in the list if it can take
more. -/
theorem DistSent.give {pipe pipe' : Pipe}
    (h : DistSent l l' exclude msg (Function.update pipes p (some pipe')) pipes') (hp : p ∉ l)
    (hpipe : pipes p = some pipe) (hgiven : DistGiven pipe [msg] pipe') (hex : some p ≠ exclude)
    {more : List P} (hmore : more = [] ∨ more = [p] ∧ pipe'.OutReady) :
    DistSent (p :: l) (more ++ l') exclude msg pipes pipes' := by
  have hsame : pipes' p = some pipe' := by rw [h.others p hp, Function.update_self]
  have hcopies : copies (p :: l) exclude msg p = [msg] := by simp [copies, hex]
  refine ⟨?_, fun q hq => ?_, fun q hq => ?_, fun q hq => ?_⟩
  · rcases hmore with rfl | ⟨rfl, -⟩
    · exact h.sublist.cons p
    · exact h.sublist.cons_cons p
  · rcases List.mem_append.1 hq with hq | hq
    · rcases hmore with rfl | ⟨rfl, hready⟩
      · cases hq
      · rw [List.mem_singleton.1 hq]
        exact ⟨pipe', hsame, hready⟩
    · exact h.ready q hq
  · have hne : q ≠ p := fun heq => hq (heq ▸ List.mem_cons_self)
    rw [h.others q fun hm => hq (List.mem_cons_of_mem _ hm), Function.update_of_ne hne]
  · rcases List.mem_cons.1 hq with rfl | hq
    · exact ⟨pipe, pipe', hpipe, hsame, hcopies ▸ hgiven⟩
    · have hne : q ≠ p := fun heq => hp (heq ▸ hq)
      rw [copies_cons_of_mem hp hq]
      obtain ⟨r, r', hr, hr', hg⟩ := h.given q hq
      rw [Function.update_of_ne hne] at hr
      exact ⟨r, r', hr, hr', hg⟩

theorem nnDistSendLoop_spec (msg : Msg) (exclude : Option P) (sync : P → Bool) (hw : PipesWf pipes)
    (hn : l.Nodup) {count : ℕ} (hc : l.length ≤ count)
    (hr : ∀ p ∈ l, ∃ pipe, pipes p = some pipe ∧ pipe.OutReady) :
    ∃ l' count' pipes', nnDistSendLoop msg exclude sync l count pipes = .ok (l', count', pipes') ∧
      count' + l.length = count + l'.length ∧ DistSent l l' exclude msg pipes pipes' := by
  induction l generalizing pipes count with
  | nil =>
    exact ⟨[], count, pipes, rfl, rfl, .refl _, fun _ h => (nomatch h), fun _ _ => rfl,
      fun _ h => (nomatch h)⟩
  | cons p l ih =>
    obtain ⟨hpl, hn⟩ := List.nodup_cons.1 hn
    obtain ⟨pipe, hpipe, hready⟩ := hr p List.mem_cons_self
    rw [List.length_cons] at hc
    have hcl : l.length ≤ count := by omega
    have hcl' : l.length ≤ count - 1 := by omega
    rw [nnDistSendLoop]
    by_cases hex : some p = exclude
    · obtain ⟨l', count', pipes', heq, hcount, hsent⟩ :=
        ih hw hn hcl fun q hq => hr q (List.mem_cons_of_mem _ hq)
      refine ⟨p :: l', count', pipes', by rw [if_pos hex, heq]; rfl, ?_,
        hsent.skip hpl hpipe (hw p pipe hpipe) hready hex⟩
      simp only [List.length_cons]
      omega
    · obtain ⟨pipe', hsend, hinbox, hir, hob, hor, hos, hwf⟩ :=
        (hw p pipe hpipe).send hready.1 msg (sync p)
      have hgiven : DistGiven pipe [msg] pipe' :=
        ⟨hwf hready.2, by simp [Pipe.inward, hinbox, hir], hob⟩
      have hw' := hw.update p hgiven.wf
      have hr' : ∀ q ∈ l, ∃ r, Function.update pipes p (some pipe') q = some r ∧ r.OutReady := by
        intro q hq
        have hne : q ≠ p := fun heq => hpl (heq ▸ hq)
        rw [Function.update_of_ne hne]
        exact hr q (List.mem_cons_of_mem _ hq)
      simp only [if_neg hex, hpipe, hsend, ok_bind]
      cases hsync : sync p with
      | true =>
        obtain ⟨l', count', pipes', heq, hcount, hsent⟩ := ih hw' hn hcl hr'
        have hready' : pipe'.OutReady := ⟨by rw [hos, hsync, if_pos rfl], hor.trans hready.2⟩
        refine ⟨p :: l', count', pipes', ?_, ?_,
          hsent.give hpl hpipe hgiven hex (Or.inr ⟨rfl, hready'⟩)⟩
        · simp [heq]
        · simp only [List.length_cons]
          omega
      | false =>
        obtain ⟨l', count', pipes', heq, hcount, hsent⟩ := ih hw' hn hcl' hr'
        refine ⟨l', count', pipes', by simp [heq], ?_, hsent.give hpl hpipe hgiven hex (Or.inl rfl)⟩
        simp only [List.length_cons]
        omega

end Loop

/-- The message is given to every pipe of the list but the excluded one. -/
theorem nnDistSend_spec {d : Dist P} {pipes : P → Option Pipe} (hw : PipesWf pipes)
    (h : d.Ready pipes) (msg : Msg) (exclude : Option P) (sync : P → Bool) :
    ∃ d' pipes', nnDistSend d pipes msg exclude sync = .ok (d', pipes') ∧ d'.Ready pipes' ∧
      DistSent d.pipes d'.pipes exclude msg pipes pipes' := by
  unfold nnDistSend
  by_cases hzero : d.count = 0
  · have hnil : d.pipes = [] := List.length_eq_zero_iff.1 (h.count ▸ hzero)
    refine ⟨d, pipes, if_pos hzero, h, ?_⟩
    rw [hnil]
    exact ⟨.refl _, fun _ h => (nomatch h), fun _ _ => rfl, fun _ h => (nomatch h)⟩
  · obtain ⟨l', count', pipes', heq, hcount, hsent⟩ :=
      nnDistSendLoop_spec msg exclude sync hw h.nodup h.count.ge h.ready
    have hlen := h.count
    refine ⟨⟨count', l'⟩, pipes', by rw [if_neg hzero, heq]; rfl, ⟨?_, ?_, hsent.ready⟩, hsent⟩
    · exact h.nodup.sublist hsent.sublist
    · simp only
      omega

section Sent

variable {l l' : List P} {exclude : Option P} {msg : Msg} {pipes pipes' : P → Option Pipe}

theorem DistSent.pipesWf (h : DistSent l l' exclude msg pipes pipes') (hw : PipesWf pipes) :
    PipesWf pipes' := by
  intro p pipe' hp
  by_cases hm : p ∈ l
  · obtain ⟨pipe, r, -, hr, hg⟩ := h.given p hm
    rw [hp] at hr
    cases hr
    exact hg.wf
  · rw [h.others p hm] at hp
    exact hw p pipe' hp

/-- Sending does not touch what has arrived. -/
theorem DistSent.inward (h : DistSent l l' exclude msg pipes pipes') (p : P) :
    (pipes' p).map Pipe.inward = (pipes p).map Pipe.inward := by
  by_cases hm : p ∈ l
  · obtain ⟨pipe, pipe', hp, hp', hg⟩ := h.given p hm
    rw [hp, hp', Option.map_some, Option.map_some, hg.inward]
  · rw [h.others p hm]

end Sent

/-! ### Pipes that can send -/

instance Pipe.decidableOutReady (pipe : Pipe) : Decidable pipe.OutReady :=
  inferInstanceAs (Decidable (_ ∧ _))

section Full

variable {pipes : P → Option Pipe} {pipe : Pipe} {p : P}

/-- Every pipe that can send is in the list. -/
def Dist.Full (d : Dist P) (pipes : P → Option Pipe) : Prop :=
  ∀ p pipe, pipes p = some pipe → pipe.OutReady → p ∈ d.pipes

theorem Dist.Full.update {d d' : Dist P} (h : d.Full pipes)
    (hsub : ∀ q ∈ d.pipes, q ≠ p → q ∈ d'.pipes) (hp : pipe.OutReady → p ∈ d'.pipes) :
    d'.Full (Function.update pipes p (some pipe)) := by
  intro q r hq hready
  by_cases hqp : q = p
  · subst hqp
    rw [Function.update_self] at hq
    cases hq
    exact hp hready
  · rw [Function.update_of_ne hqp] at hq
    exact hsub q (h q r hq hready) hqp

theorem Dist.Full.remove {d : Dist P} (h : d.Full pipes) (p : P) :
    (nnDistRm d p).Full (Function.update pipes p none) := by
  intro q r hq hready
  by_cases hqp : q = p
  · subst hqp
    rw [Function.update_self] at hq
    cases hq
  · rw [Function.update_of_ne hqp] at hq
    have hm := h q r hq hready
    unfold nnDistRm
    split_ifs
    · exact (List.mem_erase_of_ne hqp).2 hm
    · exact hm

/-- A pipe that the loop takes out of the list has a send under way. -/
theorem nnDistSendLoop_async {msg : Msg} {exclude : Option P} {sync : P → Bool} {l l' : List P}
    {count count' : ℕ} {pipes' : P → Option Pipe} (hw : PipesWf pipes) (hn : l.Nodup)
    (hc : l.length ≤ count) (hr : ∀ p ∈ l, ∃ pipe, pipes p = some pipe ∧ pipe.OutReady)
    (heq : nnDistSendLoop msg exclude sync l count pipes = .ok (l', count', pipes')) :
    ∀ q ∈ l, q ∉ l' → ∃ pipe, pipes' q = some pipe ∧ pipe.outstate = .async := by
  induction l generalizing pipes count l' count' pipes' with
  | nil =>
    intro q hq
    cases hq
  | cons p l ih =>
    obtain ⟨hpl, hn⟩ := List.nodup_cons.1 hn
    obtain ⟨pipe, hpipe, hready⟩ := hr p List.mem_cons_self
    rw [List.length_cons] at hc
    rw [nnDistSendLoop] at heq
    intro q hq hq'
    by_cases hex : some p = exclude
    · have hr' : ∀ q ∈ l, ∃ r, pipes q = some r ∧ r.OutReady := fun q hq =>
        hr q (List.mem_cons_of_mem _ hq)
      have hc' : l.length ≤ count := by omega
      obtain ⟨l₁, count₁, pipes₁, hloop, -, -⟩ := nnDistSendLoop_spec msg exclude sync hw hn hc' hr'
      simp only [if_pos hex, hloop, ok_bind] at heq
      cases heq
      obtain ⟨hne, hnot⟩ := not_or.1 (mt List.mem_cons.2 hq')
      exact ih hw hn hc' hr' hloop q ((List.mem_cons.1 hq).resolve_left hne) hnot
    · obtain ⟨pipe', hsend, -, -, -, -, hos, hwf⟩ := (hw p pipe hpipe).send hready.1 msg (sync p)
      have hw' := hw.update p (hwf hready.2)
      have hr' : ∀ q ∈ l, ∃ r, Function.update pipes p (some pipe') q = some r ∧ r.OutReady := by
        intro q hq
        have hne : q ≠ p := fun heq => hpl (heq ▸ hq)
        rw [Function.update_of_ne hne]
        exact hr q (List.mem_cons_of_mem _ hq)
      simp only [if_neg hex, hpipe, hsend, ok_bind] at heq
      cases hsync : sync p with
      | true =>
        have hc' : l.length ≤ count := by omega
        obtain ⟨l₁, count₁, pipes₁, hloop, -, -⟩ :=
          nnDistSendLoop_spec msg exclude sync hw' hn hc' hr'
        simp only [hsync, Bool.not_true, Bool.false_eq_true, if_false, hloop, ok_bind] at heq
        cases heq
        obtain ⟨hne, hnot⟩ := not_or.1 (mt List.mem_cons.2 hq')
        exact ih hw' hn hc' hr' hloop q ((List.mem_cons.1 hq).resolve_left hne) hnot
      | false =>
        have hc' : l.length ≤ count - 1 := by omega
        obtain ⟨l₁, count₁, pipes₁, hloop, -, hsent⟩ :=
          nnDistSendLoop_spec msg exclude sync hw' hn hc' hr'
        simp only [hsync, Bool.not_false, if_true, hloop] at heq
        cases heq
        rcases List.mem_cons.1 hq with rfl | hq
        · refine ⟨pipe', ?_, by rw [hos, hsync]; rfl⟩
          rw [hsent.others q hpl, Function.update_self]
        · exact ih hw' hn hc' hr' hloop q hq hq'

/-- Sending leaves the pipes that can send in the list. -/
theorem nnDistSend_full {d d' : Dist P} {pipes' : P → Option Pipe} {msg : Msg} {exclude : Option P}
    {sync : P → Bool} (hw : PipesWf pipes) (h : d.Ready pipes) (hf : d.Full pipes)
    (heq : nnDistSend d pipes msg exclude sync = .ok (d', pipes'))
    (hsent : DistSent d.pipes d'.pipes exclude msg pipes pipes') : d'.Full pipes' := by
  intro q pipe' hq hready
  by_cases hm : q ∈ d.pipes
  · by_contra hnot
    unfold nnDistSend at heq
    split_ifs at heq with hzero
    · cases heq
      exact hnot hm
    · obtain ⟨l₁, count₁, pipes₁, hloop, -, -⟩ :=
        nnDistSendLoop_spec msg exclude sync hw h.nodup h.count.ge h.ready
      rw [hloop] at heq
      cases heq
      obtain ⟨r, hr, hasync⟩ := nnDistSendLoop_async hw h.nodup h.count.ge h.ready hloop q hm hnot
      cases hq.symm.trans hr
      cases hready.1.symm.trans hasync
  · rw [hsent.others q hm] at hq
    exact absurd (hf q pipe' hq hready) hm

end Full

end NanoSocket

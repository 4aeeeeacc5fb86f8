import NanoSocket.Lib.Runs
import NanoSocket.Protocols.Router

/-!
# The keys of pipes

`RouterEvent` is what can happen to a raw REP or raw RESPONDENT socket, and `Router.Did` what an
event does to the keys of its pipes.  The keys are taken from a counter, so that the number of the
addition determines the key up to multiples of 2^31.

`key_free_iff` says exactly when a new pipe gets a key that no attached pipe has: when none of them
was added 2^31 additions earlier.
-/

namespace NanoSocket

open Runs

variable {P : Type} [DecidableEq P]

/-- The two kinds of routers. -/
inductive Proto
  | rep
  | respondent
  deriving DecidableEq, Repr

/-- What can happen to a router. -/
inductive RouterEvent (P : Type)
  | add (p : P) (rcvprio : Fin 16)
  | rm (p : P)
  | arrive (p : P) (m : Inbound)
  | sent (p : P)
  | pipeIn (p : P)
  | pipeOut (p : P)
  | setMaxttl (maxttl : ℕ)
  | send (msg : Msg) (sync : Bool)
  | recv

namespace Router

/-- The message received, or `-EAGAIN`. -/
def answer : Got → Answer
  | .msg m => .recv (some m)
  | _ => .code (some .eagain)

/-- Replace an attached pipe. -/
def setPipe (x : Router P) (p : P) (pipe : Pipe) : Router P :=
  { x with pipes := Function.update x.pipes p (some pipe) }

/-- An event happens. -/
def step (proto : Proto) (x : Router P) : RouterEvent P → Except Fault (Router P × Answer)
  | .add p rcvprio => do
    let x ← match proto with
      | .rep => nnXrepAdd x p rcvprio
      | .respondent => nnXrespondentAdd x p rcvprio
    return (x, .none)
  | .rm p => do
    let x ← match proto with
      | .rep => nnXrepRm x p
      | .respondent => nnXrespondentRm x p
    return (x, .none)
  | .arrive p m =>
    match x.pipes p with
    | none => .error .nullDeref
    | some pipe => do return (x.setPipe p (← pipe.arrive m), .none)
  | .sent p =>
    match x.pipes p with
    | none => .error .nullDeref
    | some pipe => do return (x.setPipe p (← nnPipebaseSent pipe), .none)
  | .pipeIn p =>
    match x.pipes p with
    | none => .error .nullDeref
    | some pipe => do
      let x := x.setPipe p { pipe with inRaised := false }
      let x ← match proto with
        | .rep => nnXrepIn x p
        | .respondent => nnXrespondentIn x p
      return (x, .none)
  | .pipeOut p =>
    match x.pipes p with
    | none => .error .nullDeref
    | some pipe => do
      let x := x.setPipe p { pipe with outRaised := false }
      let x ← match proto with
        | .rep => nnXrepOut x p
        | .respondent => nnXrespondentOut x p
      return (x, .none)
  | .setMaxttl maxttl => .ok ({ x with maxttl := maxttl }, .code none)
  | .send msg sync => do
    let x ← match proto with
      | .rep => nnXrepSend x msg sync
      | .respondent => nnXrespondentSend x msg sync
    return (x, .code none)
  | .recv => do
    let (got, x) ← match proto with
      | .rep => nnXrepRecv x
      | .respondent => nnXrespondentRecv x
    return (x, answer got)

/-- When an event can happen. -/
def Enabled (x : Router P) : RouterEvent P → Prop
  | .add p _ => x.pipes p = none
  | .rm p => (x.pipes p).isSome
  | .arrive p m => (x.pipes p).isSome ∧ m.Wf
  | .sent p => ∃ pipe, x.pipes p = some pipe ∧ pipe.outstate = .async
  | .pipeIn p => ∃ pipe, x.pipes p = some pipe ∧ pipe.inRaised = true
  | .pipeOut p => ∃ pipe, x.pipes p = some pipe ∧ pipe.outRaised = true
  | .setMaxttl maxttl => 1 ≤ maxttl ∧ maxttl ≤ 255
  | .send _ _ | .recv => True

instance (x : Router P) (e : RouterEvent P) : Decidable (x.Enabled e) :=
  match e with
  | .add _ _ => inferInstanceAs (Decidable (_ = _))
  | .rm _ => inferInstanceAs (Decidable (_ = true))
  | .arrive _ _ => inferInstanceAs (Decidable (_ ∧ _))
  | .sent p => decidable_of_iff (∃ pipe ∈ x.pipes p, pipe.outstate = .async) Iff.rfl
  | .pipeIn p => decidable_of_iff (∃ pipe ∈ x.pipes p, pipe.inRaised = true) Iff.rfl
  | .pipeOut p => decidable_of_iff (∃ pipe ∈ x.pipes p, pipe.outRaised = true) Iff.rfl
  | .setMaxttl _ => inferInstanceAs (Decidable (_ ∧ _))
  | .send _ _ | .recv => inferInstanceAs (Decidable True)

/-- What an event does to the keys. -/
inductive Did (x : Router P) : RouterEvent P → Router P → Prop
  | add {p : P} {rcvprio : Fin 16} {x' : Router P}
      (hfree : ∀ q d, x.data q = some d → d.key ≠ x.nextKey &&& 0x7fffffff)
      (hnext : x'.nextKey = x.nextKey + 1)
      (hdata : x'.data = Function.update x.data p
        (some { key := x.nextKey &&& 0x7fffffff, out := false })) :
      Did x (.add p rcvprio) x'
  | rm {p : P} {x' : Router P} (hnext : x'.nextKey = x.nextKey)
      (hdata : x'.data = Function.update x.data p none) : Did x (.rm p) x'
  | same {e : RouterEvent P} {x' : Router P} (h : Same x x')
      (hadd : ∀ p rcvprio, e ≠ .add p rcvprio)
      (hrm : ∀ p, e ≠ .rm p) : Did x e x'

/-- A new pipe would get the key of an attached one. -/
def Clashes (x : Router P) : RouterEvent P → Prop
  | .add _ _ => ∃ q d, x.data q = some d ∧ d.key = x.nextKey &&& 0x7fffffff
  | _ => False

/-- One event: it returns, keeps the invariant and has one of the effects of `Did`, or it adds a
pipe whose key is taken and the hash table aborts. -/
theorem Wf.step {x : Router P} (h : x.Wf) (proto : Proto) {e : RouterEvent P} (he : x.Enabled e) :
    (x.Clashes e ∧ x.step proto e = .error .assertFailed) ∨
      ¬ x.Clashes e ∧ ∃ x' a, x.step proto e = .ok (x', a) ∧ x'.Wf ∧ Did x e x' := by
  cases e with
  | add p rcvprio =>
    rcases h.add he rcvprio with ⟨hfree, x', heq, hwf, hnext, hdata⟩ | ⟨hclash, heq⟩
    · refine Or.inr ⟨?_, x', .none, ?_, hwf, .add hfree hnext hdata⟩
      · rintro ⟨q, d, hd, hk⟩
        exact hfree q d hd hk
      · cases proto <;> simp [Router.step, nnXrepAdd, nnXrespondentAdd, heq]
    · refine Or.inl ⟨hclash, ?_⟩
      cases proto <;> simp [Router.step, nnXrepAdd, nnXrespondentAdd, heq]
  | rm p =>
    obtain ⟨x', heq, hwf, hnext, hdata⟩ := h.rm he
    refine Or.inr ⟨fun h => h, x', .none, ?_, hwf, .rm hnext hdata⟩
    cases proto <;> simp [Router.step, nnXrepRm, nnXrespondentRm, heq]
  | arrive p m =>
    obtain ⟨pipe, hp⟩ := Option.isSome_iff_exists.1 he.1
    obtain ⟨pipe', heq, hwf, hin, hout, hor, -, hir⟩ := (h.pipes p pipe hp).arrive m
    refine Or.inr ⟨fun h => h, x.setPipe p pipe', .none, by simp [Router.step, hp, heq],
      h.setPipe hp hwf (h.inpipes.update fun ha => ?_) (fun m' hm' => ?_) fun ho => ?_,
      .same ⟨rfl, fun _ => rfl⟩ (by simp) (by simp)⟩
    · obtain ⟨hne, hr⟩ := h.inpipes.of_active hp ha
      exact ⟨by simp [hin], by simpa [hr, hne] using hir⟩
    · rw [hin, List.mem_append, List.mem_singleton] at hm'
      rcases hm' with hm' | rfl
      · exact h.inbox p pipe hp m' hm'
      · exact he.2
    · exact ⟨hout.trans ho.1, hor.trans ho.2⟩
  | sent p =>
    obtain ⟨pipe, hp, hasync⟩ := he
    obtain ⟨pipe', heq, hwf, hin, hir, -, -, -⟩ := (h.pipes p pipe hp).sent hasync
    refine Or.inr ⟨fun h => h, x.setPipe p pipe', .none, by simp [Router.step, hp, heq],
      h.setPipe hp hwf (h.inpipes.update fun ha => ?_) ?_ fun ho => ?_,
      .same ⟨rfl, fun _ => rfl⟩ (by simp) (by simp)⟩
    · obtain ⟨hne, hr⟩ := h.inpipes.of_active hp ha
      exact ⟨hin ▸ hne, hir.trans hr⟩
    · rw [hin]
      exact h.inbox p pipe hp
    · have := ho.1
      rw [hasync] at this
      cases this
  | pipeIn p =>
    obtain ⟨pipe, hp, hraised⟩ := he
    have hpw := h.pipes p pipe hp
    have hna : ¬ x.inpipes.Active p := by
      intro ha
      have := (h.inpipes.of_active hp ha).2
      rw [hraised] at this
      cases this
    have hpw' : Pipe.Wf { pipe with inRaised := false } :=
      ⟨hpw.instate, hpw.outstate, by simp, hpw.outRaised⟩
    have hwf : (x.setPipe p { pipe with inRaised := false }).Wf :=
      h.setPipe hp hpw' (h.inpipes.update fun ha => absurd ha hna) (h.inbox p pipe hp) fun ho =>
        ⟨ho.1, ho.2⟩
    obtain ⟨x', heq, hwf', hsame⟩ :=
      hwf.pipeIn (Function.update_self ..) ⟨hpw.inRaised hraised, rfl⟩ hna
    refine Or.inr ⟨fun h => h, x', .none, ?_, hwf',
      .same ⟨hsame.nextKey, hsame.key⟩ (by simp) (by simp)⟩
    cases proto <;> simp [Router.step, hp, nnXrepIn, nnXrespondentIn, heq]
  | pipeOut p =>
    obtain ⟨pipe, hp, hraised⟩ := he
    have hpw := h.pipes p pipe hp
    have hpw' : Pipe.Wf { pipe with outRaised := false } :=
      ⟨hpw.instate, hpw.outstate, hpw.inRaised, by simp⟩
    have hwf : (x.setPipe p { pipe with outRaised := false }).Wf :=
      h.setPipe hp hpw' (h.inpipes.update fun ha => have h := h.inpipes.of_active hp ha; ⟨h.1, h.2⟩)
        (h.inbox p pipe hp) fun ho => ⟨ho.1, rfl⟩
    obtain ⟨x', heq, hwf', hsame⟩ :=
      hwf.pipeOut (Function.update_self ..) ⟨hpw.outRaised hraised, rfl⟩
    refine Or.inr ⟨fun h => h, x', .none, ?_, hwf',
      .same ⟨hsame.nextKey, hsame.key⟩ (by simp) (by simp)⟩
    cases proto <;> simp [Router.step, hp, nnXrepOut, nnXrespondentOut, heq]
  | setMaxttl maxttl =>
    exact Or.inr ⟨fun h => h, _, _, rfl,
      ⟨h.pipes, h.inpipes, h.inbox, h.data, h.out, h.table, h.get, h.top, he.2⟩,
      .same ⟨rfl, fun _ => rfl⟩ (by simp) (by simp)⟩
  | send msg sync =>
    obtain ⟨x', heq, hwf, hsame⟩ := h.send_returns msg sync
    refine Or.inr ⟨fun h => h, x', .code none, ?_, hwf, .same hsame (by simp) (by simp)⟩
    cases proto <;> simp [Router.step, nnXrepSend, nnXrespondentSend, heq]
  | recv =>
    rcases h.recv with
      ⟨-, heq⟩ | ⟨p, m, d, g, pipe, pipe', x', -, -, -, -, heq, hwf, hkey, hdata, -⟩
    · refine Or.inr ⟨fun h => h, x, answer .empty, ?_, h, .same (.refl x) (by simp) (by simp)⟩
      cases proto <;> simp [Router.step, nnXrepRecv, nnXrespondentRecv, heq]
    · refine Or.inr ⟨fun h => h, x', answer (keyed d.key g), ?_, hwf,
        .same (.of_data hkey hdata) (by simp) (by simp)⟩
      cases proto <;> simp [Router.step, nnXrepRecv, nnXrespondentRecv, heq]

end Router

/-! ### Numbering the additions -/

/-- The number of additions so far, and for every pipe the number of its last one. -/
structure Additions (P : Type) where
  count : ℕ
  number : P → ℕ

/-- The additions after an event. -/
def Additions.next (a : Additions P) : RouterEvent P → Additions P
  | .add p _ => { count := a.count + 1, number := Function.update a.number p a.count }
  | _ => a

/-- The additions of a run. -/
def additions (es : List (RouterEvent P)) : Additions P := es.foldl Additions.next ⟨0, fun _ => 0⟩

theorem additions_snoc (es : List (RouterEvent P)) (e : RouterEvent P) :
    additions (es ++ [e]) = (additions es).next e := by
  simp [additions]

/-- The key of the `n`th addition to a socket whose counter started at `nextKey`. -/
def keyOf (nextKey : UInt32) (n : ℕ) : UInt32 := (nextKey + .ofNat n) &&& 0x7fffffff

theorem toNat_keyOf (nextKey : UInt32) (n : ℕ) :
    (keyOf nextKey n).toNat = (nextKey.toNat + n) % 2 ^ 31 := by
  have hmask : (0x7fffffff : UInt32).toNat = 2 ^ 31 - 1 := rfl
  rw [keyOf, UInt32.toNat_and, hmask, Nat.and_two_pow_sub_one_eq_mod, UInt32.toNat_add,
    UInt32.toNat_ofNat']
  omega

/-- Keys repeat after 2^31 additions. -/
theorem keyOf_eq_iff {nextKey : UInt32} {m n : ℕ} :
    keyOf nextKey m = keyOf nextKey n ↔ m % 2 ^ 31 = n % 2 ^ 31 := by
  rw [← UInt32.toNat_inj, toNat_keyOf, toNat_keyOf]
  omega

/-- The counter and the keys of the attached pipes follow from the additions. -/
structure Router.Numbered (nextKey : UInt32) (a : Additions P) (x : Router P) : Prop where
  next : x.nextKey = nextKey + .ofNat a.count
  key : ∀ p d, x.data p = some d → d.key = keyOf nextKey (a.number p)
  lt : ∀ p d, x.data p = some d → a.number p < a.count
  le : ∀ p d, x.data p = some d → a.count ≤ a.number p + 2 ^ 31

section Numbered

variable {nextKey : UInt32} {a : Additions P} {x x' : Router P} {e : RouterEvent P}

omit [DecidableEq P] in
theorem Router.Numbered.new_key (h : x.Numbered nextKey a) :
    x.nextKey &&& 0x7fffffff = keyOf nextKey a.count := by
  rw [h.next, keyOf]

omit [DecidableEq P] in
/-- A new pipe clashes with the attached ones that were added 2^31 additions earlier. -/
theorem Router.Numbered.key_eq_iff (h : x.Numbered nextKey a) {p : P} {d : RouteData}
    (hd : x.data p = some d) :
    d.key = x.nextKey &&& 0x7fffffff ↔ a.count = a.number p + 2 ^ 31 := by
  have hlt := h.lt p d hd
  have hle := h.le p d hd
  rw [h.key p d hd, h.new_key, keyOf_eq_iff]
  omega

theorem Router.Numbered.step (h : x.Numbered nextKey a) (hd : Router.Did x e x') :
    x'.Numbered nextKey (a.next e) := by
  cases hd with
  | @add p rcvprio x' hfree hnext hdata =>
    have hold : ∀ q d, q ≠ p → x'.data q = some d → x.data q = some d := by
      intro q d hqp hd
      rwa [hdata, Function.update_of_ne hqp] at hd
    have hnew : ∀ d, x'.data p = some d → d.key = keyOf nextKey a.count := by
      intro d hd
      rw [hdata, Function.update_self] at hd
      cases hd
      exact h.new_key
    refine ⟨?_, fun q d hq => ?_, fun q d hq => ?_, fun q d hq => ?_⟩
    · rw [hnext, h.next]
      simp [Additions.next, UInt32.add_assoc]
    all_goals
      by_cases hqp : q = p
      · subst hqp
        simp [Additions.next, hnew d hq]
      · have hq' := hold q d hqp hq
        have hk := h.key q d hq'
        have hlt := h.lt q d hq'
        have hle := h.le q d hq'
        have hne := (h.key_eq_iff hq').not.1 (hfree q d hq')
        simp only [Additions.next, Function.update_of_ne hqp]
        first | exact hk | omega
  | @rm p x' hnext hdata =>
    have hold : ∀ q d, x'.data q = some d → x.data q = some d := by
      intro q d hd
      by_cases hqp : q = p
      · subst hqp
        simp [hdata] at hd
      · rwa [hdata, Function.update_of_ne hqp] at hd
    exact ⟨hnext.trans h.next, fun q d hq => h.key q d (hold q d hq),
      fun q d hq => h.lt q d (hold q d hq), fun q d hq => h.le q d (hold q d hq)⟩
  | same hs hadd =>
    have hnext : a.next e = a := by
      cases e with
      | add p rcvprio => exact absurd rfl (hadd p rcvprio)
      | _ => rfl
    have hold : ∀ q d, x'.data q = some d → ∃ d', x.data q = some d' ∧
        d'.key = d.key := fun q d hq =>
      hs.data_iff.1 ⟨d, hq, rfl⟩
    rw [hnext]
    refine ⟨hs.nextKey.trans h.next, fun q d hq => ?_, fun q d hq => ?_, fun q d hq => ?_⟩
    all_goals obtain ⟨d', hd', hk⟩ := hold q d hq
    · rw [← hk]
      exact h.key q d' hd'
    · exact h.lt q d' hd'
    · exact h.le q d' hd'

end Numbered

theorem Router.numbered_of_trace {proto : Proto} {nextKey : UInt32} {es : List (RouterEvent P)}
    {x : Router P} (h : Trace (Router.step proto) Router.Enabled (Router.init nextKey) es x) :
    x.Wf ∧ x.Numbered nextKey (additions es) := by
  refine h.invariant (I := fun es x => x.Wf ∧ x.Numbered nextKey (additions es))
    ⟨Router.init_wf nextKey, by simp [Router.init, additions], fun _ _ h => (nomatch h),
      fun _ _ h => (nomatch h), fun _ _ h => (nomatch h)⟩ ?_
  intro es x e x' a hI he heq
  rcases hI.1.step proto he with ⟨-, herr⟩ | ⟨-, x'', a', heq', hwf, hd⟩
  · rw [herr] at heq
    cases heq
  · rw [heq] at heq'
    cases heq'
    rw [additions_snoc]
    exact ⟨hwf, hI.2.step hd⟩

/-- In every state that a raw REP or raw RESPONDENT socket can reach, attached pipes have different
keys, and a new pipe gets a key that none of them has, without an abort, exactly when each of them
was added fewer than 2^31 additions earlier. -/
theorem key_free_iff (proto : Proto) (nextKey : UInt32) (es : List (RouterEvent P)) (x : Router P)
    (h : Trace (Router.step proto) Router.Enabled (Router.init nextKey) es x) :
    (∀ p q d e, x.data p = some d → x.data q = some e → d.key = e.key → p = q) ∧
    ∀ p rcvprio, x.pipes p = none →
      (((∀ q d, x.data q = some d → d.key ≠ x.nextKey &&& 0x7fffffff) ∧
          ∃ x', x.step proto (.add p rcvprio) = .ok (x', .none)) ↔
        ∀ q, (x.data q).isSome → (additions es).count - (additions es).number q < 2 ^ 31) := by
  obtain ⟨hwf, hnum⟩ := Router.numbered_of_trace h
  refine ⟨fun p q d e hp hq hk => hwf.eq_of_key hp hq hk, fun p rcvprio hp => ⟨?_, ?_⟩⟩
  · rintro ⟨hfree, -⟩ q hq
    obtain ⟨d, hd⟩ := Option.isSome_iff_exists.1 hq
    have hlt := hnum.lt q d hd
    have hle := hnum.le q d hd
    have hne := (hnum.key_eq_iff hd).not.1 (hfree q d hd)
    omega
  · intro hage
    have hfree : ∀ q d, x.data q = some d → d.key ≠ x.nextKey &&& 0x7fffffff := by
      intro q d hd hk
      have := hage q (by simp [hd])
      have := (hnum.key_eq_iff hd).1 hk
      omega
    refine ⟨hfree, ?_⟩
    rcases hwf.add hp rcvprio with ⟨-, x', heq, -⟩ | ⟨⟨q, d, hd, hk⟩, -⟩
    · refine ⟨x', ?_⟩
      cases proto <;> simp [Router.step, nnXrepAdd, nnXrespondentAdd, heq]
    · exact absurd hk (hfree q d hd)

/-- Two pipes, of which the second one was removed and comes back. -/
def comeback : List (RouterEvent (Fin 2)) := [.add 0 1, .add 1 1, .rm 1]

theorem comeback_returns :
    (runWhile (Router.step .respondent) Router.Enabled (Router.init 0xffffffff)
      comeback).isSome := by
  decide

theorem key_free_comeback :
    ∃ x : Router (Fin 2), Trace (Router.step .respondent) Router.Enabled
      (Router.init 0xffffffff) comeback x ∧
      (∀ q d, x.data q = some d → d.key ≠ x.nextKey &&& 0x7fffffff) ∧
        ∃ x', x.step .respondent (.add 1 1) = .ok (x', .none) := by
  have htr := Trace.of_runWhile comeback_returns
  refine ⟨_, htr, ((key_free_iff .respondent _ _ _ htr).2 1 1 (by decide)).2 fun q _ => ?_⟩
  have hcount : (additions comeback).count = 2 := by decide
  rw [hcount]
  omega

/-! ### A clash -/

/-- One pipe stays, and another is added and removed `n` times. -/
def churn : ℕ → List (RouterEvent (Fin 2))
  | 0 => [.add 0 1]
  | n + 1 => churn n ++ [.add 1 1] ++ [.rm 1]

theorem additions_churn (n : ℕ) :
    (additions (churn n)).count = n + 1 ∧ (additions (churn n)).number 0 = 0 := by
  induction n with
  | zero => decide
  | succ n ih =>
    rw [churn, additions_snoc, additions_snoc]
    simp [Additions.next, ih]

/-- Up to 2^31 additions nothing goes wrong. -/
theorem exists_trace_churn {n : ℕ} (hn : n < 2 ^ 31) :
    ∃ x, Trace (Router.step .rep) Router.Enabled (Router.init 0) (churn n) x ∧ (x.data 0).isSome ∧
      x.pipes 1 = none := by
  induction n with
  | zero =>
    have he : Router.Enabled (Router.init 0) (.add 0 1 : RouterEvent (Fin 2)) := rfl
    exact ⟨_, Trace.nil.snoc he rfl, rfl, rfl⟩
  | succ n ih =>
    obtain ⟨x, htr, h0, h1⟩ := ih (by omega)
    obtain ⟨hwf, hnum⟩ := Router.numbered_of_trace htr
    obtain ⟨hcount, hzero⟩ := additions_churn n
    have hd1 : x.data 1 = none := by
      have := (hwf.data 1).not
      rw [h1] at this
      simpa using this
    -- the only attached pipe is the first one
    rcases hwf.step .rep (e := .add 1 1) h1 with
      ⟨⟨q, d, hd, hk⟩, -⟩ | ⟨-, x', a', heq', hwf', hdid'⟩
    · have hage := (hnum.key_eq_iff hd).1 hk
      have hq : q = 0 := by
        rcases Fin.exists_fin_two.1 ⟨q, rfl⟩ with rfl | rfl
        · rfl
        · rw [hd1] at hd
          cases hd
      rw [hq, hcount, hzero] at hage
      omega
    have hdata' : x'.data = Function.update x.data 1 (some ⟨x.nextKey &&& 0x7fffffff, false⟩) := by
      cases hdid' with
      | add _ _ hdata => exact hdata
      | same _ hadd => exact absurd rfl (hadd 1 1)
    have hp' : (x'.pipes 1).isSome := (hwf'.data 1).1 (by simp [hdata'])
    rcases hwf'.step .rep (e := .rm 1) hp' with ⟨hclash, -⟩ | ⟨-, x'', a'', heq'', hwf'', hdid''⟩
    · cases hclash
    have hdata'' : x''.data = Function.update x'.data 1 none := by
      cases hdid'' with
      | rm _ hdata => exact hdata
      | same _ _ hrm => exact absurd rfl (hrm 1)
    have he' : x.Enabled (.add 1 1) := h1
    have he'' : x'.Enabled (.rm 1) := hp'
    refine ⟨x'', (htr.snoc he' heq').snoc he'' heq'', ?_, ?_⟩
    · simpa [hdata'', hdata'] using h0
    · have := (hwf''.data 1).not
      simpa [hdata''] using this

/-- The second pipe gets the key of the first one when it is added for the 2^31st time, and the
socket aborts. -/
theorem key_clash :
    ¬ ∀ (es : List (RouterEvent (Fin 2))) (x : Router (Fin 2)) (p : Fin 2),
      Trace (Router.step .rep) Router.Enabled (Router.init 0) es x → x.pipes p = none →
      (∀ q d, x.data q = some d → d.key ≠ x.nextKey &&& 0x7fffffff) ∧
        ∃ x', x.step .rep (.add p 1) = .ok (x', .none) := by
  intro h
  obtain ⟨x, htr, h0, h1⟩ := exists_trace_churn (n := 2 ^ 31 - 1) (by norm_num)
  obtain ⟨-, hnum⟩ := Router.numbered_of_trace htr
  obtain ⟨hcount, hzero⟩ := additions_churn (2 ^ 31 - 1)
  obtain ⟨d, hd⟩ := Option.isSome_iff_exists.1 h0
  refine (h _ x 1 htr h1).1 0 d hd ((hnum.key_eq_iff hd).2 ?_)
  rw [hcount, hzero]
  norm_num

end NanoSocket

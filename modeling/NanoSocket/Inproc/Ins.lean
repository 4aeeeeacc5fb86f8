import NanoSocket.Core.Wire
import NanoSocket.Lib.Runs

/-!
# The inproc name service (`transports/inproc/ins.c`)

Bound and connected endpoints are kept in two lists.  `nn_ins_bind` looks through the connected ones
and `nn_ins_connect` through the bound ones; for a match they call back, and the endpoint creates a
session.

An endpoint is present from the call that registers it until the call that takes it back.  A
`Registry` records beside the two lists the callbacks, the endpoints that are present by the calls
and their answers alone, and for each pair of endpoints how often the two came to be present at the
same time.  `callback_per_meeting` says that these numbers agree for endpoints of the same address
that are compatible, and that other pairs get no callback.
-/

namespace NanoSocket.Inproc

/-- `strncmp (a, b, n) == 0`; a string ends at its first NUL byte, or with the array. -/
def strncmpEq : ℕ → List UInt8 → List UInt8 → Bool
  | 0, _, _ => true
  | n + 1, a, b => a.headD 0 = b.headD 0 && (a.headD 0 = 0 || strncmpEq n a.tail b.tail)

/-- `struct nn_ins_item` with what is used of its endpoint; `id` tells items apart. -/
structure Item where
  id : ℕ
  addr : List UInt8
  socktype : Socktype
  deriving DecidableEq, Repr

/-- The addresses agree up to `NN_SOCKADDR_MAX`. -/
def SameAddr (x y : Item) : Prop := strncmpEq 128 x.addr y.addr = true

instance (x y : Item) : Decidable (SameAddr x y) := inferInstanceAs (Decidable (_ = true))

/-- `struct nn_ins`. -/
structure Ins where
  bound : List Item
  connected : List Item
  deriving DecidableEq, Repr

/-- `nn_ins_init`. -/
def nnInsInit : Ins := { bound := [], connected := [] }

/-- A call `fn (item, peer)`: of `nn_binproc_connect` by `nn_ins_bind`, or of `nn_cinproc_connect`
by `nn_ins_connect`. -/
inductive Callback
  | binproc (item peer : Item)
  | cinproc (item peer : Item)
  deriving DecidableEq, Repr

/-- The bound and the connected endpoint of a callback. -/
def Callback.pair : Callback → Item × Item
  | .binproc item peer => (item, peer)
  | .cinproc item peer => (peer, item)

/-- `nn_list_item_isinlist`. -/
def Ins.IsInList (self : Ins) (item : Item) : Prop := item ∈ self.bound ∨ item ∈ self.connected

instance (self : Ins) (item : Item) : Decidable (self.IsInList item) :=
  inferInstanceAs (Decidable (_ ∨ _))

section Calls

variable (ispeer : Socktype → Socktype → Bool)

/-- The loop of `nn_ins_bind` over the connected endpoints. -/
def bindLoop (item : Item) : List Item → List Callback
  | [] => []
  | citem :: rest =>
    if SameAddr item citem then
      -- check whether the two sockets are compatible
      if !ispeer item.socktype citem.socktype then bindLoop item rest
      else .binproc item citem :: bindLoop item rest
    else bindLoop item rest

/-- The loop of `nn_ins_connect` over the bound endpoints, which ends at the first one of the
address. -/
def connectLoop (item : Item) : List Item → List Callback
  | [] => []
  | bitem :: rest =>
    if SameAddr item bitem then
      if !ispeer item.socktype bitem.socktype then [] else [.cinproc item bitem]
    else connectLoop item rest

/-- `nn_ins_bind`. -/
def nnInsBind (self : Ins) (item : Item) : Except Fault (Option Errno × List Callback × Ins) :=
  -- check whether the endpoint isn't already bound
  if ∃ bitem ∈ self.bound, SameAddr bitem item then .ok (some .eaddrinuse, [], self)
  else do
    nnAssert (¬ self.IsInList item)
    return (none, bindLoop ispeer item self.connected, { self with bound := self.bound ++ [item] })

/-- `nn_ins_connect`. -/
def nnInsConnect (self : Ins) (item : Item) :
    Except Fault (Option Errno × List Callback × Ins) := do
  nnAssert (¬ self.IsInList item)
  return (none, connectLoop ispeer item self.bound,
    { self with connected := self.connected ++ [item] })

/-- `nn_ins_disconnect`. -/
def nnInsDisconnect (self : Ins) (item : Item) :
    Except Fault (Option Errno × List Callback × Ins) := do
  nnAssert (self.IsInList item)
  return (none, [], { self with connected := self.connected.erase item })

/-- `nn_ins_unbind`. -/
def nnInsUnbind (self : Ins) (item : Item) : Except Fault (Option Errno × List Callback × Ins) := do
  nnAssert (self.IsInList item)
  return (none, [], { self with bound := self.bound.erase item })

/-- The calls of the endpoints. -/
inductive InsCall
  | bind (item : Item)
  | connect (item : Item)
  | unbind (item : Item)
  | disconnect (item : Item)
  deriving DecidableEq, Repr

/-- One call. -/
def Ins.call (self : Ins) : InsCall → Except Fault (Option Errno × List Callback × Ins)
  | .bind item => nnInsBind ispeer self item
  | .connect item => nnInsConnect ispeer self item
  | .unbind item => nnInsUnbind self item
  | .disconnect item => nnInsDisconnect self item

/-- The endpoints that are present, one list for those that bind and one for those that connect. -/
structure Present where
  bound : Finset Item
  connected : Finset Item
  deriving DecidableEq

/-- What a call with its answer makes present or absent. -/
def Present.after (p : Present) : InsCall → Option Errno → Present
  | .bind item, none => { p with bound := insert item p.bound }
  | .bind _, some _ => p
  | .connect item, _ => { p with connected := insert item p.connected }
  | .unbind item, _ => { p with bound := p.bound.erase item }
  | .disconnect item, _ => { p with connected := p.connected.erase item }

/-- The two endpoints are present. -/
def Present.Both (p : Present) (b c : Item) : Prop := b ∈ p.bound ∧ c ∈ p.connected

instance (p : Present) (b c : Item) : Decidable (p.Both b c) := inferInstanceAs (Decidable (_ ∧ _))

/-- A binproc only binds and unbinds its item, and a cinproc only connects and disconnects its
own. -/
def Present.Owned (p : Present) : InsCall → Prop
  | .bind _ | .connect _ => True
  | .unbind item => item ∉ p.connected
  | .disconnect item => item ∉ p.bound

instance (p : Present) (call : InsCall) : Decidable (p.Owned call) :=
  match call with
  | .bind _ | .connect _ => .isTrue trivial
  | .unbind _ | .disconnect _ => inferInstanceAs (Decidable (¬ _))

/-- The lists, the callbacks that were made, the endpoints that are present, and how often two of
them met. -/
structure Registry where
  ins : Ins
  log : List Callback
  present : Present
  meetings : Item → Item → ℕ

/-- The empty registry. -/
def Registry.init : Registry :=
  { ins := nnInsInit, log := [], present := { bound := ∅, connected := ∅ },
    meetings := fun _ _ => 0 }

/-- A call, recorded.  Two endpoints meet in it when they are both present afterwards and were not
before. -/
def Registry.step (r : Registry) (call : InsCall) : Except Fault (Registry × Option Errno) := do
  let (rc, callbacks, ins) ← r.ins.call ispeer call
  let present := r.present.after call rc
  return ({ ins := ins, log := r.log ++ callbacks, present := present, meetings := fun b c =>
    r.meetings b c + if present.Both b c ∧ ¬ r.present.Both b c then 1 else 0 }, rc)

end Calls

/-! ### Addresses -/

/-- The bytes that `strncmp` compares. -/
def cstring : ℕ → List UInt8 → List UInt8
  | 0, _ => []
  | n + 1, a => if a.headD 0 = 0 then [] else a.headD 0 :: cstring n a.tail

theorem strncmpEq_iff (n : ℕ) (a b : List UInt8) :
    strncmpEq n a b = true ↔ cstring n a = cstring n b := by
  induction n generalizing a b with
  | zero => simp [strncmpEq, cstring]
  | succ n ih =>
    unfold strncmpEq cstring
    rw [Bool.and_eq_true, Bool.or_eq_true, decide_eq_true_iff, decide_eq_true_iff, ih]
    generalize a.headD 0 = x
    generalize b.headD 0 = y
    by_cases hx : x = 0 <;> by_cases hy : y = 0
    · simp [hx, hy]
    · simp [hx, hy, Ne.symm hy]
    · simp [hx, hy]
    · simp [hx, hy]

theorem sameAddr_iff (x y : Item) : SameAddr x y ↔ cstring 128 x.addr = cstring 128 y.addr :=
  strncmpEq_iff _ _ _

theorem SameAddr.symm {x y : Item} (h : SameAddr x y) : SameAddr y x := by
  rw [sameAddr_iff] at h ⊢
  exact h.symm

theorem SameAddr.trans {x y z : Item} (h : SameAddr x y) (h' : SameAddr y z) : SameAddr x z := by
  rw [sameAddr_iff] at h h' ⊢
  exact h.trans h'

/-! ### The loops -/

section Loops

variable {ispeer : Socktype → Socktype → Bool}

/-- The two endpoints have the same address and are compatible. -/
def Compatible (ispeer : Socktype → Socktype → Bool) (b c : Item) : Prop :=
  SameAddr b c ∧ ispeer b.socktype c.socktype = true

instance (b c : Item) : Decidable (Compatible ispeer b c) := inferInstanceAs (Decidable (_ ∧ _))

/-- How many callbacks are about the two endpoints. -/
def callbacksFor (b c : Item) (log : List Callback) : ℕ := log.countP (·.pair = (b, c))

theorem callbacksFor_append (b c : Item) (log log' : List Callback) :
    callbacksFor b c (log ++ log') = callbacksFor b c log + callbacksFor b c log' :=
  List.countP_append

theorem callbacksFor_binproc (b c item citem : Item) (log : List Callback) :
    callbacksFor b c (.binproc item citem :: log) =
      callbacksFor b c log + if b = item ∧ c = citem then 1 else 0 := by
  unfold callbacksFor
  rw [List.countP_cons]
  refine congrArg _ (if_congr ?_ rfl rfl)
  rw [decide_eq_true_iff, Callback.pair, Prod.mk.injEq, eq_comm (a := item), eq_comm (a := citem)]

/-- `nn_ins_bind` calls back once for each compatible endpoint of the address. -/
theorem callbacksFor_bindLoop (item : Item) {l : List Item} (hl : l.Nodup) (b c : Item) :
    callbacksFor b c (bindLoop ispeer item l) =
      if b = item ∧ c ∈ l ∧ Compatible ispeer b c then 1 else 0 := by
  induction l with
  | nil => simp [bindLoop, callbacksFor]
  | cons citem rest ih =>
    obtain ⟨hnotin, hrest⟩ := List.nodup_cons.1 hl
    have ih := ih hrest
    unfold bindLoop
    by_cases hcompat : Compatible ispeer item citem
    · rw [if_pos hcompat.1, if_neg (by simp [hcompat.2]), callbacksFor_binproc, ih]
      by_cases hc : c = citem
      · subst hc
        by_cases hb : b = item
        · subst hb
          simp [hnotin, hcompat]
        · simp [hb]
      · simp [hc]
    · have hskip : (if SameAddr item citem then
          if !ispeer item.socktype citem.socktype then bindLoop ispeer item rest
          else .binproc item citem :: bindLoop ispeer item rest
          else bindLoop ispeer item rest) = bindLoop ispeer item rest := by
        by_cases hsame : SameAddr item citem
        · rw [if_pos hsame, if_pos]
          by_contra hpeer
          exact hcompat ⟨hsame, by simpa using hpeer⟩
        · rw [if_neg hsame]
      rw [hskip, ih]
      refine if_congr ?_ rfl rfl
      constructor
      · rintro ⟨hb, hc, hbc⟩
        exact ⟨hb, List.mem_cons_of_mem _ hc, hbc⟩
      · rintro ⟨rfl, hc, hbc⟩
        rcases List.mem_cons.1 hc with rfl | hc
        · exact absurd hbc hcompat
        · exact ⟨rfl, hc, hbc⟩

/-- `nn_ins_connect` calls back for the endpoint that is bound to the address, if it is
compatible. -/
theorem callbacksFor_connectLoop (hsymm : ∀ x y, ispeer x y = ispeer y x) (item : Item)
    {l : List Item} (hl : l.Pairwise fun x y => ¬ SameAddr x y) (b c : Item) :
    callbacksFor b c (connectLoop ispeer item l) =
      if c = item ∧ b ∈ l ∧ Compatible ispeer b c then 1 else 0 := by
  induction l with
  | nil => simp [connectLoop, callbacksFor]
  | cons bitem rest ih =>
    obtain ⟨hdiff, hrest⟩ := List.pairwise_cons.1 hl
    unfold connectLoop
    split_ifs with hsame hpeer hcond hcond hcond
    · -- the endpoint of the address is not compatible
      obtain ⟨rfl, hb, hsame', hpeer'⟩ := hcond
      rcases List.mem_cons.1 hb with rfl | hb
      · rw [hsymm, hpeer'] at hpeer
        cases hpeer
      · exact absurd (hsame.symm.trans hsame'.symm) (hdiff b hb)
    · rfl
    · obtain ⟨rfl, hb, hsame', hpeer'⟩ := hcond
      obtain rfl : b = bitem := by
        rcases List.mem_cons.1 hb with rfl | hb
        · rfl
        · exact absurd (hsame.symm.trans hsame'.symm) (hdiff b hb)
      simp [callbacksFor, Callback.pair]
    · have hne : ¬ (bitem = b ∧ item = c) := by
        rintro ⟨rfl, rfl⟩
        refine hcond ⟨rfl, List.mem_cons_self, hsame.symm, ?_⟩
        rw [hsymm]
        simpa using hpeer
      simp [callbacksFor, Callback.pair, hne]
    · obtain ⟨rfl, hb, hbc⟩ := hcond
      rw [ih hrest, if_pos]
      refine ⟨rfl, ?_, hbc⟩
      rcases List.mem_cons.1 hb with rfl | hb
      · exact absurd hbc.1.symm hsame
      · exact hb
    · rw [ih hrest, if_neg]
      rintro ⟨hc, hb, hbc⟩
      exact hcond ⟨hc, List.mem_cons_of_mem _ hb, hbc⟩

end Loops

/-! ### The registry -/

section Registry

variable {ispeer : Socktype → Socktype → Bool}

/-- The lists hold the endpoints that are present. -/
structure Ins.Holds (ins : Ins) (p : Present) : Prop where
  bound : ∀ x, x ∈ ins.bound ↔ x ∈ p.bound
  connected : ∀ x, x ∈ ins.connected ↔ x ∈ p.connected

/-- The invariant of the registry. -/
structure Registry.Inv (ispeer : Socktype → Socktype → Bool) (r : Registry) : Prop where
  holds : r.ins.Holds r.present
  bound : r.ins.bound.Pairwise fun x y => ¬ SameAddr x y
  connected : r.ins.connected.Nodup
  callbacks : ∀ b c, callbacksFor b c r.log = if Compatible ispeer b c then r.meetings b c else 0

theorem Registry.init_inv : Registry.init.Inv ispeer := by
  refine ⟨⟨fun x => ?_, fun x => ?_⟩, List.Pairwise.nil, List.nodup_nil, fun b c => ?_⟩
  · simp [Registry.init, nnInsInit]
  · simp [Registry.init, nnInsInit]
  · simp [Registry.init, callbacksFor]

/-- No two endpoints of one address are bound, so that none is bound twice. -/
theorem Registry.Inv.bound_nodup {r : Registry} (h : r.Inv ispeer) : r.ins.bound.Nodup :=
  h.bound.imp fun hdiff heq => hdiff (by rw [heq, sameAddr_iff])

/-- The numbers follow when the callbacks of a call are those of the endpoints that meet in it. -/
theorem callbacks_step {r : Registry} (h : r.Inv ispeer) {present : Present}
    {callbacks : List Callback} (hcall : ∀ b c, callbacksFor b c callbacks =
      if (present.Both b c ∧ ¬ r.present.Both b c) ∧ Compatible ispeer b c then 1
        else 0) (b c : Item) :
    callbacksFor b c (r.log ++ callbacks) = if Compatible ispeer b c then
      r.meetings b c + (if present.Both b c ∧ ¬ r.present.Both b c then 1 else 0) else 0 := by
  rw [callbacksFor_append, h.callbacks, hcall]
  by_cases hbc : Compatible ispeer b c
  · simp [hbc]
  · simp [hbc]

theorem Registry.Inv.bind {r r' : Registry} (h : r.Inv ispeer)
    {item : Item} {rc : Option Errno} (heq : r.step ispeer (.bind item) = .ok (r', rc)) :
    r'.Inv ispeer := by
  unfold Registry.step Ins.call nnInsBind at heq
  dsimp only at heq
  split_ifs at heq with hused
  · cases heq
    refine ⟨h.holds, h.bound, h.connected, callbacks_step h fun b c => ?_⟩
    simp [callbacksFor, Present.after]
  by_cases hin : r.ins.IsInList item
  · rw [nnAssert_of_not (not_not.2 hin)] at heq
    cases heq
  rw [nnAssert_of hin] at heq
  cases heq
  refine ⟨⟨fun x => ?_, h.holds.connected⟩, ?_, h.connected, callbacks_step h fun b c => ?_⟩
  · show x ∈ r.ins.bound ++ [item] ↔ x ∈ insert item r.present.bound
    rw [List.mem_append, List.mem_singleton, Finset.mem_insert, h.holds.bound, or_comm]
  · refine List.pairwise_append.2 ⟨h.bound, List.pairwise_singleton _ _, fun x hx y hy hxy => ?_⟩
    obtain rfl := List.mem_singleton.1 hy
    exact hused ⟨x, hx, hxy⟩
  · rw [callbacksFor_bindLoop item h.connected]
    refine if_congr ?_ rfl rfl
    have habsent : item ∉ r.present.bound := fun hmem => hin (Or.inl ((h.holds.bound item).2 hmem))
    unfold Present.Both Present.after
    rw [Finset.mem_insert, h.holds.connected]
    constructor
    · rintro ⟨rfl, hc, hbc⟩
      exact ⟨⟨⟨Or.inl rfl, hc⟩, fun hboth => habsent hboth.1⟩, hbc⟩
    · rintro ⟨⟨⟨hb | hb, hc⟩, hnot⟩, hbc⟩
      · exact ⟨hb, hc, hbc⟩
      · exact absurd ⟨hb, hc⟩ hnot

theorem Registry.Inv.connect (hsymm : ∀ x y, ispeer x y = ispeer y x) {r r' : Registry}
    (h : r.Inv ispeer) {item : Item} {rc : Option Errno}
    (heq : r.step ispeer (.connect item) = .ok (r', rc)) : r'.Inv ispeer := by
  unfold Registry.step Ins.call nnInsConnect at heq
  dsimp only at heq
  by_cases hin : r.ins.IsInList item
  · rw [nnAssert_of_not (not_not.2 hin)] at heq
    cases heq
  rw [nnAssert_of hin] at heq
  cases heq
  refine ⟨⟨h.holds.bound, fun x => ?_⟩, h.bound, ?_, callbacks_step h fun b c => ?_⟩
  · show x ∈ r.ins.connected ++ [item] ↔ x ∈ insert item r.present.connected
    rw [List.mem_append, List.mem_singleton, Finset.mem_insert, h.holds.connected, or_comm]
  · show (r.ins.connected ++ [item]).Nodup
    rw [← List.concat_eq_append]
    exact h.connected.concat fun hmem => hin (Or.inr hmem)
  · rw [callbacksFor_connectLoop hsymm item h.bound]
    refine if_congr ?_ rfl rfl
    have habsent : item ∉ r.present.connected := fun hmem =>
      hin (Or.inr ((h.holds.connected item).2 hmem))
    unfold Present.Both Present.after
    rw [Finset.mem_insert, h.holds.bound]
    constructor
    · rintro ⟨rfl, hb, hbc⟩
      exact ⟨⟨⟨hb, Or.inl rfl⟩, fun hboth => habsent hboth.2⟩, hbc⟩
    · rintro ⟨⟨⟨hb, hc | hc⟩, hnot⟩, hbc⟩
      · exact ⟨hc, hb, hbc⟩
      · exact absurd ⟨hb, hc⟩ hnot

/-- Nobody meets when an endpoint goes away. -/
theorem callbacks_leave {r : Registry} {present : Present}
    (hbound : present.bound ⊆ r.present.bound)
    (hconnected : present.connected ⊆ r.present.connected) (b c : Item) :
    callbacksFor b c [] = if (present.Both b c ∧ ¬ r.present.Both b c) ∧
      Compatible ispeer b c then 1 else 0 := by
  rw [if_neg]
  · rfl
  · rintro ⟨⟨⟨hb, hc⟩, hnot⟩, -⟩
    exact hnot ⟨hbound hb, hconnected hc⟩

/-- An endpoint that is taken out of a list is present there no longer. -/
theorem mem_erase_iff {l : List Item} {s : Finset Item} (h : ∀ x, x ∈ l ↔ x ∈ s) (hl : l.Nodup)
    (item x : Item) :
    x ∈ l.erase item ↔ x ∈ s.erase item := by
  rw [hl.mem_erase_iff, Finset.mem_erase, h]

theorem Registry.Inv.step (hsymm : ∀ x y, ispeer x y = ispeer y x) {r r' : Registry}
    (h : r.Inv ispeer) {call : InsCall} {rc : Option Errno}
    (heq : r.step ispeer call = .ok (r', rc)) : r'.Inv ispeer := by
  cases call with
  | bind item => exact h.bind heq
  | connect item => exact h.connect hsymm heq
  | unbind item =>
    unfold Registry.step Ins.call nnInsUnbind at heq
    dsimp only at heq
    by_cases hin : r.ins.IsInList item
    · rw [nnAssert_of hin] at heq
      cases heq
      refine ⟨⟨mem_erase_iff h.holds.bound h.bound_nodup item, h.holds.connected⟩,
        h.bound.sublist List.erase_sublist, h.connected, callbacks_step h ?_⟩
      exact callbacks_leave (Finset.erase_subset _ _) fun _ => id
    · rw [nnAssert_of_not hin] at heq
      cases heq
  | disconnect item =>
    unfold Registry.step Ins.call nnInsDisconnect at heq
    dsimp only at heq
    by_cases hin : r.ins.IsInList item
    · rw [nnAssert_of hin] at heq
      cases heq
      refine ⟨⟨h.holds.bound, mem_erase_iff h.holds.connected h.connected item⟩, h.bound,
        h.connected.erase _, callbacks_step h ?_⟩
      exact callbacks_leave (fun _ => id) (Finset.erase_subset _ _)
    · rw [nnAssert_of_not hin] at heq
      cases heq

/-- In every sequence of calls at most one endpoint of an address is bound, a second bind fails and
changes nothing, and two endpoints get one callback each time they come to be present together if
they have the same address and are compatible, and none otherwise. -/
theorem callback_per_meeting (ispeer : Socktype → Socktype → Bool)
    (hsymm : ∀ x y, ispeer x y = ispeer y x) (calls : List InsCall) (r : Registry)
    (h : Runs.Trace (Registry.step ispeer) (fun r call => r.present.Owned call)
      Registry.init calls r) :
    (∀ b ∈ r.present.bound, ∀ b' ∈ r.present.bound, SameAddr b b' → b = b') ∧
      (∀ b ∈ r.present.bound, ∀ item, SameAddr b item →
        nnInsBind ispeer r.ins item = .ok (some .eaddrinuse, [], r.ins)) ∧
      ∀ b c, callbacksFor b c r.log = if Compatible ispeer b c then r.meetings b c else 0 := by
  have hinv : r.Inv ispeer := by
    refine h.invariant (I := fun _ r => r.Inv ispeer) Registry.init_inv ?_
    intro calls r call r' rc hinv _ heq
    exact hinv.step hsymm heq
  refine ⟨fun b hb b' hb' hsame => ?_, fun b hb item hsame => ?_, hinv.callbacks⟩
  · have hsym : Std.Symm fun x y => ¬ SameAddr x y := ⟨fun x y hxy hyx => hxy hyx.symm⟩
    by_contra hne
    exact hinv.bound.forall ((hinv.holds.bound b).2 hb) ((hinv.holds.bound b').2 hb') hne hsame
  · unfold nnInsBind
    rw [if_pos ⟨b, (hinv.holds.bound b).2 hb, hsame⟩]

end Registry

/-- Two endpoints connect before the address is bound and one after; the bound one goes away, one of
the others, too, and both return. -/
def rebindRun : List InsCall :=
  [.connect ⟨1, [97], .req⟩, .connect ⟨2, [97], .pair⟩, .bind ⟨3, [97], .rep⟩,
    .connect ⟨4, [97, 0, 5], .req⟩, .unbind ⟨3, [97], .rep⟩, .disconnect ⟨4, [97, 0, 5], .req⟩,
    .bind ⟨3, [97], .rep⟩, .connect ⟨4, [97, 0, 5], .req⟩, .disconnect ⟨1, [97], .req⟩]

theorem rebindRun_returns :
    (Runs.runWhile (Registry.step nnEpIspeerEp) (fun r call => r.present.Owned call) Registry.init
      rebindRun).isSome := by
  decide

theorem callback_per_meeting_rebind :
    let r := (Runs.runWhile (Registry.step nnEpIspeerEp) (fun r call => r.present.Owned call)
      Registry.init rebindRun).get rebindRun_returns
    r.present.connected = {⟨2, [97], .pair⟩, ⟨4, [97, 0, 5], .req⟩} ∧
      callbacksFor ⟨3, [97], .rep⟩ ⟨1, [97], .req⟩ r.log = 2 ∧
      callbacksFor ⟨3, [97], .rep⟩ ⟨4, [97, 0, 5], .req⟩ r.log = 2 ∧
      callbacksFor ⟨3, [97], .rep⟩ ⟨2, [97], .pair⟩ r.log = 0 ∧
      nnInsBind nnEpIspeerEp r.ins ⟨5, [97], .bus⟩ = .ok (some .eaddrinuse, [], r.ins) := by
  intro r
  obtain ⟨-, hbind, hcount⟩ := callback_per_meeting nnEpIspeerEp nnEpIspeerEp_comm rebindRun r
    (Runs.Trace.of_runWhile rebindRun_returns)
  refine ⟨by decide, ?_, ?_, ?_, hbind ⟨3, [97], .rep⟩ (by decide) _ (by decide)⟩
  · rw [hcount, if_pos (by decide)]
    decide
  · rw [hcount, if_pos (by decide)]
    decide
  · rw [hcount, if_neg (by decide)]

end NanoSocket.Inproc

import NanoSocket.Protocols.RouterKeys

/-!
# The backtrace of a message (`reqrep/xrep.c`, `survey/xrespondent.c`)

A raw REP or raw RESPONDENT socket splits a message behind the first word with its top bit set.
`backtrace_split` says what it makes of any message: it is accepted when the message has such a word
and the backtrace down to it is not longer than `NN_MAXTTL`.

`headerLoop` is the search for that word with the types of the source, an `int` for the counter and
`size_t` for the offsets; `headerLoop_eq` says that it is the search of `Router.split`, as nothing
wraps in a message below 2 GB.
-/

namespace NanoSocket

open Runs

variable {P : Type} [DecidableEq P]

/-- The word `i` lies inside the body and has its top bit set. -/
def TopWord (body : List UInt8) (i : ℕ) : Prop :=
  ∃ word, nnGetl (body.drop (i * 4)) = .ok word ∧ word &&& 0x80000000 ≠ 0

/-- The first word with its top bit set is the bottom of the stack. -/
def Bottom (body : List UInt8) (i : ℕ) : Prop := TopWord body i ∧ ∀ j < i, ¬ TopWord body j

theorem Bottom.unique {body : List UInt8} {i j : ℕ} (hi : Bottom body i) (hj : Bottom body j) :
    i = j := by
  rcases lt_trichotomy i j with h | h | h
  · exact absurd hi.1 (hj.2 i h)
  · exact h
  · exact absurd hj.1 (hi.2 j h)

theorem TopWord.le_length {body : List UInt8} {i : ℕ} (h : TopWord body i) :
    (i + 1) * 4 ≤ body.length := by
  obtain ⟨word, hword, -⟩ := h
  by_contra hlt
  have hshort : (body.drop (i * 4)).length < 4 := by
    rw [List.length_drop]
    omega
  match hdrop : body.drop (i * 4), hshort with
  | [], _ | [_], _ | [_, _], _ | [_, _, _], _ =>
    rw [hdrop] at hword
    cases hword

/-! ### The search -/

/-- The search finds the bottom of the stack, or there is none. -/
theorem headerWords_spec (body : List UInt8) {i : ℕ} (hbefore : ∀ j < i, ¬ TopWord body j) :
    (Router.headerWords body i = .ok none ∧ ∀ j, ¬ TopWord body j) ∨
      ∃ k, Router.headerWords body i = .ok (some (k + 1)) ∧ Bottom body k := by
  induction hn : body.length - i * 4 using Nat.strong_induction_on generalizing i with
  | _ n ih =>
    rw [Router.headerWords]
    split_ifs with hlen
    · refine .inl ⟨rfl, fun j hj => ?_⟩
      rcases lt_or_ge j i with hji | hij
      · exact hbefore j hji hj
      · have := hj.le_length
        omega
    · obtain ⟨word, hword⟩ :=
        nnGetl_of_length (l := body.drop (i * 4)) (by rw [List.length_drop]; omega)
      rw [hword, ok_bind]
      split_ifs with htop
      · exact .inr ⟨i, rfl, ⟨word, hword, htop⟩, hbefore⟩
      · refine ih _ (by omega) (fun j hj hjtop => ?_) rfl
        rcases Nat.lt_succ_iff_lt_or_eq.1 hj with hji | rfl
        · exact hbefore j hji hjtop
        · obtain ⟨word', hword', htop'⟩ := hjtop
          rw [hword] at hword'
          cases hword'
          exact htop htop'

/-- The loop of `nn_xrep_recv` in machine arithmetic: `i` is an `int`, and the sizes are
`size_t`. -/
def headerLoop : ℕ → List UInt8 → BitVec 32 → Except Fault (Option (BitVec 32))
  | 0, _, _ => .error .diverged
  | fuel + 1, body, i =>
    if (i + 1).signExtend 64 * 4 > BitVec.ofNat 64 body.length then .ok none
    else do
      let word ← nnGetl (body.drop (i.toNat * 4))
      if word &&& 0x80000000 ≠ 0 then return some (i + 1)
      headerLoop fuel body (i + 1)

theorem toNat_offset {i : ℕ} (hi : i < 2 ^ 30) :
    ((BitVec.ofNat 32 i + 1).signExtend 64 * 4).toNat = (i + 1) * 4 := by
  have hsucc : (BitVec.ofNat 32 i + 1).toNat = i + 1 := by
    rw [BitVec.toNat_add, BitVec.toNat_ofNat]
    simp
    omega
  have hmsb : (BitVec.ofNat 32 i + 1).msb = false := by
    rw [BitVec.msb_eq_false_iff_two_mul_lt, hsucc]
    omega
  rw [BitVec.signExtend_eq_setWidth_of_msb_false hmsb, BitVec.toNat_mul,
    BitVec.toNat_setWidth, hsucc]
  simp
  omega

/-- Nothing wraps in a message below 2 GB, and the loop ends. -/
theorem headerLoop_eq {body : List UInt8} (hlen : body.length < 2 ^ 31) {fuel i : ℕ}
    (hi : i * 4 ≤ body.length) (hfuel : body.length < fuel + i * 4) :
    headerLoop fuel body (BitVec.ofNat 32 i) = (Router.headerWords body i).map
      (Option.map (BitVec.ofNat 32)) := by
  induction fuel generalizing i with
  | zero => omega
  | succ fuel ih =>
    have hcond : (BitVec.ofNat 32 i + 1).signExtend 64 * 4 > BitVec.ofNat 64 body.length ↔
        (i + 1) * 4 > body.length := by
      rw [gt_iff_lt, BitVec.lt_def, toNat_offset (by omega), BitVec.toNat_ofNat,
        Nat.mod_eq_of_lt (by omega)]
    have hidx : (BitVec.ofNat 32 i).toNat = i := by
      rw [BitVec.toNat_ofNat, Nat.mod_eq_of_lt (by omega)]
    have hsucc : BitVec.ofNat 32 i + 1 = BitVec.ofNat 32 (i + 1) := (BitVec.ofNat_add i 1).symm
    rw [headerLoop, Router.headerWords, hidx, hsucc]
    rw [hsucc] at hcond
    by_cases hend : (i + 1) * 4 > body.length
    · rw [if_pos (hcond.2 hend), dif_pos hend]
      rfl
    rw [if_neg (mt hcond.1 hend), dif_neg hend]
    obtain ⟨word, hword⟩ :=
      nnGetl_of_length (l := body.drop (i * 4)) (by rw [List.length_drop]; omega)
    rw [hword, ok_bind, ok_bind]
    split_ifs with htop
    · rfl
    · exact ih (by omega) (by omega)

/-! ### Receiving -/

/-- What the sockets make of a message: the header is the backtrace with the key of the pipe in
front. -/
def backtraced (key : UInt32) (m : Msg) (i : ℕ) : Msg :=
  { m with sphdr := nnPutl key ++ m.body.take (4 * (i + 1)), body := m.body.drop (4 * (i + 1)) }

theorem split_cases {m : Inbound} (hm : m.Wf) (hparsed : m.parsed = false) (maxttl : ℕ) :
    (Router.split maxttl m = .ok .malformed ∧ ¬ ∃ i, Bottom m.msg.body i ∧ i + 1 ≤ maxttl) ∨
      ∃ i, Bottom m.msg.body i ∧ i + 1 ≤ maxttl ∧ Router.split maxttl m = .ok (.msg { m.msg with
        sphdr := m.msg.body.take (4 * (i + 1)), body := m.msg.body.drop (4 * (i + 1)) }) := by
  unfold Router.split
  rw [hparsed]
  simp only [Bool.false_eq_true, if_false]
  rcases headerWords_spec m.msg.body (i := 0) (fun j hj => absurd hj j.not_lt_zero) with
    ⟨heq, hnone⟩ | ⟨k, heq, hk⟩
  · rw [heq]
    exact .inl ⟨rfl, fun hex => hnone _ hex.choose_spec.1.1⟩
  · rw [heq, ok_bind]
    simp only
    split_ifs with httl
    · refine .inl ⟨rfl, ?_⟩
      rintro ⟨i, hi, hle⟩
      obtain rfl := hi.unique hk
      omega
    · refine .inr ⟨k, hk, not_lt.1 httl, ?_⟩
      rw [nnAssert_of (hm hparsed), ok_bind, mul_comm]
      rfl

/-- In every state that a raw REP or raw RESPONDENT socket can reach, a message that was not parsed
is accepted when its body has a bottom of the stack at a word `i` with `i + 1 ≤ maxttl`: the header
is the key of the pipe and the words down to it, and the body is the rest.  Any other message is
terminated, and the call returns `-EAGAIN`.  The search for the bottom ends and no number of it
wraps. -/
theorem backtrace_split (proto : Proto) (nextKey : UInt32) {es : List (RouterEvent P)}
    {x : Router P} (h : Trace (Router.step proto) Router.Enabled (Router.init nextKey) es x) {p : P}
    {m : Inbound} (hnext : x.next = some (p, m)) (hparsed : m.parsed = false)
    (hlen : m.msg.body.length < 2 ^ 31) :
    (∀ fuel > m.msg.body.length,
      headerLoop fuel m.msg.body 0 = (Router.headerWords m.msg.body 0).map
        (Option.map (BitVec.ofNat 32))) ∧
    ∃ data got x', x.data p = some data ∧ nnXrepRecv x = .ok (got, x') ∧
      nnXrespondentRecv x = .ok (got, x') ∧
      ((∃ i, Bottom m.msg.body i ∧ i + 1 ≤ x.maxttl ∧ got = .msg (backtraced data.key m.msg i)) ∨
        (¬ ∃ i, Bottom m.msg.body i ∧ i + 1 ≤ x.maxttl) ∧ got = .malformed) := by
  refine ⟨fun fuel hfuel => headerLoop_eq hlen (Nat.zero_le _) (by omega), ?_⟩
  have hwf := (Router.numbered_of_trace h).1
  rcases hwf.recv with ⟨hnone, -⟩ | ⟨q, m', d, g, pipe, pipe', x', hnext', hd, hg, -, hrecv, -, -,
    -, hp, -, hinbox, -⟩
  · rw [hnext] at hnone
    cases hnone
  obtain ⟨rfl, rfl⟩ := Prod.mk.inj (Option.some_inj.1 (hnext.symm.trans hnext'))
  have hm : m.Wf := hwf.inbox p pipe hp m (by rw [hinbox]; exact List.mem_cons_self)
  refine ⟨d, Router.keyed d.key g, x', hd, hrecv, hrecv, ?_⟩
  rcases split_cases hm hparsed x.maxttl with ⟨heq, hno⟩ | ⟨i, hi, hle, heq⟩
  · obtain rfl := Except.ok.inj (heq.symm.trans hg)
    exact .inr ⟨hno, rfl⟩
  · obtain rfl := Except.ok.inj (heq.symm.trans hg)
    exact .inl ⟨i, hi, hle, rfl⟩

/-- A request that took two hops, at a socket that allows three. -/
def twoHops : Inbound := ⟨⟨[], [], [0, 0, 0, 1, 0, 0, 0, 2, 0x80, 0, 0, 3, 7, 8]⟩, false⟩

theorem backtrace_split_two_hops :
    ∃ (x x' : Router Unit) (data : RouteData), x.next = some ((), twoHops) ∧ x.data () = some data ∧
      nnXrepRecv x = .ok (.msg (backtraced data.key twoHops.msg 2), x') := by
  have hrun : ∃ x, Trace (Router.step .rep) Router.Enabled (Router.init 5)
      [.setMaxttl 3, .add () 1, .arrive () twoHops, .pipeIn ()] x ∧
        x.next = some ((), twoHops) ∧ x.maxttl = 3 :=
    Trace.exists_of_runWhile (by decide)
  obtain ⟨x, h, hnext, hmax⟩ := hrun
  obtain ⟨-, data, got, x', hdata, hrecv, -, hgot⟩ := backtrace_split .rep 5 h hnext rfl (by decide)
  have hbottom : Bottom twoHops.msg.body 2 := by
    refine ⟨⟨0x80000003, by decide, by decide⟩, ?_⟩
    rintro j hj ⟨word, hword, htop⟩
    interval_cases j
    · cases hword
      exact htop (by decide)
    · cases hword
      exact htop (by decide)
  refine ⟨x, x', data, hnext, hdata, ?_⟩
  rcases hgot with ⟨i, hi, -, rfl⟩ | ⟨hno, -⟩
  · rwa [hi.unique hbottom] at hrecv
  · exact absurd ⟨2, hbottom, by rw [hmax]⟩ hno

end NanoSocket

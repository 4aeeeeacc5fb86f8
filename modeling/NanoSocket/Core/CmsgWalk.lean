import NanoSocket.Core.Cmsg
import NanoSocket.Core.Chunkref
import NanoSocket.Lib.Walk

/-!
# Searching ancillary data (`nn.h`, `core/global.c`)

The loops over the properties of a control buffer (`nn_sendmsg` looks for SP_HDR, `nn_sws_send` for
the message type) go on by `cmsg_len`, which the user wrote.  `cmsgSearch` is such a loop, with the
offsets at which it looks; `cmsgStep` is its way from one property to the next one.

The test in `nn_cmsg_nxthdr_` is about the end of a property modulo 2^64.  `ProperChain` says which
buffers it does not get lost in.
-/

namespace NanoSocket

open Slice Walk

/-- The loop of `nn_sendmsg` and `nn_sws_send`: the offsets of the properties it looks at, and where
it stops. -/
def cmsgSearch (control : List UInt8) (level type : ℕ) :
    ℕ → Option ℕ → Except Fault (List ℕ × Option ℕ)
  | 0, _ => .error .diverged
  | _ + 1, none => .ok ([], none)
  | fuel + 1, some cmsg => do
    let cmsgLevel ← readLe control (cmsg + 8) 4
    let cmsgType ← readLe control (cmsg + 12) 4
    if cmsgLevel = level ∧ cmsgType = type then return ([cmsg], some cmsg)
    else
      let r ← cmsgSearch control level type fuel (← nnCmsgNxthdr control (some cmsg))
      return (cmsg :: r.1, r.2)

/-- What `nn_sendmsg` does with the property at which it stops; `alloc` says whether `nn_alloc` has
so many bytes. -/
def sphdrAt (alloc : ℕ → Bool) (control : List UInt8) :
    Option ℕ → Except Fault (Option (List UInt8))
  | none => .ok none
  | some cmsg => do
    let len ← readLe control cmsg 8
    let clen := (len + 2 ^ 64 - nnCmsgSpace 0) % 2 ^ 64
    if clen > 8 then
      let spsz ← readLe control (cmsg + 16) 8
      if spsz ≤ clen - 8 then
        -- `nn_chunkref_init`
        nnAssert (spsz < nnChunkrefMax ∨ alloc spsz)
        return some (← readBytes control (cmsg + 24) spsz)
    return none

/-- The search for SP_HDR and the copy of what is in it. -/
def searchSphdr (alloc : ℕ → Bool) (control : List UInt8) (fuel : ℕ) :
    Except Fault (Option (List UInt8)) := do
  let r ← cmsgSearch control 1 1 fuel (← nnCmsgNxthdr control none)
  sphdrAt alloc control r.2

/-- `cmsg_len`. -/
def cmsgLen (control : List UInt8) (off : ℕ) : ℕ := getLe (slice control off 8)

/-- A property of this level and type. -/
def CmsgIs (control : List UInt8) (level type off : ℕ) : Prop :=
  getLe (slice control (off + 8) 4) = level ∧ getLe (slice control (off + 12) 4) = type

/-- Where the next property is, or would be. -/
def cmsgAfter (control : List UInt8) (off : ℕ) : ℕ :=
  (off + nnCmsgAlign (cmsgLen control off)) % 2 ^ 64

/-- The test of `nn_cmsg_nxthdr_`: there is space for the header and, modulo 2^64, for the
property. -/
def CmsgFits (control : List UInt8) (off : ℕ) : Prop :=
  off + 16 ≤ control.length ∧ cmsgAfter control off ≤ control.length

instance (control : List UInt8) (level type off : ℕ) : Decidable (CmsgIs control level type off) :=
  inferInstanceAs (Decidable (_ ∧ _))

instance (control : List UInt8) (off : ℕ) : Decidable (CmsgFits control off) :=
  inferInstanceAs (Decidable (_ ∧ _))

/-- The first property. -/
def cmsgFirst (control : List UInt8) : Option ℕ := if CmsgFits control 0 then some 0 else none

/-- The property at which the loop looks next. -/
def cmsgStep (control : List UInt8) (level type off : ℕ) : Option ℕ :=
  if CmsgIs control level type off then none
  else if CmsgFits control (cmsgAfter control off) then some (cmsgAfter control off) else none

section

variable {control : List UInt8} {level type off n : ℕ} {start : Option ℕ}

theorem readBytes_of_le (h : off + n ≤ control.length) :
    readBytes control off n = .ok (slice control off n) := if_pos h

theorem readLe_of_le (h : off + n ≤ control.length) :
    readLe control off n = .ok (getLe (slice control off n)) := by
  rw [readLe, readBytes_of_le h]
  rfl

/-- The test, at an offset that is not behind the buffer. -/
theorem cmsgFits_test (hlen : control.length < 2 ^ 63) (hle : off ≤ control.length) :
    (if (off + 16) % 2 ^ 64 > control.length then pure none
      else do
        let len ← readLe control off 8
        if (off + nnCmsgAlign len) % 2 ^ 64 > control.length then pure none else pure (some off) :
      Except Fault (Option ℕ)) = .ok (if CmsgFits control off then some off else none) := by
  rw [Nat.mod_eq_of_lt (by omega : off + 16 < 2 ^ 64)]
  by_cases hroom : off + 16 > control.length
  · rw [if_pos hroom, if_neg fun h => not_lt.2 h.1 hroom]
    rfl
  · rw [if_neg hroom, readLe_of_le (by omega), ok_bind]
    by_cases hafter : cmsgAfter control off ≤ control.length
    · rw [if_pos (show CmsgFits control off from ⟨not_lt.1 hroom, hafter⟩)]
      exact if_neg (not_lt.2 hafter)
    · rw [if_neg (show ¬ CmsgFits control off from fun h => hafter h.2)]
      exact if_pos (not_le.1 hafter)

theorem not_cmsgFits_of_small (hsmall : control.length < 16) : ¬ CmsgFits control off := by
  rintro ⟨hfits, -⟩
  omega

theorem nnCmsgNxthdr_none (hlen : control.length < 2 ^ 63) :
    nnCmsgNxthdr control none = .ok (cmsgFirst control) := by
  rw [nnCmsgNxthdr, nnCmsgSpace_zero, cmsgFirst]
  by_cases hsmall : control.length < 16
  · rw [if_pos hsmall, if_neg (not_cmsgFits_of_small hsmall)]
  · rw [if_neg hsmall]
    exact cmsgFits_test hlen (Nat.zero_le _)

theorem nnCmsgNxthdr_some (hlen : control.length < 2 ^ 63) (h : CmsgFits control off) :
    nnCmsgNxthdr control (some off) =
      .ok (if CmsgFits control (cmsgAfter control off) then some (cmsgAfter control off)
        else none) := by
  have hoff := h.1
  rw [nnCmsgNxthdr, nnCmsgSpace_zero, if_neg (by omega)]
  simp only
  rw [readLe_of_le (by omega), ok_bind]
  exact cmsgFits_test hlen h.2

/-- Whatever the loop comes to has passed the test. -/
theorem cmsgFits_of_reached (h : Reached (cmsgStep control level type) (cmsgFirst control) off) :
    CmsgFits control off := by
  cases h with
  | start hstart =>
    rw [cmsgFirst] at hstart
    split_ifs at hstart with hfits
    cases hstart
    exact hfits
  | next _ hnext =>
    rw [cmsgStep] at hnext
    split_ifs at hnext with his hfits
    cases hnext
    exact hfits

/-- One step of the loop. -/
theorem cmsgSearch_succ (hlen : control.length < 2 ^ 63) (h : CmsgFits control off) :
    cmsgSearch control level type (n + 1) (some off) =
      if CmsgIs control level type off then .ok ([off], some off)
      else do
        let r ← cmsgSearch control level type n (cmsgStep control level type off)
        return (off :: r.1, r.2) := by
  have hoff := h.1
  rw [cmsgSearch, readLe_of_le (by omega), ok_bind, readLe_of_le (by omega), ok_bind]
  by_cases his : CmsgIs control level type off
  · rw [if_pos his]
    exact if_pos his
  · rw [if_neg his, cmsgStep, if_neg his]
    refine (if_neg his).trans ?_
    rw [nnCmsgNxthdr_some hlen h, ok_bind]

theorem cmsgFits_of_step {next : ℕ} (h : cmsgStep control level type off = some next) :
    CmsgFits control next := by
  rw [cmsgStep] at h
  split_ifs at h with his hfits
  cases h
  exact hfits

/-- A loop that has enough steps follows the walk, and stops at a property of the level and the
type. -/
theorem cmsgSearch_of_visits (hlen : control.length < 2 ^ 63)
    (hstart : ∀ off ∈ start, CmsgFits control off) {l : List ℕ}
    (h : visits (cmsgStep control level type) n start = some l) :
    cmsgSearch control level type n start =
      .ok (l, l.find? fun off => CmsgIs control level type off) := by
  induction n generalizing start l with
  | zero => cases h
  | succ n ih =>
    cases start with
    | none =>
      cases h
      rfl
    | some off =>
      obtain ⟨l', hl', rfl⟩ := visits_some_iff.1 h
      rw [cmsgSearch_succ hlen (hstart off rfl)]
      by_cases his : CmsgIs control level type off
      · rw [cmsgStep, if_pos his] at hl'
        rw [if_pos his, List.find?_cons_of_pos (by simpa using his)]
        cases n with
        | zero => cases hl'
        | succ n =>
          cases hl'
          rfl
      · rw [if_neg his, ih (fun x hx => cmsgFits_of_step hx) hl',
          List.find?_cons_of_neg (by simpa using his)]
        rfl

/-- A loop either takes more steps than it has, or it has followed the walk. -/
theorem cmsgSearch_cases (hlen : control.length < 2 ^ 63)
    (hstart : ∀ off ∈ start, CmsgFits control off) :
    cmsgSearch control level type n start = .error .diverged ∨
      ∃ l, cmsgSearch control level type n start =
        .ok (l, l.find? fun off => CmsgIs control level type off) ∧
        visits (cmsgStep control level type) (n + 1) start = some l := by
  induction n generalizing start with
  | zero => exact Or.inl rfl
  | succ n ih =>
    cases start with
    | none => exact Or.inr ⟨[], rfl, rfl⟩
    | some off =>
      rw [cmsgSearch_succ hlen (hstart off rfl)]
      by_cases his : CmsgIs control level type off
      · refine Or.inr ⟨[off], ?_, ?_⟩
        · rw [if_pos his, List.find?_cons_of_pos (by simpa using his)]
        · refine visits_some_iff.2 ⟨[], ?_, rfl⟩
          rw [cmsgStep, if_pos his]
          rfl
      · rw [if_neg his]
        have hnext : ∀ x ∈ cmsgStep control level type off, CmsgFits control x := fun x hx =>
          cmsgFits_of_step hx
        rcases ih hnext with heq | ⟨l, heq, hvisits⟩
        · exact Or.inl (by rw [heq]; rfl)
        · refine Or.inr ⟨off :: l, ?_, visits_some_iff.2 ⟨l, hvisits, rfl⟩⟩
          rw [heq, List.find?_cons_of_neg (by simpa using his)]
          rfl

theorem cmsgFits_of_first (h : off ∈ cmsgFirst control) : CmsgFits control off := by
  rw [cmsgFirst] at h
  split_ifs at h with hfits
  · cases h
    exact hfits
  · cases h

/-- A loop that does something with the property at which it stops. -/
theorem cmsgSearch_bind {β : Type} {find : ℕ → Option ℕ → Except Fault β}
    {found : Option ℕ → Except Fault β} (hzero : ∀ start, find 0 start = .error .diverged)
    (hnone : ∀ n, find (n + 1) none = found none) (hsome : ∀ n off, find (n + 1) (some off) = do
      let cmsgLevel ← readLe control (off + 8) 4
      let cmsgType ← readLe control (off + 12) 4
      if cmsgLevel = level ∧ cmsgType = type then found (some off)
      else find n (← nnCmsgNxthdr control (some off))) :
    find n start = cmsgSearch control level type n start >>= fun r => found r.2 := by
  induction n generalizing start with
  | zero => exact hzero start
  | succ n ih =>
    cases start with
    | none => exact hnone n
    | some off =>
      rw [hsome, cmsgSearch]
      cases readLe control (off + 8) 4 with
      | error e => rfl
      | ok cmsgLevel =>
        cases readLe control (off + 12) 4 with
        | error e => rfl
        | ok cmsgType =>
          simp only [ok_bind]
          by_cases his : cmsgLevel = level ∧ cmsgType = type
          · rw [if_pos his, if_pos his]
            rfl
          · rw [if_neg his, if_neg his]
            cases nnCmsgNxthdr control (some off) with
            | error e => rfl
            | ok next =>
              simp only [ok_bind]
              rw [ih]
              cases cmsgSearch control level type n next with
              | error e => rfl
              | ok r => rfl

/-- The search of `nn_sendmsg` is the loop for SP_HDR. -/
theorem findSphdr_eq : findSphdr control n start =
    cmsgSearch control 1 1 n start >>= fun r => sphdrAt (fun _ => true) control r.2 := by
  refine cmsgSearch_bind (fun _ => rfl) (fun _ => rfl) fun n off => ?_
  rw [findSphdr]
  simp only [sphdrAt, or_true, nnAssert_of, ok_bind]

/-! ### Which searches end -/

/-- The loop ends, and looks at properties inside the buffer, one behind the other. -/
def SearchEnds (control : List UInt8) (level type : ℕ) : Prop :=
  ∃ n visited r, (nnCmsgNxthdr control none >>= cmsgSearch control level type n) =
    .ok (visited, r) ∧ visited.Pairwise (· < ·) ∧ ∀ off ∈ visited, off + 16 ≤ control.length

/-- Every property that the loop passes over, and behind which it goes on, is at least one byte long
and not longer than the buffer. -/
def ProperChain (control : List UInt8) (level type : ℕ) : Prop :=
  ∀ off, Reached (cmsgStep control level type) (cmsgFirst control) off →
    ¬ CmsgIs control level type off →
    CmsgFits control (cmsgAfter control off) → 1 ≤ cmsgLen control off ∧
      cmsgLen control off ≤ control.length

/-- The next property stands behind this one exactly if the length is proper. -/
theorem lt_cmsgAfter_iff (hlen : control.length < 2 ^ 63) (h : CmsgFits control off) :
    off < cmsgAfter control off ↔ 1 ≤ cmsgLen control off ∧
      cmsgLen control off ≤ control.length := by
  obtain ⟨hoff, hafter⟩ := h
  have hlt : cmsgLen control off < 256 ^ 8 := by
    refine (getLe_lt _).trans_le (Nat.pow_le_pow_right (by norm_num) (length_slice_le ..))
  unfold cmsgAfter nnCmsgAlign at *
  generalize cmsgLen control off = len at *
  omega

theorem searchEnds_iff (hlen : control.length < 2 ^ 63) :
    SearchEnds control level type ↔ ProperChain control level type := by
  have hfirst : ∀ off ∈ cmsgFirst control, CmsgFits control off := fun off hoff =>
    cmsgFits_of_first hoff
  have hbound : ∀ off, Reached (cmsgStep control level type) (cmsgFirst control) off →
      off < control.length := by
    intro off hr
    have := (cmsgFits_of_reached hr).1
    omega
  have hwalk : SearchEnds control level type ↔
      ∃ n l, visits (cmsgStep control level type) n (cmsgFirst control) = some l ∧
        l.Pairwise (· < ·) := by
    constructor
    · rintro ⟨n, visited, r, heq, hvisited, -⟩
      rw [nnCmsgNxthdr_none hlen, ok_bind] at heq
      rcases @cmsgSearch_cases control level type n _ hlen hfirst with hdiv | ⟨l, heq', hvisits⟩
      · cases hdiv.symm.trans heq
      · cases heq'.symm.trans heq
        exact ⟨n + 1, visited, hvisits, hvisited⟩
    · rintro ⟨n, l, hvisits, hl⟩
      have heq := cmsgSearch_of_visits hlen hfirst hvisits
      have hinside : ∀ off ∈ l, off + 16 ≤ control.length :=
        fun off hoff => (cmsgFits_of_reached (reached_of_mem hvisits hoff)).1
      refine ⟨n, l, l.find? fun off => CmsgIs control level type off, ?_, hl, hinside⟩
      rw [nnCmsgNxthdr_none hlen, ok_bind, heq]
  rw [hwalk, exists_increasing_iff hbound]
  constructor
  · intro hforward off hr his hfits
    rw [← lt_cmsgAfter_iff hlen (cmsgFits_of_reached hr)]
    refine hforward off _ hr ?_
    rw [cmsgStep, if_neg his, if_pos hfits]
  · intro hproper off next hr hnext
    rw [cmsgStep] at hnext
    split_ifs at hnext with his hfits
    cases hnext
    exact (lt_cmsgAfter_iff hlen (cmsgFits_of_reached hr)).2 (hproper off hr his hfits)

/-- A first property that leads to itself is never left. -/
theorem cmsgSearch_diverges (hlen : control.length < 2 ^ 63) (hfits : CmsgFits control 0)
    (hstay : cmsgStep control level type 0 = some 0) (n : ℕ) :
    (nnCmsgNxthdr control none >>= cmsgSearch control level type n) = .error .diverged := by
  have hfirst : ∀ off ∈ cmsgFirst control, CmsgFits control off := fun off hoff =>
    cmsgFits_of_first hoff
  rw [nnCmsgNxthdr_none hlen, ok_bind]
  rcases @cmsgSearch_cases control level type n _ hlen hfirst with heq | ⟨l, -, hvisits⟩
  · exact heq
  · rw [cmsgFirst, if_pos hfits, visits_eq_none_of_stays hstay] at hvisits
    cases hvisits

/-! ### What is read -/

variable {alloc : ℕ → Bool}

/-- The search reads no byte outside the buffer, and the header is not longer than the data of its
property. -/
def ReadsInside (alloc : ℕ → Bool) (control : List UInt8) : Prop :=
  (∀ n, searchSphdr alloc control n ≠ .error .outOfBounds) ∧
    ∀ n header, searchSphdr alloc control n = .ok (some header) →
      ∃ off, Reached (cmsgStep control 1 1) (cmsgFirst control) off ∧ CmsgIs control 1 1 off ∧
        header.length ≤ cmsgLen control off - 16

/-- The size of the SP header in a property. -/
def cmsgSpsz (control : List UInt8) (off : ℕ) : ℕ := getLe (slice control (off + 16) 8)

/-- A SP_HDR property that can be copied: its length is proper, or its data have a size in front
that the data are not shorter than, or that is not copied. -/
def ProperSphdr (alloc : ℕ → Bool) (control : List UInt8) (off : ℕ) : Prop :=
  16 ≤ cmsgLen control off ∧ cmsgLen control off ≤ control.length ∨
    off + 24 ≤ control.length ∧
      ((cmsgLen control off + 2 ^ 64 - 16) % 2 ^ 64 - 8 < cmsgSpsz control off ∨
        ¬ (cmsgSpsz control off < nnChunkrefMax ∨ alloc (cmsgSpsz control off)) ∨
        off + 24 + cmsgSpsz control off ≤ control.length ∧
          cmsgSpsz control off ≤ cmsgLen control off - 16)

theorem cmsgLen_lt : cmsgLen control off < 2 ^ 64 := by
  refine (getLe_lt _).trans_le
    ((Nat.pow_le_pow_right (by norm_num) (length_slice_le control off 8)).trans ?_)
  norm_num

/-- The five ways through the copy of a header. -/
theorem sphdrAt_cases (hoff : off + 16 ≤ control.length) :
    ((cmsgLen control off + 2 ^ 64 - 16) % 2 ^ 64 ≤ 8 ∧
      sphdrAt alloc control (some off) = .ok none) ∨
    8 < (cmsgLen control off + 2 ^ 64 - 16) % 2 ^ 64 ∧
      (control.length < off + 24 ∧ sphdrAt alloc control (some off) = .error .outOfBounds ∨
        off + 24 ≤ control.length ∧
          (((cmsgLen control off + 2 ^ 64 - 16) % 2 ^ 64 - 8 < cmsgSpsz control off ∧
              sphdrAt alloc control (some off) = .ok none) ∨
            cmsgSpsz control off ≤ (cmsgLen control off + 2 ^ 64 - 16) % 2 ^ 64 - 8 ∧
              (¬ (cmsgSpsz control off < nnChunkrefMax ∨ alloc (cmsgSpsz control off)) ∧
                  sphdrAt alloc control (some off) = .error .assertFailed ∨
                (cmsgSpsz control off < nnChunkrefMax ∨ alloc (cmsgSpsz control off)) ∧
                  sphdrAt alloc control (some off) =
                    (readBytes control (off + 24) (cmsgSpsz control off) >>=
                      fun header => .ok (some header))))) := by
  have hlen8 : readLe control off 8 = .ok (cmsgLen control off) := readLe_of_le (by omega)
  rw [sphdrAt, hlen8, ok_bind, nnCmsgSpace_zero]
  simp only
  generalize hclen : (cmsgLen control off + 2 ^ 64 - 16) % 2 ^ 64 = clen
  by_cases h8 : clen > 8
  · refine Or.inr ⟨h8, ?_⟩
    rw [if_pos h8]
    by_cases h24 : off + 24 ≤ control.length
    · refine Or.inr ⟨h24, ?_⟩
      have hspsz : readLe control (off + 16) 8 = .ok (cmsgSpsz control off) :=
        readLe_of_le (by omega)
      rw [hspsz, ok_bind]
      by_cases hle : cmsgSpsz control off ≤ clen - 8
      · refine Or.inr ⟨hle, ?_⟩
        rw [if_pos hle]
        by_cases halloc : cmsgSpsz control off < nnChunkrefMax ∨ alloc (cmsgSpsz control off)
        · refine Or.inr ⟨halloc, ?_⟩
          rw [nnAssert_of halloc, ok_bind]
          rfl
        · refine Or.inl ⟨halloc, ?_⟩
          rw [nnAssert_of_not halloc]
          rfl
      · refine Or.inl ⟨not_le.1 hle, ?_⟩
        rw [if_neg hle]
        rfl
    · refine Or.inl ⟨not_le.1 h24, ?_⟩
      rw [readLe, readBytes, if_neg (by omega)]
      rfl
  · refine Or.inl ⟨not_lt.1 h8, ?_⟩
    rw [if_neg h8]
    rfl

/-- The copy stays inside the buffer and the property exactly if the property is proper. -/
theorem sphdrAt_inside_iff (hlen : control.length < 2 ^ 63) (h : CmsgFits control off) :
    (sphdrAt alloc control (some off) ≠ .error .outOfBounds ∧
      ∀ header, sphdrAt alloc control (some off) = .ok (some header) →
        header.length ≤ cmsgLen control off - 16) ↔ ProperSphdr alloc control off := by
  obtain ⟨hoff, hafter⟩ := h
  have hlt := @cmsgLen_lt control off
  have hend : cmsgLen control off ≤ control.length →
      off + cmsgLen control off ≤ control.length := by
    intro hle
    unfold cmsgAfter nnCmsgAlign at hafter
    omega
  have hsmall : cmsgLen control off ≤ 24 → 16 ≤ cmsgLen control off →
      cmsgLen control off ≤ control.length := by
    intro hle hge
    unfold cmsgAfter nnCmsgAlign at hafter
    omega
  clear hafter
  unfold ProperSphdr
  rcases @sphdrAt_cases control off alloc hoff with ⟨h8, heq⟩ | ⟨h8, ⟨h24, heq⟩ | ⟨h24, hcopy⟩⟩
  · rw [heq]
    refine iff_of_true ⟨nofun, nofun⟩ (Or.inl ?_)
    omega
  · rw [heq]
    refine iff_of_false (fun h => h.1 rfl) ?_
    omega
  · rcases hcopy with ⟨hlarge, heq⟩ | ⟨hle, ⟨halloc, heq⟩ | ⟨halloc, heq⟩⟩
    · rw [heq]
      exact iff_of_true ⟨nofun, nofun⟩ (Or.inr ⟨h24, Or.inl hlarge⟩)
    · rw [heq]
      exact iff_of_true ⟨nofun, nofun⟩ (Or.inr ⟨h24, Or.inr (Or.inl halloc)⟩)
    · by_cases hin : off + 24 + cmsgSpsz control off ≤ control.length
      · rw [heq, readBytes_of_le hin, ok_bind]
        have hslice := length_slice hin
        constructor
        · rintro ⟨-, hheader⟩
          have := hheader _ rfl
          exact Or.inr ⟨h24, Or.inr (Or.inr ⟨hin, hslice ▸ this⟩)⟩
        · intro hproper
          refine ⟨nofun, fun header hheader => ?_⟩
          cases hheader
          rw [hslice]
          rcases hproper with hproper | ⟨-, hlarge | hnot | hdata⟩
          · omega
          · omega
          · exact absurd halloc hnot
          · exact hdata.2
      · rw [heq, readBytes, if_neg hin]
        refine iff_of_false (fun h => h.1 rfl) ?_
        rintro (hproper | ⟨-, hlarge | hnot | hdata⟩)
        · omega
        · omega
        · exact hnot halloc
        · exact hin hdata.1

theorem cmsgStep_of_is (h : CmsgIs control level type off) :
    cmsgStep control level type off = none := if_pos h

/-- Where the loop stops, it has come to a property of the level and type. -/
theorem reached_of_find? {l : List ℕ} (hl : visits (cmsgStep control level type) n start = some l)
    (hfind : (l.find? fun off => CmsgIs control level type off) = some off) :
    Reached (cmsgStep control level type) start off ∧ CmsgIs control level type off :=
  ⟨reached_of_mem hl (List.mem_of_find?_eq_some hfind), by simpa using List.find?_some hfind⟩

/-- It stops at the only such property that it can come to. -/
theorem find?_of_reached {l : List ℕ} (hl : visits (cmsgStep control level type) n start = some l)
    (hr : Reached (cmsgStep control level type) start off) (his : CmsgIs control level type off) :
    (l.find? fun off => CmsgIs control level type off) = some off := by
  cases hfind : l.find? fun off => CmsgIs control level type off with
  | none =>
    exact absurd (List.find?_eq_none.1 hfind off (mem_of_reached hl hr)) (by simpa using his)
  | some off' =>
    obtain ⟨hr', his'⟩ := reached_of_find? hl hfind
    rw [hr'.eq_of_ends hr (cmsgStep_of_is his') (cmsgStep_of_is his)]

/-- The search stays inside the buffer exactly if the SP_HDR property that it finds, if there is
one, is proper. -/
theorem readsInside_iff (hlen : control.length < 2 ^ 63) :
    ReadsInside alloc control ↔
      ∀ off, Reached (cmsgStep control 1 1) (cmsgFirst control) off → CmsgIs control 1 1 off →
        ProperSphdr alloc control off := by
  have hfirst : ∀ off ∈ cmsgFirst control, CmsgFits control off := fun off hoff =>
    cmsgFits_of_first hoff
  have hsearch : ∀ n, searchSphdr alloc control n =
      cmsgSearch control 1 1 n (cmsgFirst control) >>= fun r => sphdrAt alloc control r.2 := by
    intro n
    rw [searchSphdr, nnCmsgNxthdr_none hlen]
    rfl
  constructor
  · rintro ⟨hinside, hlength⟩ off hr his
    obtain ⟨n, l, hl⟩ := exists_visits_of_end hr (cmsgStep_of_is his)
    have hfound := find?_of_reached hl hr his
    have heq : searchSphdr alloc control n = sphdrAt alloc control (some off) := by
      rw [hsearch, cmsgSearch_of_visits hlen hfirst hl, ok_bind, hfound]
    rw [← sphdrAt_inside_iff hlen (cmsgFits_of_reached hr), ← heq]
    refine ⟨hinside n, fun header hheader => ?_⟩
    obtain ⟨off', hr', his', hle⟩ := hlength n header hheader
    rwa [hr'.eq_of_ends hr (cmsgStep_of_is his') (cmsgStep_of_is his)] at hle
  · intro hproper
    have hall : ∀ n, searchSphdr alloc control n ≠ .error .outOfBounds ∧
        ∀ header, searchSphdr alloc control n = .ok (some header) →
          ∃ off, Reached (cmsgStep control 1 1) (cmsgFirst control) off ∧ CmsgIs control 1 1 off ∧
            header.length ≤ cmsgLen control off - 16 := by
      intro n
      rw [hsearch]
      rcases @cmsgSearch_cases control 1 1 n _ hlen hfirst with heq | ⟨l, heq, hl⟩
      · rw [heq]
        exact ⟨nofun, nofun⟩
      · rw [heq, ok_bind]
        cases hfind : l.find? fun off => CmsgIs control 1 1 off with
        | none => exact ⟨nofun, nofun⟩
        | some off =>
          obtain ⟨hr, his⟩ := reached_of_find? hl hfind
          obtain ⟨hinside, hlength⟩ :=
            (sphdrAt_inside_iff hlen (cmsgFits_of_reached hr)).2 (hproper off hr his)
          exact ⟨hinside, fun header hheader => ⟨off, hr, his, hlength header hheader⟩⟩
    exact ⟨fun n => (hall n).1, fun n => (hall n).2⟩

end

/-- A SP_HDR property of eight bytes, less than its own header, with the size 100 behind it, in a
buffer of 32 bytes. -/
def shortSphdr : List UInt8 :=
  putLe 8 8 ++ putLe 4 1 ++ putLe 4 1 ++ putLe 8 100 ++ List.replicate 8 0

/-- The 100 bytes are read from behind the buffer. -/
theorem shortSphdr_reads_outside : ¬ ReadsInside (fun _ => true) shortSphdr := by
  intro h
  exact h.1 2 (by decide)

/-- A property of another level, with two bytes, and the SP_HDR property of a SP header of one
byte. -/
def twoProperties : List UInt8 :=
  putLe 8 18 ++ putLe 4 5 ++ putLe 4 7 ++ List.replicate 8 9 ++ nnRecvmsgControl
    ⟨[7], [], []⟩ fun _ => 0

/-- Behind another property the SP header is found, and everything that is read is inside. -/
theorem readsInside_iff_two : ReadsInside (fun _ => true) twoProperties := by
  refine (readsInside_iff (by decide)).2 fun off hr _ => ?_
  have hvisits : visits (cmsgStep twoProperties 1 1) 3 (cmsgFirst twoProperties) =
      some [0, 24] := by decide
  have hmem : off ∈ [0, 24] := mem_of_reached hvisits hr
  have hproper : ∀ off ∈ [0, 24], 16 ≤ cmsgLen twoProperties off ∧
      cmsgLen twoProperties off ≤ twoProperties.length := by
    decide
  exact Or.inl (hproper off hmem)

end NanoSocket

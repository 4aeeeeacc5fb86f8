import Mathlib.Data.List.TakeWhile
import NanoSocket.Ws.Base64

/-!
# Decoding any bytes (`transports/utils/base64.c`)

`nn_base64_decode` for all inputs and all lengths.  The characters are signed and the counters are
32 bits wide, while the lengths are not: `nnBase64Decode_iff` says for which inputs the longest
prefix of characters and white space is decoded, and no table and no buffer is left.
-/

namespace NanoSocket.Ws.Base64Decode

/-- `DECODEMAP`. -/
def decodemapAll : Vector UInt8 256 :=
  Base64Buf.decodemapTable ++ Vector.replicate 128 (0xFF : UInt8)

/-- `DECODEMAP [i]`. -/
def decodemap (i : ℤ) : Except Fault UInt8 :=
  if h : 0 ≤ i ∧ i.toNat < 256 then .ok (decodemapAll.get ⟨i.toNat, h.2⟩) else .error .outOfBounds

/-- `in [i]`. -/
def charAt (text : List UInt8) (i : ℕ) : Except Fault UInt8 :=
  if h : i < text.length then .ok text[i] else .error .outOfBounds

/-- `out [i] = b`. -/
def storeAt (out : List UInt8) (i : ℕ) (b : UInt8) : Except Fault (List UInt8) :=
  if i < out.length then .ok (out.set i b) else .error .outOfBounds

/-- The variables of `nn_base64_decode`, and the buffer of `out_len` bytes; `rem` is at most 13. -/
structure Decoder where
  ii : UInt32
  io : UInt32
  rem : ℕ
  v : UInt32
  out : List UInt8
  deriving DecidableEq, Repr

/-- How a turn of the loop ends: with the next one, with the end of the loop, or with
`return -ENOBUFS`. -/
inductive Turn
  | next (self : Decoder)
  | leave (self : Decoder)
  | noBufs (self : Decoder)
  deriving DecidableEq, Repr

namespace Decoder

/-- `if (rem >= 8)`, in the loop and behind it. -/
def emit (self : Decoder) : Except Fault Turn :=
  if 8 ≤ self.rem then
    if self.out.length ≤ self.io.toNat then .ok (.noBufs { self with rem := self.rem - 8 })
    else do
      let out ← storeAt self.out self.io.toNat
        ((self.v >>> UInt32.ofNat (self.rem - 8)) &&& 255).toUInt8
      return .next { self with rem := self.rem - 8, io := self.io + 1, out }
  else .ok (.next self)

/-- `ii++`, when the loop goes on. -/
def advance : Turn → Turn
  | .next self => .next { self with ii := self.ii + 1 }
  | .leave self => .leave self
  | .noBufs self => .noBufs self

/-- A turn of the loop. -/
def turn (text : List UInt8) (self : Decoder) : Except Fault Turn :=
  if text.length ≤ self.ii.toNat then .ok (.leave self)
  else do
    let c ← charAt text self.ii.toNat
    if Base64Buf.isspace c then return advance (.next self)
    else if c = 0x3D then return .leave self
    else
      -- `char` is signed
      let ch ← decodemap c.toInt8.toInt
      if ch = 0xFF then return .leave self
      else
        let t ← emit { self with v := self.v <<< 6 ||| ch.toUInt32, rem := self.rem + 6 }
        return advance t

/-- The loop and what is behind it: what is returned, nothing for `-ENOBUFS`, and the buffer. -/
def run (text : List UInt8) : ℕ → Decoder → Except Fault (Option Int32 × List UInt8)
  | 0, _ => .error .diverged
  | fuel + 1, self => do
    match ← turn text self with
    | .next self => run text fuel self
    | .noBufs self => return (none, self.out)
    | .leave self =>
      match ← emit self with
      | .noBufs self => return (none, self.out)
      | .next self | .leave self => return (some self.io.toInt32, self.out)

end Decoder

/-- `nn_base64_decode`. -/
def nnBase64Decode (fuel : ℕ) (text out : List UInt8) : Except Fault (Option Int32 × List UInt8) :=
  Decoder.run text fuel { ii := 0, io := 0, rem := 0, v := 0, out }

/-! ### What is decoded -/

/-- White space and the characters of the alphabet. -/
def accepted (c : UInt8) : Bool := Base64Buf.isspace c || (Rfc4648.value c).isSome

/-- The longest prefix made of them. -/
def accepting (text : List UInt8) : List UInt8 := text.takeWhile accepted

/-- The bytes that the characters stand for. -/
def decoded (text : List UInt8) : List UInt8 := Rfc4648.octets (text.filterMap Rfc4648.value)

/-- The call returns: the bytes of the longest prefix are at the front of the buffer and their
number is returned, or there is no room for them. -/
def Decodes (text out : List UInt8) : Prop :=
  ∃ fuel ret out', nnBase64Decode fuel text out = .ok (ret, out') ∧
    if (decoded (accepting text)).length ≤ out.length then
      (∃ n, ret = some n ∧ n.toInt = (decoded (accepting text)).length) ∧
        out' = decoded (accepting text) ++ out.drop (decoded (accepting text)).length
    else ret = none

/-! ### One character -/

theorem isspace_lt {c : UInt8} (h : Base64Buf.isspace c = true) : c < 0x80 := by
  simp only [Base64Buf.isspace, Bool.or_eq_true, Bool.and_eq_true, decide_eq_true_eq,
    UInt8.le_iff_toNat_le] at h
  rw [UInt8.lt_iff_toNat_lt]
  rcases h with rfl | ⟨-, hle⟩
  · decide
  · exact lt_of_le_of_lt hle (by decide)

theorem toInt_toInt8 (c : UInt8) :
    c.toInt8.toInt = if c < 0x80 then (c.toNat : ℤ) else c.toNat - 256 := by
  have hcond : c.toInt8.toInt = _ := BitVec.toInt_eq_toNat_cond c.toBitVec
  rw [hcond, UInt8.toNat_toBitVec]
  refine if_congr ?_ rfl rfl
  rw [UInt8.lt_iff_toNat_lt]
  change _ ↔ c.toNat < 128
  omega

/-- The table has the entries of the one for the characters of ASCII in front. -/
theorem decodemap_of_lt {c : UInt8} (h : c < 0x80) :
    decodemap c.toInt8.toInt = Base64Buf.decodemap c := by
  have hlt : c.toNat < 128 := h
  rw [toInt_toInt8, if_pos h, decodemap, Base64Buf.decodemap,
    dif_pos ⟨by omega, by omega⟩, dif_pos hlt]
  simp only [Int.toNat_natCast]
  exact congrArg _ (Vector.getElem_append_left hlt)

/-- The index of the table is negative. -/
theorem decodemap_of_ge {c : UInt8} (h : 0x80 ≤ c) :
    decodemap c.toInt8.toInt = .error .outOfBounds := by
  refine dif_neg fun hi => ?_
  have hlt := c.toNat_lt
  rw [toInt_toInt8, if_neg (UInt8.not_lt.2 h)] at hi
  omega

theorem of_value {c : UInt8} {n : ℕ} (h : Rfc4648.value c = some n) :
    Base64Buf.isspace c = false ∧ c ≠ 0x3D ∧
    decodemap c.toInt8.toInt = .ok (UInt8.ofNat n) ∧ UInt8.ofNat n ≠ 0xFF := by
  obtain rfl := Rfc4648.char_of_value h
  obtain ⟨hspace, hpad, hmap, hff⟩ := decode_char (Rfc4648.value_lt h)
  refine ⟨hspace, hpad, ?_, hff⟩
  by_cases hlt : (Rfc4648.char n).toNat < 128
  · rw [decodemap_of_lt hlt, hmap]
  · rw [Base64Buf.decodemap, dif_neg hlt] at hmap
    cases hmap

theorem value_of_isspace {c : UInt8} (h : Base64Buf.isspace c = true) : Rfc4648.value c = none := by
  cases hvalue : Rfc4648.value c with
  | none => rfl
  | some n =>
    rw [(of_value hvalue).1] at h
    cases h

/-- An entry of the table is the number of its character. -/
theorem table_entry : ∀ i : Fin 128, i.val ≠ 0x3D → Base64Buf.decodemapTable.get i ≠ 0xFF →
    (Base64Buf.decodemapTable.get i).toNat < 64 ∧
      i.val = Rfc4648.code (Base64Buf.decodemapTable.get i).toNat := by
  decide

theorem of_not_accepted {c : UInt8} (h : accepted c = false) (hlt : c < 0x80) :
    Base64Buf.isspace c = false ∧ (c = 0x3D ∨ decodemap c.toInt8.toInt = .ok 0xFF) := by
  rw [accepted, Bool.or_eq_false_iff] at h
  refine ⟨h.1, ?_⟩
  have hlt' : c.toNat < 128 := hlt
  by_contra hnot
  rw [not_or, decodemap_of_lt hlt, Base64Buf.decodemap, dif_pos hlt'] at hnot
  obtain ⟨hn, hcode⟩ := table_entry ⟨c.toNat, hlt'⟩ (fun heq => hnot.1 (UInt8.toNat_inj.1 heq))
    fun heq => hnot.2 (congrArg _ heq)
  rw [← Rfc4648.toNat_char hn] at hcode
  rw [UInt8.toNat_inj.1 hcode, Rfc4648.value_char hn] at h
  cases h.2

theorem of_ge {c : UInt8} (h : 0x80 ≤ c) :
    accepted c = false ∧ Base64Buf.isspace c = false ∧ c ≠ 0x3D := by
  have hspace : Base64Buf.isspace c = false :=
    Bool.eq_false_iff.2 fun hspace => UInt8.not_lt.2 h (isspace_lt hspace)
  refine ⟨?_, hspace, ?_⟩
  · rw [accepted, hspace, Bool.false_or]
    cases hvalue : Rfc4648.value c with
    | none => rfl
    | some n =>
      have hmap := (of_value hvalue).2.2.1
      rw [decodemap_of_ge h] at hmap
      cases hmap
  · rintro rfl
    exact absurd h (by decide)

theorem charAt_of_getElem? {text : List UInt8} {i : ℕ} {c : UInt8} (h : text[i]? = some c) :
    charAt text i = .ok c := by
  obtain ⟨hi, rfl⟩ := List.getElem?_eq_some_iff.1 h
  exact dif_pos hi

namespace Decoder

section Turn

variable {text : List UInt8} {self : Decoder} {c : UInt8}

theorem turn_of_space (h : text[self.ii.toNat]? = some c) (hc : Base64Buf.isspace c = true) :
    turn text self = .ok (.next { self with ii := self.ii + 1 }) := by
  have hi := List.getElem?_eq_some_iff.1 h
  rw [turn, if_neg (Nat.not_le.2 hi.1), charAt_of_getElem? h, ok_bind, if_pos hc]
  rfl

theorem turn_of_value (h : text[self.ii.toNat]? = some c) {n : ℕ} (hc : Rfc4648.value c = some n) :
    turn text self =
      (emit { self with v := pushSix self.v n, rem := self.rem + 6 }).map advance := by
  have hi := List.getElem?_eq_some_iff.1 h
  obtain ⟨hspace, hpad, hmap, hff⟩ := of_value hc
  rw [turn, if_neg (Nat.not_le.2 hi.1), charAt_of_getElem? h, ok_bind, hspace,
    if_neg Bool.false_ne_true, if_neg hpad, hmap, ok_bind, if_neg hff]
  rfl

theorem turn_of_not_accepted (h : text[self.ii.toNat]? = some c) (hc : accepted c = false)
    (hlt : c < 0x80) :
    turn text self = .ok (.leave self) := by
  have hi := List.getElem?_eq_some_iff.1 h
  obtain ⟨hspace, hstop⟩ := of_not_accepted hc hlt
  rw [turn, if_neg (Nat.not_le.2 hi.1), charAt_of_getElem? h, ok_bind, hspace,
    if_neg Bool.false_ne_true]
  by_cases hpad : c = 0x3D
  · rw [if_pos hpad]
    rfl
  · rw [if_neg hpad, hstop.resolve_left hpad, ok_bind, if_pos rfl]
    rfl

theorem turn_of_ge (h : text[self.ii.toNat]? = some c) (hc : 0x80 ≤ c) :
    turn text self = .error .outOfBounds := by
  have hi := List.getElem?_eq_some_iff.1 h
  obtain ⟨-, hspace, hpad⟩ := of_ge hc
  rw [turn, if_neg (Nat.not_le.2 hi.1), charAt_of_getElem? h, ok_bind, hspace,
    if_neg Bool.false_ne_true, if_neg hpad, decodemap_of_ge hc]
  rfl

theorem turn_of_end (h : text.length ≤ self.ii.toNat) : turn text self = .ok (.leave self) :=
  if_pos h

end Turn

/-! ### The characters before a place -/

/-- The state after some characters, the first ones of the text. -/
structure At (s out : List UInt8) (d : Decoder) : Prop where
  ii : d.ii = UInt32.ofNat s.length
  io : d.io.toNat = (decoded s).length
  rem : d.rem = 6 * (s.filterMap Rfc4648.value).length % 8
  v : d.v.toNat % 2 ^ d.rem = Rfc4648.leftover (s.filterMap Rfc4648.value)
  buf : d.out = decoded s ++ out.drop (decoded s).length
  room : (decoded s).length ≤ out.length

theorem ofNat_succ (n : ℕ) : UInt32.ofNat n + 1 = UInt32.ofNat (n + 1) := by
  rw [← UInt32.toNat_inj]
  simp [UInt32.toNat_add]

variable {s out : List UInt8} {self : Decoder} {c : UInt8} {n : ℕ}

theorem At.length_out (h : At s out self) : self.out.length = out.length := by
  have hroom := h.room
  rw [h.buf, List.length_append, List.length_drop]
  omega

theorem filterMap_concat (hc : Rfc4648.value c = some n) :
    (s ++ [c]).filterMap Rfc4648.value = s.filterMap Rfc4648.value ++ [n] := by
  rw [List.filterMap_append]
  simp [hc]

theorem At.space (h : At s out self) (hc : Base64Buf.isspace c = true) :
    At (s ++ [c]) out { self with ii := self.ii + 1 } := by
  have hsame : (s ++ [c]).filterMap Rfc4648.value = s.filterMap Rfc4648.value := by
    rw [List.filterMap_append]
    simp [value_of_isspace hc]
  have hdec : decoded (s ++ [c]) = decoded s := congrArg Rfc4648.octets hsame
  refine ⟨?_, ?_, ?_, ?_, ?_, ?_⟩
  · simp only [h.ii, ofNat_succ, List.length_append, List.length_singleton]
  · rw [hdec]
    exact h.io
  · rw [hsame]
    exact h.rem
  · rw [hsame]
    exact h.v
  · rw [hdec]
    exact h.buf
  · rw [hdec]
    exact h.room

/-- The bits that are kept do not depend on those that were made into bytes. -/
theorem pushSix_mod (v : UInt32) (hn : n < 64) {r r' : ℕ}
    (hr : r = 0 ∧ r' = 6 ∨ r = r' + 2 ∧ r' ≤ 4) :
    (pushSix v n).toNat % 2 ^ r' = (v.toNat % 2 ^ r * 64 + n) % 2 ^ r' := by
  rw [toNat_pushSix v hn]
  rcases hr with ⟨rfl, rfl⟩ | ⟨rfl, hle⟩
  · omega
  · interval_cases r' <;> omega

/-- The byte that is stored. -/
theorem byte_eq (v : UInt32) (hn : n < 64) {r : ℕ} (hr : r ≤ 4) :
    ((pushSix v n >>> UInt32.ofNat r) &&& 255).toUInt8 =
      UInt8.ofNat ((v.toNat % 2 ^ (r + 2) * 64 + n) / 2 ^ r) := by
  have hmask : (255 : UInt32).toNat = 2 ^ 8 - 1 := rfl
  apply UInt8.toNat_inj.1
  rw [UInt32.toNat_toUInt8, UInt32.toNat_and, UInt32.toNat_shiftRight, toNat_ofNat_mod (by omega),
    hmask, Nat.and_two_pow_sub_one_eq_mod, Nat.shiftRight_eq_div_pow, toNat_pushSix v hn,
    Nat.mod_mod, UInt8.toNat_ofNat']
  interval_cases r <;> omega

/-- A character at the start of a group of four makes no byte. -/
theorem At.first (h : At s out self) (hc : Rfc4648.value c = some n)
    (hlen : (s.filterMap Rfc4648.value).length % 4 = 0) :
    decoded (s ++ [c]) = decoded s ∧ emit { self with v := pushSix self.v n, rem := self.rem + 6 } =
      .ok (.next { self with v := pushSix self.v n, rem := self.rem + 6 }) := by
  have hrem : self.rem = 0 := by
    rw [h.rem]
    omega
  refine ⟨?_, ?_⟩
  · rw [decoded, filterMap_concat hc, Rfc4648.octets_concat_of_dvd hlen, decoded]
  · rw [emit, hrem, if_neg (by simp only; omega)]

/-- A character behind it makes one, if there is room for it. -/
theorem At.byte (h : At s out self) (hc : Rfc4648.value c = some n)
    (hlen : (s.filterMap Rfc4648.value).length % 4 ≠ 0) :
    (decoded (s ++ [c])).length = (decoded s).length + 1 ∧
      emit { self with v := pushSix self.v n, rem := self.rem + 6 } =
        if (decoded s).length < out.length then
          .ok (.next { self with
            v := pushSix self.v n, rem := self.rem - 2, io := self.io + 1
            out := decoded (s ++ [c]) ++ out.drop (decoded (s ++ [c])).length })
        else .ok (.noBufs { self with v := pushSix self.v n, rem := self.rem - 2 }) := by
  have hn : n < 64 := Rfc4648.value_lt hc
  have hrem := h.rem
  obtain ⟨r, hr, hr'⟩ : ∃ r, self.rem = r + 2 ∧ r ≤ 4 := ⟨self.rem - 2, by omega, by omega⟩
  have hbits : 6 * ((s.filterMap Rfc4648.value).length + 1) % 8 = r := by omega
  have hdec : decoded (s ++ [c]) =
      decoded s ++ [((pushSix self.v n >>> UInt32.ofNat r) &&& 255).toUInt8] := by
    rw [decoded, filterMap_concat hc, Rfc4648.octets_concat hlen, ← h.v, hbits,
      byte_eq self.v hn hr', hr]
    rfl
  have hone : (decoded (s ++ [c])).length = (decoded s).length + 1 := by
    rw [hdec, List.length_append, List.length_singleton]
  refine ⟨hone, ?_⟩
  have hsub : r + 2 + 6 - 8 = r := by omega
  rw [emit, if_pos (by simp only; omega)]
  simp only [h.length_out, h.io, hr, hsub, Nat.add_sub_cancel]
  split_ifs with hlt hge hge
  · omega
  · rfl
  · have hset :
        self.out.set (decoded s).length ((pushSix self.v n >>> UInt32.ofNat r) &&& 255).toUInt8 =
        decoded (s ++ [c]) ++ out.drop (decoded (s ++ [c])).length := by
      rw [h.buf, set_append_drop hge, hone, hdec]
    rw [storeAt, if_pos (by rw [h.length_out]; exact hge), ok_bind, hset]
    rfl
  · omega

theorem length_decoded (s : List UInt8) :
    (decoded s).length = 6 * (s.filterMap Rfc4648.value).length / 8 :=
  Rfc4648.length_octets _

theorem At.next (h : At s out self) (hc : Rfc4648.value c = some n) (hlt : s.length < 2 ^ 32)
    (hroom : (decoded (s ++ [c])).length ≤ out.length) :
    ∃ d, emit { self with v := pushSix self.v n, rem := self.rem + 6 } = .ok (.next d) ∧
      At (s ++ [c]) out { d with ii := d.ii + 1 } := by
  have hn : n < 64 := Rfc4648.value_lt hc
  have hii : self.ii + 1 = UInt32.ofNat (s ++ [c]).length := by
    rw [h.ii, ofNat_succ, List.length_append, List.length_singleton]
  have hrem := h.rem
  have hcount :
      ((s ++ [c]).filterMap Rfc4648.value).length = (s.filterMap Rfc4648.value).length + 1 := by
    rw [filterMap_concat hc, List.length_append, List.length_singleton]
  have hkeep : ∀ r', (self.rem = 0 ∧ r' = 6 ∨ self.rem = r' + 2 ∧ r' ≤ 4) →
      r' = 6 * ((s.filterMap Rfc4648.value).length + 1) % 8 →
      (pushSix self.v n).toNat % 2 ^ r' =
        Rfc4648.leftover ((s ++ [c]).filterMap Rfc4648.value) := by
    intro r' hr hr'
    rw [pushSix_mod self.v hn hr, h.v, filterMap_concat hc, Rfc4648.leftover_concat _ hn, ← hr']
  by_cases hlen : (s.filterMap Rfc4648.value).length % 4 = 0
  · obtain ⟨hdec, hemit⟩ := h.first hc hlen
    refine ⟨_, hemit, hii, ?_, ?_, ?_, ?_, hroom⟩
    · rw [hdec]
      exact h.io
    · rw [hcount]
      simp only
      omega
    · exact hkeep _ (.inl ⟨by omega, by simp only; omega⟩) (by simp only; omega)
    · rw [hdec]
      exact h.buf
  · obtain ⟨hone, hemit⟩ := h.byte hc hlen
    rw [if_pos (by omega)] at hemit
    refine ⟨_, hemit, hii, ?_, ?_, ?_, rfl, hroom⟩
    · have hle := List.length_filterMap_le Rfc4648.value s
      have hmany := length_decoded s
      have hio : (self.io + 1).toNat = self.io.toNat + 1 := by
        rw [UInt32.toNat_add, h.io]
        exact Nat.mod_eq_of_lt (by simp only [UInt32.reduceToNat]; omega)
      rw [hone, ← h.io]
      exact hio
    · rw [hcount]
      simp only
      omega
    · exact hkeep _ (.inr ⟨by simp only; omega, by simp only; omega⟩) (by simp only; omega)

/-- There is no room for the byte that the character completes. -/
theorem At.noBufs (h : At s out self) (hc : Rfc4648.value c = some n)
    (hroom : out.length < (decoded (s ++ [c])).length) :
    ∃ d, emit { self with v := pushSix self.v n, rem := self.rem + 6 } = .ok (.noBufs d) := by
  have hbefore := h.room
  have hlen : (s.filterMap Rfc4648.value).length % 4 ≠ 0 := by
    intro hlen
    rw [(h.first hc hlen).1] at hroom
    omega
  obtain ⟨hone, hemit⟩ := h.byte hc hlen
  rw [if_neg (by omega)] at hemit
  exact ⟨_, hemit⟩

/-! ### The characters of a prefix -/

/-- The counter has not come round yet. -/
theorem At.getElem? {text : List UInt8} (h : At s out self) (hp : s ++ [c] <+: text)
    (hlt : s.length < 2 ^ 32) :
    text[self.ii.toNat]? = some c := by
  obtain ⟨t, rfl⟩ := hp
  rw [h.ii, UInt32.toNat_ofNat', Nat.mod_eq_of_lt hlt]
  simp

variable {text : List UInt8}

/-- As far as there is room, the loop reads characters and white space. -/
theorem run_accepted (out : List UInt8) {s : List UInt8} (hp : s <+: text)
    (hs : ∀ c ∈ s, accepted c = true) (hlt : s.length ≤ 2 ^ 32)
    (hroom : (decoded s).length ≤ out.length) :
    ∃ d, At s out d ∧ ∀ fuel, nnBase64Decode (s.length + fuel) text out = run text fuel d := by
  induction s using List.reverseRecOn with
  | nil =>
    refine ⟨⟨0, 0, 0, 0, out⟩, ⟨rfl, rfl, rfl, rfl, rfl, Nat.zero_le _⟩, fun fuel => ?_⟩
    rw [List.length_nil, Nat.zero_add, nnBase64Decode]
  | append_singleton s c ih =>
    rw [List.length_append, List.length_singleton] at hlt
    have hmono : (decoded s).length ≤ (decoded (s ++ [c])).length := by
      have hle :
          (s.filterMap Rfc4648.value).length ≤ ((s ++ [c]).filterMap Rfc4648.value).length := by
        rw [List.filterMap_append, List.length_append]
        omega
      rw [length_decoded, length_decoded]
      omega
    obtain ⟨d, hat, hrun⟩ := ih ((List.prefix_append s [c]).trans hp)
      (fun a ha => hs a (List.mem_append_left _ ha)) (by omega) (hmono.trans hroom)
    have hget := hat.getElem? hp hlt
    obtain ⟨d', hturn, hat'⟩ : ∃ d', turn text d = .ok (.next d') ∧ At (s ++ [c]) out d' := by
      have hacc := hs c (List.mem_append_right _ (List.mem_singleton_self c))
      rw [accepted, Bool.or_eq_true] at hacc
      rcases hacc with hspace | hvalue
      · exact ⟨_, turn_of_space hget hspace, hat.space hspace⟩
      · obtain ⟨n, hn⟩ := Option.isSome_iff_exists.1 hvalue
        obtain ⟨d', hemit, hat'⟩ := hat.next hn hlt hroom
        refine ⟨_, ?_, hat'⟩
        rw [turn_of_value hget hn, hemit]
        rfl
    refine ⟨d', hat', fun fuel => ?_⟩
    rw [List.length_append, List.length_singleton, Nat.add_assoc, hrun, Nat.add_comm 1 fuel,
      run, hturn, ok_bind]

/-- A text whose bytes do not fit. -/
theorem run_full (out : List UInt8) {s : List UInt8} (hp : s <+: text)
    (hs : ∀ c ∈ s, accepted c = true) (hlt : s.length ≤ 2 ^ 32)
    (hroom : out.length < (decoded s).length) :
    ∃ fuel out', nnBase64Decode fuel text out = .ok (none, out') := by
  induction s using List.reverseRecOn with
  | nil => cases hroom
  | append_singleton s c ih =>
    rw [List.length_append, List.length_singleton] at hlt
    have hp' := (List.prefix_append s [c]).trans hp
    have hs' : ∀ a ∈ s, accepted a = true := fun a ha => hs a (List.mem_append_left _ ha)
    rcases Nat.lt_or_ge out.length (decoded s).length with hbefore | hbefore
    · exact ih hp' hs' (by omega) hbefore
    obtain ⟨d, hat, hrun⟩ := run_accepted out hp' hs' (by omega) hbefore
    have hget := hat.getElem? hp hlt
    have hacc := hs c (List.mem_append_right _ (List.mem_singleton_self c))
    rw [accepted, Bool.or_eq_true] at hacc
    rcases hacc with hspace | hvalue
    · have hroom' := (hat.space hspace).room
      omega
    · obtain ⟨n, hn⟩ := Option.isSome_iff_exists.1 hvalue
      obtain ⟨d', hemit⟩ := hat.noBufs hn hroom
      refine ⟨s.length + 1, d'.out, ?_⟩
      rw [hrun, run, turn_of_value hget hn, hemit]
      rfl

/-- The end of the loop: fewer than eight bits are left. -/
theorem At.leave {d : Decoder} (h : At s out d) (hturn : turn text d = .ok (.leave d)) (fuel : ℕ) :
    run text (fuel + 1) d = .ok (some d.io.toInt32, d.out) := by
  have hrem := h.rem
  rw [run, hturn, ok_bind]
  simp only
  rw [emit, if_neg (by omega), ok_bind]
  rfl

theorem run_mono {fuel : ℕ} {d : Decoder} {r : Option Int32 × List UInt8}
    (h : run text fuel d = .ok r) (k : ℕ) :
    run text (fuel + k) d = .ok r := by
  induction fuel generalizing d with
  | zero => cases h
  | succ fuel ih =>
    rw [run] at h
    obtain ⟨t, ht, hnext⟩ := bind_eq_ok.1 h
    rw [Nat.succ_add, run, ht, ok_bind]
    cases t with
    | next d' => exact ih hnext
    | leave d' => exact hnext
    | noBufs d' => exact hnext

/-! ### A counter that comes round -/

/-- What a turn at a character or at white space does, whatever was read before. -/
inductive Reads (c : UInt8) (d : Decoder) : Turn → Prop
  | space {d' : Decoder} : Rfc4648.value c = none → d'.ii = d.ii + 1 → d'.io = d.io →
      d'.rem = d.rem → d'.out.length = d.out.length → Reads c d (.next d')
  | bits {d' : Decoder} : d'.ii = d.ii + 1 → d'.io = d.io → d'.rem = d.rem + 6 → d'.rem < 8 →
      d'.out.length = d.out.length → Reads c d (.next d')
  | byte {d' : Decoder} : d'.ii = d.ii + 1 → d'.io = d.io + 1 → d'.rem + 2 = d.rem →
      d.io.toNat < d.out.length → d'.out.length = d.out.length → Reads c d (.next d')
  | noBufs {d' : Decoder} : (Rfc4648.value c).isSome = true → d.out.length ≤ d.io.toNat →
      Reads c d (.noBufs d')

theorem turn_reads {d : Decoder} (h : text[d.ii.toNat]? = some c) (hc : accepted c = true) :
    ∃ t, turn text d = .ok t ∧ Reads c d t := by
  rw [accepted, Bool.or_eq_true] at hc
  rcases hc with hspace | hvalue
  · exact ⟨_, turn_of_space h hspace, .space (value_of_isspace hspace) rfl rfl rfl rfl⟩
  obtain ⟨n, hn⟩ := Option.isSome_iff_exists.1 hvalue
  rw [turn_of_value h hn, emit]
  simp only
  split_ifs with hrem hroom
  · exact ⟨_, rfl, .noBufs hvalue hroom⟩
  · rw [storeAt, if_pos (Nat.not_le.1 hroom), ok_bind]
    exact ⟨_, rfl, .byte rfl rfl (by simp only; omega) (Nat.not_le.1 hroom) (List.length_set ..)⟩
  · exact ⟨_, rfl, .bits rfl rfl rfl (Nat.not_le.1 hrem) rfl⟩

section Round

variable (hclean : ∀ i < 2 ^ 32, ∃ c, text[i]? = some c ∧ accepted c = true)
include hclean

theorem exists_reads (d : Decoder) :
    ∃ c t, text[d.ii.toNat]? = some c ∧ turn text d = .ok t ∧ Reads c d t := by
  obtain ⟨c, hget, hacc⟩ := hclean _ d.ii.toNat_lt
  obtain ⟨t, ht⟩ := turn_reads hget hacc
  exact ⟨c, t, hget, ht⟩

/-- The loop can only end without room. -/
theorem round_none {fuel : ℕ} {d : Decoder} {r : Option Int32 × List UInt8}
    (h : run text fuel d = .ok r) :
    r.1 = none := by
  induction fuel generalizing d with
  | zero => cases h
  | succ fuel ih =>
    obtain ⟨c, t, -, hturn, hreads⟩ := exists_reads hclean d
    rw [run, hturn, ok_bind] at h
    cases hreads with
    | space _ _ _ _ _ => exact ih h
    | bits _ _ _ _ _ => exact ih h
    | byte _ _ _ _ _ => exact ih h
    | noBufs _ _ =>
      obtain rfl := Except.ok.inj h
      rfl

/-- The loop does not end when there is nothing to store, or always room for it. -/
theorem round_diverged (d : Decoder)
    (h : (∀ i < 2 ^ 32, ∀ c ∈ text[i]?, Rfc4648.value c = none) ∨ 2 ^ 32 ≤ d.out.length)
    (fuel : ℕ) :
    run text fuel d = .error .diverged := by
  induction fuel generalizing d with
  | zero => rfl
  | succ fuel ih =>
    obtain ⟨c, t, hget, hturn, hreads⟩ := exists_reads hclean d
    rw [run, hturn, ok_bind]
    cases hreads with
    | space _ _ _ _ hout => exact ih _ (by rwa [hout])
    | bits _ _ _ _ hout => exact ih _ (by rwa [hout])
    | byte _ _ _ _ hout => exact ih _ (by rwa [hout])
    | noBufs hvalue hfull =>
      exfalso
      rcases h with h | h
      · rw [h _ d.ii.toNat_lt c hget] at hvalue
        cases hvalue
      · have hio := d.io.toNat_lt
        omega

/-- Every round stores something, if there is something to store: at last there is no room. -/
theorem round_returns {a : ℕ} (ha : a < 2 ^ 32)
    (hvalue : ∀ c ∈ text[a]?, (Rfc4648.value c).isSome = true) (d : Decoder)
    (hout : d.out.length < 2 ^ 32) (hio : d.io.toNat ≤ d.out.length) (hrem : d.rem < 8) :
    ∃ fuel r, run text fuel d = .ok r := by
  -- the bits that can still be stored, and then the characters up to `a`
  induction hm :
    (8 * d.out.length + 8 - (8 * d.io.toNat + d.rem)) * 2 ^ 32 + (a + 2 ^ 32 - d.ii.toNat) % 2 ^ 32
    using Nat.strong_induction_on generalizing d with
  | _ m ih =>
    obtain ⟨c, t, hget, hturn, hreads⟩ := exists_reads hclean d
    have hii := d.ii.toNat_lt
    have hnext : ∀ d', t = .next d' → (∃ fuel r, run text fuel d' = .ok r) →
        ∃ fuel r, run text fuel d = .ok r := by
      rintro d' rfl ⟨fuel, r, hrun⟩
      exact ⟨fuel + 1, r, by rw [run, hturn, ok_bind]; exact hrun⟩
    cases hreads with
    | @space d' hnone hii' hio' hrem' hout' =>
      have hne : d.ii.toNat ≠ a := by
        rintro rfl
        have hsome := hvalue c hget
        rw [hnone] at hsome
        cases hsome
      have hsucc : d'.ii.toNat = (d.ii.toNat + 1) % 2 ^ 32 := by rw [hii', UInt32.toNat_add]; rfl
      rw [← hio'] at hio
      refine hnext d' rfl (ih _ ?_ d' (by omega) (by omega) (by omega) rfl)
      rw [← hm, hsucc, hio', hrem', hout']
      omega
    | @bits d' hii' hio' hrem' hlt' hout' =>
      refine hnext d' rfl (ih _ ?_ d' (by omega) (by rw [hio', hout']; exact hio) hlt' rfl)
      rw [← hm, hio', hrem', hout']
      omega
    | @byte d' hii' hio' hrem' hroom' hout' =>
      have hsucc : d'.io.toNat = d.io.toNat + 1 := by
        rw [hio', UInt32.toNat_add]
        exact Nat.mod_eq_of_lt (by simp only [UInt32.reduceToNat]; omega)
      refine hnext d' rfl (ih _ ?_ d' (by omega) (by omega) (by omega) rfl)
      rw [← hm, hsucc, hout']
      omega
    | noBufs => exact ⟨1, _, by rw [run, hturn, ok_bind]; rfl⟩

end Round

end Decoder

/-! ### When the bytes are decoded -/

/-- The longest prefix is shorter than 2^32, and there is no room for its bytes, or they are fewer
than 2^31 and what comes next is not negative; or it is not shorter, there is no room for its bytes
in less than 2^32 bytes, and its first 2^32 characters are not all white space. -/
def Decodable (text : List UInt8) (outLen : ℕ) : Prop :=
  if (accepting text).length < 2 ^ 32 then
    outLen < 6 * ((accepting text).filterMap Rfc4648.value).length / 8 ∨
      6 * ((accepting text).filterMap Rfc4648.value).length / 8 < 2 ^ 31 ∧
        ∀ c ∈ text[(accepting text).length]?, c < 0x80
  else
    outLen < 6 * ((accepting text).filterMap Rfc4648.value).length / 8 ∧ outLen < 2 ^ 32 ∧
      ∃ i < 2 ^ 32, ∃ c ∈ text[i]?, (Rfc4648.value c).isSome = true

variable {text out : List UInt8}

theorem accepting_isPrefix (text : List UInt8) : accepting text <+: text := List.takeWhile_prefix _

theorem accepted_of_mem {c : UInt8} (h : c ∈ accepting text) : accepted c = true :=
  List.mem_takeWhile_imp h

theorem not_accepted {c : UInt8} (h : text[(accepting text).length]? = some c) :
    accepted c = false := by
  have hsplit : accepting text ++ text.dropWhile accepted = text := List.takeWhile_append_dropWhile
  have hhead : (text.dropWhile accepted).head? = some c := by
    rw [← h, List.head?_eq_getElem?]
    conv_rhs => rw [← hsplit]
    rw [List.getElem?_append_right (by rw [hsplit]), hsplit, Nat.sub_self]
  have hnot := List.head?_dropWhile_not accepted text
  rwa [hhead] at hnot

open Decoder

/-- The loop leaves the prefix with a state from which the rest is decided. -/
theorem decodes_at {d : Decoder} (hat : At (accepting text) out d)
    (hrun : ∀ fuel, nnBase64Decode ((accepting text).length + fuel) text out = run text fuel d) :
    Decodes text out ↔ ∃ fuel n, run text fuel d =
      .ok (some n, decoded (accepting text) ++ out.drop (decoded (accepting text)).length) ∧
        n.toInt = (decoded (accepting text)).length := by
  constructor
  · rintro ⟨fuel, ret, out', hret, hright⟩
    rw [if_pos hat.room] at hright
    obtain ⟨⟨n, rfl, hn⟩, rfl⟩ := hright
    refine ⟨fuel, n, ?_, hn⟩
    rw [← hrun, Nat.add_comm]
    exact run_mono hret _
  · rintro ⟨fuel, n, hret, hn⟩
    refine ⟨(accepting text).length + fuel, some n, _, by rw [hrun]; exact hret, ?_⟩
    rw [if_pos hat.room]
    exact ⟨⟨n, rfl, hn⟩, rfl⟩

theorem toInt_toInt32 (x : UInt32) {n : ℕ} (h : x.toNat = n) :
    x.toInt32.toInt = n ↔ n < 2 ^ 31 := by
  have hint : x.toInt32.toInt = x.toBitVec.toInt := rfl
  have hnat : x.toBitVec.toNat = n := h
  rw [hint, BitVec.toInt_eq_toNat_cond, hnat]
  have hlt := x.toNat_lt
  split_ifs <;> omega

theorem decodes_iff_of_lt (h : (accepting text).length < 2 ^ 32) :
    Decodes text out ↔ out.length < (decoded (accepting text)).length ∨
      (decoded (accepting text)).length < 2 ^ 31 ∧
        ∀ c ∈ text[(accepting text).length]?, c < 0x80 := by
  rcases Nat.lt_or_ge out.length (decoded (accepting text)).length with hfull | hroom
  · refine iff_of_true ?_ (.inl hfull)
    obtain ⟨fuel, out', hret⟩ :=
      run_full out (accepting_isPrefix text) (fun c hc => accepted_of_mem hc) h.le hfull
    exact ⟨fuel, none, out', hret, by rw [if_neg (Nat.not_le.2 hfull)]⟩
  obtain ⟨d, hat, hrun⟩ :=
    run_accepted out (accepting_isPrefix text) (fun c hc => accepted_of_mem hc) h.le hroom
  have hii : d.ii.toNat = (accepting text).length := by
    rw [hat.ii, UInt32.toNat_ofNat', Nat.mod_eq_of_lt h]
  rw [decodes_at hat hrun]
  -- where the loop leaves, the number of the bytes is returned as an `int`
  have hleave : turn text d = .ok (.leave d) → ((∃ fuel n, run text fuel d =
      .ok (some n, decoded (accepting text) ++ out.drop (decoded (accepting text)).length) ∧
        n.toInt = (decoded (accepting text)).length) ↔
          (decoded (accepting text)).length < 2 ^ 31) := by
    intro hturn
    rw [← toInt_toInt32 d.io hat.io]
    constructor
    · rintro ⟨fuel, n, hret, hn⟩
      have hmore := run_mono hret 1
      rw [hat.leave hturn] at hmore
      obtain ⟨heq, -⟩ := Prod.mk.inj (Except.ok.inj hmore)
      rwa [Option.some.inj heq]
    · intro hn
      exact ⟨1, d.io.toInt32, by rw [hat.leave hturn 0, hat.buf], hn⟩
  cases hget : text[(accepting text).length]? with
  | none =>
    have hend : turn text d = .ok (.leave d) :=
      turn_of_end (by rw [hii]; exact List.getElem?_eq_none_iff.1 hget)
    rw [hleave hend]
    constructor
    · intro hn
      exact .inr ⟨hn, nofun⟩
    · rintro (hfull | ⟨hn, -⟩)
      · omega
      · exact hn
  | some c =>
    have hget' : text[d.ii.toNat]? = some c := by rw [hii]; exact hget
    rcases UInt8.lt_or_le c 0x80 with hc | hc
    · rw [hleave (turn_of_not_accepted hget' (not_accepted hget) hc)]
      constructor
      · intro hn
        exact .inr ⟨hn, fun a ha => by rwa [← Option.some.inj ha]⟩
      · rintro (hfull | ⟨hn, -⟩)
        · omega
        · exact hn
    · refine iff_of_false ?_ ?_
      · rintro ⟨fuel, n, hret, -⟩
        have hmore := run_mono hret 1
        rw [run, turn_of_ge hget' hc] at hmore
        cases hmore
      · rintro (hfull | ⟨-, hpos⟩)
        · omega
        · exact absurd (hpos c rfl) (UInt8.not_lt.2 hc)

theorem decodes_iff_of_le (h : 2 ^ 32 ≤ (accepting text).length) :
    Decodes text out ↔ out.length < (decoded (accepting text)).length ∧ out.length < 2 ^ 32 ∧
      ∃ i < 2 ^ 32, ∃ c ∈ text[i]?, (Rfc4648.value c).isSome = true := by
  have hclean : ∀ i < 2 ^ 32, ∃ c, text[i]? = some c ∧ accepted c = true := by
    intro i hi
    obtain ⟨t, ht⟩ := accepting_isPrefix text
    have hlt : i < (accepting text).length := by omega
    refine ⟨(accepting text)[i], ?_, accepted_of_mem (List.getElem_mem hlt)⟩
    conv_lhs => rw [← ht]
    rw [List.getElem?_append_left hlt, List.getElem?_eq_getElem hlt]
  constructor
  · rintro ⟨fuel, ret, out', hret, hright⟩
    have hnone : ret = none := round_none hclean hret
    subst hnone
    refine ⟨?_, ?_, ?_⟩
    · by_contra hroom
      rw [if_pos (Nat.not_lt.1 hroom)] at hright
      obtain ⟨⟨n, hn, -⟩, -⟩ := hright
      cases hn
    · by_contra hlong
      have hdiv := round_diverged hclean ⟨0, 0, 0, 0, out⟩ (.inr (Nat.not_lt.1 hlong)) fuel
      rw [nnBase64Decode, hdiv] at hret
      cases hret
    · by_contra hspaces
      have hdiv := round_diverged hclean ⟨0, 0, 0, 0, out⟩ (.inl fun i hi c hc =>
        Option.not_isSome_iff_eq_none.1 fun hsome => hspaces ⟨i, hi, c, hc, hsome⟩) fuel
      rw [nnBase64Decode, hdiv] at hret
      cases hret
  · rintro ⟨hfull, hlt, a, ha, c, hc, hvalue⟩
    obtain ⟨fuel, ⟨ret, out'⟩, hret⟩ := round_returns hclean ha
      (fun b hb => by rwa [← Option.some.inj (hc.symm.trans hb)]) ⟨0, 0, 0, 0, out⟩
        hlt (Nat.zero_le _)
      (Nat.zero_lt_succ 7)
    have hnone : ret = none := round_none hclean hret
    exact ⟨fuel, ret, out', hret, by rw [if_neg (Nat.not_le.2 hfull), hnone]⟩

/-- For all texts and buffers: the bytes are decoded, and nothing outside is read or written,
exactly then. -/
theorem nnBase64Decode_iff (text out : List UInt8) :
    Decodes text out ↔ Decodable text out.length := by
  rw [Decodable, ← length_decoded]
  split_ifs with h
  · exact decodes_iff_of_lt h
  · exact decodes_iff_of_le (Nat.not_lt.1 h)

/-- A byte from 0x80 on is a negative index. -/
theorem not_decodes_negative : ¬ Decodes [0x80] [0] := by
  rintro ⟨fuel, ret, out', hret, -⟩
  have hfault : nnBase64Decode fuel [0x80] [0] = .error .diverged ∨
      nnBase64Decode fuel [0x80] [0] = .error .outOfBounds := by
    cases fuel with
    | zero => exact .inl rfl
    | succ fuel => exact .inr rfl
  rw [hret] at hfault
  rcases hfault with h | h <;> cases h

end NanoSocket.Ws.Base64Decode

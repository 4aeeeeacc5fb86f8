import Mathlib.Tactic

/-!
# UTF-8 as in RFC 3629

The grammar of section 4: `Char` lists the four forms of a character, and `Octets` is a sequence of
characters.  No character is a proper prefix of another one, so a character can be split off from
the front of a text without changing whether the text is well formed (`octets_append`).  The
characters are the encodings of the Unicode scalar values (`char_iff`).
-/

namespace Utf8

/-- `UTF8-tail = %x80-BF`. -/
def Tail (b : UInt8) : Prop := 0x80 ≤ b ∧ b ≤ 0xBF

instance (b : UInt8) : Decidable (Tail b) := inferInstanceAs (Decidable (_ ∧ _))

/-- `UTF8-char = UTF8-1 / UTF8-2 / UTF8-3 / UTF8-4`. -/
inductive Char : List UInt8 → Prop
  | one {a : UInt8} : a ≤ 0x7F → Char [a]
  | two {a b : UInt8} : 0xC2 ≤ a → a ≤ 0xDF → Tail b → Char [a, b]
  | threeE0 {b c : UInt8} : 0xA0 ≤ b → b ≤ 0xBF → Tail c → Char [0xE0, b, c]
  | threeE1 {a b c : UInt8} : 0xE1 ≤ a → a ≤ 0xEC → Tail b → Tail c → Char [a, b, c]
  | threeED {b c : UInt8} : 0x80 ≤ b → b ≤ 0x9F → Tail c → Char [0xED, b, c]
  | threeEE {a b c : UInt8} : 0xEE ≤ a → a ≤ 0xEF → Tail b → Tail c → Char [a, b, c]
  | fourF0 {b c d : UInt8} : 0x90 ≤ b → b ≤ 0xBF → Tail c → Tail d → Char [0xF0, b, c, d]
  | fourF1 {a b c d : UInt8} : 0xF1 ≤ a → a ≤ 0xF3 → Tail b → Tail c → Tail d → Char [a, b, c, d]
  | fourF4 {b c d : UInt8} : 0x80 ≤ b → b ≤ 0x8F → Tail c → Tail d → Char [0xF4, b, c, d]

/-- `UTF8-octets = *( UTF8-char )`. -/
inductive Octets : List UInt8 → Prop
  | nil : Octets []
  | cons {c rest : List UInt8} : Char c → Octets rest → Octets (c ++ rest)

/-- A byte is a tail when its two highest bits are `10`. -/
theorem and_eq_iff_tail (b : UInt8) : b &&& 0xC0 = 0x80 ↔ Tail b := by
  have h : ∀ i : Fin 256, (UInt8.ofNat i.val &&& 0xC0 = 0x80 ↔ Tail (UInt8.ofNat i.val)) := by
    set_option maxRecDepth 20000 in decide
  have := h ⟨b.toNat, b.toNat_lt⟩
  rwa [UInt8.ofNat_toNat] at this

/-- The three-byte characters: all but the overlong encodings and the surrogates. -/
theorem Char.three {a b c : UInt8} (ha : 0xE0 ≤ a) (ha' : a ≤ 0xEF) (hE0 : a = 0xE0 → 0xA0 ≤ b)
    (hED : a = 0xED → b ≤ 0x9F) (hb : Tail b) (hc : Tail c) : Char [a, b, c] := by
  by_cases h0 : a = 0xE0
  · subst h0
    exact .threeE0 (hE0 rfl) hb.2 hc
  by_cases hD : a = 0xED
  · subst hD
    exact .threeED hb.1 (hED rfl) hc
  by_cases h : a ≤ 0xEC
  · exact .threeE1 (by grind) h hb hc
  · exact .threeEE (by grind) ha' hb hc

/-- The four-byte characters: all but the overlong encodings and what lies beyond U+10FFFF. -/
theorem Char.four {a b c d : UInt8} (ha : 0xF0 ≤ a) (ha' : a ≤ 0xF4) (hF0 : a = 0xF0 → 0x90 ≤ b)
    (hF4 : a = 0xF4 → b ≤ 0x8F) (hb : Tail b) (hc : Tail c) (hd : Tail d) : Char [a, b, c, d] := by
  by_cases h0 : a = 0xF0
  · subst h0
    exact .fourF0 (hF0 rfl) hb.2 hc hd
  by_cases h4 : a = 0xF4
  · subst h4
    exact .fourF4 hb.1 (hF4 rfl) hc hd
  · exact .fourF1 (by grind) (by grind) hb hc hd

/-- The length of a character follows from its first byte. -/
def width (a : UInt8) : ℕ :=
  if a ≤ 0x7F then 1 else if a ≤ 0xDF then 2 else if a ≤ 0xEF then 3 else 4

theorem Char.length_eq {c : List UInt8} (h : Char c) : ∃ a t, c = a :: t ∧ c.length = width a := by
  cases h with
  | one ha => exact ⟨_, _, rfl, by simp [width, ha]⟩
  | two ha ha' _ =>
    refine ⟨_, _, rfl, ?_⟩
    simp only [UInt8.le_iff_toNat_le, UInt8.reduceToNat] at ha
    rw [width, if_neg (by simp only [UInt8.le_iff_toNat_le, UInt8.reduceToNat]; omega), if_pos ha']
    rfl
  | threeE0 | threeED => exact ⟨_, _, rfl, rfl⟩
  | threeE1 ha ha' | threeEE ha ha' =>
    refine ⟨_, _, rfl, ?_⟩
    simp only [UInt8.le_iff_toNat_le, UInt8.reduceToNat] at ha ha'
    simp only [width, UInt8.le_iff_toNat_le, UInt8.reduceToNat]
    rw [if_neg (by omega), if_neg (by omega), if_pos (by omega)]
    rfl
  | fourF0 | fourF4 => exact ⟨_, _, rfl, rfl⟩
  | fourF1 ha ha' =>
    refine ⟨_, _, rfl, ?_⟩
    simp only [UInt8.le_iff_toNat_le, UInt8.reduceToNat] at ha ha'
    simp only [width, UInt8.le_iff_toNat_le, UInt8.reduceToNat]
    rw [if_neg (by omega), if_neg (by omega), if_neg (by omega)]
    rfl

/-- A text determines its first character. -/
theorem Char.append_inj {c c' r r' : List UInt8} (h : Char c) (h' : Char c')
    (heq : c ++ r = c' ++ r') :
    c = c' ∧ r = r' := by
  obtain ⟨a, t, rfl, hlen⟩ := h.length_eq
  obtain ⟨a', t', rfl, hlen'⟩ := h'.length_eq
  have haa : a = a' := by simpa using congrArg List.head? heq
  exact List.append_inj heq (by rw [hlen, hlen', haa])

/-- Splitting off a character does not change whether a text is well formed. -/
theorem octets_append {c : List UInt8} (h : Char c) (x : List UInt8) :
    Octets (c ++ x) ↔ Octets x := by
  constructor
  · intro hx
    generalize heq : c ++ x = y at hx
    cases hx with
    | nil =>
      obtain ⟨a, t, rfl, -⟩ := h.length_eq
      cases heq
    | cons hc hr =>
      rw [(h.append_inj hc heq).2]
      exact hr
  · exact .cons h

/-! ### Scalar values -/

theorem toNat_le {a b : UInt8} : a ≤ b ↔ a.toNat ≤ b.toNat := UInt8.le_iff_toNat_le

theorem exists_val {v : ℕ} (h : v.isValidChar) : ∃ e, (Char.val e).toNat = v := by
  refine ⟨Char.ofNat v, ?_⟩
  rw [Char.ofNat, dif_pos h]
  rfl

theorem encode_two {a b : UInt8} (ha : 0xC2 ≤ a) (ha' : a ≤ 0xDF) (hb : Tail b) :
    ∃ e, [a, b] = String.utf8EncodeChar e := by
  simp only [Tail, toNat_le, UInt8.reduceToNat] at *
  obtain ⟨e, he⟩ := exists_val (v := (a.toNat - 0xC0) * 64 + (b.toNat - 0x80)) (.inl (by omega))
  refine ⟨e, ?_⟩
  rw [String.utf8EncodeChar, he, if_neg (by omega), if_pos (by omega)]
  simp only [List.cons.injEq, ← UInt8.toNat_inj, UInt8.toNat_ofNat', and_true]
  omega

theorem encode_three {a b c : UInt8} (ha : 0xE0 ≤ a) (ha' : a ≤ 0xEF) (hE0 : a = 0xE0 → 0xA0 ≤ b)
    (hED : a = 0xED → b ≤ 0x9F) (hb : Tail b) (hc : Tail c) :
    ∃ e, [a, b, c] = String.utf8EncodeChar e := by
  simp only [Tail, toNat_le, ← UInt8.toNat_inj, UInt8.reduceToNat] at *
  obtain ⟨e, he⟩ := exists_val
    (v := (a.toNat - 0xE0) * 4096 + (b.toNat - 0x80) * 64 + (c.toNat - 0x80))
      (by simp only [Nat.isValidChar]; omega)
  refine ⟨e, ?_⟩
  rw [String.utf8EncodeChar, he, if_neg (by omega), if_neg (by omega), if_pos (by omega)]
  simp only [List.cons.injEq, ← UInt8.toNat_inj, UInt8.toNat_ofNat', and_true]
  omega

theorem encode_four {a b c d : UInt8} (ha : 0xF0 ≤ a) (ha' : a ≤ 0xF4) (hF0 : a = 0xF0 → 0x90 ≤ b)
    (hF4 : a = 0xF4 → b ≤ 0x8F) (hb : Tail b) (hc : Tail c) (hd : Tail d) :
    ∃ e, [a, b, c, d] = String.utf8EncodeChar e := by
  simp only [Tail, toNat_le, ← UInt8.toNat_inj, UInt8.reduceToNat] at *
  obtain ⟨e, he⟩ := exists_val
    (v := (a.toNat - 0xF0) * 262144 + (b.toNat - 0x80) * 4096 + (c.toNat - 0x80) * 64 +
      (d.toNat - 0x80))
    (by simp only [Nat.isValidChar]; omega)
  refine ⟨e, ?_⟩
  rw [String.utf8EncodeChar, he, if_neg (by omega), if_neg (by omega), if_neg (by omega)]
  simp only [List.cons.injEq, ← UInt8.toNat_inj, UInt8.toNat_ofNat', and_true]
  omega

/-- The characters are the encodings of the Unicode scalar values. -/
theorem char_iff {l : List UInt8} : Char l ↔ ∃ e, l = String.utf8EncodeChar e := by
  constructor
  · intro h
    cases h with
    | @one a ha =>
      simp only [toNat_le, UInt8.reduceToNat] at ha
      obtain ⟨e, he⟩ := exists_val (v := a.toNat) (.inl (by omega))
      exact ⟨e, by rw [String.utf8EncodeChar, he, if_pos ha, UInt8.ofNat_toNat]⟩
    | two ha ha' hb => exact encode_two ha ha' hb
    | threeE0 hb hb' hc =>
      exact encode_three (by decide) (by decide) (fun _ => hb) (by simp) ⟨by grind, hb'⟩ hc
    | threeE1 ha ha' hb hc => exact encode_three (by grind) (by grind) (by grind) (by grind) hb hc
    | threeED hb hb' hc =>
      exact encode_three (by decide) (by decide) (by simp) (fun _ => hb') ⟨hb, by grind⟩ hc
    | threeEE ha ha' hb hc => exact encode_three (by grind) ha' (by grind) (by grind) hb hc
    | fourF0 hb hb' hc hd =>
      exact encode_four (by decide) (by decide) (fun _ => hb) (by simp) ⟨by grind, hb'⟩ hc hd
    | fourF1 ha ha' hb hc hd =>
      exact encode_four (by grind) (by grind) (by grind) (by grind) hb hc hd
    | fourF4 hb hb' hc hd =>
      exact encode_four (by decide) (by decide) (by simp) (fun _ => hb') ⟨hb, by grind⟩ hc hd
  · rintro ⟨e, rfl⟩
    have hv := e.valid
    simp only [UInt32.isValidChar, Nat.isValidChar] at hv
    rw [String.utf8EncodeChar]
    generalize hn : e.val.toNat = n at hv ⊢
    split_ifs with h1 h2 h3
    · refine .one ?_
      simp only [toNat_le, UInt8.toNat_ofNat', UInt8.reduceToNat]
      omega
    · refine .two ?_ ?_ ⟨?_, ?_⟩ <;>
      simp only [toNat_le, UInt8.toNat_ofNat', UInt8.reduceToNat] <;> omega
    · refine .three ?_ ?_ ?_ ?_ ⟨?_, ?_⟩ ⟨?_, ?_⟩ <;>
      simp only [toNat_le, ← UInt8.toNat_inj, UInt8.toNat_ofNat', UInt8.reduceToNat] <;> omega
    · refine .four ?_ ?_ ?_ ?_ ⟨?_, ?_⟩ ⟨?_, ?_⟩ ⟨?_, ?_⟩ <;>
      simp only [toNat_le, ← UInt8.toNat_inj, UInt8.toNat_ofNat', UInt8.reduceToNat] <;> omega

end Utf8

import NanoSocket.Ws.Utf8

/-!
# Reading a code point (`transports/ws/sws.c`)

`nnUtf8CodePoint` of the frames is a function of the bytes.  Here is the function with the pointer,
the length and the number that it returns: no read is outside of the buffer, and the assertion at
its end is never reached.
-/

namespace NanoSocket.Ws.CodePoint

/-- `NN_SWS_UTF8_INVALID`. -/
def nnSwsUtf8Invalid : ℤ := -2

/-- `NN_SWS_UTF8_FRAGMENT`. -/
def nnSwsUtf8Fragment : ℤ := -1

/-- `buffer [i]`, where `none` is a null pointer. -/
def byteAt (buffer : Option (List UInt8)) (i : ℕ) : Except Fault UInt8 :=
  match buffer with
  | none => .error .nullDeref
  | some bytes => if h : i < bytes.length then .ok bytes[i] else .error .outOfBounds

/-- `nn_utf8_code_point`.  The bytes of a branch are read at once, and not only as far as the
conditions need them. -/
def nnUtf8CodePoint (buffer : Option (List UInt8)) (len : ℕ) : Except Fault ℤ :=
  if buffer = none ∨ len = 0 then .ok nnSwsUtf8Fragment
  else do
    let b0 ← byteAt buffer 0
    if b0 ≤ 0x7F then return 1
    else if b0 < 0xC2 then return nnSwsUtf8Invalid
    else if b0 ≤ 0xDF then
      if len < 2 then return nnSwsUtf8Fragment
      else do
        let b1 ← byteAt buffer 1
        if b1 &&& 0xC0 ≠ 0x80 then return nnSwsUtf8Invalid
        else return 2
    else if b0 ≤ 0xEF then
      if len < 2 then return nnSwsUtf8Fragment
      else do
        let b1 ← byteAt buffer 1
        if b0 = 0xE0 ∧ (b1 < 0xA0 ∨ b1 = 0x80) then return nnSwsUtf8Invalid
        else if b0 = 0xED ∧ b1 ≥ 0xA0 then return nnSwsUtf8Invalid
        else if len < 3 then return nnSwsUtf8Fragment
        else do
          let b2 ← byteAt buffer 2
          if b1 &&& 0xC0 ≠ 0x80 ∨ b2 &&& 0xC0 ≠ 0x80 then return nnSwsUtf8Invalid
          else return 3
    else if b0 ≤ 0xF4 then
      if len < 2 then return nnSwsUtf8Fragment
      else do
        let b1 ← byteAt buffer 1
        if b0 = 0xF0 ∧ b1 < 0x90 then return nnSwsUtf8Invalid
        else if b0 = 0xF4 ∧ b1 ≥ 0x90 then return nnSwsUtf8Invalid
        else if len < 4 then return nnSwsUtf8Fragment
        else do
          let b2 ← byteAt buffer 2
          let b3 ← byteAt buffer 3
          if b1 &&& 0xC0 ≠ 0x80 ∨ b2 &&& 0xC0 ≠ 0x80 ∨
            b3 &&& 0xC0 ≠ 0x80 then return nnSwsUtf8Invalid
          else return 4
    else if b0 ≥ 0xF5 then return nnSwsUtf8Invalid
    -- `nn_assert (0)`
    else throw .assertFailed

/-- The number for an answer. -/
def code : CodePoint → ℤ
  | .valid n => n
  | .invalid => nnSwsUtf8Invalid
  | .fragment => nnSwsUtf8Fragment

/-! ### The bytes that are read -/

section Bytes

variable (a b c d : UInt8) (l : List UInt8)

@[simp] theorem byteAt_zero : byteAt (some (a :: l)) 0 = .ok a := rfl

@[simp] theorem byteAt_one : byteAt (some (a :: b :: l)) 1 = .ok b := rfl

@[simp] theorem byteAt_two : byteAt (some (a :: b :: c :: l)) 2 = .ok c := rfl

@[simp] theorem byteAt_three : byteAt (some (a :: b :: c :: d :: l)) 3 = .ok d := rfl

end Bytes

theorem ge_of_not_le {b : UInt8} (h : ¬ b ≤ 0xF4) : b ≥ 0xF5 := by
  simp only [ge_iff_le, UInt8.le_iff_toNat_le, UInt8.reduceToNat] at h ⊢
  omega

/-- The bytes of the buffer behind the length do not matter. -/
theorem nnUtf8CodePoint_append (l x : List UInt8) :
    nnUtf8CodePoint (some (l ++ x)) l.length = .ok (code (Ws.nnUtf8CodePoint l)) := by
  rcases l with - | ⟨b0, t⟩
  · rfl
  simp only [nnUtf8CodePoint, Ws.nnUtf8CodePoint, List.cons_append, byteAt_zero, ok_bind]
  rw [if_neg (by simp)]
  by_cases h : b0 ≤ 0x7F
  · simp only [if_pos h]
    rfl
  simp only [if_neg h]
  by_cases h : b0 < 0xC2
  · simp only [if_pos h]
    rfl
  simp only [if_neg h]
  by_cases h : b0 ≤ 0xDF
  · simp only [if_pos h]
    rcases t with - | ⟨b1, t⟩
    · rfl
    · simp only [List.cons_append, List.length_cons, byteAt_one, ok_bind]
      split_ifs <;> first | rfl | omega
  simp only [if_neg h]
  by_cases h : b0 ≤ 0xEF
  · simp only [if_pos h]
    rcases t with - | ⟨b1, - | ⟨b2, t⟩⟩
    · rfl
    all_goals
      simp only [List.cons_append, List.length_cons, List.length_nil, byteAt_one,
        byteAt_two, ok_bind]
      split_ifs <;> first | rfl | omega
  simp only [if_neg h]
  by_cases h : b0 ≤ 0xF4
  · simp only [if_pos h]
    rcases t with - | ⟨b1, - | ⟨b2, - | ⟨b3, t⟩⟩⟩
    · rfl
    all_goals
      simp only [List.cons_append, List.length_cons, List.length_nil, byteAt_one, byteAt_two,
        byteAt_three, ok_bind]
      split_ifs <;> first | rfl | omega
  -- the assertion is behind a condition that always holds here
  simp only [if_neg h, if_pos (ge_of_not_le h)]
  rfl

theorem nnUtf8CodePoint_eq {buffer : Option (List UInt8)} {len : ℕ}
    (h : ∀ bytes ∈ buffer, len ≤ bytes.length) :
    nnUtf8CodePoint buffer len = .ok (code (Ws.nnUtf8CodePoint ((buffer.getD []).take len))) := by
  cases buffer with
  | none =>
    rw [nnUtf8CodePoint, if_pos (Or.inl rfl), Option.getD_none, List.take_nil]
    rfl
  | some bytes =>
    have hlen : (bytes.take len).length = len := List.length_take_of_le (h bytes rfl)
    have heq := nnUtf8CodePoint_append (bytes.take len) (bytes.drop len)
    rwa [List.take_append_drop, hlen] at heq

/-! ### What the number says -/

theorem code_eq_natCast {a : CodePoint} {n : ℕ} : code a = n ↔ a = .valid n := by
  constructor
  · intro h
    cases a with
    | valid m => exact congrArg CodePoint.valid (Int.ofNat_inj.1 h)
    | invalid => simp only [code, nnSwsUtf8Invalid] at h; omega
    | fragment => simp only [code, nnSwsUtf8Fragment] at h; omega
  · rintro rfl
    rfl

theorem code_eq_invalid {a : CodePoint} (h : code a = nnSwsUtf8Invalid) : a = .invalid := by
  cases a with
  | valid n => simp only [code, nnSwsUtf8Invalid] at h; omega
  | invalid => rfl
  | fragment => cases h

theorem code_eq_fragment {a : CodePoint} (h : code a = nnSwsUtf8Fragment) : a = .fragment := by
  cases a with
  | valid n => simp only [code, nnSwsUtf8Fragment] at h; omega
  | invalid => cases h
  | fragment => rfl

open Utf8 (Char)

/-- The first bytes of characters of more than one byte. -/
theorem exists_char {a : UInt8} (h : 0xC2 ≤ a) (h' : a ≤ 0xF4) : ∃ t, Char (a :: t) := by
  by_cases h2 : a ≤ 0xDF
  · exact ⟨[0x80], .two h h2 (by decide)⟩
  by_cases h3 : a ≤ 0xEF
  · by_cases h0 : a = 0xE0
    · subst h0
      exact ⟨[0xA0, 0x80], .threeE0 (by decide) (by decide) (by decide)⟩
    · exact ⟨[0x80, 0x80], .three (by grind) h3 (fun he => absurd he h0) (fun _ => by decide)
        (by decide) (by decide)⟩
  · by_cases h0 : a = 0xF0
    · subst h0
      exact ⟨[0x90, 0x80, 0x80], .fourF0 (by decide) (by decide) (by decide) (by decide)⟩
    · exact ⟨[0x80, 0x80, 0x80], .four (by grind) h' (fun he => absurd he h0) (fun _ => by decide)
        (by decide) (by decide) (by decide)⟩

/-- Fewer bytes than the first one asks for. -/
theorem length_lt_width {l : List UInt8} (h : Ws.nnUtf8CodePoint l = .fragment) :
    ∀ b ∈ l.head?, 0xC2 ≤ b ∧ b ≤ 0xF4 ∧ l.length < Utf8.width b := by
  rcases l with - | ⟨b0, t⟩
  · nofun
  rintro b ⟨⟩
  simp only [Ws.nnUtf8CodePoint] at h
  by_cases h1 : b0 ≤ 0x7F
  · rw [if_pos h1] at h
    cases h
  rw [if_neg h1] at h
  by_cases h0 : b0 < 0xC2
  · rw [if_pos h0] at h
    cases h
  rw [if_neg h0] at h
  by_cases h2 : b0 ≤ 0xDF
  · rw [if_pos h2] at h
    refine ⟨UInt8.not_lt.1 h0, by grind, ?_⟩
    rw [Utf8.width, if_neg h1, if_pos h2]
    cases t with
    | nil => exact Nat.one_lt_two
    | cons b1 t =>
      simp only at h
      split_ifs at h
  rw [if_neg h2] at h
  by_cases h3 : b0 ≤ 0xEF
  · rw [if_pos h3] at h
    refine ⟨UInt8.not_lt.1 h0, by grind, ?_⟩
    rw [Utf8.width, if_neg h1, if_neg h2, if_pos h3]
    rcases t with - | ⟨b1, - | ⟨b2, t⟩⟩
    · simp
    · simp
    · simp only at h
      split_ifs at h
  rw [if_neg h3] at h
  by_cases h4 : b0 ≤ 0xF4
  · rw [if_pos h4] at h
    refine ⟨UInt8.not_lt.1 h0, h4, ?_⟩
    rw [Utf8.width, if_neg h1, if_neg h2, if_neg h3]
    rcases t with - | ⟨b1, - | ⟨b2, - | ⟨b3, t⟩⟩⟩
    · simp
    · simp
    · simp
    · simp only at h
      split_ifs at h
  · rw [if_neg h4] at h
    cases h

theorem exists_of_fragment {l : List UInt8} (h : Ws.nnUtf8CodePoint l = .fragment) (hl : l ≠ []) :
    ∃ c, Char c ∧ c.head? = l.head? ∧ l.length < c.length := by
  obtain ⟨b, t, rfl⟩ := List.exists_cons_of_ne_nil hl
  obtain ⟨hb, hb', hlt⟩ := length_lt_width h b rfl
  obtain ⟨u, hu⟩ := exists_char hb hb'
  obtain ⟨a, v, heq, hlen⟩ := hu.length_eq
  obtain ⟨rfl, rfl⟩ := List.cons_eq_cons.1 heq
  exact ⟨b :: u, hu, rfl, hlen ▸ hlt⟩

/-- A number that tells what the bytes start with: a character, which encodes a Unicode scalar
value, a mistake, or less than a character.  The length of a character follows from its first byte,
so one character stands for all that start with a byte. -/
structure Classifies (l : List UInt8) (r : ℤ) : Prop where
  valid_iff : ∀ n : ℕ, 0 < n → (r = n ↔ n ≤ l.length ∧ Char (l.take n))
  encodes : ∀ n : ℕ, 0 < n → r = n → ∃ e, l.take n = String.utf8EncodeChar e
  invalid : r = nnSwsUtf8Invalid → ∀ (x : List UInt8) (n : ℕ), ¬ Char ((l ++ x).take n)
  fragment : r = nnSwsUtf8Fragment → l = [] ∨ ∃ c, Char c ∧ c.head? = l.head? ∧ l.length < c.length
  answers : 0 < r ∨ r = nnSwsUtf8Invalid ∨ r = nnSwsUtf8Fragment

theorem classifies (l : List UInt8) : Classifies l (code (Ws.nnUtf8CodePoint l)) where
  valid_iff n hn := by
    rw [code_eq_natCast]
    refine ⟨char_of_valid, ?_⟩
    rintro ⟨hle, hc⟩
    have heq := Ws.nnUtf8CodePoint_append hc (l.drop n)
    rwa [List.take_append_drop, List.length_take_of_le hle] at heq
  encodes n hn hr := Utf8.char_iff.1 (char_of_valid (code_eq_natCast.1 hr)).2
  invalid hr x n hc := by
    have hinv := nnUtf8CodePoint_append_of_invalid (code_eq_invalid hr) x
    have hval := Ws.nnUtf8CodePoint_append hc ((l ++ x).drop n)
    rw [List.take_append_drop, hinv] at hval
    cases hval
  fragment hr := by
    by_cases hl : l = []
    · exact .inl hl
    · exact .inr (exists_of_fragment (code_eq_fragment hr) hl)
  answers := by
    cases h : Ws.nnUtf8CodePoint l with
    | valid n => exact .inl (Int.natCast_pos.2 (pos_of_valid h))
    | invalid => exact .inr (.inl rfl)
    | fragment => exact .inr (.inr rfl)

/-- For every buffer and every length of it the function returns, and its number tells what the
bytes start with. -/
theorem nnUtf8CodePoint_classifies {buffer : Option (List UInt8)} {len : ℕ}
    (h : ∀ bytes ∈ buffer, len ≤ bytes.length) :
    ∃ r, nnUtf8CodePoint buffer len = .ok r ∧ Classifies ((buffer.getD []).take len) r :=
  ⟨_, nnUtf8CodePoint_eq h, classifies _⟩

/-- Three of four bytes. -/
theorem nnUtf8CodePoint_classifies_three :
    ∃ r, nnUtf8CodePoint (some [0xE2, 0x82, 0xAC, 0x41]) 3 = .ok r ∧
      Classifies [0xE2, 0x82, 0xAC] r :=
  nnUtf8CodePoint_classifies (by simp)

end NanoSocket.Ws.CodePoint

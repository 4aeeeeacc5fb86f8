import NanoSocket.Core.Fault
import NanoSocket.Lib.Utf8

/-!
# Code points (`transports/ws/sws.c`)

`nn_utf8_code_point` looks at the front of a buffer and finds a character, a mistake, or too few
bytes to tell.  The lemmas relate the three answers to the grammar of RFC 3629.
-/

namespace NanoSocket.Ws

/-- What `nn_utf8_code_point` returns: a length, `NN_SWS_UTF8_INVALID` or `NN_SWS_UTF8_FRAGMENT`. -/
inductive CodePoint
  | valid (len : ℕ)
  | invalid
  | fragment
  deriving DecidableEq, Repr

/-- `nn_utf8_code_point`. -/
def nnUtf8CodePoint (buffer : List UInt8) : CodePoint :=
  match buffer with
  | [] => .fragment
  | b0 :: rest =>
    if b0 ≤ 0x7F then .valid 1
    -- the smallest first byte that is not an overlong encoding
    else if b0 < 0xC2 then .invalid
    else if b0 ≤ 0xDF then
      match rest with
      | [] => .fragment
      | b1 :: _ => if b1 &&& 0xC0 ≠ 0x80 then .invalid else .valid 2
    else if b0 ≤ 0xEF then
      match rest with
      | [] => .fragment
      | b1 :: rest =>
        if b0 = 0xE0 ∧ (b1 < 0xA0 ∨ b1 = 0x80) then .invalid
        -- halves of UTF-16 surrogate pairs
        else if b0 = 0xED ∧ b1 ≥ 0xA0 then .invalid
        else
          match rest with
          | [] => .fragment
          | b2 :: _ => if b1 &&& 0xC0 ≠ 0x80 ∨ b2 &&& 0xC0 ≠ 0x80 then .invalid else .valid 3
    else if b0 ≤ 0xF4 then
      match rest with
      | [] => .fragment
      | b1 :: rest =>
        if b0 = 0xF0 ∧ b1 < 0x90 then .invalid
        -- beyond U+10FFFF
        else if b0 = 0xF4 ∧ b1 ≥ 0x90 then .invalid
        else
          match rest with
          | b2 :: b3 :: _ =>
            if b1 &&& 0xC0 ≠ 0x80 ∨ b2 &&& 0xC0 ≠ 0x80 ∨ b3 &&& 0xC0 ≠ 0x80 then .invalid
              else .valid 4
          | _ => .fragment
    -- what is left is `buffer [0] >= 0xF5`, and the assertion behind it cannot be reached
    else .invalid

open Utf8 (Char Octets Tail)

/-- A character at the front of a buffer is found. -/
theorem nnUtf8CodePoint_append {c : List UInt8} (h : Char c) (x : List UInt8) :
    nnUtf8CodePoint (c ++ x) = .valid c.length := by
  cases h <;> simp only [List.cons_append, List.nil_append, List.length_cons, List.length_nil,
    nnUtf8CodePoint, ne_eq, Utf8.and_eq_iff_tail, Tail] at * <;> grind

/-- What is found is a character. -/
theorem char_of_valid {l : List UInt8} {n : ℕ} (h : nnUtf8CodePoint l = .valid n) :
    n ≤ l.length ∧ Char (l.take n) := by
  cases l with
  | nil => cases h
  | cons b0 rest =>
    unfold nnUtf8CodePoint at h
    dsimp only at h
    split_ifs at h with h0 h1 h2 h3 h4
    · cases h
      exact ⟨by simp, .one h0⟩
    · cases rest with
      | nil => cases h
      | cons b1 t =>
        dsimp only at h
        split_ifs at h with hb
        cases h
        refine ⟨by simp, .two ?_ h2 ?_⟩
        · exact UInt8.not_lt.1 h1
        · rwa [not_not, Utf8.and_eq_iff_tail] at hb
    · cases rest with
      | nil => cases h
      | cons b1 rest =>
        dsimp only at h
        split_ifs at h with hE0 hED
        cases rest with
        | nil => cases h
        | cons b2 t =>
          dsimp only at h
          split_ifs at h with hb
          cases h
          simp only [ne_eq, Utf8.and_eq_iff_tail, not_or, not_not] at hb
          refine ⟨by simp, .three ?_ h3 ?_ ?_ hb.1 hb.2⟩ <;> grind
    · cases rest with
      | nil => cases h
      | cons b1 rest =>
        dsimp only at h
        split_ifs at h with hF0 hF4
        rcases rest with _ | ⟨b2, _ | ⟨b3, t⟩⟩
        · cases h
        · cases h
        · dsimp only at h
          split_ifs at h with hb
          cases h
          simp only [ne_eq, Utf8.and_eq_iff_tail, not_or, not_not] at hb
          refine ⟨by simp, .four ?_ h4 ?_ ?_ hb.1 hb.2.1 hb.2.2⟩ <;> grind

/-- A mistake stays one when more bytes follow. -/
theorem nnUtf8CodePoint_append_of_invalid {l : List UInt8} (h : nnUtf8CodePoint l = .invalid)
    (x : List UInt8) : nnUtf8CodePoint (l ++ x) = .invalid := by
  rcases l with _ | ⟨b0, _ | ⟨b1, _ | ⟨b2, _ | ⟨b3, t⟩⟩⟩⟩
  · cases h
  all_goals
    simp only [nnUtf8CodePoint, List.cons_append, List.nil_append] at h ⊢
    split_ifs at h ⊢ <;> rfl

/-- Four bytes are enough to tell. -/
theorem length_lt_of_fragment {l : List UInt8} (h : nnUtf8CodePoint l = .fragment) :
    l.length < 4 := by
  match l with
  | [] | [_] | [_, _] | [_, _, _] => simp
  | b0 :: b1 :: b2 :: b3 :: t =>
    simp only [nnUtf8CodePoint] at h
    split_ifs at h

theorem pos_of_valid {l : List UInt8} {n : ℕ} (h : nnUtf8CodePoint l = .valid n) : 0 < n := by
  obtain ⟨hn, hc⟩ := char_of_valid h
  obtain ⟨a, t, ht, -⟩ := hc.length_eq
  rcases Nat.eq_zero_or_pos n with rfl | hpos
  · cases ht
  · exact hpos

/-! ### The answers and the grammar -/

theorem octets_of_valid {l : List UInt8} {n : ℕ} (h : nnUtf8CodePoint l = .valid n)
    (x : List UInt8) :
    Octets (l ++ x) ↔ Octets (l.drop n ++ x) := by
  obtain ⟨-, hc⟩ := char_of_valid h
  conv_lhs => rw [← List.take_append_drop n l, List.append_assoc]
  exact Utf8.octets_append hc _

/-- A well-formed text starts with a character or is empty. -/
theorem codePoint_of_octets {l : List UInt8} (h : Octets l) (hl : l ≠ []) :
    ∃ n, nnUtf8CodePoint l = .valid n := by
  cases h with
  | nil => exact absurd rfl hl
  | cons hc hr => exact ⟨_, nnUtf8CodePoint_append hc _⟩

theorem not_octets_of_invalid {l : List UInt8} (h : nnUtf8CodePoint l = .invalid) (x : List UInt8) :
    ¬ Octets (l ++ x) := by
  intro ho
  have hinv := nnUtf8CodePoint_append_of_invalid h x
  have hne : l ++ x ≠ [] := by
    rintro heq
    rw [heq] at hinv
    cases hinv
  obtain ⟨n, hn⟩ := codePoint_of_octets ho hne
  rw [hinv] at hn
  cases hn

theorem not_octets_of_fragment {l : List UInt8} (h : nnUtf8CodePoint l = .fragment) (hl : l ≠ []) :
    ¬ Octets l := by
  intro ho
  obtain ⟨n, hn⟩ := codePoint_of_octets ho hl
  rw [h] at hn
  cases hn

end NanoSocket.Ws

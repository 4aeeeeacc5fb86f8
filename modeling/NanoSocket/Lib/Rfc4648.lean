import Mathlib.Tactic

/-!
# Base64

The encoding of RFC 4648, section 4: three bytes make four characters, and a last group of one or
two bytes is padded.
-/

namespace Rfc4648

/-- The characters that stand for 0 to 63. -/
def alphabet : List Char :=
  "ABCDEFGHIJKLMNOPQRSTUVWXYZabcdefghijklmnopqrstuvwxyz0123456789+/".toList

/-- The character for a number of six bits. -/
def char (v : ℕ) : UInt8 := UInt8.ofNat (alphabet.getD v '=').toNat

/-- The number of a character in ASCII. -/
def code (v : ℕ) : ℕ :=
  if v < 26 then v + 65 else if v < 52 then v + 71 else if v < 62 then v - 4
    else if v = 62 then 43 else 47

theorem toNat_char {v : ℕ} (h : v < 64) : (char v).toNat = code v := by
  have hall : ∀ v : Fin 64, (char v.val).toNat = code v.val := by
    set_option maxRecDepth 20000 in decide
  exact hall ⟨v, h⟩

theorem char_inj {v w : ℕ} (hv : v < 64) (hw : w < 64) (h : char v = char w) : v = w := by
  have hcode : code v = code w := by rw [← toNat_char hv, h, toNat_char hw]
  unfold code at hcode
  split_ifs at hcode <;> omega

/-- The character that pads. -/
def padding : UInt8 := UInt8.ofNat '='.toNat

/-- The text of some bytes. -/
def encode : List UInt8 → List UInt8
  | a :: b :: c :: l =>
    char (a.toNat / 4) :: char (a.toNat % 4 * 16 + b.toNat / 16) :: char
      (b.toNat % 16 * 4 + c.toNat / 64) ::
      char (c.toNat % 64) :: encode l
  | [a, b] =>
    [char (a.toNat / 4), char (a.toNat % 4 * 16 + b.toNat / 16), char (b.toNat % 16 * 4), padding]
  | [a] => [char (a.toNat / 4), char (a.toNat % 4 * 16), padding, padding]
  | [] => []

/-- Three bytes make four characters. -/
theorem length_encode (l : List UInt8) : (encode l).length = 4 * ((l.length + 2) / 3) := by
  induction l using encode.induct with
  | case1 a b c l ih =>
    simp only [encode, List.length_cons, ih]
    omega
  | case2 a b => simp only [encode, List.length_cons, List.length_nil]
  | case3 a => simp only [encode, List.length_cons, List.length_nil]
  | case4 => rfl

example :
    encode [0x66, 0x6f, 0x6f, 0x62] = [0x5a, 0x6d, 0x39, 0x76, 0x59, 0x67, 0x3d, 0x3d] := by decide

/-! ### Reading -/

/-- The number that a character stands for. -/
def value (c : UInt8) : Option ℕ := (List.range 64).find? fun n => char n == c

theorem char_of_value {c : UInt8} {n : ℕ} (h : value c = some n) : char n = c :=
  beq_iff_eq.1 (List.find?_some (p := fun n => char n == c) h)

theorem value_lt {c : UInt8} {n : ℕ} (h : value c = some n) : n < 64 :=
  List.mem_range.1 (List.mem_of_find?_eq_some h)

theorem value_char {n : ℕ} (h : n < 64) : value (char n) = some n := by
  have hsome : (value (char n)).isSome :=
    List.find?_isSome.2 ⟨n, List.mem_range.2 h, beq_self_eq_true _⟩
  obtain ⟨m, hm⟩ := Option.isSome_iff_exists.1 hsome
  rw [hm, char_inj (value_lt hm) h (char_of_value hm)]

/-- The bytes of groups of six bits; a last group alone makes no byte. -/
def octets : List ℕ → List UInt8
  | a :: b :: c :: d :: l =>
    UInt8.ofNat (a * 4 + b / 16) :: UInt8.ofNat (b % 16 * 16 + c / 4) :: UInt8.ofNat
      (c % 4 * 64 + d) :: octets l
  | [a, b, c] => [UInt8.ofNat (a * 4 + b / 16), UInt8.ofNat (b % 16 * 16 + c / 4)]
  | [a, b] => [UInt8.ofNat (a * 4 + b / 16)]
  | [_] => []
  | [] => []

/-- The bits behind the last byte. -/
def leftover : List ℕ → ℕ
  | _ :: _ :: _ :: _ :: l => leftover l
  | [_, _, c] => c % 4
  | [_, b] => b % 16
  | [a] => a
  | [] => 0

theorem length_octets (l : List ℕ) : (octets l).length = 6 * l.length / 8 := by
  induction l using octets.induct with
  | case1 a b c d l ih =>
    simp only [octets, List.length_cons, ih]
    omega
  | case2 a b c => simp [octets]
  | case3 a b => simp [octets]
  | case4 a => simp [octets]
  | case5 => rfl

/-- One more group, when it makes a byte with the bits before it. -/
theorem octets_concat {l : List ℕ} (h : l.length % 4 ≠ 0) (n : ℕ) :
    octets (l ++ [n]) =
      octets l ++ [UInt8.ofNat ((leftover l * 64 + n) / 2 ^ (6 * (l.length + 1) % 8))] := by
  induction l using octets.induct with
  | case1 a b c d l ih =>
    have hlen : 6 * ((a :: b :: c :: d :: l).length + 1) % 8 = 6 * (l.length + 1) % 8 := by
      simp only [List.length_cons]
      omega
    have hrec := ih (by simp only [List.length_cons] at h; omega)
    rw [hlen]
    simp only [List.cons_append, octets, leftover, hrec]
  | case2 a b c => simp [octets, leftover]
  | case3 a b =>
    have hbits : (b % 16 * 64 + n) / 4 = b % 16 * 16 + n / 4 := by omega
    simp [octets, leftover, hbits]
  | case4 a =>
    have hbits : (a * 64 + n) / 16 = a * 4 + n / 16 := by omega
    simp [octets, leftover, hbits]
  | case5 => exact absurd rfl h

/-- One more group at the start of four. -/
theorem octets_concat_of_dvd {l : List ℕ} (h : l.length % 4 = 0) (n : ℕ) :
    octets (l ++ [n]) = octets l := by
  induction l using octets.induct with
  | case1 a b c d l ih =>
    have hrec := ih (by simp only [List.length_cons] at h; omega)
    simp only [List.cons_append, octets, hrec]
  | case2 a b c => cases h
  | case3 a b => cases h
  | case4 a => cases h
  | case5 => rfl

theorem leftover_concat (l : List ℕ) {n : ℕ} (hn : n < 64) :
    leftover (l ++ [n]) = (leftover l * 64 + n) % 2 ^ (6 * (l.length + 1) % 8) := by
  induction l using octets.induct with
  | case1 a b c d l ih =>
    have hlen : 6 * ((a :: b :: c :: d :: l).length + 1) % 8 = 6 * (l.length + 1) % 8 := by
      simp only [List.length_cons]
      omega
    rw [hlen]
    simp only [List.cons_append, leftover, ih]
  | case2 a b c => simp [leftover, Nat.mod_one]
  | case3 a b => simp [leftover]; omega
  | case4 a => simp [leftover]; omega
  | case5 => simp [leftover]; omega

example :
    octets ((encode [0x66, 0x6f, 0x6f, 0x62]).filterMap value) = [0x66, 0x6f, 0x6f, 0x62] := by
  decide

end Rfc4648

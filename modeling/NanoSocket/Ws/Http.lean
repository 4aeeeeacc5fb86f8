import NanoSocket.Core.Fault
import NanoSocket.Lib.Search

/-!
# Strings in the opening handshake (`transports/ws/ws_handshake.c`, `utils/strcasestr.c`)

The handshake reads what it has received as a string that a NUL ends.  A pointer into it is the
string from there on, so a position in the text and the text behind it are the same thing here; a
value that was found is such a pointer with a length.
-/

namespace NanoSocket.Ws

/-- `tolower`. -/
def tolower (c : UInt8) : UInt8 := if 0x41 ≤ c ∧ c ≤ 0x5A then c + 0x20 else c

theorem toNat_tolower (c : UInt8) :
    (tolower c).toNat = if 0x41 ≤ c.toNat ∧ c.toNat ≤ 0x5A then c.toNat + 0x20 else c.toNat := by
  have hle : (0x41 ≤ c ∧ c ≤ 0x5A) ↔ 0x41 ≤ c.toNat ∧ c.toNat ≤ 0x5A := Iff.rfl
  simp only [tolower, hle]
  split_ifs with h
  · rw [UInt8.toNat_add, Nat.mod_eq_of_lt (by change c.toNat + 0x20 < 256; omega)]
    rfl
  · rfl

/-- Only letters are changed, to letters. -/
theorem tolower_eq_iff {d : UInt8} (h : d.toNat < 0x41) (c : UInt8) : tolower c = d ↔ c = d := by
  rw [← UInt8.toNat_inj, toNat_tolower, ← UInt8.toNat_inj]
  split_ifs <;> omega

/-- The string at the start of a buffer. -/
def cstring (buf : List UInt8) : List UInt8 := buf.takeWhile (· ≠ 0)

/-- Two characters are taken for the same one. -/
def sameChar (caseInsensitive : Bool) (a b : UInt8) : Bool :=
  if caseInsensitive then tolower a = tolower b else a = b

/-- The loop of `nn_ws_match_token`: the string behind the token. -/
def matchChars (caseInsensitive : Bool) : List UInt8 → List UInt8 → Option (List UInt8)
  | [], pos => some pos
  | _ :: _, [] => none
  | t :: token, c :: pos =>
    if sameChar caseInsensitive t c then matchChars caseInsensitive token pos else none

/-- `nn_ws_match_token`: the position behind the match. -/
def nnWsMatchToken (token subj : List UInt8) (caseInsensitive ignoreLeadingSp : Bool) :
    Option (List UInt8) :=
  matchChars caseInsensitive token (if ignoreLeadingSp then subj.dropWhile (· = 0x20) else subj)

/-- A pointer into the string, which may be NULL, and a length. -/
structure Value where
  addr : Option (List UInt8)
  len : ℕ
  deriving DecidableEq, Repr

/-- `NULL` and `0`. -/
def Value.null : Value := { addr := none, len := 0 }

/-- The characters of a value. -/
def Value.chars (self : Value) : List UInt8 := (self.addr.getD []).take self.len

/-- The loop of `nn_ws_match_value` that takes spaces from the end of a value. -/
def trimEnd (chars : List UInt8) : List UInt8 := (chars.reverse.dropWhile (· = 0x20)).reverse

/-- `nn_ws_match_value`: the value, and the position behind the termination sequence. -/
def nnWsMatchValue (termseq subj : List UInt8) (ignoreLeadingSp ignoreTrailingSp : Bool) :
    Option (Value × List UInt8) :=
  match Search.cut termseq subj with
  | none => none
  | some (chars, pos) =>
    let start := if ignoreLeadingSp then chars.dropWhile (· = 0x20) else chars
    let value := if ignoreTrailingSp then trimEnd start else start
    some ({ addr := some (start ++ termseq ++ pos), len := value.length }, pos)

/-- `nn_ws_validate_value`. -/
def nnWsValidateValue (expected : List UInt8) (subj : Value) (caseInsensitive : Bool) : Bool :=
  if expected.length ≠ subj.len then false
  else (expected.zip (subj.addr.getD [])).all fun p => sameChar caseInsensitive p.1 p.2

/-- `nn_strncasecmp` finds no difference; the NUL counts as a character. -/
def nnStrncasecmp : List UInt8 → List UInt8 → ℕ → Bool
  | _, _, 0 => true
  | [], [], _ + 1 => true
  | a, b, n + 1 => tolower (a.headD 0) = tolower (b.headD 0) && nnStrncasecmp a.tail b.tail n

/-- `nn_strcasestr`. -/
def nnStrcasestr (key : List UInt8) : List UInt8 → Option (List UInt8)
  | [] => none
  | c :: str => if nnStrncasecmp (c :: str) key key.length then some (c :: str)
      else nnStrcasestr key str

end NanoSocket.Ws

import Mathlib.Data.List.GetD
import Mathlib.Tactic

/-!
# SHA-1

The hash of the Secure Hash Standard (FIPS 180), for messages of whole bytes: the message is padded
to blocks of 64 bytes, every block is expanded to a schedule of 80 words, and the words are mixed
into five words in 80 rounds.

`hashBlocks_append` says that a block counts as soon as it is there, whatever follows it;
`zeros_spec` and `zeros_least` say how far the padding goes.
-/

namespace Fips180

/-- The rotation to the left. -/
def rotl (n x : UInt32) : UInt32 := x <<< n ||| x >>> (32 - n)

def ch (x y z : UInt32) : UInt32 := (x &&& y) ^^^ (~~~x &&& z)

def parity (x y z : UInt32) : UInt32 := x ^^^ y ^^^ z

def maj (x y z : UInt32) : UInt32 := (x &&& y) ^^^ (x &&& z) ^^^ (y &&& z)

/-- The function of round `t`. -/
def f (t : ℕ) : UInt32 → UInt32 → UInt32 → UInt32 :=
  if t < 20 then ch else if t < 40 then parity else if t < 60 then maj else parity

/-- The constant of round `t`. -/
def k (t : ℕ) : UInt32 :=
  if t < 20 then 0x5a827999 else if t < 40 then 0x6ed9eba1
    else if t < 60 then 0x8f1bbcdc else 0xca62c1d6

/-- The schedule of a block of 16 words. -/
def schedule (m : ℕ → UInt32) : ℕ → UInt32
  | t + 16 =>
    rotl 1 (schedule m (t + 13) ^^^ schedule m (t + 8) ^^^ schedule m (t + 2) ^^^ schedule m t)
  | t => m t

/-- The five words of a hash value, and the working variables. -/
@[ext] structure Words where
  a : UInt32
  b : UInt32
  c : UInt32
  d : UInt32
  e : UInt32
  deriving DecidableEq, Repr

/-- The initial hash value. -/
def initial : Words := ⟨0x67452301, 0xefcdab89, 0x98badcfe, 0x10325476, 0xc3d2e1f0⟩

/-- Round `t` with the words `w` of the schedule. -/
def round (w : ℕ → UInt32) (v : Words) (t : ℕ) : Words :=
  ⟨rotl 5 v.a + f t v.b v.c v.d + v.e + k t + w t, v.a, rotl 30 v.b, v.c, v.d⟩

/-- The hash value after a block. -/
def compress (h : Words) (m : ℕ → UInt32) : Words :=
  let v := (List.range 80).foldl (round (schedule m)) h
  ⟨h.a + v.a, h.b + v.b, h.c + v.c, h.d + v.d, h.e + v.e⟩

/-- The word at byte `i` of a message. -/
def wordAt (m : List UInt8) (i : ℕ) : UInt32 :=
  (m.getD i 0).toUInt32 <<< 24 ||| (m.getD (i + 1) 0).toUInt32 <<< 16 |||
    (m.getD (i + 2) 0).toUInt32 <<< 8 ||| (m.getD (i + 3) 0).toUInt32

/-- The hash value after the first `n` blocks. -/
def hashBlocks (m : List UInt8) (n : ℕ) : Words :=
  (List.range n).foldl (fun h i => compress h fun t => wordAt m (64 * i + 4 * t)) initial

/-- The bytes of zeros between the one bit and the length. -/
def zeros (n : ℕ) : ℕ := (119 - n % 64) % 64

/-- A number of 64 bits. -/
def lengthBytes (n : ℕ) : List UInt8 :=
  (List.range 8).map fun i => UInt8.ofNat (n / 2 ^ (8 * (7 - i)))

/-- A message, a one bit, zeros, and the length of the message in bits. -/
def pad (m : List UInt8) : List UInt8 :=
  m ++ 0x80 :: (List.replicate (zeros m.length) 0 ++ lengthBytes (8 * m.length))

/-- The bytes of a word in network order. -/
def wordBytes (w : UInt32) : List UInt8 :=
  [(w >>> 24).toUInt8, (w >>> 16).toUInt8, (w >>> 8).toUInt8, w.toUInt8]

/-- The message digest. -/
def digest (m : List UInt8) : List UInt8 :=
  let h := hashBlocks (pad m) ((pad m).length / 64)
  [h.a, h.b, h.c, h.d, h.e].flatMap wordBytes

theorem hashBlocks_succ (m : List UInt8) (n : ℕ) :
    hashBlocks m (n + 1) = compress (hashBlocks m n) fun t => wordAt m (64 * n + 4 * t) := by
  rw [hashBlocks, List.range_succ, List.foldl_append]
  rfl

theorem wordAt_append {m : List UInt8} {i : ℕ} (h : i + 4 ≤ m.length) (l : List UInt8) :
    wordAt (m ++ l) i = wordAt m i := by
  have hget : ∀ j < 4, (m ++ l).getD (i + j) 0 = m.getD (i + j) 0 := fun j hj =>
    List.getD_append _ _ _ _ (by omega)
  rw [wordAt, wordAt, hget 1 (by decide), hget 2 (by decide), hget 3 (by decide),
    show i = i + 0 from rfl, hget 0 (by decide)]

/-- Only the first 16 words of a block count. -/
theorem schedule_congr {m m' : ℕ → UInt32} (h : ∀ t < 16, m t = m' t) (t : ℕ) :
    schedule m t = schedule m' t := by
  induction t using Nat.strong_induction_on with
  | _ t ih =>
    rcases Nat.lt_or_ge t 16 with ht | ht
    · have hbase : ∀ m : ℕ → UInt32, schedule m t = m t := by
        intro m
        interval_cases t <;> rfl
      rw [hbase, hbase, h t ht]
    · obtain ⟨t, rfl⟩ := Nat.exists_eq_add_of_le' ht
      rw [schedule, schedule, ih (t + 13) (by omega), ih (t + 8) (by omega), ih (t + 2) (by omega),
        ih t (by omega)]

theorem compress_congr (h : Words) {m m' : ℕ → UInt32} (hm : ∀ t < 16, m t = m' t) :
    compress h m = compress h m' := by
  rw [compress, compress, funext (schedule_congr hm)]

/-- The first blocks do not depend on what follows them. -/
theorem hashBlocks_append {m : List UInt8} {n : ℕ} (h : 64 * n ≤ m.length) (l : List UInt8) :
    hashBlocks (m ++ l) n = hashBlocks m n := by
  induction n with
  | zero => rw [hashBlocks, hashBlocks, List.range_zero, List.foldl_nil, List.foldl_nil]
  | succ n ih =>
    rw [hashBlocks_succ, hashBlocks_succ, ih (by omega)]
    exact compress_congr _ fun t ht => wordAt_append (by omega) l

/-- The zeros fill a block up to the length. -/
theorem zeros_spec (n : ℕ) : (n + 1 + zeros n) % 64 = 56 := by
  unfold zeros
  omega

/-- There are no more zeros than it takes. -/
theorem zeros_least {n j : ℕ} (h : j < zeros n) : (n + 1 + j) % 64 ≠ 56 := by
  unfold zeros at h
  omega

end Fips180

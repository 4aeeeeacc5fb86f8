import NanoSocket.Lib.Rfc4648
import NanoSocket.Ws.Hash

/-!
# Base64 in buffers (`transports/utils/base64.c`)

`nnBase64Encode` of the handshake makes a text.  Here are the functions with the buffers that they
write: `nnBase64Encode_eq` says that the text is that of the standard, if it fits, and
`base64_round_trip` that decoding it gives the bytes back.
-/

namespace NanoSocket.Ws

/-! ### The text -/

theorem encodemap_eq {v : ℕ} (h : v < 64) : encodemap v = Rfc4648.char v := by
  rw [← UInt8.toNat_inj, Rfc4648.toNat_char h, encodemap, Rfc4648.code]
  split_ifs
  · simp
    omega
  · simp
    omega
  · simp
    omega
  · simp
  · simp

section Text

variable {outLen : ℕ} {self : Base64}

theorem toNat_ofNat_mod {r : ℕ} (hr : r < 32) : (UInt32.ofNat r).toNat % 32 = r := by
  rw [UInt32.toNat_ofNat', Nat.mod_eq_of_lt (a := r) (by omega), Nat.mod_eq_of_lt hr]

/-- The accumulator after some bits more; the bits at the top are lost. -/
theorem toNat_shl_or (v : UInt32) {r n : ℕ} (hr : r < 32) {x : UInt32} (hx : x.toNat = n)
    (hn : n < 2 ^ r) :
    (v <<< UInt32.ofNat r ||| x).toNat = (v.toNat * 2 ^ r + n) % 2 ^ 32 := by
  have hlt : n < 2 ^ 32 := lt_trans hn (Nat.pow_lt_pow_right (by decide) hr)
  rw [UInt32.toNat_or, UInt32.toNat_shiftLeft, toNat_ofNat_mod hr,
    hx, ← Nat.mod_eq_of_lt hlt, ← Nat.or_mod_two_pow,
    Nat.mod_eq_of_lt hlt, ← Nat.shiftLeft_add_eq_or_of_lt hn, Nat.shiftLeft_eq]

/-- Six bits of the accumulator. -/
theorem toNat_shr_and (v : UInt32) {r : ℕ} (hr : r < 32) :
    ((v >>> UInt32.ofNat r) &&& 63).toNat = v.toNat / 2 ^ r % 64 := by
  have hmask : (63 : UInt32).toNat = 2 ^ 6 - 1 := rfl
  rw [UInt32.toNat_and, UInt32.toNat_shiftRight, toNat_ofNat_mod hr, hmask,
    Nat.and_two_pow_sub_one_eq_mod, Nat.shiftRight_eq_div_pow]

theorem put_of_lt (h : self.out.length < outLen) (ch : UInt8) :
    self.put outLen ch = some { self with out := self.out ++ [ch] } := if_neg (Nat.not_le.2 h)

theorem put_of_le (h : outLen ≤ self.out.length) (ch : UInt8) : self.put outLen ch = none :=
  if_pos h

/-- The accumulator with one byte more. -/
def pushByte (v : UInt32) (ch : UInt8) : UInt32 := v <<< 8 ||| ch.toUInt32

theorem toNat_pushByte (v : UInt32) (ch : UInt8) :
    (pushByte v ch).toNat = (v.toNat * 256 + ch.toNat) % 2 ^ 32 :=
  toNat_shl_or v (r := 8) (by decide) (UInt8.toNat_toUInt32 ch) ch.toNat_lt

/-- The next six bits of the accumulator are written. -/
theorem flush_succ {fuel r n : ℕ} (hr : r < 32) (out : List UInt8) {v : UInt32}
    (hn : v.toNat / 2 ^ r % 64 = n) :
    Base64.flush outLen (fuel + 1) ⟨out, v, r + 6⟩ =
      if out.length < outLen then Base64.flush outLen fuel ⟨out ++ [Rfc4648.char n], v, r⟩
        else none := by
  rw [Base64.flush, if_pos (Nat.le_add_left 6 r)]
  simp only [Nat.add_sub_cancel]
  rw [toNat_shr_and _ hr, encodemap_eq (Nat.mod_lt _ (by decide)), hn]
  split_ifs with h
  · rw [put_of_lt h]
    rfl
  · rw [put_of_le (Nat.not_lt.1 h)]
    rfl

theorem flush_of_lt {fuel r : ℕ} (hr : r < 6) (out : List UInt8) (v : UInt32) :
    Base64.flush outLen fuel ⟨out, v, r⟩ = some ⟨out, v, r⟩ := by
  cases fuel with
  | zero => rfl
  | succ fuel => exact if_neg (Nat.not_le.2 hr)

theorem bytes_cons (out : List UInt8) (v : UInt32) (rem : ℕ) (ch : UInt8) (l : List UInt8) :
    Base64.bytes outLen ⟨out, v, rem⟩ (ch :: l) =
      (Base64.flush outLen (rem + 8) ⟨out, pushByte v ch, rem + 8⟩).bind fun s =>
        Base64.bytes outLen s l := rfl

variable (out : List UInt8) (v : UInt32) (l : List UInt8)

/-- The first byte of a group. -/
theorem bytes_first (a : UInt8) :
    Base64.bytes outLen ⟨out, v, 0⟩ (a :: l) =
      if out.length < outLen then Base64.bytes outLen ⟨out ++ [Rfc4648.char (a.toNat / 4)],
        pushByte v a, 2⟩ l
      else none := by
  have hn : (pushByte v a).toNat / 2 ^ 2 % 64 = a.toNat / 4 := by
    have := a.toNat_lt
    rw [toNat_pushByte]
    omega
  rw [bytes_cons, flush_succ (r := 2) (by decide) out hn]
  split_ifs
  · rw [flush_of_lt (by decide)]
    rfl
  · rfl

/-- The second byte of a group. -/
theorem bytes_second (a b : UInt8) :
    Base64.bytes outLen ⟨out, pushByte v a, 2⟩ (b :: l) =
      if out.length < outLen then
        Base64.bytes outLen ⟨out ++ [Rfc4648.char (a.toNat % 4 * 16 + b.toNat / 16)],
          pushByte (pushByte v a) b, 4⟩ l
      else none := by
  have hn : (pushByte (pushByte v a) b).toNat / 2 ^ 4 % 64 = a.toNat % 4 * 16 + b.toNat / 16 := by
    have := a.toNat_lt
    have := b.toNat_lt
    rw [toNat_pushByte, toNat_pushByte]
    omega
  rw [bytes_cons, flush_succ (r := 4) (by decide) out hn]
  split_ifs
  · rw [flush_of_lt (by decide)]
    rfl
  · rfl

/-- The third byte of a group. -/
theorem bytes_third (b c : UInt8) :
    Base64.bytes outLen ⟨out, pushByte v b, 4⟩ (c :: l) =
      if out.length + 1 < outLen then
        Base64.bytes outLen
          ⟨out ++ [Rfc4648.char (b.toNat % 16 * 4 + c.toNat / 64), Rfc4648.char (c.toNat % 64)],
            pushByte (pushByte v b) c, 0⟩ l
      else none := by
  have hb := b.toNat_lt
  have hc := c.toNat_lt
  have hn : (pushByte (pushByte v b) c).toNat / 2 ^ 6 % 64 = b.toNat % 16 * 4 + c.toNat / 64 := by
    rw [toNat_pushByte, toNat_pushByte]
    omega
  have hn' : (pushByte (pushByte v b) c).toNat / 2 ^ 0 % 64 = c.toNat % 64 := by
    rw [toNat_pushByte, toNat_pushByte]
    omega
  rw [bytes_cons, flush_succ (r := 6) (by decide) out hn, flush_succ (r := 0) (by decide) _ hn',
    List.length_append, List.length_singleton, List.append_assoc, flush_of_lt (by decide)]
  split_ifs
  · rfl
  · rfl
  · omega
  · rfl

/-- The bits that are left over are written with zeros behind them. -/
theorem toNat_shl_and (v : UInt32) {r : ℕ} (hr : r < 6) :
    ((v <<< UInt32.ofNat r) &&& 63).toNat = v.toNat * 2 ^ r % 64 := by
  have hmask : (63 : UInt32).toNat = 2 ^ 6 - 1 := rfl
  rw [UInt32.toNat_and, UInt32.toNat_shiftLeft, toNat_ofNat_mod (by omega), hmask,
    Nat.and_two_pow_sub_one_eq_mod, Nat.shiftLeft_eq]
  omega

theorem put_bind (self : Base64) (ch : UInt8) (f : Base64 → Option (List UInt8)) :
    (self.put outLen ch).bind f = if self.out.length < outLen then
      f { self with out := self.out ++ [ch] } else none := by
  split_ifs with h
  · rw [put_of_lt h, Option.bind_some]
  · rw [put_of_le (Nat.not_lt.1 h), Option.bind_none]

/-- The padding and the check that there is room for the NUL. -/
def padAndClose (outLen fuel : ℕ) (self : Base64) : Option (List UInt8) :=
  (Base64.pad outLen fuel self).bind fun self => if outLen ≤ self.out.length then none
    else some self.out

/-- The bits that are left over. -/
def Base64.leftover (outLen : ℕ) (self : Base64) : Option Base64 :=
  if self.rem ≠ 0 then self.put outLen
    (encodemap ((self.v <<< UInt32.ofNat (6 - self.rem)) &&& 63).toNat) else some self

/-- What follows the bytes. -/
def finish (outLen : ℕ) (self : Base64) : Option (List UInt8) :=
  (self.leftover outLen).bind (padAndClose outLen 4)

theorem nnBase64Encode_finish (input : List UInt8) :
    nnBase64Encode input outLen = (Base64.bytes outLen ⟨[], 0, 0⟩ input).bind (finish outLen) := by
  unfold nnBase64Encode finish Base64.leftover
  refine congrArg (Option.bind _) (funext fun self => ?_)
  split_ifs <;> rfl

theorem padAndClose_whole (fuel rem : ℕ) (h : out.length % 4 = 0) :
    padAndClose outLen fuel ⟨out, v, rem⟩ = if out.length < outLen then some out else none := by
  have hpad : Base64.pad outLen fuel ⟨out, v, rem⟩ = some ⟨out, v, rem⟩ := by
    cases fuel with
    | zero => rfl
    | succ fuel => exact if_neg (not_not.2 h)
  rw [padAndClose, hpad, Option.bind_some, ← ite_not]
  simp only [not_le]

theorem padAndClose_more (fuel rem : ℕ) (h : out.length % 4 ≠ 0) :
    padAndClose outLen (fuel + 1) ⟨out, v, rem⟩ =
      if out.length < outLen then padAndClose outLen fuel ⟨out ++ [Rfc4648.padding], v, rem⟩
        else none := by
  rw [padAndClose, Base64.pad, if_pos h]
  split_ifs with hroom
  · rw [put_of_lt hroom]
    rfl
  · rw [put_of_le (Nat.not_lt.1 hroom)]
    rfl

/-- The end after whole groups. -/
theorem finish_whole (h : out.length % 4 = 0) :
    finish outLen ⟨out, v, 0⟩ = if out.length < outLen then some out else none :=
  padAndClose_whole out v 4 0 h

/-- The end after whole groups and one byte. -/
theorem finish_one (h : out.length % 4 = 1) (a : UInt8) :
    finish outLen ⟨out, pushByte v a, 2⟩ =
      if out.length + 3 < outLen then
        some (out ++ [Rfc4648.char (a.toNat % 4 * 16), Rfc4648.padding, Rfc4648.padding])
      else none := by
  have hn : ((pushByte v a <<< UInt32.ofNat 4) &&& 63).toNat = a.toNat % 4 * 16 := by
    rw [toNat_shl_and _ (by decide), toNat_pushByte]
    omega
  rw [finish, Base64.leftover, if_pos (by simp only; decide), show 6 - 2 = 4 from rfl, hn,
    encodemap_eq (by omega), put_bind]
  simp only
  rw [padAndClose_more _ _ 3 _ (by simp only [List.length_append, List.length_singleton]; omega),
    padAndClose_more _ _ 2 _ (by simp only [List.length_append, List.length_singleton]; omega),
    padAndClose_whole _ _ 2 _ (by simp only [List.length_append, List.length_singleton]; omega)]
  simp only [List.length_append, List.length_cons, List.length_nil, List.append_assoc,
    List.cons_append, List.nil_append]
  split_ifs <;> first | rfl | omega

/-- The end after whole groups and two bytes. -/
theorem finish_two (h : out.length % 4 = 2) (b : UInt8) :
    finish outLen ⟨out, pushByte v b, 4⟩ =
      if out.length + 2 < outLen then
        some (out ++ [Rfc4648.char (b.toNat % 16 * 4), Rfc4648.padding]) else none := by
  have hn : ((pushByte v b <<< UInt32.ofNat 2) &&& 63).toNat = b.toNat % 16 * 4 := by
    rw [toNat_shl_and _ (by decide), toNat_pushByte]
    omega
  rw [finish, Base64.leftover, if_pos (by simp only; decide), show 6 - 4 = 2 from rfl, hn,
    encodemap_eq (by omega), put_bind]
  simp only
  rw [padAndClose_more _ _ 3 _ (by simp only [List.length_append, List.length_singleton]; omega),
    padAndClose_whole _ _ 3 _ (by simp only [List.length_append, List.length_singleton]; omega)]
  simp only [List.length_append, List.length_cons, List.length_nil, List.append_assoc,
    List.cons_append, List.nil_append]
  split_ifs <;> first | rfl | omega

/-- What is made of bytes after whole groups. -/
theorem bytes_finish (h : out.length % 4 = 0) :
    (Base64.bytes outLen ⟨out, v, 0⟩ l).bind (finish outLen) =
      if out.length + 4 * ((l.length + 2) / 3) < outLen then some (out ++ Rfc4648.encode l)
        else none := by
  induction l using Rfc4648.encode.induct generalizing out v with
  | case1 a b c l ih =>
    rw [bytes_first, bytes_second, bytes_third, List.append_assoc, List.append_assoc]
    have hrest :=
      ih (out ++
        ([Rfc4648.char (a.toNat / 4)] ++ ([Rfc4648.char (a.toNat % 4 * 16 + b.toNat / 16)] ++
      [Rfc4648.char (b.toNat % 16 * 4 + c.toNat / 64), Rfc4648.char (c.toNat % 64)])))
      (pushByte (pushByte (pushByte v a) b) c)
        (by simp only [List.length_append, List.length_cons, List.length_nil]; omega)
    simp only [List.length_append, List.length_cons, List.length_nil, List.append_assoc,
      List.cons_append, List.nil_append] at hrest ⊢
    rw [Rfc4648.encode]
    split_ifs with h₁ h₂ h₃ h₄
    · rw [hrest, if_pos (by omega)]
    · rw [hrest, if_neg (by omega)]
    all_goals first | rfl | omega
  | case2 a b =>
    have hend : finish outLen _ = _ := finish_two (out ++ [Rfc4648.char (a.toNat / 4)] ++
      [Rfc4648.char (a.toNat % 4 * 16 + b.toNat / 16)]) (pushByte v a)
      (by simp only [List.length_append, List.length_cons, List.length_nil]; omega) b
    rw [bytes_first, bytes_second, Rfc4648.encode]
    simp only [List.length_append, List.length_cons, List.length_nil, List.append_assoc,
      List.cons_append, List.nil_append, Nat.zero_add, Nat.reduceAdd, Nat.reduceDiv] at hend ⊢
    split_ifs with h₁ h₂ h₃
    · exact hend.trans (if_pos (by omega))
    · exact hend.trans (if_neg (by omega))
    all_goals first | rfl | omega
  | case3 a =>
    have hend : finish outLen _ = _ := finish_one (out ++ [Rfc4648.char (a.toNat / 4)]) v
      (by simp only [List.length_append, List.length_cons, List.length_nil]; omega) a
    rw [bytes_first, Rfc4648.encode]
    simp only [List.length_append, List.length_cons, List.length_nil, List.append_assoc,
      List.cons_append, List.nil_append, Nat.zero_add, Nat.reduceAdd, Nat.reduceDiv] at hend ⊢
    split_ifs with h₁ h₂
    · exact hend.trans (if_pos (by omega))
    · exact hend.trans (if_neg (by omega))
    all_goals first | rfl | omega
  | case4 =>
    rw [Rfc4648.encode, List.append_nil]
    exact finish_whole out v h

end Text

/-- The text is that of the standard, if it fits with a NUL behind it. -/
theorem nnBase64Encode_eq (input : List UInt8) (outLen : ℕ) :
    nnBase64Encode input outLen =
      if 4 * ((input.length + 2) / 3) < outLen then some (Rfc4648.encode input) else none := by
  rw [nnBase64Encode_finish, bytes_finish _ _ _ (by rfl)]
  simp

/-! ### The buffers -/

/-- The variables of both loops, and the buffer `out`. -/
structure Base64Buf where
  out : List UInt8
  io : ℕ
  v : UInt32
  rem : ℕ
  deriving DecidableEq, Repr

namespace Base64Buf

/-- `out [io++] = ch`, when there is room. -/
def put (self : Base64Buf) (ch : UInt8) : Option Base64Buf :=
  if self.out.length ≤ self.io then none
    else some { self with out := self.out.set self.io ch, io := self.io + 1 }

/-- The loop `while (rem >= 6)`. -/
def flush : ℕ → Base64Buf → Option Base64Buf
  | 0, self => some self
  | fuel + 1, self =>
    if 6 ≤ self.rem then do
      let rem := self.rem - 6
      let self ← { self with rem }.put (encodemap ((self.v >>> UInt32.ofNat rem) &&& 63).toNat)
      flush fuel self
    else some self

/-- The loop of `nn_base64_encode` over the bytes; the index does not wrap below 2^32 of them. -/
def bytes : Base64Buf → List UInt8 → Option Base64Buf
  | self, [] => some self
  | self, ch :: input => do
    let self := { self with v := self.v <<< 8 ||| ch.toUInt32, rem := self.rem + 8 }
    bytes (← flush self.rem self) input

/-- The loop that pads to a multiple of 4. -/
def pad : ℕ → Base64Buf → Option Base64Buf
  | 0, self => some self
  | fuel + 1, self => if self.io % 4 ≠ 0 then do pad fuel (← self.put 0x3D) else some self

/-- `if (rem)`: the bits that are left over. -/
def leftover (self : Base64Buf) : Option Base64Buf :=
  if self.rem ≠ 0 then self.put (encodemap ((self.v <<< UInt32.ofNat (6 - self.rem)) &&& 63).toNat)
    else some self

/-- `nn_base64_encode`: what it returns, as an `int`, and the buffer; nothing for `-ENOBUFS`. -/
def nnBase64Encode (input out : List UInt8) : Option (Int32 × List UInt8) := do
  let self ← bytes { out, io := 0, v := 0, rem := 0 } input
  let self ← self.leftover
  let self ← pad 4 self
  if self.out.length ≤ self.io then none else some (Int32.ofNat self.io, self.out.set self.io 0)

/-- `isspace` for the characters of ASCII. -/
def isspace (c : UInt8) : Bool := c = 0x20 || 0x09 ≤ c && c ≤ 0x0D

/-- `DECODEMAP`, as far as the characters of ASCII go. -/
def decodemapTable : Vector UInt8 128 :=
  #v[0xFF, 0xFF, 0xFF, 0xFF, 0xFF, 0xFF, 0xFF, 0xFF, 0xFF, 0xFF, 0xFF, 0xFF, 0xFF, 0xFF, 0xFF, 0xFF,
    0xFF, 0xFF, 0xFF, 0xFF, 0xFF, 0xFF, 0xFF, 0xFF, 0xFF, 0xFF, 0xFF, 0xFF, 0xFF, 0xFF, 0xFF, 0xFF,
    0xFF, 0xFF, 0xFF, 0xFF, 0xFF, 0xFF, 0xFF, 0xFF, 0xFF, 0xFF, 0xFF, 0x3E, 0xFF, 0xFF, 0xFF, 0x3F,
    0x34, 0x35, 0x36, 0x37, 0x38, 0x39, 0x3A, 0x3B, 0x3C, 0x3D, 0xFF, 0xFF, 0xFF, 0x3E, 0xFF, 0xFF,
    0xFF, 0x00, 0x01, 0x02, 0x03, 0x04, 0x05, 0x06, 0x07, 0x08, 0x09, 0x0A, 0x0B, 0x0C, 0x0D, 0x0E,
    0x0F, 0x10, 0x11, 0x12, 0x13, 0x14, 0x15, 0x16, 0x17, 0x18, 0x19, 0xFF, 0xFF, 0xFF, 0xFF, 0xFF,
    0xFF, 0x1A, 0x1B, 0x1C, 0x1D, 0x1E, 0x1F, 0x20, 0x21, 0x22, 0x23, 0x24, 0x25, 0x26, 0x27, 0x28,
    0x29, 0x2A, 0x2B, 0x2C, 0x2D, 0x2E, 0x2F, 0x30, 0x31, 0x32, 0x33, 0xFF, 0xFF, 0xFF, 0xFF, 0xFF]

/-- `DECODEMAP [(int) c]`; a `char` from 0x80 on is negative. -/
def decodemap (c : UInt8) : Except Fault UInt8 :=
  if h : c.toNat < 128 then .ok (decodemapTable.get ⟨c.toNat, h⟩) else .error .outOfBounds

/-- `rem -= 8` and `out [io++] = (v >> rem) & 255`, if there are eight bits. -/
def emit (self : Base64Buf) : Option Base64Buf :=
  if 8 ≤ self.rem then { self with rem := self.rem - 8 }.put
    ((self.v >>> UInt32.ofNat (self.rem - 8)) &&& 255).toUInt8
  else some self

/-- The loop of `nn_base64_decode` over the characters; the index does not wrap below 2^32 of
them. -/
def chars : Base64Buf → List UInt8 → Except Fault (Option Base64Buf)
  | self, [] => .ok (some self)
  | self, c :: text =>
    if isspace c then chars self text
    else if c = 0x3D then .ok (some self)
    else do
      let ch ← decodemap c
      if ch = 0xFF then .ok (some self)
      else
        match { self with v := self.v <<< 6 ||| ch.toUInt32, rem := self.rem + 6 }.emit with
        | none => .ok none
        | some self => chars self text

/-- `nn_base64_decode`: what it returns, as an `int`, and the buffer; nothing for `-ENOBUFS`. -/
def nnBase64Decode (text out : List UInt8) : Except Fault (Option (Int32 × List UInt8)) := do
  let self ← chars { out, io := 0, v := 0, rem := 0 } text
  return self.bind fun self => self.emit.map fun self => (Int32.ofNat self.io, self.out)

end Base64Buf

/-- A text that was made, in front of what was in the buffer. -/
def Base64.inBuf (self : Base64) (buf : List UInt8) : Base64Buf :=
  ⟨self.out ++ buf.drop self.out.length, self.out.length, self.v, self.rem⟩

section Buffers

variable {buf : List UInt8} {self : Base64}

/-- The buffer holds the text that was made, or both gave up. -/
def Follows (buf : List UInt8) (x : Option Base64Buf) (y : Option Base64) : Prop :=
  x = y.map (Base64.inBuf · buf) ∧ ∀ s ∈ y, s.out.length ≤ buf.length

theorem Follows.some (h : self.out.length ≤ buf.length) :
    Follows buf (some (self.inBuf buf)) (some self) :=
  ⟨rfl, fun s hs => by rwa [← Option.mem_some_iff.1 hs]⟩

theorem Follows.bind {x : Option Base64Buf} {y : Option Base64} {f : Base64Buf → Option Base64Buf}
    {g : Base64 → Option Base64} (h : Follows buf x y)
    (hfg : ∀ s : Base64, s.out.length ≤ buf.length → Follows buf (f (s.inBuf buf)) (g s)) :
    Follows buf (x.bind f) (y.bind g) := by
  obtain ⟨rfl, hroom⟩ := h
  cases y with
  | none => exact ⟨rfl, nofun⟩
  | some s => exact hfg s (hroom s rfl)

/-- Writing behind a text. -/
theorem set_append_drop {l : List UInt8} (h : l.length < buf.length) (ch : UInt8) :
    (l ++ buf.drop l.length).set l.length ch = (l ++ [ch]) ++ buf.drop (l.length + 1) := by
  rw [List.set_append_right _ _ le_rfl, Nat.sub_self, List.drop_eq_getElem_cons h,
    List.set_cons_zero, List.append_cons]

theorem length_inBuf (h : self.out.length ≤ buf.length) :
    (self.inBuf buf).out.length = buf.length := by
  simp only [Base64.inBuf, List.length_append, List.length_drop]
  omega

theorem put_inBuf (h : self.out.length ≤ buf.length) (ch : UInt8) :
    Follows buf ((self.inBuf buf).put ch) (self.put buf.length ch) := by
  have hio : (self.inBuf buf).io = self.out.length := rfl
  rw [Base64Buf.put, length_inBuf h, hio]
  rcases Nat.lt_or_ge self.out.length buf.length with hlt | hge
  · have hnext : ({ self.inBuf buf with out := (self.inBuf buf).out.set self.out.length ch,
                                        io := self.out.length + 1 } :
        Base64Buf) = Base64.inBuf { self with out := self.out ++ [ch] } buf := by
      simp only [Base64.inBuf, set_append_drop hlt, List.length_append, List.length_singleton]
    rw [put_of_lt hlt, if_neg (Nat.not_le.2 hlt), hnext]
    exact .some (by rw [List.length_append, List.length_singleton]; exact hlt)
  · rw [put_of_le hge, if_pos hge]
    exact ⟨rfl, nofun⟩

theorem flush_inBuf (h : self.out.length ≤ buf.length) (fuel : ℕ) :
    Follows buf ((self.inBuf buf).flush fuel) (self.flush buf.length fuel) := by
  induction fuel generalizing self with
  | zero => exact .some h
  | succ fuel ih =>
    rw [Base64Buf.flush, Base64.flush]
    have hrem : (self.inBuf buf).rem = self.rem := rfl
    rw [hrem]
    split_ifs
    · exact (put_inBuf (show (Base64.out { self with rem := self.rem - 6 }).length ≤ _ from h)
        _).bind fun s hs => ih hs
    · exact .some h

theorem bytes_inBuf (h : self.out.length ≤ buf.length) (input : List UInt8) :
    Follows buf ((self.inBuf buf).bytes input) (self.bytes buf.length input) := by
  induction input generalizing self with
  | nil => exact .some h
  | cons ch input ih =>
    have hnext :
        (Base64.out { self with v := self.v <<< 8 ||| ch.toUInt32, rem := self.rem + 8 }).length ≤
        buf.length := h
    exact (flush_inBuf hnext _).bind fun s hs => ih hs

theorem pad_inBuf (h : self.out.length ≤ buf.length) (fuel : ℕ) :
    Follows buf ((self.inBuf buf).pad fuel) (self.pad buf.length fuel) := by
  induction fuel generalizing self with
  | zero => exact .some h
  | succ fuel ih =>
    rw [Base64Buf.pad, Base64.pad]
    have hio : (self.inBuf buf).io = self.out.length := rfl
    rw [hio]
    split_ifs
    · exact (put_inBuf h _).bind fun s hs => ih hs
    · exact .some h

theorem leftover_inBuf (h : self.out.length ≤ buf.length) :
    Follows buf (self.inBuf buf).leftover (self.leftover buf.length) := by
  have hrem : (self.inBuf buf).rem = self.rem := rfl
  rw [Base64Buf.leftover, Base64.leftover, hrem]
  split_ifs
  · exact put_inBuf h _
  · exact .some h

/-- The buffer is written as the handshake says, with a NUL behind the text. -/
theorem nnBase64Encode_buf (input out : List UInt8) :
    Base64Buf.nnBase64Encode input out =
      (nnBase64Encode input out.length).map fun text =>
        (Int32.ofNat text.length, text ++ 0 :: out.drop (text.length + 1)) := by
  have hall :=
    ((bytes_inBuf (show (Base64.out ⟨[], 0, 0⟩).length ≤ out.length from Nat.zero_le _) input).bind
      fun s hs =>
    leftover_inBuf hs).bind fun s hs => pad_inBuf hs 4
  have hbuf : Base64Buf.nnBase64Encode input out =
      (((Base64Buf.bytes ⟨out, 0, 0, 0⟩ input).bind Base64Buf.leftover).bind (Base64Buf.pad 4)).bind
        fun s =>
        if s.out.length ≤ s.io then none else some (Int32.ofNat s.io, s.out.set s.io 0) := by
    rw [Option.bind_assoc, Option.bind_assoc]
    rfl
  have htext : nnBase64Encode input out.length =
      (((Base64.bytes out.length ⟨[], 0, 0⟩ input).bind (Base64.leftover out.length)).bind
        (Base64.pad out.length 4)).bind
        fun s => if out.length ≤ s.out.length then none else some s.out := by
    rw [nnBase64Encode_finish, Option.bind_assoc, Option.bind_assoc]
    rfl
  rw [hbuf, htext]
  obtain ⟨heq, hroom⟩ := hall
  rw [show (⟨out, 0, 0, 0⟩ : Base64Buf) = Base64.inBuf ⟨[], 0, 0⟩ out from rfl, heq]
  cases hs : ((Base64.bytes out.length ⟨[], 0, 0⟩ input).bind (Base64.leftover out.length)).bind
      (Base64.pad out.length 4) with
  | none => rfl
  | some s =>
    have hle := hroom s hs
    have hio : (s.inBuf out).io = s.out.length := rfl
    rw [Option.map_some, Option.bind_some, Option.bind_some, length_inBuf hle, hio]
    split_ifs with hfull
    · rfl
    · have hset := set_append_drop (Nat.not_le.1 hfull) 0
      rw [List.append_assoc] at hset
      exact congrArg some (Prod.ext rfl hset)

end Buffers

/-! ### Decoding -/

section Decoding

/-- What the characters of the alphabet decode to. -/
theorem decode_char {n : ℕ} (h : n < 64) :
    Base64Buf.isspace (Rfc4648.char n) = false ∧ Rfc4648.char n ≠ 0x3D ∧
      Base64Buf.decodemap (Rfc4648.char n) = .ok (UInt8.ofNat n) ∧ UInt8.ofNat n ≠ 0xFF := by
  have hall : ∀ n : Fin 64, ∃ h : Rfc4648.code n.val < 128,
      Base64Buf.isspace (UInt8.ofNat (Rfc4648.code n.val)) = false ∧ Rfc4648.code n.val ≠ 0x3D ∧
        Base64Buf.decodemapTable.get ⟨Rfc4648.code n.val, h⟩ = UInt8.ofNat n.val := by
    set_option maxRecDepth 4096 in decide
  obtain ⟨hcode, hspace, hpad, hmap⟩ := hall ⟨n, h⟩
  have hchar : Rfc4648.char n = UInt8.ofNat (Rfc4648.code n) := by
    rw [← Rfc4648.toNat_char h, UInt8.ofNat_toNat]
  have hnum : (UInt8.ofNat (Rfc4648.code n)).toNat = Rfc4648.code n :=
    UInt8.toNat_ofNat_of_lt' (Nat.lt_trans hcode (by decide))
  rw [hchar]
  refine ⟨hspace, fun heq => hpad ?_, ?_, fun heq => ?_⟩
  · rw [← hnum, heq]
    rfl
  · simp only [Base64Buf.decodemap, hnum, hcode, dif_pos, hmap]
  · have : n % 2 ^ 8 = 255 := congrArg UInt8.toNat heq
    omega

/-- The accumulator with six bits more. -/
def pushSix (v : UInt32) (n : ℕ) : UInt32 := v <<< 6 ||| (UInt8.ofNat n).toUInt32

theorem toNat_pushSix (v : UInt32) {n : ℕ} (h : n < 64) :
    (pushSix v n).toNat = (v.toNat * 64 + n) % 2 ^ 32 := by
  refine toNat_shl_or v (r := 6) (by decide) ?_ h
  rw [UInt8.toNat_toUInt32, UInt8.toNat_ofNat', Nat.mod_eq_of_lt (by omega)]

theorem chars_cons (self : Base64Buf) {n : ℕ} (h : n < 64) (text : List UInt8) :
    self.chars (Rfc4648.char n :: text) =
      match { self with v := pushSix self.v n, rem := self.rem + 6 }.emit with
      | none => .ok none
      | some self => self.chars text := by
  obtain ⟨hspace, hpad, hmap, hff⟩ := decode_char h
  rw [Base64Buf.chars, hspace, if_neg Bool.false_ne_true, if_neg hpad, hmap, ok_bind, if_neg hff]
  rfl

/-- The first character of a group. -/
theorem chars_first (out : List UInt8) (io : ℕ) (v : UInt32) {n : ℕ} (h : n < 64)
    (text : List UInt8) :
    Base64Buf.chars ⟨out, io, v, 0⟩ (Rfc4648.char n :: text) =
      Base64Buf.chars ⟨out, io, pushSix v n, 6⟩ text :=
  chars_cons ⟨out, io, v, 0⟩ h text

/-- A character that completes a byte, with `r` bits left over. -/
theorem chars_byte {r n : ℕ} (hr : r ≤ 4) (h : n < 64) {v : UInt32} {b : UInt8}
    (hb : (v.toNat * 64 + n) / 2 ^ r % 256 = b.toNat) (done : List UInt8) (x : UInt8)
    (rest text : List UInt8) :
    Base64Buf.chars ⟨done ++ x :: rest, done.length, v, r + 2⟩ (Rfc4648.char n :: text) =
      Base64Buf.chars ⟨(done ++ [b]) ++ rest, (done ++ [b]).length, pushSix v n, r⟩ text := by
  have hbyte : ((pushSix v n >>> UInt32.ofNat r) &&& 255).toUInt8 = b := by
    have hmask : (255 : UInt32).toNat = 2 ^ 8 - 1 := rfl
    apply UInt8.toNat_inj.1
    rw [UInt32.toNat_toUInt8, UInt32.toNat_and, UInt32.toNat_shiftRight, toNat_ofNat_mod (by omega),
      hmask, Nat.and_two_pow_sub_one_eq_mod, Nat.shiftRight_eq_div_pow, toNat_pushSix v h,
      Nat.mod_mod, ← hb]
    interval_cases r <;> omega
  have hset : (done ++ x :: rest).set done.length b = (done ++ [b]) ++ rest := by
    rw [List.set_append_right _ _ le_rfl, Nat.sub_self, List.set_cons_zero, List.append_cons]
  have hemit : Base64Buf.emit ⟨done ++ x :: rest, done.length, pushSix v n, r + 2 + 6⟩ =
      some ⟨(done ++ [b]) ++ rest, (done ++ [b]).length, pushSix v n, r⟩ := by
    rw [Base64Buf.emit, if_pos (by simp only; omega), show r + 2 + 6 - 8 = r by omega, hbyte,
      Base64Buf.put, if_neg (by simp only [List.length_append, List.length_cons]; omega), hset,
      List.length_append]
    rfl
  rw [chars_cons _ h]
  simp only [hemit]

/-- The character that pads ends the text. -/
theorem chars_padding (self : Base64Buf) (text : List UInt8) :
    self.chars (Rfc4648.padding :: text) = .ok (some self) := rfl

/-- Decoding a text puts the bytes in front of what was in the buffer. -/
theorem chars_encode (x done rest : List UInt8) (v : UInt32) (h : x.length ≤ rest.length) :
    ∃ s, Base64Buf.chars ⟨done ++ rest, done.length, v, 0⟩ (Rfc4648.encode x) = .ok (some s) ∧
      s.out = done ++ x ++ rest.drop x.length ∧ s.io = done.length + x.length ∧ s.rem < 8 := by
  induction x using Rfc4648.encode.induct generalizing done rest v with
  | case1 a b c x ih =>
    obtain _ | ⟨r₀, _ | ⟨r₁, _ | ⟨r₂, rest⟩⟩⟩ := rest
    · cases h
    · simp only [List.length_cons, List.length_nil] at h
      omega
    · simp only [List.length_cons, List.length_nil] at h
      omega
    have ha := a.toNat_lt
    have hb := b.toNat_lt
    have hc := c.toNat_lt
    obtain ⟨s, hs, hout, hio, hrem⟩ := ih (((done ++ [a]) ++ [b]) ++ [c]) rest _ (by simpa using h)
    refine ⟨s, ?_, ?_, ?_, hrem⟩
    · rw [Rfc4648.encode, chars_first _ _ _ (by omega),
        chars_byte (r := 4) (b := a) (by decide) (by omega)
          (by rw [toNat_pushSix _ (by omega)]; omega),
        chars_byte (r := 2) (b := b) (by decide) (by omega)
          (by rw [toNat_pushSix _ (by omega)]; omega),
        chars_byte (r := 0) (b := c) (by decide) (by omega)
          (by rw [toNat_pushSix _ (by omega)]; omega)]
      exact hs
    · rw [hout]
      simp
    · rw [hio]
      simp only [List.length_append, List.length_cons, List.length_nil]
      omega
  | case2 a b =>
    obtain _ | ⟨r₀, _ | ⟨r₁, rest⟩⟩ := rest
    · cases h
    · simp only [List.length_cons, List.length_nil] at h
      omega
    have ha := a.toNat_lt
    have hb := b.toNat_lt
    refine ⟨⟨((done ++ [a]) ++ [b]) ++ rest, ((done ++ [a]) ++ [b]).length,
      pushSix (pushSix (pushSix v (a.toNat / 4)) (a.toNat % 4 * 16 + b.toNat / 16))
        (b.toNat % 16 * 4), 2⟩, ?_, ?_, ?_, ?_⟩
    · rw [Rfc4648.encode, chars_first _ _ _ (by omega),
        chars_byte (r := 4) (b := a) (by decide) (by omega)
          (by rw [toNat_pushSix _ (by omega)]; omega),
        chars_byte (r := 2) (b := b) (by decide) (by omega)
          (by rw [toNat_pushSix _ (by omega)]; omega)]
      exact chars_padding _ _
    · simp
    · simp only [List.length_append, List.length_cons, List.length_nil]
    · exact (by decide : 2 < 8)
  | case3 a =>
    obtain _ | ⟨r₀, rest⟩ := rest
    · cases h
    have ha := a.toNat_lt
    refine ⟨⟨(done ++ [a]) ++ rest, (done ++ [a]).length,
      pushSix (pushSix v (a.toNat / 4)) (a.toNat % 4 * 16), 4⟩, ?_, ?_, ?_, ?_⟩
    · rw [Rfc4648.encode, chars_first _ _ _ (by omega),
        chars_byte (r := 4) (b := a) (by decide) (by omega)
          (by rw [toNat_pushSix _ (by omega)]; omega)]
      exact chars_padding _ _
    · simp
    · simp only [List.length_append, List.length_cons, List.length_nil]
    · exact (by decide : 4 < 8)
  | case4 =>
    refine ⟨_, rfl, by simp, rfl, ?_⟩
    exact Nat.zero_lt_succ 7

/-- Decoding the text of some bytes gives them back. -/
theorem nnBase64Decode_encode {x out : List UInt8} (h : x.length ≤ out.length) :
    Base64Buf.nnBase64Decode (Rfc4648.encode x) out =
      .ok (some (Int32.ofNat x.length, x ++ out.drop x.length)) := by
  obtain ⟨s, hs, hout, hio, hrem⟩ := chars_encode x [] out 0 h
  have hemit : s.emit = some s := if_neg (Nat.not_le.2 hrem)
  rw [List.nil_append] at hs hout
  rw [Base64Buf.nnBase64Decode,
    show (⟨out, 0, 0, 0⟩ : Base64Buf) = ⟨out, ([] : List UInt8).length, 0, 0⟩ from rfl, hs, ok_bind,
    Option.bind_some, hemit, Option.map_some, hout, hio, List.length_nil, Nat.zero_add]
  rfl

end Decoding

/-- Encoding less than 2^30 bytes succeeds exactly if the buffer has room for the text and a NUL.
Then it returns the length of the text and writes it, and decoding the text into a buffer that is
large enough gives the bytes back. -/
theorem base64_round_trip (x out : List UInt8) (h : x.length < 2 ^ 30) :
    ((Base64Buf.nnBase64Encode x out).isSome ↔ 4 * ((x.length + 2) / 3) < out.length) ∧
      (∀ ret out', Base64Buf.nnBase64Encode x out = some (ret, out') →
        ret.toInt = 4 * ((x.length + 2) / 3) ∧
          out' = Rfc4648.encode x ++ 0 :: out.drop (4 * ((x.length + 2) / 3) + 1)) ∧
      ∀ buf : List UInt8, x.length ≤ buf.length →
        ∃ ret, Base64Buf.nnBase64Decode (Rfc4648.encode x) buf =
          .ok (some (ret, x ++ buf.drop x.length)) ∧ ret.toInt = x.length := by
  rw [nnBase64Encode_buf, nnBase64Encode_eq]
  refine ⟨?_, ?_,
    fun buf hbuf => ⟨_, nnBase64Decode_encode hbuf, Int32.toInt_ofNat_of_lt (by omega)⟩⟩
  · split_ifs with hroom
    · exact iff_of_true rfl hroom
    · exact iff_of_false Bool.false_ne_true hroom
  · intro ret out' heq
    split_ifs at heq
    · cases heq
      rw [Rfc4648.length_encode, Int32.toInt_ofNat_of_lt (by omega)]
      exact ⟨by push_cast; rfl, rfl⟩
    · cases heq

/-- Four bytes in a buffer of nine, and back into a buffer of five. -/
theorem base64_round_trip_foob :
    (∃ ret out', Base64Buf.nnBase64Encode [0x66, 0x6f, 0x6f, 0x62] (List.replicate 9 0xff) =
      some (ret, out') ∧ ret.toInt = 8 ∧ out' = Rfc4648.encode [0x66, 0x6f, 0x6f, 0x62] ++ [0]) ∧
      ∃ ret, Base64Buf.nnBase64Decode (Rfc4648.encode [0x66, 0x6f, 0x6f, 0x62])
        (List.replicate 5 0xff) =
        .ok (some (ret, [0x66, 0x6f, 0x6f, 0x62, 0xff])) ∧ ret.toInt = 4 := by
  obtain ⟨hroom, hencode, hdecode⟩ :=
    base64_round_trip [0x66, 0x6f, 0x6f, 0x62] (List.replicate 9 0xff) (by decide)
  constructor
  · obtain ⟨⟨ret, out'⟩, heq⟩ := Option.isSome_iff_exists.1 (hroom.2 (by decide))
    exact ⟨ret, out', heq, hencode ret out' heq⟩
  · exact hdecode (List.replicate 5 0xff) (by decide)

end NanoSocket.Ws

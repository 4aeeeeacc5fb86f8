import NanoSocket.Ws.Sha1

/-!
# The accept key (`transports/ws/ws_handshake.c`, `transports/utils/base64.c`)

The server answers a key with the Base64 text of a SHA-1 hash.  What the handshake relies on is the
size of that text and the characters in it.
-/

namespace NanoSocket.Ws

/-! ### Base64 -/

/-- `ENCODEMAP`. -/
def encodemap (v : ℕ) : UInt8 :=
  if v < 26 then 0x41 + UInt8.ofNat v
  else if v < 52 then 0x61 + UInt8.ofNat (v - 26)
  else if v < 62 then 0x30 + UInt8.ofNat (v - 52)
  else if v = 62 then 0x2B
  else 0x2F

/-- The variables of the loop of `nn_base64_encode`. -/
structure Base64 where
  out : List UInt8
  v : UInt32
  rem : ℕ

/-- `out [io++] = ch`, when there is room. -/
def Base64.put (self : Base64) (outLen : ℕ) (ch : UInt8) : Option Base64 :=
  if outLen ≤ self.out.length then none else some { self with out := self.out ++ [ch] }

/-- The loop `while (rem >= 6)`. -/
def Base64.flush (outLen : ℕ) : ℕ → Base64 → Option Base64
  | 0, self => some self
  | fuel + 1, self =>
    if 6 ≤ self.rem then do
      let rem := self.rem - 6
      let self ← { self with rem }.put outLen
        (encodemap ((self.v >>> UInt32.ofNat rem) &&& 63).toNat)
      Base64.flush outLen fuel self
    else some self

/-- The loop over the bytes. -/
def Base64.bytes (outLen : ℕ) : Base64 → List UInt8 → Option Base64
  | self, [] => some self
  | self, ch :: input => do
    let self := { self with v := self.v <<< 8 ||| ch.toUInt32, rem := self.rem + 8 }
    Base64.bytes outLen (← Base64.flush outLen self.rem self) input

/-- The loop that pads to a multiple of 4. -/
def Base64.pad (outLen : ℕ) : ℕ → Base64 → Option Base64
  | 0, self => some self
  | fuel + 1, self =>
    if self.out.length % 4 ≠
      0 then do Base64.pad outLen fuel (← self.put outLen 0x3D) else some self

/-- `nn_base64_encode`: the text without its NUL, or nothing for `-ENOBUFS`. -/
def nnBase64Encode (input : List UInt8) (outLen : ℕ) : Option (List UInt8) := do
  let self ← Base64.bytes outLen { out := [], v := 0, rem := 0 } input
  let self ← if self.rem ≠ 0 then
      self.put outLen (encodemap ((self.v <<< UInt32.ofNat (6 - self.rem)) &&& 63).toNat)
    else some self
  let self ← Base64.pad outLen 4 self
  if outLen ≤ self.out.length then none else some self.out

/-- The characters of Base64, and the one that pads. -/
def IsBase64 (c : UInt8) : Prop := c = 0x3D ∨ ∃ v < 64, c = encodemap v

/-- What is written are characters of Base64. -/
def Base64.Wf (self : Base64) : Prop := ∀ c ∈ self.out, IsBase64 c

section Sizes

theorem Base64.Wf.put {self : Base64} (hw : self.Wf) {outLen : ℕ} (h : self.out.length < outLen)
    {ch : UInt8} (hch : IsBase64 ch) :
    self.put outLen ch = some { self with out := self.out ++ [ch] } ∧
      Base64.Wf { self with out := self.out ++ [ch] } := by
  refine ⟨if_neg (Nat.not_le.2 h), fun c hc => ?_⟩
  rcases List.mem_append.1 hc with hc | hc
  · exact hw c hc
  · rwa [List.mem_singleton.1 hc]

theorem isBase64_and (v : UInt32) : IsBase64 (encodemap (v &&& 63).toNat) := by
  refine Or.inr ⟨_, ?_, rfl⟩
  rw [UInt32.toNat_and]
  exact Nat.lt_succ_of_le Nat.and_le_right

/-- The bits that are there are written six by six. -/
theorem Base64.Wf.flush (outLen : ℕ) {self : Base64} (hw : self.Wf) {fuel : ℕ}
    (hfuel : self.rem ≤ fuel) (h : self.out.length + self.rem / 6 < outLen) :
    ∃ s, Base64.flush outLen fuel self = some s ∧ s.Wf ∧ s.rem < 6 ∧
      6 * s.out.length + s.rem = 6 * self.out.length + self.rem := by
  induction fuel generalizing self with
  | zero => exact ⟨self, rfl, hw, by omega, rfl⟩
  | succ fuel ih =>
    rw [Base64.flush]
    split_ifs with hrem
    · have hw₁ : Base64.Wf { self with rem := self.rem - 6 } := hw
      have hroom : self.out.length < outLen := by omega
      obtain ⟨hput, hw₂⟩ := hw₁.put hroom (isBase64_and (self.v >>> UInt32.ofNat (self.rem - 6)))
      obtain ⟨s, hs, hws, hlt, hsum⟩ := ih hw₂ (by dsimp only; omega)
        (by simp only [List.length_append, List.length_singleton]; omega)
      refine ⟨s, ?_, hws, hlt, ?_⟩
      · dsimp only
        rw [hput]
        exact hs
      · rw [hsum]
        simp only [List.length_append, List.length_singleton]
        omega
    · exact ⟨self, rfl, hw, by omega, rfl⟩

theorem Base64.Wf.bytes (outLen : ℕ) {self : Base64} (hw : self.Wf) (hrem : self.rem < 6)
    {input : List UInt8} (h : 6 * self.out.length + self.rem + 8 * input.length < 6 * outLen) :
    ∃ s, Base64.bytes outLen self input = some s ∧ s.Wf ∧ s.rem < 6 ∧
      6 * s.out.length + s.rem = 6 * self.out.length + self.rem + 8 * input.length := by
  induction input generalizing self with
  | nil => exact ⟨self, rfl, hw, hrem, rfl⟩
  | cons ch input ih =>
    rw [List.length_cons] at h
    have hw₁ : Base64.Wf { self with v := self.v <<< 8 ||| ch.toUInt32, rem := self.rem + 8 } := hw
    obtain ⟨s, hs, hws, hlt, hsum⟩ := hw₁.flush outLen le_rfl (by dsimp only; omega)
    dsimp only at hsum
    obtain ⟨s', hs', hws', hlt', hsum'⟩ := ih hws hlt (by omega)
    refine ⟨s', ?_, hws', hlt', ?_⟩
    · rw [Base64.bytes]
      dsimp only at hs ⊢
      rw [hs]
      exact hs'
    · rw [hsum', List.length_cons]
      omega

theorem Base64.Wf.pad (outLen : ℕ) {self : Base64} (hw : self.Wf) {fuel : ℕ}
    (hfuel : 4 ≤ fuel + self.out.length % 4 ∨ self.out.length % 4 = 0)
    (h : (self.out.length + 3) / 4 * 4 < outLen) :
    ∃ s, Base64.pad outLen fuel self = some s ∧ s.Wf ∧
      s.out.length = (self.out.length + 3) / 4 * 4 := by
  induction fuel generalizing self with
  | zero => exact ⟨self, rfl, hw, by omega⟩
  | succ fuel ih =>
    rw [Base64.pad]
    split_ifs with hmod
    · have hroom : self.out.length < outLen := by omega
      have hpad : IsBase64 0x3D := Or.inl rfl
      obtain ⟨hput, hw₁⟩ := hw.put hroom hpad
      obtain ⟨s, hs, hws, hlen⟩ :=
        ih hw₁ (by simp only [List.length_append, List.length_singleton]; omega)
        (by simp only [List.length_append, List.length_singleton]; omega)
      refine ⟨s, ?_, hws, ?_⟩
      · rw [hput]
        exact hs
      · rw [hlen]
        simp only [List.length_append, List.length_singleton]
        omega
    · exact ⟨self, rfl, hw, by omega⟩

/-- Three bytes make four characters. -/
theorem nnBase64Encode_length {input : List UInt8} {outLen : ℕ}
    (h : (input.length + 2) / 3 * 4 < outLen) :
    ∃ text, nnBase64Encode input outLen = some text ∧ text.length = (input.length + 2) / 3 * 4 ∧
      ∀ c ∈ text, IsBase64 c := by
  have hinit : Base64.Wf { out := [], v := 0, rem := 0 } := nofun
  obtain ⟨s, hs, hw, hrem, hsum⟩ := hinit.bytes outLen (show 0 < 6 by decide)
    (show 6 * 0 + 0 + 8 * input.length < 6 * outLen by omega)
  simp only [List.length_nil, Nat.mul_zero, Nat.zero_add] at hsum
  unfold nnBase64Encode
  simp only [Option.bind_eq_bind, hs, Option.bind_some]
  split_ifs with h0
  · have hroom : s.out.length < outLen := by omega
    obtain ⟨hput, hw₁⟩ := hw.put hroom (isBase64_and (s.v <<< UInt32.ofNat (6 - s.rem)))
    have hlen : (s.out ++ [encodemap (s.v <<< UInt32.ofNat (6 - s.rem) &&& 63).toNat]).length =
        s.out.length + 1 := by simp
    obtain ⟨t, ht, hwt, hlent⟩ :=
      hw₁.pad outLen (Or.inl (Nat.le_add_right 4 _)) (by rw [hlen]; omega)
    rw [hlen] at hlent
    refine ⟨t.out, ?_, by omega, hwt⟩
    rw [hput, Option.bind_some, ht, Option.bind_some, if_neg (by omega)]
  · obtain ⟨t, ht, hwt, hlent⟩ := hw.pad outLen (Or.inl (Nat.le_add_right 4 _)) (by omega)
    refine ⟨t.out, ?_, by omega, hwt⟩
    rw [ht, Option.bind_some, if_neg (by omega)]

end Sizes

end NanoSocket.Ws

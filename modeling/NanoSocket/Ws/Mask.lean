import NanoSocket.Ws.SwsFrames

/-!
# The loop that masks a payload (`transports/ws/sws.c`)

`nnSwsMaskPayload` of the session says what `nn_sws_mask_payload` leaves behind.  Here is the
function with the widths it has: the index is an `unsigned`, the length a `size_t`, the position in
the mask an `int`, which a caller may leave out.  `mask_payload_iff` says for which payloads the
loop ends and does what masking is for.
-/

namespace NanoSocket.Ws.MaskLoop

/-- `(i + *mask_start_pos) % mask_len`, for a mask of 4 bytes. -/
def maskIndex (start i : UInt32) : ℕ := (i + start).toNat % 4

theorem maskIndex_lt (start i : UInt32) : maskIndex start i < 4 := Nat.mod_lt _ (by decide)

theorem maskIndex_eq (start i : UInt32) : maskIndex start i = (i.toNat + start.toNat) % 4 := by
  rw [maskIndex, UInt32.toNat_add]
  omega

/-- `for (i = 0; i < payload_len; i++) payload [i] ^= mask [...]`, from a value of `i` on, for a
number of turns. -/
def loop (mask : Mask) (start : UInt32) :
    ℕ → UInt32 → List UInt8 → Except Fault (List UInt8 × UInt32)
  | 0, _, _ => .error .diverged
  | fuel + 1, i, payload =>
    if i.toNat < payload.length then
      loop mask start fuel (i + 1)
        (payload.modify i.toNat (· ^^^ mask.get ⟨maskIndex start i, maskIndex_lt start i⟩))
    else .ok (payload, i)

/-- `nn_sws_mask_payload` with a mask of 4 bytes: the new payload, and what is at `mask_start_pos`
then. -/
def nnSwsMaskPayload (fuel : ℕ) (payload : List UInt8) (mask : Mask) (maskStartPos : Option Int32) :
    Except Fault (List UInt8 × Option Int32) :=
  match maskStartPos with
  | some start => do
    let (payload, i) ← loop mask start.toUInt32 fuel 0 payload
    return (payload, some (Int32.ofNat (maskIndex start.toUInt32 i)))
  | none => do
    let (payload, _) ← loop mask 0 fuel 0 payload
    return (payload, none)

/-- The call ends. -/
def Masks (mask : Mask) (start : Option Int32) (payload out : List UInt8) (start' : Option Int32) :
    Prop :=
  ∃ fuel, nnSwsMaskPayload fuel payload mask start = .ok (out, start')

/-- Byte `i` of a mask that is begun at `start`. -/
def maskByte (mask : Mask) (start : ℤ) (i : ℕ) : UInt8 :=
  mask.get ⟨((start + i) % 4).toNat, by omega⟩

/-- What masking is for: the call ends and combines each byte with its byte of the mask, doing it
again gives the payload back, and a header and then a body, with the position that is left after the
header, give what the whole gives. -/
def Masked (mask : Mask) (start : Option Int32) (payload : List UInt8) : Prop :=
  ∃ out start', Masks mask start payload out start' ∧
    out = payload.mapIdx (fun i b => b ^^^ maskByte mask ((start.map Int32.toInt).getD 0) i) ∧
    (∃ start'', Masks mask start out payload start'') ∧
    ∀ s, start = some s → ∀ hdr body, hdr ++ body = payload → ∃ hdr' body' s' s'',
      Masks mask (some s) hdr hdr' (some s') ∧ Masks mask (some s') body body' (some s'') ∧
        hdr' ++ body' = out

/-! ### The loop -/

section Loop

variable {mask : Mask} {start : UInt32} {payload : List UInt8}

theorem modify_append (f : UInt8 → UInt8) {l : List UInt8} {n : ℕ} (hn : l.length = n) (b : UInt8)
    (l' : List UInt8) :
    (l ++ b :: l').modify n f = l ++ f b :: l' := by
  subst hn
  induction l with
  | nil => rfl
  | cons c l ih => exact congrArg (c :: ·) ih

/-- An index that is never past the end. -/
theorem loop_long (h : 2 ^ 32 ≤ payload.length) (fuel : ℕ) (i : UInt32) :
    loop mask start fuel i payload = .error .diverged := by
  induction fuel generalizing i payload with
  | zero => rfl
  | succ fuel ih =>
    have hlt : i.toNat < payload.length := lt_of_lt_of_le i.toNat_lt h
    rw [loop, if_pos hlt]
    apply ih
    rwa [List.length_modify]

/-- After some bytes the rest is masked from there on. -/
theorem loop_spec {fuel : ℕ} {i : UInt32} {done rest : List UInt8} (hi : done.length = i.toNat)
    (hlen : done.length + rest.length < 2 ^ 32) (hfuel : rest.length < fuel) :
    ∃ i', loop mask start fuel i (done ++ rest) =
      .ok (done ++ maskFrom mask (i.toNat + start.toNat) rest, i') ∧
      i'.toNat = done.length + rest.length := by
  induction fuel generalizing i done rest with
  | zero => omega
  | succ fuel ih =>
    cases rest with
    | nil =>
      refine ⟨i, ?_, by rw [hi]; rfl⟩
      rw [loop, List.append_nil, if_neg (by omega), maskFrom, List.append_nil]
    | cons b rest =>
      rw [List.length_cons] at hlen hfuel
      have hsucc : (i + 1).toNat = i.toNat + 1 := by
        rw [UInt32.toNat_add]
        exact Nat.mod_eq_of_lt (show i.toNat + 1 < 2 ^ 32 by omega)
      have hbyte : mask.get ⟨maskIndex start i, maskIndex_lt start i⟩ =
          mask.get ⟨(i.toNat + start.toNat) % 4, mod_four_lt _⟩ :=
        congrArg mask.get (Fin.ext (maskIndex_eq start i))
      have hdone : (done ++ [b ^^^ mask.get ⟨(i.toNat + start.toNat) % 4, mod_four_lt _⟩]).length =
          (i + 1).toNat := by
        rw [List.length_append, hi, hsucc, List.length_singleton]
      obtain ⟨i', heq, hi'⟩ := ih hdone (show _ + rest.length < _ by omega) (by omega)
      refine ⟨i', ?_, by rw [hi', hdone, hsucc, hi, List.length_cons]; omega⟩
      rw [loop, if_pos (by rw [List.length_append, List.length_cons]; omega), hbyte,
        modify_append _ hi, List.append_cons, heq, hsucc, maskFrom, List.append_assoc,
        List.singleton_append, Nat.add_right_comm]

end Loop

/-! ### The function -/

section Calls

variable {mask : Mask} {start : Option Int32} {payload : List UInt8}

/-- The position that the masking begins at; without one it begins at 0. -/
def startAt (start : Option Int32) : UInt32 := (start.map Int32.toUInt32).getD 0

theorem masks_long (h : 2 ^ 32 ≤ payload.length) (out : List UInt8) (start' : Option Int32) :
    ¬ Masks mask start payload out start' := by
  rintro ⟨fuel, heq⟩
  cases start with
  | none =>
    rw [nnSwsMaskPayload, loop_long h] at heq
    cases heq
  | some s =>
    simp only [nnSwsMaskPayload, loop_long h] at heq
    cases heq

/-- What is left at `mask_start_pos` after `n` bytes. -/
def carried (start : Option Int32) (n : ℕ) : Option Int32 :=
  start.map fun s => Int32.ofNat ((n + s.toUInt32.toNat) % 4)

theorem masks_of_lt (mask : Mask) (start : Option Int32) (h : payload.length < 2 ^ 32) :
    Masks mask start payload (maskFrom mask (startAt start).toNat payload)
      (carried start payload.length) := by
  have hloop : ∃ i', loop mask (startAt start) (payload.length + 1) 0 ([] ++ payload) = _ ∧ _ :=
    loop_spec (show [].length = (0 : UInt32).toNat from rfl) (by simpa using h)
      (Nat.lt_succ_self payload.length)
  obtain ⟨i', heq, hi'⟩ := hloop
  rw [List.nil_append, List.nil_append, show (0 : UInt32).toNat = 0 from rfl, Nat.zero_add] at heq
  rw [List.length_nil, Nat.zero_add] at hi'
  refine ⟨payload.length + 1, ?_⟩
  cases start with
  | none =>
    rw [startAt, Option.map_none, Option.getD_none] at heq
    rw [nnSwsMaskPayload, heq]
    rfl
  | some s =>
    have hpos : maskIndex s.toUInt32 i' = (payload.length + s.toUInt32.toNat) % 4 := by
      rw [maskIndex_eq, hi']
    rw [startAt, Option.map_some, Option.getD_some] at heq
    simp only [nnSwsMaskPayload, heq, ok_bind, hpos]
    rfl

theorem maskByte_succ (mask : Mask) (start : ℤ) (i : ℕ) :
    maskByte mask start (i + 1) = maskByte mask (start + 1) i := by
  refine congrArg mask.get (Fin.ext ?_)
  simp only
  omega

theorem maskFrom_eq_mapIdx {pos : ℕ} {start : ℤ} (h : (pos : ℤ) % 4 = start % 4)
    (payload : List UInt8) :
    maskFrom mask pos payload = payload.mapIdx fun i b => b ^^^ maskByte mask start i := by
  induction payload generalizing pos start with
  | nil => rfl
  | cons b payload ih =>
    have hbyte : mask.get ⟨pos % 4, mod_four_lt pos⟩ = maskByte mask start 0 :=
      congrArg mask.get (Fin.ext (by simp only; omega))
    rw [maskFrom, List.mapIdx_cons, hbyte,
      ih (show ((pos + 1 : ℕ) : ℤ) % 4 = (start + 1) % 4 by omega)]
    simp only [maskByte_succ]

/-- The position as an `unsigned` differs from the `int` by a multiple of 4. -/
theorem startAt_mod (start : Option Int32) :
    ((startAt start).toNat : ℤ) % 4 = (start.map Int32.toInt).getD 0 % 4 := by
  cases start with
  | none => rfl
  | some s =>
    have hint : s.toInt % 2 ^ 32 = (s.toUInt32.toNat : ℤ) % 2 ^ 32 := by
      rw [show s.toInt = Int.bmod s.toUInt32.toNat (2 ^ 32) from BitVec.toInt_eq_toNat_bmod _]
      exact Int.bmod_emod
    change (s.toUInt32.toNat : ℤ) % 4 = s.toInt % 4
    omega

/-- The sessions' own account of the function. -/
theorem nnSwsMaskPayload_spec (mask : Mask) (payload : List UInt8) (pos : ℕ) :
    match Ws.nnSwsMaskPayload payload mask pos with
    | .ok (out, pos') => Masks mask (some (Int32.ofNat pos)) payload out (some (Int32.ofNat pos'))
    | .error _ => ∀ out start', ¬ Masks mask (some (Int32.ofNat pos)) payload out start' := by
  have hpos : (startAt (some (Int32.ofNat pos))).toNat % 4 = pos % 4 := by
    change (UInt32.ofNat pos).toNat % 4 = _
    rw [UInt32.toNat_ofNat']
    omega
  by_cases h : payload.length < 2 ^ 32
  · simp only [Ws.nnSwsMaskPayload, if_pos h]
    have hmasks := masks_of_lt mask (some (Int32.ofNat pos)) h
    rw [← maskFrom_mod, hpos, maskFrom_mod] at hmasks
    convert hmasks using 1
    refine congrArg (some ∘ Int32.ofNat) ?_
    change _ = (payload.length + (startAt (some (Int32.ofNat pos))).toNat) % 4
    omega
  · simp only [Ws.nnSwsMaskPayload, if_neg h]
    exact masks_long (not_lt.1 h)

end Calls

/-- Masking a payload ends, goes byte by byte through the mask, can be undone and can be cut
anywhere exactly if the payload has less than 2^32 bytes. -/
theorem mask_payload_iff (mask : Mask) (start : Option Int32) (payload : List UInt8) :
    Masked mask start payload ↔ payload.length < 2 ^ 32 := by
  constructor
  · rintro ⟨out, start', hmasks, -⟩
    by_contra hlong
    exact masks_long (not_lt.1 hlong) out start' hmasks
  · intro h
    refine ⟨_, _, masks_of_lt mask start h, maskFrom_eq_mapIdx (startAt_mod start) payload,
      ⟨carried start payload.length, ?_⟩, ?_⟩
    · have hback :=
        masks_of_lt mask start (show (maskFrom mask (startAt start).toNat payload).length < _ by
        rwa [length_maskFrom])
      rwa [maskFrom_maskFrom, length_maskFrom] at hback
    · rintro s rfl hdr body rfl
      rw [List.length_append] at h
      refine ⟨_, _, _, _, masks_of_lt mask (some s) (by omega),
        masks_of_lt mask (some _) (by omega), ?_⟩
      have hpos : (startAt (some (Int32.ofNat ((hdr.length + s.toUInt32.toNat) % 4)))).toNat =
          (s.toUInt32.toNat + hdr.length) % 4 := by
        change (UInt32.ofNat _).toNat = _
        rw [UInt32.toNat_ofNat']
        omega
      rw [hpos, maskFrom_mod]
      exact (maskFrom_append _ _ _ _).symm

/-- The masking of a payload of 2^32 bytes does not end. -/
theorem mask_payload_endless : ¬ Masked #v[1, 2, 3, 4] (some 0) (List.replicate (2 ^ 32) 0) := by
  rintro ⟨out, start', hmasks, -⟩
  exact masks_long (by rw [List.length_replicate]) out start' hmasks

end NanoSocket.Ws.MaskLoop

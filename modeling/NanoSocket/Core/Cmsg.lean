import NanoSocket.Core.Wire

/-!
# Ancillary data (`nn.h`, `core/global.c`)

`nn_recvmsg` gives the SP header of a message to the user as the first property of a control buffer,
and `nn_sendmsg` searches a control buffer for that property.  A property starts with
`struct nn_cmsghdr`: its length as a `size_t`, a level and a type.  The buffers are bytes here, for
a machine with 64-bit little-endian words; `size_t` arithmetic is modulo 2^64, and a read outside a
buffer is a fault.

`nnSendmsg_nnRecvmsg` is the round trip.
-/

namespace NanoSocket

/-- The `n` bytes of a number, the lowest first. -/
def putLe : ℕ → ℕ → List UInt8
  | 0, _ => []
  | n + 1, v => UInt8.ofNat v :: putLe n (v / 256)

/-- The number with the given bytes. -/
def getLe : List UInt8 → ℕ
  | [] => 0
  | b :: l => b.toNat + 256 * getLe l

/-- Read bytes of a buffer. -/
def readBytes (data : List UInt8) (off n : ℕ) : Except Fault (List UInt8) :=
  if off + n ≤ data.length then .ok ((data.drop off).take n) else .error .outOfBounds

/-- Read a number of `n` bytes. -/
def readLe (data : List UInt8) (off n : ℕ) : Except Fault ℕ := return getLe (← readBytes data off n)

/-- `NN_CMSG_ALIGN_`. -/
def nnCmsgAlign (len : ℕ) : ℕ := (len + 7) % 2 ^ 64 / 8 * 8

/-- `NN_CMSG_SPACE`; `sizeof (struct nn_cmsghdr)` is 16. -/
def nnCmsgSpace (len : ℕ) : ℕ := (nnCmsgAlign len + nnCmsgAlign 16) % 2 ^ 64

/-- `nn_cmsg_nxthdr_`: the offset of the property after `cmsg`, or of the first one. -/
def nnCmsgNxthdr (data : List UInt8) (cmsg : Option ℕ) : Except Fault (Option ℕ) :=
  -- ancillary data allocation was not even large enough for one element
  if data.length < nnCmsgSpace 0 then .ok none
  else do
    let next ← match cmsg with
      | none => pure 0
      | some off => do
        let len ← readLe data off 8
        pure ((off + nnCmsgAlign len) % 2 ^ 64)
    -- if there's no space for next property, treat it as the end of the property list
    if (next + nnCmsgSpace 0) % 2 ^ 64 > data.length then return none
    let len ← readLe data next 8
    if (next + nnCmsgAlign len) % 2 ^ 64 > data.length then return none
    return some next

/-- The search of `nn_sendmsg` for the SP_HDR property, and the header in it. -/
def findSphdr (control : List UInt8) : ℕ → Option ℕ → Except Fault (Option (List UInt8))
  | 0, _ => .error .diverged
  | _ + 1, none => .ok none
  | fuel + 1, some cmsg => do
    let level ← readLe control (cmsg + 8) 4
    let type ← readLe control (cmsg + 12) 4
    if level = 1 ∧ type = 1 then
      let len ← readLe control cmsg 8
      let clen := (len + 2 ^ 64 - nnCmsgSpace 0) % 2 ^ 64
      if clen > 8 then
        let spsz ← readLe control (cmsg + 16) 8
        if spsz ≤ clen - 8 then return some (← readBytes control (cmsg + 24) spsz)
      return none
    else findSphdr control fuel (← nnCmsgNxthdr control (some cmsg))

/-- `nn_sendmsg` with a body and a control buffer that are chunks: the message it sends. -/
def nnSendmsg (body control : List UInt8) : Except Fault Msg := do
  let sphdr ← findSphdr control (control.length + 1) (← nnCmsgNxthdr control none)
  return { sphdr := sphdr.getD [], hdrs := control, body := body }

/-- The control buffer that `nn_recvmsg` allocates for a message.  The bytes between the SP header
and the next property are whatever the memory held. -/
def nnRecvmsgControl (msg : Msg) (memory : ℕ → UInt8) : List UInt8 :=
  let spsz := msg.sphdr.length
  let sptotalsz := nnCmsgSpace (spsz + 8)
  putLe 8 sptotalsz ++ putLe 4 1 ++ putLe 4 1 ++ putLe 8 spsz ++ msg.sphdr ++
    (List.range (sptotalsz - 24 - spsz)).map memory ++ msg.hdrs

/-! ### The round trip -/

@[simp] theorem length_putLe (n v : ℕ) : (putLe n v).length = n := by
  induction n generalizing v with
  | zero => rfl
  | succ n ih => rw [putLe, List.length_cons, ih]

theorem getLe_putLe (n v : ℕ) : getLe (putLe n v) = v % 256 ^ n := by
  induction n generalizing v with
  | zero => simp [putLe, getLe, Nat.mod_one]
  | succ n ih =>
    have hbyte : (UInt8.ofNat v).toNat = v % 256 := UInt8.toNat_ofNat'
    rw [putLe, getLe, ih, hbyte, pow_succ', Nat.mod_mul]

theorem getLe_lt (l : List UInt8) : getLe l < 256 ^ l.length := by
  induction l with
  | nil => simp [getLe]
  | cons b l ih =>
    have hb := b.toNat_lt
    rw [getLe, List.length_cons, pow_succ]
    omega

/-- The bytes are those of their number. -/
theorem putLe_getLe (l : List UInt8) : putLe l.length (getLe l) = l := by
  induction l with
  | nil => rfl
  | cons b l ih =>
    have hb := b.toNat_lt
    have hbyte : UInt8.ofNat (b.toNat + 256 * getLe l) = b := by
      apply UInt8.toNat_inj.1
      rw [UInt8.toNat_ofNat', Nat.add_mul_mod_self_left, Nat.mod_eq_of_lt hb]
    have hrest : (b.toNat + 256 * getLe l) / 256 = getLe l := by omega
    rw [List.length_cons, getLe, putLe, hbyte, hrest, ih]

/-- Reading between a part of known length and a rest. -/
theorem readBytes_append {pre bytes rest : List UInt8} {off n : ℕ} (hoff : pre.length = off)
    (hn : bytes.length = n) : readBytes (pre ++ (bytes ++ rest)) off n = .ok bytes := by
  subst hoff hn
  rw [readBytes, if_pos (by simp), List.drop_left, List.take_left]

theorem readLe_append {pre rest : List UInt8} {off n v : ℕ} (hoff : pre.length = off)
    (hv : v < 256 ^ n) : readLe (pre ++ (putLe n v ++ rest)) off n = .ok v := by
  rw [readLe, readBytes_append hoff (length_putLe n v), ok_bind, getLe_putLe, Nat.mod_eq_of_lt hv]
  rfl

theorem nnCmsgSpace_zero : nnCmsgSpace 0 = 16 := by decide

theorem nnCmsgSpace_eq {n : ℕ} (hn : n < 2 ^ 63) :
    nnCmsgSpace (n + 8) = (n + 15) / 8 * 8 + 16 := by
  have h16 : nnCmsgAlign 16 = 16 := by decide
  rw [nnCmsgSpace, h16, nnCmsgAlign]
  omega

theorem nnCmsgAlign_space {n : ℕ} (hn : n < 2 ^ 63) :
    nnCmsgAlign (nnCmsgSpace (n + 8)) = nnCmsgSpace (n + 8) := by
  rw [nnCmsgSpace_eq hn, nnCmsgAlign]
  omega

/-- The SP_HDR property for a header, without the padding behind it. -/
def sphdrCmsg (sphdr : List UInt8) : List UInt8 :=
  putLe 8 (nnCmsgSpace (sphdr.length + 8)) ++ putLe 4 1 ++ putLe 4 1 ++
    putLe 8 sphdr.length ++ sphdr

@[simp] theorem length_sphdrCmsg (sphdr : List UInt8) :
    (sphdrCmsg sphdr).length = 24 + sphdr.length := by
  simp only [sphdrCmsg, List.length_append, length_putLe]

/-- A control buffer that begins with a SP_HDR property gives its header to the message. -/
theorem nnSendmsg_sphdrCmsg {sphdr control rest : List UInt8} (body : List UInt8)
    (hlen : sphdr.length < 2 ^ 63) (hcontrol : control = sphdrCmsg sphdr ++ rest)
    (hsz : nnCmsgSpace (sphdr.length + 8) ≤ control.length) :
    nnSendmsg body control = .ok { sphdr := sphdr, hdrs := control, body := body } := by
  have hspace := nnCmsgSpace_eq hlen
  have halign := nnCmsgAlign_space hlen
  have hlt : nnCmsgSpace (sphdr.length + 8) < 256 ^ 8 := by omega
  -- the five reads of the search, each after what stands before it
  have hlen0 : readLe control 0 8 = .ok (nnCmsgSpace (sphdr.length + 8)) := by
    simp only [hcontrol, sphdrCmsg, List.append_assoc]
    exact @readLe_append [] _ _ _ _ rfl hlt
  have hlevel : readLe control (0 + 8) 4 = .ok 1 := by
    simp only [hcontrol, sphdrCmsg, List.append_assoc]
    exact readLe_append (by simp) (by norm_num)
  have htype : readLe control (0 + 12) 4 = .ok 1 := by
    simp only [hcontrol, sphdrCmsg, List.append_assoc]
    rw [← List.append_assoc]
    exact readLe_append (by simp) (by norm_num)
  have hspsz : readLe control (0 + 16) 8 = .ok sphdr.length := by
    simp only [hcontrol, sphdrCmsg, List.append_assoc]
    rw [← List.append_assoc, ← List.append_assoc]
    exact readLe_append (by simp) (by omega)
  have hbytes : readBytes control (0 + 24) sphdr.length = .ok sphdr := by
    simp only [hcontrol, sphdrCmsg, List.append_assoc]
    rw [← List.append_assoc, ← List.append_assoc, ← List.append_assoc]
    exact readBytes_append (by simp) rfl
  have hfirst : nnCmsgNxthdr control none = .ok (some 0) := by
    unfold nnCmsgNxthdr
    rw [if_neg (by rw [nnCmsgSpace_zero]; omega)]
    simp only [pure_eq_ok, ok_bind]
    rw [if_neg (by rw [nnCmsgSpace_zero]; omega), hlen0, ok_bind, if_neg (by rw [halign]; omega)]
  unfold nnSendmsg
  rw [hfirst, ok_bind, findSphdr, hlevel, ok_bind, htype, ok_bind,
    if_pos ⟨rfl, rfl⟩, hlen0, ok_bind]
  by_cases hnil : sphdr = []
  · -- an empty header is not copied, and stays empty
    have hzero : sphdr.length = 0 := by rw [hnil]; rfl
    rw [if_neg (by rw [nnCmsgSpace_zero]; omega), hnil]
    rfl
  · have hpos := List.length_pos_iff.2 hnil
    rw [if_pos (by rw [nnCmsgSpace_zero]; omega), hspsz, ok_bind,
      if_pos (by rw [nnCmsgSpace_zero]; omega), hbytes]
    rfl

/-- What `nn_recvmsg` gives to the user comes back in `nn_sendmsg`. -/
theorem nnSendmsg_nnRecvmsg (msg : Msg) (memory : ℕ → UInt8) (body : List UInt8)
    (hlen : msg.sphdr.length < 2 ^ 63) :
    nnSendmsg body (nnRecvmsgControl msg memory) =
      .ok { sphdr := msg.sphdr, hdrs := nnRecvmsgControl msg memory, body := body } := by
  have hspace := nnCmsgSpace_eq hlen
  have hcontrol : nnRecvmsgControl msg memory = sphdrCmsg msg.sphdr ++
      ((List.range (nnCmsgSpace (msg.sphdr.length + 8) - 24 - msg.sphdr.length)).map
        memory ++ msg.hdrs) := by
    simp only [nnRecvmsgControl, sphdrCmsg, List.append_assoc]
  refine nnSendmsg_sphdrCmsg body hlen hcontrol ?_
  rw [hcontrol]
  simp only [List.length_append, length_sphdrCmsg, List.length_map, List.length_range]
  omega

end NanoSocket

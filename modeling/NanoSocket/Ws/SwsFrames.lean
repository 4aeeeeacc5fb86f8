import NanoSocket.Ws.SwsRuns

/-!
# Frames of a WebSocket session (`transports/ws/sws.c`)

How the receiving side of a session takes one frame: it reads the header in one or two steps and
then the payload, if there is one, and unmasks it.  `World.next` is what the receiving side does
next, `receive_frame` says that a frame on the wire is parsed, and the theorems after it what comes
of data and control frames.
-/

namespace NanoSocket.Ws

open Runs (Reaches)

/-! ### Masks -/

theorem maskFrom_mod (key : Mask) (pos : ℕ) (l : List UInt8) :
    maskFrom key (pos % 4) l = maskFrom key pos l := by
  induction l generalizing pos with
  | nil => rfl
  | cons b l ih =>
    rw [maskFrom, maskFrom, ← ih (pos % 4 + 1), ← ih (pos + 1), Nat.mod_add_mod]
    simp only [Nat.mod_mod]

theorem maskFrom_append (key : Mask) (pos : ℕ) (l l' : List UInt8) :
    maskFrom key pos (l ++ l') = maskFrom key pos l ++ maskFrom key (pos + l.length) l' := by
  induction l generalizing pos with
  | nil => rfl
  | cons b l ih =>
    rw [List.cons_append, maskFrom, maskFrom, ih, List.cons_append, List.length_cons]
    congr 3
    omega

/-- Masking twice gives the payload back. -/
theorem maskFrom_maskFrom (key : Mask) (pos : ℕ) (l : List UInt8) :
    maskFrom key pos (maskFrom key pos l) = l := by
  induction l generalizing pos with
  | nil => rfl
  | cons b l ih => rw [maskFrom, maskFrom, ih, UInt8.xor_assoc, UInt8.xor_self, UInt8.xor_zero]

/-! ### Lengths -/

theorem getBe_nnPuts {n : ℕ} (h : n < 2 ^ 16) : getBe (nnPuts n) = n := by
  rw [getBe, nnPuts, List.reverse_reverse, getLe_putLe]
  exact Nat.mod_eq_of_lt h

theorem getBe_nnPutll {n : ℕ} (h : n < 2 ^ 64) : getBe (nnPutll n) = n := by
  rw [getBe, nnPutll, List.reverse_reverse, getLe_putLe]
  exact Nat.mod_eq_of_lt h

/-- The second byte of a header without the mask bit. -/
def lengthCtl (size : ℕ) : ℕ := if size ≤ 125 then size else if size ≤ 65535 then 0x7E else 0x7F

theorem lengthCtl_lt (size : ℕ) : lengthCtl size < 128 := by
  unfold lengthCtl
  split_ifs <;> omega

theorem lengthField_fst (size : ℕ) : (lengthField size).1 = UInt8.ofNat (lengthCtl size) := by
  unfold lengthField lengthCtl
  split_ifs <;> rfl

/-- The second byte of a header: the mask bit, and the short length. -/
def secondByte (mode : Mode) (size : ℕ) : UInt8 :=
  match mode with
  | .client => (lengthField size).1
  | .server => (lengthField size).1 ||| 0x80

/-- The bits of the second byte. -/
theorem secondByte_bits (mode : Mode) (size : ℕ) :
    (secondByte mode size &&& 0x80 ≠ 0 ↔ mode = .server) ∧
      (secondByte mode size &&& 0x7F).toNat = lengthCtl size := by
  have hbits : ∀ n : Fin 128, UInt8.ofNat n.val &&& 0x80 = 0 ∧
      (UInt8.ofNat n.val &&& 0x7F).toNat = n.val ∧
      (UInt8.ofNat n.val ||| 0x80) &&& 0x80 ≠ 0 ∧
        ((UInt8.ofNat n.val ||| 0x80) &&& 0x7F).toNat = n.val := by
    decide
  obtain ⟨h1, h2, h3, h4⟩ := hbits ⟨lengthCtl size, lengthCtl_lt size⟩
  unfold secondByte
  rw [lengthField_fst]
  cases mode with
  | client => exact ⟨⟨fun h => absurd h1 h, nofun⟩, h2⟩
  | server => exact ⟨⟨fun _ => rfl, fun _ => h3⟩, h4⟩

/-- The rest of a header: the long length, and the mask. -/
def restOfHdr (mode : Mode) (key : Mask) (size : ℕ) : List UInt8 :=
  (lengthField size).2 ++ match mode with
    | .client => []
    | .server => key.toList

theorem length_restOfHdr (mode : Mode) (key : Mask) (size : ℕ) :
    (restOfHdr mode key size).length = extHdrLenOf mode (lengthCtl size) := by
  unfold restOfHdr lengthField lengthCtl extHdrLenOf
  cases mode <;> split_ifs <;> simp_all

/-- The length that the rest of a header gives. -/
theorem lengthExt_restOfHdr {s : Sws} {size : ℕ} (hctl : s.payloadCtl = lengthCtl size)
    (hsize : size < 2 ^ 64) (key : Mask) : s.lengthExt (restOfHdr s.mode key size) = size := by
  unfold Sws.lengthExt
  rw [hctl]
  unfold lengthCtl restOfHdr lengthField
  by_cases hsmall : size ≤ 125
  · simp only [if_pos hsmall]
  by_cases h16 : size ≤ 65535
  · simp only [if_neg hsmall, if_pos h16]
    rw [if_neg (by omega), if_pos trivial, List.take_left' (length_nnPuts size),
      getBe_nnPuts (by omega)]
  · simp only [if_neg hsmall, if_neg h16]
    rw [if_neg (by omega), if_neg (by omega), List.take_left' (length_nnPutll size),
      getBe_nnPutll hsize]

/-! ### Frames on the wire -/

/-- The payload of a frame to a session of the given mode: a server gets it masked. -/
def wirePayload (mode : Mode) (key : Mask) (payload : List UInt8) : List UInt8 :=
  match mode with
  | .client => payload
  | .server => maskFrom key 0 payload

/-- A frame to a session of the given mode. -/
def wireFrame (mode : Mode) (key : Mask) (b0 : UInt8) (payload : List UInt8) : List UInt8 :=
  b0 :: secondByte mode payload.length ::
    (restOfHdr mode key payload.length ++ wirePayload mode key payload)

@[simp] theorem length_wirePayload (mode : Mode) (key : Mask) (payload : List UInt8) :
    (wirePayload mode key payload).length = payload.length := by
  cases mode <;> simp [wirePayload]

/-! ### What the receiving side does next -/

/-- The receive in progress is completed, or the socket gets the message that is there. -/
def World.next (env : Env) (rand : Mask) (w : World) : Option (Except Fault World) :=
  if w.CanReceive then some (w.received env rand)
  else if w.Enabled .recv then some (w.recv env)
  else none

variable {env : Env} {rand : Mask} {w : World}

theorem next_received {w' : World} (hcan : w.CanReceive) (h : w.received env rand = .ok w') :
    w.next env rand = some (.ok w') := by
  unfold World.next
  rw [if_pos hcan, h]

theorem next_recv {w' : World} (hnone : w.sws.usock.recv = none) (hen : w.Enabled .recv)
    (h : w.recv env = .ok w') : w.next env rand = some (.ok w') := by
  unfold World.next
  rw [if_neg, if_pos hen, h]
  rintro ⟨-, -, r, hr, -⟩
  rw [hnone] at hr
  cases hr

/-- The invariant holds after a receive that returns. -/
theorem received_inv (hw : w.sws.Inv) (hcan : w.CanReceive) {w' : World}
    (h : w.received env rand = .ok w') :
    w'.sws.Inv := by
  have hends := received_ends env (E := fun _ => True) hw hcan rand (fun _ _ _ => Or.inr trivial)
    (fun _ => trivial) trivial
  rw [h] at hends
  exact hends.1.1

/-! ### From the header to the payload -/

/-- The connection of a session, apart from the receive in progress. -/
def Sws.link (s : Sws) : Usock × Mode × SwsOutstate := (s.taken.usock, s.mode, s.outstate)

/-- The session `s` has taken the header with first byte `b0` for a payload of `size` bytes from
`s₀`. -/
structure Parsed (s₀ : Sws) (b0 : UInt8) (size : ℕ) (s : Sws) : Prop where
  state : s.state = .active
  link : s.link = s₀.link
  opcode : s.opcode = opcodeOf b0
  final : s.isFinalFrame = isFin b0
  control : s.isControlFrame = (opcodeOf b0).isControl
  payloadCtl : s.payloadCtl = lengthCtl size
  first : s.inhdr.getD 0 0 = b0
  hdr : s.inmsgHdr = if s₀.continuing then s₀.inmsgHdr else b0 ||| 0x80
  continuing : s.continuing = if (opcodeOf b0).isControl then s₀.continuing else !isFin b0
  fragment : s.utf8CodePtFragment = s₀.utf8CodePtFragment
  pipe : s.pipebase = s₀.pipebase

/-- The payload of a frame without payload, or what is left to do after the header. -/
def Sws.emptyDone (self : Sws) : Except Fault Sws :=
  if self.isFinalFrame then self.recvd (if self.isControlFrame then .recvdControl
    else .recvdChunked)
  else nnSwsRecvHdr self

/-- The session while it waits for a payload. -/
def Sws.awaiting (self : Sws) : Sws :=
  if self.isControlFrame then
    { self with inmsgCurrentChunkBuf := .control, instate := .recvPayload
                usock := { self.usock with recv := some (.control, self.inmsgCurrentChunkLen) } }
  else
    { self with inmsgTotalSize := (self.inmsgTotalSize + self.inmsgCurrentChunkLen) % 2 ^ 64
                inmsgArray := self.inmsgArray ++ [List.replicate self.inmsgCurrentChunkLen 0]
                inmsgCurrentChunkBuf := .chunk, instate := .recvPayload
                usock := { self.usock with recv := some (.chunk, self.inmsgCurrentChunkLen) } }

/-- There is room for a chunk of the given size. -/
def Sws.Room (env : Env) (s : Sws) (size : ℕ) : Prop :=
  env.Fits ((s.inmsgTotalSize + size) % 2 ^ 64) ∧ env.MsgChunk size

theorem recvPayload_awaiting {s : Sws} (hu : s.usock.state = .active)
    (hroom : s.isControlFrame = false → s.Room env s.inmsgCurrentChunkLen) (toobig : String) :
    s.recvPayload env rand toobig = .ok s.awaiting := by
  unfold Sws.recvPayload Sws.awaiting nnUsockRecv
  split_ifs with hc
  · rw [nnAssert_of hu]
    rfl
  · obtain ⟨hfits, hmem⟩ := hroom (by simpa using hc)
    dsimp only
    rw [if_neg ((Env.fits_iff _ _).2 hfits), nnAssert_of hmem, ok_bind, nnAssert_of hu]
    rfl

theorem Parsed.awaiting {s₀ s : Sws} {b0 : UInt8} {size : ℕ} (h : Parsed s₀ b0 size s) :
    Parsed s₀ b0 size s.awaiting := by
  unfold Sws.awaiting
  split_ifs
  · exact ⟨h.state, h.link, h.opcode, h.final, h.control, h.payloadCtl, h.first, h.hdr,
      h.continuing, h.fragment, h.pipe⟩
  · exact ⟨h.state, h.link, h.opcode, h.final, h.control, h.payloadCtl, h.first, h.hdr,
      h.continuing, h.fragment, h.pipe⟩

theorem Parsed.withLen {s₀ s : Sws} {b0 : UInt8} {size : ℕ} (h : Parsed s₀ b0 size s) (n : ℕ)
    (off : Option ℕ) :
    Parsed s₀ b0 size { s with inmsgCurrentChunkLen := n, mask := off } :=
  ⟨h.state, h.link, h.opcode, h.final, h.control, h.payloadCtl, h.first, h.hdr, h.continuing,
    h.fragment, h.pipe⟩

/-- The first two bytes of a header that is in order. -/
theorem parsed_begun {s : Sws} (hstate : s.state = .active) (b0 : UInt8) (size : ℕ) :
    Parsed s b0 size ((s.headed b0 (secondByte s.mode size)).begun b0 (secondByte s.mode size)) :=
  ⟨hstate, rfl, rfl, rfl, rfl, (secondByte_bits s.mode size).2, rfl, rfl, rfl, rfl, rfl⟩

/-- What happens after the first two bytes of the header of any frame but `CLOSE`. -/
theorem proceed_eq {s : Sws} (hf : s.Framed) (hext : s.extHdrLen = extHdrLenOf s.mode s.payloadCtl)
    (hclose : s.opcode ≠ .close) :
    s.proceed env rand =
      if s.extHdrLen = 0 ∧ s.payloadCtl = 0 then Sws.emptyDone { s with inmsgCurrentChunkLen := 0 }
      else s.recvRest env rand := by
  have hpong (hop : s.opcode = .ping ∨ s.opcode = .pong) :
      Sws.recvd { s with inmsgCurrentChunkLen := 0 } .recvdControl =
        Sws.emptyDone { s with inmsgCurrentChunkLen := 0 } := by
    have hctl : s.isControlFrame = true := by
      rcases hop with hop | hop <;> rw [hf.isControl, hop] <;> rfl
    unfold Sws.emptyDone
    rw [if_pos (hf.control hctl).1]
    dsimp only
    rw [if_pos hctl]
  unfold Sws.proceed
  split <;> rename_i hop
  · rw [hpong (Or.inl hop)]
  · rw [hpong (Or.inr hop)]
  · exact absurd hop hclose
  · rename_i hping hpong
    have hdata : s.isControlFrame = false := by
      rw [hf.isControl]
      cases hcode : s.opcode with
      | ping => exact absurd hcode hping
      | pong => exact absurd hcode hpong
      | close => exact absurd hcode hclose
      | _ => rfl
    unfold Sws.dataFrame
    split_ifs with hz
    · rw [nnAssert_of (extHdrLenOf_eq_zero (hext.symm.trans hz.1)).1, ok_bind]
      unfold Sws.emptyDone
      dsimp only
      rw [(hf.data hdata).1, hdata]
      cases s.isFinalFrame <;> rfl
    · rfl

/-! ### The payload -/

/-- The session `s` has the payload of the frame with first byte `b0`, and has not looked at it
yet. -/
structure Got (s₀ : Sws) (b0 : UInt8) (payload : List UInt8) (s : Sws) : Prop
    extends Parsed s₀ b0 payload.length s where
  busy : s.Busy
  framed : s.Framed
  chunkLen : s.inmsgCurrentChunkLen = payload.length
  load : payload ≠ [] → s.load s.inmsgCurrentChunkBuf s.inmsgCurrentChunkLen = .ok payload
  array : s.inmsgArray.flatten = s₀.inmsgArray.flatten ++ if (opcodeOf b0).isControl then []
    else payload
  inmsgControl : (opcodeOf b0).isControl = true → s.inmsgControl.take payload.length = payload

/-- What follows when the payload is there. -/
def Sws.frameDone (rand : Mask) (payload : List UInt8) (self : Sws) : Except Fault Sws :=
  if payload = [] then self.emptyDone else self.payloadDone rand

/-- The payload of a frame has been filled in. -/
theorem Parsed.got {s₀ s₁ s : Sws} {b0 : UInt8} {payload : List UInt8}
    (h : Parsed s₀ b0 payload.length s₁) (hb : s₁.Base) (hpipe : s₁.pipebase.instate = .async)
    (hf : s₁.Framed) (hw : s₁.Waiting) (hlen : s₁.inmsgCurrentChunkLen = payload.length)
    (harray : s₁.isControlFrame = true → s₁.inmsgArray = s₀.inmsgArray)
    (harray' : s₁.isControlFrame = false → s₁.inmsgArray.dropLast = s₀.inmsgArray)
    (hfill : Filled s₁.taken payload s) : Got s₀ b0 payload s := by
  have hbusy : s.Busy := hfill.busy ⟨h.state, hb.taken, rfl, hpipe⟩ hw.taken hlen.symm
  have hframed : s.Framed := hfill.framed hf.taken
  have hload := hfill.load hw.taken hlen.symm
  obtain ⟨a, c, rfl, hctl, hdata⟩ := hfill
  refine ⟨⟨h.state, h.link, h.opcode, h.final, h.control, h.payloadCtl, h.first, h.hdr,
    h.continuing, h.fragment, h.pipe⟩, hbusy, hframed, hlen, fun _ => hload, ?_, fun hc => ?_⟩
  · cases hc : (opcodeOf b0).isControl with
    | true =>
      have hc' : s₁.isControlFrame = true := h.control.trans hc
      show a.flatten = _
      rw [(hctl hc').1, if_pos rfl, List.append_nil, ← harray hc']
      rfl
    | false =>
      have hc' : s₁.isControlFrame = false := h.control.trans hc
      show a.flatten = _
      rw [(hdata hc').1, if_neg (by simp), List.flatten_append,
        List.flatten_singleton, ← harray' hc']
      rfl
  · show c.take payload.length = payload
    rw [(hctl (h.control.trans hc)).2, List.take_left]

variable (env) in
/-- `NN_USOCK_RECEIVED` for the payload of a frame. -/
theorem receive_payload {s₀ : Sws} {b0 : UInt8} {payload bytes rest : List UInt8} (hw : w.sws.Inv)
    (hparsed : Parsed s₀ b0 payload.length w.sws) (hin : w.sws.instate = .recvPayload)
    (hlen : w.sws.inmsgCurrentChunkLen = payload.length) (hplain : w.sws.plain bytes = payload)
    (harray : w.sws.isControlFrame = true → w.sws.inmsgArray = s₀.inmsgArray)
    (harray' : w.sws.isControlFrame = false → w.sws.inmsgArray.dropLast = s₀.inmsgArray)
    (hstream : w.stream = bytes ++ rest) (rand : Mask) :
    (s₀.mode = .server ∧ 2 ^ 32 ≤ payload.length → w.received env rand = .error .diverged) ∧
      ((s₀.mode = .server → payload.length < 2 ^ 32) → ∃ s, Got s₀ b0 payload s ∧
        w.received env rand = do return { w with sws := ← s.payloadDone rand,
                                                 stream := rest }) := by
  obtain ⟨hb, hp⟩ := inv_active hw hparsed.state
  obtain ⟨-, hpipe, hf, hwait⟩ := Phase.payload hp hin
  have hbytes : bytes.length = payload.length := by rw [← hplain, length_plain]
  have htake : w.stream.take w.sws.inmsgCurrentChunkLen = bytes := by
    rw [hstream, hlen, ← hbytes, List.take_left]
  have hdrop : w.stream.drop w.sws.inmsgCurrentChunkLen = rest := by
    rw [hstream, hlen, ← hbytes, List.drop_left]
  obtain ⟨s₁, hfill, heq⟩ := received_payload env hparsed.state hb hp hin (by
    rw [hstream, List.length_append]
    omega) rand
  rw [htake] at hfill
  rw [hdrop] at heq
  have hbytes' : bytes.length = w.sws.taken.inmsgCurrentChunkLen := hbytes.trans hlen.symm
  have hbusy := hfill.busy ⟨hparsed.state, hb.taken, rfl, hpipe⟩ hwait.taken hbytes'
  have hwait' := hfill.waiting hwait.taken hbytes'
  have hload := hfill.load hwait.taken hbytes'
  obtain ⟨hmasked, hplain', hcur⟩ : (s₁.masked = true ↔ s₀.mode = .server) ∧
    s₁.plain bytes = payload ∧
      s₁.inmsgCurrentChunkLen = w.sws.inmsgCurrentChunkLen := by
    have hmode : w.sws.mode = s₀.mode := congrArg (fun l => l.2.1) hparsed.link
    obtain ⟨a, c, rfl, -⟩ := hfill
    exact ⟨by rw [← hmode]; exact hf.masked, hplain, rfl⟩
  refine ⟨fun ⟨hserver, hlong⟩ => ?_, fun hshort => ?_⟩
  · rw [heq, recvdPayload_long hwait' rand hload (hmasked.2 hserver) (by omega)]
    rfl
  · obtain ⟨s, hfill', heq'⟩ :=
      recvdPayload_eq hbusy.base hwait' rand hload (hbytes'.trans hcur.symm) fun hm => by
      have := hshort (hmasked.1 hm)
      omega
    rw [hplain'] at hfill'
    refine ⟨s, hparsed.got hb hpipe hf hwait hlen harray harray' (hfill.trans hfill' hbytes.symm),
      ?_⟩
    rw [heq, heq']

/-! ### The rest of the header -/

/-- The mask in the rest of a header. -/
theorem ofFn_getD_mask (key : Mask) (a b c : List UInt8) :
    (Vector.ofFn fun i : Fin 4 => (a ++ (b ++ key.toList ++ c)).getD (a.length + b.length + i) 0) =
      key := by
  ext i hi
  rw [Vector.getElem_ofFn, List.getD_eq_getElem?_getD, List.getElem?_append_right (by omega),
    List.append_assoc, List.getElem?_append_right (by omega),
    List.getElem?_append_left (by simp; omega)]
  have hi' : a.length + b.length + i - a.length - b.length = i := by omega
  simp [hi', hi]

theorem maskPos_eq {s : Sws} {size : ℕ} (hctl : s.payloadCtl = lengthCtl size) :
    s.maskPos = 2 + (lengthField size).2.length := by
  unfold Sws.maskPos
  rw [hctl]
  unfold lengthCtl lengthField
  split_ifs <;> simp_all

/-- The session with the whole header: the length is known, and where the mask is. -/
def Sws.measured (self : Sws) (key : Mask) (size : ℕ) : Sws :=
  { self.extended (restOfHdr self.mode key size) with
    inmsgCurrentChunkLen := size, mask := if self.masked then some self.maskPos else none }

theorem plain_measured {s : Sws} {size : ℕ} (hb : s.Base) (hf : s.Framed)
    (hctl : s.payloadCtl = lengthCtl size) (key : Mask) (payload : List UInt8) :
    (s.measured key size).plain (wirePayload s.mode key payload) = payload := by
  unfold Sws.plain Sws.measured
  dsimp only
  cases hm : s.masked with
  | false =>
    have hmode : s.mode = .client := by
      cases hmode : s.mode with
      | client => rfl
      | server => exact absurd (hm.symm.trans (hf.masked.2 hmode)) (by simp)
    rw [hmode]
    simp [wirePayload]
  | true =>
    have hmode : s.mode = .server := hf.masked.1 hm
    have htwo : (s.inhdr.take 2).length = 2 := by
      rw [List.length_take, hb.inhdr]
      rfl
    have hkey := ofFn_getD_mask key (s.inhdr.take 2) (lengthField size).2
      (s.inhdr.drop (2 + (restOfHdr .server key size).length))
    rw [htwo, ← maskPos_eq hctl] at hkey
    have hm' : (s.extended (restOfHdr s.mode key size)).masked = true := hm
    rw [if_pos rfl, hm', hmode]
    dsimp only
    rw [if_pos rfl]
    unfold Sws.extended
    dsimp only [restOfHdr] at hkey ⊢
    rw [hkey, wirePayload, maskFrom_maskFrom]

theorem Parsed.measured {s₀ s : Sws} {b0 : UInt8} {size : ℕ} (h : Parsed s₀ b0 size s) (hb : s.Base)
    (key : Mask) : Parsed s₀ b0 size (s.measured key size) := by
  have hfirst : (s.measured key size).inhdr.getD 0 0 = s.inhdr.getD 0 0 := by
    have htwo : 0 < (s.inhdr.take 2).length := by
      rw [List.length_take, hb.inhdr]
      decide
    show (s.inhdr.take 2 ++ _).getD 0 0 = _
    rw [List.getD_eq_getElem?_getD, List.getElem?_append_left htwo,
      List.getElem?_take_of_lt (by omega), List.getD_eq_getElem?_getD]
  exact ⟨h.state, h.link, h.opcode, h.final, h.control, h.payloadCtl, hfirst.trans h.first, h.hdr,
    h.continuing, h.fragment, h.pipe⟩

variable (env) in
/-- `NN_USOCK_RECEIVED` for the rest of the header of any frame but `CLOSE`. -/
theorem receive_ext {s₀ : Sws} {b0 : UInt8} {size : ℕ} {key : Mask} {rest : List UInt8}
    (hw : w.sws.Inv) (hparsed : Parsed s₀ b0 size w.sws) (hin : w.sws.instate = .recvHdrext)
    (hclose : opcodeOf b0 ≠ .close) (hsize : size < 2 ^ 64)
    (hstream : w.stream = restOfHdr w.sws.mode key size ++ rest) (rand : Mask) :
    w.received env rand = do
      let s ← if size = 0 then (w.sws.measured key size).emptyDone
        else (w.sws.measured key size).recvPayload env rand "Message size exceeds limit."
      return { w with sws := s, stream := rest } := by
  obtain ⟨hb, hp⟩ := inv_active hw hparsed.state
  obtain ⟨-, -, -, hext, hpos⟩ := Phase.ext hp hin
  have hlen : (restOfHdr w.sws.mode key size).length = w.sws.extHdrLen := by
    rw [length_restOfHdr, hext, hparsed.payloadCtl]
  have htake : w.stream.take w.sws.extHdrLen = restOfHdr w.sws.mode key size := by
    rw [hstream, ← hlen, List.take_left]
  have hdrop : w.stream.drop w.sws.extHdrLen = rest := by
    rw [hstream, ← hlen, List.drop_left]
  have hlext := (extended_busy hparsed.state hb hp hin hlen).2.2
  rw [lengthExt_restOfHdr hparsed.payloadCtl hsize] at hlext
  have hop : w.sws.opcode ≠ .close := by rwa [hparsed.opcode]
  rw [received_ext hparsed.state hb hp hin (by rw [hstream, List.length_append]; omega), htake,
    hdrop, recvdHdrext_eq rand (by exact hpos)]
  dsimp only
  rw [hlext,
    if_neg (show ¬ (w.sws.extended (restOfHdr w.sws.mode key size)).opcode = .close from hop)]
  by_cases h0 : size = 0
  · rw [if_pos h0, if_pos h0]
    rfl
  · rw [if_neg h0, if_neg h0]
    rfl

/-! ### One frame -/

/-- From the state `w₁` on, the receiving side completes the frame that `w` was waiting for. -/
structure Completes (env : Env) (rand : Mask) (w : World) (b0 : UInt8)
    (payload rest : List UInt8) (w₁ : World) :
    Prop where
  can : w₁.CanReceive
  inv : w₁.sws.Inv
  delivered : w₁.delivered = w.delivered
  stream : rest.length < w₁.stream.length
  long : w.sws.mode = .server ∧ 2 ^ 32 ≤ payload.length → w₁.received env rand = .error .diverged
  short : (w.sws.mode = .server → payload.length < 2 ^ 32) → ∃ s, Got w.sws b0 payload s ∧
    w₁.received env rand = do
      return { w with sws := ← s.frameDone rand payload, stream := rest,
                      headers := w.headers ++ [b0] }

/-- The receiving side waits for the payload. -/
theorem completes_of_awaiting {w₁ : World} {t : Sws} {b0 : UInt8} {key : Mask}
    {payload rest : List UInt8} (hw : w₁.sws.Inv) (hsws : w₁.sws = t.awaiting)
    (hparsed : Parsed w.sws b0 payload.length t) (hne : payload ≠ [])
    (hlen : t.inmsgCurrentChunkLen = payload.length) (harray : t.inmsgArray = w.sws.inmsgArray)
    (hplain : t.plain (wirePayload w.sws.mode key payload) = payload)
    (hstream : w₁.stream = wirePayload w.sws.mode key payload ++ rest)
    (hdelivered : w₁.delivered = w.delivered) (hheaders : w₁.headers = w.headers ++ [b0]) :
    Completes env rand w b0 payload rest w₁ := by
  have hparsed' : Parsed w.sws b0 payload.length w₁.sws := by
    rw [hsws]
    exact hparsed.awaiting
  have hfields : w₁.sws.instate = .recvPayload ∧ w₁.sws.inmsgCurrentChunkLen = payload.length ∧
      w₁.sws.plain (wirePayload w.sws.mode key payload) = payload := by
    rw [hsws]
    unfold Sws.awaiting
    split_ifs
    · exact ⟨rfl, hlen, hplain⟩
    · exact ⟨rfl, hlen, hplain⟩
  obtain ⟨hin, hlen', hplain'⟩ := hfields
  have hcontrol : w₁.sws.isControlFrame = t.isControlFrame :=
    hparsed'.control.trans hparsed.control.symm
  have hpos : 0 < payload.length := List.length_pos_iff.2 hne
  have hstream' : w₁.stream.length = payload.length + rest.length := by
    rw [hstream, List.length_append, length_wirePayload]
  have harray₁ (hc : w₁.sws.isControlFrame = true) : w₁.sws.inmsgArray = w.sws.inmsgArray := by
    rw [hsws, Sws.awaiting, if_pos (hcontrol.symm.trans hc)]
    exact harray
  have harray₂ (hc : w₁.sws.isControlFrame = false) :
      w₁.sws.inmsgArray.dropLast = w.sws.inmsgArray := by
    rw [hsws, Sws.awaiting, if_neg (by rw [← hcontrol, hc]; simp)]
    exact (List.dropLast_concat).trans harray
  obtain ⟨hlong, hshort⟩ :=
    receive_payload env hw hparsed' hin hlen' hplain' harray₁ harray₂ hstream rand
  refine ⟨canReceive_of hw hparsed'.state (Phase.payload (inv_active hw hparsed'.state).2 hin).1
    (by omega), hw, hdelivered, by omega, hlong, fun h => ?_⟩
  obtain ⟨s, hgot, heq⟩ := hshort h
  refine ⟨s, hgot, ?_⟩
  rw [heq, Sws.frameDone, if_neg hne, hdelivered, hheaders]

/-- A frame without payload. -/
theorem Parsed.empty {s₀ s : Sws} {b0 : UInt8} (h : Parsed s₀ b0 0 s) (hbusy : s.Busy)
    (hf : s.Framed) (hlen : s.inmsgCurrentChunkLen = 0) (harray : s.inmsgArray = s₀.inmsgArray) :
    Got s₀ b0 [] s := by
  refine ⟨h, hbusy, hf, hlen, fun hne => absurd rfl hne, ?_, fun _ => rfl⟩
  rw [harray, ite_self, List.append_nil]

variable (rand) in
/-- The rest of the header is on its way. -/
theorem completes_of_ext {w₁ : World} {b0 : UInt8} {key : Mask} {payload rest : List UInt8}
    (hw : w₁.sws.Inv) (hparsed : Parsed w.sws b0 payload.length w₁.sws)
    (hin : w₁.sws.instate = .recvHdrext) (hclose : opcodeOf b0 ≠ .close)
    (hsize : payload.length < 2 ^ 64)
    (hroom : (opcodeOf b0).isControl = false → payload ≠ [] → w.sws.Room env payload.length)
    (harray : w₁.sws.inmsgArray = w.sws.inmsgArray)
    (htotal : w₁.sws.inmsgTotalSize = w.sws.inmsgTotalSize)
    (hstream : w₁.stream = restOfHdr w.sws.mode key payload.length ++
      (wirePayload w.sws.mode key payload ++ rest))
    (hdelivered : w₁.delivered = w.delivered) (hheaders : w₁.headers = w.headers ++ [b0]) :
    ∃ w₂, Reaches (World.next env rand) w₁ w₂ ∧ Completes env rand w b0 payload rest w₂ := by
  have hmode : w₁.sws.mode = w.sws.mode := congrArg (fun l => l.2.1) hparsed.link
  obtain ⟨hb, hp⟩ := inv_active hw hparsed.state
  obtain ⟨hrecv, -, hf, hext, hpos⟩ := Phase.ext hp hin
  have hlen : (restOfHdr w.sws.mode key payload.length).length = w₁.sws.extHdrLen := by
    rw [length_restOfHdr, hext, hparsed.payloadCtl, hmode]
  have hcan : w₁.CanReceive := canReceive_of hw hparsed.state hrecv (by
    rw [hstream, List.length_append]
    omega)
  have heq := receive_ext env hw hparsed hin hclose hsize (by rw [hmode]; exact hstream) rand
  have hmeasured := hparsed.measured hb key
  by_cases hne : payload = []
  · obtain ⟨hbusy, hf', -⟩ := extended_busy hparsed.state hb hp hin
      (show (restOfHdr w₁.sws.mode key payload.length).length = _ by rw [hmode]; exact hlen)
    refine ⟨w₁, Reaches.refl w₁, hcan, hw, hdelivered, ?_, ?_,
      fun _ => ⟨w₁.sws.measured key payload.length, ?_, ?_⟩⟩
    · rw [hstream, List.length_append, List.length_append]
      omega
    · rw [hne]
      simp
    · subst hne
      exact hmeasured.empty (hbusy.withLen _ _) (hf'.withLen _ _) rfl harray
    · have hnil : wirePayload w.sws.mode key payload = [] := by
        rw [← List.length_eq_zero_iff, length_wirePayload, hne]
        rfl
      rw [heq, if_pos (by rw [hne]; rfl), Sws.frameDone, if_pos hne, hdelivered, hheaders, hnil]
      rfl
  · have hsize0 : payload.length ≠ 0 := fun h0 => hne (List.eq_nil_of_length_eq_zero h0)
    rw [if_neg hsize0, recvPayload_awaiting (by exact hb.usock) (fun hc => ?_), ok_bind] at heq
    · refine ⟨_, (Reaches.refl w₁).tail (next_received hcan heq), ?_⟩
      refine completes_of_awaiting (received_inv hw hcan heq) rfl hmeasured hne rfl harray ?_ rfl
        hdelivered hheaders
      have := plain_measured hb hf hparsed.payloadCtl key payload
      rwa [hmode] at this
    · have := hroom (hparsed.control.symm.trans hc) hne
      unfold Sws.Room at this ⊢
      rwa [← htotal] at this

theorem lengthCtl_of_le {size : ℕ} (h : lengthCtl size ≤ 125) : lengthCtl size = size := by
  unfold lengthCtl at h ⊢
  split_ifs at h ⊢ <;> omega

theorem plain_of_client {s : Sws} (hf : s.Framed) (hclient : s.mode = .client)
    (bytes : List UInt8) :
    s.plain bytes = bytes := by
  have hm : ¬ s.masked = true := by
    rw [hf.masked, hclient]
    simp
  unfold Sws.plain
  split
  · rw [if_neg hm]
  · rfl

variable (env) in
/-- `NN_USOCK_RECEIVED` for the first two bytes of a header that is in order. -/
theorem receive_hdr (hw : w.sws.Inv) (hstate : w.sws.state = .active)
    (hin : w.sws.instate = .recvHdr) {b0 : UInt8} {size : ℕ} {rest : List UInt8}
    (hstream : w.stream = b0 :: secondByte w.sws.mode size :: rest)
    (hm : ¬ Malformed w.sws.mode w.sws.continuing b0 (secondByte w.sws.mode size)) (rand : Mask) :
    ∃ t : Sws, t.Busy ∧ t.Framed ∧ Parsed w.sws b0 size t ∧
      t.extHdrLen = extHdrLenOf t.mode t.payloadCtl ∧
      t.inmsgArray = w.sws.inmsgArray ∧ t.inmsgTotalSize = w.sws.inmsgTotalSize ∧
      w.received env rand = do
        return { w with sws := ← t.proceed env rand, stream := rest,
                        headers := w.headers ++ [b0] } := by
  obtain ⟨hb, hp⟩ := inv_active hw hstate
  obtain ⟨hbusy, htidy⟩ := headed_busy hstate hb hp hin b0 (secondByte w.sws.mode size)
  obtain ⟨hbusy', hf⟩ := hbusy.begun htidy hm
  refine ⟨_, hbusy', hf, parsed_begun hstate b0 size, rfl, rfl, rfl, ?_⟩
  rw [received_hdr hstate hb hp hin hstream, recvdHdr_eq rand hm]

variable (rand) in
/-- A frame that is in order gets parsed. -/
theorem receive_frame (hw : w.sws.Inv) (hstate : w.sws.state = .active)
    (hin : w.sws.instate = .recvHdr) {b0 : UInt8} {key : Mask} {payload rest : List UInt8}
    (hstream : w.stream = wireFrame w.sws.mode key b0 payload ++ rest)
    (hm : ¬ Malformed w.sws.mode w.sws.continuing b0 (secondByte w.sws.mode payload.length))
    (hclose : opcodeOf b0 ≠ .close) (hsize : payload.length < 2 ^ 64)
    (hroom : (opcodeOf b0).isControl = false → payload ≠ [] → w.sws.Room env payload.length) :
    ∃ w₁, Reaches (World.next env rand) w w₁ ∧ Completes env rand w b0 payload rest w₁ := by
  have hstream' : w.stream = b0 :: secondByte w.sws.mode payload.length ::
      (restOfHdr w.sws.mode key payload.length ++
        (wirePayload w.sws.mode key payload ++ rest)) := by
    rw [hstream, wireFrame]
    simp
  have hlen : (wirePayload w.sws.mode key payload).length = payload.length :=
    length_wirePayload _ _ _
  have hcan : w.CanReceive := canReceive_of hw hstate (Phase.hdr (inv_active hw hstate).2 hin).1 (by
    rw [hstream']
    simp)
  obtain ⟨t, hbusy, hf, hparsed, hext, harray, htotal, heq⟩ :=
    receive_hdr env hw hstate hin hstream' hm rand
  have hmode : t.mode = w.sws.mode := congrArg (fun l => l.2.1) hparsed.link
  rw [proceed_eq hf hext (by rwa [hparsed.opcode])] at heq
  by_cases hz : t.extHdrLen = 0
  · -- a short frame to a client has no more header
    obtain ⟨hclient, hle⟩ := extHdrLenOf_eq_zero (hext.symm.trans hz)
    have hctl : t.payloadCtl = payload.length := by
      rw [hparsed.payloadCtl] at hle ⊢
      exact lengthCtl_of_le hle
    have hrest : restOfHdr w.sws.mode key payload.length = [] := by
      rw [← List.length_eq_zero_iff, length_restOfHdr, ← hparsed.payloadCtl, ← hmode, ← hext, hz]
    rw [hrest, List.nil_append] at heq hstream'
    by_cases hne : payload = []
    · subst hne
      refine ⟨w, Reaches.refl w, hcan, hw, rfl, ?_, fun h => ?_,
        fun _ => ⟨{ t with inmsgCurrentChunkLen := 0 }, ?_, ?_⟩⟩
      · rw [hstream']
        simp only [List.length_cons, List.length_append]
        omega
      · simp at h
      · exact (hparsed.withLen 0 t.mask).empty (hbusy.withLen 0 t.mask)
          (hf.withLen 0 t.mask) rfl harray
      · have hnil : wirePayload w.sws.mode key [] = [] := List.eq_nil_of_length_eq_zero hlen
        rw [heq, if_pos ⟨hz, hctl⟩, hnil]
        rfl
    · have hne0 : t.payloadCtl ≠ 0 :=
        fun h0 => hne (List.eq_nil_of_length_eq_zero (hctl.symm.trans h0))
      rw [if_neg (fun h => hne0 h.2), Sws.recvRest, if_pos hz, nnAssert_of hclient, ok_bind,
        nnAssert_of ⟨Nat.pos_of_ne_zero hne0, hle⟩, ok_bind,
        recvPayload_awaiting (by exact hbusy.base.usock) (fun hc => by
          have hroom' := hroom (hparsed.control.symm.trans hc) hne
          rw [← hctl] at hroom'
          unfold Sws.Room at hroom' ⊢
          rwa [← htotal] at hroom'), ok_bind] at heq
      refine ⟨_, (Reaches.refl w).tail (next_received hcan heq), ?_⟩
      refine completes_of_awaiting (received_inv hw hcan heq) rfl
        (hparsed.withLen t.payloadCtl t.mask) hne hctl harray
        ?_ rfl rfl rfl
      rw [plain_of_client (hf.withLen t.payloadCtl t.mask) hclient, ← hmode, hclient]
      rfl
  · rw [if_neg (fun h => hz h.1), Sws.recvRest, if_neg hz, nnUsockRecv,
      nnAssert_of hbusy.base.usock, ok_bind, pure_eq_ok, ok_bind, pure_eq_ok, ok_bind] at heq
    obtain ⟨w₂, hreach, hcompletes⟩ := completes_of_ext rand (received_inv hw hcan heq)
      ⟨hparsed.state, hparsed.link, hparsed.opcode, hparsed.final, hparsed.control,
        hparsed.payloadCtl, hparsed.first, hparsed.hdr, hparsed.continuing, hparsed.fragment,
        hparsed.pipe⟩ rfl hclose hsize hroom harray
      htotal rfl rfl rfl
    exact ⟨w₂, Reaches.trans ((Reaches.refl w).tail (next_received hcan heq)) hreach, hcompletes⟩

/-! ### What comes of a frame -/

/-- The session waits for the next frame: `first` is the first byte of the message in progress,
`body` what there is of it, and `tail` is kept of an unfinished code point. -/
structure World.Waits (w : World) (first : Option UInt8) (body tail : List UInt8) : Prop where
  inv : w.sws.Inv
  state : w.sws.state = .active
  instate : w.sws.instate = .recvHdr
  continuing : w.sws.continuing = first.isSome
  hdr : ∀ b ∈ first, w.sws.inmsgHdr = b ||| 0x80
  body : w.sws.inmsgArray.flatten = body
  tail : w.sws.utf8CodePtFragment = tail

/-- Messages of up to `n` bytes are within the limit, and there is memory for them and for control
frames. -/
structure Env.Admits (env : Env) (n : ℕ) : Prop where
  fits : env.Fits n
  mem : ∀ k, k ≤ n ∨ k ≤ 125 → env.MsgChunk k

theorem Env.Admits.mono {m n : ℕ} (h : env.Admits n) (hle : m ≤ n) : env.Admits m := by
  refine ⟨?_, fun k hk => h.mem k (by omega)⟩
  have := h.fits
  unfold Env.Fits at this ⊢
  omega

theorem Env.Admits.lt {n : ℕ} (h : env.Admits n) : n < 2 ^ 64 := by
  rcases (h.mem n (Or.inl le_rfl)).2 with hlt | ⟨hlt, -⟩ <;> omega

theorem World.Waits.room {first : Option UInt8} {body tail : List UInt8}
    (h : w.Waits first body tail) {n : ℕ} (hadmits : env.Admits (body.length + n)) :
    w.sws.Room env n := by
  have hb := (inv_active h.inv h.state).1
  have hlt := hadmits.lt
  refine ⟨?_, hadmits.mem n (Or.inl (by omega))⟩
  rw [hb.total, h.body, Nat.mod_eq_of_lt (show body.length < 2 ^ 64 by omega), Nat.mod_eq_of_lt hlt]
  exact hadmits.fits

/-- The first byte of a data frame: the first one of a message, or a continuation. -/
structure DataByte (first : Option UInt8) (b0 : UInt8) : Prop where
  rsv : b0 &&& 0x40 = 0 ∧ b0 &&& 0x20 = 0 ∧ b0 &&& 0x10 = 0
  opcode : if first.isSome then opcodeOf b0 = .fragment
    else opcodeOf b0 = .binary ∨ opcodeOf b0 = .text

theorem DataByte.isControl {first : Option UInt8} {b0 : UInt8} (h : DataByte first b0) :
    (opcodeOf b0).isControl = false ∧ opcodeOf b0 ≠ .close := by
  have hop := h.opcode
  split_ifs at hop
  · rw [hop]
    simp [Opcode.isControl]
  · rcases hop with hop | hop <;> rw [hop] <;> simp [Opcode.isControl]

theorem DataByte.not_malformed {first : Option UInt8} {b0 : UInt8} (h : DataByte first b0)
    (mode : Mode) (size : ℕ) :
    ¬ Malformed mode first.isSome b0 (secondByte mode size) := by
  have hop := h.opcode
  unfold Malformed
  rintro (hrsv | hmask | hcode)
  · simp [h.rsv] at hrsv
  · exact hmask (secondByte_bits mode size).1
  · split_ifs at hop with hfirst
    · rw [hop, hfirst] at hcode
      cases hcode
    · rcases hop with hop | hop <;> rw [hop] at hcode <;> exact hfirst hcode

/-- A data frame gets parsed. -/
theorem World.Waits.receive_data {first : Option UInt8} {body tail : List UInt8}
    (h : w.Waits first body tail) {b0 : UInt8} (hb0 : DataByte first b0) {key : Mask}
    {payload rest : List UInt8} (hstream : w.stream = wireFrame w.sws.mode key b0 payload ++ rest)
    (hadmits : env.Admits (body.length + payload.length)) (rand : Mask) :
    ∃ w₁, Reaches (World.next env rand) w w₁ ∧ Completes env rand w b0 payload rest w₁ := by
  refine receive_frame rand h.inv h.state h.instate hstream ?_ hb0.isControl.2 ?_ fun _ _ =>
    h.room hadmits
  · rw [h.continuing]
    exact hb0.not_malformed _ _
  · have := hadmits.lt
    omega

/-- A data frame whose payload is complete. -/
theorem Got.chunked {s₀ s : Sws} {b0 : UInt8} {payload : List UInt8} (h : Got s₀ b0 payload s)
    (hdata : (opcodeOf b0).isControl = false) : s.Chunked :=
  ⟨h.busy, (h.framed.data (h.control.trans hdata)).1, (h.framed.data (h.control.trans hdata)).2⟩

section Data

variable {first : Option UInt8} {body tail payload : List UInt8} {b0 : UInt8} {s : Sws}

/-- The first byte of the message is kept. -/
theorem Got.inmsgHdr (hgot : Got w.sws b0 payload s) (h : w.Waits first body tail) :
    s.inmsgHdr = first.getD b0 ||| 0x80 := by
  rw [hgot.hdr, h.continuing]
  cases hfirst : first with
  | none => rfl
  | some b => exact h.hdr b hfirst

/-- The message goes on after a frame; `f` is what is kept of an unfinished code point. -/
theorem Got.waits_more (hgot : Got w.sws b0 payload s) (h : w.Waits first body tail)
    (hdata : (opcodeOf b0).isControl = false) (hfin : isFin b0 = false) {f : List UInt8}
    (hf : f.length < 4) (rest hs : List UInt8) :
    nnSwsRecvHdr { s with utf8CodePtFragment := f } =
        .ok (Sws.atHdr { s with utf8CodePtFragment := f }) ∧
      World.Waits { w with sws := Sws.atHdr { s with utf8CodePtFragment := f }, stream := rest,
                           headers := hs }
        (some (first.getD b0)) (body ++ payload) f ∧
      (Sws.atHdr { s with utf8CodePtFragment := f }).link = w.sws.link := by
  have hchunked := (hgot.chunked hdata).withFragment hf
  have hcont : s.continuing = true := by
    rw [(hgot.chunked hdata).continuing, hgot.final, hfin]
    rfl
  have htidy : Sws.Tidy { s with utf8CodePtFragment := f } :=
    fun hc => absurd (hcont.symm.trans hc) (by simp)
  refine ⟨nnSwsRecvHdr_eq hchunked.base.usock htidy,
    ⟨(hchunked.atHdr htidy).1.1, hgot.state, rfl, hcont, ?_, ?_, rfl⟩, hgot.link⟩
  · rintro b hb
    cases hb
    exact hgot.inmsgHdr h
  · show s.inmsgArray.flatten = _
    rw [hgot.array, h.body, hdata]
    rfl

variable (rand) in
/-- The last frame of a message has come: the socket gets the message. -/
theorem Got.delivers (hgot : Got w.sws b0 payload s) (h : w.Waits first body tail)
    (hdata : (opcodeOf b0).isControl = false) (hfin : isFin b0 = true) {f : List UInt8}
    (hf : f.length < 4) (hadmits : env.Admits (body.length + payload.length))
    (rest hs : List UInt8) :
    Sws.recvd { s with utf8CodePtFragment := f } .recvdChunked =
        .ok (Sws.told { s with utf8CodePtFragment := f } .recvdChunked) ∧
      ∃ w', World.recv env
        { w with sws := Sws.told { s with utf8CodePtFragment := f } .recvdChunked,
                                    stream := rest, headers := hs } = .ok w' ∧
        World.next env rand
          { w with sws := Sws.told { s with utf8CodePtFragment := f } .recvdChunked,
                                     stream := rest, headers := hs } = some (.ok w') ∧
        w'.Waits none [] f ∧ w'.sws.link = w.sws.link ∧ w'.stream = rest ∧ w'.headers = hs ∧
        w'.delivered = w.delivered ++
          [⟨[], wsHdrs env ((first.getD b0 ||| 0x80) &&& 0x7F), body ++ payload⟩] := by
  have hchunked := (hgot.chunked hdata).withFragment hf
  have heq := recvd_eq hchunked.pipe .recvdChunked
  refine ⟨heq, ?_⟩
  have hinv : (Sws.told { s with utf8CodePtFragment := f } .recvdChunked).Inv := by
    have hends :=
      hchunked.recvdChunked (E := fun _ => False) (hgot.final.trans hfin) hchunked.dataHdr
    rw [heq] at hends
    exact hends.1.1
  obtain ⟨hb, hp⟩ := inv_active hinv hgot.state
  have hbody : s.inmsgArray.flatten = body ++ payload := by
    rw [hgot.array, h.body, hdata]
    rfl
  have hsize : (body ++ payload).length < 2 ^ 64 := by
    rw [List.length_append]
    exact hadmits.lt
  obtain ⟨htotal, hgather⟩ := gather_total hb (by
    show s.inmsgArray.flatten.length < _
    rwa [hbody])
  have hhdr := hgot.inmsgHdr h
  have hrecv : Sws.pipeRecv env (Sws.told { s with utf8CodePtFragment := f } .recvdChunked) =
      .ok (⟨[], wsHdrs env ((first.getD b0 ||| 0x80) &&& 0x7F), body ++ payload⟩,
        (Sws.told { s with utf8CodePtFragment := f } .recvdChunked).emptied) := by
    rw [pipeRecv_chunked (by exact hgot.state) hb hp rfl, hgather, nnAssert_of, ok_bind, ok_bind,
      nnAssert_of htotal.symm, ok_bind]
    · show Except.ok (_, _) = Except.ok (_, _)
      rw [← hhdr, ← hbody]
      rfl
    · rw [htotal]
      show env.Chunkref s.inmsgArray.flatten.length
      rw [hbody, List.length_append]
      exact (hadmits.mem _ (Or.inl le_rfl)).2
  have hrecv' := congrArg (fun r => r >>= fun r => Except.ok { w with
    sws := r.2, stream := rest, headers := hs, delivered := w.delivered ++ [r.1] }) hrecv
  refine ⟨_, hrecv', next_recv hgot.busy.recv ⟨hb.pipe, rfl⟩ hrecv', ?_, ?_, rfl, rfl, rfl⟩
  · exact ⟨hb.emptied hgot.state, hgot.state, rfl, rfl, nofun, rfl, rfl⟩
  · exact hgot.link

/-- The opcode of a control frame that the socket gets. -/
def PingByte (b0 : UInt8) : Prop := b0 = 0x89 ∨ b0 = 0x8A

theorem PingByte.facts (h : PingByte b0) :
    (opcodeOf b0 = .ping ∨ opcodeOf b0 = .pong) ∧ isFin b0 = true ∧ (opcodeOf b0).isControl = true ∧
      b0 &&& 0x40 = 0 ∧ b0 &&& 0x20 = 0 ∧ b0 &&& 0x10 = 0 := by
  rcases h with rfl | rfl <;> decide

theorem PingByte.not_malformed (h : PingByte b0) {size : ℕ} (hsize : size ≤ 125) (mode : Mode)
    (continuing : Bool) :
    ¬ Malformed mode continuing b0 (secondByte mode size) := by
  obtain ⟨hop, hfin, -, hrsv⟩ := h.facts
  unfold Malformed
  rintro (hbits | hmask | hcode)
  · simp [hrsv] at hbits
  · exact hmask (secondByte_bits mode size).1
  · rw [hfin, (secondByte_bits mode size).2, lengthCtl, if_pos hsize] at hcode
    rcases hop with hop | hop <;> rw [hop] at hcode <;> simp at hcode <;> omega

/-- A control frame is given to the socket, and the message in progress is left alone. -/
theorem World.Waits.control (h : w.Waits first body tail) (hb0 : PingByte b0) {key : Mask}
    {rest : List UInt8} (hstream : w.stream = wireFrame w.sws.mode key b0 payload ++ rest)
    (hsize : payload.length ≤ 125) (hmem : env.Chunkref payload.length) (rand : Mask) :
    ∃ w', Reaches (World.next env rand) w w' ∧ w'.Waits first body tail ∧ w'.sws.link = w.sws.link ∧
      w'.stream = rest ∧
        w'.delivered = w.delivered ++ [⟨[], wsHdrs env (b0 &&& 0x7F), payload⟩] := by
  obtain ⟨hop, hfin, hctl, -⟩ := hb0.facts
  obtain ⟨w₁, hreach, hcompletes⟩ := receive_frame rand h.inv h.state h.instate hstream
    (hb0.not_malformed hsize _ _) (by rcases hop with hop | hop <;> rw [hop] <;> simp) (by omega)
    (fun hdata => absurd (hctl.symm.trans hdata) (by simp))
  obtain ⟨s, hgot, heq⟩ := hcompletes.short fun _ => by omega
  have hdone : s.frameDone rand payload = .ok (s.told .recvdControl) := by
    rw [← recvd_eq hgot.busy.pipe, Sws.frameDone]
    split_ifs
    · rw [Sws.emptyDone, if_pos (hgot.final.trans hfin), if_pos (hgot.control.trans hctl)]
    · unfold Sws.payloadDone
      rw [hgot.opcode]
      rcases hop with hop | hop <;> rw [hop]
  rw [hdone] at heq
  have hinv := received_inv hcompletes.inv hcompletes.can heq
  obtain ⟨hb, hp⟩ := inv_active hinv hgot.state
  have hlen : (s.told .recvdControl).inmsgCurrentChunkLen = payload.length := hgot.chunkLen
  have hrecv : (s.told .recvdControl).pipeRecv env =
      .ok (⟨[], wsHdrs env (b0 &&& 0x7F), payload⟩, (s.told .recvdControl).relayed) := by
    rw [pipeRecv_control (by exact hgot.state) hb hp rfl, hlen, nnAssert_of hmem, ok_bind]
    show Except.ok (Msg.mk _ (wsHdrs env (s.inhdr.getD 0 0 &&& 0x7F))
      (s.inmsgControl.take payload.length), _) = _
    rw [hgot.first, hgot.inmsgControl hctl]
  refine ⟨_, (hreach.tail (next_received hcompletes.can heq)).tail
    (next_recv hgot.busy.recv ⟨hb.pipe, rfl⟩ (by unfold World.recv; rw [hrecv]; rfl)), ?_,
      hgot.link, rfl, rfl⟩
  have hcont : s.continuing = w.sws.continuing := by
    rw [hgot.continuing, hctl]
    rfl
  refine ⟨?_, hgot.state, rfl, hcont.trans h.continuing, fun b hb' => ?_, ?_,
    hgot.fragment.trans h.tail⟩
  · unfold Sws.Phase at hp
    exact (Sws.Base.relayed (s := s.told .recvdControl) hgot.state hb hgot.busy.recv hp.2.2.2.1).1
  · show s.inmsgHdr = _
    have hsome : w.sws.continuing = true := by
      rw [h.continuing, Option.mem_def.1 hb']
      rfl
    rw [hgot.hdr, if_pos hsome]
    exact h.hdr b hb'
  · show s.inmsgArray.flatten = _
    rw [hgot.array, hctl, h.body]
    simp

end Data

end NanoSocket.Ws

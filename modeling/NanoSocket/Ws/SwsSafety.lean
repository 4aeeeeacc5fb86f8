import NanoSocket.Lib.Runs
import NanoSocket.Ws.Sws

/-!
# What a WebSocket session keeps in order (`transports/ws/sws.c`)

`Sws.Inv` says what holds of a session between two events: in which state which receive is in
progress, what the parsed header says, and that the running total of a message is the sum of its
chunks modulo 2^64.
-/

namespace NanoSocket.Ws

/-! ### Bits of a header -/

theorem isFin_or (b : UInt8) : isFin (b ||| 0x80) = true := by
  have hbit : (b ||| 0x80) &&& 0x80 = (0x80 : UInt8) := by
    apply UInt8.toBitVec_inj.1
    simp only [UInt8.toBitVec_and, UInt8.toBitVec_or, BitVec.and_or_distrib_right]
    grind
  rw [isFin, hbit]
  rfl

theorem opcodeOf_or (b : UInt8) : opcodeOf (b ||| 0x80) = opcodeOf b := by
  have hlow : (b ||| 0x80) &&& 0x0F = b &&& 0x0F := by
    apply UInt8.toBitVec_inj.1
    simp [BitVec.and_or_distrib_right]
  rw [opcodeOf, hlow]
  rfl

theorem opcodeOf_and (b : UInt8) : opcodeOf (b &&& 0x7F) = opcodeOf b := by
  have hlow : (b &&& 0x7F) &&& 0x0F = b &&& 0x0F := UInt8.and_assoc _ _ _
  rw [opcodeOf, hlow]
  rfl

/-! ### Bounds -/

@[simp] theorem length_nnPuts (v : ℕ) : (nnPuts v).length = 2 := by simp [nnPuts]

@[simp] theorem length_nnPutll (v : ℕ) : (nnPutll v).length = 8 := by simp [nnPutll]

@[simp] theorem length_maskFrom (mask : Mask) (pos : ℕ) (l : List UInt8) :
    (maskFrom mask pos l).length = l.length := by
  induction l generalizing pos with
  | nil => rfl
  | cons b l ih => rw [maskFrom, List.length_cons, ih, List.length_cons]

theorem writeBytes_eq {data bytes : List UInt8} {off : ℕ} (h : off + bytes.length ≤ data.length) :
    writeBytes data off bytes = .ok (data.take off ++ bytes ++ data.drop (off + bytes.length)) :=
  if_pos h

/-! ### The end of the connection -/

/-- The bytes of a close frame. -/
def closeMsg (mode : Mode) (rand : Mask) (code : ℕ) (reason : String) : List UInt8 :=
  let payload := nnPuts code ++ ascii reason
  match mode with
  | .server => 0x88 :: UInt8.ofNat payload.length :: payload
  | .client =>
    0x88 :: (UInt8.ofNat payload.length ||| 0x80) :: (rand.toList ++ maskFrom rand 0 payload)

/-- The session after `nn_sws_fail_conn`. -/
def Sws.failed (rand : Mask) (self : Sws) (code : ℕ) (reason : String) : Sws :=
  let self := { self with instate := .closed, pipebase := self.pipebase.stop, inmsgArray := [] }
  if self.outstate = .idle then
    { self with outstate := .sending, state := .closingConnection,
                usock := { self.usock with send := .writing,
                                           sent := self.usock.sent ++ closeMsg self.mode
                                             rand code reason } }
  else { self with state := .done }

/-- `nn_sws_fail_conn` with one of the short reasons of the source. -/
theorem nnSwsFailConn_eq {s : Sws} (rand : Mask) (code : ℕ) {reason : String}
    (hstate : s.state = .active) (hu : s.usock.state = .active)
    (hreason : (ascii reason).length ≤ 100) :
    nnSwsFailConn rand s code reason = .ok (s.failed rand code reason) := by
  have hpay : (nnPuts code ++ ascii reason).length ≤ 102 := by
    rw [List.length_append, length_nnPuts]
    omega
  have hmsg : failMsg s.mode rand code reason = .ok (closeMsg s.mode rand code reason) := by
    unfold failMsg closeMsg
    dsimp only
    rw [nnAssert_of (by omega), ok_bind]
    cases s.mode with
    | server => rfl
    | client =>
      have hlt : (nnPuts code ++ ascii reason).length < 2 ^ 32 := by omega
      simp only [nnSwsMaskPayload, if_pos hlt, ok_bind, length_maskFrom]
      rfl
  have hlen : (closeMsg s.mode rand code reason).length ≤ 125 := by
    unfold closeMsg
    cases s.mode with
    | server =>
      simp only [List.length_cons]
      omega
    | client =>
      simp only [List.length_cons, List.length_append, Vector.length_toList,
        length_maskFrom] at hpay ⊢
      omega
  unfold nnSwsFailConn
  rw [nnAssert_of hstate, ok_bind]
  dsimp only
  rw [hmsg, ok_bind, if_neg (by omega)]
  unfold Sws.failed nnUsockSend
  by_cases hout : s.outstate = .idle
  · simp only [hout, if_true, nnAssert_of hu, ok_bind]
    rfl
  · simp only [hout, if_false]
    rfl

/-- The connection was failed with a code: the pipe is stopped, the fragments are gone, and the
close frame is sent if no message is being sent. -/
structure FailedWith (rand : Mask) (code : ℕ) (s s' : Sws) : Prop where
  instate : s'.instate = .closed
  pipe : s'.pipebase.state = .idle
  array : s'.inmsgArray = []
  recv : s'.usock.recv = s.usock.recv
  event : s'.usock.eventError = s.usock.eventError
  outstate : s.outstate = .idle → s'.outstate = .sending
  sent : s.outstate = .idle → s'.state = .closingConnection ∧ s'.usock.send = .writing ∧
    ∃ reason, s'.usock.sent = s.usock.sent ++ closeMsg s.mode rand code reason
  pending : s.outstate ≠ .idle → s'.state = .done ∧ s'.usock.sent = s.usock.sent ∧
    s'.usock.send = s.usock.send

/-- `nn_sws_fail_conn` on a session that differs from `s` in what was parsed only. -/
theorem nnSwsFailConn_spec {s t : Sws} (rand : Mask) (code : ℕ) {reason : String}
    (hstate : s.state = .active) (hu : s.usock.state = .active)
    (hreason : (ascii reason).length ≤ 100)
    (hs : (t.state, t.usock, t.mode, t.outstate) = (s.state, s.usock, s.mode, s.outstate)) :
    ∃ s', nnSwsFailConn rand t code reason = .ok s' ∧ FailedWith rand code s s' := by
  simp only [Prod.mk.injEq] at hs
  obtain ⟨ht, hs₂, hs₃, hs₄⟩ := hs
  refine ⟨_, nnSwsFailConn_eq rand code (ht.trans hstate) (by rw [hs₂, hu]) hreason, ?_⟩
  unfold Sws.failed
  dsimp only
  rw [hs₂, hs₃, hs₄]
  split_ifs with hout
  · exact ⟨rfl, rfl, rfl, rfl, rfl, fun _ => rfl, fun _ => ⟨rfl, rfl, reason, rfl⟩,
      fun h => absurd hout h⟩
  · exact ⟨rfl, rfl, rfl, rfl, rfl, fun h => absurd h hout, fun h => absurd h hout,
      fun _ => ⟨rfl, rfl, rfl⟩⟩

/-- Only the connection matters for what failing it means. -/
theorem FailedWith.congr {s s₁ s' : Sws} {rand : Mask} {code : ℕ} (h : FailedWith rand code s₁ s')
    (hs : (s₁.usock, s₁.mode, s₁.outstate) = (s.usock, s.mode, s.outstate)) :
    FailedWith rand code s s' := by
  simp only [Prod.mk.injEq] at hs
  obtain ⟨hs₁, hs₂, hs₃⟩ := hs
  obtain ⟨hin, hpipe, harray, hrecv, hevent, hout, hsent, hpending⟩ := h
  rw [hs₁] at hrecv hevent hsent hpending
  rw [hs₂] at hsent
  rw [hs₃] at hout hsent hpending
  exact ⟨hin, hpipe, harray, hrecv, hevent, hout, hsent, hpending⟩

/-! ### The invariant -/

/-- The first byte of a message that can be delivered: the final bit, and `BINARY` or `TEXT`. -/
def DataHdr (b : UInt8) : Prop := isFin b = true ∧ (opcodeOf b = .binary ∨ opcodeOf b = .text)

/-- The control frames. -/
def Opcode.isControl : Opcode → Bool
  | .close | .ping | .pong => true
  | _ => false

/-- What holds of an active session in every instate. -/
structure Sws.Base (s : Sws) : Prop where
  inhdr : s.inhdr.length = 14
  control : s.inmsgControl.length = 125
  fragment : s.utf8CodePtFragment.length < 4
  pipe : s.pipebase.state = .active
  out : s.outstate = .idle ∧ s.pipebase.outstate = .idle ∨
    s.outstate = .sending ∧ s.pipebase.outstate = .async
  usock : s.usock.state = .active
  sending : s.usock.send ≠ .idle → s.outstate = .sending
  hdr : s.continuing = true → DataHdr s.inmsgHdr
  total : s.inmsgTotalSize = s.inmsgArray.flatten.length % 2 ^ 64

/-- No fragment is kept unless a message is being continued. -/
def Sws.Tidy (s : Sws) : Prop := s.continuing = false → s.inmsgArray = []

/-- The first two bytes of the header have been accepted. -/
structure Sws.Framed (s : Sws) : Prop where
  masked : s.masked = true ↔ s.mode = .server
  opcode : s.opcode ≠ .unused
  isControl : s.isControlFrame = s.opcode.isControl
  control : s.isControlFrame = true → s.isFinalFrame = true ∧ s.payloadCtl ≤ 125 ∧ s.Tidy ∧
    isFin (s.inhdr.getD 0 0) = true ∧ opcodeOf (s.inhdr.getD 0 0) = s.opcode
  close : s.opcode = .close → s.payloadCtl ≠ 1
  data : s.isControlFrame = false → s.continuing = !s.isFinalFrame ∧ DataHdr s.inmsgHdr

/-- The buffer that waits for the payload has the length of the payload. -/
structure Sws.Waiting (s : Sws) : Prop where
  pos : 0 < s.inmsgCurrentChunkLen
  control : s.isControlFrame = true → s.inmsgCurrentChunkBuf = .control ∧
    s.inmsgCurrentChunkLen ≤ 125
  close : s.opcode = .close → 2 ≤ s.inmsgCurrentChunkLen
  data : s.isControlFrame = false → s.inmsgCurrentChunkBuf = .chunk ∧
    ∃ init ch, s.inmsgArray = init ++ [ch] ∧ ch.length = s.inmsgCurrentChunkLen
  mask : s.masked = true → ∃ off, s.mask = some off

/-- What holds in each instate of an active session. -/
def Sws.Phase (s : Sws) : Prop :=
  match s.instate with
  | .recvHdr => s.usock.recv = some (.inhdr 0, 2) ∧ s.pipebase.instate = .async ∧ s.Tidy
  | .recvHdrext => s.usock.recv = some (.inhdr 2, s.extHdrLen) ∧
      s.pipebase.instate = .async ∧ s.Framed ∧
      s.extHdrLen = extHdrLenOf s.mode s.payloadCtl ∧ 0 < s.extHdrLen
  | .recvPayload => s.usock.recv = some (s.inmsgCurrentChunkBuf, s.inmsgCurrentChunkLen) ∧
      s.pipebase.instate = .async ∧ s.Framed ∧ s.Waiting
  | .recvdChunked => s.usock.recv = none ∧ s.pipebase.instate = .idle ∧ s.isFinalFrame = true ∧
      DataHdr s.inmsgHdr
  | .recvdControl => s.usock.recv = none ∧ s.pipebase.instate = .idle ∧
      s.isFinalFrame = true ∧ s.Tidy ∧
      s.inmsgCurrentChunkLen ≤ 125 ∧ isFin (s.inhdr.getD 0 0) = true ∧
      (opcodeOf (s.inhdr.getD 0 0) = .ping ∨ opcodeOf (s.inhdr.getD 0 0) = .pong)
  | .init | .closed => False

/-- What holds of a session in every state. -/
def Sws.Inv (s : Sws) : Prop :=
  match s.state with
  | .handshake | .stoppingHandshake => s = { nnSwsStart s.mode s.msgType with state := s.state }
  | .active => s.Base ∧ s.Phase
  | .closingConnection => s.outstate = .sending ∧ s.usock.recv = none ∧ s.pipebase.state = .idle ∧
      (s.usock.send = .written → s.usock.eventError = false)
  | .brokenConnection => s.usock.state ≠ .active ∧ s.pipebase.state = .idle ∧ s.usock.Quiet
  | .done => s.pipebase.state ≠ .active

theorem Sws.Inv.of_active {s : Sws} (hstate : s.state = .active) (hb : s.Base) (hp : s.Phase) :
    s.Inv := by
  unfold Sws.Inv
  rw [hstate]
  exact ⟨hb, hp⟩

/-- The lengths of the chunks. -/
def Sws.lens (s : Sws) : List ℕ := s.inmsgArray.map List.length

/-- An active session while it handles `NN_USOCK_RECEIVED`. -/
structure Sws.Busy (s : Sws) : Prop where
  state : s.state = .active
  base : s.Base
  recv : s.usock.recv = none
  pipe : s.pipebase.instate = .async

/-- The invariant holds again, and no chunk was added. -/
def Kept (s s' : Sws) : Prop := s'.Inv ∧ (s'.lens = s.lens ∨ s'.lens = [])

/-- The session goes on, or the connection was failed. -/
def Sws.Handled (s : Sws) : Prop :=
  s.state = .active ∨ s.instate = .closed ∧ (s.state = .closingConnection ∨ s.state = .done)

/-- How the handling of a receive can end when no chunk is added. -/
def Held (s s' : Sws) : Prop := Kept s s' ∧ s'.Handled

/-! ### Ways to end the handling of an event -/

variable {s : Sws} {E : Fault → Prop}

theorem FailedWith.held {s' : Sws} {rand : Mask} {code : ℕ} (h : FailedWith rand code s s')
    (hrecv : s.usock.recv = none) : Held s s' := by
  have hlens : s'.lens = [] := by rw [Sws.lens, h.array, List.map_nil]
  by_cases hout : s.outstate = .idle
  · obtain ⟨hstate, hwriting, -⟩ := h.sent hout
    refine ⟨⟨?_, Or.inr hlens⟩, Or.inr ⟨h.instate, Or.inl hstate⟩⟩
    unfold Sws.Inv
    rw [hstate]
    refine ⟨h.outstate hout, h.recv.trans hrecv, h.pipe, fun hsent => ?_⟩
    rw [hwriting] at hsent
    cases hsent
  · have hstate := (h.pending hout).1
    refine ⟨⟨?_, Or.inr hlens⟩, Or.inr ⟨h.instate, Or.inr hstate⟩⟩
    unfold Sws.Inv
    rw [hstate]
    dsimp only
    rw [h.pipe]
    simp

theorem fail_ends (hstate : s.state = .active) (hu : s.usock.state = .active)
    (hrecv : s.usock.recv = none) (rand : Mask) (code : ℕ) {reason : String}
    (hreason : (ascii reason).length ≤ 100) :
    Ends E (Held s) (nnSwsFailConn rand s code reason) := by
  obtain ⟨s', hs', hfail⟩ := nnSwsFailConn_spec (t := s) rand code hstate hu hreason rfl
  rw [hs']
  exact hfail.held hrecv

theorem Sws.Busy.fail (h : s.Busy) (rand : Mask) (code : ℕ) {reason : String}
    (hreason : (ascii reason).length ≤ 100) : Ends E (Held s) (nnSwsFailConn rand s code reason) :=
  fail_ends h.state h.base.usock h.recv rand code hreason

/-- The session after `nn_sws_recv_hdr`. -/
def Sws.atHdr (self : Sws) : Sws :=
  { self with inmsgCurrentChunkBuf := if self.continuing then self.inmsgCurrentChunkBuf else .null
              inmsgCurrentChunkLen := if self.continuing then self.inmsgCurrentChunkLen else 0
              inmsgTotalSize := if self.continuing then self.inmsgTotalSize else 0
              inmsgControl := List.replicate 125 0, inhdr :=
    List.replicate 14 0, instate := .recvHdr
              usock := { self.usock with recv := some (.inhdr 0, 2) } }

theorem nnSwsRecvHdr_eq (hu : s.usock.state = .active) (htidy : s.Tidy) :
    nnSwsRecvHdr s = .ok s.atHdr := by
  unfold nnSwsRecvHdr Sws.atHdr nnUsockRecv
  cases hc : s.continuing with
  | true =>
    simp only [if_true, pure_eq_ok, ok_bind, nnAssert_of hu, hc]
  | false =>
    simp only [Bool.false_eq_true, if_false, nnAssert_of (htidy hc), pure_eq_ok, ok_bind,
      nnAssert_of hu, hc]

theorem Sws.Busy.atHdr (h : s.Busy) (htidy : s.Tidy) : Held s s.atHdr := by
  obtain ⟨hstate, hb, hrecv, hpipe⟩ := h
  refine ⟨⟨?_, Or.inl rfl⟩, Or.inl hstate⟩
  refine Sws.Inv.of_active (by exact hstate) ?_ ?_
  · refine ⟨by simp [Sws.atHdr], by simp [Sws.atHdr], hb.fragment, hb.pipe, hb.out, hb.usock,
      hb.sending, hb.hdr, ?_⟩
    unfold Sws.atHdr
    dsimp only
    split_ifs with hc
    · exact hb.total
    · rw [htidy (by simpa using hc)]
      rfl
  · exact ⟨rfl, hpipe, htidy⟩

theorem Sws.Busy.recvHdr (h : s.Busy) (htidy : s.Tidy) : Ends E (Held s) (nnSwsRecvHdr s) := by
  rw [nnSwsRecvHdr_eq h.base.usock htidy]
  exact h.atHdr htidy

/-- The session after a message was announced. -/
def Sws.told (self : Sws) (instate : SwsInstate) : Sws :=
  { self with instate, pipebase := { self.pipebase with instate := .idle } }

theorem recvd_eq (hpipe : s.pipebase.instate = .async) (i : SwsInstate) :
    s.recvd i = .ok (s.told i) := by
  unfold Sws.recvd Pipebase.received Sws.told
  rw [if_neg (by rw [hpipe]; simp), nnAssert_of hpipe]
  rfl

theorem Sws.Busy.recvdChunked (h : s.Busy) (hfin : s.isFinalFrame = true)
    (hhdr : DataHdr s.inmsgHdr) :
    Ends E (Held s) (s.recvd .recvdChunked) := by
  rw [recvd_eq h.pipe]
  obtain ⟨hstate, hb, hrecv, hpipe⟩ := h
  refine ⟨⟨?_, Or.inl rfl⟩, Or.inl hstate⟩
  refine Sws.Inv.of_active (by exact hstate) ?_ ?_
  · exact ⟨hb.inhdr, hb.control, hb.fragment, hb.pipe, hb.out, hb.usock, hb.sending,
      hb.hdr, hb.total⟩
  · exact ⟨hrecv, rfl, hfin, hhdr⟩

theorem Sws.Busy.recvdControl (h : s.Busy) (hfin : s.isFinalFrame = true) (htidy : s.Tidy)
    (hlen : s.inmsgCurrentChunkLen ≤ 125) (hbit : isFin (s.inhdr.getD 0 0) = true)
    (hop : opcodeOf (s.inhdr.getD 0 0) = .ping ∨ opcodeOf (s.inhdr.getD 0 0) = .pong) :
    Ends E (Held s) (s.recvd .recvdControl) := by
  rw [recvd_eq h.pipe]
  obtain ⟨hstate, hb, hrecv, hpipe⟩ := h
  refine ⟨⟨?_, Or.inl rfl⟩, Or.inl hstate⟩
  refine Sws.Inv.of_active (by exact hstate) ?_ ?_
  · exact ⟨hb.inhdr, hb.control, hb.fragment, hb.pipe, hb.out, hb.usock, hb.sending,
      hb.hdr, hb.total⟩
  · exact ⟨hrecv, rfl, hfin, htidy, hlen, hbit, hop⟩

/-! ### Text -/

open Utf8 (Octets)

/-- What the end of the loop says about a text that starts with the bytes it looked at. -/
def Utf8Scan.Means (l : List UInt8) : Utf8Scan → Prop
  | .wellFormed => ∀ x, Octets (l ++ x) ↔ Octets x
  | .invalid => ∀ x, ¬ Octets (l ++ x)
  | .fragment rest => rest ≠ [] ∧ nnUtf8CodePoint rest = .fragment ∧ ∀ x, Octets (l ++ x) ↔
      Octets (rest ++ x)

theorem Utf8Scan.Means.skip {l l' : List UInt8} {r : Utf8Scan} (h : r.Means l')
    (hl : ∀ x, Octets (l ++ x) ↔ Octets (l' ++ x)) : r.Means l := by
  cases r with
  | wellFormed => exact fun x => (hl x).trans (h x)
  | invalid => exact fun x hx => h x ((hl x).1 hx)
  | fragment rest => exact ⟨h.1, h.2.1, fun x => (hl x).trans (h.2.2 x)⟩

/-- The loop over code points ends, and finds out what can be found out. -/
theorem utf8Loop_spec {fuel : ℕ} {l : List UInt8} (hfuel : l.length ≤ fuel) :
    ∃ r, utf8Loop fuel l = .ok r ∧ r.Means l := by
  induction fuel generalizing l with
  | zero =>
    rw [List.eq_nil_of_length_eq_zero (Nat.le_zero.1 hfuel)]
    exact ⟨.wellFormed, rfl, fun x => Iff.rfl⟩
  | succ fuel ih =>
    cases l with
    | nil => exact ⟨.wellFormed, rfl, fun x => Iff.rfl⟩
    | cons b l =>
      rw [utf8Loop]
      cases hcp : nnUtf8CodePoint (b :: l) with
      | valid n =>
        have hn := (char_of_valid hcp).1
        have hpos := pos_of_valid hcp
        obtain ⟨r, hr, hm⟩ := ih (l := (b :: l).drop n) (by
          rw [List.length_drop]
          omega)
        refine ⟨r, ?_, hm.skip (octets_of_valid hcp)⟩
        dsimp only
        rw [nnAssert_of hn]
        exact hr
      | invalid => exact ⟨.invalid, rfl, not_octets_of_invalid hcp⟩
      | fragment => exact ⟨.fragment (b :: l), rfl, by simp, hcp, fun x => Iff.rfl⟩

theorem Sws.Base.withFragment (h : s.Base) {f : List UInt8} (hf : f.length < 4) :
    Sws.Base { s with utf8CodePtFragment := f } :=
  ⟨h.inhdr, h.control, hf, h.pipe, h.out, h.usock, h.sending, h.hdr, h.total⟩

/-- A data frame whose payload is complete. -/
structure Sws.Chunked (s : Sws) : Prop extends s.Busy where
  continuing : s.continuing = !s.isFinalFrame
  dataHdr : DataHdr s.inmsgHdr

theorem Sws.Chunked.withFragment (h : s.Chunked) {f : List UInt8} (hf : f.length < 4) :
    Sws.Chunked { s with utf8CodePtFragment := f } :=
  ⟨⟨h.state, h.base.withFragment hf, h.recv, h.pipe⟩, h.continuing, h.dataHdr⟩

theorem Sws.Chunked.done (h : s.Chunked) : Ends E (Held s) s.chunkDone := by
  unfold Sws.chunkDone
  split_ifs with hfin
  · exact h.recvdChunked hfin h.dataHdr
  · refine h.recvHdr fun hc => ?_
    rw [h.continuing, Bool.not_eq_false'] at hc
    exact absurd hc hfin

theorem Sws.Chunked.validateRest (h : s.Chunked) (rand : Mask) (bytes : List UInt8) :
    Ends E (Held s) (s.validateRest rand bytes) := by
  unfold Sws.validateRest
  rw [nnAssert_of h.base.fragment, ok_bind]
  obtain ⟨r, hr, hm⟩ := utf8Loop_spec (le_refl bytes.length)
  rw [hr, ok_bind]
  cases r with
  | invalid => exact (h.withFragment (by simp)).fail rand _ (length_ascii_le _ (by decide))
  | fragment rest =>
    have hlt := length_lt_of_fragment hm.2.1
    dsimp only
    rw [nnAssert_of hlt, ok_bind]
    have h' := h.withFragment hlt
    split_ifs with hfin
    · exact h'.fail rand _ (length_ascii_le _ (by decide))
    · have := h'.done (E := E)
      rwa [Sws.chunkDone, if_neg hfin] at this
  | wellFormed => exact (h.withFragment (by simp)).done

/-- The defect in the validation of text: the last byte of a four-byte code point arrives alone. -/
def CompletesFour (fragment : List UInt8) (b : UInt8) : Prop :=
  fragment.length = 3 ∧ ∃ n, nnUtf8CodePoint (fragment ++ [b]) = .valid n

/-- `nn_sws_validate_utf8_chunk`, when the chunk is `b :: bytes`. -/
theorem Sws.Chunked.validate (h : s.Chunked) (rand : Mask) {b : UInt8} {bytes : List UInt8}
    (hload : s.load s.inmsgCurrentChunkBuf s.inmsgCurrentChunkLen = .ok (b :: bytes))
    (hfour : CompletesFour s.utf8CodePtFragment b → E .assertFailed) :
    Ends E (Held s) (nnSwsValidateUtf8Chunk rand s) := by
  unfold nnSwsValidateUtf8Chunk
  rw [hload, ok_bind]
  split_ifs with hnil
  · exact h.validateRest rand _
  rw [nnAssert_of h.base.fragment, ok_bind]
  dsimp only
  have hlt := h.base.fragment
  by_cases hthree : s.utf8CodePtFragment.length = 3
  · -- four bytes are a code point or a mistake
    cases hcp : nnUtf8CodePoint (s.utf8CodePtFragment ++ [b]) with
    | valid n =>
      show Ends E _
        (Sws.validateRest rand { s with utf8CodePtFragment := s.utf8CodePtFragment ++ [b] } bytes)
      unfold Sws.validateRest
      rw [nnAssert_of_not (by simp [hthree])]
      exact hfour ⟨hthree, n, hcp⟩
    | invalid =>
      exact fail_ends (s := { s with utf8CodePtFragment := s.utf8CodePtFragment ++ [b] })
        h.state h.base.usock
        h.recv rand _ (by decide)
    | fragment =>
      have := length_lt_of_fragment hcp
      simp [hthree] at this
  · have h' := h.withFragment (f := s.utf8CodePtFragment ++ [b]) (by
      rw [List.length_append, List.length_singleton]
      omega)
    cases nnUtf8CodePoint (s.utf8CodePtFragment ++ [b]) with
    | valid n => exact h'.validateRest rand _
    | invalid => exact h'.fail rand _ (length_ascii_le _ (by decide))
    | fragment =>
      dsimp only
      split_ifs with hfin
      · exact h'.fail rand _ (length_ascii_le _ (by decide))
      · have := h'.done (E := E)
        rwa [Sws.chunkDone, if_neg hfin] at this

/-- `nn_sws_acknowledge_close_handshake` always ends the connection. -/
theorem Sws.Busy.acknowledge (h : s.Busy) (rand : Mask)
    (hload : s.inmsgCurrentChunkLen ≠ 0 → 2 ≤ s.inmsgCurrentChunkLen ∧
      ∃ chunk, s.load s.inmsgCurrentChunkBuf s.inmsgCurrentChunkLen = .ok chunk) :
    Ends E (Held s) (nnSwsAcknowledgeCloseHandshake rand s) := by
  unfold nnSwsAcknowledgeCloseHandshake
  split_ifs with hlen
  · exact h.fail rand _ (length_ascii_le _ (by decide))
  obtain ⟨htwo, chunk, hchunk⟩ := hload hlen
  rw [nnAssert_of htwo, ok_bind, hchunk, ok_bind]
  obtain ⟨r, hr, -⟩ := utf8Loop_spec (le_refl (chunk.drop 2).length)
  rw [hr, ok_bind]
  cases r with
  | wellFormed =>
    dsimp only
    split_ifs
    · exact h.fail rand _ (length_ascii_le _ (by decide))
    · exact h.fail rand _ (length_ascii_le _ (by decide))
  | invalid => exact h.fail rand _ (length_ascii_le _ (by decide))
  | fragment => exact h.fail rand _ (length_ascii_le _ (by decide))

/-! ### Headers -/

/-- A message of this size is within the limit. -/
def Env.Fits (env : Env) (n : ℕ) : Prop := env.rcvmaxsize < 0 ∨ (n : ℤ) ≤ env.rcvmaxsize

instance (env : Env) (n : ℕ) : Decidable (env.Fits n) := inferInstanceAs (Decidable (_ ∨ _))

/-- The invariant holds again, and at most a chunk for `len` bytes was added. -/
def Grown (env : Env) (s : Sws) (len : Option ℕ) (s' : Sws) : Prop :=
  s'.Inv ∧ (s'.lens = s.lens ∨ s'.lens = [] ∨
    ∃ n ∈ len, s'.lens = s.lens ++ [n] ∧ env.Fits ((s.inmsgTotalSize + n) % 2 ^ 64))

variable {env : Env} {len : Option ℕ}

theorem Kept.grown {s' : Sws} (h : Kept s s') : Grown env s len s' :=
  ⟨h.1, h.2.imp_right Or.inl⟩

/-- How the handling of a receive can end. -/
def Advanced (env : Env) (s : Sws) (len : Option ℕ) (s' : Sws) : Prop :=
  Grown env s len s' ∧ s'.Handled

theorem Held.advanced {s' : Sws} (h : Held s s') : Advanced env s len s' := ⟨h.1.grown, h.2⟩

theorem Env.fits_iff (env : Env) (n : ℕ) :
    ¬ (env.rcvmaxsize ≥ 0 ∧ (n : ℤ) > env.rcvmaxsize) ↔ env.Fits n := by
  unfold Env.Fits
  omega

theorem Sws.Busy.recvPayload (h : s.Busy) (hf : s.Framed) (rand : Mask) {toobig : String}
    (htoobig : (ascii toobig).length ≤ 100) (hpos : 0 < s.inmsgCurrentChunkLen)
    (hcontrol : s.isControlFrame = true → s.inmsgCurrentChunkLen ≤ 125)
    (hclose : s.opcode = .close → 2 ≤ s.inmsgCurrentChunkLen)
    (hmask : s.masked = true → ∃ off, s.mask = some off)
    (hlen : s.isControlFrame = false → s.inmsgCurrentChunkLen ∈ len)
    (hmem : s.isControlFrame = false →
      env.Fits ((s.inmsgTotalSize + s.inmsgCurrentChunkLen) % 2 ^ 64) →
      env.MsgChunk s.inmsgCurrentChunkLen ∨ E .assertFailed) :
    Ends E (Advanced env s len) (s.recvPayload env rand toobig) := by
  obtain ⟨hstate, hb, hrecv, hpipe⟩ := h
  unfold Sws.recvPayload nnUsockRecv
  by_cases hc : s.isControlFrame = true
  · rw [if_pos hc, nnAssert_of hb.usock]
    refine Held.advanced ⟨⟨?_, Or.inl rfl⟩, Or.inl hstate⟩
    refine Sws.Inv.of_active (by exact hstate) ?_ ?_
    · exact ⟨hb.inhdr, hb.control, hb.fragment, hb.pipe, hb.out, hb.usock, hb.sending,
        hb.hdr, hb.total⟩
    · refine ⟨rfl, hpipe, ⟨hf.masked, hf.opcode, hf.isControl, hf.control, hf.close, hf.data⟩,
        ⟨hpos, fun _ => ⟨rfl, hcontrol hc⟩, hclose, fun hd => ?_, hmask⟩⟩
      exact absurd (hc.symm.trans hd) (by simp)
  · rw [if_neg hc]
    rw [Bool.not_eq_true] at hc
    dsimp only
    split_ifs with hbig
    · refine Ends.mono (fail_ends ?_ ?_ ?_ rand 1009 htoobig) fun _ hk => Held.advanced hk
      · exact hstate
      · exact hb.usock
      · exact hrecv
    rw [Env.fits_iff] at hbig
    refine Ends.assert (hmem hc hbig) fun hmem => ?_
    rw [nnAssert_of hb.usock, ok_bind]
    have hlens :
        (s.inmsgArray ++ [List.replicate s.inmsgCurrentChunkLen (0 : UInt8)]).map List.length =
        s.lens ++ [s.inmsgCurrentChunkLen] := by
      simp [Sws.lens]
    refine ⟨⟨?_, Or.inr (Or.inr ⟨_, hlen hc, hlens, hbig⟩)⟩, Or.inl hstate⟩
    refine Sws.Inv.of_active (by exact hstate) ?_ ?_
    · refine ⟨hb.inhdr, hb.control, hb.fragment, hb.pipe, hb.out, hb.usock, hb.sending, hb.hdr, ?_⟩
      dsimp only
      rw [hb.total, List.flatten_append, List.length_append, List.flatten_singleton,
        List.length_replicate, Nat.mod_add_mod]
    · refine ⟨rfl, hpipe, ⟨hf.masked, hf.opcode, hf.isControl, fun hd => ?_, hf.close, hf.data⟩,
        ⟨hpos, fun hd => ?_, hclose, fun _ => ⟨rfl, _, _, rfl, by simp⟩, hmask⟩⟩
      · exact absurd (hc.symm.trans hd) (by simp)
      · exact absurd (hc.symm.trans hd) (by simp)

/-- A data frame with which the message gets too big fails the connection. -/
theorem recvPayload_tooBig (hstate : s.state = .active) (hu : s.usock.state = .active)
    (hdata : s.isControlFrame = false)
    (hbig : ¬ env.Fits ((s.inmsgTotalSize + s.inmsgCurrentChunkLen) % 2 ^ 64)) (rand : Mask)
    {toobig : String} (htoobig : (ascii toobig).length ≤ 100) :
    ∃ s', s.recvPayload env rand toobig = .ok s' ∧ FailedWith rand 1009 s s' := by
  rw [← Env.fits_iff, not_not] at hbig
  unfold Sws.recvPayload
  rw [if_neg (by rw [hdata]; simp)]
  dsimp only
  rw [if_pos hbig]
  exact nnSwsFailConn_spec rand 1009 hstate hu htoobig rfl

/-- The first two bytes of a header are out of order: a reserved bit, the wrong mask bit, an opcode
that is not defined or does not fit, or a control frame that is fragmented or too long. -/
def Malformed (mode : Mode) (continuing : Bool) (b0 b1 : UInt8) : Prop :=
  (b0 &&& 0x40 ≠ 0 ∨ b0 &&& 0x20 ≠ 0 ∨ b0 &&& 0x10 ≠ 0) ∨ ¬ (b1 &&& 0x80 ≠ 0 ↔ mode = .server) ∨
    match opcodeOf b0 with
    | .fragment => continuing = false
    | .text | .binary => continuing = true
    | .ping | .pong => isFin b0 = false ∨ 125 < (b1 &&& 0x7F).toNat
    | .close => isFin b0 = false ∨ 125 < (b1 &&& 0x7F).toNat ∨ (b1 &&& 0x7F).toNat = 1
    | .unused => True

instance (mode : Mode) (continuing : Bool) (b0 b1 : UInt8) :
    Decidable (Malformed mode continuing b0 b1) := by
  unfold Malformed
  cases opcodeOf b0 <;> infer_instance

/-- What the first two bytes of a header leave in the session. -/
def Sws.begun (self : Sws) (b0 b1 : UInt8) : Sws :=
  { self with
    isFinalFrame := isFin b0, masked := b1 &&& 0x80 ≠ 0, opcode := opcodeOf b0
    payloadCtl := (b1 &&& 0x7F).toNat, inmsgHdr := if self.continuing then self.inmsgHdr
      else b0 ||| 0x80
    extHdrLen := extHdrLenOf self.mode (b1 &&& 0x7F).toNat, isControlFrame :=
      (opcodeOf b0).isControl
    continuing := if (opcodeOf b0).isControl then self.continuing else !isFin b0 }

/-- What happens after the first two bytes of a header. -/
def Sws.proceed (env : Env) (rand : Mask) (self : Sws) : Except Fault Sws :=
  match self.opcode with
  | .ping | .pong =>
    if self.extHdrLen = 0 ∧ self.payloadCtl = 0 then
      Sws.recvd { self with inmsgCurrentChunkLen := 0 } .recvdControl
    else self.recvRest env rand
  | .close =>
    if self.extHdrLen = 0 ∧ self.payloadCtl = 0 then
      nnSwsAcknowledgeCloseHandshake rand { self with inmsgCurrentChunkLen := 0 }
    else self.recvRest env rand
  | _ => self.dataFrame env rand

/-- A header that is in order. -/
theorem recvdHdr_eq (rand : Mask)
    (h : ¬ Malformed s.mode s.continuing (s.inhdr.getD 0 0) (s.inhdr.getD 1 0)) :
    s.recvdHdr env rand = (s.begun (s.inhdr.getD 0 0) (s.inhdr.getD 1 0)).proceed env rand := by
  unfold Sws.recvdHdr
  generalize s.inhdr.getD 0 0 = b0 at h ⊢
  generalize s.inhdr.getD 1 0 = b1 at h ⊢
  unfold Malformed at h
  simp only [not_or, not_not] at h
  obtain ⟨hrsv, hmask, hop⟩ := h
  dsimp only
  rw [if_neg (by simpa using hrsv), if_neg (by simp only [decide_eq_true_eq]; tauto),
    if_neg (by
      rintro ⟨hm, hb⟩
      rw [decide_eq_true_eq] at hb
      rw [hmask.1 hb] at hm
      cases hm)]
  unfold Sws.proceed Sws.begun
  cases hcode : opcodeOf b0 with
  | fragment =>
    rw [hcode] at hop
    rw [if_neg (fun hc => hop (by simpa using hc.1))]
    rfl
  | text | binary =>
    rw [hcode] at hop
    rw [if_neg (by simp)]
    exact if_neg hop
  | ping | pong =>
    rw [hcode] at hop
    simp only [not_or, Bool.not_eq_false, not_lt] at hop
    rw [if_neg (by simp)]
    dsimp only
    unfold Sws.pingFrame
    dsimp only
    rw [if_neg (by omega), if_neg (by simp [hop.1])]
    rfl
  | close =>
    rw [hcode] at hop
    simp only [not_or, Bool.not_eq_false, not_lt] at hop
    rw [if_neg (by simp)]
    dsimp only
    unfold Sws.closeFrame
    dsimp only
    rw [if_neg (by simp [hop.1]), if_neg (by omega), if_neg hop.2.2]
    rfl
  | unused =>
    rw [hcode] at hop
    exact absurd trivial hop

variable (env) in
/-- A header that is out of order fails the connection. -/
theorem recvdHdr_malformed (hstate : s.state = .active) (hu : s.usock.state = .active) (rand : Mask)
    (h : Malformed s.mode s.continuing (s.inhdr.getD 0 0) (s.inhdr.getD 1 0)) :
    ∃ s', s.recvdHdr env rand = .ok s' ∧ FailedWith rand 1002 s s' := by
  unfold Sws.recvdHdr
  generalize s.inhdr.getD 0 0 = b0 at h ⊢
  generalize s.inhdr.getD 1 0 = b1 at h ⊢
  dsimp only
  by_cases hrsv : b0 &&& 0x40 ≠ 0 ∨ b0 &&& 0x20 ≠ 0 ∨ b0 &&& 0x10 ≠ 0
  · rw [if_pos hrsv]
    exact nnSwsFailConn_spec rand 1002 hstate hu (length_ascii_le _ (by decide)) rfl
  rw [if_neg hrsv]
  split
  · exact nnSwsFailConn_spec rand 1002 hstate hu (length_ascii_le _ (by decide)) rfl
  rename_i hserver
  split
  · exact nnSwsFailConn_spec rand 1002 hstate hu (length_ascii_le _ (by decide)) rfl
  rename_i hclient
  split
  · exact nnSwsFailConn_spec rand 1002 hstate hu (length_ascii_le _ (by decide)) rfl
  rename_i hcont
  have hop := (h.resolve_left hrsv).resolve_left (by
    cases hm : s.mode with
    | server => simpa [hm] using hserver
    | client => simpa [hm] using hclient)
  cases hcode : opcodeOf b0 with
  | fragment =>
    rw [hcode] at hop
    exact absurd ⟨by simpa using hop, hcode⟩ hcont
  | text | binary =>
    rw [hcode] at hop
    dsimp only
    rw [if_pos (by exact hop)]
    exact nnSwsFailConn_spec rand 1002 hstate hu (length_ascii_le _ (by decide)) rfl
  | ping | pong =>
    rw [hcode] at hop
    dsimp only at hop ⊢
    unfold Sws.pingFrame
    dsimp only
    split
    · exact nnSwsFailConn_spec rand 1002 hstate hu (length_ascii_le _ (by decide)) rfl
    rename_i hlen
    rw [if_pos (by simpa using hop.resolve_right hlen)]
    exact nnSwsFailConn_spec rand 1002 hstate hu (length_ascii_le _ (by decide)) rfl
  | close =>
    rw [hcode] at hop
    dsimp only at hop ⊢
    unfold Sws.closeFrame
    dsimp only
    split
    · exact nnSwsFailConn_spec rand 1002 hstate hu (length_ascii_le _ (by decide)) rfl
    rename_i hfin
    split
    · exact nnSwsFailConn_spec rand 1002 hstate hu (length_ascii_le _ (by decide)) rfl
    rename_i hlen
    rw [if_pos ((hop.resolve_left (by simpa using hfin)).resolve_left hlen)]
    exact nnSwsFailConn_spec rand 1002 hstate hu (length_ascii_le _ (by decide)) rfl
  | unused => exact nnSwsFailConn_spec rand 1002 hstate hu (length_ascii_le _ (by decide)) rfl

theorem extHdrLenOf_eq_zero {mode : Mode} {n : ℕ} (h : extHdrLenOf mode n = 0) :
    mode = .client ∧ n ≤ 125 := by
  unfold extHdrLenOf at h
  cases mode with
  | server => simp at h
  | client =>
    refine ⟨rfl, ?_⟩
    by_contra hn
    rw [if_neg hn] at h
    split_ifs at h

/-- The three kinds of frames that are in order: control frames, continuations, and the first frame
of a message. -/
theorem kinds_of_not_malformed {mode : Mode} {continuing : Bool} {b0 b1 : UInt8}
    (h : ¬ Malformed mode continuing b0 b1) :
    (opcodeOf b0).isControl = true ∧ isFin b0 = true ∧ (b1 &&& 0x7F).toNat ≤ 125 ∧
        (opcodeOf b0 = .close → (b1 &&& 0x7F).toNat ≠ 1) ∨
      opcodeOf b0 = .fragment ∧ continuing = true ∨
      (opcodeOf b0 = .binary ∨ opcodeOf b0 = .text) ∧ continuing = false := by
  unfold Malformed at h
  simp only [not_or] at h
  obtain ⟨-, -, hop⟩ := h
  cases hcode : opcodeOf b0 <;> rw [hcode] at hop <;>
    simp_all [Opcode.isControl, not_or, Bool.not_eq_false]

theorem Sws.Busy.begun (h : s.Busy) (htidy : s.Tidy)
    (hm : ¬ Malformed s.mode s.continuing (s.inhdr.getD 0 0) (s.inhdr.getD 1 0)) :
    (s.begun (s.inhdr.getD 0 0) (s.inhdr.getD 1 0)).Busy ∧
      (s.begun (s.inhdr.getD 0 0) (s.inhdr.getD 1 0)).Framed := by
  obtain ⟨hstate, hb, hrecv, hpipe⟩ := h
  have hkinds := kinds_of_not_malformed hm
  unfold Malformed at hm
  simp only [not_or, not_not] at hm
  obtain ⟨-, hmask, hop⟩ := hm
  have hhdr : (opcodeOf (s.inhdr.getD 0 0)).isControl = false →
      DataHdr (if s.continuing then s.inmsgHdr else s.inhdr.getD 0 0 ||| 0x80) := by
    intro hdata
    rcases hkinds with ⟨hc, -⟩ | ⟨-, hc⟩ | ⟨hc, hc'⟩
    · rw [hdata] at hc
      cases hc
    · rw [if_pos hc]
      exact hb.hdr hc
    · rw [if_neg (by simp [hc'])]
      exact ⟨isFin_or _, by rwa [opcodeOf_or]⟩
  constructor
  · refine ⟨hstate,
      ⟨hb.inhdr, hb.control, hb.fragment, hb.pipe, hb.out, hb.usock, hb.sending, ?_, hb.total⟩,
      hrecv, hpipe⟩
    unfold Sws.begun
    dsimp only
    intro hc
    by_cases hctl : (opcodeOf (s.inhdr.getD 0 0)).isControl = true
    · rw [if_pos hctl] at hc
      rw [if_pos hc]
      exact hb.hdr hc
    · exact hhdr (by simpa using hctl)
  · unfold Sws.begun
    refine ⟨by simpa using hmask, ?_, rfl, ?_, ?_, ?_⟩
    · dsimp only
      intro hcode
      rw [hcode] at hop
      exact hop trivial
    · dsimp only
      intro hctl
      rcases hkinds with ⟨-, hfin, hlen, -⟩ | ⟨hc, -⟩ | ⟨hc, -⟩
      · exact ⟨hfin, hlen, fun hc => htidy (by rwa [if_pos hctl] at hc), hfin, rfl⟩
      · rw [hc] at hctl
        cases hctl
      · rcases hc with hc | hc <;> rw [hc] at hctl <;> cases hctl
    · dsimp only
      intro hcode
      rcases hkinds with ⟨-, -, -, hone⟩ | ⟨hc, -⟩ | ⟨hc, -⟩
      · exact hone hcode
      · rw [hc] at hcode
        cases hcode
      · rcases hc with hc | hc <;> rw [hc] at hcode <;> cases hcode
    · dsimp only
      intro hdata
      exact ⟨by rw [hdata]; rfl, hhdr hdata⟩

theorem Sws.Busy.recvRest (h : s.Busy) (hf : s.Framed)
    (hext : s.extHdrLen = extHdrLenOf s.mode s.payloadCtl)
    (hne : ¬ (s.extHdrLen = 0 ∧ s.payloadCtl = 0)) (rand : Mask)
    (hlen : s.extHdrLen = 0 → s.isControlFrame = false → s.payloadCtl ∈ len)
    (hmem : s.extHdrLen = 0 → s.isControlFrame = false →
      env.Fits ((s.inmsgTotalSize + s.payloadCtl) % 2 ^ 64) → env.MsgChunk s.payloadCtl ∨
      E .assertFailed) :
    Ends E (Advanced env s len) (s.recvRest env rand) := by
  unfold Sws.recvRest
  split_ifs with hz
  · obtain ⟨hmode, hle⟩ := extHdrLenOf_eq_zero (hext.symm.trans hz)
    have hpos : 0 < s.payloadCtl := Nat.pos_of_ne_zero fun h0 => hne ⟨hz, h0⟩
    rw [nnAssert_of hmode, ok_bind, nnAssert_of ⟨hpos, hle⟩, ok_bind]
    have hb := h.base
    refine Sws.Busy.recvPayload (s := { s with inmsgCurrentChunkLen := s.payloadCtl })
      ⟨h.state, ⟨hb.inhdr, hb.control, hb.fragment, hb.pipe, hb.out, hb.usock, hb.sending, hb.hdr,
        hb.total⟩, h.recv, h.pipe⟩
      ⟨hf.masked, hf.opcode, hf.isControl, hf.control, hf.close, hf.data⟩ rand (by decide) hpos
        (fun _ => hle) ?_ ?_
      (hlen hz) (hmem hz)
    · intro hc
      have := hf.close hc
      show 2 ≤ s.payloadCtl
      omega
    · intro hmasked
      rw [hf.masked.1 hmasked] at hmode
      cases hmode
  · obtain ⟨hstate, hb, hrecv, hpipe⟩ := h
    unfold nnUsockRecv
    rw [nnAssert_of hb.usock]
    refine Held.advanced ⟨⟨?_, Or.inl rfl⟩, Or.inl hstate⟩
    refine Sws.Inv.of_active (by exact hstate) ?_ ?_
    · exact ⟨hb.inhdr, hb.control, hb.fragment, hb.pipe, hb.out, hb.usock, hb.sending,
        hb.hdr, hb.total⟩
    · exact ⟨rfl, hpipe, ⟨hf.masked, hf.opcode, hf.isControl, hf.control, hf.close, hf.data⟩, hext,
        Nat.pos_of_ne_zero hz⟩

theorem Sws.Busy.withLen (h : s.Busy) (n : ℕ) (off : Option ℕ) :
    Sws.Busy { s with inmsgCurrentChunkLen := n, mask := off } := by
  have hb := h.base
  exact ⟨h.state, ⟨hb.inhdr, hb.control, hb.fragment, hb.pipe, hb.out, hb.usock, hb.sending, hb.hdr,
    hb.total⟩, h.recv, h.pipe⟩

theorem Sws.Framed.withLen (h : s.Framed) (n : ℕ) (off : Option ℕ) :
    Sws.Framed { s with inmsgCurrentChunkLen := n, mask := off } :=
  ⟨h.masked, h.opcode, h.isControl, h.control, h.close, h.data⟩

/-- A data frame without payload. -/
theorem Sws.Busy.empty (h : s.Busy) (hf : s.Framed) (hdata : s.isControlFrame = false) :
    Ends E (Held s) (if s.continuing then nnSwsRecvHdr s else s.recvd .recvdChunked) := by
  obtain ⟨hcont, hhdr⟩ := hf.data hdata
  split_ifs with hc
  · exact h.recvHdr fun hc' => absurd (hc.symm.trans hc') (by simp)
  · refine h.recvdChunked ?_ hhdr
    simpa [hcont] using hc

theorem Sws.Busy.proceed (h : s.Busy) (hf : s.Framed)
    (hext : s.extHdrLen = extHdrLenOf s.mode s.payloadCtl) (rand : Mask)
    (hlen : s.extHdrLen = 0 → s.payloadCtl ≠ 0 → s.isControlFrame = false → s.payloadCtl ∈ len)
    (hmem : s.extHdrLen = 0 → s.payloadCtl ≠ 0 → s.isControlFrame = false →
      env.Fits ((s.inmsgTotalSize + s.payloadCtl) % 2 ^ 64) → env.MsgChunk s.payloadCtl ∨
        E .assertFailed) :
    Ends E (Advanced env s len) (s.proceed env rand) := by
  have hrest (hne : ¬ (s.extHdrLen = 0 ∧ s.payloadCtl = 0)) :
      Ends E (Advanced env s len) (s.recvRest env rand) :=
    h.recvRest hf hext hne rand (fun hz => hlen hz fun h0 => hne ⟨hz, h0⟩) fun hz =>
      hmem hz fun h0 => hne ⟨hz, h0⟩
  have hpong (hop : s.opcode = .ping ∨ s.opcode = .pong) : Ends E (Advanced env s len)
      (if s.extHdrLen = 0 ∧
        s.payloadCtl = 0 then Sws.recvd { s with inmsgCurrentChunkLen := 0 } .recvdControl
        else s.recvRest env rand) := by
    have hctl : s.isControlFrame = true := by
      rcases hop with hop | hop <;> rw [hf.isControl, hop] <;> rfl
    obtain ⟨hfin, -, htidy, hbit, hcode⟩ := hf.control hctl
    split_ifs with hz
    · exact Ends.mono ((h.withLen 0 s.mask).recvdControl hfin htidy (Nat.zero_le _) hbit
        (by rwa [← hcode] at hop))
        fun _ hk => Held.advanced hk
    · exact hrest hz
  unfold Sws.proceed
  split
  · rename_i hcode
    exact hpong (Or.inl hcode)
  · rename_i hcode
    exact hpong (Or.inr hcode)
  · split_ifs with hz
    · exact Ends.mono ((h.withLen 0 s.mask).acknowledge rand fun h0 => absurd rfl h0) fun _ hk =>
        Held.advanced hk
    · exact hrest hz
  · rename_i hping hpong hclose
    have hdata : s.isControlFrame = false := by
      rw [hf.isControl]
      cases hcode : s.opcode with
      | ping => exact absurd hcode hping
      | pong => exact absurd hcode hpong
      | close => exact absurd hcode hclose
      | _ => rfl
    unfold Sws.dataFrame
    split_ifs with hz
    · rw [nnAssert_of (extHdrLenOf_eq_zero (hext.symm.trans hz.1)).1, ok_bind]
      exact Ends.mono ((h.withLen 0 s.mask).empty (hf.withLen 0 s.mask) hdata) fun _ hk =>
        Held.advanced hk
    · exact hrest hz

/-- The length of the payload of a data frame, when the first two bytes are the whole header. -/
def Sws.claimHdr (self : Sws) (b0 b1 : UInt8) : Option ℕ :=
  if ¬ Malformed self.mode self.continuing b0 b1 ∧ (opcodeOf b0).isControl = false ∧
      extHdrLenOf self.mode (b1 &&& 0x7F).toNat = 0 ∧ (b1 &&& 0x7F).toNat ≠ 0
    then some (b1 &&& 0x7F).toNat else none

/-- The length in the rest of the header. -/
def Sws.lengthExt (self : Sws) (ext : List UInt8) : ℕ :=
  if self.payloadCtl ≤ 125 then self.payloadCtl
  else if self.payloadCtl = 0x7E then getBe (ext.take 2)
  else getBe (ext.take 8)

/-- The length of the payload of a data frame, when `ext` is the rest of the header. -/
def Sws.claimExt (self : Sws) (ext : List UInt8) : Option ℕ :=
  if self.isControlFrame = false ∧ self.lengthExt ext ≠ 0 then some (self.lengthExt ext) else none

theorem Sws.Busy.recvdHdr (h : s.Busy) (htidy : s.Tidy) (rand : Mask)
    (hlen : s.claimHdr (s.inhdr.getD 0 0) (s.inhdr.getD 1 0) = len)
    (hmem : ∀ n ∈ len, env.Fits ((s.inmsgTotalSize + n) % 2 ^ 64) → env.MsgChunk n ∨
      E .assertFailed) :
    Ends E (Advanced env s len) (s.recvdHdr env rand) := by
  by_cases hm : Malformed s.mode s.continuing (s.inhdr.getD 0 0) (s.inhdr.getD 1 0)
  · obtain ⟨s', hs', hfail⟩ := recvdHdr_malformed env h.state h.base.usock rand hm
    rw [hs']
    exact (hfail.held h.recv).advanced
  rw [recvdHdr_eq rand hm]
  obtain ⟨hb, hf⟩ := h.begun htidy hm
  have hmem' : (s.begun (s.inhdr.getD 0 0) (s.inhdr.getD 1 0)).extHdrLen = 0 →
      (s.begun (s.inhdr.getD 0 0) (s.inhdr.getD 1 0)).payloadCtl ≠ 0 →
      (s.begun (s.inhdr.getD 0 0) (s.inhdr.getD 1 0)).isControlFrame = false →
      (s.begun (s.inhdr.getD 0 0) (s.inhdr.getD 1 0)).payloadCtl ∈ len := by
    intro hz h0 hdata
    rw [← hlen, Sws.claimHdr, if_pos ⟨hm, hdata, hz, h0⟩]
    rfl
  exact hb.proceed hf rfl rand hmem' fun hz h0 hdata => hmem _ (hmem' hz h0 hdata)

/-- The first two bytes of a header can make a message too big. -/
theorem recvdHdr_tooBig (hstate : s.state = .active) (hu : s.usock.state = .active) {n : ℕ}
    (hn : n ∈ s.claimHdr (s.inhdr.getD 0 0) (s.inhdr.getD 1 0))
    (hbig : ¬ env.Fits ((s.inmsgTotalSize + n) % 2 ^ 64)) (rand : Mask) :
    ∃ s', s.recvdHdr env rand = .ok s' ∧ FailedWith rand 1009 s s' := by
  rw [Sws.claimHdr, Option.mem_ite_none_right] at hn
  obtain ⟨⟨hm, hdata, hz, h0⟩, hn⟩ := hn
  cases hn
  obtain ⟨hmode, hle⟩ := extHdrLenOf_eq_zero hz
  rw [recvdHdr_eq rand hm]
  generalize s.inhdr.getD 0 0 = b0 at hdata ⊢
  generalize s.inhdr.getD 1 0 = b1 at hz h0 hle hbig ⊢
  have hproceed : (s.begun b0 b1).proceed env rand = (s.begun b0 b1).dataFrame env rand := by
    unfold Sws.proceed
    have hop : (s.begun b0 b1).opcode = opcodeOf b0 := rfl
    rw [hop]
    cases hcode : opcodeOf b0 with
    | ping | pong | close =>
      rw [hcode] at hdata
      cases hdata
    | _ => rfl
  have hne : ¬ ((s.begun b0 b1).extHdrLen = 0 ∧ (s.begun b0 b1).payloadCtl = 0) := fun h => h0 h.2
  have hpos : 0 < (s.begun b0 b1).payloadCtl ∧ (s.begun b0 b1).payloadCtl ≤ 125 :=
    ⟨Nat.pos_of_ne_zero h0, hle⟩
  have hclient : (s.begun b0 b1).mode = .client := hmode
  rw [hproceed, Sws.dataFrame, if_neg hne, Sws.recvRest, if_pos (by exact hz), nnAssert_of hclient,
    ok_bind, nnAssert_of hpos, ok_bind]
  obtain ⟨s', hs', hfail⟩ := recvPayload_tooBig
    (s := { s.begun b0 b1 with inmsgCurrentChunkLen := (s.begun b0 b1).payloadCtl }) hstate
      hu hdata hbig rand
    (show (ascii "Message larger than application allows.").length ≤ 100 from
      length_ascii_le _ (by decide))
  exact ⟨s', hs', hfail.congr rfl⟩

/-- The place of the mask in the header. -/
def Sws.maskPos (self : Sws) : ℕ :=
  if self.payloadCtl ≤ 125 then 2 else if self.payloadCtl = 0x7E then 4 else 10

theorem recvdHdrext_eq (rand : Mask) (hext : s.extHdrLen > 0) :
    s.recvdHdrext env rand =
      let self := { s with inmsgCurrentChunkLen := s.lengthExt (s.inhdr.drop 2)
                           mask := if s.masked then some s.maskPos else none }
      if self.inmsgCurrentChunkLen = 0 then
        if self.isFinalFrame then
          if self.opcode = .close then nnSwsAcknowledgeCloseHandshake rand self
          else self.recvd (if self.isControlFrame then .recvdControl else .recvdChunked)
        else nnSwsRecvHdr self
      else self.recvPayload env rand "Message size exceeds limit." := by
  unfold Sws.recvdHdrext Sws.lengthExt Sws.maskPos
  rw [nnAssert_of hext, ok_bind]
  by_cases hsmall : s.payloadCtl ≤ 125
  · simp only [if_pos hsmall]
  · by_cases h16 : s.payloadCtl = 0x7E
    · simp only [if_neg hsmall, if_pos h16]
    · simp only [if_neg hsmall, if_neg h16]

theorem Sws.Busy.recvdHdrext (h : s.Busy) (hf : s.Framed) (hext : s.extHdrLen > 0) (rand : Mask)
    (hlen : s.claimExt (s.inhdr.drop 2) = len)
    (hmem : ∀ n ∈ len, env.Fits ((s.inmsgTotalSize + n) % 2 ^ 64) → env.MsgChunk n ∨
      E .assertFailed) :
    Ends E (Advanced env s len) (s.recvdHdrext env rand) := by
  rw [recvdHdrext_eq rand hext]
  have hmask (hm : s.masked = true) :
      ∃ off, (if s.masked then some s.maskPos else none) = some off :=
    ⟨s.maskPos, if_pos hm⟩
  generalize (if s.masked then some s.maskPos else none) = off at hmask
  have hb' := h.withLen (s.lengthExt (s.inhdr.drop 2)) off
  have hf' := hf.withLen (s.lengthExt (s.inhdr.drop 2)) off
  have hctl (hc : s.isControlFrame = true) : s.lengthExt (s.inhdr.drop 2) = s.payloadCtl := by
    rw [Sws.lengthExt, if_pos (hf.control hc).2.1]
  dsimp only
  split_ifs with hz hfin hclose hc
  · refine Ends.mono (hb'.acknowledge rand fun h0 => absurd hz h0) fun _ hk => Held.advanced hk
  · obtain ⟨-, -, htidy, hbit, hcode⟩ := hf.control hc
    refine Ends.mono (hb'.recvdControl hfin htidy (by dsimp only; omega) hbit ?_) fun _ hk =>
      Held.advanced hk
    dsimp only
    rw [hcode]
    have := hf.isControl.symm.trans hc
    cases hop : s.opcode <;> simp_all [Opcode.isControl]
  · rw [Bool.not_eq_true] at hc
    exact Ends.mono (hb'.recvdChunked hfin (hf.data hc).2) fun _ hk => Held.advanced hk
  · refine Ends.mono (hb'.recvHdr fun hcont => ?_) fun _ hk => Held.advanced hk
    have hc : s.isControlFrame = false := by
      by_contra hc
      exact hfin (hf.control (by simpa using hc)).1
    have := (hf.data hc).1.symm.trans hcont
    simp [hfin] at this
  · refine hb'.recvPayload hf' rand (by decide) (Nat.pos_of_ne_zero hz) (fun hc => ?_)
      (fun hop => ?_) hmask (fun hc => ?_) ?_
    · exact (hctl hc).le.trans (hf.control hc).2.1
    · have hc : s.isControlFrame = true := by
        rw [hf.isControl, hop]
        rfl
      have := hf.close hop
      have := hctl hc
      show 2 ≤ s.lengthExt (s.inhdr.drop 2)
      omega
    · rw [← hlen, Sws.claimExt, if_pos ⟨hc, hz⟩]
      rfl
    · intro hc
      refine hmem _ ?_
      rw [← hlen, Sws.claimExt, if_pos ⟨hc, hz⟩]
      rfl

/-- The rest of a header can make a message too big. -/
theorem recvdHdrext_tooBig (hstate : s.state = .active) (hu : s.usock.state = .active)
    (hext : s.extHdrLen > 0) {n : ℕ} (hn : n ∈ s.claimExt (s.inhdr.drop 2))
    (hbig : ¬ env.Fits ((s.inmsgTotalSize + n) % 2 ^ 64)) (rand : Mask) :
    ∃ s', s.recvdHdrext env rand = .ok s' ∧ FailedWith rand 1009 s s' := by
  rw [Sws.claimExt, Option.mem_ite_none_right] at hn
  obtain ⟨⟨hdata, h0⟩, hn⟩ := hn
  cases hn
  rw [recvdHdrext_eq rand hext]
  dsimp only
  rw [if_neg h0]
  obtain ⟨s', hs', hfail⟩ := recvPayload_tooBig
    (s := { s with inmsgCurrentChunkLen := s.lengthExt (s.inhdr.drop 2)
                   mask := if s.masked then some s.maskPos else none }) hstate hu hdata hbig rand
    (show (ascii "Message size exceeds limit.").length ≤ 100 from length_ascii_le _ (by decide))
  exact ⟨s', hs', hfail.congr rfl⟩

/-! ### Payloads -/

theorem readBytes_start (bytes rest : List UInt8) :
    readBytes (bytes ++ rest) 0 bytes.length = .ok bytes := by
  rw [readBytes, if_pos (by simp), List.drop_zero, List.take_left]

/-- The session `s'` is `s` with the bytes in the buffer of the payload. -/
def Filled (s : Sws) (bytes : List UInt8) (s' : Sws) : Prop :=
  ∃ a c, s' = { s with inmsgArray := a, inmsgControl := c } ∧
    (s.isControlFrame = true → a = s.inmsgArray ∧ c = bytes ++ s.inmsgControl.drop bytes.length) ∧
    (s.isControlFrame = false → a = s.inmsgArray.dropLast ++ [bytes] ∧ c = s.inmsgControl)

/-- Writing the payload to its buffer. -/
theorem Sws.Waiting.store (h : s.Waiting) (hb : s.Base) {bytes : List UInt8}
    (hbytes : bytes.length = s.inmsgCurrentChunkLen) :
    ∃ s', s.store s.inmsgCurrentChunkBuf bytes = .ok s' ∧ Filled s bytes s' := by
  by_cases hc : s.isControlFrame = true
  · obtain ⟨hbuf, hlen⟩ := h.control hc
    have hw :
        writeBytes s.inmsgControl 0 bytes = .ok (bytes ++ s.inmsgControl.drop bytes.length) := by
      rw [writeBytes_eq (by rw [hb.control]; omega), Nat.zero_add]
      rfl
    refine ⟨{ s with inmsgControl := bytes ++ s.inmsgControl.drop bytes.length }, ?_, s.inmsgArray,
      _, rfl, fun _ => ⟨rfl, rfl⟩, fun hd => absurd (hc.symm.trans hd) (by simp)⟩
    refine (congrArg (s.store · bytes) hbuf).trans ?_
    simp only [Sws.store, hw, ok_bind, pure_eq_ok]
  · rw [Bool.not_eq_true] at hc
    obtain ⟨hbuf, init, ch, harr, hch⟩ := h.data hc
    have hw : writeBytes ch 0 bytes = .ok bytes := by
      rw [writeBytes_eq (by omega), Nat.zero_add, hbytes, ← hch, List.drop_length]
      simp
    refine ⟨{ s with inmsgArray := s.inmsgArray.dropLast ++ [bytes] }, ?_, _, s.inmsgControl, rfl,
      fun hd => absurd (hc.symm.trans hd) (by simp), fun _ => ⟨rfl, rfl⟩⟩
    refine (congrArg (s.store · bytes) hbuf).trans ?_
    simp only [Sws.store, harr, List.getLast?_concat, hw, ok_bind, pure_eq_ok]

theorem Filled.lens {s' : Sws} {bytes : List UInt8} (h : Filled s bytes s') (hw : s.Waiting)
    (hbytes : bytes.length = s.inmsgCurrentChunkLen) : s'.lens = s.lens := by
  obtain ⟨a, c, rfl, hctl, hdata⟩ := h
  cases hc : s.isControlFrame with
  | true =>
    rw [(hctl hc).1]
    rfl
  | false =>
    obtain ⟨-, init, ch, harr, hch⟩ := hw.data hc
    rw [(hdata hc).1]
    simp [Sws.lens, harr, hbytes, hch]

theorem Filled.busy {s' : Sws} {bytes : List UInt8} (h : Filled s bytes s') (hb : s.Busy)
    (hw : s.Waiting) (hbytes : bytes.length = s.inmsgCurrentChunkLen) : s'.Busy := by
  have hlens := h.lens hw hbytes
  obtain ⟨a, c, rfl, hctl, hdata⟩ := h
  obtain ⟨hstate, hb, hrecv, hpipe⟩ := hb
  refine ⟨hstate, ⟨hb.inhdr, ?_, hb.fragment, hb.pipe, hb.out, hb.usock, hb.sending, hb.hdr, ?_⟩,
    hrecv, hpipe⟩
  · dsimp only
    cases hc : s.isControlFrame with
    | true =>
      have := (hw.control hc).2
      rw [(hctl hc).2, List.length_append, List.length_drop, hb.control]
      omega
    | false => rw [(hdata hc).2, hb.control]
  · have hsum := congrArg List.sum hlens
    unfold Sws.lens at hsum
    dsimp only at hsum ⊢
    rw [hb.total, List.length_flatten, List.length_flatten, hsum]

theorem Filled.framed {s' : Sws} {bytes : List UInt8} (h : Filled s bytes s') (hf : s.Framed) :
    s'.Framed := by
  obtain ⟨a, c, rfl, hctl, hdata⟩ := h
  refine ⟨hf.masked, hf.opcode, hf.isControl, fun hc => ?_, hf.close, hf.data⟩
  obtain ⟨hfin, hlen, htidy, hbit, hop⟩ := hf.control hc
  refine ⟨hfin, hlen, fun hcont => ?_, hbit, hop⟩
  show a = []
  rw [(hctl hc).1, htidy hcont]

theorem Filled.waiting {s' : Sws} {bytes : List UInt8} (h : Filled s bytes s') (hw : s.Waiting)
    (hbytes : bytes.length = s.inmsgCurrentChunkLen) : s'.Waiting := by
  obtain ⟨a, c, rfl, hctl, hdata⟩ := h
  refine ⟨hw.pos, hw.control, hw.close,
    fun hc => ⟨(hw.data hc).1, _, _, (hdata hc).1, hbytes⟩, hw.mask⟩

theorem Filled.load {s' : Sws} {bytes : List UInt8} (h : Filled s bytes s') (hw : s.Waiting)
    (hbytes : bytes.length = s.inmsgCurrentChunkLen) :
    s'.load s'.inmsgCurrentChunkBuf s'.inmsgCurrentChunkLen = .ok bytes := by
  obtain ⟨a, c, rfl, hctl, hdata⟩ := h
  dsimp only
  cases hc : s.isControlFrame with
  | true =>
    rw [(hw.control hc).1, Sws.load, ← hbytes]
    dsimp only
    rw [(hctl hc).2]
    exact readBytes_start bytes _
  | false =>
    rw [(hw.data hc).1, Sws.load, ← hbytes]
    dsimp only
    rw [(hdata hc).1, List.getLast?_concat]
    dsimp only
    have := readBytes_start bytes []
    rwa [List.append_nil] at this

/-- The payload without the mask. -/
def Sws.plain (self : Sws) (bytes : List UInt8) : List UInt8 :=
  match self.mask with
  | some off =>
    if self.masked then maskFrom (Vector.ofFn fun i => self.inhdr.getD (off + i) 0) 0 bytes
      else bytes
  | none => bytes

@[simp] theorem length_plain (s : Sws) (bytes : List UInt8) :
    (s.plain bytes).length = bytes.length := by
  unfold Sws.plain
  split
  · split_ifs <;> simp
  · rfl

/-- The fragments of a text are validated. -/
def Sws.Validates (s : Sws) : Prop :=
  s.opcode = .text ∨ s.opcode = .fragment ∧ opcodeOf s.inmsgHdr = .text

instance (s : Sws) : Decidable s.Validates := inferInstanceAs (Decidable (_ ∨ _))

/-- The buffer holds the payload already. -/
theorem Filled.self (hb : s.Base) (hw : s.Waiting) {bytes : List UInt8}
    (hload : s.load s.inmsgCurrentChunkBuf s.inmsgCurrentChunkLen = .ok bytes)
    (hbytes : bytes.length = s.inmsgCurrentChunkLen) : Filled s bytes s := by
  refine ⟨s.inmsgArray, s.inmsgControl, rfl, fun hc => ⟨rfl, ?_⟩, fun hc => ⟨?_, rfl⟩⟩
  · obtain ⟨hbuf, hlen⟩ := hw.control hc
    rw [hbuf, Sws.load, readBytes, if_pos (by rw [hb.control]; omega), List.drop_zero] at hload
    have htake : s.inmsgControl.take s.inmsgCurrentChunkLen = bytes := by simpa using hload
    rw [hbytes, ← htake, List.take_append_drop]
  · obtain ⟨hbuf, init, ch, harr, hch⟩ := hw.data hc
    rw [hbuf, Sws.load, harr, List.getLast?_concat] at hload
    dsimp only at hload
    rw [readBytes, if_pos (by omega), List.drop_zero, ← hch, List.take_length] at hload
    have : ch = bytes := by simpa using hload
    rw [harr, List.dropLast_concat, this]

/-- Writing to a buffer again replaces what was written before. -/
theorem Filled.trans {s₁ s₂ : Sws} {bytes bytes' : List UInt8} (h : Filled s bytes s₁)
    (h' : Filled s₁ bytes' s₂) (hlen : bytes'.length = bytes.length) : Filled s bytes' s₂ := by
  obtain ⟨a, c, rfl, hctl, hdata⟩ := h
  obtain ⟨a', c', rfl, hctl', hdata'⟩ := h'
  refine ⟨a', c', rfl, fun hc => ?_, fun hc => ?_⟩
  · obtain ⟨ha, hb⟩ := hctl hc
    obtain ⟨ha', hb'⟩ := hctl' hc
    refine ⟨ha'.trans ha, hb'.trans ?_⟩
    show bytes' ++ c.drop bytes'.length = _
    rw [hb, hlen, List.drop_left]
  · obtain ⟨ha, hb⟩ := hdata hc
    obtain ⟨ha', hb'⟩ := hdata' hc
    refine ⟨ha'.trans ?_, hb'.trans hb⟩
    show a.dropLast ++ [bytes'] = _
    rw [ha, List.dropLast_concat]

/-- The loop that unmasks a payload of 2^32 bytes or more does not end. -/
theorem recvdPayload_long (hw : s.Waiting) (rand : Mask) {bytes : List UInt8}
    (hload : s.load s.inmsgCurrentChunkBuf s.inmsgCurrentChunkLen = .ok bytes)
    (hm : s.masked = true) (hlong : 2 ^ 32 ≤ bytes.length) :
    s.recvdPayload rand = .error .diverged := by
  obtain ⟨off, hoff⟩ := hw.mask hm
  rw [Sws.recvdPayload, if_pos hm, Sws.unmask, hoff]
  dsimp only
  rw [hload, ok_bind, nnSwsMaskPayload, if_neg (Nat.not_lt.2 hlong)]
  rfl

/-- The payload is unmasked in its buffer before it is looked at. -/
theorem recvdPayload_eq (hb : s.Base) (hw : s.Waiting) (rand : Mask) {bytes : List UInt8}
    (hload : s.load s.inmsgCurrentChunkBuf s.inmsgCurrentChunkLen = .ok bytes)
    (hbytes : bytes.length = s.inmsgCurrentChunkLen)
    (hshort : s.masked = true → bytes.length < 2 ^ 32) :
    ∃ s', Filled s (s.plain bytes) s' ∧ s.recvdPayload rand = s'.payloadDone rand := by
  unfold Sws.recvdPayload
  by_cases hm : s.masked = true
  · obtain ⟨off, hoff⟩ := hw.mask hm
    have hplain : s.plain bytes =
        maskFrom (Vector.ofFn fun i => s.inhdr.getD (off + i) 0) 0 bytes := by
      simp only [Sws.plain, hoff, if_pos hm]
    obtain ⟨s', hs', hfill⟩ := hw.store hb ((length_plain s bytes).trans hbytes)
    refine ⟨s', hfill, ?_⟩
    rw [if_pos hm, Sws.unmask, hoff]
    dsimp only
    rw [hload, ok_bind, nnSwsMaskPayload, if_pos (hshort hm), ok_bind]
    dsimp only
    rw [← hplain, hs', ok_bind]
  · have hplain : s.plain bytes = bytes := by
      unfold Sws.plain
      split
      · rw [if_neg hm]
      · rfl
    refine ⟨s, ?_, ?_⟩
    · rw [hplain]
      exact Filled.self hb hw hload hbytes
    · rw [if_neg hm]
      rfl

theorem Sws.Busy.payloadDone (h : s.Busy) (hf : s.Framed) (hw : s.Waiting) (rand : Mask) {b : UInt8}
    {bytes : List UInt8}
    (hload : s.load s.inmsgCurrentChunkBuf s.inmsgCurrentChunkLen = .ok (b :: bytes))
    (hfour : s.Validates → CompletesFour s.utf8CodePtFragment b → E .assertFailed) :
    Ends E (Held s) (s.payloadDone rand) := by
  have hchunked (hop : s.opcode.isControl = false) : s.Chunked :=
    ⟨h, (hf.data (hf.isControl.trans hop)).1, (hf.data (hf.isControl.trans hop)).2⟩
  have hpong (hop : s.opcode = .ping ∨ s.opcode = .pong) :
      Ends E (Held s) (s.recvd .recvdControl) := by
    have hctl : s.isControlFrame = true := by
      rcases hop with hop | hop <;> rw [hf.isControl, hop] <;> rfl
    obtain ⟨hfin, -, htidy, hbit, hcode⟩ := hf.control hctl
    exact h.recvdControl hfin htidy (hw.control hctl).2 hbit (by rwa [← hcode] at hop)
  unfold Sws.payloadDone
  split <;> rename_i hop
  · exact (hchunked (by rw [hop]; rfl)).validate rand hload (hfour (Or.inl hop))
  · exact (hchunked (by rw [hop]; rfl)).done
  · split_ifs with htext
    · exact (hchunked (by rw [hop]; rfl)).validate rand hload (hfour (Or.inr ⟨hop, htext⟩))
    · exact (hchunked (by rw [hop]; rfl)).done
  · exact hpong (Or.inl hop)
  · exact hpong (Or.inr hop)
  · exact h.acknowledge rand fun _ => ⟨hw.close hop, _, hload⟩
  · exact absurd hop hf.opcode

theorem Sws.Busy.recvdPayload (h : s.Busy) (hf : s.Framed) (hw : s.Waiting) (rand : Mask)
    {b : UInt8} {bytes : List UInt8}
    (hload : s.load s.inmsgCurrentChunkBuf s.inmsgCurrentChunkLen = .ok (b :: bytes))
    (hbytes : (b :: bytes).length = s.inmsgCurrentChunkLen)
    (hlong : s.masked = true → 2 ^ 32 ≤ (b :: bytes).length → E .diverged)
    (hfour : s.Validates → CompletesFour s.utf8CodePtFragment ((s.plain (b :: bytes)).headD 0) →
      E .assertFailed) :
    Ends E (Held s) (s.recvdPayload rand) := by
  by_cases hbig : s.masked = true ∧ 2 ^ 32 ≤ (b :: bytes).length
  · rw [recvdPayload_long hw rand hload hbig.1 hbig.2]
    exact hlong hbig.1 hbig.2
  obtain ⟨s', hfill, heq⟩ := recvdPayload_eq h.base hw rand hload hbytes fun hm =>
    Nat.lt_of_not_le fun hle => hbig ⟨hm, hle⟩
  rw [heq]
  have hbytes' := (length_plain s (b :: bytes)).trans hbytes
  have hload' := hfill.load hw hbytes'
  have hlens := hfill.lens hw hbytes'
  have hb' := hfill.busy h hw hbytes'
  have hf' := hfill.framed hf
  have hw' := hfill.waiting hw hbytes'
  cases hplain : s.plain (b :: bytes) with
  | nil =>
    have := length_plain s (b :: bytes)
    rw [hplain] at this
    cases this
  | cons b' bytes' =>
    rw [hplain] at hload' hfour
    refine Ends.mono (hb'.payloadDone hf' hw' rand hload' ?_) fun s'' hk =>
      ⟨⟨hk.1.1, by rw [← hlens]; exact hk.1.2⟩, hk.2⟩
    obtain ⟨a, c, rfl, -⟩ := hfill
    exact hfour

end NanoSocket.Ws

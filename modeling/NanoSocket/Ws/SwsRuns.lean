import NanoSocket.Ws.SwsRefusals

/-!
# Runs of a WebSocket session (`transports/ws/sws.c`)

The invariant of a session is kept by everything that can happen.  `World.Careful` excludes what
runs into a known defect: a four-byte code point whose last byte comes in a frame of its own, a
claimed length for which there is no memory or with which the running total overflows, and a frame
that is refused while an event of the underlying socket waits behind it.
`careful_session_never_aborts` says that nothing else goes wrong, and `rcvmaxsize_enforced` that the
limit on the size of messages is kept as long as the total does not overflow.
-/

namespace NanoSocket.Ws

/-- The length of the payload of the data frame whose header the next receive completes. -/
def World.claimed (w : World) : Option ℕ :=
  match w.sws.instate with
  | .recvHdr => w.sws.claimHdr (w.stream.getD 0 0) (w.stream.getD 1 0)
  | .recvHdrext => w.sws.claimExt (w.stream.take w.sws.extHdrLen)
  | _ => none

/-- The payload that the next receive completes is checked, and its first byte completes a code
point of four bytes. -/
def World.CompletesFour (w : World) : Prop :=
  w.sws.instate = .recvPayload ∧ w.sws.Validates ∧
    Ws.CompletesFour w.sws.utf8CodePtFragment
      ((w.sws.plain (w.stream.take w.sws.inmsgCurrentChunkLen)).headD 0)

instance (f : List UInt8) (b : UInt8) : Decidable (CompletesFour f b) :=
  decidable_of_iff (f.length = 3 ∧ (match nnUtf8CodePoint (f ++ [b]) with
    | .valid _ => true
    | _ => false) = true) (by
      unfold CompletesFour
      cases nnUtf8CodePoint (f ++ [b]) <;> simp)

instance (w : World) : Decidable w.CompletesFour := inferInstanceAs (Decidable (_ ∧ _ ∧ _))

/-- The session refuses what the next receive completes. -/
def World.Refused (env : Env) (w : World) : Prop :=
  match w.sws.instate with
  | .recvHdr => w.sws.RefusesHdr env (w.stream.getD 0 0) (w.stream.getD 1 0)
  | .recvHdrext => w.sws.RefusesExt env (w.stream.take w.sws.extHdrLen)
  | .recvPayload => w.sws.RefusesPayload (w.sws.plain (w.stream.take w.sws.inmsgCurrentChunkLen))
  | _ => False

instance (env : Env) (w : World) : Decidable (w.Refused env) := by
  unfold World.Refused
  cases w.sws.instate <;> infer_instance

/-- The running total does not pass the limit by an overflow. -/
def World.NoOverflow (env : Env) (w : World) : Action → Prop
  | .received _ => ∀ n ∈ w.claimed, env.Fits ((w.sws.inmsgTotalSize + n) % 2 ^ 64) →
      w.sws.inmsgTotalSize + n < 2 ^ 64
  | _ => True

instance (env : Env) (w : World) (a : Action) : Decidable (w.NoOverflow env a) :=
  match a with
  | .received _ => inferInstanceAs (Decidable (∀ n ∈ w.claimed, _ → _))
  | .handshakeOk | .handshakeError | .handshakeStopped _ | .arrive _ | .flush | .reset | .sent |
      .shutdown | .error
  | .recv | .send _ _ => .isTrue trivial

/-- The actions that do not run into a known defect; the socket sends headers that can be parsed.  A
session that refuses a frame while it sends a message is at its end, so no event may wait for it. -/
def World.Careful (env : Env) (w : World) : Action → Prop
  | .received _ => (∀ n ∈ w.claimed, env.Fits ((w.sws.inmsgTotalSize + n) % 2 ^ 64) →
      w.sws.inmsgTotalSize + n < 2 ^ 64 ∧ env.MsgChunk n) ∧ ¬ w.CompletesFour ∧
      (w.Refused env → w.sws.outstate ≠ .idle → w.sws.usock.Quiet)
  | .recv => env.Chunkref (if w.sws.instate = .recvdChunked then w.sws.inmsgTotalSize
      else w.sws.inmsgCurrentChunkLen)
  | .send msg _ => (hdrsMsgType msg.hdrs).toBool = true
  | _ => True

instance (env : Env) (w : World) (a : Action) : Decidable (w.Careful env a) :=
  match a with
  | .received _ => inferInstanceAs (Decidable ((∀ n ∈ w.claimed, _ → _ ∧ _) ∧ _ ∧ (_ → _ → _)))
  | .recv => inferInstanceAs (Decidable (env.Chunkref _))
  | .send _ _ => inferInstanceAs (Decidable (_ = _))
  | .handshakeOk | .handshakeError | .handshakeStopped _ | .arrive _ | .flush | .reset |
      .sent | .shutdown
  | .error => .isTrue trivial

/-! ### The underlying socket -/

variable {env : Env} {w : World} {E : Fault → Prop}

theorem init_inv (mode : Mode) (msgType : UInt8) : (World.init mode msgType).sws.Inv := rfl

/-- The session while it handles what was received: no receive is in progress. -/
def Sws.taken (self : Sws) : Sws := { self with usock := { self.usock with recv := none } }

theorem Sws.Base.taken {s : Sws} (h : s.Base) : s.taken.Base :=
  ⟨h.inhdr, h.control, h.fragment, h.pipe, h.out, h.usock, h.sending, h.hdr, h.total⟩

theorem Sws.Framed.taken {s : Sws} (h : s.Framed) : s.taken.Framed :=
  ⟨h.masked, h.opcode, h.isControl, h.control, h.close, h.data⟩

theorem Sws.Waiting.taken {s : Sws} (h : s.Waiting) : s.taken.Waiting :=
  ⟨h.pos, h.control, h.close, h.data, h.mask⟩

theorem Sws.Busy.withInhdr {s : Sws} (h : s.Busy) {l : List UInt8} (hl : l.length = 14) :
    Sws.Busy { s with inhdr := l } := by
  have hb := h.base
  exact ⟨h.state,
    ⟨hl, hb.control, hb.fragment, hb.pipe, hb.out, hb.usock, hb.sending, hb.hdr, hb.total⟩, h.recv,
    h.pipe⟩

/-- The session with the first two bytes of a header in its buffer. -/
def Sws.headed (self : Sws) (b0 b1 : UInt8) : Sws :=
  { self.taken with inhdr := b0 :: b1 :: self.inhdr.drop 2 }

/-- The session with the rest of a header in its buffer. -/
def Sws.extended (self : Sws) (ext : List UInt8) : Sws :=
  { self.taken with inhdr := self.inhdr.take 2 ++ (ext ++ self.inhdr.drop (2 + ext.length)) }

theorem Phase.hdr {s : Sws} (hp : s.Phase) (hin : s.instate = .recvHdr) :
    s.usock.recv = some (.inhdr 0, 2) ∧ s.pipebase.instate = .async ∧ s.Tidy := by
  unfold Sws.Phase at hp
  rw [hin] at hp
  exact hp

theorem Phase.ext {s : Sws} (hp : s.Phase) (hin : s.instate = .recvHdrext) :
    s.usock.recv = some (.inhdr 2, s.extHdrLen) ∧ s.pipebase.instate = .async ∧ s.Framed ∧
      s.extHdrLen = extHdrLenOf s.mode s.payloadCtl ∧ 0 < s.extHdrLen := by
  unfold Sws.Phase at hp
  rw [hin] at hp
  exact hp

theorem Phase.payload {s : Sws} (hp : s.Phase) (hin : s.instate = .recvPayload) :
    s.usock.recv = some (s.inmsgCurrentChunkBuf, s.inmsgCurrentChunkLen) ∧
      s.pipebase.instate = .async ∧ s.Framed ∧ s.Waiting := by
  unfold Sws.Phase at hp
  rw [hin] at hp
  exact hp

theorem headed_busy {s : Sws} (hstate : s.state = .active) (hb : s.Base) (hp : s.Phase)
    (hin : s.instate = .recvHdr) (b0 b1 : UInt8) :
    (s.headed b0 b1).Busy ∧ (s.headed b0 b1).Tidy := by
  obtain ⟨-, hpipe, htidy⟩ := Phase.hdr hp hin
  have hbusy : s.taken.Busy := ⟨hstate, hb.taken, rfl, hpipe⟩
  exact ⟨hbusy.withInhdr (by simp [hb.inhdr]), htidy⟩

theorem extHdrLenOf_le (mode : Mode) (n : ℕ) : extHdrLenOf mode n ≤ 12 := by
  unfold extHdrLenOf
  cases mode <;> split_ifs <;> simp

/-- The number in the rest of a header lies before the mask. -/
theorem lengthExt_append {s : Sws} (hext : s.extHdrLen = extHdrLenOf s.mode s.payloadCtl)
    {ext : List UInt8} (hlen : ext.length = s.extHdrLen) (rest : List UInt8) :
    s.lengthExt (ext ++ rest) = s.lengthExt ext := by
  unfold Sws.lengthExt
  unfold extHdrLenOf at hext
  split_ifs at hext ⊢ with hsmall h16
  · rfl
  · rw [List.take_append_of_le_length (by omega)]
  · rw [List.take_append_of_le_length (by omega)]

theorem extended_busy {s : Sws} (hstate : s.state = .active) (hb : s.Base) (hp : s.Phase)
    (hin : s.instate = .recvHdrext) {ext : List UInt8} (hlen : ext.length = s.extHdrLen) :
    (s.extended ext).Busy ∧ (s.extended ext).Framed ∧
      (s.extended ext).lengthExt ((s.extended ext).inhdr.drop 2) = s.lengthExt ext := by
  obtain ⟨-, hpipe, hf, hext, -⟩ := Phase.ext hp hin
  have hle := extHdrLenOf_le s.mode s.payloadCtl
  have h14 := hb.inhdr
  have htwo : (s.inhdr.take 2).length = 2 := by
    rw [List.length_take, h14]
    rfl
  refine ⟨?_, ?_, ?_⟩
  · have hbusy : s.taken.Busy := ⟨hstate, hb.taken, rfl, hpipe⟩
    refine hbusy.withInhdr ?_
    simp only [List.length_append, List.length_drop, htwo]
    omega
  · have hfirst : (s.inhdr.take 2 ++ (ext ++ s.inhdr.drop (2 + ext.length))).getD 0 0 =
        s.inhdr.getD 0 0 := by
      rw [List.getD_eq_getElem?_getD, List.getElem?_append_left (by omega),
        List.getElem?_take_of_lt (by omega), List.getD_eq_getElem?_getD]
    refine ⟨hf.masked, hf.opcode, hf.isControl, fun hc => ?_, hf.close, hf.data⟩
    unfold Sws.extended
    dsimp only
    rw [hfirst]
    exact hf.control hc
  · show Sws.lengthExt s ((s.inhdr.take 2 ++ (ext ++ s.inhdr.drop (2 + ext.length))).drop 2) = _
    rw [List.drop_left' htwo]
    exact lengthExt_append hext hlen _

theorem nnSwsHandler_received {s : Sws} (hstate : s.state = .active) (rand : Mask) :
    nnSwsHandler env rand s .received = match s.instate with
      | .recvHdr => s.recvdHdr env rand
      | .recvHdrext => s.recvdHdrext env rand
      | .recvPayload => s.recvdPayload rand
      | _ => .error .badState := by
  cases s
  cases hstate
  rfl

/-- The receive in progress, when the session is active. -/
theorem received_eq {buf : Buf} {len : ℕ} (hr : w.sws.usock.recv = some (buf, len)) (rand : Mask)
    {s : Sws} (hstore : w.sws.taken.store buf (w.stream.take len) = .ok s)
    (hstate : s.state = .active) :
    w.received env rand = (do
      let s' ← (match s.instate with
        | .recvHdr => s.recvdHdr env rand
        | .recvHdrext => s.recvdHdrext env rand
        | .recvPayload => s.recvdPayload rand
        | _ => .error .badState)
      return { w with sws := s', stream := w.stream.drop len,
                      headers :=
        if w.sws.instate = .recvHdr then w.headers ++ (w.stream.take len).take 1
                        else w.headers }) := by
  unfold World.received
  rw [hr]
  dsimp only
  show (w.sws.taken.store buf (w.stream.take len) >>= _) = _
  rw [hstore, ok_bind]
  exact congrArg (fun r => r >>= _) (nnSwsHandler_received hstate rand)

/-- `NN_USOCK_RECEIVED` for the first two bytes of a header. -/
theorem received_hdr (hstate : w.sws.state = .active) (hb : w.sws.Base) (hp : w.sws.Phase)
    (hin : w.sws.instate = .recvHdr) {b0 b1 : UInt8} {rest : List UInt8}
    (hstream : w.stream = b0 :: b1 :: rest) (rand : Mask) :
    w.received env rand = (do
      let s ← (w.sws.headed b0 b1).recvdHdr env rand
      return { w with sws := s, stream := rest, headers := w.headers ++ [b0] }) := by
  have hw : writeBytes w.sws.taken.inhdr 0 [b0, b1] = .ok (b0 :: b1 :: w.sws.inhdr.drop 2) :=
    writeBytes_eq (by rw [hb.taken.inhdr]; simp)
  have hstore : w.sws.taken.store (.inhdr 0) (w.stream.take 2) = .ok (w.sws.headed b0 b1) := by
    rw [hstream]
    simp only [Sws.store, List.take_succ_cons, List.take_zero, hw, ok_bind, pure_eq_ok]
    rfl
  rw [received_eq (Phase.hdr hp hin).1 rand hstore hstate,
    show (w.sws.headed b0 b1).instate = .recvHdr from hin]
  simp only [if_pos hin, hstream]
  rfl

/-- `NN_USOCK_RECEIVED` for the rest of a header. -/
theorem received_ext (hstate : w.sws.state = .active) (hb : w.sws.Base) (hp : w.sws.Phase)
    (hin : w.sws.instate = .recvHdrext) (hlen : w.sws.extHdrLen ≤ w.stream.length) (rand : Mask) :
    w.received env rand = (do
      let s ← (w.sws.extended (w.stream.take w.sws.extHdrLen)).recvdHdrext env rand
      return { w with sws := s, stream := w.stream.drop w.sws.extHdrLen }) := by
  obtain ⟨hr, -, -, hext, -⟩ := Phase.ext hp hin
  have hle := extHdrLenOf_le w.sws.mode w.sws.payloadCtl
  have h14 := hb.inhdr
  have hstore : w.sws.taken.store (.inhdr 2) (w.stream.take w.sws.extHdrLen) =
      .ok (w.sws.extended (w.stream.take w.sws.extHdrLen)) := by
    have htake : (w.stream.take w.sws.extHdrLen).length ≤ 12 := by
      rw [List.length_take]
      omega
    have hw : writeBytes w.sws.taken.inhdr 2 (w.stream.take w.sws.extHdrLen) =
        .ok (w.sws.extended (w.stream.take w.sws.extHdrLen)).inhdr := by
      rw [writeBytes_eq (by rw [hb.taken.inhdr]; omega), List.append_assoc]
      rfl
    simp only [Sws.store, hw, ok_bind, pure_eq_ok]
    rfl
  rw [received_eq hr rand hstore hstate,
    show (w.sws.extended (w.stream.take w.sws.extHdrLen)).instate = .recvHdrext from hin]
  simp only [if_neg (show ¬ w.sws.instate = .recvHdr by rw [hin]; simp)]

variable (env) in
/-- `NN_USOCK_RECEIVED` for a payload. -/
theorem received_payload (hstate : w.sws.state = .active) (hb : w.sws.Base) (hp : w.sws.Phase)
    (hin : w.sws.instate = .recvPayload)
    (hlen : w.sws.inmsgCurrentChunkLen ≤ w.stream.length) (rand : Mask) :
    ∃ s, Filled w.sws.taken (w.stream.take w.sws.inmsgCurrentChunkLen) s ∧
      w.received env rand = (do
        let s' ← s.recvdPayload rand
        return { w with sws := s', stream := w.stream.drop w.sws.inmsgCurrentChunkLen }) := by
  obtain ⟨hr, -, -, hw⟩ := Phase.payload hp hin
  obtain ⟨s, hstore, hfill⟩ := hw.taken.store hb.taken (by
    rw [List.length_take]
    exact Nat.min_eq_left hlen)
  obtain ⟨hstate', hin'⟩ : s.state = .active ∧ s.instate = .recvPayload := by
    obtain ⟨a, c, rfl, -⟩ := hfill
    exact ⟨hstate, hin⟩
  refine ⟨s, hfill, ?_⟩
  rw [received_eq hr rand hstore hstate', hin']
  simp only [if_neg (show ¬ w.sws.instate = .recvHdr by rw [hin]; simp)]

theorem inv_active {s : Sws} (hw : s.Inv) (hstate : s.state = .active) : s.Base ∧ s.Phase := by
  unfold Sws.Inv at hw
  rw [hstate] at hw
  exact hw

theorem canReceive_of {buf : Buf} {len : ℕ} (hw : w.sws.Inv) (hstate : w.sws.state = .active)
    (hrecv : w.sws.usock.recv = some (buf, len)) (hlen : len ≤ w.stream.length) : w.CanReceive := by
  refine ⟨?_, (inv_active hw hstate).1.usock, _, hrecv, hlen⟩
  rw [hstate]
  trivial

theorem CanReceive.active (hw : w.sws.Inv) (hcan : w.CanReceive) :
    w.sws.state = .active ∧ w.sws.Base ∧ w.sws.Phase := by
  obtain ⟨hconn, hu, r, hr, -⟩ := hcan
  unfold Sws.Inv at hw
  cases hst : w.sws.state <;> rw [hst] at hw hconn
  · exact hconn.elim
  · exact hconn.elim
  · exact ⟨rfl, hw⟩
  · rw [hw.2.1] at hr
    cases hr
  · exact absurd hu hw.1
  · exact hconn.elim

/-- The three kinds of receives. -/
theorem CanReceive.cases (hw : w.sws.Inv) (hcan : w.CanReceive) :
    (w.sws.instate = .recvHdr ∧ ∃ b0 b1 rest, w.stream = b0 :: b1 :: rest) ∨
      (w.sws.instate = .recvHdrext ∧ w.sws.extHdrLen ≤ w.stream.length) ∨
      (w.sws.instate = .recvPayload ∧ w.sws.inmsgCurrentChunkLen ≤ w.stream.length) := by
  obtain ⟨-, -, hp⟩ := CanReceive.active hw hcan
  obtain ⟨-, -, r, hr, hlen⟩ := hcan
  unfold Sws.Phase at hp
  cases hin : w.sws.instate <;> rw [hin] at hp
  case recvHdr =>
    cases hp.1.symm.trans hr
    refine Or.inl ⟨rfl, ?_⟩
    match hs : w.stream, hlen with
    | b0 :: b1 :: rest, _ => exact ⟨b0, b1, rest, rfl⟩
  case recvHdrext =>
    cases hp.1.symm.trans hr
    exact Or.inr (Or.inl ⟨rfl, hlen⟩)
  case recvPayload =>
    cases hp.1.symm.trans hr
    exact Or.inr (Or.inr ⟨rfl, hlen⟩)
  case recvdChunked | recvdControl => cases hp.1.symm.trans hr
  case init | closed => exact hp.elim

theorem claimed_hdr (hin : w.sws.instate = .recvHdr) {b0 b1 : UInt8} {rest : List UInt8}
    (hstream : w.stream = b0 :: b1 :: rest) : w.claimed = (w.sws.headed b0 b1).claimHdr b0 b1 := by
  unfold World.claimed
  rw [hin, hstream]
  rfl

theorem claimed_ext (hstate : w.sws.state = .active) (hb : w.sws.Base) (hp : w.sws.Phase)
    (hin : w.sws.instate = .recvHdrext) (hlen : w.sws.extHdrLen ≤ w.stream.length) :
    w.claimed = (w.sws.extended (w.stream.take w.sws.extHdrLen)).claimExt
      ((w.sws.extended (w.stream.take w.sws.extHdrLen)).inhdr.drop 2) := by
  have htake : (w.stream.take w.sws.extHdrLen).length = w.sws.extHdrLen := by
    rw [List.length_take]
    exact Nat.min_eq_left hlen
  obtain ⟨-, -, hlext⟩ := extended_busy hstate hb hp hin htake
  unfold World.claimed Sws.claimExt
  rw [hin, hlext]
  rfl

theorem received_payload_ends (hstate : w.sws.state = .active) (hb : w.sws.Base) (hp : w.sws.Phase)
    (hin : w.sws.instate = .recvPayload) (hlen : w.sws.inmsgCurrentChunkLen ≤ w.stream.length)
    (rand : Mask) (hfour : w.CompletesFour → E .assertFailed) (hlong : E .diverged) :
    Ends E (fun w' => Advanced env w.sws w.claimed w'.sws) (w.received env rand) := by
  have htake : (w.stream.take w.sws.inmsgCurrentChunkLen).length = w.sws.inmsgCurrentChunkLen := by
    rw [List.length_take]
    exact Nat.min_eq_left hlen
  obtain ⟨-, hpipe, hf, hw⟩ := Phase.payload hp hin
  have hbusy : w.sws.taken.Busy := ⟨hstate, hb.taken, rfl, hpipe⟩
  obtain ⟨s, hfill, heq⟩ := received_payload env hstate hb hp hin hlen rand
  have hlens : s.lens = w.sws.lens := hfill.lens hw.taken htake
  have hload := hfill.load hw.taken htake
  have hcur : s.inmsgCurrentChunkLen = w.sws.inmsgCurrentChunkLen := by
    obtain ⟨a, c, rfl, -⟩ := hfill
    rfl
  rw [heq]
  cases hbytes : w.stream.take w.sws.inmsgCurrentChunkLen with
  | nil =>
    have hpos := hw.pos
    rw [hbytes, List.length_nil] at htake
    omega
  | cons b bytes =>
    rw [hbytes] at hload htake hfill
    refine Ends.bind ((hfill.busy hbusy hw.taken htake).recvdPayload (hfill.framed hf.taken)
      (hfill.waiting hw.taken htake) rand hload (htake.trans hcur.symm)
        (fun _ _ => hlong) ?_) fun s' hk => ?_
    · obtain ⟨a, c, rfl, -⟩ := hfill
      intro hv h4
      refine hfour ⟨hin, hv, ?_⟩
      rw [hbytes]
      exact h4
    · exact Held.advanced ⟨⟨hk.1.1, by rw [← hlens]; exact hk.1.2⟩, hk.2⟩

variable (env) in
/-- What a receive leads to. -/
theorem received_ends (hw : w.sws.Inv) (hcan : w.CanReceive) (rand : Mask)
    (hmem : ∀ n ∈ w.claimed, env.Fits ((w.sws.inmsgTotalSize + n) % 2 ^ 64) → env.MsgChunk n ∨
      E .assertFailed)
    (hfour : w.CompletesFour → E .assertFailed) (hlong : E .diverged) :
    Ends E (fun w' => Advanced env w.sws w.claimed w'.sws) (w.received env rand) := by
  obtain ⟨hstate, hb, hp⟩ := CanReceive.active hw hcan
  rcases CanReceive.cases hw hcan with ⟨hin, b0, b1, rest, hstream⟩ | ⟨hin, hlen⟩ | ⟨hin, hlen⟩
  · obtain ⟨hbusy, htidy⟩ := headed_busy hstate hb hp hin b0 b1
    rw [received_hdr hstate hb hp hin hstream]
    refine Ends.bind (hbusy.recvdHdr htidy rand (claimed_hdr hin hstream).symm hmem) ?_
    exact fun s hg => hg
  · have htake : (w.stream.take w.sws.extHdrLen).length = w.sws.extHdrLen := by
      rw [List.length_take]
      exact Nat.min_eq_left hlen
    obtain ⟨hbusy, hf, -⟩ := extended_busy hstate hb hp hin htake
    rw [received_ext hstate hb hp hin hlen]
    refine Ends.bind (hbusy.recvdHdrext hf (Phase.ext hp hin).2.2.2.2 rand
      (claimed_ext hstate hb hp hin hlen).symm hmem) ?_
    exact fun s hg => hg
  · exact received_payload_ends hstate hb hp hin hlen rand hfour hlong

variable (env) in
/-- A header that is out of order ends the connection. -/
theorem received_malformed (hw : w.sws.Inv) (hstate : w.sws.state = .active)
    (hin : w.sws.instate = .recvHdr) {b0 b1 : UInt8} {rest : List UInt8}
    (hstream : w.stream = b0 :: b1 :: rest)
    (hm : Malformed w.sws.mode w.sws.continuing b0 b1) (rand : Mask) :
    ∃ w', w.received env rand = .ok w' ∧ FailedWith rand 1002 w.sws.taken w'.sws ∧
      w'.delivered = w.delivered := by
  obtain ⟨hb, hp⟩ := inv_active hw hstate
  obtain ⟨s, hs, hfail⟩ := recvdHdr_malformed (s := w.sws.headed b0 b1) env hstate hb.usock rand hm
  rw [received_hdr hstate hb hp hin hstream, hs, ok_bind]
  exact ⟨_, rfl, hfail.congr rfl, rfl⟩

/-- A data frame with which the message gets too big ends the connection. -/
theorem received_tooBig (hw : w.sws.Inv) (hcan : w.CanReceive) {n : ℕ} (hn : n ∈ w.claimed)
    (hbig : ¬ env.Fits ((w.sws.inmsgTotalSize + n) % 2 ^ 64)) (rand : Mask) :
    ∃ w', w.received env rand = .ok w' ∧ FailedWith rand 1009 w.sws.taken w'.sws ∧
      w'.delivered = w.delivered := by
  obtain ⟨hstate, hb, hp⟩ := CanReceive.active hw hcan
  rcases CanReceive.cases hw hcan with ⟨hin, b0, b1, rest, hstream⟩ | ⟨hin, hlen⟩ | ⟨hin, -⟩
  · rw [claimed_hdr hin hstream] at hn
    obtain ⟨s, hs, hfail⟩ := recvdHdr_tooBig (s := w.sws.headed b0 b1) hstate hb.usock hn hbig rand
    rw [received_hdr hstate hb hp hin hstream, hs, ok_bind]
    exact ⟨_, rfl, hfail.congr rfl, rfl⟩
  · rw [claimed_ext hstate hb hp hin hlen] at hn
    obtain ⟨s, hs, hfail⟩ :=
      recvdHdrext_tooBig (s := w.sws.extended (w.stream.take w.sws.extHdrLen)) hstate
      hb.usock (Phase.ext hp hin).2.2.2.2 hn hbig rand
    rw [received_ext hstate hb hp hin hlen, hs, ok_bind]
    exact ⟨_, rfl, hfail.congr rfl, rfl⟩
  · unfold World.claimed at hn
    rw [hin] at hn
    cases hn

/-! ### Calls of the socket -/

theorem gather_eq (size : ℕ) (chunks : List (List UInt8)) (body : List UInt8)
    (h : body.length + chunks.flatten.length ≤ size) :
    gather size body chunks = .ok (body ++ chunks.flatten) := by
  induction chunks generalizing body with
  | nil => simp [gather]
  | cons ch rest ih =>
    rw [List.flatten_cons, List.length_append] at h
    rw [gather, if_pos (by omega), ih _ (by rw [List.length_append]; omega), List.flatten_cons,
      List.append_assoc]

/-- Chunks that do not fit are written past the end of the body. -/
theorem gather_error (size : ℕ) (chunks : List (List UInt8)) (body : List UInt8)
    (hbody : body.length ≤ size) (h : size < body.length + chunks.flatten.length) :
    gather size body chunks = .error .outOfBounds := by
  induction chunks generalizing body with
  | nil =>
    simp only [List.flatten_nil, List.length_nil] at h
    omega
  | cons ch rest ih =>
    rw [List.flatten_cons, List.length_append] at h
    rw [gather]
    split_ifs with hfit
    · exact ih _ (by rwa [List.length_append]) (by rw [List.length_append]; omega)
    · rfl

/-- The socket receives a message only when one is there. -/
theorem phase_of_idle {s : Sws} (hp : s.Phase) (hidle : s.pipebase.instate = .idle) :
    s.instate = .recvdChunked ∨ s.instate = .recvdControl := by
  unfold Sws.Phase at hp
  cases hin : s.instate <;> rw [hin] at hp
  case recvdChunked => exact Or.inl rfl
  case recvdControl => exact Or.inr rfl
  case recvHdr | recvHdrext | recvPayload => exact absurd (hidle.symm.trans hp.2.1) (by simp)
  case init | closed => exact hp.elim

/-- The pipe of an active session is in the hands of the socket, and of no other. -/
theorem active_of_pipe {s : Sws} (hw : s.Inv) (hpipe : s.pipebase.state = .active) :
    s.state = .active ∧ s.Base ∧ s.Phase := by
  unfold Sws.Inv at hw
  cases hst : s.state <;> rw [hst] at hw
  case active => exact ⟨rfl, hw⟩
  case handshake | stoppingHandshake =>
    rw [hw] at hpipe
    cases hpipe
  case closingConnection =>
    rw [hw.2.2.1] at hpipe
    cases hpipe
  case brokenConnection =>
    rw [hw.2.1] at hpipe
    cases hpipe
  case done => exact absurd hpipe hw

/-- The session after a message was received from it. -/
def Sws.emptied (self : Sws) : Sws :=
  Sws.atHdr { self with inmsgArray := [], continuing := false
                        pipebase := { self.pipebase with instate := .async } }

/-- The session after a control frame was received from it. -/
def Sws.relayed (self : Sws) : Sws :=
  Sws.atHdr { self with pipebase := { self.pipebase with instate := .async } }

/-- `nn_pipe_recv` on a message whose fragments are all there. -/
theorem pipeRecv_chunked {s : Sws} (hstate : s.state = .active) (hb : s.Base) (hp : s.Phase)
    (hin : s.instate = .recvdChunked) :
    s.pipeRecv env = (do
      nnAssert (env.Chunkref s.inmsgTotalSize)
      let body ← gather s.inmsgTotalSize [] s.inmsgArray
      nnAssert (body.length = s.inmsgTotalSize)
      return ({ sphdr := [], hdrs := wsHdrs env (s.inmsgHdr &&& 0x7F), body }, s.emptied)) := by
  unfold Sws.Phase at hp
  rw [hin] at hp
  obtain ⟨-, hidle, hfin, hbit, hop⟩ := hp
  unfold Sws.pipeRecv nnSwsRecv
  rw [nnAssert_of hidle, ok_bind]
  dsimp only
  rw [nnAssert_of hstate, ok_bind, hin]
  dsimp only
  rw [nnAssert_of hfin, ok_bind, nnAssert_of hbit, ok_bind,
    nnAssert_of (by rwa [opcodeOf_and]), ok_bind]
  simp only [bind_assoc]
  rw [nnSwsRecvHdr_eq (by exact hb.usock) (by exact fun _ => rfl)]
  rfl

/-- `nn_pipe_recv` on a control frame. -/
theorem pipeRecv_control {s : Sws} (hstate : s.state = .active) (hb : s.Base) (hp : s.Phase)
    (hin : s.instate = .recvdControl) :
    s.pipeRecv env = (do
      nnAssert (env.Chunkref s.inmsgCurrentChunkLen)
      return ({ sphdr := [], hdrs := wsHdrs env (s.inhdr.getD 0 0 &&& 0x7F),
                body := s.inmsgControl.take s.inmsgCurrentChunkLen }, s.relayed)) := by
  unfold Sws.Phase at hp
  rw [hin] at hp
  obtain ⟨-, hidle, hfin, htidy, hlen, hbit, hop⟩ := hp
  have hread : readBytes s.inmsgControl 0 s.inmsgCurrentChunkLen =
      .ok (s.inmsgControl.take s.inmsgCurrentChunkLen) := by
    rw [readBytes, if_pos (by rw [hb.control]; omega), List.drop_zero]
  unfold Sws.pipeRecv nnSwsRecv
  rw [nnAssert_of hidle, ok_bind]
  dsimp only
  rw [nnAssert_of hstate, ok_bind, hin]
  dsimp only
  rw [nnAssert_of hfin, ok_bind, nnAssert_of hbit, ok_bind,
    nnAssert_of (by rwa [opcodeOf_and]), ok_bind]
  simp only [bind_assoc, hread, ok_bind]
  rw [nnSwsRecvHdr_eq (by exact hb.usock) (by exact htidy)]
  rfl

/-- The chunks make up a message whose size does not overflow. -/
theorem gather_total {s : Sws} (hb : s.Base) (hsum : s.inmsgArray.flatten.length < 2 ^ 64) :
    s.inmsgTotalSize = s.inmsgArray.flatten.length ∧
      gather s.inmsgTotalSize [] s.inmsgArray = .ok s.inmsgArray.flatten := by
  have htotal : s.inmsgTotalSize = s.inmsgArray.flatten.length := by
    rw [hb.total, Nat.mod_eq_of_lt hsum]
  refine ⟨htotal, ?_⟩
  rw [gather_eq _ _ _ (by simp [htotal]), List.nil_append]

theorem Sws.Base.emptied {s : Sws} (hstate : s.state = .active) (hb : s.Base) : s.emptied.Inv := by
  refine Sws.Inv.of_active (by exact hstate) ?_ ?_
  · refine ⟨rfl, rfl, hb.fragment, hb.pipe, hb.out, hb.usock, hb.sending, fun hc => ?_, rfl⟩
    cases hc
  · exact ⟨rfl, rfl, fun _ => rfl⟩

theorem Sws.Base.relayed {s : Sws} (hstate : s.state = .active) (hb : s.Base)
    (hrecv : s.usock.recv = none) (htidy : s.Tidy) : Kept s s.relayed := by
  have hbusy : Sws.Busy { s with pipebase := { s.pipebase with instate := .async } } :=
    ⟨hstate, ⟨hb.inhdr, hb.control, hb.fragment, hb.pipe, hb.out, hb.usock, hb.sending, hb.hdr,
      hb.total⟩, hrecv, rfl⟩
  exact (hbusy.atHdr htidy).1

/-- `nn_pipe_recv` while the pipe has something to give. -/
theorem pipeRecv_ends {s : Sws} (hw : s.Inv) (hpipe : s.pipebase.state = .active)
    (hidle : s.pipebase.instate = .idle)
    (hmem : env.Chunkref (if s.instate = .recvdChunked then s.inmsgTotalSize
      else s.inmsgCurrentChunkLen) ∨ E .assertFailed)
    (hsum : s.inmsgArray.flatten.length < 2 ^ 64 ∨ E .outOfBounds) :
    Ends E (fun r => Kept s r.2) (s.pipeRecv env) := by
  obtain ⟨hstate, hb, hp⟩ := active_of_pipe hw hpipe
  rcases phase_of_idle hp hidle with hin | hin
  · rw [if_pos hin] at hmem
    rw [pipeRecv_chunked hstate hb hp hin]
    refine Ends.assert hmem fun _ => ?_
    by_cases hsum' : s.inmsgArray.flatten.length < 2 ^ 64
    · obtain ⟨htotal, hgather⟩ := gather_total hb hsum'
      rw [hgather, ok_bind, nnAssert_of htotal.symm]
      exact ⟨hb.emptied hstate, Or.inr rfl⟩
    · rw [gather_error _ _ _ (Nat.zero_le _) (by rw [hb.total, List.length_nil]; omega)]
      exact hsum.resolve_left hsum'
  · rw [if_neg (by rw [hin]; simp)] at hmem
    rw [pipeRecv_control hstate hb hp hin]
    refine Ends.assert hmem fun _ => ?_
    unfold Sws.Phase at hp
    rw [hin] at hp
    exact hb.relayed hstate hp.1 hp.2.2.2.1

/-- The part of the session that receives does not depend on the part that sends. -/
theorem Sws.Phase.sender {s : Sws} (hp : s.Phase) {u : Usock} (hu : u.recv = s.usock.recv)
    (out : SwsOutstate) (msg : Msg) {p : Pipebase} (hpipe : p.instate = s.pipebase.instate) :
    Sws.Phase { s with usock := u, outstate := out, outmsg := msg, pipebase := p } := by
  unfold Sws.Phase at hp ⊢
  dsimp only
  rw [hu, hpipe]
  cases hin : s.instate <;> rw [hin] at hp <;> dsimp only at hp ⊢
  case recvHdrext =>
    obtain ⟨hrecv, hpipe, hf, hext⟩ := hp
    exact ⟨hrecv, hpipe, ⟨hf.masked, hf.opcode, hf.isControl, hf.control, hf.close, hf.data⟩, hext⟩
  case recvPayload =>
    obtain ⟨hrecv, hpipe, hf, hw⟩ := hp
    exact ⟨hrecv, hpipe, ⟨hf.masked, hf.opcode, hf.isControl, hf.control, hf.close, hf.data⟩,
      ⟨hw.pos, hw.control, hw.close, hw.data, hw.mask⟩⟩
  all_goals exact hp

/-- `nn_pipe_send` while the pipe is ready for it. -/
theorem pipeSend_ends {s : Sws} (hw : s.Inv) (hpipe : s.pipebase.state = .active)
    (hidle : s.pipebase.outstate = .idle) (msg : Msg) (rand : Mask)
    (hhdrs : (hdrsMsgType msg.hdrs).toBool = true ∨ ∀ f, E f) (hlong : E .diverged) :
    Ends E (Kept s) (s.pipeSend msg rand) := by
  obtain ⟨hstate, hb, hp⟩ := active_of_pipe hw hpipe
  have hout : s.outstate = .idle := by
    rcases hb.out with ⟨hout, -⟩ | ⟨-, hasync⟩
    · exact hout
    · rw [hidle] at hasync
      cases hasync
  have hkept (bytes : List UInt8) (outmsg : Msg) :
      Kept s { s with usock := { s.usock with send := .writing, sent := s.usock.sent ++ bytes },
                      outstate := .sending,
                      outmsg, pipebase := { s.pipebase with outstate := .async } } := by
    refine ⟨Sws.Inv.of_active (by exact hstate) ?_ (hp.sender (by rfl) _ _ (by rfl)), Or.inl rfl⟩
    exact ⟨hb.inhdr, hb.control, hb.fragment, hb.pipe, Or.inr ⟨rfl, rfl⟩, hb.usock, fun _ => rfl,
      hb.hdr, hb.total⟩
  have hmask (payload : List UInt8) (pos : ℕ) :
      Ends E (fun _ => True) (nnSwsMaskPayload payload rand pos) := by
    unfold nnSwsMaskPayload
    split_ifs
    · trivial
    · exact hlong
  unfold Sws.pipeSend nnSwsSend nnUsockSend
  rw [nnAssert_of hidle, ok_bind]
  dsimp only
  rw [nnAssert_of hstate, ok_bind, nnAssert_of hout, ok_bind]
  simp only [bind_assoc]
  refine Ends.bind (P := fun _ => True) ?_ fun cmsg _ => ?_
  · cases hh : hdrsMsgType msg.hdrs with
    | ok r => trivial
    | error f => exact hhdrs.resolve_left (by rw [hh]; simp [Except.toBool]) f
  split
  · simp only [bind_assoc]
    refine Ends.bind (hmask _ _) fun r _ => Ends.bind (hmask _ _) fun r' _ => ?_
    rw [nnAssert_of hb.usock]
    exact hkept _ _
  · rw [nnAssert_of hb.usock]
    exact hkept _ _


/-! ### Steps -/

/-- A session that has come to its end fails when it gets one more event. -/
def Sws.Late (s : Sws) : Prop := s.state = .done ∧ ¬ s.usock.Quiet

/-- The send in progress gets on, or a call finds the underlying socket broken. -/
theorem Sws.Inv.withUsock {s : Sws} (hw : s.Inv) (hconn : s.state.Connected)
    (hu : s.usock.state = .active) {u : Usock} (hstate : u.state = s.usock.state)
    (hrecv : u.recv = s.usock.recv) (hsend : u.send ≠ .idle → s.usock.send ≠ .idle)
    (hclosing : s.state = .closingConnection → u.send = .written → u.eventError = false) :
    Sws.Inv { s with usock := u } := by
  unfold Sws.Inv at hw ⊢
  dsimp only
  cases hst : s.state <;> rw [hst] at hw hconn <;> dsimp only at hw ⊢
  case active =>
    obtain ⟨hb, hp⟩ := hw
    refine ⟨⟨hb.inhdr, hb.control, hb.fragment, hb.pipe, hb.out, hstate.trans hu,
      fun h => hb.sending (hsend h), hb.hdr, hb.total⟩, ?_⟩
    have := hp.sender hrecv s.outstate s.outmsg (p := s.pipebase) rfl
    rwa [hst] at this
  case closingConnection => exact ⟨hw.1, hrecv.trans hw.2.1, hw.2.2.1, hclosing hst⟩
  case brokenConnection => exact absurd hu hw.1
  all_goals exact hconn.elim

/-- `NN_USOCK_SENT`. -/
theorem sent_ends {s : Sws} (hw : s.Inv) (hsent : s.usock.send = .written)
    (hlate : s.Late → E .badSource) (rand : Mask) :
    Ends E (Kept s)
      (nnSwsHandler env rand { s with usock := { s.usock with send := .idle } } .sent) := by
  unfold Sws.Inv at hw
  unfold nnSwsHandler
  dsimp only
  cases hst : s.state <;> rw [hst] at hw <;> dsimp only
  case handshake | stoppingHandshake =>
    rw [hw] at hsent
    cases hsent
  case active =>
    obtain ⟨hb, hp⟩ := hw
    have hout := hb.sending (by rw [hsent]; simp)
    have hasync : s.pipebase.outstate = .async := by
      rcases hb.out with ⟨hidle, -⟩ | ⟨-, hasync⟩
      · rw [hout] at hidle
        cases hidle
      · exact hasync
    unfold Pipebase.sent
    rw [nnAssert_of hout, ok_bind, if_neg (by rw [hasync]; simp), nnAssert_of hasync]
    refine ⟨Sws.Inv.of_active (by rfl) ?_ ?_, Or.inl rfl⟩
    · refine ⟨hb.inhdr, hb.control, hb.fragment, hb.pipe, Or.inl ⟨rfl, rfl⟩, hb.usock, fun h => ?_,
        hb.hdr, hb.total⟩
      exact absurd rfl h
    · have := hp.sender (u := { s.usock with send := .idle }) (by rfl) .idle .init
        (p := { s.pipebase with outstate := .idle }) (by rfl)
      rwa [hst] at this
  case closingConnection =>
    rw [nnAssert_of hw.1]
    refine ⟨?_, Or.inl rfl⟩
    show s.pipebase.state ≠ .active
    rw [hw.2.2.1]
    simp
  case brokenConnection => exact absurd hsent hw.2.2.1
  case done => exact hlate ⟨hst, fun h => h.1 hsent⟩

/-- `NN_USOCK_SHUTDOWN`. -/
theorem shutdown_ends {s : Sws} (hw : s.Inv) (herror : s.usock.eventError = true)
    (hsend : s.usock.send ≠ .written) (hlate : s.Late → E .badSource) (rand : Mask) :
    Ends E (Kept s) (nnSwsHandler env rand
      { s with usock := { s.usock with state := .removingFd, eventError := false } }
        .shutdown) := by
  unfold Sws.Inv at hw
  unfold nnSwsHandler
  dsimp only
  cases hst : s.state <;> rw [hst] at hw <;> dsimp only
  case handshake | stoppingHandshake =>
    rw [hw] at herror
    cases herror
  case active => exact ⟨⟨by simp, rfl, hsend, rfl⟩, Or.inl rfl⟩
  case closingConnection => exact ⟨⟨hw.1, hw.2.1, hw.2.2.1, fun _ => rfl⟩, Or.inl rfl⟩
  case brokenConnection =>
    rw [hw.2.2.2] at herror
    cases herror
  case done => exact hlate ⟨hst, fun h => by rw [h.2] at herror; cases herror⟩

/-- `NN_USOCK_ERROR`. -/
theorem error_ends {s : Sws} (hw : s.Inv) (hconn : s.state.Connected) (rand : Mask) :
    Ends E (Kept s)
      (nnSwsHandler env rand { s with usock := { s.usock with state := .done } } .error) := by
  have hdone {s' : Sws} (hstate : s'.state = .done) (hpipe : s'.pipebase.state = .idle)
      (hlens : s'.lens = s.lens) : Kept s s' := by
    refine ⟨?_, Or.inl hlens⟩
    unfold Sws.Inv
    rw [hstate]
    show s'.pipebase.state ≠ .active
    rw [hpipe]
    simp
  unfold Sws.Inv at hw
  unfold nnSwsHandler
  dsimp only
  cases hst : s.state <;> rw [hst] at hw hconn <;> dsimp only
  case active => exact hdone rfl rfl rfl
  case closingConnection => exact hdone rfl hw.2.2.1 rfl
  case brokenConnection => exact hdone rfl hw.2.1 rfl
  all_goals exact hconn.elim

theorem start_of_handshake {s : Sws} (hw : s.Inv)
    (hst : s.state = .handshake ∨ s.state = .stoppingHandshake) :
    s = { nnSwsStart s.mode s.msgType with state := s.state } := by
  unfold Sws.Inv at hw
  rcases hst with hst | hst
  · rw [hst] at hw ⊢
    exact hw
  · rw [hst] at hw ⊢
    exact hw

/-- The session becomes active, or the socket does not take the pipe. -/
theorem handshakeStopped_ends {s : Sws} (hw : s.Inv) (hst : s.state = .stoppingHandshake)
    (added : Bool) (rand : Mask) :
    Ends E (Kept s) (nnSwsHandler env rand s (.handshakeStopped added)) := by
  have hs := start_of_handshake hw (Or.inr hst)
  rw [hst] at hs
  rw [hs]
  cases added with
  | false =>
    refine ⟨?_, Or.inl rfl⟩
    show PipebaseState.failed ≠ .active
    simp
  | true =>
    refine ⟨Sws.Inv.of_active (by rfl) ?_ ⟨rfl, rfl, fun _ => rfl⟩, Or.inl rfl⟩
    exact ⟨rfl, rfl, by simp [nnSwsStart], rfl, Or.inl ⟨rfl, rfl⟩, rfl, nofun, nofun, rfl⟩

/-- The chunk that an action may add. -/
def World.claim (w : World) : Action → Option ℕ
  | .received _ => w.claimed
  | _ => none

variable (env) in
/-- What one action does to the session. -/
theorem step_ends (hw : w.sws.Inv) {a : Action} (hen : w.Enabled a) :
    Ends (fun f => f = .diverged ∨ ¬ w.Careful env a ∨
      2 ^ 64 ≤ w.sws.inmsgArray.flatten.length ∨ w.sws.Late)
      (fun r => Grown env w.sws (w.claim a) r.1.sws) (w.step env a) := by
  have hfeed {ev : SwsEvent} {s : Sws} {E : Fault → Prop}
      (h : Ends E (Kept w.sws) (nnSwsHandler env (Vector.replicate 4 0) s ev)) :
      Ends E (fun r : World × Unit => Grown env w.sws (w.claim a) r.1.sws)
        ((nnSwsHandler env (Vector.replicate 4 0) s ev >>= fun sws => pure { w with sws }) >>=
          fun w => pure (w, ())) := by
    rw [bind_assoc]
    exact Ends.bind h fun s' hk => Kept.grown hk
  unfold World.step
  cases a with
  | handshakeOk =>
    have hst : w.sws.state = .handshake := hen
    apply hfeed
    unfold nnSwsHandler
    rw [hst]
    refine ⟨?_, Or.inl rfl⟩
    exact congrArg (fun s : Sws => { s with state := .stoppingHandshake })
      (start_of_handshake hw (Or.inl hst))
  | handshakeError =>
    have hst : w.sws.state = .handshake := hen
    apply hfeed
    unfold nnSwsHandler
    rw [hst]
    refine ⟨?_, Or.inl rfl⟩
    show w.sws.pipebase.state ≠ .active
    rw [start_of_handshake hw (Or.inl hst)]
    simp [nnSwsStart]
  | handshakeStopped added => exact hfeed (handshakeStopped_ends hw hen added _)
  | arrive bytes => exact Kept.grown ⟨hw, Or.inl rfl⟩
  | received rand =>
    refine Ends.bind (received_ends env hw hen rand ?_ ?_ ?_) fun w' hg => hg.1
    · intro n hn hfits
      by_cases hcareful : w.Careful env (.received rand)
      · exact Or.inl (hcareful.1 n hn hfits).2
      · exact Or.inr (Or.inr (Or.inl hcareful))
    · exact fun h4 => Or.inr (Or.inl fun hcareful => hcareful.2.1 h4)
    · exact Or.inl rfl
  | flush =>
    obtain ⟨⟨hconn, hu, herror⟩, hsend⟩ := hen
    refine Kept.grown ⟨hw.withUsock hconn hu rfl rfl (fun _ => ?_) fun _ _ => herror, Or.inl rfl⟩
    rw [hsend]
    simp
  | reset =>
    obtain ⟨⟨hconn, hu, -⟩, hclosing⟩ := hen
    refine Kept.grown ⟨hw.withUsock hconn hu rfl rfl id fun hst hsend => ?_, Or.inl rfl⟩
    rw [hclosing hst] at hsend
    cases hsend
  | sent => exact hfeed (sent_ends hw hen (fun h => Or.inr (Or.inr (Or.inr h))) _)
  | shutdown => exact hfeed (shutdown_ends hw hen.1 hen.2 (fun h => Or.inr (Or.inr (Or.inr h))) _)
  | error => exact hfeed (error_ends hw hen.1 _)
  | recv =>
    refine Ends.bind (P := fun w' => Kept w.sws w'.sws) ?_ fun w' hk => Kept.grown hk
    unfold World.recv
    refine Ends.bind (pipeRecv_ends hw hen.1 hen.2 ?_ ?_) fun r hk => hk
    · by_cases hcareful : w.Careful env .recv
      · exact Or.inl hcareful
      · exact Or.inr (Or.inr (Or.inl hcareful))
    · by_cases hsum : w.sws.inmsgArray.flatten.length < 2 ^ 64
      · exact Or.inl hsum
      · exact Or.inr (Or.inr (Or.inr (Or.inl (Nat.le_of_not_lt hsum))))
  | send msg rand =>
    have hsend : Ends (fun f => f = .diverged ∨ ¬ w.Careful env (.send msg rand) ∨
        2 ^ 64 ≤ w.sws.inmsgArray.flatten.length ∨ w.sws.Late) (Kept w.sws)
          (w.sws.pipeSend msg rand) := by
      refine pipeSend_ends hw hen.1 hen.2 msg rand ?_ (Or.inl rfl)
      by_cases hcareful : w.Careful env (.send msg rand)
      · exact Or.inl hcareful
      · exact Or.inr fun f => Or.inr (Or.inl hcareful)
    dsimp only
    exact Ends.bind hsend fun s' hk => Kept.grown hk

/-! ### Runs -/

section Runs

variable {mode : Mode} {msgType : UInt8} {as : List Action} {P : World → Action → Prop}

theorem step_grown (hw : w.sws.Inv) {a : Action} (hen : w.Enabled a) {r : World × Unit}
    (heq : w.step env a = .ok r) : Grown env w.sws (w.claim a) r.1.sws := by
  have := step_ends env hw hen
  rwa [heq] at this

/-- The invariant holds in every state that is reached. -/
theorem inv_of_trace
    (h : Runs.Trace (World.step env) (fun w a => w.Enabled a ∧ P w a)
      (World.init mode msgType) as w) :
    w.sws.Inv := by
  refine h.invariant (I := fun _ w => w.sws.Inv) (init_inv mode msgType) ?_
  intro as w a w' _ hw hP heq
  exact (step_grown hw hP.1 heq).1

theorem lens_sum (s : Sws) : s.lens.sum = s.inmsgArray.flatten.length := by
  rw [List.length_flatten, Sws.lens]

/-- Without overflow, the lengths of the chunks change as the running total says. -/
theorem step_lens (hw : w.sws.Inv) (hsum : w.sws.lens.sum < 2 ^ 64) {a : Action} (hen : w.Enabled a)
    (hover : w.NoOverflow env a) {r : World × Unit} (heq : w.step env a = .ok r) :
    r.1.sws.lens = w.sws.lens ∨ r.1.sws.lens = [] ∨
      ∃ n ∈ w.claimed, r.1.sws.lens = w.sws.lens ++ [n] ∧ w.sws.lens.sum + n < 2 ^ 64 ∧
        env.Fits (w.sws.lens.sum + n) := by
  rcases (step_grown hw hen heq).2 with h | h | ⟨n, hn, hlens, hfits⟩
  · exact Or.inl h
  · exact Or.inr (Or.inl h)
  cases a with
  | received rand =>
    obtain ⟨-, hb, -⟩ := CanReceive.active hw hen
    have htotal : w.sws.inmsgTotalSize = w.sws.lens.sum := by
      rw [hb.total, ← lens_sum, Nat.mod_eq_of_lt hsum]
    have hlt : w.sws.inmsgTotalSize + n < 2 ^ 64 := hover n hn hfits
    rw [Nat.mod_eq_of_lt hlt, htotal] at hfits
    rw [htotal] at hlt
    exact Or.inr (Or.inr ⟨n, hn, hlens, hlt, hfits⟩)
  | _ => cases hn

/-- The lengths of the chunks stay within the limit. -/
theorem sizes_of_trace
    (h : Runs.Trace (World.step env) (fun w a => w.Enabled a ∧ w.NoOverflow env a)
      (World.init mode msgType) as w) :
    w.sws.lens.sum < 2 ^ 64 ∧ (0 ≤ env.rcvmaxsize → (w.sws.lens.sum : ℤ) ≤ env.rcvmaxsize) := by
  suffices hI : w.sws.Inv ∧ w.sws.lens.sum < 2 ^ 64 ∧
      (0 ≤ env.rcvmaxsize → (w.sws.lens.sum : ℤ) ≤ env.rcvmaxsize) from hI.2
  refine h.invariant (I := fun _ w => w.sws.Inv ∧ w.sws.lens.sum < 2 ^ 64 ∧
    (0 ≤ env.rcvmaxsize → (w.sws.lens.sum : ℤ) ≤ env.rcvmaxsize)) ⟨init_inv mode msgType, ?_⟩ ?_
  · simp [World.init, nnSwsStart, Sws.lens]
  intro as w a w' _ hI ha heq
  obtain ⟨hw, hsum, hlimit⟩ := hI
  obtain ⟨hen, hover⟩ := ha
  refine ⟨(step_grown hw hen heq).1, ?_⟩
  rcases step_lens hw hsum hen hover heq with hl | hl | ⟨n, -, hl, hlt, hfits⟩
  · rw [hl]
    exact ⟨hsum, hlimit⟩
  · rw [hl]
    simp
  · rw [hl, List.sum_append, List.sum_singleton]
    unfold Env.Fits at hfits
    exact ⟨hlt, fun hL => hfits.resolve_left (by omega)⟩

/-- An active session waits for more of a frame, or it has a message for the socket. -/
theorem Phase.waits {s : Sws} (hp : s.Phase) :
    s.usock.recv ≠ none ∨ s.pipebase.instate = .idle := by
  unfold Sws.Phase at hp
  cases hin : s.instate <;> rw [hin] at hp
  case recvHdr | recvHdrext | recvPayload => exact Or.inl (by rw [hp.1]; simp)
  case recvdChunked | recvdControl => exact Or.inr hp.2.1
  case init | closed => exact hp.elim

theorem step_received (rand : Mask) :
    w.step env (.received rand) = (w.received env rand >>= fun w => pure (w, ())) :=
  rfl

/-- No event waits for a session that has come to its end. -/
def World.Settled (w : World) : Prop := w.sws.state = .done → w.sws.usock.Quiet

/-- A limit of one megabyte, and memory for less than a terabyte. -/
def megabyte : Env := { rcvmaxsize := 1048576, mem := fun n => n < 2 ^ 40, memory := fun _ => 0 }

/-- The mask of zeros. -/
def noMask : Mask := Vector.replicate 4 0

/-- As long as the running total does not pass the limit by an overflow, every chunk and the sum of
the chunks stay within the limit, and the frame that would exceed it ends the connection. -/
theorem rcvmaxsize_enforced (env : Env) (mode : Mode) (msgType : UInt8)
    (hlimit : 0 ≤ env.rcvmaxsize) {as : List Action} {w : World}
    (h : Runs.Trace (World.step env) (fun w a => w.Enabled a ∧ w.NoOverflow env a)
      (World.init mode msgType) as w) :
    (∀ ch ∈ w.sws.inmsgArray, (ch.length : ℤ) ≤ env.rcvmaxsize) ∧
      ((w.sws.inmsgArray.map List.length).sum : ℤ) ≤ env.rcvmaxsize ∧
      ∀ rand n, w.Enabled (.received rand) → w.NoOverflow env (.received rand) → n ∈ w.claimed →
        env.rcvmaxsize < (w.sws.inmsgArray.map List.length).sum + n →
        ∃ w', w.step env (.received rand) = .ok (w', ()) ∧
          FailedWith rand 1009 w.sws.taken w'.sws := by
  have hw := inv_of_trace h
  obtain ⟨hsum, hle⟩ := sizes_of_trace h
  have hle := hle hlimit
  refine ⟨fun ch hch => ?_, hle, fun rand n hen hover hn hbig => ?_⟩
  · have hmem : ch.length ≤ w.sws.lens.sum :=
      List.single_le_sum (by simp) _ (List.mem_map_of_mem hch)
    omega
  · obtain ⟨-, hb, -⟩ := CanReceive.active hw hen
    have htotal : w.sws.inmsgTotalSize = w.sws.lens.sum := by
      rw [hb.total, ← lens_sum, Nat.mod_eq_of_lt hsum]
    have hnot : ¬ env.Fits ((w.sws.inmsgTotalSize + n) % 2 ^ 64) := by
      intro hfits
      have hlt : w.sws.inmsgTotalSize + n < 2 ^ 64 := hover n hn hfits
      rw [Nat.mod_eq_of_lt hlt, htotal] at hfits
      unfold Env.Fits Sws.lens at hfits
      omega
    obtain ⟨w', hw', hfail, -⟩ := received_tooBig hw hen hn hnot rand
    refine ⟨w', ?_, hfail⟩
    rw [step_received, hw']
    rfl

/-- A message goes on with two megabytes. -/
def bigRun : List Action :=
  [.handshakeOk, .handshakeStopped true,
    .arrive ([0x02, 1, 7] ++ [0x80, 0x7F, 0, 0, 0, 0, 0, 0x20, 0, 0]), .received noMask,
    .received noMask, .received noMask]

theorem bigRun_returns :
    (Runs.runWhile (World.step megabyte) (fun w a => w.Enabled a ∧ w.NoOverflow megabyte a)
      (World.init .client 2) bigRun).isSome := by decide

theorem rcvmaxsize_enforced_two_megabytes :
    ∃ w w', Runs.Trace (World.step megabyte) (fun w a => w.Enabled a ∧ w.NoOverflow megabyte a)
        (World.init .client 2) bigRun w ∧ 0x200000 ∈ w.claimed ∧
      w.step megabyte (.received noMask) = .ok (w', ()) ∧
        FailedWith noMask 1009 w.sws.taken w'.sws := by
  have htr := Runs.Trace.of_runWhile bigRun_returns
  generalize hw :
    (Runs.runWhile (World.step megabyte) (fun w a => w.Enabled a ∧ w.NoOverflow megabyte a)
      (World.init .client 2) bigRun).get bigRun_returns = w at htr
  have hen : w.Enabled (.received noMask) ∧ w.NoOverflow megabyte (.received noMask) ∧
      0x200000 ∈ w.claimed := by
    rw [← hw]
    decide
  have hbig : megabyte.rcvmaxsize < (w.sws.inmsgArray.map List.length).sum + (0x200000 : ℕ) := by
    rw [← hw]
    decide
  obtain ⟨-, -, hfails⟩ := rcvmaxsize_enforced megabyte .client 2 (by decide) htr
  obtain ⟨w', hstep, hfail⟩ := hfails noMask 0x200000 hen.1 hen.2.1 hen.2.2 hbig
  exact ⟨w, w', htr, hen.2.2, hstep, hfail⟩

/-- A message of 16 bytes goes on with 2^64 - 8 bytes. -/
def overflowRun : List Action :=
  [.handshakeOk, .handshakeStopped true,
    .arrive ([0x02, 16] ++ List.replicate 16 7 ++ [0x80, 0x7F, 0xFF, 0xFF, 0xFF, 0xFF, 0xFF,
      0xFF, 0xFF, 0xF8]),
    .received noMask, .received noMask, .received noMask]

theorem overflowRun_returns :
    (Runs.runWhile (World.step megabyte) World.Enabled (World.init .client 2)
      overflowRun).isSome := by
  decide

theorem rcvmaxsize_overflow :
    ¬ ∀ as w rand n, Runs.Trace (World.step megabyte) World.Enabled (World.init .client 2) as w →
      w.Enabled (.received rand) → n ∈ w.claimed →
      megabyte.rcvmaxsize < (w.sws.inmsgArray.map List.length).sum + n →
      ∃ w', w.step megabyte (.received rand) = .ok (w', ()) ∧
        FailedWith rand 1009 w.sws.taken w'.sws := by
  intro h
  have htr := Runs.Trace.of_runWhile overflowRun_returns
  obtain ⟨w', hw', -⟩ := h overflowRun _ noMask (2 ^ 64 - 8) htr (by decide) (by decide)
    (by decide)
  -- there is no memory for the chunk
  have hstep :
      World.step megabyte
      ((Runs.runWhile (World.step megabyte) World.Enabled (World.init .client 2) overflowRun).get
        overflowRun_returns) (.received noMask) = .error .assertFailed := rfl
  cases hstep.symm.trans hw'

end Runs

end NanoSocket.Ws

import NanoSocket.Ws.SwsHeaders

/-!
# Messages of a WebSocket session (`transports/ws/sws.c`)

A message that one session sends is received by the other one as it was sent
(`sent_message_received`), and a message that is cut into fragments, with control frames between
them, is put together again (`fragmented_message_iff`), unless the loop that unmasks a payload does
not end.
-/

namespace NanoSocket.Ws

open Runs (Reaches)

variable {env : Env} {rand : Mask} {w : World} {first : Option UInt8}
  {body tail payload rest : List UInt8}
  {b0 : UInt8} {key : Mask}

/-! ### Binary frames -/

/-- The receiving side stops here. -/
def Stuck (env : Env) (rand : Mask) (w : World) : Prop := ∀ w', w.next env rand ≠ some (.ok w')

theorem Completes.stuck {w₁ : World} (h : Completes env rand w b0 payload rest w₁)
    (hlong : w.sws.mode = .server ∧ 2 ^ 32 ≤ payload.length) : Stuck env rand w₁ := by
  intro w' hw'
  unfold World.next at hw'
  rw [if_pos h.can, h.long hlong] at hw'
  cases hw'

/-- The payload of a binary frame is not looked at. -/
theorem Got.frameDone_binary {s : Sws} (hgot : Got w.sws b0 payload s) (h : w.Waits first body tail)
    (hb0 : DataByte first b0) (hbin : opcodeOf (first.getD b0) = .binary) :
    s.frameDone rand payload = s.chunkDone := by
  unfold Sws.frameDone
  split_ifs
  · unfold Sws.emptyDone Sws.chunkDone
    rw [hgot.control, hb0.isControl.1]
    rfl
  · unfold Sws.payloadDone
    rw [hgot.opcode]
    cases hfirst : first with
    | none =>
      rw [hfirst] at hbin
      rw [show opcodeOf b0 = .binary from hbin]
    | some b =>
      have hop : opcodeOf b0 = .fragment := by simpa [hfirst] using hb0.opcode
      rw [hfirst] at hbin
      rw [hop]
      dsimp only
      rw [hgot.inmsgHdr h, hfirst, opcodeOf_or, hbin]
      rfl

theorem Got.sameTail {s : Sws} (hgot : Got w.sws b0 payload s) (h : w.Waits first body tail) :
    { s with utf8CodePtFragment := tail } = s ∧ tail.length < 4 := by
  have htail : s.utf8CodePtFragment = tail := hgot.fragment.trans h.tail
  exact ⟨by rw [← htail], by rw [← htail]; exact hgot.busy.base.fragment⟩

/-- A binary frame that is not the last one of its message. -/
theorem World.Waits.binary_more (h : w.Waits first body tail) (hb0 : DataByte first b0)
    (hfin : isFin b0 = false) (hbin : opcodeOf (first.getD b0) = .binary)
    (hstream : w.stream = wireFrame w.sws.mode key b0 payload ++ rest)
    (hadmits : env.Admits (body.length + payload.length)) (rand : Mask) :
    ((w.sws.mode = .server → payload.length < 2 ^ 32) → ∃ w', Reaches (World.next env rand) w w' ∧
        w'.Waits (some (first.getD b0)) (body ++ payload) tail ∧ w'.sws.link = w.sws.link ∧
          w'.stream = rest ∧
        w'.delivered = w.delivered) ∧
      (w.sws.mode = .server ∧ 2 ^ 32 ≤ payload.length → ∃ w', Reaches (World.next env rand) w w' ∧
        Stuck env rand w' ∧ rest.length < w'.stream.length) := by
  obtain ⟨w₁, hreach, hcompletes⟩ := h.receive_data hb0 hstream hadmits rand
  refine ⟨fun hshort => ?_, fun hlong => ⟨w₁, hreach, hcompletes.stuck hlong, hcompletes.stream⟩⟩
  obtain ⟨s, hgot, heq⟩ := hcompletes.short hshort
  obtain ⟨hs, htail⟩ := hgot.sameTail h
  obtain ⟨hrecv, hwaits, hlink⟩ :=
    hgot.waits_more h hb0.isControl.1 hfin htail rest (w.headers ++ [b0])
  rw [hs] at hrecv hwaits hlink
  have hdone : s.frameDone rand payload = .ok s.atHdr := by
    rw [hgot.frameDone_binary h hb0 hbin, Sws.chunkDone, if_neg (by rw [hgot.final, hfin]; simp)]
    exact hrecv
  rw [hdone, ok_bind] at heq
  exact ⟨_, hreach.tail (next_received hcompletes.can heq), hwaits, hlink, rfl, rfl⟩

/-- The last binary frame of a message. -/
theorem World.Waits.binary_last (h : w.Waits first body tail) (hb0 : DataByte first b0)
    (hfin : isFin b0 = true) (hbin : opcodeOf (first.getD b0) = .binary)
    (hstream : w.stream = wireFrame w.sws.mode key b0 payload ++ rest)
    (hadmits : env.Admits (body.length + payload.length)) (rand : Mask) :
    ((w.sws.mode = .server → payload.length < 2 ^ 32) → ∃ w₂ w',
      Reaches (World.next env rand) w w₂ ∧
        (w₂.sws.instate = .recvdChunked ∧ w₂.sws.isFinalFrame = true ∧
          w₂.sws.opcode = opcodeOf b0) ∧
        w₂.recv env = .ok w' ∧ w₂.next env rand = some (.ok w') ∧ w'.Waits none [] tail ∧
          w'.sws.link = w.sws.link ∧ w'.stream = rest ∧
        w'.headers = w.headers ++ [b0] ∧ w'.delivered = w.delivered ++
          [⟨[], wsHdrs env ((first.getD b0 ||| 0x80) &&& 0x7F), body ++ payload⟩]) ∧
      (w.sws.mode = .server ∧ 2 ^ 32 ≤ payload.length → ∃ w', Reaches (World.next env rand) w w' ∧
        Stuck env rand w' ∧ rest.length < w'.stream.length) := by
  obtain ⟨w₁, hreach, hcompletes⟩ := h.receive_data hb0 hstream hadmits rand
  refine ⟨fun hshort => ?_, fun hlong => ⟨w₁, hreach, hcompletes.stuck hlong, hcompletes.stream⟩⟩
  obtain ⟨s, hgot, heq⟩ := hcompletes.short hshort
  obtain ⟨hs, htail⟩ := hgot.sameTail h
  obtain ⟨htold, w', hrecv, hnext, hw'⟩ :=
    hgot.delivers rand h hb0.isControl.1 hfin htail hadmits rest (w.headers ++ [b0])
  rw [hs] at htold hrecv hnext
  have hdone : s.frameDone rand payload = .ok (s.told .recvdChunked) := by
    rw [hgot.frameDone_binary h hb0 hbin, Sws.chunkDone, if_pos (by rw [hgot.final, hfin])]
    exact htold
  rw [hdone, ok_bind] at heq
  exact ⟨_, w', hreach.tail (next_received hcompletes.can heq),
    ⟨rfl, hgot.final.trans hfin, hgot.opcode⟩, hrecv, hnext, hw'⟩

/-! ### A message that was sent -/

/-- The other end of a connection. -/
def Mode.peer : Mode → Mode
  | .client => .server
  | .server => .client

variable (rand) in
/-- What `nn_sws_send` puts on the wire. -/
theorem nnSwsSend_wire {s : Sws} {msg : Msg} (hstate : s.state = .active)
    (hout : s.outstate = .idle) (hu : s.usock.state = .active)
    (hhdrs : hdrsMsgType msg.hdrs = .ok none)
    (hsize : msg.sphdr.length + msg.body.length < 2 ^ 32) :
    ∃ s', nnSwsSend s msg rand = .ok s' ∧ s'.pipebase = s.pipebase ∧
      s'.usock.sent = s.usock.sent ++ wireFrame s.mode.peer rand (s.msgType ||| 0x80)
        (msg.sphdr ++ msg.body) := by
  have hlen : (msg.sphdr ++ msg.body).length = msg.sphdr.length + msg.body.length :=
    List.length_append
  unfold nnSwsSend nnUsockSend
  rw [nnAssert_of hstate, ok_bind, nnAssert_of hout, ok_bind, hhdrs, ok_bind]
  cases hmode : s.mode with
  | server =>
    dsimp only
    rw [nnAssert_of hu, ok_bind]
    refine ⟨_, rfl, rfl, ?_⟩
    simp [wireFrame, secondByte, restOfHdr, wirePayload, Mode.peer, hlen]
  | client =>
    have hmask : maskFrom rand 0 (msg.sphdr ++ msg.body) =
        maskFrom rand 0 msg.sphdr ++ maskFrom rand ((msg.sphdr.length + 0) % 4) msg.body := by
      rw [maskFrom_append, maskFrom_mod, Nat.zero_add, Nat.add_zero]
    dsimp only
    rw [nnSwsMaskPayload, if_pos (by omega), ok_bind, nnSwsMaskPayload, if_pos (by omega), ok_bind,
      nnAssert_of hu, ok_bind]
    refine ⟨_, rfl, rfl, ?_⟩
    simp [wireFrame, secondByte, restOfHdr, wirePayload, Mode.peer, hlen, hmask]

/-- A session between two messages. -/
theorem waits_of_run {mode : Mode} {msgType : UInt8} {as : List Action}
    (h : Runs.Trace (World.step env) World.Enabled (World.init mode msgType) as w)
    (hstate : w.sws.state = .active) (hin : w.sws.instate = .recvHdr)
    (hcont : w.sws.continuing = false) (bytes : List UInt8) :
    World.Waits { w with stream := bytes } none [] w.sws.utf8CodePtFragment := by
  have hinv := inv_of_run h
  refine ⟨hinv, hstate, hin, hcont, nofun, ?_, rfl⟩
  have harray := (Phase.hdr (inv_active hinv hstate).2 hin).2.2 hcont
  show w.sws.inmsgArray.flatten = []
  rw [harray]
  rfl

/-- A binary message that one session sends gives one final frame to a session of the other mode,
and the socket there gets the header and the body of the message. -/
theorem sent_message_received (env env' : Env) {mode mode' : Mode} {msgType msgType' : UInt8}
    {as bs : List Action} {v w : World}
    (hv : Runs.Trace (World.step env') World.Enabled (World.init mode msgType) as v)
    (hw : Runs.Trace (World.step env) World.Enabled (World.init mode' msgType') bs w)
    (htype : v.sws.msgType = 0x02) (hmode : w.sws.mode = v.sws.mode.peer) {msg : Msg}
    (hhdrs : hdrsMsgType msg.hdrs = .ok none)
    (hsize : msg.sphdr.length + msg.body.length < 2 ^ 32) {rand : Mask}
    (hsend : v.Enabled (.send msg rand)) (hstate : w.sws.state = .active)
    (hin : w.sws.instate = .recvHdr) (hcont : w.sws.continuing = false)
    (hadmits : env.Admits (msg.sphdr.length + msg.body.length)) (rand' : Mask) (rest : List UInt8) :
    ∃ v' bytes w₁ w', v.step env' (.send msg rand) = .ok (v', ()) ∧
      v'.sws.usock.sent = v.sws.usock.sent ++ bytes ∧
      Reaches (World.next env rand') { w with stream := bytes ++ rest } w₁ ∧
      (w₁.sws.instate = .recvdChunked ∧ w₁.sws.isFinalFrame = true ∧ w₁.sws.opcode = .binary) ∧
      w₁.recv env = .ok w' ∧ w'.stream = rest ∧ w'.headers = w.headers ++ [0x82] ∧
      w'.delivered = w.delivered ++ [⟨[], wsHdrs env 0x02, msg.sphdr ++ msg.body⟩] := by
  obtain ⟨hvstate, hb, -⟩ := active_of_pipe (inv_of_run hv) hsend.1
  have hout : v.sws.outstate = .idle := by
    rcases hb.out with ⟨hout, -⟩ | ⟨-, hasync⟩
    · exact hout
    · rw [hsend.2] at hasync
      cases hasync
  obtain ⟨s', hs', hpipe, hsent⟩ := nnSwsSend_wire rand
    (s := { v.sws with pipebase := { v.sws.pipebase with outstate := .sending } }) hvstate hout
      hb.usock hhdrs hsize
  rw [htype, show (0x02 ||| 0x80 : UInt8) = 0x82 by decide] at hsent
  have hlen : (msg.sphdr ++ msg.body).length = msg.sphdr.length + msg.body.length :=
    List.length_append
  have hbyte : DataByte none 0x82 := ⟨by decide, by decide⟩
  have hwaits := waits_of_run hw hstate hin hcont
    (wireFrame v.sws.mode.peer rand 0x82 (msg.sphdr ++ msg.body) ++ rest)
  obtain ⟨w₁, w', hreach, hfinal, hrecv, -, -, -, hstream, hheaders, hdelivered⟩ :=
    (hwaits.binary_last hbyte (by decide) (by decide) (by rw [← hmode])
      (by rwa [List.length_nil, Nat.zero_add, hlen]) rand').1 fun _ => by omega
  refine ⟨{ v with sws := { s' with pipebase := { s'.pipebase with outstate := .async } } }, _, w₁,
    w', ?_, hsent, hreach, hfinal, hrecv, hstream, hheaders, hdelivered⟩
  have hpipe' : v.sws.pipeSend msg rand =
      .ok { s' with pipebase := { s'.pipebase with outstate := .async } } := by
    rw [Sws.pipeSend, nnAssert_of hsend.2, ok_bind]
    dsimp only
    rw [hs', ok_bind, nnAssert_of (by rw [hpipe])]
    rfl
  unfold World.step
  dsimp only
  rw [hpipe']
  rfl

theorem megabyte_admits {n : ℕ} (h : n ≤ 2 ^ 20) : megabyte.Admits n := by
  refine ⟨Or.inr ?_, fun k hk => ⟨by decide, Or.inr ⟨by omega, ?_⟩⟩⟩
  · show (n : ℤ) ≤ 1048576
    omega
  · show decide (32 + k < 2 ^ 40) = true
    rw [decide_eq_true_eq]
    omega

/-- The handshake is over. -/
def connectedRun : List Action := [.handshakeOk, .handshakeStopped true]

theorem connectedRun_returns (mode : Mode) :
    (Runs.runWhile (World.step megabyte) World.Enabled (World.init mode 0x02)
      connectedRun).isSome := by
  cases mode <;> decide

theorem sent_message_received_masked :
    ∃ v v' w w₁ w' bytes, Runs.Trace (World.step megabyte) World.Enabled (World.init .client 0x02)
      connectedRun v ∧
      Runs.Trace (World.step megabyte) World.Enabled (World.init .server 0x02) connectedRun w ∧
      v.step megabyte (.send ⟨[1, 2], [], [3]⟩ (Vector.replicate 4 7)) = .ok (v', ()) ∧
      v'.sws.usock.sent = v.sws.usock.sent ++ bytes ∧
      Reaches (World.next megabyte noMask) { w with stream := bytes ++ [] } w₁ ∧
        w₁.recv megabyte = .ok w' ∧
      w'.delivered = w.delivered ++ [⟨[], wsHdrs megabyte 0x02, [1, 2, 3]⟩] := by
  have hv := Runs.Trace.of_runWhile (connectedRun_returns .client)
  have hw := Runs.Trace.of_runWhile (connectedRun_returns .server)
  obtain ⟨v', bytes, w₁, w', hstep, hsent, hreach, -, hrecv, -, -, hdelivered⟩ :=
    sent_message_received megabyte megabyte hv hw (by decide) (by decide)
      (show hdrsMsgType (Msg.mk [1, 2] [] [3]).hdrs = .ok none from rfl) (by decide)
      (show World.Enabled _ (.send _ (Vector.replicate 4 7)) by decide) (by decide)
      (by decide) (by decide) (megabyte_admits (by decide)) noMask []
  exact ⟨_, v', _, w₁, w', bytes, hv, hw, hstep, hsent, hreach, hrecv, hdelivered⟩

/-! ### A message in fragments -/

/-- A frame before the last one of a message: a fragment, or a control frame. -/
inductive Interim
  | fragment (key : Mask) (payload : List UInt8)
  | ping (key : Mask) (payload : List UInt8)
  | pong (key : Mask) (payload : List UInt8)

/-- The payload of a fragment. -/
def Interim.data : Interim → Option (List UInt8)
  | .fragment _ payload => some payload
  | .ping _ _ | .pong _ _ => none

/-- The message that the socket gets for a control frame. -/
def Interim.control (env : Env) : Interim → Option Msg
  | .fragment _ _ => none
  | .ping _ payload => some ⟨[], wsHdrs env 0x09, payload⟩
  | .pong _ payload => some ⟨[], wsHdrs env 0x0A, payload⟩

/-- The payload of a control frame is short. -/
def Interim.Short : Interim → Prop
  | .fragment _ _ => True
  | .ping _ payload | .pong _ payload => payload.length ≤ 125

/-- The payloads of the fragments. -/
def fragments (is : List Interim) : List (List UInt8) := is.filterMap Interim.data

/-- The first frame of the message is among them. -/
def opens (is : List Interim) : Bool := fragments is ≠ []

/-- Frames of a message that starts with the opcode `op`; `opened` says whether its first frame has
been sent. -/
def interimWire (mode : Mode) (op : UInt8) : Bool → List Interim → List UInt8
  | _, [] => []
  | opened, .fragment key payload :: is =>
    wireFrame mode key (if opened then 0x00 else op) payload ++ interimWire mode op true is
  | opened, .ping key payload :: is =>
    wireFrame mode key 0x89 payload ++ interimWire mode op opened is
  | opened, .pong key payload :: is =>
    wireFrame mode key 0x8A payload ++ interimWire mode op opened is

/-- All frames of a message: the last one has the final bit. -/
def messageWire (mode : Mode) (op : UInt8) (is : List Interim) (key : Mask) (payload : List UInt8) :
    List UInt8 :=
  interimWire mode op false is ++ wireFrame mode key (0x80 ||| if opens is then 0x00
    else op) payload

/-- The first byte of the binary message in progress. -/
def binaryFirst (opened : Bool) : Option UInt8 := if opened then some 0x02 else none

theorem dataByte_binary (opened : Bool) :
    DataByte (binaryFirst opened) (if opened then 0x00 else 0x02) ∧
      DataByte (binaryFirst opened) (0x80 ||| if opened then 0x00 else 0x02) := by
  cases opened
  · exact ⟨⟨by decide, by decide⟩, ⟨by decide, by decide⟩⟩
  · exact ⟨⟨by decide, by decide⟩, ⟨by decide, by decide⟩⟩

/-- How the receiving side gets on with frames before the last one: it collects the fragments and
gives the control frames to the socket, or it stops at a payload that is too long to be unmasked. -/
structure Collects (env : Env) (rand : Mask) (w : World) (opened : Bool) (body tail : List UInt8)
    (is : List Interim) (rest : List UInt8) : Prop where
  short : (w.sws.mode = .server → ∀ p ∈ fragments is, p.length < 2 ^ 32) →
    ∃ w', Reaches (World.next env rand) w w' ∧
      w'.Waits (binaryFirst (opened || opens is)) (body ++ (fragments is).flatten) tail ∧
      w'.sws.link = w.sws.link ∧ w'.stream = rest ∧
        w'.delivered = w.delivered ++ is.filterMap (Interim.control env)
  long : w.sws.mode = .server → (∃ p ∈ fragments is, 2 ^ 32 ≤ p.length) →
    ∃ w', Reaches (World.next env rand) w w' ∧ Stuck env rand w' ∧ rest.length < w'.stream.length

theorem mode_of_link {s s' : Sws} (h : s'.link = s.link) : s'.mode = s.mode :=
  congrArg (fun l => l.2.1) h

theorem Collects.control {w₁ : World} {opened : Bool} {i : Interim} {is : List Interim} {msg : Msg}
    (h : Collects env rand w₁ opened body tail is rest)
    (hreach : Reaches (World.next env rand) w w₁) (hlink : w₁.sws.link = w.sws.link)
    (hdata : i.data = none) (hmsg : i.control env = some msg)
    (hdelivered : w₁.delivered = w.delivered ++ [msg]) :
    Collects env rand w opened body tail (i :: is) rest := by
  have hfrags : fragments (i :: is) = fragments is := List.filterMap_cons_none hdata
  have hmode := mode_of_link hlink
  refine ⟨fun hshort => ?_, fun hserver hlong => ?_⟩
  · rw [hfrags, ← hmode] at hshort
    obtain ⟨w', hreach', hwaits, hlink', hstream, hdelivered'⟩ := h.short hshort
    refine ⟨w', hreach.trans hreach', by rwa [opens, hfrags], hlink'.trans hlink, hstream, ?_⟩
    rw [hdelivered', hdelivered, List.filterMap_cons_some hmsg, List.append_assoc]
    rfl
  · rw [hfrags] at hlong
    obtain ⟨w', hreach', hstuck⟩ := h.long (hmode.trans hserver) hlong
    exact ⟨w', hreach.trans hreach', hstuck⟩

/-- The frames before the last one of a binary message. -/
theorem World.Waits.collects (is : List Interim) {opened : Bool}
    (h : w.Waits (binaryFirst opened) body tail)
    (hstream : w.stream = interimWire w.sws.mode 0x02 opened is ++ rest)
    (hshort : ∀ i ∈ is, i.Short)
    (hadmits : env.Admits (body.length + (fragments is).flatten.length)) (rand : Mask) :
    Collects env rand w opened body tail is rest := by
  induction is generalizing w opened body with
  | nil =>
    refine ⟨fun _ => ⟨w, Reaches.refl w, ?_, rfl, hstream, by simp⟩,
      fun _ ⟨p, hp, _⟩ => absurd hp (by simp [fragments])⟩
    simpa [fragments, opens] using h
  | cons i is ih =>
    have hshort' : ∀ i ∈ is, i.Short := fun j hj => hshort j (List.mem_cons_of_mem i hj)
    have hi := hshort i List.mem_cons_self
    cases i with
    | ping key p =>
      obtain ⟨w₁, hreach, hwaits, hlink, hstream₁, hdelivered⟩ := h.control (Or.inl rfl)
        (by rw [hstream, interimWire, List.append_assoc]) hi (hadmits.mem _ (Or.inr hi)).2 rand
      refine (ih hwaits ?_ hshort' hadmits).control hreach hlink rfl rfl hdelivered
      rw [hstream₁, mode_of_link hlink]
    | pong key p =>
      obtain ⟨w₁, hreach, hwaits, hlink, hstream₁, hdelivered⟩ := h.control (Or.inr rfl)
        (by rw [hstream, interimWire, List.append_assoc]) hi (hadmits.mem _ (Or.inr hi)).2 rand
      refine (ih hwaits ?_ hshort' hadmits).control hreach hlink rfl rfl hdelivered
      rw [hstream₁, mode_of_link hlink]
    | fragment key p =>
      have hfrags : fragments (.fragment key p :: is) = p :: fragments is :=
        List.filterMap_cons_some rfl
      rw [hfrags, List.flatten_cons, List.length_append, ← Nat.add_assoc] at hadmits
      have hfirst : (binaryFirst opened).getD (if opened then 0x00 else 0x02) = 0x02 := by
        cases opened <;> rfl
      obtain ⟨hmore, hlong⟩ := h.binary_more (dataByte_binary opened).1 (by cases opened <;> decide)
        (by rw [hfirst]; decide) (by rw [hstream, interimWire, List.append_assoc])
        (hadmits.mono (Nat.le_add_right _ _)) rand
      rw [hfirst] at hmore
      have hrest {w₁ : World} (hwaits : w₁.Waits (some 0x02) (body ++ p) tail)
          (hlink : w₁.sws.link = w.sws.link)
          (hstream₁ : w₁.stream = interimWire w.sws.mode 0x02 true is ++ rest) :
          Collects env rand w₁ true (body ++ p) tail is rest := by
        refine ih (show w₁.Waits (binaryFirst true) _ _ from hwaits) ?_ hshort'
          (by rwa [List.length_append])
        rw [hstream₁, mode_of_link hlink]
      refine ⟨fun hshort => ?_, fun hserver ⟨q, hq, hlen⟩ => ?_⟩
      · rw [hfrags] at hshort
        obtain ⟨w₁, hreach, hwaits, hlink, hstream₁, hdelivered⟩ :=
          hmore fun hs => hshort hs p List.mem_cons_self
        obtain ⟨w', hreach', hwaits', hlink', hstream', hdelivered'⟩ :=
          (hrest hwaits hlink hstream₁).short fun hs q hq =>
          hshort ((mode_of_link hlink).symm.trans hs) q (List.mem_cons_of_mem p hq)
        refine ⟨w', hreach.trans hreach', ?_, hlink'.trans hlink, hstream', ?_⟩
        · rw [opens, hfrags, List.flatten_cons, ← List.append_assoc]
          simpa using hwaits'
        · rw [hdelivered', hdelivered]
          rfl
      · by_cases hp : 2 ^ 32 ≤ p.length
        · obtain ⟨w', hreach, hstuck, hlt⟩ := hlong ⟨hserver, hp⟩
          refine ⟨w', hreach, hstuck, ?_⟩
          rw [List.length_append] at hlt
          omega
        · rw [hfrags] at hq
          have hq' : q ∈ fragments is :=
            (List.mem_cons.1 hq).resolve_left fun heq => hp (heq ▸ hlen)
          obtain ⟨w₁, hreach, hwaits, hlink, hstream₁, -⟩ := hmore fun _ => Nat.lt_of_not_le hp
          obtain ⟨w', hreach', hstuck⟩ :=
            (hrest hwaits hlink hstream₁).long ((mode_of_link hlink).trans hserver)
            ⟨q, hq', hlen⟩
          exact ⟨w', hreach.trans hreach', hstuck⟩

/-- The receiving side takes bytes from the stream and adds none. -/
theorem stream_le_of_next {w' : World} (h : w.next env rand = some (.ok w')) :
    w'.stream.length ≤ w.stream.length := by
  unfold World.next at h
  split_ifs at h with hcan hrecv
  · obtain ⟨-, -, r, hr, -⟩ := hcan
    have heq : w.received env rand = .ok w' := Option.some.inj h
    unfold World.received at heq
    rw [Option.mem_def.1 hr] at heq
    obtain ⟨s, -, heq⟩ := bind_eq_ok.1 heq
    obtain ⟨s', -, heq⟩ := bind_eq_ok.1 heq
    cases heq
    simp
  · have heq : w.recv env = .ok w' := Option.some.inj h
    unfold World.recv at heq
    obtain ⟨r, -, heq⟩ := bind_eq_ok.1 heq
    cases heq
    exact le_rfl

/-- Where the receiving side stops, nothing behind has been received. -/
theorem not_reaches_of_stuck {w' w₁ : World} (hreach : Reaches (World.next env rand) w w₁)
    (hstuck : Stuck env rand w₁) (hlt : w'.stream.length < w₁.stream.length) :
    ¬ Reaches (World.next env rand) w w' := by
  intro hreach'
  have hback := hreach.of_stuck hstuck hreach'
  have hle := hback.invariant (P := fun x => x.stream.length ≤ w'.stream.length)
    (fun a b ha hab => (stream_le_of_next hab).trans ha) le_rfl
  omega

/-- The last frame of a binary message. -/
theorem World.Waits.binary_final {opened : Bool} (h : w.Waits (binaryFirst opened) body tail)
    (hstream : w.stream = wireFrame w.sws.mode key (0x80 ||| if opened then 0x00 else 0x02)
      payload ++ rest)
    (hadmits : env.Admits (body.length + payload.length)) (rand : Mask) :
    ((w.sws.mode = .server → payload.length < 2 ^ 32) → ∃ w', Reaches (World.next env rand) w w' ∧
        w'.Waits none [] tail ∧ w'.stream = rest ∧
        w'.delivered = w.delivered ++ [⟨[], wsHdrs env 0x02, body ++ payload⟩]) ∧
      (w.sws.mode = .server ∧ 2 ^ 32 ≤ payload.length → ∃ w', Reaches (World.next env rand) w w' ∧
        Stuck env rand w' ∧ rest.length < w'.stream.length) := by
  obtain ⟨hshort, hlong⟩ := h.binary_last (dataByte_binary opened).2 (by cases opened <;> decide)
    (by cases opened <;> decide) hstream hadmits rand
  refine ⟨fun hlen => ?_, hlong⟩
  obtain ⟨w₂, w', hreach, -, -, hnext, hwaits, -, hstream', -, hdelivered⟩ := hshort hlen
  refine ⟨w', hreach.tail hnext, hwaits, hstream', ?_⟩
  rw [hdelivered,
    show (((binaryFirst opened).getD (0x80 ||| if opened then 0x00 else 0x02) ||| 0x80) &&&
      0x7F : UInt8) = 0x02
    by cases opened <;> decide]

/-- The frames before the last one of a message of the receiving side. -/
theorem World.Waits.collects_message (h : w.Waits none [] tail) (is : List Interim)
    (hstream : w.stream = messageWire w.sws.mode 0x02 is key payload ++ rest)
    (hshort : ∀ i ∈ is, i.Short)
    (hadmits : env.Admits ((fragments is).flatten.length + payload.length)) (rand : Mask) :
    Collects env rand w false [] tail is
      (wireFrame w.sws.mode key (0x80 ||| if opens is then 0x00 else 0x02) payload ++ rest) := by
  rw [messageWire, List.append_assoc] at hstream
  refine World.Waits.collects is (show w.Waits (binaryFirst false) _ _ from h) hstream hshort
    (hadmits.mono ?_) rand
  rw [List.length_nil]
  omega

/-- A binary message in fragments is put together when every payload can be unmasked. -/
theorem World.Waits.reassembled (h : w.Waits none [] tail) (is : List Interim)
    (hstream : w.stream = messageWire w.sws.mode 0x02 is key payload ++ rest)
    (hshort : ∀ i ∈ is, i.Short)
    (hadmits : env.Admits ((fragments is).flatten.length + payload.length)) (rand : Mask)
    (hlens : w.sws.mode = .server → ∀ p ∈ fragments is ++ [payload], p.length < 2 ^ 32) :
    ∃ w', Reaches (World.next env rand) w w' ∧ w'.Waits none [] tail ∧ w'.stream = rest ∧
      w'.delivered = w.delivered ++ is.filterMap (Interim.control env) ++
        [⟨[], wsHdrs env 0x02, (fragments is).flatten ++ payload⟩] := by
  obtain ⟨w₁, hreach₁, hwaits, hlink, hstream₁, hdelivered⟩ :=
    (h.collects_message is hstream hshort hadmits rand).short fun hserver q hq =>
      hlens hserver q (List.mem_append_left _ hq)
  obtain ⟨w', hreach', hwaits', hstream', hdelivered'⟩ :=
    (hwaits.binary_final (by rw [hstream₁, mode_of_link hlink]; rfl) hadmits rand).1 fun hserver =>
      hlens ((mode_of_link hlink).symm.trans hserver) payload (by simp)
  refine ⟨w', hreach₁.trans hreach', hwaits', hstream', ?_⟩
  rw [hdelivered', hdelivered]
  rfl

/-- The receiving side does not get past a payload that cannot be unmasked. -/
theorem World.Waits.reassembled_only (h : w.Waits none [] tail) (is : List Interim)
    (hstream : w.stream = messageWire w.sws.mode 0x02 is key payload ++ rest)
    (hshort : ∀ i ∈ is, i.Short)
    (hadmits : env.Admits ((fragments is).flatten.length + payload.length)) {w' : World}
    (hreach : Reaches (World.next env rand) w w') (hstream' : w'.stream = rest)
    (hserver : w.sws.mode = .server) :
    ∀ p ∈ fragments is ++ [payload], p.length < 2 ^ 32 := by
  have hcollects := h.collects_message is hstream hshort hadmits rand
  intro p hp
  by_contra hlen
  rw [not_lt] at hlen
  by_cases hfrags : ∃ p ∈ fragments is, 2 ^ 32 ≤ p.length
  · obtain ⟨w₁, hreach₁, hstuck, hlt⟩ := hcollects.long hserver hfrags
    rw [List.length_append] at hlt
    exact not_reaches_of_stuck hreach₁ hstuck (by rw [hstream']; omega) hreach
  · have hpayload : p = payload := by
      rcases List.mem_append.1 hp with hp | hp
      · exact absurd ⟨p, hp, hlen⟩ hfrags
      · exact List.mem_singleton.1 hp
    obtain ⟨w₁, hreach₁, hwaits, hlink, hstream₁, -⟩ := hcollects.short fun _ q hq =>
      Nat.lt_of_not_le fun hle => hfrags ⟨q, hq, hle⟩
    obtain ⟨w₂, hreach₂, hstuck, hlt⟩ :=
      (hwaits.binary_final (by rw [hstream₁, mode_of_link hlink]; rfl) hadmits rand).2
      ⟨(mode_of_link hlink).trans hserver, hpayload ▸ hlen⟩
    exact not_reaches_of_stuck (hreach₁.trans hreach₂) hstuck (by rwa [hstream']) hreach

/-- A session between two messages puts a binary message in fragments together, exactly when every
payload can be unmasked; the control frames between the fragments are given to the socket as they
come.  A frame that may not come next ends the connection, and the socket gets nothing more. -/
theorem fragmented_message_iff (env : Env) {mode : Mode} {msgType : UInt8} {as : List Action}
    {w : World} (h : Runs.Trace (World.step env) World.Enabled (World.init mode msgType) as w)
    (hstate : w.sws.state = .active) (hin : w.sws.instate = .recvHdr) (rand : Mask) :
    (∀ (is : List Interim) (key : Mask) (payload rest : List UInt8), inProgress w.headers = false →
      (∀ i ∈ is, i.Short) → env.Admits ((fragments is).flatten.length + payload.length) →
      ((∃ w', Reaches (World.next env rand)
            { w with stream := messageWire w.sws.mode 0x02 is key payload ++ rest } w' ∧
          w'.sws.state = .active ∧ w'.sws.instate = .recvHdr ∧ w'.sws.inmsgArray = [] ∧
            w'.stream = rest ∧
          w'.delivered = w.delivered ++ is.filterMap (Interim.control env) ++
            [⟨[], wsHdrs env 0x02, (fragments is).flatten ++ payload⟩]) ↔
        (w.sws.mode = .server → ∀ p ∈ fragments is ++ [payload], p.length < 2 ^ 32))) ∧
      ∀ b0 b1 rest, w.stream = b0 :: b1 :: rest → OutOfOrder w.headers b0 →
        ∃ w', w.step env (.received rand) = .ok (w', ()) ∧ FailedWith rand 1002 w.sws.taken w'.sws ∧
          ∀ bs w'', Runs.Trace (World.step env) World.Enabled w' bs w'' →
            w''.delivered = w.delivered := by
  refine ⟨fun is key payload rest hno hshort hadmits => ?_, fun b0 b1 rest hstream hbad =>
    out_of_order_fails h hstate hin hstream hbad rand⟩
  have hcont := (flagged_of_run h (by rw [hstate]; trivial)).1
  have hwaits :=
    waits_of_run h hstate hin (hcont.trans hno) (messageWire w.sws.mode 0x02 is key payload ++ rest)
  constructor
  · rintro ⟨w', hreach, -, -, -, hstream, -⟩ hserver
    exact hwaits.reassembled_only is rfl hshort hadmits hreach hstream hserver
  · intro hlens
    obtain ⟨w', hreach, hwaits', hstream, hdelivered⟩ :=
      hwaits.reassembled is rfl hshort hadmits rand hlens
    have harray :=
      (Phase.hdr (inv_active hwaits'.inv hwaits'.state).2 hwaits'.instate).2.2 hwaits'.continuing
    exact ⟨w', hreach, hwaits'.state, hwaits'.instate, harray, hstream, hdelivered⟩

/-- Two fragments with a control frame between them; the second one is empty. -/
def pinged : List Interim := [.fragment noMask [1], .ping noMask [9], .fragment noMask []]

theorem fragmented_message_iff_ping :
    ∃ w w', Runs.Trace (World.step megabyte) World.Enabled (World.init .server 0x02)
      connectedRun w ∧ Reaches (World.next megabyte noMask)
        { w with stream := messageWire w.sws.mode 0x02 pinged noMask [2] ++ [] } w' ∧
      w'.delivered = w.delivered ++ [⟨[], wsHdrs megabyte 0x09, [9]⟩] ++
        [⟨[], wsHdrs megabyte 0x02, [1, 2]⟩] := by
  have htr := Runs.Trace.of_runWhile (connectedRun_returns .server)
  obtain ⟨hiff, -⟩ := fragmented_message_iff megabyte htr (by decide) (by decide) noMask
  obtain ⟨w', hreach, -, -, -, -, hdelivered⟩ :=
    (hiff pinged noMask [2] [] (by decide) (by simp [pinged, Interim.Short])
      (megabyte_admits (by decide))).2
      fun _ p hp => by
        have : p = [1] ∨ p = [] ∨ p = [2] := by simpa [fragments, pinged, Interim.data] using hp
        rcases this with rfl | rfl | rfl <;> decide
  exact ⟨_, w', htr, hreach, hdelivered⟩

/-- No limit on the size of messages. -/
def unlimited : Env := { rcvmaxsize := -1, mem := fun n => n < 2 ^ 40, memory := fun _ => 0 }

theorem unlimited_admits {n : ℕ} (h : n ≤ 2 ^ 33) : unlimited.Admits n := by
  refine ⟨Or.inl (by decide), fun k hk => ⟨by decide, Or.inr ⟨by omega, ?_⟩⟩⟩
  show decide (32 + k < 2 ^ 40) = true
  rw [decide_eq_true_eq]
  omega

theorem connectedRun_returns_unlimited :
    (Runs.runWhile (World.step unlimited) World.Enabled (World.init .server 0x02)
      connectedRun).isSome := by
  decide

/-- A server does not get a message of 2^32 bytes in one frame. -/
theorem message_not_received :
    ¬ ∀ (as : List Action) (w : World) (payload : List UInt8),
      Runs.Trace (World.step unlimited) World.Enabled (World.init .server 0x02) as w →
        w.sws.state = .active →
      w.sws.instate = .recvHdr → inProgress w.headers = false → unlimited.Admits payload.length →
      ∃ w', Reaches (World.next unlimited noMask)
          { w with stream := messageWire w.sws.mode 0x02 [] noMask payload ++ [] } w' ∧
            w'.stream = [] ∧
        w'.delivered = w.delivered ++ [⟨[], wsHdrs unlimited 0x02, payload⟩] := by
  intro h
  have htr := Runs.Trace.of_runWhile connectedRun_returns_unlimited
  obtain ⟨payload, hlen⟩ : ∃ l : List UInt8, l.length = 2 ^ 32 :=
    ⟨_, List.length_replicate (n := 2 ^ 32) (a := 0)⟩
  have hadmits : unlimited.Admits payload.length := by
    rw [hlen]
    exact unlimited_admits (by decide)
  obtain ⟨w', hreach, hstream, -⟩ := h connectedRun _ payload htr (by decide) (by decide)
    (by decide) hadmits
  have hwaits := waits_of_run htr (by decide) (by decide) (by decide)
    (messageWire .server 0x02 [] noMask payload ++ [])
  have hlt := hwaits.reassembled_only [] rfl nofun (by simpa [fragments] using hadmits) hreach
    hstream rfl payload
    (by simp [fragments])
  omega

end NanoSocket.Ws

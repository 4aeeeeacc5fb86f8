import NanoSocket.Ws.SwsFrames

/-!
# Which frame may come next (`transports/ws/sws.c`)

The flag `continuing` of a session tells whether a message is in progress.  Here it is compared with
the first bytes of the frames that were received so far: a message is in progress when the last data
frame was not a final one.  A frame that does not fit in ends the connection (`out_of_order_fails`).
-/

namespace NanoSocket.Ws

/-- A message is in progress after frames with these first bytes. -/
def inProgress (headers : List UInt8) : Bool :=
  headers.foldl (fun o b0 => if (opcodeOf b0).isControl then o else !isFin b0) false

theorem inProgress_concat (headers : List UInt8) (b0 : UInt8) :
    inProgress (headers ++ [b0]) = if (opcodeOf b0).isControl then inProgress headers
      else !isFin b0 := by
  unfold inProgress
  rw [List.foldl_append]
  rfl

/-! ### What the handling of a receive leaves alone -/

variable {env : Env} {w : World} {s t : Sws} {rand : Mask}

/-- The session has not come to its end. -/
def SwsState.Live : SwsState → Prop
  | .handshake | .stoppingHandshake | .active => True
  | .closingConnection | .brokenConnection | .done => False

/-- If the session goes on, the flag is as in `t`, and a message that is complete is not in
progress. -/
def Steady (t s : Sws) : Prop :=
  s.state.Live → s.continuing = t.continuing ∧ (s.instate = .recvdChunked → t.continuing = false)

/-- The call leaves the flag alone, if it returns. -/
def Calm (t : Sws) (x : Except Fault Sws) : Prop := Ends (fun _ => True) (Steady t) x

theorem Calm.assert {x : Prop} [Decidable x] {f : Unit → Except Fault Sws} (h : Calm t (f ())) :
    Calm t (nnAssert x >>= f) :=
  Ends.assert (Or.inr trivial) fun _ => h

theorem Calm.bind {α : Type} {x : Except Fault α} {f : α → Except Fault Sws}
    (h : ∀ a, Calm t (f a)) :
    Calm t (x >>= f) :=
  Ends.bind (Ends.any x) fun a _ => h a

theorem fail_calm (code : ℕ) (reason : String) : Calm t (nnSwsFailConn rand s code reason) := by
  unfold nnSwsFailConn
  refine Calm.assert (Calm.bind fun msg => ?_)
  split_ifs
  · trivial
  · exact Calm.bind fun u h => by cases h
  · trivial
  · exact fun h => by cases h

theorem recvHdr_calm (h : s.continuing = t.continuing) : Calm t (nnSwsRecvHdr s) := by
  unfold nnSwsRecvHdr
  split_ifs
  · rw [pure_eq_ok, ok_bind]
    exact Calm.bind fun u _ => ⟨h, by rintro ⟨⟩⟩
  · refine Calm.assert ?_
    rw [pure_eq_ok, ok_bind]
    exact Calm.bind fun u _ => ⟨h, by rintro ⟨⟩⟩

theorem recvd_calm {i : SwsInstate} (h : s.continuing = t.continuing)
    (hi : i = .recvdChunked → t.continuing = false) : Calm t (s.recvd i) := by
  unfold Sws.recvd
  exact Calm.bind fun p _ => ⟨h, hi⟩

theorem chunkDone_calm (h : s.continuing = t.continuing)
    (hfin : s.isFinalFrame = true → t.continuing = false) :
    Calm t s.chunkDone := by
  unfold Sws.chunkDone
  split_ifs with hf
  · exact recvd_calm h fun _ => hfin hf
  · exact recvHdr_calm h

theorem validateRest_calm (h : s.continuing = t.continuing)
    (hfin : s.isFinalFrame = true → t.continuing = false) (bytes : List UInt8) :
    Calm t (s.validateRest rand bytes) := by
  unfold Sws.validateRest
  refine Calm.assert (Calm.bind fun r => ?_)
  cases r with
  | invalid => exact fail_calm _ _
  | fragment rest =>
    refine Calm.assert ?_
    dsimp only
    split_ifs
    · exact fail_calm _ _
    · exact recvHdr_calm h
  | wellFormed => exact chunkDone_calm (s := { s with utf8CodePtFragment := [] }) h hfin

theorem validate_calm (h : s.continuing = t.continuing)
    (hfin : s.isFinalFrame = true → t.continuing = false) :
    Calm t (nnSwsValidateUtf8Chunk rand s) := by
  unfold nnSwsValidateUtf8Chunk
  refine Calm.bind fun chunk => ?_
  split_ifs
  · exact validateRest_calm h hfin _
  refine Calm.assert ?_
  cases chunk with
  | nil => exact validateRest_calm h hfin _
  | cons b bytes =>
    dsimp only
    split
    · exact validateRest_calm (s := { s with utf8CodePtFragment := s.utf8CodePtFragment ++ [b] }) h
        hfin _
    · exact fail_calm _ _
    · split_ifs
      · exact fail_calm _ _
      · exact recvHdr_calm h

theorem acknowledge_calm : Calm t (nnSwsAcknowledgeCloseHandshake rand s) := by
  unfold nnSwsAcknowledgeCloseHandshake
  split_ifs
  · exact fail_calm _ _
  refine Calm.assert (Calm.bind fun chunk => Calm.bind fun r => ?_)
  split
  · dsimp only
    split_ifs
    · exact fail_calm _ _
    · exact fail_calm _ _
  · exact fail_calm _ _

theorem recvPayload_calm (h : s.continuing = t.continuing) (toobig : String) :
    Calm t (s.recvPayload env rand toobig) := by
  unfold Sws.recvPayload
  split_ifs
  · exact Calm.bind fun u _ => ⟨h, by rintro ⟨⟩⟩
  · dsimp only
    split_ifs
    · exact fail_calm _ _
    · exact Calm.assert (Calm.bind fun u _ => ⟨h, by rintro ⟨⟩⟩)

theorem recvRest_calm (h : s.continuing = t.continuing) : Calm t (s.recvRest env rand) := by
  unfold Sws.recvRest
  split_ifs
  · exact Calm.assert (Calm.assert (recvPayload_calm (by exact h) _))
  · exact Calm.bind fun u _ => ⟨h, by rintro ⟨⟩⟩

theorem proceed_calm (s : Sws) : Calm s (s.proceed env rand) := by
  unfold Sws.proceed
  split
  · split_ifs
    · exact recvd_calm rfl nofun
    · exact recvRest_calm rfl
  · split_ifs
    · exact recvd_calm rfl nofun
    · exact recvRest_calm rfl
  · split_ifs
    · exact acknowledge_calm
    · exact recvRest_calm rfl
  · unfold Sws.dataFrame
    split_ifs
    · refine Calm.assert ?_
      dsimp only
      split_ifs with hc
      · exact recvHdr_calm rfl
      · exact recvd_calm rfl fun _ => by simpa using hc
    · exact recvRest_calm rfl

theorem recvdHdrext_calm (hext : s.extHdrLen > 0)
    (hfin : s.isFinalFrame = true → s.isControlFrame = false → s.continuing = false) :
    Calm s (s.recvdHdrext env rand) := by
  rw [recvdHdrext_eq rand hext]
  generalize (if s.masked then some s.maskPos else none) = off
  dsimp only
  split_ifs with hz hf hclose hc
  · exact acknowledge_calm
  · exact recvd_calm rfl nofun
  · exact recvd_calm rfl fun _ => hfin hf (by simpa using hc)
  · exact recvHdr_calm rfl
  · exact recvPayload_calm rfl _

theorem payloadDone_calm (hfin : s.isFinalFrame = true → s.isControlFrame = false →
    s.continuing = false)
    (hcontrol : s.isControlFrame = s.opcode.isControl) : Calm s (s.payloadDone rand) := by
  have hdata (hop : s.opcode.isControl = false) (hf : s.isFinalFrame = true) :
      s.continuing = false :=
    hfin hf (hcontrol.trans hop)
  unfold Sws.payloadDone
  split <;> rename_i hop
  · exact validate_calm rfl (hdata (by rw [hop]; rfl))
  · exact chunkDone_calm rfl (hdata (by rw [hop]; rfl))
  · split_ifs
    · exact validate_calm rfl (hdata (by rw [hop]; rfl))
    · exact chunkDone_calm rfl (hdata (by rw [hop]; rfl))
  · exact recvd_calm rfl nofun
  · exact recvd_calm rfl nofun
  · exact acknowledge_calm
  · trivial

/-! ### Runs -/

/-- The flag is what the frames so far say, and no message is in progress when one is complete. -/
def World.Flagged (w : World) : Prop :=
  w.sws.state.Live →
    w.sws.continuing = inProgress w.headers ∧
      (w.sws.instate = .recvdChunked → w.sws.continuing = false)

theorem Steady.flagged (h : Steady t s) {headers : List UInt8}
    (ht : t.continuing = inProgress headers) (rest : List UInt8) (msgs : List Msg) :
    World.Flagged { sws := s, stream := rest, delivered := msgs, headers } := by
  intro hactive
  obtain ⟨hcont, hchunked⟩ := h hactive
  exact ⟨hcont.trans ht, fun hin => hcont.trans (hchunked hin)⟩

theorem Framed.continuing (hf : s.Framed) (hfin : s.isFinalFrame = true)
    (hdata : s.isControlFrame = false) :
    s.continuing = false := by
  rw [(hf.data hdata).1, hfin]
  rfl

theorem FailedWith.not_live {s' : Sws} {code : ℕ} (h : FailedWith rand code s s') :
    ¬ s'.state.Live := by
  by_cases hout : s.outstate = .idle
  · rw [(h.sent hout).1]
    exact id
  · rw [(h.pending hout).1]
    exact id

/-- What a receive does to the flag. -/
theorem received_flagged (hw : w.sws.Inv) (hcan : w.CanReceive) (hflag : w.Flagged) :
    Ends (fun _ => True) World.Flagged (w.received env rand) := by
  obtain ⟨hstate, hb, hp⟩ := CanReceive.active hw hcan
  have hcont := (hflag (by rw [hstate]; trivial)).1
  rcases CanReceive.cases hw hcan with ⟨hin, b0, b1, rest, hstream⟩ | ⟨hin, hlen⟩ | ⟨hin, hlen⟩
  · rw [received_hdr hstate hb hp hin hstream]
    by_cases hm : Malformed w.sws.mode w.sws.continuing b0 b1
    · obtain ⟨s', hs', hfail⟩ :=
        recvdHdr_malformed (s := w.sws.headed b0 b1) env hstate hb.usock rand hm
      rw [hs', ok_bind]
      exact fun hlive => absurd hlive hfail.not_live
    · rw [recvdHdr_eq rand hm]
      refine Ends.bind (proceed_calm _) fun s' hs' => hs'.flagged ?_ _ _
      rw [inProgress_concat, ← hcont]
      rfl
  · obtain ⟨-, -, hf, -, hpos⟩ := Phase.ext hp hin
    rw [received_ext hstate hb hp hin hlen]
    refine Ends.bind (recvdHdrext_calm hpos fun hfin hdata => ?_) fun s' hs' =>
      hs'.flagged hcont _ _
    exact Framed.continuing (s := w.sws) hf hfin hdata
  · obtain ⟨-, hpipe, hf, hwait⟩ := Phase.payload hp hin
    have htake :
        (w.stream.take w.sws.inmsgCurrentChunkLen).length = w.sws.taken.inmsgCurrentChunkLen := by
      rw [List.length_take]
      exact Nat.min_eq_left hlen
    obtain ⟨s, hfill, heq⟩ := received_payload env hstate hb hp hin hlen rand
    have hf' := hfill.framed hf.taken
    have hcont' : s.continuing = inProgress w.headers := by
      obtain ⟨a, c, rfl, -⟩ := hfill
      exact hcont
    rw [heq]
    refine Ends.bind (P := Steady s) ?_ fun s' hs' => hs'.flagged hcont' _ _
    by_cases hlong : s.masked = true ∧ 2 ^ 32 ≤ (w.stream.take w.sws.inmsgCurrentChunkLen).length
    · rw [recvdPayload_long (hfill.waiting hwait.taken htake) rand (hfill.load hwait.taken htake)
        hlong.1 hlong.2]
      trivial
    · obtain ⟨s₁, hfill₁, heq₁⟩ :=
        recvdPayload_eq (hfill.busy ⟨hstate, hb.taken, rfl, hpipe⟩ hwait.taken htake).base
        (hfill.waiting hwait.taken htake) rand (hfill.load hwait.taken htake)
        (by rw [htake]; obtain ⟨a, c, rfl, -⟩ := hfill; rfl)
        fun hm => Nat.lt_of_not_le fun hle => hlong ⟨hm, hle⟩
      have hf₁ := hfill₁.framed hf'
      have hcont₁ : s₁.continuing = s.continuing := by
        obtain ⟨a, c, rfl, -⟩ := hfill₁
        rfl
      rw [heq₁]
      refine Ends.mono
        (payloadDone_calm (fun hfin hdata => Framed.continuing hf₁ hfin hdata) hf₁.isControl) ?_
      intro s' hs' hactive
      rw [← hcont₁]
      exact hs' hactive

/-- What a call of `nn_pipe_recv` does to the flag. -/
theorem recv_flagged (hw : w.sws.Inv) (hen : w.Enabled .recv) (hflag : w.Flagged) :
    Ends (fun _ => True) World.Flagged (w.recv env) := by
  obtain ⟨hstate, hb, hp⟩ := active_of_pipe hw hen.1
  obtain ⟨hcont, hchunked⟩ := hflag (by rw [hstate]; trivial)
  unfold World.recv
  rcases phase_of_idle hp hen.2 with hin | hin
  · rw [pipeRecv_chunked hstate hb hp hin]
    refine Ends.bind (P := fun r : Msg × Sws => r.2 = w.sws.emptied) ?_ ?_
    · refine Ends.assert (Or.inr trivial) fun _ => Ends.bind (Ends.any _) fun body _ => ?_
      exact Ends.assert (Or.inr trivial) fun _ => rfl
    · rintro ⟨msg, s⟩ rfl _
      exact ⟨(hchunked hin).symm.trans hcont, nofun⟩
  · rw [pipeRecv_control hstate hb hp hin]
    refine Ends.bind (P := fun r : Msg × Sws => r.2 = w.sws.relayed)
      (Ends.assert (Or.inr trivial) fun _ => rfl) ?_
    rintro ⟨msg, s⟩ rfl _
    exact ⟨hcont, nofun⟩

/-- What a call of `nn_pipe_send` does to the flag. -/
theorem send_flagged (msg : Msg) (hflag : w.Flagged) :
    Ends (fun _ => True) (fun s => World.Flagged { w with sws := s })
      (w.sws.pipeSend msg rand) := by
  have hsame {s : Sws}
      (h : (s.state, s.continuing, s.instate) = (w.sws.state, w.sws.continuing, w.sws.instate)) :
      World.Flagged { w with sws := s } := by
    simp only [Prod.mk.injEq] at h
    obtain ⟨h1, h2, h3⟩ := h
    unfold World.Flagged at hflag ⊢
    dsimp only
    rw [h1, h2, h3]
    exact hflag
  unfold Sws.pipeSend nnSwsSend
  refine Ends.assert (Or.inr trivial) fun _ => ?_
  simp only [bind_assoc]
  refine Ends.assert (Or.inr trivial) fun _ => Ends.assert (Or.inr trivial) fun _ => ?_
  refine Ends.bind (Ends.any _) fun cmsg _ => ?_
  split
  · simp only [bind_assoc, pure_bind]
    refine Ends.bind (Ends.any _) fun r _ => Ends.bind (Ends.any _) fun r' _ =>
      Ends.bind (Ends.any _) fun u _ => ?_
    exact Ends.assert (Or.inr trivial) fun _ => hsame rfl
  · simp only [bind_assoc, pure_bind]
    refine Ends.bind (Ends.any _) fun u _ => ?_
    exact Ends.assert (Or.inr trivial) fun _ => hsame rfl

/-- What one action does to the flag. -/
theorem step_flagged (hw : w.sws.Inv) {a : Action} (hen : w.Enabled a) (hflag : w.Flagged) :
    Ends (fun _ => True) (fun r => r.1.Flagged) (w.step env a) := by
  have hfeed {ev : SwsEvent} {s : Sws}
      (h : Ends (fun _ => True) (fun s => World.Flagged { w with sws := s })
        (nnSwsHandler env (Vector.replicate 4 0) s ev)) :
      Ends (fun _ => True) (fun r : World × Unit => r.1.Flagged)
        ((nnSwsHandler env (Vector.replicate 4 0) s ev >>= fun sws => pure { w with sws }) >>=
          fun w => pure (w, ())) := by
    rw [bind_assoc]
    exact Ends.bind h fun s' hk => hk
  unfold World.step
  cases a with
  | handshakeOk =>
    apply hfeed
    unfold nnSwsHandler
    have hst : w.sws.state = .handshake := hen
    rw [hst]
    exact fun _ => hflag (by rw [hst]; trivial)
  | handshakeError =>
    apply hfeed
    unfold nnSwsHandler
    rw [show w.sws.state = .handshake from hen]
    exact nofun
  | handshakeStopped added =>
    apply hfeed
    have hst : w.sws.state = .stoppingHandshake := hen
    have hs := start_of_handshake hw (Or.inr hst)
    have hcont := (hflag (by rw [hst]; trivial)).1
    rw [hst] at hs
    rw [hs] at hcont ⊢
    cases added with
    | false => exact nofun
    | true => exact fun _ => ⟨hcont, nofun⟩
  | arrive bytes => exact hflag
  | flush => exact hflag
  | reset => exact hflag
  | received rand => exact Ends.bind (received_flagged hw hen hflag) fun w' h => h
  | sent =>
    apply hfeed
    unfold nnSwsHandler
    dsimp only
    cases hst : w.sws.state <;> dsimp only
    case active =>
      refine Ends.assert (Or.inr trivial) fun _ => Ends.bind (Ends.any _) fun p _ => fun _ => ?_
      exact hflag (by rw [hst]; trivial)
    case closingConnection => exact Ends.assert (Or.inr trivial) fun _ => nofun
    all_goals trivial
  | shutdown =>
    apply hfeed
    unfold nnSwsHandler
    dsimp only
    cases hst : w.sws.state <;> dsimp only
    case active | closingConnection => exact nofun
    all_goals trivial
  | error =>
    apply hfeed
    unfold nnSwsHandler
    dsimp only
    cases hst : w.sws.state <;> dsimp only
    case active | closingConnection | brokenConnection => exact nofun
    all_goals trivial
  | recv => exact Ends.bind (recv_flagged hw hen hflag) fun w' h => h
  | send msg rand =>
    have hsend : Ends (fun _ => True) (fun s => World.Flagged { w with sws := s })
        (w.sws.pipeSend msg rand) :=
      send_flagged msg hflag
    dsimp only
    exact Ends.bind hsend fun s' hk => hk

section Traces

variable {mode : Mode} {msgType : UInt8} {as : List Action}

/-- The invariant holds in every state that a run reaches. -/
theorem inv_of_run (h : Runs.Trace (World.step env) World.Enabled (World.init mode msgType) as w) :
    w.sws.Inv :=
  inv_of_trace (P := fun _ _ => True) (h.mono fun _ _ hen => ⟨hen, trivial⟩)

/-- The flag is right in every state that a run reaches. -/
theorem flagged_of_run
    (h : Runs.Trace (World.step env) World.Enabled (World.init mode msgType) as w) : w.Flagged := by
  suffices hI : w.sws.Inv ∧ w.Flagged from hI.2
  refine h.invariant (I := fun _ w => w.sws.Inv ∧ w.Flagged) ⟨init_inv mode msgType,
    fun _ => ⟨rfl, nofun⟩⟩ ?_
  intro as w a w' _ ⟨hw, hflag⟩ hen heq
  have hends : Ends (fun _ => True) (fun r => r.1.Flagged) (w.step env a) :=
    step_flagged hw hen hflag
  rw [heq] at hends
  exact ⟨(step_grown hw hen heq).1, hends⟩

theorem handler_not_live {ev : SwsEvent} {s' : Sws} (hs : ¬ s.state.Live)
    (h : nnSwsHandler env rand s ev = .ok s') :
    ¬ s'.state.Live := by
  unfold nnSwsHandler at h
  cases hst : s.state <;> rw [hst] at hs h <;> cases ev
  case closingConnection.sent =>
    obtain ⟨-, -, h⟩ := bind_eq_ok.1 h
    cases h
    exact id
  case closingConnection.shutdown =>
    cases h
    rwa [hst]
  case closingConnection.error | brokenConnection.error =>
    cases h
    exact id
  case handshake.handshakeOk | handshake.handshakeError |
    stoppingHandshake.handshakeStopped | active.sent
    | active.received | active.shutdown | active.error => exact absurd trivial hs
  all_goals cases h

/-- The flag stays right while the receiving side goes on. -/
theorem flagged_of_reaches {w' : World} (hw : w.sws.Inv) (hflag : w.Flagged)
    (h : Runs.Reaches (World.next env rand) w w') : w'.Flagged := by
  refine (h.invariant (P := fun w => w.sws.Inv ∧ w.Flagged) ?_ ⟨hw, hflag⟩).2
  rintro w₁ w₂ ⟨hinv, hflag₁⟩ hnext
  unfold World.next at hnext
  split_ifs at hnext with hcan hrecv
  · have heq : w₁.received env rand = .ok w₂ := Option.some.inj hnext
    have hends : Ends (fun _ => True) World.Flagged (w₁.received env rand) :=
      received_flagged hinv hcan hflag₁
    rw [heq] at hends
    exact ⟨received_inv hinv hcan heq, hends⟩
  · have heq : w₁.recv env = .ok w₂ := Option.some.inj hnext
    have hends : Ends (fun _ => True) World.Flagged (w₁.recv env) := recv_flagged hinv hrecv hflag₁
    rw [heq] at hends
    refine ⟨?_, hends⟩
    have hkept : Ends (fun _ => True) (fun r => Kept w₁.sws r.2) (w₁.sws.pipeRecv env) :=
      pipeRecv_ends hinv hrecv.1 hrecv.2 (Or.inr trivial) (Or.inr trivial)
    unfold World.recv at heq
    obtain ⟨r, hr, heq⟩ := bind_eq_ok.1 heq
    cases heq
    rw [hr] at hkept
    exact hkept.1

/-- A session that came to its end stays there, and the socket gets nothing more from it. -/
theorem delivered_of_ended {w' : World} (hw : w.sws.Inv) (hended : ¬ w.sws.state.Live)
    (h : Runs.Trace (World.step env) World.Enabled w as w') : w'.delivered = w.delivered := by
  suffices hI : w'.sws.Inv ∧ ¬ w'.sws.state.Live ∧ w'.delivered = w.delivered from hI.2.2
  refine h.invariant (I := fun _ w' => w'.sws.Inv ∧ ¬ w'.sws.state.Live ∧
    w'.delivered = w.delivered)
    ⟨hw, hended, rfl⟩ ?_
  intro as w₁ a w₂ _ ⟨hinv, hlive, hdelivered⟩ hen heq
  refine ⟨(step_grown hinv hen heq).1, ?_⟩
  have hfeed {ev : SwsEvent} {s : Sws} (hs : ¬ s.state.Live)
      (heq : ((nnSwsHandler env (Vector.replicate 4 0) s ev >>= fun sws => pure { w₁ with sws }) >>=
        fun w => pure (w, ())) = .ok (w₂, ())) : ¬ w₂.sws.state.Live ∧
          w₂.delivered = w.delivered := by
    obtain ⟨w₃, hw₃, heq⟩ := bind_eq_ok.1 heq
    obtain ⟨s', hs', hw₃⟩ := bind_eq_ok.1 hw₃
    cases hw₃
    cases heq
    exact ⟨handler_not_live hs hs', hdelivered⟩
  cases a with
  | handshakeOk | handshakeError | handshakeStopped added =>
    refine absurd ?_ hlive
    rw [show w₁.sws.state = _ from hen]
    trivial
  | arrive bytes | flush | reset =>
    cases heq
    exact ⟨hlive, hdelivered⟩
  | received rand =>
    refine absurd ?_ hlive
    rw [(CanReceive.active hinv hen).1]
    trivial
  | sent => exact hfeed (by exact hlive) heq
  | shutdown => exact hfeed (by exact hlive) heq
  | error => exact hfeed (by exact hlive) heq
  | recv | send msg rand =>
    refine absurd ?_ hlive
    rw [(active_of_pipe hinv hen.1).1]
    trivial

/-- The first byte of a frame that may not come next: a continuation without a message in progress,
or the first frame of a message inside another one. -/
def OutOfOrder (headers : List UInt8) (b0 : UInt8) : Prop :=
  opcodeOf b0 = .fragment ∧ inProgress headers = false ∨
    (opcodeOf b0 = .binary ∨ opcodeOf b0 = .text) ∧ inProgress headers = true

/-- A frame that may not come next ends the connection, and the socket gets nothing more. -/
theorem out_of_order_fails
    (h : Runs.Trace (World.step env) World.Enabled (World.init mode msgType) as w)
    (hstate : w.sws.state = .active) (hin : w.sws.instate = .recvHdr) {b0 b1 : UInt8}
    {rest : List UInt8} (hstream : w.stream = b0 :: b1 :: rest)
    (hbad : OutOfOrder w.headers b0) (rand : Mask) :
    ∃ w', w.step env (.received rand) = .ok (w', ()) ∧ FailedWith rand 1002 w.sws.taken w'.sws ∧
      ∀ bs w'', Runs.Trace (World.step env) World.Enabled w' bs w'' →
        w''.delivered = w.delivered := by
  have hinv := inv_of_run h
  have hcont := (flagged_of_run h (by rw [hstate]; trivial)).1
  have hm : Malformed w.sws.mode w.sws.continuing b0 b1 := by
    rw [hcont]
    refine Or.inr (Or.inr ?_)
    rcases hbad with ⟨hop, hno⟩ | ⟨hop | hop, hyes⟩ <;> rw [hop]
    · exact hno
    · exact hyes
    · exact hyes
  obtain ⟨w', heq, hfail, hdelivered⟩ := received_malformed env hinv hstate hin hstream hm rand
  have hcan : w.Enabled (.received rand) :=
    canReceive_of hinv hstate (Phase.hdr (inv_active hinv hstate).2 hin).1 (by
    rw [hstream]
    simp)
  have hstep : w.step env (.received rand) = .ok (w', ()) := by
    rw [step_received, heq]
    rfl
  refine ⟨w', hstep, hfail, fun bs w'' htr => ?_⟩
  rw [delivered_of_ended (step_grown hinv hcan hstep).1 hfail.not_live htr, hdelivered]

end Traces

end NanoSocket.Ws

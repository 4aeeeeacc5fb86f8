import NanoSocket.Ws.HandshakeReply
import NanoSocket.Ws.HandshakeRuns

/-!
# The handshake of a server

A server receives 151 bytes, which no opening can do without, and then as many bytes at a time as
may be missing in the empty line at the end.  `ServerFine` says of the text after a receive that the
server goes on from there, by asking for more or with a reply, and `server_returns_iff` that a
client can make the process fail exactly when it is violated at some receive.
-/

namespace NanoSocket.Ws

/-- After the text `c` the server goes on: it replies to an opening, or it asks for more and has
room for it. -/
def ServerFine (c : List UInt8) : Prop :=
  if Incomplete c then c.length < 4096 ∧ ¬ termseq <:+ c ∧
    c.length + (4 - Search.border termseq c 4) ≤ 4096
  else (0 ∈ c ∨ c.length < 4096) ∧ ∃ uri lines tail, IsOpening (cstring c) uri lines tail ∧
    ReplyFits lines tail

section Received

variable (sock : Socktype) {hs : Handshake} {c : List UInt8}

theorem parse_of_incomplete (hbuf : hs.openingHs = c) (hnul : 0 ∈ c ∨ c.length < 4096)
    (h : Incomplete c) :
    nnWsHandshakeParseClientOpening sock hs = .ok (.recvMore, hs) := by
  unfold nnWsHandshakeParseClientOpening
  rw [hbuf, nnAssert_of hnul, ok_bind]
  dsimp only
  rw [if_pos (Search.cut_eq_none.2 h)]
  rfl

theorem parse_of_complete (hbuf : hs.openingHs = c) (hnul : 0 ∈ c ∨ c.length < 4096)
    (h : ¬ Incomplete c) :
    nnWsHandshakeParseClientOpening sock hs = parseOpening sock (cstring c) >>= fun r =>
      .ok (if r.2 = .ok then .valid else .invalid,
        { hs with opening := some r.1, responseCode := some r.2 }) := by
  unfold nnWsHandshakeParseClientOpening
  rw [hbuf, nnAssert_of hnul, ok_bind]
  dsimp only
  rw [if_neg fun hcut => h (Search.cut_eq_none.1 hcut)]
  rfl

theorem serverReceived_of_parse {verdict : Verdict} {hs' : Handshake}
    (hverdict : verdict ≠ .recvMore)
    (h : nnWsHandshakeParseClientOpening sock hs = .ok (verdict, hs')) :
    hs.serverReceived sock = nnWsHandshakeServerReply { hs' with state := .serverReply } := by
  unfold Handshake.serverReceived
  rw [h, ok_bind]
  cases verdict with
  | recvMore => exact absurd rfl hverdict
  | valid => rfl
  | invalid => rfl

/-- An opening is answered. -/
theorem serverReceived_complete (hbuf : hs.openingHs = c) (hnul : 0 ∈ c ∨ c.length < 4096)
    (h : ¬ Incomplete c) {uri : List UInt8} {lines : List (List UInt8)} {tail : List UInt8}
    (hopening : IsOpening (cstring c) uri lines tail) (hfits : ReplyFits lines tail) :
    ∃ o text, hs.serverReceived sock = .ok { hs with
        state := .serverReply, opening := some o, responseCode :=
      some (judge sock lines tail), response := text,
        usock := hs.usock.send text } ∧
          parseOpening sock (cstring c) = .ok (o, judge sock lines tail) ∧
      replyText (some (judge sock lines tail)) (some o) = .ok text := by
  obtain ⟨o, hparse, hstored⟩ := parseOpening_eq sock hopening
  obtain ⟨text, htext, hlen⟩ := @replyText_stored sock _ _ _ hstored
  refine ⟨o, text, ?_, hparse, htext⟩
  have heq := parse_of_complete sock hbuf hnul h
  rw [hparse, ok_bind] at heq
  rw [serverReceived_of_parse sock (by dsimp only; split_ifs <;> decide) heq]
  unfold nnWsHandshakeServerReply
  dsimp only
  rw [htext, ok_bind, if_neg (Nat.not_le.2 (hlen.2 hfits))]
  rfl

/-- More bytes are asked for. -/
theorem serverReceived_incomplete (hbuf : hs.openingHs = c)
    (hlen : hs.recvPos + hs.recvLen = c.length) (h4 : 4 ≤ c.length) (h : Incomplete c)
    (hlt : c.length < 4096) (hsuf : ¬ termseq <:+ c)
    (hroom : c.length + (4 - Search.border termseq c 4) ≤ 4096) :
    hs.serverReceived sock = .ok { hs with
      recvPos := c.length, recvLen := 4 - Search.border termseq c 4
      usock := hs.usock.receive (4 - Search.border termseq c 4) } := by
  have hborder : Search.border termseq c 4 < 4 := Search.border_lt hsuf
  unfold Handshake.serverReceived
  rw [parse_of_incomplete sock hbuf (Or.inr hlt) h, ok_bind]
  dsimp only
  unfold Handshake.recvMore
  dsimp only
  rw [hbuf, hlen, List.take_length, nnAssert_of hlt, ok_bind, nnAssert_of h4, ok_bind,
    nnAssert_of hborder, ok_bind, if_neg (by omega)]
  rfl

/-- Everything else makes the process fail. -/
theorem fine_of_serverReceived (hbuf : hs.openingHs = c) (hlen : hs.recvPos + hs.recvLen = c.length)
    (hopening : hs.opening = none) {hs' : Handshake} (heq : hs.serverReceived sock = .ok hs') :
    ServerFine c := by
  have hnul : 0 ∈ c ∨ c.length < 4096 := by
    by_contra hno
    unfold Handshake.serverReceived nnWsHandshakeParseClientOpening at heq
    rw [hbuf, nnAssert_of_not hno] at heq
    cases heq
  unfold ServerFine
  split_ifs with h
  · unfold Handshake.serverReceived at heq
    rw [parse_of_incomplete sock hbuf hnul h, ok_bind] at heq
    dsimp only at heq
    unfold Handshake.recvMore at heq
    dsimp only at heq
    rw [hbuf, hlen, List.take_length] at heq
    obtain ⟨_, hlt, heq⟩ := bind_eq_ok.1 heq
    obtain ⟨_, -, heq⟩ := bind_eq_ok.1 heq
    obtain ⟨_, hborder, heq⟩ := bind_eq_ok.1 heq
    refine ⟨?_, fun hsuf => ?_, ?_⟩
    · by_contra hno
      rw [nnAssert_of_not hno] at hlt
      cases hlt
    · have hle : 4 ≤ Search.border termseq c 4 := Search.le_border le_rfl hsuf
      rw [nnAssert_of_not (Nat.not_lt.2 hle)] at hborder
      cases hborder
    · by_contra hno
      rw [if_pos (by omega)] at heq
      unfold nnWsHandshakeServerReply at heq
      rw [hopening] at heq
      cases heq
  · refine ⟨hnul, ?_⟩
    have hparse := parse_of_complete sock hbuf hnul h
    cases hres : parseOpening sock (cstring c) with
    | error f =>
      unfold Handshake.serverReceived at heq
      rw [hparse, hres] at heq
      cases heq
    | ok r =>
      rw [hres, ok_bind] at hparse
      rw [serverReceived_of_parse sock (by split_ifs <;> decide) hparse] at heq
      unfold nnWsHandshakeServerReply at heq
      obtain ⟨text, htext, heq⟩ := bind_eq_ok.1 heq
      by_contra hno
      push Not at hno
      by_cases hex : ∃ uri lines tail, IsOpening (cstring c) uri lines tail
      · obtain ⟨uri, lines, tail, hopening⟩ := hex
        obtain ⟨o, hparse', hstored⟩ := parseOpening_eq sock hopening
        rw [hres] at hparse'
        cases hparse'
        obtain ⟨text', htext', hfits⟩ := @replyText_stored sock _ _ _ hstored
        rw [htext] at htext'
        cases htext'
        rw [if_pos (Nat.not_lt.1 fun hlt => hno uri lines tail hopening (hfits.1 hlt))] at heq
        cases heq
      · push Not at hex
        rw [parseOpening_malformed hex hres] at htext
        cases htext

end Received

/-! ### Runs -/

/-- The server waits for the bytes `p, …, p + n - 1`. -/
abbrev ServerReceives : List UInt8 → ℕ → ℕ → HsWorld → Prop := Receives .server 151 Incomplete

/-- A server that has just been started. -/
def serverStart : Handshake :=
  { state := .serverRecv, mode := .server
    timer := { Timer.init with fsm := .active, state := .active, timeout := 5000,
                               tasks := [.start] }
    usock := { state := .active, recv := some 151, sending := false, sent := [] }
    openingHs := [], recvPos := 0, recvLen := 151, opening := none, reply :=
      none, expectedAcceptKey := []
    responseCode := none, response := [], done := none }

/-- The state in which the runs of a server begin is the one that `nn_ws_handshake_start` leaves. -/
theorem nnWsHandshakeStart_server (sock : Socktype) (resource remoteHost : List UInt8)
    (rand : Vector UInt8 16) :
    nnWsHandshakeStart sock .server resource remoteHost rand = .ok serverStart := by
  have hlen : (ascii shortestOpening).length = 151 :=
    calc (ascii shortestOpening).length = _ := congrArg List.length (ascii_append _ _)
      _ = _ := List.length_append
      _ = _ := congrArg₂ (· + ·) (length_ascii _) (length_ascii _)
      _ = 151 := by decide
  unfold nnWsHandshakeStart
  dsimp only
  rw [hlen]
  rfl

/-- The bytes of a receive were an opening, which was answered. -/
def Answered (sock : Socktype) (s : List UInt8) (hs : Handshake) : Prop :=
  ∃ p n uri lines tail o, Asks 151 Incomplete s p n ∧ p + n ≤ s.length ∧
    ¬ Incomplete (s.take (p + n)) ∧
    hs.openingHs = s.take (p + n) ∧ IsOpening (cstring (s.take (p + n))) uri lines tail ∧
    hs.responseCode = some (judge sock lines tail) ∧
    parseOpening sock (cstring (s.take (p + n))) = .ok (o, judge sock lines tail) ∧
    replyText (some (judge sock lines tail)) (some o) = .ok hs.response

/-- The server sends its reply. -/
structure ServerReplies (sock : Socktype) (s : List UInt8) (w : HsWorld) : Prop where
  answered : Answered sock s w.hs
  state : w.hs.state = .serverReply
  timer : w.hs.timer.In .active
  recv : w.hs.usock.recv = none
  sending : w.hs.usock.sending = true
  sent : w.hs.usock.sent = w.hs.response
  done : w.hs.done = none

/-- What holds in a run of a server to which the bytes `s` have come; an acceptance goes with
`D`. -/
inductive ServerInv (sock : Socktype) (D : List UInt8 → Option ResponseCode → Prop) (s : List UInt8)
    (w : HsWorld) : Prop
  | receives {p n : ℕ} (h : ServerReceives s p n w)
  | replies (h : ServerReplies sock s w)
  | stops {r : HandshakeResult} {code : Option ResponseCode} (h : w.Stops r code)
      (hok : r = .ok → D s code)

section Run

variable {sock : Socktype} {D : List UInt8 → Option ResponseCode → Prop} {s : List UInt8}
  {p n : ℕ} {w : HsWorld}

theorem serverStart_receives : ServerReceives [] 0 151 ⟨serverStart, []⟩ :=
  ⟨.first, rfl, rfl, ⟨rfl, rfl, rfl, Or.inl ⟨rfl, rfl, by decide⟩⟩, rfl, rfl, rfl, rfl, rfl, rfl,
    rfl, fun _ => rfl, rfl⟩

theorem Answered.append {hs : Handshake} (h : Answered sock s hs) (t : List UInt8) :
    Answered sock (s ++ t) hs := by
  obtain ⟨p, n, uri, lines, tail, o, hasks, hle, hinc, hbuf, hopening, hreply⟩ := h
  have htake : (s ++ t).take (p + n) = s.take (p + n) := List.take_append_of_le_length hle
  refine ⟨p, n, uri, lines, tail, o, hasks.append t, ?_, htake ▸ hinc, htake ▸ hbuf,
    htake ▸ hopening, htake ▸ hreply⟩
  rw [List.length_append]
  omega

theorem ServerReplies.idles {w' : HsWorld} (h : ServerReplies sock s w) (hw : w.Idles w') :
    ServerReplies sock s w' := by
  obtain ⟨hhs, -, htimer⟩ := hw
  refine ⟨?_, ?_, htimer, ?_, ?_, ?_, ?_⟩
  all_goals rw [hhs]
  · exact h.answered
  · exact h.state
  · exact h.recv
  · exact h.sending
  · exact h.sent
  · exact h.done

/-- The bytes of a receive follow those that were there. -/
theorem ServerReceives.store (h : ServerReceives s p n w) (usock : HsUsock) :
    Handshake.store { w.hs with usock } (w.stream.take n) =
      { w.hs with usock, openingHs := s.take (p + n) } := by
  rw [store_server]
  · rw [List.take_add, ← h.stream]
    dsimp only
    rw [← buffer_server h.mode, h.buffer, h.pos, List.take_take, min_self]
  · exact h.mode

/-- A receive that completes is parsed together with what was there. -/
theorem ServerReceives.step_received (sock : Socktype) (h : ServerReceives s p n w) :
    ∃ hs : Handshake, hs = { w.hs with usock := { w.hs.usock with recv := none },
                                       openingHs := s.take (p + n) } ∧
      w.step sock .received =
        hs.serverReceived sock >>= fun hs => .ok ({ hs, stream := s.drop (p + n) }, ()) := by
  obtain ⟨hs, hhs⟩ : ∃ hs : Handshake, hs =
    { w.hs with usock := { w.hs.usock with recv := none }, openingHs := s.take (p + n) } := ⟨_, rfl⟩
  have hstore := h.store { w.hs.usock with recv := none }
  rw [← hhs] at hstore
  have hhandler : nnWsHandshakeHandler sock hs .received = hs.serverReceived sock := by
    unfold nnWsHandshakeHandler
    rw [show hs.state = .serverRecv from hhs ▸ h.state]
  refine ⟨hs, hhs, ?_⟩
  rw [HsWorld.step_received h.recv, hstore, hhandler, h.stream, List.drop_drop]

/-- A receive that completes is followed by a reply or by another receive. -/
theorem ServerReceives.received (h : ServerReceives s p n w) (hle : p + n ≤ s.length)
    (hfine : ServerFine (s.take (p + n))) :
    ∃ w', w.step sock .received = .ok (w', ()) ∧ w'.hs.usock.state = w.hs.usock.state ∧
      (ServerReplies sock s w' ∧ ¬ Incomplete (s.take (p + n)) ∨
        ServerReceives s (p + n) (4 - Search.border termseq (s.take (p + n)) 4) w' ∧
          Search.border termseq (s.take (p + n)) 4 < 4) := by
  obtain ⟨hs, hhs, heq⟩ := h.step_received sock
  have hlen : (s.take (p + n)).length = p + n := List.length_take_of_le hle
  have hbuf : hs.openingHs = s.take (p + n) := by rw [hhs]
  have hpos : hs.recvPos = p := by rw [hhs]; exact h.pos
  have hrecvLen : hs.recvLen = n := by rw [hhs]; exact h.len
  rw [ServerFine] at hfine
  split_ifs at hfine with hinc
  · obtain ⟨hlt, hsuf, hroom⟩ := hfine
    have h4 : 4 ≤ p + n := (show 4 ≤ 151 by decide).trans h.asks.first_le
    rw [serverReceived_incomplete sock hbuf (by rw [hpos, hrecvLen, hlen]) (by rwa [hlen]) hinc hlt
      hsuf hroom, ok_bind] at heq
    rw [hhs] at heq
    refine ⟨_, heq, rfl, Or.inr ⟨?_, Search.border_lt hsuf⟩⟩
    refine ⟨h.asks.next hle hinc, h.state, h.mode, h.timer, rfl, h.sending, hlen, rfl, ?_,
      h.opening, h.done, h.sent, rfl⟩
    rw [buffer_server]
    exact h.mode
  · obtain ⟨hnul, uri, lines, tail, hopening, hfits⟩ := hfine
    obtain ⟨o, text, hrec, hparse, htext⟩ :=
      serverReceived_complete sock hbuf hnul hinc hopening hfits
    rw [hrec, ok_bind] at heq
    rw [hhs] at heq
    refine ⟨_, heq, rfl, Or.inl ⟨?_, hinc⟩⟩
    refine ⟨⟨p, n, uri, lines, tail, o, h.asks, hle, hinc, rfl, hopening, rfl, hparse, htext⟩, rfl,
      h.timer, rfl, rfl, ?_, h.done⟩
    exact (congrArg (· ++ text) (h.sent h.mode)).trans (List.nil_append text)

/-- On every other text the process fails. -/
theorem ServerReceives.fine (h : ServerReceives s p n w) (hle : p + n ≤ s.length)
    {r : HsWorld × Unit} (heq : w.step sock .received = .ok r) : ServerFine (s.take (p + n)) := by
  obtain ⟨hs, hhs, hstep⟩ := h.step_received sock
  rw [hstep] at heq
  obtain ⟨hs', hrec, -⟩ := bind_eq_ok.1 heq
  have hbuf : hs.openingHs = s.take (p + n) := by rw [hhs]
  refine fine_of_serverReceived sock hbuf ?_ (by rw [hhs]; exact h.opening) hrec
  rw [List.length_take_of_le hle, hhs, ← h.pos, ← h.len]

/-- A reply is being sent, or a receive of at least one byte is going on. -/
def HsWorld.Goes (w : HsWorld) : Prop :=
  w.hs.state = .serverReply ∧ w.hs.usock.sending = true ∨
    w.hs.state = .serverRecv ∧ ∃ len ∈ w.hs.usock.recv, 0 < len

theorem ServerReplies.step_sent (h : ServerReplies sock s w) :
    ∃ w', w.step sock .sent = .ok (w', ()) ∧ w'.Stops .ok w.hs.responseCode := by
  obtain ⟨t, heq, ht⟩ :=
    @stopTimer_eq { w.hs with usock := { w.hs.usock with sending := false } } h.timer .ok
  refine ⟨_, Ws.step_sent (Eq.trans ?_ heq), .stopping rfl ht h.done rfl⟩
  unfold nnWsHandshakeHandler
  dsimp only
  rw [h.state]
  rfl

theorem ServerInv.arrive (hD : ∀ s t code, D s code → D (s ++ t) code) (h : ServerInv sock D s w)
    (t : List UInt8) :
    ServerInv sock D (s ++ t) { w with stream := w.stream ++ t } := by
  cases h with
  | receives h => exact .receives (h.arrive t)
  | replies h =>
    exact .replies ⟨h.answered.append t, h.state, h.timer, h.recv, h.sending, h.sent, h.done⟩
  | stops h hok =>
    refine .stops ?_ fun hr => hD _ _ _ (hok hr)
    cases h with
    | stopping hstate htimer hdone hcode => exact .stopping hstate htimer hdone hcode
    | done hstate hdone hcode => exact .done hstate hdone hcode

/-- What is not an arrival keeps the invariant. -/
theorem ServerInv.next (h : ServerInv sock D s w) {a : HsAction} (ha : w.Enabled a)
    (harrive : ∀ t, a ≠ .arrive t)
    (hfine : ∀ p n, a = .received → ServerReceives s p n w → ServerFine (s.take (p + n)))
    (hsent : a = .sent → ServerReplies sock s w → D s w.hs.responseCode) :
    ∃ w', w.step sock a = .ok (w', ()) ∧ ServerInv sock D s w' ∧
      (a = .received → w.hs.state = .serverRecv → w'.Goes) := by
  cases h with
  | receives h =>
    rcases a.kinds with ⟨t, rfl⟩ | rfl | rfl | hother
    · exact absurd rfl (harrive t)
    · obtain ⟨w', heq, -, ⟨hw, -⟩ | ⟨hw, hlt⟩⟩ := h.received (h.le_of_enabled ha) (hfine _ _ rfl h)
      · exact ⟨w', heq, .replies hw, fun _ _ => Or.inl ⟨hw.state, hw.sending⟩⟩
      · exact ⟨w', heq, .receives hw,
          fun _ _ => Or.inr ⟨hw.state, _, hw.recv, Nat.sub_pos_of_lt hlt⟩⟩
    · have hsending := ha.2.2
      rw [h.sending] at hsending
      cases hsending
    · obtain ⟨w', heq, hw | hw⟩ := step_running (h.state ▸ trivial) h.timer h.done hother
      · exact ⟨w', heq, .receives (h.idles hw), fun hrec => by simp [hrec] at hother⟩
      · exact ⟨w', heq, .stops hw nofun, fun hrec => by simp [hrec] at hother⟩
  | replies h =>
    rcases a.kinds with ⟨t, rfl⟩ | rfl | rfl | hother
    · exact absurd rfl (harrive t)
    · obtain ⟨-, -, len, hlen, -⟩ := ha
      rw [h.recv] at hlen
      cases hlen
    · obtain ⟨w', heq, hw⟩ := h.step_sent
      exact ⟨w', heq, .stops hw fun _ => hsent rfl h, nofun⟩
    · obtain ⟨w', heq, hw | hw⟩ := step_running (h.state ▸ trivial) h.timer h.done hother
      · exact ⟨w', heq, .replies (h.idles hw), fun hrec => by simp [hrec] at hother⟩
      · exact ⟨w', heq, .stops hw nofun, fun hrec => by simp [hrec] at hother⟩
  | stops h hok =>
    obtain ⟨w', heq, hw⟩ := step_stops h ha
    exact ⟨w', heq, .stops hw hok, fun _ hstate => absurd (hstate ▸ trivial) h.not_running⟩

/-- One action keeps the invariant. -/
theorem ServerInv.step (hD : ∀ s t code, D s code → D (s ++ t) code) (h : ServerInv sock D s w)
    {a : HsAction} (ha : w.Enabled a)
    (hfine : ∀ p n, a = .received → ServerReceives s p n w → ServerFine (s.take (p + n)))
    (hsent : a = .sent → ServerReplies sock s w → D s w.hs.responseCode) :
    ∃ w', w.step sock a = .ok (w', ()) ∧ ServerInv sock D (s ++ a.bytes) w' ∧
      (a = .received → w.hs.state = .serverRecv → w'.Goes) := by
  by_cases harrive : ∃ t, a = .arrive t
  · obtain ⟨t, rfl⟩ := harrive
    exact ⟨_, rfl, h.arrive hD t, nofun⟩
  · have hne : ∀ t, a ≠ .arrive t := fun t heq => harrive ⟨t, heq⟩
    have hbytes : a.bytes = [] := by
      cases a with
      | arrive t => exact absurd rfl (hne t)
      | _ => rfl
    rw [hbytes, List.append_nil]
    exact h.next ha hne hfine hsent

/-- The runs of a server, with a condition on the state before every action. -/
abbrev ServerRun (sock : Socktype) (P : HsWorld → HsAction → Prop) :
    List HsAction → HsWorld → Prop :=
  Runs.Trace (HsWorld.step sock) P ⟨serverStart, []⟩

/-- A server that has not failed keeps the invariant. -/
theorem ServerRun.inv {P : HsWorld → HsAction → Prop} (hP : ∀ w a, P w a → w.Enabled a)
    (hD : ∀ s t code, D s code → D (s ++ t) code)
    (hsent : ∀ s w, P w .sent → ServerReplies sock s w → D s w.hs.responseCode) {as : List HsAction}
    (h : ServerRun sock P as w) : ServerInv sock D (arrivals as) w := by
  refine Runs.Trace.invariant (I := fun as w => ServerInv sock D (arrivals as) w)
    (.receives serverStart_receives) ?_ h
  intro as w a w' b hinv hPa heq
  have ha := hP w a hPa
  have hfine (p n : ℕ) (hrec : a = .received) (hw : ServerReceives (arrivals as) p n w) :
      ServerFine ((arrivals as).take (p + n)) := by
    subst hrec
    exact hw.fine (hw.le_of_enabled ha) heq
  obtain ⟨w'', heq', hw, -⟩ := hinv.step hD ha hfine fun hs hw => hsent _ _ (hs ▸ hPa) hw
  rw [heq] at heq'
  cases heq'
  rw [arrivals_concat]
  exact hw

/-- Every receive that is asked for is reached in a run, unless the process fails before. -/
theorem exists_run_receives
    (hok : ∀ as w a, ServerRun sock HsWorld.Enabled as w → w.Enabled a →
      arrivals (as ++ [a]) <+: s → ∃ w', w.step sock a = .ok (w', ())) (h :
      Asks 151 Incomplete s p n) :
    ∃ as w, ServerRun sock HsWorld.Enabled as w ∧ arrivals as = s ∧ ServerReceives s p n w ∧
      w.hs.usock.state = .active := by
  induction h with
  | first =>
    refine ⟨[.arrive s], ⟨serverStart, s⟩, .snoc .nil trivial rfl, List.append_nil s, ?_, rfl⟩
    exact serverStart_receives.arrive s
  | @next p n _ hle hmore ih =>
    obtain ⟨as, w, hrun, harr, hw, hactive⟩ := ih
    have harr' : arrivals (as ++ [.received]) = s := by
      rw [arrivals_concat, harr, HsAction.bytes_received, List.append_nil]
    have ha := hw.enabled hactive hle
    obtain ⟨w', heq⟩ := hok as w .received hrun ha (harr' ▸ List.prefix_rfl)
    obtain ⟨w'', heq', hstate, ⟨-, hinc⟩ | ⟨hw', -⟩⟩ := hw.received hle (hw.fine hle heq)
    · exact absurd hmore hinc
    · rw [heq] at heq'
      cases heq'
      exact ⟨as ++ [.received], w', hrun.snoc ha heq, harr', hw', hstate.trans hactive⟩

/-- As long as the text ends in no front of the terminator, every receive asks for four bytes. -/
theorem exists_run_fours (sock : Socktype) {s : List UInt8} {k : ℕ} (hle : 151 + 4 * k ≤ s.length)
    (hlt : s.length < 4092) (hinc : ∀ j ≤ k, Incomplete (s.take (151 + 4 * j)))
    (hborder : ∀ j ≤ k, Search.border termseq (s.take (151 + 4 * j)) 4 = 0) :
    ∃ w, ServerRun sock HsWorld.Enabled (.arrive s :: List.replicate (k + 1) .received) w ∧
      ServerReceives s (151 + 4 * k) 4 w ∧ w.hs.usock.state = .active := by
  have hreceive {p n j : ℕ} {as : List HsAction} {w : HsWorld}
      (hrun : ServerRun sock HsWorld.Enabled as w)
      (hw : ServerReceives s p n w) (hactive : w.hs.usock.state = .active) (hj : j ≤ k)
      (hpn : p + n = 151 + 4 * j) :
      ∃ w', ServerRun sock HsWorld.Enabled (as ++ [.received]) w' ∧
        ServerReceives s (151 + 4 * j) 4 w' ∧ w'.hs.usock.state = .active := by
    have hlen : (s.take (p + n)).length = 151 + 4 * j := by
      rw [hpn, List.length_take]
      omega
    have hinc' := hpn ▸ hinc j hj
    have hborder' := hpn ▸ hborder j hj
    have hfine : ServerFine (s.take (p + n)) := by
      rw [ServerFine, if_pos hinc', hborder', hlen]
      refine ⟨by omega, fun hsuf => ?_, by omega⟩
      have := @Search.le_border _ _ termseq _ 4 4 le_rfl hsuf
      omega
    obtain ⟨w', heq, hstate, ⟨-, hcomplete⟩ | ⟨hw', -⟩⟩ :=
      @ServerReceives.received sock _ _ _ _ hw (by omega) hfine
    · exact absurd hinc' hcomplete
    · rw [hborder', hpn] at hw'
      exact ⟨w', hrun.snoc (hw.enabled hactive (by omega)) heq, hw', hstate.trans hactive⟩
  induction k with
  | zero =>
    have hstart : ServerRun sock HsWorld.Enabled [.arrive s] ⟨serverStart, s⟩ :=
      .snoc .nil trivial rfl
    exact hreceive hstart (serverStart_receives.arrive s) rfl le_rfl rfl
  | succ k ih =>
    obtain ⟨w, hrun, hw, hactive⟩ :=
      ih (by omega) (fun j hj => hinc j (by omega)) (fun j hj => hborder j (by omega))
      fun hrun hw hactive hj hpn => hreceive hrun hw hactive (by omega) hpn
    obtain ⟨w', hrun', hw', hactive'⟩ := hreceive hrun hw hactive le_rfl (by omega)
    refine ⟨w', ?_, hw', hactive'⟩
    rwa [List.cons_append, ← List.replicate_succ'] at hrun'

/-- When the texts after all receives are fine, no action fails. -/
theorem server_step (hfine : ∀ p n, Asks 151 Incomplete s p n → p + n ≤ s.length →
    ServerFine (s.take (p + n)))
    {as : List HsAction} {a : HsAction} (hrun : ServerRun sock HsWorld.Enabled as w)
    (ha : w.Enabled a) (harr : arrivals (as ++ [a]) <+: s) :
    ∃ w', w.step sock a = .ok (w', ()) ∧ (a = .received → w.hs.state = .serverRecv → w'.Goes) := by
  have hinv : ServerInv sock (fun _ _ => True) (arrivals as) w :=
    hrun.inv (fun _ _ h => h) (fun _ _ _ _ => trivial) fun _ _ _ _ => trivial
  have hfine' (p n : ℕ) (hrec : a = .received) (hw : ServerReceives (arrivals as) p n w) :
      ServerFine ((arrivals as).take (p + n)) := by
    subst hrec
    rw [arrivals_concat, HsAction.bytes_received, List.append_nil] at harr
    obtain ⟨t, rfl⟩ := harr
    have hle := hw.le_of_enabled ha
    have := hfine p n (hw.asks.append t) (by rw [List.length_append]; omega)
    rwa [List.take_append_of_le_length hle] at this
  obtain ⟨w', heq, -, hgoes⟩ := hinv.step (fun _ _ _ _ => trivial) ha hfine' fun _ _ => trivial
  exact ⟨w', heq, hgoes⟩

/-- No run in which a server gets the bytes `s`, or fewer, fails, and what is received is followed
by a reply or by another receive, exactly when the text after every receive is fine. -/
theorem server_returns_iff (sock : Socktype) (s : List UInt8) :
    (∀ as w a, ServerRun sock HsWorld.Enabled as w → w.Enabled a → arrivals (as ++ [a]) <+: s →
      ∃ w', w.step sock a = .ok (w', ()) ∧ (a = .received → w.hs.state = .serverRecv → w'.Goes)) ↔
    ∀ p n, Asks 151 Incomplete s p n → p + n ≤ s.length → ServerFine (s.take (p + n)) := by
  constructor
  · intro hok p n hasks hle
    have hok' (as : List HsAction) (w : HsWorld) (a : HsAction)
        (hrun : ServerRun sock HsWorld.Enabled as w)
        (ha : w.Enabled a) (harr : arrivals (as ++ [a]) <+: s) :
        ∃ w', w.step sock a = .ok (w', ()) := by
      obtain ⟨w', heq, -⟩ := hok as w a hrun ha harr
      exact ⟨w', heq⟩
    obtain ⟨as, w, hrun, harr, hw, hactive⟩ := exists_run_receives hok' hasks
    obtain ⟨w', heq⟩ := hok' as w .received hrun (hw.enabled hactive hle) (by simp [harr])
    exact hw.fine hle heq
  · intro hfine as w a hrun ha harr
    exact server_step hfine hrun ha harr

end Run

/-- A request with another method than `GET`. -/
def headRequest : List UInt8 :=
  ascii "HEAD / HTTP/1.1\r\nHost: example.com\r\nX-Padding: " ++ List.replicate 100 0x78 ++
    ascii "\r\n\r\n"

/-- The verdict on it comes without a response code. -/
theorem headRequest_aborts :
    ∃ w, ServerRun .pair HsWorld.Enabled [.arrive headRequest] w ∧ w.Enabled .received ∧
      w.step .pair .received = .error .assertFailed :=
  Runs.Trace.exists_of_runWhile (by set_option maxRecDepth 20000 in decide)

end NanoSocket.Ws

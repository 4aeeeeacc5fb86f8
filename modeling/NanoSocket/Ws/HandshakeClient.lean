import NanoSocket.Ws.HandshakeReply
import NanoSocket.Ws.HandshakeResponse
import NanoSocket.Ws.HandshakeRuns

/-!
# The handshake of a client

A client receives 16 bytes and then, like a server, as many bytes at a time as may be missing in the
empty line at the end.  Its parser also asks for more when the empty line is there and the text is
not a response, and that is where a server can make the process fail: `ClientFine` says of the text
after a receive that the client goes on, and `client_returns_iff` that this is all a server has to
keep.
-/

namespace NanoSocket.Ws

/-- The parser wants more, and there is room for it. -/
def ClientMore (c : List UInt8) : Prop :=
  (Incomplete c ∨ ¬ Complete (cstring c)) ∧ c.length + (4 - Search.border termseq c 4) ≤ 512

/-- After the text `c` the client goes on: nothing stands behind the empty line, and when the parser
wants more the text does not end with one. -/
structure ClientFine (c : List UInt8) : Prop where
  nul : 0 ∈ c ∨ c.length < 512
  trailing : ¬ Incomplete c → ¬ Trailing (cstring c)
  more : Incomplete c ∨ ¬ Complete (cstring c) → c.length < 512 ∧ ¬ termseq <:+ c

section Received

variable {hs : Handshake} {c : List UInt8}

theorem parse_response_more (hbuf : hs.response = c) (hnul : 0 ∈ c ∨ c.length < 512)
    (hmore : Incomplete c ∨ ¬ Complete (cstring c))
    (htrailing : ¬ Incomplete c → ¬ Trailing (cstring c)) :
    ∃ reply, nnWsHandshakeParseServerResponse hs = .ok (.recvMore, { hs with reply }) := by
  subst hbuf
  unfold nnWsHandshakeParseServerResponse
  rw [nnAssert_of hnul, ok_bind]
  dsimp only
  by_cases hinc : Incomplete hs.response
  · rw [if_pos (Search.cut_eq_none.2 hinc)]
    exact ⟨hs.reply, rfl⟩
  · obtain ⟨r, heq⟩ :=
      parseResponse_more hs.expectedAcceptKey (hmore.resolve_left hinc) (htrailing hinc)
    rw [if_neg fun hcut => hinc (Search.cut_eq_none.1 hcut), heq]
    exact ⟨_, rfl⟩

theorem parse_response_complete (hbuf : hs.response = c) (hnul : 0 ∈ c ∨ c.length < 512)
    (hinc : ¬ Incomplete c) {status reason : List UInt8} {lines : List (List UInt8)}
    {tail : List UInt8} (h : IsResponse (cstring c) status reason lines tail)
    (htail : tail = [] ∨ tail = crlf) :
    ∃ reply, nnWsHandshakeParseServerResponse hs =
      .ok (judgeResponse hs.expectedAcceptKey status lines tail, { hs with reply }) := by
  subst hbuf
  obtain ⟨r, heq⟩ := parseResponse_complete hs.expectedAcceptKey h htail
  unfold nnWsHandshakeParseServerResponse
  rw [nnAssert_of hnul, ok_bind]
  dsimp only
  rw [if_neg fun hcut => hinc (Search.cut_eq_none.1 hcut), heq]
  exact ⟨_, rfl⟩

/-- A response that is there settles the result. -/
theorem clientReceived_complete (hbuf : hs.response = c) (hnul : 0 ∈ c ∨ c.length < 512)
    (hinc : ¬ Incomplete c) {status reason : List UInt8} {lines : List (List UInt8)}
    {tail : List UInt8} (h : IsResponse (cstring c) status reason lines tail)
    (htail : tail = [] ∨ tail = crlf) (htimer : hs.timer.In .active) :
    ∃ reply t, t.In .stopping ∧ hs.clientReceived = .ok { hs with
      reply, timer := t, state := HandshakeResult.stopping
        (if judgeResponse hs.expectedAcceptKey status lines tail = .valid then .ok
          else .error) } := by
  obtain ⟨reply, heq⟩ := parse_response_complete hbuf hnul hinc h htail
  obtain ⟨t, hstop, ht⟩ := @stopTimer_eq { hs with reply } htimer
    (if judgeResponse hs.expectedAcceptKey status lines tail = .valid then .ok else .error)
  refine ⟨reply, t, ht, Eq.trans ?_ hstop⟩
  unfold Handshake.clientReceived
  rw [heq, ok_bind]
  have hne := judgeResponse_ne_recvMore hs.expectedAcceptKey status lines tail
  cases hverdict : judgeResponse hs.expectedAcceptKey status lines tail with
  | recvMore => exact absurd hverdict hne
  | valid => rfl
  | invalid => rfl

/-- More bytes are asked for, or there is no room for them. -/
theorem clientReceived_more (hbuf : hs.response = c) (hlen : hs.recvPos + hs.recvLen = c.length)
    (h4 : 4 ≤ c.length) (hmore : Incomplete c ∨ ¬ Complete (cstring c)) (hfine : ClientFine c)
    (htimer : hs.timer.In .active) :
    ∃ reply, if c.length + (4 - Search.border termseq c 4) ≤ 512 then
        hs.clientReceived = .ok { hs with
          reply, recvPos := c.length, recvLen := 4 - Search.border termseq c 4
          usock := hs.usock.receive (4 - Search.border termseq c 4) }
      else ∃ t, t.In .stopping ∧ hs.clientReceived = .ok { hs with
        reply, recvPos := c.length, recvLen := 4 - Search.border termseq c 4, timer := t, state :=
          .stoppingTimerError } := by
  obtain ⟨hlt, hsuf⟩ := hfine.more hmore
  have hborder : Search.border termseq c 4 < 4 := Search.border_lt hsuf
  obtain ⟨reply, heq⟩ := parse_response_more hbuf hfine.nul hmore hfine.trailing
  refine ⟨reply, ?_⟩
  have hstep : hs.clientReceived =
      if 512 < 4 - Search.border termseq c 4 + c.length then
        ({ hs with reply, recvPos := c.length, recvLen := 4 - Search.border termseq c 4 } :
          Handshake).stopTimer
          .stoppingTimerError
      else .ok { hs with
        reply, recvPos := c.length, recvLen := 4 - Search.border termseq c 4
        usock := hs.usock.receive (4 - Search.border termseq c 4) } := by
    unfold Handshake.clientReceived
    rw [heq, ok_bind]
    dsimp only
    unfold Handshake.recvMore
    dsimp only
    rw [hbuf, hlen, List.take_length, nnAssert_of hlt, ok_bind, nnAssert_of h4, ok_bind,
      nnAssert_of hborder, ok_bind]
    rfl
  rw [hstep]
  split_ifs with hroom hroom'
  · omega
  · rfl
  · obtain ⟨t, hstop, ht⟩ := @stopTimer_eq
      { hs with reply, recvPos := c.length, recvLen := 4 - Search.border termseq c 4 } htimer .error
    exact ⟨t, ht, hstop⟩
  · omega

/-- Everything else makes the process fail. -/
theorem fine_of_clientReceived (hbuf : hs.response = c) (hlen : hs.recvPos + hs.recvLen = c.length)
    {hs' : Handshake} (heq : hs.clientReceived = .ok hs') : ClientFine c := by
  have hnul : 0 ∈ c ∨ c.length < 512 := by
    by_contra hno
    unfold Handshake.clientReceived nnWsHandshakeParseServerResponse at heq
    rw [hbuf, nnAssert_of_not hno] at heq
    cases heq
  have htrailing : ¬ Incomplete c → ¬ Trailing (cstring c) := by
    intro hinc htr
    unfold Handshake.clientReceived nnWsHandshakeParseServerResponse at heq
    rw [hbuf, nnAssert_of hnul, ok_bind] at heq
    dsimp only at heq
    rw [if_neg fun hcut => hinc (Search.cut_eq_none.1 hcut), parseResponse_trailing _ htr] at heq
    cases heq
  refine ⟨hnul, htrailing, fun hmore => ?_⟩
  obtain ⟨reply, hparse⟩ := parse_response_more hbuf hnul hmore htrailing
  unfold Handshake.clientReceived at heq
  rw [hparse, ok_bind] at heq
  dsimp only at heq
  unfold Handshake.recvMore at heq
  dsimp only at heq
  rw [hbuf, hlen, List.take_length] at heq
  obtain ⟨_, hlt, heq⟩ := bind_eq_ok.1 heq
  obtain ⟨_, -, heq⟩ := bind_eq_ok.1 heq
  obtain ⟨_, hborder, -⟩ := bind_eq_ok.1 heq
  constructor
  · by_contra hno
    rw [nnAssert_of_not hno] at hlt
    cases hlt
  · intro hsuf
    have hle : 4 ≤ Search.border termseq c 4 := Search.le_border le_rfl hsuf
    rw [nnAssert_of_not (Nat.not_lt.2 hle)] at hborder
    cases hborder

end Received

/-! ### Runs -/

/-- A client that has just been started. -/
def clientStart (expectedAcceptKey openingHs : List UInt8) : Handshake :=
  { state := .clientSend, mode := .client
    timer := { Timer.init with fsm := .active, state := .active, timeout := 5000,
                               tasks := [.start] }
    usock := { state := .active, recv := none, sending := true, sent := openingHs }
    openingHs, recvPos := 0, recvLen := 16, opening := none, reply := none, expectedAcceptKey
    responseCode := none, response := [], done := none }

/-- The keys of a client. -/
theorem exists_keys (rand : Vector UInt8 16) :
    ∃ encodedKey expectedAcceptKey, nnBase64Encode rand.toList 25 = some encodedKey ∧
      encodedKey.length = 24 ∧
      (∀ c ∈ encodedKey, IsBase64 c) ∧ nnWsHandshakeHashKey encodedKey 29 = some expectedAcceptKey ∧
      expectedAcceptKey.length = 28 ∧ ∀ c ∈ expectedAcceptKey, IsBase64 c := by
  obtain ⟨encodedKey, hkey, hlen, hchars⟩ :=
    @nnBase64Encode_length rand.toList 25 (by rw [Vector.length_toList]; decide)
  rw [Vector.length_toList] at hlen
  obtain ⟨acceptKey, haccept, hlen', hchars'⟩ := nnWsHandshakeHashKey_eq encodedKey
  exact ⟨encodedKey, acceptKey, hkey, hlen, hchars, haccept, hlen', hchars'⟩

theorem requestText_length (resource remoteHost encodedKey wsSp : List UInt8) :
    (requestText resource remoteHost encodedKey wsSp).length =
      resource.length + remoteHost.length + encodedKey.length + wsSp.length + 140 := by
  simp only [requestText, List.length_append, show (ascii "GET ").length = 4 from length_ascii _,
    show (ascii " HTTP/1.1\r\n").length = 11 from length_ascii _, show (ascii "Host: ").length =
      6 from length_ascii _,
    show (ascii "Upgrade: websocket\r\n").length = 20 from length_ascii _,
    show (ascii "Connection: Upgrade\r\n").length = 21 from length_ascii _,
    show (ascii "Sec-WebSocket-Key: ").length = 19 from length_ascii _,
    show (ascii "Sec-WebSocket-Version: 13\r\n").length = 27 from length_ascii _,
    show (ascii "Sec-WebSocket-Protocol: ").length = 24 from length_ascii _,
    show (ascii "\r\n").length = 2 from length_ascii _]
  omega

theorem nnWsHandshakeStart_request {resource : List UInt8} (hresource : 1 ≤ resource.length)
    (sock : Socktype) (remoteHost : List UInt8) (rand : Vector UInt8 16) :
    nnWsHandshakeStart sock .client resource remoteHost rand =
      nnWsHandshakeClientRequest sock resource remoteHost rand
        { clientStart [] [] with
          usock := { state := .active, recv := none, sending := false, sent := [] } } := by
  have h16 : (ascii shortestResponse).length = 16 := length_ascii _
  have htimer : nnTimerStart Timer.init 5000 =
      .ok { Timer.init with fsm := .active, state := .active, timeout := 5000,
                            tasks := [.start] } := rfl
  unfold nnWsHandshakeStart
  rw [if_pos rfl, nnAssert_of hresource, ok_bind]
  dsimp only
  rw [h16, nnAssert_of (show 4 ≤ 16 by decide), ok_bind, htimer, ok_bind,
    nnAssert_of (show 16 ≤ 512 by decide), ok_bind]
  rfl

section Keys

variable {sock : Socktype} {resource remoteHost : List UInt8} {rand : Vector UInt8 16}
  {encodedKey acceptKey : List UInt8}
  (hkey : nnBase64Encode rand.toList 25 = some encodedKey) (hlen : encodedKey.length = 24)
  (haccept : nnWsHandshakeHashKey encodedKey 29 = some acceptKey) (hlen' : acceptKey.length = 28)
include hkey hlen haccept hlen'

theorem nnWsHandshakeClientRequest_eq (hs : Handshake) :
    nnWsHandshakeClientRequest sock resource remoteHost rand hs =
      match nnWsHandshakeSpMap.find? fun e => e.client.protocol = sock.protocol with
      | none => .error .assertFailed
      | some e =>
        if 4096 ≤ (requestText resource remoteHost encodedKey (ascii e.wsSp)).length then
          .error .outOfBounds
        else .ok { hs with
          expectedAcceptKey := acceptKey, openingHs :=
            requestText resource remoteHost encodedKey (ascii e.wsSp)
          usock := hs.usock.send (requestText resource remoteHost encodedKey (ascii e.wsSp)) } := by
  unfold nnWsHandshakeClientRequest
  rw [hkey]
  dsimp only
  rw [nnAssert_of hlen, ok_bind, haccept]
  dsimp only
  rw [nnAssert_of hlen', ok_bind]
  cases nnWsHandshakeSpMap.find? fun e => e.client.protocol = sock.protocol with
  | none => rfl
  | some e =>
    dsimp only
    split_ifs <;> rfl

/-- The start of a client whose socket type is in the map. -/
theorem nnWsHandshakeStart_client (hresource : 1 ≤ resource.length) {e : SpMap}
    (he : (nnWsHandshakeSpMap.find? fun e => e.client.protocol = sock.protocol) = some e) :
    nnWsHandshakeStart sock .client resource remoteHost rand =
      if 4096 ≤ (requestText resource remoteHost encodedKey (ascii e.wsSp)).length then
        .error .outOfBounds
      else .ok (clientStart acceptKey
        (requestText resource remoteHost encodedKey (ascii e.wsSp))) := by
  rw [nnWsHandshakeStart_request hresource,
    nnWsHandshakeClientRequest_eq hkey hlen haccept hlen', he]
  rfl

end Keys

theorem eq_clientStart {sock : Socktype} {resource remoteHost : List UInt8} {rand : Vector UInt8 16}
    {hs : Handshake} (h : nnWsHandshakeStart sock .client resource remoteHost rand = .ok hs) :
    ∃ acceptKey text, hs = clientStart acceptKey text := by
  have hresource : 1 ≤ resource.length := by
    by_contra hno
    unfold nnWsHandshakeStart at h
    rw [if_pos rfl, nnAssert_of_not hno] at h
    cases h
  obtain ⟨encodedKey, acceptKey, hkey, hlen, -, haccept, hlen', -⟩ := exists_keys rand
  cases he : nnWsHandshakeSpMap.find? fun e => e.client.protocol = sock.protocol with
  | none =>
    rw [nnWsHandshakeStart_request hresource,
      nnWsHandshakeClientRequest_eq hkey hlen haccept hlen', he] at h
    cases h
  | some e =>
    rw [nnWsHandshakeStart_client hkey hlen haccept hlen' hresource he] at h
    split_ifs at h
    cases h
    exact ⟨_, _, rfl⟩

/-- The client waits for the bytes `p, …, p + n - 1`. -/
abbrev ClientReceives : List UInt8 → ℕ → ℕ → HsWorld → Prop := Receives .client 16 ClientMore

/-- The client sends its request; `key` is the key that it expects in the response. -/
structure ClientSends (key s : List UInt8) (w : HsWorld) : Prop where
  state : w.hs.state = .clientSend
  mode : w.hs.mode = .client
  timer : w.hs.timer.In .active
  recv : w.hs.usock.recv = none
  sending : w.hs.usock.sending = true
  pos : w.hs.recvPos = 0
  len : w.hs.recvLen = 16
  response : w.hs.response = []
  opening : w.hs.opening = none
  done : w.hs.done = none
  expected : w.hs.expectedAcceptKey = key
  stream : w.stream = s

/-- What holds in a run of a client to which the bytes `s` have come. -/
inductive ClientInv (key s : List UInt8) (w : HsWorld) : Prop
  | sends (h : ClientSends key s w)
  | receives {p n : ℕ} (h : ClientReceives s p n w) (hkey : w.hs.expectedAcceptKey = key)
  | stops {r : HandshakeResult} {code : Option ResponseCode} (h : w.Stops r code)

section Run

variable {sock : Socktype} {key s : List UInt8} {p n : ℕ} {w : HsWorld}

theorem clientStart_sends (acceptKey text : List UInt8) :
    ClientSends acceptKey [] ⟨clientStart acceptKey text, []⟩ :=
  ⟨rfl, rfl, ⟨rfl, rfl, rfl, Or.inl ⟨rfl, rfl, show (0 : ℤ) ≤ 5000 by decide⟩⟩, rfl, rfl, rfl, rfl,
    rfl, rfl, rfl, rfl, rfl⟩

theorem ClientSends.idles {w' : HsWorld} (h : ClientSends key s w) (hw : w.Idles w') :
    ClientSends key s w' := by
  obtain ⟨hhs, hstream, htimer⟩ := hw
  refine ⟨?_, ?_, htimer, ?_, ?_, ?_, ?_, ?_, ?_, ?_, ?_, hstream.trans h.stream⟩
  all_goals rw [hhs]
  · exact h.state
  · exact h.mode
  · exact h.recv
  · exact h.sending
  · exact h.pos
  · exact h.len
  · exact h.response
  · exact h.opening
  · exact h.done
  · exact h.expected

/-- When the request has been sent, the response is received. -/
theorem ClientSends.step_sent (sock : Socktype) (h : ClientSends key s w) :
    ∃ w', w.step sock .sent = .ok (w', ()) ∧ ClientReceives s 0 16 w' ∧
      w'.hs.expectedAcceptKey = key ∧
      w'.hs.usock.state = w.hs.usock.state := by
  have heq :
      nnWsHandshakeHandler sock
        { w.hs with usock := { w.hs.usock with sending := false } } .sent =
      .ok { w.hs with
        state := .clientRecv
        usock := { w.hs.usock with sending := false, recv := some w.hs.recvLen } } := by
    unfold nnWsHandshakeHandler
    dsimp only
    rw [h.state]
    rfl
  refine ⟨_, Ws.step_sent heq,
    ⟨.first, rfl, h.mode, h.timer, congrArg some h.len, rfl, h.pos, h.len, ?_, h.opening, h.done,
      ?_, h.stream⟩, h.expected, rfl⟩
  · rw [buffer_client]
    · exact h.response
    · exact h.mode
  · intro hmode
    cases hmode.symm.trans h.mode

/-- A receive that completes is parsed together with what was there. -/
theorem Receives.step_client (sock : Socktype) (h : ClientReceives s p n w) :
    ∃ hs : Handshake, hs = { w.hs with usock := { w.hs.usock with recv := none },
                                       response := s.take (p + n) } ∧
      w.step sock .received = hs.clientReceived >>= fun hs =>
        .ok ({ hs, stream := s.drop (p + n) }, ()) := by
  obtain ⟨hs, hhs⟩ : ∃ hs : Handshake, hs =
    { w.hs with usock := { w.hs.usock with recv := none }, response := s.take (p + n) } := ⟨_, rfl⟩
  have hstore : Handshake.store { w.hs with usock := { w.hs.usock with recv := none } }
      (w.stream.take n) = hs := by
    rw [store_client]
    · rw [hhs, List.take_add, ← h.stream]
      dsimp only
      rw [← buffer_client h.mode, h.buffer, h.pos, List.take_take, min_self]
    · exact h.mode
  have hhandler : nnWsHandshakeHandler sock hs .received = hs.clientReceived := by
    unfold nnWsHandshakeHandler
    rw [show hs.state = .clientRecv from hhs ▸ h.state]
  refine ⟨hs, hhs, ?_⟩
  rw [HsWorld.step_received h.recv, hstore, hhandler, h.stream, List.drop_drop]

/-- The result that a text settles. -/
def SettledBy (key c : List UInt8) (r : HandshakeResult) : Prop :=
  ∀ status reason lines tail, IsResponse (cstring c) status reason lines tail →
    tail = [] ∨ tail = crlf →
    ¬ Incomplete c → r = if judgeResponse key status lines tail = .valid then .ok else .error

/-- A receive that completes settles the result or is followed by another receive. -/
theorem Receives.client_received (sock : Socktype) (h : ClientReceives s p n w)
    (hle : p + n ≤ s.length) (hfine : ClientFine (s.take (p + n))) :
    ∃ w', w.step sock .received = .ok (w', ()) ∧ w'.hs.usock.state = w.hs.usock.state ∧
      ((∃ r, w'.Stops r w.hs.responseCode ∧ w'.hs.state = r.stopping ∧
          SettledBy w.hs.expectedAcceptKey (s.take (p + n)) r) ∧ ¬ ClientMore (s.take (p + n)) ∨
        ClientReceives s (p + n) (4 - Search.border termseq (s.take (p + n)) 4) w' ∧
          w'.hs.expectedAcceptKey = w.hs.expectedAcceptKey ∧
            Search.border termseq (s.take (p + n)) 4 < 4) := by
  obtain ⟨hs, hhs, heq⟩ := h.step_client sock
  have hlen : (s.take (p + n)).length = p + n := List.length_take_of_le hle
  have hbuf : hs.response = s.take (p + n) := by rw [hhs]
  have hkey : hs.expectedAcceptKey = w.hs.expectedAcceptKey := by rw [hhs]
  have hsum : hs.recvPos + hs.recvLen = (s.take (p + n)).length := by
    rw [hlen, hhs, ← h.pos, ← h.len]
  have htimer : hs.timer.In .active := by
    rw [hhs]
    exact h.timer
  have h4 : 4 ≤ p + n := (show 4 ≤ 16 by decide).trans h.asks.first_le
  by_cases hmore : Incomplete (s.take (p + n)) ∨ ¬ Complete (cstring (s.take (p + n)))
  · obtain ⟨reply, hrec⟩ := clientReceived_more hbuf hsum (by rwa [hlen]) hmore hfine htimer
    split_ifs at hrec with hroom
    · rw [hrec, ok_bind, hhs] at heq
      refine ⟨_, heq, rfl,
        Or.inr ⟨⟨h.asks.next hle ⟨hmore, hroom⟩, h.state, h.mode, h.timer, rfl,
          h.sending, hlen, rfl,
        ?_, h.opening, h.done, h.sent, rfl⟩, rfl, Search.border_lt (hfine.more hmore).2⟩⟩
      rw [buffer_client]
      exact h.mode
    · obtain ⟨t, ht, hrec⟩ := hrec
      rw [hrec, ok_bind, hhs] at heq
      refine ⟨_, heq, rfl,
        Or.inl ⟨⟨.error, .stopping rfl ht h.done rfl, rfl, ?_⟩, fun hm => hroom hm.2⟩⟩
      intro status reason lines tail hform htail hinc
      exact absurd ⟨status, reason, lines, tail, hform, htail⟩ (hmore.resolve_left hinc)
  · have hmore' := hmore
    rw [not_or, not_not] at hmore
    obtain ⟨hinc, status, reason, lines, tail, hform, htail⟩ := hmore
    obtain ⟨reply, t, ht, hrec⟩ := clientReceived_complete hbuf hfine.nul hinc hform htail htimer
    rw [hrec, ok_bind, hhs] at heq
    refine ⟨_, heq, rfl, Or.inl ⟨⟨_, .stopping rfl ht h.done rfl, rfl, ?_⟩, fun hm => hmore' hm.1⟩⟩
    intro status' reason' lines' tail' hform' htail' _
    -- both readings are judged by the same run of the parser
    obtain ⟨_, hparse⟩ := parse_response_complete hbuf hfine.nul hinc hform htail
    obtain ⟨_, hparse'⟩ := parse_response_complete hbuf hfine.nul hinc hform' htail'
    rw [hparse] at hparse'
    rw [← hkey, (Prod.mk.inj (Except.ok.inj hparse')).1]

/-- On every other text the process fails. -/
theorem Receives.client_fine (h : ClientReceives s p n w) (hle : p + n ≤ s.length)
    {r : HsWorld × Unit} (heq : w.step sock .received = .ok r) : ClientFine (s.take (p + n)) := by
  obtain ⟨hs, hhs, hstep⟩ := h.step_client sock
  rw [hstep] at heq
  obtain ⟨hs', hrec, -⟩ := bind_eq_ok.1 heq
  have hbuf : hs.response = s.take (p + n) := by rw [hhs]
  refine fine_of_clientReceived hbuf ?_ hrec
  rw [List.length_take_of_le hle, hhs, ← h.pos, ← h.len]

theorem ClientInv.arrive (h : ClientInv key s w) (t : List UInt8) :
    ClientInv key (s ++ t) { w with stream := w.stream ++ t } := by
  cases h with
  | sends h =>
    exact .sends ⟨h.state, h.mode, h.timer, h.recv, h.sending, h.pos, h.len, h.response, h.opening,
      h.done, h.expected, congrArg (· ++ t) h.stream⟩
  | receives h hkey => exact .receives (h.arrive t) hkey
  | stops h =>
    cases h with
    | stopping hstate htimer hdone hcode => exact .stops (.stopping hstate htimer hdone hcode)
    | done hstate hdone hcode => exact .stops (.done hstate hdone hcode)

/-- What a receive that completes leads to: the result is settled, or a receive of at least one byte
is going on. -/
def HsWorld.Settles (key c : List UInt8) (w : HsWorld) : Prop :=
  (∃ r : HandshakeResult, w.hs.state = r.stopping ∧ SettledBy key c r ∧ ¬ ClientMore c) ∨
    w.hs.state = .clientRecv ∧ ∃ len ∈ w.hs.usock.recv, 0 < len

/-- One action keeps the invariant. -/
theorem ClientInv.step (sock : Socktype) (h : ClientInv key s w) {a : HsAction} (ha : w.Enabled a)
    (hfine : ∀ p n, a = .received → ClientReceives s p n w → ClientFine (s.take (p + n))) :
    ∃ w', w.step sock a = .ok (w', ()) ∧ ClientInv key (s ++ a.bytes) w' ∧
      (∀ p n, a = .received → ClientReceives s p n w → w'.Settles key (s.take (p + n))) := by
  rcases a.kinds with ⟨t, rfl⟩ | hkind
  · exact ⟨_, rfl, h.arrive t, nofun⟩
  have hbytes : a.bytes = [] := by rcases hkind with rfl | rfl | rfl | rfl | rfl | rfl <;> rfl
  rw [hbytes, List.append_nil]
  cases h with
  | sends h =>
    rcases hkind with rfl | rfl | hother
    · obtain ⟨-, -, len, hlen, -⟩ := ha
      rw [h.recv] at hlen
      cases hlen
    · obtain ⟨w', heq, hw, hkey, -⟩ := h.step_sent sock
      exact ⟨w', heq, .receives hw hkey, nofun⟩
    · obtain ⟨w', heq, hw | hw⟩ := step_running (h.state ▸ trivial) h.timer h.done hother
      · exact ⟨w', heq, .sends (h.idles hw), fun _ _ hrec => by simp [hrec] at hother⟩
      · exact ⟨w', heq, .stops hw, fun _ _ hrec => by simp [hrec] at hother⟩
  | receives h hkey =>
    rcases hkind with rfl | rfl | hother
    · have hrec {q m : ℕ} (hw : ClientReceives s q m w) :=
        hw.client_received sock (hw.le_of_enabled ha) (hfine _ _ rfl hw)
      obtain ⟨w', heq, hw⟩ := hrec h
      refine ⟨w', heq, ?_, fun q m _ hq => ?_⟩
      · obtain ⟨-, ⟨⟨r, hstops, -, -⟩, -⟩ | ⟨hnext, hkey', -⟩⟩ := hw
        · exact .stops hstops
        · exact .receives hnext (hkey'.trans hkey)
      · obtain ⟨w'', heq', hw'⟩ := hrec hq
        rw [heq] at heq'
        cases heq'
        obtain ⟨-, ⟨⟨r, -, hstate, hset⟩, hnot⟩ | ⟨hnext, -, hlt⟩⟩ := hw'
        · exact Or.inl ⟨r, hstate, hkey ▸ hset, hnot⟩
        · exact Or.inr ⟨hnext.state, _, hnext.recv, Nat.sub_pos_of_lt hlt⟩
    · have hsending := ha.2.2
      rw [h.sending] at hsending
      cases hsending
    · obtain ⟨w', heq, hw | hw⟩ := step_running (h.state ▸ trivial) h.timer h.done hother
      · refine ⟨w', heq, .receives (h.idles hw) ?_, fun _ _ hrec => by simp [hrec] at hother⟩
        rw [hw.hs]
        exact hkey
      · exact ⟨w', heq, .stops hw, fun _ _ hrec => by simp [hrec] at hother⟩
  | stops h =>
    obtain ⟨w', heq, hw⟩ := step_stops h ha
    exact ⟨w', heq, .stops hw, fun _ _ _ hrec => absurd (hrec.state ▸ trivial) h.not_running⟩

/-- The runs of a client that has just been started as `hs`. -/
abbrev ClientRun (sock : Socktype) (hs : Handshake) : List HsAction → HsWorld → Prop :=
  Runs.Trace (HsWorld.step sock) HsWorld.Enabled ⟨hs, []⟩

section Started

variable {hs : Handshake} (hstart : ClientSends key [] ⟨hs, []⟩)
include hstart

/-- A client that has not failed keeps the invariant. -/
theorem ClientRun.inv {as : List HsAction} (h : ClientRun sock hs as w) :
    ClientInv key (arrivals as) w := by
  refine Runs.Trace.invariant (I := fun as w => ClientInv key (arrivals as) w) (.sends hstart) ?_ h
  intro as w a w' b hinv ha heq
  have hfine (p n : ℕ) (hrec : a = .received) (hw : ClientReceives (arrivals as) p n w) :
      ClientFine ((arrivals as).take (p + n)) := by
    subst hrec
    exact hw.client_fine (hw.le_of_enabled ha) heq
  obtain ⟨w'', heq', hw, -⟩ := hinv.step sock ha hfine
  rw [heq] at heq'
  cases heq'
  rw [arrivals_concat]
  exact hw

/-- Every receive that is asked for is reached in a run, unless the process fails before. -/
theorem exists_client_receives (hactive : hs.usock.state = .active)
    (hok : ∀ as w a, ClientRun sock hs as w → w.Enabled a → arrivals (as ++ [a]) <+: s →
      ∃ w', w.step sock a = .ok (w', ())) (h : Asks 16 ClientMore s p n) :
    ∃ as w, ClientRun sock hs as w ∧ arrivals as = s ∧ ClientReceives s p n w ∧
      w.hs.usock.state = .active := by
  induction h with
  | first =>
    have hsends : ClientSends key s ⟨hs, s⟩ :=
      ⟨hstart.state, hstart.mode, hstart.timer, hstart.recv, hstart.sending, hstart.pos, hstart.len,
        hstart.response, hstart.opening, hstart.done, hstart.expected, rfl⟩
    obtain ⟨w', heq, hw, -, hstate⟩ := hsends.step_sent sock
    have hrun : ClientRun sock hs [.arrive s] ⟨hs, s⟩ := .snoc .nil trivial rfl
    have ha : HsWorld.Enabled ⟨hs, s⟩ .sent := by
      refine ⟨?_, hactive, hstart.sending⟩
      rw [hsends.state]
      decide
    refine ⟨_, w', hrun.snoc ha heq, ?_, hw, hstate.trans hactive⟩
    simp [arrivals, HsAction.bytes]
  | @next p n _ hle hmore ih =>
    obtain ⟨as, w, hrun, harr, hw, hactive'⟩ := ih
    have harr' : arrivals (as ++ [.received]) = s := by
      rw [arrivals_concat, harr, HsAction.bytes_received, List.append_nil]
    have ha := hw.enabled hactive' hle
    obtain ⟨w', heq⟩ := hok as w .received hrun ha (harr' ▸ List.prefix_rfl)
    obtain ⟨w'', heq', hstate, ⟨-, hnot⟩ | ⟨hw', -⟩⟩ :=
      hw.client_received sock hle (hw.client_fine hle heq)
    · exact absurd hmore hnot
    · rw [heq] at heq'
      cases heq'
      exact ⟨as ++ [.received], w', hrun.snoc ha heq, harr', hw', hstate.trans hactive'⟩

/-- When the texts after all receives are fine, no action fails. -/
theorem client_step (hfine : ∀ p n, Asks 16 ClientMore s p n → p + n ≤ s.length →
    ClientFine (s.take (p + n)))
    {as : List HsAction} {a : HsAction} (hrun : ClientRun sock hs as w) (ha : w.Enabled a)
    (harr : arrivals (as ++ [a]) <+: s) :
    ∃ w', w.step sock a = .ok (w', ()) ∧
      ∀ p n, a = .received → ClientReceives (arrivals as) p n w →
        w'.Settles key ((arrivals as).take (p + n)) := by
  have hfine' (p n : ℕ) (hrec : a = .received) (hw : ClientReceives (arrivals as) p n w) :
      ClientFine ((arrivals as).take (p + n)) := by
    subst hrec
    rw [arrivals_concat, HsAction.bytes_received, List.append_nil] at harr
    obtain ⟨t, rfl⟩ := harr
    have hle := hw.le_of_enabled ha
    have := hfine p n (hw.asks.append t) (by rw [List.length_append]; omega)
    rwa [List.take_append_of_le_length hle] at this
  obtain ⟨w', heq, -, hset⟩ := (ClientRun.inv hstart hrun).step sock ha hfine'
  exact ⟨w', heq, hset⟩

end Started

/-- The handshake is about to end, or a receive of at least one byte is going on. -/
def HsWorld.GoesOn (w : HsWorld) : Prop :=
  w.hs.state = .stoppingTimerDone ∨ w.hs.state = .stoppingTimerError ∨
    w.hs.state = .clientRecv ∧ ∃ len ∈ w.hs.usock.recv, 0 < len

theorem HsWorld.Settles.goesOn {c : List UInt8} (h : w.Settles key c) : w.GoesOn := by
  rcases h with ⟨r, hstate, -⟩ | h
  · cases r with
    | ok => exact Or.inl hstate
    | error => exact Or.inr (Or.inl hstate)
  · exact Or.inr (Or.inr h)

/-- No run in which a client gets the bytes `s`, or fewer, fails, and what is received settles the
result or is followed by another receive, exactly when the text after every receive is fine. -/
theorem client_returns_iff {resource remoteHost : List UInt8} {rand : Vector UInt8 16}
    {hs : Handshake} (h : nnWsHandshakeStart sock .client resource remoteHost rand = .ok hs)
    (s : List UInt8) :
    (∀ as w a, ClientRun sock hs as w → w.Enabled a → arrivals (as ++ [a]) <+: s →
      ∃ w', w.step sock a = .ok (w', ()) ∧ (a = .received → w.hs.state = .clientRecv → w'.GoesOn)) ↔
    ∀ p n, Asks 16 ClientMore s p n → p + n ≤ s.length → ClientFine (s.take (p + n)) := by
  obtain ⟨acceptKey, text, rfl⟩ := eq_clientStart h
  have hstart := clientStart_sends acceptKey text
  constructor
  · intro hok p n hasks hle
    have hok' (as : List HsAction) (w : HsWorld) (a : HsAction)
        (hrun : ClientRun sock (clientStart acceptKey text) as w)
        (ha : w.Enabled a) (harr : arrivals (as ++ [a]) <+: s) :
        ∃ w', w.step sock a = .ok (w', ()) := by
      obtain ⟨w', heq, -⟩ := hok as w a hrun ha harr
      exact ⟨w', heq⟩
    obtain ⟨as, w, hrun, harr, hw, hactive⟩ := exists_client_receives hstart rfl hok' hasks
    obtain ⟨w', heq⟩ := hok' as w .received hrun (hw.enabled hactive hle) (by simp [harr])
    exact hw.client_fine hle heq
  · intro hfine as w a hrun ha harr
    obtain ⟨w', heq, hset⟩ := client_step hstart hfine hrun ha harr
    refine ⟨w', heq, fun hrec hstate => ?_⟩
    cases ClientRun.inv hstart hrun with
    | sends h => cases hstate.symm.trans h.state
    | receives h _ => exact (hset _ _ hrec h).goesOn
    | stops h => exact absurd (hstate ▸ trivial) h.not_running

end Run

/-- A client of a `PAIR` socket, with the key of zeros. -/
def pairClient : Handshake :=
  clientStart (ascii "ICX+Yqv66kxgM0FcWaLWlFLwTAI=")
    (requestText (ascii "/") (ascii "example.com") (ascii "AAAAAAAAAAAAAAAAAAAAAA==")
      (ascii "pair.sp.nanomsg.org"))

theorem pairClient_start :
    nnWsHandshakeStart .pair .client (ascii "/") (ascii "example.com") (Vector.replicate 16 0) =
    .ok pairClient := by
  have hkey : nnBase64Encode (Vector.replicate 16 (0 : UInt8)).toList 25 =
      some (ascii "AAAAAAAAAAAAAAAAAAAAAA==") := by
    rw [ascii_ofList]
    decide
  have haccept : nnWsHandshakeHashKey (ascii "AAAAAAAAAAAAAAAAAAAAAA==") 29 =
      some (ascii "ICX+Yqv66kxgM0FcWaLWlFLwTAI=") := by
    unfold nnWsHandshakeHashKey
    rw [ascii_ofList, ascii_ofList, ascii_ofList]
    set_option maxRecDepth 20000 in decide
  have hlen : (requestText (ascii "/") (ascii "example.com") (ascii "AAAAAAAAAAAAAAAAAAAAAA==")
      (ascii "pair.sp.nanomsg.org")).length = 195 := by
    rw [requestText_length, length_ascii, length_ascii, length_ascii, length_ascii]
    rfl
  have hresource : 1 ≤ (ascii "/").length := by
    rw [length_ascii]
    exact le_rfl
  have hmap : (nnWsHandshakeSpMap.find? fun e => e.client.protocol = Socktype.pair.protocol) =
      some ⟨.pair, .pair, "pair.sp.nanomsg.org"⟩ := rfl
  rw [nnWsHandshakeStart_client hkey (length_ascii _) haccept (length_ascii _) hresource hmap, hlen,
    if_neg (by decide)]
  rfl

/-- The start of the right answer. -/
def switching : List UInt8 := ascii "HTTP/1.1 101 Swi"

theorem client_returns_iff_switching :
    (∀ p n, Asks 16 ClientMore switching p n → p + n ≤ switching.length →
      ClientFine (switching.take (p + n))) ∧
    ∀ as w a, ClientRun .pair pairClient as w → w.Enabled a → arrivals (as ++ [a]) <+: switching →
      ∃ w', w.step .pair a = .ok (w', ()) ∧
        (a = .received → w.hs.state = .clientRecv → w'.GoesOn) := by
  have hfine (p n : ℕ) (hasks : Asks 16 ClientMore switching p n) (hle : p + n ≤ switching.length) :
      ClientFine (switching.take (p + n)) := by
    have hinc : Incomplete switching := by decide
    have hlen : switching.length = 16 := by decide
    have hall : switching.take (p + n) = switching :=
      List.take_of_length_le (hlen.le.trans hasks.first_le)
    rw [hall]
    exact ⟨Or.inr (by decide), fun h => absurd hinc h, fun _ => by decide⟩
  exact ⟨hfine, (client_returns_iff pairClient_start switching).2 hfine⟩

/-- Another answer than the one that the client expects. -/
def notFound : List UInt8 := ascii "HTTP/1.0 404 Not Found\r\n\r\n"

/-- The parser wants more when the response is complete. -/
theorem notFound_aborts :
    ∃ w, ClientRun .pair pairClient [.sent, .arrive notFound, .received, .received, .received] w ∧
      w.Enabled .received ∧ w.step .pair .received = .error .assertFailed :=
  Runs.Trace.exists_of_runWhile (by decide)

end NanoSocket.Ws

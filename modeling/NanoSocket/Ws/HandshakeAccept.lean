import NanoSocket.Ws.HandshakeServer

/-!
# What a server accepts

A server reports success when its reply has been sent, whatever the reply said.  In runs in which
only the reply to a valid opening gets sent (`CarefulReply`), success means that the opening was
`Acceptable`.

A reply is formatted from the fields that the parser has set (`RepliesTo`); `reply_safe_iff` says
when it fits the buffer and reads no others.
-/

namespace NanoSocket.Ws

/-! ### Acceptance -/

/-- The value of the `Connection` header holds the word `upgrade`. -/
def ConnSays (lines : List (List UInt8)) (tail : List UInt8) : Prop :=
  ∃ v ∈ lastValue "Connection:" lines tail, ascii "upgrade" <:+: v.map tolower

instance (lines : List (List UInt8)) (tail : List UInt8) : Decidable (ConnSays lines tail) :=
  match h : lastValue "Connection:" lines tail with
  | none => .isFalse fun ⟨_, hv, _⟩ => by rw [h] at hv; cases hv
  | some v => decidable_of_iff (ascii "upgrade" <:+: v.map tolower) <| by
      rw [ConnSays, h]
      simp

/-- The word `upgrade` is not found only below the `Connection` header. -/
def ConnOwn (lines : List (List UInt8)) (tail : List UInt8) : Prop :=
  connFound lines tail = true → ConnSays lines tail

instance (lines : List (List UInt8)) (tail : List UInt8) : Decidable (ConnOwn lines tail) :=
  inferInstanceAs (Decidable (_ → _))

/-- The protocol that the client asks for is one that the server speaks; without the header `PAIR`
is presumed. -/
def SubprotocolFits (sock : Socktype) (lines : List (List UInt8)) (tail : List UInt8) : Prop :=
  (∃ e ∈ nnWsHandshakeSpMap, Says "Sec-WebSocket-Protocol:" (ascii e.wsSp) lines tail ∧
    sock.protocol = e.server.protocol) ∨
  lastValue "Sec-WebSocket-Protocol:" lines tail = none ∧
    nnSockIspeer sock Socktype.pair.protocol = true

/-- What an opening must carry. -/
structure Acceptable (sock : Socktype) (lines : List (List UInt8)) (tail : List UInt8) : Prop where
  host : lastValue "Host:" lines tail ≠ none
  key : lastValue "Sec-WebSocket-Key:" lines tail ≠ none
  upgrade : Says "Upgrade:" (ascii "websocket") lines tail
  conn : ConnSays lines tail
  version : Says "Sec-WebSocket-Version:" (ascii "13") lines tail
  subprotocol : SubprotocolFits sock lines tail

theorem acceptable_of_judge {sock : Socktype} {lines : List (List UInt8)} {tail : List UInt8}
    (h : judge sock lines tail = .ok) (hconn : ConnOwn lines tail) :
    Acceptable sock lines tail := by
  have hj := judged sock lines tail
  have hm : ¬ Missing lines tail := by
    intro hm
    rw [judge, if_pos hm] at h
    cases h
  rw [Missing] at hm
  push Not at hm
  obtain ⟨hhost, -, hfound, hkey, -⟩ := hm
  have hown := hconn (Bool.eq_true_of_not_eq_false hfound)
  rw [h] at hj
  cases hj with
  | refused _ _ _ hcode => rcases hcode with hcode | hcode <;> cases hcode
  | peer _ hver hup hmem hproto _ hsock =>
    exact ⟨hhost, hkey, hup, hown, hver, Or.inl ⟨_, hmem, hproto, hsock⟩⟩
  | pair _ hver hup hnone hsock => exact ⟨hhost, hkey, hup, hown, hver, Or.inr ⟨hnone, hsock⟩⟩

/-- The server has received an acceptable opening, which its parser called valid. -/
def Accepted (sock : Socktype) (s : List UInt8) : Prop :=
  ∃ p n uri lines tail o, Asks 151 Incomplete s p n ∧ p + n ≤ s.length ∧
    IsOpening (cstring (s.take (p + n))) uri lines tail ∧
    parseOpening sock (cstring (s.take (p + n))) = .ok (o, .ok) ∧ Acceptable sock lines tail

theorem Accepted.append {sock : Socktype} {s : List UInt8} (h : Accepted sock s) (t : List UInt8) :
    Accepted sock (s ++ t) := by
  obtain ⟨p, n, uri, lines, tail, o, hasks, hle, hopening, hparse, hacc⟩ := h
  have htake : (s ++ t).take (p + n) = s.take (p + n) := List.take_append_of_le_length hle
  refine ⟨p, n, uri, lines, tail, o, hasks.append t, ?_, htake ▸ hopening, htake ▸ hparse, hacc⟩
  rw [List.length_append]
  omega

/-- A reply gets sent only when it accepts an opening that says `upgrade` in its `Connection` header
itself. -/
def CarefulReply (w : HsWorld) (a : HsAction) : Prop :=
  w.Enabled a ∧ (a = .sent → w.hs.state = .serverReply → w.hs.responseCode = some .ok ∧
    ∃ uri lines tail, IsOpening (cstring w.hs.openingHs) uri lines tail ∧ ConnOwn lines tail)

theorem accepted_of_answered {sock : Socktype} {s : List UInt8} {hs : Handshake}
    (h : Answered sock s hs) (hcode : hs.responseCode = some .ok) {uri : List UInt8}
    {lines : List (List UInt8)} {tail : List UInt8}
    (hopening : IsOpening (cstring hs.openingHs) uri lines tail) (hconn : ConnOwn lines tail) :
    Accepted sock s := by
  obtain ⟨p, n, uri', lines', tail', o', hasks, hle, -, hbuf, -, hjudge, hparse', -⟩ := h
  rw [hbuf] at hopening
  obtain ⟨o, hparse, -⟩ := parseOpening_eq sock hopening
  -- both readings are judged by the same run of the parser
  have heq : judge sock lines tail = judge sock lines' tail' := by
    rw [hparse] at hparse'
    exact (Prod.mk.inj (Except.ok.inj hparse')).2
  have hok : judge sock lines tail = .ok := by
    rw [heq]
    exact Option.some.inj (hjudge.symm.trans hcode)
  rw [hok] at hparse
  exact ⟨p, n, uri, lines, tail, o, hasks, hle, hopening, hparse, acceptable_of_judge hok hconn⟩

/-- In a run in which only the reply to a valid opening gets sent, a handshake ends well only after
an acceptable opening, and never after another reply. -/
theorem careful_server_accepts {sock : Socktype} {as : List HsAction} {w : HsWorld}
    (h : ServerRun sock CarefulReply as w) (hdone : w.hs.state = .done) :
    (w.hs.done = some .ok → w.hs.responseCode = some .ok ∧ Accepted sock (arrivals as)) ∧
      (w.hs.responseCode ≠ some .ok → w.hs.done = some .error) := by
  have hinv : ServerInv sock (fun s code => code = some .ok ∧ Accepted sock s) (arrivals as) w := by
    refine h.inv (fun _ _ h => h.1) (fun _ t _ h => ⟨h.1, h.2.append t⟩) fun s w hsent hreplies =>
      ?_
    obtain ⟨hcode, uri, lines, tail, hopening, hconn⟩ := hsent.2 rfl hreplies.state
    exact ⟨hcode, accepted_of_answered hreplies.answered hcode hopening hconn⟩
  cases hinv with
  | receives h => cases hdone.symm.trans h.state
  | replies h => cases hdone.symm.trans h.state
  | stops h hok =>
    rename_i r code
    cases h with
    | stopping hstate =>
      rw [hdone] at hstate
      cases r <;> cases hstate
    | done _ hresult hcode =>
      rw [hresult, hcode]
      cases r with
      | ok => exact ⟨fun _ => hok rfl, fun hne => absurd (hok rfl).1 hne⟩
      | error => exact ⟨nofun, fun _ => rfl⟩

/-- The header lines of a request to a `PAIR` socket. -/
def upgradeLines : List (List UInt8) :=
  [ascii "Host: example.com", ascii "Upgrade: websocket", ascii "Connection: Upgrade",
    ascii "Sec-WebSocket-Key: dGhlIHNhbXBsZSBub25jZQ==", ascii "Sec-WebSocket-Version: 13"]

def upgradeRequest : List UInt8 := requestHead (ascii "/x") ++ (headerText upgradeLines ++ crlf)

theorem upgradeRequest_opening : IsOpening upgradeRequest (ascii "/x") upgradeLines crlf := by
  have hlines : ∀ l ∈ upgradeLines, Line l := by
    unfold upgradeLines
    iterate 5 rw [ascii_ofList]
    decide
  exact ⟨by decide, hlines, Or.inr rfl, rfl⟩

/-- A server that gets a request, replies and stops its timer. -/
def requestRun (request : List UInt8) : List HsAction :=
  [.arrive request, .received, .sent, .task, .task]

/-- The reply gets sent to the right request. -/
def UpgradeReply (w : HsWorld) (a : HsAction) : Prop :=
  w.Enabled a ∧ (a = .sent → w.hs.responseCode = some .ok ∧ w.hs.openingHs = upgradeRequest)

instance (w : HsWorld) (a : HsAction) : Decidable (UpgradeReply w a) :=
  inferInstanceAs (Decidable (_ ∧ _))

theorem upgradeReply_careful (w : HsWorld) (a : HsAction) (h : UpgradeReply w a) :
    CarefulReply w a := by
  refine ⟨h.1, fun hsent _ => ⟨(h.2 hsent).1, ascii "/x", upgradeLines, crlf, ?_, by decide⟩⟩
  have hcstring : cstring upgradeRequest = upgradeRequest := by decide
  rw [(h.2 hsent).2, hcstring]
  exact upgradeRequest_opening

theorem careful_server_accepts_upgrade :
    ∃ w, ServerRun .pair CarefulReply (requestRun upgradeRequest) w ∧ w.hs.done = some .ok ∧
      Accepted .pair (arrivals (requestRun upgradeRequest)) := by
  have hrun : ∃ w, ServerRun .pair UpgradeReply (requestRun upgradeRequest) w ∧
      w.hs.state = .done ∧ w.hs.done = some .ok :=
    Runs.Trace.exists_of_runWhile (by set_option maxRecDepth 20000 in decide)
  obtain ⟨w, hrun, hdone, hok⟩ := hrun
  have hcareful := hrun.mono upgradeReply_careful
  exact ⟨w, hcareful, hok, ((careful_server_accepts hcareful hdone).1 hok).2⟩

/-- A request without the headers of a handshake. -/
def plainRequest : List UInt8 :=
  ascii "GET / HTTP/1.1\r\nHost: example.com\r\nX-Padding: " ++ List.replicate 101 0x78 ++
    ascii "\r\n\r\n"

/-- A request whose `Connection` header says something else, above an `Upgrade` header. -/
def closeRequest : List UInt8 :=
  ascii "GET /abc HTTP/1.1\r\nHost: example.com\r\nConnection: close\r\nUpgrade: websocket\r\n" ++
    ascii "Sec-WebSocket-Key: dGhlIHNhbXBsZSBub25jZQ==\r\nSec-WebSocket-Version: 13\r\n\r\n"

/-- A handshake ends well after a reply that refuses the opening, and after an opening that should
be refused. -/
theorem refused_request_succeeds :
    (∃ w, ServerRun .pair HsWorld.Enabled (requestRun plainRequest) w ∧
      w.hs.responseCode = some .wsproto ∧ (ascii "HTTP/1.1 400") <+: w.hs.response ∧
      w.hs.done = some .ok) ∧
    ∃ w, ServerRun .pair HsWorld.Enabled (requestRun closeRequest) w ∧ w.hs.done = some .ok :=
  ⟨Runs.Trace.exists_of_runWhile (by set_option maxRecDepth 20000 in decide),
    Runs.Trace.exists_of_runWhile (by set_option maxRecDepth 20000 in decide)⟩

/-! ### The buffer of the reply -/

/-- A reply to what `hs` has received is formatted from `hs'`. -/
inductive RepliesTo (sock : Socktype) (hs : Handshake) : Handshake → Prop
  | parsed {verdict : Verdict} {hs' : Handshake} (hverdict : verdict ≠ .recvMore)
      (h : nnWsHandshakeParseClientOpening sock hs = .ok (verdict, hs')) :
      RepliesTo sock hs { hs' with state := .serverReply }
  | tooBig {hs' : Handshake} (h : nnWsHandshakeParseClientOpening sock hs = .ok (.recvMore, hs'))
      (hroom : 4096 < hs'.recvPos + hs'.recvLen +
        (4 - Search.border termseq (hs'.openingHs.take (hs'.recvPos + hs'.recvLen)) 4)) :
      RepliesTo sock hs { hs' with
        recvPos := hs'.recvPos + hs'.recvLen
        recvLen := 4 - Search.border termseq (hs'.openingHs.take (hs'.recvPos + hs'.recvLen)) 4
        responseCode := some .tooBig, state := .serverReply }

/-- The text of the reply is shorter than its buffer, and it is made of fields that were set. -/
def ReplySafe (hs : Handshake) : Prop :=
  match replyText hs.responseCode hs.opening with
  | .ok text => text.length < 512
  | .error f => f ≠ .outOfBounds

instance (hs : Handshake) : Decidable (ReplySafe hs) := by
  unfold ReplySafe
  split <;> infer_instance

/-- What the parser says about the end of the headers. -/
theorem parse_cases {sock : Socktype} {hs hs' : Handshake} {verdict : Verdict}
    (h : nnWsHandshakeParseClientOpening sock hs = .ok (verdict, hs')) :
    verdict = .recvMore ∧ hs' = hs ∧ Incomplete hs.openingHs ∨
      verdict ≠ .recvMore ∧ ¬ Incomplete hs.openingHs ∧
        ∃ o code, parseOpening sock (cstring hs.openingHs) = .ok (o, code) ∧
        hs' = { hs with opening := some o, responseCode := some code } := by
  have hnul : 0 ∈ hs.openingHs ∨ hs.openingHs.length < 4096 := by
    by_contra hno
    unfold nnWsHandshakeParseClientOpening at h
    rw [nnAssert_of_not hno] at h
    cases h
  by_cases hinc : Incomplete hs.openingHs
  · rw [parse_of_incomplete sock rfl hnul hinc] at h
    cases h
    exact Or.inl ⟨rfl, rfl, hinc⟩
  · rw [parse_of_complete sock rfl hnul hinc] at h
    obtain ⟨⟨o, code⟩, hparse, h⟩ := bind_eq_ok.1 h
    cases h
    refine Or.inr ⟨?_, hinc, o, code, hparse, rfl⟩
    split_ifs <;> decide

section Parsed

variable {sock : Socktype} {hs : Handshake} {text : List UInt8} {o : Opening} {code : ResponseCode}

theorem replySafe_opening (h : parseOpening sock text = .ok (o, code))
    (hopening : hs.opening = some o) (hcode : hs.responseCode = some code) {uri : List UInt8}
    {lines : List (List UInt8)} {tail : List UInt8} (hform : IsOpening text uri lines tail) :
    ReplySafe hs ↔ ReplyFits lines tail := by
  obtain ⟨o', hparse, hstored⟩ := parseOpening_eq sock hform
  rw [h] at hparse
  cases hparse
  obtain ⟨reply, hreply, hfits⟩ := @replyText_stored sock _ _ _ hstored
  unfold ReplySafe
  rw [hopening, hcode, hreply]
  exact hfits

theorem replySafe_parsed (h : parseOpening sock text = .ok (o, code))
    (hopening : hs.opening = some o) (hcode : hs.responseCode = some code) :
    ReplySafe hs ↔ ∀ uri lines tail, IsOpening text uri lines tail → ReplyFits lines tail := by
  by_cases hex : ∃ uri lines tail, IsOpening text uri lines tail
  · obtain ⟨uri, lines, tail, hform⟩ := hex
    refine (replySafe_opening h hopening hcode hform).trans
      ⟨fun hfits uri' lines' tail' hform' => ?_, fun hfits => ?_⟩
    · exact (replySafe_opening h hopening hcode hform').1
        ((replySafe_opening h hopening hcode hform).2 hfits)
    · exact hfits _ _ _ hform
  · push Not at hex
    -- no reply is formatted without a response code
    have hnull := parseOpening_malformed hex h
    refine iff_of_true ?_ fun uri lines tail hform => absurd hform (hex uri lines tail)
    unfold ReplySafe
    rw [hcode, hnull]
    exact nofun

end Parsed

/-- The text of a reply is safe exactly when it answers an opening whose end has been received, and
the version that the client sent is not too long. -/
theorem reply_safe_iff {sock : Socktype} {as : List HsAction} {w : HsWorld}
    (h : ServerRun sock HsWorld.Enabled as w) (hstate : w.hs.state = .serverRecv)
    (bytes : List UInt8) {hs' : Handshake} (hreply : RepliesTo sock (w.hs.store bytes) hs') :
    ReplySafe hs' ↔ ¬ Incomplete (w.hs.store bytes).openingHs ∧
      ∀ uri lines tail, IsOpening (cstring (w.hs.store bytes).openingHs) uri lines tail →
        ReplyFits lines tail := by
  have hunset : (w.hs.store bytes).opening = none := by
    have hinv : ServerInv sock (fun _ _ => True) (arrivals as) w :=
      h.inv (fun _ _ h => h) (fun _ _ _ _ => trivial) fun _ _ _ _ => trivial
    cases hinv with
    | receives h =>
      rw [store_server h.mode]
      exact h.opening
    | replies h => cases hstate.symm.trans h.state
    | stops h => exact absurd (hstate ▸ trivial) h.not_running
  cases hreply with
  | parsed hverdict hparse =>
    obtain ⟨hmore, -⟩ | ⟨-, hinc, o, code, hopening, rfl⟩ := parse_cases hparse
    · exact absurd hmore hverdict
    · rw [and_iff_right hinc]
      exact replySafe_parsed hopening rfl rfl
  | tooBig hparse hroom =>
    obtain ⟨-, rfl, hinc⟩ | ⟨hne, -⟩ := parse_cases hparse
    · refine iff_of_false ?_ fun h => h.1 hinc
      unfold ReplySafe
      rw [hunset]
      exact fun hne => hne rfl
    · exact absurd rfl hne

/-- An opening that was received as a whole is answered. -/
theorem exists_repliesTo {sock : Socktype} {hs : Handshake} {text uri : List UInt8}
    {lines : List (List UInt8)} {tail : List UInt8} (hbuf : hs.openingHs = text)
    (hcstring : cstring text = text) (hlt : text.length < 4096) (hinc : ¬ Incomplete text)
    (hform : IsOpening text uri lines tail) :
    ∃ hs', RepliesTo sock hs hs' ∧ (ReplySafe hs' ↔ ReplyFits lines tail) := by
  obtain ⟨o, hparse, -⟩ := parseOpening_eq sock hform
  have heq := parse_of_complete sock hbuf (Or.inr hlt) hinc
  rw [hcstring, hparse, ok_bind] at heq
  exact ⟨_, .parsed (by dsimp only; split_ifs <;> decide) heq,
    replySafe_opening hparse rfl rfl hform⟩

theorem reply_safe_upgrade : ∃ hs', RepliesTo .pair (serverStart.store upgradeRequest) hs' ∧
    (ReplySafe hs' ↔ ¬ Incomplete upgradeRequest ∧
      ∀ uri lines tail, IsOpening (cstring upgradeRequest) uri lines tail →
        ReplyFits lines tail) := by
  obtain ⟨hs', hreply, -⟩ := @exists_repliesTo .pair (serverStart.store upgradeRequest) _ _ _ _ rfl
    (by set_option maxRecDepth 20000 in decide) (by set_option maxRecDepth 20000 in decide)
      (by set_option maxRecDepth 20000 in decide) upgradeRequest_opening
  exact ⟨hs', hreply, @reply_safe_iff .pair [] ⟨serverStart, []⟩ .nil rfl upgradeRequest hs' hreply⟩

/-- A request with a long version. -/
def longVersionLines : List (List UInt8) :=
  [ascii "Sec-WebSocket-Version: " ++ List.replicate 456 0x31]

def longVersionRequest : List UInt8 :=
  requestHead (ascii "/") ++ (headerText longVersionLines ++ crlf)

/-- The request up to the version, which begins at position 39, and the empty line. -/
theorem longVersionRequest_eq : ∃ pre, pre.length = 39 ∧
    longVersionRequest = pre ++ (List.replicate 456 0x31 ++ termseq) := by
  refine ⟨requestHead (ascii "/") ++ ascii "Sec-WebSocket-Version: ", by decide, ?_⟩
  unfold longVersionRequest longVersionLines
  generalize List.replicate 456 (0x31 : UInt8) = version
  simp only [headerText, List.flatMap_cons, List.flatMap_nil, List.append_nil, List.append_assoc]
  rfl

/-- The text after every receive but the last one ends in the version. -/
theorem longVersionRequest_getLast? {n : ℕ} (h : 39 < n) (hle : n ≤ 495) :
    (longVersionRequest.take n).getLast? = some 0x31 := by
  obtain ⟨pre, hpre, heq⟩ := longVersionRequest_eq
  rw [List.getLast?_take, if_neg (by omega), heq, List.getElem?_append_right (by omega),
    List.getElem?_append_left (by rw [List.length_replicate]; omega),
      List.getElem?_replicate_of_lt (by omega)]
  rfl

/-- Nothing but the whole request ends in an empty line. -/
theorem longVersionRequest_incomplete {n : ℕ} (h : n < longVersionRequest.length) :
    Incomplete (longVersionRequest.take n) := by
  have hnot : ¬ termseq <:+: longVersionRequest.dropLast := by
    set_option maxRecDepth 20000 in decide
  refine fun hin => hnot (hin.trans ?_)
  rw [List.dropLast_eq_take]
  exact ((List.takeWhile_prefix _).trans (List.take_prefix_take_left (by omega))).isInfix

/-- The reply repeats the version and is longer than its buffer. -/
theorem long_version_overflows :
    ∃ w, ServerRun .pair HsWorld.Enabled
      (.arrive longVersionRequest :: List.replicate 87 .received) w ∧
      w.hs.state = .serverRecv ∧ w.Enabled .received ∧
      ∃ hs', RepliesTo .pair (w.hs.store (w.stream.take w.hs.recvLen)) hs' ∧ ¬ ReplySafe hs' := by
  have hlen : longVersionRequest.length = 499 := by
    obtain ⟨pre, hpre, heq⟩ := longVersionRequest_eq
    rw [heq, List.length_append, hpre, List.length_append, List.length_replicate]
    rfl
  obtain ⟨w, hrun, hw, hactive⟩ :=
    exists_run_fours .pair (k := 86) (by rw [hlen]; decide) (by rw [hlen]; decide)
    (fun j hj => longVersionRequest_incomplete (by omega))
    fun j hj => Search.border_eq_zero (by decide)
      (longVersionRequest_getLast? (by omega) (by omega)) (by decide) 4
  have hbuf : (w.hs.store (w.stream.take w.hs.recvLen)).openingHs = longVersionRequest := by
    rw [hw.len, hw.store w.hs.usock]
    exact List.take_of_length_le (by rw [hlen])
  have hform : IsOpening longVersionRequest (ascii "/") longVersionLines crlf :=
    ⟨by decide, by set_option maxRecDepth 20000 in decide, Or.inr rfl, rfl⟩
  obtain ⟨hs', hreply, hsafe⟩ := @exists_repliesTo .pair _ _ _ _ _ hbuf
    (by set_option maxRecDepth 20000 in decide) (by set_option maxRecDepth 20000 in decide)
    (by set_option maxRecDepth 20000 in decide) hform
  exact ⟨w, hrun, hw.state, hw.enabled hactive (by rw [hlen]), hs', hreply,
    fun h => absurd (hsafe.1 h) (by set_option maxRecDepth 20000 in decide)⟩

end NanoSocket.Ws

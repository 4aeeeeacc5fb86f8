import NanoSocket.Ws.Base64
import NanoSocket.Ws.HandshakeClient
import NanoSocket.Ws.Sha1

/-!
# The accept key (`transports/ws/ws_handshake.c`)

A client sends a key of 16 random bytes and expects the Base64 text of a hash of it in the response.
The text that it compares with is the one of the standards (`acceptText`), but it compares without
regard to case: `accept_key_exact_iff` says which responses are taken though they do not carry the
text.
-/

namespace NanoSocket.Ws

/-- `NN_WS_HANDSHAKE_MAGIC_GUID`. -/
def magicGuid : List UInt8 := ascii "258EAFA5-E914-47DA-95CA-C5AB0DC85B11"

/-- The text that a server must answer a key with, by the standards. -/
def acceptText (rand : Vector UInt8 16) : List UInt8 :=
  Rfc4648.encode (Fips180.digest (Rfc4648.encode rand.toList ++ magicGuid))

/-- A response is valid only if it carries the text. -/
def ChecksAccept (rand : Vector UInt8 16) (self : Handshake) : Prop :=
  ∀ self', nnWsHandshakeParseServerResponse self = .ok (.valid, self') →
    ∃ reply, self'.reply = some reply ∧ reply.acceptKey.chars = acceptText rand

/-- A response that differs from an acceptable one only in the case of its accept key. -/
def DiffersInCase (accept response : List UInt8) : Prop :=
  (0 ∈ response ∨ response.length < 512) ∧ ¬ Incomplete response ∧
    ∃ status reason lines tail v, IsResponse (cstring response) status reason lines tail ∧
      (tail = [] ∨ tail = crlf) ∧
      SameText true (ascii "101") status ∧ Says "Upgrade:" (ascii "websocket") lines tail ∧
      Says "Connection:" (ascii "Upgrade") lines tail ∧
        lastValue "Sec-WebSocket-Accept:" lines tail = some v ∧
      SameText true accept v ∧ v ≠ accept

/-! ### The key -/

theorem length_digest (m : List UInt8) : (Fips180.digest m).length = 20 := rfl

/-- The text that a client puts in its opening, and the text that it expects. -/
theorem expected_eq (rand : Vector UInt8 16) :
    nnBase64Encode rand.toList 25 = some (Rfc4648.encode rand.toList) ∧
      nnWsHandshakeHashKey (Rfc4648.encode rand.toList) 29 = some (acceptText rand) := by
  have hlen : (Rfc4648.encode rand.toList).length = 24 := by
    rw [Rfc4648.length_encode, Vector.length_toList]
  have hguid : magicGuid.length = 36 := by decide
  constructor
  · rw [nnBase64Encode_eq, if_pos (by rw [Vector.length_toList]; decide)]
  · change nnBase64Encode
      (nnSha1Result ((Rfc4648.encode rand.toList ++ magicGuid).foldl nnSha1Hashbyte nnSha1Init))
      29 = _
    rw [nnSha1Result_eq_digest (by rw [List.length_append, hlen, hguid]; decide), nnBase64Encode_eq,
      if_pos (by rw [length_digest]; decide)]
    rfl

/-- The request leaves the text to compare with. -/
theorem expected_of_request {sock : Socktype} {resource remoteHost : List UInt8}
    {rand : Vector UInt8 16} {self self' : Handshake}
    (h : nnWsHandshakeClientRequest sock resource remoteHost rand self = .ok self') :
    self'.expectedAcceptKey = acceptText rand := by
  obtain ⟨encodedKey, acceptKey, hkey, hlen, -, haccept, hlen', -⟩ := exists_keys rand
  have hexpected := expected_eq rand
  rw [hkey] at hexpected
  obtain rfl := Option.some_inj.1 hexpected.1
  obtain rfl := Option.some_inj.1 (haccept.symm.trans hexpected.2)
  rw [nnWsHandshakeClientRequest_eq hkey hlen haccept hlen'] at h
  split at h
  · cases h
  · split_ifs at h
    cases h
    rfl

/-! ### The verdict -/

section Verdict

variable {expected status : List UInt8} {lines : List (List UInt8)} {tail : List UInt8}

theorem judgeResponse_valid_iff :
    judgeResponse expected status lines tail = .valid ↔
      SameText true (ascii "101") status ∧ Says "Upgrade:" (ascii "websocket") lines tail ∧
        Says "Connection:" (ascii "Upgrade") lines tail ∧
          Says "Sec-WebSocket-Accept:" expected lines tail ∧
        lastValue "Sec-WebSocket-Accept:" lines tail ≠ none := by
  unfold judgeResponse
  split_ifs with h
  · exact iff_of_true rfl h
  · exact iff_of_false nofun h

/-- A complete response gets its verdict, and its fields are there. -/
theorem parse_response_stored (hs : Handshake) {reason : List UInt8}
    (hnul : 0 ∈ hs.response ∨ hs.response.length < 512) (hinc : ¬ Incomplete hs.response)
    (h : IsResponse (cstring hs.response) status reason lines tail)
    (htail : tail = [] ∨ tail = crlf) :
    ∃ reply, reply.acceptKey.chars = (lastValue "Sec-WebSocket-Accept:" lines tail).getD [] ∧
      nnWsHandshakeParseServerResponse hs =
        .ok (judgeResponse hs.expectedAcceptKey status lines tail,
          { hs with reply := some reply }) := by
  obtain ⟨reply, v, hstored, heq⟩ := parseResponse_stored hs.expectedAcceptKey h htail
  refine ⟨reply, (chars_eq hstored.acceptKey).1, ?_⟩
  unfold nnWsHandshakeParseServerResponse
  rw [nnAssert_of hnul, ok_bind]
  dsimp only
  rw [if_neg fun hcut => hinc (Search.cut_eq_none.1 hcut), heq]
  rfl

/-- Only a complete response is valid. -/
theorem complete_of_valid {hs hs' : Handshake}
    (h : nnWsHandshakeParseServerResponse hs = .ok (.valid, hs')) :
    (0 ∈ hs.response ∨ hs.response.length < 512) ∧ ¬ Incomplete hs.response ∧
      Complete (cstring hs.response) := by
  by_cases hnul : 0 ∈ hs.response ∨ hs.response.length < 512
  swap
  · unfold nnWsHandshakeParseServerResponse at h
    rw [nnAssert_of_not hnul] at h
    cases h
  by_cases hmore : Incomplete hs.response ∨ ¬ Complete (cstring hs.response)
  · by_cases htrailing : ¬ Incomplete hs.response → ¬ Trailing (cstring hs.response)
    · obtain ⟨reply, heq⟩ := parse_response_more rfl hnul hmore htrailing
      cases heq.symm.trans h
    · rw [Classical.not_imp, not_not] at htrailing
      obtain ⟨hinc, htrailing⟩ := htrailing
      unfold nnWsHandshakeParseServerResponse at h
      rw [nnAssert_of hnul, ok_bind] at h
      dsimp only at h
      rw [if_neg fun hcut => hinc (Search.cut_eq_none.1 hcut),
        parseResponse_trailing _ htrailing] at h
      cases h
  · rw [not_or, not_not] at hmore
    exact ⟨hnul, hmore⟩

end Verdict

/-- A client takes only responses with the text that it expects, exactly if the response does not
differ in case. -/
theorem accept_key_exact_iff {sock : Socktype} {resource remoteHost : List UInt8}
    {rand : Vector UInt8 16} {self self' : Handshake}
    (h : nnWsHandshakeClientRequest sock resource remoteHost rand self = .ok self')
    (response : List UInt8) :
    ChecksAccept rand { self' with response } ↔ ¬ DiffersInCase (acceptText rand) response := by
  have hexpected := expected_of_request h
  constructor
  · rintro hchecks ⟨hnul, hinc, status, reason, lines, tail, v, hresp, htail, h101, hup,
      hconn, hv, hsame, hne⟩
    obtain ⟨reply, hchars, heq⟩ :=
      parse_response_stored { self' with response } hnul hinc hresp htail
    have hvalid : judgeResponse self'.expectedAcceptKey status lines tail = .valid := by
      rw [hexpected, judgeResponse_valid_iff, hv]
      exact ⟨h101, hup, hconn, by rwa [Says, hv], nofun⟩
    rw [hvalid] at heq
    obtain ⟨reply', hreply, haccept⟩ := hchecks _ heq
    cases hreply
    rw [hchars, hv] at haccept
    exact hne haccept
  · intro hnot hs hvalid
    obtain ⟨hnul, hinc, status, reason, lines, tail, hresp, htail⟩ := complete_of_valid hvalid
    obtain ⟨reply, hchars, heq⟩ :=
      parse_response_stored { self' with response } hnul hinc hresp htail
    obtain ⟨hjudge, rfl⟩ := Prod.mk.inj (Except.ok.inj (heq.symm.trans hvalid))
    rw [hexpected, judgeResponse_valid_iff] at hjudge
    obtain ⟨h101, hup, hconn, hkey, hsome⟩ := hjudge
    obtain ⟨v, hv⟩ := Option.ne_none_iff_exists'.1 hsome
    refine ⟨reply, rfl, ?_⟩
    rw [hchars, hv]
    by_contra hne
    rw [Says, hv] at hkey
    exact hnot ⟨hnul, hinc, status, reason, lines, tail, v, hresp, htail, h101, hup,
      hconn, hv, hkey, hne⟩

/-! ### A key and two responses -/

/-- The key "the sample nonce". -/
def sampleKey : Vector UInt8 16 :=
  #v[0x74, 0x68, 0x65, 0x20, 0x73, 0x61, 0x6d, 0x70, 0x6c, 0x65, 0x20, 0x6e, 0x6f, 0x6e, 0x63, 0x65]

theorem sampleKey_accept : acceptText sampleKey = ascii "s3pPLMBiTxaQ9kYGzzhZRbK+xOo=" := by
  have hexpected := expected_eq sampleKey
  have hcode : (nnBase64Encode sampleKey.toList 25).bind (nnWsHandshakeHashKey · 29) =
      some (ascii "s3pPLMBiTxaQ9kYGzzhZRbK+xOo=") := by
    simp only [nnWsHandshakeHashKey]
    rw [ascii_ofList, ascii_ofList]
    set_option maxRecDepth 20000 in decide
  rw [hexpected.1, Option.bind_some, hexpected.2] at hcode
  exact Option.some_inj.1 hcode

/-- A client that has sent this key. -/
def sampleClient : Handshake :=
  clientStart (ascii "s3pPLMBiTxaQ9kYGzzhZRbK+xOo=")
    (requestText (ascii "/") (ascii "example.com") (ascii "dGhlIHNhbXBsZSBub25jZQ==")
      (ascii "pair.sp.nanomsg.org"))

theorem sampleClient_request :
    nnWsHandshakeClientRequest .pair (ascii "/") (ascii "example.com") sampleKey
    (clientStart [] []) = .ok sampleClient := by
  obtain ⟨hkey, haccept⟩ := expected_eq sampleKey
  have hencoded : Rfc4648.encode sampleKey.toList = ascii "dGhlIHNhbXBsZSBub25jZQ==" := by
    rw [ascii_ofList]
    decide
  rw [hencoded] at hkey haccept
  rw [sampleKey_accept] at haccept
  have hlen : (requestText (ascii "/") (ascii "example.com") (ascii "dGhlIHNhbXBsZSBub25jZQ==")
      (ascii "pair.sp.nanomsg.org")).length = 195 := by
    rw [requestText_length, length_ascii, length_ascii, length_ascii, length_ascii]
    rfl
  have hmap : (nnWsHandshakeSpMap.find? fun e => e.client.protocol = Socktype.pair.protocol) =
      some ⟨.pair, .pair, "pair.sp.nanomsg.org"⟩ := rfl
  rw [nnWsHandshakeClientRequest_eq hkey (length_ascii _) haccept (length_ascii _), hmap]
  dsimp only
  rw [hlen, if_neg (by decide)]
  rfl

/-- An answer with some accept key. -/
def sampleResponse (accept : String) : List UInt8 :=
  ascii "HTTP/1.1 101 Switching Protocols\r\nUpgrade: websocket\r\nConnection: Upgrade\r\nSec-WebSocket-Accept: " ++
    ascii accept ++ ascii "\r\n\r\n"

/-- What the parser makes of the answer. -/
def parsedAccept (accept : String) : Except Fault (Verdict × Option (List UInt8)) :=
  (nnWsHandshakeParseServerResponse { sampleClient with response := sampleResponse accept }).map
      fun r =>
    (r.1, r.2.reply.map fun reply => reply.acceptKey.chars)

theorem checksAccept_iff (accept : String) {v : Verdict} {chars : List UInt8}
    (h : parsedAccept accept = .ok (v, some chars)) :
    ChecksAccept sampleKey { sampleClient with response := sampleResponse accept } ↔
      (v = .valid → chars = ascii "s3pPLMBiTxaQ9kYGzzhZRbK+xOo=") := by
  rw [ChecksAccept, sampleKey_accept]
  unfold parsedAccept at h
  cases hparse :
      nnWsHandshakeParseServerResponse { sampleClient with response := sampleResponse accept } with
  | error e =>
    rw [hparse] at h
    cases h
  | ok r =>
    obtain ⟨v', hs⟩ := r
    rw [hparse] at h
    obtain ⟨rfl, hchars⟩ := Prod.mk.inj (Except.ok.inj h)
    obtain ⟨reply, hreply, rfl⟩ := Option.map_eq_some_iff.1 hchars
    constructor
    · rintro hall rfl
      obtain ⟨reply', hreply', heq⟩ := hall hs rfl
      cases hreply.symm.trans hreply'
      exact heq
    · intro himp hs' heq
      obtain ⟨rfl, rfl⟩ := Prod.mk.inj (Except.ok.inj heq)
      exact ⟨reply, hreply, himp rfl⟩

/-- The right answer. -/
theorem accept_key_exact_iff_sample :
    ¬ DiffersInCase (acceptText sampleKey) (sampleResponse "s3pPLMBiTxaQ9kYGzzhZRbK+xOo=") :=
  (accept_key_exact_iff sampleClient_request _).1 <|
    (checksAccept_iff _
        (show parsedAccept _ = .ok (.valid, some (ascii "s3pPLMBiTxaQ9kYGzzhZRbK+xOo=")) by
      set_option maxRecDepth 20000 in decide)).2 fun _ => rfl

/-- An answer in capital letters is taken. -/
theorem capital_accept_valid :
    nnWsHandshakeClientRequest .pair (ascii "/")
      (ascii "example.com") sampleKey (clientStart [] []) = .ok sampleClient ∧
      ¬ ChecksAccept sampleKey
        { sampleClient with response := sampleResponse "S3PPLMBITXAQ9KYGZZHZRBK+XOO=" } := by
  refine ⟨sampleClient_request, fun hchecks => ?_⟩
  have hparsed : parsedAccept "S3PPLMBITXAQ9KYGZZHZRBK+XOO=" =
      .ok (.valid, some (ascii "S3PPLMBITXAQ9KYGZZHZRBK+XOO=")) := by
    set_option maxRecDepth 20000 in decide
  have hsame := (checksAccept_iff _ hparsed).1 hchecks rfl
  revert hsame
  decide

end NanoSocket.Ws

import NanoSocket.Ws.HandshakeOpening

/-!
# The reply of a server

`nn_ws_handshake_server_reply` formats a text into a buffer of 512 bytes.  A reply to a valid
opening always fits (`switchText` repeats one of ten protocols); any other reply repeats the version
that the client sent, and fits when that one is short enough (`ReplyFits`).
-/

namespace NanoSocket.Ws

theorem nnWsHandshakeHashKey_eq (key : List UInt8) :
    ∃ text, nnWsHandshakeHashKey key 29 = some text ∧ text.length = 28 ∧
      ∀ c ∈ text, IsBase64 c := by
  have hlen := length_nnSha1Result
    ((key ++ ascii "258EAFA5-E914-47DA-95CA-C5AB0DC85B11").foldl nnSha1Hashbyte nnSha1Init)
  obtain ⟨text, htext, hlen', hchars⟩ := @nnBase64Encode_length
    (nnSha1Result ((key ++ ascii "258EAFA5-E914-47DA-95CA-C5AB0DC85B11").foldl
      nnSha1Hashbyte nnSha1Init)) 29
    (by rw [hlen]; decide)
  rw [hlen] at hlen'
  exact ⟨text, htext, hlen', hchars⟩

/-- The version that the client sent does not make the reply too long for its buffer. -/
def ReplyFits (lines : List (List UInt8)) (tail : List UInt8) : Prop :=
  ((lastValue "Sec-WebSocket-Version:" lines tail).getD []).length ≤ if Missing lines tail then 455
    else 442

instance (lines : List (List UInt8)) (tail : List UInt8) : Decidable (ReplyFits lines tail) :=
  inferInstanceAs (Decidable (_ ≤ _))

theorem failText_length (code version : List UInt8) :
    (failText code version).length = code.length + version.length + 36 := by
  simp only [failText, List.length_append, show (ascii "HTTP/1.1 ").length = 9 from length_ascii _,
    show (ascii "\r\n").length = 2 from length_ascii _,
      show (ascii "Sec-WebSocket-Version: ").length = 23 from length_ascii _]
  omega

theorem switchText_length (acceptKey protocol : List UInt8) :
    (switchText acceptKey protocol).length = acceptKey.length + protocol.length + 127 := by
  simp only [switchText, List.length_append,
    show (ascii "HTTP/1.1 101 Switching Protocols\r\n").length = 34 from length_ascii _,
    show (ascii "Upgrade: websocket\r\n").length = 20 from length_ascii _,
    show (ascii "Connection: Upgrade\r\n").length = 21 from length_ascii _,
    show (ascii "Sec-WebSocket-Accept: ").length = 22 from length_ascii _,
    show (ascii "Sec-WebSocket-Protocol: ").length = 24 from length_ascii _,
    show (ascii "\r\n").length = 2 from length_ascii _]
  omega

theorem Says.length {name : String} {expected : List UInt8} {lines : List (List UInt8)}
    {tail : List UInt8} (h : Says name expected lines tail) :
    ((lastValue name lines tail).getD []).length = expected.length :=
  h.length_eq.symm

/-- What a verdict means for the headers. -/
inductive Judged (sock : Socktype) (lines : List (List UInt8)) (tail : List UInt8) :
    ResponseCode → Prop
  | missing (h : Missing lines tail) : Judged sock lines tail .wsproto
  | version (h : ¬ Missing lines tail)
      (hver : ¬ Says "Sec-WebSocket-Version:" (ascii "13") lines tail) :
      Judged sock lines tail .wsversion
  | upgrade (h : ¬ Missing lines tail)
      (hver : Says "Sec-WebSocket-Version:" (ascii "13") lines tail)
      (hup : ¬ Says "Upgrade:" (ascii "websocket") lines tail) : Judged sock lines tail .wsproto
  | refused {code : ResponseCode} (h : ¬ Missing lines tail)
      (hver : Says "Sec-WebSocket-Version:" (ascii "13") lines tail)
      (hup : Says "Upgrade:" (ascii "websocket") lines tail)
      (hcode : code = .notpeer ∨ code = .unknowntype) :
      Judged sock lines tail code
  | peer {e : SpMap} (h : ¬ Missing lines tail)
      (hver : Says "Sec-WebSocket-Version:" (ascii "13") lines tail)
      (hup : Says "Upgrade:" (ascii "websocket") lines tail)
      (hmem : e ∈ nnWsHandshakeSpMap)
      (hproto : Says "Sec-WebSocket-Protocol:" (ascii e.wsSp) lines tail)
      (hsome : lastValue "Sec-WebSocket-Protocol:" lines tail ≠ none)
      (hsock : sock.protocol = e.server.protocol) :
      Judged sock lines tail .ok
  | pair (h : ¬ Missing lines tail) (hver : Says "Sec-WebSocket-Version:" (ascii "13") lines tail)
      (hup : Says "Upgrade:" (ascii "websocket") lines tail)
      (hnone : lastValue "Sec-WebSocket-Protocol:" lines tail = none)
      (hsock : nnSockIspeer sock Socktype.pair.protocol = true) : Judged sock lines tail .ok

theorem judged (sock : Socktype) (lines : List (List UInt8)) (tail : List UInt8) :
    Judged sock lines tail (judge sock lines tail) := by
  unfold judge
  split_ifs with hm hver hup hproto hpair
  · exact .missing hm
  · cases hfind : nnWsHandshakeSpMap.find? fun e =>
      Says "Sec-WebSocket-Protocol:" (ascii e.wsSp) lines tail with
    | none => exact .refused hm hver hup (Or.inr rfl)
    | some e =>
      rw [SpMap.judge]
      split_ifs with hsock
      · have hsaid := List.find?_some hfind
        exact .peer hm hver hup (List.mem_of_find?_eq_some hfind)
          (of_decide_eq_true hsaid) hproto hsock
      · exact .refused hm hver hup (Or.inl rfl)
  · exact .pair hm hver hup (not_not.1 hproto) hpair
  · exact .refused hm hver hup (Or.inl rfl)
  · exact .upgrade hm hver hup
  · exact .version hm hver

theorem replyText_fail {code : ResponseCode} {hint : String}
    (hcode : code.hint = some hint) (o : Opening) :
    replyText (some code) (some o) = .ok (failText (ascii hint) o.version.chars) := by
  cases code <;> cases hcode <;> rfl

theorem replyText_ok (o : Opening) :
    ∃ acceptKey, acceptKey.length = 28 ∧ (∀ c ∈ acceptKey, IsBase64 c) ∧
      nnWsHandshakeHashKey o.key.chars 29 = some acceptKey ∧
      replyText (some .ok) (some o) = .ok (switchText acceptKey o.protocol.chars) := by
  obtain ⟨acceptKey, hkey, hlen, hchars⟩ := nnWsHandshakeHashKey_eq o.key.chars
  refine ⟨acceptKey, hlen, hchars, hkey, ?_⟩
  dsimp only [replyText]
  rw [hkey]
  dsimp only
  rw [nnAssert_of hlen]
  rfl

/-- The reply to an opening, and when its text fits. -/
theorem replyText_stored {sock : Socktype} {o : Opening} {lines : List (List UInt8)}
    {tail : List UInt8} (h : Stored o lines tail) :
    ∃ text, replyText (some (judge sock lines tail)) (some o) = .ok text ∧
      (text.length < 512 ↔ ReplyFits lines tail) := by
  have hversion := (chars_eq h.version).1
  have hprotocol := (chars_eq h.protocol).1
  have hshort : Says "Sec-WebSocket-Version:" (ascii "13") lines tail → ReplyFits lines tail := by
    intro hver
    rw [ReplyFits, hver.length]
    split_ifs <;> decide
  generalize hcode : judge sock lines tail = code
  have hj := judged sock lines tail
  rw [hcode] at hj
  cases hj with
  | missing hm =>
    refine ⟨_, replyText_fail rfl o, ?_⟩
    rw [failText_length, show (ascii "400 Cannot Have Body").length = 20 from length_ascii _,
      hversion, ReplyFits, if_pos hm]
    omega
  | version hm hver =>
    refine ⟨_, replyText_fail rfl o, ?_⟩
    rw [failText_length, show (ascii "400 Unsupported WebSocket Version").length = 33 from
      length_ascii _, hversion, ReplyFits, if_neg hm]
    omega
  | upgrade hm hver hup =>
    refine ⟨_, replyText_fail rfl o, iff_of_true ?_ (hshort hver)⟩
    rw [failText_length, hversion, hver.length]
    decide
  | refused hm hver hup hcode =>
    rcases hcode with rfl | rfl
    all_goals
      refine ⟨_, replyText_fail rfl o, iff_of_true ?_ (hshort hver)⟩
      rw [failText_length, hversion, hver.length]
      decide
  | peer hm hver hup hmem hproto =>
    obtain ⟨acceptKey, hlen, -, -, htext⟩ := replyText_ok o
    refine ⟨_, htext, iff_of_true ?_ (hshort hver)⟩
    rw [switchText_length, hlen, hprotocol, hproto.length]
    have hsize : ∀ e ∈ nnWsHandshakeSpMap, (ascii e.wsSp).length ≤ 25 := by decide
    have := hsize _ hmem
    omega
  | pair hm hver hup hnone =>
    obtain ⟨acceptKey, hlen, -, -, htext⟩ := replyText_ok o
    refine ⟨_, htext, iff_of_true ?_ (hshort hver)⟩
    rw [switchText_length, hlen, hprotocol, hnone]
    decide

end NanoSocket.Ws

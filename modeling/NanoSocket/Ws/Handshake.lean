import NanoSocket.Core.Wire
import NanoSocket.Core.Timer
import NanoSocket.Lib.Runs
import NanoSocket.Ws.Hash
import NanoSocket.Ws.Http
import NanoSocket.Ws.Sws

/-!
# The opening handshake (`transports/ws/ws_handshake.c`)

A client sends a request and a server answers it.  Each side reads what the other one sent into a
buffer, with the shortest possible text first and then a few bytes at a time, so that it stops at
the end of the headers; after every receive it parses the whole buffer again.  A timer runs
meanwhile, and the verdict is reported when the timer has stopped.

A `HsWorld` is a handshake with the bytes of the peer that wait to be received; `HsWorld.step` is
what can happen next.
-/

namespace NanoSocket.Ws

/-- An entry of `NN_WS_HANDSHAKE_SP_MAP`: the socket types of the two sides, and the value of the
header. -/
structure SpMap where
  server : Socktype
  client : Socktype
  wsSp : String

/-- `NN_WS_HANDSHAKE_SP_MAP`. -/
def nnWsHandshakeSpMap : List SpMap :=
  [⟨.pair, .pair, "pair.sp.nanomsg.org"⟩,
    ⟨.req, .rep, "req.sp.nanomsg.org"⟩,
    ⟨.rep, .req, "rep.sp.nanomsg.org"⟩,
    ⟨.pub, .sub, "pub.sp.nanomsg.org"⟩,
    ⟨.sub, .pub, "sub.sp.nanomsg.org"⟩,
    ⟨.surveyor, .respondent, "surveyor.sp.nanomsg.org"⟩,
    ⟨.respondent, .surveyor, "respondent.sp.nanomsg.org"⟩,
    ⟨.push, .pull, "push.sp.nanomsg.org"⟩,
    ⟨.pull, .push, "pull.sp.nanomsg.org"⟩,
    ⟨.bus, .bus, "bus.sp.nanomsg.org"⟩]

/-- `CRLF`. -/
def crlf : List UInt8 := [0x0D, 0x0A]

/-- `NN_WS_HANDSHAKE_TERMSEQ`. -/
def termseq : List UInt8 := [0x0D, 0x0A, 0x0D, 0x0A]

/-- `NN_WS_HANDSHAKE_STATE_*`; the object is stopped only when it is `DONE`. -/
inductive HandshakeState
  | idle
  | serverRecv
  | serverReply
  | clientSend
  | clientRecv
  | handshakeSent
  | stoppingTimerError
  | stoppingTimerDone
  | done
  deriving DecidableEq, Repr

/-- What the parsers find out. -/
inductive Verdict
  | valid
  | recvMore
  | invalid
  deriving DecidableEq, Repr

/-- `NN_WS_HANDSHAKE_RESPONSE_*`. -/
inductive ResponseCode
  | null
  | ok
  | tooBig
  | wsproto
  | wsversion
  | nnproto
  | notpeer
  | unknowntype
  deriving DecidableEq, Repr

/-- The fields that point into the opening of a client. -/
structure Opening where
  host : Value
  origin : Value
  key : Value
  upgrade : Value
  conn : Value
  version : Value
  protocol : Value
  extensions : Value
  uri : Value
  deriving DecidableEq, Repr

/-- The fields that point into the response of a server. -/
structure Response where
  statusCode : Value
  reasonPhrase : Value
  server : Value
  acceptKey : Value
  upgrade : Value
  conn : Value
  version : Value
  protocol : Value
  extensions : Value
  deriving DecidableEq, Repr

/-- What a handshake has asked of its underlying socket: a receive of some bytes, which go to
`recv_pos` of the buffer, and a send. -/
structure HsUsock where
  state : UsockState
  recv : Option ℕ
  sending : Bool
  sent : List UInt8
  deriving DecidableEq, Repr

/-- `NN_WS_HANDSHAKE_OK` and `NN_WS_HANDSHAKE_ERROR`. -/
inductive HandshakeResult
  | ok
  | error
  deriving DecidableEq, Repr

/-- `struct nn_ws_handshake`.  The buffers `opening_hs` and `response` are cut off before the zeros
at their end; the fields that a parser sets hold nothing before it does. -/
structure Handshake where
  state : HandshakeState
  mode : Mode
  timer : Timer
  usock : HsUsock
  openingHs : List UInt8
  recvPos : ℕ
  recvLen : ℕ
  opening : Option Opening
  reply : Option Response
  expectedAcceptKey : List UInt8
  responseCode : Option ResponseCode
  response : List UInt8
  done : Option HandshakeResult
  deriving DecidableEq, Repr

/-! ### Parsing -/

/-- The loop over the header lines, of which some are stored.  It returns nothing when a line does
not end. -/
def headerLoop {F : Type} (headers : List (String × (F → Value → Except Fault F))) :
    ℕ → F → List UInt8 → Except Fault (Option (F × List UInt8))
  | _, fields, [] => .ok (some (fields, []))
  | 0, _, _ :: _ => .error .diverged
  | fuel + 1, fields, c :: str =>
    let pos := c :: str
    match headers.findSome? fun h =>
      (nnWsMatchToken (ascii h.1) pos true false).map fun pos => (h.2, pos) with
    | some (store, pos) =>
      match nnWsMatchValue crlf pos true true with
      | some (value, pos) => do headerLoop headers fuel (← store fields value) pos
      | none => do
        let _ ← store fields .null
        return none
    | none =>
      match nnWsMatchToken crlf pos true false with
      -- all headers are parsed
      | some pos => .ok (some (fields, pos))
      | none =>
        match nnWsMatchValue crlf pos true true with
        -- skip unknown headers
        | some (_, pos) => headerLoop headers fuel fields pos
        | none => .ok none

/-- The value of a `Connection` header: only the presence of `upgrade` matters. -/
def Opening.storeConn (self : Opening) (value : Value) : Except Fault Opening :=
  match value.addr with
  | none => .error .nullDeref
  | some conn =>
    match nnStrcasestr (ascii "upgrade") conn with
    | none => .ok { self with conn := { self.conn with addr := none } }
    | some pos => .ok { self with conn := { addr := some pos, len := 7 } }

/-- The headers of a client. -/
def openingHeaders : List (String × (Opening → Value → Except Fault Opening)) :=
  [("Host:", fun o v => .ok { o with host := v }),
    ("Origin:", fun o v => .ok { o with origin := v }),
    ("Sec-WebSocket-Key:", fun o v => .ok { o with key := v }),
    ("Upgrade:", fun o v => .ok { o with upgrade := v }),
    ("Connection:", Opening.storeConn),
    ("Sec-WebSocket-Version:", fun o v => .ok { o with version := v }),
    ("Sec-WebSocket-Protocol:", fun o v => .ok { o with protocol := v }),
    ("Sec-WebSocket-Extensions:", fun o v => .ok { o with extensions := v })]

/-- The headers of a server. -/
def responseHeaders : List (String × (Response → Value → Except Fault Response)) :=
  [("Server:", fun o v => .ok { o with server := v }),
    ("Sec-WebSocket-Accept:", fun o v => .ok { o with acceptKey := v }),
    ("Upgrade:", fun o v => .ok { o with upgrade := v }),
    ("Connection:", fun o v => .ok { o with conn := v }),
    ("Sec-WebSocket-Version-Server:", fun o v => .ok { o with version := v }),
    ("Sec-WebSocket-Protocol-Server:", fun o v => .ok { o with protocol := v }),
    ("Sec-WebSocket-Extensions:", fun o v => .ok { o with extensions := v })]

/-- The request line: the resource, and the position behind the line. -/
def requestLine (pos : List UInt8) : Option (Value × List UInt8) := do
  let pos ← nnWsMatchToken (ascii "GET ") pos false false
  let (uri, pos) ← nnWsMatchValue [0x20] pos false false
  let pos ← nnWsMatchToken (ascii "HTTP/1.1") pos false false
  let pos ← nnWsMatchToken crlf pos false false
  return (uri, pos)

/-- The status line: the status code, the reason and the position behind the line. -/
def statusLine (pos : List UInt8) : Option (Value × Value × List UInt8) := do
  let pos ← nnWsMatchToken (ascii "HTTP/1.1 ") pos false false
  let (statusCode, pos) ← nnWsMatchValue [0x20] pos false false
  let (reasonPhrase, pos) ← nnWsMatchValue crlf pos false false
  return (statusCode, reasonPhrase, pos)

/-- Is a server with a socket of type `sock` a peer of the clients that an entry of the map is
about? -/
def SpMap.judge (sock : Socktype) : Option SpMap → ResponseCode
  | some e => if sock.protocol = e.server.protocol then .ok else .notpeer
  | none => .unknowntype

/-- What a server with a socket of type `sock` answers to the fields of an opening. -/
def Opening.judge (sock : Socktype) (self : Opening) : ResponseCode :=
  if self.host.addr = none ∨ self.upgrade.addr = none ∨ self.conn.addr = none ∨
    self.key.addr = none ∨
      self.version.addr = none then .wsproto
  else if ¬ nnWsValidateValue (ascii "13") self.version true then .wsversion
  else if ¬ nnWsValidateValue (ascii "websocket") self.upgrade true then .wsproto
  else if ¬ nnWsValidateValue (ascii "Upgrade") self.conn true then .wsproto
  else if self.protocol.addr ≠ none then
    SpMap.judge sock
      (nnWsHandshakeSpMap.find? fun e => nnWsValidateValue (ascii e.wsSp) self.protocol true)
  -- if a protocol is not declared, `PAIR` is presumed
  else if nnSockIspeer sock Socktype.pair.protocol then .ok else .notpeer

/-- The parser of an opening that is there as a whole. -/
def parseOpening (sock : Socktype) (text : List UInt8) : Except Fault (Opening × ResponseCode) := do
  let opening : Opening := ⟨.null, .null, .null, .null, .null, .null, .null, .null, .null⟩
  match requestLine text with
  | none => return (opening, .null)
  | some (uri, pos) =>
    match ← headerLoop openingHeaders pos.length { opening with uri } pos with
    | none => return (opening, .null)
    | some (opening, pos) =>
      nnAssert (pos = [])
      return (opening, opening.judge sock)

/-- `nn_ws_handshake_parse_client_opening`. -/
def nnWsHandshakeParseClientOpening (sock : Socktype) (self : Handshake) :
    Except Fault (Verdict × Handshake) := do
  -- a NULL terminator exists in the buffer
  nnAssert (0 ∈ self.openingHs ∨ self.openingHs.length < 4096)
  let pos := cstring self.openingHs
  if Search.cut termseq pos = none then return (.recvMore, self)
  let (opening, code) ← parseOpening sock pos
  return (if code = .ok then .valid else .invalid,
    { self with opening := some opening, responseCode := some code })

/-- Does a client with the key behind `expected` accept the fields of a response? -/
def Response.judge (expected : List UInt8) (self : Response) : Verdict :=
  if self.statusCode.addr = none ∨ self.upgrade.addr = none ∨ self.conn.addr = none ∨
      self.acceptKey.addr = none then .invalid
  else if ¬ nnWsValidateValue (ascii "101") self.statusCode true then .invalid
  else if ¬ nnWsValidateValue (ascii "websocket") self.upgrade true then .invalid
  else if ¬ nnWsValidateValue (ascii "Upgrade") self.conn true then .invalid
  else if ¬ nnWsValidateValue expected self.acceptKey true then .invalid
  else .valid

/-- The parser of a response that is there as a whole. -/
def parseResponse (expected text : List UInt8) : Except Fault (Response × Verdict) := do
  let reply : Response := ⟨.null, .null, .null, .null, .null, .null, .null, .null, .null⟩
  match statusLine text with
  | none => return (reply, .recvMore)
  | some (statusCode, reasonPhrase, pos) =>
    match ← headerLoop responseHeaders pos.length { reply with statusCode, reasonPhrase } pos with
    | none => return (reply, .recvMore)
    | some (reply, pos) =>
      nnAssert (pos = [])
      return (reply, reply.judge expected)

/-- `nn_ws_handshake_parse_server_response`. -/
def nnWsHandshakeParseServerResponse (self : Handshake) : Except Fault (Verdict × Handshake) := do
  nnAssert (0 ∈ self.response ∨ self.response.length < 512)
  let pos := cstring self.response
  if Search.cut termseq pos = none then return (.recvMore, self)
  let (reply, verdict) ← parseResponse self.expectedAcceptKey pos
  return (verdict, { self with reply := some reply })

/-! ### Requests and replies -/

/-- `nn_ws_handshake_hash_key`. -/
def nnWsHandshakeHashKey (key : List UInt8) (hashedLen : ℕ) : Option (List UInt8) :=
  let guid := ascii "258EAFA5-E914-47DA-95CA-C5AB0DC85B11"
  nnBase64Encode (nnSha1Result ((key ++ guid).foldl nnSha1Hashbyte nnSha1Init)) hashedLen

/-- `nn_usock_send` of a text. -/
def HsUsock.send (self : HsUsock) (text : List UInt8) : HsUsock :=
  { self with sending := true, sent := self.sent ++ text }

/-- `nn_usock_recv`. -/
def HsUsock.receive (self : HsUsock) (len : ℕ) : HsUsock := { self with recv := some len }

/-- The text of `nn_ws_handshake_client_request`. -/
def requestText (resource remoteHost encodedKey wsSp : List UInt8) : List UInt8 :=
  ascii "GET " ++ resource ++ ascii " HTTP/1.1\r\n" ++
    (ascii "Host: " ++ remoteHost ++ ascii "\r\n" ++
      (ascii "Upgrade: websocket\r\n" ++
        (ascii "Connection: Upgrade\r\n" ++
          (ascii "Sec-WebSocket-Key: " ++ encodedKey ++ ascii "\r\n" ++
            (ascii "Sec-WebSocket-Version: 13\r\n" ++
              (ascii "Sec-WebSocket-Protocol: " ++ wsSp ++ ascii "\r\n" ++ ascii "\r\n"))))))

/-- `nn_ws_handshake_client_request`; `rand` is the key. -/
def nnWsHandshakeClientRequest (sock : Socktype) (resource remoteHost : List UInt8)
    (rand : Vector UInt8 16) (self : Handshake) : Except Fault Handshake := do
  match nnBase64Encode rand.toList 25 with
  | none => throw .assertFailed
  | some encodedKey =>
    nnAssert (encodedKey.length = 24)
    match nnWsHandshakeHashKey encodedKey 29 with
    | none => throw .assertFailed
    | some expectedAcceptKey =>
      nnAssert (expectedAcceptKey.length = 28)
      match nnWsHandshakeSpMap.find? fun e => e.client.protocol = sock.protocol with
      | none => throw .assertFailed
      | some e =>
        let openingHs := requestText resource remoteHost encodedKey (ascii e.wsSp)
        if 4096 ≤ openingHs.length then throw .outOfBounds
        return { self with expectedAcceptKey, openingHs, usock := self.usock.send openingHs }

/-- The reply to an opening that is valid. -/
def switchText (acceptKey protocol : List UInt8) : List UInt8 :=
  ascii "HTTP/1.1 101 Switching Protocols\r\n" ++
    (ascii "Upgrade: websocket\r\n" ++
      (ascii "Connection: Upgrade\r\n" ++
        (ascii "Sec-WebSocket-Accept: " ++ acceptKey ++ ascii "\r\n" ++
          (ascii "Sec-WebSocket-Protocol: " ++ protocol ++ ascii "\r\n" ++ ascii "\r\n"))))

/-- The reply to an opening that is not. -/
def failText (code version : List UInt8) : List UInt8 :=
  ascii "HTTP/1.1 " ++ code ++ ascii "\r\n" ++
    (ascii "Sec-WebSocket-Version: " ++ version ++ ascii "\r\n")

/-- The hint for a response code that is not `OK`. -/
def ResponseCode.hint : ResponseCode → Option String
  | .tooBig => some "400 Opening Handshake Too Long"
  | .wsproto => some "400 Cannot Have Body"
  | .wsversion => some "400 Unsupported WebSocket Version"
  | .nnproto => some "400 Missing nanomsg Required Headers"
  | .notpeer => some "400 Incompatible Socket Type"
  | .unknowntype => some "400 Unrecognized Socket Type"
  | .null | .ok => none

/-- The text that `nn_ws_handshake_server_reply` formats.  When the parser has not set the fields,
the pointers and lengths that are read hold whatever the memory held before. -/
def replyText (responseCode : Option ResponseCode) (opening : Option Opening) :
    Except Fault (List UInt8) :=
  match responseCode with
  | some .ok =>
    match opening with
    | none => .error .outOfBounds
    | some opening => do
      match nnWsHandshakeHashKey opening.key.chars 29 with
      | none => throw .assertFailed
      | some acceptKey =>
        nnAssert (acceptKey.length = 28)
        return switchText acceptKey opening.protocol.chars
  | code => do
    match code.bind ResponseCode.hint with
    -- unexpected failure response
    | none => throw .assertFailed
    | some hint =>
      match opening with
      | none => throw .outOfBounds
      | some opening => return failText (ascii hint) opening.version.chars

/-- `nn_ws_handshake_server_reply`. -/
def nnWsHandshakeServerReply (self : Handshake) : Except Fault Handshake := do
  let response ← replyText self.responseCode self.opening
  -- `response` has 512 bytes, one of them for the NUL
  if 512 ≤ response.length then throw .outOfBounds
  return { self with response, usock := self.usock.send response }

/-! ### The state machine -/

/-- What is fed to the state machine of a handshake. -/
inductive HsEvent
  | received
  | sent
  | shutdown
  | error
  | timeout
  | timerStopped
  deriving DecidableEq, Repr

/-- Stop the timer, and wait for it in another state. -/
def Handshake.stopTimer (self : Handshake) (state : HandshakeState) : Except Fault Handshake := do
  return { self with timer := ← nnTimerStop self.timer, state }

/-- `NN_WS_HANDSHAKE_RECV_MORE`: receive as many bytes as may be missing in the terminator; `buf` is
the buffer of the receive, and `size` is how large it is. -/
def Handshake.recvMore (buf : List UInt8) (size : ℕ) (tooBig : Handshake → Except Fault Handshake)
    (self : Handshake) : Except Fault Handshake := do
  let self := { self with recvPos := self.recvPos + self.recvLen }
  nnAssert (self.recvPos < size)
  nnAssert (4 ≤ self.recvPos)
  let i := Search.border termseq (buf.take self.recvPos) 4
  nnAssert (i < 4)
  let self := { self with recvLen := 4 - i }
  if size < self.recvLen + self.recvPos then tooBig self
  else return { self with usock := self.usock.receive self.recvLen }

/-- `nn_ws_handshake_leave`. -/
def nnWsHandshakeLeave (self : Handshake) (rc : HandshakeResult) : Handshake :=
  { self with state := .done, done := some rc }

/-- `NN_USOCK_RECEIVED` in `NN_WS_HANDSHAKE_STATE_SERVER_RECV`. -/
def Handshake.serverReceived (sock : Socktype) (self : Handshake) : Except Fault Handshake := do
  let (verdict, self) ← nnWsHandshakeParseClientOpening sock self
  match verdict with
  | .invalid | .valid => nnWsHandshakeServerReply { self with state := .serverReply }
  | .recvMore =>
    self.recvMore self.openingHs 4096 fun self =>
      nnWsHandshakeServerReply { self with responseCode := some .tooBig, state := .serverReply }

/-- `NN_USOCK_RECEIVED` in `NN_WS_HANDSHAKE_STATE_CLIENT_RECV`. -/
def Handshake.clientReceived (self : Handshake) : Except Fault Handshake := do
  let (verdict, self) ← nnWsHandshakeParseServerResponse self
  match verdict with
  | .invalid => self.stopTimer .stoppingTimerError
  | .valid => self.stopTimer .stoppingTimerDone
  | .recvMore => self.recvMore self.response 512 fun self => self.stopTimer .stoppingTimerError

/-- `nn_ws_handshake_handler`, apart from the start. -/
def nnWsHandshakeHandler (sock : Socktype) (self : Handshake) (ev : HsEvent) :
    Except Fault Handshake :=
  match self.state with
  | .idle => .error .badSource
  | .serverRecv =>
    match ev with
    | .received => self.serverReceived sock
    | .shutdown => .ok self
    | .error | .timeout => self.stopTimer .stoppingTimerError
    | .sent | .timerStopped => .error .badAction
  | .serverReply | .handshakeSent =>
    match ev with
    | .sent => self.stopTimer .stoppingTimerDone
    | .shutdown => .ok self
    | .error | .timeout => self.stopTimer .stoppingTimerError
    | .received | .timerStopped => .error .badAction
  | .clientSend =>
    match ev with
    | .sent => .ok { self with state := .clientRecv, usock := self.usock.receive self.recvLen }
    | .shutdown => .ok self
    | .error | .timeout => self.stopTimer .stoppingTimerError
    | .received | .timerStopped => .error .badAction
  | .clientRecv =>
    match ev with
    | .received => self.clientReceived
    | .shutdown => .ok self
    | .error | .timeout => self.stopTimer .stoppingTimerError
    | .sent | .timerStopped => .error .badAction
  | .stoppingTimerError =>
    match ev with
    | .timerStopped => .ok (nnWsHandshakeLeave self .error)
    | .timeout => .error .badAction
    | _ => .ok self
  | .stoppingTimerDone =>
    match ev with
    | .timerStopped => .ok (nnWsHandshakeLeave self .ok)
    | .timeout => .error .badAction
    | _ => .ok self
  | .done => .error .badSource

/-- The shortest opening of a client. -/
def shortestOpening : String :=
  "GET x HTTP/1.1\r\nUpgrade: websocket\r\nConnection: Upgrade\r\nHost: x\r\nOrigin: x\r\n" ++
    "Sec-WebSocket-Key: xxxxxxxxxxxxxxxxxxxxxxxx\r\nSec-WebSocket-Version: xx\r\n\r\n"

/-- The shortest response of a server. -/
def shortestResponse : String := "HTTP/1.1 xxx\r\n\r\n"

/-- `nn_ws_handshake_start` and the action `NN_FSM_START`. -/
def nnWsHandshakeStart (sock : Socktype) (mode : Mode) (resource remoteHost : List UInt8)
    (rand : Vector UInt8 16) :
    Except Fault Handshake := do
  if mode = .client then nnAssert (1 ≤ resource.length)
  let recvLen := match mode with
    | .server => (ascii shortestOpening).length
    | .client => (ascii shortestResponse).length
  nnAssert (4 ≤ recvLen)
  let self : Handshake :=
    { state := .idle, mode, timer := ← nnTimerStart Timer.init 5000
      usock := { state := .active, recv := none, sending := false, sent := [] }
      openingHs := [], recvPos := 0, recvLen, opening := none, reply :=
        none, expectedAcceptKey := []
      responseCode := none, response := [], done := none }
  match mode with
  | .client =>
    nnAssert (self.recvLen ≤ 512)
    nnWsHandshakeClientRequest sock resource remoteHost rand { self with state := .clientSend }
  | .server =>
    nnAssert (self.recvLen ≤ 4096)
    return { self with state := .serverRecv, usock := self.usock.receive self.recvLen }

/-! ### Runs -/

/-- A handshake and the bytes of the peer that wait to be received. -/
structure HsWorld where
  hs : Handshake
  stream : List UInt8
  deriving DecidableEq, Repr

/-- What can happen: bytes arrive, the underlying socket completes a receive or a send or breaks
down, the worker executes a task of the timer, and the timer expires. -/
inductive HsAction
  | arrive (bytes : List UInt8)
  | received
  | sent
  | shutdown
  | error
  | task
  | expire
  deriving DecidableEq, Repr

/-- The receive in progress can be completed. -/
def HsWorld.CanReceive (w : HsWorld) : Prop :=
  w.hs.state ≠ .done ∧ w.hs.usock.state = .active ∧ ∃ len ∈ w.hs.usock.recv, len ≤ w.stream.length

instance (w : HsWorld) : Decidable w.CanReceive := inferInstanceAs (Decidable (_ ∧ _ ∧ _))

/-- When an action can happen; a handshake that is done gives the underlying socket back. -/
def HsWorld.Enabled (w : HsWorld) : HsAction → Prop
  | .arrive _ => True
  | .received => w.CanReceive
  | .sent => w.hs.state ≠ .done ∧ w.hs.usock.state = .active ∧ w.hs.usock.sending = true
  | .shutdown => w.hs.state ≠ .done ∧ w.hs.usock.state = .active
  | .error => w.hs.state ≠ .done ∧ w.hs.usock.state ≠ .done
  | .task | .expire => w.hs.state ≠ .done

instance (w : HsWorld) (a : HsAction) : Decidable (w.Enabled a) :=
  match a with
  | .arrive _ => .isTrue trivial
  | .received => inferInstanceAs (Decidable w.CanReceive)
  | .sent => inferInstanceAs (Decidable (_ ∧ _ ∧ _))
  | .shutdown | .error => inferInstanceAs (Decidable (_ ∧ _))
  | .task | .expire => inferInstanceAs (Decidable (_ ≠ _))

/-- Bytes that were received go to `recv_pos` of the buffer. -/
def Handshake.store (self : Handshake) (bytes : List UInt8) : Handshake :=
  match self.mode with
  | .server => { self with openingHs := self.openingHs.take self.recvPos ++ bytes }
  | .client => { self with response := self.response.take self.recvPos ++ bytes }

/-- The underlying socket has filled the buffer of the receive in progress. -/
def HsWorld.received (sock : Socktype) (w : HsWorld) : Except Fault HsWorld :=
  match w.hs.usock.recv with
  | none => .ok w
  | some len => do
    let hs :=
      Handshake.store { w.hs with usock := { w.hs.usock with recv := none } } (w.stream.take len)
    return { hs := ← nnWsHandshakeHandler sock hs .received, stream := w.stream.drop len }

/-- The event of the timer, if there is one, is fed to the handshake. -/
def HsWorld.timerEvent (sock : Socktype) (w : HsWorld) (r : Timer × Option TimerEvent) :
    Except Fault HsWorld :=
  match r.2 with
  | none => .ok { w with hs := { w.hs with timer := r.1 } }
  | some .timeout => do
    return { w with hs := ← nnWsHandshakeHandler sock { w.hs with timer := r.1 } .timeout }
  | some .stopped => do
    return { w with
      hs := ← nnWsHandshakeHandler sock { w.hs with timer := r.1.popped } .timerStopped }

/-- One action. -/
def HsWorld.step (sock : Socktype) (w : HsWorld) (a : HsAction) :
    Except Fault (HsWorld × Unit) := do
  let usock := w.hs.usock
  let feed (hs : Handshake) (ev : HsEvent) : Except Fault HsWorld := do
    return { w with hs := ← nnWsHandshakeHandler sock hs ev }
  let w ← match a with
    | .arrive bytes => pure { w with stream := w.stream ++ bytes }
    | .received => w.received sock
    | .sent => feed { w.hs with usock := { usock with sending := false } } .sent
    | .shutdown => feed { w.hs with usock := { usock with state := .removingFd } } .shutdown
    | .error => feed { w.hs with usock := { usock with state := .done } } .error
    | .task => do w.timerEvent sock (← w.hs.timer.runTask)
    | .expire => do w.timerEvent sock (← w.hs.timer.expire)
  return (w, ())

end NanoSocket.Ws

import NanoSocket.Ws.HandshakeOpening

/-!
# The response of a server, as its client reads it

A response is read as a status line and header lines (`IsResponse`).  The parser gives a verdict on
a text that consists of these and possibly an empty line, fails when something stands behind the
empty line, and asks for more otherwise, whether or not more can help.
-/

namespace NanoSocket.Ws

/-- A status line with its end. -/
def statusHead (status reason : List UInt8) : List UInt8 :=
  ascii "HTTP/1.1 " ++ status ++ [0x20] ++ reason ++ crlf

/-- The text is a status line, header lines and a tail. -/
structure IsResponse (text status reason : List UInt8) (lines : List (List UInt8))
    (tail : List UInt8) : Prop where
  noSpace : 0x20 ∉ status
  noCrlf : ¬ crlf <:+: reason
  areLines : ∀ l ∈ lines, Line l
  eq : text = statusHead status reason ++ (headerText lines ++ tail)

/-- The text is a response, with or without the empty line. -/
def Complete (text : List UInt8) : Prop :=
  ∃ status reason lines tail, IsResponse text status reason lines tail ∧ (tail = [] ∨ tail = crlf)

/-- Something stands behind the empty line of a response. -/
def Trailing (text : List UInt8) : Prop :=
  ∃ status reason lines rest, IsResponse text status reason lines (crlf ++ rest) ∧ rest ≠ []

/-- What a client with the key behind `expected` makes of the lines. -/
def judgeResponse (expected status : List UInt8) (lines : List (List UInt8)) (tail : List UInt8) :
    Verdict :=
  if SameText true (ascii "101") status ∧ Says "Upgrade:" (ascii "websocket") lines tail ∧
      Says "Connection:" (ascii "Upgrade") lines tail ∧
        Says "Sec-WebSocket-Accept:" expected lines tail ∧
      lastValue "Sec-WebSocket-Accept:" lines tail ≠ none then .valid
  else .invalid

theorem judgeResponse_ne_recvMore (expected status : List UInt8) (lines : List (List UInt8))
    (tail : List UInt8) :
    judgeResponse expected status lines tail ≠ .recvMore := by
  unfold judgeResponse
  split_ifs <;> decide

theorem statusLine_eq_some {text pos : List UInt8} {code phrase : Value} :
    statusLine text = some (code, phrase, pos) ↔ ∃ status reason, 0x20 ∉ status ∧
      ¬ crlf <:+: reason ∧ text = statusHead status reason ++ pos ∧
      code = { addr := some (status ++ [0x20] ++ reason ++ crlf ++ pos), len := status.length } ∧
      phrase = { addr := some (reason ++ crlf ++ pos), len := reason.length } := by
  have hcrlf {reason : List UInt8} : ¬ crlf <:+: reason ++ crlf.dropLast ↔ ¬ crlf <:+: reason :=
    ⟨fun h hin => h (hin.trans (List.prefix_append _ _).isInfix), not_infix_append_cr⟩
  unfold statusLine
  simp only [Option.bind_eq_bind, Option.bind_eq_some_iff, Option.pure_def, Option.some.injEq,
    Prod.exists, Prod.mk.injEq, nnWsMatchToken_exact, nnWsMatchValue_char,
    nnWsMatchValue_exact (show crlf ≠ [] by decide), hcrlf]
  constructor
  · rintro ⟨pos₁, rfl, v, pos₂, ⟨status, hstatus, rfl, rfl⟩, v', pos₃,
      ⟨reason, hreason, rfl, rfl⟩, rfl, rfl, rfl⟩
    refine ⟨status, reason, hstatus, hreason, ?_, ?_, rfl⟩
    · simp [statusHead]
    · simp
  · rintro ⟨status, reason, hstatus, hreason, rfl, rfl, rfl⟩
    refine ⟨status ++ [0x20] ++ reason ++ crlf ++ pos, ?_, _, reason ++ crlf ++ pos,
      ⟨status, hstatus, ?_, rfl⟩, _, pos, ⟨reason, hreason, rfl, rfl⟩, rfl, rfl, rfl⟩
    · simp [statusHead]
    · simp

/-! ### The headers -/

theorem responseHeaders_names : Names responseHeaders := by
  apply names_of_not_mem
  unfold responseHeaders
  decide

theorem responseHeaders_distinct : Distinct responseHeaders := by
  unfold Distinct responseHeaders
  decide

theorem responseHeaders_ok : ∀ p ∈ responseHeaders, ∀ f v, ∃ f', p.2 f v = .ok f' := by
  intro p hp f v
  simp only [responseHeaders, List.mem_cons, List.not_mem_nil, or_false] at hp
  rcases hp with rfl | rfl | rfl | rfl | rfl | rfl | rfl
  all_goals exact ⟨_, rfl⟩

/-- The response without any field but those of the status line. -/
def Response.blank (statusCode reasonPhrase : Value) : Response :=
  ⟨statusCode, reasonPhrase, .null, .null, .null, .null, .null, .null, .null⟩

/-- What the parser knows about the lines. -/
structure ResponseStored (r : Response) (statusCode : Value) (lines : List (List UInt8))
    (tail : List UInt8) : Prop where
  statusCode : r.statusCode = statusCode
  upgrade : r.upgrade = ((lastLine "Upgrade:" lines tail).map fun p => lineValue p.1 p.2).getD .null
  conn : r.conn = ((lastLine "Connection:" lines tail).map fun p => lineValue p.1 p.2).getD .null
  acceptKey : r.acceptKey =
    ((lastLine "Sec-WebSocket-Accept:" lines tail).map fun p => lineValue p.1 p.2).getD .null

theorem storeLines_response (statusCode reasonPhrase : Value) (lines : List (List UInt8))
    (tail : List UInt8) :
    ∃ r, storeLines responseHeaders (Response.blank statusCode reasonPhrase) lines tail = .ok r ∧
      ResponseStored r statusCode lines tail := by
  obtain ⟨r, heq⟩ := storeLines_ok (fun p hp f v _ => responseHeaders_ok p hp f v) lines tail
    (Response.blank statusCode reasonPhrase)
  have hfield {get : Response → Value} {name : String}
      {store : Response → Value → Except Fault Response}
      (hmem : (name, store) ∈ responseHeaders) (hset : ∀ f v f', store f v = .ok f' → get f' = v)
      (hother : ∀ p ∈ responseHeaders, p.1 ≠ name → ∀ f v f', p.2 f v = .ok f' → get f' = get f) :
      get r = ((lastLine name lines tail).map fun p => lineValue p.1 p.2).getD
        (get (Response.blank statusCode reasonPhrase)) :=
    storeLines_field responseHeaders_distinct hmem hset hother heq
  refine ⟨r, heq, ?_, ?_, ?_, ?_⟩
  · refine storeLines_invariant (P := fun r => r.statusCode = statusCode) ?_ rfl heq
    simp only [responseHeaders, List.forall_mem_cons]
    refine ⟨?_, ?_, ?_, ?_, ?_, ?_, ?_, nofun⟩
    all_goals
      rintro f v _ hf ⟨⟩
      exact hf
  · refine @hfield Response.upgrade "Upgrade:" (fun o v => .ok { o with upgrade := v })
      (by simp [responseHeaders]) ?_
      (by simp [responseHeaders])
    rintro f v _ ⟨⟩
    rfl
  · refine @hfield Response.conn "Connection:" (fun o v => .ok { o with conn := v })
      (by simp [responseHeaders]) ?_
      (by simp [responseHeaders])
    rintro f v _ ⟨⟩
    rfl
  · refine @hfield Response.acceptKey "Sec-WebSocket-Accept:"
      (fun o v => .ok { o with acceptKey := v })
      (by simp [responseHeaders]) ?_ (by simp [responseHeaders])
    rintro f v _ ⟨⟩
    rfl

/-! ### The verdict -/

theorem Says.ne_none {name : String} {expected : List UInt8} {lines : List (List UInt8)}
    {tail : List UInt8} (h : Says name expected lines tail) (hne : expected ≠ []) :
    lastValue name lines tail ≠ none := by
  intro hnone
  rw [Says, hnone] at h
  exact hne (List.forall₂_nil_right_iff.1 h)

theorem ResponseStored.judge {r : Response} {status pos : List UInt8} {lines : List (List UInt8)}
    {tail : List UInt8}
    (h : ResponseStored r { addr := some (status ++ pos), len := status.length } lines tail)
    (expected : List UInt8) :
    r.judge expected = judgeResponse expected status lines tail := by
  have hstatus : nnWsValidateValue (ascii "101") r.statusCode true = true ↔
      SameText true (ascii "101") status := by
    have hchars : r.statusCode.chars = status := by
      rw [h.statusCode, Value.chars, Option.getD_some, List.take_left]
    have hlen : r.statusCode.chars.length = r.statusCode.len := by rw [hchars, h.statusCode]
    rw [nnWsValidateValue_iff hlen, hchars]
  have haddr : r.statusCode.addr ≠ none := by
    rw [h.statusCode]
    exact Option.some_ne_none _
  unfold Response.judge judgeResponse
  simp only [haddr, addr_eq_none h.upgrade, addr_eq_none h.conn, addr_eq_none h.acceptKey, hstatus,
    validate_iff h.upgrade, validate_iff h.conn, validate_iff h.acceptKey, false_or]
  by_cases hall : SameText true (ascii "101") status ∧
    Says "Upgrade:" (ascii "websocket") lines tail ∧
      Says "Connection:" (ascii "Upgrade") lines tail ∧
        Says "Sec-WebSocket-Accept:" expected lines tail ∧
      lastValue "Sec-WebSocket-Accept:" lines tail ≠ none
  · obtain ⟨h101, hup, hconn, hkey, hsome⟩ := hall
    have hpresent :
        ¬ (lastValue "Upgrade:" lines tail = none ∨ lastValue "Connection:" lines tail = none ∨
          lastValue "Sec-WebSocket-Accept:" lines tail = none) := by
      rw [not_or, not_or]
      exact ⟨hup.ne_none (by decide), hconn.ne_none (by decide), hsome⟩
    rw [if_neg hpresent, if_neg (not_not.2 h101), if_neg (not_not.2 hup), if_neg (not_not.2 hconn),
      if_neg (not_not.2 hkey), if_pos ⟨h101, hup, hconn, hkey, hsome⟩]
  · rw [if_neg hall]
    split_ifs with hmissing h101 hup hconn hkey
    all_goals first
      | rfl
      | exact hall ⟨h101, hup, hconn, hkey, fun hnone => hmissing (Or.inr (Or.inr hnone))⟩

section Parser

variable {text status reason tail : List UInt8} {lines : List (List UInt8)} (expected : List UInt8)

theorem parseResponse_lines (h : IsResponse text status reason lines tail) :
    ∃ r fuel, tail.length ≤ fuel ∧ ResponseStored r
        { addr := some (status ++ ([0x20] ++ reason ++ crlf ++ (headerText lines ++ tail))),
          len := status.length } lines tail ∧
      parseResponse expected text = headerLoop responseHeaders fuel r tail >>= fun r' =>
        match r' with
        | none => .ok (⟨.null, .null, .null, .null, .null, .null, .null, .null, .null⟩, .recvMore)
        | some (reply, pos) => nnAssert (pos = []) >>= fun _ =>
          .ok (reply, reply.judge expected) := by
  have hline := statusLine_eq_some.2 ⟨status, reason, h.noSpace, h.noCrlf, h.eq, rfl, rfl⟩
  obtain ⟨r, hstore, hstored⟩ := storeLines_response
    { addr := some (status ++ ([0x20] ++ reason ++ crlf ++ (headerText lines ++ tail))),
      len := status.length }
    { addr := some (reason ++ crlf ++ (headerText lines ++ tail)), len := reason.length } lines tail
  obtain ⟨fuel, hfuel, hloop⟩ := headerLoop_text responseHeaders_names h.areLines
    (Response.blank
      { addr := some (status ++ ([0x20] ++ reason ++ crlf ++ (headerText lines ++ tail))),
        len := status.length }
      { addr := some (reason ++ crlf ++ (headerText lines ++ tail)), len := reason.length }) tail
  rw [hstore, ok_bind] at hloop
  refine ⟨r, fuel, hfuel, hstored, ?_⟩
  rw [← hloop]
  unfold parseResponse
  rw [hline]
  simp only [List.append_assoc]
  rfl

/-- A response gets its verdict, and its fields are there. -/
theorem parseResponse_stored (h : IsResponse text status reason lines tail)
    (htail : tail = [] ∨ tail = crlf) :
    ∃ r v, ResponseStored r v lines tail ∧
      parseResponse expected text = .ok (r, judgeResponse expected status lines tail) := by
  obtain ⟨r, fuel, hfuel, hstored, heq⟩ := parseResponse_lines expected h
  have hloop : headerLoop responseHeaders fuel r tail = .ok (some (r, [])) := by
    rcases htail with rfl | rfl
    · exact headerLoop_nil fuel r
    · obtain ⟨fuel, rfl⟩ :=
        Nat.exists_eq_succ_of_ne_zero (Nat.pos_iff_ne_zero.1 (Nat.zero_lt_two.trans_le hfuel))
      exact headerLoop_blank responseHeaders_names fuel r []
  refine ⟨r, _, hstored, ?_⟩
  rw [heq, hloop, ok_bind]
  dsimp only
  rw [nnAssert_of rfl, ok_bind, hstored.judge]

theorem parseResponse_complete (h : IsResponse text status reason lines tail)
    (htail : tail = [] ∨ tail = crlf) :
    ∃ r, parseResponse expected text = .ok (r, judgeResponse expected status lines tail) := by
  obtain ⟨r, -, -, heq⟩ := parseResponse_stored expected h htail
  exact ⟨r, heq⟩

/-- Nothing may stand behind the empty line. -/
theorem parseResponse_trailing (h : Trailing text) :
    parseResponse expected text = .error .assertFailed := by
  obtain ⟨status, reason, lines, rest, h, hrest⟩ := h
  obtain ⟨r, fuel, hfuel, -, heq⟩ := parseResponse_lines expected h
  obtain ⟨fuel, rfl⟩ := Nat.exists_eq_succ_of_ne_zero (Nat.pos_iff_ne_zero.1
    ((show 0 < (crlf ++ rest).length by simp [crlf]).trans_le hfuel))
  rw [heq, headerLoop_blank responseHeaders_names, ok_bind]
  dsimp only
  rw [nnAssert_of_not hrest]
  rfl

/-- For every other text the parser wants more. -/
theorem parseResponse_more (hcomplete : ¬ Complete text) (htrailing : ¬ Trailing text) :
    ∃ r, parseResponse expected text = .ok (r, .recvMore) := by
  cases hline : statusLine text with
  | none =>
    unfold parseResponse
    rw [hline]
    exact ⟨_, rfl⟩
  | some r =>
    obtain ⟨code, phrase, pos⟩ := r
    obtain ⟨status, reason, hstatus, hreason, htext, -, -⟩ := statusLine_eq_some.1 hline
    obtain ⟨lines, tail, hlines, rfl, htail⟩ := exists_lines pos
    have h : IsResponse text status reason lines tail := ⟨hstatus, hreason, hlines, htext⟩
    cases htail with
    | nil => exact absurd ⟨status, reason, lines, [], h, Or.inl rfl⟩ hcomplete
    | blank rest =>
      by_cases hrest : rest = []
      · subst hrest
        exact absurd ⟨status, reason, lines, crlf ++ [], h, Or.inr (List.append_nil _)⟩ hcomplete
      · exact absurd ⟨status, reason, lines, rest, h, hrest⟩ htrailing
    | unfinished hne hcrlf =>
      obtain ⟨r, fuel, hfuel, -, heq⟩ := parseResponse_lines expected h
      obtain ⟨fuel, rfl⟩ := Nat.exists_eq_succ_of_ne_zero (Nat.pos_iff_ne_zero.1
        ((List.length_pos_of_ne_nil hne).trans_le hfuel))
      rcases headerLoop_unfinished hne hcrlf fuel r with hnone | ⟨p, hp, f, hf, -⟩
      · rw [heq, hnone, ok_bind]
        exact ⟨_, rfl⟩
      · obtain ⟨f', hf'⟩ := responseHeaders_ok p hp r .null
        rw [hf] at hf'
        cases hf'

end Parser

end NanoSocket.Ws

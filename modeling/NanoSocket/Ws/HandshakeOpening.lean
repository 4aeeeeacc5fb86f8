import NanoSocket.Ws.HandshakeText

/-!
# The opening of a client

An opening is read as a request line and header lines (`IsOpening`); of each header the last line
counts. `judge` is the verdict as a function of the lines, and `parseOpening_eq` says that the
parser arrives at it; on any other text the parser leaves the response code at `NULL` or fails
(`parseOpening_malformed`).
-/

namespace NanoSocket.Ws

/-- A request line with its end. -/
def requestHead (uri : List UInt8) : List UInt8 := ascii "GET " ++ uri ++ ascii " HTTP/1.1\r\n"

/-- The text is a request line, header lines and possibly an empty line. -/
structure IsOpening (text uri : List UInt8) (lines : List (List UInt8)) (tail : List UInt8) :
    Prop where
  noSpace : 0x20 ∉ uri
  areLines : ∀ l ∈ lines, Line l
  ends : tail = [] ∨ tail = crlf
  eq : text = requestHead uri ++ (headerText lines ++ tail)

/-- The value of the last header of some name. -/
def lastValue (name : String) (lines : List (List UInt8)) (tail : List UInt8) :
    Option (List UInt8) :=
  (lastLine name lines tail).map fun p => trim p.1

/-- The word `upgrade` is found behind the name of the last `Connection` header, in its value or
below. -/
def connFound (lines : List (List UInt8)) (tail : List UInt8) : Bool :=
  match lastLine "Connection:" lines tail with
  | none => false
  | some (v, rest) =>
    (nnStrcasestr (ascii "upgrade") (v.dropWhile (· = 0x20) ++ crlf ++ rest)).isSome

/-- One of the headers that an opening must have is missing. -/
def Missing (lines : List (List UInt8)) (tail : List UInt8) : Prop :=
  lastValue "Host:" lines tail = none ∨ lastValue "Upgrade:" lines tail = none ∨
    connFound lines tail = false ∨
    lastValue "Sec-WebSocket-Key:" lines tail = none ∨
      lastValue "Sec-WebSocket-Version:" lines tail = none

instance (lines : List (List UInt8)) (tail : List UInt8) : Decidable (Missing lines tail) :=
  inferInstanceAs (Decidable (_ ∨ _ ∨ _ ∨ _ ∨ _))

/-- A header has some value. -/
def Says (name : String) (expected : List UInt8) (lines : List (List UInt8)) (tail : List UInt8) :
    Prop :=
  SameText true expected ((lastValue name lines tail).getD [])

instance (name : String) (expected : List UInt8) (lines : List (List UInt8)) (tail : List UInt8) :
    Decidable (Says name expected lines tail) := inferInstanceAs (Decidable (SameText _ _ _))

/-- The verdict of a server with a socket of type `sock`. -/
def judge (sock : Socktype) (lines : List (List UInt8)) (tail : List UInt8) : ResponseCode :=
  if Missing lines tail then .wsproto
  else if ¬ Says "Sec-WebSocket-Version:" (ascii "13") lines tail then .wsversion
  else if ¬ Says "Upgrade:" (ascii "websocket") lines tail then .wsproto
  else if lastValue "Sec-WebSocket-Protocol:" lines tail ≠ none then
    SpMap.judge sock
      (nnWsHandshakeSpMap.find? fun e => Says "Sec-WebSocket-Protocol:" (ascii e.wsSp) lines tail)
  else if nnSockIspeer sock Socktype.pair.protocol then .ok else .notpeer

/-! ### The request line -/

theorem infix_singleton {a : UInt8} {l : List UInt8} : [a] <:+: l ↔ a ∈ l := by
  constructor
  · intro h
    exact h.subset (List.mem_singleton_self a)
  · intro h
    obtain ⟨s, t, rfl⟩ := List.append_of_mem h
    exact ⟨s, t, by simp⟩

theorem nnWsMatchToken_exact {token pos rest : List UInt8} :
    nnWsMatchToken token pos false false = some rest ↔ pos = token ++ rest := by
  have : nnWsMatchToken token pos false false = matchChars false token pos := rfl
  rw [this, matchChars_eq_some]
  simp [sameText_false]

/-- A value up to a termination sequence. -/
theorem nnWsMatchValue_exact {pat pos rest : List UInt8} {value : Value} (hne : pat ≠ []) :
    nnWsMatchValue pat pos false false = some (value, rest) ↔
      ∃ chars, ¬ pat <:+: chars ++ pat.dropLast ∧ pos = chars ++ pat ++ rest ∧
        value = { addr := some pos, len := chars.length } := by
  unfold nnWsMatchValue
  cases hcut : Search.cut pat pos with
  | none =>
    refine iff_of_false nofun ?_
    rintro ⟨chars, -, rfl, -⟩
    exact Search.cut_eq_none.1 hcut ⟨chars, rest, rfl⟩
  | some r =>
    obtain ⟨chars, pos'⟩ := r
    have heq := Search.eq_of_cut hcut
    simp only [Bool.false_eq_true, if_false, Option.some.injEq, Prod.mk.injEq]
    constructor
    · rintro ⟨rfl, rfl⟩
      exact ⟨chars, Search.not_infix_of_cut hne hcut, heq, by rw [heq]⟩
    · rintro ⟨chars', hnot', heq', rfl⟩
      have hcut' : Search.cut pat pos = some (chars', rest) := by
        rw [heq']
        exact Search.cut_append hne hnot' rest
      rw [hcut] at hcut'
      cases hcut'
      exact ⟨by rw [← heq], rfl⟩

/-- A value up to some character. -/
theorem nnWsMatchValue_char {a : UInt8} {pos rest : List UInt8} {value : Value} :
    nnWsMatchValue [a] pos false false = some (value, rest) ↔
      ∃ chars, a ∉ chars ∧ pos = chars ++ [a] ++ rest ∧
        value = { addr := some pos, len := chars.length } := by
  rw [nnWsMatchValue_exact (List.cons_ne_nil a [])]
  simp only [List.dropLast_singleton, List.append_nil, infix_singleton]

theorem requestLine_eq_some {text pos : List UInt8} {value : Value} :
    requestLine text = some (value, pos) ↔ ∃ uri, 0x20 ∉ uri ∧ text = requestHead uri ++ pos ∧
      value = { addr := some (uri ++ ascii " HTTP/1.1\r\n" ++ pos), len := uri.length } := by
  have hversion : ascii " HTTP/1.1\r\n" = [0x20] ++ (ascii "HTTP/1.1" ++ crlf) := by decide
  unfold requestLine
  simp only [Option.bind_eq_bind, Option.bind_eq_some_iff, Option.pure_def, Option.some.injEq,
    Prod.exists, Prod.mk.injEq, nnWsMatchToken_exact, nnWsMatchValue_char]
  constructor
  · rintro ⟨pos₁, rfl, v, pos₂, ⟨uri, huri, rfl, rfl⟩, pos₃, rfl, pos₄, rfl, rfl, rfl⟩
    refine ⟨uri, huri, ?_, ?_⟩
    · simp [requestHead, hversion]
    · simp [hversion]
  · rintro ⟨uri, huri, rfl, rfl⟩
    refine ⟨uri ++ ascii " HTTP/1.1\r\n" ++ pos, ?_, _, ascii "HTTP/1.1" ++ (crlf ++ pos),
      ⟨uri, huri, ?_, rfl⟩, crlf ++ pos, rfl, pos, rfl, rfl, rfl⟩
    · simp [requestHead]
    · simp [hversion]

/-! ### Searching for a word -/

theorem nnStrncasecmp_iff {key str : List UInt8} (hkey : 0 ∉ key) :
    nnStrncasecmp str key key.length = true ↔ ∃ chars rest, str = chars ++ rest ∧
      SameText true key chars := by
  have hzero : ∀ c : UInt8, tolower 0 = tolower c → c = 0 := fun c h =>
    (tolower_eq_iff (by decide) c).1 h.symm
  induction key generalizing str with
  | nil => exact iff_of_true rfl ⟨[], str, rfl, .nil⟩
  | cons k key ih =>
    rw [List.mem_cons, not_or] at hkey
    cases str with
    | nil =>
      have hne : ¬ tolower 0 = tolower k := fun h => hkey.1 (hzero k h).symm
      refine iff_of_false (by simp [nnStrncasecmp, hne]) ?_
      rintro ⟨chars, rest, heq, hsame⟩
      cases hsame
      cases heq
    | cons c str =>
      have hstep : nnStrncasecmp (c :: str) (k :: key) (k :: key).length = true ↔
          tolower c = tolower k ∧ nnStrncasecmp str key key.length = true := by
        simp [nnStrncasecmp]
      refine hstep.trans ((and_congr_right' (ih hkey.2)).trans ?_)
      constructor
      · rintro ⟨hc, chars, rest, rfl, hsame⟩
        exact ⟨c :: chars, rest, rfl, hsame.cons (by simp [sameChar, hc])⟩
      · rintro ⟨chars, rest, heq, hsame⟩
        cases hsame with
        | cons hk hsame =>
          cases heq
          exact ⟨by simpa [sameChar, eq_comm] using hk, _, _, rfl, hsame⟩

/-- The word is found where it stands first. -/
theorem of_nnStrcasestr {key str pos : List UInt8} (hkey : 0 ∉ key)
    (h : nnStrcasestr key str = some pos) :
    ∃ chars rest, pos = chars ++ rest ∧ SameText true key chars ∧ pos <:+ str := by
  induction str with
  | nil => cases h
  | cons c str ih =>
    rw [nnStrcasestr] at h
    split_ifs at h with hcmp
    · cases h
      obtain ⟨chars, rest, heq, hsame⟩ := (nnStrncasecmp_iff hkey).1 hcmp
      exact ⟨chars, rest, heq, hsame, List.suffix_rfl⟩
    · obtain ⟨chars, rest, heq, hsame, hsuf⟩ := ih h
      exact ⟨chars, rest, heq, hsame, hsuf.trans (List.suffix_cons c str)⟩

theorem nnStrcasestr_isSome {key str : List UInt8} (hkey : 0 ∉ key) (hne : key ≠ []) :
    (nnStrcasestr key str).isSome ↔ ∃ chars, SameText true key chars ∧ chars <:+: str := by
  induction str with
  | nil =>
    refine iff_of_false nofun ?_
    rintro ⟨chars, hsame, hin⟩
    rw [List.infix_nil.1 hin] at hsame
    cases hsame
    exact hne rfl
  | cons c str ih =>
    have hstep : (nnStrcasestr key (c :: str)).isSome ↔
        nnStrncasecmp (c :: str) key key.length = true ∨ (nnStrcasestr key str).isSome := by
      rw [nnStrcasestr]
      split_ifs with hcmp <;> simp [hcmp]
    rw [hstep, nnStrncasecmp_iff hkey, ih]
    constructor
    · rintro (⟨chars, rest, heq, hsame⟩ | ⟨chars, hsame, hin⟩)
      · exact ⟨chars, hsame, by rw [heq]; exact (List.prefix_append _ _).isInfix⟩
      · exact ⟨chars, hsame, List.infix_cons hin⟩
    · rintro ⟨chars, hsame, hin⟩
      rcases List.infix_cons_iff.1 hin with ⟨rest, hpre⟩ | hin
      · exact Or.inl ⟨chars, rest, hpre.symm, hsame⟩
      · exact Or.inr ⟨chars, hsame, hin⟩

/-! ### The headers -/

theorem openingHeaders_names : Names openingHeaders := by
  apply names_of_not_mem
  unfold openingHeaders
  decide

theorem openingHeaders_distinct : Distinct openingHeaders := by
  unfold Distinct openingHeaders
  decide

/-- What the parser knows about the lines. -/
structure Stored (o : Opening) (lines : List (List UInt8)) (tail : List UInt8) : Prop where
  host : o.host = ((lastLine "Host:" lines tail).map fun p => lineValue p.1 p.2).getD .null
  key : o.key =
    ((lastLine "Sec-WebSocket-Key:" lines tail).map fun p => lineValue p.1 p.2).getD .null
  upgrade : o.upgrade = ((lastLine "Upgrade:" lines tail).map fun p => lineValue p.1 p.2).getD .null
  version : o.version =
    ((lastLine "Sec-WebSocket-Version:" lines tail).map fun p => lineValue p.1 p.2).getD .null
  protocol : o.protocol =
    ((lastLine "Sec-WebSocket-Protocol:" lines tail).map fun p => lineValue p.1 p.2).getD .null
  conn : o.conn.addr.isSome = connFound lines tail
  connLen : o.conn.addr ≠ none → nnWsValidateValue (ascii "Upgrade") o.conn true = true

theorem storeConn_ok {o o' : Opening} {v : Value} (h : o.storeConn v = .ok o') :
    o' = { o with conn := o'.conn } ∧ o'.conn.addr = v.addr.bind (nnStrcasestr (ascii "upgrade")) ∧
      (o'.conn.addr ≠ none → o'.conn.len = 7) := by
  unfold Opening.storeConn at h
  cases haddr : v.addr with
  | none =>
    rw [haddr] at h
    cases h
  | some text =>
    rw [haddr] at h
    dsimp only at h
    cases hstr : nnStrcasestr (ascii "upgrade") text with
    | none =>
      rw [hstr] at h
      cases h
      exact ⟨rfl, hstr.symm, fun h => absurd rfl h⟩
    | some pos =>
      rw [hstr] at h
      cases h
      exact ⟨rfl, hstr.symm, fun _ => rfl⟩

/-- A store sets one field. -/
theorem openingHeaders_frame {γ : Type} {get : Opening → γ} {name : String}
    (hother : ∀ p ∈ openingHeaders, p.1 ≠ "Connection:" → p.1 ≠ name → ∀ f v f',
      p.2 f v = .ok f' → get f' = get f)
    (hconn : ∀ (f : Opening) c, get { f with conn := c } = get f) :
    ∀ p ∈ openingHeaders, p.1 ≠ name → ∀ f v f', p.2 f v = .ok f' → get f' = get f := by
  intro p hp hname f v f' heq
  by_cases hc : p.1 = "Connection:"
  · have hp : p = ("Connection:", Opening.storeConn) := by
      simp only [openingHeaders, List.mem_cons, List.not_mem_nil, or_false] at hp
      rcases hp with rfl | rfl | rfl | rfl | rfl | rfl | rfl | rfl
      case inr.inr.inr.inr.inl => rfl
      all_goals exact absurd hc (by decide)
    subst hp
    rw [(storeConn_ok heq).1, hconn]
  · exact hother p hp hc hname f v f' heq

/-- A header other than `Connection` is stored as it is. -/
theorem stored_value {get : Opening → Value} {name : String}
    {store : Opening → Value → Except Fault Opening} (hmem : (name, store) ∈ openingHeaders)
    (hset : ∀ f v f', store f v = .ok f' → get f' = v) (hother : ∀ p ∈ openingHeaders,
      p.1 ≠ "Connection:" → p.1 ≠ name → ∀ f v f', p.2 f v = .ok f' → get f' = get f)
    (hconn : ∀ (f : Opening) c, get { f with conn := c } = get f) {lines : List (List UInt8)}
    {tail : List UInt8} {o o' : Opening} (heq : storeLines openingHeaders o lines tail = .ok o')
    (hnull : get o = .null) :
    get o' = ((lastLine name lines tail).map fun p => lineValue p.1 p.2).getD .null := by
  rw [← hnull]
  exact storeLines_field openingHeaders_distinct hmem hset (openingHeaders_frame hother hconn) heq

theorem openingHeaders_ok :
    ∀ p ∈ openingHeaders, ∀ f v, v.addr ≠ none → ∃ f', p.2 f v = .ok f' := by
  intro p hp f v hv
  obtain ⟨text, htext⟩ := Option.ne_none_iff_exists'.1 hv
  simp only [openingHeaders, List.mem_cons, List.not_mem_nil, or_false] at hp
  rcases hp with rfl | rfl | rfl | rfl | rfl | rfl | rfl | rfl
  case inr.inr.inr.inr.inl =>
    dsimp only
    rw [Opening.storeConn, htext]
    dsimp only
    cases nnStrcasestr (ascii "upgrade") text with
    | none => exact ⟨_, rfl⟩
    | some pos => exact ⟨_, rfl⟩
  all_goals exact ⟨_, rfl⟩

/-- The opening without any field but the resource. -/
def Opening.blank (uri : Value) : Opening :=
  ⟨.null, .null, .null, .null, .null, .null, .null, .null, uri⟩

/-- The lines of an opening are stored. -/
theorem storeLines_stored (uri : Value) (lines : List (List UInt8)) (tail : List UInt8) :
    ∃ o, storeLines openingHeaders (Opening.blank uri) lines tail = .ok o ∧
      Stored o lines tail := by
  obtain ⟨o, heq⟩ := storeLines_ok openingHeaders_ok lines tail (Opening.blank uri)
  have hconn : o.conn.addr =
      ((lastLine "Connection:" lines tail).map fun p =>
        (lineValue p.1 p.2).addr.bind (nnStrcasestr (ascii "upgrade"))).getD none := by
    refine @storeLines_field Opening _ _ openingHeaders_distinct (fun o => o.conn.addr)
      (fun v => v.addr.bind (nnStrcasestr (ascii "upgrade"))) ("Connection:", Opening.storeConn)
      (by simp [openingHeaders]) (fun f v f' h => (storeConn_ok h).2.1) ?_ lines tail _ o heq
    intro p hp hname f v f' h
    simp only [openingHeaders, List.mem_cons, List.not_mem_nil, or_false] at hp
    rcases hp with rfl | rfl | rfl | rfl | rfl | rfl | rfl | rfl
    case inr.inr.inr.inr.inl => exact absurd rfl hname
    all_goals
      cases h
      rfl
  refine ⟨o, heq, ?_, ?_, ?_, ?_, ?_, ?_, ?_⟩
  · refine @stored_value Opening.host "Host:" _ List.mem_cons_self ?_ (by simp [openingHeaders])
      (fun _ _ => rfl)
      lines tail _ o heq rfl
    rintro f v _ ⟨⟩
    rfl
  · refine @stored_value Opening.key "Sec-WebSocket-Key:" (fun o v => .ok { o with key := v })
      (by simp [openingHeaders]) ?_ (by simp [openingHeaders])
        (fun _ _ => rfl) lines tail _ o heq rfl
    rintro f v _ ⟨⟩
    rfl
  · refine @stored_value Opening.upgrade "Upgrade:" (fun o v => .ok { o with upgrade := v })
      (by simp [openingHeaders]) ?_ (by simp [openingHeaders])
        (fun _ _ => rfl) lines tail _ o heq rfl
    rintro f v _ ⟨⟩
    rfl
  · refine @stored_value Opening.version "Sec-WebSocket-Version:"
      (fun o v => .ok { o with version := v })
      (by simp [openingHeaders]) ?_ (by simp [openingHeaders])
        (fun _ _ => rfl) lines tail _ o heq rfl
    rintro f v _ ⟨⟩
    rfl
  · refine @stored_value Opening.protocol "Sec-WebSocket-Protocol:"
      (fun o v => .ok { o with protocol := v })
      (by simp [openingHeaders]) ?_ (by simp [openingHeaders])
        (fun _ _ => rfl) lines tail _ o heq rfl
    rintro f v _ ⟨⟩
    rfl
  · rw [hconn, connFound]
    cases lastLine "Connection:" lines tail with
    | none => rfl
    | some p => rfl
  · refine storeLines_invariant (P := fun o => o.conn.addr ≠ none →
      nnWsValidateValue (ascii "Upgrade") o.conn true = true)
      ?_ (fun h => absurd rfl h) heq
    intro p hp f v f' hP h
    simp only [openingHeaders, List.mem_cons, List.not_mem_nil, or_false] at hp
    rcases hp with rfl | rfl | rfl | rfl | rfl | rfl | rfl | rfl
    case inr.inr.inr.inr.inl =>
      intro hne
      obtain ⟨-, haddr, hlen⟩ := storeConn_ok h
      have hlen := hlen hne
      obtain ⟨pos, hpos⟩ := Option.ne_none_iff_exists'.1 hne
      rw [hpos] at haddr
      obtain ⟨text, -, htext⟩ := Option.bind_eq_some_iff.1 haddr.symm
      obtain ⟨chars, rest, rfl, hsame, -⟩ := of_nnStrcasestr (by decide) htext
      have hchars : f'.conn.chars = chars := by
        rw [Value.chars, hpos, hlen, Option.getD_some, show 7 = chars.length from
          hsame.length_eq, List.take_left]
      rw [nnWsValidateValue_iff (by rw [hchars, hlen]; exact hsame.length_eq.symm),
        hchars, sameText_true]
      rw [sameText_true] at hsame
      rw [← hsame]
      decide
    all_goals
      cases h
      exact hP

/-! ### The verdict -/

section Values

variable {name : String} {lines : List (List UInt8)} {tail : List UInt8} {v : Value}

theorem addr_eq_none
    (h : v = ((lastLine name lines tail).map fun p => lineValue p.1 p.2).getD .null) :
    v.addr = none ↔ lastValue name lines tail = none := by
  subst h
  rw [lastValue]
  cases lastLine name lines tail with
  | none => exact iff_of_true rfl rfl
  | some p => exact iff_of_false nofun nofun

theorem chars_eq (h : v = ((lastLine name lines tail).map fun p => lineValue p.1 p.2).getD .null) :
    v.chars = (lastValue name lines tail).getD [] ∧ v.chars.length = v.len := by
  subst h
  rw [lastValue]
  cases lastLine name lines tail with
  | none => exact ⟨rfl, rfl⟩
  | some p =>
    have hchars := lineValue_chars p.1 p.2
    exact ⟨hchars, congrArg List.length hchars⟩

theorem validate_iff
    (h : v = ((lastLine name lines tail).map fun p => lineValue p.1 p.2).getD .null)
    (expected : List UInt8) :
    nnWsValidateValue expected v true = true ↔ Says name expected lines tail := by
  obtain ⟨hchars, hlen⟩ := chars_eq h
  rw [nnWsValidateValue_iff hlen, hchars, Says]

end Values

theorem Stored.judge {o : Opening} {lines : List (List UInt8)} {tail : List UInt8}
    (h : Stored o lines tail) (sock : Socktype) : o.judge sock = Ws.judge sock lines tail := by
  have hconn : o.conn.addr = none ↔ connFound lines tail = false := by
    rw [← h.conn]
    cases o.conn.addr <;> simp
  have hmissing :
      (o.host.addr = none ∨ o.upgrade.addr = none ∨ o.conn.addr = none ∨ o.key.addr = none ∨
        o.version.addr = none) ↔ Missing lines tail := by
    rw [addr_eq_none h.host, addr_eq_none h.upgrade, hconn, addr_eq_none h.key,
      addr_eq_none h.version, Missing]
  have hfind :
      (nnWsHandshakeSpMap.find? fun e => nnWsValidateValue (ascii e.wsSp) o.protocol true) =
      nnWsHandshakeSpMap.find? fun e =>
        Says "Sec-WebSocket-Protocol:" (ascii e.wsSp) lines tail := by
    congr 1
    funext e
    exact Bool.eq_iff_iff.2 ((validate_iff h.protocol _).trans (decide_eq_true_iff).symm)
  -- the word that was found is always the one that is asked for
  have hword (hm : ¬ Missing lines tail) :
      nnWsValidateValue (ascii "Upgrade") o.conn true = true := by
    rw [Missing, not_or, not_or, not_or] at hm
    exact h.connLen fun hnone => hm.2.2.1 (hconn.1 hnone)
  unfold Opening.judge Ws.judge
  simp only [hmissing, validate_iff h.version, validate_iff h.upgrade, ne_eq,
    addr_eq_none h.protocol, hfind]
  by_cases hm : Missing lines tail
  · rw [if_pos hm, if_pos hm]
  · simp only [hm, hword hm, not_true_eq_false, if_false]

theorem parseOpening_of_line (sock : Socktype) {text pos : List UInt8} {uri : Value}
    (h : requestLine text = some (uri, pos)) :
    parseOpening sock text = headerLoop openingHeaders pos.length (Opening.blank uri) pos >>=
      fun r =>
      match r with
      | none => .ok (Opening.blank .null, .null)
      | some (o, pos) => nnAssert (pos = []) >>= fun _ => .ok (o, o.judge sock) := by
  unfold parseOpening
  rw [h]
  rfl

/-- An opening gets its verdict. -/
theorem parseOpening_eq (sock : Socktype) {text uri : List UInt8} {lines : List (List UInt8)}
    {tail : List UInt8} (h : IsOpening text uri lines tail) :
    ∃ o, parseOpening sock text = .ok (o, judge sock lines tail) ∧ Stored o lines tail := by
  have hline := requestLine_eq_some.2 ⟨uri, h.noSpace, h.eq, rfl⟩
  obtain ⟨o, hstore, hstored⟩ := storeLines_stored
    { addr := some (uri ++ ascii " HTTP/1.1\r\n" ++ (headerText lines ++ tail)),
      len := uri.length } lines tail
  obtain ⟨fuel, hfuel, hloop⟩ := headerLoop_text openingHeaders_names h.areLines
    (Opening.blank { addr := some (uri ++ ascii " HTTP/1.1\r\n" ++ (headerText lines ++ tail)),
                     len := uri.length }) tail
  have htail : headerLoop openingHeaders fuel o tail = .ok (some (o, [])) := by
    rcases h.ends with rfl | rfl
    · exact headerLoop_nil fuel o
    · obtain ⟨fuel, rfl⟩ :=
        Nat.exists_eq_succ_of_ne_zero (Nat.pos_iff_ne_zero.1 (Nat.zero_lt_two.trans_le hfuel))
      exact headerLoop_blank openingHeaders_names fuel o []
  refine ⟨o, ?_, hstored⟩
  rw [parseOpening_of_line sock hline, hloop, hstore, ok_bind, htail, ok_bind]
  dsimp only
  rw [nnAssert_of rfl, ok_bind, hstored.judge]

/-- Any other text leaves the response code at `NULL`, or the parser fails. -/
theorem parseOpening_malformed {sock : Socktype} {text : List UInt8}
    (h : ∀ uri lines tail, ¬ IsOpening text uri lines tail) {o : Opening} {code : ResponseCode}
    (heq : parseOpening sock text = .ok (o, code)) : code = .null := by
  cases hline : requestLine text with
  | none =>
    unfold parseOpening at heq
    rw [hline] at heq
    cases heq
    rfl
  | some r =>
    obtain ⟨value, pos⟩ := r
    obtain ⟨uri, huri, htext, -⟩ := requestLine_eq_some.1 hline
    obtain ⟨lines, tail, hlines, rfl, htail⟩ := exists_lines pos
    obtain ⟨fuel, hfuel, hloop⟩ :=
      headerLoop_text openingHeaders_names hlines (Opening.blank value) tail
    rw [parseOpening_of_line sock hline, hloop] at heq
    obtain ⟨r, hr, heq⟩ := bind_eq_ok.1 heq
    obtain ⟨o', -, hr⟩ := bind_eq_ok.1 hr
    have hfuel' (hne : tail ≠ []) : ∃ n, fuel = n + 1 :=
      Nat.exists_eq_succ_of_ne_zero (Nat.pos_iff_ne_zero.1
        ((List.length_pos_of_ne_nil hne).trans_le hfuel))
    cases htail with
    | nil => exact absurd ⟨huri, hlines, Or.inl rfl, htext⟩ (h uri lines [])
    | blank rest =>
      obtain ⟨n, rfl⟩ := hfuel' (by simp [crlf])
      rw [headerLoop_blank openingHeaders_names] at hr
      cases hr
      obtain ⟨_, hassert, _⟩ := bind_eq_ok.1 heq
      cases rest with
      | nil =>
        rw [List.append_nil] at htext
        exact absurd ⟨huri, hlines, Or.inr rfl, htext⟩ (h uri lines crlf)
      | cons c rest =>
        rw [nnAssert_of_not (by simp)] at hassert
        cases hassert
    | unfinished hne hcrlf =>
      obtain ⟨n, rfl⟩ := hfuel' hne
      cases r with
      | none =>
        cases heq
        rfl
      | some r =>
        rcases headerLoop_unfinished hne hcrlf n o' with hnone | ⟨_, _, f, _, herr⟩
        · rw [hnone] at hr
          cases hr
        · rw [herr] at hr
          cases hr

end NanoSocket.Ws

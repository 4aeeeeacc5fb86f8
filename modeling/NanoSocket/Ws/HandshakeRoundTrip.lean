import NanoSocket.Ws.HandshakeClient
import NanoSocket.Ws.HandshakeOrder

/-!
# A client and a server of this library

The text that each side sends ends in the only empty line that it holds (`endsOnce`), so the other
side's loop stops exactly there: a receive never asks for bytes that do not come
(`Asks.le_of_suffix`).  What it parses then are the headers that were printed, and
`handshake_round_trip` puts the two directions together.
-/

namespace NanoSocket.Ws

/-! ### Where a text ends -/

theorem infix_of_append_infix {a : UInt8} {c x y : List UInt8} (ha : a ∉ x)
    (h : a :: c <:+: x ++ y) : a :: c <:+: y := by
  induction x with
  | nil => exact h
  | cons b x ih =>
    rw [List.mem_cons, not_or] at ha
    rw [List.cons_append, List.infix_cons_iff] at h
    rcases h with h | h
    · exact absurd (List.cons_prefix_cons.1 h).1 ha.1
    · exact ih ha.2 h

/-- Lines without a carriage return hold no empty line. -/
theorem termseq_not_within {lines : List (List UInt8)} (h : ∀ l ∈ lines, l ≠ [] ∧ 0x0D ∉ l) :
    ¬ termseq <:+: headerText lines ++ [0x0D] := by
  induction lines with
  | nil => decide
  | cons l lines ih =>
    have hrest := ih fun l hl => h l (List.mem_cons_of_mem _ hl)
    rw [headerText_cons, List.append_assoc, List.append_assoc]
    intro hin
    have hin := infix_of_append_infix (h l List.mem_cons_self).2 hin
    rcases List.infix_cons_iff.1 hin with hpre | hin
    · -- the next line would begin with a carriage return
      have hpre : [0x0D, 0x0A] <+: headerText lines ++ [0x0D] :=
        (List.cons_prefix_cons.1 (List.cons_prefix_cons.1 hpre).2).2
      cases lines with
      | nil => exact absurd hpre (by decide)
      | cons l' lines =>
        obtain ⟨hne, hcr⟩ := h l' (by simp)
        obtain ⟨b, l', rfl⟩ := List.exists_cons_of_ne_nil hne
        rw [headerText_cons] at hpre
        exact hcr (by rw [(List.cons_prefix_cons.1 hpre).1]; exact List.mem_cons_self)
    · rcases List.infix_cons_iff.1 hin with hpre | hin
      · exact absurd (List.cons_prefix_cons.1 hpre).1 (by decide)
      · exact hrest hin

/-- The text ends in an empty line and holds no other one. -/
structure EndsOnce (s : List UInt8) : Prop where
  suffix : termseq <:+ s
  once : ∀ c, c <+: s → termseq <:+: c → c = s

theorem endsOnce {lines : List (List UInt8)} (hne : lines ≠ [])
    (h : ∀ l ∈ lines, l ≠ [] ∧ 0x0D ∉ l) :
    EndsOnce (headerText lines ++ crlf) := by
  constructor
  · obtain ⟨lines, l, rfl⟩ := (List.eq_nil_or_concat lines).resolve_left hne
    refine ⟨headerText lines ++ l, ?_⟩
    simp [termseq, crlf]
  · rintro c ⟨t, ht⟩ hin
    rcases List.eq_nil_or_concat t with rfl | ⟨t, a, rfl⟩
    · rw [← ht, List.append_nil]
    · have hcrlf : headerText lines ++ crlf = (headerText lines ++ [0x0D]) ++ [0x0A] := by
        simp [crlf]
      rw [hcrlf, List.concat_eq_append, ← List.append_assoc] at ht
      obtain ⟨heq, -⟩ := List.append_inj' ht rfl
      refine absurd (hin.trans ?_) (termseq_not_within h)
      rw [← heq]
      exact (List.prefix_append _ _).isInfix

section Loop

variable {first : ℕ} {more : List UInt8 → Prop} {s : List UInt8} {p n : ℕ}

theorem EndsOnce.border_lt (hs : EndsOnce s) {c : List UInt8} (hc : c <+: s) (hne : c ≠ s) :
    Search.border termseq c 4 < 4 :=
  Search.border_lt fun hsuf => hne (hs.once c hc hsuf.isInfix)

/-- The bytes that may be missing in the empty line come. -/
theorem EndsOnce.room (hs : EndsOnce s) {c : List UInt8} (hc : c <+: s) :
    c.length + (4 - Search.border termseq c 4) ≤ s.length := by
  obtain ⟨t, rfl⟩ := hc
  by_contra hlt
  refine @Search.not_suffix_of_lt _ _ termseq c t ?_ hs.suffix
  have hlen : termseq.length = 4 := rfl
  rw [List.length_append] at hlt
  rw [hlen]
  omega

/-- A text that ends in an empty line has every byte that is asked for. -/
theorem Asks.le_of_endsOnce (h : Asks first more s p n) (hs : EndsOnce s)
    (hfirst : first ≤ s.length) :
    p + n ≤ s.length := by
  cases h with
  | first => omega
  | @next p n _ hle _ =>
    have hroom := hs.room (List.take_prefix (p + n) s)
    rwa [List.length_take_of_le hle] at hroom

/-- The loop gets to the end of the text when the parser wants more before it. -/
theorem EndsOnce.exists_asks (hs : EndsOnce s) (hfirst : first ≤ s.length)
    (hmore : ∀ c, c <+: s → c ≠ s → more c) : ∃ p n, Asks first more s p n ∧ p + n = s.length := by
  have hloop : ∀ d p n, Asks first more s p n → s.length - (p + n) = d →
      ∃ p n, Asks first more s p n ∧ p + n = s.length := by
    intro d
    induction d using Nat.strong_induction_on with
    | _ d ih =>
      intro p n h hd
      have hle := h.le_of_endsOnce hs hfirst
      by_cases heq : p + n = s.length
      · exact ⟨p, n, h, heq⟩
      · have hne : s.take (p + n) ≠ s := fun h => heq (by rw [← h, List.length_take_of_le hle])
        have hlt := hs.border_lt (List.take_prefix _ _) hne
        have hnext := h.next hle (hmore _ (List.take_prefix _ _) hne)
        exact ih _ (by omega) _ _ hnext rfl
  exact hloop _ _ _ .first rfl

end Loop

/-! ### What the two sides make of such a text -/

theorem EndsOnce.incomplete {s c : List UInt8} (hs : EndsOnce s) (hnul : 0 ∉ s)
    (hc : c <+: s) (hne : c ≠ s) :
    Incomplete c := by
  have hcstring : cstring c = c := cstring_eq fun h => hnul (hc.subset h)
  rw [Incomplete, hcstring]
  exact fun hin => hne (hs.once c hc hin)

theorem EndsOnce.complete {s : List UInt8} (hs : EndsOnce s) (hnul : 0 ∉ s) : ¬ Incomplete s := by
  rw [Incomplete, cstring_eq hnul, not_not]
  exact hs.suffix.isInfix

/-- A server goes on from every front of an opening that ends in its only empty line. -/
theorem EndsOnce.serverFine {s c : List UInt8} (hs : EndsOnce s) (hnul : 0 ∉ s)
    (hlt : s.length < 4096) {uri : List UInt8} {lines : List (List UInt8)} {tail : List UInt8}
    (hform : IsOpening s uri lines tail) (hfits : ReplyFits lines tail) (hc : c <+: s) :
    ServerFine c := by
  unfold ServerFine
  by_cases heq : c = s
  · rw [heq, if_neg (hs.complete hnul), cstring_eq hnul]
    exact ⟨Or.inr hlt, uri, lines, tail, hform, hfits⟩
  · have hroom := hs.room hc
    rw [if_pos (hs.incomplete hnul hc heq)]
    exact ⟨hc.length_le.trans_lt hlt, fun hsuf => heq (hs.once c hc hsuf.isInfix),
      hroom.trans hlt.le⟩

theorem prefix_eq_of_take {s c : List UInt8} {k : ℕ} (hc : c <+: s) (h : c.take k = s) : c = s := by
  refine hc.eq_of_length_le ?_
  rw [← h, List.length_take]
  exact Nat.min_le_right _ _

/-- A server that gets the text `s` does not fail and accepts it with the reply `text`, whatever
happens besides; and it gets there. -/
def ServerTakes (sock : Socktype) (s text : List UInt8) : Prop :=
  (∀ as w, ServerRun sock HsWorld.Enabled as w → arrivals as <+: s →
    (∀ a, w.Enabled a → arrivals (as ++ [a]) <+: s → ∃ w', w.step sock a = .ok (w', ())) ∧
    (w.hs.state = .serverReply → arrivals as = s ∧ w.hs.responseCode = some .ok ∧
      w.hs.usock.sent = text)) ∧
  ∃ as w, ServerRun sock HsWorld.Enabled as w ∧ arrivals as = s ∧ w.hs.state = .serverReply

/-- A client that was started as `hs` and gets the text `s` does not fail, and finds it valid when
it has received it; and it gets there. -/
def ClientTakes (sock : Socktype) (hs : Handshake) (s : List UInt8) : Prop :=
  (∀ as w, ClientRun sock hs as w → arrivals as <+: s → ∀ a, w.Enabled a →
    arrivals (as ++ [a]) <+: s → ∃ w', w.step sock a = .ok (w', ()) ∧
      (a = .received → w.hs.state = .clientRecv →
        w'.hs.state = .clientRecv ∨ arrivals as = s ∧ w'.hs.state = .stoppingTimerDone)) ∧
  ∃ as w, ClientRun sock hs as w ∧ arrivals as = s ∧ w.hs.state = .stoppingTimerDone

theorem server_takes {sock : Socktype} {s : List UInt8} (hs : EndsOnce s) (hnul : 0 ∉ s)
    (h151 : 151 ≤ s.length) (hlt : s.length < 4096) {uri : List UInt8} {lines : List (List UInt8)}
    {tail : List UInt8} (hform : IsOpening s uri lines tail) (hfits : ReplyFits lines tail)
    {o : Opening} (hparse : parseOpening sock s = .ok (o, .ok)) {text : List UInt8}
    (hreply : replyText (some .ok) (some o) = .ok text) :
    ServerTakes sock s text := by
  have hfine (p n : ℕ) (_ : Asks 151 Incomplete s p n) (_ : p + n ≤ s.length) :
      ServerFine (s.take (p + n)) :=
    hs.serverFine hnul hlt hform hfits (List.take_prefix _ _)
  have hok (as : List HsAction) (w : HsWorld) (a : HsAction)
      (hrun : ServerRun sock HsWorld.Enabled as w)
      (ha : w.Enabled a) (harr : arrivals (as ++ [a]) <+: s) :
      ∃ w', w.step sock a = .ok (w', ()) := by
    obtain ⟨w', heq, -⟩ := server_step hfine hrun ha harr
    exact ⟨w', heq⟩
  refine ⟨fun as w hrun harr => ⟨fun a ha harr' => hok as w a hrun ha harr', fun hstate => ?_⟩, ?_⟩
  · have hinv : ServerInv sock (fun _ _ => True) (arrivals as) w :=
      hrun.inv (fun _ _ h => h) (fun _ _ _ _ => trivial) fun _ _ _ _ => trivial
    cases hinv with
    | receives h => cases hstate.symm.trans h.state
    | replies h =>
      obtain ⟨p, n, uri', lines', tail', o', -, -, hinc, -, -, hcode, hparse', hreply'⟩ :=
        h.answered
      -- the server has replied to the whole text
      have htake : (arrivals as).take (p + n) = s := by
        by_contra hne
        exact hinc (hs.incomplete hnul ((List.take_prefix _ _).trans harr) hne)
      rw [htake, cstring_eq hnul, hparse] at hparse'
      obtain ⟨rfl, hcode'⟩ := Prod.mk.inj (Except.ok.inj hparse')
      rw [← hcode'] at hcode hreply'
      rw [hreply] at hreply'
      exact ⟨prefix_eq_of_take harr htake, hcode, h.sent.trans (Except.ok.inj hreply').symm⟩
    | stops h => exact absurd (hstate ▸ trivial) h.not_running
  · obtain ⟨p, n, hasks, hend⟩ := hs.exists_asks h151 fun c hc hne => hs.incomplete hnul hc hne
    obtain ⟨as, w, hrun, harr, hw, hactive⟩ := exists_run_receives hok hasks
    have htake : s.take (p + n) = s := by rw [hend, List.take_length]
    obtain ⟨w', heq, -, ⟨hw', -⟩ | ⟨hw', hlt'⟩⟩ := hw.received hend.le (hfine p n hasks hend.le)
    · refine ⟨as ++ [.received], w', hrun.snoc (hw.enabled hactive hend.le) heq, ?_, hw'.state⟩
      rw [arrivals_concat, harr, HsAction.bytes_received, List.append_nil]
    · rw [htake] at hlt'
      have hle4 : 4 ≤ Search.border termseq s 4 := Search.le_border le_rfl hs.suffix
      omega

theorem client_takes {sock : Socktype} {hs : Handshake} {key s : List UInt8}
    (hstart : ClientSends key [] ⟨hs, []⟩) (hactive : hs.usock.state = .active) (hends : EndsOnce s)
    (hnul : 0 ∉ s) (h16 : 16 ≤ s.length) (hlt : s.length < 512) {status reason : List UInt8}
    {lines : List (List UInt8)} (hform : IsResponse s status reason lines crlf)
    (hvalid : judgeResponse key status lines crlf = .valid) : ClientTakes sock hs s := by
  have hcomplete : Complete s := ⟨status, reason, lines, crlf, hform, Or.inr rfl⟩
  have hmore {c : List UInt8} (hc : c <+: s) (hne : c ≠ s) : ClientMore c :=
    ⟨Or.inl (hends.incomplete hnul hc hne), (hends.room hc).trans hlt.le⟩
  have hfine (p n : ℕ) (hasks : Asks 16 ClientMore s p n) (hle : p + n ≤ s.length) :
      ClientFine (s.take (p + n)) := by
    have hlen : (s.take (p + n)).length = p + n := List.length_take_of_le hle
    have hpre := List.take_prefix (p + n) s
    by_cases heq : s.take (p + n) = s
    · rw [heq]
      refine ⟨Or.inr hlt, fun _ htr => ?_, fun hm => ?_⟩
      · rw [cstring_eq hnul] at htr
        have herr := parseResponse_trailing key htr
        obtain ⟨r, hok⟩ := parseResponse_complete key hform (Or.inr rfl)
        rw [herr] at hok
        cases hok
      · rw [cstring_eq hnul] at hm
        exact absurd (hm.resolve_left (hends.complete hnul)) (not_not.2 hcomplete)
    · have hinc := hends.incomplete hnul hpre heq
      exact ⟨Or.inr (by omega), fun h => absurd hinc h,
        fun _ => ⟨by omega, fun hsuf => heq (hends.once _ hpre hsuf.isInfix)⟩⟩
  have hok (as : List HsAction) (w : HsWorld) (a : HsAction) (hrun : ClientRun sock hs as w)
      (ha : w.Enabled a)
      (harr : arrivals (as ++ [a]) <+: s) : ∃ w', w.step sock a = .ok (w', ()) := by
    obtain ⟨w', heq, -⟩ := client_step hstart hfine hrun ha harr
    exact ⟨w', heq⟩
  have hsettled {r : HandshakeResult} (hset : SettledBy key s r) : r = .ok := by
    rw [hset status reason lines crlf (by rwa [cstring_eq hnul]) (Or.inr rfl) (hends.complete hnul),
      if_pos hvalid]
  refine ⟨fun as w hrun harr a ha harr' => ?_, ?_⟩
  · obtain ⟨w', heq, hset⟩ := client_step hstart hfine hrun ha harr'
    refine ⟨w', heq, fun hrec hstate => ?_⟩
    cases ClientRun.inv hstart hrun with
    | sends h => cases hstate.symm.trans h.state
    | @receives p n h _ =>
      rcases hset p n hrec h with ⟨r, hstate', hset', hnot⟩ | ⟨hstate', -⟩
      · -- only the whole text settles the result
        have htake : (arrivals as).take (p + n) = s := by
          by_contra hne
          exact hnot (hmore ((List.take_prefix _ _).trans harr) hne)
        rw [htake] at hset'
        rw [hsettled hset'] at hstate'
        exact Or.inr ⟨prefix_eq_of_take harr htake, hstate'⟩
      · exact Or.inl hstate'
    | stops h => exact absurd (hstate ▸ trivial) h.not_running
  · obtain ⟨p, n, hasks, hend⟩ := hends.exists_asks h16 fun c hc hne => hmore hc hne
    obtain ⟨as, w, hrun, harr, hw, hactive'⟩ := exists_client_receives hstart hactive hok hasks
    have htake : s.take (p + n) = s := by rw [hend, List.take_length]
    have ha := hw.enabled hactive' hend.le
    have harr' : arrivals (as ++ [.received]) = s := by
      rw [arrivals_concat, harr, HsAction.bytes_received, List.append_nil]
    obtain ⟨w', heq, hset⟩ := client_step hstart hfine hrun ha (harr' ▸ List.prefix_rfl)
    refine ⟨as ++ [.received], w', hrun.snoc ha heq, harr', ?_⟩
    rw [harr] at hset
    obtain ⟨w'', heq', -, ⟨⟨r, -, hstate, -⟩, -⟩ | ⟨-, -, hlt'⟩⟩ :=
      hw.client_received sock hend.le (hfine p n hasks hend.le)
    · rw [heq] at heq'
      cases heq'
      rcases hset p n rfl hw with ⟨r', hstate', hset', -⟩ | ⟨hstate', -⟩
      · rw [htake] at hset'
        rw [hstate', hsettled hset']
        rfl
      · rw [hstate'] at hstate
        cases r <;> cases hstate
    · rw [htake] at hlt'
      have hle4 : 4 ≤ Search.border termseq s 4 := Search.le_border le_rfl hends.suffix
      omega

/-! ### Headers as they are printed -/

/-- A header line that is printed from a name and a value. -/
def headerLine (p : String × List UInt8) : List UInt8 := ascii p.1 ++ p.2

theorem matchChars_headerLine (p : String × List UInt8) :
    matchChars true (ascii p.1) (headerLine p) = some p.2 :=
  matchChars_eq_some.2 ⟨ascii p.1, sameText_true.2 rfl, rfl⟩

section Printed

variable {hdrs : List (String × List UInt8)} (hnames : ∀ p ∈ hdrs, IsName p.1)
  (hdistinct : hdrs.Pairwise fun p q => (ascii p.1).map tolower ≠ (ascii q.1).map tolower)
include hnames hdistinct

theorem apart_headerLine : Apart (hdrs.map headerLine) := by
  refine List.pairwise_map.2 (hdistinct.imp_of_mem fun {p q} hp hq hne heq => hne ?_)
  obtain ⟨m, hm, hcolon⟩ := hnames p hp
  obtain ⟨k, hk, hcolon'⟩ := hnames q hq
  rw [nameOf_of_matchChars hm hcolon (matchChars_headerLine p),
    nameOf_of_matchChars hk hcolon' (matchChars_headerLine q)] at heq
  rw [hm, hk, List.map_append, List.map_append, heq]

/-- What was printed is read back. -/
theorem lastValue_headerLine {p : String × List UInt8} (hp : p ∈ hdrs) (tail : List UInt8) :
    lastValue p.1 (hdrs.map headerLine) tail = some (trim p.2) := by
  obtain ⟨rest, hlast⟩ : ∃ rest, lastLine p.1 (hdrs.map headerLine) tail = some (p.2, rest) :=
    lastLine_of_mem (hnames p hp) (apart_headerLine hnames hdistinct) (List.mem_map.2 ⟨p, hp, rfl⟩)
      (matchChars_headerLine p)
  rw [lastValue, hlast]
  rfl

end Printed

/-- The values of base 64 are not changed on the way. -/
theorem isBase64_plain {c : UInt8} (h : IsBase64 c) : c ≠ 0 ∧ c ≠ 0x20 ∧ c ≠ 0x0D ∧ c ≠ 0x0A := by
  rcases h with rfl | ⟨v, hv, rfl⟩
  · decide
  · revert v
    decide

theorem trim_plain {v : List UInt8} (h : 0x20 ∉ v) : trim (0x20 :: v) = v := by
  have hdrop {l : List UInt8} (hl : 0x20 ∉ l) : l.dropWhile (· = 0x20) = l := by
    cases l with
    | nil => rfl
    | cons a l =>
      rw [List.mem_cons, not_or] at hl
      rw [List.dropWhile_cons_of_neg]
      simpa using fun heq : a = 0x20 => hl.1 heq.symm
  rw [trim, List.dropWhile_cons_of_pos (by decide), hdrop h, trimEnd, hdrop (by simpa using h),
    List.reverse_reverse]

/-! ### The request -/

/-- The headers of a request. -/
def requestHdrs (remoteHost encodedKey wsSp : List UInt8) : List (String × List UInt8) :=
  [("Host:", 0x20 :: remoteHost), ("Upgrade:", 0x20 :: ascii "websocket"),
    ("Connection:", 0x20 :: ascii "Upgrade"), ("Sec-WebSocket-Key:", 0x20 :: encodedKey),
    ("Sec-WebSocket-Version:", 0x20 :: ascii "13"), ("Sec-WebSocket-Protocol:", 0x20 :: wsSp)]

theorem requestText_eq (resource remoteHost encodedKey wsSp : List UInt8) :
    requestText resource remoteHost encodedKey wsSp =
      requestHead resource ++
        (headerText ((requestHdrs remoteHost encodedKey wsSp).map headerLine) ++ crlf) := by
  have h₁ : ascii "Host: " = ascii "Host:" ++ [0x20] := by decide
  have h₂ : ascii "Upgrade: websocket\r\n" = ascii "Upgrade:" ++ 0x20 :: ascii "websocket" ++
      crlf := by decide
  have h₃ : ascii "Connection: Upgrade\r\n" = ascii "Connection:" ++ 0x20 :: ascii "Upgrade" ++
      crlf := by decide
  have h₄ : ascii "Sec-WebSocket-Key: " = ascii "Sec-WebSocket-Key:" ++ [0x20] := by decide
  have h₅ : ascii "Sec-WebSocket-Version: 13\r\n" = ascii "Sec-WebSocket-Version:" ++ 0x20 :: ascii
      "13" ++ crlf := by
    decide
  have h₆ : ascii "Sec-WebSocket-Protocol: " = ascii "Sec-WebSocket-Protocol:" ++ [0x20] := by
    decide
  have h₇ : ascii "\r\n" = crlf := by decide
  simp [requestText, requestHead, requestHdrs, headerLine, headerText, h₁, h₂, h₃, h₄, h₅, h₆, h₇]

theorem requestHead_eq (resource : List UInt8) :
    requestHead resource = headerText [ascii "GET " ++ resource ++ ascii " HTTP/1.1"] := by
  have h : ascii " HTTP/1.1\r\n" = ascii " HTTP/1.1" ++ crlf := by decide
  simp [requestHead, h]

/-- A resource or a host that can be printed. -/
def Plain (v : List UInt8) : Prop := 0 ∉ v ∧ 0x0D ∉ v ∧ 0x0A ∉ v

theorem Plain.append {u v : List UInt8} (hu : Plain u) (hv : Plain v) : Plain (u ++ v) := by
  simp only [Plain, List.mem_append, not_or] at *
  tauto

theorem plain_base64 {v : List UInt8} (h : ∀ c ∈ v, IsBase64 c) : Plain v :=
  ⟨fun hc => (isBase64_plain (h _ hc)).1 rfl, fun hc => (isBase64_plain (h _ hc)).2.2.1 rfl,
    fun hc => (isBase64_plain (h _ hc)).2.2.2 rfl⟩

instance (v : List UInt8) : Decidable (Plain v) := inferInstanceAs (Decidable (_ ∧ _))

theorem wsSp_plain : ∀ e ∈ nnWsHandshakeSpMap, Plain (ascii e.wsSp) ∧ 0x20 ∉ ascii e.wsSp ∧
    18 ≤ (ascii e.wsSp).length ∧ (ascii e.wsSp).length ≤ 25 := by
  decide

/-- Lines that can be printed and are read back. -/
theorem line_of_plain {v : List UInt8} (h : Plain v) (hne : v ≠ []) : Line v := by
  refine ⟨hne, fun hin => h.2.1 ?_⟩
  exact hin.subset (by decide)

theorem printed {head : List UInt8} {hdrs : List (String × List UInt8)}
    (hhead : Plain head ∧ head ≠ [])
    (h : ∀ p ∈ hdrs, (Plain (ascii p.1) ∧ ascii p.1 ≠ []) ∧ Plain p.2) :
    EndsOnce (headerText [head] ++ (headerText (hdrs.map headerLine) ++ crlf)) ∧
      0 ∉ headerText [head] ++ (headerText (hdrs.map headerLine) ++ crlf) ∧
      ∀ l ∈ hdrs.map headerLine, Line l := by
  have hlines : ∀ l ∈ head :: hdrs.map headerLine, Plain l ∧ l ≠ [] := by
    rw [List.forall_mem_cons]
    refine ⟨hhead, fun l hl => ?_⟩
    obtain ⟨p, hp, rfl⟩ := List.mem_map.1 hl
    obtain ⟨⟨hname, hne⟩, hvalue⟩ := h p hp
    exact ⟨hname.append hvalue, by simp [headerLine, hne]⟩
  have heq : headerText [head] ++ (headerText (hdrs.map headerLine) ++ crlf) =
      headerText (head :: hdrs.map headerLine) ++ crlf := by simp
  rw [heq]
  refine ⟨endsOnce (List.cons_ne_nil _ _) fun l hl => ⟨(hlines l hl).2, (hlines l hl).1.2.1⟩,
    ?_, fun l hl => ?_⟩
  · have hcrlf : (0 : UInt8) ∉ crlf := by decide
    simp only [headerText, List.mem_append, List.mem_flatMap]
    rintro (⟨l, hl, h | h⟩ | h)
    · exact (hlines l hl).1.1 h
    · exact hcrlf h
    · exact hcrlf h
  · have := hlines l (List.mem_cons_of_mem _ hl)
    exact line_of_plain this.1 this.2

theorem requestHdrs_names (remoteHost encodedKey wsSp : List UInt8) :
    ∀ p ∈ requestHdrs remoteHost encodedKey wsSp, IsName p.1 := by
  have hnames := headerNames
  simp only [List.forall_mem_cons] at hnames
  obtain ⟨hhost, hupgrade, hconn, hkey, hversion, hprotocol, hnil⟩ := hnames
  simp only [requestHdrs, List.forall_mem_cons]
  exact ⟨hhost, hupgrade, hconn, hkey, hversion, hprotocol, nofun⟩

theorem requestHdrs_distinct (remoteHost encodedKey wsSp : List UInt8) :
    (requestHdrs remoteHost encodedKey wsSp).Pairwise
      fun p q => (ascii p.1).map tolower ≠ (ascii q.1).map tolower := by
  have hnames : ["Host:", "Upgrade:", "Connection:", "Sec-WebSocket-Key:", "Sec-WebSocket-Version:",
      "Sec-WebSocket-Protocol:"].Pairwise fun a b => (ascii a).map tolower ≠
        (ascii b).map tolower := by
    decide
  exact (List.pairwise_map (f := Prod.fst)
    (R := fun a b => (ascii a).map tolower ≠ (ascii b).map tolower)).1 hnames

section Request

variable {resource remoteHost encodedKey : List UInt8} {e : SpMap}

theorem requestHdrs_plain (hhost : Plain remoteHost) (hkey : ∀ c ∈ encodedKey, IsBase64 c)
    (he : e ∈ nnWsHandshakeSpMap) :
    ∀ p ∈ requestHdrs remoteHost encodedKey (ascii e.wsSp), (Plain (ascii p.1) ∧ ascii p.1 ≠ []) ∧
      Plain p.2 := by
  have hspace : Plain [0x20] := by decide
  have hvalues : Plain (0x20 :: ascii "websocket") ∧ Plain (0x20 :: ascii "Upgrade") ∧
      Plain (0x20 :: ascii "13") := by
    decide
  simp only [requestHdrs, List.forall_mem_cons]
  refine ⟨⟨by decide, hspace.append hhost⟩, ⟨by decide, hvalues.1⟩, ⟨by decide, hvalues.2.1⟩,
    ⟨by decide, hspace.append (plain_base64 hkey)⟩, ⟨by decide, hvalues.2.2⟩,
    ⟨by decide, hspace.append (wsSp_plain e he).1⟩, nofun⟩

/-- The headers of a request have the values that were printed. -/
theorem requestHdrs_value {name : String} {v : List UInt8}
    (h : (name, v) ∈ requestHdrs remoteHost encodedKey (ascii e.wsSp)) :
    lastValue name ((requestHdrs remoteHost encodedKey (ascii e.wsSp)).map headerLine) crlf =
      some (trim v) :=
  lastValue_headerLine (requestHdrs_names _ _ _) (requestHdrs_distinct _ _ _) h crlf

/-- A server with a socket of the right type accepts the request. -/
theorem judge_requestHdrs (he : e ∈ nnWsHandshakeSpMap) {server : Socktype}
    (hserver : server.protocol = e.server.protocol) :
    judge server ((requestHdrs remoteHost encodedKey (ascii e.wsSp)).map headerLine)
      crlf = .ok := by
  have hvalue {name : String} {v : List UInt8}
      (h : (name, v) ∈ requestHdrs remoteHost encodedKey (ascii e.wsSp)) :=
    requestHdrs_value h
  have hhost := @hvalue "Host:" (0x20 :: remoteHost) (by simp [requestHdrs])
  have hup := @hvalue "Upgrade:" (0x20 :: ascii "websocket") (by simp [requestHdrs])
  have hconn := @hvalue "Connection:" (0x20 :: ascii "Upgrade") (by simp [requestHdrs])
  have hkey := @hvalue "Sec-WebSocket-Key:" (0x20 :: encodedKey) (by simp [requestHdrs])
  have hver := @hvalue "Sec-WebSocket-Version:" (0x20 :: ascii "13") (by simp [requestHdrs])
  have hproto := @hvalue "Sec-WebSocket-Protocol:" (0x20 :: ascii e.wsSp) (by simp [requestHdrs])
  rw [trim_plain (wsSp_plain e he).2.1] at hproto
  have hfound :
      connFound ((requestHdrs remoteHost encodedKey (ascii e.wsSp)).map headerLine) crlf = true :=
    connFound_of_conn ⟨_, hconn, by decide⟩
  have hpresent :
      ¬ Missing ((requestHdrs remoteHost encodedKey (ascii e.wsSp)).map headerLine) crlf := by
    simp [Missing, hhost, hup, hkey, hver, hfound]
  have hsaysver : Says "Sec-WebSocket-Version:" (ascii "13")
      ((requestHdrs remoteHost encodedKey (ascii e.wsSp)).map headerLine) crlf := by
    rw [Says, hver]
    decide
  have hsaysup : Says "Upgrade:" (ascii "websocket")
      ((requestHdrs remoteHost encodedKey (ascii e.wsSp)).map headerLine) crlf := by
    rw [Says, hup]
    decide
  have hfind : ∀ e ∈ nnWsHandshakeSpMap,
      (nnWsHandshakeSpMap.find? fun e' => SameText true (ascii e'.wsSp) (ascii e.wsSp)).map
      (fun e => e.server.protocol) = some e.server.protocol := by decide
  unfold judge
  rw [if_neg hpresent, if_neg (not_not.2 hsaysver), if_neg (not_not.2 hsaysup),
    if_pos (by rw [hproto]; exact Option.some_ne_none _)]
  simp only [Says, hproto, Option.getD_some]
  obtain ⟨e', he', hprotocol⟩ := Option.map_eq_some_iff.1 (hfind e he)
  rw [he', SpMap.judge, if_pos (hserver.trans hprotocol.symm)]

end Request

/-! ### The reply -/

/-- The headers of the reply to a valid request. -/
def replyHdrs (acceptKey protocol : List UInt8) : List (String × List UInt8) :=
  [("Upgrade:", 0x20 :: ascii "websocket"), ("Connection:", 0x20 :: ascii "Upgrade"),
    ("Sec-WebSocket-Accept:", 0x20 :: acceptKey), ("Sec-WebSocket-Protocol:", 0x20 :: protocol)]

theorem statusHead_eq : statusHead (ascii "101") (ascii "Switching Protocols") =
    headerText [ascii "HTTP/1.1 101 Switching Protocols"] := by
  decide

theorem switchText_eq (acceptKey protocol : List UInt8) :
    switchText acceptKey protocol = statusHead (ascii "101") (ascii "Switching Protocols") ++
      (headerText ((replyHdrs acceptKey protocol).map headerLine) ++ crlf) := by
  have h₁ : ascii "HTTP/1.1 101 Switching Protocols\r\n" =
      ascii "HTTP/1.1 101 Switching Protocols" ++ crlf := by
    decide
  have h₂ : ascii "Upgrade: websocket\r\n" = ascii "Upgrade:" ++ 0x20 :: ascii "websocket" ++
      crlf := by decide
  have h₃ :
      ascii "Connection: Upgrade\r\n" = ascii "Connection:" ++ 0x20 :: ascii "Upgrade" ++ crlf := by
    decide
  have h₄ : ascii "Sec-WebSocket-Accept: " = ascii "Sec-WebSocket-Accept:" ++ [0x20] := by decide
  have h₅ : ascii "Sec-WebSocket-Protocol: " = ascii "Sec-WebSocket-Protocol:" ++ [0x20] := by
    decide
  have h₆ : ascii "\r\n" = crlf := by decide
  rw [statusHead_eq]
  simp [switchText, replyHdrs, headerLine, headerText, h₁, h₂, h₃, h₄, h₅, h₆]

section Reply

variable {acceptKey : List UInt8} {e : SpMap}

theorem replyHdrs_plain (hkey : ∀ c ∈ acceptKey, IsBase64 c) (he : e ∈ nnWsHandshakeSpMap) :
    ∀ p ∈ replyHdrs acceptKey (ascii e.wsSp), (Plain (ascii p.1) ∧ ascii p.1 ≠ []) ∧ Plain p.2 := by
  have hspace : Plain [0x20] := by decide
  have hvalues : Plain (0x20 :: ascii "websocket") ∧ Plain (0x20 :: ascii "Upgrade") := by decide
  simp only [replyHdrs, List.forall_mem_cons]
  exact ⟨⟨by decide, hvalues.1⟩, ⟨by decide, hvalues.2⟩,
    ⟨by decide, hspace.append (plain_base64 hkey)⟩,
      ⟨by decide, hspace.append (wsSp_plain e he).1⟩, nofun⟩

theorem replyHdrs_value {name : String} {v : List UInt8}
    (h : (name, v) ∈ replyHdrs acceptKey (ascii e.wsSp)) :
    lastValue name ((replyHdrs acceptKey (ascii e.wsSp)).map headerLine) crlf = some (trim v) := by
  have hnames := headerNames
  simp only [List.forall_mem_cons] at hnames
  obtain ⟨-, hupgrade, hconn, -, -, hprotocol, -⟩ := hnames
  have haccept : IsName "Sec-WebSocket-Accept:" :=
    ⟨ascii "Sec-WebSocket-Accept", by decide, by decide⟩
  have hisName : ∀ p ∈ replyHdrs acceptKey (ascii e.wsSp), IsName p.1 := by
    simp only [replyHdrs, List.forall_mem_cons]
    exact ⟨hupgrade, hconn, haccept, hprotocol, nofun⟩
  have hdistinct :
      ["Upgrade:", "Connection:", "Sec-WebSocket-Accept:", "Sec-WebSocket-Protocol:"].Pairwise
      fun a b => (ascii a).map tolower ≠ (ascii b).map tolower := by
    decide
  exact lastValue_headerLine hisName ((List.pairwise_map (f := Prod.fst)
    (R := fun a b => (ascii a).map tolower ≠ (ascii b).map tolower)).1 hdistinct) h crlf

/-- The client with the right key finds the reply valid. -/
theorem judge_replyHdrs (hkey : ∀ c ∈ acceptKey, IsBase64 c) :
    judgeResponse acceptKey (ascii "101") ((replyHdrs acceptKey (ascii e.wsSp)).map headerLine)
      crlf = .valid := by
  have hvalue {name : String} {v : List UInt8}
      (h : (name, v) ∈ replyHdrs acceptKey (ascii e.wsSp)) := replyHdrs_value h
  have hup := @hvalue "Upgrade:" (0x20 :: ascii "websocket") (by simp [replyHdrs])
  have hconn := @hvalue "Connection:" (0x20 :: ascii "Upgrade") (by simp [replyHdrs])
  have haccept := @hvalue "Sec-WebSocket-Accept:" (0x20 :: acceptKey) (by simp [replyHdrs])
  rw [trim_plain fun h => (isBase64_plain (hkey _ h)).2.1 rfl] at haccept
  unfold judgeResponse
  rw [if_pos]
  refine ⟨by decide, ?_, ?_, ?_, ?_⟩
  · rw [Says, hup]
    decide
  · rw [Says, hconn]
    decide
  · rw [Says, haccept]
    exact sameText_true.2 rfl
  · rw [haccept]
    exact Option.some_ne_none _

end Reply

/-! ### Both directions -/

/-- The number of the client's protocol determines the entry of the map. -/
theorem find?_client {e : SpMap} (he : e ∈ nnWsHandshakeSpMap) {client : Socktype}
    (hclient : client.protocol = e.client.protocol) :
    (nnWsHandshakeSpMap.find? fun e => e.client.protocol = client.protocol) = some e := by
  have hentries : ∀ e ∈ nnWsHandshakeSpMap,
      (nnWsHandshakeSpMap.find? fun e' => e'.client.protocol = e.client.protocol) = some e := by
    simp only [nnWsHandshakeSpMap, List.forall_mem_cons]
    exact ⟨rfl, rfl, rfl, rfl, rfl, rfl, rfl, rfl, rfl, rfl, nofun⟩
  rw [hclient]
  exact hentries e he

/-- A server accepts the request, and its reply repeats the protocol. -/
theorem server_takes_request {e : SpMap} (he : e ∈ nnWsHandshakeSpMap) {server : Socktype}
    (hserver : server.protocol = e.server.protocol)
    {resource remoteHost encodedKey acceptKey : List UInt8} (hne : resource ≠ [])
    (hresource : Plain resource) (hspace : 0x20 ∉ resource) (hhost : Plain remoteHost)
    (hlen : resource.length + remoteHost.length ≤ 128) (hkeyLen : encodedKey.length = 24)
    (hkeyChars : ∀ c ∈ encodedKey, IsBase64 c)
    (haccept : nnWsHandshakeHashKey encodedKey 29 = some acceptKey) :
    ServerTakes server (requestText resource remoteHost encodedKey (ascii e.wsSp))
      (switchText acceptKey (ascii e.wsSp)) := by
  obtain ⟨-, hspSpace, hspMin, hspMax⟩ := wsSp_plain e he
  have hpos := List.length_pos_of_ne_nil hne
  have hsize := requestText_length resource remoteHost encodedKey (ascii e.wsSp)
  have hhead : Plain (ascii "GET " ++ resource ++ ascii " HTTP/1.1") ∧
      ascii "GET " ++ resource ++ ascii " HTTP/1.1" ≠ [] := by
    have hget : Plain (ascii "GET ") := by decide
    have hhttp : Plain (ascii " HTTP/1.1") := by decide
    exact ⟨(hget.append hresource).append hhttp, by simp [hne]⟩
  obtain ⟨hends, hnul, hlines⟩ := printed hhead (requestHdrs_plain hhost hkeyChars he)
  rw [← requestHead_eq, ← requestText_eq] at hends hnul
  have hform : IsOpening (requestText resource remoteHost encodedKey (ascii e.wsSp)) resource
      ((requestHdrs remoteHost encodedKey (ascii e.wsSp)).map headerLine) crlf :=
    ⟨hspace, hlines, Or.inr rfl, requestText_eq _ _ _ _⟩
  have hvalue {name : String} {v : List UInt8}
      (h : (name, v) ∈ requestHdrs remoteHost encodedKey (ascii e.wsSp)) :=
    requestHdrs_value h
  have hkey := @hvalue "Sec-WebSocket-Key:" (0x20 :: encodedKey) (by simp [requestHdrs])
  have hver := @hvalue "Sec-WebSocket-Version:" (0x20 :: ascii "13") (by simp [requestHdrs])
  have hproto := @hvalue "Sec-WebSocket-Protocol:" (0x20 :: ascii e.wsSp) (by simp [requestHdrs])
  rw [trim_plain fun h => (isBase64_plain (hkeyChars _ h)).2.1 rfl] at hkey
  rw [trim_plain hspSpace] at hproto
  obtain ⟨o, hparse, hstored⟩ := parseOpening_eq server hform
  rw [judge_requestHdrs he hserver] at hparse
  obtain ⟨acceptKey', -, -, haccept', hreply⟩ := replyText_ok o
  rw [(chars_eq hstored.key).1, hkey, Option.getD_some, haccept] at haccept'
  cases haccept'
  rw [(chars_eq hstored.protocol).1, hproto, Option.getD_some] at hreply
  refine server_takes hends hnul (by omega) (by omega) hform ?_ hparse hreply
  rw [ReplyFits, hver]
  split_ifs <;> decide

/-- The client with the right key finds that reply valid. -/
theorem client_takes_reply {e : SpMap} (he : e ∈ nnWsHandshakeSpMap) {client : Socktype}
    {acceptKey : List UInt8} (hlen : acceptKey.length = 28) (hchars : ∀ c ∈ acceptKey, IsBase64 c)
    (text : List UInt8) :
    ClientTakes client (clientStart acceptKey text) (switchText acceptKey (ascii e.wsSp)) := by
  obtain ⟨-, -, -, hspMax⟩ := wsSp_plain e he
  have hsize := switchText_length acceptKey (ascii e.wsSp)
  have hhead : Plain (ascii "HTTP/1.1 101 Switching Protocols") ∧
      ascii "HTTP/1.1 101 Switching Protocols" ≠ [] := by
    decide
  obtain ⟨hends, hnul, hlines⟩ := printed hhead (replyHdrs_plain hchars he)
  rw [← statusHead_eq, ← switchText_eq] at hends hnul
  have hform : IsResponse (switchText acceptKey (ascii e.wsSp)) (ascii "101")
      (ascii "Switching Protocols")
      ((replyHdrs acceptKey (ascii e.wsSp)).map headerLine) crlf :=
    ⟨by decide, by decide, hlines, switchText_eq _ _⟩
  exact client_takes (clientStart_sends acceptKey text) rfl hends hnul (by omega)
    (by omega) hform (judge_replyHdrs hchars)

/-- The request of a client is accepted by a server whose socket has the other type of an entry of
the map, and the client finds the reply valid. -/
theorem handshake_round_trip {e : SpMap} (he : e ∈ nnWsHandshakeSpMap) {client server : Socktype}
    (hclient : client.protocol = e.client.protocol) (hserver : server.protocol = e.server.protocol)
    (rand : Vector UInt8 16) {resource remoteHost : List UInt8} (hne : resource ≠ [])
    (hresource : Plain resource) (hspace : 0x20 ∉ resource) (hhost : Plain remoteHost)
    (hlen : resource.length + remoteHost.length ≤ 128) :
    ∃ hs reply, nnWsHandshakeStart client .client resource remoteHost rand = .ok hs ∧
      ServerTakes server hs.usock.sent reply ∧ ClientTakes client hs reply := by
  obtain ⟨encodedKey, acceptKey, hkey, hkeyLen, hkeyChars, haccept, hacceptLen, hacceptChars⟩ :=
    exists_keys rand
  obtain ⟨-, -, -, hspMax⟩ := wsSp_plain e he
  have hsize := requestText_length resource remoteHost encodedKey (ascii e.wsSp)
  have hstart : nnWsHandshakeStart client .client resource remoteHost rand = _ :=
    nnWsHandshakeStart_client hkey hkeyLen haccept hacceptLen (List.length_pos_of_ne_nil hne)
      (find?_client he hclient)
  rw [if_neg (by omega)] at hstart
  exact ⟨_, switchText acceptKey (ascii e.wsSp), hstart,
    server_takes_request he hserver hne hresource hspace hhost hlen hkeyLen hkeyChars haccept,
    client_takes_reply he hacceptLen hacceptChars _⟩

theorem handshake_round_trip_req : ∃ hs reply,
    nnWsHandshakeStart .rep .client (ascii "/") (ascii "example.com")
      (Vector.replicate 16 0) = .ok hs ∧
      ServerTakes .req hs.usock.sent reply ∧ ClientTakes .rep hs reply :=
  @handshake_round_trip ⟨.req, .rep, "req.sp.nanomsg.org"⟩ (by simp [nnWsHandshakeSpMap]) .rep
    .req rfl rfl _ _ _
    (by decide) (by decide) (by decide) (by decide) (by decide)

end NanoSocket.Ws

import NanoSocket.Ws.HandshakeRoundTrip

/-!
# How far a server reads

A server first receives 151 bytes, "the absolute minimum length possible for a valid opening
handshake", and the parser takes shorter openings: it asks for no `Origin`, for a key of no
particular length and for a version of two digits at most.  Such an opening is never answered when
the client waits behind it.  A resource may moreover hold an empty line, and the text up to there is
no opening.  `reads_within_iff` says that nothing else goes wrong.
-/

namespace NanoSocket.Ws

/-- The parser takes what the buffer holds for a valid opening. -/
def ValidOpening (sock : Socktype) (r : List UInt8) : Prop :=
  r.length ≤ 4096 ∧
    ∃ hs, nnWsHandshakeParseClientOpening sock { serverStart with openingHs := r } =
      .ok (.valid, hs)

/-- A server to which the opening comes never waits for a byte behind an empty line, and when all of
it has come some receives are enough to get to the reply that accepts it. -/
def ReadsWithin (sock : Socktype) (r : List UInt8) : Prop :=
  (∀ as w, ServerRun sock HsWorld.Enabled as w → arrivals as <+: r → w.hs.state = .serverRecv →
    ∀ c, c <+: r → termseq <:+ c → w.hs.recvPos + w.hs.recvLen ≤ c.length) ∧
  ∀ as w, ServerRun sock HsWorld.Enabled as w → arrivals as = r → w.hs.state = .serverRecv →
    w.hs.usock.state = .active →
    ∃ k w', ServerRun sock HsWorld.Enabled (as ++ List.replicate k .received) w' ∧
      w'.hs.state = .serverReply ∧ w'.hs.responseCode = some .ok

/-! ### The empty lines of an opening -/

/-- Lines hold an empty line only at their end. -/
theorem eq_nil_of_termseq {lines : List (List UInt8)} {tail x z : List UInt8}
    (hlines : ∀ l ∈ lines, Line l) (htail : tail = [] ∨ tail = crlf)
    (h : headerText lines ++ tail = x ++ termseq ++ z) : z = [] := by
  have hterm : termseq = crlf ++ crlf := rfl
  induction lines generalizing x with
  | nil =>
    have hlen := congrArg List.length h
    rw [List.length_append, List.length_append, List.length_append, headerText_nil,
      show termseq.length = 4 from rfl] at hlen
    rcases htail with rfl | rfl <;> simp [crlf] at hlen <;> omega
  | cons l lines ih =>
    have hrest := fun l' hl' => hlines l' (List.mem_cons_of_mem l hl')
    have hline := cut_crlf (hlines l List.mem_cons_self).2 (headerText lines ++ tail)
    rw [headerText_cons, List.append_assoc _ _ tail] at h
    rw [h] at hline
    cases hcut : Search.cut crlf x with
    | none =>
      -- the line ends where the empty line begins, so that the next one is empty
      rw [hterm, ← List.append_assoc, List.append_assoc _ crlf z,
        cut_crlf (Search.cut_eq_none.1 hcut)] at hline
      obtain ⟨rfl, hnext⟩ := Prod.mk.inj (Option.some.inj hline)
      cases lines with
      | nil =>
        rw [headerText_nil, List.nil_append] at hnext
        rcases htail with rfl | rfl
        · exact absurd hnext (by simp [crlf])
        · exact List.append_cancel_left (hnext.trans (List.append_nil crlf).symm)
      | cons l' lines =>
        obtain ⟨hne, hl'⟩ := hrest l' List.mem_cons_self
        have hcut' := cut_crlf hl' (headerText lines ++ tail)
        rw [headerText_cons, List.append_assoc _ _ tail] at hnext
        rw [← hnext, show crlf ++ z = [] ++ crlf ++ z from rfl, cut_crlf (by decide)] at hcut'
        exact absurd (Prod.mk.inj (Option.some.inj hcut')).1.symm hne
    | some p =>
      obtain ⟨x₁, x₂⟩ := p
      rw [Search.eq_of_cut hcut, List.append_assoc _ x₂, List.append_assoc _ _ z,
        cut_crlf (not_infix_of_cut_crlf hcut)] at hline
      obtain ⟨-, hnext⟩ := Prod.mk.inj (Option.some.inj hline)
      exact ih hrest hnext.symm

/-- An opening holds an empty line at its end and in its resource. -/
theorem IsOpening.termseq {text uri : List UInt8} {lines : List (List UInt8)}
    {tail x z : List UInt8} (h : IsOpening text uri lines tail) (heq : text = x ++ termseq ++ z) :
    z = [] ∨ x ++ Ws.termseq <+: ascii "GET " ++ uri := by
  have hget : requestHead uri = ascii "GET " ++ uri ++ (ascii " HTTP/1.1" ++ crlf) := by
    simp only [requestHead, List.append_assoc]
    rfl
  have hversion : Line (ascii " HTTP/1.1") := by decide
  have hlines : ∀ l ∈ ascii " HTTP/1.1" :: lines, Line l :=
    List.forall_mem_cons.2 ⟨hversion, h.areLines⟩
  have htext := h.eq
  rw [heq, hget, List.append_assoc (ascii "GET " ++ uri), ← List.append_assoc _
    (headerText lines), ← headerText_cons] at htext
  rcases List.append_eq_append_iff.1 htext with ⟨y, hy, -⟩ | ⟨y, hy, hz⟩
  · exact Or.inr ⟨y, hy.symm⟩
  rcases List.append_eq_append_iff.1 hy with ⟨y', -, hy'⟩ | ⟨y', hx, hy'⟩
  · cases y with
    | nil =>
      rw [List.append_nil] at hy
      exact Or.inr (hy ▸ List.prefix_rfl)
    | cons c y =>
      -- the space behind the resource is not part of an empty line
      obtain rfl : c = 0x20 := by
        rw [headerText_cons] at hz
        exact (List.cons.inj hz).1.symm
      have hmem : (0x20 : UInt8) ∈ Ws.termseq := by
        rw [hy']
        simp
      exact absurd hmem (by decide)
  · rw [hy'] at hz
    exact Or.inl (eq_nil_of_termseq hlines h.ends hz)

/-- The text up to an empty line in the resource is no opening. -/
theorem not_isOpening_of_isPrefix {uri c : List UInt8} (hspace : 0x20 ∉ uri)
    (hc : c <+: ascii "GET " ++ uri) (uri' : List UInt8) (lines : List (List UInt8))
    (tail : List UInt8) : ¬ IsOpening c uri' lines tail := by
  intro h
  rw [h.eq, requestHead, List.append_assoc, List.append_assoc, List.prefix_append_right_inj] at hc
  refine hspace (hc.subset ?_)
  rw [show ascii " HTTP/1.1\r\n" = 0x20 :: ascii "HTTP/1.1\r\n" from rfl]
  simp

/-! ### What the parser takes -/

theorem ValidOpening.opening {sock : Socktype} {r : List UInt8} (h : ValidOpening sock r) :
    (0 ∈ r ∨ r.length < 4096) ∧ ¬ Incomplete r ∧
      ∃ uri lines tail, IsOpening (cstring r) uri lines tail ∧ judge sock lines tail = .ok := by
  obtain ⟨-, hs, hvalid⟩ := h
  have hnul : 0 ∈ r ∨ r.length < 4096 := by
    by_contra hno
    unfold nnWsHandshakeParseClientOpening at hvalid
    rw [nnAssert_of_not hno] at hvalid
    cases hvalid
  have hinc : ¬ Incomplete r := by
    intro hinc
    rw [parse_of_incomplete sock rfl hnul hinc] at hvalid
    cases hvalid
  rw [parse_of_complete sock rfl hnul hinc] at hvalid
  obtain ⟨⟨o, code⟩, hparse, heq⟩ := bind_eq_ok.1 hvalid
  have hcode : code = .ok := by
    by_contra hne
    rw [if_neg hne] at heq
    cases heq
  subst hcode
  refine ⟨hnul, hinc, ?_⟩
  by_contra hnone
  have hmalformed (uri : List UInt8) (lines : List (List UInt8)) (tail : List UInt8) :
      ¬ IsOpening (cstring r) uri lines tail := by
    intro hopening
    obtain ⟨o', hparse', -⟩ := parseOpening_eq sock hopening
    rw [hparse] at hparse'
    exact hnone ⟨uri, lines, tail, hopening, (Prod.mk.inj (Except.ok.inj hparse')).2.symm⟩
  cases parseOpening_malformed hmalformed hparse

/-- The reply to what is accepted fits its buffer. -/
theorem replyFits_of_ok {sock : Socktype} {lines : List (List UInt8)} {tail : List UInt8}
    (h : judge sock lines tail = .ok) : ReplyFits lines tail := by
  have hversion : Says "Sec-WebSocket-Version:" (ascii "13") lines tail := by
    have hj := judged sock lines tail
    rw [h] at hj
    cases hj with
    | refused _ _ _ hcode => exact absurd hcode (by decide)
    | peer _ hver => exact hver
    | pair _ hver => exact hver
  rw [ReplyFits, hversion.length]
  split_ifs <;> decide

/-! ### Texts with one empty line -/

theorem endsOnce_iff {s : List UInt8} (hsuf : termseq <:+ s) :
    EndsOnce s ↔ ¬ termseq <:+: s.dropLast := by
  constructor
  · intro hs hin
    have heq := congrArg List.length (hs.once _ (List.dropLast_prefix s) hin)
    have hlen := hin.length_le
    rw [List.length_dropLast] at heq hlen
    rw [show termseq.length = 4 from rfl] at hlen
    omega
  · refine fun hnot => ⟨hsuf, fun c hc hin => ?_⟩
    by_contra hne
    obtain ⟨t, rfl⟩ := hc
    have ht : t ≠ [] := fun ht => hne (by rw [ht, List.append_nil])
    rw [List.dropLast_append_of_ne_nil ht] at hnot
    exact hnot (hin.trans (List.prefix_append _ _).isInfix)

/-- The text up to its first empty line. -/
theorem exists_endsOnce {s : List UInt8} (h : termseq <:+: s) : ∃ c z, s = c ++ z ∧ EndsOnce c := by
  cases hcut : Search.cut termseq s with
  | none => exact absurd h (Search.cut_eq_none.1 hcut)
  | some p =>
    obtain ⟨x, z⟩ := p
    refine ⟨x ++ termseq, z, Search.eq_of_cut hcut, (endsOnce_iff (List.suffix_append _ _)).2 ?_⟩
    rw [List.dropLast_append_of_ne_nil (by decide)]
    exact Search.not_infix_of_cut (by decide) hcut

section Within

variable {sock : Socktype} {r c : List UInt8} {p n : ℕ}

theorem EndsOnce.eq_of_complete (hc : EndsOnce c) (hnul : 0 ∉ c) {t : List UInt8} (ht : t <+: c)
    (h : ¬ Incomplete t) :
    t = c := by
  by_contra hne
  exact h (hc.incomplete hnul ht hne)

/-- What is asked for ends in front of the first empty line or with it. -/
theorem Asks.le_of_isPrefix {first : ℕ} (h : Asks first Incomplete r p n) (hc : EndsOnce c)
    (hpre : c <+: r) (hfirst : first ≤ c.length) : p + n ≤ c.length := by
  induction h with
  | first => rwa [Nat.zero_add]
  | @next p n _ hle hmore ih =>
    have htake : r.take (p + n) <+: c :=
      List.prefix_of_prefix_length_le (List.take_prefix _ _) hpre (by
      rwa [List.length_take_of_le hle])
    have hroom := hc.room htake
    rwa [List.length_take_of_le hle] at hroom

/-- Only the text up to the first empty line is answered. -/
theorem Answered.opening {hs : Handshake} (h : Answered sock r hs) (hc : EndsOnce c) (hnul : 0 ∉ c)
    (hpre : c <+: r) (h151 : 151 ≤ c.length) :
    ∃ uri lines tail, IsOpening c uri lines tail ∧
      hs.responseCode = some (judge sock lines tail) := by
  obtain ⟨p, n, uri, lines, tail, o, hasks, hle, hinc, -, hopening, hcode, -⟩ := h
  have htake : r.take (p + n) <+: c :=
    List.prefix_of_prefix_length_le (List.take_prefix _ _) hpre (by
    rw [List.length_take_of_le hle]
    exact hasks.le_of_isPrefix hc hpre h151)
  rw [hc.eq_of_complete hnul htake hinc, cstring_eq hnul] at hopening
  exact ⟨uri, lines, tail, hopening, hcode⟩

/-- Some receives lead to the reply. -/
theorem ServerReceives.exists_replies (hc : EndsOnce c) (hpre : c <+: r) (h151 : 151 ≤ c.length)
    (hfine : ∀ t, t <+: c → ServerFine t) {as : List HsAction} {w : HsWorld}
    (hrun : ServerRun sock HsWorld.Enabled as w) (hw : ServerReceives r p n w)
    (hactive : w.hs.usock.state = .active) :
    ∃ k w', ServerRun sock HsWorld.Enabled (as ++ List.replicate k .received) w' ∧
      ServerReplies sock r w' := by
  have hloop : ∀ d p n as w, ServerRun sock HsWorld.Enabled as w → ServerReceives r p n w →
      w.hs.usock.state = .active → c.length - (p + n) = d →
      ∃ k w', ServerRun sock HsWorld.Enabled (as ++ List.replicate k .received) w' ∧
        ServerReplies sock r w' := by
    intro d
    induction d using Nat.strong_induction_on with
    | _ d ih =>
      intro p n as w hrun hw hactive hd
      have hle := hw.asks.le_of_isPrefix hc hpre h151
      have hle' := hle.trans hpre.length_le
      have htake : r.take (p + n) <+: c :=
        List.prefix_of_prefix_length_le (List.take_prefix _ _) hpre (by
        rwa [List.length_take_of_le hle'])
      obtain ⟨w', heq, hstate, ⟨hw', -⟩ | ⟨hw', hlt⟩⟩ :=
        @ServerReceives.received sock _ _ _ _ hw hle' (hfine _ htake)
      · exact ⟨1, w', hrun.snoc (hw.enabled hactive hle') heq, hw'⟩
      · have hnext := hw'.asks.le_of_isPrefix hc hpre h151
        obtain ⟨k, w'', hrun', hw''⟩ :=
          ih _ (by omega) _ _ _ _ (hrun.snoc (hw.enabled hactive hle') heq) hw'
          (hstate.trans hactive) rfl
        refine ⟨k + 1, w'', ?_, hw''⟩
        rwa [List.append_assoc, List.singleton_append, ← List.replicate_succ] at hrun'
  exact hloop _ _ _ _ _ hrun hw hactive rfl

theorem ServerRun.inv_true {as : List HsAction} {w : HsWorld}
    (hrun : ServerRun sock HsWorld.Enabled as w) :
    ServerInv sock (fun _ _ => True) (arrivals as) w :=
  hrun.inv (fun _ _ h => h) (fun _ _ _ _ => trivial) fun _ _ _ _ => trivial

/-- What is read and answered is an opening of 151 bytes or more. -/
theorem ReadsWithin.opening (h : ReadsWithin sock r) (hc : EndsOnce c) (hnul : 0 ∉ c)
    (hpre : c <+: r) :
    151 ≤ c.length ∧ ∃ uri lines tail, IsOpening c uri lines tail := by
  have h151 : 151 ≤ c.length := h.1 [] ⟨serverStart, []⟩ .nil List.nil_prefix rfl c hpre hc.suffix
  obtain ⟨k, w, hrun, hstate, -⟩ :=
    h.2 [.arrive r] ⟨serverStart, r⟩ (.snoc .nil trivial rfl) (List.append_nil r) rfl rfl
  have harr : arrivals ([.arrive r] ++ List.replicate k .received) = r := by
    simp [arrivals, HsAction.bytes]
  cases ServerRun.inv_true hrun with
  | receives hw => cases hstate.symm.trans hw.state
  | stops hw => exact absurd (hstate ▸ trivial) hw.not_running
  | replies hw =>
    rw [harr] at hw
    obtain ⟨uri, lines, tail, hopening, -⟩ := hw.answered.opening hc hnul hpre h151
    exact ⟨h151, uri, lines, tail, hopening⟩

/-- An opening of 151 bytes or more that ends in its only empty line is read and answered. -/
theorem readsWithin_of_endsOnce (hc : EndsOnce c) (hnul : 0 ∉ c) (hpre : c <+: r)
    (h151 : 151 ≤ c.length) (hlt : c.length < 4096) {uri : List UInt8} {lines : List (List UInt8)}
    {tail : List UInt8} (hopening : IsOpening c uri lines tail)
    (hok : judge sock lines tail = .ok) : ReadsWithin sock r := by
  have hfine (t : List UInt8) (ht : t <+: c) : ServerFine t :=
    hc.serverFine hnul hlt hopening (replyFits_of_ok hok) ht
  constructor
  · intro as w hrun harr hstate t ht hsuf
    have hle : c.length ≤ t.length := by
      by_contra hlt
      have htc : t <+: c := List.prefix_of_prefix_length_le ht hpre (by omega)
      exact hlt (hc.once t htc hsuf.isInfix ▸ le_rfl)
    cases ServerRun.inv_true hrun with
    | receives hw =>
      obtain ⟨s, rfl⟩ := harr
      rw [hw.pos, hw.len]
      exact ((hw.asks.append s).le_of_isPrefix hc hpre h151).trans hle
    | stops hw => exact absurd (hstate ▸ trivial) hw.not_running
    | replies hw => cases hstate.symm.trans hw.state
  · intro as w hrun harr hstate hactive
    cases ServerRun.inv_true hrun with
    | receives hw =>
      rw [harr] at hw
      obtain ⟨k, w', hrun', hw'⟩ := hw.exists_replies hc hpre h151 hfine hrun hactive
      obtain ⟨uri', lines', tail', hopening', hcode⟩ := hw'.answered.opening hc hnul hpre h151
      obtain ⟨o, hparse, -⟩ := parseOpening_eq sock hopening
      obtain ⟨o', hparse', -⟩ := parseOpening_eq sock hopening'
      rw [hparse] at hparse'
      refine ⟨k, w', hrun', hw'.state, ?_⟩
      rw [hcode, ← (Prod.mk.inj (Except.ok.inj hparse')).2, hok]
    | stops hw => exact absurd (hstate ▸ trivial) hw.not_running
    | replies hw => cases hstate.symm.trans hw.state

end Within

theorem cstring_isPrefix (r : List UInt8) : cstring r <+: r := List.takeWhile_prefix _

theorem not_mem_cstring (r : List UInt8) : 0 ∉ cstring r := by
  intro h
  have hall := List.all_eq_true.1 (@List.all_takeWhile _ (fun c : UInt8 => decide (c ≠ 0)) r) 0 h
  simp at hall

theorem length_cstring_lt {r : List UInt8} (hlen : r.length ≤ 4096)
    (hnul : 0 ∈ r ∨ r.length < 4096) :
    (cstring r).length < 4096 := by
  have hle := (cstring_isPrefix r).length_le
  rcases hnul with hmem | hlt
  · refine lt_of_le_of_ne (hle.trans hlen) fun heq => ?_
    rw [← (cstring_isPrefix r).eq_of_length (by omega)] at hmem
    exact not_mem_cstring r hmem
  · omega

/-- A server reads no further than a valid opening, and answers it, exactly if the opening has 151
bytes or more and no empty line in front of its end. -/
theorem reads_within_iff {sock : Socktype} {r : List UInt8} (h : ValidOpening sock r) :
    ReadsWithin sock r ↔ 151 ≤ (cstring r).length ∧ ¬ termseq <:+: (cstring r).dropLast := by
  obtain ⟨hnul, hinc, uri, lines, tail, hopening, hok⟩ := h.opening
  obtain ⟨c, z, hcz, hc⟩ := exists_endsOnce (not_not.1 hinc)
  have hcpre : c <+: cstring r := ⟨z, hcz.symm⟩
  have hpre : c <+: r := hcpre.trans (cstring_isPrefix r)
  have hzero : 0 ∉ c := fun hmem => not_mem_cstring r (hcpre.subset hmem)
  constructor
  · intro hreads
    obtain ⟨h151, uri', lines', tail', hopening'⟩ := hreads.opening hc hzero hpre
    obtain ⟨x, rfl⟩ := hc.suffix
    rcases hopening.termseq hcz with rfl | hin
    · rw [hcz, List.append_nil]
      exact ⟨h151, (endsOnce_iff (List.suffix_append _ _)).1 hc⟩
    · exact absurd hopening' (not_isOpening_of_isPrefix hopening.noSpace hin _ _ _)
  · rintro ⟨h151, honce⟩
    obtain rfl : z = [] := by
      by_contra hz
      rw [hcz, List.dropLast_append_of_ne_nil hz] at honce
      exact honce (hc.suffix.isInfix.trans (List.prefix_append _ _).isInfix)
    rw [List.append_nil] at hcz
    have hlt := length_cstring_lt h.1 hnul
    rw [hcz] at h151 hlt hopening
    exact readsWithin_of_endsOnce hc hzero hpre h151 hlt hopening hok

/-- An opening for some host. -/
def sampleOpening (host : String) : List UInt8 :=
  ascii "GET / HTTP/1.1\r\nHost: " ++ ascii host ++
    ascii "\r\nUpgrade: websocket\r\nConnection: Upgrade\r\n" ++
    ascii "Sec-WebSocket-Key: dGhlIHNhbXBsZSBub25jZQ==\r\nSec-WebSocket-Version: 13\r\n\r\n"

theorem length_sampleOpening (host : String) :
    (sampleOpening host).length = (ascii host).length + 139 := by
  simp only [sampleOpening, List.length_append, show (ascii "GET / HTTP/1.1\r\nHost: ").length =
    22 from length_ascii _,
    show (ascii "\r\nUpgrade: websocket\r\nConnection: Upgrade\r\n").length =
    43 from length_ascii _,
    show (ascii
    "Sec-WebSocket-Key: dGhlIHNhbXBsZSBub25jZQ==\r\nSec-WebSocket-Version: 13\r\n\r\n").length =
    74 from
      (length_ascii _).trans (by decide)]
  omega

theorem sampleOpening_valid {host : String} (hlen : (sampleOpening host).length ≤ 4096)
    (h : (nnWsHandshakeParseClientOpening .pair
      { serverStart with openingHs := sampleOpening host }).map Prod.fst = .ok .valid) :
      ValidOpening .pair (sampleOpening host) := by
  refine ⟨hlen, ?_⟩
  cases hparse : nnWsHandshakeParseClientOpening .pair
      { serverStart with openingHs := sampleOpening host } with
  | error f =>
    rw [hparse] at h
    cases h
  | ok p =>
    rw [hparse] at h
    exact ⟨p.2, congrArg Except.ok (Prod.ext (Except.ok.inj h) rfl)⟩

/-- An opening of 157 bytes. -/
theorem reads_within_iff_sample : ReadsWithin .pair (sampleOpening "server.example.com") := by
  have hlen : (sampleOpening "server.example.com").length = 157 := by
    rw [length_sampleOpening, length_ascii]
    rfl
  have hall : (nnWsHandshakeParseClientOpening .pair
        { serverStart with openingHs := sampleOpening "server.example.com" }).map
          Prod.fst = .ok .valid ∧
      151 ≤ (cstring (sampleOpening "server.example.com")).length ∧
        ¬ termseq <:+: (cstring (sampleOpening "server.example.com")).dropLast := by
    set_option maxRecDepth 20000 in decide
  have hle : (sampleOpening "server.example.com").length ≤ 4096 := hlen.le.trans (by decide)
  exact (reads_within_iff (sampleOpening_valid hle hall.1)).2 hall.2

/-- A server waits for 151 bytes though a valid opening has 150. -/
theorem short_opening_waits :
    ValidOpening .pair (sampleOpening "example.com") ∧
      ¬ ReadsWithin .pair (sampleOpening "example.com") := by
  have hlen : (sampleOpening "example.com").length = 150 := by
    rw [length_sampleOpening, length_ascii]
    rfl
  have hall : (nnWsHandshakeParseClientOpening .pair
        { serverStart with openingHs := sampleOpening "example.com" }).map Prod.fst = .ok .valid ∧
      termseq <:+ sampleOpening "example.com" := by
    set_option maxRecDepth 20000 in decide
  refine ⟨sampleOpening_valid (hlen.le.trans (by decide)) hall.1, fun h => ?_⟩
  have hle := h.1 [] ⟨serverStart, []⟩ .nil List.nil_prefix rfl (sampleOpening "example.com")
    List.prefix_rfl hall.2
  rw [hlen] at hle
  exact absurd hle (by decide)

end NanoSocket.Ws

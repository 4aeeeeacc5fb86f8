import NanoSocket.Ws.HandshakeAccept

/-!
# The order of the headers

The headers of a request are read in any order, and of headers with different names each one has its
value wherever it stands (`lastValue_perm`).  The `Connection` header is the exception: the word
`upgrade` is searched for in everything below it, so the `Upgrade` header can take its place; and
any word with `upgrade` in it will do, where the value is a list of tokens of which one should be
`upgrade`.  `order_free_iff` says when that matters.
-/

namespace NanoSocket.Ws

/-- The name of a header, in lower case. -/
def nameOf (l : List UInt8) : List UInt8 := (l.takeWhile (· ≠ 0x3A)).map tolower

/-- What the code compares with the front of a line: a name with its colon. -/
def IsName (name : String) : Prop := ∃ n, ascii name = n ++ [0x3A] ∧ 0x3A ∉ n

theorem nameOf_of_matchChars {name : String} {n l v : List UInt8} (hname : ascii name = n ++ [0x3A])
    (hn : 0x3A ∉ n) (h : matchChars true (ascii name) l = some v) : nameOf l = n.map tolower := by
  have hcolon : ∀ c : UInt8, tolower c = 0x3A ↔ c = 0x3A := tolower_eq_iff (by decide)
  obtain ⟨chars, hsame, rfl⟩ := matchChars_eq_some.1 h
  rw [hname, sameText_true, List.map_append] at hsame
  obtain ⟨m, t, rfl, hm, ht⟩ := List.map_eq_append_iff.1 hsame.symm
  obtain ⟨c, rfl, hc⟩ : ∃ c, t = [c] ∧ tolower c = 0x3A := by
    cases t with
    | nil => cases ht
    | cons c t =>
      cases t with
      | nil => exact ⟨c, rfl, (List.cons.inj ht).1⟩
      | cons d t => simp at ht
  have hmem : 0x3A ∉ m := by
    intro hmem
    have : (0x3A : UInt8) ∈ n.map tolower := by
      rw [← hm]
      exact List.mem_map.2 ⟨0x3A, hmem, rfl⟩
    obtain ⟨d, hd, heq⟩ := List.mem_map.1 this
    exact hn ((hcolon d).1 heq ▸ hd)
  rw [(hcolon c).1 hc, List.append_assoc, nameOf, List.takeWhile_append_of_pos]
  · simp [hm]
  · intro d hd
    simpa using fun heq : d = 0x3A => hmem (heq ▸ hd)

/-! ### Values of headers with different names -/

/-- The names of the lines differ. -/
def Apart (lines : List (List UInt8)) : Prop := lines.Pairwise fun l l' => nameOf l ≠ nameOf l'

theorem Apart.perm {lines lines' : List (List UInt8)} (h : Apart lines)
    (hperm : lines.Perm lines') : Apart lines' :=
  (hperm.pairwise_iff fun h => h.symm).1 h

section Values

variable {name : String} {lines lines' : List (List UInt8)} {tail v : List UInt8}

theorem mem_of_lastLine {rest : List UInt8} (h : lastLine name lines tail = some (v, rest)) :
    ∃ l ∈ lines, matchChars true (ascii name) l = some v := by
  induction lines with
  | nil => cases h
  | cons l lines ih =>
    rw [lastLine, Option.or_eq_some_iff] at h
    rcases h with h | ⟨-, h⟩
    · obtain ⟨l', hl', hv⟩ := ih h
      exact ⟨l', List.mem_cons_of_mem _ hl', hv⟩
    · obtain ⟨v', hv', heq⟩ := Option.map_eq_some_iff.1 h
      cases heq
      exact ⟨l, List.mem_cons_self, hv'⟩

theorem lastLine_of_mem (hname : IsName name) (hapart : Apart lines) {l : List UInt8}
    (hl : l ∈ lines) (h : matchChars true (ascii name) l = some v) :
    ∃ rest, lastLine name lines tail = some (v, rest) := by
  obtain ⟨n, hn, hcolon⟩ := hname
  induction lines with
  | nil => cases hl
  | cons l' lines ih =>
    obtain ⟨hne, hapart⟩ := List.pairwise_cons.1 hapart
    rw [lastLine]
    rcases List.mem_cons.1 hl with rfl | hl
    · have hnone : lastLine name lines tail = none := by
        rw [Option.eq_none_iff_forall_ne_some]
        rintro ⟨w, rest⟩ hw
        obtain ⟨l', hl', hw⟩ := mem_of_lastLine hw
        exact hne l' hl'
          ((nameOf_of_matchChars hn hcolon h).trans (nameOf_of_matchChars hn hcolon hw).symm)
      exact ⟨headerText lines ++ tail, by rw [hnone, h]; rfl⟩
    · obtain ⟨rest, hrest⟩ := ih hapart hl
      exact ⟨rest, by rw [hrest]; rfl⟩

/-- Each header keeps its value when the lines are permuted. -/
theorem lastValue_perm (hname : IsName name) (hapart : Apart lines) (hperm : lines.Perm lines') :
    lastValue name lines tail = lastValue name lines' tail := by
  have hsub {lines lines' : List (List UInt8)} (hapart : Apart lines') (hperm : lines.Perm lines')
      (x : List UInt8)
      (h : lastValue name lines tail = some x) : lastValue name lines' tail = some x := by
    obtain ⟨⟨v, rest⟩, hlast, rfl⟩ := Option.map_eq_some_iff.1 h
    obtain ⟨l, hl, hv⟩ := mem_of_lastLine hlast
    obtain ⟨rest', hlast'⟩ : ∃ rest', lastLine name lines' tail = some (v, rest') :=
      lastLine_of_mem hname hapart (hperm.subset hl) hv
    rw [lastValue, hlast']
    rfl
  ext x
  exact ⟨hsub (hapart.perm hperm) hperm x, hsub hapart hperm.symm x⟩

end Values

/-! ### The word `upgrade` -/

theorem infix_of_infix_append {c x y : List UInt8} (h : c <:+: x ++ y) (hc : ∀ a ∈ c, a ∉ y) :
    c <:+: x := by
  obtain ⟨p, q, heq⟩ := h
  rcases List.append_eq_append_iff.1 heq with ⟨t, rfl, -⟩ | ⟨t, hpc, rfl⟩
  · exact ⟨p, t, rfl⟩
  · rcases List.eq_nil_or_concat t with rfl | ⟨t, a, rfl⟩
    · rw [List.append_nil] at hpc
      exact ⟨p, [], by rw [List.append_nil, hpc]⟩
    · rcases List.eq_nil_or_concat c with rfl | ⟨c, b, rfl⟩
      · exact List.nil_infix
      · rw [List.concat_eq_append,
          List.concat_eq_append, ← List.append_assoc, ← List.append_assoc] at hpc
        obtain ⟨-, rfl⟩ := List.append_inj' hpc rfl |>.imp_right (fun h => (List.cons.inj h).1)
        exact absurd (by simp) (hc b (by simp))

theorem upgrade_infix_iff {v : List UInt8} :
    ascii "upgrade" <:+: v.map tolower ↔ ∃ chars, SameText true (ascii "upgrade") chars ∧
      chars <:+: v := by
  have hlower : (ascii "upgrade").map tolower = ascii "upgrade" := by decide
  constructor
  · rintro ⟨p, q, heq⟩
    obtain ⟨x, q', rfl, hx, -⟩ := List.map_eq_append_iff.1 heq.symm
    obtain ⟨p', chars, rfl, -, hchars⟩ := List.map_eq_append_iff.1 hx
    exact ⟨chars, sameText_true.2 (hlower.trans hchars.symm), p', q', rfl⟩
  · rintro ⟨chars, hsame, hin⟩
    rw [sameText_true, hlower] at hsame
    rw [hsame]
    exact hin.map tolower

theorem nnStrcasestr_upgrade {v : List UInt8} :
    (nnStrcasestr (ascii "upgrade") v).isSome ↔ ascii "upgrade" <:+: v.map tolower := by
  rw [upgrade_infix_iff]
  exact nnStrcasestr_isSome (by decide) (by decide)

/-- Spaces and line ends are not part of the word. -/
theorem upgrade_infix_append {x y : List UInt8} (hy : ∀ a ∈ y, a = 0x20 ∨ a = 0x0D ∨ a = 0x0A)
    (h : ascii "upgrade" <:+: (x ++ y).map tolower) : ascii "upgrade" <:+: x.map tolower := by
  rw [List.map_append] at h
  refine infix_of_infix_append h fun a ha hmem => ?_
  obtain ⟨b, hb, rfl⟩ := List.mem_map.1 hmem
  rcases hy b hb with rfl | rfl | rfl <;> revert ha <;> decide

theorem trimEnd_append (v : List UInt8) : ∃ sp, v = trimEnd v ++ sp ∧ ∀ a ∈ sp, a = 0x20 := by
  refine ⟨(v.reverse.takeWhile (· = 0x20)).reverse, ?_, ?_⟩
  · rw [trimEnd, ← List.reverse_append, List.takeWhile_append_dropWhile, List.reverse_reverse]
  · intro a ha
    have := List.all_eq_true.1 List.all_takeWhile a (List.mem_reverse.1 ha)
    simpa using this

theorem upgrade_infix_trim {v y : List UInt8} (hy : ∀ a ∈ y, a = 0x20 ∨ a = 0x0D ∨ a = 0x0A) :
    ascii "upgrade" <:+: (v.dropWhile (· = 0x20) ++ y).map tolower ↔
      ascii "upgrade" <:+: (trim v).map tolower := by
  obtain ⟨sp, hsp, hspace⟩ := trimEnd_append (v.dropWhile (· = 0x20))
  constructor
  · intro h
    rw [hsp, List.append_assoc] at h
    refine upgrade_infix_append (fun a ha => ?_) h
    rcases List.mem_append.1 ha with ha | ha
    · exact Or.inl (hspace a ha)
    · exact hy a ha
  · intro h
    rw [hsp, List.append_assoc, List.map_append]
    exact h.trans (List.prefix_append _ _).isInfix

section Conn

variable {lines : List (List UInt8)} {tail v rest : List UInt8}

theorem connFound_of_lastLine (h : lastLine "Connection:" lines tail = some (v, rest)) :
    connFound lines tail = true ↔
      ascii "upgrade" <:+: (v.dropWhile (· = 0x20) ++ crlf ++ rest).map tolower := by
  rw [connFound, h]
  exact nnStrcasestr_upgrade

theorem connFound_of_conn (h : ConnSays lines tail) : connFound lines tail = true := by
  obtain ⟨x, hx, hin⟩ := h
  obtain ⟨⟨v, rest⟩, hlast, rfl⟩ := Option.map_eq_some_iff.1 hx
  rw [connFound_of_lastLine hlast, List.append_assoc, List.map_append]
  have hown := (@upgrade_infix_trim v [] nofun).2 hin
  rw [List.append_nil] at hown
  exact hown.trans (List.prefix_append _ _).isInfix

theorem connFound_of_none (h : lastValue "Connection:" lines tail = none) :
    connFound lines tail = false := by
  rw [connFound, Option.map_eq_none_iff.1 h]

/-- Below the last header there is nothing to find. -/
theorem connFound_last {l : List UInt8} (hv : matchChars true (ascii "Connection:") l = some v) :
    connFound (lines ++ [l]) crlf = true ↔ ascii "upgrade" <:+: (trim v).map tolower := by
  have hlast : lastLine "Connection:" (lines ++ [l]) crlf = some (v, crlf) := by
    induction lines with
    | nil =>
      rw [List.nil_append, lastLine, hv]
      rfl
    | cons l' lines ih =>
      rw [List.cons_append, lastLine, ih]
      rfl
  rw [connFound_of_lastLine hlast, List.append_assoc]
  refine upgrade_infix_trim fun a ha => ?_
  revert a
  set_option maxRecDepth 20000 in decide

/-- Above the `Upgrade` header its name is found. -/
theorem connFound_first {l l' w : List UInt8} (hapart : Apart (l :: lines))
    (hv : matchChars true (ascii "Connection:") l = some v) (hl' : l' ∈ lines)
    (hw : matchChars true (ascii "Upgrade:") l' = some w) : connFound (l :: lines) tail = true := by
  have hnone : lastLine "Connection:" lines tail = none := by
    rw [Option.eq_none_iff_forall_ne_some]
    rintro ⟨w, rest⟩ hw
    obtain ⟨l'', hl'', hw⟩ := mem_of_lastLine hw
    have hname : ascii "Connection:" = ascii "Connection" ++ [0x3A] := by decide
    exact (List.pairwise_cons.1 hapart).1 l'' hl''
      ((nameOf_of_matchChars hname (by decide) hv).trans
        (nameOf_of_matchChars hname (by decide) hw).symm)
  have hlast : lastLine "Connection:" (l :: lines) tail = some (v, headerText lines ++ tail) := by
    rw [lastLine, hnone, hv]
    rfl
  rw [connFound_of_lastLine hlast]
  obtain ⟨chars, hsame, rfl⟩ := matchChars_eq_some.1 hw
  obtain ⟨above, below, rfl⟩ := List.append_of_mem hl'
  have hupgrade : ascii "upgrade" <:+: chars.map tolower := by
    rw [← sameText_true.1 hsame]
    decide
  refine hupgrade.trans (List.IsInfix.map tolower ?_)
  refine ⟨v.dropWhile (· = 0x20) ++ crlf ++ headerText above,
    w ++ crlf ++ headerText below ++ tail, ?_⟩
  simp

end Conn

/-! ### The token `upgrade` -/

/-- Without the spaces and tabs around it. -/
def trimBlank (v : List UInt8) : List UInt8 :=
  ((v.dropWhile fun c => c = 0x20 ∨ c = 0x09).reverse.dropWhile fun c => c = 0x20 ∨
    c = 0x09).reverse

/-- The tokens of a value, which is a list with commas, in lower case. -/
def tokens (v : List UInt8) : List (List UInt8) :=
  (v.splitOn 0x2C).map fun t => (trimBlank t).map tolower

/-- One of the tokens of the `Connection` header is `upgrade`. -/
def ConnNames (lines : List (List UInt8)) (tail : List UInt8) : Prop :=
  ∃ v ∈ lastValue "Connection:" lines tail, ascii "upgrade" ∈ tokens v

instance (lines : List (List UInt8)) (tail : List UInt8) : Decidable (ConnNames lines tail) :=
  match h : lastValue "Connection:" lines tail with
  | none => .isFalse fun ⟨_, hv, _⟩ => by rw [h] at hv; cases hv
  | some v => decidable_of_iff (ascii "upgrade" ∈ tokens v) <| by
      rw [ConnNames, h]
      simp

/-! ### Verdicts -/

/-- The headers that an opening must have, apart from `Connection`. -/
def HasOthers (lines : List (List UInt8)) : Prop :=
  ∀ name ∈ ["Host:", "Upgrade:", "Sec-WebSocket-Key:", "Sec-WebSocket-Version:"],
    lastValue name lines crlf ≠ none

/-- Whether the word `upgrade` is found depends on the order of the headers, and so does the
verdict. -/
structure Leaks (lines : List (List UInt8)) : Prop where
  conn : ∃ v ∈ lastValue "Connection:" lines crlf, ¬ ascii "upgrade" <:+: v.map tolower
  others : HasOthers lines
  websocket : Says "Sec-WebSocket-Version:" (ascii "13") lines crlf →
    Says "Upgrade:" (ascii "websocket") lines crlf

section Verdicts

variable {sock : Socktype} {lines lines' : List (List UInt8)}

theorem missing_iff : Missing lines crlf ↔ ¬ (HasOthers lines ∧ connFound lines crlf = true) := by
  simp only [HasOthers, Missing, List.forall_mem_cons, List.not_mem_nil, Bool.eq_false_iff, ne_eq]
  tauto

theorem headerNames :
    ∀ name ∈ ["Host:", "Upgrade:", "Connection:", "Sec-WebSocket-Key:", "Sec-WebSocket-Version:",
      "Sec-WebSocket-Protocol:"], IsName name := by
  intro name hname
  refine ⟨(ascii name).dropLast, ?_⟩
  revert name
  decide

theorem judge_congr (hvalue : ∀ name, IsName name →
    lastValue name lines crlf = lastValue name lines' crlf)
    (hconn : connFound lines crlf = connFound lines' crlf) :
    judge sock lines crlf = judge sock lines' crlf := by
  have hnames := headerNames
  simp only [List.forall_mem_cons] at hnames
  obtain ⟨hhost, hup, -, hkey, hver, hproto, -⟩ := hnames
  have hmissing : Missing lines crlf ↔ Missing lines' crlf := by
    rw [Missing, Missing, hvalue _ hhost, hvalue _ hup, hvalue _ hkey, hvalue _ hver, hconn]
  have hsaid (name : String) (hname : IsName name) (expected : List UInt8) :
      Says name expected lines crlf ↔ Says name expected lines' crlf := by
    rw [Says, Says, hvalue name hname]
  have hfind :
      (nnWsHandshakeSpMap.find? fun e => Says "Sec-WebSocket-Protocol:" (ascii e.wsSp) lines crlf) =
      nnWsHandshakeSpMap.find? fun e =>
        Says "Sec-WebSocket-Protocol:" (ascii e.wsSp) lines' crlf := by
    congr 1
    funext e
    exact decide_eq_decide.2 (hsaid _ hproto _)
  unfold judge
  simp only [hmissing, hsaid _ hver, hsaid _ hup, hvalue _ hproto, hfind]

theorem judge_of_missing (h : Missing lines crlf) : judge sock lines crlf = .wsproto := if_pos h

theorem judge_of_not_websocket (hver : Says "Sec-WebSocket-Version:" (ascii "13") lines crlf)
    (hup : ¬ Says "Upgrade:" (ascii "websocket") lines crlf) :
    judge sock lines crlf = .wsproto := by
  unfold judge
  split_ifs
  · rfl
  · rfl

/-- The table has each subprotocol once. -/
theorem spMap_find {e : SpMap} (he : e ∈ nnWsHandshakeSpMap)
    (hsaid : Says "Sec-WebSocket-Protocol:" (ascii e.wsSp) lines crlf) :
    ∃ e', nnWsHandshakeSpMap.find?
      (fun e => Says "Sec-WebSocket-Protocol:" (ascii e.wsSp) lines crlf) = some e' ∧
      e'.server.protocol = e.server.protocol := by
  have honce : ∀ e ∈ nnWsHandshakeSpMap, ∀ e' ∈ nnWsHandshakeSpMap,
      (ascii e'.wsSp).map tolower = (ascii e.wsSp).map tolower →
        e'.server.protocol = e.server.protocol := by
    unfold nnWsHandshakeSpMap
    decide
  have hisSome :
      (nnWsHandshakeSpMap.find? fun e => Says "Sec-WebSocket-Protocol:" (ascii e.wsSp)
        lines crlf).isSome :=
    List.find?_isSome.2 ⟨e, he, decide_eq_true hsaid⟩
  obtain ⟨e', hfind⟩ := Option.isSome_iff_exists.1 hisSome
  refine ⟨e', hfind, honce e he e' (List.mem_of_find?_eq_some hfind) ?_⟩
  have hsaid' := List.find?_some hfind
  rw [decide_eq_true_iff] at hsaid'
  exact (sameText_true.1 hsaid').trans (sameText_true.1 hsaid).symm

/-- An opening that carries all that it must carry is valid. -/
theorem judge_of_acceptable (h : Acceptable sock lines crlf) : judge sock lines crlf = .ok := by
  have hsome {name : String} {expected : List UInt8} (hsaid : Says name expected lines crlf)
      (hne : expected ≠ []) :
      lastValue name lines crlf ≠ none := by
    intro hnone
    have hlen := hsaid.length
    rw [hnone] at hlen
    exact hne (List.length_eq_zero_iff.1 hlen.symm)
  have hpresent : ¬ Missing lines crlf := by
    simp [Missing, h.host, h.key, hsome h.upgrade (by decide), hsome h.version (by decide),
      connFound_of_conn h.conn]
  unfold judge
  rw [if_neg hpresent, if_neg (not_not.2 h.version), if_neg (not_not.2 h.upgrade)]
  rcases h.subprotocol with ⟨e, he, hsaid, hsock⟩ | ⟨hnone, hpeer⟩
  · have hlong : ∀ e ∈ nnWsHandshakeSpMap, ascii e.wsSp ≠ [] := by decide
    obtain ⟨e', hfind, hprotocol⟩ := spMap_find he hsaid
    rw [if_pos (hsome hsaid (hlong e he)), hfind, SpMap.judge, if_pos (hsock.trans hprotocol.symm)]
  · rw [if_neg (not_not.2 hnone), if_pos hpeer]

theorem judge_ne_wsproto (hm : ¬ Missing lines crlf)
    (hup : Says "Sec-WebSocket-Version:" (ascii "13") lines crlf →
      Says "Upgrade:" (ascii "websocket") lines crlf) :
    judge sock lines crlf ≠ .wsproto := by
  intro hjudge
  have hj := judged sock lines crlf
  rw [hjudge] at hj
  cases hj with
  | missing h => exact hm h
  | upgrade _ hver hnot => exact hnot (hup hver)
  | refused _ _ _ hcode => rcases hcode with hcode | hcode <;> cases hcode

theorem HasOthers.perm (h : HasOthers lines) (hapart : Apart lines) (hperm : lines.Perm lines') :
    HasOthers lines' := by
  intro name hname
  have hisName : IsName name := headerNames name (by
    revert name
    decide)
  rw [← lastValue_perm hisName hapart hperm]
  exact h name hname

/-- The verdict does not depend on the order when nothing leaks. -/
theorem judge_perm (hleaks : ¬ Leaks lines) (hapart : Apart lines) (hperm : lines.Perm lines') :
    judge sock lines' crlf = judge sock lines crlf := by
  have hvalue (name : String) (hname : IsName name) :
      lastValue name lines' crlf = lastValue name lines crlf :=
    (lastValue_perm hname hapart hperm).symm
  have hconnName : IsName "Connection:" := headerNames _ (by decide)
  have hsame (h : connFound lines' crlf = connFound lines crlf) :
      judge sock lines' crlf = judge sock lines crlf :=
    judge_congr hvalue h
  cases hconn : lastValue "Connection:" lines crlf with
  | none =>
    exact hsame
      ((connFound_of_none ((hvalue _ hconnName).trans hconn)).trans (connFound_of_none hconn).symm)
  | some v =>
    by_cases hown : ascii "upgrade" <:+: v.map tolower
    · have hsaid : ConnSays lines crlf := ⟨v, hconn, hown⟩
      have hsaid' : ConnSays lines' crlf := ⟨v, (hvalue _ hconnName).trans hconn, hown⟩
      exact hsame ((connFound_of_conn hsaid').trans (connFound_of_conn hsaid).symm)
    · by_cases hothers : HasOthers lines
      · have hnot : ¬ (Says "Sec-WebSocket-Version:" (ascii "13") lines crlf →
            Says "Upgrade:" (ascii "websocket") lines crlf) := fun hup => hleaks
              ⟨⟨v, hconn, hown⟩, hothers, hup⟩
        push Not at hnot
        obtain ⟨hver, hup⟩ := hnot
        rw [judge_of_not_websocket hver hup]
        rw [Says, ← hvalue _ (headerNames _ (by decide))] at hver hup
        exact judge_of_not_websocket hver hup
      · have hothers' : ¬ HasOthers lines' :=
          fun h => hothers (h.perm (hapart.perm hperm) hperm.symm)
        rw [judge_of_missing (missing_iff.2 fun h => hothers h.1),
          judge_of_missing (missing_iff.2 fun h => hothers' h.1)]

theorem connSays_of_judge (h : judge sock lines crlf = .ok) (hleaks : ¬ Leaks lines) :
    ConnSays lines crlf := by
  have hpresent : HasOthers lines ∧ connFound lines crlf = true := by
    by_contra hno
    rw [judge_of_missing (missing_iff.2 hno)] at h
    cases h
  have hup : Says "Sec-WebSocket-Version:" (ascii "13") lines crlf →
      Says "Upgrade:" (ascii "websocket") lines crlf := by
    intro hver
    by_contra hnot
    rw [judge_of_not_websocket hver hnot] at h
    cases h
  cases hconn : lastValue "Connection:" lines crlf with
  | none =>
    rw [connFound_of_none hconn] at hpresent
    cases hpresent.2
  | some v =>
    by_contra hno
    exact hleaks ⟨⟨v, hconn, fun hown => hno ⟨v, hconn, hown⟩⟩, hpresent.1, hup⟩

/-- When it leaks, two orders have different verdicts. -/
theorem Leaks.exists_perm (h : Leaks lines) (hapart : Apart lines) :
    ∃ above below, lines.Perm above ∧ lines.Perm below ∧
      judge sock above crlf ≠ judge sock below crlf := by
  obtain ⟨⟨x, hx, hown⟩, hothers, hup⟩ := h
  obtain ⟨⟨v, rest⟩, hlast, rfl⟩ := Option.map_eq_some_iff.1 hx
  obtain ⟨l, hl, hv⟩ := mem_of_lastLine hlast
  obtain ⟨pre, post, rfl⟩ := List.append_of_mem hl
  have hfirst : (pre ++ l :: post).Perm (l :: (pre ++ post)) := List.perm_middle
  have hlastPerm : (pre ++ l :: post).Perm ((pre ++ post) ++ [l]) :=
    hfirst.trans (List.perm_append_singleton _ _).symm
  refine ⟨_, _, hfirst, hlastPerm, ?_⟩
  have hmissing : Missing ((pre ++ post) ++ [l]) crlf :=
    missing_iff.2 fun h => hown ((connFound_last hv).1 h.2)
  rw [judge_of_missing hmissing]
  have hvalue (name : String)
      (hname : name ∈ ["Host:", "Upgrade:", "Connection:", "Sec-WebSocket-Key:",
        "Sec-WebSocket-Version:", "Sec-WebSocket-Protocol:"]) :
      lastValue name (pre ++ l :: post) crlf = lastValue name (l :: (pre ++ post)) crlf :=
    lastValue_perm (headerNames name hname) hapart hfirst
  refine judge_ne_wsproto (fun hm => missing_iff.1 hm ⟨hothers.perm hapart hfirst, ?_⟩) ?_
  · -- the `Upgrade` header stands below the `Connection` header
    obtain ⟨y, hy⟩ := Option.ne_none_iff_exists'.1 (hothers "Upgrade:" (by simp))
    obtain ⟨⟨w, rest'⟩, hlast', -⟩ := Option.map_eq_some_iff.1 hy
    obtain ⟨l', hl', hw⟩ := mem_of_lastLine hlast'
    refine connFound_first (hapart.perm hfirst) hv ?_ hw
    rcases List.mem_append.1 hl' with hl' | hl'
    · exact List.mem_append_left _ hl'
    · rcases List.mem_cons.1 hl' with rfl | hl'
      · have hname : nameOf l' = (ascii "Connection").map tolower :=
          nameOf_of_matchChars (by decide) (by decide) hv
        have hname' : nameOf l' = (ascii "Upgrade").map tolower :=
          nameOf_of_matchChars (by decide) (by decide) hw
        exact absurd (hname.symm.trans hname') (by decide)
      · exact List.mem_append_right _ hl'
  · rw [Says, Says, ← hvalue _ (by decide), ← hvalue _ (by decide)]
    exact hup

end Verdicts

/-! ### Requests -/

/-- The text of a request. -/
def httpText (method uri version : List UInt8) (lines : List (List UInt8)) : List UInt8 :=
  method ++ [0x20] ++ uri ++ [0x20] ++ version ++ crlf ++ (headerText lines ++ crlf)

/-- A request whose headers have different names, and which is short enough for the buffer. -/
structure Request where
  method : List UInt8
  uri : List UInt8
  version : List UInt8
  lines : List (List UInt8)
  tokens : ∀ t ∈ [method, uri, version], 0 ∉ t ∧ 0x20 ∉ t ∧ 0x0D ∉ t ∧ 0x0A ∉ t
  areLines : ∀ l ∈ lines, Line l ∧ 0 ∉ l
  apart : Apart lines
  fits : (httpText method uri version lines).length < 4096

/-- The verdict and the response code of `nn_ws_handshake_parse_client_opening` for a buffer with
some text. -/
def parseResult (sock : Socktype) (hs : Handshake) (text : List UInt8) :
    Except Fault (Verdict × Option ResponseCode) :=
  (nnWsHandshakeParseClientOpening sock { hs with openingHs := text }).map fun r =>
    (r.1, r.2.responseCode)

/-- The request with its headers in another order. -/
def Request.text (r : Request) (lines : List (List UInt8)) : List UInt8 :=
  httpText r.method r.uri r.version lines

section Requests

variable {sock : Socktype} {hs : Handshake} {r : Request} {lines : List (List UInt8)}

theorem headerText_perm {lines' : List (List UInt8)} (h : lines.Perm lines') :
    (headerText lines).Perm (headerText lines') := h.flatMap_right _

theorem httpText_complete (method uri version : List UInt8) (lines : List (List UInt8)) :
    termseq <:+: httpText method uri version lines := by
  have hterm : crlf ++ crlf = termseq := rfl
  rcases List.eq_nil_or_concat lines with rfl | ⟨lines, l, rfl⟩
  · refine ⟨method ++ [0x20] ++ uri ++ [0x20] ++ version, [], ?_⟩
    simp [httpText, ← hterm]
  · refine ⟨method ++ [0x20] ++ uri ++ [0x20] ++ version ++ crlf ++ headerText lines ++ l, [], ?_⟩
    simp [httpText, ← hterm]

theorem cstring_eq {text : List UInt8} (h : 0 ∉ text) : cstring text = text := by
  have := @List.takeWhile_append_of_pos _ (fun c : UInt8 => decide (c ≠ 0)) text [] fun c hc => by
    simpa using fun heq : c = 0 => h (heq ▸ hc)
  simpa [cstring] using this

theorem Request.no_nul (r : Request) (hperm : r.lines.Perm lines) : 0 ∉ r.text lines := by
  have htokens := r.tokens
  simp only [List.forall_mem_cons] at htokens
  have hlines (l : List UInt8) (hl : l ∈ lines) : 0 ∉ l := (r.areLines l (hperm.symm.subset hl)).2
  have hcrlf : (0 : UInt8) ∉ crlf := by decide
  simp only [Request.text, httpText, headerText, List.mem_append, List.mem_flatMap,
    List.mem_singleton]
  rintro ((((((h | h) | h) | h) | h) | h) | ⟨l, hl, h | h⟩ | h)
  · exact htokens.1.1 h
  · cases h
  · exact htokens.2.1.1 h
  · cases h
  · exact htokens.2.2.1.1 h
  · exact hcrlf h
  · exact hlines l hl h
  · exact hcrlf h
  · exact hcrlf h

theorem append_char_inj {a : UInt8} {x y u v : List UInt8} (h : x ++ [a] ++ u = y ++ [a] ++ v)
    (hx : a ∉ x) (hy : a ∉ y) :
    x = y ∧ u = v := by
  have hcut := Search.cut_append (List.cons_ne_nil a []) (by simpa [infix_singleton] using hx) u
  rw [h, Search.cut_append (List.cons_ne_nil a []) (by simpa [infix_singleton] using hy) v] at hcut
  cases hcut
  exact ⟨rfl, rfl⟩

/-- The code reads requests of one method and one version. -/
theorem Request.requestLine_eq_none (r : Request)
    (h : ¬ (r.method = ascii "GET" ∧ r.version = ascii "HTTP/1.1")) :
    requestLine (r.text lines) = none := by
  have htokens := r.tokens
  simp only [List.forall_mem_cons] at htokens
  obtain ⟨⟨-, hmethod, -, -⟩, ⟨-, huri, -, -⟩, ⟨-, -, hversion, -⟩, -⟩ := htokens
  rw [Option.eq_none_iff_forall_ne_some]
  rintro ⟨value, pos⟩ hline
  obtain ⟨uri, huri', htext, -⟩ := requestLine_eq_some.1 hline
  have hget : ascii "GET " = ascii "GET" ++ [0x20] := by decide
  have hhttp : ascii " HTTP/1.1\r\n" = 0x20 :: (ascii "HTTP/1.1" ++ crlf) := by decide
  have htext' : r.method ++ [0x20] ++
      (r.uri ++ [0x20] ++ (r.version ++ [0x0D] ++ ([0x0A] ++ (headerText lines ++ crlf)))) =
      ascii "GET" ++ [0x20] ++
        (uri ++ [0x20] ++ (ascii "HTTP/1.1" ++ [0x0D] ++ ([0x0A] ++ pos))) := by
    simpa [Request.text, httpText, requestHead, hget, hhttp, crlf] using htext
  obtain ⟨hm, hrest⟩ := append_char_inj htext' hmethod (by decide)
  obtain ⟨-, hrest⟩ := append_char_inj hrest huri huri'
  obtain ⟨hv, -⟩ := append_char_inj hrest hversion (by decide)
  exact h ⟨hm, hv⟩

/-- What the parser returns for any order of the headers. -/
theorem Request.parseResult_eq (sock : Socktype) (hs : Handshake) (r : Request)
    (hperm : r.lines.Perm lines) :
    parseResult sock hs (r.text lines) =
      .ok (if r.method = ascii "GET" ∧ r.version = ascii "HTTP/1.1" then
        (if judge sock lines crlf = .ok then .valid else .invalid, some (judge sock lines crlf))
      else (.invalid, some .null)) := by
  have hlen : (r.text lines).length < 4096 := by
    have := (headerText_perm hperm).length_eq
    have hfits := r.fits
    simp only [Request.text, httpText, List.length_append] at hfits ⊢
    omega
  have hcstring := cstring_eq (r.no_nul hperm)
  have hinc : ¬ Incomplete (r.text lines) := by
    rw [Incomplete, hcstring, not_not]
    exact httpText_complete _ _ _ _
  have hparse :=
    @parse_of_complete sock { hs with openingHs := r.text lines } _ rfl (Or.inr hlen) hinc
  rw [hcstring] at hparse
  unfold parseResult
  rw [hparse]
  by_cases hline : r.method = ascii "GET" ∧ r.version = ascii "HTTP/1.1"
  · have huri : 0x20 ∉ r.uri := (r.tokens r.uri (by simp)).2.1
    have htext : r.text lines = requestHead r.uri ++ (headerText lines ++ crlf) := by
      have hget : ascii "GET " = ascii "GET" ++ [0x20] := by decide
      have hhttp : ascii " HTTP/1.1\r\n" = [0x20] ++ ascii "HTTP/1.1" ++ crlf := by decide
      rw [Request.text, httpText, requestHead, hget, hhttp, hline.1, hline.2]
      simp only [List.append_assoc]
    obtain ⟨o, hopening, -⟩ := parseOpening_eq sock
      ⟨huri, fun l hl => (r.areLines l (hperm.symm.subset hl)).1, Or.inr rfl, htext⟩
    rw [hopening, if_pos hline]
    rfl
  · have hopening : parseOpening sock (r.text lines) = .ok (Opening.blank .null, .null) := by
      unfold parseOpening
      rw [r.requestLine_eq_none hline]
      rfl
    rw [hopening, if_neg hline]
    rfl

/-- The verdict on a request does not depend on the order of its headers, and a valid request has
the token `upgrade` in its `Connection` header. -/
structure OrderFree (sock : Socktype) (hs : Handshake) (r : Request) : Prop where
  perm : ∀ lines, r.lines.Perm lines →
    parseResult sock hs (r.text lines) = parseResult sock hs (r.text r.lines)
  conn : ∀ code, parseResult sock hs (r.text r.lines) = .ok (.valid, code) → ConnNames r.lines crlf

/-- The verdict depends on the order exactly when the word `upgrade` is not in the `Connection`
header though that is there, no other header is missing, and the `Upgrade` header is not what makes
the request invalid.  A request that carries all else is valid whether the word is a token or a part
of one. -/
theorem order_free_iff (sock : Socktype) (hs : Handshake) (r : Request) :
    OrderFree sock hs r ↔ (r.method = ascii "GET" → r.version = ascii "HTTP/1.1" →
      ¬ Leaks r.lines ∧ (Acceptable sock r.lines crlf → ConnNames r.lines crlf)) := by
  have hresult {lines : List (List UInt8)} (hperm : r.lines.Perm lines) :=
    r.parseResult_eq sock hs hperm
  constructor
  · intro h hmethod hversion
    have hline : r.method = ascii "GET" ∧ r.version = ascii "HTTP/1.1" := ⟨hmethod, hversion⟩
    constructor
    · intro hleaks
      obtain ⟨above, below, habove, hbelow, hne⟩ := @Leaks.exists_perm sock _ hleaks r.apart
      have heq := (h.perm above habove).trans (h.perm below hbelow).symm
      rw [hresult habove, hresult hbelow, if_pos hline, if_pos hline] at heq
      exact hne (Option.some.inj (Prod.mk.inj (Except.ok.inj heq)).2)
    · intro hacceptable
      refine h.conn (some .ok) ?_
      rw [hresult (.refl _), if_pos hline, judge_of_acceptable hacceptable, if_pos rfl]
  · intro h
    by_cases hline : r.method = ascii "GET" ∧ r.version = ascii "HTTP/1.1"
    · obtain ⟨hleaks, hnames⟩ := h hline.1 hline.2
      constructor
      · intro lines hperm
        rw [hresult hperm, hresult (.refl _), judge_perm hleaks r.apart hperm]
      · intro code hvalid
        rw [hresult (.refl _), if_pos hline] at hvalid
        have hok : judge sock r.lines crlf = .ok := by
          by_contra hno
          rw [if_neg hno] at hvalid
          cases hvalid
        exact hnames (acceptable_of_judge hok fun _ => connSays_of_judge hok hleaks)
    · constructor
      · intro lines hperm
        rw [hresult hperm, hresult (.refl _), if_neg hline, if_neg hline]
      · intro code hvalid
        rw [hresult (.refl _), if_neg hline] at hvalid
        cases hvalid

end Requests

/-- The headers of a request that names no resource, apart from `Connection`. -/
def plainLines : List (List UInt8) :=
  [ascii "Host: example.com", ascii "Upgrade: websocket",
    ascii "Sec-WebSocket-Key: dGhlIHNhbXBsZSBub25jZQ==", ascii "Sec-WebSocket-Version: 13"]

/-- A request with another `Connection` header than a handshake needs. -/
def closeHeaders : Request where
  method := ascii "GET"
  uri := ascii "/"
  version := ascii "HTTP/1.1"
  lines := ascii "Connection: close" :: plainLines
  tokens := by decide
  areLines := by decide
  apart := by
    unfold Apart
    decide
  fits := by set_option maxRecDepth 20000 in decide

/-- A request whose `Connection` header has a token that ends in `upgrade`. -/
def noUpgradeHeaders : Request where
  method := ascii "GET"
  uri := ascii "/"
  version := ascii "HTTP/1.1"
  lines := plainLines ++ [ascii "Connection: no-upgrade"]
  tokens := by decide
  areLines := by decide
  apart := by
    unfold Apart
    decide
  fits := by set_option maxRecDepth 20000 in decide

/-- The first one is valid, but not with the `Connection` header at the end; the other one is valid
without the token `upgrade`. -/
theorem close_header_order :
    (∃ lines, closeHeaders.lines.Perm lines ∧ ¬ ConnNames closeHeaders.lines crlf ∧
      parseResult .pair serverStart (closeHeaders.text closeHeaders.lines) =
        .ok (.valid, some .ok) ∧
      parseResult .pair serverStart (closeHeaders.text lines) = .ok (.invalid, some .wsproto)) ∧
    ¬ ConnNames noUpgradeHeaders.lines crlf ∧
      parseResult .pair serverStart (noUpgradeHeaders.text noUpgradeHeaders.lines) =
        .ok (.valid, some .ok) :=
  ⟨⟨closeHeaders.lines.tail ++ [ascii "Connection: close"],
    (List.perm_append_singleton _ _).symm, by decide,
      by set_option maxRecDepth 20000 in decide, by set_option maxRecDepth 20000 in decide⟩,
    by decide, by set_option maxRecDepth 20000 in decide⟩

end NanoSocket.Ws

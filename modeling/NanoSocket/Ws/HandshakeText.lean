import NanoSocket.Core.Wire
import NanoSocket.Ws.Handshake

/-!
# The text of an opening handshake

A request or a response is a first line, header lines and an empty line.  `headerLoop` takes a text
apart at its line ends (`exists_lines`) and stores the lines one by one (`headerLoop_headerText`);
it finds the end of the headers exactly when the text consists of whole lines (`headerLoop_ends`).
-/

namespace NanoSocket.Ws

/-! ### Characters -/

/-- Two texts are taken for the same one. -/
def SameText (caseInsensitive : Bool) : List UInt8 → List UInt8 → Prop :=
  List.Forall₂ fun a b => sameChar caseInsensitive a b = true

instance (ci : Bool) (a b : List UInt8) : Decidable (SameText ci a b) :=
  inferInstanceAs (Decidable (List.Forall₂ _ a b))

theorem matchChars_eq_some {ci : Bool} {token pos rest : List UInt8} :
    matchChars ci token pos = some rest ↔ ∃ chars, SameText ci token chars ∧
      pos = chars ++ rest := by
  induction token generalizing pos with
  | nil =>
    constructor
    · intro h
      cases h
      exact ⟨[], .nil, rfl⟩
    · rintro ⟨chars, hsame, rfl⟩
      cases hsame
      rfl
  | cons t token ih =>
    cases pos with
    | nil =>
      refine ⟨nofun, ?_⟩
      rintro ⟨chars, hsame, hpos⟩
      cases hsame
      cases hpos
    | cons c pos =>
      rw [matchChars]
      split_ifs with hc
      · rw [ih]
        constructor
        · rintro ⟨chars, hsame, rfl⟩
          exact ⟨c :: chars, hsame.cons hc, rfl⟩
        · rintro ⟨chars, hsame, hpos⟩
          cases hsame with
          | cons ht hsame =>
            cases hpos
            exact ⟨_, hsame, rfl⟩
      · refine ⟨nofun, ?_⟩
        rintro ⟨chars, hsame, hpos⟩
        cases hsame with
        | cons ht hsame =>
          cases hpos
          exact absurd ht hc

theorem sameText_false {a b : List UInt8} : SameText false a b ↔ a = b := by
  have hsame : (fun a b : UInt8 => sameChar false a b = true) = (· = ·) := by
    funext a b
    simp [sameChar]
  rw [SameText, hsame, List.forall₂_eq_eq_eq]

theorem sameText_true {a b : List UInt8} : SameText true a b ↔ a.map tolower = b.map tolower := by
  rw [← List.forall₂_eq_eq_eq, List.forall₂_map_left_iff, List.forall₂_map_right_iff, SameText]
  simp [sameChar]

/-- Two tokens at the front of one text: one is a front of the other. -/
theorem prefix_or_prefix {a b l : List UInt8} (ha : (matchChars true a l).isSome)
    (hb : (matchChars true b l).isSome) :
    a.map tolower <+: b.map tolower ∨ b.map tolower <+: a.map tolower := by
  obtain ⟨x, hx⟩ := Option.isSome_iff_exists.1 ha
  obtain ⟨y, hy⟩ := Option.isSome_iff_exists.1 hb
  obtain ⟨c, hc, rfl⟩ := matchChars_eq_some.1 hx
  obtain ⟨d, hd, heq⟩ := matchChars_eq_some.1 hy
  rw [sameText_true] at hc hd
  rw [hc, hd]
  have hd' : d <+: c ++ x := by
    rw [heq]
    exact List.prefix_append d y
  exact (List.prefix_or_prefix_of_prefix (List.prefix_append c x) hd').imp (fun h => h.map tolower)
    fun h => h.map tolower

/-- A token without a line end is found in a line or not at all. -/
theorem matchChars_append {ci : Bool} {token : List UInt8} {a : UInt8}
    (h : ∀ t ∈ token, sameChar ci t a = false) (l x : List UInt8) :
    matchChars ci token (l ++ a :: x) = (matchChars ci token l).map (· ++ a :: x) := by
  induction token generalizing l with
  | nil => simp [matchChars]
  | cons t token ih =>
    cases l with
    | nil => simp [matchChars, h t List.mem_cons_self]
    | cons c l =>
      rw [List.cons_append, matchChars, matchChars]
      split_ifs with hc
      · exact ih (fun t ht => h t (List.mem_cons_of_mem _ ht)) l
      · rfl

/-! ### Lines -/

/-- A header line: it is not empty, and holds no line end. -/
def Line (l : List UInt8) : Prop := l ≠ [] ∧ ¬ crlf <:+: l

instance (l : List UInt8) : Decidable (Line l) := inferInstanceAs (Decidable (_ ∧ _))

/-- Lines with their ends. -/
def headerText (lines : List (List UInt8)) : List UInt8 := lines.flatMap (· ++ crlf)

@[simp] theorem headerText_nil : headerText [] = [] := rfl

@[simp] theorem headerText_cons (l : List UInt8) (lines : List (List UInt8)) :
    headerText (l :: lines) = l ++ crlf ++ headerText lines := by
  simp [headerText]

@[simp] theorem headerText_append (lines lines' : List (List UInt8)) :
    headerText (lines ++ lines') = headerText lines ++ headerText lines' := by
  simp [headerText]

theorem not_infix_append_cr {l : List UInt8} (h : ¬ crlf <:+: l) :
    ¬ crlf <:+: l ++ crlf.dropLast := by
  rintro ⟨s, t, ht⟩
  rcases List.eq_nil_or_concat t with rfl | ⟨t, a, rfl⟩
  · have := congrArg List.getLast? ht
    simp [crlf] at this
  · have hlast : s ++ crlf ++ t = l := by
      have := congrArg List.dropLast ht
      rw [List.concat_eq_append, ← List.append_assoc, List.dropLast_concat] at this
      rw [this]
      exact List.dropLast_concat
    exact h ⟨s, t, hlast⟩

/-- The end of a line is found. -/
theorem cut_crlf {l : List UInt8} (h : ¬ crlf <:+: l) (rest : List UInt8) :
    Search.cut crlf (l ++ crlf ++ rest) = some (l, rest) :=
  Search.cut_append (by decide) (not_infix_append_cr h) rest

theorem not_infix_of_cut_crlf {l x y : List UInt8} (h : Search.cut crlf l = some (x, y)) :
    ¬ crlf <:+: x :=
  fun hin => Search.not_infix_of_cut (by decide) h (hin.trans (List.prefix_append _ _).isInfix)

/-- How a text goes on behind its header lines. -/
inductive Tail : List UInt8 → Prop
  | nil : Tail []
  | blank (rest : List UInt8) : Tail (crlf ++ rest)
  | unfinished {l : List UInt8} (hne : l ≠ []) (h : ¬ crlf <:+: l) : Tail l

/-- Every text is taken apart at its line ends. -/
theorem exists_lines (pos : List UInt8) :
    ∃ lines tail, (∀ l ∈ lines, Line l) ∧ pos = headerText lines ++ tail ∧ Tail tail := by
  induction hn : pos.length using Nat.strong_induction_on generalizing pos with
  | _ n ih =>
    by_cases hnil : pos = []
    · exact ⟨[], [], by simp, by simp [hnil], .nil⟩
    by_cases hblank : crlf <+: pos
    · obtain ⟨rest, rfl⟩ := hblank
      exact ⟨[], crlf ++ rest, by simp, by simp, .blank rest⟩
    cases hcut : Search.cut crlf pos with
    | none => exact ⟨[], pos, by simp, by simp, .unfinished hnil (Search.cut_eq_none.1 hcut)⟩
    | some r =>
      obtain ⟨x, y⟩ := r
      have heq := Search.eq_of_cut hcut
      have hx : Line x := by
        refine ⟨fun hx => hblank ?_, not_infix_of_cut_crlf hcut⟩
        rw [heq, hx, List.nil_append]
        exact List.prefix_append _ _
      have hlt : y.length < n := by
        rw [← hn, heq]
        simp [crlf]
        omega
      obtain ⟨lines, tail, hlines, rfl, htail⟩ := ih _ hlt y rfl
      refine ⟨x :: lines, tail, ?_, ?_, htail⟩
      · simpa using ⟨hx, hlines⟩
      · rw [heq, headerText_cons, List.append_assoc (x ++ crlf)]

/-! ### Header lines -/

section Headers

variable {F : Type} {headers : List (String × (F → Value → Except Fault F))}

/-- The header that a line is, and what stands behind its name. -/
def headerOf (headers : List (String × (F → Value → Except Fault F))) (l : List UInt8) :
    Option ((F → Value → Except Fault F) × List UInt8) :=
  headers.findSome? fun h => (matchChars true (ascii h.1) l).map fun v => (h.2, v)

/-- A value without the spaces around it. -/
def trim (v : List UInt8) : List UInt8 := trimEnd (v.dropWhile (· = 0x20))

/-- The value `v` of a header line, `rest` are the lines below it. -/
def lineValue (v rest : List UInt8) : Value :=
  { addr := some (v.dropWhile (· = 0x20) ++ crlf ++ rest), len := (trim v).length }

/-- Store a line. -/
def storeLine (headers : List (String × (F → Value → Except Fault F))) (fields : F)
    (l rest : List UInt8) :
    Except Fault F :=
  match headerOf headers l with
  | some (store, v) => store fields (lineValue v rest)
  | none => .ok fields

/-- Store lines one by one; `tail` stands below them. -/
def storeLines (headers : List (String × (F → Value → Except Fault F))) :
    F → List (List UInt8) → List UInt8 → Except Fault F
  | fields, [], _ => .ok fields
  | fields, l :: lines, tail => do
    storeLines headers (← storeLine headers fields l (headerText lines ++ tail)) lines tail

/-- The names of the headers are not empty and hold no line end. -/
def Names (headers : List (String × (F → Value → Except Fault F))) : Prop :=
  ∀ h ∈ headers, ascii h.1 ≠ [] ∧ ∀ t ∈ ascii h.1, sameChar true t 0x0D = false

theorem names_of_not_mem {headers : List (String × (F → Value → Except Fault F))}
    (h : ∀ h ∈ headers, ascii h.1 ≠ [] ∧ 0x0D ∉ ascii h.1) : Names headers := by
  intro p hp
  refine ⟨(h p hp).1, fun t ht => decide_eq_false fun heq => (h p hp).2 ?_⟩
  have hcr : t = 0x0D := (tolower_eq_iff (by decide) t).1 heq
  rwa [hcr] at ht

theorem infix_of_headerOf {l v : List UInt8} {store : F → Value → Except Fault F}
    (h : headerOf headers l = some (store, v)) : v <:+ l := by
  obtain ⟨a, -, ha⟩ := List.exists_of_findSome?_eq_some h
  obtain ⟨w, hw, heq⟩ := Option.map_eq_some_iff.1 ha
  cases heq
  obtain ⟨chars, -, rfl⟩ := matchChars_eq_some.1 hw
  exact List.suffix_append _ _

/-- The search for the header of a line does not look beyond the line. -/
theorem findSome?_line (hnames : Names headers) (l rest : List UInt8) :
    (headers.findSome? fun h =>
      (nnWsMatchToken (ascii h.1) (l ++ crlf ++ rest) true false).map fun pos => (h.2, pos)) =
      (headerOf headers l).map fun p => (p.1, p.2 ++ crlf ++ rest) := by
  induction headers with
  | nil => rfl
  | cons h headers ih =>
    have hmatch : nnWsMatchToken (ascii h.1) (l ++ crlf ++ rest) true false =
        (matchChars true (ascii h.1) l).map (· ++ crlf ++ rest) := by
      have := matchChars_append (hnames h List.mem_cons_self).2 l (0x0A :: rest)
      simpa [nnWsMatchToken, crlf] using this
    rw [headerOf, List.findSome?_cons, List.findSome?_cons, hmatch]
    cases matchChars true (ascii h.1) l with
    | none => exact ih fun h hh => hnames h (List.mem_cons_of_mem _ hh)
    | some v => rfl

theorem nnWsMatchValue_line {v : List UInt8} (h : ¬ crlf <:+: v) (rest : List UInt8) :
    nnWsMatchValue crlf (v ++ crlf ++ rest) true true = some (lineValue v rest, rest) := by
  rw [nnWsMatchValue, cut_crlf h]
  rfl

theorem nnWsMatchToken_crlf (pos : List UInt8) :
    nnWsMatchToken crlf pos true false = if crlf <+: pos then some (pos.drop 2) else none := by
  have hchar : ∀ c : UInt8, (sameChar true 0x0D c = true ↔ c = 0x0D) ∧
      (sameChar true 0x0A c = true ↔ c = 0x0A) :=
    fun c => ⟨decide_eq_true_iff.trans (eq_comm.trans (tolower_eq_iff (by decide) c)),
      decide_eq_true_iff.trans (eq_comm.trans (tolower_eq_iff (by decide) c))⟩
  cases hmatch : matchChars true crlf pos with
  | none =>
    have hpre : ¬ crlf <+: pos := by
      rintro ⟨rest, rfl⟩
      rw [matchChars_eq_some.2 ⟨crlf, by decide, rfl⟩] at hmatch
      cases hmatch
    rw [if_neg hpre]
    exact hmatch
  | some rest =>
    obtain ⟨chars, hsame, rfl⟩ := matchChars_eq_some.1 hmatch
    have hchars : chars = crlf := by
      cases hsame with
      | cons hc hsame =>
        cases hsame with
        | cons hd hsame =>
          cases hsame
          rw [(hchar _).1.1 hc, (hchar _).2.1 hd]
          rfl
    subst hchars
    rw [if_pos (List.prefix_append _ _)]
    exact hmatch

/-- One turn of the loop over a line. -/
theorem headerLoop_line (hnames : Names headers) {l : List UInt8} (hl : Line l) (fuel : ℕ)
    (fields : F) (rest : List UInt8) :
    headerLoop headers (fuel + 1) fields (l ++ crlf ++ rest) =
      storeLine headers fields l rest >>= fun fields => headerLoop headers fuel fields rest := by
  obtain ⟨c, l', hc⟩ := List.exists_cons_of_ne_nil hl.1
  have hpos : l ++ crlf ++ rest = c :: (l' ++ crlf ++ rest) := by rw [hc]; rfl
  have hcrlf : ¬ crlf <+: l ++ crlf ++ rest := by
    intro hpre
    have hcut := cut_crlf hl.2 rest
    obtain ⟨y, hy⟩ := hpre
    have hcut' := cut_crlf (l := []) (by decide) y
    rw [List.nil_append, hy, hcut] at hcut'
    exact hl.1 (congrArg Prod.fst (Option.some.inj hcut'))
  rw [hpos, headerLoop, ← hpos, findSome?_line hnames, storeLine]
  cases hof : headerOf headers l with
  | none =>
    simp only [Option.map_none]
    rw [nnWsMatchToken_crlf, if_neg hcrlf, nnWsMatchValue_line hl.2]
    rfl
  | some p =>
    have hv : ¬ crlf <:+: p.2 := fun h => hl.2 (h.trans (infix_of_headerOf hof).isInfix)
    simp only [Option.map_some]
    rw [nnWsMatchValue_line hv]

/-- The loop stores the lines of a text one by one. -/
theorem headerLoop_headerText (hnames : Names headers) {lines : List (List UInt8)}
    (hlines : ∀ l ∈ lines, Line l) (fuel : ℕ) (fields : F) (tail : List UInt8) :
    headerLoop headers (lines.length + fuel) fields (headerText lines ++ tail) =
      storeLines headers fields lines tail >>= fun fields =>
        headerLoop headers fuel fields tail := by
  induction lines generalizing fields with
  | nil => rw [List.length_nil, Nat.zero_add]; rfl
  | cons l lines ih =>
    rw [List.length_cons, Nat.add_right_comm, headerText_cons, List.append_assoc (l ++ crlf),
      headerLoop_line hnames (hlines l List.mem_cons_self), storeLines]
    cases hstore : storeLine headers fields l (headerText lines ++ tail) with
    | error f => rfl
    | ok fields' => exact ih (fun l hl => hlines l (List.mem_cons_of_mem _ hl)) fields'

@[simp] theorem headerLoop_nil (fuel : ℕ) (fields : F) :
    headerLoop headers fuel fields [] = .ok (some (fields, [])) := by
  rw [headerLoop]

/-- The empty line ends the loop. -/
theorem headerLoop_blank (hnames : Names headers) (fuel : ℕ) (fields : F) (rest : List UInt8) :
    headerLoop headers (fuel + 1) fields (crlf ++ rest) = .ok (some (fields, rest)) := by
  have hnone : headerOf headers [] = none := by
    refine List.findSome?_eq_none_iff.2 fun h hh => ?_
    obtain ⟨t, token, ht⟩ := List.exists_cons_of_ne_nil (hnames h hh).1
    rw [ht]
    rfl
  have hfind := findSome?_line hnames [] rest
  rw [hnone, Option.map_none, List.nil_append] at hfind
  have hpos : crlf ++ rest = 0x0D :: 0x0A :: rest := rfl
  rw [hpos, headerLoop, ← hpos, hfind]
  dsimp only
  rw [nnWsMatchToken_crlf, if_pos (List.prefix_append _ _)]
  rfl

/-- A line without an end ends the loop, too, unless its header cannot be stored without a value. -/
theorem headerLoop_unfinished {l : List UInt8} (hne : l ≠ []) (h : ¬ crlf <:+: l)
    (fuel : ℕ) (fields : F) :
    headerLoop headers (fuel + 1) fields l = .ok none ∨
      ∃ p ∈ headers, ∃ f, p.2 fields .null = .error f ∧
        headerLoop headers (fuel + 1) fields l = .error f := by
  obtain ⟨c, l', rfl⟩ := List.exists_cons_of_ne_nil hne
  have hvalue {v : List UInt8} (hv : v <:+ c :: l') : nnWsMatchValue crlf v true true = none := by
    rw [nnWsMatchValue, Search.cut_eq_none.2 fun hin => h (hin.trans hv.isInfix)]
  rw [headerLoop]
  split
  · rename_i store pos hfind
    obtain ⟨a, hmem, ha⟩ := List.exists_of_findSome?_eq_some hfind
    obtain ⟨w, hw, heq⟩ := Option.map_eq_some_iff.1 ha
    cases heq
    have hw' : matchChars true (ascii a.1) (c :: l') = some pos := hw
    obtain ⟨chars, -, hchars⟩ := matchChars_eq_some.1 hw'
    rw [hvalue (by rw [hchars]; exact List.suffix_append _ _)]
    cases hstore : a.2 fields .null with
    | error f => exact Or.inr ⟨a, hmem, f, hstore, rfl⟩
    | ok f => exact Or.inl rfl
  · rw [nnWsMatchToken_crlf, if_neg fun hpre => h hpre.isInfix, hvalue List.suffix_rfl]
    exact Or.inl rfl

theorem length_le_headerText {lines : List (List UInt8)} :
    lines.length ≤ (headerText lines).length := by
  induction lines with
  | nil => exact le_rfl
  | cons l lines ih =>
    rw [headerText_cons, List.length_append, List.length_append, List.length_cons,
      show crlf.length = 2 from rfl]
    omega

/-- The loop over a text that consists of lines and a tail. -/
theorem headerLoop_text (hnames : Names headers) {lines : List (List UInt8)}
    (hlines : ∀ l ∈ lines, Line l) (fields : F) (tail : List UInt8) :
    ∃ fuel, tail.length ≤ fuel ∧
      headerLoop headers (headerText lines ++ tail).length fields (headerText lines ++ tail) =
        storeLines headers fields lines tail >>= fun fields =>
          headerLoop headers fuel fields tail := by
  have hle : lines.length ≤ (headerText lines).length := length_le_headerText
  refine ⟨(headerText lines).length - lines.length + tail.length, by omega, ?_⟩
  rw [← headerLoop_headerText hnames hlines, List.length_append,
    show (headerText lines).length + tail.length =
      lines.length + ((headerText lines).length - lines.length + tail.length) by omega]

/-! ### Fields -/

/-- The value of the last header of some name, and the text below it; `tail` stands below the
lines. -/
def lastLine (name : String) : List (List UInt8) → List UInt8 → Option (List UInt8 × List UInt8)
  | [], _ => none
  | l :: lines, tail =>
    (lastLine name lines tail).or
      ((matchChars true (ascii name) l).map fun v => (v, headerText lines ++ tail))

/-- No name is the front of another one. -/
def Distinct (headers : List (String × (F → Value → Except Fault F))) : Prop :=
  headers.Pairwise fun h h' => ¬ (ascii h.1).map tolower <+: (ascii h'.1).map tolower ∧
    ¬ (ascii h'.1).map tolower <+: (ascii h.1).map tolower

/-- The header of a line is the one whose name it begins with. -/
theorem headerOf_eq_some (hdistinct : Distinct headers) {h : String × (F → Value → Except Fault F)}
    (hmem : h ∈ headers) {l v : List UInt8} (hv : matchChars true (ascii h.1) l = some v) :
    headerOf headers l = some (h.2, v) := by
  induction headers with
  | nil => cases hmem
  | cons h' headers ih =>
    obtain ⟨hne, hdistinct⟩ := List.pairwise_cons.1 hdistinct
    rw [headerOf, List.findSome?_cons]
    rcases List.mem_cons.1 hmem with rfl | hmem
    · rw [hv]
      rfl
    · cases hh : matchChars true (ascii h'.1) l with
      | none => exact ih hdistinct hmem
      | some w =>
        have := prefix_or_prefix (a := ascii h'.1) (b := ascii h.1) (l := l) (by rw [hh]; rfl)
          (by rw [hv]; rfl)
        exact absurd this (not_or.2 (hne h hmem))

/-- What a field holds after lines were stored: the value of the last line of its header. -/
theorem storeLines_field {γ : Type} (hdistinct : Distinct headers) {get : F → γ} {val : Value → γ}
    {h : String × (F → Value → Except Fault F)} (hmem : h ∈ headers)
    (hset : ∀ f v f', h.2 f v = .ok f' → get f' = val v)
    (hother : ∀ h' ∈ headers, h'.1 ≠ h.1 → ∀ f v f', h'.2 f v = .ok f' → get f' = get f)
    {lines : List (List UInt8)} {tail : List UInt8} {fields fields' : F}
    (heq : storeLines headers fields lines tail = .ok fields') :
    get fields' = ((lastLine h.1 lines tail).map fun p => val (lineValue p.1 p.2)).getD
      (get fields) := by
  induction lines generalizing fields with
  | nil =>
    cases heq
    rfl
  | cons l lines ih =>
    obtain ⟨f, hf, heq⟩ := bind_eq_ok.1 heq
    rw [ih heq, lastLine]
    cases hlast : lastLine h.1 lines tail with
    | some p => rfl
    | none =>
      rw [Option.map_none, Option.getD_none, Option.none_or]
      unfold storeLine at hf
      cases hm : matchChars true (ascii h.1) l with
      | some v =>
        rw [headerOf_eq_some hdistinct hmem hm] at hf
        exact hset _ _ _ hf
      | none =>
        rw [Option.map_none, Option.map_none, Option.getD_none]
        cases hof : headerOf headers l with
        | none =>
          rw [hof] at hf
          cases hf
          rfl
        | some p =>
          obtain ⟨store, v⟩ := p
          rw [hof] at hf
          obtain ⟨h', hmem', hh'⟩ := List.exists_of_findSome?_eq_some hof
          obtain ⟨w, hw, heq'⟩ := Option.map_eq_some_iff.1 hh'
          cases heq'
          refine hother h' hmem' (fun hname => ?_) _ _ _ hf
          rw [hname, hm] at hw
          cases hw

/-- What every store keeps, storing lines keeps. -/
theorem storeLines_invariant {P : F → Prop}
    (hstore : ∀ h ∈ headers, ∀ f v f', P f → h.2 f v = .ok f' → P f') {lines : List (List UInt8)}
    {tail : List UInt8} {fields fields' : F} (hP : P fields)
    (heq : storeLines headers fields lines tail = .ok fields') : P fields' := by
  induction lines generalizing fields with
  | nil =>
    cases heq
    exact hP
  | cons l lines ih =>
    obtain ⟨f, hf, heq⟩ := bind_eq_ok.1 heq
    refine ih ?_ heq
    unfold storeLine at hf
    cases hof : headerOf headers l with
    | none =>
      rw [hof] at hf
      cases hf
      exact hP
    | some p =>
      rw [hof] at hf
      obtain ⟨h', hmem', hh'⟩ := List.exists_of_findSome?_eq_some hof
      obtain ⟨w, hw, heq'⟩ := Option.map_eq_some_iff.1 hh'
      cases heq'
      exact hstore h' hmem' _ _ _ hP hf

/-- Lines are stored when no store fails on a value that is there. -/
theorem storeLines_ok (hstore : ∀ h ∈ headers, ∀ f v, v.addr ≠ none → ∃ f', h.2 f v = .ok f')
    (lines : List (List UInt8)) (tail : List UInt8) (fields : F) :
    ∃ fields', storeLines headers fields lines tail = .ok fields' := by
  induction lines generalizing fields with
  | nil => exact ⟨fields, rfl⟩
  | cons l lines ih =>
    have hline : ∃ f, storeLine headers fields l (headerText lines ++ tail) = .ok f := by
      unfold storeLine
      cases hof : headerOf headers l with
      | none => exact ⟨fields, rfl⟩
      | some p =>
        obtain ⟨h', hmem', hh'⟩ := List.exists_of_findSome?_eq_some hof
        obtain ⟨w, hw, heq'⟩ := Option.map_eq_some_iff.1 hh'
        cases heq'
        exact hstore h' hmem' fields _ nofun
    obtain ⟨f, hf⟩ := hline
    obtain ⟨f', hf'⟩ := ih f
    exact ⟨f', bind_eq_ok.2 ⟨f, hf, hf'⟩⟩

end Headers

/-! ### Values -/

theorem trimEnd_prefix (v : List UInt8) : trimEnd v <+: v := by
  have := List.dropWhile_suffix (· = (0x20 : UInt8)) (l := v.reverse)
  rw [← List.reverse_prefix, List.reverse_reverse] at this
  simpa [trimEnd] using this

theorem lineValue_chars (v rest : List UInt8) : (lineValue v rest).chars = trim v := by
  obtain ⟨x, hx⟩ := trimEnd_prefix (v.dropWhile (· = 0x20))
  show (v.dropWhile (· = 0x20) ++ crlf ++ rest).take (trim v).length = trim v
  rw [trim, ← hx, List.append_assoc, List.append_assoc, hx, List.take_left]

theorem zip_take_length (a b : List UInt8) : a.zip (b.take a.length) = a.zip b := by
  induction a generalizing b with
  | nil => rfl
  | cons c a ih =>
    cases b with
    | nil => rfl
    | cons d b =>
      rw [List.length_cons, List.take_succ_cons, List.zip_cons_cons, List.zip_cons_cons, ih]

/-- `nn_ws_validate_value` compares whole texts. -/
theorem nnWsValidateValue_iff {expected : List UInt8} {v : Value}
    (h : v.chars.length = v.len) (ci : Bool) :
    nnWsValidateValue expected v ci = true ↔ SameText ci expected v.chars := by
  unfold nnWsValidateValue
  split_ifs with hlen
  · refine iff_of_false nofun fun hsame => ?_
    exact hlen (hsame.length_eq.trans h)
  · rw [not_not] at hlen
    have hzip : expected.zip (v.addr.getD []) = expected.zip v.chars := by
      rw [Value.chars, ← hlen, zip_take_length]
    rw [hzip, SameText, List.forall₂_iff_zip, List.all_eq_true]
    constructor
    · intro hall
      exact ⟨hlen.trans h.symm, fun hmem => hall _ hmem⟩
    · rintro ⟨-, hall⟩ p hp
      exact hall hp

end NanoSocket.Ws

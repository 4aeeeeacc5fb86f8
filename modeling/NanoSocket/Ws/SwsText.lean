import NanoSocket.Ws.SwsMessages

/-!
# Texts of a WebSocket session (`transports/ws/sws.c`)

A text is checked frame by frame.  Between two frames the session keeps the bytes of an unfinished
code point, but it puts only one byte of the next frame to them.  `Safe` says which ways to cut a
text into frames do not run into that, and `text_validated` that such a text is accepted exactly
when it is well-formed.
-/

namespace NanoSocket.Ws

open Runs (Reaches)
open Utf8 (Octets)

/-! ### The loop over code points -/

theorem nnUtf8CodePoint_append_of_valid {l : List UInt8} {n : ℕ} (h : nnUtf8CodePoint l = .valid n)
    (x : List UInt8) : nnUtf8CodePoint (l ++ x) = .valid n := by
  obtain ⟨hn, hc⟩ := char_of_valid h
  have := nnUtf8CodePoint_append hc (l.drop n ++ x)
  rwa [← List.append_assoc, List.take_append_drop, List.length_take, Nat.min_eq_left hn] at this

/-- The byte that completes a code point is its last one. -/
theorem length_of_completed {f : List UInt8} {b : UInt8} {n : ℕ}
    (hf : nnUtf8CodePoint f = .fragment) (h : nnUtf8CodePoint (f ++ [b]) = .valid n) :
    n = (f ++ [b]).length := by
  obtain ⟨hn, hc⟩ := char_of_valid h
  by_contra hne
  rw [List.length_append, List.length_singleton] at hn hne
  have hle : n ≤ f.length := by omega
  rw [List.take_append_of_le_length hle] at hc
  have := nnUtf8CodePoint_append hc (f.drop n)
  rw [List.take_append_drop, hf] at this
  cases this

/-- The loop has fuel enough when there is some for every byte. -/
theorem utf8Loop_fuel {fuel fuel' : ℕ} {l : List UInt8} (h : l.length ≤ fuel)
    (h' : l.length ≤ fuel') :
    utf8Loop fuel l = utf8Loop fuel' l := by
  induction fuel generalizing fuel' l with
  | zero =>
    rw [List.eq_nil_of_length_eq_zero (Nat.le_zero.1 h), utf8Loop, utf8Loop]
  | succ fuel ih =>
    cases l with
    | nil => rw [utf8Loop, utf8Loop]
    | cons b l =>
      cases fuel' with
      | zero => simp at h'
      | succ fuel' =>
        rw [utf8Loop, utf8Loop]
        cases hcp : nnUtf8CodePoint (b :: l) with
        | valid n =>
          have hpos := pos_of_valid hcp
          rw [List.length_cons] at h h'
          have hlen : ((b :: l).drop n).length = l.length + 1 - n := List.length_drop
          have hrest : utf8Loop fuel ((b :: l).drop n) = utf8Loop fuel' ((b :: l).drop n) :=
            ih (by omega) (by omega)
          dsimp only
          rw [hrest]
        | invalid => rfl
        | fragment => rfl

theorem scan_means (l : List UInt8) : (scan l).Means l := by
  obtain ⟨r, hr, hm⟩ := utf8Loop_spec (le_refl l.length)
  rwa [scan, hr]

@[simp] theorem scan_nil : scan [] = .wellFormed := rfl

theorem scan_of_valid {l : List UInt8} {n : ℕ} (h : nnUtf8CodePoint l = .valid n) :
    scan l = scan (l.drop n) := by
  cases l with
  | nil => cases h
  | cons b l =>
    have hloop : utf8Loop (b :: l).length (b :: l) = utf8Loop ((b :: l).drop n).length
        ((b :: l).drop n) := by
      have hpos := pos_of_valid h
      rw [List.length_cons, utf8Loop, h]
      dsimp only
      rw [nnAssert_of (char_of_valid h).1]
      refine utf8Loop_fuel ?_ le_rfl
      rw [List.length_drop, List.length_cons]
      omega
    rw [scan, hloop, scan]

theorem scan_of_invalid {l : List UInt8} (h : nnUtf8CodePoint l = .invalid) :
    scan l = .invalid := by
  cases l with
  | nil => cases h
  | cons b l =>
    rw [scan, List.length_cons, utf8Loop, h]
    rfl

theorem scan_of_fragment {l : List UInt8} (h : nnUtf8CodePoint l = .fragment) (hl : l ≠ []) :
    scan l = .fragment l := by
  cases l with
  | nil => exact absurd rfl hl
  | cons b l =>
    rw [scan, List.length_cons, utf8Loop, h]
    rfl

/-- The loop over a text goes on from what it found out about the front. -/
theorem scan_append (l x : List UInt8) :
    scan (l ++ x) = match scan l with
      | .wellFormed => scan x
      | .invalid => .invalid
      | .fragment f => scan (f ++ x) := by
  induction hn : l.length using Nat.strong_induction_on generalizing l with
  | _ n ih =>
    by_cases hl : l = []
    · subst hl
      rfl
    cases hcp : nnUtf8CodePoint l with
    | valid m =>
      have hm := (char_of_valid hcp).1
      have hpos := pos_of_valid hcp
      rw [scan_of_valid (nnUtf8CodePoint_append_of_valid hcp x), List.drop_append_of_le_length hm,
        scan_of_valid hcp]
      refine ih _ ?_ _ rfl
      rw [List.length_drop]
      omega
    | invalid => rw [scan_of_invalid hcp, scan_of_invalid (nnUtf8CodePoint_append_of_invalid hcp x)]
    | fragment => rw [scan_of_fragment hcp hl]

/-- A text is well-formed when the loop says so. -/
theorem octets_iff_scan (l : List UInt8) : Octets l ↔ scan l = .wellFormed := by
  have hm := scan_means l
  cases hs : scan l with
  | wellFormed =>
    rw [hs] at hm
    have := hm []
    rw [List.append_nil] at this
    exact ⟨fun _ => rfl, fun _ => this.2 .nil⟩
  | invalid =>
    rw [hs] at hm
    have := hm []
    rw [List.append_nil] at this
    exact ⟨fun h => absurd h this, nofun⟩
  | fragment f =>
    rw [hs] at hm
    have := hm.2.2 []
    rw [List.append_nil, List.append_nil] at this
    exact ⟨fun h => absurd (this.1 h) (not_octets_of_fragment hm.2.1 hm.1), nofun⟩

/-! ### Cutting a text into frames -/

/-- What is left of an unfinished code point at the end. -/
def leftover (l : List UInt8) : List UInt8 :=
  match scan l with
  | .fragment f => f
  | _ => []

/-- The payload of the next frame does not run into the defects of the validation, when `f` is left
over: the last frame is not empty, and the first byte of a payload completes a code point of two or
three bytes, or makes a mistake of it, or is the only one, unless the text ends here with a mistake
anyway. -/
def SafeNext (f payload : List UInt8) (final : Bool) : Prop :=
  f = [] ∨ match payload with
    | [] => final = false
    | b :: bytes =>
      match nnUtf8CodePoint (f ++ [b]) with
      | .valid _ => f.length < 3
      | .invalid => True
      | .fragment => bytes = [] ∨ final = true ∧ scan (f ++ b :: bytes) ≠ .wellFormed

/-- The payloads of the frames of a text do not run into the defects of the validation; `body` came
before. -/
def Safe : List UInt8 → List (List UInt8) → Prop
  | _, [] => True
  | body, p :: ps => SafeNext (leftover body) p (ps = []) ∧ Safe (body ++ p) ps

/-- The frames so far are a text that has not gone wrong, and `f` is left over. -/
def Scanned (body f : List UInt8) : Prop :=
  scan body = .wellFormed ∧ f = [] ∨ scan body = .fragment f

theorem Scanned.leftover {body f : List UInt8} (h : Scanned body f) : leftover body = f := by
  unfold Ws.leftover
  rcases h with ⟨h, rfl⟩ | h <;> rw [h]

theorem Scanned.append {body f : List UInt8} (h : Scanned body f) (x : List UInt8) :
    scan (body ++ x) = scan (f ++ x) := by
  rw [scan_append]
  rcases h with ⟨h, rfl⟩ | h <;> rw [h]
  rfl

/-- How the check of a frame ends: the text goes on, it is complete, or the connection is failed. -/
inductive TextDone (rand : Mask) (s : Sws) (final : Bool) : Utf8Scan → Except Fault Sws → Prop
  | wellFormed : TextDone rand s final .wellFormed
      (Sws.chunkDone { s with utf8CodePtFragment := [] })
  | unfinished {f : List UInt8} (h : final = false) : TextDone rand s final (.fragment f)
      (nnSwsRecvHdr { s with utf8CodePtFragment := f })
  | truncated {f : List UInt8} {s' : Sws} (h : final = true) (hfail : FailedWith rand 1007 s s') :
      TextDone rand s final (.fragment f) (.ok s')
  | invalid {s' : Sws} (hfail : FailedWith rand 1007 s s') : TextDone rand s final .invalid (.ok s')

section Check

variable {s : Sws} {f g payload : List UInt8}

/-- The second part of the check: the bytes after a code point that is complete. -/
theorem validateRest_textDone (hstate : s.state = .active) (hu : s.usock.state = .active)
    (hg : g.length < 4) (rand : Mask) (bytes : List UInt8) :
    TextDone rand s s.isFinalFrame (scan bytes)
      (Sws.validateRest rand { s with utf8CodePtFragment := g } bytes) := by
  unfold Sws.validateRest
  rw [nnAssert_of hg, ok_bind, utf8Loop_eq_scan, ok_bind]
  have hm := scan_means bytes
  cases hscan : scan bytes with
  | wellFormed => exact .wellFormed
  | invalid =>
    obtain ⟨s', hs', hfail⟩ :=
      nnSwsFailConn_spec (t := { s with utf8CodePtFragment := [] }) rand 1007 hstate hu
      (show (ascii "Invalid UTF-8 code point in payload.").length ≤ 100 from
        length_ascii_le _ (by decide)) rfl
    dsimp only
    rw [hs']
    exact .invalid hfail
  | fragment rest =>
    rw [hscan] at hm
    dsimp only
    rw [nnAssert_of (length_lt_of_fragment hm.2.1), ok_bind]
    split_ifs with hfin
    · obtain ⟨s', hs', hfail⟩ :=
        nnSwsFailConn_spec (t := { s with utf8CodePtFragment := rest }) rand 1007 hstate hu
        (show (ascii "Truncated UTF-8 payload with invalid code point.").length ≤ 100 from
          length_ascii_le _ (by decide)) rfl
      rw [hs']
      exact .truncated hfin hfail
    · exact .unfinished (by simpa using hfin)

/-- `nn_sws_validate_utf8_chunk` when the frame does not run into its defects. -/
theorem validate_textDone (hstate : s.state = .active) (hu : s.usock.state = .active)
    (hlen : s.utf8CodePtFragment.length < 4) (hf : s.utf8CodePtFragment = f)
    (hcp : f ≠ [] → nnUtf8CodePoint f = .fragment)
    (hload : s.load s.inmsgCurrentChunkBuf s.inmsgCurrentChunkLen = .ok payload)
    (hne : payload ≠ []) (hsafe : SafeNext f payload s.isFinalFrame) (rand : Mask) :
    TextDone rand s s.isFinalFrame (scan (f ++ payload)) (nnSwsValidateUtf8Chunk rand s) := by
  unfold nnSwsValidateUtf8Chunk
  rw [hload, ok_bind]
  split_ifs with hnil
  · have := validateRest_textDone hstate hu hlen rand payload
    rw [← hf, hnil, List.nil_append]
    rwa [show { s with utf8CodePtFragment := s.utf8CodePtFragment } = s from rfl] at this
  rw [nnAssert_of hlen, ok_bind]
  have hne' : f ≠ [] := by rwa [← hf]
  cases payload with
  | nil => exact absurd rfl hne
  | cons b bytes =>
    have hsafe := hsafe.resolve_left hne'
    have happend : f ++ b :: bytes = (f ++ [b]) ++ bytes := by simp
    dsimp only at hsafe ⊢
    rw [hf]
    cases hb : nnUtf8CodePoint (f ++ [b]) with
    | valid n =>
      rw [hb] at hsafe
      have hn := length_of_completed (hcp hne') hb
      rw [happend, scan_of_valid (nnUtf8CodePoint_append_of_valid hb bytes), hn, List.drop_left]
      refine validateRest_textDone hstate hu ?_ rand bytes
      rw [List.length_append, List.length_singleton]
      exact Nat.add_lt_add_right hsafe 1
    | invalid =>
      rw [happend, scan_of_invalid (nnUtf8CodePoint_append_of_invalid hb bytes)]
      obtain ⟨s', hs', hfail⟩ :=
        nnSwsFailConn_spec (t := { s with utf8CodePtFragment := f ++ [b] }) rand 1007 hstate hu
        (show (ascii "Invalid UTF-8 code point split on previous frame.").length ≤ 100 from
          length_ascii_le _ (by decide)) rfl
      dsimp only
      rw [hs']
      exact .invalid hfail
    | fragment =>
      rw [hb] at hsafe
      dsimp only at hsafe ⊢
      split_ifs with hfin
      · obtain ⟨s', hs', hfail⟩ :=
          nnSwsFailConn_spec (t := { s with utf8CodePtFragment := f ++ [b] }) rand 1007
          hstate hu (show (ascii "Truncated UTF-8 payload with invalid code point.").length ≤
            100 from length_ascii_le _ (by decide)) rfl
        rw [hs']
        cases hscan : scan (f ++ b :: bytes) with
        | wellFormed =>
          rcases hsafe with rfl | ⟨-, hbad⟩
          · rw [scan_of_fragment hb (by simp)] at hscan
            cases hscan
          · exact absurd hscan hbad
        | invalid => exact .invalid hfail
        | fragment g => exact .truncated hfin hfail
      · have hbytes : bytes = [] := hsafe.resolve_right fun h => hfin h.1
        subst hbytes
        rw [scan_of_fragment hb (by simp)]
        exact .unfinished (by simpa using hfin)

end Check

/-! ### The frames of a text -/

variable {env : Env} {rand : Mask} {w : World} {first : Option UInt8}
  {body f payload rest : List UInt8} {b0 : UInt8}
  {key : Mask}

theorem Scanned.fragment (h : Scanned body f) (hf : f ≠ []) : nnUtf8CodePoint f = .fragment := by
  have hm := scan_means body
  rcases h with ⟨-, rfl⟩ | h
  · exact absurd rfl hf
  · rw [h] at hm
    exact hm.2.1

/-- A frame of a text is checked. -/
theorem Got.textDone {s : Sws} (hgot : Got w.sws b0 payload s) (h : w.Waits first body f)
    (hb0 : DataByte first b0) (htext : opcodeOf (first.getD b0) = .text) (hscan : Scanned body f)
    (hsafe : SafeNext f payload (isFin b0)) :
    TextDone rand s (isFin b0) (scan (body ++ payload)) (s.frameDone rand payload) := by
  have hfrag : s.utf8CodePtFragment = f := hgot.fragment.trans h.tail
  have hs : { s with utf8CodePtFragment := f } = s := by rw [← hfrag]
  rw [hscan.append, ← hgot.final]
  rw [← hgot.final] at hsafe
  unfold Sws.frameDone
  split_ifs with hnil
  · have hdone : s.emptyDone = s.chunkDone := by
      unfold Sws.emptyDone Sws.chunkDone
      rw [hgot.control, hb0.isControl.1]
      rfl
    subst hnil
    rw [hdone, List.append_nil]
    by_cases hf : f = []
    · have := @TextDone.wellFormed rand s s.isFinalFrame
      rw [hf] at hs ⊢
      rwa [hs] at this
    · have hfin := hsafe.resolve_left hf
      rw [scan_of_fragment (hscan.fragment hf) hf, Sws.chunkDone, if_neg (by rw [hfin]; simp)]
      have := @TextDone.unfinished rand s s.isFinalFrame f hfin
      rwa [hs] at this
  · have hvalidate : s.payloadDone rand = nnSwsValidateUtf8Chunk rand s := by
      unfold Sws.payloadDone
      rw [hgot.opcode]
      cases hfirst : first with
      | none =>
        rw [hfirst] at htext
        rw [show opcodeOf b0 = .text from htext]
      | some b =>
        have hop : opcodeOf b0 = .fragment := by simpa [hfirst] using hb0.opcode
        rw [hop]
        dsimp only
        rw [hgot.inmsgHdr h, opcodeOf_or, htext]
        rfl
    rw [hvalidate]
    exact validate_textDone hgot.state hgot.busy.base.usock hgot.busy.base.fragment
      hfrag hscan.fragment
      (hgot.load hnil) hnil hsafe rand

/-- What comes of a frame of a text: the text goes on, it is given to the socket, or the connection
is failed. -/
inductive TextFrame (env : Env) (rand : Mask) (w : World) (first : Option UInt8) (b0 : UInt8)
    (text rest : List UInt8) (w' : World) : Prop
  | more {g : List UInt8} (hfin : isFin b0 = false) (hscan : Scanned text g)
      (hwaits : w'.Waits (some (first.getD b0)) text g) (hlink : w'.sws.link = w.sws.link)
      (hstream : w'.stream = rest)
      (hdelivered : w'.delivered = w.delivered)
  | last (hfin : isFin b0 = true) (hscan : scan text = .wellFormed) (hwaits : w'.Waits none [] [])
      (hstream : w'.stream = rest)
      (hdelivered : w'.delivered = w.delivered ++
        [⟨[], wsHdrs env ((first.getD b0 ||| 0x80) &&& 0x7F), text⟩])
  | failed (hbad : scan text = .invalid ∨ isFin b0 = true ∧ scan text ≠ .wellFormed)
      (hfail : FailedWith rand 1007 w.sws.taken w'.sws) (hdelivered : w'.delivered = w.delivered)

theorem FailedWith.of_link {s s₀ s' : Sws} {code : ℕ} (h : FailedWith rand code s s')
    (hrecv : s.usock.recv = none) (hlink : s.link = s₀.link) :
    FailedWith rand code s₀.taken s' := by
  refine h.congr ?_
  have hu : s.taken.usock = s.usock := by
    show { s.usock with recv := none } = s.usock
    rw [← hrecv]
  rw [← hu]
  exact hlink

/-- A frame of a text. -/
theorem World.Waits.text_frame (h : w.Waits first body f) (hb0 : DataByte first b0)
    (htext : opcodeOf (first.getD b0) = .text) (hscan : Scanned body f)
    (hsafe : SafeNext f payload (isFin b0))
    (hstream : w.stream = wireFrame w.sws.mode key b0 payload ++ rest)
    (hadmits : env.Admits (body.length + payload.length))
    (hshort : w.sws.mode = .server → payload.length < 2 ^ 32) (rand : Mask) :
    ∃ w', Reaches (World.next env rand) w w' ∧
      TextFrame env rand w first b0 (body ++ payload) rest w' := by
  obtain ⟨w₁, hreach, hcompletes⟩ := h.receive_data hb0 hstream hadmits rand
  obtain ⟨s, hgot, heq⟩ := hcompletes.short hshort
  have hdata := hb0.isControl.1
  have hdone : TextDone rand s (isFin b0) (scan (body ++ payload)) (s.frameDone rand payload) :=
    hgot.textDone h hb0 htext hscan hsafe
  have hmore {g : List UInt8} (hfin : isFin b0 = false) (hg : g.length < 4)
      (hscan' : Scanned (body ++ payload) g)
      (hframe : s.frameDone rand payload = nnSwsRecvHdr { s with utf8CodePtFragment := g }) :
      ∃ w', Reaches (World.next env rand) w w' ∧
        TextFrame env rand w first b0 (body ++ payload) rest w' := by
    obtain ⟨hrecv, hwaits, hlink⟩ := hgot.waits_more h hdata hfin hg rest (w.headers ++ [b0])
    rw [hframe, hrecv, ok_bind] at heq
    exact ⟨_, hreach.tail (next_received hcompletes.can heq),
      .more hfin hscan' hwaits hlink rfl rfl⟩
  have hfailed {s' : Sws} (hfail : FailedWith rand 1007 s s')
      (hframe : s.frameDone rand payload = .ok s')
      (hbad : scan (body ++ payload) = .invalid ∨ isFin b0 = true ∧
        scan (body ++ payload) ≠ .wellFormed) :
      ∃ w', Reaches (World.next env rand) w w' ∧
        TextFrame env rand w first b0 (body ++ payload) rest w' := by
    rw [hframe, ok_bind] at heq
    exact ⟨_, hreach.tail (next_received hcompletes.can heq),
      .failed hbad (hfail.of_link hgot.busy.recv hgot.link) rfl⟩
  generalize hr : scan (body ++ payload) = r at hdone
  generalize hx : s.frameDone rand payload = x at hdone
  cases hdone with
  | wellFormed =>
    cases hfin : isFin b0 with
    | true =>
      obtain ⟨htold, w', -, hnext, hwaits, -, hstream', -, hdelivered⟩ :=
        hgot.delivers rand h hdata hfin
        (show ([] : List UInt8).length < 4 by decide) hadmits rest (w.headers ++ [b0])
      rw [hx, Sws.chunkDone, if_pos (by exact hgot.final.trans hfin), htold, ok_bind] at heq
      exact ⟨w', (hreach.tail (next_received hcompletes.can heq)).tail hnext,
        .last hfin hr hwaits hstream' hdelivered⟩
    | false =>
      refine hmore hfin (show ([] : List UInt8).length < 4 by decide) (Or.inl ⟨hr, rfl⟩) ?_
      rw [hx, Sws.chunkDone,
        if_neg (by rw [show Sws.isFinalFrame _ = s.isFinalFrame from rfl, hgot.final, hfin]; simp)]
  | unfinished hfin =>
    have hm := scan_means (body ++ payload)
    rw [hr] at hm
    exact hmore hfin (length_lt_of_fragment hm.2.1) (Or.inr hr) hx
  | truncated hfin hfail => exact hfailed hfail hx (Or.inr ⟨hfin, by rw [hr]; simp⟩)
  | invalid hfail => exact hfailed hfail hx (Or.inl hr)

/-! ### A text in fragments -/

/-- The first byte of the text in progress. -/
def textFirst (opened : Bool) : Option UInt8 := if opened then some 0x01 else none

theorem dataByte_text (opened : Bool) :
    DataByte (textFirst opened) (if opened then 0x00 else 0x01) ∧
      DataByte (textFirst opened) (0x80 ||| if opened then 0x00 else 0x01) := by
  cases opened
  · exact ⟨⟨by decide, by decide⟩, ⟨by decide, by decide⟩⟩
  · exact ⟨⟨by decide, by decide⟩, ⟨by decide, by decide⟩⟩

/-- How the receiving side gets on with the frames of a text before the last one; `text` are their
payloads. -/
inductive TextRun (env : Env) (rand : Mask) (w : World) (opened : Bool) (text : List UInt8)
    (msgs : List Msg) (rest : List UInt8) (w' : World) : Prop
  | waits {g : List UInt8} (hscan : Scanned text g) (hwaits : w'.Waits (textFirst opened) text g)
      (hlink : w'.sws.link = w.sws.link) (hstream : w'.stream = rest)
      (hdelivered : w'.delivered = w.delivered ++ msgs)
  | failed (hbad : scan text = .invalid) (hfail : FailedWith rand 1007 w.sws.taken w'.sws)
      (hdelivered : ∃ ms, ms <+: msgs ∧ w'.delivered = w.delivered ++ ms)

theorem FailedWith.of_linked {s s₀ s' : Sws} {code : ℕ} (h : FailedWith rand code s.taken s')
    (hlink : s.link = s₀.link) : FailedWith rand code s₀.taken s' := h.congr hlink

theorem TextRun.control {w₁ w' : World} {opened : Bool} {text : List UInt8} {msgs : List Msg}
    {msg : Msg} (h : TextRun env rand w₁ opened text msgs rest w')
    (hlink : w₁.sws.link = w.sws.link) (hdelivered : w₁.delivered = w.delivered ++ [msg]) :
    TextRun env rand w opened text (msg :: msgs) rest w' := by
  cases h with
  | waits hscan hwaits hlink' hstream hdelivered' =>
    refine .waits hscan hwaits (hlink'.trans hlink) hstream ?_
    rw [hdelivered', hdelivered, List.append_assoc]
    rfl
  | failed hbad hfail hdelivered' =>
    obtain ⟨ms, hms, hdelivered'⟩ := hdelivered'
    refine .failed hbad (hfail.of_linked hlink) ⟨msg :: ms, List.cons_prefix_cons.2 ⟨rfl, hms⟩, ?_⟩
    rw [hdelivered', hdelivered, List.append_assoc]
    rfl

/-- A text that has gone wrong stays so. -/
theorem scan_invalid_append {l : List UInt8} (h : scan l = .invalid) (x : List UInt8) :
    scan (l ++ x) = .invalid := by
  rw [scan_append, h]

/-- The frames of a text before the last one. -/
theorem World.Waits.text_run (is : List Interim) {opened : Bool}
    (h : w.Waits (textFirst opened) body f) (hscan : Scanned body f) {ps : List (List UInt8)}
    (hps : ps ≠ []) (hsafe : Safe body (fragments is ++ ps))
    (hstream : w.stream = interimWire w.sws.mode 0x01 opened is ++ rest) (hctl : ∀ i ∈ is, i.Short)
    (hadmits : env.Admits (body.length + (fragments is).flatten.length))
    (hshort : w.sws.mode = .server → ∀ p ∈ fragments is, p.length < 2 ^ 32) (rand : Mask) :
    ∃ w', Reaches (World.next env rand) w w' ∧
      TextRun env rand w (opened || opens is) (body ++ (fragments is).flatten)
        (is.filterMap (Interim.control env)) rest
        w' := by
  induction is generalizing w opened body f with
  | nil =>
    refine ⟨w, Reaches.refl w, .waits (g := f) ?_ ?_ rfl hstream (by simp)⟩
    · simpa [fragments] using hscan
    · simpa [fragments, opens] using h
  | cons i is ih =>
    have hctl' : ∀ i ∈ is, i.Short := fun j hj => hctl j (List.mem_cons_of_mem i hj)
    have hi := hctl i List.mem_cons_self
    cases i with
    | ping key p =>
      obtain ⟨w₁, hreach, hwaits, hlink, hstream₁, hdelivered⟩ := h.control (Or.inl rfl)
        (by rw [hstream, interimWire, List.append_assoc]) hi (hadmits.mem _ (Or.inr hi)).2 rand
      obtain ⟨w', hreach', hrun⟩ :=
        ih hwaits hscan hsafe (by rw [hstream₁, mode_of_link hlink]) hctl' hadmits
        (by rw [mode_of_link hlink]; exact hshort)
      exact ⟨w', hreach.trans hreach', hrun.control hlink hdelivered⟩
    | pong key p =>
      obtain ⟨w₁, hreach, hwaits, hlink, hstream₁, hdelivered⟩ := h.control (Or.inr rfl)
        (by rw [hstream, interimWire, List.append_assoc]) hi (hadmits.mem _ (Or.inr hi)).2 rand
      obtain ⟨w', hreach', hrun⟩ :=
        ih hwaits hscan hsafe (by rw [hstream₁, mode_of_link hlink]) hctl' hadmits
        (by rw [mode_of_link hlink]; exact hshort)
      exact ⟨w', hreach.trans hreach', hrun.control hlink hdelivered⟩
    | fragment key p =>
      have hfrags : fragments (.fragment key p :: is) = p :: fragments is :=
        List.filterMap_cons_some rfl
      have hfin : isFin (if opened then 0x00 else 0x01) = false := by cases opened <;> decide
      have hfirst : (textFirst opened).getD (if opened then 0x00 else 0x01) = 0x01 := by
        cases opened <;> rfl
      rw [hfrags, List.flatten_cons, List.length_append, ← Nat.add_assoc] at hadmits
      rw [hfrags] at hshort
      rw [hfrags, List.cons_append] at hsafe
      obtain ⟨hnext, hsafe⟩ := hsafe
      have hne : decide (fragments is ++ ps = []) = false := decide_eq_false (by simp [hps])
      rw [hscan.leftover, hne, ← hfin] at hnext
      obtain ⟨w₁, hreach, hframe⟩ :=
        h.text_frame (dataByte_text opened).1 (by rw [hfirst]; decide) hscan hnext
        (by rw [hstream, interimWire, List.append_assoc]) (hadmits.mono (Nat.le_add_right _ _))
        (fun hs => hshort hs p List.mem_cons_self) rand
      rw [opens, hfrags, List.flatten_cons, ← List.append_assoc]
      cases hframe with
      | last hfin' => exact absurd (hfin.symm.trans hfin') (by simp)
      | failed hbad hfail hdelivered =>
        have hinvalid := hbad.resolve_right fun hbad => absurd (hfin.symm.trans hbad.1) (by simp)
        exact ⟨w₁, hreach, .failed (scan_invalid_append hinvalid _) hfail
          ⟨[], List.nil_prefix, by simpa using hdelivered⟩⟩
      | more _ hscan' hwaits hlink hstream₁ hdelivered =>
        rw [hfirst] at hwaits
        obtain ⟨w', hreach', hrun⟩ :=
          ih (show w₁.Waits (textFirst true) _ _ from hwaits) hscan' hsafe
          (by rw [hstream₁, mode_of_link hlink]) hctl' (by rwa [List.length_append])
          (by rw [mode_of_link hlink]; exact fun hs q hq => hshort hs q (List.mem_cons_of_mem p hq))
        refine ⟨w', hreach.trans hreach', ?_⟩
        have hopened : (opened || decide (p :: fragments is ≠ [])) = (true || opens is) := by simp
        rw [hopened]
        cases hrun with
        | waits hscan₁ hwaits₁ hlink₁ hstream' hdelivered' =>
          exact .waits hscan₁ hwaits₁ (hlink₁.trans hlink) hstream'
            (by rw [hdelivered', hdelivered]; rfl)
        | failed hbad hfail hdelivered' =>
          obtain ⟨ms, hms, hdelivered'⟩ := hdelivered'
          exact .failed hbad (hfail.of_linked hlink) ⟨ms, hms, by rw [hdelivered', hdelivered]⟩

theorem Safe.append {ps qs : List (List UInt8)} (h : Safe body (ps ++ qs)) :
    Safe (body ++ ps.flatten) qs := by
  induction ps generalizing body with
  | nil => simpa using h
  | cons p ps ih =>
    rw [List.flatten_cons, ← List.append_assoc]
    exact ih h.2

/-- A text in fragments gets to the socket, or the connection is failed. -/
theorem World.Waits.text_message (h : w.Waits none [] []) (is : List Interim)
    (hsafe : Safe [] (fragments is ++ [payload]))
    (hstream : w.stream = messageWire w.sws.mode 0x01 is key payload ++ rest)
    (hctl : ∀ i ∈ is, i.Short)
    (hadmits : env.Admits ((fragments is).flatten.length + payload.length))
    (hshort : w.sws.mode = .server → ∀ p ∈ fragments is ++ [payload], p.length < 2 ^ 32)
    (rand : Mask) :
    ∃ w', Reaches (World.next env rand) w w' ∧
      ((Octets ((fragments is).flatten ++ payload) ∧ w'.Waits none [] [] ∧ w'.stream = rest ∧
          w'.delivered = w.delivered ++ is.filterMap (Interim.control env) ++
            [⟨[], wsHdrs env 0x01, (fragments is).flatten ++ payload⟩]) ∨
        ¬ Octets ((fragments is).flatten ++ payload) ∧ FailedWith rand 1007 w.sws.taken w'.sws ∧
          ∃ ms, ms <+: is.filterMap (Interim.control env) ∧ w'.delivered = w.delivered ++ ms) := by
  rw [messageWire, List.append_assoc] at hstream
  obtain ⟨w₁, hreach, hrun⟩ :=
    World.Waits.text_run is (show w.Waits (textFirst false) _ _ from h) (Or.inl ⟨rfl, rfl⟩)
    (List.cons_ne_nil payload []) hsafe hstream hctl (hadmits.mono (by rw [List.length_nil]; omega))
    (fun hs p hp => hshort hs p (List.mem_append_left _ hp)) rand
  rw [List.nil_append, Bool.false_or] at hrun
  cases hrun with
  | failed hbad hfail hdelivered =>
    refine ⟨w₁, hreach, Or.inr ⟨fun hoct => ?_, hfail, hdelivered⟩⟩
    rw [octets_iff_scan, scan_invalid_append hbad] at hoct
    cases hoct
  | waits hscan hwaits hlink hstream₁ hdelivered =>
    have hfin : isFin (0x80 ||| if opens is then 0x00 else 0x01) = true := by
      cases opens is <;> decide
    have hfirst :
        (textFirst (opens is)).getD (0x80 ||| if opens is then 0x00 else 0x01) &&& 0x7F = 0x01 := by
      cases opens is <;> decide
    have hnext := hsafe.append.1
    rw [List.nil_append, hscan.leftover, decide_eq_true rfl, ← hfin] at hnext
    obtain ⟨w', hreach', hframe⟩ :=
      hwaits.text_frame (dataByte_text _).2 (by rw [← opcodeOf_and, hfirst]; decide) hscan
      hnext (by rw [hstream₁, mode_of_link hlink]) hadmits
      (by rw [mode_of_link hlink]; exact fun hs => hshort hs payload (by simp)) rand
    refine ⟨w', hreach.trans hreach', ?_⟩
    cases hframe with
    | more hfin' => exact absurd (hfin.symm.trans hfin') (by simp)
    | last _ hscan' hwaits' hstream' hdelivered' =>
      refine Or.inl ⟨(octets_iff_scan _).2 hscan', hwaits', hstream', ?_⟩
      rw [hdelivered', hdelivered,
        show ((textFirst (opens is)).getD (0x80 ||| if opens is then 0x00 else 0x01) ||| 0x80) &&&
        0x7F = (0x01 : UInt8) by cases opens is <;> decide]
    | failed hbad hfail hdelivered' =>
      refine Or.inr ⟨?_, hfail.of_linked hlink, _, List.prefix_rfl, by rw [hdelivered', hdelivered]⟩
      rw [octets_iff_scan]
      rcases hbad with hbad | ⟨-, hbad⟩
      · rw [hbad]
        simp
      · exact hbad

/-- A session between two messages, with nothing left over, accepts a text in fragments exactly when
it is well-formed, and has nothing left over again; otherwise it fails the connection. -/
theorem text_validated (env : Env) {mode : Mode} {msgType : UInt8} {as : List Action} {w : World}
    (h : Runs.Trace (World.step env) World.Enabled (World.init mode msgType) as w)
    (hstate : w.sws.state = .active) (hin : w.sws.instate = .recvHdr)
    (hno : inProgress w.headers = false) (hclean : w.sws.utf8CodePtFragment = [])
    (is : List Interim) (key : Mask) (payload rest : List UInt8) (hctl : ∀ i ∈ is, i.Short)
    (hadmits : env.Admits ((fragments is).flatten.length + payload.length))
    (hsafe : Safe [] (fragments is ++ [payload])) (hshort : w.sws.mode = .server →
      ∀ p ∈ fragments is ++ [payload], p.length < 2 ^ 32) (rand : Mask) :
    ∃ w', Reaches (World.next env rand)
      { w with stream := messageWire w.sws.mode 0x01 is key payload ++ rest } w' ∧
      (Octets ((fragments is).flatten ++ payload) → w'.sws.state = .active ∧
        w'.sws.instate = .recvHdr ∧ inProgress w'.headers = false ∧ w'.sws.utf8CodePtFragment = [] ∧
        w'.stream = rest ∧ w'.delivered = w.delivered ++ is.filterMap (Interim.control env) ++
          [⟨[], wsHdrs env 0x01, (fragments is).flatten ++ payload⟩]) ∧
      (¬ Octets ((fragments is).flatten ++ payload) → FailedWith rand 1007 w.sws.taken w'.sws ∧
        ∃ ms, ms <+: is.filterMap (Interim.control env) ∧ w'.delivered = w.delivered ++ ms) := by
  have hflag : w.Flagged := flagged_of_run h
  have hcont := (hflag (by rw [hstate]; trivial)).1
  have hwaits :=
    waits_of_run h hstate hin (hcont.trans hno) (messageWire w.sws.mode 0x01 is key payload ++ rest)
  rw [hclean] at hwaits
  obtain ⟨w', hreach, hend⟩ := hwaits.text_message is hsafe rfl hctl hadmits hshort rand
  refine ⟨w', hreach, fun hoct => ?_, fun hoct => ?_⟩
  · obtain ⟨-, hwaits', hstream, hdelivered⟩ := hend.resolve_right fun hbad => hbad.1 hoct
    have hflag' :=
      (flagged_of_reaches hwaits.inv (by exact hflag) hreach (by rw [hwaits'.state]; trivial)).1
    exact ⟨hwaits'.state, hwaits'.instate, hflag'.symm.trans hwaits'.continuing, hwaits'.tail,
      hstream, hdelivered⟩
  · obtain ⟨-, hfail, hdelivered⟩ := hend.resolve_left fun hgood => hoct hgood.1
    exact ⟨hfail, hdelivered⟩

/-- The sign for the euro, cut after its first byte. -/
def euro : List Interim := [.fragment noMask [0xE2], .fragment noMask [0x82]]

theorem text_validated_euro :
    ∃ w w', Runs.Trace (World.step megabyte) World.Enabled (World.init .server 0x02)
      connectedRun w ∧ Reaches (World.next megabyte noMask)
        { w with stream := messageWire w.sws.mode 0x01 euro noMask [0xAC] ++ [] } w' ∧
      w'.sws.utf8CodePtFragment = [] ∧
        w'.delivered = w.delivered ++ [⟨[], wsHdrs megabyte 0x01, [0xE2, 0x82, 0xAC]⟩] := by
  have htr := Runs.Trace.of_runWhile (connectedRun_returns .server)
  have hsafe : Safe [] (fragments euro ++ [[0xAC]]) :=
    ⟨Or.inl rfl, Or.inr (Or.inl rfl), Or.inr (show 2 < 3 by decide), trivial⟩
  obtain ⟨w', hreach, hvalid, -⟩ := text_validated megabyte htr (by decide) (by decide)
    (by decide) (by decide) euro noMask [0xAC] [] (by simp [euro, Interim.Short])
    (megabyte_admits (by decide)) hsafe
    (fun _ p hp => by
      have : p = [0xE2] ∨ p = [0x82] ∨ p = [0xAC] := by
        simpa [fragments, euro, Interim.data] using hp
      rcases this with rfl | rfl | rfl <;> decide) noMask
  obtain ⟨-, -, -, hclean, -, hdelivered⟩ := hvalid ((octets_iff_scan _).2 (by decide))
  rw [show (fragments euro).flatten ++ [0xAC] = [0xE2, 0x82, 0xAC] from rfl,
    show euro.filterMap (Interim.control megabyte) = [] from rfl, List.append_nil] at hdelivered
  exact ⟨_, w', htr, hreach, hclean, hdelivered⟩

/-- A client that gets a text in two frames and receives `n` times. -/
def textInTwo (first second : List UInt8) (n : ℕ) : List Action :=
  [.handshakeOk, .handshakeStopped true,
    .arrive (messageWire .client 0x01 [.fragment noMask first] noMask second)] ++
    List.replicate n (.received noMask)

theorem cut_euro_returns :
    (Runs.runWhile (World.step megabyte) World.Enabled (World.init .client 0x02)
      (textInTwo [0xE2] [0x82, 0xAC] 4)).isSome := by
  decide

theorem cut_emoji_returns :
    (Runs.runWhile (World.step megabyte) World.Enabled (World.init .client 0x02)
      (textInTwo [0xF0, 0x9F, 0x98] [0x80] 3)).isSome := by
  decide

theorem cut_letter_returns :
    (Runs.runWhile (World.step megabyte) World.Enabled (World.init .client 0x02)
      (textInTwo [0xC3] [] 3 ++ [.recv])).isSome := by
  decide

/-- A well-formed text fails the connection, another one aborts the process, and a text that is not
well-formed is accepted. -/
theorem text_not_validated :
    (Octets [0xE2, 0x82, 0xAC] ∧ ∃ w,
      Runs.Trace (World.step megabyte) World.Enabled (World.init .client 0x02)
        (textInTwo [0xE2] [0x82, 0xAC] 4) w ∧ w.stream = [] ∧ w.delivered = [] ∧
          w.sws.instate = .closed) ∧
      (Octets [0xF0, 0x9F, 0x98, 0x80] ∧ ∃ w,
        Runs.Trace (World.step megabyte) World.Enabled (World.init .client 0x02)
        (textInTwo [0xF0, 0x9F, 0x98] [0x80] 3) w ∧ w.Enabled (.received noMask) ∧
        w.step megabyte (.received noMask) = .error .assertFailed) ∧
      ¬ Octets [0xC3] ∧
        ∃ w, Runs.Trace (World.step megabyte) World.Enabled (World.init .client 0x02)
        (textInTwo [0xC3] [] 3 ++ [.recv]) w ∧
          w.delivered = [⟨[], wsHdrs megabyte 0x01, [0xC3]⟩] := by
  refine ⟨⟨(octets_iff_scan _).2 (by decide), _, Runs.Trace.of_runWhile cut_euro_returns, ?_⟩,
    ⟨(octets_iff_scan _).2 (by decide), _, Runs.Trace.of_runWhile cut_emoji_returns, ?_, ?_⟩,
    fun h => absurd ((octets_iff_scan _).1 h) (by decide), _,
      Runs.Trace.of_runWhile cut_letter_returns, ?_⟩
  · decide
  · decide
  · rfl
  · rfl

end NanoSocket.Ws

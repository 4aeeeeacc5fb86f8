import NanoSocket.Ws.Cws

/-!
# Host names (`transports/utils/dns.c`)

`nn_dns_check_hostname` counts the characters of a label while it reads the name.  `Hostname` says
which names there are without the counter: labels with dots between them, and perhaps one behind the
last.
-/

namespace NanoSocket.Ws.Dns

open Connect (nnDnsCheckHostname hostnameLoop isHostChar nnDnsCheckHostname_append)

/-- `[A-Za-z0-9-]`. -/
def hostChars : List UInt8 :=
  ascii "ABCDEFGHIJKLMNOPQRSTUVWXYZabcdefghijklmnopqrstuvwxyz0123456789-"

/-- A label. -/
structure Label (l : List UInt8) : Prop where
  pos : 1 ≤ l.length
  length_le : l.length ≤ 63
  chars : ∀ c ∈ l, c ∈ hostChars

/-- A host name. -/
structure Hostname (name : List UInt8) : Prop where
  pos : 1 ≤ name.length
  length_le : name.length ≤ 255
  hyphen : name.head? ≠ some 0x2D
  labels : ∃ ls ≠ [], (∀ l ∈ ls, Label l) ∧
    (name = [0x2E].intercalate ls ∨ name = [0x2E].intercalate ls ++ [0x2E])

/-- The rest of a name behind a dot: it may be empty, when the dot is the last one. -/
inductive Labels : List UInt8 → Prop
  | nil : Labels []
  | last {l : List UInt8} : Label l → Labels l
  | dot {l rest : List UInt8} : Label l → Labels rest → Labels (l ++ 0x2E :: rest)

variable {l p rest name : List UInt8} {c : UInt8} {ls : List (List UInt8)}

theorem isHostChar_iff (c : UInt8) : isHostChar c = true ↔ c ∈ hostChars := by
  -- the characters by their numbers, so that the text is read once
  have hchars : hostChars =
      (List.range' 0x41 26 ++ List.range' 0x61 26 ++ List.range' 0x30 10 ++ [0x2D]).map
        UInt8.ofNat := by decide
  have hmem : c ∈ hostChars ↔
      c.toNat ∈ List.range' 0x41 26 ++ List.range' 0x61 26 ++ List.range' 0x30 10 ++ [0x2D] := by
    rw [hchars, List.mem_map]
    constructor
    · rintro ⟨n, hn, rfl⟩
      have hlt : n < 256 := by
        simp only [List.mem_append, List.mem_range'_1, List.mem_singleton] at hn
        omega
      rwa [UInt8.toNat_ofNat', Nat.mod_eq_of_lt hlt]
    · intro hn
      exact ⟨c.toNat, hn, UInt8.ofNat_toNat⟩
  rw [hmem, isHostChar, decide_eq_true_eq]
  simp only [UInt8.le_iff_toNat_le, ← UInt8.toNat_inj, List.mem_append, List.mem_range'_1,
    List.mem_singleton, UInt8.reduceToNat]
  omega

theorem dot_not_mem (h : ∀ c ∈ p, c ∈ hostChars) : (0x2E : UInt8) ∉ p := by
  intro hmem
  have hdot : isHostChar 0x2E = true := (isHostChar_iff 0x2E).2 (h _ hmem)
  exact absurd hdot (by decide)

/-! ### The first label -/

theorem append_dot_inj {l' rest' : List UInt8} (hl : (0x2E : UInt8) ∉ l) (hl' : (0x2E : UInt8) ∉ l')
    (h : l ++ 0x2E :: rest = l' ++ 0x2E :: rest') : l = l' ∧ rest = rest' := by
  induction l generalizing l' with
  | nil =>
    cases l' with
    | nil => exact ⟨rfl, (List.cons.inj h).2⟩
    | cons a l' => exact absurd (List.mem_cons.2 (.inl (List.cons.inj h).1)) hl'
  | cons a l ih =>
    cases l' with
    | nil => exact absurd (List.mem_cons.2 (.inl (List.cons.inj h).1.symm)) hl
    | cons b l' =>
      obtain ⟨rfl, htail⟩ := List.cons.inj h
      obtain ⟨rfl, hrest⟩ :=
        ih (List.not_mem_of_not_mem_cons hl) (List.not_mem_of_not_mem_cons hl') htail
      exact ⟨rfl, hrest⟩

/-- What comes before the first dot goes on when the next character is another one. -/
theorem prefix_of_append {rest' : List UInt8} (hp : (0x2E : UInt8) ∉ p) (hc : c ≠ 0x2E)
    (h : p ++ c :: rest = l ++ 0x2E :: rest') : p ++ [c] <+: l := by
  induction p generalizing l with
  | nil =>
    cases l with
    | nil => exact absurd (List.cons.inj h).1 hc
    | cons a l =>
      obtain ⟨rfl, -⟩ := List.cons.inj h
      exact ⟨l, rfl⟩
  | cons a p ih =>
    cases l with
    | nil => exact absurd (List.mem_cons.2 (.inl (List.cons.inj h).1.symm)) hp
    | cons b l =>
      obtain ⟨rfl, htail⟩ := List.cons.inj h
      exact List.prefix_cons_inj _ |>.2 (ih (List.not_mem_of_not_mem_cons hp) htail)

/-- The characters before the first dot are a label. -/
theorem labels_dot_iff (hp : ∀ c ∈ p, c ∈ hostChars) :
    Labels (p ++ 0x2E :: rest) ↔ Label p ∧ Labels rest := by
  constructor
  · intro h
    generalize htext : p ++ 0x2E :: rest = text at h
    cases h with
    | nil => simp at htext
    | last hl => exact absurd (by rw [← htext]; simp) (dot_not_mem hl.chars)
    | dot hl hrest =>
      obtain ⟨rfl, rfl⟩ := append_dot_inj (dot_not_mem hp) (dot_not_mem hl.chars) htext
      exact ⟨hl, hrest⟩
  · rintro ⟨hl, hrest⟩
    exact .dot hl hrest

/-- Another character continues the label. -/
theorem labels_char (hp : ∀ c ∈ p, c ∈ hostChars) (hc : c ≠ 0x2E) (h : Labels (p ++ c :: rest)) :
    c ∈ hostChars ∧ p.length + 1 ≤ 63 := by
  obtain ⟨l, hl, hle⟩ : ∃ l, Label l ∧ p ++ [c] <+: l := by
    generalize htext : p ++ c :: rest = text at h
    cases h with
    | nil => simp at htext
    | last hl => exact ⟨_, hl, rest, by rw [← htext]; simp⟩
    | dot hl hrest => exact ⟨_, hl, prefix_of_append (dot_not_mem hp) hc htext⟩
  exact ⟨hl.chars c (hle.subset (by simp)), by simpa using hle.length_le.trans hl.length_le⟩

/-! ### The loop -/

/-- The loop behind a part of a label: what was read so far belongs to the label. -/
theorem hostnameLoop_iff (hp : ∀ c ∈ p, c ∈ hostChars) (hlen : p.length ≤ 63) (name : List UInt8) :
    hostnameLoop p.length name name.length = true ↔ Labels (p ++ name) := by
  induction name generalizing p with
  | nil =>
    rw [List.length_nil, hostnameLoop, List.append_nil]
    refine iff_of_true rfl ?_
    cases p with
    | nil => exact .nil
    | cons a p => exact .last ⟨by simp, hlen, hp⟩
  | cons c name ih =>
    rw [List.length_cons, hostnameLoop]
    split_ifs with hdot hempty hchar hlong
    · subst hdot
      rw [labels_dot_iff hp]
      refine iff_of_false not_false fun h => ?_
      have hpos := h.1.pos
      omega
    · subst hdot
      rw [labels_dot_iff hp]
      have hrest := ih (p := []) (fun _ h => absurd h List.not_mem_nil) (Nat.zero_le _)
      rw [List.length_nil, List.nil_append] at hrest
      rw [hrest]
      exact ⟨fun h => ⟨⟨by omega, hlen, hp⟩, h⟩, fun h => h.2⟩
    · refine iff_of_false not_false fun h => ?_
      have hle := (labels_char hp hdot h).2
      omega
    · have hnext : ∀ a ∈ p ++ [c], a ∈ hostChars := by
        intro a ha
        rcases List.mem_append.1 ha with ha | ha
        · exact hp a ha
        · rw [List.mem_singleton.1 ha]
          exact (isHostChar_iff c).1 hchar
      have hloop := ih hnext (by rw [List.length_append, List.length_singleton]; omega)
      rwa [List.length_append, List.length_singleton, List.append_assoc] at hloop
    · refine iff_of_false not_false fun h => ?_
      exact hchar ((isHostChar_iff c).2 (labels_char hp hdot h).1)

/-! ### The labels of a name -/

theorem labels_intercalate (hne : ls ≠ []) (h : ∀ l ∈ ls, Label l) :
    Labels ([0x2E].intercalate ls) ∧ Labels ([0x2E].intercalate ls ++ [0x2E]) := by
  induction ls with
  | nil => exact absurd rfl hne
  | cons l ls ih =>
    rw [List.forall_mem_cons] at h
    by_cases hls : ls = []
    · subst hls
      rw [List.intercalate_singleton]
      exact ⟨.last h.1, .dot h.1 .nil⟩
    · obtain ⟨hlast, hdot⟩ := ih hls h.2
      rw [List.intercalate_cons_of_ne_nil hls, List.append_assoc, List.append_assoc]
      refine ⟨.dot h.1 hlast, ?_⟩
      rw [List.append_assoc]
      exact .dot h.1 hdot

theorem labels_iff (hname : name ≠ []) : Labels name ↔
    ∃ ls ≠ [], (∀ l ∈ ls, Label l) ∧
      (name = [0x2E].intercalate ls ∨ name = [0x2E].intercalate ls ++ [0x2E]) := by
  constructor
  · intro h
    induction h with
    | nil => exact absurd rfl hname
    | @last l hl => exact ⟨[l], by simp, by simpa using hl, .inl List.intercalate_singleton.symm⟩
    | @dot l rest hl hrest ih =>
      by_cases hempty : rest = []
      · subst hempty
        exact ⟨[l], by simp, by simpa using hl, .inr (by rw [List.intercalate_singleton])⟩
      · obtain ⟨ls, hne, hls, hor⟩ := ih hempty
        refine ⟨l :: ls, by simp, List.forall_mem_cons.2 ⟨hl, hls⟩, ?_⟩
        rw [List.intercalate_cons_of_ne_nil hne]
        rcases hor with rfl | rfl
        · exact .inl (by simp)
        · exact .inr (by simp)
  · rintro ⟨ls, hne, hls, rfl | rfl⟩
    · exact (labels_intercalate hne hls).1
    · exact (labels_intercalate hne hls).2

/-- All names, with any characters behind them. -/
theorem nnDnsCheckHostname_iff (name rest : List UInt8) :
    nnDnsCheckHostname (name ++ rest) name.length = true ↔ Hostname name := by
  rw [nnDnsCheckHostname_append, nnDnsCheckHostname]
  split_ifs with hlen hhyphen
  · refine iff_of_false not_false fun h => ?_
    have hpos := h.pos
    have hle := h.length_le
    omega
  · exact iff_of_false not_false fun h => h.hyphen hhyphen
  · have hname : name ≠ [] := by
      rintro rfl
      exact hlen (.inl Nat.zero_lt_one)
    have hnone : ∀ c ∈ ([] : List UInt8), c ∈ hostChars := fun _ h => absurd h List.not_mem_nil
    have hloop := hostnameLoop_iff (p := []) hnone (Nat.zero_le _) name
    rw [List.length_nil, List.nil_append, labels_iff hname] at hloop
    rw [hloop]
    exact ⟨fun h => ⟨by omega, by omega, hhyphen, h⟩, fun h => h.labels⟩

end NanoSocket.Ws.Dns

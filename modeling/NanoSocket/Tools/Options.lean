import NanoSocket.Core.Fault

/-!
# Long options (`tools/options.c`)

`nn_parse_long_option` looks for the option that a word of the command line names, by its whole name
or by the start of it, in one pass over the table with two variables.  `Resolves` says which option
that is without the order of the table; `nnParseLongOption_resolves` is the agreement of the two.

A C string is the list of its characters before the zero.
-/

namespace NanoSocket.Tools

/-- `enum nn_option_type`. -/
inductive NnOptionType
  | help
  | int
  | increment
  | decrement
  | enum
  | setEnum
  | string
  | blob
  | float
  | listAppend
  | listAppendFmt
  | readFile
  deriving DecidableEq, Repr

/-- `struct nn_option`, as far as a long option is parsed. -/
structure NnOption where
  longname : List UInt8
  type : NnOptionType
  deriving DecidableEq, Repr

/-- `nn_has_arg`. -/
def nnHasArg (opt : NnOption) : Bool :=
  match opt.type with
  | .increment | .decrement | .setEnum | .help => false
  | .enum | .string | .blob | .float | .int | .listAppend | .listAppendFmt | .readFile => true

/-- `struct nn_parse_context`: the table, without the nameless option at its end, the arguments
behind the current one, the current one, and the last argument that named each option. -/
structure ParseContext where
  options : List NnOption
  args : List (List UInt8)
  data : List UInt8
  lastOptionUsage : ℕ → Option (List UInt8)

/-- The call in which the function ends: `nn_process_option`, `nn_option_error`, or one of the
errors that name no option. -/
inductive Outcome (ω : Type)
  | process (opt : ω) (argument : Option (List UInt8))
  | optionError (message : String) (opt : ω)
  | ambiguous
  | unknown
  deriving DecidableEq, Repr

/-- `'='`. -/
def equals : UInt8 := 0x3D

/-- The inner loop: `cur_prefix` at the end of the option on the command line, and whether the name
ends there. -/
def scanName : List UInt8 → List UInt8 → ℕ → Option (ℕ × Bool)
  | a, [], curPrefix => some (curPrefix, a.isEmpty)
  | a, c :: b, curPrefix =>
    if c = equals then some (curPrefix, a.isEmpty)
    else
      match a with
      | [] => none
      | x :: a => if c ≠ x then none else scanName a b (curPrefix + 1)

/-- The outer loop, with `best_match` and `longest_prefix` behind it; there is no best match for
`-1`. -/
def searchLoop (arg : List UInt8) : List NnOption → ℕ → Option ℕ → ℕ → Option ℕ × ℕ
  | [], _, bestMatch, longestPrefix => (bestMatch, longestPrefix)
  | opt :: options, i, bestMatch, longestPrefix =>
    match scanName opt.longname arg 0 with
    | none => searchLoop arg options (i + 1) bestMatch longestPrefix
    | some (curPrefix, true) => (some i, curPrefix)
    | some (curPrefix, false) =>
      -- ambiguity
      if curPrefix = longestPrefix then searchLoop arg options (i + 1) none longestPrefix
      else if longestPrefix < curPrefix then searchLoop arg options (i + 1) (some i) curPrefix
      else searchLoop arg options (i + 1) bestMatch longestPrefix

/-- `nn_get_arg`. -/
def nnGetArg (ctx : ParseContext) : Option ParseContext :=
  match ctx.args with
  | [] => none
  | data :: args => some { ctx with args, data }

/-- `arg [i]`; behind the last character there is the zero. -/
def charAt (arg : List UInt8) (i : ℕ) : Except Fault UInt8 :=
  if h : i < arg.length then .ok arg[i] else if i = arg.length then .ok 0 else .error .outOfBounds

/-- `ctx->options [i]`. -/
def optionAt (options : List NnOption) (i : ℕ) : Except Fault NnOption :=
  if h : i < options.length then .ok options[i] else .error .outOfBounds

/-- `nn_parse_long_option`. -/
def nnParseLongOption (ctx : ParseContext) : Except Fault (Outcome ℕ × ParseContext) :=
  let arg := ctx.data.drop 2
  match searchLoop arg ctx.options 0 none 0 with
  | (some bestMatch, longestPrefix) => do
    let opt ← optionAt ctx.options bestMatch
    let ctx :=
      { ctx with lastOptionUsage := Function.update ctx.lastOptionUsage bestMatch (some ctx.data) }
    let c ← charAt arg longestPrefix
    if c = equals then
      if nnHasArg opt then return (.process bestMatch (some (arg.drop (longestPrefix + 1))), ctx)
      else return (.optionError "does not accept argument" bestMatch, ctx)
    else if nnHasArg opt then
      match nnGetArg ctx with
      | some ctx => return (.process bestMatch (some ctx.data), ctx)
      | none => return (.optionError "requires an argument" bestMatch, ctx)
    else return (.process bestMatch none, ctx)
  | (none, longestPrefix) => .ok (if 0 < longestPrefix then .ambiguous else .unknown, ctx)

/-! ### What a word names -/

/-- The name in a word. -/
def namePart (arg : List UInt8) : List UInt8 := arg.takeWhile (· ≠ equals)

/-- The text behind the name and the `'='`. -/
def value (arg : List UInt8) : Option (List UInt8) := (arg.dropWhile (· ≠ equals)).tail?

/-- What a name stands for. -/
inductive Resolution
  | option (opt : NnOption)
  | ambiguous
  | unknown
  deriving DecidableEq, Repr

/-- The option with the name; else the only one whose name starts with it, if there is one and the
name is not empty. -/
inductive Resolves (options : List NnOption) (name : List UInt8) : Resolution → Prop
  | exact {opt : NnOption} : opt ∈ options → opt.longname = name →
      Resolves options name (.option opt)
  | start {opt : NnOption} : (∀ o ∈ options, o.longname ≠ name) → name ≠ [] → opt ∈ options →
      name <+: opt.longname →
      (∀ o ∈ options, name <+: o.longname → o = opt) → Resolves options name (.option opt)
  | ambiguous {opt opt' : NnOption} : (∀ o ∈ options, o.longname ≠ name) → name ≠ [] →
      opt ∈ options → opt' ∈ options →
      opt ≠ opt' → name <+: opt.longname → name <+: opt'.longname → Resolves options name .ambiguous
  | unknown : (∀ o ∈ options, o.longname ≠ name) →
      (name = [] ∨ ∀ o ∈ options, ¬ name <+: o.longname) → Resolves options name .unknown

/-- What is done with an option: the value is its argument, or the next argument is. -/
def expected (arg : List UInt8) (args : List (List UInt8)) : Resolution → Outcome NnOption
  | .ambiguous => .ambiguous
  | .unknown => .unknown
  | .option opt =>
    match value arg, nnHasArg opt, args with
    | some v, true, _ => .process opt (some v)
    | some _, false, _ => .optionError "does not accept argument" opt
    | none, false, _ => .process opt none
    | none, true, next :: _ => .process opt (some next)
    | none, true, [] => .optionError "requires an argument" opt

/-- An outcome with the option in the place of its index. -/
def Outcome.map {ω ω' : Type} (f : ω → ω') : Outcome ω → Outcome ω'
  | .process opt argument => .process (f opt) argument
  | .optionError message opt => .optionError message (f opt)
  | .ambiguous => .ambiguous
  | .unknown => .unknown

/-! ### One name -/

section Scan

variable {arg name : List UInt8}

theorem namePart_cons_equals (b : List UInt8) : namePart (equals :: b) = [] := by
  simp [namePart]

theorem namePart_cons {c : UInt8} (h : c ≠ equals) (b : List UInt8) :
    namePart (c :: b) = c :: namePart b := by
  simp [namePart, h]

/-- The inner loop comes to the end of the name part when the name starts with it. -/
theorem scanName_eq (name arg : List UInt8) (k : ℕ) :
    scanName name arg k =
      if namePart arg <+: name then some (k + (namePart arg).length, decide (name = namePart arg))
        else none := by
  induction arg generalizing name k with
  | nil =>
    have hnil : namePart [] = [] := rfl
    rw [scanName, hnil, if_pos List.nil_prefix, List.length_nil, Nat.add_zero]
    cases name <;> simp
  | cons c b ih =>
    by_cases hc : c = equals
    · subst hc
      rw [namePart_cons_equals, if_pos List.nil_prefix, List.length_nil, Nat.add_zero]
      cases name <;> simp [scanName]
    · rw [namePart_cons hc]
      cases name with
      | nil =>
        rw [scanName, if_neg hc, if_neg (by simp)]
      | cons x a =>
        rw [scanName, if_neg hc]
        by_cases hcx : c = x
        · subst hcx
          rw [if_neg (not_not.2 rfl), ih]
          simp only [List.prefix_cons_inj, List.length_cons, List.cons.injEq, true_and,
            Nat.add_assoc, Nat.add_comm 1]
        · rw [if_pos hcx, if_neg fun h => hcx (List.cons_prefix_cons.1 h).1]

end Scan

/-! ### The table -/

section Search

variable {arg name : List UInt8} {options : List NnOption} {opt : NnOption} {i j : ℕ}

/-- The places of the options whose names start with a name. -/
def candidates (name : List UInt8) : ℕ → List NnOption → List ℕ
  | _, [] => []
  | i, opt :: options =>
    if name <+: opt.longname then i :: candidates name (i + 1) options
      else candidates name (i + 1) options

theorem mem_candidates :
    j ∈ candidates name i options ↔ ∃ k opt, j = i + k ∧ options[k]? = some opt ∧
      name <+: opt.longname := by
  induction options generalizing i with
  | nil => simp [candidates]
  | cons o options ih =>
    have hsplit : (∃ k opt, j = i + k ∧ (o :: options)[k]? = some opt ∧ name <+: opt.longname) ↔
        (j = i ∧ name <+: o.longname) ∨ ∃ k opt, j = i + 1 + k ∧ options[k]? = some opt ∧
          name <+: opt.longname := by
      constructor
      · rintro ⟨k, opt, rfl, hget, hpre⟩
        cases k with
        | zero =>
          obtain rfl := Option.some.inj hget
          exact .inl ⟨rfl, hpre⟩
        | succ k => exact .inr ⟨k, opt, by omega, hget, hpre⟩
      · rintro (⟨rfl, hpre⟩ | ⟨k, opt, rfl, hget, hpre⟩)
        · exact ⟨0, o, rfl, rfl, hpre⟩
        · exact ⟨k + 1, opt, by omega, hget, hpre⟩
    rw [hsplit, candidates]
    split_ifs with hpre
    · rw [List.mem_cons, ih]
      simp [hpre]
    · rw [ih]
      simp [hpre]

theorem candidates_pairwise (name : List UInt8) (i : ℕ) (options : List NnOption) :
    (candidates name i options).Pairwise (· < ·) := by
  induction options generalizing i with
  | nil => exact .nil
  | cons o options ih =>
    rw [candidates]
    split_ifs with hpre
    · refine .cons (fun j hj => ?_) (ih (i + 1))
      obtain ⟨k, opt, rfl, -, -⟩ := mem_candidates.1 hj
      omega
    · exact ih (i + 1)

/-- Both variables of the loop behind options of which none has the name, for the candidates among
them. -/
def standing (name : List UInt8) : List ℕ → Option ℕ × ℕ
  | [] => (none, 0)
  | [i] => (some i, name.length)
  | _ :: _ :: _ => (none, name.length)

theorem standing_concat (hname : name ≠ []) (cs : List ℕ) (i : ℕ) :
    standing name (cs ++ [i]) =
      if name.length = (standing name cs).2 then (none, (standing name cs).2)
        else (some i, name.length) := by
  have hpos : name.length ≠ 0 := fun h => hname (List.length_eq_zero_iff.1 h)
  match cs with
  | [] => exact (if_neg hpos).symm
  | [a] => exact (if_pos rfl).symm
  | a :: b :: cs => exact (if_pos rfl).symm

theorem standing_le (name : List UInt8) (cs : List ℕ) : (standing name cs).2 ≤ name.length := by
  match cs with
  | [] => exact Nat.zero_le _
  | [a] => exact le_rfl
  | a :: b :: cs => exact le_rfl

/-- No option has the name: the candidates decide. -/
theorem searchLoop_of_ne (hname : namePart arg ≠ [])
    (hne : ∀ o ∈ options, o.longname ≠ namePart arg) (cs : List ℕ) :
    searchLoop arg options i (standing (namePart arg) cs).1 (standing (namePart arg) cs).2 =
      standing (namePart arg) (cs ++ candidates (namePart arg) i options) := by
  induction options generalizing i cs with
  | nil => rw [searchLoop, candidates, List.append_nil]
  | cons o options ih =>
    rw [List.forall_mem_cons] at hne
    rw [searchLoop, candidates, scanName_eq, decide_eq_false hne.1, Nat.zero_add]
    split_ifs with hpre
    · have hnext := ih hne.2 (i := i + 1) (cs ++ [i])
      rw [List.append_assoc, standing_concat hname cs i] at hnext
      rw [List.singleton_append] at hnext
      simp only
      have hle := standing_le (namePart arg) cs
      split_ifs at hnext ⊢ with hsame hlt
      · exact hnext
      · exact hnext
      · omega
    · exact ih hne.2 cs

/-- The first option with the name ends the search. -/
theorem searchLoop_exact (hex : ∃ o ∈ options, o.longname = namePart arg)
    (best : Option ℕ) (longest : ℕ) :
    ∃ k opt, options[k]? = some opt ∧ opt.longname = namePart arg ∧
      searchLoop arg options i best longest = (some (i + k), (namePart arg).length) := by
  induction options generalizing i best longest with
  | nil =>
    obtain ⟨o, ho, -⟩ := hex
    cases ho
  | cons o options ih =>
    rw [searchLoop, scanName_eq, Nat.zero_add]
    by_cases ho : o.longname = namePart arg
    · refine ⟨0, o, rfl, ho, ?_⟩
      rw [if_pos (by rw [ho]), decide_eq_true ho]
      rfl
    · have hrest : ∃ o ∈ options, o.longname = namePart arg := by
        obtain ⟨o', ho', heq⟩ := hex
        rcases List.mem_cons.1 ho' with rfl | ho'
        · exact absurd heq ho
        · exact ⟨o', ho', heq⟩
      have hnext : ∀ best longest, ∃ k opt, (o :: options)[k]? = some opt ∧
          opt.longname = namePart arg ∧
          searchLoop arg options (i + 1) best longest = (some (i + k), (namePart arg).length) := by
        intro best longest
        obtain ⟨k, opt, hget, hopt, hloop⟩ := ih hrest (i := i + 1) best longest
        exact ⟨k + 1, opt, hget, hopt, by rw [hloop, Nat.add_assoc, Nat.add_comm 1]⟩
      rw [decide_eq_false ho]
      split_ifs with hpre
      · simp only
        split_ifs <;> exact hnext _ _
      · exact hnext _ _

/-- An empty name is found only if an option has it. -/
theorem searchLoop_of_nil (hname : namePart arg = [])
    (hne : ∀ o ∈ options, o.longname ≠ namePart arg) :
    searchLoop arg options i none 0 = (none, 0) := by
  induction options generalizing i with
  | nil => rfl
  | cons o options ih =>
    rw [List.forall_mem_cons] at hne
    rw [searchLoop, scanName_eq, decide_eq_false hne.1, hname, if_pos List.nil_prefix,
      List.length_nil, Nat.zero_add]
    exact ih hne.2

/-- The options of a table with distinct names are distinct. -/
theorem eq_of_getElem? (h : (options.map (·.longname)).Nodup) {k k' : ℕ} {o o' : NnOption}
    (hk : options[k]? = some o) (hk' : options[k']? = some o') (hname : o.longname = o'.longname) :
    k = k' := by
  have hlt : k < (options.map (·.longname)).length := by
    rw [List.length_map]
    exact (List.getElem?_eq_some_iff.1 hk).1
  refine (List.getElem?_inj hlt h).1 ?_
  rw [List.getElem?_map, List.getElem?_map, hk, hk', Option.map_some, Option.map_some, hname]

/-- What the search finds, for the name of the word. -/
theorem searchLoop_resolves (h : (options.map (·.longname)).Nodup) (arg : List UInt8) :
    (∃ k opt, options[k]? = some opt ∧
      searchLoop arg options 0 none 0 = (some k, (namePart arg).length) ∧
      Resolves options (namePart arg) (.option opt)) ∨
    ∃ n, searchLoop arg options 0 none 0 = (none, n) ∧
      Resolves options (namePart arg) (if 0 < n then .ambiguous else .unknown) := by
  by_cases hex : ∃ o ∈ options, o.longname = namePart arg
  · obtain ⟨k, opt, hget, hopt, hloop⟩ := searchLoop_exact hex (i := 0) none 0
    rw [Nat.zero_add] at hloop
    exact .inl ⟨k, opt, hget, hloop, .exact (List.mem_of_getElem? hget) hopt⟩
  have hne : ∀ o ∈ options, o.longname ≠ namePart arg := fun o ho heq => hex ⟨o, ho, heq⟩
  by_cases hname : namePart arg = []
  · exact .inr ⟨0, searchLoop_of_nil hname hne, .unknown hne (.inl hname)⟩
  have hloop := searchLoop_of_ne hname hne (i := 0) []
  rw [List.nil_append] at hloop
  have hmem : ∀ j, j ∈ candidates (namePart arg) 0 options ↔
      ∃ opt, options[j]? = some opt ∧ namePart arg <+: opt.longname := by
    intro j
    simp only [mem_candidates, Nat.zero_add]
    constructor
    · rintro ⟨k, opt, rfl, hget, hpre⟩
      exact ⟨opt, hget, hpre⟩
    · rintro ⟨opt, hget, hpre⟩
      exact ⟨j, opt, rfl, hget, hpre⟩
  have hinc := candidates_pairwise (namePart arg) 0 options
  have hpos : 0 < (namePart arg).length := List.length_pos_iff.2 hname
  generalize candidates (namePart arg) 0 options = cs at hloop hmem hinc
  match cs with
  | [] =>
    refine .inr ⟨0, hloop, .unknown hne (.inr fun o ho hpre => ?_)⟩
    obtain ⟨j, hget⟩ := List.mem_iff_getElem?.1 ho
    exact List.not_mem_nil ((hmem j).2 ⟨o, hget, hpre⟩)
  | [k] =>
    obtain ⟨opt, hget, hpre⟩ := (hmem k).1 (List.mem_singleton_self k)
    refine .inl ⟨k, opt, hget, hloop,
      .start hne hname (List.mem_of_getElem? hget) hpre fun o ho hpre' => ?_⟩
    obtain ⟨j, hget'⟩ := List.mem_iff_getElem?.1 ho
    obtain rfl := List.mem_singleton.1 ((hmem j).2 ⟨o, hget', hpre'⟩)
    exact Option.some.inj (hget'.symm.trans hget)
  | k :: k' :: ks =>
    obtain ⟨opt, hget, hpre⟩ := (hmem k).1 List.mem_cons_self
    obtain ⟨opt', hget', hpre'⟩ := (hmem k').1 (List.mem_cons_of_mem k List.mem_cons_self)
    have hlt : k < k' := List.rel_of_pairwise_cons hinc List.mem_cons_self
    have hopt : opt ≠ opt' := fun heq => hlt.ne (eq_of_getElem? h hget hget' (by rw [heq]))
    refine .inr ⟨(namePart arg).length, hloop, ?_⟩
    rw [if_pos hpos]
    exact .ambiguous hne hname (List.mem_of_getElem? hget)
      (List.mem_of_getElem? hget') hopt hpre hpre'

end Search

/-! ### The outcome -/

section Outcome

variable {options options' : List NnOption} {name : List UInt8} {r r' : Resolution}

theorem Resolves.of_perm (hr : Resolves options name r) (h : options'.Perm options) :
    Resolves options' name r := by
  cases hr with
  | exact ho hname => exact .exact (h.mem_iff.2 ho) hname
  | start hne hname ho hpre huniq =>
    exact .start (fun o ho => hne o (h.mem_iff.1 ho)) hname (h.mem_iff.2 ho) hpre fun o ho =>
      huniq o (h.mem_iff.1 ho)
  | ambiguous hne hname ho ho' hopt hpre hpre' =>
    exact .ambiguous (fun o ho => hne o (h.mem_iff.1 ho)) hname (h.mem_iff.2 ho)
      (h.mem_iff.2 ho') hopt hpre hpre'
  | unknown hne hnone =>
    exact .unknown (fun o ho => hne o (h.mem_iff.1 ho))
      (hnone.imp_right fun hnone o ho => hnone o (h.mem_iff.1 ho))

/-- A name stands for one thing at most. -/
theorem Resolves.unique (h : (options.map (·.longname)).Nodup) (hr : Resolves options name r)
    (hr' : Resolves options name r') : r' = r := by
  cases hr with
  | @exact opt ho hname =>
    cases hr' with
    | exact ho' hname' => rw [List.inj_on_of_nodup_map h ho' ho (hname'.trans hname.symm)]
    | start hne => exact absurd hname (hne opt ho)
    | ambiguous hne => exact absurd hname (hne opt ho)
    | unknown hne => exact absurd hname (hne opt ho)
  | @start opt hne hname ho hpre huniq =>
    cases hr' with
    | exact ho' hname' => exact absurd hname' (hne _ ho')
    | start _ _ ho' hpre' => rw [huniq _ ho' hpre']
    | ambiguous _ _ ho₁ ho₂ hopt hpre₁ hpre₂ =>
      exact absurd ((huniq _ ho₁ hpre₁).trans (huniq _ ho₂ hpre₂).symm) hopt
    | unknown _ hnone =>
      rcases hnone with hnil | hnone
      · exact absurd hnil hname
      · exact absurd hpre (hnone opt ho)
  | @ambiguous opt opt' hne hname ho ho' hopt hpre hpre' =>
    cases hr' with
    | exact ho₁ hname' => exact absurd hname' (hne _ ho₁)
    | start _ _ _ _ huniq =>
      exact absurd ((huniq opt ho hpre).trans (huniq opt' ho' hpre').symm) hopt
    | ambiguous => rfl
    | unknown _ hnone =>
      rcases hnone with hnil | hnone
      · exact absurd hnil hname
      · exact absurd hpre (hnone opt ho)
  | unknown hne hnone =>
    cases hr' with
    | exact ho hname => exact absurd hname (hne _ ho)
    | start _ hname ho hpre =>
      rcases hnone with hnil | hnone
      · exact absurd hnil hname
      · exact absurd hpre (hnone _ ho)
    | ambiguous _ hname ho _ _ hpre =>
      rcases hnone with hnil | hnone
      · exact absurd hnil hname
      · exact absurd hpre (hnone _ ho)
    | unknown => rfl

/-- A word is its name, and the `'='` and its value. -/
theorem word_cases (arg : List UInt8) : ∃ rest, namePart arg ++ rest = arg ∧
    ((rest = [] ∧ value arg = none) ∨ ∃ v, rest = equals :: v ∧ value arg = some v) := by
  refine ⟨arg.dropWhile (· ≠ equals), List.takeWhile_append_dropWhile, ?_⟩
  unfold value
  cases hdrop : arg.dropWhile (· ≠ equals) with
  | nil => exact .inl ⟨rfl, rfl⟩
  | cons c v =>
    have hhead := List.head?_dropWhile_not (fun c => decide (c ≠ equals)) arg
    rw [hdrop] at hhead
    have hc : c = equals := by simpa using hhead
    subst hc
    exact .inr ⟨v, rfl, rfl⟩

theorem charAt_append (name rest : List UInt8) :
    charAt (name ++ rest) name.length = .ok (rest.headD 0) := by
  cases rest with
  | nil => simp [charAt]
  | cons c rest => simp [charAt]

/-- The option that is found gets its argument. -/
theorem nnParseLongOption_of_some (ctx : ParseContext) {k : ℕ} {opt : NnOption}
    (hget : ctx.options[k]? = some opt)
    (hloop : searchLoop (ctx.data.drop 2) ctx.options 0 none 0 =
      (some k, (namePart (ctx.data.drop 2)).length)) :
    (nnParseLongOption ctx).map (fun p => p.1.map (ctx.options[·]?)) =
      .ok ((expected (ctx.data.drop 2) ctx.args (.option opt)).map some) := by
  have hopt : optionAt ctx.options k = .ok opt := by
    obtain ⟨hlt, rfl⟩ := List.getElem?_eq_some_iff.1 hget
    exact dif_pos hlt
  obtain ⟨rest, harg, hrest⟩ := word_cases (ctx.data.drop 2)
  have hchar := charAt_append (namePart (ctx.data.drop 2)) rest
  have hdrop : (namePart (ctx.data.drop 2) ++ rest).drop ((namePart (ctx.data.drop 2)).length + 1) =
      rest.drop 1 :=
    List.drop_length_add_append 1
  rw [harg] at hchar hdrop
  simp only [nnParseLongOption, hloop, hopt, hchar, hdrop, bind, Except.bind, pure, Except.pure]
  rcases hrest with ⟨rfl, hvalue⟩ | ⟨v, rfl, hvalue⟩
  · have hzero : (List.headD [] 0 : UInt8) ≠ equals := by decide
    rw [if_neg hzero]
    simp only [expected, hvalue, nnGetArg]
    cases nnHasArg opt with
    | false => simp [Outcome.map, Except.map, hget]
    | true =>
      cases ctx.args with
      | nil => simp [Outcome.map, Except.map, hget]
      | cons next args => simp [Outcome.map, Except.map, hget]
  · rw [List.headD_cons, if_pos rfl]
    simp only [expected, hvalue]
    cases nnHasArg opt with
    | false => simp [Outcome.map, Except.map, hget]
    | true => simp [Outcome.map, Except.map, hget]

/-- The option for the name part of the word, whatever the order of the table, with the text behind
the `'='` or with the next argument. -/
theorem nnParseLongOption_resolves (ctx : ParseContext) (h : (ctx.options.map (·.longname)).Nodup) :
    ∃ r, Resolves ctx.options (namePart (ctx.data.drop 2)) r ∧
      (∀ r', Resolves ctx.options (namePart (ctx.data.drop 2)) r' → r' = r) ∧
      ∀ options', options'.Perm ctx.options →
        (nnParseLongOption { ctx with options := options' }).map (fun p => p.1.map (options'[·]?)) =
          .ok ((expected (ctx.data.drop 2) ctx.args r).map some) := by
  obtain ⟨r, hr⟩ : ∃ r, Resolves ctx.options (namePart (ctx.data.drop 2)) r := by
    rcases searchLoop_resolves h (ctx.data.drop 2) with ⟨k, opt, -, -, hr⟩ | ⟨n, -, hr⟩
    · exact ⟨_, hr⟩
    · exact ⟨_, hr⟩
  refine ⟨r, hr, fun r' => hr.unique h, fun options' hperm => ?_⟩
  have h' : (options'.map (·.longname)).Nodup := (hperm.map _).nodup_iff.2 h
  rcases searchLoop_resolves h' (ctx.data.drop 2) with ⟨k, opt, hget, hloop, hr'⟩ | ⟨n, hloop, hr'⟩
  · obtain rfl := (hr.of_perm hperm).unique h' hr'
    exact nnParseLongOption_of_some { ctx with options := options' } hget hloop
  · obtain rfl := (hr.of_perm hperm).unique h' hr'
    simp only [nnParseLongOption, hloop, Except.map]
    split_ifs <;> rfl

/-- `--ab`, which needs an argument, and `--ac`. -/
def twoOptions (data : List UInt8) : ParseContext where
  options := [⟨[0x61, 0x62], .string⟩, ⟨[0x61, 0x63], .increment⟩]
  args := []
  data := data
  lastOptionUsage := fun _ => none

/-- `--ab=x` is the first of two options, from either end of the table. -/
theorem nnParseLongOption_resolves_two :
    ((twoOptions [0x2D, 0x2D, 0x61, 0x62, 0x3D, 0x78]).options.map (·.longname)).Nodup ∧
      ∃ r, Resolves (twoOptions []).options [0x61, 0x62] r ∧
        (∀ r', Resolves (twoOptions []).options [0x61, 0x62] r' → r' = r) ∧
        ∀ options', options'.Perm (twoOptions []).options →
          (nnParseLongOption { twoOptions [0x2D, 0x2D, 0x61, 0x62, 0x3D, 0x78]
            with options := options' }).map
              (fun p => p.1.map (options'[·]?)) =
                .ok ((expected [0x61, 0x62, 0x3D, 0x78] [] r).map some) :=
  ⟨by decide,
    nnParseLongOption_resolves (twoOptions [0x2D, 0x2D, 0x61, 0x62, 0x3D, 0x78]) (by decide)⟩

/-- Both options start with the empty name of `--=x`, and it is not ambiguous. -/
theorem nnParseLongOption_nameless :
    ((twoOptions [0x2D, 0x2D, 0x3D, 0x78]).options.map (·.longname)).Nodup ∧
      (∀ o ∈ (twoOptions [0x2D, 0x2D, 0x3D, 0x78]).options, o.longname ≠ namePart [0x3D, 0x78]) ∧
      (twoOptions [0x2D, 0x2D, 0x3D, 0x78]).options.length = 2 ∧
      (∀ o ∈ (twoOptions [0x2D, 0x2D, 0x3D, 0x78]).options, namePart [0x3D, 0x78] <+: o.longname) ∧
      (nnParseLongOption (twoOptions [0x2D, 0x2D, 0x3D, 0x78])).map Prod.fst = .ok .unknown :=
  ⟨by decide, by decide, rfl, by decide, rfl⟩

end Outcome

end NanoSocket.Tools

import NanoSocket.Tools.Options

/-!
# Command lines (`tools/options.c`)

`nn_parse_options` goes through the words of a command line once: a word is a long option, a cluster
of short ones, or neither, an option with an argument may take the next word, and each option is
processed as soon as it is read.  Its mask must not meet the conflicts of a later one, and at the
end the masks that the options and the program require must be there.

* `Spells` is the grammar: which settings some words stand for.
* `nnParseOptions_ok_iff` says that a command line is accepted exactly if it spells settings of
  which none conflicts with an earlier one and that provide all that is required, and what is stored
  then.

The switch of `nn_process_option`, which stores the argument of an option or exits, is the parameter
`store`.
-/

namespace NanoSocket.Tools

/-- A C string. -/
abbrev Word := List UInt8

/-- `struct nn_option`; a `shortname` that is zero is none. -/
structure CommandOption extends NnOption where
  shortname : UInt8
  arg0name : Option Word
  maskSet : ℕ
  conflictsMask : ℕ
  requiresMask : ℕ
  deriving DecidableEq, Repr

/-- The ways in which the parser does not return: it exits with a message, or it was stopped by
`store`. -/
inductive Stop (ε : Type)
  | fault (f : Fault)
  | conflict (opt : ℕ)
  | optionError (message : String) (opt : ℕ)
  | value (e : ε)
  | ambiguous
  | unknownLong
  | unknownShort (c : UInt8)
  | unexpectedArgument
  | optionRequires (opt : ℕ)
  | required
  deriving DecidableEq, Repr

/-- `struct nn_parse_context`, as far as it changes for good. -/
structure ParseState (τ : Type) where
  lastOptionUsage : ℕ → Option Word
  mask : ℕ
  target : τ

/-- `'-'`. -/
def dash : UInt8 := 0x2D

/-- `'/'`. -/
def slash : UInt8 := 0x2F

section Parse

variable {τ ε : Type} (table : List CommandOption)
  (store : CommandOption → Option Word → τ → Except ε τ)

/-- `ctx->last_option_usage [i] = usage`. -/
def ParseState.use (s : ParseState τ) (i : ℕ) (usage : Word) : ParseState τ :=
  { s with lastOptionUsage := Function.update s.lastOptionUsage i (some usage) }

/-- `nn_process_option`. -/
def nnProcessOption (s : ParseState τ) (optIndex : ℕ) (argument : Option Word) :
    Except (Stop ε) (ParseState τ) :=
  match table[optIndex]? with
  | none => .error (.fault .outOfBounds)
  | some opt =>
    if s.mask &&& opt.conflictsMask ≠ 0 then .error (.conflict optIndex)
    else
      match store opt argument s.target with
      | .error e => .error (.value e)
      | .ok target => .ok { s with mask := s.mask ||| opt.maskSet, target }

/-- `nn_parse_arg0`, from an option on. -/
def parseArg0From (argv0 arg0 : Word) :
    List CommandOption → ℕ → ParseState τ → Except (Stop ε) (ParseState τ)
  | [], _, s => .ok s
  | opt :: options, i, s =>
    if opt.arg0name = some arg0 then
      if nnHasArg opt.toNnOption then .error (.fault .assertFailed)
      else do
        parseArg0From argv0 arg0 options (i + 1)
          (← nnProcessOption table store (s.use i argv0) i none)
    else parseArg0From argv0 arg0 options (i + 1) s

/-- `nn_parse_arg0`; the name of the program stands behind the last slash. -/
def nnParseArg0 (argv0 : Word) (s : ParseState τ) : Except (Stop ε) (ParseState τ) :=
  parseArg0From table store argv0 (argv0.reverse.takeWhile (· ≠ slash)).reverse table 0 s

/-- `nn_parse_long_option`, with the call in which it ends. -/
def parseLongOption (data : Word) (args : List Word) (s : ParseState τ) :
    Except (Stop ε) (List Word × ParseState τ) :=
  match nnParseLongOption { options := table.map (·.toNnOption), args, data,
                            lastOptionUsage := s.lastOptionUsage } with
  | .error f => .error (.fault f)
  | .ok (.process i argument, ctx) => do
    return (ctx.args, ← nnProcessOption table store
      { s with lastOptionUsage := ctx.lastOptionUsage } i argument)
  | .ok (.optionError message i, _) => .error (.optionError message i)
  | .ok (.ambiguous, _) => .error .ambiguous
  | .ok (.unknown, _) => .error .unknownLong

/-- The option that `nn_parse_short_option` finds. -/
def findShort (c : UInt8) : Option ℕ :=
  table.findIdx? fun opt => opt.shortname ≠ 0 ∧ opt.shortname = c

/-- The loop of `nn_parse_arg` around `nn_parse_short_option`. -/
def parseShortOptions (args : List Word) :
    Word → ParseState τ → Except (Stop ε) (List Word × ParseState τ)
  | [], s => .ok (args, s)
  | c :: data, s =>
    match findShort table c with
    | none => .error (.unknownShort c)
    | some i =>
      match table[i]? with
      | none => .error (.fault .outOfBounds)
      | some opt =>
        let s := s.use i (c :: data)
        if nnHasArg opt.toNnOption then
          match data, args with
          | d :: data,
              args => do return (args, ← nnProcessOption table store s i (some (d :: data)))
          | [], next :: args => do return (args, ← nnProcessOption table store s i (some next))
          | [], [] => .error (.optionError "requires an argument" i)
        else do parseShortOptions args data (← nnProcessOption table store s i none)

/-- `nn_parse_arg`. -/
def nnParseArg (data : Word) (args : List Word) (s : ParseState τ) :
    Except (Stop ε) (List Word × ParseState τ) :=
  if data.head? = some dash then
    if data.tail.head? = some dash then
      -- end of options
      if data.length = 2 then .ok (args, s)
      else parseLongOption table store data args s
    else parseShortOptions table store args data.tail s
  else .error .unexpectedArgument

/-- The loop of `nn_parse_options`; each round takes an argument at least. -/
def parseArgs : ℕ → List Word → ParseState τ → Except (Stop ε) (ParseState τ)
  | _, [], s => .ok s
  | 0, _ :: _, _ => .error (.fault .diverged)
  | n + 1, data :: args, s => do
    let r ← nnParseArg table store data args s
    parseArgs n r.1 r.2

/-- An option that was used lacks something. -/
def Lacks (s : ParseState τ) (opt : CommandOption) (i : ℕ) : Prop :=
  s.lastOptionUsage i ≠ none ∧ opt.requiresMask ≠ 0 ∧ opt.requiresMask &&& s.mask ≠ opt.requiresMask

instance decidableLacks (s : ParseState τ) (opt : CommandOption) (i : ℕ) :
    Decidable (Lacks s opt i) :=
  inferInstanceAs (Decidable (_ ∧ _))

/-- `nn_check_requires`. -/
def nnCheckRequires (requires : ℕ) (s : ParseState τ) : Except (Stop ε) Unit :=
  match table.zipIdx.find? fun p => Lacks s p.1 p.2 with
  | some p => .error (.optionRequires p.2)
  | none => if requires &&& s.mask ≠ requires then .error .required else .ok ()

/-- `nn_parse_options`. -/
def nnParseOptions (requires : ℕ) (argv0 : Word) (args : List Word) (target : τ) :
    Except (Stop ε) τ := do
  let s ← nnParseArg0 table store argv0 { lastOptionUsage := fun _ => none, mask := 0, target }
  let s ← parseArgs table store args.length args s
  nnCheckRequires table requires s
  return s.target

end Parse

/-! ### What words spell -/

/-- An option with its argument, and where it was read. -/
structure Setting where
  index : ℕ
  opt : CommandOption
  usage : Word
  argument : Option Word
  deriving DecidableEq, Repr

/-- The first option of the table with a short name. -/
def ShortName (table : List CommandOption) (c : UInt8) (i : ℕ) (opt : CommandOption) : Prop :=
  table[i]? = some opt ∧ c ≠ 0 ∧ opt.shortname = c ∧
    ∀ j < i, ∀ o, table[j]? = some o → o.shortname ≠ c

/-- The option of the table that a long name stands for. -/
def LongName (table : List CommandOption) (name : Word) (i : ℕ) (opt : CommandOption) : Prop :=
  table[i]? = some opt ∧ Resolves (table.map (·.toNnOption)) name (.option opt.toNnOption)

/-- What a cluster of short options stands for, with the words behind it before and after it. -/
inductive Cluster (table : List CommandOption) : Word → List Word → List Setting → List Word → Prop
  | nil {args} : Cluster table [] args [] args
  | flag {c data args i opt ss args'} : ShortName table c i opt → nnHasArg opt.toNnOption = false →
      Cluster table data args ss args' →
        Cluster table (c :: data) args (⟨i, opt, c :: data, none⟩ :: ss) args'
  | attached {c v args i opt} : ShortName table c i opt → nnHasArg opt.toNnOption = true → v ≠ [] →
      Cluster table (c :: v) args [⟨i, opt, c :: v, some v⟩] args
  | next {c v args i opt} : ShortName table c i opt → nnHasArg opt.toNnOption = true →
      Cluster table [c] (v :: args) [⟨i, opt, [c], some v⟩] args

/-- What a word stands for. -/
inductive WordSpells (table : List CommandOption) :
    Word → List Word → List Setting → List Word → Prop
  | endOfOptions {args} : WordSpells table [dash, dash] args [] args
  | longFlag {arg args i opt} : arg ≠ [] → LongName table (namePart arg) i opt →
      nnHasArg opt.toNnOption = false →
      value arg = none →
        WordSpells table (dash :: dash :: arg) args [⟨i, opt, dash :: dash :: arg, none⟩] args
  | longValue {arg v args i opt} : LongName table (namePart arg) i opt →
      nnHasArg opt.toNnOption = true →
      value arg = some v →
        WordSpells table (dash :: dash :: arg) args [⟨i, opt, dash :: dash :: arg, some v⟩] args
  | longNext {arg v args i opt} : arg ≠ [] → LongName table (namePart arg) i opt →
      nnHasArg opt.toNnOption = true → value arg = none →
      WordSpells table (dash :: dash :: arg) (v :: args)
        [⟨i, opt, dash :: dash :: arg, some v⟩] args
  | cluster {data args ss args'} : data.head? ≠ some dash → Cluster table data args ss args' →
      WordSpells table (dash :: data) args ss args'

/-- What a command line stands for. -/
inductive Spells (table : List CommandOption) : List Word → List Setting → Prop
  | nil : Spells table [] []
  | cons {w ws ss ws' ss'} : WordSpells table w ws ss ws' → Spells table ws' ss' →
      Spells table (w :: ws) (ss ++ ss')

/-- The options that the name of the program stands for. -/
def arg0Settings (argv0 : Word) (table : List CommandOption) : List Setting :=
  (table.zipIdx.filter fun p => p.1.arg0name =
    some (argv0.reverse.takeWhile (· ≠ slash)).reverse).map
    fun p => ⟨p.2, p.1, argv0, none⟩

/-- The masks of some settings. -/
def provided (ss : List Setting) : ℕ := ss.foldr (fun x mask => x.opt.maskSet ||| mask) 0

/-- Store the arguments of some settings. -/
def stored {τ ε : Type} (store : CommandOption → Option Word → τ → Except ε τ) :
    List Setting → τ → Except ε τ
  | [], target => .ok target
  | x :: ss, target => do stored store ss (← store x.opt x.argument target)

/-- The settings are acceptable: none conflicts with an earlier one, and they provide what they and
the program require. -/
structure Acceptable (requires : ℕ) (ss : List Setting) : Prop where
  compatible : ss.Pairwise fun x y => x.opt.maskSet &&& y.opt.conflictsMask = 0
  requirements : ∀ x ∈ ss, x.opt.requiresMask &&& provided ss = x.opt.requiresMask
  required : requires &&& provided ss = requires

/-! ### Processing settings -/

section Apply

variable {τ ε : Type} {table : List CommandOption}
  {store : CommandOption → Option Word → τ → Except ε τ}
  {s s' : ParseState τ} {x : Setting} {ss : List Setting}

/-- Note where an option was read, and process it. -/
def Setting.apply (table : List CommandOption)
    (store : CommandOption → Option Word → τ → Except ε τ) (x : Setting) (s : ParseState τ) :
    Except (Stop ε) (ParseState τ) :=
  nnProcessOption table store (s.use x.index x.usage) x.index x.argument

/-- Process settings one after another. -/
def applyAll (table : List CommandOption) (store : CommandOption → Option Word → τ → Except ε τ) :
    List Setting → ParseState τ → Except (Stop ε) (ParseState τ)
  | [], s => .ok s
  | x :: ss, s => do applyAll table store ss (← x.apply table store s)

theorem applyAll_append (ss ss' : List Setting) (s : ParseState τ) :
    applyAll table store (ss ++ ss') s = applyAll table store ss s >>=
      applyAll table store ss' := by
  induction ss generalizing s with
  | nil => rfl
  | cons x ss ih =>
    rw [List.cons_append, applyAll, applyAll, bind_assoc]
    exact bind_congr fun s => ih s

/-- Where options were read. -/
def marks : List Setting → (ℕ → Option Word) → ℕ → Option Word
  | [], usage => usage
  | x :: ss, usage => marks ss (Function.update usage x.index (some x.usage))

theorem marks_ne_none (usage : ℕ → Option Word) (i : ℕ) :
    marks ss usage i ≠ none ↔ usage i ≠ none ∨ ∃ x ∈ ss, x.index = i := by
  induction ss generalizing usage with
  | nil => simp [marks]
  | cons x ss ih =>
    rw [marks, ih]
    by_cases hi : i = x.index
    · subst hi
      simp
    · rw [Function.update_of_ne hi]
      simp [Ne.symm hi]

@[simp] theorem provided_nil : provided [] = 0 := rfl

@[simp] theorem provided_cons (x : Setting) (ss : List Setting) :
    provided (x :: ss) = x.opt.maskSet ||| provided ss := rfl

/-- Masks that come together meet another one only if one of them does. -/
theorem or_and_eq_zero_iff (a b c : ℕ) : (a ||| b) &&& c = 0 ↔ a &&& c = 0 ∧ b &&& c = 0 := by
  rw [Nat.and_or_distrib_right, Nat.or_eq_zero_iff]

theorem Setting.apply_ok_iff (hx : table[x.index]? = some x.opt) :
    x.apply table store s = .ok s' ↔ s.mask &&& x.opt.conflictsMask = 0 ∧
      ∃ target, store x.opt x.argument s.target = .ok target ∧
        s' = ⟨Function.update s.lastOptionUsage x.index (some x.usage),
          s.mask ||| x.opt.maskSet, target⟩ := by
  rw [Setting.apply, nnProcessOption, hx]
  simp only [ParseState.use]
  by_cases hmask : s.mask &&& x.opt.conflictsMask = 0
  · cases hstore : store x.opt x.argument s.target <;> simp [hmask, eq_comm]
  · simp [hmask]

/-- When settings can be processed, and what comes of it. -/
theorem applyAll_ok_iff (hss : ∀ x ∈ ss, table[x.index]? = some x.opt) :
    applyAll table store ss s = .ok s' ↔
      (∀ x ∈ ss, s.mask &&& x.opt.conflictsMask = 0) ∧
      (ss.Pairwise fun x y => x.opt.maskSet &&& y.opt.conflictsMask = 0) ∧
      stored store ss s.target = .ok s'.target ∧ s'.mask = s.mask ||| provided ss ∧
      s'.lastOptionUsage = marks ss s.lastOptionUsage := by
  induction ss generalizing s with
  | nil =>
    cases s
    cases s'
    simp [applyAll, stored, marks]
    tauto
  | cons x ss ih =>
    rw [List.forall_mem_cons] at hss
    have hbind : applyAll table store (x :: ss) s = .ok s' ↔
        ∃ s₁, x.apply table store s = .ok s₁ ∧ applyAll table store ss s₁ = .ok s' := bind_eq_ok
    have hstored : stored store (x :: ss) s.target = .ok s'.target ↔
        ∃ target, store x.opt x.argument s.target = .ok target ∧
          stored store ss target = .ok s'.target := bind_eq_ok
    rw [hbind, hstored, List.forall_mem_cons, List.pairwise_cons, provided_cons,
      marks, ← Nat.or_assoc]
    constructor
    · rintro ⟨s₁, happly, hall⟩
      obtain ⟨hmask, target, hstore, rfl⟩ := (Setting.apply_ok_iff hss.1).1 happly
      obtain ⟨hmeet, hpair, hrest, hprovided, husage⟩ := (ih hss.2).1 hall
      exact ⟨⟨hmask, fun y hy => ((or_and_eq_zero_iff _ _ _).1 (hmeet y hy)).1⟩,
        ⟨fun y hy => ((or_and_eq_zero_iff _ _ _).1 (hmeet y hy)).2, hpair⟩, ⟨target, hstore, hrest⟩,
          hprovided, husage⟩
    · rintro ⟨⟨hmask, hmeet⟩, ⟨hfirst, hpair⟩, ⟨target, hstore, hrest⟩, hprovided, husage⟩
      refine ⟨_, (Setting.apply_ok_iff hss.1).2 ⟨hmask, target, hstore, rfl⟩, (ih hss.2).2
        ⟨fun y hy => (or_and_eq_zero_iff _ _ _).2 ⟨hmeet y hy, hfirst y hy⟩, hpair, hrest,
          hprovided, husage⟩⟩

theorem applyAll_singleton (x : Setting) (s : ParseState τ) :
    applyAll table store [x] s = x.apply table store s := by
  rw [applyAll]
  cases x.apply table store s <;> rfl

end Apply

/-! ### Reading words -/

section Read

variable {τ ε : Type} {table : List CommandOption}
  {store : CommandOption → Option Word → τ → Except ε τ}
  {s : ParseState τ} {r : List Word × ParseState τ} {c : UInt8} {data : Word}
    {args : List Word} {i : ℕ}
  {opt : CommandOption} {ss : List Setting}

theorem findShort_eq_some_iff : findShort table c = some i ↔ ∃ opt, ShortName table c i opt := by
  rw [findShort, List.findIdx?_eq_some_iff_getElem]
  constructor
  · rintro ⟨hlt, hi, hbefore⟩
    simp only [ne_eq, decide_eq_true_eq] at hi hbefore
    refine ⟨table[i], List.getElem?_eq_getElem hlt, hi.2 ▸ hi.1, hi.2, ?_⟩
    intro j hj o ho hc
    obtain ⟨hjlt, rfl⟩ := List.getElem?_eq_some_iff.1 ho
    exact hbefore j hj ⟨hc ▸ hi.2 ▸ hi.1, hc⟩
  · rintro ⟨opt, hget, hne, hname, hbefore⟩
    obtain ⟨hlt, rfl⟩ := List.getElem?_eq_some_iff.1 hget
    refine ⟨hlt, by simp [hname, hne], ?_⟩
    intro j hj
    have := hbefore j hj _ (List.getElem?_eq_getElem (hj.trans hlt))
    simp [this]

/-- A letter stands for one option at most. -/
theorem ShortName.unique {i' : ℕ} {opt' : CommandOption} (h : ShortName table c i opt)
    (h' : ShortName table c i' opt') : i' = i ∧ opt' = opt := by
  have hfind := findShort_eq_some_iff.2 ⟨opt, h⟩
  obtain rfl : i' = i := Option.some.inj ((findShort_eq_some_iff.2 ⟨opt', h'⟩).symm.trans hfind)
  exact ⟨rfl, Option.some.inj (h'.1.symm.trans h.1)⟩

/-- A call that takes some words and processes one setting. -/
theorem process_ok_iff (x : Setting) (args : List Word) :
    (do return (args, ← nnProcessOption table store (s.use x.index x.usage) x.index x.argument)) =
      Except.ok r ↔ r.1 = args ∧ applyAll table store [x] s = .ok r.2 := by
  rw [applyAll_singleton, Setting.apply]
  obtain ⟨args', s'⟩ := r
  cases nnProcessOption table store (s.use x.index x.usage) x.index x.argument <;> simp [eq_comm]

theorem parseShortOptions_ok_iff :
    parseShortOptions table store args data s = .ok r ↔
      ∃ ss, Cluster table data args ss r.1 ∧ applyAll table store ss s = .ok r.2 := by
  induction data generalizing s with
  | nil =>
    rw [parseShortOptions]
    constructor
    · rintro ⟨⟩
      exact ⟨[], .nil, rfl⟩
    · rintro ⟨ss, hcluster, hall⟩
      obtain ⟨args', s'⟩ := r
      cases hcluster
      cases hall
      rfl
  | cons c data ih =>
    rw [parseShortOptions]
    cases hfind : findShort table c with
    | none =>
      have hnone : ∀ i opt, ¬ ShortName table c i opt := fun i opt h =>
        Option.some_ne_none i ((findShort_eq_some_iff.2 ⟨opt, h⟩).symm.trans hfind)
      refine iff_of_false (by simp) ?_
      rintro ⟨ss, hcluster, -⟩
      cases hcluster with
      | flag h => exact hnone _ _ h
      | attached h => exact hnone _ _ h
      | next h => exact hnone _ _ h
    | some i =>
      obtain ⟨opt, hname⟩ := findShort_eq_some_iff.1 hfind
      simp only [hname.1]
      cases harg : nnHasArg opt.toNnOption with
      | true =>
        rw [if_pos rfl]
        have cluster_iff :
            (∃ ss, Cluster table (c :: data) args ss r.1 ∧ applyAll table store ss s = .ok r.2) ↔
            (data ≠ [] ∧ r.1 = args ∧
              applyAll table store [⟨i, opt, c :: data, some data⟩] s = .ok r.2) ∨
            ∃ v, data = [] ∧ args = v :: r.1 ∧
              applyAll table store [⟨i, opt, [c], some v⟩] s = .ok r.2 := by
          constructor
          · rintro ⟨ss, hcluster, hall⟩
            cases hcluster with
            | flag h hno =>
              obtain ⟨-, rfl⟩ := hname.unique h
              rw [harg] at hno
              cases hno
            | attached h _ hv =>
              obtain ⟨rfl, rfl⟩ := hname.unique h
              exact .inl ⟨hv, rfl, hall⟩
            | next h =>
              obtain ⟨rfl, rfl⟩ := hname.unique h
              exact .inr ⟨_, rfl, rfl, hall⟩
          · rintro (⟨hv, hargs, hall⟩ | ⟨v, rfl, rfl, hall⟩)
            · exact ⟨_, hargs ▸ .attached hname harg hv, hall⟩
            · exact ⟨_, .next hname harg, hall⟩
        rw [cluster_iff]
        cases data with
        | cons d data =>
          rw [process_ok_iff ⟨i, opt, c :: d :: data, some (d :: data)⟩]
          simp
        | nil =>
          cases args with
          | nil => simp
          | cons v args =>
            rw [process_ok_iff ⟨i, opt, [c], some v⟩]
            simp [eq_comm]
      | false =>
        rw [if_neg (by simp)]
        have hbind :
            (do
              parseShortOptions table store args data
                (← nnProcessOption table store (s.use i (c :: data)) i none)) =
              Except.ok r ↔ ∃ s₁, Setting.apply table store ⟨i, opt, c :: data, none⟩ s = .ok s₁ ∧
              parseShortOptions table store args data s₁ = .ok r := bind_eq_ok
        rw [hbind]
        constructor
        · rintro ⟨s₁, happly, hrest⟩
          obtain ⟨ss, hcluster, hall⟩ := ih.1 hrest
          exact ⟨_, .flag hname harg hcluster, bind_eq_ok.2 ⟨s₁, happly, hall⟩⟩
        · rintro ⟨ss, hcluster, hall⟩
          cases hcluster with
          | flag h _ hrest =>
            obtain ⟨rfl, rfl⟩ := hname.unique h
            obtain ⟨s₁, happly, hall⟩ := bind_eq_ok.1 hall
            exact ⟨s₁, happly, ih.2 ⟨_, hrest, hall⟩⟩
          | attached h hyes =>
            obtain ⟨-, rfl⟩ := hname.unique h
            rw [harg] at hyes
            cases hyes
          | next h hyes =>
            obtain ⟨-, rfl⟩ := hname.unique h
            rw [harg] at hyes
            cases hyes

/-- A name stands for one option of a table with distinct names. -/
theorem LongName.unique {name : Word} {i' : ℕ} {opt' : CommandOption}
    (h : (table.map (·.longname)).Nodup) (hname : LongName table name i opt)
    (hname' : LongName table name i' opt') : i' = i ∧ opt' = opt := by
  have hmap : ((table.map (·.toNnOption)).map (·.longname)).Nodup := by rwa [List.map_map]
  have hopt := Resolution.option.inj (hname.2.unique hmap hname'.2)
  have hi : i' = i := by
    have hget' : (table.map (·.toNnOption))[i']? = some opt'.toNnOption := by
      rw [List.getElem?_map, hname'.1, Option.map_some]
    have hget : (table.map (·.toNnOption))[i]? = some opt.toNnOption := by
      rw [List.getElem?_map, hname.1, Option.map_some]
    exact eq_of_getElem? hmap hget' hget (by rw [hopt])
  subst hi
  exact ⟨rfl, Option.some.inj (hname'.1.symm.trans hname.1)⟩

/-- A word that is a long option names an option. -/
theorem WordSpells.longName {arg : Word} {args' : List Word}
    (h : WordSpells table (dash :: dash :: arg) args ss args') (harg : arg ≠ []) :
    ∃ i opt, LongName table (namePart arg) i opt := by
  generalize hword : dash :: dash :: arg = word at h
  cases h with
  | endOfOptions =>
    simp only [List.cons.injEq, true_and] at hword
    exact absurd hword harg
  | longFlag _ hname =>
    simp only [List.cons.injEq, true_and] at hword
    exact ⟨_, _, hword ▸ hname⟩
  | longValue hname =>
    simp only [List.cons.injEq, true_and] at hword
    exact ⟨_, _, hword ▸ hname⟩
  | longNext _ hname =>
    simp only [List.cons.injEq, true_and] at hword
    exact ⟨_, _, hword ▸ hname⟩
  | cluster hhead =>
    simp only [List.cons.injEq, true_and] at hword
    subst hword
    exact absurd rfl hhead

/-- A long option that names an option stands for it, with the value or with the next word. -/
theorem spells_long_iff (h : (table.map (·.longname)).Nodup) {arg : Word} (harg : arg ≠ [])
    (hname : LongName table (namePart arg) i opt) :
    (∃ ss, WordSpells table (dash :: dash :: arg) args ss r.1 ∧
      applyAll table store ss s = .ok r.2) ↔
      ∃ argument, r.1 = (if nnHasArg opt.toNnOption ∧ value arg = none then args.tail else args) ∧
        (if nnHasArg opt.toNnOption then (value arg).or args.head? = argument ∧ argument ≠ none
          else value arg = none ∧ argument = none) ∧
        applyAll table store [⟨i, opt, dash :: dash :: arg, argument⟩] s = .ok r.2 := by
  constructor
  · rintro ⟨ss, hspells, hall⟩
    generalize hword : dash :: dash :: arg = word at hspells hall
    cases hspells with
    | endOfOptions =>
      simp only [List.cons.injEq, true_and] at hword
      exact absurd hword harg
    | longFlag _ hname' hno hvalue =>
      simp only [List.cons.injEq, true_and] at hword
      subst hword
      obtain ⟨rfl, rfl⟩ := hname.unique h hname'
      exact ⟨none, by simp [hno], by simp [hno, hvalue], hall⟩
    | @longValue _ v _ _ _ hname' hyes hvalue =>
      simp only [List.cons.injEq, true_and] at hword
      subst hword
      obtain ⟨rfl, rfl⟩ := hname.unique h hname'
      exact ⟨some v, by simp [hvalue], by simp [hyes, hvalue], hall⟩
    | @longNext _ v _ _ _ _ hname' hyes hvalue =>
      simp only [List.cons.injEq, true_and] at hword
      subst hword
      obtain ⟨rfl, rfl⟩ := hname.unique h hname'
      exact ⟨some v, by simp [hyes, hvalue], by simp [hyes, hvalue], hall⟩
    | cluster hhead =>
      simp only [List.cons.injEq, true_and] at hword
      subst hword
      exact absurd rfl hhead
  · rintro ⟨argument, hargs, hargument, hall⟩
    refine ⟨_, ?_, hall⟩
    cases hhas : nnHasArg opt.toNnOption with
    | false =>
      obtain ⟨hvalue, rfl⟩ : value arg = none ∧ argument = none := by simpa [hhas] using hargument
      obtain hargs : r.1 = args := by simpa [hhas] using hargs
      exact hargs ▸ .longFlag harg hname hhas hvalue
    | true =>
      obtain ⟨hvalue, hsome⟩ : (value arg).or args.head? = argument ∧ argument ≠ none := by
        simpa [hhas] using hargument
      cases hv : value arg with
      | some v =>
        obtain rfl : some v = argument := by simpa [hv] using hvalue
        obtain hargs : r.1 = args := by simpa [hv] using hargs
        exact hargs ▸ .longValue hname hhas hv
      | none =>
        obtain hargs : r.1 = args.tail := by simpa [hhas, hv] using hargs
        cases args with
        | nil =>
          subst hvalue
          simp [hv] at hsome
        | cons v args =>
          obtain rfl : some v = argument := by simpa [hv] using hvalue
          exact hargs ▸ .longNext harg hname hhas hv

/-- The call in which the search for a long option ends. -/
def longOutcome (k : ℕ) (opt : NnOption) (v next : Option Word) : Outcome ℕ :=
  if nnHasArg opt then
    if v.or next = none then .optionError "requires an argument" k else .process k (v.or next)
  else if v = none then .process k none
  else .optionError "does not accept argument" k

/-- The words that are left then. -/
def longRest (opt : NnOption) (v : Option Word) (args : List Word) : List Word :=
  if nnHasArg opt ∧ v = none then args.tail else args

theorem longOutcome_eq_process_iff {k j : ℕ} {o : NnOption} {v next argument : Option Word} :
    longOutcome k o v next = .process j argument ↔
      k = j ∧ if nnHasArg o then v.or next = argument ∧ argument ≠ none
        else v = none ∧ argument = none := by
  unfold longOutcome
  cases nnHasArg o with
  | false => by_cases hv : v = none <;> simp [hv, eq_comm]
  | true =>
    by_cases hv : v.or next = none
    · simp only [hv, if_true, reduceCtorEq, false_iff, not_and]
      rintro - rfl
      simp
    · simp only [hv, if_true, if_false, Outcome.process.injEq]
      refine and_congr_right fun _ => ?_
      constructor
      · rintro rfl
        exact ⟨rfl, hv⟩
      · exact And.left

theorem nnParseLongOption_run (ctx : ParseContext) {k : ℕ} {o : NnOption}
    (hget : ctx.options[k]? = some o)
    (hloop : searchLoop (ctx.data.drop 2) ctx.options 0 none 0 =
      (some k, (namePart (ctx.data.drop 2)).length)) :
    ∃ ctx', nnParseLongOption ctx =
      .ok (longOutcome k o (value (ctx.data.drop 2)) ctx.args.head?, ctx') ∧
      ctx'.args = longRest o (value (ctx.data.drop 2)) ctx.args ∧
      ctx'.lastOptionUsage = Function.update ctx.lastOptionUsage k (some ctx.data) := by
  have hoption : optionAt ctx.options k = .ok o := by
    obtain ⟨hlt, rfl⟩ := List.getElem?_eq_some_iff.1 hget
    exact dif_pos hlt
  obtain ⟨rest, harg, hrest⟩ := word_cases (ctx.data.drop 2)
  have hchar := charAt_append (namePart (ctx.data.drop 2)) rest
  have hdrop : (namePart (ctx.data.drop 2) ++ rest).drop ((namePart (ctx.data.drop 2)).length + 1) =
      rest.drop 1 :=
    List.drop_length_add_append 1
  rw [harg] at hchar hdrop
  let used : ParseContext :=
    { ctx with lastOptionUsage := Function.update ctx.lastOptionUsage k (some ctx.data) }
  simp only [nnParseLongOption, hloop, hoption, hchar, hdrop, ok_bind, pure_eq_ok]
  rcases hrest with ⟨rfl, hvalue⟩ | ⟨v, rfl, hvalue⟩
  · have hzero : (List.headD [] 0 : UInt8) ≠ equals := by decide
    rw [if_neg hzero, hvalue]
    cases hhas : nnHasArg o with
    | false => exact ⟨used, by simp [longOutcome, hhas, used], by simp [longRest, hhas, used], rfl⟩
    | true =>
      rw [if_pos rfl, nnGetArg]
      cases hargs : ctx.args with
      | nil => exact ⟨used, by simp [longOutcome, hhas, used, hargs], by simp [longRest,
          hargs, used], rfl⟩
      | cons next args =>
        exact ⟨{ used with args, data := next }, by simp [longOutcome, hhas,
          used], by simp [longRest, hhas], rfl⟩
  · rw [List.headD_cons, if_pos rfl, hvalue]
    cases hhas : nnHasArg o with
    | false => exact ⟨used, by simp [longOutcome, hhas, used], by simp [longRest, hhas, used], rfl⟩
    | true => exact ⟨used, by simp [longOutcome, hhas, used], by simp [longRest, used], rfl⟩

theorem parseLongOption_ok_iff (h : (table.map (·.longname)).Nodup) {arg : Word} (harg : arg ≠ []) :
    parseLongOption table store (dash :: dash :: arg) args s = .ok r ↔
      ∃ ss, WordSpells table (dash :: dash :: arg) args ss r.1 ∧
        applyAll table store ss s = .ok r.2 := by
  have hmap : ((table.map (·.toNnOption)).map (·.longname)).Nodup := by rwa [List.map_map]
  let ctx : ParseContext :=
    { options := table.map (·.toNnOption), args, data := dash :: dash :: arg,
      lastOptionUsage := s.lastOptionUsage }
  have hdata : ctx.data.drop 2 = arg := rfl
  rcases searchLoop_resolves hmap arg with ⟨k, o, hget, hloop, hres⟩ | ⟨n, hloop, hres⟩
  · obtain ⟨opt, hopt, rfl⟩ : ∃ opt, table[k]? = some opt ∧ opt.toNnOption = o := by
      rwa [List.getElem?_map, Option.map_eq_some_iff] at hget
    rw [spells_long_iff h harg ⟨hopt, hres⟩]
    obtain ⟨ctx', hrun, hargs, husage⟩ := nnParseLongOption_run ctx hget hloop
    have hlong : parseLongOption table store (dash :: dash :: arg) args s = .ok r ↔
        ∃ argument, longOutcome k opt.toNnOption (value arg) args.head? = .process k argument ∧
          r.1 = ctx'.args ∧
          applyAll table store [⟨k, opt, dash :: dash :: arg, argument⟩] s = .ok r.2 := by
      rw [parseLongOption, hrun]
      cases hout : longOutcome k opt.toNnOption (value (ctx.data.drop 2)) ctx.args.head? with
      | process j argument =>
        obtain rfl := (longOutcome_eq_process_iff.1 hout).1
        have huse :
            { s with lastOptionUsage := ctx'.lastOptionUsage } = s.use k (dash :: dash :: arg) := by
          rw [husage]
          rfl
        have hprocess :
            (do
              return (ctx'.args,
                ← nnProcessOption table store (s.use k (dash :: dash :: arg)) k argument)) =
              Except.ok r ↔ _ := process_ok_iff ⟨k, opt, dash :: dash :: arg, argument⟩ ctx'.args
        have hsame : longOutcome k opt.toNnOption (value arg) args.head? = .process k argument :=
          hout
        simp only [huse, hprocess, hsame, Outcome.process.injEq, true_and, exists_eq_left']
      | optionError message j =>
        have hsame : longOutcome k opt.toNnOption (value arg) args.head? = .optionError message j :=
          hout
        simp [hsame]
      | ambiguous =>
        have hsame : longOutcome k opt.toNnOption (value arg) args.head? = .ambiguous := hout
        simp [hsame]
      | unknown =>
        have hsame : longOutcome k opt.toNnOption (value arg) args.head? = .unknown := hout
        simp [hsame]
    rw [hlong, hargs]
    refine exists_congr fun argument => ?_
    rw [longOutcome_eq_process_iff]
    exact ⟨fun ⟨h1, h2, h3⟩ => ⟨h2, h1.2, h3⟩, fun ⟨h1, h2, h3⟩ => ⟨⟨rfl, h2⟩, h1, h3⟩⟩
  · have hctx : nnParseLongOption ctx = .ok (if 0 < n then .ambiguous else .unknown, ctx) := by
      rw [nnParseLongOption]
      simp only [hdata, ctx, hloop]
    refine iff_of_false ?_ ?_
    · rw [parseLongOption, hctx]
      split_ifs <;> simp
    · rintro ⟨ss, hspells, -⟩
      obtain ⟨i, opt, hname⟩ := hspells.longName harg
      have hsame := hname.2.unique hmap hres
      split_ifs at hsame

/-- The word `--` stands for nothing. -/
theorem spells_endOfOptions_iff {args' : List Word} :
    WordSpells table [dash, dash] args ss args' ↔ ss = [] ∧ args' = args := by
  constructor
  · intro h
    generalize hword : [dash, dash] = word at h
    cases h with
    | endOfOptions => exact ⟨rfl, rfl⟩
    | longFlag harg => simp [Ne.symm harg] at hword
    | longNext harg => simp [Ne.symm harg] at hword
    | @longValue arg _ _ _ _ _ _ hvalue =>
      obtain rfl : [] = arg := by simpa using hword
      cases hvalue
    | cluster hhead =>
      simp only [List.cons.injEq, true_and] at hword
      subst hword
      exact absurd rfl hhead
  · rintro ⟨rfl, rfl⟩
    exact .endOfOptions

theorem spells_cluster_iff {args' : List Word} (hhead : data.head? ≠ some dash) :
    WordSpells table (dash :: data) args ss args' ↔ Cluster table data args ss args' := by
  constructor
  · intro h
    cases h with
    | endOfOptions => exact absurd rfl hhead
    | longFlag => exact absurd rfl hhead
    | longValue => exact absurd rfl hhead
    | longNext => exact absurd rfl hhead
    | cluster _ hcluster => exact hcluster
  · exact .cluster hhead

theorem nnParseArg_ok_iff (h : (table.map (·.longname)).Nodup) :
    nnParseArg table store data args s = .ok r ↔
      ∃ ss, WordSpells table data args ss r.1 ∧ applyAll table store ss s = .ok r.2 := by
  have other : data.head? ≠ some dash →
      ¬ ∃ ss, WordSpells table data args ss r.1 ∧ applyAll table store ss s = .ok r.2 := by
    rintro hhead ⟨ss, hspells, -⟩
    cases hspells <;> exact hhead rfl
  by_cases hdash : data.head? = some dash
  · obtain ⟨data, rfl⟩ : ∃ rest, data = dash :: rest := List.head?_eq_some_iff.1 hdash
    rw [nnParseArg, if_pos hdash, List.tail_cons]
    by_cases hhead : data.head? = some dash
    · rw [if_pos hhead]
      obtain ⟨arg, rfl⟩ : ∃ arg, data = dash :: arg := List.head?_eq_some_iff.1 hhead
      by_cases harg : arg = []
      · subst harg
        obtain ⟨args', s'⟩ := r
        simp only [List.length_cons, List.length_nil, if_true, spells_endOfOptions_iff,
          and_assoc, exists_eq_left]
        simp [applyAll, eq_comm]
      · rw [if_neg (by simpa using harg)]
        exact parseLongOption_ok_iff h harg
    · rw [if_neg hhead, parseShortOptions_ok_iff]
      exact exists_congr fun ss => and_congr_left' (spells_cluster_iff hhead).symm
  · rw [nnParseArg, if_neg hdash]
    exact iff_of_false (by simp) (other hdash)

/-- A word does not add words. -/
theorem WordSpells.length_le {args' : List Word} (h : WordSpells table data args ss args') :
    args'.length ≤ args.length := by
  have cluster : ∀ {data args ss args'}, Cluster table data args ss args' →
      args'.length ≤ args.length := by
    intro data args ss args' h
    induction h with
    | nil => exact le_rfl
    | flag _ _ _ ih => exact ih
    | attached => exact le_rfl
    | next => exact Nat.le_succ _
  cases h with
  | cluster _ h => exact cluster h
  | longNext => exact Nat.le_succ _
  | endOfOptions | longFlag | longValue => exact le_rfl

theorem parseArgs_ok_iff (h : (table.map (·.longname)).Nodup) {n : ℕ} (hn : args.length ≤ n)
    {s' : ParseState τ} :
    parseArgs table store n args s = .ok s' ↔ ∃ ss, Spells table args ss ∧
      applyAll table store ss s = .ok s' := by
  induction n generalizing args s with
  | zero =>
    obtain rfl := List.length_eq_zero_iff.1 (Nat.le_zero.1 hn)
    rw [parseArgs]
    constructor
    · intro heq
      exact ⟨[], .nil, heq⟩
    · rintro ⟨ss, hspells, hall⟩
      cases hspells
      exact hall
  | succ n ih =>
    cases args with
    | nil =>
      rw [parseArgs]
      constructor
      · intro heq
        exact ⟨[], .nil, heq⟩
      · rintro ⟨ss, hspells, hall⟩
        cases hspells
        exact hall
    | cons data args =>
      have hbind : parseArgs table store (n + 1) (data :: args) s = .ok s' ↔
          ∃ r, nnParseArg table store data args s = .ok r ∧
            parseArgs table store n r.1 r.2 = .ok s' := bind_eq_ok
      have hlen : args.length ≤ n := Nat.le_of_succ_le_succ hn
      rw [hbind]
      constructor
      · rintro ⟨r, hr, hrest⟩
        obtain ⟨ss, hspells, hall⟩ := (nnParseArg_ok_iff h).1 hr
        obtain ⟨ss', hspells', hall'⟩ := (ih (hspells.length_le.trans hlen)).1 hrest
        refine ⟨ss ++ ss', .cons hspells hspells', ?_⟩
        rw [applyAll_append, hall]
        exact hall'
      · rintro ⟨_, hspells, hall⟩
        cases hspells with
        | @cons _ _ ss args' ss' hspells hspells' =>
          rw [applyAll_append] at hall
          obtain ⟨s₁, hall, hall'⟩ := bind_eq_ok.1 hall
          exact ⟨(args', s₁), (nnParseArg_ok_iff h).2 ⟨ss, hspells, hall⟩,
            (ih (hspells.length_le.trans hlen)).2 ⟨ss', hspells', hall'⟩⟩

/-- The settings of a command line are options of the table. -/
theorem WordSpells.mem_table {args' : List Word} (h : WordSpells table data args ss args') :
    ∀ x ∈ ss, table[x.index]? = some x.opt := by
  have cluster : ∀ {data args ss args'}, Cluster table data args ss args' →
      ∀ x ∈ ss, table[x.index]? = some x.opt := by
    intro data args ss args' h
    induction h with
    | nil => simp
    | flag hname _ _ ih => exact List.forall_mem_cons.2 ⟨hname.1, ih⟩
    | attached hname => exact List.forall_mem_singleton.2 hname.1
    | next hname => exact List.forall_mem_singleton.2 hname.1
  cases h with
  | endOfOptions => simp
  | longFlag _ hname => exact List.forall_mem_singleton.2 hname.1
  | longValue hname => exact List.forall_mem_singleton.2 hname.1
  | longNext _ hname => exact List.forall_mem_singleton.2 hname.1
  | cluster _ h => exact cluster h

theorem Spells.mem_table (h : Spells table args ss) : ∀ x ∈ ss, table[x.index]? = some x.opt := by
  induction h with
  | nil => simp
  | cons hword _ ih => exact List.forall_mem_append.2 ⟨hword.mem_table, ih⟩

theorem arg0Settings_mem_table (argv0 : Word) :
    ∀ x ∈ arg0Settings argv0 table, table[x.index]? = some x.opt := by
  intro x hx
  obtain ⟨p, hp, rfl⟩ := List.mem_map.1 hx
  exact List.mem_zipIdx_iff_getElem?.1 (List.mem_filter.1 hp).1

/-! ### The name of the program -/

theorem parseArg0From_eq (argv0 arg0 : Word) (options : List CommandOption) (i : ℕ)
    (s : ParseState τ)
    (h : ∀ opt ∈ options, opt.arg0name ≠ none → nnHasArg opt.toNnOption = false) :
    parseArg0From table store argv0 arg0 options i s =
      applyAll table store (((options.zipIdx i).filter fun p => p.1.arg0name = some arg0).map
        fun p => ⟨p.2, p.1, argv0, none⟩) s := by
  induction options generalizing i s with
  | nil => rfl
  | cons opt options ih =>
    rw [List.forall_mem_cons] at h
    rw [parseArg0From, List.zipIdx_cons]
    by_cases hname : opt.arg0name = some arg0
    · rw [if_pos hname, h.1 (by simp [hname]), if_neg (by simp),
        List.filter_cons_of_pos (by simpa using hname), List.map_cons, applyAll]
      exact bind_congr fun s => ih (i + 1) s h.2
    · rw [if_neg hname, List.filter_cons_of_neg (by simpa using hname)]
      exact ih (i + 1) s h.2

/-! ### Requirements -/

theorem nnCheckRequires_ok_iff {requires : ℕ} :
    (nnCheckRequires table requires s : Except (Stop ε) Unit) = .ok () ↔
      (∀ i opt, table[i]? = some opt → ¬ Lacks s opt i) ∧ requires &&& s.mask = requires := by
  rw [nnCheckRequires]
  cases hfind : table.zipIdx.find? fun p => Lacks s p.1 p.2 with
  | some p =>
    have hlacks : Lacks s p.1 p.2 := by simpa using List.find?_some hfind
    have hget := List.mem_zipIdx_iff_getElem?.1 (List.mem_of_find?_eq_some hfind)
    exact iff_of_false (by simp) fun h => h.1 _ _ hget hlacks
  | none =>
    have hnone : ∀ i opt, table[i]? = some opt → ¬ Lacks s opt i := by
      intro i opt hget
      simpa using List.find?_eq_none.1 hfind (opt, i) (List.mem_zipIdx_iff_getElem?.2 hget)
    rw [and_iff_right hnone]
    simp

/-- The options that were used are those of the settings. -/
theorem requirements_iff (hget : ∀ x ∈ ss, table[x.index]? = some x.opt)
    (husage : s.lastOptionUsage = marks ss fun _ => none) :
    (∀ i opt, table[i]? = some opt → ¬ Lacks s opt i) ↔
      ∀ x ∈ ss, x.opt.requiresMask &&& s.mask = x.opt.requiresMask := by
  have used_iff : ∀ i, s.lastOptionUsage i ≠ none ↔ ∃ x ∈ ss, x.index = i := by
    intro i
    rw [husage, marks_ne_none]
    simp
  constructor
  · intro h x hx
    by_contra hne
    have hzero : x.opt.requiresMask ≠ 0 := by
      intro hzero
      rw [hzero, Nat.zero_and] at hne
      exact hne rfl
    exact h x.index x.opt (hget x hx) ⟨(used_iff _).2 ⟨x, hx, rfl⟩, hzero, hne⟩
  · rintro h i opt hi ⟨hused, -, hne⟩
    obtain ⟨x, hx, rfl⟩ := (used_iff i).1 hused
    obtain rfl := Option.some.inj ((hget x hx).symm.trans hi)
    exact hne (h x hx)

/-- The parser processes the settings that the name of the program and the words stand for, and
checks what is required. -/
theorem nnParseOptions_run_iff (h : (table.map (·.longname)).Nodup)
    (harg0 : ∀ opt ∈ table, opt.arg0name ≠ none → nnHasArg opt.toNnOption = false) {requires : ℕ}
    {argv0 : Word} {target target' : τ} :
    (nnParseOptions table store requires argv0 args target : Except (Stop ε) τ) = .ok target' ↔
      ∃ ss s, Spells table args ss ∧
        applyAll table store (arg0Settings argv0 table ++ ss) ⟨fun _ => none, 0, target⟩ = .ok s ∧
        (nnCheckRequires table requires s : Except (Stop ε) Unit) = .ok () ∧
          s.target = target' := by
  rw [nnParseOptions, nnParseArg0, parseArg0From_eq _ _ _ _ _ harg0, bind_eq_ok]
  constructor
  · rintro ⟨s₁, hfirst, hrest⟩
    obtain ⟨s, hargs, hrest⟩ := bind_eq_ok.1 hrest
    obtain ⟨_, hcheck, heq⟩ := bind_eq_ok.1 hrest
    obtain ⟨ss, hspells, hall⟩ := (parseArgs_ok_iff h le_rfl).1 hargs
    refine ⟨ss, s, hspells, ?_, hcheck, Except.ok.inj heq⟩
    rw [applyAll_append]
    exact bind_eq_ok.2 ⟨s₁, hfirst, hall⟩
  · rintro ⟨ss, s, hspells, hall, hcheck, rfl⟩
    rw [applyAll_append] at hall
    obtain ⟨s₁, hfirst, hall⟩ := bind_eq_ok.1 hall
    exact ⟨s₁, hfirst, bind_eq_ok.2 ⟨s, (parseArgs_ok_iff h le_rfl).2 ⟨ss, hspells, hall⟩,
      bind_eq_ok.2 ⟨(), hcheck, rfl⟩⟩⟩

/-- A command line is accepted exactly if it spells settings that, behind those that the name of the
program stands for, do not conflict and provide what is required.  Their arguments are stored in the
order in which they are spelled. -/
theorem nnParseOptions_ok_iff (h : (table.map (·.longname)).Nodup)
    (harg0 : ∀ opt ∈ table, opt.arg0name ≠ none → nnHasArg opt.toNnOption = false) {requires : ℕ}
    {argv0 : Word} {target target' : τ} :
    (nnParseOptions table store requires argv0 args target : Except (Stop ε) τ) = .ok target' ↔
      ∃ ss, Spells table args ss ∧ Acceptable requires (arg0Settings argv0 table ++ ss) ∧
        stored store (arg0Settings argv0 table ++ ss) target = .ok target' := by
  rw [nnParseOptions_run_iff h harg0]
  constructor
  · rintro ⟨ss, s, hspells, hall, hcheck, rfl⟩
    have hget := List.forall_mem_append.2 ⟨arg0Settings_mem_table argv0, hspells.mem_table⟩
    obtain ⟨-, hpair, hstored, hmask, husage⟩ := (applyAll_ok_iff hget).1 hall
    obtain ⟨hlacks, hrequired⟩ := nnCheckRequires_ok_iff.1 hcheck
    have hprovided : s.mask = provided (arg0Settings argv0 table ++ ss) :=
      hmask.trans (Nat.zero_or _)
    rw [requirements_iff hget husage, hprovided] at hlacks
    exact ⟨ss, hspells, ⟨hpair, hlacks, hprovided ▸ hrequired⟩, hstored⟩
  · rintro ⟨ss, hspells, hacc, hstored⟩
    have hget := List.forall_mem_append.2 ⟨arg0Settings_mem_table argv0, hspells.mem_table⟩
    let s : ParseState τ :=
      ⟨marks (arg0Settings argv0 table ++ ss) fun _ => none,
        provided (arg0Settings argv0 table ++ ss), target'⟩
    have hall :
        applyAll table store (arg0Settings argv0 table ++ ss) ⟨fun _ => none, 0, target⟩ = .ok s :=
      (applyAll_ok_iff hget).2 ⟨fun x _ => Nat.zero_and _, hacc.compatible, hstored,
        (Nat.zero_or _).symm, rfl⟩
    have hlacks : ∀ i opt, table[i]? = some opt → ¬ Lacks s opt i :=
      (requirements_iff hget rfl).2 hacc.requirements
    exact ⟨ss, s, hspells, hall, nnCheckRequires_ok_iff.2 ⟨hlacks, hacc.required⟩, rfl⟩

/-- `--verbose` or `-v`, and `--bind` or `-b` with an address, which is required. -/
def verboseBind : List CommandOption :=
  [⟨⟨[0x76, 0x65, 0x72, 0x62, 0x6F, 0x73, 0x65], .increment⟩, 0x76, none, 0, 0, 0⟩,
    ⟨⟨[0x62, 0x69, 0x6E, 0x64], .listAppend⟩, 0x62, none, 1, 0, 0⟩]

/-- `-vvb ADDR --verb` is accepted, with four settings. -/
theorem nnParseOptions_ok_iff_cluster :
    (verboseBind.map (·.longname)).Nodup ∧
      (∀ opt ∈ verboseBind, opt.arg0name ≠ none → nnHasArg opt.toNnOption = false) ∧
      ∃ ss, Spells verboseBind [[dash, 0x76, 0x76, 0x62], [0x41],
        [dash, dash, 0x76, 0x65, 0x72, 0x62]] ss ∧
        Acceptable 1 (arg0Settings [0x6E] verboseBind ++ ss) ∧
        stored (fun _ argument target =>
          (.ok (target ++ [argument]) : Except Unit (List (Option Word))))
          (arg0Settings [0x6E] verboseBind ++ ss) [] = .ok [none, none, some [0x41], none] := by
  have hnames : (verboseBind.map (·.longname)).Nodup := by decide
  have harg0 : ∀ opt ∈ verboseBind, opt.arg0name ≠ none →
      nnHasArg opt.toNnOption = false := by decide
  exact ⟨hnames, harg0, (nnParseOptions_ok_iff hnames harg0).1 rfl⟩

end Read

end NanoSocket.Tools

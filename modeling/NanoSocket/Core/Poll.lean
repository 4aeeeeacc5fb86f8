import NanoSocket.Core.Fault

/-!
# Polling (`core/poll.c`)

`nn_poll` asks the operating system about up to two descriptors for each socket and reads the
answers back by counting along.  Every answer gets to the entry that it belongs to
(`readBack_spec`), but when no descriptor is ready the function returns before it has written to the
entries: `poll_consistent_iff`.
-/

namespace NanoSocket.Core.Poll

/-! ### The function -/

/-- The socket options with the descriptors of a socket. -/
inductive FdOption
  | rcvfd
  | sndfd
  deriving DecidableEq, Repr

/-- `NN_POLLIN` and `NN_POLLOUT`. -/
def FdOption.flag : FdOption → Int16
  | .rcvfd => 1
  | .sndfd => 2

/-- `POLLIN`. -/
def pollin : Int16 := 1

/-- `struct nn_pollfd`. -/
structure NnPollfd where
  fd : Int32
  events : Int16
  revents : Int16
  deriving DecidableEq, Repr

/-- `struct pollfd`. -/
structure Pollfd where
  fd : Int32
  events : Int16
  revents : Int16
  deriving DecidableEq, Repr

/-- What the operating system's `poll` does with a pollset: it fills in `revents` and returns the
number of the entries in which it is not 0, or fails. -/
structure IsPoll (poll : List Pollfd → ℤ × List Pollfd) : Prop where
  entries : ∀ pfd, (poll pfd).2.map (fun p => (p.fd, p.events)) = pfd.map fun p => (p.fd, p.events)
  count : ∀ pfd, 0 ≤ (poll pfd).1 → (poll pfd).1 = (poll pfd).2.countP (·.revents ≠ 0)

section Model

-- what `nn_getsockopt` has to say about the descriptors of a socket
variable (getFd : Int32 → FdOption → Option Int32)

/-- One descriptor of an entry is put into the pollset. -/
def fillOne (self : NnPollfd) (opt : FdOption) (pfd : List Pollfd) :
    Except Fault (Option (List Pollfd)) :=
  if self.events &&& opt.flag = 0 then .ok (some pfd)
  else
    match getFd self.fd opt with
    | none => .ok none
    | some fd =>
      -- `pos` is an `int`
      if pfd.length + 1 < 2 ^ 31 then .ok (some (pfd ++ [{ fd, events := pollin, revents := 0 }]))
        else .error .outOfBounds

/-- The first loop of `nn_poll`. -/
def fill : List NnPollfd → List Pollfd → Except Fault (Option (List Pollfd))
  | [], pfd => .ok (some pfd)
  | self :: fds, pfd => do
    match ← fillOne getFd self .rcvfd pfd with
    | none => return none
    | some pfd =>
      match ← fillOne getFd self .sndfd pfd with
      | none => return none
      | some pfd => fill fds pfd

/-- One answer is read; `pos` counts along. -/
def readOne (pfd : List Pollfd) (self : NnPollfd) (opt : FdOption) (revents : Int16) (pos : ℕ) :
    Except Fault (Int16 × ℕ) :=
  if self.events &&& opt.flag = 0 then .ok (revents, pos)
  else
    match pfd[pos]? with
    | none => .error .outOfBounds
    | some p => .ok (if p.revents &&& pollin = 0 then revents else revents ||| opt.flag, pos + 1)

/-- The second loop of `nn_poll`. -/
def readBack (pfd : List Pollfd) : List NnPollfd → ℕ → Except Fault (ℕ × List NnPollfd)
  | [], _ => .ok (0, [])
  | self :: fds, pos => do
    let (revents, pos) ← readOne pfd self .rcvfd 0 pos
    let (revents, pos) ← readOne pfd self .sndfd revents pos
    let (res, fds) ← readBack pfd fds pos
    return (if revents = 0 then res else res + 1, { self with revents } :: fds)

variable (poll : List Pollfd → ℤ × List Pollfd)

/-- `nn_poll`. -/
def nnPoll (fds : List NnPollfd) : Except Fault (ℤ × List NnPollfd) := do
  match ← fill getFd fds [] with
  | none => return (-1, fds)
  | some pfd =>
    let (rc, pfd) := poll pfd
    if rc ≤ 0 then return (rc, fds)
    let (res, fds) ← readBack pfd fds 0
    return (res, fds)

end Model

/-! ### What a result should be -/

/-- The number of descriptors of an entry that are asked about. -/
def asks (self : NnPollfd) : ℕ :=
  (if self.events &&& FdOption.rcvfd.flag = 0 then 0 else 1) +
    if self.events &&& FdOption.sndfd.flag = 0 then 0 else 1

def asked (fds : List NnPollfd) : ℕ := (fds.map asks).sum

/-- The place of a descriptor behind those of the entries before. -/
def place (self : NnPollfd) : FdOption → ℕ
  | .rcvfd => 0
  | .sndfd => if self.events &&& FdOption.rcvfd.flag = 0 then 0 else 1

/-- The pollset `pfd` says of the descriptors of an entry what the result `revents` says. -/
structure Reflects (getFd : Int32 → FdOption → Option Int32) (pfd : List Pollfd) (pos : ℕ)
    (self : NnPollfd) (revents : Int16) :
    Prop where
  subset : revents &&& self.events = revents
  ready : ∀ opt : FdOption, self.events &&& opt.flag ≠ 0 →
    ∃ p, pfd[pos + place self opt]? = some p ∧
    getFd self.fd opt = some p.fd ∧ (revents &&& opt.flag ≠ 0 ↔ p.revents &&& pollin ≠ 0)

/-- The entries that come back reflect the answers `pfd`, and `r` is the number of those with an
event. -/
structure Consistent (getFd : Int32 → FdOption → Option Int32) (pfd : List Pollfd)
    (fds out : List NnPollfd) (r : ℤ) : Prop where
  length : out.length = fds.length
  entry : ∀ i self self', fds[i]? = some self → out[i]? = some self' →
    self' = { self with revents := self'.revents } ∧
      Reflects getFd pfd (asked (fds.take i)) self self'.revents
  count : r = out.countP (·.revents ≠ 0)

/-- Whenever the call succeeds, its result is consistent. -/
def PollsConsistently (getFd : Int32 → FdOption → Option Int32)
    (poll : List Pollfd → ℤ × List Pollfd) (fds : List NnPollfd) :
    Prop :=
  ∀ r out, nnPoll getFd poll fds = .ok (r, out) → 0 ≤ r →
    ∃ pfd, fill getFd fds [] = .ok (some pfd) ∧ Consistent getFd (poll pfd).2 fds out r

/-! ### Flags -/

theorem toBitVec_flag (opt : FdOption) : ∃ k < 16, opt.flag.toBitVec = BitVec.twoPow 16 k := by
  cases opt with
  | rcvfd => exact ⟨0, by decide, by decide⟩
  | sndfd => exact ⟨1, by decide, by decide⟩

/-- A flag is one bit. -/
theorem and_flag (events : Int16) (opt : FdOption) :
    events &&& opt.flag = 0 ∨ events &&& opt.flag = opt.flag := by
  obtain ⟨k, -, hk⟩ := toBitVec_flag opt
  rw [← Int16.toBitVec_inj, ← Int16.toBitVec_inj, Int16.toBitVec_and, hk, BitVec.and_twoPow]
  split_ifs
  · exact Or.inr rfl
  · exact Or.inl rfl

theorem flag_and {events : Int16} {opt : FdOption} (h : events &&& opt.flag ≠ 0) :
    opt.flag &&& events = opt.flag := by
  rw [Int16.and_comm]
  exact (and_flag events opt).resolve_left h

/-- The events that are reported for an entry. -/
def reported (rcv snd : Bool) : Int16 :=
  (if rcv then FdOption.rcvfd.flag else 0) ||| if snd then FdOption.sndfd.flag else 0

theorem reported_subset {events : Int16} {rcv snd : Bool}
    (hrcv : rcv = true → events &&& FdOption.rcvfd.flag ≠ 0)
    (hsnd : snd = true → events &&& FdOption.sndfd.flag ≠ 0) :
    reported rcv snd &&& events = reported rcv snd := by
  have hdist (a b : Int16) : (a ||| b) &&& events = (a &&& events) ||| (b &&& events) := by
    rw [← Int16.toBitVec_inj]
    simp only [Int16.toBitVec_and, Int16.toBitVec_or]
    ext i
    simp [Bool.and_or_distrib_right]
  have hpart {b : Bool} {opt : FdOption} (h : b = true → events &&& opt.flag ≠ 0) :
      (if b then opt.flag else 0) &&& events = if b then opt.flag else 0 := by
    cases b with
    | false => exact Int16.zero_and
    | true => exact flag_and (h rfl)
  rw [reported, hdist, hpart hrcv, hpart hsnd]

theorem reported_and (rcv snd : Bool) (opt : FdOption) :
    reported rcv snd &&& opt.flag ≠ 0 ↔
      (match opt with | .rcvfd => rcv | .sndfd => snd) = true := by
  revert rcv snd
  cases opt <;> decide

/-! ### The first loop -/

section Fill

variable {getFd : Int32 → FdOption → Option Int32}

/-- What stands for an entry in the pollset. -/
theorem fillOne_spec {self : NnPollfd} {opt : FdOption} {pfd pfd' : List Pollfd}
    (h : fillOne getFd self opt pfd = .ok (some pfd')) :
    ∃ l, pfd' = pfd ++ l ∧ (self.events &&& opt.flag = 0 ∧ l = [] ∨
      self.events &&& opt.flag ≠ 0 ∧ ∃ p, l = [p] ∧ getFd self.fd opt = some p.fd) := by
  unfold fillOne at h
  by_cases hflag : self.events &&& opt.flag = 0
  · rw [if_pos hflag] at h
    cases h
    exact ⟨[], (List.append_nil _).symm, Or.inl ⟨hflag, rfl⟩⟩
  · rw [if_neg hflag] at h
    cases hfd : getFd self.fd opt with
    | none =>
      rw [hfd] at h
      cases h
    | some fd =>
      rw [hfd] at h
      dsimp only at h
      split_ifs at h
      cases h
      exact ⟨_, rfl, Or.inr ⟨hflag, _, rfl, rfl⟩⟩

/-- The places of an entry. -/
theorem entry_spec {self : NnPollfd} {pfd pfd' pfd'' : List Pollfd}
    (h : fillOne getFd self .rcvfd pfd = .ok (some pfd'))
    (h' : fillOne getFd self .sndfd pfd' = .ok (some pfd'')) :
    ∃ l, pfd'' = pfd ++ l ∧ l.length = asks self ∧
      ∀ opt : FdOption, self.events &&& opt.flag ≠ 0 → ∃ p, l[place self opt]? = some p ∧
        getFd self.fd opt = some p.fd := by
  obtain ⟨l, rfl, hl⟩ := fillOne_spec h
  obtain ⟨l', rfl, hl'⟩ := fillOne_spec h'
  refine ⟨l ++ l', List.append_assoc _ _ _, ?_, ?_⟩
  · rcases hl with ⟨hz, rfl⟩ | ⟨hnz, p, rfl, -⟩ <;> rcases hl' with
      ⟨hz', rfl⟩ | ⟨hnz', p', rfl, -⟩ <;> simp [asks, *]
  · intro opt hopt
    cases opt with
    | rcvfd =>
      obtain ⟨-, p, rfl, hp⟩ := hl.resolve_left fun hz => hopt hz.1
      exact ⟨p, rfl, hp⟩
    | sndfd =>
      obtain ⟨-, p', rfl, hp'⟩ := hl'.resolve_left fun hz => hopt hz.1
      refine ⟨p', ?_, hp'⟩
      rcases hl with ⟨hz, rfl⟩ | ⟨hnz, p, rfl, -⟩
      · simp [place, hz]
      · simp [place, hnz]

theorem fill_spec {fds : List NnPollfd} {pfd pfd' : List Pollfd}
    (h : fill getFd fds pfd = .ok (some pfd')) :
    ∃ l, pfd' = pfd ++ l ∧ l.length = asked fds ∧
      ∀ i self, fds[i]? = some self → ∀ opt : FdOption, self.events &&& opt.flag ≠ 0 →
        ∃ p, l[asked (fds.take i) + place self opt]? = some p ∧ getFd self.fd opt = some p.fd := by
  induction fds generalizing pfd with
  | nil =>
    cases h
    exact ⟨[], (List.append_nil _).symm, rfl, nofun⟩
  | cons self fds ih =>
    rw [fill] at h
    obtain ⟨r, hr, h⟩ := bind_eq_ok.1 h
    cases r with
    | none => cases h
    | some pfd₁ =>
      obtain ⟨r', hr', h⟩ := bind_eq_ok.1 h
      cases r' with
      | none => cases h
      | some pfd₂ =>
        obtain ⟨l, rfl, hlen, hplace⟩ := entry_spec hr hr'
        obtain ⟨l', rfl, hlen', hplace'⟩ := ih h
        refine ⟨l ++ l', List.append_assoc _ _ _, ?_, ?_⟩
        · rw [List.length_append, hlen, hlen']
          rfl
        · intro i self' hi opt hopt
          cases i with
          | zero =>
            cases hi
            obtain ⟨p, hp, hfd⟩ := hplace opt hopt
            refine ⟨p, ?_, hfd⟩
            obtain ⟨hlt, -⟩ := List.getElem?_eq_some_iff.1 hp
            rw [List.take_zero, asked, List.map_nil, List.sum_nil, Nat.zero_add,
              List.getElem?_append_left hlt, hp]
          | succ i =>
            obtain ⟨p, hp, hfd⟩ := hplace' i self' hi opt hopt
            refine ⟨p, ?_, hfd⟩
            have hasked : asked ((self :: fds).take (i + 1)) = l.length + asked (fds.take i) := by
              rw [hlen]
              rfl
            rw [hasked, Nat.add_assoc, List.getElem?_append_right (Nat.le_add_right _ _),
              Nat.add_sub_cancel_left, hp]

end Fill

/-! ### The second loop -/

section ReadBack

variable {pfd : List Pollfd} {pos : ℕ}

/-- The answer about one descriptor of an entry whose answers begin at `pos`. -/
def ready (pfd : List Pollfd) (pos : ℕ) (self : NnPollfd) (opt : FdOption) : Bool :=
  self.events &&& opt.flag ≠ 0 ∧ ∃ p ∈ pfd[pos + place self opt]?, p.revents &&& pollin ≠ 0

theorem readOne_spec {self : NnPollfd} {opt : FdOption} {revents : Int16}
    (h : self.events &&& opt.flag ≠ 0 → pos + place self opt < pfd.length) :
    readOne pfd self opt revents (pos + place self opt) =
      .ok (if ready pfd pos self opt then revents ||| opt.flag else revents,
        pos + place self opt + if self.events &&& opt.flag = 0 then 0 else 1) := by
  unfold readOne
  by_cases hflag : self.events &&& opt.flag = 0
  · have hready : ready pfd pos self opt = false := by simp [ready, hflag]
    rw [if_pos hflag, hready, if_pos hflag]
    rfl
  · obtain ⟨p, hp⟩ : ∃ p, pfd[pos + place self opt]? = some p :=
      ⟨_, List.getElem?_eq_getElem (h hflag)⟩
    have hready : ready pfd pos self opt = decide (p.revents &&& pollin ≠ 0) := by
      simp [ready, hp, hflag]
    rw [if_neg hflag, if_neg hflag, hp, hready]
    by_cases hin : p.revents &&& pollin = 0 <;> simp [hin]

/-- What comes back for an entry. -/
def answer (pfd : List Pollfd) (pos : ℕ) (self : NnPollfd) : NnPollfd :=
  { self with revents := reported (ready pfd pos self .rcvfd) (ready pfd pos self .sndfd) }

theorem readBack_cons {self : NnPollfd} {fds : List NnPollfd} (h : pos + asks self ≤ pfd.length) :
    readBack pfd (self :: fds) pos = readBack pfd fds (pos + asks self) >>= fun r =>
      .ok (if (answer pfd pos self).revents = 0 then r.1 else r.1 + 1,
        answer pfd pos self :: r.2) := by
  have hrcv : self.events &&& FdOption.rcvfd.flag ≠ 0 → pos + place self .rcvfd < pfd.length := by
    intro hflag
    rw [asks, if_neg hflag] at h
    rw [place]
    omega
  have hsnd : self.events &&& FdOption.sndfd.flag ≠ 0 → pos + place self .sndfd < pfd.length := by
    intro hflag
    rw [asks, if_neg hflag] at h
    rw [place]
    omega
  have hrcv' : readOne pfd self .rcvfd 0 pos =
      .ok (if ready pfd pos self .rcvfd then 0 ||| FdOption.rcvfd.flag else 0,
        pos + place self .sndfd) := readOne_spec hrcv
  have hnext : pos + place self .sndfd + (if self.events &&& FdOption.sndfd.flag = 0 then 0
      else 1) = pos + asks self :=
    Nat.add_assoc _ _ _
  have hreported : ∀ rcv snd : Bool,
      (if snd then (if rcv then 0 ||| FdOption.rcvfd.flag else 0) ||| FdOption.sndfd.flag
        else if rcv then 0 ||| FdOption.rcvfd.flag else 0) = reported rcv snd := by
    decide
  rw [readBack, hrcv', ok_bind]
  dsimp only
  rw [readOne_spec hsnd, ok_bind]
  dsimp only
  rw [hnext, hreported]
  rfl

/-- The loop reads the answers of an entry at its places. -/
theorem readBack_spec {fds : List NnPollfd} (h : pos + asked fds ≤ pfd.length) :
    ∃ res out, readBack pfd fds pos = .ok (res, out) ∧ out.length = fds.length ∧
      res = out.countP (·.revents ≠ 0) ∧
      ∀ i self self', fds[i]? = some self → out[i]? = some self' →
        self' = answer pfd (pos + asked (fds.take i)) self := by
  induction fds generalizing pos with
  | nil => exact ⟨0, [], rfl, rfl, rfl, nofun⟩
  | cons self fds ih =>
    have hasked : asked (self :: fds) = asks self + asked fds := rfl
    rw [hasked, ← Nat.add_assoc] at h
    obtain ⟨res, out, heq, hlen, hres, hentry⟩ := ih h
    have hcons : readBack pfd (self :: fds) pos = _ := readBack_cons (by omega)
    rw [heq, ok_bind] at hcons
    refine ⟨_, _, hcons, ?_, ?_, ?_⟩
    · rw [List.length_cons, List.length_cons, hlen]
    · rw [List.countP_cons, ← hres]
      simp only [decide_eq_true_eq, ite_not]
      split_ifs <;> rfl
    · intro i self₁ self₂ hi hi'
      cases i with
      | zero =>
        cases hi
        cases hi'
        rfl
      | succ i =>
        rw [hentry i self₁ self₂ hi hi', Nat.add_assoc]
        rfl

/-- The answers come back to the entry that asked. -/
theorem reflects_answer {getFd : Int32 → FdOption → Option Int32} {self : NnPollfd}
    (h : ∀ opt : FdOption, self.events &&& opt.flag ≠ 0 → ∃ p, pfd[pos + place self opt]? = some p ∧
      getFd self.fd opt = some p.fd) :
    Reflects getFd pfd pos self (answer pfd pos self).revents := by
  have hmem {opt : FdOption} (hready : ready pfd pos self opt = true) :
      self.events &&& opt.flag ≠ 0 :=
    (of_decide_eq_true hready).1
  refine ⟨reported_subset hmem hmem, fun opt hopt => ?_⟩
  obtain ⟨p, hp, hfd⟩ := h opt hopt
  have hready : ready pfd pos self opt = true ↔ p.revents &&& pollin ≠ 0 := by
    simp [ready, hp, hopt]
  refine ⟨p, hp, hfd, (reported_and _ _ opt).trans (Iff.trans ?_ hready)⟩
  cases opt <;> rfl

end ReadBack

section Poll

variable {getFd : Int32 → FdOption → Option Int32} {poll : List Pollfd → ℤ × List Pollfd}

/-- What the operating system knows of a place does not change. -/
theorem IsPoll.fd (h : IsPoll poll) {pfd : List Pollfd} {k : ℕ} {p : Pollfd}
    (hp : pfd[k]? = some p) :
    ∃ p', (poll pfd).2[k]? = some p' ∧ p'.fd = p.fd := by
  have hmap := congrArg (·[k]?) (h.entries pfd)
  simp only [List.getElem?_map, hp, Option.map_some] at hmap
  obtain ⟨p', hp', heq⟩ := Option.map_eq_some_iff.1 hmap
  exact ⟨p', hp', congrArg Prod.fst heq⟩

theorem IsPoll.length (h : IsPoll poll) (pfd : List Pollfd) : (poll pfd).2.length = pfd.length := by
  have hlen := congrArg List.length (h.entries pfd)
  rwa [List.length_map, List.length_map] at hlen

/-- Nothing is ready when the operating system says so. -/
theorem IsPoll.idle (h : IsPoll poll) {pfd : List Pollfd} (hrc : (poll pfd).1 = 0) {k : ℕ}
    {p : Pollfd} (hp : (poll pfd).2[k]? = some p) : p.revents = 0 := by
  have hcount := h.count pfd hrc.ge
  rw [hrc] at hcount
  have hnone := List.countP_eq_zero.1 (Int.ofNat_eq_zero.1 hcount.symm) p (List.mem_of_getElem? hp)
  simpa using hnone

/-- The pollset that was filled in knows every descriptor of an entry by its place. -/
theorem places (h : IsPoll poll) {fds : List NnPollfd} {pfd : List Pollfd}
    (hfill : fill getFd fds [] = .ok (some pfd)) :
    asked fds = (poll pfd).2.length ∧
      ∀ i self, fds[i]? = some self → ∀ opt : FdOption, self.events &&& opt.flag ≠ 0 →
        ∃ p, (poll pfd).2[asked (fds.take i) + place self opt]? = some p ∧
          getFd self.fd opt = some p.fd := by
  obtain ⟨l, rfl, hlen, hplace⟩ := fill_spec hfill
  refine ⟨?_, fun i self hi opt hopt => ?_⟩
  · rw [h.length]
    exact hlen.symm
  · obtain ⟨p, hp, hfd⟩ := hplace i self hi opt hopt
    obtain ⟨p', hp', heq⟩ := h.fd hp
    exact ⟨p', hp', hfd.trans (congrArg some heq.symm)⟩

theorem nnPoll_of_fill {fds : List NnPollfd} {pfd : List Pollfd}
    (hfill : fill getFd fds [] = .ok (some pfd)) :
    nnPoll getFd poll fds =
      if (poll pfd).1 ≤ 0 then .ok ((poll pfd).1, fds)
      else readBack (poll pfd).2 fds 0 >>= fun r => .ok ((r.1 : ℤ), r.2) := by
  unfold nnPoll
  rw [hfill, ok_bind]
  dsimp only
  split_ifs <;> rfl

/-- A call that finds something ready is consistent. -/
theorem consistent_of_pos (h : IsPoll poll) {fds : List NnPollfd} {pfd : List Pollfd}
    (hfill : fill getFd fds [] = .ok (some pfd)) (hpos : 0 < (poll pfd).1) :
    ∃ res out, nnPoll getFd poll fds = .ok (res, out) ∧
      Consistent getFd (poll pfd).2 fds out res := by
  obtain ⟨hlen, hplace⟩ := places h hfill
  obtain ⟨res, out, heq, hlen', hres, hentry⟩ := @readBack_spec (poll pfd).2 0 fds (by omega)
  refine ⟨res, out, ?_, hlen', fun i self self' hi hi' => ?_, congrArg Nat.cast hres⟩
  · rw [nnPoll_of_fill hfill, if_neg (by omega), heq]
    rfl
  · have hself := hentry i self self' hi hi'
    rw [Nat.zero_add] at hself
    rw [hself]
    exact ⟨rfl, reflects_answer (hplace i self hi)⟩

/-- A call that finds nothing ready leaves the entries as they are. -/
theorem consistent_idle_iff (h : IsPoll poll) {fds : List NnPollfd} {pfd : List Pollfd}
    (hfill : fill getFd fds [] = .ok (some pfd)) (hrc : (poll pfd).1 = 0) :
    Consistent getFd (poll pfd).2 fds fds 0 ↔ ∀ self ∈ fds, self.revents = 0 := by
  constructor
  · intro hc self hself
    have hcount := List.countP_eq_zero.1 (Int.ofNat_eq_zero.1 hc.count.symm) self hself
    simpa using hcount
  · intro hzero
    have hcount : fds.countP (·.revents ≠ 0) = 0 := by
      rw [List.countP_eq_zero]
      intro self hself
      simp [hzero self hself]
    refine ⟨rfl, fun i self self' hi hi' => ?_, by rw [hcount]; rfl⟩
    cases hi.symm.trans hi'
    refine ⟨rfl, ?_, fun opt hopt => ?_⟩
    · rw [hzero self (List.mem_of_getElem? hi)]
      exact Int16.zero_and
    · obtain ⟨p, hp, hfd⟩ := (places h hfill).2 i self hi opt hopt
      refine ⟨p, hp, hfd, ?_⟩
      rw [hzero self (List.mem_of_getElem? hi), h.idle hrc hp, Int16.zero_and, Int16.zero_and]

end Poll

/-- The results of a call are consistent exactly if the operating system does not report that
nothing is ready, or no entry came with an event. -/
theorem poll_consistent_iff (getFd : Int32 → FdOption → Option Int32)
    {poll : List Pollfd → ℤ × List Pollfd} (h : IsPoll poll) (fds : List NnPollfd) :
    PollsConsistently getFd poll fds ↔
      ∀ pfd, fill getFd fds [] = .ok (some pfd) → (poll pfd).1 = 0 →
        ∀ self ∈ fds, self.revents = 0 := by
  constructor
  · intro hc pfd hfill hrc
    have heq : nnPoll getFd poll fds = _ := nnPoll_of_fill hfill
    rw [if_pos hrc.le, hrc] at heq
    obtain ⟨pfd', hfill', hc'⟩ := hc 0 fds heq le_rfl
    cases hfill.symm.trans hfill'
    exact (consistent_idle_iff h hfill hrc).1 hc'
  · intro hzero r out heq hr
    cases hfill : fill getFd fds [] with
    | error f =>
      unfold nnPoll at heq
      rw [hfill] at heq
      cases heq
    | ok filled =>
      cases filled with
      | none =>
        unfold nnPoll at heq
        rw [hfill] at heq
        cases heq
        omega
      | some pfd =>
        refine ⟨pfd, rfl, ?_⟩
        rcases lt_trichotomy (poll pfd).1 0 with hneg | hrc | hpos
        · rw [nnPoll_of_fill hfill, if_pos hneg.le] at heq
          cases heq
          omega
        · rw [nnPoll_of_fill hfill, if_pos hrc.le] at heq
          cases heq
          rw [hrc]
          exact (consistent_idle_iff h hfill hrc).2 (hzero pfd hfill hrc)
        · obtain ⟨res, out', heq', hc⟩ := consistent_of_pos h hfill hpos
          rw [heq] at heq'
          cases heq'
          exact hc

/-- An operating system that answers for each descriptor what it is ready for. -/
def pollReady (ready : Int32 → Int16) (pfd : List Pollfd) : ℤ × List Pollfd :=
  (pfd.countP fun p => ready p.fd ≠ 0, pfd.map fun p => { p with revents := ready p.fd })

theorem pollReady_isPoll (ready : Int32 → Int16) : IsPoll (pollReady ready) := by
  constructor
  · intro pfd
    rw [pollReady, List.map_map]
    rfl
  · intro pfd _
    rw [pollReady, List.countP_map]
    rfl

/-- Every socket has a descriptor for each direction. -/
def pairFd (s : Int32) : FdOption → Option Int32
  | .rcvfd => some (2 * s)
  | .sndfd => some (2 * s + 1)

/-- Entries with one event, none and two; the first two come with what an earlier call has found. -/
def mixedFds : List NnPollfd :=
  [{ fd := 0, events := 1, revents := 1 }, { fd := 1, events := 0, revents := 3 },
    { fd := 2, events := 3, revents := 0 }]

/-- The last socket can be written to, and nothing else is ready. -/
theorem poll_consistent_iff_mixed :
    PollsConsistently pairFd (pollReady fun fd => if fd = 5 then pollin else 0) mixedFds ∧
      ∃ pfd, Consistent pairFd pfd mixedFds
        [{ fd := 0, events := 1, revents := 0 }, { fd := 1, events := 0, revents := 0 },
          { fd := 2, events := 3, revents := 2 }]
        1 := by
  have hpoll :
      PollsConsistently pairFd (pollReady fun fd => if fd = 5 then pollin else 0) mixedFds := by
    refine (poll_consistent_iff pairFd (pollReady_isPoll _) _).2 fun pfd hfill hrc => ?_
    cases hfill
    exact absurd hrc (by decide)
  obtain ⟨pfd, -, hc⟩ := hpoll 1 _ rfl (by decide)
  exact ⟨hpoll, _, hc⟩

/-- Nothing is ready, and the event of an earlier call stays. -/
theorem stale_revents :
    IsPoll (pollReady fun _ => 0) ∧
      ¬ PollsConsistently (fun _ _ => some 7) (pollReady fun _ => 0)
        [{ fd := 0, events := 1, revents := 1 }] := by
  refine ⟨pollReady_isPoll _, fun h => ?_⟩
  obtain ⟨pfd, -, hc⟩ := h 0 _ rfl le_rfl
  exact absurd hc.count (by decide)

end NanoSocket.Core.Poll

import NanoSocket.Core.GlobalTable

/-!
# Descriptors and holds over whole runs

`Global.TableInv` is about the table between two actions and `SocketInv` about one socket: its holds
are the calls that use it, and one more as long as it is active; from the stop on there is one
thread in the second half of `nn_close`.  Both are kept by every action, and none of them fails.

`socket_table` is about the table and `socket_holds` about the sockets.
-/

namespace NanoSocket

open Runs

variable {nnMaxSockets : ℕ}

/-! ### The table between two actions -/

/-- The socket of a descriptor. -/
def Global.sockAt (self : Global) (s : ℤ) : Option ℕ :=
  if s < 0 then none else self.table.bind fun tb => tb.socks[s.toNat]?.join

/-- The table exists as long as there are sockets. -/
structure Global.TableInv (nnMaxSockets : ℕ) (g : Global) : Prop where
  fresh : ∀ p, g.next ≤ p → g.heap p = none
  closed : g.table = none → g.nsocks = 0 ∧ ∀ p, g.heap p = none
  wf : ∀ tb, g.table = some tb → 0 < g.nsocks ∧ tb.Wf nnMaxSockets g.nsocks g.heap

namespace Global

variable {self self' : Global} {tb : SockTable} {p : ℕ} {s : ℤ}

theorem sockAt_natCast (htb : self.table = some tb) (s : ℕ) :
    self.sockAt s = tb.socks[s]?.join := by
  simp [sockAt, htb]

theorem sockAt_eq_some (htb : self.table = some tb) :
    self.sockAt s = some p ↔ ∃ n : ℕ, s = n ∧ tb.socks[n]? = some (some p) := by
  constructor
  · intro h
    rw [sockAt, htb] at h
    split_ifs at h with hs
    refine ⟨s.toNat, by omega, ?_⟩
    simpa [Option.join_eq_some_iff] using h
  · rintro ⟨n, rfl, hn⟩
    rw [sockAt_natCast htb, hn]
    rfl

theorem sockAt_update (htb : self.table = some tb) {n : ℕ} (hn : n < tb.socks.length) {a : Option ℕ}
    {tb' : SockTable} (htb' : self'.table = some tb') (hsocks : tb'.socks = tb.socks.set n a) :
    self'.sockAt = Function.update self.sockAt n a := by
  funext s
  by_cases hs : s = n
  · subst hs
    rw [sockAt_natCast htb', Function.update_self, hsocks]
    simp [hn]
  · rw [Function.update_of_ne hs, sockAt, sockAt, htb, htb']
    split_ifs with hneg
    · rfl
    · simp only [Option.bind_some, hsocks, List.getElem?_set_ne (show n ≠ s.toNat by omega)]

/-- The sockets that descriptors map to are allocated. -/
theorem TableInv.live (h : self.TableInv nnMaxSockets) (hs : self.sockAt s = some p) :
    ∃ tb n, self.table = some tb ∧ s = (n : ℕ) ∧ n < nnMaxSockets ∧ tb.socks[n]? = some (some p) ∧
      ∃ sock, self.heap p = some sock := by
  cases htb : self.table with
  | none => simp [sockAt, htb] at hs
  | some tb =>
    obtain ⟨-, hwf⟩ := h.wf tb htb
    obtain ⟨n, hn, hget⟩ := (sockAt_eq_some htb).1 hs
    obtain ⟨hlt, -⟩ := List.getElem?_eq_some_iff.1 hget
    exact ⟨tb, n, rfl, hn, hwf.socks_length ▸ hlt, hget,
      Option.isSome_iff_exists.1 ((hwf.live p).2 ⟨n, hget⟩)⟩

/-- An allocated socket changes. -/
theorem TableInv.modify (h : self.TableInv nnMaxSockets) {sock : Sock}
    (hp : self.heap p = some sock) (sock' : Sock) :
    ({ self with heap := Function.update self.heap p (some sock') } : Global).TableInv
      nnMaxSockets := by
  have hlive : ∀ q, (Function.update self.heap p (some sock') q).isSome ↔ (self.heap q).isSome := by
    intro q
    by_cases hq : q = p
    · subst hq
      simp [hp]
    · rw [Function.update_of_ne hq]
  refine ⟨fun q hq => ?_, fun htb => ?_, fun tb htb => ?_⟩
  · rw [← Option.not_isSome_iff_eq_none, hlive, Option.not_isSome_iff_eq_none]
    exact h.fresh q hq
  · have := (h.closed htb).2 p
    cases this.symm.trans hp
  · exact ⟨(h.wf tb htb).1, (h.wf tb htb).2.congr hlive⟩

/-! ### The functions of `global.c` -/

/-- What a socket that was opened looks like in the table. -/
structure Opened (nnMaxSockets : ℕ) (g : Global) (s : ℕ) (g' : Global) : Prop where
  lt : s < nnMaxSockets
  free : g.sockAt s = none
  sockAt : g'.sockAt = Function.update g.sockAt s (some g.next)
  heap : g'.heap = Function.update g.heap g.next (some nnSockInit)
  next : g'.next = g.next + 1
  inv : g'.TableInv nnMaxSockets

/-- `nn_global_create_socket` fails and changes nothing, or opens a socket. -/
theorem nnGlobalCreateSocket_spec (htb : self.table = some tb)
    (h : tb.Wf nnMaxSockets self.nsocks self.heap) (hnext : ∀ p, self.next ≤ p → self.heap p = none)
    (domain protocol : ℤ) (alloc : Bool) (init : Option ℕ) :
    (∃ e, nnGlobalCreateSocket nnMaxSockets self domain protocol alloc init =
      .ok (.error e, self)) ∨
      ∃ s self', nnGlobalCreateSocket nnMaxSockets self domain protocol alloc init =
        .ok (.ok s, self') ∧ Opened nnMaxSockets self s self' := by
  unfold nnGlobalCreateSocket
  by_cases hdomain : domain ≠ afSp ∧ domain ≠ afSpRaw
  · exact .inl ⟨.eafnosupport, by rw [if_pos hdomain]; rfl⟩
  rw [if_neg hdomain]
  by_cases hmax : self.nsocks ≥ nnMaxSockets
  · exact .inl ⟨.emfile, by rw [if_pos hmax]; rfl⟩
  rw [if_neg hmax]
  have hlt : self.nsocks < nnMaxSockets := by omega
  obtain ⟨s, hs, -⟩ := h.top hlt
  obtain ⟨hfree, hwf⟩ := h.alloc hlt hs (hnext self.next le_rfl) nnSockInit
  obtain ⟨hslt, -⟩ := List.getElem?_eq_some_iff.1 hfree
  have hidx :
      (nnMaxSockets - self.nsocks - 1 : ℤ) = ((nnMaxSockets - self.nsocks - 1 : ℕ) : ℤ) := by omega
  simp only [htb, hidx, getAt_natCast hs, ok_bind]
  by_cases htype : ¬ (nnSocktypes.any fun t => t.1 = domain ∧ (t.2.protocol : ℤ) = protocol) = true
  · exact .inl ⟨.einval, by rw [if_pos htype]; rfl⟩
  rw [if_neg htype]
  by_cases halloc : (!alloc) = true
  · exact .inl ⟨.enomem, by rw [if_pos halloc]; rfl⟩
  rw [if_neg halloc]
  cases init with
  | some errnum => exact .inl ⟨.init errnum, rfl⟩
  | none =>
    simp only [setAt_natCast hslt, ok_bind]
    refine .inr ⟨s.toNat, _, rfl, h.socks_length ▸ hslt, ?_,
      sockAt_update htb hslt rfl rfl, rfl, rfl, ?_⟩
    · rw [sockAt_natCast htb, hfree]
      rfl
    refine ⟨fun p hp => ?_, nofun, ?_⟩
    · have hp : self.next + 1 ≤ p := hp
      exact (Function.update_of_ne (by omega) _ _).trans (hnext p (by omega))
    · rintro tb' ⟨⟩
      exact ⟨Nat.succ_pos _, hwf⟩

/-- `nn_socket` fails and changes nothing, or opens a socket. -/
theorem TableInv.nnSocket (h : self.TableInv nnMaxSockets) (hmax : nnMaxSockets ≤ 0x10000)
    (domain protocol : ℤ) (alloc : Bool) (init : Option ℕ) :
    (∃ e, nnSocket nnMaxSockets self domain protocol alloc init = .ok (.error e, self)) ∨
      ∃ s self', nnSocket nnMaxSockets self domain protocol alloc init = .ok (.ok s, self') ∧
        Opened nnMaxSockets self s self' := by
  unfold NanoSocket.nnSocket
  cases hflags : self.flags with
  | true => exact .inl ⟨.eterm, rfl⟩
  | false =>
    simp only [Bool.false_eq_true, if_false]
    cases htb : self.table with
    | some tb =>
      obtain ⟨hpos, hwf⟩ := h.wf tb htb
      have hinit : nnGlobalInit nnMaxSockets self = self := by simp [nnGlobalInit, htb]
      have hterm : nnGlobalTerm self = .ok self := by
        simp [nnGlobalTerm, htb, hpos, nnAssert, pure, Except.pure]
      rw [hinit]
      rcases nnGlobalCreateSocket_spec htb hwf h.fresh domain protocol alloc init with
        ⟨e, heq⟩ | ⟨s, self', heq, hopen⟩
      · exact .inl ⟨e, by rw [heq]; simp [ok_bind, hterm, pure, Except.pure]⟩
      · exact .inr ⟨s, self', by rw [heq]; rfl, hopen⟩
    | none =>
      obtain ⟨hnsocks, hheap⟩ := h.closed htb
      have hwf := SockTable.Wf.init hmax hheap
      set tb₀ : SockTable := ⟨_, _⟩ with htb₀
      have hinit : nnGlobalInit nnMaxSockets self = { self with nsocks := 0, flags := false,
                                                                table := some tb₀ } := by
        simp only [nnGlobalInit, htb, htb₀]
      -- with no socket the table is freed again
      have hterm :
          nnGlobalTerm { self with nsocks := 0, flags := false, table := some tb₀ } = .ok self := by
        obtain ⟨table, nsocks, flags, heap, next⟩ := self
        subst hflags htb hnsocks
        rfl
      have hsockAt :
          ({ self with nsocks := 0, flags := false, table := some tb₀ } : Global).sockAt =
          self.sockAt := by
        funext s
        simp only [sockAt, htb, htb₀, Option.bind_some, Option.bind_none, List.getElem?_replicate]
        split_ifs <;> rfl
      rw [hinit]
      have htb₁ : ({ self with nsocks := 0, flags := false, table := some tb₀ } : Global).table =
          some tb₀ := rfl
      rcases nnGlobalCreateSocket_spec htb₁ hwf h.fresh domain protocol alloc init with
        ⟨e, heq⟩ | ⟨s, self', heq, hopen⟩
      · exact .inl ⟨e, by rw [heq]; simp only [ok_bind, hterm, pure_eq_ok]⟩
      · refine .inr ⟨s, self', by rw [heq]; rfl, hopen.lt, ?_, ?_, hopen.heap,
          hopen.next, hopen.inv⟩
        · rw [← hsockAt]
          exact hopen.free
        · rw [← hsockAt]
          exact hopen.sockAt

/-- `nn_global_hold_socket_locked` takes a hold of a socket that lets it. -/
theorem TableInv.hold (h : self.TableInv nnMaxSockets) (s : ℤ) :
    nnGlobalHoldSocket nnMaxSockets self s = .ok
      (match self.sockAt s with
      | none => (none, self)
      | some p =>
        match (self.heap p).bind nnSockHold with
        | none => (none, self)
        | some sock => (some p,
            { self with heap := Function.update self.heap p (some sock) })) := by
  unfold nnGlobalHoldSocket
  cases hs : self.sockAt s with
  | some p =>
    obtain ⟨tb, n, htb, rfl, hn, hget, sock, hsock⟩ := h.live hs
    rw [if_neg (by omega)]
    simp only [htb, getAt_natCast hget, hsock, ok_bind, Option.bind_some]
    cases nnSockHold sock <;> rfl
  | none =>
    split_ifs with hrange
    · rfl
    cases htb : self.table with
    | none => rfl
    | some tb =>
      obtain ⟨n, rfl⟩ := Int.eq_ofNat_of_zero_le (show 0 ≤ s by omega)
      have hlt : n < tb.socks.length := by
        rw [(h.wf tb htb).2.socks_length]
        omega
      rw [sockAt_natCast htb, List.getElem?_eq_getElem hlt] at hs
      have hget : tb.socks[n]? = some none := by
        rw [List.getElem?_eq_getElem hlt]
        exact congrArg some hs
      simp only [getAt_natCast hget, ok_bind]
      rfl

/-- `nn_close` gives the descriptor back. -/
theorem TableInv.free (h : self.TableInv nnMaxSockets) (hmax : nnMaxSockets ≤ 0x10000)
    (hs : self.sockAt s = some p) :
    ∃ self', nnCloseFree nnMaxSockets self s p = .ok self' ∧ self'.TableInv nnMaxSockets ∧
      self'.sockAt = Function.update self.sockAt s none ∧
        self'.heap = Function.update self.heap p none ∧
      self'.next = self.next := by
  obtain ⟨tb, n, htb, rfl, hn, hget, sock, hsock⟩ := h.live hs
  obtain ⟨hpos, hwf⟩ := h.wf tb htb
  have hwf' := hwf.release hmax hpos hget
  have hidx : (nnMaxSockets - self.nsocks : ℤ) = ((nnMaxSockets - self.nsocks : ℕ) : ℤ) := by
    have := hwf.nsocks_le
    omega
  have hidx' : nnMaxSockets - self.nsocks < tb.unused.length := by
    rw [hwf.unused_length]
    omega
  have hslt : n < tb.socks.length := by rwa [hwf.socks_length]
  have hfresh : ∀ q, self.next ≤ q → Function.update self.heap p none q = none := by
    intro q hq
    by_cases hqp : q = p
    · rw [hqp, Function.update_self]
    · rw [Function.update_of_ne hqp]
      exact h.fresh q hq
  unfold nnCloseFree
  simp only [htb, hidx, setAt_natCast hslt, setAt_natCast hidx', ok_bind,
    Int.toNat_natCast, nnGlobalTerm]
  rw [nnAssert_of (by simp)]
  simp only [ok_bind]
  split_ifs with hlast
  · exact ⟨_, rfl, ⟨hfresh, nofun, fun tb' htb' => by cases htb'; exact ⟨hlast, hwf'⟩⟩,
      sockAt_update htb hslt rfl rfl, rfl, rfl⟩
  -- the last socket was closed, and the table is freed
  · have hnsocks : self.nsocks - 1 = 0 := by omega
    rw [hnsocks] at hwf'
    refine ⟨_, rfl, ⟨hfresh, fun _ => ⟨hnsocks, hwf'.not_live⟩, nofun⟩, ?_, rfl, rfl⟩
    have htb' : ({ self with table := some ⟨tb.socks.set n none, tb.unused⟩ } : Global).table =
        some ⟨tb.socks.set n none, tb.unused⟩ := rfl
    rw [← sockAt_update htb hslt htb' rfl]
    funext s
    have hnone : ∀ q, ({ self with table := some ⟨tb.socks.set n none, tb.unused⟩ } : Global).sockAt
        s ≠ some q := by
      intro q hq
      obtain ⟨i, -, hi⟩ := (sockAt_eq_some rfl).1 hq
      have := (hwf'.live q).2 ⟨i, hi⟩
      simp [hwf'.not_live q] at this
    rw [Option.eq_none_iff_forall_ne_some.2 hnone]
    simp [sockAt]

end Global

/-! ### One socket -/

/-- The threads that are closing a socket. -/
def GlobalWorld.closers (w : GlobalWorld) (p : ℕ) : List Closer :=
  w.closing.filter fun c => c.sock = p

/-- A socket and what refers to it: whether it was ever allocated, the socket, the calls that use
it, how often its semaphore was posted and `nn_close` went on, and the threads that are closing
it. -/
inductive SocketInv : Prop → Option Sock → ℕ → ℕ → ℕ → List Closer → Prop
  | fresh {a : Prop} (ha : ¬ a) : SocketInv a none 0 0 0 []
  | active {a : Prop} (ha : a) (calls : ℕ) :
      SocketInv a (some { state := .active, holds := calls + 1, termsem := 0, relesem := 0 }) calls
        0 0 []
  | stopped {a : Prop} (ha : a) (sock : Sock) (calls : ℕ) (c : Closer)
      (hstate : sock.state ≠ .active)
      (hholds : sock.holds = calls) (hfreeing : c.stage = .freeing → calls = 0)
      (htermsem : sock.termsem + (if c.stage = .waitTermsem then 0 else 1) = if sock.state =
        .fini then 1 else 0)
      (hrelesem : sock.relesem + (if c.stage = .freeing then 1 else 0) = if calls =
        0 then 1 else 0) :
      SocketInv a (some sock) calls (if calls = 0 then 1 else 0) 1 [c]
  | freed {a : Prop} (ha : a) : SocketInv a none 0 1 1 []

namespace SocketInv

variable {a : Prop} {sock : Sock} {calls posts closes : ℕ} {closers : List Closer}

theorem none_iff : SocketInv a none calls posts closes closers ↔
    calls = 0 ∧ closers = [] ∧ (¬ a ∧ posts = 0 ∧ closes = 0 ∨ a ∧ posts = 1 ∧ closes = 1) := by
  constructor
  · intro h
    cases h with
    | fresh ha => exact ⟨rfl, rfl, .inl ⟨ha, rfl, rfl⟩⟩
    | freed ha => exact ⟨rfl, rfl, .inr ⟨ha, rfl, rfl⟩⟩
  · rintro ⟨rfl, rfl, ⟨ha, rfl, rfl⟩ | ⟨ha, rfl, rfl⟩⟩
    · exact .fresh ha
    · exact .freed ha

theorem active_iff (hstate : sock.state = .active) :
    SocketInv a (some sock) calls posts closes closers ↔
    a ∧ sock = { state := .active, holds := calls + 1, termsem := 0, relesem := 0 } ∧
      posts = 0 ∧ closes = 0 ∧ closers = [] := by
  constructor
  · intro h
    cases h with
    | active ha => exact ⟨ha, rfl, rfl, rfl, rfl⟩
    | stopped _ _ _ _ hne => exact absurd hstate hne
  · rintro ⟨ha, rfl, rfl, rfl, rfl⟩
    exact .active ha calls

theorem stopped_iff (hstate : sock.state ≠ .active) :
    SocketInv a (some sock) calls posts closes closers ↔
    a ∧ sock.holds = calls ∧ posts = (if calls = 0 then 1 else 0) ∧ closes = 1 ∧
      ∃ c : Closer, closers = [c] ∧ (c.stage = .freeing → calls = 0) ∧
      sock.termsem + (if c.stage = .waitTermsem then 0 else 1) =
        (if sock.state = .fini then 1 else 0) ∧
      sock.relesem + (if c.stage = .freeing then 1 else 0) = (if calls = 0 then 1 else 0) := by
  constructor
  · intro h
    cases h with
    | active => exact absurd rfl hstate
    | stopped ha _ _ c _ hholds hfreeing htermsem hrelesem =>
      exact ⟨ha, hholds, rfl, rfl, c, rfl, hfreeing, htermsem, hrelesem⟩
  · rintro ⟨ha, hholds, rfl, rfl, c, rfl, hfreeing, htermsem, hrelesem⟩
    exact .stopped ha sock calls c hstate hholds hfreeing htermsem hrelesem

end SocketInv

/-- A socket whose stop has begun, or which is gone. -/
def GlobalWorld.Stopped (w : GlobalWorld) (p : ℕ) : Prop :=
  p < w.self.next ∧ ∀ sock, w.self.heap p = some sock → sock.state ≠ .active

/-- The invariant of the global object and the threads. -/
structure GlobalWorld.Inv (nnMaxSockets : ℕ) (w : GlobalWorld) : Prop where
  table : w.self.TableInv nnMaxSockets
  socket : ∀ p, SocketInv (p < w.self.next) (w.self.heap p) (w.calls.count p) (w.posts p)
    (w.closes p) (w.closers p)
  closer : ∀ c ∈ w.closing, w.self.sockAt c.s = some c.sock

namespace GlobalWorld

variable {w : GlobalWorld} {p : ℕ} {s : ℤ}

theorem Inv.init : GlobalWorld.init.Inv nnMaxSockets :=
  ⟨⟨fun _ _ => rfl, fun _ => ⟨rfl, fun _ => rfl⟩, nofun⟩,
    fun _ => .fresh (Nat.not_lt_zero _), nofun⟩

/-- The socket of a call or of a closing thread is allocated. -/
theorem Inv.sock_of_ref (h : w.Inv nnMaxSockets) (hp : p ∈ w.calls ∨ ∃ c ∈ w.closing, c.sock = p) :
    ∃ sock, w.self.heap p = some sock := by
  have hs := h.socket p
  cases hsock : w.self.heap p with
  | some sock => exact ⟨sock, rfl⟩
  | none =>
    rw [hsock] at hs
    obtain ⟨hcalls, hclosers, -⟩ := SocketInv.none_iff.1 hs
    rcases hp with hp | ⟨c, hc, hcp⟩
    · exact absurd hp (List.count_eq_zero.1 hcalls)
    · have hmem : c ∈ w.closers p := List.mem_filter.2 ⟨hc, decide_eq_true hcp⟩
      rw [hclosers] at hmem
      cases hmem

/-- `nn_socket`. -/
theorem Inv.socketCall (h : w.Inv nnMaxSockets) (hmax : nnMaxSockets ≤ 0x10000)
    (domain protocol : ℤ) (alloc : Bool) (init : Option ℕ) :
    (∃ e, w.step nnMaxSockets (.socket domain protocol alloc init) = .ok (w, .socket (.error e))) ∨
      ∃ s self', w.step nnMaxSockets (.socket domain protocol alloc init) =
          .ok ({ w with self := self' }, .socket (.ok s)) ∧
        w.self.Opened nnMaxSockets s self' ∧
          ({ w with self := self' } : GlobalWorld).Inv nnMaxSockets := by
  rcases h.table.nnSocket hmax domain protocol alloc init with ⟨e, heq⟩ | ⟨s, self', heq, hopen⟩
  · exact .inl ⟨e, by simp only [step, heq, ok_bind, pure_eq_ok]⟩
  refine .inr ⟨s, self', by simp only [step, heq, ok_bind, pure_eq_ok], hopen, hopen.inv,
    fun p => ?_, fun c hc => ?_⟩
  · have hsock := h.socket p
    change SocketInv (p < self'.next) (self'.heap p) (w.calls.count p) (w.posts p)
      (w.closes p) (w.closers p)
    rw [hopen.next, hopen.heap]
    by_cases hp : p = w.self.next
    · subst hp
      rw [h.table.fresh _ le_rfl] at hsock
      rw [Function.update_self]
      obtain ⟨hcalls, hclosers, ⟨-, hposts, hcloses⟩ | ⟨hlt, -⟩⟩ := SocketInv.none_iff.1 hsock
      · rw [hcalls, hclosers, hposts, hcloses]
        exact .active (Nat.lt_succ_self _) 0
      · exact absurd hlt (lt_irrefl _)
    · rw [Function.update_of_ne hp]
      have hlt : (p < w.self.next + 1) = (p < w.self.next) := propext (by omega)
      rwa [hlt]
  · have hs := h.closer c hc
    change self'.sockAt c.s = _
    rw [hopen.sockAt]
    by_cases hcs : c.s = s
    · rw [hcs, hopen.free] at hs
      cases hs
    · rw [Function.update_of_ne hcs, hs]

/-- One socket changes, with what refers to it. -/
theorem Inv.update {w' : GlobalWorld} (h : w.Inv nnMaxSockets) {sock sock' : Sock}
    (hsock : w.self.heap p = some sock)
    (hself : w'.self = { w.self with heap := Function.update w.self.heap p (some sock') })
    (hother : ∀ q, q ≠ p → w'.calls.count q = w.calls.count q ∧ w'.posts q = w.posts q ∧
      w'.closes q = w.closes q ∧ w'.closers q = w.closers q)
    (hp : SocketInv (p < w.self.next) (some sock') (w'.calls.count p) (w'.posts p)
      (w'.closes p) (w'.closers p))
    (hclosing : ∀ c ∈ w'.closing, w.self.sockAt c.s = some c.sock) : w'.Inv nnMaxSockets := by
  refine ⟨?_, fun q => ?_, fun c hc => ?_⟩
  · rw [hself]
    exact h.table.modify hsock sock'
  · rw [hself]
    by_cases hq : q = p
    · subst hq
      simpa only [Function.update_self] using hp
    · obtain ⟨hcalls, hposts, hcloses, hclosers⟩ := hother q hq
      simpa only [Function.update_of_ne hq, hcalls, hposts, hcloses, hclosers] using h.socket q
  · rw [hself]
    exact hclosing c hc

/-- A call of the API takes a hold, or `-EBADF` is returned and nothing changes. -/
theorem Inv.hold (h : w.Inv nnMaxSockets) (s : ℤ) :
    (∃ p sock w', w.self.sockAt s = some p ∧ w.self.heap p = some sock ∧ sock.state = .active ∧
      w.step nnMaxSockets (.hold s) = .ok (w', .held p) ∧ w'.Inv nnMaxSockets) ∨
      (∀ p sock, w.self.sockAt s = some p → w.self.heap p = some sock → sock.state ≠ .active) ∧
        w.step nnMaxSockets (.hold s) = .ok (w, .ebadf) := by
  simp only [step, h.table.hold]
  cases hs : w.self.sockAt s with
  | none => exact .inr ⟨nofun, rfl⟩
  | some p =>
    obtain ⟨-, -, -, -, -, -, sock, hsock⟩ := h.table.live hs
    simp only [hsock, Option.bind_some]
    by_cases hstate : sock.state = .active
    · have hhold : nnSockHold sock = some { sock with holds := sock.holds + 1 } := by
        simp [nnSockHold, hstate]
      rw [hhold]
      refine .inl ⟨p, sock, _, rfl, hsock, hstate, rfl, ?_⟩
      have hinv := h.socket p
      rw [hsock] at hinv
      obtain ⟨ha, heq, hposts, hcloses, hclosers⟩ := (SocketInv.active_iff hstate).1 hinv
      refine h.update hsock rfl (fun q hq => ⟨List.count_cons_of_ne (Ne.symm hq), rfl, rfl, rfl⟩) ?_
        h.closer
      refine (SocketInv.active_iff ?_).2 ⟨ha, ?_, hposts, hcloses, hclosers⟩
      · exact hstate
      · rw [heq, List.count_cons_self]
        simp
    · have hhold : nnSockHold sock = none := by
        unfold nnSockHold
        cases hst : sock.state <;> first | exact absurd hst hstate | rfl
      rw [hhold]
      refine .inr ⟨fun q sock' hq hsock' => ?_, rfl⟩
      cases hq
      cases hsock.symm.trans hsock'
      exact hstate

/-- The state of a socket that is stopped, with the thread that closes it. -/
theorem Inv.closer_of_mem (h : w.Inv nnMaxSockets) {c : Closer} (hc : c ∈ w.closing) :
    ∃ sock, w.self.heap c.sock = some sock ∧ sock.state ≠ .active ∧ w.closers c.sock = [c] := by
  obtain ⟨sock, hsock⟩ := h.sock_of_ref (.inr ⟨c, hc, rfl⟩)
  have hinv := h.socket c.sock
  have hmem : c ∈ w.closers c.sock := List.mem_filter.2 ⟨hc, decide_eq_true rfl⟩
  rw [hsock] at hinv
  by_cases hstate : sock.state = .active
  · obtain ⟨-, -, -, -, hclosers⟩ := (SocketInv.active_iff hstate).1 hinv
    rw [hclosers] at hmem
    cases hmem
  · obtain ⟨-, -, -, -, c', hclosers, -⟩ := (SocketInv.stopped_iff hstate).1 hinv
    rw [hclosers, List.mem_singleton] at hmem
    exact ⟨sock, hsock, hstate, hmem ▸ hclosers⟩

/-- A call of the API is over. -/
theorem Inv.rele (h : w.Inv nnMaxSockets) (hp : p ∈ w.calls) :
    ∃ w', w.step nnMaxSockets (.rele p) = .ok (w', .none) ∧ w'.Inv nnMaxSockets := by
  obtain ⟨sock, hsock⟩ := h.sock_of_ref (.inl hp)
  have hinv := h.socket p
  have hcount : (w.calls.erase p).count p = w.calls.count p - 1 := List.count_erase_self
  have hpos : 0 < w.calls.count p := List.count_pos_iff.2 hp
  have hpos' : w.calls.count p ≠ 0 := hpos.ne'
  rw [hsock] at hinv
  simp only [step, nnGlobalReleSocket, hsock, ok_bind, pure_eq_ok]
  refine ⟨_, rfl, h.update hsock rfl
    (fun q hq => ⟨List.count_erase_of_ne hq, Function.update_of_ne hq _ _, rfl, rfl⟩) ?_ h.closer⟩
  simp only [post, Function.update_self, hcount]
  by_cases hstate : sock.state = .active
  · obtain ⟨ha, heq, hposts, hcloses, hclosers⟩ := (SocketInv.active_iff hstate).1 hinv
    have hne : sock.holds - 1 ≠ 0 := by
      rw [heq]
      simp only
      omega
    simp only [nnSockRele, hne, if_false]
    refine (SocketInv.active_iff ?_).2 ⟨ha, ?_, hposts, hcloses, hclosers⟩
    · exact hstate
    · rw [heq]
      simp only [Sock.mk.injEq, true_and, and_true]
      omega
  · obtain ⟨ha, hholds, hposts, hcloses, c, hclosers, hfreeing, htermsem, hrelesem⟩ :=
      (SocketInv.stopped_iff hstate).1 hinv
    have hstage : c.stage ≠ .freeing := fun hst => hpos' (hfreeing hst)
    rw [if_neg hpos', if_neg hstage] at hrelesem
    rw [if_neg hpos'] at hposts
    rw [hposts]
    -- the last hold is the last call
    by_cases hlast : w.calls.count p = 1
    · have hzero : sock.holds - 1 = 0 := by omega
      simp only [nnSockRele, hzero, if_true, hlast]
      refine (SocketInv.stopped_iff ?_).2 ⟨ha, rfl, rfl, hcloses, c, hclosers,
        fun _ => rfl, htermsem, ?_⟩
      · exact hstate
      · rw [if_neg hstage, if_pos rfl]
        simp only
        omega
    · have hne : sock.holds - 1 ≠ 0 := by omega
      have hne' : w.calls.count p - 1 ≠ 0 := by omega
      simp only [nnSockRele, hne, if_false]
      refine (SocketInv.stopped_iff ?_).2 ⟨ha, ?_, (if_neg hne').symm, hcloses, c, hclosers,
        fun hst => absurd hst hstage, htermsem, ?_⟩
      · exact hstate
      · simp only
        omega
      · rw [if_neg hstage, if_neg hne']
        exact hrelesem

/-- A hold that is not the last one. -/
theorem nnSockRele_of_ne {sock : Sock} (h : sock.holds ≠ 1) :
    nnSockRele sock = ({ sock with holds := sock.holds - 1 }, false) := by
  have hne : sock.holds - 1 ≠ 0 := by omega
  simp [nnSockRele, hne]

/-- `nn_close` drops the hold that it has taken, and the one of the descriptor. -/
theorem nnSockRele_twice (calls : ℕ) (state : SockState) :
    nnSockRele { state, holds := calls + 1 + 1, termsem := 0, relesem := 0 } =
        ({ state, holds := calls + 1, termsem := 0, relesem := 0 }, false) ∧
      nnSockRele { state, holds := calls + 1, termsem := 0, relesem := 0 } =
        ({ state, holds := calls, termsem := 0, relesem := if calls = 0 then 1 else 0 },
          decide (calls = 0)) := by
  constructor
  · rw [nnSockRele_of_ne (by simp only; omega)]
    simp
  · by_cases hcalls : calls = 0
    · subst hcalls
      rfl
    · rw [nnSockRele_of_ne (by simp only; omega)]
      simp [hcalls]

/-- One thread goes on to terminate an active socket, or `-EBADF` is returned and nothing
changes. -/
theorem Inv.close (h : w.Inv nnMaxSockets) (s : ℤ) :
    (∃ p sock w', w.self.sockAt s = some p ∧ w.self.heap p = some sock ∧ sock.state = .active ∧
      w.step nnMaxSockets (.close s) = .ok (w', .closing p) ∧ w'.Stopped p ∧ w'.Inv nnMaxSockets) ∨
      (∀ p sock, w.self.sockAt s = some p → w.self.heap p = some sock → sock.state ≠ .active) ∧
        w.step nnMaxSockets (.close s) = .ok (w, .ebadf) := by
  simp only [step, nnCloseStop, h.table.hold]
  cases hs : w.self.sockAt s with
  | none => exact .inr ⟨by rintro _ _ ⟨⟩, rfl⟩
  | some p =>
    obtain ⟨-, -, -, -, -, -, sock, hsock⟩ := h.table.live hs
    simp only [hsock, Option.bind_some]
    by_cases hstate : sock.state = .active
    · have hinv := h.socket p
      rw [hsock] at hinv
      obtain ⟨ha, rfl, hposts, hcloses, hclosers⟩ := (SocketInv.active_iff hstate).1 hinv
      obtain ⟨hfirst, hsecond⟩ := nnSockRele_twice (w.calls.count p) .stoppingEps
      simp only [nnSockHold, ok_bind, Function.update_self, nnSockStop, nnAssert, if_true,
        pure_eq_ok, nnGlobalReleSocket, Function.update_idem, hfirst, hsecond]
      refine .inl ⟨p, _, _, rfl, hsock, hstate, rfl, ⟨ha, fun sock hsock' => ?_⟩,
        h.update hsock rfl (fun q hq => ?_) ?_ ?_⟩
      · rw [← Option.some_inj.1 ((Function.update_self p _ w.self.heap).symm.trans hsock')]
        exact SockState.noConfusion
      · refine ⟨rfl, ?_, Function.update_of_ne hq _ _, List.filter_cons_of_neg ?_⟩
        · simp only [post, Function.update_of_ne hq]
        · simpa using Ne.symm hq
      · refine (SocketInv.stopped_iff ?_).2 ⟨ha, rfl, ?_, ?_, ⟨s, p, .waitTermsem⟩, ?_,
          (by rintro ⟨⟩), rfl, rfl⟩
        · exact SockState.noConfusion
        · simp [post, hposts]
        · simp [post, hcloses]
        · have : ({ s, sock := p, stage := .waitTermsem } :: w.closing : List Closer).filter
              (fun c => c.sock = p) =
              { s, sock := p, stage := .waitTermsem } :: w.closers p :=
            List.filter_cons_of_pos (by simp)
          rw [hclosers] at this
          exact this
      · intro c hc
        rcases List.mem_cons.1 hc with rfl | hc
        · exact hs
        · exact h.closer c hc
    · have hhold : nnSockHold sock = none := by
        unfold nnSockHold
        cases hst : sock.state <;> first | exact absurd hst hstate | rfl
      rw [hhold]
      refine .inr ⟨fun q sock' hq hsock' => ?_, rfl⟩
      cases hq
      cases hsock.symm.trans hsock'
      exact hstate

/-- The endpoints are gone, or the protocol has stopped. -/
theorem Inv.shutdown (h : w.Inv nnMaxSockets) (hen : w.Enabled (.shutdown p)) :
    ∃ w', w.step nnMaxSockets (.shutdown p) = .ok (w', .none) ∧ w'.Inv nnMaxSockets := by
  obtain ⟨sock, hsock, hstates⟩ := hen
  have hsock : w.self.heap p = some sock := hsock
  have hinv := h.socket p
  have hstate : sock.state ≠ .active := by
    rcases hstates with hst | hst <;> rw [hst] <;> exact SockState.noConfusion
  rw [hsock] at hinv
  obtain ⟨ha, hholds, hposts, hcloses, c, hclosers, hfreeing, htermsem, hrelesem⟩ :=
    (SocketInv.stopped_iff hstate).1 hinv
  simp only [step, Global.modify, hsock]
  rcases hstates with hst | hst
  · rw [hst] at htermsem
    simp only [nnSockShutdown, hst, ok_bind, pure_eq_ok]
    refine ⟨_, rfl, h.update hsock rfl (fun q hq => ⟨rfl, rfl, rfl, rfl⟩) ?_ h.closer⟩
    refine (SocketInv.stopped_iff ?_).2 ⟨ha, hholds, hposts, hcloses, c, hclosers,
      hfreeing, ?_, hrelesem⟩
    · exact SockState.noConfusion
    · simpa only [reduceCtorEq, if_false] using htermsem
  · rw [hst] at htermsem
    simp only [nnSockShutdown, hst, ok_bind, pure_eq_ok]
    refine ⟨_, rfl, h.update hsock rfl (fun q hq => ⟨rfl, rfl, rfl, rfl⟩) ?_ h.closer⟩
    refine (SocketInv.stopped_iff ?_).2 ⟨ha, hholds, hposts, hcloses, c, hclosers,
      hfreeing, ?_, hrelesem⟩
    · exact SockState.noConfusion
    · simp only [reduceCtorEq, if_false] at htermsem
      simp only [if_true]
      omega

/-- The closing threads without one of them. -/
theorem closers_erase {c : Closer} (hc : w.closers c.sock = [c]) (q : ℕ) :
    (w.closing.erase c).filter (fun d => d.sock = q) = if q = c.sock then [] else w.closers q := by
  rw [← List.erase_filter, ← closers]
  by_cases hq : q = c.sock
  · subst hq
    rw [if_pos rfl, hc, List.erase_cons_head]
  · have hmem : c ∉ w.closers q := fun hmem =>
      hq (of_decide_eq_true (List.mem_filter.1 hmem).2).symm
    rw [if_neg hq, List.erase_of_not_mem hmem]

/-- The closing threads after one of them has moved on. -/
theorem closers_advance {c c' : Closer} (hc' : c'.sock = c.sock)
    (hc : w.closers c.sock = [c]) (q : ℕ) :
    (c' :: w.closing.erase c).filter (fun d => d.sock = q) = if q = c.sock then [c']
      else w.closers q := by
  by_cases hq : q = c.sock
  · subst hq
    rw [if_pos rfl, List.filter_cons_of_pos (by simpa using hc'), closers_erase hc, if_pos rfl]
  · rw [if_neg hq, List.filter_cons_of_neg (by simpa [hc'] using Ne.symm hq),
      closers_erase hc, if_neg hq]

/-- A closing thread has waited for a semaphore. -/
theorem Inv.advance (h : w.Inv nnMaxSockets) {c c' : Closer} (hc : c ∈ w.closing) (hs : c'.s = c.s)
    (hsock' : c'.sock = c.sock) {sock sock' : Sock} (hsock : w.self.heap c.sock = some sock)
    (hstate : sock'.state = sock.state) (hholds : sock'.holds = sock.holds)
    (hfreeing : c'.stage = .freeing → w.calls.count c.sock = 0)
    (htermsem : sock'.termsem + (if c'.stage = .waitTermsem then 0 else 1) =
      sock.termsem + if c.stage = .waitTermsem then 0 else 1)
    (hrelesem : sock'.relesem + (if c'.stage = .freeing then 1 else 0) =
      sock.relesem + if c.stage = .freeing then 1 else 0) :
    ({ w with self := { w.self with heap := Function.update w.self.heap c.sock (some sock') }
              closing := c' :: w.closing.erase c } : GlobalWorld).Inv nnMaxSockets := by
  obtain ⟨sock₀, hsock₀, hne, hclosers⟩ := h.closer_of_mem hc
  cases hsock.symm.trans hsock₀
  have hinv := h.socket c.sock
  rw [hsock] at hinv
  obtain ⟨ha, hholds₀, hposts, hcloses, c₀, hc₀, -, hterm, hrele⟩ :=
    (SocketInv.stopped_iff hne).1 hinv
  cases List.singleton_inj.1 (hclosers.symm.trans hc₀)
  refine h.update hsock rfl (fun q hq => ⟨rfl, rfl, rfl, ?_⟩) ?_ ?_
  · exact (closers_advance hsock' hclosers q).trans (if_neg hq)
  · refine (SocketInv.stopped_iff (hstate ▸ hne)).2 ⟨ha, hholds ▸ hholds₀, hposts, hcloses, c', ?_,
      hfreeing, htermsem.trans (hstate ▸ hterm), hrelesem.trans hrele⟩
    exact (closers_advance hsock' hclosers c.sock).trans (if_pos rfl)
  · intro d hd
    rcases List.mem_cons.1 hd with rfl | hd
    · rw [hs, hsock']
      exact h.closer c hc
    · exact h.closer d (List.mem_of_mem_erase hd)

/-- The endpoints are gone for the thread that waits for them. -/
theorem Inv.waitTermsem (h : w.Inv nnMaxSockets) {c : Closer} (hen : w.Enabled (.waitTermsem c)) :
    ∃ w', w.step nnMaxSockets (.waitTermsem c) = .ok (w', .none) ∧ w'.Inv nnMaxSockets := by
  obtain ⟨hc, hstage, sock, hsock, hpos⟩ := hen
  have hsock : w.self.heap c.sock = some sock := hsock
  simp only [step, Global.modify, hsock, ok_bind, pure_eq_ok]
  refine ⟨_, rfl, h.advance hc ?_ ?_ hsock ?_ ?_ ?_ ?_ ?_⟩
  · rfl
  · rfl
  · rfl
  · rfl
  · exact CloseStage.noConfusion
  · rw [hstage]
    simp only [reduceCtorEq, if_false, if_true]
    omega
  · rw [hstage]
    rfl

/-- The calls are over for the thread that waits for them. -/
theorem Inv.waitRelesem (h : w.Inv nnMaxSockets) {c : Closer} (hen : w.Enabled (.waitRelesem c)) :
    ∃ w', w.step nnMaxSockets (.waitRelesem c) = .ok (w', .none) ∧ w'.Inv nnMaxSockets := by
  obtain ⟨hc, hstage, sock, hsock, hpos⟩ := hen
  have hsock : w.self.heap c.sock = some sock := hsock
  simp only [step, Global.modify, hsock, ok_bind, pure_eq_ok]
  refine ⟨_, rfl, h.advance hc ?_ ?_ hsock ?_ ?_ (fun _ => ?_) ?_ ?_⟩
  · rfl
  · rfl
  · rfl
  · rfl
  · obtain ⟨sock₀, hsock₀, hne, hclosers⟩ := h.closer_of_mem hc
    cases hsock.symm.trans hsock₀
    have hinv := h.socket c.sock
    rw [hsock] at hinv
    obtain ⟨-, -, -, -, c₀, -, -, -, hrele⟩ := (SocketInv.stopped_iff hne).1 hinv
    by_contra hcount
    rw [if_neg hcount] at hrele
    omega
  · rw [hstage]
    rfl
  · rw [hstage]
    simp only [reduceCtorEq, if_false, if_true]
    omega

/-- The socket is freed, and its descriptor can be used again. -/
theorem Inv.free (h : w.Inv nnMaxSockets) (hmax : nnMaxSockets ≤ 0x10000) {c : Closer}
    (hen : w.Enabled (.free c)) :
    ∃ w', w.step nnMaxSockets (.free c) = .ok (w', .none) ∧ w'.Inv nnMaxSockets := by
  obtain ⟨hc, hstage⟩ := hen
  obtain ⟨sock, hsock, hne, hclosers⟩ := h.closer_of_mem hc
  have hinv := h.socket c.sock
  rw [hsock] at hinv
  obtain ⟨ha, -, hposts, hcloses, c₀, hc₀, hfreeing, -⟩ := (SocketInv.stopped_iff hne).1 hinv
  cases List.singleton_inj.1 (hclosers.symm.trans hc₀)
  obtain ⟨self', heq, htable, hsockAt, hheap, hnext⟩ := h.table.free hmax (h.closer c hc)
  simp only [step, heq, ok_bind, pure_eq_ok]
  refine ⟨_, rfl, htable, fun q => ?_, fun d hd => ?_⟩
  · change SocketInv (q < self'.next)
      (self'.heap q) _ _ _ ((w.closing.erase c).filter fun d => d.sock = q)
    rw [hheap, hnext, closers_erase hclosers]
    by_cases hq : q = c.sock
    · subst hq
      rw [Function.update_self, if_pos rfl, hcloses, hposts, hfreeing hstage]
      exact .freed ha
    · rw [Function.update_of_ne hq, if_neg hq]
      exact h.socket q
  · have hd' := h.closer d (List.mem_of_mem_erase hd)
    have hds : d.s ≠ c.s := by
      -- no other thread closes the socket of this descriptor
      intro hds
      have hdsock : d.sock = c.sock := by
        rw [hds, h.closer c hc] at hd'
        exact (Option.some_inj.1 hd').symm
      have hmem : d ∈ (w.closing.erase c).filter fun d => d.sock = c.sock :=
        List.mem_filter.2 ⟨hd, decide_eq_true hdsock⟩
      rw [closers_erase hclosers, if_pos rfl] at hmem
      cases hmem
    simp only [hsockAt]
    rw [Function.update_of_ne hds, hd']

/-- No action fails, and every action keeps the invariant. -/
theorem Inv.step (h : w.Inv nnMaxSockets) (hmax : nnMaxSockets ≤ 0x10000) {a : GlobalAction}
    (hen : w.Enabled a) :
    ∃ w' b, w.step nnMaxSockets a = .ok (w', b) ∧ w'.Inv nnMaxSockets := by
  cases a with
  | socket domain protocol alloc init =>
    rcases h.socketCall hmax domain protocol alloc init with ⟨e, heq⟩ | ⟨s, self', heq, -, hinv⟩
    · exact ⟨w, _, heq, h⟩
    · exact ⟨_, _, heq, hinv⟩
  | hold s =>
    rcases h.hold s with ⟨p, -, w', -, -, -, heq, hinv⟩ | ⟨-, heq⟩
    · exact ⟨w', _, heq, hinv⟩
    · exact ⟨w, _, heq, h⟩
  | close s =>
    rcases h.close s with ⟨p, -, w', -, -, -, heq, -, hinv⟩ | ⟨-, heq⟩
    · exact ⟨w', _, heq, hinv⟩
    · exact ⟨w, _, heq, h⟩
  | rele p =>
    obtain ⟨w', heq, hinv⟩ := h.rele hen
    exact ⟨w', _, heq, hinv⟩
  | shutdown p =>
    obtain ⟨w', heq, hinv⟩ := h.shutdown hen
    exact ⟨w', _, heq, hinv⟩
  | waitTermsem c =>
    obtain ⟨w', heq, hinv⟩ := h.waitTermsem hen
    exact ⟨w', _, heq, hinv⟩
  | waitRelesem c =>
    obtain ⟨w', heq, hinv⟩ := h.waitRelesem hen
    exact ⟨w', _, heq, hinv⟩
  | free c =>
    obtain ⟨w', heq, hinv⟩ := h.free hmax hen
    exact ⟨w', _, heq, hinv⟩
  | term => exact ⟨_, _, rfl, ⟨h.table.fresh, h.table.closed, h.table.wf⟩, h.socket, h.closer⟩
  | init => exact ⟨_, _, rfl, ⟨h.table.fresh, h.table.closed, h.table.wf⟩, h.socket, h.closer⟩

/-- The invariant holds after every run. -/
theorem Inv.run (hmax : nnMaxSockets ≤ 0x10000) {as : List GlobalAction}
    (h : Trace (GlobalWorld.step nnMaxSockets) Enabled .init as w) : w.Inv nnMaxSockets := by
  apply h.invariant_of_step (I := fun _ w => w.Inv nnMaxSockets) Inv.init
  intro _ w a hinv hen
  exact hinv.step hmax hen

end GlobalWorld

/-! ### Main results -/

section Runs

variable {as : List GlobalAction} {w : GlobalWorld}

/-- The entries of the stack below the position `nnMaxSockets - nsocks` are the descriptors with no
socket, each of them once.  `nn_socket` returns one of them, and it maps to the new socket; when it
fails, nothing changes.  No action reads or writes an array out of bounds, or fails in another
way. -/
theorem socket_table (hmax : nnMaxSockets ≤ 0x10000)
    (h : Trace (GlobalWorld.step nnMaxSockets) GlobalWorld.Enabled .init as w) :
    (∀ tb, w.self.table = some tb →
      (tb.free (nnMaxSockets - w.self.nsocks)).Nodup ∧
        ∀ s : ℕ, s ∈ tb.free (nnMaxSockets - w.self.nsocks) ↔ tb.socks[s]? = some none) ∧
      (∀ a, w.Enabled a → ∃ w' b, w.step nnMaxSockets a = .ok (w', b)) ∧
      (∀ domain protocol alloc init w' s,
        w.step nnMaxSockets (.socket domain protocol alloc init) = .ok (w', .socket (.ok s)) →
          s < nnMaxSockets ∧ w.self.sockAt s = none ∧ w.self.heap w.self.next = none ∧
            w'.self.sockAt = Function.update w.self.sockAt s (some w.self.next) ∧
            w'.self.heap = Function.update w.self.heap w.self.next (some nnSockInit)) ∧
      ∀ domain protocol alloc init w' e,
        w.step nnMaxSockets (.socket domain protocol alloc init) = .ok (w', .socket (.error e)) →
          w' = w := by
  have hinv := GlobalWorld.Inv.run hmax h
  refine ⟨fun tb htb => ?_, fun a ha => ?_, fun domain protocol alloc init w' s heq => ?_,
    fun domain protocol alloc init w' e heq => ?_⟩
  · obtain ⟨-, hwf⟩ := hinv.table.wf tb htb
    exact ⟨hwf.nodup, hwf.mem_free⟩
  · obtain ⟨w', b, heq, -⟩ := hinv.step hmax ha
    exact ⟨w', b, heq⟩
  · rcases hinv.socketCall hmax domain protocol alloc init with
      ⟨e, heq'⟩ | ⟨s', self', heq', hopen, -⟩
    · cases heq.symm.trans heq'
    · cases heq.symm.trans heq'
      exact ⟨hopen.lt, hopen.free, hinv.table.fresh _ le_rfl, hopen.sockAt, hopen.heap⟩
  · rcases hinv.socketCall hmax domain protocol alloc init with ⟨e', heq'⟩ | ⟨s', self', heq', -⟩
    · cases heq.symm.trans heq'
      rfl
    · cases heq.symm.trans heq'

/-- The descriptor that was given back last is the next one to be used. -/
theorem socket_table_reuse : ∃ w, Trace (GlobalWorld.step 2) GlobalWorld.Enabled .init
      [.socket afSp 16 true none, .socket afSp 16 true none, .close 0, .shutdown 0, .shutdown 0,
        .waitTermsem ⟨0, 0, .waitTermsem⟩, .waitRelesem ⟨0, 0, .waitRelesem⟩,
          .free ⟨0, 0, .freeing⟩] w ∧
    (∃ w', w.step 2 (.socket afSp 16 true none) = .ok (w', .socket (.ok 0)) ∧
      w'.self.sockAt 0 = some 2) ∧
    ∃ w' b, w.step 2 (.socket afSp 48 false none) = .ok (w', b) ∧ w' = w := by
  obtain ⟨w, hrun, hnext, hsocket, hfail⟩ :
    ∃ w, Trace (GlobalWorld.step 2) GlobalWorld.Enabled .init
      [.socket afSp 16 true none, .socket afSp 16 true none, .close 0, .shutdown 0, .shutdown 0,
        .waitTermsem ⟨0, 0, .waitTermsem⟩, .waitRelesem ⟨0, 0, .waitRelesem⟩,
          .free ⟨0, 0, .freeing⟩] w ∧
      w.self.next = 2 ∧ (w.step 2 (.socket afSp 16 true none)).toOption.map Prod.snd =
        some (.socket (.ok 0)) ∧
      (w.step 2 (.socket afSp 48 false none)).toOption.map Prod.snd =
        some (.socket (.error .enomem)) :=
    Trace.exists_of_runWhile (by decide)
  obtain ⟨-, -, hopen, hsame⟩ := socket_table (by decide) hrun
  obtain ⟨w₁, heq₁⟩ := exists_of_answer hsocket
  obtain ⟨w₂, heq₂⟩ := exists_of_answer hfail
  refine ⟨w, hrun, ⟨w₁, heq₁, ?_⟩, w₂, _, heq₂, hsame _ _ _ _ _ _ heq₂⟩
  obtain ⟨-, -, -, hsockAt, -⟩ := hopen _ _ _ _ _ _ heq₁
  rw [hsockAt, hnext]
  exact Function.update_self ..

/-- A socket is active, or it is stopped. -/
theorem GlobalWorld.Inv.socket_cases (h : w.Inv nnMaxSockets) (p : ℕ) :
    (¬ w.Stopped p ∧ w.posts p = 0 ∧ w.closes p = 0 ∧
      ∀ sock, w.self.heap p = some sock → sock.state = .active ∧ sock.holds = w.calls.count p + 1) ∨
      w.Stopped p ∧ w.posts p = (if w.calls.count p = 0 then 1 else 0) ∧ w.closes p = 1 ∧
        ∀ sock, w.self.heap p = some sock → sock.holds = w.calls.count p ∧ ∃ c, w.closers p = [c] ∧
          (c.stage = .freeing → w.calls.count p = 0) ∧
          sock.relesem + (if c.stage = .freeing then 1 else 0) = if w.calls.count p = 0 then 1
            else 0 := by
  have hinv := h.socket p
  cases hsock : w.self.heap p with
  | none =>
    rw [hsock] at hinv
    obtain ⟨hcalls, -, ⟨hlt, hposts, hcloses⟩ | ⟨hlt, hposts, hcloses⟩⟩ := SocketInv.none_iff.1 hinv
    · exact .inl ⟨fun hst => hlt hst.1, hposts, hcloses, nofun⟩
    · refine .inr ⟨⟨hlt, fun sock hsock' => ?_⟩, by rw [hposts, if_pos hcalls], hcloses, nofun⟩
      cases hsock.symm.trans hsock'
  | some sock =>
    rw [hsock] at hinv
    by_cases hstate : sock.state = .active
    · obtain ⟨-, heq, hposts, hcloses, -⟩ := (SocketInv.active_iff hstate).1 hinv
      refine .inl ⟨fun hst => hst.2 sock hsock hstate, hposts, hcloses, ?_⟩
      rintro sock' ⟨⟩
      exact ⟨hstate, by rw [heq]⟩
    · obtain ⟨hlt, hholds, hposts, hcloses, c, hclosers, hfreeing, -, hrelesem⟩ :=
        (SocketInv.stopped_iff hstate).1 hinv
      refine .inr ⟨⟨hlt, fun sock' hsock' => ?_⟩, hposts, hcloses, ?_⟩
      · cases hsock.symm.trans hsock'
        exact hstate
      · rintro sock' ⟨⟩
        exact ⟨hholds, c, hclosers, hfreeing, hrelesem⟩

/-- What a closing thread waits for. -/
theorem GlobalWorld.Inv.closer_cases (h : w.Inv nnMaxSockets) {c : Closer} (hc : c ∈ w.closing) :
    ∃ sock, w.self.heap c.sock = some sock ∧
      sock.relesem + (if c.stage = .freeing then 1 else 0) =
        (if w.calls.count c.sock = 0 then 1 else 0) ∧
      (c.stage = .freeing → w.calls.count c.sock = 0) := by
  obtain ⟨sock, hsock, hne, hclosers⟩ := h.closer_of_mem hc
  rcases h.socket_cases c.sock with ⟨-, -, -, hactive⟩ | ⟨-, -, -, hstopped⟩
  · exact absurd (hactive sock hsock).1 hne
  · obtain ⟨-, c', hclosers', hfreeing, hrelesem⟩ := hstopped sock hsock
    cases List.singleton_inj.1 (hclosers.symm.trans hclosers')
    exact ⟨sock, hsock, hrelesem, hfreeing⟩

/-- The holds of a socket are the calls that use it, and one more until it is stopped.  `nn_close`
goes on for a socket that is not stopped, and does so once; every other call gets `-EBADF` and
changes nothing.  The semaphore is posted once, when the socket is stopped and no call uses it.
This is what the one thread waits for that frees the socket. -/
theorem socket_holds (hmax : nnMaxSockets ≤ 0x10000)
    (h : Trace (GlobalWorld.step nnMaxSockets) GlobalWorld.Enabled .init as w) :
    (∀ p sock, w.self.heap p = some sock → 0 ≤ sock.holds ∧
      (¬ w.Stopped p ∧ sock.holds = w.calls.count p + 1 ∨
        w.Stopped p ∧ sock.holds = w.calls.count p ∧ (w.closers p).length = 1)) ∧
      (∀ s p, w.self.sockAt s = some p → w.Stopped p →
        w.step nnMaxSockets (.hold s) = .ok (w, .ebadf) ∧
          w.step nnMaxSockets (.close s) = .ok (w, .ebadf)) ∧
      (∀ s p, w.self.sockAt s = some p → ¬ w.Stopped p →
        ∃ w', w.step nnMaxSockets (.close s) = .ok (w', .closing p) ∧ w'.Stopped p) ∧
      (∀ p, w.closes p ≤ 1 ∧ (w.closes p = 1 ↔ w.Stopped p)) ∧
      (∀ p, w.posts p ≤ 1 ∧ (w.posts p = 1 ↔ w.Stopped p ∧ p ∉ w.calls)) ∧
      (∀ c ∈ w.closing, c.stage = .waitRelesem → (w.Enabled (.waitRelesem c) ↔ c.sock ∉ w.calls)) ∧
      ∀ c, w.Enabled (.free c) → c.sock ∉ w.calls := by
  have hinv := GlobalWorld.Inv.run hmax h
  have hcount : ∀ p, p ∉ w.calls ↔ w.calls.count p = 0 := fun p => List.count_eq_zero.symm
  refine ⟨fun p sock hsock => ?_, fun s p hs hst => ?_, fun s p hs hst => ?_, fun p => ?_,
    fun p => ?_, fun c hc hstage => ?_, fun c hen => ?_⟩
  · rcases hinv.socket_cases p with ⟨hst, -, -, hactive⟩ | ⟨hst, -, -, hstopped⟩
    · obtain ⟨-, hholds⟩ := hactive sock hsock
      exact ⟨by omega, .inl ⟨hst, hholds⟩⟩
    · obtain ⟨hholds, c, hclosers, -⟩ := hstopped sock hsock
      exact ⟨by omega, .inr ⟨hst, hholds, by rw [hclosers]; rfl⟩⟩
  · constructor
    · rcases hinv.hold s with ⟨p', sock, w', hp', hsock, hstate, -⟩ | ⟨-, heq⟩
      · cases hs.symm.trans hp'
        exact absurd hstate (hst.2 sock hsock)
      · exact heq
    · rcases hinv.close s with ⟨p', sock, w', hp', hsock, hstate, -⟩ | ⟨-, heq⟩
      · cases hs.symm.trans hp'
        exact absurd hstate (hst.2 sock hsock)
      · exact heq
  · rcases hinv.close s with ⟨p', sock, w', hp', hsock, hstate, heq, hst', -⟩ | ⟨hne, -⟩
    · cases hs.symm.trans hp'
      exact ⟨w', heq, hst'⟩
    · exfalso
      obtain ⟨-, -, -, -, -, -, sock, hsock⟩ := hinv.table.live hs
      rcases hinv.socket_cases p with ⟨-, -, -, hactive⟩ | ⟨hst', -⟩
      · exact hne p sock hs hsock (hactive sock hsock).1
      · exact hst hst'
  · rcases hinv.socket_cases p with ⟨hst, -, hcloses, -⟩ | ⟨hst, -, hcloses, -⟩
    · simp [hst, hcloses]
    · simp [hst, hcloses]
  · rw [hcount]
    rcases hinv.socket_cases p with ⟨hst, hposts, -⟩ | ⟨hst, hposts, -⟩
    · simp [hst, hposts]
    · rw [hposts]
      split_ifs with hcalls
      · simp [hst, hcalls]
      · simp [hcalls]
  · obtain ⟨sock, hsock, hrelesem, -⟩ := hinv.closer_cases hc
    rw [hstage] at hrelesem
    rw [hcount]
    constructor
    · rintro ⟨-, -, sock', hsock', hpos⟩
      cases hsock.symm.trans hsock'
      by_contra hcalls
      rw [if_neg hcalls] at hrelesem
      omega
    · intro hcalls
      rw [if_pos hcalls] at hrelesem
      exact ⟨hc, hstage, sock, hsock, by simp at hrelesem; omega⟩
  · obtain ⟨hc, hstage⟩ := hen
    obtain ⟨-, -, -, hfreeing⟩ := hinv.closer_cases hc
    exact (hcount _).2 (hfreeing hstage)

/-- Two threads close a socket that a third one is using. -/
theorem socket_holds_three : ∃ w, Trace (GlobalWorld.step 2) GlobalWorld.Enabled .init
      [.socket afSp 16 true none, .hold 0, .close 0] w ∧
    w.step 2 (.close 0) = .ok (w, .ebadf) ∧ w.closes 0 = 1 ∧ w.posts 0 ≠ 1 := by
  obtain ⟨w, hrun, hsockAt, hcalls, hnext, hstate⟩ :
    ∃ w, Trace (GlobalWorld.step 2) GlobalWorld.Enabled .init
      [.socket afSp 16 true none, .hold 0, .close 0] w ∧
      w.self.sockAt 0 = some 0 ∧ 0 ∈ w.calls ∧ 0 < w.self.next ∧
        (w.self.heap 0).map Sock.state = some .stoppingEps := Trace.exists_of_runWhile (by decide)
  obtain ⟨-, hebadf, -, hcloses, hposts, -⟩ := socket_holds (by decide) hrun
  have hst : w.Stopped 0 := by
    refine ⟨hnext, fun sock hsock => ?_⟩
    rw [hsock] at hstate
    rw [Option.some_inj.1 hstate]
    exact SockState.noConfusion
  exact ⟨w, hrun, (hebadf 0 0 hsockAt hst).2, (hcloses 0).2.2 hst,
    fun h => ((hposts 0).2.1 h).2 hcalls⟩

end Runs

end NanoSocket

import NanoSocket.Core.Wire
import NanoSocket.Lib.Runs

/-!
# The table of sockets (`core/global.c`, `core/sock.c`)

A descriptor is an index into the global table; the descriptors that are not in use form a stack at
the front of a second array, whose size follows from the number of open sockets.  A socket counts
its holds: one for the descriptor and one for each call that is using it.  `nn_close` stops the
socket, drops the hold of the descriptor and waits until the endpoints are gone and the last call
has dropped its hold.

What a function does under the global lock is one action of `GlobalWorld`.  Threads that use a
socket are the entries of `calls`, and threads in the second half of `nn_close` those of `closing`.
The number of descriptors is a parameter, at most 2^16 by the compile-time assertion.
-/

namespace NanoSocket

open Runs

/-- The error codes of `nn_socket`; `init` is what `nn_sock_init` returns. -/
inductive SocketErrno
  | eafnosupport
  | emfile
  | enomem
  | einval
  | eterm
  | init (errnum : ℕ)
  deriving DecidableEq, Repr

/-- `AF_SP`. -/
def afSp : ℤ := 1

/-- `AF_SP_RAW`. -/
def afSpRaw : ℤ := 2

/-- `nn_socktypes`: the domain and the type. -/
def nnSocktypes : List (ℤ × Socktype) :=
  [(afSp, .pair), (afSpRaw, .pair), (afSp, .pub), (afSp, .sub), (afSpRaw, .pub), (afSpRaw, .sub),
    (afSp, .rep), (afSp, .req), (afSpRaw, .rep), (afSpRaw, .req), (afSp, .push), (afSpRaw, .push),
    (afSp, .pull), (afSpRaw, .pull), (afSp, .respondent), (afSp, .surveyor), (afSpRaw, .respondent),
    (afSpRaw, .surveyor), (afSp, .bus), (afSpRaw, .bus)]

/-- The members of `struct nn_sock` that are about its life. The semaphores have a value. -/
structure Sock where
  state : SockState
  holds : ℤ
  termsem : ℕ
  relesem : ℕ
  deriving DecidableEq, Repr

/-- `nn_sock_init`: the hold is that of the caller. -/
def nnSockInit : Sock := { state := .active, holds := 1, termsem := 0, relesem := 0 }

/-- `nn_sock_hold`, or nothing for `-EBADF`. -/
def nnSockHold (self : Sock) : Option Sock :=
  match self.state with
  | .active => some { self with holds := self.holds + 1 }
  | .stopping | .stoppingEps | .fini => none

/-- `nn_sock_rele`: the semaphore is posted with the last hold. -/
def nnSockRele (self : Sock) : Sock × Bool :=
  let self := { self with holds := self.holds - 1 }
  if self.holds = 0 then ({ self with relesem := self.relesem + 1 }, true) else (self, false)

/-- `nn_sock_stop`. -/
def nnSockStop (self : Sock) : Except Fault Sock := do
  nnAssert (self.state = .active)
  return { self with state := .stoppingEps }

/-- `nn_sock_shutdown`, after the stop: the endpoints are gone, and then the protocol has
stopped. -/
def nnSockShutdown (self : Sock) : Except Fault Sock :=
  match self.state with
  | .stoppingEps => .ok { self with state := .stopping }
  | .stopping => .ok { self with state := .fini, termsem := self.termsem + 1 }
  | .active | .fini => .error .badState

/-! ### Arrays -/

section Arrays

variable {α : Type}

/-- Read an array. -/
def getAt (l : List α) (i : ℤ) : Except Fault α :=
  if i < 0 then .error .outOfBounds
  else
    match l[i.toNat]? with
    | none => .error .outOfBounds
    | some a => .ok a

/-- Write to an array. -/
def setAt (l : List α) (i : ℤ) (a : α) : Except Fault (List α) :=
  if i < 0 ∨ l.length ≤ i.toNat then .error .outOfBounds else .ok (l.set i.toNat a)

end Arrays

/-! ### The global object -/

/-- The two arrays, which are allocated together; a socket is its address. -/
structure SockTable where
  socks : List (Option ℕ)
  unused : List UInt16
  deriving DecidableEq, Repr

/-- `struct nn_global`, with the sockets that are allocated and the next address.  `flags` says that
one of the flags `NN_CTX_FLAG_TERM` is set. -/
structure Global where
  table : Option SockTable
  nsocks : ℕ
  flags : Bool
  heap : ℕ → Option Sock
  next : ℕ

section Functions

-- `NN_MAX_SOCKETS`
variable (nnMaxSockets : ℕ)

/-- `nn_global_init`. -/
def nnGlobalInit (self : Global) : Global :=
  match self.table with
  | some _ => self
  | none =>
    { self with nsocks := 0, flags := false
                table := some { socks := List.replicate nnMaxSockets none
                                unused :=
                  (List.range nnMaxSockets).map fun i => UInt16.ofNat (nnMaxSockets - i - 1) } }

/-- `nn_global_term`. -/
def nnGlobalTerm (self : Global) : Except Fault Global := do
  nnAssert (self.table ≠ none)
  if self.nsocks > 0 then return self
  return { self with table := none }

/-- `nn_global_create_socket`.  `alloc` says whether there is memory, and `init` is an error of
`nn_sock_init`. -/
def nnGlobalCreateSocket (self : Global) (domain protocol : ℤ) (alloc : Bool) (init : Option ℕ) :
    Except Fault (Except SocketErrno ℕ × Global) := do
  if domain ≠ afSp ∧ domain ≠ afSpRaw then return (.error .eafnosupport, self)
  if self.nsocks ≥ nnMaxSockets then return (.error .emfile, self)
  match self.table with
  | none => throw .nullDeref
  | some table =>
    let s ← getAt table.unused (nnMaxSockets - self.nsocks - 1)
    if ¬ nnSocktypes.any fun t => t.1 = domain ∧
      (t.2.protocol : ℤ) = protocol then return (.error .einval, self)
    if !alloc then return (.error .enomem, self)
    match init with
    | some errnum => return (.error (.init errnum), self)
    | none =>
      let socks ← setAt table.socks s.toNat (some self.next)
      return (.ok s.toNat, { self with table := some { table with socks }, nsocks := self.nsocks + 1
                                       heap := Function.update self.heap self.next (some nnSockInit)
                                       next := self.next + 1 })

/-- `nn_socket`. -/
def nnSocket (self : Global) (domain protocol : ℤ) (alloc : Bool) (init : Option ℕ) :
    Except Fault (Except SocketErrno ℕ × Global) := do
  if self.flags then return (.error .eterm, self)
  match ← nnGlobalCreateSocket nnMaxSockets (nnGlobalInit nnMaxSockets self) domain
      protocol alloc init with
  | (.error e, self) => return (.error e, ← nnGlobalTerm self)
  | (.ok s, self) => return (.ok s, self)

/-- `nn_global_hold_socket_locked`: the socket, or nothing for `-EBADF`. -/
def nnGlobalHoldSocket (self : Global) (s : ℤ) : Except Fault (Option ℕ × Global) :=
  if s < 0 ∨ s ≥ nnMaxSockets then .ok (none, self)
  else
    match self.table with
    | none => .ok (none, self)
    | some table => do
      match ← getAt table.socks s with
      | none => return (none, self)
      | some p =>
        match self.heap p with
        | none => throw .nullDeref
        | some sock =>
          match nnSockHold sock with
          | none => return (none, self)
          | some sock =>
            return (some p, { self with heap := Function.update self.heap p (some sock) })

/-- `nn_global_rele_socket`: whether the semaphore was posted. -/
def nnGlobalReleSocket (self : Global) (p : ℕ) : Except Fault (Bool × Global) :=
  match self.heap p with
  | none => .error .nullDeref
  | some sock =>
    let (sock, posted) := nnSockRele sock
    .ok (posted, { self with heap := Function.update self.heap p (some sock) })

/-- `nn_close` up to the call of `nn_sock_term`: the socket, or nothing for `-EBADF`. -/
def nnCloseStop (self : Global) (s : ℤ) : Except Fault (Option (ℕ × Bool × Bool) × Global) := do
  match ← nnGlobalHoldSocket nnMaxSockets self s with
  | (none, self) => return (none, self)
  | (some p, self) =>
    match self.heap p with
    | none => throw .nullDeref
    | some sock =>
      let sock ← nnSockStop sock
      -- drop both the hold that was just acquired and the original one
      let (posted, self) ← nnGlobalReleSocket
        { self with heap := Function.update self.heap p (some sock) } p
      let (posted', self) ← nnGlobalReleSocket self p
      return (some (p, posted, posted'), self)

/-- `nn_close` after `nn_sock_term`. -/
def nnCloseFree (self : Global) (s : ℤ) (p : ℕ) : Except Fault Global :=
  match self.table with
  | none => .error .nullDeref
  | some table => do
    let socks ← setAt table.socks s none
    let unused ← setAt table.unused (nnMaxSockets - self.nsocks) (UInt16.ofNat s.toNat)
    nnGlobalTerm { self with table := some { socks, unused }, nsocks := self.nsocks - 1
                             heap := Function.update self.heap p none }

end Functions

/-! ### Threads -/

/-- Where a thread is in `nn_sock_term`, or behind it. -/
inductive CloseStage
  | waitTermsem
  | waitRelesem
  | freeing
  deriving DecidableEq, Repr

/-- A thread in the second half of `nn_close`. -/
structure Closer where
  s : ℤ
  sock : ℕ
  stage : CloseStage
  deriving DecidableEq, Repr

/-- The global object and the threads.  `posts` and `closes` count how often the semaphore of a
socket was posted for its holds, and how often `nn_close` went on to terminate it. -/
structure GlobalWorld where
  self : Global
  calls : List ℕ
  closing : List Closer
  posts : ℕ → ℕ
  closes : ℕ → ℕ

/-- Before the first call. -/
def GlobalWorld.init : GlobalWorld :=
  { self := { table := none, nsocks := 0, flags := false, heap := fun _ => none, next := 0 }
    calls := [], closing := [], posts := fun _ => 0, closes := fun _ => 0 }

/-- What a thread does.  `hold` and `rele` are the two ends of a call that uses a socket, `shutdown`
is the work of the endpoints and of the protocol after a stop, and `term` and `init` are about the
flags. -/
inductive GlobalAction
  | socket (domain protocol : ℤ) (alloc : Bool) (init : Option ℕ)
  | hold (s : ℤ)
  | rele (p : ℕ)
  | close (s : ℤ)
  | shutdown (p : ℕ)
  | waitTermsem (c : Closer)
  | waitRelesem (c : Closer)
  | free (c : Closer)
  | term
  | init
  deriving DecidableEq, Repr

/-- What a call returns. -/
inductive GlobalAnswer
  | none
  | socket (rc : Except SocketErrno ℕ)
  | ebadf
  | held (p : ℕ)
  | closing (p : ℕ)
  deriving DecidableEq, Repr

/-- When a thread can go on. -/
def GlobalWorld.Enabled (w : GlobalWorld) : GlobalAction → Prop
  | .socket _ _ _ _ => True
  | .hold _ => True
  | .rele p => p ∈ w.calls
  | .close _ => True
  | .shutdown p => ∃ sock ∈ w.self.heap p, sock.state = .stoppingEps ∨ sock.state = .stopping
  | .waitTermsem c => c ∈ w.closing ∧ c.stage = .waitTermsem ∧
      ∃ sock ∈ w.self.heap c.sock, 0 < sock.termsem
  | .waitRelesem c => c ∈ w.closing ∧ c.stage = .waitRelesem ∧
      ∃ sock ∈ w.self.heap c.sock, 0 < sock.relesem
  | .free c => c ∈ w.closing ∧ c.stage = .freeing
  | .term | .init => True

instance (w : GlobalWorld) : DecidablePred w.Enabled
  | .socket _ _ _ _ | .hold _ | .close _ | .term | .init => .isTrue trivial
  | .rele p => inferInstanceAs (Decidable (p ∈ w.calls))
  | .shutdown p => inferInstanceAs (Decidable (∃ sock ∈ w.self.heap p, _ ∨ _))
  | .waitTermsem c | .waitRelesem c =>
    inferInstanceAs (Decidable (_ ∧ _ ∧ ∃ sock ∈ w.self.heap c.sock, _))
  | .free _ => inferInstanceAs (Decidable (_ ∧ _))

/-- The semaphore of a socket was posted, or not. -/
def GlobalWorld.post (w : GlobalWorld) (p : ℕ) (posted : Bool) : GlobalWorld :=
  { w with posts := Function.update w.posts p (w.posts p + if posted then 1 else 0) }

/-- A thread changes a socket. -/
def Global.modify (self : Global) (p : ℕ) (f : Sock → Except Fault Sock) : Except Fault Global :=
  match self.heap p with
  | none => .error .nullDeref
  | some sock => do return { self with heap := Function.update self.heap p (some (← f sock)) }

/-- One action. -/
def GlobalWorld.step (nnMaxSockets : ℕ) (w : GlobalWorld) :
    GlobalAction → Except Fault (GlobalWorld × GlobalAnswer)
  | .socket domain protocol alloc init => do
    let (rc, self) ← nnSocket nnMaxSockets w.self domain protocol alloc init
    return ({ w with self }, .socket rc)
  | .hold s => do
    match ← nnGlobalHoldSocket nnMaxSockets w.self s with
    | (none, self) => return ({ w with self }, .ebadf)
    | (some p, self) => return ({ w with self, calls := p :: w.calls }, .held p)
  | .rele p => do
    let (posted, self) ← nnGlobalReleSocket w.self p
    return ({ w with self, calls := w.calls.erase p }.post p posted, .none)
  | .close s => do
    match ← nnCloseStop nnMaxSockets w.self s with
    | (none, self) => return ({ w with self }, .ebadf)
    | (some (p, posted, posted'), self) =>
      let w := { w with self, closing := { s, sock := p, stage := .waitTermsem } :: w.closing
                        closes := Function.update w.closes p (w.closes p + 1) }
      return ((w.post p posted).post p posted', .closing p)
  | .shutdown p => do return ({ w with self := ← w.self.modify p nnSockShutdown }, .none)
  | .waitTermsem c => do
    let self ← w.self.modify c.sock fun sock => .ok { sock with termsem := sock.termsem - 1 }
    return ({ w with self, closing := { c with stage := .waitRelesem } :: w.closing.erase c },
      .none)
  | .waitRelesem c => do
    let self ← w.self.modify c.sock fun sock => .ok { sock with relesem := sock.relesem - 1 }
    return ({ w with self, closing := { c with stage := .freeing } :: w.closing.erase c }, .none)
  | .free c => do
    return ({ w with self := ← nnCloseFree nnMaxSockets w.self c.s c.sock,
                     closing := w.closing.erase c }, .none)
  | .term => .ok ({ w with self := { w.self with flags := true } }, .none)
  | .init => .ok ({ w with self := { w.self with flags := false } }, .none)

end NanoSocket

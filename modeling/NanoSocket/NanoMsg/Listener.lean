import NanoSocket.Core.Poll
import NanoSocket.NanoMsg.SynchronizedPool
import NanoSocket.Lib.Runs

/-!
# Listening on many sockets (`Listener.cs`, `Internal/Utility.cs`)

A listener has its sockets, the results of the last poll and the entries for `nn_poll` in three
arrays.  `Listen` polls and walks along the results; a handler that is called for a socket can add
and remove sockets, which moves the entries under the index of the loop.

`Listening` is a listener with such a loop; between two notifications the handler makes its calls.
It also records the sockets whose turn has not come.  A run in which the handlers move no result
under the index notifies every socket as it should (`sound_of_allowed`); a handler that removes its
own socket makes the loop skip the next one (`removeSocket_skips`).
-/

namespace NanoSocket

open Runs Core.Poll

/-- `Listener`. -/
structure Listener where
  socketCount : ℕ
  pollFileDescriptors : List NnPollfd
  results : List ℤ
  sockets : List Int32
  deriving DecidableEq, Repr

/-- `Array.Copy`, of `length` elements. -/
def arrayCopy {α : Type*} (source : List α) (i : ℕ) (destination : List α) (j length : ℕ) :
    List α :=
  destination.take j ++ ((source.drop i).take length ++ destination.drop (j + length))

namespace Listener

/-- A new listener: the arrays have one element. -/
def init : Listener :=
  { socketCount := 0, pollFileDescriptors := [⟨0, 0, 0⟩], results := [0], sockets := [0] }

/-- The arrays are full: new ones of twice the size take their place. -/
def grow (self : Listener) : Except ClrException Listener :=
  let newCapacity := int32 (self.sockets.length * 2)
  if newCapacity < 0 then .error .overflow
  else
    let n := newCapacity.toNat
    .ok { self with
      sockets := arrayCopy self.sockets 0 (List.replicate n 0) 0 self.socketCount
      results := arrayCopy self.results 0 (List.replicate n 0) 0 self.socketCount
      pollFileDescriptors :=
        arrayCopy self.pollFileDescriptors 0 (List.replicate n ⟨0, 0, 0⟩) 0 self.socketCount }

/-- `AddSocket`. -/
def addSocket (self : Listener) (socket : Int32) : Except ClrException Listener := do
  let self ← if self.socketCount ≥ self.sockets.length then self.grow else pure self
  return { self with sockets := self.sockets.set self.socketCount socket,
                     socketCount := self.socketCount + 1 }

/-- Where the loop of `RemoveSocket` finds the socket. -/
def find (self : Listener) (socket : Int32) : Option ℕ :=
  (self.sockets.take self.socketCount).findIdx? fun s => s = socket

/-- `RemoveSocket`. -/
def removeSocket (self : Listener) (socket : Int32) : Listener :=
  match self.find socket with
  | none => self
  | some i =>
    let length := self.socketCount - i - 1
    { sockets := arrayCopy self.sockets (i + 1) self.sockets i length
      results := arrayCopy self.results (i + 1) self.results i length
      pollFileDescriptors :=
        arrayCopy self.pollFileDescriptors (i + 1) self.pollFileDescriptors i length
      socketCount := self.socketCount - 1 }

/-- `Utility.Poll`. What `nn_poll` says of the entry at `i` is `revents i`. -/
def poll (self : Listener) (revents : ℕ → Int16) : Listener :=
  let ct := self.socketCount
  let info := (self.sockets.take ct).mapIdx fun i s =>
    ({ fd := s, events := pollin, revents := revents i } : NnPollfd)
  { self with
    pollFileDescriptors := info ++ self.pollFileDescriptors.drop ct
    results :=
      info.map (fun e => if e.revents &&& pollin ≠ 0 then 1 else 0) ++ self.results.drop ct }

/-- The loop of `Listen`, from the index `i` to the next notification; `n` entries are left. -/
def loop (self : Listener) : ℕ → ℕ → Option ℕ
  | 0, _ => none
  | n + 1, i => if self.results[i]? = some 0 then loop self n (i + 1) else some i

end Listener

/-- What happens to a listener: calls of the user, who may be a handler while the loop of a `Listen`
is running, a `Listen` whose poll does or does not throw, and the return of a handler to the
loop. -/
inductive ListenerAction
  | addSocket (socket : Int32)
  | removeSocket (socket : Int32)
  | listen (revents : ℕ → Int16)
  | pollThrew
  | handlerReturned

/-- What is seen of it. -/
inductive ListenerEvent
  | called
  | notified (socket : Int32)
  | finished
  deriving DecidableEq, Repr

/-- An exception, or an action that cannot happen now. -/
inductive NotTaken
  | threw (e : ClrException)
  | outOfTurn
  deriving DecidableEq, Repr

/-- A listener with the index at which the loop of `Listen` has called the handler.  For the
`Listen` that is running or was the last: the sockets that the poll reported, in their order, those
of them whose turn has yet to come, those that were not registered when their turn came, and the
notifications. -/
structure Listening where
  listener : Listener
  index : Option ℕ
  reported : List Int32
  pending : List Int32
  gone : List Int32
  notified : List Int32
  deriving DecidableEq, Repr

namespace Listening

/-- A new listener. -/
def init : Listening :=
  { listener := Listener.init, index := none, reported := [], pending := [], gone := [],
    notified := [] }

/-- The sockets that are registered. -/
def registered (s : Listening) : List Int32 := s.listener.sockets.take s.listener.socketCount

/-- The sockets that a poll reports. -/
def reports (s : Listening) (revents : ℕ → Int16) : List Int32 :=
  ((s.registered.zipIdx).filter fun x => revents x.2 &&& pollin ≠ 0).map Prod.fst

/-- The beginning of `Listen`: the turns of the sockets that the poll reports have yet to come. -/
def polled (s : Listening) (revents : ℕ → Int16) : Listening :=
  let reported := (s.reports revents).eraseDups
  { listener := s.listener.poll revents, index := none, reported, pending := reported, gone := [],
    notified := [] }

/-- A turn: the sockets before `socket` had theirs. -/
def turn (s : Listening) (socket : Int32) : Listening :=
  { s with
    pending := (s.pending.dropWhile (· ≠ socket)).tail
    gone := s.gone ++ (s.pending.takeWhile (· ≠ socket)).filter (· ∉ s.registered)
    notified := s.notified ++ [socket] }

/-- The loop of `Listen` goes on at the index `i`. -/
def goOn (s : Listening) (i : ℕ) : Listening × ListenerEvent :=
  match s.listener.loop (s.listener.socketCount - i) i with
  | none =>
    ({ s with index := none, pending := [], gone := s.gone ++ s.pending.filter (· ∉ s.registered) },
      .finished)
  | some j =>
    let socket := (s.listener.sockets[j]?).getD 0
    ({ s.turn socket with index := some j }, .notified socket)

/-- One action. -/
def step (s : Listening) : ListenerAction → Except NotTaken (Listening × ListenerEvent)
  | .addSocket socket =>
    match s.listener.addSocket socket with
    | .error e => .error (.threw e)
    | .ok listener => .ok ({ s with listener }, .called)
  | .removeSocket socket => .ok ({ s with listener := s.listener.removeSocket socket }, .called)
  | .listen revents =>
    match s.index with
    | some _ => .error .outOfTurn
    | none => .ok ((s.polled revents).goOn 0)
  | .pollThrew =>
    match s.index with
    | some _ => .error .outOfTurn
    | none => .ok ({ s with reported := [], pending := [], gone := [], notified := [] }, .finished)
  | .handlerReturned =>
    match s.index with
    | none => .error .outOfTurn
    | some i => .ok (s.goOn (i + 1))

/-- The notifications of a `Listen` are as they should be: only sockets that were reported, each of
them once, and none is left out that was registered when its turn came. -/
structure Sound (s : Listening) : Prop where
  once : s.notified.Nodup
  reported : ∀ socket ∈ s.notified, socket ∈ s.reported
  all : ∀ socket ∈ s.reported, socket ∈ s.notified ∨ socket ∈ s.pending ∨ socket ∈ s.gone
  finished : s.index = none → s.pending = []

/-- The sockets that are registered, with their results. -/
def entries (s : Listening) : List (Int32 × ℤ) :=
  s.registered.zip (s.listener.results.take s.listener.socketCount)

/-- The result at the place of the next socket to be added, which a socket that was removed has left
there. -/
def leftover (s : Listening) : ℤ := (s.listener.results[s.listener.socketCount]?).getD 0

/-- The actions that move no result under the index of the loop. -/
def Allowed (s : Listening) : ListenerAction → Prop
  | .addSocket socket => ∀ i ∈ s.index,
    (s.leftover = 0 ∨ s.listener.socketCount ≤ i) ∧ (socket ∈ s.pending → socket ∈ s.registered)
  | .removeSocket socket => ∀ i ∈ s.index, ∀ p ∈ s.listener.find socket,
    if p ≤ i then ∀ entry ∈ s.entries[i + 1]?, entry.2 = 0
    else (∀ entry ∈ s.entries[p]?, entry.2 = 0) ∨ socket ∉ s.registered.drop (p + 1)
  | .listen revents => (s.reports revents).Nodup
  | .pollThrew | .handlerReturned => True

instance Allowed.decidable (s : Listening) : ∀ a, Decidable (s.Allowed a)
  | .addSocket socket => inferInstanceAs (Decidable (∀ i ∈ s.index,
    (s.leftover = 0 ∨ s.listener.socketCount ≤ i) ∧ (socket ∈ s.pending → socket ∈ s.registered)))
  | .removeSocket socket => inferInstanceAs (Decidable (∀ i ∈ s.index, ∀ p ∈ s.listener.find socket,
    if p ≤ i then ∀ entry ∈ s.entries[i + 1]?, entry.2 = 0
    else (∀ entry ∈ s.entries[p]?, entry.2 = 0) ∨ socket ∉ s.registered.drop (p + 1)))
  | .listen revents => inferInstanceAs (Decidable (s.reports revents).Nodup)
  | .pollThrew | .handlerReturned => .isTrue trivial

end Listening

/-! ### What the calls do to the registered sockets and their results -/

namespace Listener

variable {self l : Listener} {socket : Int32}

/-- The arrays have one length, which is that of an array. -/
structure Wf (l : Listener) : Prop where
  results : l.results.length = l.sockets.length
  pollFileDescriptors : l.pollFileDescriptors.length = l.sockets.length
  count : l.socketCount ≤ l.sockets.length
  capacity : 0 < l.sockets.length ∧ l.sockets.length < 2 ^ 31

theorem init_wf : init.Wf := ⟨rfl, rfl, by decide, by decide, by decide⟩

theorem arrayCopy_grow {α : Type*} (xs : List α) (a : α) {n count : ℕ} :
    arrayCopy xs 0 (List.replicate n a) 0 count = xs.take count ++ List.replicate
      (n - count) a := by
  simp [arrayCopy]

/-- Elements that are moved down by one overwrite the one at `i`. -/
theorem arrayCopy_down {α : Type*} {xs : List α} {i count : ℕ} (hi : i < count)
    (hcount : count ≤ xs.length) :
    (arrayCopy xs (i + 1) xs i (count - i - 1)).length = xs.length ∧
      (arrayCopy xs (i + 1) xs i (count - i - 1)).take (count - 1) =
        (xs.take count).eraseIdx i := by
  have hlength : (xs.take i ++ (xs.drop (i + 1)).take (count - i - 1)).length = count - 1 := by
    simp only [List.length_append, List.length_take, List.length_drop]
    omega
  rw [arrayCopy, ← List.append_assoc]
  constructor
  · rw [List.length_append, hlength, List.length_drop]
    omega
  · rw [List.take_left' hlength, List.eraseIdx_eq_take_drop_succ, List.take_take, List.drop_take,
      Nat.min_eq_left hi.le]
    congr 2

/-- A capacity that has not overflowed. -/
theorem int32_twice {c : ℕ} (hc : c < 2 ^ 31) (h : ¬ int32 (c * 2) < 0) :
    int32 (c * 2) = (c * 2 : ℕ) := by
  rw [int32, Int.bmod_def] at h ⊢
  split_ifs at h ⊢ <;> omega

theorem grow_spec (hwf : self.Wf) (hfull : self.sockets.length ≤ self.socketCount)
    (h : self.grow = .ok l) :
    l.Wf ∧ l.socketCount = self.socketCount ∧ self.socketCount < l.sockets.length ∧
      l.sockets.take self.socketCount = self.sockets.take self.socketCount ∧
      l.results.take self.socketCount = self.results.take self.socketCount ∧
      l.results[self.socketCount]? = some 0 := by
  have hcount : self.socketCount = self.sockets.length := le_antisymm hwf.count hfull
  have hpos := hwf.capacity.1
  rw [grow] at h
  split_ifs at h with hneg
  have hn := int32_twice hwf.capacity.2 hneg
  have hbound := (int32_range (self.sockets.length * 2)).2
  rw [hn] at h hbound
  cases h
  simp only [Int.toNat_natCast, arrayCopy_grow]
  have hlength : ∀ {α : Type} (xs : List α) (a : α), xs.length = self.sockets.length →
      (xs.take self.socketCount ++ List.replicate
        (self.sockets.length * 2 - self.socketCount) a).length = self.sockets.length * 2 := by
    intro α xs a hxs
    rw [List.length_append, List.length_take, List.length_replicate]
    omega
  have htake : ∀ {α : Type} (xs : List α) (a : α), xs.length = self.sockets.length →
      (xs.take self.socketCount ++ List.replicate
        (self.sockets.length * 2 - self.socketCount) a).take
        self.socketCount = xs.take self.socketCount := by
    intro α xs a hxs
    exact List.take_left' (by rw [List.length_take]; omega)
  have hresults := hlength self.results 0 hwf.results
  have hsockets := hlength self.sockets 0 rfl
  refine ⟨⟨hresults.trans hsockets.symm, (hlength _ _ hwf.pollFileDescriptors).trans hsockets.symm,
    ?_, ?_, ?_⟩, trivial, ?_, htake _ _ rfl, htake _ _ hwf.results, ?_⟩
  · change self.socketCount ≤ List.length _
    rw [hsockets]
    omega
  · rw [hsockets]
    omega
  · rw [hsockets]
    omega
  · rw [hsockets]
    omega
  · rw [List.getElem?_append_right (by rw [List.length_take]; omega), List.length_take,
      hwf.results, ← hcount, Nat.min_self, Nat.sub_self, List.getElem?_replicate]
    exact if_pos (by omega)

/-- A socket is added behind the others, with the result that was left at its place. -/
theorem addSocket_spec (hwf : self.Wf) (h : self.addSocket socket = .ok l) :
    l.Wf ∧ l.socketCount = self.socketCount + 1 ∧
      l.sockets.take l.socketCount = self.sockets.take self.socketCount ++ [socket] ∧
      l.results.take l.socketCount =
        self.results.take self.socketCount ++ [(self.results[self.socketCount]?).getD 0] := by
  -- what follows when there is room
  have hroom : ∀ m : Listener, m.Wf → m.socketCount < m.sockets.length →
      ∀ m' : Listener, m' = { m with sockets := m.sockets.set m.socketCount socket,
                                     socketCount := m.socketCount + 1 } →
      m'.Wf ∧ m'.socketCount = m.socketCount + 1 ∧
        m'.sockets.take m'.socketCount = m.sockets.take m.socketCount ++ [socket] ∧
        m'.results.take m'.socketCount = m.results.take m.socketCount ++
          [(m.results[m.socketCount]?).getD 0] := by
    rintro m hm hlt m' rfl
    have hlt' : m.socketCount < m.results.length := hm.results ▸ hlt
    refine ⟨⟨?_, ?_, ?_, ?_⟩, rfl, ?_, ?_⟩
    · exact hm.results.trans List.length_set.symm
    · exact hm.pollFileDescriptors.trans List.length_set.symm
    · change m.socketCount + 1 ≤ List.length _
      rw [List.length_set]
      exact hlt
    · rw [List.length_set]
      exact hm.capacity
    · change (m.sockets.set m.socketCount socket).take (m.socketCount + 1) = _
      rw [List.take_add_one, List.take_set_of_le le_rfl, List.getElem?_set_self hlt]
      rfl
    · change m.results.take (m.socketCount + 1) = _
      rw [List.take_add_one, List.getElem?_eq_getElem hlt']
      rfl
  rw [addSocket] at h
  by_cases hfull : self.socketCount ≥ self.sockets.length
  · rw [if_pos hfull] at h
    cases hgrow : self.grow with
    | error e =>
      rw [hgrow] at h
      cases h
    | ok m =>
      rw [hgrow] at h
      obtain ⟨hm, hcount, hlt, hsockets, hresults, hzero⟩ := grow_spec hwf hfull hgrow
      have hnone : self.results[self.socketCount]? = none :=
        List.getElem?_eq_none (by rw [hwf.results]; exact hfull)
      have := hroom m hm (by omega) l (Except.ok.inj h).symm
      rw [hcount, hsockets, hresults, hzero] at this
      rw [hnone]
      exact this
  · rw [if_neg hfull] at h
    exact hroom self hwf (by omega) l (Except.ok.inj h).symm

/-- The first place of a socket. -/
theorem find_spec {p : ℕ} (h : self.find socket = some p) :
    p < self.socketCount ∧ (self.sockets.take self.socketCount)[p]? = some socket ∧
      socket ∉ (self.sockets.take self.socketCount).take p := by
  rw [find, List.findIdx?_eq_some_iff_getElem] at h
  obtain ⟨hp, hsocket, hbefore⟩ := h
  have hlt : p < self.socketCount := by
    rw [List.length_take] at hp
    omega
  refine ⟨hlt, ?_, ?_⟩
  · rw [List.getElem?_eq_getElem hp]
    exact congrArg some (of_decide_eq_true hsocket)
  · intro hmem
    obtain ⟨j, hj, hget⟩ := List.mem_take_iff_getElem.1 hmem
    exact hbefore j (by omega) (decide_eq_true hget)

/-- The socket at the first place is removed with its result. -/
theorem removeSocket_spec (hwf : self.Wf) {p : ℕ} (h : self.find socket = some p) :
    let l := self.removeSocket socket
    l.Wf ∧ l.sockets.take l.socketCount = (self.sockets.take self.socketCount).eraseIdx p ∧
      l.results.take l.socketCount = (self.results.take self.socketCount).eraseIdx p := by
  obtain ⟨hp, -, -⟩ := find_spec h
  obtain ⟨hsockets, hsockets'⟩ := arrayCopy_down hp hwf.count
  obtain ⟨hresults, hresults'⟩ := arrayCopy_down hp (hwf.count.trans_eq hwf.results.symm)
  obtain ⟨hfds, -⟩ := arrayCopy_down hp (hwf.count.trans_eq hwf.pollFileDescriptors.symm)
  simp only [removeSocket, h]
  refine ⟨⟨?_, ?_, ?_, ?_⟩, hsockets', hresults'⟩
  · rw [hresults, hsockets, hwf.results]
  · rw [hfds, hsockets, hwf.pollFileDescriptors]
  · rw [hsockets]
    exact (Nat.sub_le _ _).trans hwf.count
  · rw [hsockets]
    exact hwf.capacity

theorem removeSocket_absent (h : self.find socket = none) : self.removeSocket socket = self := by
  rw [removeSocket, h]

/-- The results of a poll. -/
theorem poll_spec (hwf : self.Wf) (revents : ℕ → Int16) :
    let l := self.poll revents
    l.Wf ∧ l.socketCount = self.socketCount ∧ l.sockets = self.sockets ∧
      l.results.take l.socketCount =
        (List.range self.socketCount).map fun i => if revents i &&& pollin ≠ 0 then 1 else 0 := by
  have hlength : ((self.sockets.take self.socketCount).mapIdx fun i s =>
      ({ fd := s, events := pollin, revents := revents i } : NnPollfd)).length =
        self.socketCount := by
    rw [List.length_mapIdx, List.length_take, Nat.min_eq_left hwf.count]
  refine ⟨⟨?_, ?_, hwf.count, hwf.capacity⟩, rfl, rfl, ?_⟩
  · simp only [poll, List.length_append, List.length_map, hlength, List.length_drop, hwf.results]
    exact Nat.add_sub_cancel' hwf.count
  · simp only [poll, List.length_append, hlength, List.length_drop, hwf.pollFileDescriptors]
    exact Nat.add_sub_cancel' hwf.count
  · simp only [poll]
    rw [List.take_left' (by rw [List.length_map, hlength])]
    refine List.ext_getElem (by simp [Nat.min_eq_left hwf.count]) fun i hi hi' => ?_
    simp

/-- Where the loop calls the handler again: the results before it are 0. -/
theorem loop_spec (hwf : self.Wf) (n i : ℕ) (hn : n = self.socketCount - i) :
    let entries := (self.sockets.take self.socketCount).zip (self.results.take self.socketCount)
    match self.loop n i with
    | none => ∀ entry ∈ entries.drop i, entry.2 = 0
    | some j => ∃ zeros socket result, entries.drop i = zeros ++ (socket, result) :: entries.drop
        (j + 1) ∧
        (∀ entry ∈ zeros, entry.2 = 0) ∧ result ≠ 0 ∧ self.sockets[j]? = some socket ∧
          j < self.socketCount := by
  intro entries
  have hlength : entries.length = self.socketCount := by
    simp only [entries, List.length_zip, List.length_take, hwf.results, Nat.min_self]
    exact Nat.min_eq_left hwf.count
  induction n generalizing i with
  | zero =>
    rw [loop, List.drop_eq_nil_of_le (by omega)]
    exact nofun
  | succ n ih =>
    have hi : i < self.socketCount := by omega
    have hs : i < self.sockets.length := by have := hwf.count; omega
    have hr : i < self.results.length := by have := hwf.results; omega
    have hdrop : entries.drop i = (self.sockets[i], self.results[i]) :: entries.drop (i + 1) := by
      rw [List.drop_eq_getElem_cons (by omega)]
      simp [entries]
    rw [loop, List.getElem?_eq_getElem hr]
    by_cases hzero : self.results[i] = 0
    · have := ih (i + 1) (by omega)
      rw [hzero, if_pos rfl]
      rw [hzero] at hdrop
      revert this
      cases self.loop n (i + 1) with
      | none =>
        intro hall entry hmem
        rw [hdrop] at hmem
        rcases List.mem_cons.1 hmem with rfl | hmem
        · rfl
        · exact hall entry hmem
      | some j =>
        rintro ⟨zeros, socket, result, heq, hzeros, hrest⟩
        refine ⟨(self.sockets[i], 0) :: zeros, socket, result, ?_, ?_, hrest⟩
        · rw [hdrop, heq]
          rfl
        · intro entry hmem
          rcases List.mem_cons.1 hmem with rfl | hmem
          · rfl
          · exact hzeros entry hmem
    · rw [if_neg (by simpa using hzero)]
      exact ⟨[], _, _, hdrop, nofun, hzero, List.getElem?_eq_getElem hs, hi⟩

end Listener

namespace Listening

variable {s : Listening} {socket : Int32}

/-! ### Whose turn it is -/

/-- The sockets that the loop will notify, from the index `i`. -/
def readable (s : Listening) (i : ℕ) : List Int32 :=
  ((s.entries.drop i).filter fun entry => entry.2 ≠ 0).map Prod.fst

/-- What is kept while the loop is running: a socket whose turn has yet to come was not notified. -/
structure Kept (s : Listening) : Prop where
  wf : s.listener.Wf
  once : s.notified.Nodup
  reported : ∀ socket ∈ s.notified, socket ∈ s.reported
  all : ∀ socket ∈ s.reported, socket ∈ s.notified ∨ socket ∈ s.pending ∨ socket ∈ s.gone
  nodup : s.pending.Nodup
  fresh : ∀ socket ∈ s.pending, socket ∈ s.reported ∧ socket ∉ s.notified

/-- The loop has before it the sockets that are registered and whose turn has yet to come. -/
structure Inv (s : Listening) : Prop extends s.Kept where
  finished : s.index = none → s.pending = []
  upcoming : ∀ i, s.index = some i → s.readable (i + 1) = s.pending.filter (· ∈ s.registered)

theorem Inv.sound (hs : s.Inv) : s.Sound := ⟨hs.once, hs.reported, hs.all, hs.finished⟩

theorem init_inv : init.Inv :=
  ⟨⟨Listener.init_wf, List.nodup_nil, nofun, nofun, List.nodup_nil, nofun⟩, fun _ => rfl, nofun⟩

/-- The turns up to a socket that is the first of those that are registered. -/
theorem turn_spec {skipped rest : List Int32} (heq : s.pending = skipped ++ socket :: rest)
    (hskipped : ∀ other ∈ skipped, other ∉ s.registered) (hsocket : socket ∈ s.registered) :
    s.turn socket =
      { s with pending := rest, gone := s.gone ++ skipped,
               notified := s.notified ++ [socket] } := by
  have hne : ∀ other ∈ skipped, decide (other ≠ socket) = true := by
    intro other hmem
    refine decide_eq_true ?_
    rintro rfl
    exact hskipped other hmem hsocket
  have htake : s.pending.takeWhile (· ≠ socket) = skipped := by
    rw [heq, List.takeWhile_append_of_pos hne]
    simp
  have hdrop : s.pending.dropWhile (· ≠ socket) = socket :: rest := by
    rw [heq, List.dropWhile_append_of_pos hne]
    simp
  have hgone : skipped.filter (· ∉ s.registered) = skipped :=
    List.filter_eq_self.2 fun other hmem => decide_eq_true (hskipped other hmem)
  simp only [turn, htake, hdrop, hgone, List.tail_cons]

/-- The loop goes on with the next socket that is registered, or ends when there is none. -/
theorem Kept.goOn (hs : s.Kept) (i : ℕ)
    (hready : s.readable i = s.pending.filter (· ∈ s.registered)) :
    (s.goOn i).1.Inv := by
  have hloop := Listener.loop_spec hs.wf (s.listener.socketCount - i) i rfl
  rw [Listening.goOn]
  cases hj : s.listener.loop (s.listener.socketCount - i) i with
  | none =>
    rw [hj] at hloop
    -- no socket is registered whose turn has yet to come
    have hnil : s.pending.filter (· ∈ s.registered) = [] := by
      rw [← hready, readable, List.map_eq_nil_iff, List.filter_eq_nil_iff]
      intro entry hmem
      simpa using hloop entry hmem
    have hgone : s.pending.filter (· ∉ s.registered) = s.pending := by
      refine List.filter_eq_self.2 fun other hmem => decide_eq_true ?_
      simpa using List.filter_eq_nil_iff.1 hnil other hmem
    simp only [hgone]
    refine ⟨⟨hs.wf, hs.once, hs.reported, ?_, List.nodup_nil, nofun⟩, fun _ => rfl, nofun⟩
    intro other hmem
    rcases hs.all other hmem with h | h | h
    · exact .inl h
    · exact .inr (.inr (List.mem_append_right _ h))
    · exact .inr (.inr (List.mem_append_left _ h))
  | some j =>
    rw [hj] at hloop
    obtain ⟨zeros, socket, result, hentries, hzeros, hresult, hsocket, hlt⟩ := hloop
    have hcons : s.readable i = socket :: s.readable (j + 1) := by
      have hnil : zeros.filter (fun entry => entry.2 ≠ 0) = [] :=
        List.filter_eq_nil_iff.2 fun entry hmem => by simpa using hzeros entry hmem
      rw [readable, show s.entries.drop i = _ from hentries, List.filter_append, hnil,
        List.nil_append, List.filter_cons_of_pos (by simpa using hresult)]
      rfl
    obtain ⟨skipped, rest, hpending, hskipped, hregistered, hrest⟩ :=
      List.filter_eq_cons_iff.1 (hready.symm.trans hcons)
    have hregistered := of_decide_eq_true hregistered
    have hturn :=
      turn_spec hpending (fun other hmem => by simpa using hskipped other hmem) hregistered
    simp only [hsocket, Option.getD_some, hturn]
    have hmem : socket ∈ s.pending := hpending ▸ List.mem_append_right _ (List.mem_cons_self ..)
    have hnodup := hs.nodup
    rw [hpending, List.nodup_middle] at hnodup
    obtain ⟨hnot, hnodup⟩ := List.nodup_cons.1 hnodup
    refine ⟨⟨hs.wf, ?_, ?_, ?_, (List.nodup_append.1 hnodup).2.1, ?_⟩, nofun, ?_⟩
    · exact List.nodup_append.2 ⟨hs.once, List.nodup_singleton _, by
        rintro a ha b hb rfl
        cases List.mem_singleton.1 hb
        exact (hs.fresh _ hmem).2 ha⟩
    · intro other hother
      rcases List.mem_append.1 hother with h | h
      · exact hs.reported other h
      · cases List.mem_singleton.1 h
        exact (hs.fresh _ hmem).1
    · intro other hother
      rcases hs.all other hother with h | h | h
      · exact .inl (List.mem_append_left _ h)
      · rw [hpending] at h
        rcases List.mem_append.1 h with h | h
        · exact .inr (.inr (List.mem_append_right _ h))
        · rcases List.mem_cons.1 h with rfl | h
          · exact .inl (List.mem_append_right _ (List.mem_singleton_self _))
          · exact .inr (.inl h)
      · exact .inr (.inr (List.mem_append_left _ h))
    · intro other hother
      have hother' : other ∈ s.pending :=
        hpending ▸ List.mem_append_right _ (List.mem_cons_of_mem _ hother)
      refine ⟨(hs.fresh other hother').1, fun h => ?_⟩
      rcases List.mem_append.1 h with h | h
      · exact (hs.fresh other hother').2 h
      · cases List.mem_singleton.1 h
        exact hnot (List.mem_append_right _ hother)
    · intro j' hj'
      cases hj'
      exact hrest.symm

/-! ### What the actions keep -/

theorem eraseDups_of_nodup {xs : List Int32} (h : xs.Nodup) : xs.eraseDups = xs := by
  induction xs with
  | nil => rfl
  | cons x xs ih =>
    obtain ⟨hx, hxs⟩ := List.nodup_cons.1 h
    have hfilter : xs.filter (fun y => !y == x) = xs := by
      refine List.filter_eq_self.2 fun y hy => ?_
      have hne : y ≠ x := ne_of_mem_of_not_mem hy hx
      simpa using hne
    rw [List.eraseDups_cons, hfilter, ih hxs]

/-- After a poll the loop has before it what was reported. -/
theorem readable_polled (hwf : s.listener.Wf) (revents : ℕ → Int16) :
    (s.polled revents).readable 0 = s.reports revents := by
  obtain ⟨-, hcount, hsockets, hresults⟩ := Listener.poll_spec hwf revents
  have hlength : s.registered.length = s.listener.socketCount := by
    rw [registered, List.length_take]
    exact Nat.min_eq_left hwf.count
  have hlistener : (s.polled revents).listener = s.listener.poll revents := rfl
  rw [readable, List.drop_zero, entries, registered, hlistener, hresults, hcount, hsockets, reports,
    List.zipIdx_eq_zip_range', hlength, List.zip_map_right, List.filter_map, List.map_map,
      List.range_eq_range']
  congr 1
  refine List.filter_congr fun x _ => ?_
  simp only [Function.comp_apply, Prod.map_snd]
  split_ifs with h
  · simp [h]
  · simp [h]

theorem Inv.polled (hs : s.Inv) {revents : ℕ → Int16} (hnodup : (s.reports revents).Nodup) :
    ((s.polled revents).goOn 0).1.Inv := by
  have hwf := (Listener.poll_spec hs.wf revents).1
  have hpending : (s.polled revents).pending = s.reports revents := eraseDups_of_nodup hnodup
  have hkept : (s.polled revents).Kept := by
    refine ⟨hwf, List.nodup_nil, nofun, fun _ hmem => .inr (.inl hmem), ?_,
      fun _ hmem => ⟨hmem, nofun⟩⟩
    rw [hpending]
    exact hnodup
  refine hkept.goOn 0 ?_
  rw [readable_polled hs.wf revents, hpending, List.filter_eq_self.2]
  intro socket hmem
  obtain ⟨x, hx, rfl⟩ := List.mem_map.1 hmem
  exact decide_eq_true (List.fst_mem_of_mem_zipIdx (List.mem_of_mem_filter hx))

/-- A call that leaves the loop with what it should have before it. -/
theorem Inv.called (hs : s.Inv) {listener : Listener} (hwf : listener.Wf)
    (hupcoming : ∀ i, s.index = some i → Listening.readable { s with listener } (i + 1) =
      s.pending.filter (· ∈ Listening.registered { s with listener })) :
    Inv { s with listener } :=
  ⟨⟨hwf, hs.once, hs.reported, hs.all, hs.nodup, hs.fresh⟩, hs.finished, hupcoming⟩

theorem Inv.addSocket (hs : s.Inv) {listener : Listener}
    (h : s.listener.addSocket socket = .ok listener) (hallowed : s.Allowed (.addSocket socket)) :
    Inv { s with listener } := by
  obtain ⟨hwf, hcount, hsockets, hresults⟩ := Listener.addSocket_spec hs.wf h
  have hlength : s.registered.length = (s.listener.results.take s.listener.socketCount).length := by
    simp only [registered, List.length_take, hs.wf.results]
  have hentries : Listening.entries { s with listener } = s.entries ++ [(socket, s.leftover)] := by
    rw [entries, registered, hsockets, hresults]
    exact List.zip_append hlength
  refine hs.called hwf fun i hi => ?_
  obtain ⟨hleftover, hpending⟩ := hallowed i hi
  have hentriesLength : s.entries.length = s.listener.socketCount := by
    rw [entries, List.length_zip, hlength, Nat.min_self, List.length_take, hs.wf.results]
    exact Nat.min_eq_left hs.wf.count
  -- the new socket is not before the loop, or has no result
  have hreadable : Listening.readable { s with listener } (i + 1) = s.readable (i + 1) := by
    rw [readable, hentries, List.drop_append, List.filter_append, hentriesLength]
    have hnil :
        (([(socket, s.leftover)] : List (Int32 × ℤ)).drop (i + 1 - s.listener.socketCount)).filter
        (fun entry => entry.2 ≠ 0) = [] := by
      rcases hleftover with hzero | hle
      · refine List.filter_eq_nil_iff.2 fun entry hmem => ?_
        cases List.mem_singleton.1 (List.mem_of_mem_drop hmem)
        simpa using hzero
      · rw [List.drop_eq_nil_of_le]
        · rfl
        · rw [List.length_singleton]
          omega
    rw [hnil, List.append_nil]
    rfl
  rw [hreadable, hs.upcoming i hi]
  refine List.filter_congr fun other hmem => ?_
  have : Listening.registered { s with listener } = s.registered ++ [socket] := hsockets
  rw [this, decide_eq_decide, List.mem_append, List.mem_singleton]
  constructor
  · exact .inl
  · rintro (h | rfl)
    · exact h
    · exact hpending hmem

theorem zip_eraseIdx {α β : Type*} (xs : List α) (ys : List β) (p : ℕ) :
    (xs.eraseIdx p).zip (ys.eraseIdx p) = (xs.zip ys).eraseIdx p := by
  induction xs generalizing ys p with
  | nil => simp
  | cons x xs ih =>
    cases ys with
    | nil => simp
    | cons y ys =>
      cases p with
      | zero => rfl
      | succ p => simp [ih]

/-- The sockets of a part of the entries that have a result. -/
def ready (entries : List (Int32 × ℤ)) : List Int32 :=
  (entries.filter fun entry => entry.2 ≠ 0).map Prod.fst

theorem ready_append (xs ys : List (Int32 × ℤ)) : ready (xs ++ ys) = ready xs ++ ready ys := by
  rw [ready, List.filter_append, List.map_append]
  rfl

/-- When an entry is removed, the loop still has those before it that are registered. -/
theorem ready_removed {before behind : List (Int32 × ℤ)} {result : ℤ} {k : ℕ}
    (hfirst : socket ∉ before.map Prod.fst)
    (hallowed : if before.length < k then ∀ entry ∈ (behind.drop (k - before.length - 1)).head?,
      entry.2 = 0 else result = 0 ∨ socket ∉ behind.map Prod.fst) :
    ready ((before ++ behind).drop k) =
      (ready ((before ++ (socket, result) :: behind).drop k)).filter
        (· ∈ (before ++ behind).map Prod.fst) := by
  have hkept : (ready ((before ++ behind).drop k)).filter (· ∈ (before ++ behind).map Prod.fst) =
      ready ((before ++ behind).drop k) := by
    refine List.filter_eq_self.2 fun other hmem => decide_eq_true ?_
    obtain ⟨entry, hentry, rfl⟩ := List.mem_map.1 hmem
    exact List.mem_map_of_mem (List.mem_of_mem_drop (List.mem_of_mem_filter hentry))
  split_ifs at hallowed with hk
  -- the entries behind move under the index: the first of them is skipped, which has no result
  · have hsame : ready ((before ++ behind).drop k) =
        ready ((before ++ (socket, result) :: behind).drop k) := by
      obtain ⟨d, rfl⟩ := Nat.exists_eq_add_of_lt hk
      have hd : before.length + d + 1 - before.length - 1 = d := by omega
      rw [hd] at hallowed
      have hold : (before ++ (socket, result) :: behind).drop (before.length + d + 1) =
          behind.drop d := by
        rw [Nat.add_assoc, ← List.drop_drop, List.drop_left, List.drop_succ_cons]
      have hnew : (before ++ behind).drop (before.length + d + 1) = (behind.drop d).tail := by
        rw [Nat.add_assoc, ← List.drop_drop, List.drop_left, List.tail_drop]
      rw [hold, hnew]
      cases hdrop : behind.drop d with
      | nil => rfl
      | cons entry rest =>
        rw [hdrop] at hallowed
        have hzero := hallowed entry rfl
        rw [List.tail_cons, ready, ready, List.filter_cons_of_neg (by simpa using hzero)]
    rw [← hsame, hkept]
  · have hle : k ≤ before.length := Nat.not_lt.1 hk
    rw [List.drop_append_of_le_length hle] at hkept
    rw [List.drop_append_of_le_length hle, List.drop_append_of_le_length hle,
      ready_append, ready_append]
    rw [ready_append] at hkept
    rcases eq_or_ne result 0 with rfl | hresult
    · have hzero : ready ((socket, 0) :: behind) = ready behind := by
        rw [ready, List.filter_cons_of_neg (by simp)]
        rfl
      rw [hzero, hkept]
    · have hcons : ready ((socket, result) :: behind) = socket :: ready behind := by
        rw [ready, List.filter_cons_of_pos (by simpa using hresult)]
        rfl
      have hnot : socket ∉ (before ++ behind).map Prod.fst := by
        rw [List.map_append, List.mem_append, not_or]
        exact ⟨hfirst, hallowed.resolve_left hresult⟩
      rw [List.filter_append] at hkept
      rw [hcons, List.filter_append, List.filter_cons_of_neg (by simpa using hnot), hkept]

theorem entries_map (hwf : s.listener.Wf) : s.entries.map Prod.fst = s.registered := by
  refine List.map_fst_zip ?_
  rw [registered, List.length_take, List.length_take, hwf.results]

theorem Inv.removeSocket (hs : s.Inv) (hallowed : s.Allowed (.removeSocket socket)) :
    Inv { s with listener := s.listener.removeSocket socket } := by
  cases hfind : s.listener.find socket with
  | none =>
    rw [Listener.removeSocket_absent hfind]
    exact hs
  | some p =>
    obtain ⟨-, hsocket, hfirst⟩ := Listener.find_spec hfind
    obtain ⟨hwf, hsockets, hresults⟩ := Listener.removeSocket_spec hs.wf hfind
    refine hs.called hwf fun i hi => ?_
    have hallowed := hallowed i hi p hfind
    -- the entry of the socket, with those before and behind it
    have hmap := entries_map hs.wf
    have hlt : p < s.entries.length := by
      rw [← List.length_map (f := Prod.fst), hmap]
      exact (List.getElem?_eq_some_iff.1 hsocket).1
    obtain ⟨result, hentry⟩ : ∃ result, s.entries[p] = (socket, result) := by
      have hfst : (s.entries.map Prod.fst)[p]? = some socket := hmap ▸ hsocket
      rw [List.getElem?_map, List.getElem?_eq_getElem hlt] at hfst
      exact ⟨s.entries[p].2, Prod.ext (Option.some_inj.1 hfst) rfl⟩
    have hsplit : s.entries = s.entries.take p ++ (socket, result) :: s.entries.drop (p + 1) := by
      rw [← hentry, ← List.drop_eq_getElem_cons hlt, List.take_append_drop]
    have hentries : Listening.entries { s with listener := s.listener.removeSocket socket } =
        s.entries.take p ++ s.entries.drop (p + 1) := by
      rw [← List.eraseIdx_eq_take_drop_succ, entries, registered, hsockets, hresults, zip_eraseIdx]
      rfl
    have hregistered : Listening.registered { s with listener := s.listener.removeSocket socket } =
        (s.entries.take p ++ s.entries.drop (p + 1)).map Prod.fst := by
      rw [← hentries, entries_map hwf]
    have hlength : (s.entries.take p).length = p := by
      rw [List.length_take, Nat.min_eq_left hlt.le]
    have hbefore : socket ∉ (s.entries.take p).map Prod.fst := by
      rw [List.map_take, hmap]
      exact hfirst
    have hbehind : if (s.entries.take p).length < i + 1 then
        ∀ entry ∈ ((s.entries.drop (p + 1)).drop (i + 1 - (s.entries.take p).length - 1)).head?,
          entry.2 = 0
        else result = 0 ∨ socket ∉ (s.entries.drop (p + 1)).map Prod.fst := by
      rw [hlength]
      by_cases hp : p ≤ i
      · rw [if_pos hp] at hallowed
        rw [if_pos (Nat.lt_succ_of_le hp), List.drop_drop, List.head?_drop,
          show p + 1 + (i + 1 - p - 1) = i + 1 by omega]
        exact hallowed
      · rw [if_neg hp] at hallowed
        rw [if_neg (by omega), List.map_drop, hmap]
        exact hallowed.imp_left fun hzero =>
          hzero _ ((List.getElem?_eq_getElem hlt).trans (congrArg some hentry))
    have hready := ready_removed hbefore hbehind
    rw [← hsplit] at hready
    rw [readable, hentries]
    refine hready.trans ?_
    rw [show ready (s.entries.drop (i + 1)) = _ from hs.upcoming i hi,
      List.filter_filter, hregistered]
    refine List.filter_congr fun other _ => ?_
    rw [Bool.and_eq_left_iff_imp]
    intro hmem
    have hmem := of_decide_eq_true hmem
    rw [← hmap, hsplit, List.map_append, List.map_cons]
    rw [List.map_append] at hmem
    rcases List.mem_append.1 hmem with h | h
    · exact decide_eq_true (List.mem_append_left _ h)
    · exact decide_eq_true (List.mem_append_right _ (List.mem_cons_of_mem _ h))

/-! ### The runs -/

theorem Inv.step (hs : s.Inv) {a : ListenerAction} (hallowed : s.Allowed a) {s' : Listening}
    {r : ListenerEvent} (h : s.step a = .ok (s', r)) : s'.Inv := by
  cases a with
  | addSocket socket =>
    cases hadd : s.listener.addSocket socket with
    | error e =>
      simp only [Listening.step, hadd] at h
      cases h
    | ok listener =>
      simp only [Listening.step, hadd] at h
      cases h
      exact hs.addSocket hadd hallowed
  | removeSocket socket =>
    cases h
    exact hs.removeSocket hallowed
  | listen revents =>
    cases hindex : s.index with
    | some i =>
      simp only [Listening.step, hindex] at h
      cases h
    | none =>
      simp only [Listening.step, hindex] at h
      obtain rfl : _ = s' := congrArg Prod.fst (Except.ok.inj h)
      exact hs.polled hallowed
  | pollThrew =>
    cases hindex : s.index with
    | some i =>
      simp only [Listening.step, hindex] at h
      cases h
    | none =>
      simp only [Listening.step, hindex] at h
      cases h
      exact ⟨⟨hs.wf, List.nodup_nil, nofun, nofun, List.nodup_nil, nofun⟩, fun _ => rfl, nofun⟩
  | handlerReturned =>
    cases hindex : s.index with
    | none =>
      simp only [Listening.step, hindex] at h
      cases h
    | some i =>
      simp only [Listening.step, hindex] at h
      obtain rfl : _ = s' := congrArg Prod.fst (Except.ok.inj h)
      exact hs.goOn (i + 1) (hs.upcoming i hindex)

/-- If no result moves under the index of the loop, every socket that was reported and is registered
when its turn comes is notified once, and no other socket is. -/
theorem sound_of_allowed {as : List ListenerAction}
    (h : Trace Listening.step Allowed init as s) : s.Sound := by
  have hinv : s.Inv := by
    apply h.invariant (I := fun _ s => s.Inv) init_inv
    intro as s a s' r hs hallowed heq
    exact hs.step hallowed heq
  exact hinv.sound

theorem sound_of_allowed_removed :
    ∃ s, Trace Listening.step Allowed init [.addSocket 1, .addSocket 2, .addSocket 3,
        .listen (fun i => if i < 2 then 1 else 0), .removeSocket 2, .addSocket 4,
          .handlerReturned] s ∧
      s.Sound ∧ s.notified = [1] ∧ s.gone = [2] := by
  obtain ⟨s, hrun, hnotified, hgone⟩ :
    ∃ s, Trace Listening.step Allowed init [.addSocket 1, .addSocket 2, .addSocket 3,
      .listen (fun i => if i < 2 then 1 else 0), .removeSocket 2, .addSocket 4,
        .handlerReturned] s ∧
      s.notified = [1] ∧ s.gone = [2] := Trace.exists_of_runWhile (by decide)
  exact ⟨s, hrun, sound_of_allowed hrun, hnotified, hgone⟩

/-- The handler of the first socket removes it: the second one was reported and is registered, and
it is not notified. -/
theorem removeSocket_skips :
    ∃ s, Trace Listening.step (fun _ _ => True) init
        [.addSocket 1, .addSocket 2, .listen (fun _ => 1), .removeSocket 1, .handlerReturned] s ∧
      s.index = none ∧ s.reported = [1, 2] ∧ s.registered = [2] ∧ s.notified = [1] ∧ ¬ s.Sound := by
  obtain ⟨s, hrun, hindex, hreported, hregistered, hnotified, hgone⟩ :
      ∃ s, Trace Listening.step (fun _ _ => True) init
        [.addSocket 1, .addSocket 2, .listen (fun _ => 1), .removeSocket 1, .handlerReturned] s ∧
        s.index = none ∧ s.reported = [1, 2] ∧ s.registered = [2] ∧
          s.notified = [1] ∧ s.gone = [] :=
    Trace.exists_of_runWhile (by decide)
  refine ⟨s, hrun, hindex, hreported, hregistered, hnotified, fun hsound => ?_⟩
  rcases hsound.all 2 (by simp [hreported]) with h | h | h
  · simp [hnotified] at h
  · simp [hsound.finished hindex] at h
  · simp [hgone] at h

end Listening

end NanoSocket

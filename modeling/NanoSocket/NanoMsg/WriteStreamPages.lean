import NanoSocket.Lib.Runs
import NanoSocket.NanoMsg.WriteStreamLog

/-!
# When a stream owns its pages

The pages of a stream are those that `Next` leads to from the head, and `Dispose` returns these
pages.  The last of them has the `Next` that stood in its memory when it was taken.  Where that is a
null pointer, the chain is what the stream has taken, over any run of several streams
(`page_ownership`); elsewhere it goes on to pages that the stream has not taken (`page_not_taken`).

`Keeping` is what holds during a call: the memory changes in the pages of the stream, and between
the null page and 2^16, where the bytes go.
-/

namespace NanoSocket

open Runs WriteStream

/-- A stream, and the pages that the manager has handed out to it and got back from it. -/
structure Session where
  stream : WriteStream
  taken : List ℕ
  returned : List ℕ

/-- Several streams of one manager. -/
structure StreamWorld where
  memory : Memory UInt8
  sessions : List Session

/-- What the program does.  A call comes with the pages that the manager hands out during it; other
code, the manager included, writes to memory that no stream holds. -/
inductive StreamAction
  | create
  | write (i : ℕ) (buffer : List UInt8) (offset count : ℕ) (supply : List ℕ)
  | writeByte (i : ℕ) (value : UInt8) (supply : List ℕ)
  | dispose (i : ℕ)
  | other (memory : Memory UInt8)

/-- The pages that a stream has not given back. -/
def Session.held (session : Session) : List ℕ := session.taken.filter fun p => p ∉ session.returned

namespace StreamWorld

/-- No stream. -/
def init (memory : Memory UInt8) : StreamWorld := { memory, sessions := [] }

/-- The state of a call of a stream. -/
def stateOf (w : StreamWorld) (session : Session) (supply : List ℕ) : StreamState :=
  { memory := w.memory, supply, stream := session.stream, taken := session.taken,
    returned := session.returned }

/-- What a call has left. -/
def put (w : StreamWorld) (i : ℕ) (s : StreamState) : StreamWorld :=
  { memory := s.memory, sessions := w.sessions.set i ⟨s.stream, s.taken, s.returned⟩ }

/-- A call of a stream, which may throw. -/
def call (w : StreamWorld) (i : ℕ) (supply : List ℕ) (x : StreamM Unit) :
    Except Trap (StreamWorld × Option ClrException) :=
  match w.sessions[i]? with
  | none => .ok (w, none)
  | some session =>
    match x.run (w.stateOf session supply) with
    | .ok _ s => .ok (w.put i s, none)
    | .error (.threw e) s => .ok (w.put i s, some e)
    | .error e _ => .error e

/-- One action. -/
def step (fuel : ℕ) (w : StreamWorld) :
    StreamAction → Except Trap (StreamWorld × Option ClrException)
  | .create => .ok ({ w with sessions := w.sessions ++ [⟨.new, [], []⟩] }, none)
  | .write i buffer offset count supply =>
    w.call i supply (WriteStream.write fuel buffer offset count)
  | .writeByte i value supply => w.call i supply (WriteStream.writeByte value)
  | .dispose i => w.call i [] (WriteStream.dispose fuel)
  | .other memory => .ok ({ w with memory }, none)

/-- The pages of all streams. -/
def held (w : StreamWorld) : List ℕ := w.sessions.flatMap Session.held

/-- The pages that an action may take. -/
def supplyOf : StreamAction → List ℕ
  | .write _ _ _ _ supply | .writeByte _ _ supply => supply
  | .create | .dispose _ | .other _ => []

/-- The manager hands out pages that nobody holds, or null pointers. -/
structure Offers (w : StreamWorld) (supply : List ℕ) : Prop where
  apart : Memory.Apart pageSize (w.held ++ supply.filter (· ≠ 0))
  page : ∀ p ∈ supply, p ≠ 0 → Page w.memory p

/-- The calls have valid ranges, and other code leaves the pages of the streams alone.  There is no
memory at a null pointer. -/
def Enabled (w : StreamWorld) : StreamAction → Prop
  | .create | .dispose _ => True
  | .write _ buffer offset count supply =>
    offset + count ≤ buffer.length ∧ buffer.length < 2 ^ 31 ∧ w.Offers supply
  | .writeByte _ _ supply => w.Offers supply
  | .other memory =>
    (∀ a < 16, memory a = none) ∧ ∀ p ∈ w.held, ∀ i < pageSize, memory (p + i) = w.memory (p + i)

/-- The pages that the action may take have a null pointer for `Next`. -/
def NullNext (w : StreamWorld) (a : StreamAction) : Prop :=
  ∀ p ∈ supplyOf a, p ≠ 0 → w.memory.load p 8 = some (putLe 8 0)

end StreamWorld

/-- The chain of `Next` from a page on. -/
def ChainOf (m : Memory UInt8) : ℕ → List ℕ → Prop
  | p, [] => p = 0
  | p, q :: pages => p = q ∧ p ≠ 0 ∧ ∃ next, IoBuffer.next m p = .ok next ∧ ChainOf m next pages

/-- The chain of a stream is what it has taken; a stream that was disposed has returned each of its
pages once, and no other page. -/
structure Session.Owns (m : Memory UInt8) (session : Session) : Prop where
  nodup : session.taken.Nodup
  chain : session.stream.pool = true → ChainOf m session.stream.head session.taken ∧
    session.returned = []
  returned : session.stream.pool = false → session.returned = session.taken

/-! ### Chains of pages -/

section Chains

variable {m m' : Memory UInt8} {pre pages taken : List ℕ} {p q len x : ℕ} {stream : WriteStream}

/-- Full pages, each with a pointer to the page behind it. -/
def Links (m : Memory UInt8) : List ℕ → ℕ → Prop
  | [], _ => True
  | p :: pages, last => Header m p ((pages ++ [last]).headD 0) pageSize ∧ Links m pages last

theorem Links.congr (h : Links m pre p) (hsame : ∀ q ∈ pre, ∀ i < 16, m' (q + i) = m (q + i)) :
    Links m' pre p := by
  induction pre with
  | nil => trivial
  | cons q pre ih =>
    exact ⟨h.1.congr (hsame q List.mem_cons_self),
      ih h.2 fun q' hq' => hsame q' (List.mem_cons_of_mem _ hq')⟩

theorem Links.snoc (h : Links m pre p) (hp : Header m p q pageSize) : Links m (pre ++ [p]) q := by
  induction pre with
  | nil => exact ⟨hp, trivial⟩
  | cons q' pre ih =>
    refine ⟨?_, ih h.2⟩
    have hhead : (pre ++ [p] ++ [q]).headD 0 = (pre ++ [p]).headD 0 := by cases pre <;> rfl
    change Header m q' ((pre ++ [p] ++ [q]).headD 0) pageSize
    rw [hhead]
    exact h.1

/-- A stream with full pages and a last one. -/
structure LiveAt (m : Memory UInt8) (stream : WriteStream) (taken pre : List ℕ) (p len : ℕ) :
    Prop where
  taken : taken = pre ++ [p]
  head : stream.head = (pre ++ [p]).headD 0
  current : stream.current = p
  links : Links m pre p
  header : Header m p 0 len
  le : len ≤ pageSize

/-- The pages of a stream that was not disposed. -/
def Live (m : Memory UInt8) (stream : WriteStream) (taken : List ℕ) : Prop :=
  (taken = [] ∧ stream.head = 0 ∧ stream.current = 0) ∨ ∃ pre p len, LiveAt m stream taken pre p len

theorem LiveAt.congr (h : LiveAt m stream taken pre p len)
    (hsame : ∀ q ∈ taken, ∀ i < 16, m' (q + i) = m (q + i)) :
    LiveAt m' stream taken pre p len := by
  have hmem := h.taken
  refine ⟨h.taken, h.head, h.current, h.links.congr fun q hq => hsame q ?_,
    h.header.congr (hsame p ?_), h.le⟩
  · rw [hmem]
    exact List.mem_append_left _ hq
  · rw [hmem]
    exact List.mem_append_right _ List.mem_cons_self

theorem Live.congr (h : Live m stream taken)
    (hsame : ∀ q ∈ taken, ∀ i < 16, m' (q + i) = m (q + i)) :
    Live m' stream taken := by
  rcases h with h | ⟨pre, p, len, h⟩
  · exact .inl h
  · exact .inr ⟨pre, p, len, h.congr hsame⟩

/-- The chain of the full pages goes on to the last one, and ends there. -/
theorem Links.chainOf (h : Links m pre p) (hp : Header m p 0 len)
    (hpage : ∀ q ∈ pre ++ [p], Page m q) :
    ChainOf m ((pre ++ [p]).headD 0) (pre ++ [p]) := by
  induction pre with
  | nil =>
    have := hpage p List.mem_cons_self
    exact ⟨rfl, this.ne_zero, 0, Header.loadNext hp.next (by decide), rfl⟩
  | cons q pre ih =>
    have hq := hpage q List.mem_cons_self
    have hrest : ∀ q' ∈ pre ++ [p], Page m q' := fun q' hq' => hpage q' (List.mem_cons_of_mem _ hq')
    have hlt : (pre ++ [p]).headD 0 < 2 ^ 64 := by
      cases pre with
      | nil => exact (hrest p List.mem_cons_self).lt
      | cons q' pre => exact (hrest q' List.mem_cons_self).lt
    exact ⟨rfl, hq.ne_zero, _, Header.loadNext h.1.next hlt, ih h.2 hrest⟩

theorem Live.chainOf (h : Live m stream taken) (hpage : ∀ q ∈ taken, Page m q) :
    ChainOf m stream.head taken := by
  rcases h with ⟨rfl, hhead, -⟩ | ⟨pre, p, len, h⟩
  · exact hhead
  · rw [h.head, h.taken]
    exact h.links.chainOf h.header (h.taken ▸ hpage)

/-- `PageCount` counts the chain. -/
theorem ChainOf.pageCountLoop_eq (h : ChainOf m p pages) {fuel : ℕ}
    (hfuel : pages.length < fuel) (i : ℕ) :
    pageCountLoop m fuel p i = .ok (i + pages.length) := by
  induction pages generalizing p fuel i with
  | nil =>
    obtain rfl : p = 0 := h
    cases fuel with
    | zero => simp at hfuel
    | succ fuel => rfl
  | cons q pages ih =>
    obtain ⟨-, hp, next, hnext, hchain⟩ := h
    cases fuel with
    | zero => simp at hfuel
    | succ fuel =>
      rw [pageCountLoop, if_neg hp, hnext, ok_bind, ih hchain (by simpa using hfuel),
        List.length_cons]
      congr 1
      omega

end Chains

/-! ### During a call -/

/-- What holds during a call: the memory that was there before (`m₀`) has changed in the pages of
the stream and below 2^16, and the pages that the manager hands out are apart from those of the
other streams. -/
structure Keeping (m₀ : Memory UInt8) (others : List ℕ) (s : StreamState) : Prop where
  null : ∀ a < 16, m₀ a = none
  isSome : ∀ x, (s.memory x).isSome = (m₀ x).isSome
  frame : ∀ x, (x < 16 ∨ 2 ^ 16 ≤ x) → (∀ p ∈ s.taken, x < p ∨ p + pageSize ≤ x) → s.memory x = m₀ x
  apart : Memory.Apart pageSize (s.taken ++ (s.supply.filter (· ≠ 0) ++ others))
  page : ∀ p ∈ s.taken ++ (s.supply.filter (· ≠ 0) ++ others), Page m₀ p
  next : ∀ p ∈ s.supply, p ≠ 0 → m₀.load p 8 = some (putLe 8 0)
  pool : s.stream.pool = true
  returned : s.returned = []
  live : Live s.memory s.stream s.taken

/-- Memory that is the same but for the addresses between the null page and 2^16. -/
structure LowOnly (m m' : Memory UInt8) : Prop where
  isSome : ∀ x, (m' x).isSome = (m x).isSome
  frame : ∀ x, (x < 16 ∨ 2 ^ 16 ≤ x) → m' x = m x

theorem LowOnly.refl (m : Memory UInt8) : LowOnly m m := ⟨fun _ => rfl, fun _ _ => rfl⟩

theorem LowOnly.trans {m m' m'' : Memory UInt8} (h : LowOnly m m') (h' : LowOnly m' m'') :
    LowOnly m m'' :=
  ⟨fun x => (h'.isSome x).trans (h.isSome x), fun x hx => (h'.frame x hx).trans (h.frame x hx)⟩

section Keeping

variable {m₀ m : Memory UInt8} {others pre : List ℕ} {s : StreamState} {p len a fuel : ℕ}
  {bytes : List UInt8}

theorem Page.congr (h : Page m p) {m' : Memory UInt8} (hsome : ∀ x, (m' x).isSome = (m x).isSome) :
    Page m' p :=
  ⟨h.low, h.high, h.mapped.congr hsome⟩

theorem Keeping.pages (h : Keeping m₀ others s) : ∀ p ∈ s.taken, Page s.memory p :=
  fun p hp => (h.page p (List.mem_append_left _ hp)).congr h.isSome

/-- The memory changes, and nothing else. -/
theorem Keeping.update (h : Keeping m₀ others s) (hsome : ∀ x, (m x).isSome = (s.memory x).isSome)
    (hframe : ∀ x, (x < 16 ∨ 2 ^ 16 ≤ x) → (∀ p ∈ s.taken, x < p ∨ p + pageSize ≤ x) →
      m x = s.memory x)
    (hlive : Live m s.stream s.taken) : Keeping m₀ others { s with memory := m } :=
  ⟨h.null, fun x => (hsome x).trans (h.isSome x),
    fun x hx hout => (hframe x hx hout).trans (h.frame x hx hout), h.apart, h.page, h.next, h.pool,
    h.returned, hlive⟩

theorem Keeping.lowOnly (h : Keeping m₀ others s) (hlow : LowOnly s.memory m) :
    Keeping m₀ others { s with memory := m } := by
  apply h.update hlow.isSome
  · exact fun x hx _ => hlow.frame x hx
  · refine h.live.congr fun q hq i hi => hlow.frame _ (.inr ?_)
    have := (h.pages q hq).low
    omega

theorem LiveAt.lowOnly {stream : WriteStream} {taken : List ℕ} {m' : Memory UInt8}
    (h : LiveAt m stream taken pre p len) (hpages : ∀ q ∈ taken, Page m q) (hlow : LowOnly m m') :
    LiveAt m' stream taken pre p len := by
  refine h.congr fun q hq i hi => hlow.frame _ (.inr ?_)
  have := (hpages q hq).low
  omega

theorem LiveAt.mem {stream : WriteStream} {taken : List ℕ} (h : LiveAt m stream taken pre p len) :
    p ∈ taken := by
  rw [h.taken]
  exact List.mem_append_right _ List.mem_cons_self

/-- The manager hands out a null pointer. -/
theorem Keeping.skip (h : Keeping m₀ others s) {rest : List ℕ} (hsupply : s.supply = 0 :: rest) :
    Keeping m₀ others { s with supply := rest } := by
  obtain ⟨hnull, hsome, hframe, hapart, hpage, hnext, hpool, hreturned, hlive⟩ := h
  rw [hsupply] at hapart hpage hnext
  exact ⟨hnull, hsome, hframe, hapart, hpage, fun p hp => hnext p (List.mem_cons_of_mem _ hp),
    hpool, hreturned, hlive⟩

/-- The manager hands out a page. -/
theorem Keeping.take (h : Keeping m₀ others s) {rest : List ℕ} {stream : WriteStream}
    (hsupply : s.supply = p :: rest) (hp : p ≠ 0) (hsome : ∀ x, (m x).isSome = (s.memory x).isSome)
    (hframe : ∀ x, (∀ q ∈ s.taken ++ [p], x < q ∨ q + pageSize ≤ x) → m x = s.memory x)
    (hpool : stream.pool = true) (hlive : Live m stream (s.taken ++ [p])) :
    Keeping m₀ others { s with memory := m, supply := rest, stream, taken := s.taken ++ [p] } := by
  have hfilter : s.supply.filter (· ≠ 0) = p :: rest.filter (· ≠ 0) := by
    rw [hsupply, List.filter_cons_of_pos (by simpa using hp)]
  have happend : s.taken ++ (s.supply.filter (· ≠ 0) ++ others) =
      s.taken ++ [p] ++ (rest.filter (· ≠ 0) ++ others) := by
    rw [hfilter, List.append_assoc]
    rfl
  refine ⟨h.null, fun x => (hsome x).trans (h.isSome x),
    fun x hx hout => (hframe x hout).trans (h.frame x hx ?_), ?_, ?_, ?_, hpool, h.returned, hlive⟩
  · exact fun q hq => hout q (List.mem_append_left _ hq)
  · exact happend ▸ h.apart
  · exact happend ▸ h.page
  · exact fun q hq => h.next q (hsupply ▸ List.mem_cons_of_mem _ hq)

/-- A page that was not taken yet has the memory of before. -/
theorem Keeping.new (h : Keeping m₀ others s) {rest : List ℕ}
    (hsupply : s.supply = p :: rest) (hp : p ≠ 0) :
    Page s.memory p ∧ s.memory.load p 8 = some (putLe 8 0) ∧ ∀ q ∈ s.taken, q + pageSize ≤ p ∨
      p + pageSize ≤ q := by
  have hmem : p ∈ s.supply := hsupply ▸ List.mem_cons_self
  have hfilter : p ∈ s.supply.filter (· ≠ 0) ++ others :=
    List.mem_append_left _ (List.mem_filter.2 ⟨hmem, by simpa using hp⟩)
  have hpage := h.page p (List.mem_append_right _ hfilter)
  have hapart : ∀ q ∈ s.taken, q + pageSize ≤ p ∨ p + pageSize ≤ q := fun q hq =>
    (List.pairwise_append.1 h.apart).2.2 q hq p hfilter
  refine ⟨hpage.congr h.isSome, ?_, hapart⟩
  rw [← h.next p hmem hp]
  refine Memory.load_congr fun i hi => h.frame _ (.inr ?_) fun q hq => ?_
  · have := hpage.low
    omega
  · have := hapart q hq
    unfold pageSize at this ⊢
    omega

/-! ### `EnsureCapacity` -/

/-- A page with room, behind full ones. -/
def Room (s : StreamState) (capacity : ℤ) : Prop :=
  ∃ pre p len, LiveAt s.memory s.stream s.taken pre p len ∧ len < pageSize ∧
    capacity = ((pageSize - len : ℕ) : ℤ)

theorem Keeping.null_eight (h : Keeping m₀ others s) : s.memory 8 = none :=
  Memory.eq_none_of_isSome (h.isSome 8) (h.null 8 (by decide))

theorem Keeping.ensureCapacity_empty (h : Keeping m₀ others s) (htaken : s.taken = [])
    (hcurrent : s.stream.current = 0) :
    Leads (ensureCapacity.run s) (fun capacity s' => Keeping m₀ others s' ∧ Room s' capacity)
      fun _ s' => Keeping m₀ others s' := by
  cases hsupply : s.supply with
  | nil =>
    rw [ensureCapacity_exhausted hcurrent h.pool hsupply]
    exact h
  | cons p rest =>
    by_cases hp : p = 0
    · subst hp
      rw [ensureCapacity_null hcurrent h.pool hsupply h.null_eight]
      exact h.skip hsupply
    · obtain ⟨hpage, hnext, -⟩ := h.new hsupply hp
      rw [ensureCapacity_first hcurrent h.pool hsupply hpage hnext]
      have hlive : LiveAt (initPage s.memory p) { s.stream with head := p, current := p }
          (s.taken ++ [p]) [] p 0 :=
        ⟨by rw [htaken], rfl, rfl, trivial, initPage_header hpage.mapped hnext, Nat.zero_le _⟩
      refine ⟨h.take hsupply hp (initPage_isSome hpage.mapped) (fun x hx => ?_) h.pool
        (.inr ⟨_, _, _, hlive⟩), ?_⟩
      · have := hx p (List.mem_append_right _ List.mem_cons_self)
        apply initPage_outside
        unfold pageSize at this
        omega
      · exact ⟨[], p, 0, hlive, by decide, rfl⟩

theorem run_link_null {rest : List ℕ} (hpool : s.stream.pool = true)
    (hsupply : s.supply = 0 :: rest) (height : s.memory 8 = none) (hcurrent : s.stream.current = p)
    (hp : p ≠ 0) (h : Header s.memory p 0 pageSize) :
    ensureCapacity.run s = .error (accessViolation 8) { s with supply := rest } := by
  have htake := run_takeBuffer hpool hsupply
  rw [if_pos rfl] at htake
  have hnull :
      ∀ f : StreamM ℤ, (do storeInt (0 + 8) pageSize; f : StreamM ℤ).run { s with supply := rest } =
      .error (accessViolation 8) { s with supply := rest } := fun f =>
        run_storeInt_null (by exact height) _ f
  subst hcurrent
  simp only [ensureCapacity]
  rw [run_bind_ok (EStateM.run_get s), if_neg hp, run_bind_ok (run_fetch h.capacity_eq),
    run_bind_ok (run_fetch (h.length_eq le_rfl)), if_neg (not_not_intro rfl), run_bind_ok htake]
  exact hnull _

/-- The page behind a full one is linked to it. -/
theorem Keeping.ensureCapacity_full (h : Keeping m₀ others s)
    (hat : LiveAt s.memory s.stream s.taken pre p pageSize) :
    Leads (ensureCapacity.run s) (fun capacity s' => Keeping m₀ others s' ∧ Room s' capacity)
      fun _ s' => Keeping m₀ others s' := by
  have hp := h.pages p hat.mem
  cases hsupply : s.supply with
  | nil =>
    have htake := run_takeBuffer_error (s := s) (.inr hsupply)
    have hcurrent := hat.current
    subst hcurrent
    simp only [ensureCapacity]
    rw [run_bind_ok (EStateM.run_get s), if_neg hp.ne_zero,
      run_bind_ok (run_fetch hat.header.capacity_eq),
      run_bind_ok (run_fetch (hat.header.length_eq le_rfl)), if_neg (not_not_intro rfl),
      run_bind_error htake]
    exact h
  | cons n rest =>
    by_cases hn : n = 0
    · subst hn
      rw [run_link_null h.pool hsupply h.null_eight hat.current hp.ne_zero hat.header]
      exact h.skip hsupply
    · obtain ⟨hpage, hnext, hapart⟩ := h.new hsupply hn
      obtain ⟨m, hensure, hstore⟩ :=
        ensureCapacity_next hat.current hp h.pool hat.header hsupply hpage
      have hlength := length_putLe 8 n
      have hsome : ∀ x, (m x).isSome = (s.memory x).isSome := fun x =>
        (Memory.store_isSome hstore x).trans (initPage_isSome hpage.mapped x)
      -- only the header of the new page and the pointer to it have changed
      have hsame : ∀ x, (x < n + 8 ∨ n + 16 ≤ x) → (x < p ∨ p + 8 ≤ x) → m x = s.memory x :=
        fun x hxn hxp =>
        (Memory.store_outside hstore (by omega)).trans (initPage_outside hxn)
      have hpn := hapart p hat.mem
      unfold pageSize at hpn
      have hheader : Header m p n pageSize := by
        constructor
        · have := Memory.load_store hstore
          rwa [hlength] at this
        · rw [Memory.load_store_outside hstore (by omega),
            Memory.load_congr fun i hi => initPage_outside (by omega), hat.header.capacity]
        · rw [Memory.load_store_outside hstore (by omega),
            Memory.load_congr fun i hi => initPage_outside (by omega), hat.header.length]
      have hnew : Header m n 0 0 := (initPage_header hpage.mapped hnext).congr fun i hi =>
        Memory.store_outside hstore (by omega)
      have hlinks : Links m (pre ++ [p]) n := by
        refine (hat.links.congr fun q hq i hi => ?_).snoc hheader
        have hqn := hapart q (hat.taken ▸ List.mem_append_left _ hq)
        have hqp : q + pageSize ≤ p ∨ p + pageSize ≤ q := by
          have := hat.taken ▸ (List.pairwise_append.1 h.apart).1
          exact (List.pairwise_append.1 this).2.2 q hq p List.mem_cons_self
        unfold pageSize at hqn hqp
        exact hsame _ (by omega) (by omega)
      have hlive : LiveAt m { s.stream with current := n } (s.taken ++ [n]) (pre ++ [p]) n 0 := by
        refine ⟨by rw [hat.taken], ?_, rfl, hlinks, hnew, Nat.zero_le _⟩
        have hhead : (pre ++ [p] ++ [n]).headD 0 = (pre ++ [p]).headD 0 := by cases pre <;> rfl
        rw [hhead]
        exact hat.head
      rw [hensure]
      refine ⟨h.take hsupply hn hsome (fun x hx => ?_) h.pool (.inr ⟨_, _, _, hlive⟩), ?_⟩
      · have hxn := hx n (List.mem_append_right _ List.mem_cons_self)
        have hxp := hx p (List.mem_append_left _ hat.mem)
        unfold pageSize at hxn hxp
        exact hsame x (by omega) (by omega)
      · exact ⟨_, _, _, hlive, by decide, rfl⟩

/-- `EnsureCapacity` returns the room that there is in the last page. -/
theorem Keeping.ensureCapacity (h : Keeping m₀ others s) :
    Leads (ensureCapacity.run s) (fun capacity s' => Keeping m₀ others s' ∧ Room s' capacity)
      fun _ s' => Keeping m₀ others s' := by
  rcases h.live with ⟨htaken, -, hcurrent⟩ | ⟨pre, p, len, hat⟩
  · exact h.ensureCapacity_empty htaken hcurrent
  · rcases hat.le.lt_or_eq with hlt | rfl
    · rw [ensureCapacity_room hat.current (h.pages p hat.mem).ne_zero hat.header hlt]
      exact ⟨h, pre, p, len, hat, hlt, rfl⟩
    · exact h.ensureCapacity_full hat

/-! ### The bytes -/

/-- Bytes are copied below 2^16 only. -/
theorem copyLoop_lowOnly (words : List ℕ) (bytes : List UInt8) (hlow : 16 ≤ a)
    (hhigh : a + words.sum ≤ 2 ^ 16) :
    Leads ((copyLoop words bytes a).run s)
      (fun _ s' => ∃ m, s' = { s with memory := m } ∧ LowOnly s.memory m)
      fun _ s' => ∃ m, s' = { s with memory := m } ∧ LowOnly s.memory m := by
  induction words generalizing s a bytes with
  | nil => exact ⟨s.memory, rfl, .refl _⟩
  | cons word words ih =>
    rw [List.sum_cons] at hhigh
    have hlength : (bytes.take word).length ≤ word := List.length_take_le _ _
    rw [copyLoop]
    cases hstore : s.memory.store a (bytes.take word) with
    | none =>
      rw [run_bind_error (run_storeBytes_error hstore)]
      exact ⟨s.memory, rfl, .refl _⟩
    | some m =>
      have hone : LowOnly s.memory m :=
        ⟨Memory.store_isSome hstore, fun x hx => Memory.store_outside hstore (by omega)⟩
      rw [run_bind_ok (run_storeBytes hstore)]
      refine (ih (s := { s with memory := m }) (bytes.drop word) (by omega) (by omega)).mono ?_ ?_
      · rintro - s' ⟨m', rfl, hlow'⟩
        exact ⟨m', rfl, hone.trans hlow'⟩
      · rintro - s' ⟨m', rfl, hlow'⟩
        exact ⟨m', rfl, hone.trans hlow'⟩

theorem copyMemory_lowOnly (hlow : 16 ≤ a) (hhigh : a + bytes.length ≤ 2 ^ 16) :
    Leads ((copyMemory bytes a).run s)
      (fun _ s' => ∃ m, s' = { s with memory := m } ∧ LowOnly s.memory m)
      fun _ s' => ∃ m, s' = { s with memory := m } ∧ LowOnly s.memory m :=
  copyLoop_lowOnly _ bytes hlow (by rwa [copyWords_sum])

theorem LiveAt.needle_eq (h : LiveAt s.memory s.stream s.taken pre p len) :
    IoBuffer.needle s.memory s.stream.current = .ok (16 + len) := by
  have hle := h.le
  unfold pageSize at hle
  rw [h.current, h.header.needle_eq (by decide) h.le]
  congr 1
  omega

/-- The bytes that were copied to the last page are counted. -/
theorem Keeping.addLength (h : Keeping m₀ others s)
    (hat : LiveAt s.memory s.stream s.taken pre p len) {k : ℕ} (hle : len + k ≤ pageSize) :
    Leads ((addLength k).run s) (fun _ s' => Keeping m₀ others s' ∧ s'.stream = s.stream)
      fun _ s' => Keeping m₀ others s' := by
  obtain ⟨m, hadd, hstore, hheader⟩ :=
    addLength_spec hat.current (h.pages p hat.mem).mapped hat.header hle
  have hlength := length_putLe 4 (len + k)
  have hlinks : Links m pre p := by
    refine hat.links.congr fun q hq i hi => Memory.store_outside hstore ?_
    have hqp : q + pageSize ≤ p ∨ p + pageSize ≤ q := by
      have := hat.taken ▸ (List.pairwise_append.1 h.apart).1
      exact (List.pairwise_append.1 this).2.2 q hq p List.mem_cons_self
    unfold pageSize at hqp
    omega
  rw [hadd]
  refine ⟨h.update (Memory.store_isSome hstore) (fun x _ hout => Memory.store_outside hstore ?_) ?_,
    rfl⟩
  · have := hout p hat.mem
    unfold pageSize at this
    omega
  · exact .inr ⟨pre, p, len + k, hat.taken, hat.head, hat.current, hlinks, hheader, hle⟩

theorem Keeping.writeLoop (h : Keeping m₀ others s) {buffer : List UInt8} {offset count : ℕ}
    (hvalid : offset + count ≤ buffer.length) (hbuffer : buffer.length < 2 ^ 31) (fuel : ℕ) :
    Leads ((writeLoop buffer fuel offset count).run s) (fun _ s' => Keeping m₀ others s')
      fun _ s' => Keeping m₀ others s' := by
  induction fuel generalizing s offset count with
  | zero => exact h
  | succ fuel ih =>
    simp only [WriteStream.writeLoop]
    apply h.ensureCapacity.bind
    rintro capacity s₁ ⟨h₁, pre, p, len, hat, hlen, rfl⟩
    -- as many bytes as there is room for
    obtain ⟨k, hk⟩ : ∃ k, k = min count (pageSize - len) := ⟨_, rfl⟩
    have hmin : min (count : ℤ) ((pageSize - len : ℕ) : ℤ) = k := by omega
    have hkc : k ≤ count := hk ▸ min_le_left _ _
    have hsource := sourceBytes_spec (s := s₁) (show offset + k ≤ buffer.length by omega)
    have hlength : ((buffer.drop offset).take k).length = k := by
      rw [List.length_take, List.length_drop]
      omega
    rw [run_bind_ok (EStateM.run_get s₁), run_bind_ok (run_fetch hat.needle_eq), hmin,
      run_bind_ok hsource]
    have hcopy := copyMemory_lowOnly (s := s₁) (show 16 ≤ 16 + len by omega)
      (show 16 + len + ((buffer.drop offset).take k).length ≤ 2 ^ 16 by
        rw [hlength]
        unfold pageSize at hlen hk
        omega)
    refine (hcopy.mono (fun _ _ hx => hx) ?_).bind ?_
    · rintro - s' ⟨m, rfl, hlow⟩
      exact h₁.lowOnly hlow
    rintro - s₂ ⟨m, rfl, hlow⟩
    have hat₂ : LiveAt m s₁.stream s₁.taken pre p len := hat.lowOnly h₁.pages hlow
    refine (Keeping.addLength (h₁.lowOnly hlow) hat₂ (k := k) (by omega)).bind ?_
    rintro - s₃ ⟨h₃, -⟩
    have hcount : int32 ((count : ℤ) - k) = ((count - k : ℕ) : ℤ) := by
      rw [int32_of_range (by omega) (by omega)]
      omega
    have hoffset : int32 ((offset : ℤ) + k) = ((offset + k : ℕ) : ℤ) := by
      rw [int32_of_range (by omega) (by omega)]
      omega
    rw [hcount, hoffset]
    split_ifs
    · exact h₃
    · apply ih h₃
      rw [Nat.add_assoc, Nat.add_sub_cancel' hkc]
      exact hvalid

theorem Keeping.modifyLength (h : Keeping m₀ others s) (x : ℤ) :
    Keeping m₀ others { s with stream := { s.stream with length := x } } := by
  refine ⟨h.null, h.isSome, h.frame, h.apart, h.page, h.next, h.pool, h.returned, ?_⟩
  rcases h.live with hlive | ⟨pre, p, len, hat⟩
  · exact .inl hlive
  · exact .inr ⟨pre, p, len, hat.taken, hat.head, hat.current, hat.links, hat.header, hat.le⟩

theorem Keeping.write (h : Keeping m₀ others s) {buffer : List UInt8} {offset count : ℕ}
    (hvalid : offset + count ≤ buffer.length) (hbuffer : buffer.length < 2 ^ 31) (fuel : ℕ) :
    Leads ((WriteStream.write fuel buffer offset count).run s) (fun _ s' => Keeping m₀ others s')
      fun _ s' => Keeping m₀ others s' := by
  apply (h.writeLoop hvalid hbuffer fuel).bind
  intro _ s' h'
  exact h'.modifyLength _

theorem Keeping.writeByte (h : Keeping m₀ others s) (value : UInt8) :
    Leads ((WriteStream.writeByte value).run s) (fun _ s' => Keeping m₀ others s') fun _ s' =>
      Keeping m₀ others s' := by
  simp only [WriteStream.writeByte]
  apply h.ensureCapacity.bind
  rintro capacity s₁ ⟨h₁, pre, p, len, hat, hlen, -⟩
  rw [run_bind_ok (EStateM.run_get s₁), run_bind_ok (run_fetch hat.needle_eq)]
  cases hstore : s₁.memory.store (16 + len) [value] with
  | none =>
    rw [run_bind_error (run_storeBytes_error hstore)]
    exact h₁
  | some m =>
    have hlow : LowOnly s₁.memory m := by
      refine ⟨Memory.store_isSome hstore, fun x hx => Memory.store_outside hstore ?_⟩
      rw [List.length_singleton]
      unfold pageSize at hlen
      omega
    have hat₂ : LiveAt m s₁.stream s₁.taken pre p len := hat.lowOnly h₁.pages hlow
    rw [run_bind_ok (run_storeBytes hstore)]
    exact (Keeping.addLength (h₁.lowOnly hlow) hat₂ (k := 1) (by omega)).mono (fun _ _ hx => hx.1)
      fun _ _ hx => hx

/-! ### `Dispose` -/

/-- The chain is given back, or the loop has not ended yet. -/
theorem disposeLoop_spec {head : ℕ} {pages : List ℕ} (h : ChainOf s.memory head pages) (fuel : ℕ) :
    (disposeLoop true fuel head).run s = .ok () { s with returned := s.returned ++ pages } ∨
      fuel ≤ pages.length ∧ ∃ s', (disposeLoop true fuel head).run s = .error .endless s' := by
  induction fuel generalizing s head pages with
  | zero => exact .inr ⟨Nat.zero_le _, s, rfl⟩
  | succ fuel ih =>
    rw [disposeLoop]
    cases pages with
    | nil =>
      obtain rfl : head = 0 := h
      rw [if_pos rfl, List.append_nil]
      exact .inl rfl
    | cons q pages =>
      obtain ⟨rfl, hhead, next, hnext, hchain⟩ := h
      rw [if_neg hhead, run_bind_ok (run_fetch hnext), if_pos rfl,
        run_bind_ok (EStateM.run_modify
          (fun s : StreamState => { s with returned := s.returned ++ [head] }) s)]
      rcases ih (s := { s with returned := s.returned ++ [head] }) hchain with
        heq | ⟨hfuel, s', heq⟩
      · refine .inl (heq.trans ?_)
        rw [List.append_assoc]
        rfl
      · exact .inr ⟨Nat.succ_le_succ hfuel, s', heq⟩

end Keeping

/-! ### Streams that were disposed -/

/-- A stream that was disposed has no page any more. -/
structure Session.Gone (session : Session) : Prop where
  pool : session.stream.pool = false
  head : session.stream.head = 0
  current : session.stream.current = 0
  returned : session.returned = session.taken
  nodup : session.taken.Nodup

/-- What holds of a stream between the calls. -/
def Session.Inv (m : Memory UInt8) (session : Session) : Prop :=
  (session.stream.pool = true ∧ session.returned = [] ∧ Live m session.stream session.taken) ∨
    session.Gone

section Gone

variable {s : StreamState} {fuel : ℕ}

theorem ensureCapacity_gone (hcurrent : s.stream.current = 0) (hpool : s.stream.pool = false) :
    ensureCapacity.run s = .error (.threw .nullReference) s := by
  have htake := run_takeBuffer_error (s := s) (.inl hpool)
  rw [hpool] at htake
  simp only [ensureCapacity]
  rw [run_bind_ok (EStateM.run_get s), if_pos hcurrent, run_bind_error htake]
  rfl

/-- A call that writes to a disposed stream throws or has not ended, and changes nothing. -/
theorem write_gone (fuel : ℕ) (hcurrent : s.stream.current = 0) (hpool : s.stream.pool = false)
    (buffer : List UInt8) (offset count : ℤ) :
    ∃ e, (WriteStream.write fuel buffer offset count).run s = .error e s := by
  cases fuel with
  | zero => exact ⟨.endless, rfl⟩
  | succ fuel => exact ⟨_, run_bind_error (run_bind_error (ensureCapacity_gone hcurrent hpool))⟩

theorem writeByte_gone (hcurrent : s.stream.current = 0) (hpool : s.stream.pool = false)
    (value : UInt8) :
    ∃ e, (WriteStream.writeByte value).run s = .error e s :=
  ⟨_, run_bind_error (ensureCapacity_gone hcurrent hpool)⟩

end Gone

/-! ### Between the calls -/

namespace StreamWorld

variable {w w' : StreamWorld} {i fuel : ℕ} {session : Session} {supply : List ℕ} {a : StreamAction}

/-- What holds between the calls. -/
structure Inv (w : StreamWorld) : Prop where
  null : ∀ a < 16, w.memory a = none
  apart : Memory.Apart pageSize w.held
  page : ∀ p ∈ w.held, Page w.memory p
  session : ∀ session ∈ w.sessions, session.Inv w.memory

theorem apart_perm {size : ℕ} {blocks blocks' : List ℕ} (h : blocks.Perm blocks') :
    Memory.Apart size blocks ↔ Memory.Apart size blocks' :=
  h.pairwise_iff fun hab => hab.symm

/-- The pages of the other streams. -/
def others (w : StreamWorld) (i : ℕ) : List ℕ := (w.sessions.eraseIdx i).flatMap Session.held

theorem held_perm (hi : w.sessions[i]? = some session) :
    w.held.Perm (session.held ++ w.others i) := by
  obtain ⟨hlt, hget⟩ := List.getElem?_eq_some_iff.1 hi
  have hperm := (List.getElem_cons_eraseIdx_perm hlt).flatMap_right Session.held
  rw [hget, List.flatMap_cons] at hperm
  exact hperm.symm

theorem held_live (hreturned : session.returned = []) : session.held = session.taken := by
  rw [Session.held, hreturned]
  exact List.filter_eq_self.2 fun p _ => by simp

theorem held_gone (h : session.Gone) : session.held = [] := by
  rw [Session.held, h.returned]
  exact List.filter_eq_nil_iff.2 fun p hp => by simpa using hp

theorem put_others (w : StreamWorld) (i : ℕ) (s : StreamState) :
    (w.put i s).others i = w.others i := by
  rw [others, others, put, List.eraseIdx_set_eq]

/-- The state of a call. -/
theorem Inv.keeping (h : w.Inv) (hi : w.sessions[i]? = some session)
    (hpool : session.stream.pool = true) (hreturned : session.returned = [])
    (hlive : Live w.memory session.stream session.taken) (hoffers : w.Offers supply)
    (hnext : ∀ p ∈ supply, p ≠ 0 → w.memory.load p 8 = some (putLe 8 0)) :
    Keeping w.memory (w.others i) (w.stateOf session supply) := by
  have hperm : (w.held ++ supply.filter (· ≠ 0)).Perm
      (session.taken ++ (supply.filter (· ≠ 0) ++ w.others i)) := by
    have hheld := held_perm hi
    rw [held_live hreturned] at hheld
    refine (hheld.append_right _).trans ?_
    rw [List.append_assoc]
    exact List.perm_append_comm.append_left _
  refine ⟨h.null, fun _ => rfl, fun _ _ _ => rfl, (apart_perm hperm).1 hoffers.apart,
    fun p hp => ?_, hnext, hpool, hreturned, hlive⟩
  rcases List.mem_append.1 (hperm.mem_iff.2 hp) with hp | hp
  · exact h.page p hp
  · obtain ⟨hmem, hne⟩ := List.mem_filter.1 hp
    exact hoffers.page p hmem (by simpa using hne)

/-- After a call that has left the other streams alone. -/
theorem Inv.replace (h : w.Inv) (hi : w.sessions[i]? = some session) {s : StreamState}
    {held : List ℕ} (hheld : (⟨s.stream, s.taken, s.returned⟩ : Session).held = held)
    (hsession : (⟨s.stream, s.taken, s.returned⟩ : Session).Inv s.memory)
    (hsome : ∀ x, (s.memory x).isSome = (w.memory x).isSome)
    (hother : ∀ p ∈ w.others i, ∀ j < pageSize, s.memory (p + j) = w.memory (p + j))
    (hapart : Memory.Apart pageSize (held ++ w.others i)) (hpage : ∀ p ∈ held, Page w.memory p) :
    (w.put i s).Inv := by
  obtain ⟨hlt, -⟩ := List.getElem?_eq_some_iff.1 hi
  have hi' : (w.put i s).sessions[i]? = some ⟨s.stream, s.taken, s.returned⟩ :=
    List.getElem?_set_self hlt
  have hperm := held_perm hi'
  rw [hheld, put_others] at hperm
  constructor
  · exact fun a ha => Memory.eq_none_of_isSome (hsome a) (h.null a ha)
  · exact (apart_perm hperm).2 hapart
  · intro p hp
    refine Page.congr ?_ hsome
    rcases List.mem_append.1 (hperm.mem_iff.1 hp) with hp | hp
    · exact hpage p hp
    · exact h.page p ((held_perm hi).mem_iff.2 (List.mem_append_right _ hp))
  · intro session' hsession'
    obtain ⟨j, hj⟩ := List.mem_iff_getElem?.1 hsession'
    by_cases hij : j = i
    · subst hij
      cases hi'.symm.trans hj
      exact hsession
    · rw [StreamWorld.put, List.getElem?_set_ne (Ne.symm hij)] at hj
      have hmem : session' ∈ w.sessions.eraseIdx i := List.mem_eraseIdx_iff_getElem?.2 ⟨j, hij, hj⟩
      rcases h.session session' (List.mem_of_getElem? hj) with ⟨hpool, hreturned, hlive⟩ | hgone
      · refine .inl ⟨hpool, hreturned, hlive.congr fun q hq k hk => hother q ?_ k ?_⟩
        · exact List.mem_flatMap.2 ⟨session', hmem, by rwa [held_live hreturned]⟩
        · unfold pageSize
          omega
      · exact .inr hgone

/-- After a call of a stream that was not disposed. -/
theorem Inv.put (h : w.Inv) (hi : w.sessions[i]? = some session) {s : StreamState}
    (hs : Keeping w.memory (w.others i) s) : (w.put i s).Inv := by
  have hsub :
      List.Sublist (s.taken ++ w.others i) (s.taken ++ (s.supply.filter (· ≠ 0) ++ w.others i)) :=
    (List.sublist_append_right _ _).append_left _
  refine h.replace hi (held_live hs.returned) (.inl ⟨hs.pool, hs.returned, hs.live⟩) hs.isSome
    (fun p hp j hj => ?_)
    (hs.apart.sublist hsub) fun p hp => hs.page p (List.mem_append_left _ hp)
  have hpage := hs.page p (List.mem_append_right _ (List.mem_append_right _ hp))
  refine hs.frame _ (.inr ?_) fun q hq => ?_
  · have := hpage.low
    omega
  · have := (List.pairwise_append.1 hs.apart).2.2 q hq p (List.mem_append_right _ hp)
    omega

/-- A call that changes nothing. -/
theorem put_same (hi : w.sessions[i]? = some session) {s : StreamState}
    (hmemory : s.memory = w.memory)
    (hsession : (⟨s.stream, s.taken, s.returned⟩ : Session) = session) : w.put i s = w := by
  obtain ⟨hlt, hget⟩ := List.getElem?_eq_some_iff.1 hi
  rw [put, hsession, hmemory, ← hget, List.set_getElem_self]

/-- What a call keeps. -/
theorem Inv.call (h : w.Inv) {x : StreamM Unit} {e : Option ClrException}
    (hlive : ∀ session, w.sessions[i]? = some session → session.stream.pool = true →
      session.returned = [] → Live w.memory session.stream session.taken →
      Leads (x.run (w.stateOf session supply))
        (fun _ s' => (w.put i s').Inv) fun _ s' => (w.put i s').Inv)
    (hgone : ∀ session, w.sessions[i]? = some session → session.Gone →
      Leads (x.run (w.stateOf session supply))
        (fun _ s' => w.put i s' = w) fun _ s' => w.put i s' = w)
    (heq : w.call i supply x = .ok (w', e)) : w'.Inv := by
  rw [StreamWorld.call] at heq
  cases hi : w.sessions[i]? with
  | none =>
    rw [hi] at heq
    cases heq
    exact h
  | some session =>
    have hleads : Leads (x.run (w.stateOf session supply))
        (fun _ s' => (w.put i s').Inv) fun _ s' => (w.put i s').Inv := by
      rcases h.session session (List.mem_of_getElem? hi) with ⟨hpool, hreturned, hlive'⟩ | hgone'
      · exact hlive session hi hpool hreturned hlive'
      · exact (hgone session hi hgone').mono (fun _ s' hs' => by rw [hs']; exact h)
          fun _ s' hs' => by rw [hs']; exact h
    simp only [hi] at heq
    cases hrun : x.run (w.stateOf session supply) with
    | ok u s =>
      rw [hrun] at heq hleads
      cases heq
      exact hleads
    | error t s =>
      rw [hrun] at heq hleads
      cases t with
      | threw e => cases heq; exact hleads
      | crash | endless | exhausted => cases heq

/-- A stream that is disposed gives its pages back. -/
theorem Inv.dispose (h : w.Inv) (hi : w.sessions[i]? = some session)
    (hpool : session.stream.pool = true) (hreturned : session.returned = [])
    (hlive : Live w.memory session.stream session.taken) (fuel : ℕ) :
    (∃ s, (WriteStream.dispose fuel).run (w.stateOf session []) = .ok () s ∧ (w.put i s).Inv ∧
      s.returned = session.taken) ∨
      fuel ≤ session.taken.length ∧
        ∃ s, (WriteStream.dispose fuel).run (w.stateOf session []) = .error .endless s := by
  have hperm := held_perm hi
  rw [held_live hreturned] at hperm
  have hapart := (apart_perm hperm).1 h.apart
  have hpages : ∀ p ∈ session.taken, Page w.memory p := fun p hp =>
    h.page p (hperm.mem_iff.2 (List.mem_append_left _ hp))
  have hchain : ChainOf w.memory session.stream.head session.taken := hlive.chainOf hpages
  let stream : WriteStream := { session.stream with pool := false, head := 0, current := 0 }
  let s₁ : StreamState := { w.stateOf session [] with stream }
  have hdispose : (WriteStream.dispose fuel).run (w.stateOf session []) =
      (disposeLoop true fuel session.stream.head).run s₁ := by
    rw [← hpool]
    rfl
  rw [hdispose]
  rcases disposeLoop_spec (s := s₁) hchain fuel with heq | hendless
  · refine .inl ⟨_, heq, ?_, ?_⟩
    · have htaken : Memory.Apart pageSize session.taken := (List.pairwise_append.1 hapart).1
      have hgone : Session.Gone ⟨stream, session.taken, session.returned ++ session.taken⟩ :=
        ⟨rfl, rfl, rfl, by rw [hreturned]; rfl, htaken.nodup (by decide)⟩
      exact h.replace hi (held_gone hgone) (.inr hgone) (fun _ => rfl) (fun _ _ _ _ => rfl)
        (List.pairwise_append.1 hapart).2.1 nofun
    · change session.returned ++ session.taken = session.taken
      rw [hreturned]
      rfl
  · exact .inr hendless

theorem dispose_gone (fuel : ℕ) (hgone : session.Gone) :
    Leads ((WriteStream.dispose fuel).run (w.stateOf session []))
      (fun _ s => s = w.stateOf session []) fun e s => e = .endless ∧ s = w.stateOf session [] := by
  obtain ⟨⟨head, current, length, pool⟩, taken, returned⟩ := session
  obtain ⟨hpool, hhead, hcurrent, -, -⟩ := hgone
  cases hpool
  cases hhead
  cases hcurrent
  cases fuel with
  | zero => exact ⟨rfl, rfl⟩
  | succ fuel => rfl

/-- An action whose pages have a null pointer for `Next` keeps what holds. -/
theorem Inv.step (h : w.Inv) (hen : w.Enabled a) (hnext : w.NullNext a) {e : Option ClrException}
    (heq : w.step fuel a = .ok (w', e)) : w'.Inv := by
  cases a with
  | create =>
    cases heq
    have hheld :
        ({ w with sessions := w.sessions ++ [⟨.new, [], []⟩] } : StreamWorld).held = w.held := by
      rw [held, List.flatMap_append]
      exact List.append_nil _
    refine ⟨h.null, hheld ▸ h.apart, hheld ▸ h.page, fun session hsession => ?_⟩
    rcases List.mem_append.1 hsession with hold | hnew
    · exact h.session session hold
    · rw [List.mem_singleton.1 hnew]
      exact .inl ⟨rfl, rfl, .inl ⟨rfl, rfl, rfl⟩⟩
  | write i buffer offset count supply =>
    refine h.call (fun session hi hpool hreturned hlive => ?_) (fun session hi hgone => ?_) heq
    · have hkeeping := h.keeping hi hpool hreturned hlive hen.2.2 hnext
      exact (hkeeping.write hen.1 hen.2.1 fuel).mono (fun _ s hs => h.put hi hs) fun _ s hs =>
        h.put hi hs
    · obtain ⟨e, hrun⟩ := write_gone (s := w.stateOf session supply) fuel hgone.current hgone.pool
        buffer offset count
      rw [hrun]
      exact put_same hi rfl rfl
  | writeByte i value supply =>
    refine h.call (fun session hi hpool hreturned hlive => ?_) (fun session hi hgone => ?_) heq
    · have hkeeping := h.keeping hi hpool hreturned hlive hen hnext
      exact (hkeeping.writeByte value).mono (fun _ s hs => h.put hi hs) fun _ s hs => h.put hi hs
    · obtain ⟨e, hrun⟩ :=
        writeByte_gone (s := w.stateOf session supply) hgone.current hgone.pool value
      rw [hrun]
      exact put_same hi rfl rfl
  | dispose i =>
    cases hi : w.sessions[i]? with
    | none =>
      simp only [StreamWorld.step, StreamWorld.call, hi] at heq
      cases heq
      exact h
    | some session =>
      simp only [StreamWorld.step, StreamWorld.call, hi] at heq
      rcases h.session session (List.mem_of_getElem? hi) with ⟨hpool, hreturned, hlive⟩ | hgone
      · rcases h.dispose hi hpool hreturned hlive fuel with ⟨s, hrun, hinv, -⟩ | ⟨-, s, hrun⟩
        · rw [hrun] at heq
          cases heq
          exact hinv
        · rw [hrun] at heq
          cases heq
      · have hleads := dispose_gone (w := w) fuel hgone
        cases hrun : (WriteStream.dispose fuel).run (w.stateOf session []) with
        | ok u s =>
          rw [hrun] at heq hleads
          cases heq
          rw [put_same hi (by rw [hleads]; rfl) (by rw [hleads]; rfl)]
          exact h
        | error t s =>
          rw [hrun] at heq hleads
          obtain ⟨rfl, -⟩ := hleads
          cases heq
  | other memory =>
    cases heq
    refine ⟨hen.1, h.apart, fun p hp => ?_, fun session hsession => ?_⟩
    · have hpage := h.page p hp
      exact ⟨hpage.low, hpage.high,
        fun i hi => (congrArg Option.isSome (hen.2 p hp i hi)).trans (hpage.mapped i hi)⟩
    · rcases h.session session hsession with ⟨hpool, hreturned, hlive⟩ | hgone
      · refine .inl ⟨hpool, hreturned,
          hlive.congr fun q hq j hj => hen.2 q ?_ j (by unfold pageSize; omega)⟩
        exact List.mem_flatMap.2 ⟨session, hsession, by rwa [held_live hreturned]⟩
      · exact .inr hgone

theorem Inv.owns (h : w.Inv) (hsession : session ∈ w.sessions) : session.Owns w.memory := by
  rcases h.session session hsession with ⟨hpool, hreturned, hlive⟩ | hgone
  · obtain ⟨i, hi⟩ := List.mem_iff_getElem?.1 hsession
    have hperm := held_perm hi
    rw [held_live hreturned] at hperm
    have htaken : Memory.Apart pageSize session.taken :=
      (List.pairwise_append.1 ((apart_perm hperm).1 h.apart)).1
    refine ⟨htaken.nodup (by decide), fun _ => ⟨hlive.chainOf fun p hp => ?_, hreturned⟩,
      fun hgone => ?_⟩
    · exact h.page p (hperm.mem_iff.2 (List.mem_append_left _ hp))
    · rw [hpool] at hgone
      cases hgone
  · refine ⟨hgone.nodup, fun hpool => ?_, fun _ => hgone.returned⟩
    rw [hgone.pool] at hpool
    cases hpool

theorem inv_of_trace {memory : Memory UInt8} {as : List StreamAction}
    (hmemory : ∀ a < 16, memory a = none)
    (h : Trace (step fuel) (fun w a => w.Enabled a ∧ w.NullNext a) (init memory) as w) : w.Inv := by
  apply h.invariant (I := fun _ w => w.Inv)
  · exact ⟨hmemory, .nil, nofun, nofun⟩
  · exact fun _ _ _ _ _ hinv hP heq => hinv.step hP.1 hP.2 heq

/-- In a run in which every page that is taken has a null pointer for `Next`, the chain of every
stream is what it has taken, and a stream that is disposed returns each of its pages once and no
other page. -/
theorem page_ownership {memory : Memory UInt8} {as : List StreamAction}
    (hmemory : ∀ a < 16, memory a = none)
    (hrun : Trace (step fuel) (fun w a => w.Enabled a ∧ w.NullNext a) (init memory) as w) :
    (∀ session ∈ w.sessions, session.Owns w.memory ∧
      (session.stream.pool = true → session.taken.length < fuel →
        session.stream.pageCount w.memory fuel = .ok session.taken.length)) ∧
      ∀ i session, w.sessions[i]? = some session → session.stream.pool = true →
        session.taken.length < fuel →
        ∃ w' session', w.step fuel (.dispose i) = .ok (w', none) ∧ w'.sessions[i]? = some session' ∧
          session'.returned = session.taken := by
  have hinv := inv_of_trace hmemory hrun
  constructor
  · intro session hsession
    have howns := hinv.owns hsession
    refine ⟨howns, fun hpool hfuel => ?_⟩
    rw [WriteStream.pageCount, (howns.chain hpool).1.pageCountLoop_eq hfuel, Nat.zero_add]
  · intro i session hi hpool hfuel
    obtain ⟨hlt, -⟩ := List.getElem?_eq_some_iff.1 hi
    rcases hinv.session session (List.mem_of_getElem? hi) with ⟨-, hreturned, hlive⟩ | hgone
    · rcases hinv.dispose hi hpool hreturned hlive fuel with ⟨s, hrun, -, hback⟩ | ⟨hle, -⟩
      · refine ⟨w.put i s, ⟨s.stream, s.taken, s.returned⟩, ?_, List.getElem?_set_self hlt, hback⟩
        simp only [StreamWorld.step, StreamWorld.call, hi, hrun]
      · omega
    · rw [hgone.pool] at hpool
      cases hpool

/-- Two pages; the `Next` of the first one points to the second one. -/
def stalePages : Memory UInt8 :=
  fun a => if 2 ^ 16 ≤ a ∧ a < 2 ^ 16 + 2 * pageSize then
    some (if a = 2 ^ 16 + 1 then 16 else if a = 2 ^ 16 + 2 then 1 else 0)
    else none

theorem offers_single {m : Memory UInt8} (hpage : Page m (2 ^ 16)) :
    Offers { memory := m, sessions := [⟨.new, [], []⟩] } [2 ^ 16] :=
  ⟨List.pairwise_singleton _ _, fun _ hp _ => List.mem_singleton.1 hp ▸ hpage⟩

/-- Two pages that were not used before. -/
def freshPages : Memory UInt8 :=
  fun a => if 2 ^ 16 ≤ a ∧ a < 2 ^ 16 + 2 * pageSize then some 0 else none

theorem freshPages_page {p : ℕ} (hp : p ∈ [2 ^ 16, 2 ^ 16 + pageSize]) : Page freshPages p := by
  have hrange : 2 ^ 16 ≤ p ∧ p + pageSize ≤ 2 ^ 16 + 2 * pageSize := by
    simp only [List.mem_cons, List.not_mem_nil, or_false] at hp
    omega
  refine ⟨hrange.1, hrange.2.trans (by decide), fun i hi => ?_⟩
  rw [freshPages, if_pos (by omega)]
  rfl

/-- Two new streams. -/
def twoStreams : StreamWorld :=
  { memory := freshPages, sessions := [⟨.new, [], []⟩, ⟨.new, [], []⟩] }

/-- Each of them takes a page. -/
theorem twoStreams_write : ∃ s s',
    (WriteStream.write 3 [] 0 0).run (twoStreams.stateOf ⟨.new, [], []⟩ [2 ^ 16]) = .ok () s ∧
      s.stream.pool = true ∧ s.taken = [2 ^ 16] ∧ s.returned = [] ∧
    (WriteStream.write 3 [] 0 0).run
      ((twoStreams.put 0 s).stateOf ⟨.new, [], []⟩ [2 ^ 16 + pageSize]) = .ok () s' ∧
      s'.taken = [2 ^ 16 + pageSize] :=
  ⟨_, _, rfl, rfl, rfl, rfl, rfl, rfl⟩

theorem step_write {w : StreamWorld} {i : ℕ} {session : Session} {buffer : List UInt8}
    {offset count : ℕ} {supply : List ℕ} {s : StreamState} (hi : w.sessions[i]? = some session)
    (hrun : (WriteStream.write fuel buffer offset count).run
      (w.stateOf session supply) = .ok () s) :
    w.step fuel (.write i buffer offset count supply) = .ok (w.put i s, none) := by
  simp only [step, call, hi, hrun]

/-- Two streams take a page each; the first one returns its page when it is disposed. -/
theorem page_ownership_two : ∃ w w', (∀ a < 16, freshPages a = none) ∧
    Trace (step 3) (fun w a => w.Enabled a ∧ w.NullNext a) (init freshPages)
      [.create, .create, .write 0 [] 0 0 [2 ^ 16], .write 1 [] 0 0 [2 ^ 16 + pageSize]] w ∧
    w.sessions.map Session.taken = [[2 ^ 16], [2 ^ 16 + pageSize]] ∧
      (∀ session ∈ w.sessions, session.Owns w.memory) ∧
    w.step 3 (.dispose 0) = .ok (w', none) ∧
      w'.sessions[0]?.map Session.returned = some [2 ^ 16] := by
  have hmemory : ∀ a < 16, freshPages a = none := fun a ha => if_neg (by omega)
  have hcreated : Trace (step 3) (fun w a => w.Enabled a ∧ w.NullNext a) (init freshPages)
      [.create, .create] twoStreams :=
    .snoc (.snoc .nil ⟨trivial, nofun⟩ rfl) ⟨trivial, nofun⟩ rfl
  have hoffers : twoStreams.Offers [2 ^ 16] :=
    ⟨List.pairwise_singleton _ _,
      fun p hp _ => freshPages_page (List.mem_cons.2 (.inl (List.mem_singleton.1 hp)))⟩
  have hnull : ∀ p ∈ [2 ^ 16], p ≠ 0 → freshPages.load p 8 = some (putLe 8 0) := by
    intro p hp _
    rw [List.mem_singleton.1 hp]
    rfl
  obtain ⟨s, s', hwrite, hpool, htaken, hreturned, hwrite', htaken'⟩ := twoStreams_write
  -- the second page is as it was before the first call
  have hkeep : Keeping freshPages [] s := by
    have hcount : (0 : ℕ) < 2 ^ 31 := by decide
    have hread : (0 : ℕ) + 0 ≤ ([] : List UInt8).length := le_rfl
    have hleads :=
      ((inv_of_trace hmemory hcreated).keeping (i := 0) rfl rfl rfl (.inl ⟨rfl, rfl, rfl⟩)
        hoffers hnull).write
      hread hcount 3
    rw [show (WriteStream.write 3 [] (0 : ℕ) (0 : ℕ)).run _ = _ from hwrite] at hleads
    exact hleads
  have hsame :
      ∀ i < pageSize, s.memory (2 ^ 16 + pageSize + i) = freshPages (2 ^ 16 + pageSize + i) := by
    intro i hi
    refine hkeep.frame _ (.inr (by omega)) fun p hp => .inr ?_
    rw [htaken] at hp
    rw [List.mem_singleton.1 hp]
    omega
  have hpage : Page s.memory (2 ^ 16 + pageSize) := (freshPages_page (by simp)).congr hkeep.isSome
  have hheld : (twoStreams.put 0 s).held = [2 ^ 16] := by
    simp [held, put, twoStreams, Session.held, htaken, hreturned]
  have hoffers' : (twoStreams.put 0 s).Offers [2 ^ 16 + pageSize] := by
    refine ⟨?_, fun p hp _ => List.mem_singleton.1 hp ▸ hpage⟩
    rw [hheld]
    exact List.pairwise_pair.2 (.inl le_rfl)
  have hnull' : ∀ p ∈ [2 ^ 16 + pageSize], p ≠ 0 → s.memory.load p 8 = some (putLe 8 0) := by
    intro p hp _
    rw [List.mem_singleton.1 hp, Memory.load_congr fun i hi => hsame i (by unfold pageSize; omega)]
    rfl
  have hen : twoStreams.Enabled (.write 0 [] 0 0 [2 ^ 16]) ∧
      twoStreams.NullNext (.write 0 [] 0 0 [2 ^ 16]) :=
    ⟨⟨le_rfl, by decide, hoffers⟩, hnull⟩
  have hen' : (twoStreams.put 0 s).Enabled (.write 1 [] 0 0 [2 ^ 16 + pageSize]) ∧
      (twoStreams.put 0 s).NullNext (.write 1 [] 0 0 [2 ^ 16 + pageSize]) :=
    ⟨⟨le_rfl, by decide, hoffers'⟩, hnull'⟩
  have hrun : Trace (step 3) (fun w a => w.Enabled a ∧ w.NullNext a) (init freshPages)
      ([.create, .create] ++ [StreamAction.write 0 [] 0 0 [2 ^ 16]] ++
        [StreamAction.write 1 [] 0 0 [2 ^ 16 + pageSize]])
      ((twoStreams.put 0 s).put 1 s') :=
    (hcreated.snoc hen (step_write rfl hwrite)).snoc hen' (step_write rfl hwrite')
  obtain ⟨howns, hdispose⟩ := page_ownership hmemory hrun
  obtain ⟨w', session, hstep, hget, hback⟩ :=
    hdispose 0 ⟨s.stream, s.taken, s.returned⟩ rfl hpool (by simp [htaken])
  refine ⟨_, w', hmemory, hrun, ?_, fun session hsession => (howns session hsession).1, hstep, ?_⟩
  · simp [put, twoStreams, htaken, htaken']
  · rw [hget, Option.map_some, hback, htaken]

/-- A stream takes a page that was in use, and returns the page that was linked to it as well. -/
theorem page_not_taken : ∃ w, Trace (step 3) Enabled (init stalePages)
    [.create, .write 0 [] 0 0 [2 ^ 16], .dispose 0] w ∧ (∀ a < 16, stalePages a = none) ∧
    ¬ ∀ session ∈ w.sessions, session.Owns w.memory := by
  have hpage : Page stalePages (2 ^ 16) := by
    refine ⟨by decide, by decide, fun i hi => ?_⟩
    rw [stalePages, if_pos (by omega)]
    rfl
  have hrun : ∃ w, Trace (step 3) Enabled (init stalePages)
      ([] ++ [StreamAction.create] ++ [StreamAction.write 0 [] 0 0 [2 ^ 16]] ++
        [StreamAction.dispose 0]) w ∧
      w.sessions.map (fun session => (session.stream.pool, session.taken, session.returned)) =
        [(false, [2 ^ 16], [2 ^ 16, 2 ^ 16 + 4096])] := by
    have hcode :
        ((step 3 { memory := stalePages, sessions := [⟨.new, [], []⟩] }
          (.write 0 [] 0 0 [2 ^ 16])).bind
        fun p => step 3 p.1 (.dispose 0)).toOption.map
          (fun p => p.1.sessions.map fun session => (session.stream.pool, session.taken,
            session.returned)) =
        some [(false, [2 ^ 16], [2 ^ 16, 2 ^ 16 + 4096])] := by
      decide
    cases hwrite : step 3 { memory := stalePages, sessions := [⟨.new, [], []⟩] }
        (.write 0 [] 0 0 [2 ^ 16]) with
    | error e =>
      rw [hwrite] at hcode
      cases hcode
    | ok p =>
      rw [hwrite, Except.bind] at hcode
      cases hdispose : step 3 p.1 (.dispose 0) with
      | error e =>
        rw [hdispose] at hcode
        cases hcode
      | ok q =>
        rw [hdispose] at hcode
        refine ⟨q.1, .snoc (.snoc (.snoc .nil trivial rfl) ⟨?_, ?_, offers_single hpage⟩ hwrite)
          trivial hdispose, Option.some.inj hcode⟩
        · decide
        · decide
  obtain ⟨w, hrun, hsessions⟩ := hrun
  refine ⟨w, hrun, fun a ha => if_neg (by omega), fun howns => ?_⟩
  have hmem : (false, [2 ^ 16], [2 ^ 16, 2 ^ 16 + 4096]) ∈
      w.sessions.map fun session => (session.stream.pool, session.taken, session.returned) := by
    rw [hsessions]
    exact List.mem_cons_self
  obtain ⟨session, hsession, heq⟩ := List.mem_map.1 hmem
  have hpool : session.stream.pool = false := congrArg Prod.fst heq
  have htaken : session.taken = [2 ^ 16] := congrArg (fun x => x.2.1) heq
  have hreturned : session.returned = [2 ^ 16, 2 ^ 16 + 4096] := congrArg (fun x => x.2.2) heq
  have := (howns session hsession).returned hpool
  rw [htaken, hreturned] at this
  exact absurd (congrArg List.length this) (by decide)

end StreamWorld

end NanoSocket

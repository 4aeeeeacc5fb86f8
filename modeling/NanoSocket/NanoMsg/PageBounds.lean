import NanoSocket.Lib.Runs
import NanoSocket.NanoMsg.WriteStreamLog

/-!
# Where the bytes of a message go

`EnsureCapacity` says that a page of 4096 bytes has room for 4096 bytes, though its `IoBuffer` takes
16 of them, and `Data` is found behind the `Next` of the page.  A page that has its own address for
`Next` holds 4080 bytes; `page_bounds_iff` says when the bytes of a call stay within such a page,
and that nothing else keeps them there.
-/

namespace NanoSocket.PageBounds

open Runs WriteStream

/-- What happens to a stream.  A call comes with the pages that the manager hands out during it;
other code writes to memory that the stream does not hold. -/
inductive Call
  | write (buffer : List UInt8) (offset count : ℕ) (supply : List ℕ)
  | writeByte (value : UInt8) (supply : List ℕ)
  | other (memory : Memory UInt8)

/-- The end of a call. An exception leaves what was done before it. -/
def finish : EStateM.Result Trap StreamState Unit → Except Trap (StreamState × Unit)
  | .ok _ s => .ok (s, ())
  | .error (.threw _) s => .ok (s, ())
  | .error e _ => .error e

/-- One call. -/
def step (fuel : ℕ) (s : StreamState) : Call → Except Trap (StreamState × Unit)
  | .write buffer offset count supply =>
    finish ((WriteStream.write fuel buffer offset count).run { s with supply })
  | .writeByte value supply => finish ((WriteStream.writeByte value).run { s with supply })
  | .other memory => .ok ({ s with memory }, ())

/-- The manager hands out pages, or null pointers. -/
def Offers (s : StreamState) : Prop := ∀ p ∈ s.supply, p ≠ 0 → Page s.memory p

/-- The calls have valid ranges, and other code leaves the pages of the stream alone.  There is no
memory at a null pointer. -/
def Enabled (s : StreamState) : Call → Prop
  | .write buffer offset count supply =>
    offset + count ≤ buffer.length ∧ buffer.length < 2 ^ 31 ∧ Offers { s with supply }
  | .writeByte _ supply => Offers { s with supply }
  | .other memory => (∀ a < 16, memory a = none) ∧ ∀ p ∈ s.taken, ∀ i < pageSize, memory (p + i) =
      s.memory (p + i)

/-! ### The places of the bytes -/

/-- The first part of a round of `Write` and of `WriteByte`: the page, the address in it, and the
number of the bytes that go there. -/
def place (count : ℤ) : StreamM (ℕ × ℕ × ℤ) := do
  let capacity ← ensureCapacity
  let toCopy := min count capacity
  let current := (← get).stream.current
  let needle ← fetch fun memory => IoBuffer.needle memory current
  return (current, needle, toCopy)

/-- The second part of a round of `Write`. -/
def fillPage (buffer : List UInt8) (offset : ℤ) (needle : ℕ) (toCopy : ℤ) : StreamM Unit := do
  copyMemory (← sourceBytes buffer offset toCopy) needle
  addLength toCopy

theorem writeLoop_succ (buffer : List UInt8) (fuel : ℕ) (offset count : ℤ) :
    writeLoop buffer (fuel + 1) offset count = (do
      let r ← place count
      fillPage buffer offset r.2.1 r.2.2
      if int32 (count - r.2.2) = 0 then return
      writeLoop buffer fuel (int32 (offset + r.2.2)) (int32 (count - r.2.2))) := by
  simp only [place, fillPage, bind_assoc, pure_bind]
  rfl

theorem writeByte_eq (value : UInt8) :
    writeByte value = (do
      let r ← place 1
      storeBytes r.2.1 [value]
      addLength 1) := by
  simp only [place, bind_assoc, pure_bind]
  rfl

/-- So many bytes at an address are behind the header of a page, and in the page. -/
def InPage (page a : ℕ) (n : ℤ) : Prop :=
  n ≤ 0 ∨ (page + IoBuffer.sizeOf ≤ a ∧ (a : ℤ) + n ≤ page + pageSize)

/-- Every round of `Write` copies its bytes to their page. -/
def LoopWithin (buffer : List UInt8) : ℕ → ℤ → ℤ → StreamState → Prop
  | 0, _, _, _ => True
  | fuel + 1, offset, count, s =>
    match (place count).run s with
    | .error _ _ => True
    | .ok (page, needle, toCopy) s =>
      InPage page needle toCopy ∧
        match (fillPage buffer offset needle toCopy).run s with
        | .error _ _ => True
        | .ok _ s =>
          int32 (count - toCopy) = 0 ∨ LoopWithin buffer fuel (int32 (offset + toCopy))
            (int32 (count - toCopy)) s

/-- Every byte that a call stores goes to the page that was taken for it, behind the header of that
page. -/
def Within (fuel : ℕ) (s : StreamState) : Call → Prop
  | .write buffer offset count supply => LoopWithin buffer fuel offset count { s with supply }
  | .writeByte _ supply =>
    match (place 1).run { s with supply } with
    | .error _ _ => True
    | .ok (page, needle, _) _ => InPage page needle 1
  | .other _ => True

/-- The number of the bytes of a call, with the state in which it begins. -/
def Call.count : Call → ℕ
  | .write _ _ count _ => count
  | .writeByte _ _ => 1
  | .other _ => 0

def Call.before (s : StreamState) : Call → StreamState
  | .write _ _ _ supply | .writeByte _ supply => { s with supply }
  | .other _ => s

/-- The `Next` of a page is not below the page, and so many bytes fit behind what is there. -/
def Room (m : Memory UInt8) (p : ℕ) (length : ℤ) (count : ℕ) : Prop :=
  ∀ next, IoBuffer.next m p = .ok next → p ≤ next ∧
    next + length + count ≤ p + (pageSize - IoBuffer.sizeOf : ℕ)

/-- There is nothing to write, or there is room in the page of the stream, or in the one that it
will take. -/
def Fits (s : StreamState) (count : ℕ) : Prop :=
  count = 0 ∨
    (s.stream.current ≠ 0 → ∀ length, IoBuffer.length s.memory s.stream.current = .ok length →
      Room s.memory s.stream.current length count) ∧
    (s.stream.current = 0 → ∀ p ∈ s.supply.head?, p ≠ 0 → Room s.memory p 0 count)

/-! ### What holds between the calls -/

section Filled

variable {s : StreamState} {m : Memory UInt8} {p next len a n : ℕ}

/-- The last page of a stream, with `len` bytes; they were stored within it. -/
structure Filled (s : StreamState) (p next len : ℕ) : Prop where
  current : s.stream.current = p
  mem : p ∈ s.taken
  page : Page s.memory p
  header : Header s.memory p next len
  lt : next < 2 ^ 64
  room : len = 0 ∨ (p ≤ next ∧ next + len ≤ p + 4080)

/-- What holds between the calls. -/
structure Inv (s : StreamState) : Prop where
  pool : s.stream.pool = true
  null : ∀ a < 16, s.memory a = none
  page : s.stream.current = 0 ∨ ∃ p next len, Filled s p next len

theorem Filled.le (h : Filled s p next len) : len ≤ 4080 := by
  have := h.room
  omega

/-- The memory changes, but not in the header. -/
theorem Filled.congr (h : Filled s p next len) (hsome : ∀ x, (m x).isSome = (s.memory x).isSome)
    (hsame : ∀ i < 16, m (p + i) = s.memory (p + i)) : Filled { s with memory := m } p next len :=
  ⟨h.current, h.mem, ⟨h.page.low, h.page.high, h.page.mapped.congr hsome⟩,
    h.header.congr hsame, h.lt, h.room⟩

theorem Filled.inv (h : Filled s p next len) (hpool : s.stream.pool = true)
    (hnull : ∀ a < 16, s.memory a = none) :
    Inv s :=
  ⟨hpool, hnull, .inr ⟨p, next, len, h⟩⟩

/-- The place of the bytes in a page that has room. -/
theorem Filled.place (h : Filled s p next len) {capacity : ℤ} {s₀ : StreamState}
    (hensure : ensureCapacity.run s₀ = .ok capacity s) (count : ℤ) :
    (place count).run s₀ = .ok (p, (next + 16 + len) % 2 ^ 64, min count capacity) s := by
  have hneedle : IoBuffer.needle s.memory s.stream.current = .ok ((next + 16 + len) % 2 ^ 64) := by
    rw [h.current]
    exact h.header.needle_eq h.lt (h.le.trans (by decide))
  simp only [PageBounds.place]
  rw [run_bind_ok hensure, run_bind_ok (EStateM.run_get s),
    run_bind_ok (run_fetch hneedle), h.current]
  rfl

/-- Without a page nothing is stored. -/
theorem ensureCapacity_none (h : Inv s) (hcurrent : s.stream.current = 0)
    (hsupply : ∀ p ∈ s.supply.head?, p = 0) :
    ∃ e s', ensureCapacity.run s = .error e s' ∧ Inv s' := by
  cases hs : s.supply with
  | nil => exact ⟨.exhausted, s, ensureCapacity_exhausted hcurrent h.pool hs, h⟩
  | cons p rest =>
    obtain rfl : p = 0 := hsupply p (by rw [hs]; rfl)
    exact ⟨_, _, ensureCapacity_null hcurrent h.pool hs (h.null 8 (by decide)), h.pool,
      h.null, .inl hcurrent⟩

/-- The first page. -/
theorem Inv.first (h : Inv s) (hcurrent : s.stream.current = 0) {rest : List ℕ}
    (hsupply : s.supply = p :: rest) (hpage : Page s.memory p) (hlt : next < 2 ^ 64)
    (hnext : s.memory.load p 8 = some (putLe 8 next)) :
    ∃ s', ensureCapacity.run s = .ok pageSize s' ∧ Inv s' ∧ Filled s' p next 0 := by
  have hsome := initPage_isSome hpage.mapped
  have hfilled : Filled { s with
      memory := initPage s.memory p, supply := rest, taken := s.taken ++ [p]
      stream := { s.stream with head := p, current := p } } p next 0 :=
    ⟨rfl, List.mem_append_right _ List.mem_cons_self,
      ⟨hpage.low, hpage.high, hpage.mapped.congr hsome⟩,
      initPage_header hpage.mapped hnext, hlt, .inl rfl⟩
  refine ⟨_, ensureCapacity_first hcurrent h.pool hsupply hpage hnext,
    hfilled.inv h.pool ?_, hfilled⟩
  exact fun a ha => Memory.eq_none_of_isSome (hsome a) (h.null a ha)

theorem fits_first_iff (hcurrent : s.stream.current = 0) {rest : List ℕ}
    (hsupply : s.supply = p :: rest) (hne : p ≠ 0)
    (hnext : IoBuffer.next s.memory p = .ok next) {count : ℕ} :
    Fits s count ↔ count = 0 ∨ (p ≤ next ∧ next + 0 + count ≤ p + 4080) := by
  have hsize : pageSize - IoBuffer.sizeOf = 4080 := rfl
  have hhead : s.supply.head? = some p := by rw [hsupply, List.head?_cons]
  refine or_congr_right ⟨?_, ?_⟩
  · rintro ⟨-, hroom⟩
    have := hroom hcurrent p hhead hne next hnext
    omega
  · intro hroom
    refine ⟨fun hne => absurd hcurrent hne, fun _ q hq _ next' hnext' => ?_⟩
    cases hhead.symm.trans hq
    cases hnext.symm.trans hnext'
    omega

theorem Filled.fits_iff (h : Filled s p next len) {count : ℕ} :
    Fits s count ↔ count = 0 ∨ (p ≤ next ∧ next + len + count ≤ p + 4080) := by
  have hsize : pageSize - IoBuffer.sizeOf = 4080 := rfl
  have hne : p ≠ 0 := h.page.ne_zero
  have hlength := h.header.length_eq (h.le.trans (by decide))
  have hnext := Header.loadNext h.header.next h.lt
  unfold Fits
  rw [h.current]
  refine or_congr_right ⟨?_, ?_⟩
  · rintro ⟨hroom, -⟩
    have := hroom hne len hlength next hnext
    omega
  · intro hroom
    refine ⟨fun _ length hlength' next' hnext' => ?_, fun hzero => absurd hzero hne⟩
    cases hlength.symm.trans hlength'
    cases hnext.symm.trans hnext'
    omega

/-- Either there is no page, or the bytes go behind the `Next` of the page. -/
theorem Inv.place (h : Inv s) (hoffers : Offers s) (count : ℕ) :
    (Fits s count ∧ ∃ e s', (place count).run s = .error e s' ∧ Inv s') ∨
      ∃ p next len s', (place count).run s =
          .ok (p, (next + 16 + len) % 2 ^ 64, ((min count (pageSize - len) : ℕ) : ℤ)) s' ∧
        Inv s' ∧ Filled s' p next len ∧
          (Fits s count ↔ count = 0 ∨ (p ≤ next ∧ next + len + count ≤ p + 4080)) := by
  have hcast (len : ℕ) :
      min (count : ℤ) ((pageSize - len : ℕ) : ℤ) = ((min count (pageSize - len) : ℕ) : ℤ) := by
    omega
  rcases h.page with hcurrent | ⟨p, next, len, hfilled⟩
  · by_cases hnone : ∀ p ∈ s.supply.head?, p = 0
    · obtain ⟨e, s', herr, hinv⟩ := ensureCapacity_none h hcurrent hnone
      refine .inl ⟨.inr ⟨fun hne => absurd hcurrent hne, fun _ p hp hne => absurd (hnone p hp) hne⟩,
        e, s', ?_, hinv⟩
      exact run_bind_error herr
    · push Not at hnone
      obtain ⟨p, hp, hne⟩ := hnone
      obtain ⟨rest, hsupply⟩ := List.head?_eq_some_iff.1 hp
      have hpage := hoffers p (hsupply ▸ List.mem_cons_self) hne
      obtain ⟨next, hlt, hnext⟩ := hpage.exists_next
      obtain ⟨s', hensure, hinv, hfilled⟩ := h.first hcurrent hsupply hpage hlt hnext
      refine .inr ⟨p, next, 0, s', ?_, hinv, hfilled,
        fits_first_iff hcurrent hsupply hne (Header.loadNext hnext hlt)⟩
      rw [hfilled.place hensure count, ← hcast 0]
      rfl
  · have hlen := hfilled.le
    have hroom := ensureCapacity_room hfilled.current hfilled.page.ne_zero hfilled.header
      (hlen.trans_lt (by decide))
    refine .inr ⟨p, next, len, s, ?_, h, hfilled, hfilled.fits_iff⟩
    rw [hfilled.place hroom count, hcast]

/-! ### Storing within a page -/

/-- Bytes are copied to memory that is mapped, and nothing else changes. -/
theorem copyLoop_within {words : List ℕ} {bytes : List UInt8} (hsum : words.sum = bytes.length)
    (hmapped : s.memory.Mapped a bytes.length) :
    ∃ m, (copyLoop words bytes a).run s = .ok () { s with memory := m } ∧
      (∀ x, (m x).isSome = (s.memory x).isSome) ∧
      ∀ x, (x < a ∨ a + bytes.length ≤ x) → m x = s.memory x := by
  induction words generalizing s a bytes with
  | nil => exact ⟨s.memory, rfl, fun _ => rfl, fun _ _ => rfl⟩
  | cons word words ih =>
    rw [List.sum_cons] at hsum
    have htake : (bytes.take word).length = word := List.length_take_of_le (by omega)
    have hdrop : (bytes.drop word).length = bytes.length - word := List.length_drop
    have hstore :=
      Memory.store_of_mapped (hmapped.sub (b := a) (k := (bytes.take word).length)
        le_rfl (by omega))
    have hsome := Memory.store_isSome hstore
    obtain ⟨m, hrun, hsome', hout⟩ :=
      @ih { s with memory := s.memory.write a (bytes.take word) } (a + word)
      (bytes.drop word) (by omega) ((hmapped.congr hsome).sub (by omega) (by omega))
    refine ⟨m, ?_, fun x => (hsome' x).trans (hsome x), fun x hx => ?_⟩
    · rw [copyLoop, run_bind_ok (run_storeBytes hstore)]
      exact hrun
    · exact (hout x (by omega)).trans (Memory.store_outside hstore (by omega))

/-- The bytes and the new length of a page. -/
theorem Filled.stored (h : Filled s p next len) (hinv : Inv s) {count : ℕ} {bytes : List UInt8}
    (hlen : bytes.length = count) (hfits : count = 0 ∨ (p ≤ next ∧ next + len + count ≤ p + 4080))
    {x : StreamM Unit} (hx : s.memory.Mapped ((next + 16 + len) % 2 ^ 64) bytes.length → ∃ m,
      x.run s = .ok () { s with memory := m } ∧ (∀ y, (m y).isSome = (s.memory y).isSome) ∧
        ∀ y, (y < (next + 16 + len) % 2 ^ 64 ∨ (next + 16 + len) % 2 ^ 64 + bytes.length ≤ y) →
          m y = s.memory y) :
    ∃ s', (do x; addLength count : StreamM Unit).run s = .ok () s' ∧ Inv s' := by
  have hlow := h.page.low
  have hhigh := h.page.high
  have hle := h.le
  have hsize : pageSize = 4096 := rfl
  have hlt := h.lt
  have hmapped : s.memory.Mapped ((next + 16 + len) % 2 ^ 64) bytes.length := by
    by_cases hzero : count = 0
    · intro i hi
      omega
    · have := hfits.resolve_left hzero
      exact h.page.mapped.sub (by omega) (by omega)
  obtain ⟨m, hrun, hsome, hout⟩ := hx hmapped
  have hfilled : Filled { s with memory := m } p next len := h.congr hsome fun i hi => by
    refine hout _ ?_
    by_cases hzero : count = 0
    · omega
    · have := hfits.resolve_left hzero
      omega
  have hcount : len + count ≤ pageSize := by omega
  obtain ⟨m', hadd, hstore, hheader⟩ :=
    addLength_spec hfilled.current hfilled.page.mapped hfilled.header hcount
  have hsome' := Memory.store_isSome hstore
  have hnew : Filled { s with memory := m' } p next (len + count) :=
    ⟨h.current, h.mem, ⟨h.page.low, h.page.high, hfilled.page.mapped.congr hsome'⟩,
        hheader, h.lt, by
      have := h.room
      omega⟩
  refine ⟨{ s with memory := m' }, ?_, hnew.inv hinv.pool fun y hy => ?_⟩
  · rw [run_bind_ok hrun]
    exact hadd
  · exact Memory.eq_none_of_isSome ((hsome' y).trans (hsome y)) (hinv.null y hy)

theorem Filled.fillPage (h : Filled s p next len) (hinv : Inv s) {count offset : ℕ}
    {buffer : List UInt8} (hvalid : offset + count ≤ buffer.length)
    (hfits : count = 0 ∨ (p ≤ next ∧ next + len + count ≤ p + 4080)) :
    ∃ s', (fillPage buffer offset ((next + 16 + len) % 2 ^ 64) count).run s =
      .ok () s' ∧ Inv s' := by
  have hlen : ((buffer.drop offset).take count).length = count := by
    rw [List.length_take, List.length_drop]
    omega
  have hrun := h.stored hinv hlen hfits fun hmapped => copyLoop_within (copyWords_sum _) hmapped
  simp only [PageBounds.fillPage]
  rwa [run_bind_ok (sourceBytes_spec hvalid)]

theorem Filled.storeByte (h : Filled s p next len) (hinv : Inv s) (value : UInt8)
    (hfits : p ≤ next ∧ next + len + 1 ≤ p + 4080) :
    ∃ s', (do storeBytes ((next + 16 + len) % 2 ^ 64) [value]; addLength 1 : StreamM Unit).run s =
      .ok () s' ∧ Inv s' :=
  h.stored hinv (rfl : [value].length = 1) (.inr hfits) fun hmapped =>
    have hstore := Memory.store_of_mapped hmapped
    ⟨_, run_storeBytes hstore, Memory.store_isSome hstore,
      fun _ hy => Memory.store_outside hstore hy⟩

/-- The bytes are in the page when the page has room for them. -/
theorem Filled.inPage_iff (h : Filled s p next len) (count : ℕ) :
    InPage p ((next + 16 + len) % 2 ^ 64) ((min count (pageSize - len) : ℕ) : ℤ) ↔
      count = 0 ∨ (p ≤ next ∧ next + len + count ≤ p + 4080) := by
  have hlow := h.page.low
  have hhigh := h.page.high
  have hlt := h.lt
  have hroom := h.room
  have hle := h.le
  unfold InPage pageSize IoBuffer.sizeOf at *
  omega

/-! ### The calls -/

/-- Another supply, and another length of the stream. -/
theorem Inv.congr {s' : StreamState} (h : Inv s) (hmemory : s'.memory = s.memory)
    (htaken : s'.taken = s.taken) (hpool : s'.stream.pool = s.stream.pool)
    (hcurrent : s'.stream.current = s.stream.current) : Inv s' := by
  refine ⟨hpool.trans h.pool, hmemory ▸ h.null, ?_⟩
  rcases h.page with hzero | ⟨p, next, len, hfilled⟩
  · exact .inl (hcurrent.trans hzero)
  · exact .inr ⟨p, next, len, hcurrent.trans hfilled.current, htaken ▸ hfilled.mem,
      hmemory ▸ hfilled.page, hmemory ▸ hfilled.header, hfilled.lt, hfilled.room⟩

theorem Inv.supply (h : Inv s) (supply : List ℕ) : Inv { s with supply } := h.congr rfl rfl rfl rfl

/-- What other code writes is not in the page. -/
theorem Inv.other (h : Inv s) (hm : Enabled s (.other m)) : Inv { s with memory := m } := by
  obtain ⟨hnull, hpages⟩ := hm
  refine ⟨h.pool, hnull, ?_⟩
  rcases h.page with hzero | ⟨p, next, len, hfilled⟩
  · exact .inl hzero
  · have hsame := hpages p hfilled.mem
    have hmapped : m.Mapped p pageSize := fun i hi => by
      rw [hsame i hi]
      exact hfilled.page.mapped i hi
    refine .inr ⟨p, next, len, hfilled.current, hfilled.mem,
      ⟨hfilled.page.low, hfilled.page.high, hmapped⟩, ?_, hfilled.lt, hfilled.room⟩
    exact hfilled.header.congr fun i hi => hsame i (hi.trans (by decide))

/-- The number of the bytes of a round when there is room: all of them. -/
theorem min_of_fits (hlen : len ≤ 4080) (hfits : n = 0 ∨ (p ≤ next ∧ next + len + n ≤ p + 4080)) :
    min n (pageSize - len) = n := by
  have hsize : pageSize = 4096 := rfl
  omega

theorem Inv.writeLoop (h : Inv s) (hoffers : Offers s) {offset count : ℕ} {buffer : List UInt8}
    (hvalid : offset + count ≤ buffer.length) (hfits : Fits s count) (fuel : ℕ) :
    Leads ((writeLoop buffer (fuel + 1) offset count).run s) (fun _ => Inv) (fun _ => Inv) := by
  rw [writeLoop_succ]
  rcases h.place hoffers count with
    ⟨-, e, s', hplace, hinv⟩ | ⟨p, next, len, s', hplace, hinv, hfilled, hiff⟩
  · rw [run_bind_error hplace]
    exact hinv
  · have hroom := hiff.1 hfits
    rw [min_of_fits hfilled.le hroom] at hplace
    obtain ⟨s'', hfill, hinv'⟩ := hfilled.fillPage hinv hvalid hroom
    rw [run_bind_ok hplace, run_bind_ok hfill, if_pos (by simp [int32])]
    exact hinv'

theorem Inv.loopWithin_iff (h : Inv s) (hoffers : Offers s) {offset count : ℕ} {buffer : List UInt8}
    (hvalid : offset + count ≤ buffer.length) (fuel : ℕ) :
    LoopWithin buffer (fuel + 1) offset count s ↔ Fits s count := by
  rw [LoopWithin]
  rcases h.place hoffers count with
    ⟨hfits, e, s', hplace, -⟩ | ⟨p, next, len, s', hplace, hinv, hfilled, hiff⟩
  · rw [hplace]
    exact iff_of_true trivial hfits
  · rw [hplace, hiff]
    refine (and_iff_left_of_imp fun hin => ?_).trans (hfilled.inPage_iff count)
    have hroom := (hfilled.inPage_iff count).1 hin
    rw [min_of_fits hfilled.le hroom]
    obtain ⟨s'', hfill, -⟩ := hfilled.fillPage hinv hvalid hroom
    rw [hfill]
    exact .inl (by simp [int32])

theorem Inv.writeByte (h : Inv s) (hoffers : Offers s) (value : UInt8) (hfits : Fits s 1) :
    Leads ((writeByte value).run s) (fun _ => Inv) (fun _ => Inv) := by
  rw [writeByte_eq]
  rcases h.place hoffers 1 with
    ⟨-, e, s', hplace, hinv⟩ | ⟨p, next, len, s', hplace, hinv, hfilled, hiff⟩
  · rw [run_bind_error (by exact hplace)]
    exact hinv
  · obtain ⟨s'', hstore, hinv'⟩ :=
      hfilled.storeByte hinv value ((hiff.1 hfits).resolve_left one_ne_zero)
    rw [run_bind_ok (by exact hplace), hstore]
    exact hinv'

/-- One call keeps what holds between the calls. -/
theorem Inv.step (h : Inv s) {call : Call} (henabled : Enabled s call)
    (hfits : Fits (call.before s) call.count) {fuel : ℕ} {r : StreamState × Unit}
    (hstep : step (fuel + 1) s call = .ok r) : Inv r.1 := by
  have hfinish : ∀ x : EStateM.Result Trap StreamState Unit, Leads x (fun _ => Inv) (fun _ => Inv) →
      finish x = .ok r → Inv r.1 := by
    intro x hx heq
    unfold finish at heq
    split at heq
    · cases heq
      exact hx
    · cases heq
      exact hx
    · cases heq
  cases call with
  | write buffer offset count supply =>
    obtain ⟨hvalid, -, hoffers⟩ := henabled
    refine hfinish _ ?_ hstep
    refine ((h.supply supply).writeLoop hoffers hvalid hfits fuel).bind fun _ s' hinv => ?_
    exact hinv.congr rfl rfl rfl rfl
  | writeByte value supply =>
    exact hfinish _ ((h.supply supply).writeByte henabled value hfits) hstep
  | other memory =>
    cases hstep
    exact h.other henabled

theorem Inv.within_iff (h : Inv s) {call : Call} (henabled : Enabled s call) (fuel : ℕ) :
    Within (fuel + 1) s call ↔ Fits (call.before s) call.count := by
  cases call with
  | write buffer offset count supply =>
    obtain ⟨hvalid, -, hoffers⟩ := henabled
    exact (h.supply supply).loopWithin_iff hoffers hvalid fuel
  | writeByte value supply =>
    rw [Within]
    rcases (h.supply supply).place henabled 1 with
      ⟨hfits, e, s', hplace, -⟩ | ⟨p, next, len, s', hplace, -, hfilled, hiff⟩
    · have : (PageBounds.place 1).run { s with supply } = .error e s' := hplace
      rw [this]
      exact iff_of_true trivial hfits
    · have : (PageBounds.place 1).run { s with supply } =
          .ok (p, (next + 16 + len) % 2 ^ 64, ((min 1 (pageSize - len) : ℕ) : ℤ)) s' := hplace
      rw [this]
      have hle := hfilled.le
      have hin := hfilled.inPage_iff 1
      rw [Nat.min_eq_left (by unfold pageSize; omega)] at hin
      exact hin.trans hiff.symm
  | other memory => exact iff_of_true trivial (.inl rfl)

end Filled

/-! ### The bound -/

/-- After calls that all had room in the page, the bytes of a call stay behind the header of their
page and in the page when there is room for them too, and never otherwise. -/
theorem page_bounds_iff {memory : Memory UInt8} (hnull : ∀ a < 16, memory a = none) {fuel : ℕ}
    {calls : List Call} {s : StreamState} {call : Call}
    (h : Trace (step (fuel + 1)) (fun s call => Enabled s call ∧ Fits (call.before s) call.count)
      (.fresh memory []) calls s)
    (hcall : Enabled s call) : Within (fuel + 1) s call ↔ Fits (call.before s) call.count := by
  have hinv : Inv s := by
    refine h.invariant (I := fun _ s => Inv s) ⟨rfl, hnull, .inl rfl⟩
      fun _ s c s' _ hinv hc hstep => ?_
    exact hinv.step hc.1 hc.2 hstep
  exact hinv.within_iff hcall fuel

/-- A page at 2^16 that has its own address for `Next`, and no other memory. -/
def ownPage : Memory UInt8 :=
  fun a => if 2 ^ 16 ≤ a ∧ a < 2 ^ 16 + pageSize then some (if a = 2 ^ 16 + 2 then 1 else 0)
    else none

theorem ownPage_page : Page ownPage (2 ^ 16) := by
  refine ⟨by decide, by decide, fun i hi => ?_⟩
  rw [ownPage, if_pos (by omega)]
  rfl

theorem ownPage_next : IoBuffer.next ownPage (2 ^ 16) = .ok (2 ^ 16) := rfl

theorem ownPage_fits_iff (count : ℕ) : Fits (.fresh ownPage [2 ^ 16]) count ↔ count ≤ 4080 := by
  have hsize : pageSize - IoBuffer.sizeOf = 4080 := rfl
  constructor
  · rintro (rfl | ⟨-, hfirst⟩)
    · exact Nat.zero_le _
    · have := hfirst rfl (2 ^ 16) rfl (by decide) _ ownPage_next
      omega
  · refine fun hcount => .inr ⟨fun hne => absurd rfl hne, fun _ p hp _ next hnext => ?_⟩
    cases hp
    cases ownPage_next.symm.trans hnext
    omega

/-- A byte behind three bytes, in a page that has its own address for `Next`. -/
theorem page_bounds_iff_byte : ∃ s, (∀ a < 16, ownPage a = none) ∧
    Trace (step 1) (fun s call => Enabled s call ∧ Fits (call.before s) call.count)
      (.fresh ownPage [])
      [.write [1, 2, 3] 0 3 [2 ^ 16]] s ∧ Enabled s (.writeByte 4 []) ∧
    (Within 1 s (.writeByte 4 []) ↔ Fits ((Call.writeByte 4 []).before s) 1) := by
  have hnull : ∀ a < 16, ownPage a = none := fun a ha => if_neg (by omega)
  have hoffers : Offers (.fresh ownPage [2 ^ 16]) := fun p hp _ =>
    List.mem_singleton.1 hp ▸ ownPage_page
  have hfirst : ∃ s, Trace (step 1) (fun s call => Enabled s call ∧ Fits (call.before s) call.count)
      (.fresh ownPage [])
      [.write [1, 2, 3] 0 3 [2 ^ 16]] s :=
    ⟨_, .snoc .nil ⟨⟨by decide, by decide, hoffers⟩, (ownPage_fits_iff 3).2 (by decide)⟩ rfl⟩
  obtain ⟨s, hrun⟩ := hfirst
  exact ⟨s, hnull, hrun, nofun, page_bounds_iff hnull hrun nofun⟩

/-- The first byte of a stream goes to the address 16 when its page has no `Next`, and 4081 bytes go
beyond a page that has its own address for `Next`. -/
theorem bytes_outside :
    (Enabled (.fresh (singlePage 0) []) (.writeByte 7 [2 ^ 16]) ∧
      ¬ Within 1 (.fresh (singlePage 0) []) (.writeByte 7 [2 ^ 16])) ∧
    Enabled (.fresh ownPage []) (.write (List.replicate 4081 7) 0 4081 [2 ^ 16]) ∧
      ¬ Within 1 (.fresh ownPage []) (.write (List.replicate 4081 7) 0 4081 [2 ^ 16]) := by
  have hbyte : Enabled (.fresh (singlePage 0) []) (.writeByte 7 [2 ^ 16]) :=
    fun p hp _ => List.mem_singleton.1 hp ▸ singlePage_page 0
  have hbytes : Enabled (.fresh ownPage []) (.write (List.replicate 4081 7) 0 4081 [2 ^ 16]) :=
    ⟨List.length_replicate.ge, List.length_replicate.trans_lt (by decide),
      fun p hp _ => List.mem_singleton.1 hp ▸ ownPage_page⟩
  have hinv : Inv (.fresh (singlePage 0) []) := ⟨rfl, fun a ha => if_neg (by omega), .inl rfl⟩
  have hinv' : Inv (.fresh ownPage []) := ⟨rfl, fun a ha => if_neg (by omega), .inl rfl⟩
  refine ⟨⟨hbyte, fun hwithin => ?_⟩, hbytes, fun hwithin => ?_⟩
  · rcases (hinv.within_iff hbyte 0).1 hwithin with hzero | ⟨-, hfirst⟩
    · cases hzero
    · exact absurd (hfirst rfl (2 ^ 16) rfl (by decide) 0 rfl).1 (by decide)
  · have hle := (ownPage_fits_iff 4081).1 ((hinv'.within_iff hbytes 0).1 hwithin)
    exact absurd hle (by decide)

end NanoSocket.PageBounds

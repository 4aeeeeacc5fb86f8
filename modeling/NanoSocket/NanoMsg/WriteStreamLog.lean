import NanoSocket.NanoMsg.WriteStreamCalls

/-!
# When a stream is a log of bytes

A byte that is written goes to `Data` of the page, which is `Next` and 16 bytes more, and nobody has
set `Next`.  Where that is no memory, the first byte that is written ends the call (`logsTo_iff`);
this is so for pages of zeros.  A stream without a byte has a page as soon as `Write` was called,
and `ToArray` follows its `Next`.
-/

namespace NanoSocket

open WriteStream

/-- The calls that write. -/
inductive WriteCall
  | write (buffer : List UInt8) (offset count : ℕ)
  | writeByte (value : UInt8)
  deriving DecidableEq, Repr

namespace WriteCall

/-- The range of a call is valid; an array has fewer than 2^31 elements. -/
def Valid : WriteCall → Prop
  | write buffer offset count => offset + count ≤ buffer.length ∧ buffer.length < 2 ^ 31
  | writeByte _ => True

/-- The bytes that a call writes. -/
def bytes : WriteCall → List UInt8
  | write buffer offset count => (buffer.drop offset).take count
  | writeByte value => [value]

/-- One call. -/
def run (fuel : ℕ) : WriteCall → StreamM Unit
  | write buffer offset count => WriteStream.write fuel buffer offset count
  | writeByte value => WriteStream.writeByte value

end WriteCall

/-- A sequence of calls. -/
def runCalls (fuel : ℕ) : List WriteCall → StreamM Unit
  | [] => return
  | call :: calls => do
    call.run fuel
    runCalls fuel calls

/-- A new stream. -/
def StreamState.fresh (memory : Memory UInt8) (supply : List ℕ) : StreamState :=
  { memory, supply, stream := .new, taken := [], returned := [] }

/-- All bytes of the calls. -/
def written (calls : List WriteCall) : List UInt8 := calls.flatMap WriteCall.bytes

/-- Pages that the manager can hand out. -/
structure Supplies (memory : Memory UInt8) (supply : List ℕ) : Prop where
  apart : Memory.Apart pageSize supply
  page : ∀ p ∈ supply, Page memory p

/-- On a new stream the calls return, `Length` is the number of the bytes, and `ToArray` returns
them; or they need more pages than there are. -/
def LogsTo (memory : Memory UInt8) (supply : List ℕ) (calls : List WriteCall) : Prop :=
  ∃ fuel, match (runCalls fuel calls).run (.fresh memory supply) with
    | .ok _ s => s.stream.length = (written calls).length ∧
        s.stream.toArray s.memory fuel = .ok (written calls)
    | .error e _ => e = .exhausted

section Blank

variable {s : StreamState} {p q : ℕ} {calls : List WriteCall}

/-- The stream has one page and no bytes.  The `Next` of the page is `q`, and there is no memory at
its `Data`. -/
structure Blank (p q : ℕ) (s : StreamState) : Prop where
  stream : s.stream = { head := p, current := p, length := 0, pool := true }
  page : Page s.memory p
  header : Header s.memory p q 0
  lt : q < 2 ^ 64
  hole : s.memory ((q + 16) % 2 ^ 64) = none
  behind : q ≠ 0 → s.memory q = none

/-- The stream has no page; it will get such a page. -/
structure Start (p q : ℕ) (s : StreamState) : Prop where
  stream : s.stream = .new
  supply : ∃ rest, s.supply = p :: rest
  page : Page s.memory p
  next : s.memory.load p 8 = some (putLe 8 q)
  lt : q < 2 ^ 64
  hole : s.memory ((q + 16) % 2 ^ 64) = none
  behind : q ≠ 0 → s.memory q = none

/-- `EnsureCapacity` gets the page. -/
theorem ensureCapacity_blank (h : Start p q s ∨ Blank p q s) :
    ∃ s', ensureCapacity.run s = .ok pageSize s' ∧ Blank p q s' := by
  rcases h with h | h
  · obtain ⟨rest, hsupply⟩ := h.supply
    have hsome := initPage_isSome h.page.mapped
    have hcurrent : s.stream.current = 0 := by rw [h.stream]; rfl
    have hpool : s.stream.pool = true := by rw [h.stream]; rfl
    refine ⟨_, ensureCapacity_first hcurrent hpool hsupply h.page h.next, ?_⟩
    constructor
    · rw [h.stream]
      rfl
    · exact ⟨h.page.low, h.page.high, h.page.mapped.congr hsome⟩
    · exact initPage_header h.page.mapped h.next
    · exact h.lt
    · exact Memory.eq_none_of_isSome (hsome _) h.hole
    · exact fun hq => Memory.eq_none_of_isSome (hsome _) (h.behind hq)
  · have hcurrent : s.stream.current = p := by rw [h.stream]
    exact ⟨s, ensureCapacity_room hcurrent h.page.ne_zero h.header (by decide), h⟩

theorem Blank.needle_eq (h : Blank p q s) : IoBuffer.needle s.memory p = .ok ((q + 16) % 2 ^ 64) :=
  h.header.needle_eq h.lt (by decide)

/-- A byte cannot be written. -/
theorem writeLoop_byte (fuel : ℕ) (h : Start p q s ∨ Blank p q s) {buffer : List UInt8}
    {offset count : ℕ} (hvalid : offset + count ≤ buffer.length) (hcount : 0 < count) :
    ∃ e s', (writeLoop buffer fuel offset count).run s = .error e s' ∧ e ≠ .exhausted := by
  cases fuel with
  | zero => exact ⟨.endless, s, rfl, nofun⟩
  | succ fuel =>
    obtain ⟨s', hensure, hblank⟩ := ensureCapacity_blank h
    have hcurrent : s'.stream.current = p := by rw [hblank.stream]
    have hneedle : IoBuffer.needle s'.memory s'.stream.current = .ok ((q + 16) % 2 ^ 64) := by
      rw [hcurrent, hblank.needle_eq]
    have hmin : min (count : ℤ) (pageSize : ℕ) = ((min count pageSize : ℕ) : ℤ) := by omega
    have hsource :=
      sourceBytes_spec (s := s') (show offset + min count pageSize ≤ buffer.length by omega)
    have hbytes : (buffer.drop offset).take (min count pageSize) ≠ [] := by
      have hpos : 0 < min count pageSize := lt_min hcount (by decide)
      rw [← List.length_pos_iff, List.length_take, List.length_drop]
      omega
    refine ⟨accessViolation ((q + 16) % 2 ^ 64), s',
      ?_, by unfold accessViolation; split_ifs <;> nofun⟩
    simp only [writeLoop]
    rw [run_bind_ok hensure, run_bind_ok (EStateM.run_get s'), run_bind_ok (run_fetch hneedle),
      hmin, run_bind_ok hsource, run_bind_error (copyMemory_error hbytes hblank.hole)]

/-- A call without bytes does nothing but take the page. -/
theorem writeLoop_nothing (fuel : ℕ) (h : Start p q s ∨ Blank p q s)
    (buffer : List UInt8) (offset : ℕ) :
    ∃ s', (writeLoop buffer (fuel + 1) offset 0).run s = .ok () s' ∧ Blank p q s' := by
  obtain ⟨s', hensure, hblank⟩ := ensureCapacity_blank h
  have hcurrent : s'.stream.current = p := by rw [hblank.stream]
  have hneedle : IoBuffer.needle s'.memory s'.stream.current = .ok ((q + 16) % 2 ^ 64) := by
    rw [hcurrent, hblank.needle_eq]
  obtain ⟨m, hadd, hstore, hheader⟩ :=
    addLength_spec hcurrent hblank.page.mapped hblank.header (k := 0) (by decide)
  have hsome := Memory.store_isSome hstore
  refine ⟨{ s' with memory := m }, ?_, ?_⟩
  · have hmin : min 0 ((pageSize : ℕ) : ℤ) = ((0 : ℕ) : ℤ) := rfl
    have hsource : (sourceBytes buffer offset ((0 : ℕ) : ℤ)).run s' = .ok [] s' := rfl
    have hcopy : (copyMemory [] ((q + 16) % 2 ^ 64)).run s' = .ok () s' := rfl
    simp only [writeLoop]
    rw [run_bind_ok hensure, run_bind_ok (EStateM.run_get s'), run_bind_ok (run_fetch hneedle),
      hmin, run_bind_ok hsource, run_bind_ok hcopy, run_bind_ok hadd]
    rfl
  · exact ⟨hblank.stream, ⟨hblank.page.low, hblank.page.high, hblank.page.mapped.congr hsome⟩,
      hheader, hblank.lt, Memory.eq_none_of_isSome (hsome _) hblank.hole,
      fun hq => Memory.eq_none_of_isSome (hsome _) (hblank.behind hq)⟩

theorem run_nothing (fuel : ℕ) (h : Start p q s ∨ Blank p q s) {call : WriteCall}
    (hvalid : call.Valid) (hbytes : call.bytes = []) :
    ∃ s', (call.run (fuel + 1)).run s = .ok () s' ∧ Blank p q s' := by
  cases call with
  | write buffer offset count =>
    obtain rfl : count = 0 := by
      have hlength := congrArg List.length hbytes
      simp only [WriteCall.bytes, List.length_take, List.length_drop, List.length_nil] at hlength
      have := hvalid.1
      omega
    obtain ⟨s', hloop, hblank⟩ := writeLoop_nothing fuel h buffer offset
    refine ⟨_, (run_bind_ok hloop).trans (run_modifyStream _), ?_⟩
    obtain ⟨hstream, hpage, hheader, hlt, hhole, hbehind⟩ := hblank
    exact ⟨by rw [hstream]; rfl, hpage, hheader, hlt, hhole, hbehind⟩
  | writeByte value => cases hbytes

theorem writeByte_error (h : Start p q s ∨ Blank p q s) (value : UInt8) :
    ∃ s', (writeByte value).run s = .error (accessViolation ((q + 16) % 2 ^ 64)) s' := by
  obtain ⟨s', hensure, hblank⟩ := ensureCapacity_blank h
  have hcurrent : s'.stream.current = p := by rw [hblank.stream]
  have hneedle : IoBuffer.needle s'.memory s'.stream.current = .ok ((q + 16) % 2 ^ 64) := by
    rw [hcurrent, hblank.needle_eq]
  refine ⟨s', ?_⟩
  simp only [writeByte]
  rw [run_bind_ok hensure, run_bind_ok (EStateM.run_get s'), run_bind_ok (run_fetch hneedle),
    run_bind_error (run_storeBytes_error
      (Memory.store_eq_none hblank.hole (List.cons_ne_nil value [])))]

theorem run_byte (fuel : ℕ) (h : Start p q s ∨ Blank p q s) {call : WriteCall} (hvalid : call.Valid)
    (hbytes : call.bytes ≠ []) :
    ∃ e s', (call.run fuel).run s = .error e s' ∧ e ≠ .exhausted := by
  cases call with
  | write buffer offset count =>
    have hcount : 0 < count := by
      by_contra hzero
      obtain rfl : count = 0 := by omega
      exact hbytes (buffer.drop offset).take_zero
    obtain ⟨e, s', hloop, he⟩ := writeLoop_byte fuel h hvalid.1 hcount
    exact ⟨e, s', run_bind_error hloop, he⟩
  | writeByte value =>
    obtain ⟨s', hrun⟩ := writeByte_error h value
    exact ⟨_, s', hrun, by unfold accessViolation; split_ifs <;> nofun⟩

/-- Calls without bytes leave the stream without bytes. -/
theorem runCalls_nothing (fuel : ℕ) (h : Start p q s ∨ Blank p q s)
    (hvalid : ∀ call ∈ calls, call.Valid) (hbytes : ∀ call ∈ calls, call.bytes = []) :
    ∃ s', (runCalls (fuel + 1) calls).run s = .ok () s' ∧ (calls = [] ∧ s' = s ∨ Blank p q s') := by
  induction calls generalizing s with
  | nil => exact ⟨s, rfl, .inl ⟨rfl, rfl⟩⟩
  | cons call calls ih =>
    obtain ⟨s₁, hrun, hblank⟩ := run_nothing fuel h (hvalid call List.mem_cons_self)
      (hbytes call List.mem_cons_self)
    obtain ⟨s₂, hruns, hend⟩ := ih (.inr hblank) (fun c hc => hvalid c (List.mem_cons_of_mem _ hc))
      fun c hc => hbytes c (List.mem_cons_of_mem _ hc)
    refine ⟨s₂, (run_bind_ok hrun).trans hruns, .inr ?_⟩
    rcases hend with ⟨-, rfl⟩ | hend
    · exact hblank
    · exact hend

/-- The first call with a byte is the end. -/
theorem runCalls_byte (fuel : ℕ) (h : Start p q s ∨ Blank p q s)
    (hvalid : ∀ call ∈ calls, call.Valid) (hbytes : ¬ ∀ call ∈ calls, call.bytes = []) :
    ∃ e s', (runCalls fuel calls).run s = .error e s' ∧ e ≠ .exhausted := by
  induction calls generalizing s with
  | nil => exact absurd nofun hbytes
  | cons call calls ih =>
    have hcall := hvalid call List.mem_cons_self
    by_cases hempty : call.bytes = []
    · cases fuel with
      | zero =>
        cases call with
        | write buffer offset count => exact ⟨.endless, s, rfl, nofun⟩
        | writeByte value => cases hempty
      | succ fuel =>
        obtain ⟨s₁, hrun, hblank⟩ := run_nothing fuel h hcall hempty
        obtain ⟨e, s₂, hruns, he⟩ :=
          ih (.inr hblank) (fun c hc => hvalid c (List.mem_cons_of_mem _ hc)) fun hall =>
          hbytes (List.forall_mem_cons.2 ⟨hempty, hall⟩)
        exact ⟨e, s₂, (run_bind_ok hrun).trans hruns, he⟩
    · obtain ⟨e, s₁, hrun, he⟩ := run_byte fuel h hcall hempty
      exact ⟨e, s₁, run_bind_error hrun, he⟩

theorem Blank.toArrayLoop_eq (h : Blank p q s) (fuel : ℕ) :
    toArrayLoop s.memory 0 (fuel + 1) p [] = toArrayLoop s.memory 0 fuel q [] := by
  have hdata := Header.data_eq h.header.next h.lt
  have hlength : IoBuffer.length s.memory p = .ok ((0 : ℕ) : ℤ) := h.header.length_eq (by decide)
  rw [toArrayLoop, if_neg h.page.ne_zero, hdata, hlength, Header.loadNext h.header.next h.lt]
  rfl

theorem Blank.toArray_eq (h : Blank p q s) (fuel : ℕ) :
    s.stream.toArray s.memory (fuel + 1) = toArrayLoop s.memory 0 fuel q [] := by
  rw [← h.toArrayLoop_eq, toArray, h.stream]
  rfl

theorem Blank.toArray_two (h : Blank p 0 s) : s.stream.toArray s.memory 2 = .ok [] := by
  rw [h.toArray_eq]
  rfl

/-- `ToArray` follows the `Next` of the page. -/
theorem Blank.eq_zero_of_toArray {fuel : ℕ} (h : Blank p q s)
    (heq : s.stream.toArray s.memory (fuel + 1) = .ok []) : q = 0 := by
  by_contra hq
  rw [h.toArray_eq] at heq
  cases fuel with
  | zero => cases heq
  | succ fuel =>
    have hload : IoBuffer.loadBytes s.memory q 8 = .error (accessViolation q) := by
      rw [IoBuffer.loadBytes, Memory.load_eq_none (h.behind hq) (by decide)]
    rw [toArrayLoop, if_neg hq, IoBuffer.data, IoBuffer.next, hload] at heq
    cases heq

theorem written_eq_nil : written calls = [] ↔ ∀ call ∈ calls, call.bytes = [] :=
  List.flatMap_eq_nil_iff

/-- Where there is no memory at the `Data` of the first page, only a stream without calls is a log,
or one without bytes whose page has no `Next`. -/
theorem logsTo_iff {memory : Memory UInt8} {rest : List ℕ} (hvalid : ∀ call ∈ calls, call.Valid)
    (h : Start p q (.fresh memory (p :: rest))) :
    LogsTo memory (p :: rest) calls ↔ calls = [] ∨ (q = 0 ∧ ∀ call ∈ calls, call.bytes = []) := by
  by_cases hbytes : ∀ call ∈ calls, call.bytes = []
  · have hwritten := written_eq_nil.2 hbytes
    constructor
    · rintro ⟨fuel, hfuel⟩
      by_cases hcalls : calls = []
      · exact .inl hcalls
      · refine .inr ⟨?_, hbytes⟩
        cases fuel with
        | zero =>
          -- the first call has not ended
          cases calls with
          | nil => exact absurd rfl hcalls
          | cons call calls =>
            cases call with
            | write buffer offset count => cases hfuel
            | writeByte value => cases hbytes _ List.mem_cons_self
        | succ fuel =>
          obtain ⟨s', hrun, hend⟩ := runCalls_nothing fuel (.inl h) hvalid hbytes
          rw [hrun, hwritten] at hfuel
          rcases hend with ⟨hnil, -⟩ | hblank
          · exact absurd hnil hcalls
          · exact hblank.eq_zero_of_toArray hfuel.2
    · rintro (rfl | ⟨rfl, -⟩)
      · exact ⟨1, rfl, rfl⟩
      · obtain ⟨s', hrun, hend⟩ := runCalls_nothing 1 (.inl h) hvalid hbytes
        refine ⟨2, ?_⟩
        rw [hrun, hwritten]
        rcases hend with ⟨-, rfl⟩ | hblank
        · exact ⟨rfl, rfl⟩
        · exact ⟨by rw [hblank.stream]; rfl, hblank.toArray_two⟩
  · refine iff_of_false ?_ ?_
    · rintro ⟨fuel, hfuel⟩
      obtain ⟨e, s', hrun, he⟩ := runCalls_byte fuel (.inl h) hvalid hbytes
      rw [hrun] at hfuel
      exact he hfuel
    · rintro (rfl | ⟨-, hnone⟩)
      · exact hbytes nofun
      · exact hbytes hnone

end Blank

/-! ### Pages of a kind -/

/-- A page at 2^16 whose `Next` is a multiple of 2^40, and no other memory. -/
def singlePage (stale : UInt8) : Memory UInt8 :=
  fun a => if 2 ^ 16 ≤ a ∧ a < 2 ^ 16 + pageSize then some (if a = 2 ^ 16 + 5 then stale else 0)
    else none

theorem singlePage_page (stale : UInt8) : Page (singlePage stale) (2 ^ 16) := by
  constructor
  · decide
  · decide
  · intro i hi
    rw [singlePage, if_pos (by omega)]
    rfl

theorem singlePage_supplies (stale : UInt8) : Supplies (singlePage stale) [2 ^ 16] :=
  ⟨List.pairwise_singleton _ _, fun _ hp => List.mem_singleton.1 hp ▸ singlePage_page stale⟩

/-- On a page that was in use, whose `Next` points to memory that was given back. -/
theorem start_stale : Start (2 ^ 16) (2 ^ 40) (.fresh (singlePage 1) [2 ^ 16]) :=
  ⟨rfl, ⟨[], rfl⟩, singlePage_page 1, by decide, by decide, by decide, fun _ => by decide⟩

/-- The stream is a log wherever its pages come from if and only if there is no call.  Where the
first page has no `Next` and the first 64 KiB are not mapped, it is a log if and only if no byte is
written. -/
theorem write_log (calls : List WriteCall) (hvalid : ∀ call ∈ calls, call.Valid) :
    ((∀ memory supply, Supplies memory supply → LogsTo memory supply calls) ↔ calls = []) ∧
      ∀ memory p rest, Supplies memory (p :: rest) → memory.load p 8 = some (putLe 8 0) →
        memory 16 = none → (LogsTo memory (p :: rest) calls ↔ ∀ call ∈ calls, call.bytes = []) := by
  constructor
  · constructor
    · intro h
      rcases (logsTo_iff hvalid start_stale).1 (h _ _ (singlePage_supplies 1)) with hnil | ⟨hq, -⟩
      · exact hnil
      · exact absurd hq (by decide)
    · rintro rfl memory supply -
      exact ⟨1, rfl, rfl⟩
  · intro memory p rest hsupplies hnext hhole
    have hstart : Start p 0 (.fresh memory (p :: rest)) :=
      ⟨rfl, ⟨rest, rfl⟩, hsupplies.page p List.mem_cons_self, hnext, by decide, hhole, absurd rfl⟩
    rw [logsTo_iff hvalid hstart]
    constructor
    · rintro (rfl | ⟨-, hbytes⟩)
      · nofun
      · exact hbytes
    · exact fun hbytes => .inr ⟨rfl, hbytes⟩

/-- A stream to which one byte is written. -/
theorem write_log_byte : (∀ call ∈ [WriteCall.writeByte 7], call.Valid) ∧
    ¬ ∀ memory supply, Supplies memory supply → LogsTo memory supply [.writeByte 7] := by
  have hvalid : ∀ call ∈ [WriteCall.writeByte 7], call.Valid := fun call hcall =>
    List.mem_singleton.1 hcall ▸ trivial
  exact ⟨hvalid, fun h => absurd ((write_log [.writeByte 7] hvalid).1.1 h) (List.cons_ne_nil _ _)⟩

/-- The byte is written to the address 16, as the page has no `Next`. -/
theorem byte_not_logged : Supplies (singlePage 0) [2 ^ 16] ∧
    (∃ s, (runCalls 1 [.writeByte 7]).run (.fresh (singlePage 0) [2 ^ 16]) =
      .error (.threw .nullReference) s) ∧
    ¬ LogsTo (singlePage 0) [2 ^ 16] [.writeByte 7] := by
  have hstart : Start (2 ^ 16) 0 (.fresh (singlePage 0) [2 ^ 16]) :=
    ⟨rfl, ⟨[], rfl⟩, singlePage_page 0, by decide, by decide, by decide, absurd rfl⟩
  have hvalid : ∀ call ∈ [WriteCall.writeByte 7], call.Valid := fun call hcall =>
    List.mem_singleton.1 hcall ▸ trivial
  refine ⟨singlePage_supplies 0, ?_, fun h => ?_⟩
  · obtain ⟨s, hrun⟩ := writeByte_error (.inl hstart) 7
    exact ⟨s, run_bind_error hrun⟩
  · rcases (logsTo_iff hvalid hstart).1 h with hnil | ⟨-, hbytes⟩
    · cases hnil
    · cases hbytes _ List.mem_cons_self

end NanoSocket

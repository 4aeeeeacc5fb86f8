import NanoSocket.NanoMsg.WriteStream

/-!
# What the calls of a stream do

The calls end with a value or a trap, and with a state in both cases (`Leads`).  `Header` says what
stands at the start of a page; `EnsureCapacity` writes it but for `Next`, which stays what it was
when the page was taken (`ensureCapacity_first`, `ensureCapacity_next`).
-/

namespace NanoSocket

/-! ### Ends of calls -/

section Leads

variable {ε σ α β : Type} {Q : α → σ → Prop} {E : ε → σ → Prop}

/-- A call ends with a value and a state, or with a trap and a state. -/
def Leads (r : EStateM.Result ε σ α) (Q : α → σ → Prop) (E : ε → σ → Prop) : Prop :=
  match r with
  | .ok a s => Q a s
  | .error e s => E e s

theorem Leads.mono {Q' : α → σ → Prop} {E' : ε → σ → Prop} {r : EStateM.Result ε σ α}
    (h : Leads r Q E) (hQ : ∀ a s, Q a s → Q' a s) (hE : ∀ e s, E e s → E' e s) :
    Leads r Q' E' := by
  cases r with
  | ok a s => exact hQ a s h
  | error e s => exact hE e s h

theorem run_bind_ok {x : EStateM ε σ α} {f : α → EStateM ε σ β} {s s' : σ} {a : α}
    (h : x.run s = .ok a s') :
    (x >>= f).run s = (f a).run s' := by
  rw [EStateM.run_bind, h]

theorem run_bind_error {x : EStateM ε σ α} {f : α → EStateM ε σ β} {s s' : σ} {e : ε}
    (h : x.run s = .error e s') :
    (x >>= f).run s = .error e s' := by
  rw [EStateM.run_bind, h]

theorem Leads.bind {x : EStateM ε σ α} {f : α → EStateM ε σ β} {s : σ} {R : β → σ → Prop}
    (h : Leads (x.run s) Q E) (hf : ∀ a s', Q a s' → Leads ((f a).run s') R E) :
    Leads ((x >>= f).run s) R E := by
  cases hx : x.run s with
  | ok a s' =>
    rw [run_bind_ok hx]
    rw [hx] at h
    exact hf a s' h
  | error e s' =>
    rw [run_bind_error hx]
    rw [hx] at h
    exact h

end Leads

section Calls

variable {s : StreamState} {m : Memory UInt8} {a p n next length : ℕ} {bytes : List UInt8}

theorem run_fetch {α : Type} {f : Memory UInt8 → Except Trap α} {x : α} (h : f s.memory = .ok x) :
    (fetch f).run s = .ok x s := by
  simp only [fetch, EStateM.run_bind, EStateM.run_get, h, EStateM.run_pure]

theorem run_storeBytes (h : s.memory.store a bytes = some m) :
    (storeBytes a bytes).run s = .ok () { s with memory := m } := by
  simp only [storeBytes, EStateM.run_bind, EStateM.run_get, h, EStateM.run_set]

theorem run_storeBytes_error (h : s.memory.store a bytes = none) :
    (storeBytes a bytes).run s = .error (accessViolation a) s := by
  simp only [storeBytes, EStateM.run_bind, EStateM.run_get, h, EStateM.run_throw]

theorem run_storeInt {x : ℕ} (h : s.memory.store a (putLe 4 x) = some m) (hx : x < 2 ^ 32) :
    (storeInt a x).run s = .ok () { s with memory := m } := by
  have hmod : ((x : ℤ) % 2 ^ 32).toNat = x := by omega
  rw [storeInt, hmod]
  exact run_storeBytes h

theorem run_modifyStream (f : WriteStream → WriteStream) :
    (modifyStream f).run s = .ok () { s with stream := f s.stream } := rfl

/-! ### Pages -/

/-- Memory that the manager hands out: it is mapped, and not in the first 64 KiB. -/
structure Page (m : Memory UInt8) (p : ℕ) : Prop where
  low : 2 ^ 16 ≤ p
  high : p + pageSize ≤ 2 ^ 64
  mapped : m.Mapped p pageSize

theorem Page.ne_zero (h : Page m p) : p ≠ 0 := by
  have := h.low
  omega

theorem Page.lt (h : Page m p) : p < 2 ^ 64 := by
  have := h.high
  unfold pageSize at this
  omega

/-- Every page has some `Next`. -/
theorem Page.exists_next (h : Page m p) : ∃ next < 2 ^ 64, m.load p 8 = some (putLe 8 next) := by
  have hmapped : m.Mapped p 8 := h.mapped.sub le_rfl (by unfold pageSize; omega)
  obtain ⟨bytes, hbytes⟩ := hmapped.exists_load
  have hlen := Memory.length_load hbytes
  have hlt := getLe_lt bytes
  have hput := putLe_getLe bytes
  rw [hlen] at hlt hput
  exact ⟨getLe bytes, hlt, by rw [hput, hbytes]⟩

/-- The fields at the start of a page. -/
structure Header (m : Memory UInt8) (p next length : ℕ) : Prop where
  next : m.load p 8 = some (putLe 8 next)
  capacity : m.load (p + 8) 4 = some (putLe 4 pageSize)
  length : m.load (p + 12) 4 = some (putLe 4 length)

namespace Header

theorem loadInt {x : ℕ} (h : m.load a 4 = some (putLe 4 x)) (hx : x < 2 ^ 31) :
    IoBuffer.loadInt m a = .ok x := by
  have hmod : x % 256 ^ 4 = x := Nat.mod_eq_of_lt (by omega)
  have hint : int32 (x : ℤ) = x := int32_of_range (by omega) (by omega)
  simp only [IoBuffer.loadInt, IoBuffer.loadBytes, h, ok_bind, getLe_putLe, hmod, hint, pure_eq_ok]

theorem loadNext (h : m.load p 8 = some (putLe 8 next)) (hnext : next < 2 ^ 64) :
    IoBuffer.next m p = .ok next := by
  have hmod : next % 256 ^ 8 = next := Nat.mod_eq_of_lt (by omega)
  simp only [IoBuffer.next, IoBuffer.loadBytes, h, ok_bind, getLe_putLe, hmod, pure_eq_ok]

theorem capacity_eq (h : Header m p next length) : IoBuffer.capacity m p = .ok pageSize :=
  loadInt h.capacity (by decide)

theorem length_eq (h : Header m p next length) (hlength : length ≤ pageSize) :
    IoBuffer.length m p = .ok length :=
  loadInt h.length (by unfold pageSize at hlength; omega)

theorem data_eq (h : m.load p 8 = some (putLe 8 next)) (hnext : next < 2 ^ 64) :
    IoBuffer.data m p = .ok ((next + 16) % 2 ^ 64) := by
  simp only [IoBuffer.data, loadNext h hnext, ok_bind, pure_eq_ok, IoBuffer.sizeOf]

/-- The needle stands behind the next page's header. -/
theorem needle_eq (h : Header m p next length) (hnext : next < 2 ^ 64)
    (hlength : length ≤ pageSize) :
    IoBuffer.needle m p = .ok ((next + 16 + length) % 2 ^ 64) := by
  simp only [IoBuffer.needle, data_eq h.next hnext, h.length_eq hlength, ok_bind, pure_eq_ok]
  congr 1
  omega

/-- Memory that is the same at the start of a page. -/
theorem congr {m' : Memory UInt8} (h : Header m p next length)
    (hsame : ∀ i < 16, m' (p + i) = m (p + i)) :
    Header m' p next length := by
  constructor
  · exact (Memory.load_congr fun i hi => hsame i (by omega)).trans h.next
  · refine (Memory.load_congr fun i hi => ?_).trans h.capacity
    rw [Nat.add_assoc]
    exact hsame (8 + i) (by omega)
  · refine (Memory.load_congr fun i hi => ?_).trans h.length
    rw [Nat.add_assoc]
    exact hsame (12 + i) (by omega)

end Header

/-- The memory after `Capacity` and `Length` of a new page were set. -/
def initPage (m : Memory UInt8) (p : ℕ) : Memory UInt8 :=
  (m.write (p + 8) (putLe 4 pageSize)).write (p + 12) (putLe 4 0)

theorem initPage_outside {x : ℕ} (h : x < p + 8 ∨ p + 16 ≤ x) : initPage m p x = m x := by
  rw [initPage, Memory.write_outside (by rw [length_putLe]; omega),
    Memory.write_outside (by rw [length_putLe]; omega)]

theorem initPage_isSome (h : m.Mapped p pageSize) (x : ℕ) :
    (initPage m p x).isSome = (m x).isSome := by
  have hcapacity : m.Mapped (p + 8) (putLe 4 pageSize).length :=
    h.sub (by omega) (by rw [length_putLe, pageSize]; omega)
  have hmapped : (m.write (p + 8) (putLe 4 pageSize)).Mapped p pageSize :=
    h.congr fun x => Memory.isSome_write x hcapacity
  rw [initPage,
    Memory.isSome_write x (hmapped.sub (by omega) (by rw [length_putLe, pageSize]; omega)),
    Memory.isSome_write x hcapacity]

/-- `Next` of a new page is what it was. -/
theorem initPage_header (h : m.Mapped p pageSize) (hnext : m.load p 8 = some (putLe 8 next)) :
    Header (initPage m p) p next 0 := by
  have hcapacity :=
    Memory.store_of_mapped (h.sub (b := p + 8) (k := (putLe 4 pageSize).length) (by omega)
      (by rw [length_putLe, pageSize]; omega))
  have hlength :=
    Memory.store_of_mapped ((h.congr (Memory.store_isSome hcapacity)).sub (b := p + 12)
      (k := (putLe 4 0).length) (by omega) (by rw [length_putLe, pageSize]; omega))
  constructor
  · rw [Memory.load_congr fun i hi => initPage_outside (by omega), hnext]
  · rw [initPage, Memory.load_store_outside hlength (by omega)]
    exact Memory.load_store hcapacity
  · exact Memory.load_store hlength

/-- The stores that make a page. -/
theorem run_initPage {α : Type} (h : s.memory.Mapped p pageSize) (f : StreamM α) :
    (do storeInt (p + 8) pageSize; storeInt (p + 12) 0; f : StreamM α).run s =
      f.run { s with memory := initPage s.memory p } := by
  have hcapacity :=
    Memory.store_of_mapped (h.sub (b := p + 8) (k := (putLe 4 pageSize).length) (by omega)
      (by rw [length_putLe, pageSize]; omega))
  have hlength :=
    Memory.store_of_mapped ((h.congr (Memory.store_isSome hcapacity)).sub (b := p + 12)
      (k := (putLe 4 0).length) (by omega) (by rw [length_putLe, pageSize]; omega))
  have hzero :
      (storeInt (p + 12) 0).run { s with memory := s.memory.write (p + 8) (putLe 4 pageSize) } =
      .ok () { s with memory := initPage s.memory p } := run_storeInt (x := 0) hlength (by decide)
  rw [run_bind_ok (run_storeInt hcapacity (by decide)), run_bind_ok hzero]

/-! ### `EnsureCapacity` -/

namespace WriteStream

variable {rest : List ℕ} {e : Trap}

theorem run_takeBuffer (hpool : s.stream.pool = true) (hsupply : s.supply = p :: rest) :
    takeBuffer.run s = .ok p { s with supply := rest, taken := if p = 0 then s.taken
      else s.taken ++ [p] } := by
  simp only [takeBuffer, EStateM.run_bind, EStateM.run_get, hpool, if_true, hsupply,
    EStateM.run_set, EStateM.run_pure]

/-- Without a manager or a page there is no page, and nothing changes. -/
theorem run_takeBuffer_error (h : s.stream.pool = false ∨ s.supply = []) :
    takeBuffer.run s = .error (if s.stream.pool then .exhausted else .threw .nullReference) s := by
  simp only [takeBuffer, EStateM.run_bind, EStateM.run_get]
  cases hpool : s.stream.pool with
  | false => rfl
  | true =>
    rw [hpool] at h
    have hsupply : s.supply = [] := by simpa using h
    rw [if_pos rfl, if_pos rfl]
    simp only [hsupply]
    rfl

/-- The first page of a stream. -/
theorem ensureCapacity_first (hcurrent : s.stream.current = 0) (hpool : s.stream.pool = true)
    (hsupply : s.supply = p :: rest) (hpage : Page s.memory p)
    (hnext : s.memory.load p 8 = some (putLe 8 next)) :
    ensureCapacity.run s = .ok pageSize
      { s with
        memory := initPage s.memory p, supply := rest, taken := s.taken ++ [p],
        stream := { s.stream with head := p, current := p } } := by
  have htake := run_takeBuffer hpool hsupply
  rw [if_neg hpage.ne_zero] at htake
  simp only [ensureCapacity]
  rw [run_bind_ok (EStateM.run_get s), if_pos hcurrent, run_bind_ok htake,
    run_bind_ok (run_modifyStream _)]
  refine (run_initPage (by exact hpage.mapped) _).trans ?_
  rw [run_bind_ok (run_modifyStream _)]
  exact run_fetch (initPage_header hpage.mapped hnext).capacity_eq

theorem run_storeInt_null (h : s.memory 8 = none) {α : Type} (x : ℤ) (f : StreamM α) :
    (do storeInt (0 + 8) x; f : StreamM α).run s = .error (accessViolation 8) s :=
  run_bind_error (run_storeBytes_error (Memory.store_eq_none h (List.cons_ne_nil _ _)))

/-- The supply is used up. -/
theorem ensureCapacity_exhausted (hcurrent : s.stream.current = 0) (hpool : s.stream.pool = true)
    (hsupply : s.supply = []) : ensureCapacity.run s = .error .exhausted s := by
  have htake := run_takeBuffer_error (s := s) (.inr hsupply)
  rw [hpool, if_pos rfl] at htake
  simp only [ensureCapacity]
  rw [run_bind_ok (EStateM.run_get s), if_pos hcurrent, run_bind_error htake]

/-- There is no memory for the first page. -/
theorem ensureCapacity_null (hcurrent : s.stream.current = 0) (hpool : s.stream.pool = true)
    (hsupply : s.supply = 0 :: rest) (h : s.memory 8 = none) :
    ensureCapacity.run s = .error (accessViolation 8) { s with supply := rest } := by
  have htake := run_takeBuffer hpool hsupply
  rw [if_pos rfl] at htake
  have hstream : ({ s.stream with current := 0 } : WriteStream) = s.stream := by rw [← hcurrent]
  have hnull :
      ∀ f : StreamM ℤ, (do storeInt (0 + 8) pageSize; f : StreamM ℤ).run { s with supply := rest } =
      .error (accessViolation 8) { s with supply := rest } := fun f =>
        run_storeInt_null (by exact h) _ f
  simp only [ensureCapacity]
  rw [run_bind_ok (EStateM.run_get s), if_pos hcurrent, run_bind_ok htake,
    run_bind_ok (run_modifyStream _)]
  simp only [hstream]
  exact hnull _

/-- A page that has room. -/
theorem ensureCapacity_room (hcurrent : s.stream.current = p) (hp : p ≠ 0)
    (h : Header s.memory p next length) (hlength : length < pageSize) :
    ensureCapacity.run s = .ok ((pageSize - length : ℕ) : ℤ) s := by
  have hne : (length : ℤ) ≠ pageSize := by omega
  have hlt : pageSize < 2 ^ 31 := by decide
  have hint : int32 ((pageSize : ℤ) - length) = ((pageSize - length : ℕ) : ℤ) := by
    rw [int32_of_range (by omega) (by omega)]
    omega
  subst hcurrent
  simp only [ensureCapacity]
  rw [run_bind_ok (EStateM.run_get s), if_neg hp, run_bind_ok (run_fetch h.capacity_eq),
    run_bind_ok (run_fetch (h.length_eq hlength.le)), if_pos hne, hint]
  rfl

/-- The page behind a full one. -/
theorem ensureCapacity_next (hcurrent : s.stream.current = p) (hp : Page s.memory p)
    (hpool : s.stream.pool = true) (h : Header s.memory p next pageSize)
    (hsupply : s.supply = n :: rest) (hn : Page s.memory n) :
    ∃ m, ensureCapacity.run s = .ok pageSize
        { s with
          memory := m, supply := rest, taken :=
            s.taken ++ [n], stream := { s.stream with current := n } } ∧
      (initPage s.memory n).store p (putLe 8 n) = some m := by
  have htake := run_takeBuffer hpool hsupply
  rw [if_neg hn.ne_zero] at htake
  have hmapped : (initPage s.memory n).Mapped p (putLe 8 n).length :=
    (hp.mapped.congr (initPage_isSome hn.mapped)).sub le_rfl (by rw [length_putLe, pageSize]; omega)
  refine ⟨_, ?_, Memory.store_of_mapped hmapped⟩
  subst hcurrent
  simp only [ensureCapacity]
  rw [run_bind_ok (EStateM.run_get s), if_neg hp.ne_zero, run_bind_ok (run_fetch h.capacity_eq),
    run_bind_ok (run_fetch (h.length_eq le_rfl)), if_neg (not_not_intro rfl), run_bind_ok htake]
  refine (run_initPage (by exact hn.mapped) _).trans ?_
  rw [run_bind_ok (run_storeBytes (Memory.store_of_mapped hmapped)),
    run_bind_ok (run_modifyStream _)]
  rfl

/-! ### The length of a page -/

/-- The bytes that were copied are counted. -/
theorem addLength_spec (hcurrent : s.stream.current = p) (hp : s.memory.Mapped p pageSize)
    (h : Header s.memory p next length) {k : ℕ} (hle : length + k ≤ pageSize) :
    ∃ m, (addLength k).run s = .ok () { s with memory := m } ∧
      s.memory.store (p + 12) (putLe 4 (length + k)) = some m ∧ Header m p next (length + k) := by
  have hlt : pageSize < 2 ^ 31 := by decide
  have hstore :=
    Memory.store_of_mapped (hp.sub (b := p + 12) (k := (putLe 4 (length + k)).length) (by omega)
      (by rw [length_putLe, pageSize]; omega))
  have hcast : (length : ℤ) + k = ((length + k : ℕ) : ℤ) := by omega
  refine ⟨_, ?_, hstore, ?_⟩
  · subst hcurrent
    simp only [addLength]
    rw [run_bind_ok (EStateM.run_get s), run_bind_ok (run_fetch (h.length_eq (by omega))), hcast]
    exact run_storeInt hstore (by omega)
  · have hout := length_putLe 4 (length + k)
    constructor
    · rw [Memory.load_store_outside hstore (by omega), h.next]
    · rw [Memory.load_store_outside hstore (by omega), h.capacity]
    · exact Memory.load_store hstore

/-! ### `CopyMemory` -/

theorem copyWords_sum (length : ℕ) : (copyWords length).sum = length := by
  have htail : ∀ r < 16, ([8, 4, 2, 1].filter fun word => r &&& word ≠ 0).sum = r := by decide
  rw [copyWords, List.sum_append, List.sum_replicate,
    htail _ (Nat.mod_lt _ (by decide)), smul_eq_mul]
  omega

theorem copyWords_pos {length word : ℕ} (h : word ∈ copyWords length) : 0 < word := by
  rcases List.mem_append.1 h with h | h
  · rw [List.eq_of_mem_replicate h]
    decide
  · have hmem := List.mem_of_mem_filter h
    fin_cases hmem <;> decide

/-- Nothing is copied to memory that is not mapped. -/
theorem copyMemory_error (hbytes : bytes ≠ []) (h : s.memory a = none) :
    (copyMemory bytes a).run s = .error (accessViolation a) s := by
  have hsum := copyWords_sum bytes.length
  rw [copyMemory]
  cases hwords : copyWords bytes.length with
  | nil =>
    rw [hwords] at hsum
    exact absurd (List.length_eq_zero_iff.1 hsum.symm) hbytes
  | cons word words =>
    have hpos : 0 < word := copyWords_pos (hwords ▸ List.mem_cons_self)
    have htake : bytes.take word ≠ [] := by
      rw [ne_eq, List.take_eq_nil_iff]
      rintro (h | h)
      · omega
      · exact hbytes h
    exact run_bind_error (run_storeBytes_error (Memory.store_eq_none h htake))

theorem sourceBytes_spec {buffer : List UInt8} {offset k : ℕ} (h : offset + k ≤ buffer.length) :
    (sourceBytes buffer offset k).run s = .ok ((buffer.drop offset).take k) s := by
  unfold sourceBytes
  split_ifs with hzero hin
  · obtain rfl : k = 0 := by omega
    rw [List.take_zero]
    rfl
  · simp only [Int.toNat_natCast]
    rfl
  · omega

end WriteStream

end Calls

end NanoSocket

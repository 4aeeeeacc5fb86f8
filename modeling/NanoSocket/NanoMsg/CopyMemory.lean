import NanoSocket.NanoMsg.ReadStream

/-!
# Copying memory (`MemoryUtils.cs`)

The streams copy a list of words, `copyWords`.  Here is the loop of `CopyMemory` with its pointers
and its counter, for two places in one memory: `copyMemory_exact` says that the bytes of the source
are at the destination and nothing else was read or written, and `copyMemory_words` that the words
are those of the streams.
-/

namespace NanoSocket.CopyMemory

open ReadBounds (address)
open WriteStream (copyWords_sum)

/-- The parameters of `CopyMemory`, which it changes, the memory, and what was read and written. -/
structure Copy where
  memory : Memory UInt8
  src : ℕ
  dest : ℕ
  length : ℤ
  loads : List (ℕ × ℕ)
  stores : List (ℕ × ℕ)

namespace Copy

/-- A word is copied: `*(long*) (dest + 8) = *(long*) (src + 8)` for an offset of 8 and 8 bytes. -/
def move (offset word : ℕ) (s : Copy) : Except Trap Copy :=
  match s.memory.load (address s.src offset) word with
  | none => .error (accessViolation (address s.src offset))
  | some bytes =>
    match s.memory.store (address s.dest offset) bytes with
    | none => .error (accessViolation (address s.dest offset))
    | some memory => .ok { s with
        memory
        loads := s.loads ++ [(address s.src offset, word)]
        stores := s.stores ++ [(address s.dest offset, word)] }

/-- `dest += n` and `src += n`. -/
def advance (n : ℕ) (s : Copy) : Copy := { s with src := address s.src n, dest := address s.dest n }

/-- The loop; the counter is an `int`. -/
def rounds : ℕ → Copy → Except Trap Copy
  | 0, _ => .error .endless
  | fuel + 1, s => do
    let s ← s.move 0 8
    let s ← s.move 8 8
    let s := s.advance 16
    let s := { s with length := int32 (s.length - 16) }
    if 16 ≤ s.length then rounds fuel s else return s

/-- `if ((length & word) != 0)`, for a positive length. -/
def rest (word : ℕ) (s : Copy) : Except Trap Copy :=
  if s.length.toNat &&& word ≠ 0 then do return (← s.move 0 word).advance word else .ok s

end Copy

/-- `CopyMemory`. -/
def copyMemory (fuel : ℕ) (memory : Memory UInt8) (src dest : ℕ) (length : ℤ) :
    Except Trap Copy := do
  let s : Copy := { memory, src, dest, length, loads := [], stores := [] }
  let s ← (if 16 ≤ s.length then s.rounds fuel else .ok s)
  if 0 < s.length then do
    let s ← s.rest 8
    let s ← s.rest 4
    let s ← s.rest 2
    s.rest 1
  else return s

/-! ### The words so far -/

theorem address_address (pointer i k : ℕ) :
    address (address pointer i) k = address pointer (i + k : ℕ) := by
  unfold address
  omega

theorem address_eq {pointer i : ℕ} (h : pointer + i < 2 ^ 64) :
    address pointer i = pointer + i := by
  unfold address
  omega

/-- Two places in a memory of 64-bit addresses that do not overlap, with some bytes at the first of
them. -/
structure Places (m : Memory UInt8) (a b : ℕ) (bytes : List UInt8) : Prop where
  load : m.load a bytes.length = some bytes
  mapped : m.Mapped b bytes.length
  apart : a + bytes.length ≤ b ∨ b + bytes.length ≤ a
  space : a + bytes.length ≤ 2 ^ 64 ∧ b + bytes.length ≤ 2 ^ 64

/-- The state after some words, with the pointers behind `i` bytes. -/
structure Copied (m : Memory UInt8) (a b : ℕ) (bytes : List UInt8) (i : ℕ) (ws : List ℕ)
    (s : Copy) : Prop where
  src : s.src = address a i
  dest : s.dest = address b i
  memory : s.memory = m.write b (bytes.take ws.sum)
  loads : ∀ r ∈ s.loads, a ≤ r.1 ∧ r.1 + r.2 ≤ a + bytes.length
  stores : ∀ r ∈ s.stores, b ≤ r.1 ∧ r.1 + r.2 ≤ b + bytes.length
  words : s.stores.map Prod.snd = ws

section Copied

variable {m : Memory UInt8} {a b i : ℕ} {bytes : List UInt8} {ws : List ℕ} {s : Copy}

/-- The bytes of the source are still there. -/
theorem Places.load_write (h : Places m a b bytes) {k w : ℕ} (hk : k + w ≤ bytes.length) :
    (m.write b (bytes.take k)).load (a + k) w = some ((bytes.drop k).take w) := by
  rw [← Memory.load_sub h.load hk]
  refine Memory.load_congr fun j hj => Memory.write_outside ?_
  have hapart := h.apart
  rw [List.length_take]
  omega

theorem Places.store_write (h : Places m a b bytes) {k w : ℕ} (hk : k + w ≤ bytes.length) :
    (m.write b (bytes.take k)).store (b + k)
    ((bytes.drop k).take w) = some (m.write b (bytes.take (k + w))) := by
  have hlen : ((bytes.drop k).take w).length = w := by
    rw [List.length_take, List.length_drop]
    omega
  have htake : (bytes.take k).length = k := List.length_take_of_le (by omega)
  have hmapped : (m.write b (bytes.take k)).Mapped b bytes.length :=
    h.mapped.congr fun x => Memory.isSome_write x (h.mapped.sub le_rfl (by omega))
  rw [Memory.store_of_mapped (hmapped.sub (by omega) (by omega))]
  have hwrite := Memory.write_write m b (bytes.take k) ((bytes.drop k).take w)
  rw [htake] at hwrite
  rw [hwrite, ← List.take_add]

/-- A word behind those that were copied. -/
theorem Copied.move (hp : Places m a b bytes) (h : Copied m a b bytes i ws s) (offset : ℕ) {w : ℕ}
    (hi : i + offset = ws.sum) (hw : 0 < w) (hfits : ws.sum + w ≤ bytes.length) :
    ∃ s', s.move offset w = .ok s' ∧ Copied m a b bytes i (ws ++ [w]) s' ∧
      s'.length = s.length := by
  have hspace := hp.space
  have hsrc : address s.src offset = a + ws.sum := by
    rw [h.src, address_address, hi, address_eq (by omega)]
  have hdest : address s.dest offset = b + ws.sum := by
    rw [h.dest, address_address, hi, address_eq (by omega)]
  have hsum : (ws ++ [w]).sum = ws.sum + w := by simp
  have hmove : s.move offset w = .ok { s with
      memory := m.write b (bytes.take (ws.sum + w))
      loads := s.loads ++ [(a + ws.sum, w)]
      stores := s.stores ++ [(b + ws.sum, w)] } := by
    rw [Copy.move, hsrc, hdest, h.memory, hp.load_write hfits]
    simp only [hp.store_write hfits]
  refine ⟨_, hmove, ⟨h.src, h.dest, by rw [hsum], ?_, ?_, ?_⟩, rfl⟩
  · intro r hr
    rcases List.mem_append.1 hr with hr | hr
    · exact h.loads r hr
    · obtain rfl := List.mem_singleton.1 hr
      exact ⟨by simp, by simp only; omega⟩
  · intro r hr
    rcases List.mem_append.1 hr with hr | hr
    · exact h.stores r hr
    · obtain rfl := List.mem_singleton.1 hr
      exact ⟨by simp, by simp only; omega⟩
  · rw [List.map_append, h.words]
    rfl

theorem Copied.advance (h : Copied m a b bytes i ws s) (n : ℕ) :
    Copied m a b bytes (i + n) ws (s.advance n) where
  src := by rw [Copy.advance, h.src, address_address]
  dest := by rw [Copy.advance, h.dest, address_address]
  memory := h.memory
  loads := h.loads
  stores := h.stores
  words := h.words

theorem Copied.setLength (h : Copied m a b bytes i ws s) (length : ℤ) :
    Copied m a b bytes i ws { s with length } where
  src := h.src
  dest := h.dest
  memory := h.memory
  loads := h.loads
  stores := h.stores
  words := h.words

/-- The loop copies two words of eight bytes in each round. -/
theorem Copied.rounds (hp : Places m a b bytes) {r fuel : ℕ} {s : Copy}
    (h : Copied m a b bytes (16 * r) (List.replicate (2 * r) 8) s)
    (hlen : s.length = (bytes.length - 16 * r : ℤ)) (hint : bytes.length < 2 ^ 31)
    (hmore : 16 * r + 16 ≤ bytes.length) (hfuel : bytes.length / 16 < r + fuel) :
    ∃ s', s.rounds fuel = .ok s' ∧
      Copied m a b bytes (16 * (bytes.length / 16))
        (List.replicate (2 * (bytes.length / 16)) 8) s' ∧ s'.length = (bytes.length % 16 : ℕ) := by
  induction fuel generalizing r s with
  | zero => omega
  | succ fuel ih =>
    have hsum : (List.replicate (2 * r) 8).sum = 16 * r := by
      rw [List.sum_replicate, smul_eq_mul]
      omega
    have hsum' : (List.replicate (2 * r) 8 ++ [8]).sum = 16 * r + 8 := by
      rw [List.sum_append, hsum, List.sum_singleton]
    obtain ⟨s₁, hmove₁, h₁, hlen₁⟩ := h.move hp 0 (w := 8) (by omega) (by decide) (by omega)
    obtain ⟨s₂, hmove₂, h₂, hlen₂⟩ := h₁.move hp 8 (w := 8) (by omega) (by decide) (by omega)
    have hwords : List.replicate (2 * r) 8 ++ [8] ++ [8] = List.replicate (2 * (r + 1)) 8 := by
      rw [List.append_assoc, show 2 * (r + 1) = 2 * r + 2 by omega, List.replicate_add]
      rfl
    rw [hwords] at h₂
    rw [hlen₁] at hlen₂
    have hnext : int32 ((s₂.advance 16).length - 16) = (bytes.length - 16 * (r + 1 : ℕ) : ℤ) := by
      rw [Copy.advance, hlen₂, hlen, int32_of_range (by omega) (by omega)]
      omega
    have h₃ := (h₂.advance 16).setLength (int32 ((s₂.advance 16).length - 16))
    have hpos : 16 * r + 16 = 16 * (r + 1) := by omega
    rw [hpos] at h₃
    rw [Copy.rounds, hmove₁, ok_bind, hmove₂, ok_bind]
    simp only
    split_ifs with hagain
    · exact ih h₃ hnext (by omega) (by omega)
    · have hdiv : bytes.length / 16 = r + 1 := by omega
      refine ⟨_, rfl, ?_, ?_⟩
      · rw [hdiv]
        exact h₃
      · simp only [hnext]
        omega

/-- A word of the rest, if its bit is set. -/
theorem Copied.rest (hp : Places m a b bytes) (h : Copied m a b bytes ws.sum ws s) {w : ℕ}
    (hw : 0 < w) (hfits : s.length.toNat &&& w ≠ 0 → ws.sum + w ≤ bytes.length) :
    ∃ s', s.rest w = .ok s' ∧ s'.length = s.length ∧
      Copied m a b bytes (ws ++ [w].filter fun word => s.length.toNat &&& word ≠ 0).sum
        (ws ++ [w].filter fun word => s.length.toNat &&& word ≠ 0) s' := by
  rw [Copy.rest]
  split_ifs with hbit
  · obtain ⟨s', hmove, h', hlen⟩ := h.move hp 0 rfl hw (hfits hbit)
    refine ⟨s'.advance w, by rw [hmove]; rfl, hlen, ?_⟩
    have hfilter : ([w].filter fun word => s.length.toNat &&& word ≠ 0) = [w] := by simp [hbit]
    rw [hfilter, List.sum_append, List.sum_singleton]
    exact h'.advance w
  · have hfilter : ([w].filter fun word => s.length.toNat &&& word ≠ 0) = [] := by simpa using hbit
    exact ⟨s, rfl, rfl, by rw [hfilter, List.append_nil]; exact h⟩

/-- The words of the rest are within it. -/
theorem rest_le : ∀ q < 16, (q &&& 8 ≠ 0 → 8 ≤ q) ∧
    (q &&& 4 ≠ 0 → ([8].filter fun word => q &&& word ≠ 0).sum + 4 ≤ q) ∧
    (q &&& 2 ≠ 0 → ([8, 4].filter fun word => q &&& word ≠ 0).sum + 2 ≤ q) ∧
    (q &&& 1 ≠ 0 → ([8, 4, 2].filter fun word => q &&& word ≠ 0).sum + 1 ≤ q) := by
  decide

theorem Copied.remainder (hp : Places m a b bytes)
    (h : Copied m a b bytes (16 * (bytes.length / 16))
      (List.replicate (2 * (bytes.length / 16)) 8) s)
    (hlen : s.length = (bytes.length % 16 : ℕ)) :
    ∃ s', (if 0 < s.length then do
        let s ← s.rest 8
        let s ← s.rest 4
        let s ← s.rest 2
        s.rest 1
      else .ok s) = .ok s' ∧ Copied m a b bytes bytes.length (copyWords bytes.length) s' := by
  have hsum : (List.replicate (2 * (bytes.length / 16)) 8).sum = 16 * (bytes.length / 16) := by
    rw [List.sum_replicate, smul_eq_mul]
    omega
  have hdiv := Nat.div_add_mod bytes.length 16
  have hq : s.length.toNat = bytes.length % 16 := by omega
  obtain ⟨h8, h4, h2, h1⟩ := rest_le (bytes.length % 16) (Nat.mod_lt _ (by decide))
  split_ifs with hpos
  · rw [← hsum] at h
    obtain ⟨s₁, hrest₁, hlen₁, h₁⟩ := h.rest hp (w := 8) (by decide) (by
      rw [hq]
      intro hb
      have hle := h8 hb
      omega)
    rw [hq] at h₁
    obtain ⟨s₂, hrest₂, hlen₂, h₂⟩ := h₁.rest hp (w := 4) (by decide) (by
      rw [hlen₁, hq, List.sum_append]
      intro hb
      have hle := h4 hb
      omega)
    rw [hlen₁, hq, List.append_assoc, ← List.filter_append] at h₂
    obtain ⟨s₃, hrest₃, hlen₃, h₃⟩ := h₂.rest hp (w := 2) (by decide) (by
      rw [hlen₂, hlen₁, hq, List.sum_append]
      intro hb
      have hle := h2 hb
      simp only [List.cons_append, List.nil_append]
      omega)
    rw [hlen₂, hlen₁, hq, List.append_assoc, ← List.filter_append] at h₃
    obtain ⟨s₄, hrest₄, -, h₄⟩ := h₃.rest hp (w := 1) (by decide) (by
      rw [hlen₃, hlen₂, hlen₁, hq, List.sum_append]
      intro hb
      have hle := h1 hb
      simp only [List.cons_append, List.nil_append]
      omega)
    rw [hlen₃, hlen₂, hlen₁, hq, List.append_assoc, ← List.filter_append] at h₄
    refine ⟨s₄, ?_, ?_⟩
    · rw [hrest₁, ok_bind, hrest₂, ok_bind, hrest₃, ok_bind, hrest₄]
    · have hwords := copyWords_sum bytes.length
      rw [copyWords] at hwords ⊢
      have hlist : [8] ++ [4] ++ [2] ++ [1] = [8, 4, 2, 1] := rfl
      rwa [hlist, hwords] at h₄
  · have hzero : bytes.length % 16 = 0 := by omega
    have hfull : 16 * (bytes.length / 16) = bytes.length := by omega
    have hwords : copyWords bytes.length = List.replicate (2 * (bytes.length / 16)) 8 := by
      rw [copyWords, hzero]
      exact List.append_nil _
    rw [hfull] at h
    rw [hwords]
    exact ⟨s, rfl, h⟩

/-- All bytes are copied, in the words of the streams. -/
theorem exists_copied (hp : Places m a b bytes) (hint : bytes.length < 2 ^ 31) {fuel : ℕ}
    (hfuel : bytes.length / 16 < fuel) :
    ∃ s, copyMemory fuel m a b bytes.length = .ok s ∧ s.memory = m.write b bytes ∧
      (∀ r ∈ s.loads, a ≤ r.1 ∧ r.1 + r.2 ≤ a + bytes.length) ∧
      (∀ r ∈ s.stores, b ≤ r.1 ∧ r.1 + r.2 ≤ b + bytes.length) ∧
        s.stores.map Prod.snd = copyWords bytes.length := by
  rcases Nat.eq_zero_or_pos bytes.length with hzero | hpos
  · obtain rfl := List.length_eq_zero_iff.1 hzero
    exact ⟨_, rfl, (Memory.write_nil m b).symm, nofun, nofun, rfl⟩
  have hspace := hp.space
  have hself : ∀ pointer < 2 ^ 64, pointer = address pointer (16 * 0 : ℕ) := by
    intro pointer hpointer
    unfold address
    omega
  have hstart : Copied m a b bytes (16 * 0) (List.replicate (2 * 0) 8)
      { memory := m, src := a, dest := b, length := bytes.length, loads := [], stores := [] } :=
    ⟨hself a (by omega), hself b (by omega), (Memory.write_nil m b).symm, nofun, nofun, rfl⟩
  obtain ⟨s, hrounds, h, hlen⟩ : ∃ s, (if (16 : ℤ) ≤ bytes.length then Copy.rounds fuel
        { memory := m, src := a, dest := b, length := bytes.length, loads := [], stores := [] }
      else .ok { memory := m, src := a, dest := b, length := bytes.length, loads := [],
                 stores := [] }) = .ok s ∧
      Copied m a b bytes (16 * (bytes.length / 16)) (List.replicate (2 * (bytes.length / 16)) 8) s ∧
        s.length = (bytes.length % 16 : ℕ) := by
    split_ifs with hlong
    · exact hstart.rounds hp (by simp) hint (by omega) (by omega)
    · have hdiv : bytes.length / 16 = 0 := by omega
      refine ⟨_, rfl, ?_, by simp only; omega⟩
      rw [hdiv]
      exact hstart
  obtain ⟨s', hrest, h'⟩ := h.remainder hp hlen
  refine ⟨s', ?_, ?_, h'.loads, h'.stores, h'.words⟩
  · rw [copyMemory]
    simp only [hrounds, ok_bind]
    exact hrest
  · rw [h'.memory, copyWords_sum, List.take_length]

/-- Both places are in the memory, whose addresses have 64 bits. -/
theorem exists_places {n : ℕ} (hspace : ∀ x, (m x).isSome → x < 2 ^ 64) (hsrc : m.Mapped a n)
    (hdest : m.Mapped b n) (hapart : a + n ≤ b ∨ b + n ≤ a) (hn : 0 < n) :
    ∃ bytes, bytes.length = n ∧ Places m a b bytes := by
  obtain ⟨bytes, hload⟩ := hsrc.exists_load
  have hlen := Memory.length_load hload
  subst hlen
  have ha := hspace _ (hsrc (bytes.length - 1) (by omega))
  have hb := hspace _ (hdest (bytes.length - 1) (by omega))
  exact ⟨bytes, rfl, hload, hdest, hapart, by omega, by omega⟩

end Copied

/-- For every `int` that is not negative, and two places of so many bytes that do not overlap, the
call returns: the bytes of the source are at the destination, the rest of the memory is as before,
and all reads are in the source and all writes in the destination. -/
theorem copyMemory_exact {m : Memory UInt8} {a b n : ℕ} (hint : n < 2 ^ 31)
    (hspace : ∀ x, (m x).isSome → x < 2 ^ 64) (hsrc : m.Mapped a n) (hdest : m.Mapped b n)
    (hapart : a + n ≤ b ∨ b + n ≤ a) {fuel : ℕ} (hfuel : n / 16 < fuel) :
    ∃ s, copyMemory fuel m a b n = .ok s ∧ s.memory.load b n = m.load a n ∧
      (∀ x, x < b ∨ b + n ≤ x → s.memory x = m x) ∧ (∀ r ∈ s.loads, a ≤ r.1 ∧ r.1 + r.2 ≤ a + n) ∧
      ∀ r ∈ s.stores, b ≤ r.1 ∧ r.1 + r.2 ≤ b + n := by
  rcases Nat.eq_zero_or_pos n with rfl | hn
  · exact ⟨_, rfl, rfl, fun x _ => rfl, nofun, nofun⟩
  obtain ⟨bytes, rfl, hp⟩ := exists_places hspace hsrc hdest hapart hn
  obtain ⟨s, hcopy, hmem, hloads, hstores, -⟩ := exists_copied hp hint hfuel
  have hstore := Memory.store_of_mapped hp.mapped
  refine ⟨s, hcopy, ?_, ?_, hloads, hstores⟩
  · rw [hmem, hp.load, Memory.load_store hstore]
  · intro x hx
    rw [hmem, Memory.write_outside hx]

/-- A hundred bytes that are mapped. -/
def hundred : Memory UInt8 := fun x => if x < 100 then some (UInt8.ofNat x) else none

theorem hundred_space (x : ℕ) (h : (hundred x).isSome) : x < 2 ^ 64 := by
  by_cases hx : x < 100
  · omega
  · rw [hundred, if_neg hx] at h
    cases h

theorem copyMemory_exact_hundred : ∃ s, copyMemory 2 hundred 10 40 (23 : ℕ) = .ok s ∧
    s.memory.load 40 23 = hundred.load 10 23 ∧
      (∀ x, x < 40 ∨ 40 + 23 ≤ x → s.memory x = hundred x) ∧
      (∀ r ∈ s.loads, 10 ≤ r.1 ∧ r.1 + r.2 ≤ 10 + 23) ∧ ∀ r ∈ s.stores, 40 ≤ r.1 ∧
        r.1 + r.2 ≤ 40 + 23 :=
  copyMemory_exact (by decide) hundred_space (by decide) (by decide) (by decide) (by decide)

/-- The words that are stored are those that the streams copy. -/
theorem copyMemory_words {m : Memory UInt8} {a b n : ℕ} (hint : n < 2 ^ 31)
    (hspace : ∀ x, (m x).isSome → x < 2 ^ 64) (hsrc : m.Mapped a n) (hdest : m.Mapped b n)
    (hapart : a + n ≤ b ∨ b + n ≤ a) {fuel : ℕ} (hfuel : n / 16 < fuel) :
    ∃ s, copyMemory fuel m a b n = .ok s ∧ s.stores.map Prod.snd = copyWords n := by
  rcases Nat.eq_zero_or_pos n with rfl | hn
  · exact ⟨_, rfl, rfl⟩
  obtain ⟨bytes, rfl, hp⟩ := exists_places hspace hsrc hdest hapart hn
  obtain ⟨s, hcopy, -, -, -, hwords⟩ := exists_copied hp hint hfuel
  exact ⟨s, hcopy, hwords⟩

end NanoSocket.CopyMemory

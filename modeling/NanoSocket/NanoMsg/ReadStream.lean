import NanoSocket.Lib.Runs
import NanoSocket.NanoMsg.WriteStreamCalls

/-!
# Reading a message (`ReadStream.cs`, `MemoryUtils.cs`)

A stream reads native memory from its position on.  The position is a `long` that `Seek` and
`Position` set to any value, and each call has its own test of it: all of them look at the end of
the buffer, and none at its start.  `Read` takes the position for an `int`, and does not look at the
array.

The state has the places that a call reads and writes; `reads_right_iff` says when all of them are
in the buffer and in the array.
-/

namespace NanoSocket.ReadBounds

open Runs WriteStream

/-- The value of a `long` after an operation that may overflow. -/
def int64 (x : ℤ) : ℤ := x.bmod (2 ^ 64)

/-- The fields of `ReadStream`, where `0` is a null pointer. -/
structure ReadStream where
  buffer : ℕ
  length : ℤ
  position : ℤ
  deriving DecidableEq, Repr

/-- `Reinitialize`. The constructor checks the same. -/
def reinitialize (buffer : ℕ) (length : ℤ) : Except ClrException ReadStream :=
  if buffer = 0 then .error .argumentNull
  else if length ≤ 0 then .error .argumentOutOfRange
  else .ok { buffer, length, position := 0 }

/-- What a call works on: memory, the stream and the buffers that were handed to the disposer; and
the native bytes that it has read and the elements of the array that it has written, the first one
and the number of them. -/
structure ReadState where
  memory : Memory UInt8
  stream : ReadStream
  disposed : List (ℕ × ℤ)
  loads : List (ℕ × ℕ)
  stores : List (ℤ × ℕ)

/-- A stream that was initialized. -/
def ReadState.start (memory : Memory UInt8) (stream : ReadStream) : ReadState :=
  { memory, stream, disposed := [], loads := [], stores := [] }

/-- The calls. What they did before an exception stays. -/
abbrev ReadM := EStateM Trap ReadState

/-- A pointer that was moved. -/
def address (pointer : ℕ) (index : ℤ) : ℕ := ((pointer + index) % 2 ^ 64).toNat

/-- Read native bytes. -/
def load (a n : ℕ) : ReadM (List UInt8) := do
  modify fun s => { s with loads := s.loads ++ [(a, n)] }
  match (← get).memory.load a n with
  | some bytes => return bytes
  | none => throw (accessViolation a)

/-- An array with other elements from some place on. -/
def splice (dest : List UInt8) (index : ℤ) (bytes : List UInt8) : List UInt8 :=
  dest.take index.toNat ++ bytes ++ dest.drop (index.toNat + bytes.length)

/-- Write elements of an array.  An array without elements has a null pointer; elsewhere, what is
written outside the array ends the process. -/
def put (dest : List UInt8) (index : ℤ) (bytes : List UInt8) : ReadM (List UInt8) := do
  modify fun s => { s with stores := s.stores ++ [(index, bytes.length)] }
  if 0 ≤ index ∧ index + bytes.length ≤ dest.length then
    return splice dest index bytes
  else throw (if dest.length = 0 then accessViolation (address 0 index) else .crash)

/-- Change the position. -/
def setPosition (position : ℤ) : ReadM Unit :=
  modify fun s => { s with stream := { s.stream with position } }

/-! ### `MemoryUtils` -/

/-- Copy words to an array. -/
def copyLoop (dest : List UInt8) : List ℕ → ℕ → ℤ → ReadM (List UInt8)
  | [], _, _ => return dest
  | word :: words, src, index => do
    let bytes ← load src word
    let dest ← put dest index bytes
    copyLoop dest words (address src word) (index + word)

/-- `PinAndCopyMemory`. -/
def pinAndCopyMemory (src : ℕ) (srcIndex : ℤ) (dest : List UInt8) (destIndex len : ℤ) :
    ReadM (List UInt8) := do
  if len = 0 then return dest
  copyLoop dest (copyWords len.toNat) (address src srcIndex) destIndex

/-! ### `ReadStream` -/

/-- `Read`. -/
def read (dest : List UInt8) (offset count : ℤ) : ReadM (ℤ × List UInt8) := do
  let self := (← get).stream
  let remaining := int64 (self.length - self.position)
  let count := if remaining < count then int32 remaining else count
  if count ≤ 0 then return (0, dest)
  let dest ← pinAndCopyMemory self.buffer (int32 self.position) dest offset count
  setPosition (int64 (self.position + count))
  return (count, dest)

/-- `ReadByte`. The position is changed first. -/
def readByte : ReadM ℤ := do
  let self := (← get).stream
  if self.position ≥ self.length then return -1
  setPosition (int64 (self.position + 1))
  return getLe (← load (address self.buffer self.position) 1)

/-- `ReadInt32` and `ReadInt64`, for a number of bytes. -/
def readInt (size : ℕ) (value : ℤ → ℤ) : ReadM (Option ℤ) := do
  let self := (← get).stream
  if self.position > int64 (self.length - size) then return none
  let result ← load (address self.buffer self.position) size
  setPosition (int64 (self.position + size))
  return some (value (getLe result))

/-- `ReadInt32`. -/
def readInt32 : ReadM (Option ℤ) := readInt 4 int32

/-- `ReadInt64`. -/
def readInt64 : ReadM (Option ℤ) := readInt 8 int64

/-- `SeekOrigin`, with the values that have no name. -/
inductive SeekOrigin
  | begin
  | current
  | end
  | other
  deriving DecidableEq, Repr

/-- `Seek`. -/
def seek (offset : ℤ) (origin : SeekOrigin) : ReadM ℤ := do
  let self := (← get).stream
  match origin with
  | .begin => setPosition offset
  | .current => setPosition (int64 (self.position + offset))
  | .end => setPosition (int64 (self.length + offset))
  | .other => pure ()
  return (← get).stream.position

/-- `Dispose`, with the memory that there is after the buffer was given back. -/
def dispose (memory : Memory UInt8) : ReadM Unit := do
  let self := (← get).stream
  modify fun s => { s with stream := { s.stream with length := -1, buffer := 0 } }
  if self.buffer ≠ 0 ∧ self.length > 0 then
    modify fun s => { s with memory, disposed := s.disposed ++ [(self.buffer, int32 self.length)] }

/-- The calls. -/
inductive Call
  | seek (offset : ℤ) (origin : SeekOrigin)
  | position (value : ℤ)
  | read (dest : List UInt8) (offset count : ℤ)
  | readByte
  | readInt32
  | readInt64
  | dispose (memory : Memory UInt8)

/-- What a call returns. -/
inductive Answer
  | unit
  | long (value : ℤ)
  | read (count : ℤ) (dest : List UInt8)
  | int (value : Option ℤ)

/-- A call. -/
def Call.exec : Call → ReadM Answer
  | .seek offset origin => return .long (← ReadBounds.seek offset origin)
  | .position value => do
    setPosition value
    return .unit
  | .read dest offset count => do
    let r ← ReadBounds.read dest offset count
    return .read r.1 r.2
  | .readByte => return .long (← ReadBounds.readByte)
  | .readInt32 => return .int (← ReadBounds.readInt32)
  | .readInt64 => return .int (← ReadBounds.readInt64)
  | .dispose memory => do
    ReadBounds.dispose memory
    return .unit

/-- No place was read or written. -/
def ReadState.fresh (s : ReadState) : ReadState := { s with loads := [], stores := [] }

/-- One call. An exception leaves what was done before it. -/
def step (s : ReadState) (call : Call) : Except Trap (ReadState × Option Answer) :=
  match call.exec.run s.fresh with
  | .ok answer s => .ok (s, some answer)
  | .error (.threw _) s => .ok (s, none)
  | .error e _ => .error e

/-! ### What the calls should do -/

/-- The values of the arguments are those of their types. -/
def Call.Valid : Call → Prop
  | .seek offset _ => -2 ^ 63 ≤ offset ∧ offset < 2 ^ 63
  | .position value => -2 ^ 63 ≤ value ∧ value < 2 ^ 63
  | .read dest offset count =>
    (-2 ^ 31 ≤ offset ∧ offset < 2 ^ 31) ∧ (-2 ^ 31 ≤ count ∧ count < 2 ^ 31) ∧ dest.length < 2 ^ 31
  | _ => True

/-- Native memory for a buffer. -/
structure Native (memory : Memory UInt8) (buffer : ℕ) (length : ℤ) : Prop where
  lt : length < 2 ^ 63
  high : buffer + length ≤ 2 ^ 64
  mapped : memory.Mapped buffer length.toNat

/-- Native bytes are in the buffer of a stream. -/
def InBuffer (self : ReadStream) (bytes : ℕ × ℕ) : Prop :=
  self.buffer ≤ bytes.1 ∧ (bytes.1 : ℤ) + bytes.2 ≤ self.buffer + self.length

/-- Elements are in an array of some size. -/
def InArray (size : ℕ) (elements : ℤ × ℕ) : Prop := 0 ≤ elements.1 ∧ elements.1 + elements.2 ≤ size

/-- What was read is in the buffer, and what was written is in the array. -/
def InBounds (self : ReadStream) (size : ℕ) (s : ReadState) : Prop :=
  (∀ bytes ∈ s.loads, InBuffer self bytes) ∧ ∀ elements ∈ s.stores, InArray size elements

/-- The bytes of the buffer, none after `Dispose`. -/
def ReadState.content (s : ReadState) : List UInt8 :=
  (s.memory.load s.stream.buffer s.stream.length.toNat).getD []

/-- As many bytes as there are at a position, up to a number. -/
def bytesAt (content : List UInt8) (position count : ℤ) : List UInt8 :=
  if position < 0 then [] else (content.drop position.toNat).take count.toNat

/-- The size of the array of a call. -/
def Call.size : Call → ℕ
  | .read dest _ _ => dest.length
  | _ => 0

/-- `Read` returns the bytes at the position before it. -/
def Exact (content : List UInt8) (position : ℤ) : Call → Answer → Prop
  | .read dest offset count, .read n dest' =>
    let bytes := bytesAt content position count
    n = bytes.length ∧ dest' = splice dest offset bytes
  | _, _ => True

/-- What a call reads is in the buffer that is live before it, what it writes is in the array, and
what it returns is right. -/
def Right (s : ReadState) (call : Call) : Prop :=
  Leads (call.exec.run s.fresh)
    (fun answer s' => InBounds s.stream call.size s' ∧
      Exact s.content s.stream.position call answer)
    (fun _ s' => InBounds s.stream call.size s')

/-- `Read` has nothing to do: no bytes are asked for, or as an `int` there are none behind the
position. -/
def Idle (self : ReadStream) (count : ℤ) : Prop :=
  if int64 (self.length - self.position) < count then int32 (int64 (self.length - self.position)) ≤
    0 else count ≤ 0

/-- The bytes of `Read` at the position fit in the array, and are found by the position as an
`int`. -/
def ReadFits (s : ReadState) (dest : List UInt8) (offset count : ℤ) : Prop :=
  let position := s.stream.position
  let n := min count (s.stream.length - position)
  (0 ≤ position ∧ position < s.stream.length) ∧ (0 ≤ offset ∧ offset + n ≤ dest.length) ∧
    0 ≤ int32 position ∧ bytesAt s.content (int32 position) n = bytesAt s.content position n

/-- When the calls do what they should. -/
def Fine (s : ReadState) : Call → Prop
  | .read dest offset count => Idle s.stream count ∨ ReadFits s dest offset count
  | .readByte => 0 ≤ s.stream.position ∨ s.stream.length ≤ s.stream.position
  | .readInt32 => 0 ≤ s.stream.position ∨ s.stream.length - 4 < s.stream.position
  | .readInt64 => 0 ≤ s.stream.position ∨ s.stream.length - 8 < s.stream.position
  | _ => True

section Proofs

variable {memory : Memory UInt8} {s s' : ReadState} {self : ReadStream} {dest bytes : List UInt8}
  {words : List ℕ}
  {a n src : ℕ} {i index : ℤ}

/-! ### Numbers -/

theorem int64_of_range {x : ℤ} (hlo : -2 ^ 63 ≤ x) (hhi : x < 2 ^ 63) : int64 x = x := by
  unfold int64
  rw [Int.bmod_eq_of_le] <;> omega

theorem int64_range (x : ℤ) : -2 ^ 63 ≤ int64 x ∧ int64 x < 2 ^ 63 := by
  have hlo := Int.le_bmod (x := x) (m := 2 ^ 64) (by decide)
  have hhi := Int.bmod_lt (x := x) (m := 2 ^ 64) (by decide)
  unfold int64
  omega

/-! ### Reading and writing -/

theorem run_load (h : s.memory.load a n = some bytes) :
    (load a n).run s = .ok bytes { s with loads := s.loads ++ [(a, n)] } := by
  simp only [load, EStateM.run_bind, EStateM.run_modify, EStateM.run_get, h, EStateM.run_pure]

theorem run_load_error (h : s.memory.load a n = none) :
    (load a n).run s = .error (accessViolation a) { s with loads := s.loads ++ [(a, n)] } := by
  simp only [load, EStateM.run_bind, EStateM.run_modify, EStateM.run_get, h]
  rfl

theorem run_put (h : InArray dest.length (index, bytes.length)) :
    (put dest index bytes).run s =
      .ok (splice dest index bytes) { s with stores := s.stores ++ [(index, bytes.length)] } := by
  unfold InArray at h
  simp only [put, EStateM.run_bind, EStateM.run_modify, if_pos h, EStateM.run_pure]

theorem run_put_error (h : ¬ InArray dest.length (index, bytes.length)) :
    ∃ e, (put dest index bytes).run s =
      .error e { s with stores := s.stores ++ [(index, bytes.length)] } := by
  unfold InArray at h
  simp only [put, EStateM.run_bind, EStateM.run_modify, if_neg h]
  exact ⟨_, rfl⟩

theorem run_setPosition (position : ℤ) :
    (setPosition position).run s = .ok () { s with stream := { s.stream with position } } := rfl

/-- Places were read and written, and nothing else has changed. -/
structure Extends (s s' : ReadState) : Prop where
  memory : s'.memory = s.memory
  stream : s'.stream = s.stream
  loads : s.loads <+: s'.loads
  stores : s.stores <+: s'.stores

namespace Extends

theorem refl (s : ReadState) : Extends s s := ⟨rfl, rfl, List.prefix_rfl, List.prefix_rfl⟩

theorem trans {s'' : ReadState} (h : Extends s s') (h' : Extends s' s'') : Extends s s'' :=
  ⟨h'.memory.trans h.memory, h'.stream.trans h.stream, h.loads.trans h'.loads,
    h.stores.trans h'.stores⟩

theorem load (s : ReadState) (place : ℕ × ℕ) : Extends s { s with loads := s.loads ++ [place] } :=
  ⟨rfl, rfl, List.prefix_append _ _, List.prefix_rfl⟩

theorem store (s : ReadState) (place : ℤ × ℕ) :
    Extends s { s with stores := s.stores ++ [place] } :=
  ⟨rfl, rfl, List.prefix_rfl, List.prefix_append _ _⟩

theorem inBounds {size : ℕ} (h : Extends s s') (hin : InBounds self size s') :
    InBounds self size s :=
  ⟨fun place hplace => hin.1 place (h.loads.subset hplace),
    fun place hplace => hin.2 place (h.stores.subset hplace)⟩

end Extends

/-! ### `CopyMemory` -/

theorem length_splice (h : InArray dest.length (index, bytes.length)) :
    (splice dest index bytes).length = dest.length := by
  unfold InArray at h
  simp only [splice, List.length_append, List.length_take, List.length_drop]
  omega

theorem splice_nil (dest : List UInt8) (index : ℤ) : splice dest index [] = dest := by
  rw [splice, List.append_nil, List.length_nil, add_zero, List.take_append_drop]

/-- Elements that are written one behind the other. -/
theorem splice_splice {more : List UInt8} (hindex : 0 ≤ index)
    (hle : index + bytes.length ≤ dest.length) :
    splice (splice dest index bytes) (index + bytes.length) more =
      splice dest index (bytes ++ more) := by
  have hlength : (index + bytes.length).toNat = (dest.take index.toNat ++ bytes).length := by
    rw [List.length_append, List.length_take]
    omega
  have hrest : index.toNat + (bytes ++ more).length = index.toNat + bytes.length + more.length := by
    rw [List.length_append, Nat.add_assoc]
  rw [splice, splice, splice, hlength, List.take_left, ← List.drop_drop, List.drop_left, hrest,
    List.append_assoc (dest.take _), List.drop_drop]

/-- The state after a word was copied. -/
def ReadState.copied (s : ReadState) (src word : ℕ) (index : ℤ) : ReadState :=
  { s with loads := s.loads ++ [(src, word)], stores := s.stores ++ [(index, word)] }

theorem Extends.copied (s : ReadState) (src word : ℕ) (index : ℤ) :
    Extends s (s.copied src word index) :=
  ⟨rfl, rfl, List.prefix_append _ _, List.prefix_append _ _⟩

theorem inBounds_copied {size word : ℕ} :
    InBounds self size (s.copied src word index) ↔
      InBounds self size s ∧ InBuffer self (src, word) ∧ InArray size (index, word) := by
  simp only [InBounds, ReadState.copied, List.forall_mem_append, List.forall_mem_singleton]
  exact and_and_and_comm

/-- The first word. -/
theorem run_copyLoop_cons {word : ℕ} (hload : s.memory.load src word = some bytes)
    (hput : InArray dest.length (index, word)) :
    (copyLoop dest (word :: words) src index).run s =
      (copyLoop (splice dest index bytes) words (address src word) (index + word)).run
        (s.copied src word index) := by
  have hlength := Memory.length_load hload
  rw [← hlength] at hput
  rw [copyLoop, run_bind_ok (run_load hload), run_bind_ok (run_put (by exact hput)),
    ReadState.copied, hlength]

theorem run_copyLoop_error {word : ℕ} (hload : s.memory.load src word = some bytes)
    (hput : ¬ InArray dest.length (index, word)) :
    ∃ e, (copyLoop dest (word :: words) src index).run s = .error e (s.copied src word index) := by
  have hlength := Memory.length_load hload
  rw [← hlength] at hput
  obtain ⟨e, herror⟩ := run_put_error (s := { s with loads := s.loads ++ [(src, word)] }) hput
  refine ⟨e, ?_⟩
  rw [copyLoop, run_bind_ok (run_load hload), run_bind_error herror, ReadState.copied, hlength]

theorem copyLoop_extends :
    Leads ((copyLoop dest words src index).run s) (fun _ => Extends s) (fun _ => Extends s) := by
  induction words generalizing s dest src index with
  | nil => exact Extends.refl s
  | cons word words ih =>
    cases hload : s.memory.load src word with
    | none =>
      rw [copyLoop, run_bind_error (run_load_error hload)]
      exact .load s _
    | some bytes =>
      by_cases hput : InArray dest.length (index, word)
      · rw [run_copyLoop_cons hload hput]
        exact ih.mono (fun _ _ h => (Extends.copied s _ _ _).trans h) fun _ _ h =>
          (Extends.copied s _ _ _).trans h
      · have hfail : ∃ e, (copyLoop dest (word :: words) src index).run s =
            .error e (s.copied src word index) :=
          run_copyLoop_error hload hput
        obtain ⟨e, herror⟩ := hfail
        rw [herror]
        exact .copied s _ _ _

/-- The address of the next word, when there is one, does not overflow. -/
theorem address_next {word : ℕ} (hpos : ∀ next ∈ words, 0 < next)
    (hhigh : self.buffer + self.length ≤ 2 ^ 64) (hin : InBuffer self (src, word + words.sum)) :
    words = [] ∨ address src word = src + word := by
  cases words with
  | nil => exact .inl rfl
  | cons next words =>
    have hnext := hpos next List.mem_cons_self
    unfold InBuffer at hin
    rw [List.sum_cons] at hin
    refine .inr ?_
    unfold address
    omega

/-- Words that are in the buffer and in the array are copied. -/
theorem copyLoop_ok (hpos : ∀ word ∈ words, 0 < word) (hhigh : self.buffer + self.length ≤ 2 ^ 64)
    (hload : s.memory.load src words.sum = some bytes)
    (h : words = [] ∨ InBuffer self (src, words.sum) ∧ InArray dest.length (index, words.sum)) :
    ∃ s', (copyLoop dest words src index).run s = .ok (splice dest index bytes) s' ∧ Extends s s' ∧
      (InBounds self dest.length s → InBounds self dest.length s') := by
  induction words generalizing s dest src index bytes with
  | nil =>
    cases hload
    exact ⟨s, by rw [splice_nil]; rfl, .refl s, id⟩
  | cons word words ih =>
    obtain ⟨hin, harray⟩ := h.resolve_left (List.cons_ne_nil _ _)
    have hlength := Memory.length_load hload
    have hrestPos : ∀ next ∈ words, 0 < next := fun next hnext =>
      hpos next (List.mem_cons_of_mem _ hnext)
    rw [List.sum_cons] at hload hin harray hlength
    have hlast := address_next hrestPos hhigh hin
    unfold InBuffer at hin
    unfold InArray at harray
    have hfirst : s.memory.load src word = some (bytes.take word) :=
      Memory.load_sub hload (i := 0) (by omega)
    have hrest : s.memory.load (src + word) words.sum = some (bytes.drop word) := by
      rw [Memory.load_sub hload le_rfl, List.take_of_length_le (by rw [List.length_drop]; omega)]
    have hword : InBuffer self (src, word) ∧ InArray dest.length (index, word) := by
      unfold InBuffer InArray
      dsimp only
      omega
    have htake : (bytes.take word).length = word := List.length_take_of_le (by omega)
    have hput : InArray dest.length (index, (bytes.take word).length) := htake.symm ▸ hword.2
    have hcopy : ∃ s',
        (copyLoop (splice dest index (bytes.take word)) words (address src word) (index + word)).run
          (s.copied src word index) =
          .ok (splice (splice dest index (bytes.take word)) (index + word) (bytes.drop word)) s' ∧
        Extends (s.copied src word index) s' ∧
        (InBounds self (splice dest index (bytes.take word)).length (s.copied src word index) →
          InBounds self (splice dest index (bytes.take word)).length s') := by
      apply ih hrestPos
      · rcases hlast with rfl | haddress
        · rw [List.drop_of_length_le (by simpa using hlength.le)]
          rfl
        · rw [haddress]
          exact hrest
      · refine hlast.imp_right fun haddress => ?_
        rw [haddress, length_splice hput]
        unfold InBuffer InArray
        dsimp only
        omega
    obtain ⟨s', hrun, hext, hbounds⟩ := hcopy
    rw [length_splice hput] at hbounds
    have hsplice : splice (splice dest index (bytes.take word)) (index + (bytes.take word).length)
        (bytes.drop word) = _ :=
      splice_splice harray.1 hput.2
    rw [htake, List.take_append_drop] at hsplice
    refine ⟨s', ?_, (Extends.copied s _ _ _).trans hext,
      fun hs => hbounds (inBounds_copied.2 ⟨hs, hword⟩)⟩
    rw [run_copyLoop_cons hfirst hword.2, hrun, hsplice]

theorem Extends.of_leads {α : Type} {size : ℕ} {r : EStateM.Result Trap ReadState α}
    (hext : Leads r (fun _ => Extends s) (fun _ => Extends s))
    (h : Leads r (fun _ => InBounds self size) (fun _ => InBounds self size)) :
    InBounds self size s := by
  cases r with
  | ok a s' => exact Extends.inBounds hext h
  | error e s' => exact Extends.inBounds hext h

/-- Where the places are in the buffer and in the array, so are the words. -/
theorem copyLoop_bounds (hmapped : ∀ a n, InBuffer self (a, n) → s.memory.Mapped a n)
    (hbuffer : 0 < self.buffer ∨ self.length < 0) (hhigh : self.buffer + self.length ≤ 2 ^ 64)
    (h : Leads ((copyLoop dest words src index).run s) (fun _ => InBounds self dest.length)
      (fun _ => InBounds self dest.length)) :
    words = [] ∨ InBuffer self (src, words.sum) ∧ InArray dest.length (index, words.sum) := by
  induction words generalizing s dest src index with
  | nil => exact .inl rfl
  | cons word words ih =>
    refine .inr ?_
    cases hload : s.memory.load src word with
    | none =>
      rw [copyLoop, run_bind_error (run_load_error hload)] at h
      have hin : InBuffer self (src, word) := h.1 _ (List.mem_append_right _ List.mem_cons_self)
      obtain ⟨bytes, hbytes⟩ := (hmapped src word hin).exists_load
      cases hload.symm.trans hbytes
    | some bytes =>
      by_cases hput : InArray dest.length (index, word)
      · rw [run_copyLoop_cons hload hput] at h
        have hlength : (splice dest index bytes).length = dest.length :=
          length_splice (by rwa [Memory.length_load hload])
        rw [← hlength] at h
        have hword := (inBounds_copied.1 (Extends.of_leads copyLoop_extends h)).2
        rcases ih (by exact hmapped) h with rfl | ⟨hin, harray⟩
        · rw [hlength] at hword
          simpa using hword
        · rw [hlength] at hword harray
          obtain ⟨hin', harray'⟩ := hword
          unfold InBuffer address at *
          unfold InArray at *
          rw [List.sum_cons]
          dsimp only at *
          omega
      · have hfail : ∃ e, (copyLoop dest (word :: words) src index).run s =
            .error e (s.copied src word index) :=
          run_copyLoop_error hload hput
        obtain ⟨e, herror⟩ := hfail
        rw [herror] at h
        exact absurd (inBounds_copied.1 h).2.2 hput

/-! ### What holds between the calls -/

/-- There is a buffer, or the stream was disposed. -/
structure Inv (s : ReadState) : Prop where
  position : -2 ^ 63 ≤ s.stream.position ∧ s.stream.position < 2 ^ 63
  buffer : (0 < s.stream.buffer ∧ 0 < s.stream.length ∧
    Native s.memory s.stream.buffer s.stream.length) ∨ (s.stream.buffer = 0 ∧ s.stream.length = -1)

namespace Inv

theorem of_extends (h : Inv s) (hext : Extends s s') : Inv s' := by
  refine ⟨?_, ?_⟩
  · rw [hext.stream]
    exact h.position
  · rw [hext.stream, hext.memory]
    exact h.buffer

theorem fresh (h : Inv s) : Inv s.fresh := ⟨h.position, h.buffer⟩

theorem move (h : Inv s) (hi : -2 ^ 63 ≤ i ∧ i < 2 ^ 63) :
    Inv { s with stream := { s.stream with position := i } } :=
  ⟨hi, h.buffer⟩

theorem length_range (h : Inv s) : -1 ≤ s.stream.length ∧ s.stream.length < 2 ^ 63 := by
  rcases h.buffer with ⟨-, hpos, hnative⟩ | ⟨-, hlength⟩
  · have := hnative.lt
    omega
  · omega

theorem mapped (h : Inv s) (hin : InBuffer s.stream (a, n)) : s.memory.Mapped a n := by
  obtain ⟨hlo, hhi⟩ := hin
  dsimp only at hlo hhi
  rcases h.buffer with ⟨-, -, hnative⟩ | ⟨-, hlength⟩
  · exact hnative.mapped.sub hlo (by omega)
  · omega

theorem high (h : Inv s) : s.stream.buffer + s.stream.length ≤ 2 ^ 64 := by
  rcases h.buffer with ⟨-, -, hnative⟩ | ⟨hbuffer, hlength⟩
  · exact hnative.high
  · omega

/-- The places at a position are in the buffer when the position is. -/
theorem inBuffer_iff (h : Inv s) (hi : -2 ^ 63 ≤ i ∧ i < 2 ^ 63) (hn : 0 < n) :
    InBuffer s.stream (address s.stream.buffer i, n) ↔ 0 ≤ i ∧ i + n ≤ s.stream.length := by
  unfold InBuffer address
  dsimp only
  rcases h.buffer with ⟨hbuffer, hpos, hnative⟩ | ⟨hbuffer, hlength⟩
  · have := hnative.lt
    have := hnative.high
    omega
  · omega

theorem load_content (h : Inv s) :
    s.memory.load s.stream.buffer s.stream.length.toNat = some s.content := by
  have hload : ∃ bytes, s.memory.load s.stream.buffer s.stream.length.toNat = some bytes := by
    rcases h.buffer with ⟨-, -, hnative⟩ | ⟨-, hlength⟩
    · exact hnative.mapped.exists_load
    · rw [hlength]
      exact ⟨[], rfl⟩
  obtain ⟨bytes, hbytes⟩ := hload
  rw [ReadState.content, hbytes]
  rfl

theorem length_content (h : Inv s) : s.content.length = s.stream.length.toNat :=
  Memory.length_load h.load_content

/-- What is loaded at a position. -/
theorem load_at (h : Inv s) (hn : 0 < n) (hlo : 0 ≤ i) (hhi : i + n ≤ s.stream.length) :
    s.memory.load (address s.stream.buffer i) n = some (bytesAt s.content i n) := by
  have haddress : address s.stream.buffer i = s.stream.buffer + i.toNat := by
    unfold address
    rcases h.buffer with ⟨-, -, hnative⟩ | ⟨-, hlength⟩
    · have := hnative.high
      omega
    · omega
  rw [haddress, bytesAt, if_neg (by omega), Int.toNat_natCast]
  exact Memory.load_sub h.load_content (by omega)

/-- No bytes are behind the end, and none are asked for with a number that is not positive. -/
theorem bytesAt_eq_nil (h : Inv s) {count : ℤ} (hnil : i < 0 ∨ s.stream.length ≤ i ∨ count ≤ 0) :
    bytesAt s.content i count = [] := by
  rw [bytesAt]
  split_ifs with hneg
  · rfl
  · rw [List.take_eq_nil_iff, List.drop_eq_nil_iff, h.length_content]
    omega

theorem bytesAt_min (h : Inv s) (hlo : 0 ≤ i) (count : ℤ) :
    bytesAt s.content i (min count (s.stream.length - i)) = bytesAt s.content i count := by
  rw [bytesAt, bytesAt, if_neg (by omega), if_neg (by omega), List.take_eq_take_iff,
    List.length_drop, h.length_content]
  omega

theorem length_bytesAt (h : Inv s) {count : ℤ} (hlo : 0 ≤ i) (hhi : i < s.stream.length)
    (hcount : 0 < count) :
    ((bytesAt s.content i count).length : ℤ) = min count (s.stream.length - i) := by
  rw [bytesAt, if_neg (by omega), List.length_take, List.length_drop, h.length_content]
  omega

end Inv

/-! ### One load -/

theorem inBounds_of_nil {size : ℕ} (hloads : s.loads = []) (hstores : s.stores = []) :
    InBounds self size s := by
  rw [InBounds, hloads, hstores]
  exact ⟨nofun, nofun⟩

theorem fresh_inBounds {size : ℕ} : InBounds self size s.fresh := inBounds_of_nil rfl rfl

theorem leads_bind_pure {α β : Type} {x : ReadM α} {g : α → β} {P : ReadState → Prop} :
    Leads ((x >>= fun a => pure (g a)).run s) (fun _ => P) (fun _ => P) ↔
      Leads (x.run s) (fun _ => P) (fun _ => P) := by
  rw [EStateM.run_bind]
  cases x.run s with
  | ok a s' => exact Iff.rfl
  | error e s' => exact Iff.rfl

/-- A call that reads once reads in the buffer when the place is there. -/
theorem leads_load_iff {α : Type} {f : List UInt8 → ReadM α} {size : ℕ}
    (hs : s.loads = [] ∧ s.stores = []) (hf : ∀ bytes s', ∃ x s'', (f bytes).run s' = .ok x s'' ∧
      s''.loads = s'.loads ∧ s''.stores = s'.stores) :
    Leads ((load a n >>= f).run s) (fun _ => InBounds self size) (fun _ => InBounds self size) ↔
      InBuffer self (a, n) := by
  have hplace : ∀ s' : ReadState, s'.loads = s.loads ++ [(a, n)] → s'.stores = s.stores →
      (InBounds self size s' ↔ InBuffer self (a, n)) := by
    intro s' hloads hstores
    rw [InBounds, hloads, hstores, hs.1, hs.2]
    simp
  cases hload : s.memory.load a n with
  | none =>
    rw [run_bind_error (run_load_error hload)]
    exact hplace _ rfl rfl
  | some bytes =>
    rw [run_bind_ok (run_load hload)]
    obtain ⟨x, s'', hrun, hloads, hstores⟩ := hf bytes { s with loads := s.loads ++ [(a, n)] }
    rw [hrun]
    exact hplace s'' hloads hstores

theorem Inv.readByte_iff (h : Inv s) {size : ℕ} :
    Leads (readByte.run s.fresh) (fun _ => InBounds s.stream size)
      (fun _ => InBounds s.stream size) ↔
      0 ≤ s.stream.position ∨ s.stream.length ≤ s.stream.position := by
  simp only [readByte]
  rw [run_bind_ok (EStateM.run_get _)]
  by_cases hend : s.stream.position ≥ s.stream.length
  · rw [if_pos (by exact hend)]
    exact iff_of_true fresh_inBounds (.inr hend)
  · rw [if_neg (by exact hend), run_bind_ok (run_setPosition _)]
    refine Iff.trans (leads_load_iff ?_ ?_) ?_
    · exact ⟨rfl, rfl⟩
    · exact fun bytes s' => ⟨_, _, rfl, rfl, rfl⟩
    · refine (h.inBuffer_iff h.position Nat.one_pos).trans ?_
      omega

theorem Inv.readInt_iff (h : Inv s) {size k : ℕ} (hk : 0 < k ∧ k ≤ 8) (value : ℤ → ℤ) :
    Leads ((readInt k value).run s.fresh) (fun _ => InBounds s.stream size)
      (fun _ => InBounds s.stream size) ↔
      0 ≤ s.stream.position ∨ s.stream.length - k < s.stream.position := by
  have hrange := h.length_range
  have hint : int64 (s.stream.length - k) = s.stream.length - k :=
    int64_of_range (by omega) (by omega)
  simp only [readInt]
  rw [run_bind_ok (EStateM.run_get _)]
  by_cases hend : s.stream.position > int64 (s.stream.length - k)
  · rw [if_pos (by exact hend)]
    rw [hint] at hend
    exact iff_of_true fresh_inBounds (.inr hend)
  · rw [if_neg (by exact hend)]
    rw [hint] at hend
    refine Iff.trans (leads_load_iff ?_ ?_) ?_
    · exact ⟨rfl, rfl⟩
    · exact fun bytes s' => ⟨_, _, rfl, rfl, rfl⟩
    · refine (h.inBuffer_iff h.position hk.1).trans ?_
      omega

/-! ### `Read` -/

/-- The number of bytes that `Read` copies. -/
def toRead (self : ReadStream) (count : ℤ) : ℤ :=
  if int64 (self.length - self.position) < count then int32 (int64 (self.length - self.position))
    else count

theorem idle_iff {count : ℤ} : Idle self count ↔ toRead self count ≤ 0 := by
  rw [Idle, toRead]
  split_ifs <;> rfl

/-- Behind a position in the buffer, all bytes that are there are read. -/
theorem Inv.toRead_eq (h : Inv s) {count : ℤ} (hcount : count < 2 ^ 31)
    (hlo : 0 ≤ s.stream.position) (hhi : s.stream.position < s.stream.length) :
    toRead s.stream count = min count (s.stream.length - s.stream.position) := by
  have hrange := h.length_range
  have hint : int64 (s.stream.length - s.stream.position) = s.stream.length - s.stream.position :=
    int64_of_range (by omega) (by omega)
  rw [toRead, hint]
  split_ifs with hlt
  · rw [int32_of_range (by omega) (by omega)]
    omega
  · omega

theorem run_read_idle {count offset : ℤ} (h : Idle s.stream count) :
    (read dest offset count).run s = .ok (0, dest) s := by
  rw [idle_iff] at h
  simp only [read]
  rw [run_bind_ok (EStateM.run_get _), if_pos (by exact h)]
  rfl

theorem run_read {count offset : ℤ} (h : ¬ Idle s.stream count) :
    (read dest offset count).run s = (do
      let dest ← copyLoop dest (copyWords (toRead s.stream count).toNat)
        (address s.stream.buffer (int32 s.stream.position)) offset
      setPosition (int64 (s.stream.position + toRead s.stream count))
      return (toRead s.stream count, dest) : ReadM (ℤ × List UInt8)).run s := by
  rw [idle_iff] at h
  have hne : toRead s.stream count ≠ 0 := by omega
  simp only [read]
  rw [run_bind_ok (EStateM.run_get _), if_neg (by exact h), pinAndCopyMemory]
  rw [if_neg (by exact hne)]
  rfl

theorem splice_inj {more : List UInt8} (hlength : bytes.length = more.length)
    (h : splice dest index bytes = splice dest index more) : bytes = more := by
  rw [splice, splice, List.append_assoc, List.append_assoc] at h
  exact (List.append_inj (List.append_cancel_left h) hlength).1

theorem Inv.idle_bytesAt (h : Inv s) {count : ℤ} (hcount : count < 2 ^ 31)
    (hidle : Idle s.stream count) :
    bytesAt s.content s.stream.position count = [] := by
  by_contra hne
  have hin : 0 ≤ s.stream.position ∧ s.stream.position < s.stream.length ∧ 0 < count := by
    by_contra hout
    exact hne (h.bytesAt_eq_nil (by omega))
  rw [idle_iff, h.toRead_eq hcount hin.1 hin.2.1] at hidle
  omega

/-- Where the places of `Read` are in the buffer and in the array, so are its bytes. -/
theorem Inv.copy_bounds (h : Inv s) (hi : -2 ^ 63 ≤ i ∧ i < 2 ^ 63) {offset : ℤ} {c : ℕ}
    (hc : 0 < c)
    (hplaces : Leads ((copyLoop dest (copyWords c) (address s.stream.buffer i) offset).run s.fresh)
      (fun _ => InBounds s.stream dest.length) (fun _ => InBounds s.stream dest.length)) :
    (0 ≤ i ∧ i + c ≤ s.stream.length) ∧ InArray dest.length (offset, c) := by
  have hsum := copyWords_sum c
  have hbuffer : 0 < s.stream.buffer ∨ s.stream.length < 0 := by
    rcases h.buffer with ⟨hpos, -⟩ | ⟨-, hlength⟩
    · exact .inl hpos
    · exact .inr (by omega)
  have hmapped : ∀ a n, InBuffer s.stream (a, n) → s.fresh.memory.Mapped a n :=
    fun _ _ hin => h.mapped hin
  rcases copyLoop_bounds hmapped hbuffer h.high hplaces with hnil | ⟨hin, harray⟩
  · rw [hnil] at hsum
    exact absurd hsum hc.ne
  · rw [hsum] at hin harray
    exact ⟨(h.inBuffer_iff hi hc).1 hin, harray⟩

/-- Bytes that are in the buffer and in the array are copied. -/
theorem Inv.copy_ok (h : Inv s) {offset : ℤ} {c : ℕ} (hc : 0 < c) (hlo : 0 ≤ i)
    (hhi : i + c ≤ s.stream.length) (harray : InArray dest.length (offset, c)) :
    ∃ s', (copyLoop dest (copyWords c) (address s.stream.buffer i) offset).run s.fresh =
      .ok (splice dest offset (bytesAt s.content i c)) s' ∧ InBounds s.stream dest.length s' := by
  have hsum := copyWords_sum c
  have hlt := h.length_range.2
  have hin : InBuffer s.stream (address s.stream.buffer i, c) :=
    (h.inBuffer_iff (by omega) hc).2 ⟨hlo, hhi⟩
  have hload : s.fresh.memory.load (address s.stream.buffer i) (copyWords c).sum =
      some (bytesAt s.content i c) := by
    rw [hsum]
    exact h.load_at hc hlo hhi
  rw [← hsum] at hin harray
  obtain ⟨s', hrun, -, hbounds⟩ :=
    copyLoop_ok (fun _ => copyWords_pos) h.high hload (.inr ⟨hin, harray⟩)
  exact ⟨s', hrun, hbounds fresh_inBounds⟩

theorem Inv.right_read_of_idle (h : Inv s) {offset count : ℤ} (hcount : count < 2 ^ 31)
    (hidle : Idle s.stream count) :
    Right s (.read dest offset count) := by
  have hrun : (Call.read dest offset count).exec.run s.fresh = .ok (.read 0 dest) s.fresh :=
    run_bind_ok (run_read_idle (by exact hidle))
  rw [Right, hrun]
  refine ⟨fresh_inBounds, ?_⟩
  rw [Exact, h.idle_bytesAt hcount hidle, splice_nil]
  exact ⟨rfl, rfl⟩

/-- Where `Read` has something to do, it is right when the copy is. -/
theorem right_read_of_busy {offset count : ℤ} {c : ℕ} (hidle : ¬ Idle s.stream count)
    (hread : toRead s.stream count = c) :
    Right s (.read dest offset count) ↔
      Leads ((copyLoop dest (copyWords c) (address s.stream.buffer (int32 s.stream.position))
        offset).run s.fresh)
        (fun dest' s' => InBounds s.stream dest.length s' ∧
          (c : ℤ) = (bytesAt s.content s.stream.position count).length ∧
          dest' = splice dest offset (bytesAt s.content s.stream.position count))
        (fun _ => InBounds s.stream dest.length) := by
  have hrun : (read dest offset count).run s.fresh = (do
      let dest ← copyLoop dest (copyWords c)
        (address s.stream.buffer (int32 s.stream.position)) offset
      setPosition (int64 (s.stream.position + c))
      return ((c : ℤ), dest) : ReadM (ℤ × List UInt8)).run s.fresh := by
    rw [run_read (by exact hidle), show toRead s.fresh.stream count = c from hread]
    rfl
  have hexec : (Call.read dest offset count).exec = (do
      let r ← read dest offset count
      return .read r.1 r.2) := rfl
  rw [Right, hexec, EStateM.run_bind, hrun, EStateM.run_bind]
  cases (copyLoop dest (copyWords c) (address s.stream.buffer (int32 s.stream.position)) offset).run
      s.fresh with
  | ok dest' s' => exact Iff.rfl
  | error e s' => exact Iff.rfl

/-- `Read` is right when it has nothing to do or its bytes fit. -/
theorem Inv.right_read_iff (h : Inv s) {offset count : ℤ} (hcount : count < 2 ^ 31) :
    Right s (.read dest offset count) ↔ Idle s.stream count ∨ ReadFits s dest offset count := by
  by_cases hidle : Idle s.stream count
  · exact iff_of_true (h.right_read_of_idle hcount hidle) (.inl hidle)
  obtain ⟨c, hc, hread⟩ : ∃ c : ℕ, 0 < c ∧ toRead s.stream count = c := by
    rw [idle_iff] at hidle
    exact ⟨(toRead s.stream count).toNat, by omega, by omega⟩
  have hint := int32_range s.stream.position
  rw [or_iff_right hidle, right_read_of_busy hidle hread]
  constructor
  · intro hplaces
    obtain ⟨⟨hlo, hhi⟩, harray⟩ :=
      h.copy_bounds (by omega) hc (hplaces.mono (fun _ _ h => h.1) fun _ _ h => h)
    obtain ⟨s', hrun, -⟩ := h.copy_ok hc hlo hhi harray
    rw [hrun] at hplaces
    obtain ⟨-, hlength, hsplice⟩ := hplaces
    have hin : 0 ≤ s.stream.position ∧ s.stream.position < s.stream.length := by
      by_contra hout
      rw [h.bytesAt_eq_nil (by omega)] at hlength
      simp at hlength
      omega
    have hn := h.toRead_eq hcount hin.1 hin.2
    rw [hread] at hn
    have hbytes := splice_inj (by rw [Memory.length_load (h.load_at hc hlo hhi)]; omega) hsplice
    refine ⟨hin, ?_, hlo, ?_⟩
    · rw [← hn]
      exact harray
    · rw [← hn, hbytes, hn, h.bytesAt_min hin.1]
  · rintro ⟨hin, harray, hlo, hbytes⟩
    have hn := h.toRead_eq hcount hin.1 hin.2
    rw [hread] at hn
    rw [← hn] at harray hbytes
    have hle : int32 s.stream.position ≤ s.stream.position := by
      by_cases hlt : s.stream.position < 2 ^ 31
      · rw [int32_of_range (by omega) hlt]
      · omega
    obtain ⟨s', hrun, hbounds⟩ := h.copy_ok hc hlo (by omega) harray
    rw [hrun, hbytes, hn, h.bytesAt_min hin.1]
    have hpos : 0 < count := by omega
    exact ⟨hbounds, by rw [h.length_bytesAt hin.1 hin.2 hpos], rfl⟩

/-! ### The calls -/

/-- A load keeps what holds between the calls, and so does the rest of a call that only changes the
position. -/
theorem Inv.load_bind {α : Type} (h : Inv s) {f : List UInt8 → ReadM α}
    (hf : ∀ bytes s', Inv s' → Leads ((f bytes).run s') (fun _ => Inv) (fun _ => Inv)) :
    Leads ((load a n >>= f).run s) (fun _ => Inv) (fun _ => Inv) := by
  cases hload : s.memory.load a n with
  | none =>
    rw [run_bind_error (run_load_error hload)]
    exact h.of_extends (.load s _)
  | some bytes =>
    rw [run_bind_ok (run_load hload)]
    exact hf bytes _ (h.of_extends (.load s _))

theorem Inv.readByte (h : Inv s) : Leads (readByte.run s) (fun _ => Inv) (fun _ => Inv) := by
  simp only [ReadBounds.readByte]
  rw [run_bind_ok (EStateM.run_get _)]
  split_ifs
  · exact h
  · rw [run_bind_ok (run_setPosition _)]
    exact (h.move (int64_range _)).load_bind fun _ _ h => h

theorem Inv.readInt (h : Inv s) (k : ℕ) (value : ℤ → ℤ) :
    Leads ((readInt k value).run s) (fun _ => Inv) (fun _ => Inv) := by
  simp only [ReadBounds.readInt]
  rw [run_bind_ok (EStateM.run_get _)]
  split_ifs
  · exact h
  · exact h.load_bind fun _ _ h => h.move (int64_range _)

theorem Inv.read (h : Inv s) (offset count : ℤ) :
    Leads ((read dest offset count).run s) (fun _ => Inv) (fun _ => Inv) := by
  by_cases hidle : Idle s.stream count
  · rw [run_read_idle hidle]
    exact h
  · rw [run_read hidle]
    refine (copyLoop_extends.mono (fun _ _ => h.of_extends) fun _ _ => h.of_extends).bind
      fun _ _ h => ?_
    exact h.move (int64_range _)

/-- `Dispose` reads and writes nothing. -/
theorem run_dispose (m : Memory UInt8) : ∃ s', (dispose m).run s = .ok () s' ∧
    s'.stream = { s.stream with length := -1, buffer := 0 } ∧ s'.loads = s.loads ∧
      s'.stores = s.stores := by
  by_cases hlive : s.stream.buffer ≠ 0 ∧ s.stream.length > 0
  · refine ⟨{ s with
      stream := { s.stream with length := -1, buffer := 0 }, memory := m
      disposed := s.disposed ++ [(s.stream.buffer, int32 s.stream.length)] }, ?_, rfl, rfl, rfl⟩
    simp only [dispose]
    rw [run_bind_ok (EStateM.run_get _), if_pos hlive]
    rfl
  · refine ⟨{ s with stream := { s.stream with length := -1, buffer := 0 } }, ?_, rfl, rfl, rfl⟩
    simp only [dispose]
    rw [run_bind_ok (EStateM.run_get _), if_neg hlive]
    rfl

theorem Inv.dispose (h : Inv s) (m : Memory UInt8) :
    Leads ((dispose m).run s) (fun _ => Inv) (fun _ => Inv) := by
  obtain ⟨s', hrun, hstream, -⟩ := run_dispose (s := s) m
  rw [hrun]
  exact ⟨by rw [hstream]; exact h.position, .inr (by rw [hstream]; exact ⟨rfl, rfl⟩)⟩

theorem Inv.exec (h : Inv s) {call : Call} (hvalid : call.Valid) :
    Leads (call.exec.run s) (fun _ => Inv) (fun _ => Inv) := by
  cases call with
  | seek offset origin =>
    cases origin with
    | begin => exact h.move hvalid
    | current => exact h.move (int64_range _)
    | «end» => exact h.move (int64_range _)
    | other => exact h
  | position value => exact h.move hvalid
  | read dest offset count => exact leads_bind_pure.2 (h.read offset count)
  | readByte => exact leads_bind_pure.2 h.readByte
  | readInt32 => exact leads_bind_pure.2 (h.readInt 4 int32)
  | readInt64 => exact leads_bind_pure.2 (h.readInt 8 int64)
  | dispose m => exact leads_bind_pure.2 (h.dispose m)

/-- One call keeps what holds between the calls. -/
theorem Inv.step (h : Inv s) {call : Call} (hvalid : call.Valid) {r : ReadState × Option Answer}
    (hstep : step s call = .ok r) : Inv r.1 := by
  have hexec := h.fresh.exec hvalid
  rw [ReadBounds.step] at hstep
  split at hstep
  · next heq =>
    rw [heq] at hexec
    cases hstep
    exact hexec
  · next heq =>
    rw [heq] at hexec
    cases hstep
    exact hexec
  · cases hstep

/-- Where a call other than `Read` reads and writes. -/
theorem right_iff {call : Call} (hread : ∀ dest offset count, call ≠ .read dest offset count) :
    Right s call ↔
      Leads (call.exec.run s.fresh) (fun _ => InBounds s.stream call.size)
        (fun _ => InBounds s.stream call.size) := by
  have hexact : ∀ answer, Exact s.content s.stream.position call answer := by
    cases call with
    | read dest offset count => exact absurd rfl (hread dest offset count)
    | _ => exact fun _ => trivial
  rw [Right]
  cases call.exec.run s.fresh with
  | ok answer s' => exact and_iff_left (hexact answer)
  | error e s' => exact Iff.rfl

theorem Inv.right_iff_fine (h : Inv s) {call : Call} (hvalid : call.Valid) :
    Right s call ↔ Fine s call := by
  cases call with
  | seek offset origin =>
    refine iff_of_true ((right_iff (by nofun)).2 ?_) trivial
    cases origin with
    | begin => exact inBounds_of_nil rfl rfl
    | current => exact inBounds_of_nil rfl rfl
    | «end» => exact inBounds_of_nil rfl rfl
    | other => exact inBounds_of_nil rfl rfl
  | position value => exact iff_of_true ((right_iff (by nofun)).2 (inBounds_of_nil rfl rfl)) trivial
  | read dest offset count => exact h.right_read_iff hvalid.2.1.2
  | readByte => exact (right_iff (by nofun)).trans (leads_bind_pure.trans h.readByte_iff)
  | readInt32 =>
    exact (right_iff (by nofun)).trans (leads_bind_pure.trans (h.readInt_iff (by decide) int32))
  | readInt64 =>
    exact (right_iff (by nofun)).trans (leads_bind_pure.trans (h.readInt_iff (by decide) int64))
  | dispose m =>
    refine iff_of_true ((right_iff (by nofun)).2 (leads_bind_pure.2 ?_)) trivial
    obtain ⟨s', hrun, -, hloads, hstores⟩ := run_dispose (s := s.fresh) m
    rw [hrun]
    exact inBounds_of_nil hloads hstores

end Proofs

/-! ### When the calls do what they should -/

theorem inv_start {memory : Memory UInt8} {buffer : ℕ} {length : ℤ} {stream : ReadStream}
    (hstream : reinitialize buffer length = .ok stream) (hnative : Native memory buffer length) :
    Inv (.start memory stream) := by
  unfold reinitialize at hstream
  split_ifs at hstream with hbuffer hlength
  cases hstream
  have hzero : (-2 ^ 63 : ℤ) ≤ 0 ∧ (0 : ℤ) < 2 ^ 63 := by decide
  exact ⟨hzero, .inl ⟨Nat.pos_of_ne_zero hbuffer, not_le.1 hlength, hnative⟩⟩

/-- After any calls, a call reads within the buffer, writes within the array and returns what it
should if and only if its position is not before the buffer or it does not read there; `Read` needs
besides that its bytes fit in the array, and that its position is the same as an `int`. -/
theorem reads_right_iff {memory : Memory UInt8} {buffer : ℕ} {length : ℤ} {stream : ReadStream}
    (hstream : reinitialize buffer length = .ok stream) (hnative : Native memory buffer length)
    {calls : List Call} {s : ReadState} {call : Call}
    (h : Trace step (fun _ call => call.Valid) (.start memory stream) calls s)
    (hcall : call.Valid) : Right s call ↔ Fine s call := by
  have hinv : Inv s := by
    refine h.invariant (I := fun _ s => Inv s)
      (inv_start hstream hnative) fun _ _ _ _ _ hinv hvalid hstep => ?_
    exact hinv.step hvalid hstep
  exact hinv.right_iff_fine hcall

/-- Five bytes. -/
def fiveBytes : Memory UInt8 :=
  fun a => if 2 ^ 16 ≤ a ∧ a < 2 ^ 16 + 5 then some (UInt8.ofNat (a - 2 ^ 16)) else none

theorem fiveBytes_native : Native fiveBytes (2 ^ 16) 5 := by
  refine ⟨by decide, by decide, fun i hi => ?_⟩
  rw [fiveBytes, if_pos ⟨by omega, by omega⟩]
  rfl

/-- Three bytes are read from the second one on. -/
theorem reads_right_iff_second : ∃ s, Native fiveBytes (2 ^ 16) 5 ∧
    Trace step (fun _ call => call.Valid) (.start fiveBytes ⟨2 ^ 16, 5, 0⟩) [.seek 1 .current] s ∧
    (Call.read [0, 0, 0, 0] 1 3).Valid ∧
      (Right s (.read [0, 0, 0, 0] 1 3) ↔ Fine s (.read [0, 0, 0, 0] 1 3)) := by
  have hvalid : (Call.read [0, 0, 0, 0] 1 3).Valid := ⟨by decide, by decide, by decide⟩
  have hrun : Trace step (fun _ call => call.Valid) (.start fiveBytes ⟨2 ^ 16, 5, 0⟩)
      [.seek 1 .current] _ :=
    .snoc .nil ⟨by decide, by decide⟩ rfl
  exact ⟨_, fiveBytes_native, hrun, hvalid, reads_right_iff rfl fiveBytes_native hrun hvalid⟩

/-- A byte before the buffer is read, and bytes are written behind an array. -/
theorem reads_outside :
    (∃ s, Trace step (fun _ call => call.Valid) (.start fiveBytes ⟨2 ^ 16, 5, 0⟩)
      [.position (-1)] s ∧ ¬ Right s .readByte) ∧
    (Call.read [0] 0 3).Valid ∧ ¬ Right (.start fiveBytes ⟨2 ^ 16, 5, 0⟩) (.read [0] 0 3) := by
  have hinv : Inv (.start fiveBytes ⟨2 ^ 16, 5, 0⟩) := inv_start rfl fiveBytes_native
  have hread : (Call.read [0] 0 3).Valid := ⟨by decide, by decide, by decide⟩
  have hmoved : Inv { ReadState.start fiveBytes ⟨2 ^ 16, 5, 0⟩ with stream := ⟨2 ^ 16, 5, -1⟩ } :=
    hinv.move ⟨by decide, by decide⟩
  refine ⟨⟨_, .snoc .nil ⟨by decide, by decide⟩ rfl, fun hright => ?_⟩, hread, fun hright => ?_⟩
  · rcases (hmoved.right_iff_fine (by trivial)).1 hright with hlo | hhi
    · exact absurd hlo (by decide)
    · exact absurd hhi (by decide)
  · rcases (hinv.right_iff_fine hread).1 hright with hidle | ⟨-, ⟨-, hfits⟩, -⟩
    · rw [idle_iff, hinv.toRead_eq hread.2.1.2 (by decide) (by decide)] at hidle
      exact absurd hidle (by decide)
    · exact absurd hfits (by decide)

end NanoSocket.ReadBounds

import NanoSocket.Core.Chunkref
import NanoSocket.Lib.Memory

/-!
# Scatter and gather (`core/global.c`)

`nn_sendmsg` gathers the entries of an iovec array into the body of a message, and `nn_recvmsg`
scatters a body over such an array.  An entry is a buffer of the user: an address, 0 for NULL, and a
length; the length `NN_MSG` says that there is a pointer to a chunk instead.

`entryAddresses` are the addresses of the entries one after another.  Scattering stores the bytes of
the body at them (`scatter_eq_iff`), unless a byte would go to NULL.
-/

namespace NanoSocket.Core

open Slice

/-- `NN_MSG`. -/
def nnMsg : UInt64 := 0xffffffffffffffff

/-- `struct nn_iovec`. -/
structure NnIovec where
  iovBase : ℕ
  iovLen : UInt64
  deriving DecidableEq, Repr

/-- The error codes of `nn_sendmsg` and `nn_recvmsg`: their own and those of the functions that they
call. -/
inductive MsgErrno
  | einval
  | emsgsize
  | efault
  | eterm
  | ebadf
  | enotsup
  | eagain
  | etimedout
  | eintr
  | efsm
  deriving DecidableEq, Repr

/-- The bytes that `memcpy` reads from a buffer of the user. -/
def loadUser (mem : Memory UInt8) (base n : ℕ) : Except Fault (List UInt8) :=
  match mem.load base n with
  | none => .error (if base = 0 then .nullDeref else .outOfBounds)
  | some bytes => .ok bytes

/-- The memory after `memcpy` to a buffer of the user. -/
def storeUser (mem : Memory UInt8) (base : ℕ) (bytes : List UInt8) : Except Fault (Memory UInt8) :=
  match mem.store base bytes with
  | none => .error (if base = 0 then .nullDeref else .outOfBounds)
  | some mem => .ok mem

/-- The first loop of `nn_sendmsg`: the total size of the message. -/
def gatherSize : List NnIovec → UInt64 → Except MsgErrno UInt64
  | [], sz => .ok sz
  | iov :: rest, sz =>
    if iov.iovLen = nnMsg then .error .einval
    else if iov.iovBase = 0 ∧ iov.iovLen ≠ 0 then .error .efault
    else if sz + iov.iovLen < sz then .error .einval
    else gatherSize rest (sz + iov.iovLen)

/-- The second loop of `nn_sendmsg`: the entries are copied to the body. -/
def gatherCopy (mem : Memory UInt8) :
    List NnIovec → ℕ → Chunkref → ChunkHeap → Except Fault (Chunkref × ChunkHeap)
  | [], _, body, heap => .ok (body, heap)
  | iov :: rest, sz, body, heap => do
    let bytes ← loadUser mem iov.iovBase iov.iovLen.toNat
    let (body, heap) ← chunkrefWrite body heap sz bytes
    gatherCopy mem rest (sz + iov.iovLen.toNat) body heap

/-- The loop of `nn_recvmsg`: what is left of the body is copied to the entries. -/
def scatter :
    List NnIovec → List UInt8 → Memory UInt8 → Except Fault (Except MsgErrno (Memory UInt8))
  | [], _, mem => .ok (.ok mem)
  | iov :: rest, data, mem =>
    if iov.iovLen = nnMsg then .ok (.error .einval)
    else if iov.iovLen.toNat > data.length then return .ok (← storeUser mem iov.iovBase data)
    else do
      let mem ← storeUser mem iov.iovBase (data.take iov.iovLen.toNat)
      scatter rest (data.drop iov.iovLen.toNat) mem

/-- A conversion to `int`. -/
def toInt (sz : ℕ) : ℤ := (Int32.ofNat sz).toInt

/-- The part of `nn_recvmsg` that gives the body to the user, and `return (int) sz`. -/
def recvBody (iovs : List NnIovec) (body : List UInt8) (mem : Memory UInt8) :
    Except Fault (Except MsgErrno (ℤ × Memory UInt8)) := do
  match ← scatter iovs body mem with
  | .error e => return .error e
  | .ok mem => return .ok (toInt body.length, mem)

/-! ### Scattering -/

/-- The addresses of an array of entries, one entry after another. -/
def entryAddresses (iovs : List NnIovec) : List ℕ :=
  iovs.flatMap fun iov => (List.range iov.iovLen.toNat).map (iov.iovBase + ·)

/-- Single bytes are stored, one after another. -/
def poke (mem : Memory UInt8) (cells : List (ℕ × UInt8)) : Memory UInt8 :=
  cells.foldl (fun mem cell => mem.write cell.1 [cell.2]) mem

/-- The buffers of the user: all entries but those with a NULL base are mapped, and NULL is not. -/
def Buffers (mem : Memory UInt8) (iovs : List NnIovec) : Prop :=
  mem 0 = none ∧ ∀ iov ∈ iovs, iov.iovLen ≠ nnMsg ∧
    (iov.iovBase ≠ 0 → mem.Mapped iov.iovBase iov.iovLen.toNat)

/-- No byte of the body goes to an entry with a NULL base: such an entry is empty, or the body ends
in front of it. -/
def NoByteToNull (iovs : List NnIovec) (body : List UInt8) : Prop :=
  ∀ before iov after, iovs = before ++ iov :: after → iov.iovBase = 0 →
    iov.iovLen = 0 ∨ body.length ≤ (entryAddresses before).length

theorem poke_append (mem : Memory UInt8) (cells cells' : List (ℕ × UInt8)) :
    poke mem (cells ++ cells') = poke (poke mem cells) cells' := List.foldl_append

theorem write_eq_poke (mem : Memory UInt8) (base : ℕ) (bytes : List UInt8) :
    mem.write base bytes = poke mem (((List.range bytes.length).map (base + ·)).zip bytes) := by
  induction bytes using List.reverseRecOn with
  | nil => exact Memory.write_nil mem base
  | append_singleton bytes b ih =>
    rw [← Memory.write_write, ih, List.length_append, List.length_singleton, List.range_succ,
      List.map_append, List.zip_append (by simp), poke_append]
    rfl

/-- What is behind the end of the shorter list does not matter. -/
theorem zip_append_of_le {α β : Type} {l l' : List α} {d : List β} (h : d.length ≤ l.length) :
    (l ++ l').zip d = l.zip d := by
  induction l generalizing d with
  | nil =>
    obtain rfl := List.length_eq_zero_iff.1 (Nat.le_zero.1 h)
    simp
  | cons a l ih =>
    cases d with
    | nil => simp
    | cons b d =>
      rw [List.cons_append, List.zip_cons_cons, List.zip_cons_cons, ih (Nat.le_of_succ_le_succ h)]

theorem entryAddresses_cons (iov : NnIovec) (rest : List NnIovec) :
    entryAddresses (iov :: rest) = (List.range iov.iovLen.toNat).map (iov.iovBase + ·) ++
      entryAddresses rest :=
  List.flatMap_cons

/-- A body that the first entry takes, or more than that. -/
theorem poke_cons_of_le {iov : NnIovec} {rest : List NnIovec} {data : List UInt8}
    (mem : Memory UInt8) (h : iov.iovLen.toNat ≤ data.length) :
    poke mem ((entryAddresses (iov :: rest)).zip data) =
      poke (mem.write iov.iovBase (data.take iov.iovLen.toNat))
        ((entryAddresses rest).zip (data.drop iov.iovLen.toNat)) := by
  have htake : (data.take iov.iovLen.toNat).length = iov.iovLen.toNat := by
    rw [List.length_take]
    omega
  rw [write_eq_poke,
    htake, ← poke_append, ← List.zip_append (by rw [List.length_map, List.length_range, htake]),
    List.take_append_drop, entryAddresses_cons]

theorem poke_cons_of_lt {iov : NnIovec} {rest : List NnIovec} {data : List UInt8}
    (mem : Memory UInt8) (h : data.length < iov.iovLen.toNat) :
    poke mem ((entryAddresses (iov :: rest)).zip data) = mem.write iov.iovBase data := by
  obtain ⟨k, hk⟩ := Nat.exists_eq_add_of_le h.le
  rw [write_eq_poke, entryAddresses_cons, hk, List.range_add, List.map_append, List.append_assoc,
    zip_append_of_le]
  simp

/-- Storing at a buffer of the user, or at NULL. -/
theorem storeUser_of_buffer {mem : Memory UInt8} {base n : ℕ} {bytes : List UInt8}
    (hmapped : base ≠ 0 → mem.Mapped base n) (hlen : bytes.length ≤ n)
    (hnull : base = 0 → bytes = []) :
    storeUser mem base bytes = .ok (mem.write base bytes) := by
  have hfits : mem.Mapped base bytes.length := by
    by_cases hbase : base = 0
    · rw [hnull hbase]
      exact fun i hi => nomatch hi
    · exact (hmapped hbase).sub (le_refl _) (by omega)
  rw [storeUser, Memory.store_of_mapped hfits]

theorem storeUser_null {mem : Memory UInt8} {bytes : List UInt8} (h0 : mem 0 = none)
    (hne : bytes ≠ []) :
    storeUser mem 0 bytes = .error .nullDeref := by
  rw [storeUser, Memory.store_eq_none h0 hne]
  rfl

theorem Buffers.write {mem : Memory UInt8} {iov : NnIovec} {rest : List NnIovec}
    {bytes : List UInt8} (h : Buffers mem (iov :: rest)) (hlen : bytes.length ≤ iov.iovLen.toNat)
    (hnull : iov.iovBase = 0 → bytes = []) :
    Buffers (mem.write iov.iovBase bytes) rest := by
  obtain ⟨h0, hiovs⟩ := h
  have hsome : ∀ x, (mem.write iov.iovBase bytes x).isSome = (mem x).isSome := by
    intro x
    by_cases hbase : iov.iovBase = 0
    · rw [hnull hbase, Memory.write_nil]
    · exact Memory.isSome_write x
        (((hiovs iov List.mem_cons_self).2 hbase).sub (le_refl _) (by omega))
  exact ⟨Memory.eq_none_of_isSome (hsome 0) h0, fun iov' hiov' =>
    ⟨(hiovs iov' (List.mem_cons_of_mem _ hiov')).1, fun hbase =>
      ((hiovs iov' (List.mem_cons_of_mem _ hiov')).2 hbase).congr hsome⟩⟩

theorem noByteToNull_cons {iov : NnIovec} {rest : List NnIovec} {body : List UInt8} :
    NoByteToNull (iov :: rest) body ↔
      (iov.iovBase = 0 → iov.iovLen = 0 ∨ body = []) ∧
        NoByteToNull rest (body.drop iov.iovLen.toNat) := by
  have hlength : ∀ before, (entryAddresses (iov :: before)).length =
      iov.iovLen.toNat + (entryAddresses before).length := by
    intro before
    rw [entryAddresses_cons, List.length_append, List.length_map, List.length_range]
  constructor
  · intro h
    refine ⟨fun hbase => ?_, fun before iov' after hrest hbase => ?_⟩
    · rcases h [] iov rest rfl hbase with hempty | hend
      · exact Or.inl hempty
      · exact Or.inr (List.length_eq_zero_iff.1 (Nat.le_zero.1 hend))
    · rcases h (iov :: before) iov' after (by rw [hrest]; rfl) hbase with hempty | hend
      · exact Or.inl hempty
      · rw [hlength] at hend
        rw [List.length_drop]
        exact Or.inr (by omega)
  · rintro ⟨hfirst, hrest⟩ before iov' after heq hbase
    cases before with
    | nil =>
      cases heq
      rcases hfirst hbase with hempty | hnil
      · exact Or.inl hempty
      · exact Or.inr (by simp [hnil])
    | cons iov'' before =>
      cases heq
      rcases hrest before iov' after rfl hbase with hempty | hend
      · exact Or.inl hempty
      · rw [List.length_drop] at hend
        rw [hlength]
        exact Or.inr (by omega)

/-- Scattering stores the bytes of the body at the addresses of the entries, and nothing else,
unless a byte goes to NULL: then the process dies. -/
theorem scatter_eq_iff {iovs : List NnIovec} {data : List UInt8} {mem : Memory UInt8}
    (h : Buffers mem iovs) :
    scatter iovs data mem = .ok (.ok (poke mem ((entryAddresses iovs).zip data))) ↔
      NoByteToNull iovs data := by
  induction iovs generalizing data mem with
  | nil =>
    refine iff_of_true rfl ?_
    rintro before iov after heq
    simp at heq
  | cons iov rest ih =>
    obtain ⟨hnotMsg, hmapped⟩ := h.2 iov List.mem_cons_self
    rw [scatter, if_neg hnotMsg, noByteToNull_cons]
    by_cases hnull : iov.iovBase = 0 → iov.iovLen = 0 ∨ data = []
    · by_cases hlt : iov.iovLen.toNat > data.length
      · have hnone : iov.iovBase = 0 → data = [] := by
          intro hbase
          rcases hnull hbase with hzero | hnil
          · rw [hzero] at hlt
            exact absurd hlt (Nat.not_lt_zero _)
          · exact hnil
        rw [if_pos hlt, storeUser_of_buffer hmapped hlt.le hnone, poke_cons_of_lt mem hlt]
        refine iff_of_true rfl ⟨hnull, ?_⟩
        rw [List.drop_eq_nil_of_le hlt.le]
        exact fun _ _ _ _ _ => Or.inr (Nat.zero_le _)
      · have hle := not_lt.1 hlt
        have hnone : iov.iovBase = 0 → data.take iov.iovLen.toNat = [] := by
          intro hbase
          rcases hnull hbase with hzero | hnil
          · rw [hzero]
            rfl
          · rw [hnil, List.take_nil]
        have htake : (data.take iov.iovLen.toNat).length ≤ iov.iovLen.toNat :=
          List.length_take_le ..
        rw [if_neg hlt, storeUser_of_buffer hmapped htake hnone, ok_bind, poke_cons_of_le mem hle,
          ih (h.write htake hnone)]
        exact ⟨fun hrest => ⟨hnull, hrest⟩, And.right⟩
    · refine iff_of_false (fun heq => ?_) fun hand => hnull hand.1
      push Not at hnull
      obtain ⟨hbase, hlen, hne⟩ := hnull
      split_ifs at heq with hlt
      · rw [hbase, storeUser_null h.1 hne] at heq
        cases heq
      · have htake : data.take iov.iovLen.toNat ≠ [] := by
          rw [Ne, List.take_eq_nil_iff]
          rintro (hzero | hnil)
          · exact hlen (UInt64.toNat_inj.1 hzero)
          · exact hne hnil
        rw [hbase, storeUser_null h.1 htake] at heq
        cases heq

theorem toInt_eq_iff {n : ℕ} : toInt n = n ↔ n < 2 ^ 31 := by
  have hsize : Int32.size = 2 ^ 32 := rfl
  rw [toInt, Int32.toInt_ofNat', hsize]
  constructor
  · intro h
    have hlt := Int.bmod_lt (x := (n : ℤ)) (m := 2 ^ 32) (by norm_num)
    rw [h] at hlt
    omega
  · intro h
    rw [Int.bmod_eq_of_le (by omega) (by omega)]

/-- A caller that looks for a negative number takes a size for an error, and not only the sizes
above `INT_MAX`. -/
theorem toInt_nonneg_iff {n : ℕ} : 0 ≤ toInt n ↔ n % 2 ^ 32 < 2 ^ 31 := by
  have hsize : Int32.size = 2 ^ 32 := rfl
  rw [toInt, Int32.toInt_ofNat', hsize, Int.bmod_def]
  split_ifs
  all_goals omega

/-- The body is scattered and its size returned, unless a byte goes to NULL or the size is no
`int`. -/
theorem recvBody_eq_iff {iovs : List NnIovec} {body : List UInt8} {mem : Memory UInt8}
    (h : Buffers mem iovs) :
    recvBody iovs body mem = .ok (.ok (body.length, poke mem ((entryAddresses iovs).zip body))) ↔
      NoByteToNull iovs body ∧ body.length < 2 ^ 31 := by
  rw [← scatter_eq_iff h, ← toInt_eq_iff, recvBody]
  cases scatter iovs body mem with
  | error e => exact iff_of_false nofun fun hand => nomatch hand.1
  | ok r =>
    rw [ok_bind]
    cases r with
    | error e => exact iff_of_false nofun fun hand => nomatch hand.1
    | ok mem' =>
      simp only [pure_eq_ok, Except.ok.injEq, Prod.mk.injEq]
      exact And.comm

end NanoSocket.Core

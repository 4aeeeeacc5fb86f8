import NanoSocket.Core.Fault

/-!
# The hash table (`utils/hash.c`)

A table from 32-bit keys to items: an array of lists, doubled when the items fill half of it.  An
item carries its key, so the lists hold pairs here.

`Hash.Wf` says that every item is in the list that its key is looked up in, once.  The
specifications of the operations are equations for `nnHashGet`: the table is a finite map, whatever
its array looks like.
-/

namespace NanoSocket

variable {α : Type}

/-- `struct nn_hash`. -/
structure Hash (α : Type) where
  slots : UInt32
  items : UInt32
  array : UInt32 → List (UInt32 × α)

/-- `nn_hash_init`. -/
def nnHashInit : Hash α := { slots := 32, items := 0, array := fun _ => [] }

/-- `nn_hash_key`. -/
def nnHashKey (key : UInt32) : UInt32 :=
  let key : UInt32 := (key ^^^ (61 : UInt32)) ^^^ (key >>> 16)
  let key : UInt32 := key + (key <<< 3)
  let key : UInt32 := key ^^^ (key >>> 4)
  let key : UInt32 := key * 0x27d4eb2d
  key ^^^ (key >>> 15)

/-- The slot of a key. -/
def Hash.slot (self : Hash α) (key : UInt32) : UInt32 := nnHashKey key % self.slots

/-- Move an item to the end of its list in the new array. -/
def Hash.move (slots : UInt32) (array : UInt32 → List (UInt32 × α)) (it : UInt32 × α) :
    UInt32 → List (UInt32 × α) :=
  Function.update array (nnHashKey it.1 % slots) (array (nnHashKey it.1 % slots) ++ [it])

/-- The items of all lists, slot after slot. -/
def Hash.toList (self : Hash α) : List (UInt32 × α) :=
  (List.range self.slots.toNat).flatMap fun i => self.array (.ofNat i)

/-- `nn_hash_rehash`. -/
def nnHashRehash (self : Hash α) : Hash α :=
  { self with
    slots := self.slots * 2
    array := self.toList.foldl (Hash.move (self.slots * 2)) fun _ => [] }

/-- Replace the list of a slot. -/
def Hash.setSlot (self : Hash α) (i : UInt32) (l : List (UInt32 × α)) (items : UInt32) : Hash α :=
  { self with array := Function.update self.array i l, items := items }

/-- `nn_hash_insert`. -/
def nnHashInsert (self : Hash α) (key : UInt32) (item : α) : Except Fault (Hash α) := do
  let i := self.slot key
  nnAssert (∀ it ∈ self.array i, it.1 ≠ key)
  let self := self.setSlot i (self.array i ++ [(key, item)]) (self.items + 1)
  -- if the hash is getting full, double the amount of slots
  if self.items * 2 > self.slots ∧ self.slots < 0x80000000 then return nnHashRehash self
  return self

/-- `nn_hash_erase`. -/
def nnHashErase [DecidableEq α] (self : Hash α) (key : UInt32) (item : α) :
    Except Fault (Hash α) := do
  let i := self.slot key
  nnAssert ((key, item) ∈ self.array i)
  return self.setSlot i ((self.array i).erase (key, item)) (self.items - 1)

/-- `nn_hash_get`. -/
def nnHashGet (self : Hash α) (key : UInt32) : Option α :=
  ((self.array (self.slot key)).find? fun it => it.1 = key).map Prod.snd

@[simp] theorem Hash.slot_setSlot (h : Hash α) (i : UInt32) (l : List (UInt32 × α)) (n k : UInt32) :
    (h.setSlot i l n).slot k = h.slot k := rfl

@[simp] theorem Hash.array_setSlot (h : Hash α) (i : UInt32) (l : List (UInt32 × α)) (n : UInt32) :
    (h.setSlot i l n).array = Function.update h.array i l := rfl

@[simp] theorem Hash.slots_setSlot (h : Hash α) (i : UInt32) (l : List (UInt32 × α)) (n : UInt32) :
    (h.setSlot i l n).slots = h.slots := rfl

/-! ### The table as a map -/

/-- Every item is in the list of its key, and no key is there twice. -/
structure Hash.Wf (h : Hash α) : Prop where
  slot : ∀ i, ∀ it ∈ h.array i, h.slot it.1 = i
  nodup : ∀ i, ((h.array i).map Prod.fst).Nodup

theorem nnHashInit_wf : (nnHashInit : Hash α).Wf :=
  ⟨fun _ _ h => (nomatch h), fun _ => List.nodup_nil⟩

theorem nnHashGet_init (k : UInt32) : nnHashGet (nnHashInit : Hash α) k = none := rfl

theorem find?_fst_eq_some {l : List (UInt32 × α)} (hn : (l.map Prod.fst).Nodup)
    {k : UInt32} {a : α} :
    (l.find? fun it => it.1 = k) = some (k, a) ↔ (k, a) ∈ l := by
  induction l with
  | nil => simp
  | cons b l ih =>
    obtain ⟨k', a'⟩ := b
    rw [List.map_cons, List.nodup_cons] at hn
    by_cases hk : k' = k
    · subst hk
      have hnot : (k', a) ∉ l := fun h => hn.1 (List.mem_map.2 ⟨_, h, rfl⟩)
      simp [hnot, eq_comm]
    · simp [hk, ih hn.2, Ne.symm hk]

theorem Hash.Wf.get_eq_some_iff {h : Hash α} (hw : h.Wf) {k : UInt32} {a : α} :
    nnHashGet h k = some a ↔ (k, a) ∈ h.array (h.slot k) := by
  rw [nnHashGet, Option.map_eq_some_iff, ← find?_fst_eq_some (hw.nodup _)]
  constructor
  · rintro ⟨⟨k', a'⟩, hf, rfl⟩
    have hk : k' = k := by simpa using List.find?_some hf
    rw [hf, hk]
  · exact fun hf => ⟨_, hf, rfl⟩

/-- Where a table has its items decides what it maps. -/
theorem Hash.Wf.get_congr {h h' : Hash α} (hw : h.Wf) (hw' : h'.Wf) {k : UInt32}
    (hm : ∀ a, (k, a) ∈ h.array (h.slot k) ↔ (k, a) ∈ h'.array (h'.slot k)) :
    nnHashGet h k = nnHashGet h' k := by
  apply Option.ext
  intro a
  rw [hw.get_eq_some_iff, hw'.get_eq_some_iff]
  exact hm a

theorem Hash.Wf.get_eq_none_iff {h : Hash α} (hw : h.Wf) {k : UInt32} :
    nnHashGet h k = none ↔ ∀ it ∈ h.array (h.slot k), it.1 ≠ k := by
  constructor
  · rintro hnone ⟨k', a⟩ hit rfl
    rw [hw.get_eq_some_iff.2 hit] at hnone
    cases hnone
  · intro hne
    rw [nnHashGet, Option.map_eq_none_iff, List.find?_eq_none]
    simpa using hne

theorem foldl_move (slots : UInt32) (l : List (UInt32 × α)) (array : UInt32 → List (UInt32 × α))
    (i : UInt32) :
    l.foldl (Hash.move slots) array i = array i ++ l.filter fun it =>
      nnHashKey it.1 % slots = i := by
  induction l generalizing array with
  | nil => simp
  | cons it l ih =>
    rw [List.foldl_cons, ih, Hash.move]
    by_cases hi : nnHashKey it.1 % slots = i
    · subst hi
      simp
    · simp [hi, Function.update_of_ne (Ne.symm hi)]

theorem Hash.Wf.mem_toList {h : Hash α} (hw : h.Wf) (hpos : 0 < h.slots) {it : UInt32 × α} :
    it ∈ h.toList ↔ it ∈ h.array (h.slot it.1) := by
  rw [Hash.toList, List.mem_flatMap]
  constructor
  · rintro ⟨i, -, hi⟩
    rwa [hw.slot _ it hi]
  · intro hit
    have hlt : h.slot it.1 < h.slots := UInt32.mod_lt _ hpos
    exact ⟨(h.slot it.1).toNat, by simpa using UInt32.lt_iff_toNat_lt.1 hlt, by simpa using hit⟩

theorem Hash.Wf.nodup_toList {h : Hash α} (hw : h.Wf) : (h.toList.map Prod.fst).Nodup := by
  rw [Hash.toList, List.map_flatMap, List.nodup_flatMap]
  refine ⟨fun i _ => hw.nodup _, ?_⟩
  refine List.Pairwise.imp_of_mem ?_ (List.pairwise_lt_range (n := h.slots.toNat))
  intro i j hi hj hij
  rw [List.mem_range] at hi hj
  have hs := UInt32.toNat_lt h.slots
  rw [Function.onFun, List.disjoint_left]
  intro k hki hkj
  obtain ⟨it, hit, rfl⟩ := List.mem_map.1 hki
  obtain ⟨it', hit', heq⟩ := List.mem_map.1 hkj
  have hslot : UInt32.ofNat i = UInt32.ofNat j := by
    rw [← hw.slot _ it hit, ← hw.slot _ it' hit', heq]
  have := congrArg UInt32.toNat hslot
  rw [UInt32.toNat_ofNat', UInt32.toNat_ofNat', Nat.mod_eq_of_lt (by omega),
    Nat.mod_eq_of_lt (by omega)]
    at this
  omega

/-- Rehashing moves the items and changes nothing else. -/
theorem nnHashRehash_spec {h : Hash α} (hw : h.Wf) (hpos : 0 < h.slots) :
    (nnHashRehash h).Wf ∧ ∀ k, nnHashGet (nnHashRehash h) k = nnHashGet h k := by
  have harray : ∀ i, (nnHashRehash h).array i =
      h.toList.filter fun it => nnHashKey it.1 % (h.slots * 2) = i := by
    intro i
    exact (foldl_move _ _ _ i).trans (List.nil_append _)
  have hwf : (nnHashRehash h).Wf := by
    refine ⟨fun i it hit => ?_, fun i => ?_⟩
    · rw [harray, List.mem_filter] at hit
      exact of_decide_eq_true hit.2
    · rw [harray]
      exact hw.nodup_toList.sublist (List.filter_sublist.map _)
  refine ⟨hwf, fun k => hwf.get_congr hw fun a => ?_⟩
  rw [harray, List.mem_filter, hw.mem_toList hpos]
  simp [Hash.slot, nnHashRehash]

theorem Hash.Wf.setSlot {h : Hash α} (hw : h.Wf) {i : UInt32} {l : List (UInt32 × α)}
    (hslot : ∀ it ∈ l, h.slot it.1 = i) (hnodup : (l.map Prod.fst).Nodup) (n : UInt32) :
    (h.setSlot i l n).Wf := by
  refine ⟨fun j it hit => ?_, fun j => ?_⟩
  · by_cases hj : j = i
    · subst hj
      rw [Hash.array_setSlot, Function.update_self] at hit
      exact hslot it hit
    · rw [Hash.array_setSlot, Function.update_of_ne hj] at hit
      exact hw.slot j it hit
  · by_cases hj : j = i
    · subst hj
      rwa [Hash.array_setSlot, Function.update_self]
    · rw [Hash.array_setSlot, Function.update_of_ne hj]
      exact hw.nodup j

/-- A key other than those that enter or leave the list is mapped as before. -/
theorem Hash.Wf.get_setSlot {h : Hash α} (hw : h.Wf) {i : UInt32} {l : List (UInt32 × α)}
    {n k : UInt32} (hw' : (h.setSlot i l n).Wf) (hk : ∀ a, (k, a) ∈ l ↔ (k, a) ∈ h.array i) :
    nnHashGet (h.setSlot i l n) k = nnHashGet h k := by
  refine hw'.get_congr hw fun a => ?_
  rw [Hash.slot_setSlot, Hash.array_setSlot]
  by_cases hs : h.slot k = i
  · rw [hs, Function.update_self, hk]
  · rw [Function.update_of_ne hs]

/-- A table whose array can be indexed. -/
structure Hash.Good (h : Hash α) : Prop extends h.Wf where
  pos : 0 < h.slots

theorem nnHashInit_good : (nnHashInit : Hash α).Good := ⟨nnHashInit_wf, by simp [nnHashInit]⟩

/-- The array may be doubled as long as its size fits into 32 bits. -/
theorem nnHashRehash_good {h : Hash α} (hg : h.Good) (hlt : h.slots < 0x80000000) :
    (nnHashRehash h).Good ∧ nnHashGet (nnHashRehash h) = nnHashGet h := by
  obtain ⟨hwf, hget⟩ := nnHashRehash_spec hg.toWf hg.pos
  refine ⟨⟨hwf, ?_⟩, funext hget⟩
  have hpos := UInt32.lt_iff_toNat_lt.1 hg.pos
  have hlt' := UInt32.lt_iff_toNat_lt.1 hlt
  have h2 : (2 : UInt32).toNat = 2 := rfl
  have h3 : (0x80000000 : UInt32).toNat = 2147483648 := rfl
  rw [UInt32.toNat_zero] at hpos
  rw [h3] at hlt'
  rw [UInt32.lt_iff_toNat_lt, nnHashRehash, UInt32.toNat_mul, h2, UInt32.toNat_zero]
  omega

/-- Inserting a key that the table has aborts. -/
theorem nnHashInsert_of_some {h : Hash α} (hg : h.Good) {k : UInt32}
    (hk : nnHashGet h k ≠ none) (a : α) :
    nnHashInsert h k a = .error .assertFailed := by
  rw [nnHashInsert, nnAssert_of_not fun hne => hk (hg.get_eq_none_iff.2 hne)]
  rfl

theorem nnHashInsert_spec {h : Hash α} (hg : h.Good) {k : UInt32}
    (hk : nnHashGet h k = none) (a : α) :
    ∃ h', nnHashInsert h k a = .ok h' ∧ h'.Good ∧
      nnHashGet h' = Function.update (nnHashGet h) k (some a) := by
  have hne := hg.get_eq_none_iff.1 hk
  have hwf : (h.setSlot (h.slot k) (h.array (h.slot k) ++ [(k, a)]) (h.items + 1)).Wf := by
    refine hg.setSlot (fun it hit => ?_) ?_ _
    · rcases List.mem_append.1 hit with hit | hit
      · exact hg.slot _ it hit
      · rw [List.mem_singleton.1 hit]
    · rw [List.map_append, List.nodup_append]
      refine ⟨hg.nodup _, List.nodup_singleton _, ?_⟩
      intro k' hk' k'' hk'' heq
      obtain ⟨it, hit, rfl⟩ := List.mem_map.1 hk'
      exact hne it hit (heq.trans (List.mem_singleton.1 hk''))
  have hget : nnHashGet (h.setSlot (h.slot k) (h.array (h.slot k) ++ [(k, a)]) (h.items + 1)) =
      Function.update (nnHashGet h) k (some a) := by
    funext k'
    by_cases hk' : k' = k
    · subst hk'
      rw [Function.update_self, hwf.get_eq_some_iff]
      simp
    · rw [Function.update_of_ne hk']
      exact hg.get_setSlot hwf fun b => by simp [hk']
  rw [nnHashInsert, nnAssert_of hne, ok_bind]
  simp only
  split_ifs with hfull
  · obtain ⟨hgood', hget'⟩ := nnHashRehash_good ⟨hwf, hg.pos⟩ hfull.2
    exact ⟨_, rfl, hgood', hget'.trans hget⟩
  · exact ⟨_, rfl, ⟨hwf, hg.pos⟩, hget⟩

theorem nnHashErase_spec [DecidableEq α] {h : Hash α} (hg : h.Good) {k : UInt32} {a : α}
    (hk : nnHashGet h k = some a) :
    ∃ h', nnHashErase h k a = .ok h' ∧ h'.Good ∧
      nnHashGet h' = Function.update (nnHashGet h) k none := by
  have hmem := hg.get_eq_some_iff.1 hk
  have hsub : (h.array (h.slot k)).erase (k, a) ⊆ h.array (h.slot k) := List.erase_subset
  have hwf : (h.setSlot (h.slot k) ((h.array (h.slot k)).erase (k, a)) (h.items - 1)).Wf :=
    hg.setSlot (fun it hit => hg.slot _ it (hsub hit))
      ((hg.nodup _).sublist (List.erase_sublist.map _)) _
  refine ⟨_, by rw [nnHashErase, nnAssert_of hmem]; rfl, ⟨hwf, hg.pos⟩, ?_⟩
  funext k'
  by_cases hk' : k' = k
  · subst hk'
    rw [Function.update_self, hwf.get_eq_none_iff, Hash.slot_setSlot, Hash.array_setSlot,
      Function.update_self]
    rintro ⟨k'', b⟩ hit rfl
    -- the key is there once, with the item that was erased
    have hab : b = a := by
      have := hg.get_eq_some_iff.2 (hsub hit)
      rw [hk] at this
      exact (Option.some.inj this).symm
    subst hab
    have hnd : (h.array (h.slot k'')).Nodup := List.Nodup.of_map _ (hg.nodup _)
    exact hnd.not_mem_erase hit
  · rw [Function.update_of_ne hk']
    exact hg.get_setSlot hwf fun b => List.mem_erase_of_ne (by simp [hk'])

end NanoSocket

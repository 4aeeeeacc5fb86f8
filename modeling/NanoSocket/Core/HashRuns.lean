import NanoSocket.Core.Hash
import NanoSocket.Lib.Runs
import Mathlib.Data.Set.Card

/-!
# Runs of the hash table (`utils/hash.c`)

The calls of a table are those of a finite map from keys to items.  `nnHash_run` is the refinement:
whatever is inserted, erased and looked up, the table answers like the map, its lists hold the
entries of the map, each once and in the slot of its key, and `items` counts them in 32 bits.

What a well-formed table maps determines its entries (`Hash.Good.mem_toList_iff`), so that the lists
of the array need not be followed through a call.
-/

namespace NanoSocket

open Runs

variable {α : Type}

/-! ### The entries of a table -/

theorem Hash.Good.mem_toList_iff {h : Hash α} (hg : h.Good) {it : UInt32 × α} :
    it ∈ h.toList ↔ nnHashGet h it.1 = some it.2 := by
  rw [hg.mem_toList hg.pos, hg.get_eq_some_iff]

theorem Hash.Good.nodup_entries {h : Hash α} (hg : h.Good) : h.toList.Nodup :=
  List.Nodup.of_map _ hg.nodup_toList

/-- Tables that map the same keys to the same items have the same entries. -/
theorem Hash.Good.perm_of_get_eq {h h' : Hash α} (hg : h.Good) (hg' : h'.Good)
    (hget : nnHashGet h = nnHashGet h') : h.toList.Perm h'.toList := by
  rw [List.perm_ext_iff_of_nodup hg.nodup_entries hg'.nodup_entries]
  intro it
  rw [hg.mem_toList_iff, hg'.mem_toList_iff, hget]

/-- One key more is one entry more. -/
theorem Hash.Good.perm_of_get_update {h h' : Hash α} (hg : h.Good) (hg' : h'.Good) {k : UInt32}
    {a : α} (hk : nnHashGet h k = none)
    (hget : nnHashGet h' = Function.update (nnHashGet h) k (some a)) :
    h'.toList.Perm ((k, a) :: h.toList) := by
  have hnew : (k, a) ∉ h.toList := by
    rw [hg.mem_toList_iff, hk]
    simp
  rw [List.perm_ext_iff_of_nodup hg'.nodup_entries (List.nodup_cons.2 ⟨hnew, hg.nodup_entries⟩)]
  rintro ⟨k', b⟩
  rw [List.mem_cons, hg'.mem_toList_iff, hg.mem_toList_iff, hget]
  by_cases hkey : k' = k
  · subst hkey
    simp [hk, eq_comm]
  · simp [hkey]

theorem nnHashInsert_items {h h' : Hash α} {k : UInt32} {a : α}
    (heq : nnHashInsert h k a = .ok h') :
    h'.items = h.items + 1 := by
  rw [nnHashInsert] at heq
  obtain ⟨_, -, heq⟩ := bind_eq_ok.1 heq
  dsimp only at heq
  split_ifs at heq with hfull
  · cases heq
    rfl
  · cases heq
    rfl

theorem nnHashErase_items [DecidableEq α] {h h' : Hash α} {k : UInt32} {a : α}
    (heq : nnHashErase h k a = .ok h') : h'.items = h.items - 1 := by
  rw [nnHashErase] at heq
  obtain ⟨_, -, heq⟩ := bind_eq_ok.1 heq
  cases heq
  rfl

/-- Growing the array loses, duplicates and misplaces no entry. -/
theorem nnHashRehash_perm {h : Hash α} (hg : h.Good) (hlt : h.slots < 0x80000000) :
    (nnHashRehash h).Good ∧ (nnHashRehash h).toList.Perm h.toList := by
  obtain ⟨hgood, hget⟩ := nnHashRehash_good hg hlt
  exact ⟨hgood, hgood.perm_of_get_eq hg hget⟩

/-! ### Runs -/

/-- A call of a table. -/
inductive HashCall (α : Type)
  | insert (key : UInt32) (item : α)
  | erase (key : UInt32) (item : α)
  | get (key : UInt32)
  deriving DecidableEq, Repr

/-- A call of a table.  `erase` is given an item, which carries its key, and `insert` aborts on an
item that is in a list already. -/
def nnHashCall [DecidableEq α] (self : Hash α) : HashCall α → Except Fault (Hash α × Option α)
  | .insert key item => do
    -- `nn_list_insert`
    nnAssert (∀ it ∈ self.toList, it.2 ≠ item)
    return (← nnHashInsert self key item, none)
  | .erase key item => return (← nnHashErase self key item, none)
  | .get key => .ok (self, nnHashGet self key)

/-- A call of a finite map. -/
def mapCall (f : UInt32 → Option α) : HashCall α → (UInt32 → Option α) × Option α
  | .insert key item => (Function.update f key (some item), none)
  | .erase key _ => (Function.update f key none, none)
  | .get key => (f, f key)

/-- A key is inserted when it is not there, with an item that is not there, and an item is erased
when it is there. -/
def HashCall.Enabled (f : UInt32 → Option α) : HashCall α → Prop
  | .insert key item => f key = none ∧ ∀ k, f k ≠ some item
  | .erase key item => f key = some item
  | .get _ => True

/-- The table holds the map. -/
structure Hash.Holds (h : Hash α) (f : UInt32 → Option α) : Prop extends h.Good where
  get : nnHashGet h = f
  items : h.items = UInt32.ofNat h.toList.length

theorem nnHashInit_holds : (nnHashInit : Hash α).Holds fun _ => none :=
  ⟨nnHashInit_good, funext nnHashGet_init, by simp [nnHashInit, Hash.toList]⟩

theorem Hash.Holds.items_toNat {h : Hash α} {f : UInt32 → Option α} (hh : h.Holds f) :
    h.items.toNat = h.toList.length % 2 ^ 32 := by
  rw [hh.items, UInt32.toNat_ofNat']

variable [DecidableEq α]

theorem nnHashCall_spec {h : Hash α} {f : UInt32 → Option α} (hh : h.Holds f) {c : HashCall α}
    (hc : c.Enabled f) :
    ∃ h', nnHashCall h c = .ok (h', (mapCall f c).2) ∧ h'.Holds (mapCall f c).1 := by
  obtain ⟨hg, rfl, hitems⟩ := hh
  cases c with
  | insert k a =>
    obtain ⟨hk, ha⟩ := hc
    have hlinked : ∀ it ∈ h.toList, it.2 ≠ a := by
      rintro it hit rfl
      exact ha it.1 (hg.mem_toList_iff.1 hit)
    obtain ⟨h', heq, hg', hget⟩ := nnHashInsert_spec hg hk a
    refine ⟨h', ?_, hg', hget, ?_⟩
    · rw [nnHashCall, nnAssert_of hlinked, ok_bind, heq]
      rfl
    · rw [nnHashInsert_items heq, hitems, (hg.perm_of_get_update hg' hk hget).length_eq,
        List.length_cons, UInt32.ofNat_add]
      rfl
  | erase k a =>
    obtain ⟨h', heq, hg', hget⟩ := nnHashErase_spec hg hc
    refine ⟨h', ?_, hg', hget, ?_⟩
    · rw [nnHashCall, heq]
      rfl
    · have hk : nnHashGet h' k = none := by rw [hget, Function.update_self]
      have hback : nnHashGet h = Function.update (nnHashGet h') k (some a) := by
        rw [hget, Function.update_idem, ← hc, Function.update_eq_self]
      rw [nnHashErase_items heq, hitems, (hg'.perm_of_get_update hg hk hback).length_eq,
        List.length_cons, UInt32.ofNat_add]
      exact UInt32.add_sub_cancel _ _
  | get k => exact ⟨h, rfl, hg, rfl, hitems⟩

/-- For every sequence of insertions of keys that are not there, of removals of items that are there
and of look-ups, the table answers like a finite map.  Afterwards its lists hold the entries of the
map, each once and in the slot of its key; `items` is their number modulo 2^32; and so it would be
if the array grew once more. -/
theorem nnHash_run {calls : List (HashCall α)}
    (h : Along mapCall HashCall.Enabled (fun _ => none) calls) :
    ∃ t, run nnHashCall nnHashInit calls = .ok (t, (specRun mapCall (fun _ => none) calls).2) ∧
      nnHashGet t = (specRun mapCall (fun _ => none) calls).1 ∧
      (∀ it, it ∈ t.toList ↔ (specRun mapCall (fun _ => none) calls).1 it.1 = some it.2) ∧
      (∀ i, ∀ it ∈ t.array i, t.slot it.1 = i) ∧ (t.toList.map Prod.fst).Nodup ∧
      t.items.toNat = t.toList.length % 2 ^ 32 ∧
      (t.slots < 0x80000000 → (nnHashRehash t).toList.Perm t.toList ∧
        ∀ i, ∀ it ∈ (nnHashRehash t).array i, (nnHashRehash t).slot it.1 = i) := by
  obtain ⟨t, hrun, hholds⟩ := run_simulates (R := Hash.Holds)
    (fun _ _ c hh hc => nnHashCall_spec (c := c) hh hc) nnHashInit_holds h
  have hget := hholds.get
  refine ⟨t, hrun, hget, ?_, hholds.slot, hholds.nodup_toList, hholds.items_toNat, ?_⟩
  · intro it
    rw [← hget]
    exact hholds.mem_toList_iff
  · intro hlt
    obtain ⟨hgood, hperm⟩ := nnHashRehash_perm hholds.toGood hlt
    exact ⟨hperm, hgood.slot⟩

/-! ### A full table -/

/-- Insert keys, each of which is its own item. -/
def insertAll (keys : List UInt32) : List (HashCall UInt32) := keys.map fun k => .insert k k

theorem insertAll_along {keys : List UInt32} (hnodup : keys.Nodup) {f : UInt32 → Option UInt32}
    (hfresh : ∀ k ∈ keys, f k = none ∧ ∀ k', f k' ≠ some k) :
    Along mapCall HashCall.Enabled f (insertAll keys) ∧
      ∀ k, (specRun mapCall f (insertAll keys)).1 k = if k ∈ keys then some k else f k := by
  induction keys generalizing f with
  | nil => exact ⟨trivial, fun k => by simp [insertAll, specRun]⟩
  | cons k keys ih =>
    rw [List.nodup_cons] at hnodup
    have hfresh' : ∀ k' ∈ keys, Function.update f k (some k) k' = none ∧
        ∀ k'', Function.update f k (some k) k'' ≠ some k' := by
      intro k' hk'
      have hne : k' ≠ k := fun heq => hnodup.1 (heq ▸ hk')
      obtain ⟨hnone, hnot⟩ := hfresh k' (List.mem_cons_of_mem _ hk')
      refine ⟨by rw [Function.update_of_ne hne, hnone], fun k'' => ?_⟩
      by_cases hk'' : k'' = k
      · rw [hk'', Function.update_self]
        exact fun heq => hne (Option.some_inj.1 heq).symm
      · rw [Function.update_of_ne hk'']
        exact hnot k''
    obtain ⟨halong, hfinal⟩ := ih hnodup.2 hfresh'
    refine ⟨⟨hfresh k List.mem_cons_self, halong⟩, fun k' => ?_⟩
    refine (hfinal k').trans ?_
    by_cases hk' : k' = k
    · subst hk'
      simp
    · simp [hk']

theorem nodup_map_ofNat {n : ℕ} (hn : n ≤ 2 ^ 32) : ((List.range n).map UInt32.ofNat).Nodup := by
  refine List.Nodup.map_on ?_ List.nodup_range
  intro i hi j hj heq
  rw [List.mem_range] at hi hj
  have htoNat := congrArg UInt32.toNat heq
  rwa [UInt32.toNat_ofNat', UInt32.toNat_ofNat', Nat.mod_eq_of_lt (by omega),
    Nat.mod_eq_of_lt (by omega)] at htoNat

/-- Seventeen keys: the array grows with the last one. -/
theorem nnHash_run_seventeen : ∃ t answers,
    run nnHashCall nnHashInit (insertAll ((List.range 17).map UInt32.ofNat)) = .ok (t, answers) ∧
      nnHashGet t 16 = some 16 ∧ t.items.toNat = t.toList.length % 2 ^ 32 := by
  obtain ⟨halong, hfinal⟩ := insertAll_along (f := fun _ => none)
    (nodup_map_ofNat (n := 17) (by norm_num)) (by simp)
  obtain ⟨t, hrun, hget, -, -, -, hitems, -⟩ := nnHash_run halong
  refine ⟨t, _, hrun, ?_, hitems⟩
  rw [hget, hfinal, if_pos (by decide)]

/-- When all keys are there, `items` is zero. -/
theorem nnHash_items_wrap : ∃ t answers,
    Along mapCall HashCall.Enabled (fun _ => none)
      (insertAll ((List.range (2 ^ 32)).map UInt32.ofNat)) ∧
      run nnHashCall nnHashInit (insertAll ((List.range (2 ^ 32)).map UInt32.ofNat)) =
        .ok (t, answers) ∧
      t.toList.length = 2 ^ 32 ∧ t.items.toNat = 0 := by
  have hnodup := nodup_map_ofNat (le_refl (2 ^ 32))
  have hlength : ((List.range (2 ^ 32)).map UInt32.ofNat).length = 2 ^ 32 := by
    rw [List.length_map, List.length_range]
  have hall : ∀ k, k ∈ (List.range (2 ^ 32)).map UInt32.ofNat := by
    intro k
    exact List.mem_map.2 ⟨k.toNat, List.mem_range.2 k.toNat_lt, UInt32.ofNat_toNat⟩
  generalize (List.range (2 ^ 32)).map UInt32.ofNat = keys at hnodup hlength hall ⊢
  obtain ⟨halong, hfinal⟩ := insertAll_along (f := fun _ => none) hnodup (by simp)
  obtain ⟨t, hrun, hholds⟩ := run_simulates (R := Hash.Holds)
    (fun _ _ c hh hc => nnHashCall_spec (c := c) hh hc) nnHashInit_holds halong
  have hcount : t.toList.length = 2 ^ 32 := by
    have hmap : (t.toList.map Prod.fst).length = t.toList.length := List.length_map ..
    rw [← hlength, ← hmap]
    refine List.Perm.length_eq
      ((List.perm_ext_iff_of_nodup hholds.nodup_toList hnodup).2 fun k => ?_)
    refine ⟨fun _ => hall k, fun _ => List.mem_map.2 ⟨(k, k), ?_, rfl⟩⟩
    rw [hholds.mem_toList_iff, hholds.get, hfinal, if_pos (hall k)]
  refine ⟨t, _, halong, hrun, hcount, ?_⟩
  rw [hholds.items_toNat, hcount, Nat.mod_self]

end NanoSocket

import NanoSocket.Core.Global

/-!
# The invariant of the table

The stack of unused descriptors is read and written at the position `nnMaxSockets - nsocks`;
`SockTable.Wf` says what its entries below that position are.  It is kept when a descriptor is taken
from the stack and when one is put back, whatever else happens to the sockets.
-/

namespace NanoSocket

variable {α : Type} {nnMaxSockets : ℕ}

theorem getAt_natCast {l : List α} {i : ℕ} {a : α} (h : l[i]? = some a) : getAt l i = .ok a := by
  simp [getAt, h]

theorem setAt_natCast {l : List α} {i : ℕ} (h : i < l.length) (a : α) :
    setAt l i a = .ok (l.set i a) := by
  simp [setAt, h]

theorem take_succ_set {l : List α} {n : ℕ} (h : n < l.length) (a : α) :
    (l.set n a).take (n + 1) = l.take n ++ [a] := by
  rw [List.take_add_one, List.take_set_of_le (le_refl n), List.getElem?_set_self h]
  rfl

/-! ### Descriptors -/

/-- The first entries of the stack. -/
def SockTable.free (tb : SockTable) (n : ℕ) : List ℕ := (tb.unused.take n).map UInt16.toNat

/-- The two arrays agree with each other, with the number of sockets and with what is allocated. -/
structure SockTable.Wf (tb : SockTable) (nnMaxSockets nsocks : ℕ) (heap : ℕ → Option Sock) :
    Prop where
  socks_length : tb.socks.length = nnMaxSockets
  unused_length : tb.unused.length = nnMaxSockets
  nsocks_le : nsocks ≤ nnMaxSockets
  nodup : (tb.free (nnMaxSockets - nsocks)).Nodup
  mem_free : ∀ s : ℕ, s ∈ tb.free (nnMaxSockets - nsocks) ↔ tb.socks[s]? = some none
  live : ∀ p, (heap p).isSome ↔ ∃ s : ℕ, tb.socks[s]? = some (some p)
  inj : ∀ (s s' : ℕ) p, tb.socks[s]? = some (some p) → tb.socks[s']? = some (some p) → s = s'

namespace SockTable.Wf

variable {tb : SockTable} {nsocks : ℕ} {heap heap' : ℕ → Option Sock}

theorem congr (h : tb.Wf nnMaxSockets nsocks heap)
    (hheap : ∀ p, (heap' p).isSome ↔ (heap p).isSome) :
    tb.Wf nnMaxSockets nsocks heap' :=
  { h with live := fun p => (hheap p).trans (h.live p) }

theorem length_free (h : tb.Wf nnMaxSockets nsocks heap) :
    (tb.free (nnMaxSockets - nsocks)).length = nnMaxSockets - nsocks := by
  rw [free, List.length_map, List.length_take, h.unused_length]
  omega

theorem lt_of_mem_free (h : tb.Wf nnMaxSockets nsocks heap) {s : ℕ}
    (hs : s ∈ tb.free (nnMaxSockets - nsocks)) :
    s < nnMaxSockets := by
  obtain ⟨hlt, -⟩ := List.getElem?_eq_some_iff.1 ((h.mem_free s).1 hs)
  rwa [h.socks_length] at hlt

/-- When all sockets were closed, all descriptors are unused. -/
theorem not_live (h : tb.Wf nnMaxSockets 0 heap) (p : ℕ) : heap p = none := by
  rw [← Option.not_isSome_iff_eq_none, h.live]
  rintro ⟨s, hs⟩
  have hsub : tb.free nnMaxSockets ⊆ List.range nnMaxSockets := fun s hs =>
    List.mem_range.2 (h.lt_of_mem_free hs)
  have hperm : (tb.free nnMaxSockets).Perm (List.range nnMaxSockets) := by
    refine (h.nodup.subperm hsub).perm_of_length_le ?_
    rw [List.length_range]
    exact h.length_free.ge
  obtain ⟨hlt, -⟩ := List.getElem?_eq_some_iff.1 hs
  rw [h.socks_length] at hlt
  have hfree := (h.mem_free s).1 (hperm.mem_iff.2 (List.mem_range.2 hlt))
  cases hfree.symm.trans hs

/-- The table that `nn_global_init` makes. -/
theorem init (hmax : nnMaxSockets ≤ 0x10000) (hheap : ∀ p, heap p = none) :
    SockTable.Wf { socks := List.replicate nnMaxSockets none
                   unused :=
      (List.range nnMaxSockets).map fun i => UInt16.ofNat (nnMaxSockets - i - 1) }
      nnMaxSockets 0 heap := by
  have hfree :
      ((List.range nnMaxSockets).map fun i => UInt16.ofNat (nnMaxSockets - i - 1)).map
      UInt16.toNat = (List.range nnMaxSockets).reverse := by
    rw [List.map_map]
    refine List.ext_getElem (by simp) fun i hi _ => ?_
    have hi : i < nnMaxSockets := by simpa using hi
    simp only [List.getElem_map, List.getElem_range, Function.comp, List.getElem_reverse,
      List.length_range, UInt16.toNat_ofNat']
    omega
  refine ⟨by simp, by simp, by omega, ?_, fun s => ?_, fun p => ?_, fun s s' p hs => ?_⟩
  · rw [free, Nat.sub_zero, List.take_of_length_le (by simp), hfree]
    exact List.nodup_reverse.2 List.nodup_range
  · rw [free, Nat.sub_zero, List.take_of_length_le (by simp), hfree]
    simp [List.getElem?_replicate]
  · simp [hheap, List.getElem?_replicate]
  · simp [List.getElem?_replicate] at hs

/-- The descriptor on the top of the stack. -/
theorem top (h : tb.Wf nnMaxSockets nsocks heap) (hlt : nsocks < nnMaxSockets) :
    ∃ s, tb.unused[nnMaxSockets - nsocks - 1]? = some s ∧
      tb.free (nnMaxSockets - nsocks) = tb.free (nnMaxSockets - nsocks - 1) ++ [s.toNat] := by
  have hi : nnMaxSockets - nsocks - 1 < tb.unused.length := by
    rw [h.unused_length]
    omega
  refine ⟨tb.unused[nnMaxSockets - nsocks - 1], List.getElem?_eq_getElem hi, ?_⟩
  have htake : nnMaxSockets - nsocks = nnMaxSockets - nsocks - 1 + 1 := by omega
  generalize nnMaxSockets - nsocks - 1 = n at hi htake
  rw [htake, free, List.take_add_one, List.map_append, List.getElem?_eq_getElem hi]
  rfl

/-- A socket is put into the slot of the descriptor on the top. -/
theorem alloc (h : tb.Wf nnMaxSockets nsocks heap) (hlt : nsocks < nnMaxSockets) {s : UInt16}
    (hs : tb.unused[nnMaxSockets - nsocks - 1]? = some s) {p : ℕ}
    (hp : heap p = none) (sock : Sock) :
    tb.socks[s.toNat]? = some none ∧
      SockTable.Wf { tb with socks := tb.socks.set s.toNat (some p) } nnMaxSockets (nsocks + 1)
        (Function.update heap p (some sock)) := by
  obtain ⟨s', hs', hfree⟩ := h.top hlt
  cases hs.symm.trans hs'
  have hnone : tb.socks[s.toNat]? = some none := (h.mem_free _).1 (by simp [hfree])
  obtain ⟨hslt, -⟩ := List.getElem?_eq_some_iff.1 hnone
  have hnodup := h.nodup
  rw [hfree, List.nodup_append] at hnodup
  have hnew : ∀ i q, (tb.socks.set s.toNat (some p))[i]? = some (some q) ↔
      i = s.toNat ∧ q = p ∨ tb.socks[i]? = some (some q) := by
    intro i q
    rw [List.getElem?_set]
    by_cases hi : s.toNat = i
    · subst hi
      rw [hnone]
      simp [hslt, eq_comm]
    · simp [hi, Ne.symm hi]
  have hdead : ∀ i : ℕ, tb.socks[i]? ≠ some (some p) := by
    intro i hi
    have := (h.live p).2 ⟨i, hi⟩
    simp [hp] at this
  refine ⟨hnone, by simp [h.socks_length], h.unused_length, hlt, ?_, fun i => ?_, fun q => ?_,
    fun i i' q hi hi' => ?_⟩
  · exact hnodup.1
  · have hmem := h.mem_free i
    rw [hfree, List.mem_append, List.mem_singleton] at hmem
    rw [List.getElem?_set]
    by_cases hi : s.toNat = i
    · subst hi
      simp only [hslt, if_pos]
      refine iff_of_false (fun hin => ?_) (by simp)
      exact hnodup.2.2 _ hin _ (List.mem_singleton.2 rfl) rfl
    · rw [if_neg hi, ← hmem]
      simp [Ne.symm hi, free, Nat.sub_sub]
  · by_cases hq : q = p
    · subst hq
      simp only [Function.update_self, Option.isSome_some, true_iff]
      exact ⟨s.toNat, by simp [hslt]⟩
    · rw [Function.update_of_ne hq, h.live]
      simp only [hnew, hq, and_false, false_or]
  · rw [hnew] at hi hi'
    rcases hi with ⟨rfl, rfl⟩ | hi
    · rcases hi' with ⟨rfl, -⟩ | hi'
      · rfl
      · exact absurd hi' (hdead _)
    · rcases hi' with ⟨rfl, rfl⟩ | hi'
      · exact absurd hi (hdead _)
      · exact h.inj i i' q hi hi'

/-- A descriptor is put back. -/
theorem release (h : tb.Wf nnMaxSockets nsocks heap) (hmax : nnMaxSockets ≤ 0x10000)
    (hpos : 0 < nsocks) {s p : ℕ} (hs : tb.socks[s]? = some (some p)) :
    SockTable.Wf { socks := tb.socks.set s none
                   unused := tb.unused.set (nnMaxSockets - nsocks) (UInt16.ofNat s) }
      nnMaxSockets (nsocks - 1) (Function.update heap p none) := by
  obtain ⟨hslt, -⟩ := List.getElem?_eq_some_iff.1 hs
  have hslt' : s < nnMaxSockets := h.socks_length ▸ hslt
  have hs16 : (UInt16.ofNat s).toNat = s := by
    rw [UInt16.toNat_ofNat']
    omega
  have hle := h.nsocks_le
  have hfree :
      SockTable.free ⟨tb.socks.set s none, tb.unused.set (nnMaxSockets - nsocks) (UInt16.ofNat s)⟩
      (nnMaxSockets - (nsocks - 1)) = tb.free (nnMaxSockets - nsocks) ++ [s] := by
    have htake : nnMaxSockets - (nsocks - 1) = nnMaxSockets - nsocks + 1 := by omega
    unfold free
    rw [htake, take_succ_set (by rw [h.unused_length]; omega), List.map_append,
      List.map_singleton, hs16]
  have hfresh : s ∉ tb.free (nnMaxSockets - nsocks) := by
    intro hmem
    cases ((h.mem_free s).1 hmem).symm.trans hs
  have hother : ∀ i q, (tb.socks.set s none)[i]? = some (some q) ↔
      i ≠ s ∧ tb.socks[i]? = some (some q) := by
    intro i q
    rw [List.getElem?_set]
    by_cases hi : s = i
    · subst hi
      simp [hslt]
    · simp [hi, Ne.symm hi]
  refine ⟨by simp [h.socks_length], by simp [h.unused_length], by omega, ?_, fun i => ?_,
    fun q => ?_, fun i i' q hi hi' => ?_⟩
  · rw [hfree, List.nodup_append]
    refine ⟨h.nodup, List.nodup_singleton s, ?_⟩
    rintro a ha b hb rfl
    exact hfresh (List.mem_singleton.1 hb ▸ ha)
  · rw [hfree, List.mem_append, List.mem_singleton, h.mem_free, List.getElem?_set]
    by_cases hi : s = i
    · subst hi
      simp [hslt]
    · simp [hi, Ne.symm hi]
  · by_cases hq : q = p
    · subst hq
      simp only [Function.update_self, Option.isSome_none, Bool.false_eq_true, false_iff, hother,
        not_exists, not_and]
      exact fun i hi hq => hi (h.inj i s q hq hs)
    · rw [Function.update_of_ne hq, h.live]
      refine ⟨fun ⟨i, hi⟩ => ⟨i, (hother i q).2 ⟨?_, hi⟩⟩,
        fun ⟨i, hi⟩ => ⟨i, ((hother i q).1 hi).2⟩⟩
      rintro rfl
      cases hs.symm.trans hi
      exact hq rfl
  · exact h.inj i i' q ((hother i q).1 hi).2 ((hother i' q).1 hi').2

end SockTable.Wf

end NanoSocket

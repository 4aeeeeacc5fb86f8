import NanoSocket.NanoMsg.SendStream
import NanoSocket.NanoMsg.WriteStreamLog

/-!
# The vectors of the pages of a stream (`NanoSocket.cs`)

`FillIoVecs` gets the buffer of a page and fills an array with the buffers of the pages from there
on.  Three of its steps go wrong: the end of the array is 16 times as far away as it is, the length
that is counted is that of the page behind the one that was filled in, and `NextPage` looks for the
`Next` of a page at the `Data` of the buffer.

`fill_pages_iff` says what is left: with fewer than 2^27 vectors, only where no page or no vector is
given the call does what it should.
-/

namespace NanoSocket.FillIoVecs

open WriteStream

/-- The buffer of a page, the empty one for a null pointer. -/
def pageBuffer (memory : Memory UInt8) (page : ℕ) : Except Trap (ℕ × ℤ) := do
  if page = 0 then return (0, 0)
  let data ← IoBuffer.data memory page
  let length ← IoBuffer.length memory page
  return (data, length)

/-- The number of vectors between `iovecs` and `iovecEnd`.  The product is an `int`, and a pointer
to vectors is moved by vectors. -/
def room (iovecCount : ℕ) : ℕ := (int32 (16 * iovecCount)).toNat

/-- The loop of `FillIoVecs`, as long as `vecPtr` is `room` vectors before `iovecEnd`, with the
vectors that were filled, those behind the array too. -/
def fillLoop (memory : Memory UInt8) :
    ℕ → ℕ × ℤ → List (ℕ × ℤ) → ℤ → Except Trap ((ℕ × ℤ) × List (ℕ × ℤ) × ℤ)
  | 0, current, vecs, byteCount => .ok (current, vecs, byteCount)
  | room + 1, current, vecs, byteCount =>
    if current.1 = 0 then .ok (current, vecs, byteCount)
    else do
      let next ← nextPage memory current
      fillLoop memory room next (vecs ++ [current]) (int32 (byteCount + next.2))

/-- `FillIoVecs`. -/
def fillIoVecs (memory : Memory UInt8) (next : ℕ × ℤ) (iovecCount : ℕ) :
    Except Trap ((ℕ × ℤ) × List (ℕ × ℤ) × ℤ) :=
  if next.1 = 0 then .ok ((0, 0), [], 0) else fillLoop memory (room iovecCount) next [] 0

/-! ### What the call should do -/

/-- From a page on, the vectors are the buffers of the pages one behind the other, and the last
argument is the page behind them. -/
def Covers (memory : Memory UInt8) : ℕ → List (ℕ × ℤ) → ℕ → Prop
  | page, [], rest => page = rest
  | page, vec :: vecs, rest =>
    page ≠ 0 ∧ pageBuffer memory page = .ok vec ∧
      ∃ next, IoBuffer.next memory page = .ok next ∧ Covers memory next vecs rest

/-- The call returns for the buffer of a page.  It has filled no more vectors than there are, with
the buffers of pages in their order; it has counted their bytes, and `Next` is the buffer of the
page behind them. -/
def Fills (memory : Memory UInt8) (page iovecCount : ℕ) : Prop :=
  ∃ chunk next vecs byteCount rest, pageBuffer memory page = .ok chunk ∧
    fillIoVecs memory chunk iovecCount = .ok (next, vecs, byteCount) ∧ vecs.length ≤ iovecCount ∧
    Covers memory page vecs rest ∧ pageBuffer memory rest = .ok next ∧
      byteCount = (vecs.map Prod.snd).sum

/-- Pages that are linked by `Next`, with null pointers for the ends. -/
structure Linked (memory : Memory UInt8) (pages : Set ℕ) : Prop where
  page : ∀ p ∈ pages, Page memory p
  next : ∀ p ∈ pages, ∀ next, IoBuffer.next memory p = .ok next → next = 0 ∨ next ∈ pages

/-- What `NextPage` finds from a buffer on. -/
def Follows (memory : Memory UInt8) : ℕ × ℤ → List (ℕ × ℤ) → ℕ × ℤ → Prop
  | current, [], last => current = last
  | current, vec :: vecs, last =>
    vec = current ∧ current.1 ≠ 0 ∧ ∃ next, nextPage memory current = .ok next ∧
      Follows memory next vecs last

/-- `NextPage` finds so many pages as they are linked, the first of them is as long as the page
behind the last one, and their bytes can be counted with an `int`. -/
def Agrees (memory : Memory UInt8) (page n : ℕ) : Prop :=
  ∃ chunk next vecs rest, vecs.length = n ∧ pageBuffer memory page = .ok chunk ∧
    Covers memory page vecs rest ∧
    pageBuffer memory rest = .ok next ∧ Follows memory chunk vecs next ∧ next.2 = chunk.2 ∧
    int32 (vecs.map Prod.snd).sum = (vecs.map Prod.snd).sum

section Proofs

variable {memory : Memory UInt8} {pages : Set ℕ} {page rest n : ℕ} {current next chunk : ℕ × ℤ}
  {vecs : List (ℕ × ℤ)}
  {byteCount : ℤ}

/-- `NextPage` takes the data for the page. -/
theorem nextPage_eq :
    nextPage memory current = (do pageBuffer memory (← IoBuffer.next memory current.1)) := rfl

/-- The loop of `Send` is this one, as long as the vectors are in its array. -/
theorem fillLoop_of_sender {room : ℕ} {r : (ℕ × ℤ) × List (ℕ × ℤ) × ℤ}
    (h : Sender.fillLoop memory room current vecs byteCount = .ok r) :
    fillLoop memory room current vecs byteCount = .ok r := by
  induction room generalizing current vecs byteCount with
  | zero => exact h
  | succ room ih =>
    rw [Sender.fillLoop] at h
    rw [fillLoop]
    split_ifs at h ⊢
    · exact h
    · obtain ⟨next, hnext, h⟩ := bind_eq_ok.1 h
      rw [hnext, ok_bind]
      exact ih h

theorem fillIoVecs_of_sender {r : (ℕ × ℤ) × List (ℕ × ℤ) × ℤ}
    (h : Sender.fillIoVecs memory chunk = .ok r) :
    fillIoVecs memory chunk Sender.maxVectors = .ok r := by
  rw [Sender.fillIoVecs] at h
  rw [fillIoVecs]
  split_ifs at h ⊢
  · exact h
  · exact fillLoop_of_sender h

/-! ### The loop -/

variable {k : ℕ} {r : (ℕ × ℤ) × List (ℕ × ℤ) × ℤ}

/-- A length that is taken from a sum and one that is added to it, without an effect. -/
theorem int32_cancel {s a b : ℤ} (h : s = int32 (s - a + b)) (ha : int32 a = a) (hb : int32 b = b) :
    b = a := by
  have hs : int32 (s - a + a) = int32 (s - a + b) := by
    rw [← h, sub_add_cancel]
    conv_lhs => rw [h, int32_idem, ← h]
  rw [← ha, ← hb]
  exact ((Int.bmod_add_cancel_left _).1 hs).symm

/-- Where the loop stops at once. -/
theorem stop_eq_ok (hcount : int32 byteCount = byteCount) :
    (Except.ok (current, vecs, byteCount) : Except Trap _) = .ok r ↔
      r.2.1 = vecs ++ [] ∧ Follows memory current [] r.1 ∧
        r.2.2 = int32 (byteCount + 0 - current.2 + r.1.2) := by
  obtain ⟨last, vecs', total⟩ := r
  simp only [Except.ok.injEq, Prod.mk.injEq, Follows, List.append_nil, add_zero]
  constructor
  · rintro ⟨rfl, rfl, rfl⟩
    exact ⟨rfl, rfl, by rw [sub_add_cancel, hcount]⟩
  · rintro ⟨rfl, rfl, rfl⟩
    exact ⟨rfl, rfl, by rw [sub_add_cancel, hcount]⟩

/-- The first vector that the loop fills where it does not stop. -/
theorem Follows.first {more : List (ℕ × ℤ)} (h : Follows memory current more next)
    (hcurrent : current.1 ≠ 0) (hlength : more.length = k + 1 ∨ more.length < k + 1 ∧ next.1 = 0) :
    ∃ n more', more = current :: more' ∧ nextPage memory current = .ok n ∧
      Follows memory n more' next := by
  cases more with
  | nil =>
    rcases hlength with hlength | ⟨-, hzero⟩
    · cases hlength
    · exact absurd ((congrArg Prod.fst h).trans hzero) hcurrent
  | cons vec more =>
    obtain ⟨rfl, -, n, hnext, h⟩ := h
    exact ⟨n, more, rfl, hnext, h⟩

/-- The loop goes where `NextPage` leads, until there is no room or no page.  The first length is
not counted, and that of the page behind the last vector is. -/
theorem fillLoop_eq_ok (hcount : int32 byteCount = byteCount) :
    fillLoop memory k current vecs byteCount = .ok r ↔
      ∃ more, r.2.1 = vecs ++ more ∧ Follows memory current more r.1 ∧
        (more.length = k ∨ more.length < k ∧ r.1.1 = 0) ∧
        r.2.2 = int32 (byteCount + (more.map Prod.snd).sum - current.2 + r.1.2) := by
  induction k generalizing current vecs byteCount with
  | zero =>
    rw [fillLoop, stop_eq_ok hcount]
    constructor
    · rintro ⟨hvecs, hfollows, htotal⟩
      exact ⟨[], hvecs, hfollows, .inl rfl, htotal⟩
    · rintro ⟨more, hvecs, hfollows, hlength, htotal⟩
      obtain rfl : more = [] := List.length_eq_zero_iff.1 (by omega)
      exact ⟨hvecs, hfollows, htotal⟩
  | succ k ih =>
    rw [fillLoop]
    split_ifs with hcurrent
    · rw [stop_eq_ok hcount]
      constructor
      · rintro ⟨hvecs, hfollows, htotal⟩
        have hzero : r.1.1 = 0 := by
          rw [← show current = r.1 from hfollows, hcurrent]
        exact ⟨[], hvecs, hfollows, .inr ⟨Nat.zero_lt_succ _, hzero⟩, htotal⟩
      · rintro ⟨more, hvecs, hfollows, -, htotal⟩
        cases more with
        | nil => exact ⟨hvecs, hfollows, htotal⟩
        | cons vec more => exact absurd hcurrent hfollows.2.1
    · cases hnext : nextPage memory current with
      | error e =>
        refine iff_of_false nofun ?_
        rintro ⟨more, -, hfollows, hlength, -⟩
        obtain ⟨next, -, -, hnext', -⟩ := hfollows.first hcurrent hlength
        cases hnext.symm.trans hnext'
      | ok next =>
        have hsum : ∀ more : List (ℕ × ℤ),
            int32 (int32 (byteCount + next.2) + (more.map Prod.snd).sum - next.2 + r.1.2) =
            int32 (byteCount + ((current :: more).map Prod.snd).sum - current.2 + r.1.2) := by
          intro more
          rw [add_sub_assoc, add_assoc, int32_add, List.map_cons, List.sum_cons]
          congr 1
          omega
        rw [ok_bind, ih (int32_idem _)]
        constructor
        · rintro ⟨more, hvecs, hfollows, hlength, htotal⟩
          refine ⟨current :: more, ?_, ⟨rfl, hcurrent, next, hnext, hfollows⟩, ?_, ?_⟩
          · rw [hvecs, List.append_assoc, List.singleton_append]
          · rw [List.length_cons]
            omega
          · rw [htotal, hsum]
        · rintro ⟨more, hvecs, hfollows, hlength, htotal⟩
          obtain ⟨next', more', rfl, hnext', hfollows'⟩ := hfollows.first hcurrent hlength
          cases hnext.symm.trans hnext'
          rw [List.length_cons] at hlength
          refine ⟨more', ?_, hfollows', by omega, ?_⟩
          · rw [hvecs, List.append_assoc, List.singleton_append]
          · rw [htotal, hsum]

/-! ### The pages -/

theorem pageBuffer_fst (hpage : page ≠ 0) (hnext : IoBuffer.next memory page = .ok n)
    (hchunk : pageBuffer memory page = .ok chunk) : chunk.1 = (n + IoBuffer.sizeOf) % 2 ^ 64 := by
  have hdata : IoBuffer.data memory page = .ok ((n + IoBuffer.sizeOf) % 2 ^ 64) := by
    rw [IoBuffer.data, hnext]
    rfl
  rw [pageBuffer, if_neg hpage, hdata, ok_bind] at hchunk
  obtain ⟨length, -, hchunk⟩ := bind_eq_ok.1 hchunk
  cases hchunk
  rfl

theorem int32_pageBuffer (hchunk : pageBuffer memory page = .ok chunk) :
    int32 chunk.2 = chunk.2 := by
  rw [pageBuffer] at hchunk
  split_ifs at hchunk
  · cases hchunk
    exact int32_zero
  · obtain ⟨data, -, hchunk⟩ := bind_eq_ok.1 hchunk
    obtain ⟨length, hlength, hchunk⟩ := bind_eq_ok.1 hchunk
    obtain ⟨bytes, -, hlength⟩ := bind_eq_ok.1 hlength
    have hint : length = int32 (getLe bytes) := (Except.ok.inj hlength).symm
    rw [← Except.ok.inj hchunk, hint]
    dsimp only
    rw [int32_idem]

/-- Every page has a buffer. -/
theorem exists_pageBuffer (h : page = 0 ∨ Page memory page) :
    ∃ chunk, pageBuffer memory page = .ok chunk := by
  rcases h with rfl | h
  · exact ⟨(0, 0), rfl⟩
  · have hsize : pageSize = 4096 := rfl
    have hlength : memory.Mapped (page + 12) 4 := h.mapped.sub (by omega) (by omega)
    obtain ⟨next, hlt, hnext⟩ := h.exists_next
    obtain ⟨bytes, hbytes⟩ := hlength.exists_load
    simp only [pageBuffer, if_neg h.ne_zero, Header.data_eq hnext hlt, IoBuffer.length,
      IoBuffer.loadInt, IoBuffer.loadBytes, hbytes, ok_bind, pure_eq_ok]
    exact ⟨_, rfl⟩

/-- The data of a linked page are not at a null pointer. -/
theorem Linked.fst_ne_zero (h : Linked memory pages) (hpage : page ∈ pages)
    (hchunk : pageBuffer memory page = .ok chunk) : chunk.1 ≠ 0 := by
  have hmem := h.page page hpage
  obtain ⟨next, hlt, hload⟩ := hmem.exists_next
  have hnext := Header.loadNext hload hlt
  rw [pageBuffer_fst hmem.ne_zero hnext hchunk]
  have hsize : IoBuffer.sizeOf = 16 := rfl
  rcases h.next page hpage next hnext with rfl | hin
  · decide
  · have hhigh := (h.page next hin).high
    unfold pageSize at hhigh
    omega

theorem Linked.covers (h : Linked memory pages) (hpage : page = 0 ∨ page ∈ pages)
    (hcovers : Covers memory page vecs rest) : rest = 0 ∨ rest ∈ pages := by
  induction vecs generalizing page with
  | nil =>
    cases hcovers
    exact hpage
  | cons vec vecs ih =>
    obtain ⟨hne, -, next, hnext, hcovers⟩ := hcovers
    exact ih (h.next page (hpage.resolve_left hne) next hnext) hcovers

/-- `NextPage` fails on the last page, which has a null pointer for `Next`. -/
theorem Covers.eq_nil (hlow : ∀ a < 2 ^ 16, memory a = none) (hcovers : Covers memory page vecs 0)
    (hfollows : Follows memory current vecs next) : vecs = [] := by
  induction vecs generalizing page current with
  | nil => rfl
  | cons vec vecs ih =>
    exfalso
    obtain ⟨hne, hvec, n, hn, hcovers⟩ := hcovers
    obtain ⟨rfl, -, next', hnext', hfollows⟩ := hfollows
    obtain rfl := ih hcovers hfollows
    obtain rfl : n = 0 := hcovers
    have hfst : vec.1 = 16 := pageBuffer_fst hne hn hvec
    have hload : memory.load vec.1 8 = none := by
      rw [hfst]
      exact Memory.load_eq_none (hlow 16 (by decide)) (by decide)
    rw [nextPage_eq, IoBuffer.next, IoBuffer.loadBytes, hload] at hnext'
    cases hnext'

/-- In the pages of a chain, the loop ends when there is no room. -/
theorem fills_iff (hlow : ∀ a < 2 ^ 16, memory a = none) (h : Linked memory pages)
    (hpage : page = 0 ∨ page ∈ pages) (iovecCount : ℕ) :
    Fills memory page iovecCount ↔ page = 0 ∨ room iovecCount ≤ iovecCount ∧
      Agrees memory page (room iovecCount) := by
  by_cases hzero : page = 0
  · subst hzero
    exact iff_of_true ⟨(0, 0), (0, 0), [], 0, 0, rfl, rfl, Nat.zero_le _, rfl, rfl, rfl⟩ (.inl rfl)
  have hmem := hpage.resolve_left hzero
  rw [or_iff_right hzero]
  constructor
  · rintro ⟨chunk, next, vecs, byteCount, rest, hchunk, hfill, hcount, hcovers, hnext, hbytes⟩
    rw [fillIoVecs, if_neg (h.fst_ne_zero hmem hchunk), fillLoop_eq_ok int32_zero] at hfill
    obtain ⟨more, hvecs, hfollows, hend, htotal⟩ := hfill
    obtain rfl : vecs = more := hvecs
    have hroom : vecs.length = room iovecCount := by
      rcases hend with hend | ⟨-, hdata⟩
      · exact hend
      · exfalso
        rcases h.covers hpage hcovers with rfl | hrest
        · obtain rfl := hcovers.eq_nil hlow hfollows
          exact hzero hcovers
        · exact h.fst_ne_zero hrest hnext hdata
    refine ⟨hroom ▸ hcount, chunk, next, vecs, rest, hroom, hchunk, hcovers, hnext,
      hfollows, ?_, ?_⟩
    · refine int32_cancel (hbytes.symm.trans (htotal.trans ?_)) (int32_pageBuffer hchunk)
        (int32_pageBuffer hnext)
      rw [zero_add]
    · rw [← hbytes, show byteCount = int32 _ from htotal, int32_idem]
  · rintro ⟨hcount, chunk, next, vecs, rest, hlength, hchunk, hcovers, hnext, hfollows, hsame, hsum⟩
    refine ⟨chunk, next, vecs, (vecs.map Prod.snd).sum, rest, hchunk, ?_, hlength.trans_le hcount,
      hcovers, hnext, rfl⟩
    rw [fillIoVecs, if_neg (h.fst_ne_zero hmem hchunk), fillLoop_eq_ok int32_zero]
    refine ⟨vecs, rfl, hfollows, .inl hlength, ?_⟩
    dsimp only
    rw [hsame, sub_add_cancel, zero_add, hsum]

/-- Without vectors nothing is filled. -/
theorem agrees_zero (hpage : page = 0 ∨ Page memory page) : Agrees memory page 0 := by
  obtain ⟨chunk, hchunk⟩ := exists_pageBuffer hpage
  exact ⟨chunk, chunk, [], page, rfl, hchunk, rfl, hchunk, rfl, rfl, int32_zero⟩

/-- What the call takes for the end of an array that has vectors is behind the array. -/
theorem fills_iff_of_lt (hlow : ∀ a < 2 ^ 16, memory a = none) (h : Linked memory pages)
    (hpage : page = 0 ∨ page ∈ pages) {iovecCount : ℕ} (hlt : 16 * iovecCount < 2 ^ 31) :
    Fills memory page iovecCount ↔ page = 0 ∨ iovecCount = 0 := by
  refine (fills_iff hlow h hpage iovecCount).trans (or_congr_right ?_)
  have hroom : room iovecCount = 16 * iovecCount := by
    have hint : int32 (16 * (iovecCount : ℤ)) = 16 * iovecCount :=
      int32_of_range (by omega) (by omega)
    rw [room, hint]
    omega
  constructor
  · rintro ⟨hle, -⟩
    omega
  · rintro rfl
    exact ⟨hroom.le, hroom ▸ agrees_zero (hpage.imp_right (h.page page))⟩

end Proofs

/-! ### When the call does what it should -/

/-- From a page of a chain on the vectors are filled if and only if there is no page, or what the
call takes for the end of the array is not behind it, and there are pages up to there which
`NextPage` finds and of which the first one is as long as the one behind the last.  Where 16 times
the number of the vectors is an `int`, there must be no page or no vector. -/
theorem fill_pages_iff {memory : Memory UInt8} {pages : Set ℕ} {page : ℕ}
    (hlow : ∀ a < 2 ^ 16, memory a = none) (h : Linked memory pages)
    (hpage : page = 0 ∨ page ∈ pages) (iovecCount : ℕ) :
    (Fills memory page iovecCount ↔ page = 0 ∨ room iovecCount ≤ iovecCount ∧
      Agrees memory page (room iovecCount)) ∧
      (16 * iovecCount < 2 ^ 31 → (Fills memory page iovecCount ↔ page = 0 ∨ iovecCount = 0)) :=
  ⟨fills_iff hlow h hpage iovecCount, fills_iff_of_lt hlow h hpage⟩

/-- The page without a `Next`. -/
theorem singlePage_linked : Linked (singlePage 0) {2 ^ 16} := by
  refine ⟨fun p hp => hp ▸ singlePage_page 0, fun p hp next hnext => .inl ?_⟩
  rw [show p = 2 ^ 16 from hp] at hnext
  have hzero : IoBuffer.next (singlePage 0) (2 ^ 16) = .ok 0 := rfl
  cases hzero.symm.trans hnext
  rfl

theorem singlePage_low {a : ℕ} (ha : a < 2 ^ 16) : singlePage 0 a = none := if_neg (by omega)

/-- A stream of one page, and an array of 20 vectors. -/
theorem fill_pages_iff_single :
    (∀ a < 2 ^ 16, singlePage 0 a = none) ∧ Linked (singlePage 0) {2 ^ 16} ∧
    16 * 20 < 2 ^ 31 ∧ (Fills (singlePage 0) (2 ^ 16) 20 ↔ 2 ^ 16 = 0 ∨ 20 = 0) :=
  ⟨fun _ => singlePage_low, singlePage_linked, by decide,
    (fill_pages_iff (fun _ => singlePage_low) singlePage_linked (.inr rfl) 20).2 (by decide)⟩

/-- A page of eight bytes that has its own address for `Next` and for its first bytes. -/
def ringPage : Memory UInt8 :=
  fun a => if 2 ^ 16 ≤ a ∧ a < 2 ^ 16 + pageSize then
    some (if a = 2 ^ 16 + 2 ∨ a = 2 ^ 16 + 18 then 1 else if a = 2 ^ 16 + 12 then 8 else 0)
      else none

/-- From a page that is its own `Next` on there is always one vector more. -/
theorem fillLoop_ring {memory : Memory UInt8} {current : ℕ × ℤ}
    (hnext : nextPage memory current = .ok current) (hcurrent : current.1 ≠ 0) (room : ℕ)
    (vecs : List (ℕ × ℤ)) (byteCount : ℤ) :
    ∃ byteCount', fillLoop memory room current vecs byteCount =
        .ok (current, vecs ++ List.replicate room current, byteCount') := by
  induction room generalizing vecs byteCount with
  | zero => exact ⟨byteCount, by rw [fillLoop, List.replicate_zero, List.append_nil]⟩
  | succ room ih =>
    rw [fillLoop, if_neg hcurrent, hnext, ok_bind]
    obtain ⟨byteCount', hloop⟩ := ih (vecs ++ [current]) (int32 (byteCount + current.2))
    rw [List.append_assoc, List.singleton_append, ← List.replicate_succ] at hloop
    exact ⟨byteCount', hloop⟩

/-- A page without `Next` ends the call with an exception; from a page that is its own `Next` on,
320 vectors are filled where there are 20; and for a vector of eight bytes no byte is counted. -/
theorem pages_not_filled :
    (pageBuffer (singlePage 0) (2 ^ 16) = .ok (16, 0) ∧
      fillIoVecs (singlePage 0) (16, 0) 20 = .error (.threw .nullReference) ∧
        ¬ Fills (singlePage 0) (2 ^ 16) 20) ∧
    (fillIoVecs ringPage (2 ^ 16 + 16, 8) 20).toOption.map (fun r => r.2.1.length) = some 320 ∧
    fillIoVecs Sender.selfPage (2 ^ 16 + 16, 8) 20 = .ok ((0, 0), [(2 ^ 16 + 16, 8)], 0) := by
  refine ⟨⟨eq_ok_of_toOption (by decide), ?_, fun hfills => ?_⟩, ?_,
    eq_ok_of_toOption (by decide)⟩
  · have hload : (singlePage 0).load 16 8 = none :=
      Memory.load_eq_none (singlePage_low (by decide)) (by decide)
    have hroom : room 20 = 319 + 1 := by decide
    rw [fillIoVecs, if_neg (by decide), hroom, fillLoop, if_neg (by decide), nextPage_eq,
      IoBuffer.next, IoBuffer.loadBytes, hload]
    rfl
  · have hlow : ∀ a < 2 ^ 16, singlePage 0 a = none := fun _ => singlePage_low
    rcases (fills_iff_of_lt hlow singlePage_linked (.inr rfl) (by decide)).1 hfills with
      hpage | hcount
    · cases hpage
    · cases hcount
  · have hnext : nextPage ringPage (2 ^ 16 + 16, 8) = .ok (2 ^ 16 + 16, 8) :=
      eq_ok_of_toOption (by decide)
    have hroom : room 20 = 320 := by decide
    obtain ⟨byteCount, hloop⟩ := fillLoop_ring hnext (by decide) 320 [] 0
    rw [fillIoVecs, if_neg (by decide), hroom, hloop, List.nil_append]
    exact congrArg some (List.length_replicate ..)

end NanoSocket.FillIoVecs

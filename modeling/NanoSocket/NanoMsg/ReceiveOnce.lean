import NanoSocket.NanoMsg.Receive

/-!
# When a message is delivered once

Once a message was dequeued and the loop goes on, the call cannot do what it should: either it
dequeues another message, or the count of its last round is `-1` (`retryLoop_spec`).  So a message
can be delivered in two cases only: the loop ends with it at once, which `Receive` never does, or it
comes in the last round, after ten failures with `EAGAIN`.
-/

namespace NanoSocket

namespace Receiver

open Runs

variable {results : ℕ → RecvResult} {eagain : ℤ} {w w' : Receiver} {more : List (List UInt8)}

/-! ### The streams and the buffers -/

/-- The buffers that were freed and those of the streams exist, and a recycled stream has none. -/
structure Wf (w : Receiver) : Prop where
  freed : ∀ b ∈ w.freed, b < w.buffers.length
  streams : ∀ stream ∈ w.streams, ∀ b, stream.buffer = some b → b < w.buffers.length ∧
    0 < stream.length
  recycled : ∀ i, w.recycledReadStream = some i → ∃ stream, w.streams[i]? = some stream ∧
    stream.buffer = none

/-- The number of owners of a buffer. -/
def owners (w : Receiver) (b : ℕ) : ℕ :=
  w.freed.count b + w.streams.countP fun stream => stream.buffer = some b

/-- A buffer that was just dequeued has no owner. -/
theorem Wf.owners_new (h : w.Wf) {b : ℕ} (hb : w.buffers.length ≤ b) : w.owners b = 0 := by
  have hfreed : w.freed.count b = 0 := by
    rw [List.count_eq_zero]
    intro hmem
    have := h.freed b hmem
    omega
  have hstreams : w.streams.countP (fun stream => stream.buffer = some b) = 0 := by
    rw [List.countP_eq_zero]
    intro stream hmem heq
    have := (h.streams stream hmem b (of_decide_eq_true heq)).1
    omega
  rw [owners, hfreed, hstreams]

/-- A call that dequeues two messages, or loses one, does not do what it should. -/
theorem not_delivers {r : Received} (hmore : more ≠ []) (hbuffers : w'.buffers = w.buffers ++ more)
    (howners : more.length = 1 → w'.owners w.buffers.length = 0) : ¬ w.Delivers r w' := by
  rintro ⟨hdequeued, howned⟩
  have hone : more.length = 1 := by
    rcases hdequeued with heq | ⟨bytes, heq, -⟩
    · rw [hbuffers] at heq
      exact absurd (List.append_right_eq_self.1 heq) hmore
    · rw [hbuffers, List.append_cancel_left_eq] at heq
      rw [heq]
      rfl
  have hlt : w.buffers.length < w'.buffers.length := by
    rw [hbuffers, List.length_append, hone]
    omega
  have := howned _ hlt
  rw [← owners, howners hone] at this
  omega

/-! ### The loop -/

/-- The native state changes in the loop, and nothing else. -/
structure Called (w : Receiver) (more : List (List UInt8)) (w' : Receiver) : Prop where
  buffers : w'.buffers = w.buffers ++ more
  freed : w'.freed = w.freed
  streams : w'.streams = w.streams
  recycled : w'.recycledReadStream = w.recycledReadStream

theorem Called.owners (h : w.Called more w') (b : ℕ) : w'.owners b = w.owners b := by
  rw [Receiver.owners, Receiver.owners, h.freed, h.streams]

theorem Called.trans {more' : List (List UInt8)} {w'' : Receiver} (h : w.Called more w')
    (h' : w'.Called more' w'') :
    w.Called (more ++ more') w'' :=
  ⟨by rw [h'.buffers, h.buffers, List.append_assoc], h'.freed.trans h.freed,
    h'.streams.trans h.streams, h'.recycled.trans h.recycled⟩

/-- A body that does not end the loop with a count of `-1`. -/
def Body (leave : ℤ → Option ℕ → ℤ → Option (Received ⊕ ℤ × Option ℕ)) : Prop :=
  ∀ buffer error x, leave (-1) buffer error = some x → ∃ r, x = .inl r

section Loop

variable {leave : ℤ → Option ℕ → ℤ → Option (Received ⊕ ℤ × Option ℕ)} {retries : ℕ}
  {buffer : Option ℕ}

/-- The native state after a message. -/
def dequeue (w : Receiver) (bytes : List UInt8) : Receiver :=
  { w with pos := w.pos + 1, buffers := w.buffers ++ [bytes] }

/-- The native state after a failure. -/
def fail (w : Receiver) (errno : ℤ) : Receiver := { w with pos := w.pos + 1, errno }

theorem dequeue_called (w : Receiver) (bytes : List UInt8) : w.Called [bytes] (w.dequeue bytes) :=
  ⟨rfl, rfl, rfl, rfl⟩

theorem fail_called (w : Receiver) (errno : ℤ) : w.Called [] (w.fail errno) :=
  ⟨(List.append_nil _).symm, rfl, rfl, rfl⟩

theorem retryLoop_message {bytes : List UInt8} (h : results w.pos = .message bytes) :
    retryLoop results leave retries buffer w =
      match leave bytes.length (some w.buffers.length) w.errno with
      | some x => (x, w.dequeue bytes)
      | none =>
        match retries with
        | 0 => (.inr (bytes.length, some w.buffers.length), w.dequeue bytes)
        | retries + 1 => retryLoop results leave retries (some w.buffers.length)
            (w.dequeue bytes) := by
  rw [retryLoop.eq_def]
  simp only [recv, h]
  rfl

theorem retryLoop_failure {errno : ℤ} (h : results w.pos = .failure errno) :
    retryLoop results leave retries buffer w =
      match leave (-1) buffer errno with
      | some x => (x, w.fail errno)
      | none =>
        match retries with
        | 0 => (.inr (-1, buffer), w.fail errno)
        | retries + 1 => retryLoop results leave retries buffer (w.fail errno) := by
  rw [retryLoop.eq_def]
  simp only [recv, h]
  rfl

/-- The loop dequeues messages; if there is none, its count is `-1`. -/
theorem retryLoop_spec (hleave : Body leave) (retries : ℕ) (buffer : Option ℕ) (w : Receiver) :
    ∃ x more w', retryLoop results leave retries buffer w = (x, w') ∧ w.Called more w' ∧
      (more = [] → (∃ r, x = .inl r) ∨ x = .inr (-1, buffer)) := by
  induction retries generalizing buffer w with
  | zero =>
    cases hresult : results w.pos with
    | message bytes =>
      rw [retryLoop_message hresult]
      cases leave bytes.length (some w.buffers.length) w.errno with
      | some x => exact ⟨x, [bytes], _, rfl, dequeue_called w bytes, nofun⟩
      | none => exact ⟨_, [bytes], _, rfl, dequeue_called w bytes, nofun⟩
    | failure errno =>
      rw [retryLoop_failure hresult]
      cases hx : leave (-1) buffer errno with
      | some x => exact ⟨x, [], _, rfl, fail_called w errno, fun _ => .inl (hleave _ _ _ hx)⟩
      | none => exact ⟨_, [], _, rfl, fail_called w errno, fun _ => .inr rfl⟩
  | succ retries ih =>
    cases hresult : results w.pos with
    | message bytes =>
      rw [retryLoop_message hresult]
      cases leave bytes.length (some w.buffers.length) w.errno with
      | some x => exact ⟨x, [bytes], _, rfl, dequeue_called w bytes, nofun⟩
      | none =>
        obtain ⟨x, more, w', heq, hcalled, -⟩ := ih (some w.buffers.length) (w.dequeue bytes)
        exact ⟨x, [bytes] ++ more, w', heq, (dequeue_called w bytes).trans hcalled, nofun⟩
    | failure errno =>
      rw [retryLoop_failure hresult]
      cases hx : leave (-1) buffer errno with
      | some x => exact ⟨x, [], _, rfl, fail_called w errno, fun _ => .inl (hleave _ _ _ hx)⟩
      | none =>
        obtain ⟨x, more, w', heq, hcalled, hmore⟩ := ih buffer (w.fail errno)
        exact ⟨x, more, w', heq, (fail_called w errno).trans hcalled, hmore⟩

/-! ### No message among the next results -/

theorem noMessage_zero (pos : ℕ) : NoMessage results eagain pos 0 := nofun

theorem not_noMessage {bytes : List UInt8} {pos : ℕ} (h : results pos = .message bytes) :
    ¬ NoMessage results eagain pos (retries + 1) :=
  fun hno => hno 0 (Nat.succ_pos retries) nofun bytes h

theorem noMessage_of_error {errno : ℤ} {pos : ℕ} (h : results pos = .failure errno)
    (herrno : errno ≠ eagain) (retries : ℕ) : NoMessage results eagain pos retries := by
  intro i hi hbefore bytes hbytes
  cases i with
  | zero =>
    rw [Nat.add_zero, h] at hbytes
    cases hbytes
  | succ i =>
    have hfirst := hbefore 0 (Nat.succ_pos i)
    rw [Nat.add_zero, h] at hfirst
    exact herrno (RecvResult.failure.inj hfirst)

theorem noMessage_succ {pos : ℕ} (h : results pos = .failure eagain) :
    NoMessage results eagain pos (retries + 1) ↔ NoMessage results eagain (pos + 1) retries := by
  constructor
  · intro hno i hi hbefore bytes hbytes
    refine hno (i + 1) (Nat.succ_lt_succ hi)
      (fun j hj => ?_) bytes (by rwa [← Nat.add_assoc, Nat.add_right_comm])
    cases j with
    | zero => exact h
    | succ j =>
      rw [← Nat.add_assoc, Nat.add_right_comm]
      exact hbefore j (Nat.lt_of_succ_lt_succ hj)
  · intro hno i hi hbefore bytes hbytes
    cases i with
    | zero =>
      rw [Nat.add_zero, h] at hbytes
      cases hbytes
    | succ i =>
      rw [← Nat.add_assoc, Nat.add_right_comm] at hbytes
      refine hno i (Nat.lt_of_succ_lt_succ hi) (fun j hj => ?_) bytes hbytes
      have := hbefore (j + 1) (Nat.succ_lt_succ hj)
      rwa [← Nat.add_assoc, Nat.add_right_comm] at this

/-! ### The end of the loop -/

/-- After these ends of the loop a message that was dequeued has no owner. -/
def Drops (x : Received ⊕ ℤ × Option ℕ) : Prop :=
  (∃ r, x = .inl r) ∨ ∃ buffer, x = .inr (-1, buffer)

/-- A body that goes on after `EAGAIN`, and throws after every other failure. -/
structure Retries (eagain : ℤ) (leave : ℤ → Option ℕ → ℤ → Option (Received ⊕ ℤ × Option ℕ)) :
    Prop where
  again : ∀ receiveCount buffer, leave receiveCount buffer eagain = none
  failed : ∀ buffer error, error ≠ eagain → leave (-1) buffer error = some (.inl (.threw .nano))

theorem Retries.body (h : Retries eagain leave) : Body leave := by
  intro buffer error x hx
  by_cases herror : error = eagain
  · rw [herror, h.again] at hx
    cases hx
  · rw [h.failed buffer error herror] at hx
    cases hx
    exact ⟨_, rfl⟩

/-- How the loop ends: with no message, with a message of its last round, or with messages that are
lost. -/
inductive Ends (results : ℕ → RecvResult) (eagain : ℤ) (w : Receiver) (retries : ℕ) :
    Received ⊕ ℤ × Option ℕ → List (List UInt8) → Prop
  | nothing {x : Received ⊕ ℤ × Option ℕ} (hx : x = .inl (.threw .nano) ∨ x = .inr (-1, none))
    (hno : NoMessage results eagain w.pos (retries + 1)) : Ends results eagain w retries x []
  | last {bytes : List UInt8} (hfailures : ∀ j < retries, results (w.pos + j) = .failure eagain)
    (hlast : results (w.pos + retries) = .message bytes) :
    Ends results eagain w retries (.inr (bytes.length, some w.buffers.length)) [bytes]
  | lost {x : Received ⊕ ℤ × Option ℕ} {more : List (List UInt8)} (hmore : more ≠ [])
      (hx : more.length = 1 → Drops x)
    (hmessage : ¬ NoMessage results eagain w.pos retries) : Ends results eagain w retries x more

/-- A message with which the loop goes on is lost. -/
theorem retryLoop_lost (hleave : Body leave) {bytes : List UInt8}
    (h : results w.pos = .message bytes)
    (hnone : leave bytes.length (some w.buffers.length) w.errno = none) :
    ∃ x more w', retryLoop results leave (retries + 1) buffer w = (x, w') ∧
      w.Called more w' ∧ more ≠ [] ∧ (more.length = 1 → Drops x) := by
  obtain ⟨x, more, w', heq, hcalled, hmore⟩ :=
    retryLoop_spec hleave retries (some w.buffers.length) (w.dequeue bytes)
  refine ⟨x, [bytes] ++ more, w', ?_, (dequeue_called w bytes).trans hcalled, nofun, fun hlen => ?_⟩
  · rw [retryLoop_message h, hnone]
    exact heq
  · have hnil : more = [] := List.length_eq_zero_iff.1 (by simpa using hlen)
    rcases hmore hnil with hr | hx
    · exact .inl hr
    · exact .inr ⟨_, hx⟩

/-- How the loop ends when a message in its first round would not end it. -/
theorem retryLoop_ends (hleave : Retries eagain leave) (retries : ℕ) (w : Receiver)
    (hfirst : ∀ bytes, results w.pos = .message bytes → w.errno = eagain) :
    ∃ x more w', retryLoop results leave retries none w = (x, w') ∧ w.Called more w' ∧
      Ends results eagain w retries x more := by
  induction retries generalizing w with
  | zero =>
    cases hresult : results w.pos with
    | message bytes =>
      refine ⟨_, _, _, ?_, dequeue_called w bytes, .last nofun hresult⟩
      rw [retryLoop_message hresult, hfirst bytes hresult, hleave.again]
    | failure errno =>
      by_cases herrno : errno = eagain
      · subst herrno
        refine ⟨_, _, _, ?_, fail_called w errno,
          .nothing (.inr rfl) ((noMessage_succ hresult).2 (noMessage_zero _))⟩
        rw [retryLoop_failure hresult, hleave.again]
      · refine ⟨_, _, _, ?_, fail_called w errno,
          .nothing (.inl rfl) (noMessage_of_error hresult herrno _)⟩
        rw [retryLoop_failure hresult, hleave.failed none errno herrno]
  | succ retries ih =>
    cases hresult : results w.pos with
    | message bytes =>
      have hnone : leave bytes.length (some w.buffers.length) w.errno = none := by
        rw [hfirst bytes hresult]
        exact hleave.again _ _
      obtain ⟨x, more, w', heq, hcalled, hmore, hx⟩ := retryLoop_lost hleave.body hresult hnone
      exact ⟨x, more, w', heq, hcalled, .lost hmore hx (not_noMessage hresult)⟩
    | failure errno =>
      by_cases herrno : errno = eagain
      -- the loop goes on, and the error code says `EAGAIN`
      · subst herrno
        obtain ⟨x, more, w', heq, hcalled, hends⟩ := ih (w.fail errno) fun _ _ => rfl
        refine ⟨x, more, w', ?_, (fail_called w errno).trans hcalled, ?_⟩
        · rw [retryLoop_failure hresult, hleave.again]
          exact heq
        · cases hends with
          | nothing hx hno => exact .nothing hx ((noMessage_succ hresult).2 hno)
          | last hfailures hlast =>
            refine .last (fun j hj => ?_) (by rwa [← Nat.add_assoc, Nat.add_right_comm])
            cases j with
            | zero => exact hresult
            | succ j =>
              rw [← Nat.add_assoc, Nat.add_right_comm]
              exact hfailures j (Nat.lt_of_succ_lt_succ hj)
          | lost hmore hx hmessage =>
            exact .lost hmore hx fun hno => hmessage ((noMessage_succ hresult).1 hno)
      · refine ⟨_, _, _, ?_, fail_called w errno,
          .nothing (.inl rfl) (noMessage_of_error hresult herrno _)⟩
        rw [retryLoop_failure hresult, hleave.failed none errno herrno]

theorem noMessage_mono {pos : ℕ} (h : NoMessage results eagain pos (retries + 1)) :
    NoMessage results eagain pos retries :=
  fun i hi => h i (Nat.lt_succ_of_lt hi)

theorem noMessage_of_failures {pos : ℕ} (h : ∀ j < retries, results (pos + j) = .failure eagain) :
    NoMessage results eagain pos retries := by
  intro i hi _ bytes hbytes
  rw [h i hi] at hbytes
  cases hbytes

end Loop

/-! ### The answer -/

/-- A call does what it should if and only if `P` holds. -/
def Decides (w : Receiver) (P : Prop) (x : Received × Receiver) : Prop :=
  (P ∧ w.Delivers x.1 x.2 ∧ x.2.Wf) ∨ (¬ P ∧ ¬ w.Delivers x.1 x.2)

theorem Wf.of_called (h : w.Wf) (hcalled : w.Called [] w') : w'.Wf := by
  have hbuffers : w'.buffers = w.buffers := hcalled.buffers.trans (List.append_nil _)
  constructor
  · rw [hcalled.freed, hbuffers]
    exact h.freed
  · rw [hcalled.streams, hbuffers]
    exact h.streams
  · rw [hcalled.recycled, hcalled.streams]
    exact h.recycled

/-- A call that dequeues nothing does what it should. -/
theorem delivers_nothing (howned : w.Owned) (r : Received) (hbuffers : w'.buffers = w.buffers)
    (howners : ∀ b, w'.owners b = w.owners b) : w.Delivers r w' := by
  refine ⟨.inl hbuffers, fun b hb => ?_⟩
  rw [hbuffers] at hb
  exact (howners b).trans (howned b hb)

/-- A call that returns the message it has dequeued does what it should. -/
theorem delivers_message (h : w.Wf) (howned : w.Owned) {bytes : List UInt8} {r : Received}
    (hbuffers : w'.buffers = w.buffers ++ [bytes]) (hr : w'.content r = some bytes)
    (howners : ∀ b, w'.owners b = w.owners b + if b = w.buffers.length then 1 else 0) :
    w.Delivers r w' := by
  refine ⟨.inr ⟨bytes, hbuffers, hr⟩, fun b hb => (howners b).trans ?_⟩
  rw [hbuffers, List.length_append, List.length_singleton] at hb
  by_cases hnew : b = w.buffers.length
  · rw [if_pos hnew, h.owners_new hnew.ge]
  · rw [if_neg hnew]
    exact howned b (by omega)

/-- A message that is copied to an array. -/
theorem Wf.copied (h : w.Wf) (howned : w.Owned) {bytes : List UInt8}
    (hcalled : w.Called [bytes] w') :
    let x : Received × Receiver :=
      (.bytes (((w'.buffers[w.buffers.length]?).getD []).take bytes.length),
        { w' with freed := w.buffers.length :: w'.freed })
    w.Delivers x.1 x.2 ∧ x.2.Wf := by
  have hlength : w'.buffers.length = w.buffers.length + 1 := by
    rw [hcalled.buffers, List.length_append, List.length_singleton]
  constructor
  · refine delivers_message h howned hcalled.buffers ?_ fun b => ?_
    · simp [content, hcalled.buffers]
    · have := hcalled.owners b
      simp only [owners, List.count_cons, beq_iff_eq] at this ⊢
      split_ifs <;> omega
  · constructor
    · intro b hb
      change b < w'.buffers.length
      rcases List.mem_cons.1 hb with rfl | hb
      · omega
      · have := h.freed b (hcalled.freed ▸ hb)
        omega
    · intro stream hstream b hb
      have := h.streams stream (hcalled.streams ▸ hstream) b hb
      change b < w'.buffers.length ∧ _
      exact ⟨by omega, this.2⟩
    · intro i hi
      obtain ⟨stream, hget, hnone⟩ := h.recycled i (hcalled.recycled ▸ hi)
      exact ⟨stream, (congrArg (·[i]?) hcalled.streams).trans hget, hnone⟩

/-- A message that is handed to a stream, which is new or was disposed. -/
theorem Wf.streamed (h : w.Wf) (howned : w.Owned) {bytes : List UInt8}
    (hcalled : w.Called [bytes] w') (hbytes : 0 < bytes.length) {i : ℕ} {streams : List ReadStream}
    (hi : streams[i]? = some ⟨some w.buffers.length, bytes.length⟩)
    (hsome : ∀ stream ∈ streams, stream ∈ w.streams ∨
      stream = ⟨some w.buffers.length, bytes.length⟩)
    (hcount : ∀ b, streams.countP (fun stream => stream.buffer = some b) =
      w.streams.countP (fun stream => stream.buffer = some b) + if b = w.buffers.length then 1
        else 0) :
    let x : Received × Receiver := (.stream i, { w' with streams, recycledReadStream := none })
    w.Delivers x.1 x.2 ∧ x.2.Wf := by
  have hlength : w'.buffers.length = w.buffers.length + 1 := by
    rw [hcalled.buffers, List.length_append, List.length_singleton]
  constructor
  · refine delivers_message h howned hcalled.buffers ?_ fun b => ?_
    · simp [content, hi, hcalled.buffers]
    · simp only [owners, hcalled.freed, hcount b, Nat.add_assoc]
  · constructor
    · intro b hb
      have := h.freed b (hcalled.freed ▸ hb)
      change b < w'.buffers.length
      omega
    · intro stream hstream b hb
      change b < w'.buffers.length ∧ _
      rcases hsome stream hstream with hold | rfl
      · have := h.streams stream hold b hb
        exact ⟨by omega, this.2⟩
      · cases hb
        exact ⟨by omega, by simpa using hbytes⟩
    · nofun

section Answers

variable {more : List (List UInt8)} {x : Received ⊕ ℤ × Option ℕ} {P : Prop}

theorem receiveStream_answer {r : Received}
    (h : retryLoop results (receiveStreamBody eagain) maxIoRetries none w = (.inl r, w')) :
    w.receiveStream results eagain = (r, w') := by
  rw [receiveStream, h]

/-- A count that is not positive makes no stream. -/
theorem receiveStream_failed {buffer : Option ℕ} {n : ℤ} (hn : n ≤ 0)
    (h : retryLoop results (receiveStreamBody eagain) maxIoRetries none w =
      (.inr (n, buffer), w')) :
    ∃ e, w.receiveStream results eagain = (.threw e, { w' with recycledReadStream := none }) := by
  rw [receiveStream, h]
  cases buffer with
  | none => exact ⟨.argumentNull, rfl⟩
  | some b =>
    refine ⟨.argumentOutOfRange, ?_⟩
    simp only [checkStream, if_pos hn]

/-- A message that is not empty is handed to a stream. -/
theorem receiveStream_count (hwf : w.Wf) (howned : w.Owned) {bytes : List UInt8}
    (hbytes : bytes ≠ []) (hcalled : w.Called [bytes] w')
    (h : retryLoop results (receiveStreamBody eagain) maxIoRetries none w =
      (.inr (bytes.length, some w.buffers.length), w')) :
    w.Delivers (w.receiveStream results eagain).1 (w.receiveStream results eagain).2 ∧
      (w.receiveStream results eagain).2.Wf := by
  have hlength : 0 < bytes.length := List.length_pos_iff.2 hbytes
  have hpos : ¬ (bytes.length : ℤ) ≤ 0 := by omega
  rw [receiveStream, h]
  simp only [checkStream, if_neg hpos]
  cases hrecycled : w'.recycledReadStream with
  | none =>
    refine hwf.streamed howned hcalled hlength ?_ (fun stream hstream => ?_) fun b => ?_
    · rw [List.getElem?_concat_length]
    · rw [hcalled.streams] at hstream
      rcases List.mem_append.1 hstream with hold | hnew
      · exact .inl hold
      · exact .inr (List.mem_singleton.1 hnew)
    · rw [hcalled.streams, List.countP_append]
      simp [List.countP_singleton, eq_comm]
  | some i =>
    obtain ⟨stream, hget, hnone⟩ := hwf.recycled i (hcalled.recycled ▸ hrecycled)
    obtain ⟨hi, hget'⟩ := List.getElem?_eq_some_iff.1 hget
    simp only [hcalled.streams]
    refine hwf.streamed howned hcalled hlength (List.getElem?_set_self hi)
      (fun stream hstream => ?_) fun b => ?_
    · rcases List.mem_or_eq_of_mem_set hstream with hold | hnew
      · exact .inl hold
      · exact .inr hnew
    · rw [List.countP_set hi]
      simp [hget', hnone, eq_comm]

/-- `ReceiveStream` does not do what it should where the loop loses a message. -/
theorem receiveStream_lost (hwf : w.Wf)
    (h : retryLoop results (receiveStreamBody eagain) maxIoRetries none w = (x, w'))
    (hcalled : w.Called more w') (hmore : more ≠ [])
    (hx : more.length = 1 → Drops x ∨ ∃ buffer, x = .inr (0, buffer)) :
    ¬ w.Delivers (w.receiveStream results eagain).1 (w.receiveStream results eagain).2 := by
  have hbuffers : (w.receiveStream results eagain).2.buffers = w'.buffers := by
    rw [receiveStream, h]
    split
    · rename_i heq
      cases heq
      rfl
    · rename_i heq
      cases heq
      split
      · rfl
      · cases hrecycled : w'.recycledReadStream <;> rfl
  refine not_delivers hmore (hbuffers.trans hcalled.buffers) fun hlen => ?_
  have howners : (w.receiveStream results eagain).2.owners = w'.owners := by
    have hthrew : ∀ n buffer, n ≤ 0 → x = .inr (n, buffer) →
        (w.receiveStream results eagain).2.owners = w'.owners := by
      rintro n buffer hn rfl
      obtain ⟨e, heq⟩ := receiveStream_failed hn h
      rw [heq]
      rfl
    rcases hx hlen with (⟨r, rfl⟩ | ⟨buffer, rfl⟩) | ⟨buffer, rfl⟩
    · rw [receiveStream_answer h]
    · exact hthrew _ buffer (by decide) rfl
    · exact hthrew _ buffer le_rfl rfl
  rw [howners, hcalled.owners, hwf.owners_new le_rfl]

/-- A message is delivered in the first round, unless the error code was left behind, and in the
last round. -/
theorem receiveStream_decides (hwf : w.Wf) (howned : w.Owned) :
    w.Decides (w.Fortunate results eagain .receiveStream) (w.receiveStream results eagain) := by
  have hretries : Retries eagain (receiveStreamBody eagain) := by
    constructor
    · intro receiveCount buffer
      simp [receiveStreamBody]
    · intro buffer error herror
      simp [receiveStreamBody, herror]
  by_cases hfirst : ∀ bytes, results w.pos = .message bytes → w.errno = eagain
  · have hnotFirst :
        ¬ (w.errno ≠ eagain ∧ ∃ bytes, bytes ≠ [] ∧ results w.pos = .message bytes) := by
      rintro ⟨herrno, bytes, -, hresult⟩
      exact herrno (hfirst bytes hresult)
    obtain ⟨x, more, w', heq, hcalled, hends⟩ := retryLoop_ends hretries maxIoRetries w hfirst
    cases hends with
    | nothing hx hno =>
      have hlast : (∀ j < maxIoRetries, results (w.pos + j) = .failure eagain) →
          results (w.pos + maxIoRetries) ≠ .message [] :=
        fun hfailures => hno maxIoRetries (Nat.lt_succ_self _) hfailures []
      refine .inl ⟨.inr ⟨noMessage_mono hno, hlast⟩, ?_⟩
      have hbuffers := hcalled.buffers.trans (List.append_nil _)
      rcases hx with rfl | rfl
      · rw [receiveStream_answer heq]
        exact ⟨delivers_nothing howned _ hbuffers hcalled.owners, hwf.of_called hcalled⟩
      · obtain ⟨e, heq'⟩ := receiveStream_failed (by decide) heq
        rw [heq']
        have hwf' := hwf.of_called hcalled
        exact ⟨delivers_nothing howned _ hbuffers hcalled.owners, hwf'.freed, hwf'.streams, nofun⟩
    | @last bytes hfailures hlast =>
      by_cases hbytes : bytes = []
      · subst hbytes
        refine .inr ⟨?_, receiveStream_lost hwf heq hcalled nofun fun _ => .inr ⟨_, rfl⟩⟩
        rintro (hfirst | ⟨-, hno⟩)
        · exact hnotFirst hfirst
        · exact hno hfailures hlast
      · refine .inl ⟨.inr ⟨noMessage_of_failures hfailures, fun _ hempty => ?_⟩,
          receiveStream_count hwf howned hbytes hcalled heq⟩
        rw [hlast] at hempty
        exact hbytes (RecvResult.message.inj hempty)
    | lost hmore hx hmessage =>
      refine .inr ⟨?_, receiveStream_lost hwf heq hcalled hmore fun hlen => .inl (hx hlen)⟩
      rintro (hfirst | ⟨hno, -⟩)
      · exact hnotFirst hfirst
      · exact hmessage hno
  · push Not at hfirst
    obtain ⟨bytes, hresult, herrno⟩ := hfirst
    have heq : retryLoop results (receiveStreamBody eagain) maxIoRetries none w =
        (.inr (bytes.length, some w.buffers.length), w.dequeue bytes) := by
      have hneg : ¬ (bytes.length : ℤ) < 0 := by omega
      rw [retryLoop_message hresult]
      simp [receiveStreamBody, herrno, hneg]
    by_cases hbytes : bytes = []
    · subst hbytes
      refine .inr
        ⟨?_, receiveStream_lost hwf heq (dequeue_called w []) nofun fun _ => .inr ⟨_, rfl⟩⟩
      rintro (⟨-, bytes, hbytes, hmessage⟩ | ⟨hno, -⟩)
      · rw [hresult] at hmessage
        exact hbytes (RecvResult.message.inj hmessage).symm
      · exact not_noMessage hresult hno
    · exact .inl ⟨.inl ⟨herrno, bytes, hbytes, hresult⟩,
        receiveStream_count hwf howned hbytes (dequeue_called w bytes) heq⟩

end Answers

/-! ### The runs -/

/-- A stream that has no buffer frees nothing. -/
theorem dispose_empty {i : ℕ} {stream : ReadStream} (hget : w.streams[i]? = some stream)
    (hnone : stream.buffer = none) :
    w.dispose i = { w with streams := w.streams.set i ⟨none, -1⟩ } := by
  simp only [dispose, hget, hnone]

theorem dispose_buffer (h : w.Wf) {i b : ℕ} {stream : ReadStream}
    (hget : w.streams[i]? = some stream) (hbuffer : stream.buffer = some b) :
    w.dispose i = { w with
      streams := w.streams.set i ⟨none, -1⟩, freed :=
        b :: w.freed, recycledReadStream := some i } := by
  simp only [dispose, hget, hbuffer,
    if_pos (h.streams stream (List.mem_of_getElem? hget) b hbuffer).2]

/-- A stream that is disposed frees its buffer. -/
theorem dispose_spec (h : w.Wf) (i : ℕ) :
    (w.dispose i).buffers = w.buffers ∧ (∀ b, (w.dispose i).owners b = w.owners b) ∧
      (w.dispose i).Wf := by
  cases hget : w.streams[i]? with
  | none =>
    rw [dispose, hget]
    exact ⟨rfl, fun _ => rfl, h⟩
  | some stream =>
    obtain ⟨hi, hget'⟩ := List.getElem?_eq_some_iff.1 hget
    have hstreams : ∀ s ∈ w.streams.set i ⟨none, -1⟩, ∀ b, s.buffer = some b →
        b < w.buffers.length ∧ 0 < s.length := by
      intro s hs b hb
      rcases List.mem_or_eq_of_mem_set hs with hold | rfl
      · exact h.streams s hold b hb
      · cases hb
    cases hbuffer : stream.buffer with
    | none =>
      rw [dispose_empty hget hbuffer]
      refine ⟨rfl, fun b => ?_, h.freed, hstreams, fun j hj => ?_⟩
      · simp only [owners]
        rw [List.countP_set hi]
        simp [hget', hbuffer]
      · obtain ⟨s, hs, hnone⟩ := h.recycled j hj
        by_cases hij : i = j
        · subst hij
          exact ⟨_, List.getElem?_set_self hi, rfl⟩
        · exact ⟨s, (List.getElem?_set_ne hij).trans hs, hnone⟩
    | some b₀ =>
      rw [dispose_buffer h hget hbuffer]
      refine ⟨rfl, fun b => ?_, fun b hb => ?_, hstreams, fun j hj => ?_⟩
      -- the buffer goes from the stream to those that were freed
      · simp only [owners]
        rw [List.countP_set hi, List.count_cons]
        have hle : (if stream.buffer = some b then 1 else 0) ≤ w.streams.countP fun s =>
            s.buffer = some b := by
          split_ifs with hb
          · exact List.countP_pos_iff.2 ⟨stream, List.mem_of_getElem? hget, decide_eq_true hb⟩
          · omega
        simp only [hget', hbuffer, Option.some.injEq, decide_eq_true_eq, beq_iff_eq, reduceCtorEq,
          if_false] at hle ⊢
        omega
      · rcases List.mem_cons.1 hb with rfl | hb
        · exact (h.streams stream (List.mem_of_getElem? hget) _ hbuffer).1
        · exact h.freed b hb
      · cases hj
        exact ⟨_, List.getElem?_set_self hi, rfl⟩

theorem init_wf : init.Wf := ⟨nofun, nofun, nofun⟩

end Receiver

end NanoSocket

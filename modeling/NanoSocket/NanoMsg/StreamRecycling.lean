import NanoSocket.NanoMsg.ReceiveOnce

/-!
# Streams that are used again (`NanoSocket.cs`, `ReadStream.cs`)

A stream that was disposed is kept by its socket and armed again for a later message.  The user
still has it under the old handle: the two handles are one object.

`HandedOut` numbers the handles that `ReceiveStream` has returned, with the object and the native
buffer that each of them was returned for, and it records under which handle every call of
`nn_freemsg` was made.  With `Allowed` calls every buffer is freed by its own handle
(`sound_iff_allowed`); `Dispose` of an older handle takes the message of the later one away
(`dispose_frees_later`).
-/

namespace NanoSocket

open Runs

/-- A handle: the stream, and the native buffer of the message for which it was returned. -/
structure Handle where
  stream : ℕ
  message : Option ℕ
  deriving DecidableEq, Repr

/-- A socket, the handles that were returned, those on which `Dispose` was called, and the calls of
`nn_freemsg` with the handle that was disposed. -/
structure HandedOut where
  receiver : Receiver
  handles : List Handle
  disposed : List ℕ
  frees : List (ℕ × ℕ)
  deriving DecidableEq, Repr

namespace HandedOut

/-- What the user does with streams. -/
inductive Action
  | receiveStream
  | dispose (handle : ℕ)
  deriving DecidableEq, Repr

/-- A new socket. -/
def init : HandedOut := { receiver := Receiver.init, handles := [], disposed := [], frees := [] }

section Step

-- what `nn_recv` does, and `Symbols.EAGAIN`
variable (results : ℕ → RecvResult) (eagain : ℤ)

/-- `ReceiveStream`: a stream is returned under a new handle. -/
def receiveStream (s : HandedOut) : HandedOut :=
  let (r, receiver) := s.receiver.receiveStream results eagain
  match r with
  | .stream i =>
    { s with receiver,
             handles := s.handles ++ [⟨i, (receiver.streams[i]?).bind ReadStream.buffer⟩] }
  | _ => { s with receiver }

/-- `Dispose` of a handle that was returned. -/
def dispose (s : HandedOut) (h : ℕ) : HandedOut :=
  match s.handles[h]? with
  | none => s
  | some handle =>
    let receiver := s.receiver.dispose handle.stream
    let freed := receiver.freed.take (receiver.freed.length - s.receiver.freed.length)
    { s with receiver, disposed := h :: s.disposed,
             frees := freed.map (fun b => (b, h)) ++ s.frees }

/-- One call. -/
def step (s : HandedOut) : Action → Except ClrException (HandedOut × Unit)
  | .receiveStream => .ok (s.receiveStream results eagain, ())
  | .dispose h => .ok (s.dispose h, ())

end Step

/-- Every message has a handle.  As long as it was not disposed, its stream has the whole message,
and nobody has freed it; then it was freed once, under this handle. -/
structure Sound (s : HandedOut) : Prop where
  handed : ∀ b < s.receiver.buffers.length, ∃ h i : ℕ, s.handles[h]? = some ⟨i, some b⟩
  live : ∀ h i b : ℕ, s.handles[h]? = some ⟨i, some b⟩ → h ∉ s.disposed →
    (∃ bytes : List UInt8, s.receiver.buffers[b]? = some bytes ∧
      s.receiver.streams[i]? = some ⟨some b, bytes.length⟩) ∧
      ∀ free ∈ s.frees, free.1 ≠ b
  freed : ∀ h i b : ℕ, s.handles[h]? = some ⟨i, some b⟩ → h ∈ s.disposed →
    s.frees.filter (fun free => free.1 = b) = [(b, h)]
  owner : ∀ free ∈ s.frees, ∃ i : ℕ, s.handles[free.2]? = some ⟨i, some free.1⟩

/-- The calls with which all goes well: a message is received that is not lost, or a handle is
disposed whose stream has no message, or has the message for which the handle was returned. -/
def Allowed (results : ℕ → RecvResult) (eagain : ℤ) (s : HandedOut) : Action → Prop
  | .receiveStream => s.receiver.Fortunate results eagain .receiveStream
  | .dispose h => ∀ handle, s.handles[h]? = some handle →
      ∀ stream, s.receiver.streams[handle.stream]? = some stream →
    stream.buffer = none ∨ stream.buffer = handle.message

/-- A call after which the handles are as they should be. -/
def SoundNext (results : ℕ → RecvResult) (eagain : ℤ) (s : HandedOut) (a : Action) : Prop :=
  ∀ s' r, s.step results eagain a = .ok (s', r) → s'.Sound

end HandedOut

/-! ### What a call of `ReceiveStream` does -/

namespace Receiver

variable {results : ℕ → RecvResult} {eagain : ℤ} {w w' : Receiver} {more : List (List UInt8)}

/-- A body that ends the loop with an exception, or with the count and the pointer of the round. -/
def Passes (leave : ℤ → Option ℕ → ℤ → Option (Received ⊕ ℤ × Option ℕ)) : Prop :=
  ∀ n buffer error x, leave n buffer error = some x → x = .inl (.threw .nano) ∨ x = .inr (n, buffer)

theorem receiveStreamBody_passes (eagain : ℤ) : Passes (receiveStreamBody eagain) := by
  intro n buffer error x hx
  unfold receiveStreamBody at hx
  split_ifs at hx <;> cases hx
  · exact .inl rfl
  · exact .inr rfl

/-- A count of `-1` comes with a message that was dequeued in the loop. -/
def Counted (w : Receiver) (more : List (List UInt8)) (x : Received ⊕ ℤ × Option ℕ) : Prop :=
  x = .inl (.threw .nano) ∨ (∃ buffer, x = .inr (-1, buffer)) ∨
    ∃ k, ∃ bytes : List UInt8, more[k]? = some bytes ∧
      x = .inr (bytes.length, some (w.buffers.length + k))

theorem Counted.of_called {x : Received ⊕ ℤ × Option ℕ} {first : List (List UInt8)}
    (hcalled : w.Called first w') (h : w'.Counted more x) : w.Counted (first ++ more) x := by
  rcases h with h | h | ⟨k, bytes, hk, hx⟩
  · exact .inl h
  · exact .inr (.inl h)
  · refine .inr (.inr ⟨first.length + k, bytes, ?_, ?_⟩)
    · rw [List.getElem?_append_right (Nat.le_add_right _ _), Nat.add_sub_cancel_left]
      exact hk
    · rw [hx, hcalled.buffers, List.length_append, Nat.add_assoc]

theorem counted_message (w : Receiver) (bytes : List UInt8) :
    w.Counted [bytes] (.inr (bytes.length, some w.buffers.length)) :=
  .inr (.inr ⟨0, bytes, rfl, rfl⟩)

theorem retryLoop_counted (results : ℕ → RecvResult)
    {leave : ℤ → Option ℕ → ℤ → Option (Received ⊕ ℤ × Option ℕ)} (hleave : Passes leave)
    (retries : ℕ) (buffer : Option ℕ) (w : Receiver) :
    ∃ x more w', retryLoop results leave retries buffer w = (x, w') ∧ w.Called more w' ∧
      w.Counted more x := by
  -- a round that ends the loop, or is the last one
  have hround :
      ∀ (w : Receiver) (n : ℤ) (buffer : Option ℕ) (x : Received ⊕ ℤ × Option ℕ)
      (more : List (List UInt8)),
      leave n buffer w.errno = some x → w.Counted more (.inr (n, buffer)) → w.Counted more x := by
    intro w n buffer x more hx hcounted
    rcases hleave _ _ _ _ hx with rfl | rfl
    · exact .inl rfl
    · exact hcounted
  induction retries generalizing buffer w with
  | zero =>
    cases hresult : results w.pos with
    | message bytes =>
      rw [retryLoop_message hresult]
      cases hx : leave bytes.length (some w.buffers.length) w.errno with
      | some x => exact ⟨x, [bytes], _, rfl, dequeue_called w bytes,
          hround _ _ _ _ _ hx (counted_message w bytes)⟩
      | none => exact ⟨_, [bytes], _, rfl, dequeue_called w bytes, counted_message w bytes⟩
    | failure errno =>
      rw [retryLoop_failure hresult]
      cases hx : leave (-1) buffer errno with
      | some x => exact ⟨x, [], _, rfl, fail_called w errno,
          hround (w.fail errno) _ _ _ _ hx (.inr (.inl ⟨_, rfl⟩))⟩
      | none => exact ⟨_, [], _, rfl, fail_called w errno, .inr (.inl ⟨_, rfl⟩)⟩
  | succ retries ih =>
    cases hresult : results w.pos with
    | message bytes =>
      rw [retryLoop_message hresult]
      cases hx : leave bytes.length (some w.buffers.length) w.errno with
      | some x => exact ⟨x, [bytes], _, rfl, dequeue_called w bytes,
          hround _ _ _ _ _ hx (counted_message w bytes)⟩
      | none =>
        obtain ⟨x, more, w', heq, hcalled, hcounted⟩ := ih (some w.buffers.length) (w.dequeue bytes)
        exact ⟨x, [bytes] ++ more, w', heq, (dequeue_called w bytes).trans hcalled,
          hcounted.of_called (dequeue_called w bytes)⟩
    | failure errno =>
      rw [retryLoop_failure hresult]
      cases hx : leave (-1) buffer errno with
      | some x => exact ⟨x, [], _, rfl, fail_called w errno,
          hround (w.fail errno) _ _ _ _ hx (.inr (.inl ⟨_, rfl⟩))⟩
      | none =>
        obtain ⟨x, more, w', heq, hcalled, hcounted⟩ := ih buffer (w.fail errno)
        exact ⟨x, [] ++ more, w', heq, (fail_called w errno).trans hcalled,
          hcounted.of_called (fail_called w errno)⟩

/-- What a call of `ReceiveStream` leaves behind: no new stream, or one that has a message of this
call. -/
inductive Streamed (w : Receiver) (more : List (List UInt8)) : Received → Receiver → Prop
  | threw {e : ClrException} {w' : Receiver} (hstreams : w'.streams = w.streams) :
      Streamed w more (.threw e) w'
  | stream {i k : ℕ} {bytes : List UInt8} {w' : Receiver} (hk : more[k]? = some bytes)
    (hget : w'.streams[i]? = some ⟨some (w.buffers.length + k), bytes.length⟩)
    (hfree : ∀ stream ∈ w.streams[i]?, stream.buffer = none)
    (hother : ∀ j : ℕ, j ≠ i → w'.streams[j]? = w.streams[j]?)
    (hone : more.length = 1 → w.Delivers (.stream i) w') :
    Streamed w more (.stream i) w'

theorem receiveStream_streamed (results : ℕ → RecvResult) (eagain : ℤ) (hwf : w.Wf)
    (howned : w.Owned) :
    ∃ more, (w.receiveStream results eagain).2.buffers = w.buffers ++ more ∧
      (w.receiveStream results eagain).2.freed = w.freed ∧
      w.Streamed more (w.receiveStream results eagain).1 (w.receiveStream results eagain).2 := by
  obtain ⟨x, more, w', heq, hcalled, hcounted⟩ :=
    retryLoop_counted results (receiveStreamBody_passes eagain) maxIoRetries none w
  refine ⟨more, ?_⟩
  rcases hcounted with rfl | ⟨buffer, rfl⟩ | ⟨k, bytes, hk, rfl⟩
  · rw [receiveStream_answer heq]
    exact ⟨hcalled.buffers, hcalled.freed, .threw hcalled.streams⟩
  · obtain ⟨e, heq'⟩ := receiveStream_failed (by decide) heq
    rw [heq']
    exact ⟨hcalled.buffers, hcalled.freed, .threw hcalled.streams⟩
  · by_cases hbytes : bytes = []
    · subst hbytes
      obtain ⟨e, heq'⟩ := receiveStream_failed le_rfl heq
      rw [heq']
      exact ⟨hcalled.buffers, hcalled.freed, .threw hcalled.streams⟩
    · have hlength : 0 < bytes.length := List.length_pos_iff.2 hbytes
      have hpos : ¬ (bytes.length : ℤ) ≤ 0 := by omega
      have hone : more.length = 1 →
          w.Delivers (w.receiveStream results eagain).1 (w.receiveStream results eagain).2 := by
        intro hlen
        obtain ⟨bytes', rfl⟩ := List.length_eq_one_iff.1 hlen
        obtain ⟨hk0, hbytes'⟩ := List.getElem?_eq_some_iff.1 hk
        obtain rfl : k = 0 := Nat.lt_one_iff.1 hk0
        cases hbytes'
        exact (receiveStream_count hwf howned hbytes hcalled heq).1
      rw [receiveStream, heq] at hone ⊢
      simp only [checkStream, if_neg hpos] at hone ⊢
      cases hrecycled : w'.recycledReadStream with
      | none =>
        simp only [hrecycled] at hone
        refine ⟨hcalled.buffers, hcalled.freed, .stream hk List.getElem?_concat_length ?_ ?_ hone⟩
        · intro stream hstream
          rw [hcalled.streams, List.getElem?_eq_none le_rfl] at hstream
          cases hstream
        · intro j hj
          rw [hcalled.streams] at hj ⊢
          rcases Nat.lt_or_gt_of_ne hj with hlt | hgt
          · exact List.getElem?_append_left hlt
          · rw [List.getElem?_eq_none hgt.le, List.getElem?_eq_none]
            rw [List.length_append, List.length_singleton]
            exact hgt
      | some i =>
        obtain ⟨stream, hget, hnone⟩ := hwf.recycled i (hcalled.recycled ▸ hrecycled)
        obtain ⟨hi, -⟩ := List.getElem?_eq_some_iff.1 hget
        simp only [hrecycled] at hone
        refine ⟨hcalled.buffers, hcalled.freed, .stream hk ?_ ?_ ?_ hone⟩
        · rw [hcalled.streams]
          exact List.getElem?_set_self hi
        · intro other hother
          rw [hget] at hother
          cases hother
          exact hnone
        · intro j hj
          rw [hcalled.streams]
          exact List.getElem?_set_ne (Ne.symm hj)

end Receiver

namespace HandedOut

variable {results : ℕ → RecvResult} {eagain : ℤ} {s : HandedOut}

/-! ### What the calls keep -/

/-- The handles and the streams: a message has one handle, and a stream has a message only for a
handle that was not disposed. -/
structure Inv (s : HandedOut) : Prop where
  wf : s.receiver.Wf
  owned : s.receiver.Owned
  sound : s.Sound
  message : ∀ (h : ℕ) (handle : Handle), s.handles[h]? = some handle →
    ∃ b < s.receiver.buffers.length, handle.message = some b
  unique : ∀ h h' i i' b : ℕ, s.handles[h]? = some ⟨i, some b⟩ →
    s.handles[h']? = some ⟨i', some b⟩ → h = h'
  held : ∀ (i : ℕ) (stream : ReadStream) (b : ℕ), s.receiver.streams[i]? = some stream →
    stream.buffer = some b → ∃ h : ℕ, s.handles[h]? = some ⟨i, some b⟩ ∧ h ∉ s.disposed
  disposed : ∀ h ∈ s.disposed, h < s.handles.length

theorem init_inv : init.Inv :=
  ⟨Receiver.init_wf, nofun, ⟨nofun, nofun, nofun, nofun⟩, nofun, nofun, nofun, nofun⟩

theorem Inv.message_lt (hs : s.Inv) {h i b : ℕ} (hh : s.handles[h]? = some ⟨i, some b⟩) :
    b < s.receiver.buffers.length := by
  obtain ⟨b', hb', heq⟩ := hs.message h _ hh
  cases heq
  exact hb'

/-- The handles after a new one was returned. -/
theorem handle_snoc {handles : List Handle} {new handle : Handle} {h : ℕ}
    (hget : (handles ++ [new])[h]? = some handle) :
    handles[h]? = some handle ∨ h = handles.length ∧ handle = new := by
  rcases Nat.lt_trichotomy h handles.length with hlt | rfl | hgt
  · rw [List.getElem?_append_left hlt] at hget
    exact .inl hget
  · rw [List.getElem?_concat_length] at hget
    exact .inr ⟨rfl, (Option.some_inj.1 hget).symm⟩
  · rw [List.getElem?_eq_none (by simpa using hgt)] at hget
    cases hget

theorem handle_old {handles : List Handle} {new handle : Handle} {h : ℕ}
    (hget : handles[h]? = some handle) :
    (handles ++ [new])[h]? = some handle :=
  (List.getElem?_append_left (List.getElem?_eq_some_iff.1 hget).1).trans hget

/-- A call of `ReceiveStream` that returns no stream. -/
theorem Inv.threw (hs : s.Inv) {w' : Receiver} (hwf : w'.Wf) (howned : w'.Owned)
    (hbuffers : w'.buffers = s.receiver.buffers) (hstreams : w'.streams = s.receiver.streams) :
    Inv { s with receiver := w' } := by
  refine ⟨hwf, howned, ⟨?_, ?_, hs.sound.freed, hs.sound.owner⟩, ?_, hs.unique, ?_, hs.disposed⟩
  · simpa only [hbuffers] using hs.sound.handed
  · simpa only [hbuffers, hstreams] using hs.sound.live
  · simpa only [hbuffers] using hs.message
  · simpa only [hstreams] using hs.held

/-- A call of `ReceiveStream` that returns a stream with the one message that it has dequeued. -/
theorem Inv.streamed (hs : s.Inv) {w' : Receiver} {bytes : List UInt8} {i : ℕ} (hwf : w'.Wf)
    (howned : w'.Owned) (hbuffers : w'.buffers = s.receiver.buffers ++ [bytes])
    (hget : w'.streams[i]? = some ⟨some s.receiver.buffers.length, bytes.length⟩)
    (hfree : ∀ stream ∈ s.receiver.streams[i]?, stream.buffer = none)
    (hother : ∀ j : ℕ, j ≠ i → w'.streams[j]? = s.receiver.streams[j]?) :
    Inv { s with receiver := w',
                 handles := s.handles ++ [⟨i, some s.receiver.buffers.length⟩] } := by
  have hlength : w'.buffers.length = s.receiver.buffers.length + 1 := by
    rw [hbuffers, List.length_append, List.length_singleton]
  have hfresh : s.handles.length ∉ s.disposed := fun hmem =>
    absurd (hs.disposed _ hmem) (Nat.lt_irrefl _)
  have hfrees : ∀ free ∈ s.frees, free.1 < s.receiver.buffers.length := by
    intro free hmem
    obtain ⟨j, hj⟩ := hs.sound.owner free hmem
    exact hs.message_lt hj
  refine ⟨hwf, howned, ⟨?_, ?_, ?_, ?_⟩, ?_, ?_, ?_, ?_⟩
  · intro b hb
    change b < w'.buffers.length at hb
    rcases Nat.lt_or_ge b s.receiver.buffers.length with hlt | hge
    · obtain ⟨h, j, hh⟩ := hs.sound.handed b hlt
      exact ⟨h, j, handle_old hh⟩
    · have hb' : b = s.receiver.buffers.length := by omega
      exact ⟨s.handles.length, i, hb' ▸ List.getElem?_concat_length⟩
  · intro h j b hh hlive
    rcases handle_snoc hh with hh | ⟨rfl, heq⟩
    · obtain ⟨⟨bytes', hbytes', hstream⟩, hnot⟩ := hs.sound.live h j b hh hlive
      refine ⟨⟨bytes', ?_, ?_⟩, hnot⟩
      · change w'.buffers[b]? = _
        rw [hbuffers, List.getElem?_append_left (hs.message_lt hh)]
        exact hbytes'
      · have hji : j ≠ i := by
          rintro rfl
          have hnone := hfree _ hstream
          cases hnone
        exact (hother j hji).trans hstream
    · cases heq
      refine ⟨⟨bytes, ?_, hget⟩, fun free hmem => (hfrees free hmem).ne⟩
      change w'.buffers[_]? = _
      rw [hbuffers]
      exact List.getElem?_concat_length
  · intro h j b hh hdisposed
    rcases handle_snoc hh with hh | ⟨rfl, -⟩
    · exact hs.sound.freed h j b hh hdisposed
    · exact absurd hdisposed hfresh
  · intro free hmem
    obtain ⟨j, hj⟩ := hs.sound.owner free hmem
    exact ⟨j, handle_old hj⟩
  · intro h handle hh
    change ∃ b < w'.buffers.length, _
    rcases handle_snoc hh with hh | ⟨rfl, rfl⟩
    · obtain ⟨b, hb, heq⟩ := hs.message h handle hh
      exact ⟨b, by omega, heq⟩
    · exact ⟨s.receiver.buffers.length, by omega, rfl⟩
  · intro h h' j j' b hh hh'
    rcases handle_snoc hh with hh | ⟨rfl, heq⟩ <;> rcases handle_snoc hh' with hh' | ⟨rfl, heq'⟩
    · exact hs.unique h h' j j' b hh hh'
    · cases heq'
      exact absurd (hs.message_lt hh) (Nat.lt_irrefl _)
    · cases heq
      exact absurd (hs.message_lt hh') (Nat.lt_irrefl _)
    · rfl
  · intro j stream b hj hb
    by_cases hji : j = i
    · subst hji
      cases hget.symm.trans hj
      cases hb
      exact ⟨s.handles.length, List.getElem?_concat_length, hfresh⟩
    · obtain ⟨h, hh, hlive⟩ := hs.held j stream b ((hother j hji).symm.trans hj) hb
      exact ⟨h, handle_old hh, hlive⟩
  · intro h hmem
    change h < (s.handles ++ [_]).length
    rw [List.length_append]
    exact Nat.lt_add_right _ (hs.disposed h hmem)

/-- `Dispose` of a handle: it frees what its stream has. -/
theorem dispose_eq {h b : ℕ} {handle : Handle} {stream : ReadStream} (hs : s.Inv)
    (hh : s.handles[h]? = some handle) (hget : s.receiver.streams[handle.stream]? = some stream)
    (hbuffer : stream.buffer = some b) :
    s.dispose h =
      { s with
        receiver := s.receiver.dispose handle.stream
        disposed := h :: s.disposed
        frees := (b, h) :: s.frees } := by
  simp [dispose, hh, Receiver.dispose_buffer hs.wf hget hbuffer]

theorem dispose_eq_of_freed {h : ℕ} {handle : Handle} (hh : s.handles[h]? = some handle)
    (hfreed : (s.receiver.dispose handle.stream).freed = s.receiver.freed) :
    s.dispose h = { s with receiver := s.receiver.dispose handle.stream,
                           disposed := h :: s.disposed } := by
  simp [dispose, hh, hfreed]

/-- What `Dispose` of a handle keeps, if no other handle needs its stream. -/
theorem Inv.closed (hs : s.Inv) {h i b : ℕ} {w' : Receiver} {frees : List (ℕ × ℕ)}
    (hh : s.handles[h]? = some ⟨i, some b⟩) (hwf : w'.Wf) (howned : w'.Owned)
    (hbuffers : w'.buffers = s.receiver.buffers)
    (hother : ∀ j : ℕ, j ≠ i → w'.streams[j]? = s.receiver.streams[j]?)
    (hclosed : ∀ stream ∈ w'.streams[i]?, stream.buffer = none)
    (halone : ∀ h' b' : ℕ, s.handles[h']? = some ⟨i, some b'⟩ → h' ∉ s.disposed → h' = h)
    (hfrees : h ∈ s.disposed ∧ frees = s.frees ∨ h ∉ s.disposed ∧ frees = (b, h) :: s.frees) :
    Inv { s with receiver := w', disposed := h :: s.disposed, frees } := by
  -- the calls of `nn_freemsg` for a message of another handle
  have hothers : ∀ h' j b' : ℕ, s.handles[h']? = some ⟨j, some b'⟩ → h' ≠ h →
      frees.filter (fun free => free.1 = b') = s.frees.filter (fun free => free.1 = b') := by
    intro h' j b' hh' hne
    rcases hfrees with ⟨-, rfl⟩ | ⟨-, rfl⟩
    · rfl
    · have hb : b ≠ b' := by
        rintro rfl
        exact hne (hs.unique h' h j i b hh' hh)
      rw [List.filter_cons_of_neg (by simpa using hb)]
  refine ⟨hwf, howned, ⟨?_, ?_, ?_, ?_⟩, ?_, hs.unique, ?_, ?_⟩
  · simpa only [hbuffers] using hs.sound.handed
  · intro h' j b' hh' hlive
    obtain ⟨hne, hlive⟩ : h' ≠ h ∧ h' ∉ s.disposed := by
      rwa [List.mem_cons, not_or] at hlive
    obtain ⟨⟨bytes, hbytes, hstream⟩, hnot⟩ := hs.sound.live h' j b' hh' hlive
    have hji : j ≠ i := by
      rintro rfl
      exact hne (halone h' b' hh' hlive)
    refine ⟨⟨bytes, hbuffers.symm ▸ hbytes, (hother j hji).trans hstream⟩, ?_⟩
    have hnil : s.frees.filter (fun free => free.1 = b') = [] :=
      List.filter_eq_nil_iff.2 fun free hmem => by simpa using hnot free hmem
    intro free hmem
    have := List.filter_eq_nil_iff.1 ((hothers h' j b' hh' hne).trans hnil) free hmem
    simpa using this
  · intro h' j b' hh' hmem
    by_cases hne : h' = h
    · subst hne
      cases hh.symm.trans hh'
      rcases hfrees with ⟨hbefore, rfl⟩ | ⟨hbefore, rfl⟩
      · exact hs.sound.freed h' i b hh hbefore
      · have hnil : s.frees.filter (fun free => free.1 = b) = [] :=
          List.filter_eq_nil_iff.2 fun free hmem => by
            simpa using (hs.sound.live h' i b hh hbefore).2 free hmem
        change List.filter _ ((b, h') :: s.frees) = _
        rw [List.filter_cons_of_pos (by simp), hnil]
    · rw [hothers h' j b' hh' hne]
      exact hs.sound.freed h' j b' hh' ((List.mem_cons.1 hmem).resolve_left hne)
  · intro free hmem
    rcases hfrees with ⟨-, rfl⟩ | ⟨-, rfl⟩
    · exact hs.sound.owner free hmem
    · rcases List.mem_cons.1 hmem with rfl | hmem
      · exact ⟨i, hh⟩
      · exact hs.sound.owner free hmem
  · simpa only [hbuffers] using hs.message
  · intro j stream b' hj hb'
    have hji : j ≠ i := by
      rintro rfl
      rw [hclosed stream hj] at hb'
      cases hb'
    obtain ⟨h', hh', hlive⟩ := hs.held j stream b' ((hother j hji).symm.trans hj) hb'
    have hne : h' ≠ h := by
      rintro rfl
      cases hh.symm.trans hh'
      exact hji rfl
    refine ⟨h', hh', ?_⟩
    rw [List.mem_cons, not_or]
    exact ⟨hne, hlive⟩
  · intro h' hmem
    rcases List.mem_cons.1 hmem with rfl | hmem
    · exact (List.getElem?_eq_some_iff.1 hh).1
    · exact hs.disposed h' hmem

/-- After `Dispose` a stream has no buffer, and the others are as before. -/
theorem dispose_streams (w : Receiver) (i : ℕ) :
    (∀ j : ℕ, j ≠ i → (w.dispose i).streams[j]? = w.streams[j]?) ∧
      ∀ stream ∈ (w.dispose i).streams[i]?, stream.buffer = none := by
  cases hget : w.streams[i]? with
  | none => simp [Receiver.dispose, hget]
  | some stream =>
    have hstreams : (w.dispose i).streams = w.streams.set i ⟨none, -1⟩ := by
      simp only [Receiver.dispose, hget]
      split
      · rfl
      · split_ifs <;> rfl
    rw [hstreams]
    refine ⟨fun j hj => List.getElem?_set_ne hj.symm, fun closed hclosed => ?_⟩
    rw [List.getElem?_set_self (List.getElem?_eq_some_iff.1 hget).1] at hclosed
    cases hclosed
    rfl

/-- A handle that was not disposed is the only one for its stream. -/
theorem Inv.alone (hs : s.Inv) {h h' i b b' : ℕ} (hh : s.handles[h]? = some ⟨i, some b⟩)
    (hlive : h ∉ s.disposed) (hh' : s.handles[h']? = some ⟨i, some b'⟩) (hlive' : h' ∉ s.disposed) :
    h' = h := by
  obtain ⟨⟨bytes, -, hstream⟩, -⟩ := hs.sound.live h i b hh hlive
  obtain ⟨⟨bytes', -, hstream'⟩, -⟩ := hs.sound.live h' i b' hh' hlive'
  have hsame : some b = some b' :=
    congrArg ReadStream.buffer (Option.some_inj.1 (hstream.symm.trans hstream'))
  cases hsame
  exact hs.unique h' h i i b hh' hh

/-- `Dispose` keeps the invariant exactly when it is allowed. -/
theorem Inv.dispose (hs : s.Inv) (h : ℕ) (hallowed : s.Allowed results eagain (.dispose h)) :
    (s.dispose h).Inv := by
  cases hh : s.handles[h]? with
  | none =>
    rw [HandedOut.dispose, hh]
    exact hs
  | some handle =>
    obtain ⟨i, message⟩ := handle
    obtain ⟨b, -, hmessage⟩ := hs.message h _ hh
    cases hmessage
    obtain ⟨hbuffers, howners, hwf⟩ := Receiver.dispose_spec hs.wf i
    have howned := (Receiver.delivers_nothing hs.owned .disposed hbuffers howners).2
    obtain ⟨hother, hclosed⟩ := dispose_streams s.receiver i
    by_cases hmem : h ∈ s.disposed
    · -- the stream cannot have the message, which was freed
      have hnone : ∀ stream ∈ s.receiver.streams[i]?, stream.buffer = none := by
        intro stream hstream
        rcases hallowed _ hh stream hstream with hnone | hsome
        · exact hnone
        · obtain ⟨h', hh', hlive⟩ := hs.held i stream b hstream hsome
          exact absurd (hs.unique h h' i i b hh hh' ▸ hmem) hlive
      have hfreed : (s.receiver.dispose i).freed = s.receiver.freed := by
        cases hget : s.receiver.streams[i]? with
        | none => simp [Receiver.dispose, hget]
        | some stream => rw [Receiver.dispose_empty hget (hnone stream hget)]
      rw [dispose_eq_of_freed hh hfreed]
      refine hs.closed hh hwf howned hbuffers hother hclosed (fun h' b' hh' hlive => ?_)
        (.inl ⟨hmem, rfl⟩)
      obtain ⟨⟨bytes, -, hstream⟩, -⟩ := hs.sound.live h' i b' hh' hlive
      cases hnone _ hstream
    · obtain ⟨⟨bytes, -, hstream⟩, -⟩ := hs.sound.live h i b hh hmem
      rw [dispose_eq hs hh hstream rfl]
      exact hs.closed hh hwf howned hbuffers hother hclosed (fun h' b' => hs.alone hh hmem)
        (.inr ⟨hmem, rfl⟩)

/-- `Dispose` that is not allowed frees the message of a later handle. -/
theorem Inv.not_sound_dispose (hs : s.Inv) {h : ℕ}
    (hallowed : ¬ s.Allowed results eagain (.dispose h)) :
    ¬ (s.dispose h).Sound := by
  intro hsound
  apply hallowed
  intro handle hh stream hstream
  cases hbuffer : stream.buffer with
  | none => exact .inl rfl
  | some b =>
    right
    rw [dispose_eq hs hh hstream hbuffer] at hsound
    obtain ⟨i, hi⟩ := hsound.owner (b, h) (List.mem_cons_self ..)
    cases hh.symm.trans hi
    rfl

/-- `ReceiveStream` in terms of what the call of the socket returns. -/
theorem receiveStream_threw {e : ClrException} {w' : Receiver}
    (h : s.receiver.receiveStream results eagain = (.threw e, w')) :
    s.receiveStream results eagain = { s with receiver := w' } := by
  rw [receiveStream, h]

theorem receiveStream_stream {i : ℕ} {w' : Receiver} {stream : ReadStream}
    (h : s.receiver.receiveStream results eagain = (.stream i, w'))
    (hget : w'.streams[i]? = some stream) :
    s.receiveStream results eagain =
      { s with receiver := w', handles := s.handles ++ [⟨i, stream.buffer⟩] } := by
  rw [receiveStream, h]
  simp only [hget, Option.bind_some]

/-- A call that loses no message keeps the invariant. -/
theorem Inv.receiveStream (hs : s.Inv) (hallowed : s.Allowed results eagain .receiveStream) :
    (s.receiveStream results eagain).Inv := by
  obtain ⟨more, hbuffers, -, hstreamed⟩ :=
    Receiver.receiveStream_streamed results eagain hs.wf hs.owned
  rcases Receiver.receiveStream_decides hs.wf hs.owned with ⟨-, hdelivers, hwf⟩ | ⟨hnot, -⟩
  · cases heq : s.receiver.receiveStream results eagain with
    | mk r w' =>
      rw [heq] at hbuffers hstreamed hdelivers hwf
      cases hstreamed with
      | threw hstreams =>
        rw [receiveStream_threw heq]
        rcases hdelivers.1 with hsame | ⟨bytes, -, hcontent⟩
        · exact hs.threw hwf hdelivers.2 hsame hstreams
        · cases hcontent
      | @stream i k bytes _ hk hget hfree hother _ =>
        rw [receiveStream_stream heq hget]
        -- the message of the stream is the only one of the call
        obtain ⟨bytes', hone⟩ : ∃ bytes', more = [bytes'] := by
          rcases hdelivers.1 with hsame | ⟨bytes', hbytes', -⟩
          · cases List.append_right_eq_self.1 (hbuffers.symm.trans hsame)
            cases hk
          · exact ⟨bytes', List.append_cancel_left (hbuffers.symm.trans hbytes')⟩
        subst hone
        obtain ⟨hk0, hbytes'⟩ := List.getElem?_eq_some_iff.1 hk
        obtain rfl : k = 0 := Nat.lt_one_iff.1 hk0
        cases hbytes'
        exact hs.streamed hwf hdelivers.2 hbuffers hget hfree hother
  · exact absurd hallowed hnot

/-- A call that loses a message leaves it without a handle. -/
theorem Inv.not_sound_receiveStream (hs : s.Inv)
    (hallowed : ¬ s.Allowed results eagain .receiveStream) :
    ¬ (s.receiveStream results eagain).Sound := by
  intro hsound
  obtain ⟨more, hbuffers, hfreed, hstreamed⟩ :=
    Receiver.receiveStream_streamed results eagain hs.wf hs.owned
  rcases Receiver.receiveStream_decides hs.wf hs.owned with ⟨hfortunate, -⟩ | ⟨-, hnot⟩
  · exact hallowed hfortunate
  · apply hnot
    cases heq : s.receiver.receiveStream results eagain with
    | mk r w' =>
      rw [heq] at hbuffers hfreed hstreamed
      cases hstreamed with
      | threw hstreams =>
        rw [receiveStream_threw heq] at hsound
        have hnil : more = [] := by
          by_contra hne
          have hlt : s.receiver.buffers.length < w'.buffers.length := by
            rw [hbuffers, List.length_append]
            exact Nat.lt_add_of_pos_right (List.length_pos_iff.2 hne)
          obtain ⟨h, i, hh⟩ := hsound.handed _ hlt
          exact Nat.lt_irrefl _ (hs.message_lt hh)
        subst hnil
        refine Receiver.delivers_nothing hs.owned _ (hbuffers.trans (List.append_nil _)) fun b => ?_
        rw [Receiver.owners, Receiver.owners, hfreed, hstreams]
      | @stream i k bytes _ hk hget hfree hother hone =>
        rw [receiveStream_stream heq hget] at hsound
        -- a second message would have no handle
        have hthis : ∀ b, s.receiver.buffers.length ≤ b → b < w'.buffers.length →
            b = s.receiver.buffers.length + k := by
          intro b hle hlt
          obtain ⟨h, j, hh⟩ := hsound.handed b hlt
          rcases handle_snoc hh with hh | ⟨-, hnew⟩
          · exact absurd (hs.message_lt hh) (Nat.not_lt.2 hle)
          · cases hnew
            rfl
        rw [hbuffers, List.length_append] at hthis
        obtain ⟨hk0, -⟩ := List.getElem?_eq_some_iff.1 hk
        have hfirst := hthis s.receiver.buffers.length le_rfl (by omega)
        have hlast := hthis (s.receiver.buffers.length + (more.length - 1)) (by omega) (by omega)
        exact hone (by omega)

/-! ### The runs -/

/-- In a run of allowed calls, what every call keeps. -/
theorem inv_of_trace {as : List Action}
    (h : Trace (step results eagain) (Allowed results eagain) init as s) : s.Inv := by
  apply h.invariant (I := fun _ s => s.Inv) init_inv
  intro as s a s' r hs hallowed heq
  cases a with
  | receiveStream =>
    cases heq
    exact hs.receiveStream hallowed
  | dispose h =>
    cases heq
    exact hs.dispose h hallowed

/-- From a state with the invariant, the next state is sound if and only if the call is allowed. -/
theorem Inv.soundNext_iff (hs : s.Inv) (a : Action) :
    s.SoundNext results eagain a ↔ s.Allowed results eagain a := by
  constructor
  · intro hnext
    by_contra hallowed
    cases a with
    | receiveStream => exact hs.not_sound_receiveStream hallowed (hnext _ _ rfl)
    | dispose h => exact hs.not_sound_dispose hallowed (hnext _ _ rfl)
  · intro hallowed s' r heq
    cases a with
    | receiveStream =>
      cases heq
      exact (hs.receiveStream hallowed).sound
    | dispose h =>
      cases heq
      exact (hs.dispose h hallowed).sound

/-- In a run every message has its own handle, and is freed once when this handle is disposed, if
and only if no message is lost, and no handle is disposed whose stream has the message of a later
handle. -/
theorem sound_iff_allowed (results : ℕ → RecvResult) (eagain : ℤ) (as : List Action)
    (s : HandedOut) :
    Trace (step results eagain) (SoundNext results eagain) init as s ↔
      Trace (step results eagain) (Allowed results eagain) init as s := by
  constructor
  · intro h
    induction h with
    | nil => exact .nil
    | snoc _ hnext heq ih => exact ih.snoc (((inv_of_trace ih).soundNext_iff _).1 hnext) heq
  · intro h
    induction h with
    | nil => exact .nil
    | snoc hrun hallowed heq ih =>
      exact ih.snoc (((inv_of_trace hrun).soundNext_iff _).2 hallowed) heq

/-- A second `Dispose` of a handle frees the message that was received in between, whose handle is
not disposed. -/
theorem dispose_frees_later :
    ∃ s, Trace (step (fun n => .message [n.toUInt8]) 11) (fun _ _ => True) init
        [.receiveStream, .dispose 0, .receiveStream, .dispose 0] s ∧
      s.handles = [⟨0, some 0⟩, ⟨0, some 1⟩] ∧ s.disposed = [0, 0] ∧
        s.frees = [(1, 0), (0, 0)] ∧ ¬ s.Sound := by
  refine ⟨_, ((((Trace.nil.snoc trivial rfl).snoc trivial rfl).snoc trivial rfl).snoc trivial rfl),
    rfl, rfl, rfl, ?_⟩
  intro hsound
  obtain ⟨i, hi⟩ := hsound.owner (1, 0) (List.mem_cons_self ..)
  cases hi

end HandedOut

end NanoSocket

import NanoSocket.Aio.Usock

/-!
# Sending through an underlying socket (`aio/usock_posix.inc`)

`nn_usock_send_raw` writes what it can and moves the window of iovecs behind it; `adjust_spec` says
that the window then describes the rest.  `send_raw_exact` is about a list of iovecs and any
sequence of partial writes, and `usock_writes_sends` about the whole socket with all its sends.
-/

namespace NanoSocket.Aio

open Runs

/-- The iovecs that are left. -/
def Msghdr.window (self : Msghdr) : List (List UInt8) :=
  (self.iov.drop self.msgIov).take self.msgIovlen

theorem Msghdr.left_eq (self : Msghdr) : self.left = self.window.flatten := rfl

/-- The window lies inside the array, and no entry of it is empty. -/
structure Msghdr.Wf (hdr : Msghdr) : Prop where
  bound : hdr.msgIov + hdr.msgIovlen ≤ hdr.iov.length
  entry : ∀ e ∈ hdr.window, e ≠ []

theorem Msghdr.Wf.left_eq_nil {hdr : Msghdr} (h : hdr.Wf) : hdr.left = [] ↔ hdr.msgIovlen = 0 := by
  constructor
  · intro hleft
    by_contra hpos
    have hlt : 0 < hdr.window.length := by
      have hbound := h.bound
      rw [Msghdr.window, List.length_take, List.length_drop]
      omega
    have hmem := List.getElem_mem hlt
    exact h.entry _ hmem (List.flatten_eq_nil_iff.1 hleft _ hmem)
  · intro hzero
    rw [Msghdr.left, hzero]
    rfl

/-- The first entry of a window. -/
theorem window_cons {iov : List (List UInt8)} {msgIov n : ℕ} (h : msgIov + (n + 1) ≤ iov.length) :
    ∃ entry, iov[msgIov]? = some entry ∧
      (⟨iov, msgIov, n + 1⟩ : Msghdr).window = entry :: (⟨iov, msgIov + 1, n⟩ : Msghdr).window := by
  have hlt : msgIov < iov.length := by omega
  refine ⟨iov[msgIov], List.getElem?_eq_getElem hlt, ?_⟩
  unfold Msghdr.window
  rw [List.drop_eq_getElem_cons hlt, List.take_succ_cons]

theorem window_set {iov : List (List UInt8)} {msgIov n : ℕ} (h : msgIov + (n + 1) ≤ iov.length)
    (entry : List UInt8) :
    (⟨iov.set msgIov entry, msgIov, n + 1⟩ : Msghdr).window =
      entry :: (⟨iov, msgIov + 1, n⟩ : Msghdr).window := by
  have hlt : msgIov < (iov.set msgIov entry).length := by
    rw [List.length_set]
    omega
  unfold Msghdr.window
  rw [List.drop_eq_getElem_cons hlt, List.getElem_set_self,
    List.drop_set_of_lt (Nat.lt_succ_self _), List.take_succ_cons]

/-- The loop moves the window behind the bytes that were written. -/
theorem adjust_spec {iov : List (List UInt8)} {msgIov msgIovlen nbytes : ℕ}
    (h : (⟨iov, msgIov, msgIovlen⟩ : Msghdr).Wf)
    (hle : nbytes ≤ (⟨iov, msgIov, msgIovlen⟩ : Msghdr).left.length) :
    ∃ rc hdr, adjust iov msgIov msgIovlen nbytes = .ok (rc, hdr) ∧ hdr.Wf ∧
      hdr.left = (⟨iov, msgIov, msgIovlen⟩ : Msghdr).left.drop nbytes ∧ rc ≠ .reset ∧
        (rc = .ok ↔ hdr.left = []) := by
  -- `msg_iovlen` counts down, and the bytes that are left to skip stay in the window
  induction msgIovlen generalizing msgIov nbytes with
  | zero =>
    have hzero : nbytes = 0 := Nat.le_zero.1 hle
    subst hzero
    exact ⟨.ok, _, rfl, h, rfl, by decide, iff_of_true rfl rfl⟩
  | succ n ih =>
    obtain ⟨entry, hentry, hwin⟩ := window_cons h.bound
    cases nbytes with
    | zero =>
      refine ⟨.again, _, rfl, h, rfl, by decide, iff_of_false (by decide) fun hnil => ?_⟩
      exact Nat.succ_ne_zero n (h.left_eq_nil.1 hnil)
    | succ k =>
      rw [Msghdr.left_eq, hwin, List.flatten_cons] at hle ⊢
      have hrest : ∀ e ∈ (⟨iov, msgIov + 1, n⟩ : Msghdr).window, e ≠ [] :=
        fun e he => h.entry e (hwin ▸ List.mem_cons_of_mem _ he)
      have hbound := h.bound
      dsimp only at hbound
      dsimp only at hle ⊢
      unfold adjust
      simp only [hentry]
      by_cases hge : k + 1 ≥ entry.length
      · rw [if_pos hge]
        by_cases hlast : n = 0
        · subst hlast
          have heq : k + 1 = entry.length := by
            have : (⟨iov, msgIov + 1, 0⟩ : Msghdr).window.flatten = [] := rfl
            rw [this, List.append_nil] at hle
            omega
          rw [if_pos rfl, nnAssert_of heq]
          refine ⟨.ok, _, rfl, ⟨by dsimp only; omega, nofun⟩, ?_, by decide, iff_of_true rfl rfl⟩
          rw [heq, List.drop_left]
          rfl
        · rw [if_neg hlast, List.drop_append, List.drop_eq_nil_of_le hge, List.nil_append]
          rw [List.length_append] at hle
          exact ih ⟨by dsimp only; omega, hrest⟩ (by rw [Msghdr.left_eq]; omega)
      · rw [if_neg hge]
        have hset := window_set h.bound (entry.drop (k + 1))
        have hne : entry.drop (k + 1) ≠ [] := by
          rw [ne_eq, List.drop_eq_nil_iff]
          omega
        have hwf : (⟨iov.set msgIov (entry.drop (k + 1)), msgIov, n + 1⟩ : Msghdr).Wf := by
          refine ⟨by dsimp only; rw [List.length_set]; omega, fun e he => ?_⟩
          rw [hset, List.mem_cons] at he
          rcases he with rfl | he
          · exact hne
          · exact hrest e he
        refine ⟨.again, _, rfl, hwf, ?_, by decide, iff_of_false (by decide) fun hnil => ?_⟩
        · rw [Msghdr.left_eq, hset, List.flatten_cons, List.drop_append_of_le_length (by omega)]
        · exact Nat.succ_ne_zero n (hwf.left_eq_nil.1 hnil)

/-- One call of `nn_usock_send_raw` writes a part of what is left. -/
theorem sendRaw_spec {hdr : Msghdr} (h : hdr.Wf) (os : OsSend) :
    ∃ rc bytes hdr', nnUsockSendRaw os hdr = .ok (rc, bytes, hdr') ∧ hdr'.Wf ∧
      bytes ++ hdr'.left = hdr.left ∧
      (rc = .reset ↔ os = .failed) ∧ (os ≠ .failed → (rc = .ok ↔ hdr'.left = [])) := by
  cases os with
  | failed => exact ⟨_, _, _, rfl, h, rfl, by simp, by simp⟩
  | again =>
    obtain ⟨rc, hdr', heq, hwf, hleft, hrc, hok⟩ := adjust_spec h (Nat.zero_le _)
    refine ⟨rc, [], hdr', ?_, hwf, hleft, by simp [hrc], fun _ => hok⟩
    unfold nnUsockSendRaw
    simp only [heq, ok_bind, pure_eq_ok]
  | take count =>
    obtain ⟨rc, hdr', heq, hwf, hleft, hrc, hok⟩ :=
      adjust_spec h (Nat.min_le_right count hdr.left.length)
    refine ⟨rc, hdr.left.take (min count hdr.left.length), hdr', ?_, hwf,
      ?_, by simp [hrc], fun _ => hok⟩
    · unfold nnUsockSendRaw
      simp only [heq, ok_bind, pure_eq_ok]
    · rw [hleft]
      exact List.take_append_drop _ _

/-- The empty buffers are left out. -/
theorem copyIov_spec (iov : List (List UInt8)) :
    (copyIov iov).Wf ∧ (copyIov iov).left = iov.flatten := by
  have hwin : (copyIov iov).window = iov.filter fun entry => entry.length ≠ 0 := by
    simp only [Msghdr.window, copyIov, List.drop_zero, List.take_length]
  constructor
  · refine ⟨by simp [copyIov], fun e he => ?_⟩
    rw [hwin, List.mem_filter] at he
    rintro rfl
    simp at he
  · rw [Msghdr.left_eq, hwin]
    induction iov with
    | nil => rfl
    | cons e iov ih =>
      have hwin' : (copyIov iov).window = iov.filter fun entry => entry.length ≠ 0 := by
        simp only [Msghdr.window, copyIov, List.drop_zero, List.take_length]
      rw [List.filter_cons, List.flatten_cons]
      split_ifs with he
      · rw [List.flatten_cons, ih hwin']
      · have hnil : e = [] := by simpa using he
        rw [hnil, List.nil_append, ih hwin']

/-! ### One list of iovecs -/

/-- A send that is under way: what is left, what was written, and what the last call returned. -/
structure Sending where
  hdr : Msghdr
  wire : List UInt8
  rc : SendRc
  deriving DecidableEq, Repr

/-- The next call of `nn_usock_send_raw`, in the thread of the owner or in the worker. -/
def Sending.call (self : Sending) (os : OsSend) : Except Fault (Sending × Unit) := do
  let (rc, bytes, hdr) ← nnUsockSendRaw os self.hdr
  return ({ hdr, wire := self.wire ++ bytes, rc }, ())

/-- There is another call as long as the last one returned `-EAGAIN`, and the connection does not
fail. -/
def Sending.Goes (self : Sending) (os : OsSend) : Prop := self.rc = .again ∧ os ≠ .failed

instance (self : Sending) : DecidablePred self.Goes := fun _ => inferInstanceAs (Decidable (_ ∧ _))

/-- Whatever the partial writes are, what was written and what is left are the bytes of the iovecs,
the calls return zero with the last byte and not before, and no call fails. -/
theorem send_raw_exact (iov : List (List UInt8)) (hne : iov.flatten ≠ []) (calls : List OsSend)
    (s : Sending) (h : Trace Sending.call Sending.Goes ⟨copyIov iov, [], .again⟩ calls s) :
    s.wire ++ s.hdr.left = iov.flatten ∧ (s.rc = .ok ↔ s.wire = iov.flatten) ∧
      (s.rc ≠ .ok → s.rc = .again ∧ ∀ os, os ≠ .failed → ∃ s', s.call os = .ok (s', ())) := by
  have hinv : s.hdr.Wf ∧ s.wire ++ s.hdr.left = iov.flatten ∧ s.rc ≠ .reset ∧
      (s.rc = .ok ↔ s.hdr.left = []) := by
    obtain ⟨hwf, hleft⟩ := copyIov_spec iov
    refine Trace.invariant (I := fun _ s => s.hdr.Wf ∧
      s.wire ++ s.hdr.left = iov.flatten ∧ s.rc ≠ .reset ∧ (s.rc = .ok ↔ s.hdr.left = []))
      ⟨hwf, hleft, SendRc.noConfusion, ?_⟩ ?_ h
    · exact iff_of_false SendRc.noConfusion (hleft ▸ hne)
    · rintro _ s os s' ⟨⟩ ⟨hs, hsum, -, -⟩ ⟨-, hos⟩ heq
      obtain ⟨rc, bytes, hdr, hraw, hwf', hleft', hreset, hok⟩ := sendRaw_spec hs os
      unfold Sending.call at heq
      rw [hraw] at heq
      cases heq
      refine ⟨hwf', ?_, fun hrc => hos (hreset.1 hrc), hok hos⟩
      dsimp only
      rw [List.append_assoc, hleft', hsum]
  obtain ⟨hs, hsum, hreset, hok⟩ := hinv
  refine ⟨hsum, ?_, fun hrc => ⟨?_, fun os _ => ?_⟩⟩
  · rw [hok, ← hsum, eq_comm, List.self_eq_append_right, eq_comm]
  · cases hcase : s.rc with
    | ok => exact absurd hcase hrc
    | again => rfl
    | reset => exact absurd hcase hreset
  · obtain ⟨rc, bytes, hdr, hraw, -⟩ := sendRaw_spec hs os
    refine ⟨{ hdr, wire := s.wire ++ bytes, rc }, ?_⟩
    unfold Sending.call
    rw [hraw]
    rfl

/-- A write that ends inside an iovec, one that gets nothing, one that crosses an empty iovec, and
the last one. -/
theorem send_raw_exact_abc : ∃ s,
    Trace Sending.call Sending.Goes ⟨copyIov [[1, 2], [], [3, 4, 5]], [], .again⟩ [.take 1, .again,
      .take 2, .take 9] s ∧ s.rc = .ok ∧ s.wire = [1, 2, 3, 4, 5] := by
  obtain ⟨s, hrun, hrc⟩ :
    ∃ s, Trace Sending.call Sending.Goes ⟨copyIov [[1, 2], [], [3, 4, 5]], [], .again⟩
      [.take 1, .again, .take 2, .take 9] s ∧ s.rc = .ok := Trace.exists_of_runWhile (by decide)
  exact ⟨s, hrun, hrc, (send_raw_exact _ (by decide) _ s hrun).2.1.1 hrc⟩

/-! ### The sends of a socket -/

/-- What the owner sends in a run. -/
def sends (as : List UsockAction) : List (List UInt8) :=
  as.flatMap fun
    | .send iov _ => [iov.flatten]
    | _ => []

theorem sends_concat (as : List UsockAction) (a : UsockAction) :
    sends (as ++ [a]) = sends as ++ sends [a] := by
  unfold sends
  rw [List.flatMap_append]

/-- What was written and what is left are the sends, and the worker has what is left. -/
structure Writes (as : List UsockAction) (u : Usock) : Prop where
  out : u.out.Wf
  bytes : u.wire ++ u.out.left = (sends as).flatten
  sent : u.out.left = [] → u.raised.count .sent = (sends as).length
  sending : u.out.left ≠ [] → u.raised.count .sent + 1 = (sends as).length
  busy : u.taskSend = true ∨ u.pollOut = true ↔ u.out.left ≠ []
  once : ¬ (u.taskSend = true ∧ u.pollOut = true)

section Step

variable {as : List UsockAction} {u u' : Usock}

/-- The two directions do not touch each other. -/
structure SameOut (u u' : Usock) : Prop where
  out : u'.out = u.out
  wire : u'.wire = u.wire
  taskSend : u'.taskSend = u.taskSend
  pollOut : u'.pollOut = u.pollOut
  sent : u'.raised.count .sent = u.raised.count .sent
  state : u'.state = .active → u.state = .active

theorem Writes.same (h : Writes as u) (hs : SameOut u u') {a : UsockAction} (ha : sends [a] = []) :
    Writes (as ++ [a]) u' := by
  have hsends : sends (as ++ [a]) = sends as := by rw [sends_concat, ha, List.append_nil]
  refine ⟨?_, ?_, ?_, ?_, ?_, ?_⟩
  · rw [hs.out]
    exact h.out
  · rw [hs.wire, hs.out, hsends]
    exact h.bytes
  · rw [hs.sent, hs.out, hsends]
    exact h.sent
  · rw [hs.sent, hs.out, hsends]
    exact h.sending
  · rw [hs.taskSend, hs.pollOut, hs.out]
    exact h.busy
  · rw [hs.taskSend, hs.pollOut]
    exact h.once

theorem sameOut_actionError : SameOut u u.actionError := by
  unfold Usock.actionError
  cases hstate : u.state with
  | active => exact ⟨rfl, rfl, rfl, rfl, by simp [Usock.raise], nofun⟩
  | removingFd => exact ⟨rfl, rfl, rfl, rfl, rfl, fun h => hstate ▸ h⟩
  | done => exact ⟨rfl, rfl, rfl, rfl, rfl, fun h => hstate ▸ h⟩

theorem recv_sameOut {os : OsRecv} {dest : List UInt8} {fd : Bool}
    (h : nnUsockRecv os u dest fd = .ok u') :
    SameOut u u' := by
  unfold nnUsockRecv at h
  split_ifs at h with hstate
  · cases h
    exact sameOut_actionError
  · obtain ⟨⟨r, inc⟩, -, h⟩ := bind_eq_ok.1 h
    cases r with
    | none =>
      cases h
      have := @sameOut_actionError { u with inc }
      exact ⟨this.out, this.wire, this.taskSend, this.pollOut, this.sent, this.state⟩
    | some got =>
      dsimp only at h
      split_ifs at h with hall
      · cases h
        exact ⟨rfl, rfl, rfl, rfl, by simp [Usock.raiseReceived, Usock.raise], id⟩
      · cases h
        exact ⟨rfl, rfl, rfl, rfl, rfl, id⟩

theorem fdIn_sameOut {os : OsRecv} (h : u.fdIn os = .ok u') :
    SameOut u u' ∨ u'.state ≠ .active := by
  unfold Usock.fdIn at h
  obtain ⟨⟨r, inc⟩, -, h⟩ := bind_eq_ok.1 h
  cases r with
  | none =>
    cases h
    exact Or.inr nofun
  | some got =>
    dsimp only at h
    split_ifs at h with hall
    · cases h
      exact Or.inl ⟨rfl, rfl, rfl, rfl, by simp [Usock.raiseReceived, Usock.raise], id⟩
    · cases h
      exact Or.inl ⟨rfl, rfl, rfl, rfl, rfl, id⟩

/-- `nn_usock_send` when nothing is left of the last send. -/
theorem Writes.send (h : Writes as u) (hstate : u.state = .active) {iov : List (List UInt8)}
    {os : OsSend} (hidle : u.out.left = []) (heq : nnUsockSend os u iov = .ok u')
    (hact : u'.state = .active) :
    Writes (as ++ [.send iov os]) u' := by
  have hsends : sends (as ++ [.send iov os]) = sends as ++ [iov.flatten] := sends_concat as _
  have hbytes := h.bytes
  have hsent := h.sent hidle
  rw [hidle, List.append_nil] at hbytes
  have hflags : u.taskSend = false ∧ u.pollOut = false := by
    rw [← Bool.not_eq_true, ← Bool.not_eq_true, ← not_or, h.busy, not_not]
    exact hidle
  obtain ⟨hcopy, hleft⟩ := copyIov_spec iov
  obtain ⟨rc, bytes, hdr, hraw, hwf, hsum, hreset, hok⟩ := sendRaw_spec hcopy os
  unfold nnUsockSend at heq
  rw [if_neg (not_not_intro hstate)] at heq
  obtain ⟨_, -, heq⟩ := bind_eq_ok.1 heq
  rw [hraw, ok_bind] at heq
  have hall : u.wire ++ bytes ++ hdr.left = (sends (as ++ [.send iov os])).flatten := by
    rw [List.append_assoc, hsum, hleft, hbytes, hsends, List.flatten_append, List.flatten_singleton]
  cases rc with
  | reset =>
    cases heq
    exact absurd hact (by simp [Usock.actionError, hstate, Usock.raise])
  | ok =>
    cases heq
    have hnil : hdr.left = [] := (hok fun hf => nomatch hreset.2 hf).1 rfl
    refine ⟨hwf, hall, fun _ => ?_, fun hne => absurd hnil hne, ?_, ?_⟩
    · dsimp only [Usock.raise]
      rw [List.count_append, hsent, hsends]
      simp
    · dsimp only [Usock.raise]
      rw [hflags.1, hflags.2]
      simp [hnil]
    · dsimp only [Usock.raise]
      rw [hflags.1]
      simp
  | again =>
    cases heq
    have hrest : hdr.left ≠ [] := fun hnil => nomatch (hok fun hf => nomatch hreset.2 hf).2 hnil
    refine ⟨hwf, hall, fun hnil => absurd hnil hrest, fun _ => ?_,
      iff_of_true (Or.inl rfl) hrest, ?_⟩
    · dsimp only
      rw [hsent, hsends, List.length_append]
      rfl
    · dsimp only
      rw [hflags.2]
      simp

/-- The worker goes on with a send. -/
theorem Writes.fdOut (h : Writes as u) {os : OsSend} (hpoll : u.pollOut = true)
    (heq : u.fdOut os = .ok u') (hact : u'.state = .active) : Writes (as ++ [.fdOut os]) u' := by
  have hsends : sends (as ++ [.fdOut os]) = sends as := by
    rw [sends_concat, show sends [.fdOut os] = [] from rfl, List.append_nil]
  have hleft : u.out.left ≠ [] := h.busy.1 (Or.inr hpoll)
  have htask : u.taskSend = false := by
    rw [← Bool.not_eq_true]
    exact fun ht => h.once ⟨ht, hpoll⟩
  have hsent := h.sending hleft
  obtain ⟨rc, bytes, hdr, hraw, hwf, hsum, hreset, hok⟩ := sendRaw_spec h.out os
  unfold Usock.fdOut at heq
  rw [hraw, ok_bind] at heq
  have hall : u.wire ++ bytes ++ hdr.left = (sends (as ++ [.fdOut os])).flatten := by
    rw [List.append_assoc, hsum, h.bytes, hsends]
  cases rc with
  | reset =>
    cases heq
    cases hact
  | ok =>
    cases heq
    have hnil : hdr.left = [] := (hok fun hf => nomatch hreset.2 hf).1 rfl
    refine ⟨hwf, hall, fun _ => ?_, fun hne => absurd hnil hne, ?_, ?_⟩
    · dsimp only [Usock.raise]
      rw [List.count_append, hsends, ← hsent]
      simp
    · dsimp only [Usock.raise]
      rw [htask]
      simp [hnil]
    · simp [Usock.raise]
  | again =>
    cases heq
    have hrest : hdr.left ≠ [] := fun hnil => nomatch (hok fun hf => nomatch hreset.2 hf).2 hnil
    refine ⟨hwf, hall, fun hnil => absurd hnil hrest, fun _ => ?_,
      iff_of_true (Or.inr hpoll) hrest, h.once⟩
    dsimp only
    rw [hsends, ← hsent]

/-- One action on a socket that stays connected. -/
theorem Writes.step (h : Writes as u) {a : UsockAction} (ha : u.Enabled a)
    (hstate : u.state = .active) (heq : u.step a = .ok (u', ())) (hact : u'.state = .active) :
    Writes (as ++ [a]) u' := by
  cases a with
  | arrive bytes =>
    cases heq
    have hsame : SameOut u { u with inc := { u.inc with arrived := u.inc.arrived ++ bytes } } :=
      ⟨rfl, rfl, rfl, rfl, rfl, id⟩
    exact h.same hsame rfl
  | recv dest fd os =>
    obtain ⟨u₁, hrecv, heq⟩ := bind_eq_ok.1 heq
    cases heq
    exact h.same (recv_sameOut hrecv) rfl
  | send iov os =>
    obtain ⟨u₁, hsend, heq⟩ := bind_eq_ok.1 heq
    cases heq
    exact h.send hstate ha.1 hsend hact
  | taskRecv =>
    cases heq
    have hsame : SameOut u { u with taskRecv := false, pollIn := true } :=
      ⟨rfl, rfl, rfl, rfl, rfl, id⟩
    exact h.same hsame rfl
  | taskSend =>
    cases heq
    have hsends : sends (as ++ [.taskSend]) = sends as := by
      rw [sends_concat, show sends [.taskSend] = [] from rfl, List.append_nil]
    refine ⟨h.out, ?_, ?_, ?_, iff_of_true (Or.inr rfl) (h.busy.1 (Or.inl ha)), by simp⟩
    all_goals rw [hsends]
    · exact h.bytes
    · exact h.sent
    · exact h.sending
  | taskStop =>
    rw [Usock.step, hstate] at heq
    cases heq
  | fdIn os =>
    rw [Usock.step, hstate] at heq
    obtain ⟨u₁, hin, heq⟩ := bind_eq_ok.1 heq
    cases heq
    rcases fdIn_sameOut hin with hsame | hdead
    · exact h.same hsame rfl
    · exact absurd hact hdead
  | fdOut os =>
    rw [Usock.step, hstate] at heq
    obtain ⟨u₁, hout, heq⟩ := bind_eq_ok.1 heq
    cases heq
    exact h.fdOut ha hout hact
  | fdErr =>
    rw [Usock.step, hstate] at heq
    cases heq
    cases hact

/-- A socket that is no longer connected does not come back. -/
theorem state_of_step {a : UsockAction} (heq : u.step a = .ok (u', ()))
    (hact : u'.state = .active) :
    u.state = .active := by
  by_contra hstate
  have herr : u.actionError = u := by
    unfold Usock.actionError
    cases hs : u.state with
    | active => exact absurd hs hstate
    | removingFd => rfl
    | done => rfl
  cases a with
  | recv dest fd os =>
    obtain ⟨u₁, hrecv, heq⟩ := bind_eq_ok.1 heq
    cases heq
    rw [nnUsockRecv, if_pos hstate, herr] at hrecv
    cases hrecv
    exact hstate hact
  | send iov os =>
    obtain ⟨u₁, hsend, heq⟩ := bind_eq_ok.1 heq
    cases heq
    rw [nnUsockSend, if_pos hstate, herr] at hsend
    cases hsend
    exact hstate hact
  | arrive bytes | taskRecv | taskSend =>
    cases heq
    exact hstate hact
  | taskStop | fdIn os | fdOut os | fdErr =>
    unfold Usock.step at heq
    cases hs : u.state with
    | active => exact hstate hs
    | removingFd | done =>
      rw [hs] at heq
      cases heq
      first
      | cases hact
      | exact hstate hact

end Step

/-- While the socket is connected, everything that the owner has sent was written or is left, in
order, and every send but the one that is left was reported. -/
theorem usock_writes_sends (as : List UsockAction) (u : Usock)
    (h : Trace Usock.step Usock.Enabled .start as u) (hact : u.state = .active) : Writes as u := by
  have hrun : u.state = .active → Writes as u := by
    refine Trace.invariant (I := fun as u => u.state = .active → Writes as u) ?_ ?_ h
    · exact fun _ =>
        ⟨⟨Nat.le_refl 0, nofun⟩, rfl, fun _ => rfl, fun hne => absurd rfl hne, by decide, by decide⟩
    · intro as u a u' b hw ha heq hact
      have hstate := state_of_step heq hact
      exact (hw hstate).step ha hstate heq hact
  exact hrun hact

end NanoSocket.Aio

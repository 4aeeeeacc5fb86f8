import NanoSocket.Aio.UsockSend

/-!
# Receiving through an underlying socket (`aio/usock_posix.inc`)

A byte that arrives waits in the socket, in the batch buffer, in the buffer of the receive that is
going on, or in one that was completed.  `recvRaw_spec` says that a call of `nn_usock_recv_raw`
moves bytes from the first two to the third and keeps their order; `usock_recv_exact` is what
follows for runs.
-/

namespace NanoSocket.Aio

open Runs

/-! ### Buffers -/

theorem writeBytes_of_le {mem data : List UInt8} {off : ℕ} (h : off + data.length ≤ mem.length) :
    writeBytes mem off data = .ok (mem.take off ++ data ++ mem.drop (off + data.length)) := if_pos h

theorem length_written {mem data : List UInt8} {off : ℕ} (h : off + data.length ≤ mem.length) :
    (mem.take off ++ data ++ mem.drop (off + data.length)).length = mem.length := by
  simp only [List.length_append, List.length_take, List.length_drop]
  omega

theorem readBytes_of_le {data : List UInt8} {off n : ℕ} (h : off + n ≤ data.length) :
    readBytes data off n = .ok ((data.drop off).take n) := if_pos h

/-! ### The batch buffer -/

/-- The bytes of the batch buffer that were not read yet. -/
def Incoming.unread (self : Incoming) : List UInt8 :=
  ((self.batch.getD []).drop self.batchPos).take (self.batchLen - self.batchPos)

/-- The batch buffer has its size once there is one, and its positions lie inside it. -/
structure Incoming.Wf (inc : Incoming) : Prop where
  size : ∀ batch ∈ inc.batch, batch.length = nnUsockBatchSize
  pos_le : inc.batchPos ≤ inc.batchLen
  len_le : inc.batchLen ≤ (inc.batch.getD []).length

theorem Incoming.Wf.length_unread {inc : Incoming} (h : inc.Wf) :
    inc.unread.length = inc.batchLen - inc.batchPos := by
  have hlen := h.len_le
  rw [Incoming.unread, List.length_take, List.length_drop]
  omega

/-- What a call for the bytes from `buf` on leaves: it stored `got` bytes, which come from the batch
buffer and from the socket, and everything behind them is still there, in order. -/
structure Filled (inc : Incoming) (buf got : ℕ) (inc' : Incoming) : Prop where
  wf : inc'.Wf
  le : buf + got ≤ inc.dest.length
  length : inc'.dest.length = inc.dest.length
  kept : inc'.dest.take buf = inc.dest.take buf
  bytes : (inc'.dest.drop buf).take got ++ inc'.unread ++ inc'.arrived = inc.unread ++ inc.arrived
  buf_eq : inc'.buf = inc.buf
  len_eq : inc'.len = inc.len

theorem Filled.trans {inc inc₁ inc₂ : Incoming} {buf a b : ℕ} (h : Filled inc buf a inc₁)
    (h' : Filled inc₁ (buf + a) b inc₂) : Filled inc buf (a + b) inc₂ := by
  have hkept : (inc₂.dest.drop buf).take a = (inc₁.dest.drop buf).take a := by
    have := congrArg (List.drop buf) h'.kept
    rwa [List.drop_take, List.drop_take, Nat.add_sub_cancel_left] at this
  refine ⟨h'.wf, ?_, h'.length.trans h.length, ?_, ?_, h'.buf_eq.trans h.buf_eq,
    h'.len_eq.trans h.len_eq⟩
  · have hle := h'.le
    rw [h.length] at hle
    omega
  · have := congrArg (List.take buf) h'.kept
    rw [List.take_take, List.take_take, Nat.min_eq_left (Nat.le_add_right _ _)] at this
    exact this.trans h.kept
  · have hbytes := h'.bytes
    rw [List.append_assoc] at hbytes
    rw [List.take_add, hkept, List.drop_drop, List.append_assoc, List.append_assoc,
      hbytes, ← List.append_assoc]
    exact h.bytes

/-- `memcpy` of bytes that come next. -/
theorem Filled.write {inc inc' : Incoming} {buf : ℕ} {data : List UInt8}
    (hle : buf + data.length ≤ inc.dest.length) (hwf : inc'.Wf)
    (hdest : inc'.dest = inc.dest.take buf ++ data ++ inc.dest.drop (buf + data.length))
    (hbytes : data ++ inc'.unread ++ inc'.arrived = inc.unread ++ inc.arrived)
    (hbuf : inc'.buf = inc.buf) (hlen : inc'.len = inc.len) : Filled inc buf data.length inc' := by
  have htake : (inc.dest.take buf).length = buf := List.length_take_of_le (by omega)
  refine ⟨hwf, hle, hdest ▸ length_written hle, ?_, ?_, hbuf, hlen⟩
  · rw [hdest, List.append_assoc, List.take_left' htake]
  · have hdrop : inc'.dest.drop buf = data ++ inc.dest.drop (buf + data.length) := by
      rw [hdest, List.append_assoc, List.drop_left' htake]
    rw [hdrop, List.take_left]
    exact hbytes

theorem recvmsg_spec {os : OsRecv} {arrived data : List UInt8} {size : ℕ} {fd : Option ℕ}
    (h : recvmsg os arrived size = some (data, fd)) :
    data.length ≤ size ∧ data ++ arrived.drop data.length = arrived := by
  cases os with
  | give count fd' =>
    cases h
    refine ⟨?_, (List.prefix_append_drop (List.take_prefix _ _)).symm⟩
    rw [List.length_take]
    omega
  | again =>
    cases h
    exact ⟨Nat.zero_le _, rfl⟩
  | closed => cases h
  | failed => cases h

section Extract

variable (self : Incoming) (fd : Option ℕ)

/-- A descriptor goes to `fd` and `closedFds` only. -/
theorem Incoming.extract_eq :
    ∃ pfd fd' closedFds, self.extract fd = { self with pfd, fd := fd', closedFds } := by
  unfold Incoming.extract
  cases fd with
  | none => exact ⟨_, _, _, rfl⟩
  | some fd =>
    dsimp only
    split_ifs
    · exact ⟨_, _, _, rfl⟩
    · exact ⟨_, _, _, rfl⟩

end Extract

/-- What a call returns: nothing when the connection has failed. -/
def Returns (os : OsRecv) (inc : Incoming) (buf len : ℕ) (r : Option ℕ × Incoming) : Prop :=
  match r.1 with
  | none => os = .closed ∨ os = .failed
  | some got => got ≤ len ∧ Filled inc buf got r.2 ∧ (got < len → r.2.unread = [])

/-- The call of `recvmsg`, when the batch buffer has been read. -/
theorem refill_spec {inc : Incoming} (os : OsRecv) {batch : List UInt8} {buf length len : ℕ}
    (h : inc.Wf) (hbatch : inc.batch = some batch) (hread : inc.batchPos = inc.batchLen)
    (hle : buf + length ≤ inc.dest.length) (hlen : length ≤ len) :
    ∃ r inc', inc.refill os batch buf length len = .ok (r, inc') ∧
      (r = none → os = .closed ∨ os = .failed) ∧
      ∀ got, r = some got → ∃ k, got = len - length + k ∧ k ≤ length ∧ Filled inc buf k inc' ∧
        (k < length → inc'.unread = []) := by
  have hunread : inc.unread = [] :=
    List.length_eq_zero_iff.1 (by rw [h.length_unread, hread, Nat.sub_self])
  have hsize : batch.length = nnUsockBatchSize := h.size batch hbatch
  unfold Incoming.refill
  dsimp only
  cases hmsg :
      recvmsg os inc.arrived (if nnUsockBatchSize < length then length else nnUsockBatchSize) with
  | none =>
    refine ⟨none, inc, rfl, fun _ => ?_, nofun⟩
    cases os with
    | give => cases hmsg
    | again => cases hmsg
    | closed => exact Or.inl rfl
    | failed => exact Or.inr rfl
  | some r =>
    obtain ⟨data, fd⟩ := r
    obtain ⟨hdata, harrived⟩ := recvmsg_spec hmsg
    obtain ⟨pfd, fd', closedFds, hex⟩ :=
      Incoming.extract_eq { inc with arrived := inc.arrived.drop data.length } fd
    simp only [hex]
    by_cases hdirect : nnUsockBatchSize < length
    · rw [if_pos hdirect] at hdata ⊢
      have hfit : buf + data.length ≤ inc.dest.length := by omega
      rw [writeBytes_of_le hfit]
      refine ⟨_, _, rfl, nofun, fun got hgot => ?_⟩
      cases hgot
      refine ⟨data.length, by omega, hdata,
        Filled.write hfit ⟨h.size, h.pos_le, h.len_le⟩ rfl ?_ rfl rfl, fun _ => hunread⟩
      rw [hunread, List.nil_append, List.append_assoc]
      exact (congrArg (fun l => data ++ (l ++ inc.arrived.drop data.length)) hunread).trans harrived
    · rw [if_neg hdirect] at hdata ⊢
      have hroom : 0 + data.length ≤ batch.length := by omega
      rw [writeBytes_of_le hroom, ok_bind]
      obtain ⟨sz, hsz⟩ : ∃ sz, sz = if data.length > length then length else data.length := ⟨_, rfl⟩
      have hszle : sz ≤ length ∧ sz ≤ data.length ∧ (sz < length → sz = data.length) := by
        rw [hsz]
        split_ifs <;> omega
      obtain ⟨hsz1, hsz2, hsz3⟩ := hszle
      have hread : readBytes (batch.take 0 ++ data ++ batch.drop (0 + data.length)) 0 sz =
          .ok (data.take sz) := by
        rw [readBytes_of_le (by rw [length_written hroom]; omega), List.drop_zero, List.take_zero,
          List.nil_append, List.take_append_of_le_length hsz2]
      have hlensz : (data.take sz).length = sz := List.length_take_of_le hsz2
      have hfit : buf + (data.take sz).length ≤ inc.dest.length := by omega
      simp only [← hsz]
      rw [hread, ok_bind, writeBytes_of_le hfit]
      refine ⟨_, _, rfl, nofun, fun got hgot => ?_⟩
      cases hgot
      have hunread' :
          ((((batch.take 0 ++ data ++ batch.drop (0 + data.length)).drop sz).take
            (data.length - sz))) =
          data.drop sz := by
        rw [List.take_zero, List.nil_append, List.drop_append_of_le_length hsz2,
          List.take_append_of_le_length (by rw [List.length_drop])]
        exact List.take_of_length_le (by rw [List.length_drop])
      refine ⟨sz, by omega, hsz1, ?_, fun hlt => ?_⟩
      · have hfilled (inc' : Incoming) (hwf : inc'.Wf)
            (hdest : inc'.dest = inc.dest.take buf ++ data.take sz ++ inc.dest.drop
              (buf + (data.take sz).length))
            (hread : inc'.unread = data.drop sz)
            (harr : inc'.arrived = inc.arrived.drop data.length)
            (hbuf : inc'.buf = inc.buf) (hlen : inc'.len = inc.len) : Filled inc buf sz inc' := by
          have hwrite := Filled.write hfit hwf hdest ?_ hbuf hlen
          · rwa [hlensz] at hwrite
          · rw [hread, harr, List.take_append_drop, harrived, hunread, List.nil_append]
        refine hfilled _ ⟨?_, hsz2, ?_⟩ rfl hunread' rfl rfl rfl
        · rintro _ ⟨⟩
          exact (length_written hroom).trans hsize
        · exact (Nat.zero_add _ ▸ hroom).trans_eq (length_written hroom).symm
      · exact hunread'.trans (List.drop_eq_nil_of_le (hsz3 hlt).ge)

/-- The batch buffer is allocated when there is none. -/
def Incoming.alloc (self : Incoming) : Incoming :=
  { self with batch := some (self.batch.getD (List.replicate nnUsockBatchSize 0)) }

theorem recvRaw_alloc (os : OsRecv) (inc : Incoming) (buf len : ℕ) :
    nnUsockRecvRaw os inc buf len = nnUsockRecvRaw os inc.alloc buf len := rfl

theorem alloc_filled {inc : Incoming} (h : inc.Wf) {buf : ℕ} (hle : buf ≤ inc.dest.length) :
    Filled inc buf 0 inc.alloc := by
  have hlen := h.len_le
  refine ⟨⟨?_, h.pos_le, ?_⟩, hle, rfl, rfl, ?_, rfl, rfl⟩
  · rintro _ ⟨⟩
    cases hb : inc.batch with
    | none => exact List.length_replicate
    | some b => exact h.size b hb
  · cases hb : inc.batch with
    | none =>
      rw [hb] at hlen
      exact hlen.trans (Nat.zero_le _)
    | some b =>
      have halloc : inc.alloc.batch = inc.batch := by
        rw [Incoming.alloc, hb]
        rfl
      rwa [halloc]
  · rw [List.take_zero, List.nil_append]
    refine congrArg (· ++ inc.arrived) ?_
    cases hb : inc.batch with
    | none =>
      rw [hb] at hlen
      have hzero : inc.batchLen - inc.batchPos = 0 := by
        have : inc.batchLen = 0 := Nat.le_zero.1 hlen
        omega
      simp only [Incoming.unread, Incoming.alloc, hzero, List.take_zero]
    | some b => simp only [Incoming.unread, Incoming.alloc, hb, Option.getD_some]

theorem recvRaw_eq (os : OsRecv) {inc : Incoming} {batch : List UInt8}
    (h : inc.batch = some batch) (buf len : ℕ) :
    nnUsockRecvRaw os inc buf len =
      if inc.batchLen - inc.batchPos = 0 then inc.refill os batch buf len len
      else (do
        let sz := if inc.batchLen - inc.batchPos > len then len else inc.batchLen - inc.batchPos
        let dest ← writeBytes inc.dest buf (← readBytes batch inc.batchPos sz)
        let inc := { inc with dest, batchPos := inc.batchPos + sz }
        if len - sz = 0 then return (some len, inc)
        inc.refill os batch (buf + sz) (len - sz) len) := by
  obtain ⟨⟩ := inc
  cases h
  rfl

/-- The bytes that the batch buffer can give to a request. -/
theorem serve_spec {inc : Incoming} {batch : List UInt8} {buf sz : ℕ} (h : inc.Wf)
    (hbatch : inc.batch = some batch) (hsz : sz ≤ inc.batchLen - inc.batchPos)
    (hle : buf + sz ≤ inc.dest.length) :
    ∃ data dest, readBytes batch inc.batchPos sz = .ok data ∧
      writeBytes inc.dest buf data = .ok dest ∧
      Filled inc buf sz { inc with dest, batchPos := inc.batchPos + sz } := by
  have hlen_le : inc.batchLen ≤ batch.length := by
    have := h.len_le
    rwa [hbatch] at this
  have hpos := h.pos_le
  have hlen : ((batch.drop inc.batchPos).take sz).length = sz := by
    rw [List.length_take, List.length_drop]
    omega
  have hfit : buf + ((batch.drop inc.batchPos).take sz).length ≤ inc.dest.length := by omega
  refine ⟨_, _, readBytes_of_le (by omega), writeBytes_of_le hfit, ?_⟩
  have hunread : (batch.drop inc.batchPos).take sz ++
      ((batch.drop (inc.batchPos + sz)).take (inc.batchLen - (inc.batchPos + sz))) =
        inc.unread := by
    simp only [Incoming.unread, hbatch, Option.getD_some]
    rw [show inc.batchLen - inc.batchPos = sz + (inc.batchLen - (inc.batchPos + sz)) by omega,
      List.take_add, List.drop_drop]
  have hfilled (inc' : Incoming) (hwf : inc'.Wf)
      (hdest : inc'.dest = inc.dest.take buf ++ (batch.drop inc.batchPos).take sz ++
        inc.dest.drop (buf + ((batch.drop inc.batchPos).take sz).length))
      (hread : (batch.drop inc.batchPos).take sz ++ inc'.unread = inc.unread)
      (harr : inc'.arrived = inc.arrived)
      (hbuf : inc'.buf = inc.buf) (hlen' : inc'.len = inc.len) : Filled inc buf sz inc' := by
    have hwrite := Filled.write hfit hwf hdest (by rw [hread, harr]) hbuf hlen'
    rwa [hlen] at hwrite
  refine hfilled _ ⟨h.size, by dsimp only; omega, h.len_le⟩ rfl ?_ rfl rfl rfl
  rw [← hunread]
  simp only [Incoming.unread, hbatch, Option.getD_some]

theorem Returns.of_refill {os : OsRecv} {inc inc₁ inc' : Incoming} {buf sz len : ℕ} {r : Option ℕ}
    (hsz : sz ≤ len) (h : Filled inc buf sz inc₁) (hnone : r = none → os = .closed ∨ os = .failed)
    (hsome : ∀ got, r = some got → ∃ k, got = len - (len - sz) + k ∧ k ≤ len - sz ∧
      Filled inc₁ (buf + sz) k inc' ∧ (k < len - sz → inc'.unread = [])) : Returns os inc buf
      len (r, inc') := by
  unfold Returns
  cases r with
  | none => exact hnone rfl
  | some got =>
    obtain ⟨k, rfl, hk, hfilled, hrest⟩ := hsome got rfl
    have hgot : len - (len - sz) + k = sz + k := by omega
    dsimp only
    rw [hgot]
    exact ⟨by omega, h.trans hfilled, fun hlt => hrest (by omega)⟩

/-- `nn_usock_recv_raw`: the request is served from the batch buffer first, and only then from the
socket. -/
theorem recvRaw_spec {inc : Incoming} (os : OsRecv) {buf len : ℕ} (h : inc.Wf)
    (hle : buf + len ≤ inc.dest.length) :
    ∃ r, nnUsockRecvRaw os inc buf len = .ok r ∧ Returns os inc buf len r := by
  have hstart : Filled inc buf 0 inc.alloc := alloc_filled h (by omega)
  rw [recvRaw_alloc, recvRaw_eq os rfl]
  generalize hinc₀ : inc.alloc = inc₀ at hstart ⊢
  have hbatch : inc₀.batch = some (inc.batch.getD (List.replicate nnUsockBatchSize 0)) := by
    rw [← hinc₀]; rfl
  have hpos := hstart.wf.pos_le
  have hlen := hstart.length
  by_cases hempty : inc₀.batchLen - inc₀.batchPos = 0
  · rw [if_pos hempty]
    obtain ⟨r, inc', heq, hnone, hsome⟩ :=
      @refill_spec _ os _ buf len len hstart.wf hbatch (by omega) (by omega) le_rfl
    exact ⟨_, heq, .of_refill (Nat.zero_le _) hstart hnone hsome⟩
  · rw [if_neg hempty]
    obtain ⟨sz, hsz⟩ : ∃ sz, sz = if inc₀.batchLen - inc₀.batchPos > len then len
        else inc₀.batchLen - inc₀.batchPos :=
      ⟨_, rfl⟩
    obtain ⟨hsz1, hsz2, hsz3⟩ : sz ≤ len ∧ sz ≤ inc₀.batchLen - inc₀.batchPos ∧
        (sz < len → sz = inc₀.batchLen - inc₀.batchPos) := by
      rw [hsz]
      split_ifs <;> omega
    obtain ⟨data, dest, hread, hwrite, hserved⟩ :=
      @serve_spec _ _ buf _ hstart.wf hbatch hsz2 (by rw [hlen]; omega)
    have hfilled := hstart.trans (Nat.add_zero buf ▸ hserved)
    rw [Nat.zero_add] at hfilled
    simp only [← hsz, hread, hwrite, ok_bind]
    by_cases hdone : len - sz = 0
    · rw [if_pos hdone]
      obtain rfl : sz = len := by omega
      exact ⟨_, rfl, le_rfl, hfilled, fun hlt => absurd hlt (lt_irrefl _)⟩
    · rw [if_neg hdone]
      obtain ⟨r, inc', heq, hnone, hsome⟩ := refill_spec os hfilled.wf hbatch (by dsimp only; omega)
        (show buf + sz + (len - sz) ≤ _ by rw [hfilled.length]; omega) (Nat.sub_le len sz)
      exact ⟨_, heq, .of_refill hsz1 hfilled hnone hsome⟩

/-! ### Runs -/

/-- The bytes that arrive in a run. -/
def arrivals (as : List UsockAction) : List UInt8 :=
  as.flatMap fun
    | .arrive bytes => bytes
    | _ => []

/-- The sizes of the receives that are asked for in a run. -/
def requests (as : List UsockAction) : List ℕ :=
  as.flatMap fun
    | .recv dest _ _ => [dest.length]
    | _ => []

/-- The bytes of a receive that is going on. -/
def Usock.pending (self : Usock) : List UInt8 :=
  if self.inc.len = 0 then [] else self.inc.dest.take self.inc.buf

/-- What holds of a socket that is connected, after the actions `as`. -/
structure Live (as : List UsockAction) (u : Usock) : Prop where
  wf : u.inc.Wf
  bytes : u.completed.flatten ++ u.pending ++ u.inc.unread ++ u.inc.arrived = arrivals as
  sizes : u.completed.map List.length ++ (if u.inc.len = 0 then [] else [u.inc.dest.length]) =
    requests as
  waits : u.inc.len ≠ 0 → u.inc.buf + u.inc.len = u.inc.dest.length ∧ u.inc.unread = []
  polled : u.taskRecv = true ∨ u.pollIn = true → u.inc.len ≠ 0
  once : ¬ (u.taskRecv = true ∧ u.pollIn = true)

/-- What holds of a socket after the actions `as`. -/
structure Usock.Inv (as : List UsockAction) (u : Usock) : Prop where
  out : u.out.Wf
  stop : u.taskStop = true → u.state ≠ .active
  raised : u.raised.count .received = u.completed.length
  whole : u.completed.flatten <+: arrivals as
  sizes : u.completed.map List.length <+: requests as
  live : u.state = .active → Live as u

section Step

variable {as : List UsockAction} {u u' : Usock}

theorem arrivals_concat (as : List UsockAction) (a : UsockAction) :
    arrivals (as ++ [a]) = arrivals as ++ arrivals [a] := by
  unfold arrivals
  rw [List.flatMap_append]

theorem requests_concat (as : List UsockAction) (a : UsockAction) :
    requests (as ++ [a]) = requests as ++ requests [a] := by
  unfold requests
  rw [List.flatMap_append]

theorem Live.inv (h : Live as u) (hout : u.out.Wf) (hstop : u.taskStop = true → u.state ≠ .active)
    (hraised : u.raised.count .received = u.completed.length) : u.Inv as := by
  refine ⟨hout, hstop, hraised, ?_, ?_, fun _ => h⟩
  · rw [← h.bytes, List.append_assoc, List.append_assoc]
    exact List.prefix_append _ _
  · rw [← h.sizes]
    exact List.prefix_append _ _

/-- Nothing is completed any more when the connection is lost. -/
theorem Usock.Inv.stopped (h : u.Inv as) (a : UsockAction) (hstate : u'.state ≠ .active)
    (hcompleted : u'.completed = u.completed)
    (hraised : u'.raised.count .received = u.raised.count .received) (hout : u'.out.Wf) :
    u'.Inv (as ++ [a]) := by
  refine ⟨hout, fun _ => hstate, by rw [hraised, hcompleted, h.raised], ?_, ?_,
    fun hact => absurd hact hstate⟩
  · rw [arrivals_concat, hcompleted]
    exact h.whole.trans (List.prefix_append _ _)
  · rw [requests_concat, hcompleted]
    exact h.sizes.trans (List.prefix_append _ _)

/-- Sending does not touch the other direction. -/
theorem Usock.Inv.quiet (h : u.Inv as) {a : UsockAction} (harr : arrivals [a] = [])
    (hreq : requests [a] = []) (hstate : u.state = .active) (hinc : u'.inc = u.inc)
    (hcompleted : u'.completed = u.completed) (htask : u'.taskRecv = u.taskRecv)
    (hpoll : u'.pollIn = u.pollIn) (hraised : u'.raised.count .received = u.raised.count .received)
    (hout : u'.out.Wf) (hstop : u'.taskStop = u.taskStop) : u'.Inv (as ++ [a]) := by
  have hlive := h.live hstate
  have hstop' : ¬ u'.taskStop = true := by
    rw [hstop]
    exact fun ht => h.stop ht hstate
  refine Live.inv ⟨?_, ?_, ?_, ?_, ?_, ?_⟩ hout (fun ht => absurd ht hstop')
    (by rw [hraised, hcompleted, h.raised])
  · rw [hinc]
    exact hlive.wf
  · rw [arrivals_concat, harr, List.append_nil]
    unfold Usock.pending
    rw [hcompleted, hinc]
    exact hlive.bytes
  · rw [requests_concat, hreq, List.append_nil, hcompleted, hinc]
    exact hlive.sizes
  · rw [hinc]
    exact hlive.waits
  · rw [htask, hpoll, hinc]
    exact hlive.polled
  · rw [htask, hpoll]
    exact hlive.once

theorem actionError_state : u.actionError.state ≠ .active := by
  unfold Usock.actionError
  cases h : u.state with
  | active => nofun
  | removingFd => exact fun h' => by cases h.symm.trans h'
  | done => exact fun h' => by cases h.symm.trans h'

theorem actionError_frame : u.actionError.completed = u.completed ∧
    u.actionError.raised.count .received = u.raised.count .received ∧
      u.actionError.out = u.out := by
  unfold Usock.actionError
  cases u.state with
  | active => exact ⟨rfl, by simp [Usock.raise], rfl⟩
  | removingFd => exact ⟨rfl, rfl, rfl⟩
  | done => exact ⟨rfl, rfl, rfl⟩

theorem Usock.Inv.actionError {u₁ : Usock} (h : u.Inv as) (a : UsockAction)
    (hcompleted : u₁.completed = u.completed) (hraised : u₁.raised = u.raised) (hout : u₁.out.Wf) :
    u₁.actionError.Inv (as ++ [a]) := by
  obtain ⟨h1, h2, h3⟩ := @actionError_frame u₁
  exact h.stopped a actionError_state (h1.trans hcompleted) (h2.trans (by rw [hraised])) (h3 ▸ hout)

theorem Usock.Inv.fail {u₁ : Usock} (h : u.Inv as) (a : UsockAction)
    (hcompleted : u₁.completed = u.completed) (hraised : u₁.raised = u.raised) (hout : u₁.out.Wf) :
    u₁.fail.Inv (as ++ [a]) := by
  refine h.stopped a nofun hcompleted ?_ hout
  simp [Usock.fail, Usock.raise, hraised]

/-- The buffer of a receive after a call, up to the position that it has reached. -/
theorem Filled.bytes_take {inc inc' : Incoming} {buf got : ℕ} (h : Filled inc buf got inc') :
    inc'.dest.take (buf + got) ++ inc'.unread ++ inc'.arrived = inc.dest.take buf ++ inc.unread ++
      inc.arrived := by
  have hbytes := h.bytes
  rw [List.take_add, h.kept, List.append_assoc, List.append_assoc, List.append_assoc]
  rw [List.append_assoc] at hbytes
  rw [hbytes]

section Served

variable {inc inc' : Incoming} {buf len got : ℕ} {done : List (List UInt8)}

/-- A request that is served to its end. -/
theorem live_completed
    (hbytes : done.flatten ++ inc.dest.take buf ++ inc.unread ++ inc.arrived = arrivals as)
    (hsizes : done.map List.length ++ [inc.dest.length] = requests as)
    (hbuf : buf + got = inc.dest.length) (h : Filled inc buf got inc') (hwf : u'.inc.Wf)
    (hlen : u'.inc.len = 0) (hunread : u'.inc.unread = inc'.unread)
    (harrived : u'.inc.arrived = inc'.arrived) (hcompleted : u'.completed = done ++ [inc'.dest])
    (htask : u'.taskRecv = false) (hpoll : u'.pollIn = false) : Live as u' := by
  refine ⟨hwf, ?_, ?_, fun hne => absurd hlen hne, fun hor => ?_, fun hand => ?_⟩
  · have hall : inc'.dest.take (buf + got) = inc'.dest :=
      List.take_of_length_le (by rw [h.length, hbuf])
    have htake := h.bytes_take
    rw [hall] at htake
    unfold Usock.pending
    rw [if_pos hlen, List.append_nil, hunread, harrived, hcompleted, List.flatten_append,
      List.flatten_singleton, List.append_assoc, List.append_assoc, ← List.append_assoc inc'.dest,
      htake, ← hbytes]
    simp only [List.append_assoc]
  · rw [if_pos hlen, List.append_nil, hcompleted, List.map_append, List.map_singleton,
      h.length, hsizes]
  · rw [htask, hpoll] at hor
    simp at hor
  · rw [htask] at hand
    simp at hand

/-- A request of which a part is left to the worker. -/
theorem live_waiting
    (hbytes : done.flatten ++ inc.dest.take buf ++ inc.unread ++ inc.arrived = arrivals as)
    (hsizes : done.map List.length ++ [inc.dest.length] = requests as)
    (hbuf : buf + len = inc.dest.length) (h : Filled inc buf got inc') (hlt : got < len)
    (hrest : inc'.unread = []) (hwf : u'.inc.Wf) (hdest : u'.inc.dest = inc'.dest)
    (hlen : u'.inc.len = len - got) (hbuf' : u'.inc.buf = buf + got)
    (hunread : u'.inc.unread = inc'.unread) (harrived : u'.inc.arrived = inc'.arrived)
    (hcompleted : u'.completed = done) (honce : ¬ (u'.taskRecv = true ∧ u'.pollIn = true)) :
    Live as u' := by
  have hne : u'.inc.len ≠ 0 := by omega
  refine ⟨hwf, ?_, ?_, fun _ => ⟨?_, hunread.trans hrest⟩, fun _ => hne, honce⟩
  · have htake := h.bytes_take
    unfold Usock.pending
    rw [if_neg hne, hdest, hbuf', hunread, harrived, hcompleted, List.append_assoc,
      List.append_assoc, ← List.append_assoc (inc'.dest.take _), htake, ← hbytes]
    simp only [List.append_assoc]
  · rw [if_neg hne, hcompleted, hdest, h.length, hsizes]
  · rw [hbuf', hlen, hdest, h.length]
    omega

end Served

theorem count_received (h : u.raised.count .received = u.completed.length) :
    u.raiseReceived.raised.count .received = u.raiseReceived.completed.length := by
  simp [Usock.raiseReceived, Usock.raise, h]

/-- `nn_usock_recv` on a socket that waits for nothing. -/
theorem Usock.Inv.recv (h : u.Inv as) (hidle : u.inc.len = 0) (dest : List UInt8)
    (fd : Bool) (os : OsRecv) :
    ∃ u', nnUsockRecv os u dest fd = .ok u' ∧ u'.Inv (as ++ [.recv dest fd os]) := by
  unfold nnUsockRecv
  by_cases hstate : u.state = .active
  · rw [if_neg (not_not_intro hstate)]
    have hlive := h.live hstate
    have hflags : u.taskRecv = false ∧ u.pollIn = false := by
      rw [← Bool.not_eq_true, ← Bool.not_eq_true, ← not_or]
      exact fun hor => hlive.polled hor hidle
    have hnostop : ¬ u.taskStop = true := fun ht => h.stop ht hstate
    obtain ⟨inc, hinc⟩ : ∃ inc, inc = { u.inc with dest, pfd := fd, fd := none } := ⟨_, rfl⟩
    have hwf : inc.Wf := by
      rw [hinc]
      exact ⟨hlive.wf.size, hlive.wf.pos_le, hlive.wf.len_le⟩
    have hdest : inc.dest = dest := by rw [hinc]
    have hbytes : u.completed.flatten ++ inc.dest.take 0 ++ inc.unread ++ inc.arrived =
        arrivals (as ++ [.recv dest fd os]) := by
      have hall := hlive.bytes
      unfold Usock.pending at hall
      rw [if_pos hidle] at hall
      rw [arrivals_concat, show arrivals [.recv dest fd os] = [] from rfl,
        List.append_nil, ← hall, hinc]
      rfl
    have hsizes :
        u.completed.map List.length ++ [inc.dest.length] = requests (as ++ [.recv dest fd os]) := by
      have hall := hlive.sizes
      rw [if_pos hidle, List.append_nil] at hall
      rw [requests_concat, show requests [.recv dest fd os] = [dest.length] from rfl, ← hall, hdest]
    obtain ⟨⟨r, inc'⟩, heq, hret⟩ := @recvRaw_spec inc os 0 dest.length hwf (by rw [hdest]; omega)
    rw [← hinc, heq, ok_bind]
    cases r with
    | none => exact ⟨_, rfl, h.actionError _ rfl rfl h.out⟩
    | some got =>
      obtain ⟨hgot, hfilled, hrest⟩ := hret
      dsimp only at hgot hfilled hrest ⊢
      by_cases hall : got = dest.length
      · rw [if_pos hall]
        refine ⟨_, rfl, Live.inv ?_ h.out (fun ht => absurd ht hnostop) (count_received h.raised)⟩
        exact live_completed hbytes hsizes (by rw [hdest, hall, Nat.zero_add]) hfilled hfilled.wf
          (hfilled.len_eq.trans (by rw [hinc]; exact hidle)) rfl rfl rfl hflags.1 hflags.2
      · rw [if_neg hall]
        refine ⟨_, rfl, Live.inv ?_ h.out (fun ht => absurd ht hnostop) h.raised⟩
        refine live_waiting hbytes hsizes (by rw [hdest, Nat.zero_add]) hfilled (by omega)
          (hrest (by omega))
          ⟨hfilled.wf.size, hfilled.wf.pos_le, hfilled.wf.len_le⟩ rfl rfl
            (Nat.zero_add _).symm rfl rfl rfl ?_
        rw [hflags.2]
        simp
  · rw [if_pos hstate]
    exact ⟨_, rfl, h.actionError _ rfl rfl h.out⟩

/-- The worker goes on with a receive. -/
theorem Usock.Inv.fdIn (h : u.Inv as) (hstate : u.state = .active)
    (hpoll : u.pollIn = true) (os : OsRecv) :
    ∃ u', u.fdIn os = .ok u' ∧ u'.Inv (as ++ [.fdIn os]) := by
  have hlive := h.live hstate
  have hne : u.inc.len ≠ 0 := hlive.polled (Or.inr hpoll)
  obtain ⟨hbuf, -⟩ := hlive.waits hne
  have htask : u.taskRecv = false := by
    rw [← Bool.not_eq_true]
    exact fun ht => hlive.once ⟨ht, hpoll⟩
  have hnostop : ¬ u.taskStop = true := fun ht => h.stop ht hstate
  have hbytes : u.completed.flatten ++ u.inc.dest.take u.inc.buf ++ u.inc.unread ++ u.inc.arrived =
      arrivals (as ++ [.fdIn os]) := by
    have hall := hlive.bytes
    unfold Usock.pending at hall
    rw [if_neg hne] at hall
    rw [arrivals_concat, show arrivals [.fdIn os] = [] from rfl, List.append_nil, ← hall]
  have hsizes :
      u.completed.map List.length ++ [u.inc.dest.length] = requests (as ++ [.fdIn os]) := by
    have hall := hlive.sizes
    rw [if_neg hne] at hall
    rw [requests_concat, show requests [.fdIn os] = [] from rfl, List.append_nil, ← hall]
  unfold Usock.fdIn
  obtain ⟨⟨r, inc'⟩, heq, hret⟩ := recvRaw_spec os hlive.wf hbuf.le
  rw [heq, ok_bind]
  cases r with
  | none => exact ⟨_, rfl, h.fail _ rfl rfl h.out⟩
  | some got =>
    obtain ⟨hgot, hfilled, hrest⟩ := hret
    dsimp only at hgot hfilled hrest ⊢
    rw [hfilled.len_eq, hfilled.buf_eq]
    have hwf : Incoming.Wf { inc' with len := u.inc.len - got, buf := u.inc.buf + got } :=
      ⟨hfilled.wf.size, hfilled.wf.pos_le, hfilled.wf.len_le⟩
    by_cases hall : u.inc.len - got = 0
    · rw [if_pos hall]
      refine ⟨_, rfl, Live.inv ?_ h.out (fun ht => absurd ht hnostop) (count_received h.raised)⟩
      exact live_completed hbytes hsizes (by omega) hfilled hwf hall rfl rfl rfl htask rfl
    · rw [if_neg hall]
      refine ⟨_, rfl, Live.inv ?_ h.out (fun ht => absurd ht hnostop) h.raised⟩
      exact live_waiting hbytes hsizes hbuf hfilled (by omega)
        (hrest (by omega)) hwf rfl rfl rfl rfl rfl rfl hlive.once

/-- `nn_usock_send` of at most three buffers. -/
theorem Usock.Inv.send (h : u.Inv as) {iov : List (List UInt8)}
    (hcnt : iov.length ≤ nnUsockMaxIovcnt) (os : OsSend) :
    ∃ u', nnUsockSend os u iov = .ok u' ∧ u'.Inv (as ++ [.send iov os]) := by
  unfold nnUsockSend
  by_cases hstate : u.state = .active
  · rw [if_neg (not_not_intro hstate), nnAssert_of hcnt, ok_bind]
    obtain ⟨rc, bytes, hdr, heq, hwf, -⟩ := sendRaw_spec (copyIov_spec iov).1 os
    rw [heq, ok_bind]
    cases rc with
    | ok =>
      exact ⟨_, rfl, h.quiet rfl rfl hstate rfl rfl rfl rfl (by simp [Usock.raise]) hwf rfl⟩
    | again => exact ⟨_, rfl, h.quiet rfl rfl hstate rfl rfl rfl rfl rfl hwf rfl⟩
    | reset => exact ⟨_, rfl, h.actionError _ rfl rfl hwf⟩
  · rw [if_pos hstate]
    exact ⟨_, rfl, h.actionError _ rfl rfl h.out⟩

/-- The worker goes on with a send. -/
theorem Usock.Inv.fdOut (h : u.Inv as) (hstate : u.state = .active) (os : OsSend) :
    ∃ u', u.fdOut os = .ok u' ∧ u'.Inv (as ++ [.fdOut os]) := by
  unfold Usock.fdOut
  obtain ⟨rc, bytes, hdr, heq, hwf, -⟩ := sendRaw_spec h.out os
  rw [heq, ok_bind]
  cases rc with
  | ok => exact ⟨_, rfl, h.quiet rfl rfl hstate rfl rfl rfl rfl (by simp [Usock.raise]) hwf rfl⟩
  | again => exact ⟨_, rfl, h.quiet rfl rfl hstate rfl rfl rfl rfl rfl hwf rfl⟩
  | reset => exact ⟨_, rfl, h.fail _ rfl rfl hwf⟩

/-- Bytes arrive. -/
theorem Usock.Inv.arrive (h : u.Inv as) (bytes : List UInt8) :
    Usock.Inv (as ++ [.arrive bytes])
      { u with inc := { u.inc with arrived := u.inc.arrived ++ bytes } } := by
  have harr : arrivals (as ++ [.arrive bytes]) = arrivals as ++ bytes := by
    rw [arrivals_concat, show arrivals [.arrive bytes] = bytes ++ [] from rfl, List.append_nil]
  have hreq : requests (as ++ [.arrive bytes]) = requests as := by
    rw [requests_concat, show requests [.arrive bytes] = [] from rfl, List.append_nil]
  refine ⟨h.out, h.stop, h.raised, ?_, hreq ▸ h.sizes, fun hstate => ?_⟩
  · rw [harr]
    exact h.whole.trans (List.prefix_append _ _)
  · have hlive := h.live hstate
    refine ⟨⟨hlive.wf.size, hlive.wf.pos_le, hlive.wf.len_le⟩, ?_, hreq ▸ hlive.sizes, hlive.waits,
      hlive.polled, hlive.once⟩
    rw [harr, ← hlive.bytes]
    exact (List.append_assoc _ _ _).symm

/-- One action. -/
theorem Usock.Inv.step (h : u.Inv as) {a : UsockAction} (ha : u.Enabled a) :
    ∃ u', u.step a = .ok (u', ()) ∧ u'.Inv (as ++ [a]) := by
  cases a with
  | arrive bytes => exact ⟨_, rfl, h.arrive bytes⟩
  | recv dest fd os =>
    obtain ⟨u', heq, hu⟩ := h.recv ha dest fd os
    refine ⟨u', ?_, hu⟩
    rw [Usock.step, heq]
    rfl
  | send iov os =>
    obtain ⟨u', heq, hu⟩ := h.send ha.2.1 os
    refine ⟨u', ?_, hu⟩
    rw [Usock.step, heq]
    rfl
  | taskRecv =>
    refine ⟨_, rfl, ?_⟩
    by_cases hstate : u.state = .active
    · have hlive := h.live hstate
      have hlive' : Live (as ++ [.taskRecv]) { u with taskRecv := false, pollIn := true } := by
        refine ⟨hlive.wf, ?_, ?_, hlive.waits, fun _ => hlive.polled (Or.inl ha), by simp⟩
        · rw [arrivals_concat, show arrivals [.taskRecv] = [] from rfl, List.append_nil]
          exact hlive.bytes
        · rw [requests_concat, show requests [.taskRecv] = [] from rfl, List.append_nil]
          exact hlive.sizes
      exact hlive'.inv h.out h.stop h.raised
    · exact h.stopped _ hstate rfl rfl h.out
  | taskSend =>
    refine ⟨_, rfl, ?_⟩
    by_cases hstate : u.state = .active
    · exact h.quiet rfl rfl hstate rfl rfl rfl rfl rfl h.out rfl
    · exact h.stopped _ hstate rfl rfl h.out
  | taskStop =>
    have hstate := h.stop ha
    rw [Usock.step]
    cases hs : u.state with
    | active => exact absurd hs hstate
    | removingFd => exact ⟨_, rfl, h.fail _ rfl rfl h.out⟩
    | done => exact ⟨_, rfl, h.stopped _ (by rintro ⟨⟩) rfl rfl h.out⟩
  | fdIn os =>
    rw [Usock.step]
    cases hs : u.state with
    | active =>
      obtain ⟨u', heq, hu⟩ := h.fdIn hs ha os
      exact ⟨u', by simp only [heq]; rfl, hu⟩
    | removingFd => exact ⟨_, rfl, h.stopped _ (by rw [hs]; rintro ⟨⟩) rfl rfl h.out⟩
    | done => exact ⟨_, rfl, h.stopped _ (by rw [hs]; rintro ⟨⟩) rfl rfl h.out⟩
  | fdOut os =>
    rw [Usock.step]
    cases hs : u.state with
    | active =>
      obtain ⟨u', heq, hu⟩ := h.fdOut hs os
      exact ⟨u', by simp only [heq]; rfl, hu⟩
    | removingFd => exact ⟨_, rfl, h.stopped _ (by rw [hs]; rintro ⟨⟩) rfl rfl h.out⟩
    | done => exact ⟨_, rfl, h.stopped _ (by rw [hs]; rintro ⟨⟩) rfl rfl h.out⟩
  | fdErr =>
    rw [Usock.step]
    cases hs : u.state with
    | active => exact ⟨_, rfl, h.fail _ rfl rfl h.out⟩
    | removingFd => exact ⟨_, rfl, h.stopped _ (by rw [hs]; rintro ⟨⟩) rfl rfl h.out⟩
    | done => exact ⟨_, rfl, h.stopped _ (by rw [hs]; rintro ⟨⟩) rfl rfl h.out⟩

end Step

theorem start_inv : Usock.start.Inv [] := by
  have hlive : Live [] Usock.start :=
    ⟨⟨nofun, le_rfl, le_rfl⟩, rfl, rfl, fun hne => absurd rfl hne,
      fun hor => by simp [Usock.start] at hor, fun hand => by simp [Usock.start] at hand⟩
  exact hlive.inv ⟨le_rfl, nofun⟩ nofun rfl

theorem inv_of_trace {as : List UsockAction} {u : Usock}
    (h : Trace Usock.step Usock.Enabled .start as u) :
    u.Inv as := by
  apply h.invariant_of_step (I := fun as u => Usock.Inv as u) start_inv
  intro as u a hinv ha
  obtain ⟨u', heq, hu⟩ := hinv.step ha
  exact ⟨u', (), heq, hu⟩

/-- The buffers that are completed have the sizes that were asked for and are, one behind the other,
the first bytes of the stream.  While the socket is connected, what follows is in the buffer of the
receive that is going on, in the batch buffer and in the socket; a receive that waits has emptied
the batch buffer.  No action fails. -/
theorem usock_recv_exact (as : List UsockAction) (u : Usock)
    (h : Trace Usock.step Usock.Enabled .start as u) :
    u.completed.flatten <+: arrivals as ∧ u.completed.map List.length <+: requests as ∧
      u.raised.count .received = u.completed.length ∧
      (u.state = .active →
        u.completed.flatten ++ u.pending ++ u.inc.unread ++ u.inc.arrived = arrivals as ∧
        (u.inc.len = 0 → u.completed.map List.length = requests as) ∧
          (u.inc.len ≠ 0 → u.inc.unread = [])) ∧
      ∀ a, u.Enabled a → ∃ u', u.step a = .ok (u', ()) := by
  have hinv := inv_of_trace h
  refine ⟨hinv.whole, hinv.sizes, hinv.raised, fun hstate => ?_, fun a ha => ?_⟩
  · have hlive := hinv.live hstate
    refine ⟨hlive.bytes, fun hzero => ?_, fun hne => (hlive.waits hne).2⟩
    have hsizes := hlive.sizes
    rwa [if_pos hzero, List.append_nil] at hsizes
  · obtain ⟨u', heq, -⟩ := hinv.step ha
    exact ⟨u', heq⟩

/-- Three receives: one of two bytes that reads five, one that is served from the batch buffer and
goes on in the worker, and one that waits. -/
theorem usock_recv_exact_abc : ∃ u, Trace Usock.step Usock.Enabled .start
      [.arrive [1, 2, 3, 4, 5], .recv [0, 0] false (.give 9 none), .recv [0, 0, 0, 0] false .again,
        .arrive [6, 7], .taskRecv, .fdIn (.give 9 none), .recv [0, 0, 0] false .again] u ∧
    u.completed = [[1, 2], [3, 4, 5, 6]] ∧ u.completed.flatten <+: [1, 2, 3, 4, 5, 6, 7] := by
  obtain ⟨u, hrun, hcompleted⟩ : ∃ u, Trace Usock.step Usock.Enabled .start
      [.arrive [1, 2, 3, 4, 5], .recv [0, 0] false (.give 9 none), .recv [0, 0, 0, 0] false .again,
        .arrive [6, 7], .taskRecv, .fdIn (.give 9 none), .recv [0, 0, 0] false .again] u ∧
    u.completed = [[1, 2], [3, 4, 5, 6]] :=
      Trace.exists_of_runWhile (by set_option maxRecDepth 20000 in decide)
  exact ⟨u, hrun, hcompleted, (usock_recv_exact _ u hrun).1⟩

end NanoSocket.Aio

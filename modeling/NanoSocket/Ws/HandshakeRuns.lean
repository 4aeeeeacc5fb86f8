import NanoSocket.Ws.Handshake

/-!
# What the two sides of a handshake have in common

While a handshake goes on, a timer or an underlying socket that does something else than send and
receive either changes nothing of it (`HsWorld.Idles`) or ends it with an error; once the result is
settled, it is reported when the timer has stopped, whatever happens in between (`HsWorld.Stops`).
-/

namespace NanoSocket.Ws

/-- The bytes that arrive. -/
def HsAction.bytes : HsAction → List UInt8
  | .arrive bytes => bytes
  | _ => []

@[simp] theorem HsAction.bytes_received : HsAction.received.bytes = [] := rfl

/-- The bytes that have arrived in a run. -/
def arrivals (as : List HsAction) : List UInt8 := as.flatMap HsAction.bytes

@[simp] theorem arrivals_nil : arrivals [] = [] := rfl

@[simp] theorem arrivals_concat (as : List HsAction) (a : HsAction) :
    arrivals (as ++ [a]) = arrivals as ++ a.bytes := by
  simp [arrivals]

/-- The handshake goes on. -/
def HandshakeState.Running : HandshakeState → Prop
  | .serverRecv | .serverReply | .clientSend | .clientRecv | .handshakeSent => True
  | _ => False

/-- The state in which a handshake waits for its timer. -/
def HandshakeResult.stopping : HandshakeResult → HandshakeState
  | .ok => .stoppingTimerDone
  | .error => .stoppingTimerError

/-- The result `r` is settled; `code` is what the server has answered. -/
inductive HsWorld.Stops (r : HandshakeResult) (code : Option ResponseCode) (w : HsWorld) : Prop
  | stopping (hstate : w.hs.state = r.stopping) (htimer : w.hs.timer.In .stopping)
      (hdone : w.hs.done = none)
      (hcode : w.hs.responseCode = code)
  | done (hstate : w.hs.state = .done) (hdone : w.hs.done = some r)
      (hcode : w.hs.responseCode = code)

/-- Only the timer and the state of the underlying socket differ. -/
structure HsWorld.Idles (w w' : HsWorld) : Prop where
  hs : w'.hs =
    { w.hs with timer := w'.hs.timer, usock := { w.hs.usock with state := w'.hs.usock.state } }
  stream : w'.stream = w.stream
  timer : w'.hs.timer.In .active

theorem HsWorld.Stops.not_running {r : HandshakeResult} {code : Option ResponseCode} {w : HsWorld}
    (h : w.Stops r code) :
    ¬ w.hs.state.Running := by
  cases h with
  | stopping hstate =>
    rw [hstate]
    cases r <;> exact id
  | done hstate =>
    rw [hstate]
    exact id

/-- The kinds of actions. -/
theorem HsAction.kinds (a : HsAction) : (∃ t, a = .arrive t) ∨ a = .received ∨ a = .sent ∨
    a = .shutdown ∨ a = .error ∨ a = .task ∨ a = .expire := by
  cases a <;> simp

variable {sock : Socktype} {w : HsWorld} {hs hs' : Handshake}

/-! ### Steps and events -/

theorem step_sent
    (h : nnWsHandshakeHandler sock { w.hs with usock := { w.hs.usock with sending := false } }
      .sent = .ok hs') :
    w.step sock .sent = .ok ({ w with hs := hs' }, ()) := by
  unfold HsWorld.step
  dsimp only
  rw [h]
  rfl

theorem step_shutdown
    (h : nnWsHandshakeHandler sock { w.hs with usock := { w.hs.usock with state := .removingFd } }
      .shutdown = .ok hs') : w.step sock .shutdown = .ok ({ w with hs := hs' }, ()) := by
  unfold HsWorld.step
  dsimp only
  rw [h]
  rfl

theorem step_error
    (h : nnWsHandshakeHandler sock { w.hs with usock := { w.hs.usock with state := .done } }
      .error = .ok hs') :
    w.step sock .error = .ok ({ w with hs := hs' }, ()) := by
  unfold HsWorld.step
  dsimp only
  rw [h]
  rfl

theorem HsWorld.step_received {len : ℕ} (hrecv : w.hs.usock.recv = some len) :
    w.step sock .received = nnWsHandshakeHandler sock
      (Handshake.store { w.hs with usock := { w.hs.usock with recv := none } } (w.stream.take len))
        .received >>= fun hs => .ok ({ hs, stream := w.stream.drop len }, ()) := by
  unfold HsWorld.step HsWorld.received
  dsimp only
  rw [hrecv]
  dsimp only
  cases nnWsHandshakeHandler sock
    (Handshake.store { w.hs with usock := { w.hs.usock with recv := none } } (w.stream.take len))
      .received <;> rfl

theorem timerEvent_none {t : Timer} :
    w.timerEvent sock (t, none) = .ok { w with hs := { w.hs with timer := t } } := rfl

theorem timerEvent_timeout {t : Timer}
    (h : nnWsHandshakeHandler sock { w.hs with timer := t } .timeout = .ok hs') :
    w.timerEvent sock (t, some .timeout) = .ok { w with hs := hs' } := by
  unfold HsWorld.timerEvent
  dsimp only
  rw [h]
  rfl

theorem timerEvent_stopped {t : Timer}
    (h : nnWsHandshakeHandler sock { w.hs with timer := t.popped } .timerStopped = .ok hs') :
    w.timerEvent sock (t, some .stopped) = .ok { w with hs := hs' } := by
  unfold HsWorld.timerEvent
  dsimp only
  rw [h]
  rfl

theorem step_task {r : Timer × Option TimerEvent} {w' : HsWorld} (h : w.hs.timer.runTask = .ok r)
    (hev : w.timerEvent sock r = .ok w') : w.step sock .task = .ok (w', ()) := by
  unfold HsWorld.step
  dsimp only
  rw [h, ok_bind, hev]
  rfl

theorem step_expire {r : Timer × Option TimerEvent} {w' : HsWorld} (h : w.hs.timer.expire = .ok r)
    (hev : w.timerEvent sock r = .ok w') : w.step sock .expire = .ok (w', ()) := by
  unfold HsWorld.step
  dsimp only
  rw [h, ok_bind, hev]
  rfl

/-! ### While the handshake goes on -/

theorem stopTimer_eq (htimer : hs.timer.In .active) (r : HandshakeResult) :
    ∃ t, hs.stopTimer r.stopping = .ok { hs with timer := t, state := r.stopping } ∧
      t.In .stopping := by
  obtain ⟨t, heq, ht⟩ := htimer.stop
  refine ⟨t, ?_, ht⟩
  unfold Handshake.stopTimer
  rw [heq]
  rfl

theorem handler_shutdown (h : hs.state.Running) :
    nnWsHandshakeHandler sock hs .shutdown = .ok hs := by
  unfold nnWsHandshakeHandler
  revert h
  cases hs.state <;> intro h <;> first | exact h.elim | rfl

theorem handler_fails {ev : HsEvent} (hev : ev = .error ∨ ev = .timeout) (h : hs.state.Running)
    (htimer : hs.timer.In .active) :
    ∃ t, nnWsHandshakeHandler sock hs ev =
      .ok { hs with timer := t, state := .stoppingTimerError } ∧ t.In .stopping := by
  obtain ⟨t, heq, ht⟩ := stopTimer_eq htimer .error
  refine ⟨t, Eq.trans ?_ heq, ht⟩
  unfold nnWsHandshakeHandler
  revert h
  cases hs.state <;> intro h <;> first | exact h.elim | (rcases hev with rfl | rfl <;> rfl)

/-- What the timer and the underlying socket do besides sending and receiving. -/
theorem step_running (h : w.hs.state.Running) (htimer : w.hs.timer.In .active)
    (hdone : w.hs.done = none) {a : HsAction}
    (ha : a = .shutdown ∨ a = .error ∨ a = .task ∨ a = .expire) :
    ∃ w', w.step sock a = .ok (w', ()) ∧ (w.Idles w' ∨ w'.Stops .error w.hs.responseCode) := by
  rcases ha with rfl | rfl | rfl | rfl
  · exact ⟨_, step_shutdown (handler_shutdown h), Or.inl ⟨rfl, rfl, htimer⟩⟩
  · obtain ⟨t, heq, ht⟩ :=
      @handler_fails sock { w.hs with usock := { w.hs.usock with state := .done } } .error
      (Or.inl rfl) h htimer
    exact ⟨_, step_error heq, Or.inr (.stopping rfl ht hdone rfl)⟩
  · rcases htimer.runTask with ⟨t, heq, ht⟩ | ⟨hne, -⟩
    · exact ⟨_, step_task heq timerEvent_none, Or.inl ⟨rfl, rfl, ht⟩⟩
    · cases hne
  · rcases htimer.expire with ⟨t, heq, ht⟩ | ⟨-, t, heq, ht⟩
    · exact ⟨_, step_expire heq timerEvent_none, Or.inl ⟨rfl, rfl, ht⟩⟩
    · obtain ⟨t', heq', ht'⟩ :=
        @handler_fails sock { w.hs with timer := t } .timeout (Or.inr rfl) h ht
      exact ⟨_, step_expire heq (timerEvent_timeout heq'), Or.inr (.stopping rfl ht' hdone rfl)⟩

/-! ### When the result is settled -/

theorem handler_stopping {r : HandshakeResult} (h : hs.state = r.stopping) {ev : HsEvent}
    (hev : ev = .received ∨ ev = .sent ∨ ev = .shutdown ∨ ev = .error) :
    nnWsHandshakeHandler sock hs ev = .ok hs := by
  unfold nnWsHandshakeHandler
  rw [h]
  cases r <;> rcases hev with rfl | rfl | rfl | rfl <;> rfl

theorem handler_timerStopped {r : HandshakeResult} (h : hs.state = r.stopping) :
    nnWsHandshakeHandler sock hs .timerStopped = .ok (nnWsHandshakeLeave hs r) := by
  unfold nnWsHandshakeHandler
  rw [h]
  cases r <;> rfl

theorem store_server (h : hs.mode = .server) (bytes : List UInt8) :
    hs.store bytes = { hs with openingHs := hs.openingHs.take hs.recvPos ++ bytes } := by
  unfold Handshake.store
  rw [h]

theorem store_client (h : hs.mode = .client) (bytes : List UInt8) :
    hs.store bytes = { hs with response := hs.response.take hs.recvPos ++ bytes } := by
  unfold Handshake.store
  rw [h]

theorem store_eq (self : Handshake) (bytes : List UInt8) :
    (self.store bytes).state = self.state ∧ (self.store bytes).timer = self.timer ∧
      (self.store bytes).done = self.done ∧
        (self.store bytes).responseCode = self.responseCode := by
  unfold Handshake.store
  cases self.mode <;> exact ⟨rfl, rfl, rfl, rfl⟩

/-- A settled result stays, and nothing fails. -/
theorem step_stops {r : HandshakeResult} {code : Option ResponseCode} (h : w.Stops r code)
    {a : HsAction} (ha : w.Enabled a) : ∃ w', w.step sock a = .ok (w', ()) ∧ w'.Stops r code := by
  cases h with
  | done hstate hdone hcode =>
    cases a with
    | arrive bytes => exact ⟨_, rfl, .done hstate hdone hcode⟩
    | received | sent | shutdown | error => exact absurd hstate ha.1
    | task | expire => exact absurd hstate ha
  | stopping hstate htimer hdone hcode =>
    cases a with
    | arrive bytes => exact ⟨_, rfl, .stopping hstate htimer hdone hcode⟩
    | received =>
      obtain ⟨-, -, len, hrecv, -⟩ := ha
      have hstore :=
        store_eq { w.hs with usock := { w.hs.usock with recv := none } } (w.stream.take len)
      rw [HsWorld.step_received hrecv, handler_stopping (hstore.1.trans hstate) (Or.inl rfl)]
      refine ⟨_, rfl,
        .stopping (hstore.1.trans hstate) ?_ (hstore.2.2.1.trans hdone) (hstore.2.2.2.trans hcode)⟩
      rw [hstore.2.1]
      exact htimer
    | sent =>
      have heq :=
        @handler_stopping sock { w.hs with usock := { w.hs.usock with sending := false } } r hstate
        .sent
        (by simp)
      exact ⟨_, step_sent heq, .stopping hstate htimer hdone hcode⟩
    | shutdown =>
      have heq :=
        @handler_stopping sock { w.hs with usock := { w.hs.usock with state := .removingFd } } r
        hstate
        .shutdown (by simp)
      exact ⟨_, step_shutdown heq, .stopping hstate htimer hdone hcode⟩
    | error =>
      have heq :=
        @handler_stopping sock { w.hs with usock := { w.hs.usock with state := .done } } r hstate
        .error
        (by simp)
      exact ⟨_, step_error heq, .stopping hstate htimer hdone hcode⟩
    | task =>
      rcases htimer.runTask with ⟨t, heq, ht⟩ | ⟨-, t, heq, -⟩
      · exact ⟨_, step_task heq timerEvent_none, .stopping hstate ht hdone hcode⟩
      · exact ⟨_, step_task heq (timerEvent_stopped (handler_timerStopped hstate)),
          .done rfl rfl hcode⟩
    | expire =>
      rcases htimer.expire with ⟨t, heq, ht⟩ | ⟨hne, -⟩
      · exact ⟨_, step_expire heq timerEvent_none, .stopping hstate ht hdone hcode⟩
      · cases hne

/-! ### While a side receives -/

/-- There is no end of the headers before the first NUL. -/
def Incomplete (c : List UInt8) : Prop := ¬ termseq <:+: cstring c

instance (c : List UInt8) : Decidable (Incomplete c) := inferInstanceAs (Decidable (¬ _))

/-- The receives that are asked for while the bytes `s` come in, as a position and a length: the
parser wants `more` after a text, and the end of the text may be the front of a terminator. -/
inductive Asks (first : ℕ) (more : List UInt8 → Prop) (s : List UInt8) : ℕ → ℕ → Prop
  | first : Asks first more s 0 first
  | next {p n : ℕ} (h : Asks first more s p n) (hle : p + n ≤ s.length)
      (hmore : more (s.take (p + n))) :
      Asks first more s (p + n) (4 - Search.border termseq (s.take (p + n)) 4)

theorem Asks.append {first : ℕ} {more : List UInt8 → Prop} {s : List UInt8} {p n : ℕ}
    (h : Asks first more s p n) (t : List UInt8) : Asks first more (s ++ t) p n := by
  induction h with
  | first => exact .first
  | @next p n _ hle hmore ih =>
    have htake : (s ++ t).take (p + n) = s.take (p + n) := List.take_append_of_le_length hle
    have := ih.next (by rw [List.length_append]; omega) (by rwa [htake])
    rwa [htake] at this

/-- The state in which a side receives. -/
def Mode.receiving : Mode → HandshakeState
  | .server => .serverRecv
  | .client => .clientRecv

/-- The buffer into which a side receives. -/
def Handshake.buffer (self : Handshake) : List UInt8 :=
  match self.mode with
  | .server => self.openingHs
  | .client => self.response

theorem buffer_server (h : hs.mode = .server) : hs.buffer = hs.openingHs := by
  unfold Handshake.buffer
  rw [h]

theorem buffer_client (h : hs.mode = .client) : hs.buffer = hs.response := by
  unfold Handshake.buffer
  rw [h]

/-- A side waits for the bytes `p, …, p + n - 1` of what has arrived. -/
structure Receives (mode : Mode) (first : ℕ) (more : List UInt8 → Prop) (s : List UInt8)
    (p n : ℕ) (w : HsWorld) :
    Prop where
  asks : Asks first more s p n
  state : w.hs.state = mode.receiving
  mode : w.hs.mode = mode
  timer : w.hs.timer.In .active
  recv : w.hs.usock.recv = some n
  sending : w.hs.usock.sending = false
  pos : w.hs.recvPos = p
  len : w.hs.recvLen = n
  buffer : w.hs.buffer = s.take p
  opening : w.hs.opening = none
  done : w.hs.done = none
  sent : w.hs.mode = .server → w.hs.usock.sent = []
  stream : w.stream = s.drop p

theorem Asks.le {first : ℕ} {more : List UInt8 → Prop} {s : List UInt8} {p n : ℕ}
    (h : Asks first more s p n) :
    p ≤ s.length := by
  cases h with
  | first => exact Nat.zero_le _
  | next _ hle _ => exact hle

theorem Asks.first_le {more : List UInt8 → Prop} {first : ℕ} {s : List UInt8} {p n : ℕ}
    (h : Asks first more s p n) :
    first ≤ p + n := by
  induction h with
  | first => exact Nat.le_add_left _ _
  | next _ _ _ ih => exact ih.trans (Nat.le_add_right _ _)

section Receives

variable {mode : Mode} {first : ℕ} {more : List UInt8 → Prop} {s : List UInt8} {p n : ℕ}

theorem Receives.arrive (h : Receives mode first more s p n w) (t : List UInt8) :
    Receives mode first more (s ++ t) p n { w with stream := w.stream ++ t } := by
  have hp := h.asks.le
  refine ⟨h.asks.append t, h.state, h.mode, h.timer, h.recv, h.sending, h.pos, h.len, ?_, h.opening,
    h.done, h.sent, ?_⟩
  · rw [List.take_append_of_le_length hp]
    exact h.buffer
  · rw [List.drop_append_of_le_length hp]
    exact congrArg (· ++ t) h.stream

theorem Receives.idles {w' : HsWorld} (h : Receives mode first more s p n w) (hw : w.Idles w') :
    Receives mode first more s p n w' := by
  obtain ⟨hhs, hstream, htimer⟩ := hw
  refine ⟨h.asks, ?_, ?_, htimer, ?_, ?_, ?_, ?_, ?_, ?_, ?_, ?_, hstream.trans h.stream⟩
  all_goals rw [hhs]
  · exact h.state
  · exact h.mode
  · exact h.recv
  · exact h.sending
  · exact h.pos
  · exact h.len
  · exact h.buffer
  · exact h.opening
  · exact h.done
  · exact h.sent

theorem Receives.le_of_enabled (h : Receives mode first more s p n w) (ha : w.Enabled .received) :
    p + n ≤ s.length := by
  obtain ⟨-, -, len, hlen, hle⟩ := ha
  rw [h.recv] at hlen
  cases hlen
  rw [h.stream, List.length_drop] at hle
  have := h.asks.le
  omega

theorem Receives.enabled (h : Receives mode first more s p n w)
    (hactive : w.hs.usock.state = .active) (hle : p + n ≤ s.length) : w.Enabled .received := by
  refine ⟨by rw [h.state]; cases mode <;> decide, hactive, n, h.recv, ?_⟩
  rw [h.stream, List.length_drop]
  omega

end Receives

end NanoSocket.Ws

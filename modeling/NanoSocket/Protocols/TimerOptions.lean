import NanoSocket.Core.Backoff
import NanoSocket.Core.Cmsg
import NanoSocket.ReqRep.ReqSafety
import NanoSocket.Survey.SurveyorSafety

/-!
# Options that become timeouts (`core/sock.c`, `reqrep/req.c`, `survey/surveyor.c`)

Four options of type `int` are given to `nn_timer_start` later on, which asserts that a timeout is
not negative: `NN_REQ_RESEND_IVL` and `NN_SURVEYOR_DEADLINE` as they are, and the two intervals for
reconnecting after the arithmetic of `nn_backoff_start`.

The options of a protocol are not checked, and those of a socket are; but the product of two
intervals may be negative in 32 bits.  `accepted_options_safe_iff` says which values cannot make the
assertion fail.
-/

namespace NanoSocket.Options

open Runs

/-- The error codes of `nn_sock_setopt_inner`. -/
inductive OptErrno
  | einval
  | enoprotoopt
  deriving DecidableEq, Repr

/-- `*(int*) optval`. -/
def optInt (optval : List UInt8) : Int32 := .ofNat (getLe optval)

/-- The bytes of an `int`. -/
def intBytes (v : Int32) : List UInt8 := putLe 4 v.toUInt32.toNat

/-- The options of `struct nn_sock`. -/
structure SockOptions where
  socketName : List UInt8
  sndbuf : Int32
  rcvbuf : Int32
  rcvmaxsize : Int32
  sndtimeo : Int32
  rcvtimeo : Int32
  reconnectIvl : Int32
  reconnectIvlMax : Int32
  sndprio : Int32
  rcvprio : Int32
  ipv4only : Int32
  maxttl : Int32
  deriving DecidableEq, Repr

/-- The defaults of `nn_sock_init`. -/
def SockOptions.init : SockOptions where
  socketName := []
  sndbuf := 128 * 1024
  rcvbuf := 128 * 1024
  rcvmaxsize := 1024 * 1024
  sndtimeo := -1
  rcvtimeo := -1
  reconnectIvl := 100
  reconnectIvlMax := 0
  sndprio := 8
  rcvprio := 8
  ipv4only := 1
  maxttl := 8

/-- `nn_sock_setopt_inner` for the level `NN_SOL_SOCKET`. -/
def nnSockSetoptInner (self : SockOptions) (option : ℕ) (optval : List UInt8) :
    Except OptErrno SockOptions :=
  -- NN_SOCKET_NAME is the only string option
  if option = 15 then
    if optval.length > 63 then .error .einval else .ok { self with socketName := optval }
  else if optval.length ≠ 4 then .error .einval
  else
    let val := optInt optval
    match option with
    -- NN_SNDBUF, NN_RCVBUF, NN_RCVMAXSIZE
    | 2 => if val ≤ 0 then .error .einval else .ok { self with sndbuf := val }
    | 3 => if val ≤ 0 then .error .einval else .ok { self with rcvbuf := val }
    | 16 => if val < -1 then .error .einval else .ok { self with rcvmaxsize := val }
    -- NN_SNDTIMEO, NN_RCVTIMEO
    | 4 => .ok { self with sndtimeo := val }
    | 5 => .ok { self with rcvtimeo := val }
    -- NN_RECONNECT_IVL, NN_RECONNECT_IVL_MAX
    | 6 => if val < 0 then .error .einval else .ok { self with reconnectIvl := val }
    | 7 => if val < 0 then .error .einval else .ok { self with reconnectIvlMax := val }
    -- NN_SNDPRIO, NN_RCVPRIO
    | 8 => if val < 1 ∨ val > 16 then .error .einval else .ok { self with sndprio := val }
    | 9 => if val < 1 ∨ val > 16 then .error .einval else .ok { self with rcvprio := val }
    -- NN_IPV4ONLY, NN_MAXTTL
    | 14 => if val ≠ 0 ∧ val ≠ 1 then .error .einval else .ok { self with ipv4only := val }
    | 17 => if val < 1 ∨ val > 255 then .error .einval else .ok { self with maxttl := val }
    -- NN_LINGER
    | 1 => .ok self
    | _ => .error .enoprotoopt

/-- `nn_req_setopt`; the level `NN_REQ` is 48, and `NN_REQ_RESEND_IVL` is 1. -/
def nnReqSetopt {P : Type} (self : ReqRep.Req P) (level option : ℕ) (optval : List UInt8) :
    Except OptErrno (ReqRep.Req P) :=
  if level ≠ 48 then .error .enoprotoopt
  else if option = 1 then
    if optval.length ≠ 4 then .error .einval
      else .ok { self with resendIvl := (optInt optval).toInt }
  else .error .enoprotoopt

/-- `nn_surveyor_setopt`; the level `NN_SURVEYOR` is 98, and `NN_SURVEYOR_DEADLINE` is 1. -/
def nnSurveyorSetopt {P : Type} (self : Survey.Surveyor P) (level option : ℕ)
    (optval : List UInt8) :
    Except OptErrno (Survey.Surveyor P) :=
  if level ≠ 98 then .error .enoprotoopt
  else if option = 1 then
    if optval.length ≠ 4 then .error .einval
      else .ok { self with deadline := (optInt optval).toInt }
  else .error .enoprotoopt

/-! ### What is accepted -/

@[simp] theorem length_intBytes (v : Int32) : (intBytes v).length = 4 := length_putLe ..

theorem optInt_intBytes (v : Int32) : optInt (intBytes v) = v := by
  have hlt : v.toUInt32.toNat < 256 ^ 4 := v.toUInt32.toNat_lt
  rw [optInt, intBytes, getLe_putLe, Nat.mod_eq_of_lt hlt, ← UInt32.toInt32_ofNat',
    UInt32.ofNat_toNat]
  rfl

/-- `nn_setsockopt` accepts the value for some socket. -/
def Accepts {σ : Type} (setopt : σ → List UInt8 → Except OptErrno σ) (v : Int32) : Prop :=
  ∃ self self', setopt self (intBytes v) = .ok self'

/-- The options of a protocol are not checked. -/
theorem nnReqSetopt_eq {P : Type} (self : ReqRep.Req P) (v : Int32) :
    nnReqSetopt self 48 1 (intBytes v) = .ok { self with resendIvl := v.toInt } := by
  rw [nnReqSetopt, if_neg (by decide), if_pos rfl, if_neg (by rw [length_intBytes]; decide),
    optInt_intBytes]

theorem nnSurveyorSetopt_eq {P : Type} (self : Survey.Surveyor P) (v : Int32) :
    nnSurveyorSetopt self 98 1 (intBytes v) = .ok { self with deadline := v.toInt } := by
  rw [nnSurveyorSetopt, if_neg (by decide), if_pos rfl, if_neg (by rw [length_intBytes]; decide),
    optInt_intBytes]

/-- The two intervals are. -/
theorem accepts_reconnect {v : Int32} {option : ℕ} (hoption : option = 6 ∨ option = 7)
    (h : Accepts (fun self => nnSockSetoptInner self option) v) : 0 ≤ v.toInt := by
  obtain ⟨self, self', heq⟩ := h
  by_contra hneg
  have hlt : v < 0 := Int32.lt_iff_toInt_lt.2 (not_le.1 hneg)
  rcases hoption with rfl | rfl
  all_goals
    simp only [nnSockSetoptInner, length_intBytes, optInt_intBytes, if_pos hlt] at heq
    cases heq

/-! ### REQ sockets -/

section Req

open ReqRep

/-- An event that can happen, when the interval for re-sending is only set to some values. -/
def ReqEnabled {P : Type} (values : Set Int32) (s : ReqRep.Sock P) : ReqRep.Event P → Prop
  | .setResendIvl ivl => ∃ v ∈ values, ivl = v.toInt
  | e => Enabled s e

/-- In no run is there an assertion that fails, but for the one about the SP header of the user's
message. -/
def ReqSafe (values : Set Int32) : Prop :=
  ∀ (P : Type) [DecidableEq P] (lastid : UInt32) (events : List (ReqRep.Event P))
    (s : ReqRep.Sock P)
    (e : ReqRep.Event P),
    Trace ReqRep.Sock.step (ReqEnabled values) (ReqRep.Sock.init lastid) events s →
      ReqEnabled values s e → s.step e = .error .assertFailed → s.Refuses e

variable {P : Type} {values : Set Int32}

theorem ReqEnabled.enabled {s : ReqRep.Sock P} {e : ReqRep.Event P} (h : ReqEnabled values s e)
    (hvalues : ∀ v ∈ values, 0 ≤ v.toInt) : Enabled s e := by
  cases e with
  | setResendIvl ivl =>
    obtain ⟨v, hv, rfl⟩ := h
    exact hvalues v hv
  | _ => exact h

/-- A request that is sent with a negative interval. -/
theorem csend_abort [DecidableEq P] {s : ReqRep.Sock P} {msg : Msg} {sync : Bool} {p : P}
    {x : Xreq P} (hs : s.state = .active) (hfsm : s.req.fsm = .active)
    (hst : s.req.state = .passive) (hmsg : msg.sphdr = [])
    (hsend : nnXreqSendTo s.req.xreq
      { msg with sphdr := nnPutl ((s.req.task.id + 1) ||| 0x80000000) } sync = .ok (some p, x))
      (hneg : s.req.resendIvl < 0) : s.step (.csend msg sync) = .error .assertFailed := by
  have hstart : ∀ t, nnTimerStart t s.req.resendIvl = .error .assertFailed := by
    intro t
    rw [nnTimerStart, nnAssert_of_not (not_le.2 hneg)]
    rfl
  have hhandler : ∀ r : Req P, r.state = .passive →
      nnReqHandler r sync (.action .sent) = nnReqActionSend r true sync := by
    intro r hr
    unfold nnReqHandler
    rw [hr]
  simp [ReqRep.Sock.step, hs, nnReqCsend, nnAssert_of hmsg, Req.feed, hfsm, hhandler, hst,
    nnReqActionSend, hsend, hstart]

/-- A pipe is attached and can be written to; the value is set and a request is sent. -/
theorem req_aborts {v : Int32} (hv : v ∈ values) (hneg : v.toInt < 0) :
    ∃ events s, Trace ReqRep.Sock.step (ReqEnabled values) (ReqRep.Sock.init 0) events s ∧
      ∃ e : ReqRep.Event ℕ, ReqEnabled values s e ∧ s.step e = .error .assertFailed ∧
        ¬ s.Refuses e := by
  have h₁ : Trace ReqRep.Sock.step (ReqEnabled values) (ReqRep.Sock.init 0)
      ([] ++ [ReqRep.Event.add (0 : ℕ) 0 0]) _ :=
    Trace.nil.snoc ⟨rfl, Or.inl rfl⟩ rfl
  have h₂ : Trace ReqRep.Sock.step (ReqEnabled values) (ReqRep.Sock.init 0)
      ([] ++ [ReqRep.Event.add (0 : ℕ) 0 0] ++ [.pipeOut 0 true]) _ := h₁.snoc ⟨_, rfl, rfl⟩ rfl
  have h₃ : Trace ReqRep.Sock.step (ReqEnabled values) (ReqRep.Sock.init 0)
      ([] ++ [ReqRep.Event.add (0 : ℕ) 0 0] ++ [.pipeOut 0 true] ++ [.setResendIvl v.toInt]) _ :=
    h₂.snoc ⟨v, hv, rfl⟩ rfl
  refine ⟨_, _, h₃, .csend ⟨[], [], []⟩ true, trivial, csend_abort rfl rfl rfl rfl rfl hneg, ?_⟩
  rintro ⟨-, msg, sync, heq, hne⟩
  cases heq
  exact hne rfl

theorem reqSafe_iff : ReqSafe values ↔ ∀ v ∈ values, 0 ≤ v.toInt := by
  constructor
  · intro h v hv
    by_contra hneg
    obtain ⟨events, s, hrun, e, he, hfails, hr⟩ := req_aborts hv (not_le.1 hneg)
    exact hr (h ℕ 0 events s e hrun he hfails)
  · intro h P _ lastid events s e hrun he hfails
    have hinv : s.Inv := hrun.invariant (I := fun _ s => s.Inv) (ReqRep.Sock.init_inv lastid)
      fun _ _ _ _ _ hinv he heq => (hinv.did (he.enabled h) heq).1
    by_contra hr
    obtain ⟨s', a, heq, -⟩ := hinv.step (he.enabled h) hr
    cases heq.symm.trans hfails

end Req

/-! ### SURVEYOR sockets -/

section Survey

open Survey

/-- An event that can happen, when the deadline is only set to some values. -/
def SurveyEnabled {P : Type} (values : Set Int32) (s : Survey.Sock P) : Survey.Event P → Prop
  | .setDeadline deadline => ∃ v ∈ values, deadline = v.toInt
  | e => Enabled s e

/-- In no run is there an assertion that fails, but for the one about the SP header of the user's
message. -/
def SurveySafe (values : Set Int32) : Prop :=
  ∀ (P : Type) [DecidableEq P] (surveyid : UInt32) (events : List (Survey.Event P))
    (s : Survey.Sock P)
    (e : Survey.Event P),
    Trace Survey.Sock.step (SurveyEnabled values) (Survey.Sock.init surveyid) events s →
      SurveyEnabled values s e → s.step e = .error .assertFailed → s.Refuses e

variable {P : Type} {values : Set Int32}

theorem SurveyEnabled.enabled {s : Survey.Sock P} {e : Survey.Event P}
    (h : SurveyEnabled values s e) (hvalues : ∀ v ∈ values, 0 ≤ v.toInt) : Enabled s e := by
  cases e with
  | setDeadline deadline =>
    obtain ⟨v, hv, rfl⟩ := h
    exact hvalues v hv
  | _ => exact h

/-- A survey that is sent with a negative deadline. -/
theorem send_abort [DecidableEq P] {s : Survey.Sock P} {msg : Msg} {sync : P → Bool}
    {x : Xsurveyor P} (hs : s.state = .active) (hfsm : s.surveyor.fsm = .active)
    (hst : s.surveyor.state = .passive) (hmsg : msg.sphdr = [])
    (hsend : nnXsurveyorSend s.surveyor.xsurveyor
      { msg with sphdr := nnPutl ((s.surveyor.surveyid + 1) ||| 0x80000000) } sync = .ok x)
    (hneg : s.surveyor.deadline < 0) : s.step (.send msg sync) = .error .assertFailed := by
  have hstart : ∀ t, nnTimerStart t s.surveyor.deadline = .error .assertFailed := by
    intro t
    rw [nnTimerStart, nnAssert_of_not (not_le.2 hneg)]
    rfl
  have hhandler : ∀ r : Surveyor P, r.state = .passive → nnSurveyorHandler r sync (.action .start) =
      r.open sync := by
    intro r hr
    unfold nnSurveyorHandler
    rw [hr]
  simp [Survey.Sock.step, hs, nnSurveyorSend, nnAssert_of hmsg, nnSurveyorInprogress, Surveyor.feed,
    hfsm, hhandler, hst, Surveyor.open, nnSurveyorResend, hsend, hstart]

/-- The value is set and a survey is sent. -/
theorem survey_aborts {v : Int32} (hv : v ∈ values) (hneg : v.toInt < 0) :
    ∃ events s, Trace Survey.Sock.step (SurveyEnabled values) (Survey.Sock.init 0) events s ∧
      ∃ e : Survey.Event ℕ, SurveyEnabled values s e ∧ s.step e = .error .assertFailed ∧
        ¬ s.Refuses e := by
  have h₁ : Trace Survey.Sock.step (SurveyEnabled values) (Survey.Sock.init 0)
      ([] ++ [(Survey.Event.setDeadline v.toInt : Survey.Event ℕ)]) _ :=
    Trace.nil.snoc ⟨v, hv, rfl⟩ rfl
  refine ⟨_, _, h₁, .send ⟨[], [], []⟩ fun _ => true, trivial,
    send_abort rfl rfl rfl rfl rfl hneg, ?_⟩
  rintro ⟨-, msg, sync, heq, hne⟩
  cases heq
  exact hne rfl

theorem surveySafe_iff : SurveySafe values ↔ ∀ v ∈ values, 0 ≤ v.toInt := by
  constructor
  · intro h v hv
    by_contra hneg
    obtain ⟨events, s, hrun, e, he, hfails, hr⟩ := survey_aborts hv (not_le.1 hneg)
    exact hr (h ℕ 0 events s e hrun he hfails)
  · intro h P _ surveyid events s e hrun he hfails
    have hinv : ∃ log, s.Inv log := by
      refine hrun.invariant (I := fun _ s => ∃ log, s.Inv log) ⟨_, Survey.Sock.init_inv surveyid⟩ ?_
      rintro events s e s' a ⟨log, hinv⟩ he heq
      obtain ⟨s'', a', heq', hinv'⟩ := hinv.step (he.enabled h) fun hr => by
        rw [hr.step] at heq
        cases heq
      cases heq.symm.trans heq'
      exact ⟨_, hinv'⟩
    obtain ⟨log, hinv⟩ := hinv
    by_contra hr
    obtain ⟨s', a, heq, -⟩ := hinv.step (he.enabled h) hr
    cases heq.symm.trans hfails

end Survey

/-- The accepted values for which `nn_timer_start` never fails its assertion: the interval for
re-sending and the deadline are not negative, and neither is the first product of the reconnect
intervals that is not between nothing and the maximum. -/
theorem accepted_options_safe_iff {resendIvls deadlines : Set Int32}
    {reconnectIvl reconnectIvlMax : Int32}
    (hivl : Accepts (fun self => nnSockSetoptInner self 6) reconnectIvl)
    (hmax : Accepts (fun self => nnSockSetoptInner self 7) reconnectIvlMax) :
    (ReqSafe resendIvls ↔ ∀ v ∈ resendIvls, 0 ≤ v.toInt) ∧
      (SurveySafe deadlines ↔ ∀ v ∈ deadlines, 0 ≤ v.toInt) ∧
      (BackoffSafe reconnectIvl (retryMax reconnectIvl reconnectIvlMax) ↔
        NeverNegative reconnectIvl (retryMax reconnectIvl reconnectIvlMax)) :=
  ⟨reqSafe_iff, surveySafe_iff, backoffSafe_iff
    (retryMax_nonneg (accepts_reconnect (Or.inl rfl) hivl) (accepts_reconnect (Or.inr rfl) hmax))⟩

/-- An interval of -1 is accepted, and the next request fails the assertion; so do a survey with a
deadline of -1, and the third reconnect with the intervals 2^30 and 2^31 - 1. -/
theorem accepted_options_abort :
    (Accepts (fun self : ReqRep.Req ℕ => nnReqSetopt self 48 1) (-1) ∧
      ∃ events s, Trace ReqRep.Sock.step (ReqEnabled {-1}) (ReqRep.Sock.init 0) events s ∧
        ∃ e : ReqRep.Event ℕ, ReqEnabled {-1} s e ∧ s.step e = .error .assertFailed ∧
          ¬ s.Refuses e) ∧
    (Accepts (fun self : Survey.Surveyor ℕ => nnSurveyorSetopt self 98 1) (-1) ∧
      ∃ events s, Trace Survey.Sock.step (SurveyEnabled {-1}) (Survey.Sock.init 0) events s ∧
        ∃ e : Survey.Event ℕ, SurveyEnabled {-1} s e ∧ s.step e = .error .assertFailed ∧
          ¬ s.Refuses e) ∧
    Accepts (fun self => nnSockSetoptInner self 6) 1073741824 ∧
      Accepts (fun self => nnSockSetoptInner self 7) 2147483647 ∧
      ¬ BackoffSafe 1073741824 2147483647 := by
  refine ⟨⟨⟨ReqRep.nnReqInit 0, _, nnReqSetopt_eq _ _⟩, req_aborts rfl (by decide)⟩,
    ⟨⟨Survey.nnSurveyorInit 0, _, nnSurveyorSetopt_eq _ _⟩, survey_aborts rfl (by decide)⟩,
    ⟨.init, _, rfl⟩, ⟨.init, _, rfl⟩, fun h => ?_⟩
  have hnonneg := (backoffSafe_iff (by decide)).1 h 2 (by decide)
  exact absurd hnonneg (by decide)

theorem accepted_options_safe_iff_small :
    ReqSafe {5000} ∧ SurveySafe {1000} ∧ BackoffSafe 100 (retryMax 100 60000) := by
  have hsafe := @accepted_options_safe_iff {5000} {1000} 100 60000 ⟨.init, _, rfl⟩ ⟨.init, _, rfl⟩
  refine ⟨hsafe.1.2 ?_, hsafe.2.1.2 ?_, hsafe.2.2.2 fun k hbelow => ?_⟩
  · rintro v rfl
    decide
  · rintro v rfl
    decide
  · -- the product 1023 * 100 is above the maximum
    have hk : k ≤ 10 := by
      by_contra hlarge
      exact absurd (hbelow 10 (not_le.1 hlarge)) (by decide)
    interval_cases k <;> decide

end NanoSocket.Options

import NanoSocket.Tcp.Streamhdr

/-!
# Both ends of a stream (`transports/utils/streamhdr.c`)

* `Party.exchange_report` is about one end whose peer may send any bytes: the exchange is reported
  as a success only after eight bytes that are the header of a peer, and as a failure only for a
  reason.  An owner that gave up is told neither.
* `Link.exchange_agreement` is about two ends that exchange headers over a stream in each direction:
  one that reports a success is connected to a peer, no error is reported at the other end unless
  its socket failed or its timer expired, and the sessions receive what the sessions sent, without a
  byte of a header.
* `Link.exchange_complete`: when nothing failed and no owner gave up, the exchange does not end
  before both ends have reported the same.
-/

namespace NanoSocket.Tcp

open Runs

/-! ### One end -/

/-- One event, as a call of a system. -/
def Party.call (t : Socktype) (p : Party) (a : PartyEvent) : Except Fault (Party × Unit) :=
  return (← p.step t a, ())

/-- A result that was reported. -/
theorem Party.Good.of_reports {t : Socktype} {p : Party} (h : p.Good t) :
    p.reports.Nodup ∧ (.ok ∈ p.reports → .error ∉ p.reports ∧ p.gaveUp = false ∧ p.Exchanged t) ∧
      (.error ∈ p.reports → p.gaveUp = false ∧ p.Rejected t) := by
  have none : p.reports = [] → p.reports.Nodup ∧
      (.ok ∈ p.reports → .error ∉ p.reports ∧ p.gaveUp = false ∧ p.Exchanged t) ∧
      (.error ∈ p.reports → p.gaveUp = false ∧ p.Rejected t) := by
    intro hr
    simp [hr]
  cases h with
  | fresh _ _ _ _ _ _ _ _ _ hr => exact none hr
  | sending h => exact none h.reports
  | receiving h => exact none h.reports
  | stoppingTimerError h => exact none h.reports
  | stoppingTimerDone h => exact none h.reports
  | stopping h => exact none h.reports
  | done _ _ _ _ hgaveUp hresult => rcases hresult with ⟨hr, hex⟩ | ⟨hr, hrej⟩ <;> simp [*]
  | ended _ _ _ hresult => rcases hresult with ⟨hgaveUp, hr, hex⟩ | ⟨hgaveUp, hr, hrej⟩ |
      ⟨-, hr, -⟩ <;> simp [*]

/-- Whatever the peer sends and whenever it happens, no event aborts; at most one result is
reported, and none to an owner that gave up; a success only when the end wrote its header and read
that of a peer, with nothing else but the bytes of the session, and an error only when the socket
failed, the timer expired or another header was read. -/
theorem Party.exchange_report {t : Socktype} {as : List PartyEvent} {p : Party}
    (h : Trace (Party.call t) Party.Enabled .init as p) :
    (∀ a, p.Enabled a → ∃ p', p.step t a = .ok p') ∧ p.reports.Nodup ∧
      (.ok ∈ p.reports → .error ∉ p.reports ∧ p.gaveUp = false ∧ p.Exchanged t) ∧
      (.error ∈ p.reports → p.gaveUp = false ∧ p.Rejected t) := by
  have hgood : p.Good t := by
    apply h.invariant_of_step (I := fun _ p => p.Good t) (Party.init_good t)
    intro as p a hp ha
    obtain ⟨p', heq, hp'⟩ := hp.step ha
    exact ⟨p', (), by rw [Party.call, heq]; rfl, hp'⟩
  exact ⟨fun a ha => (hgood.step ha).imp fun p' h => h.1, hgood.of_reports⟩

/-- A requester reads the header of a replier in two pieces.  Another one reads that of a publisher,
and the owner of a third one gives up. -/
theorem Party.exchange_report_req :
    (∃ p, Trace (Party.call .req) Party.Enabled .init
        [.start, .runTask, .write 3, .write 5, .read [0x00, 0x53, 0x50],
          .read [0x00, 0x00, 0x31, 0x00, 0x00], .runTask, .stop, .send [7]] p ∧
          p.reports = [.ok, .stopped] ∧ p.Exchanged .req) ∧
      (∃ p, Trace (Party.call .req) Party.Enabled .init
        [.start, .runTask, .write 8,
          .read [0x00, 0x53, 0x50, 0x00, 0x00, 0x20, 0x00, 0x00], .runTask] p ∧
          p.reports = [.error] ∧ p.failed = false ∧ p.Rejected .req) ∧
      ∃ p, Trace (Party.call .req) Party.Enabled .init [.start, .runTask, .write 3,
        .stop, .runTask] p ∧ p.gaveUp = true ∧ .ok ∉ p.reports ∧ .error ∉ p.reports := by
  refine ⟨?_, ?_, ?_⟩
  · have hrun : ∃ p, Trace (Party.call .req) Party.Enabled .init
        [.start, .runTask, .write 3, .write 5, .read [0x00, 0x53, 0x50],
          .read [0x00, 0x00, 0x31, 0x00, 0x00], .runTask, .stop, .send [7]] p ∧
          p.reports = [.ok, .stopped] := Trace.exists_of_runWhile (by decide)
    obtain ⟨p, h, hreports⟩ := hrun
    exact ⟨p, h, hreports, ((Party.exchange_report h).2.2.1 (by simp [hreports])).2.2⟩
  · have hrun : ∃ p, Trace (Party.call .req) Party.Enabled .init
        [.start, .runTask, .write 8,
          .read [0x00, 0x53, 0x50, 0x00, 0x00, 0x20, 0x00, 0x00], .runTask] p ∧
          p.reports = [.error] ∧ p.failed = false := Trace.exists_of_runWhile (by decide)
    obtain ⟨p, h, hreports, hfailed⟩ := hrun
    exact ⟨p, h, hreports, hfailed, ((Party.exchange_report h).2.2.2 (by simp [hreports])).2⟩
  · have hrun : ∃ p, Trace (Party.call .req) Party.Enabled .init [.start, .runTask, .write 3,
        .stop, .runTask] p ∧ p.gaveUp = true := Trace.exists_of_runWhile (by decide)
    obtain ⟨p, h, hgaveUp⟩ := hrun
    obtain ⟨-, -, hok, herror⟩ := Party.exchange_report h
    have hne : p.gaveUp ≠ false := by simp [hgaveUp]
    exact ⟨p, h, hgaveUp, fun hmem => hne (hok hmem).2.1, fun hmem => hne (herror hmem).1⟩

/-! ### Two ends -/

/-- The two ends of a connection. -/
abbrev Link := Bool → Party

/-- Before the exchange. -/
def Link.init : Link := fun _ => .init

/-- One event at one of the ends. -/
def Link.call (types : Bool → Socktype) (l : Link) (e : Bool × PartyEvent) :
    Except Fault (Link × Unit) :=
  return (Function.update l e.1 (← (l e.1).step (types e.1) e.2), ())

/-- The bytes that an event takes out of the stream. -/
def PartyEvent.incoming : PartyEvent → Option (List UInt8)
  | .read bytes | .recv bytes => some bytes
  | _ => none

/-- An end reads the bytes that the other end wrote, in their order. -/
def Link.Enabled (l : Link) (e : Bool × PartyEvent) : Prop :=
  (l e.1).Enabled e.2 ∧ ∀ bytes ∈ e.2.incoming, (l e.1).got ++ bytes <+: (l !e.1).wrote

instance Link.decidableEnabled (l : Link) (e : Bool × PartyEvent) : Decidable (l.Enabled e) :=
  inferInstanceAs (Decidable (_ ∧ ∀ bytes ∈ e.2.incoming, _))

/-- Both ends are good, and what an end read is what the other one wrote first. -/
def Link.Good (types : Bool → Socktype) (l : Link) : Prop :=
  ∀ i, (l i).Good (types i) ∧ (l i).got <+: (l !i).wrote

/-- An event at an end appends to what it wrote, and what it reads it is allowed to read. -/
theorem Party.step_bytes {t : Socktype} {p p' : Party} {a : PartyEvent}
    (heq : p.step t a = .ok p') :
    p.wrote <+: p'.wrote ∧ (p'.got = p.got ∨ ∃ bytes, (a = .read bytes ∨ a = .recv bytes) ∧
      p'.got = p.got ++ bytes) := by
  have feed_bytes : ∀ {p p' : Party} {src}, p.feed src = .ok p' → p'.wrote = p.wrote ∧
      p'.got = p.got := by
    intro p p' src heq
    obtain ⟨r, -, hr⟩ := bind_eq_ok.1 heq
    obtain rfl := Except.ok.inj hr
    exact ⟨rfl, rfl⟩
  have timed_bytes : ∀ {r}, p.timed r = .ok p' → p'.wrote = p.wrote ∧ p'.got = p.got := by
    intro r heq
    obtain ⟨tm, ev⟩ := r
    cases ev with
    | none =>
      obtain rfl := Except.ok.inj heq
      exact ⟨rfl, rfl⟩
    | some ev =>
      have hfeed : ∃ (q : Party) (src : StreamhdrInput), q.feed src = .ok p' ∧ q.wrote = p.wrote ∧
          q.got = p.got := by
        cases ev <;> exact ⟨_, _, heq, rfl, rfl⟩
      obtain ⟨q, src, hq, hwrote, hgot⟩ := hfeed
      exact ⟨(feed_bytes hq).1.trans hwrote, (feed_bytes hq).2.trans hgot⟩
  have same : p'.wrote = p.wrote ∧ p'.got = p.got → p.wrote <+: p'.wrote ∧
      (p'.got = p.got ∨ ∃ bytes, (a = .read bytes ∨ a = .recv bytes) ∧
        p'.got = p.got ++ bytes) := by
    rintro ⟨hwrote, hgot⟩
    exact ⟨hwrote ▸ List.prefix_rfl, Or.inl hgot⟩
  cases a with
  | start =>
    obtain ⟨s, -, hs⟩ := bind_eq_ok.1 heq
    obtain rfl := Except.ok.inj hs
    exact same ⟨rfl, rfl⟩
  | stop =>
    obtain ⟨s, -, hs⟩ := bind_eq_ok.1 heq
    obtain rfl := Except.ok.inj hs
    exact same ⟨rfl, rfl⟩
  | write n =>
    have hp' : p'.wrote = (p.write n).wrote ∧ p'.got = (p.write n).got := by
      rw [Party.step] at heq
      split_ifs at heq
      · exact feed_bytes heq
      · obtain rfl := Except.ok.inj heq
        exact ⟨rfl, rfl⟩
    exact ⟨hp'.1 ▸ List.prefix_append _ _, Or.inl hp'.2⟩
  | read bytes =>
    have hp' : p'.wrote = (p.store bytes).wrote ∧ p'.got = (p.store bytes).got := by
      rw [Party.step] at heq
      split_ifs at heq
      · exact feed_bytes heq
      · obtain rfl := Except.ok.inj heq
        exact ⟨rfl, rfl⟩
    exact ⟨hp'.1 ▸ List.prefix_rfl, Or.inr ⟨bytes, Or.inl rfl, hp'.2⟩⟩
  | shutdown => exact same (feed_bytes heq)
  | error =>
    obtain ⟨hwrote, hgot⟩ := feed_bytes (p := { p with failed := true }) heq
    exact same ⟨hwrote, hgot⟩
  | runTask =>
    obtain ⟨r, -, hr⟩ := bind_eq_ok.1 heq
    exact same (timed_bytes hr)
  | expire =>
    obtain ⟨r, -, hr⟩ := bind_eq_ok.1 heq
    exact same (timed_bytes hr)
  | send bytes =>
    obtain rfl := Except.ok.inj heq
    exact ⟨List.prefix_append _ _, Or.inl rfl⟩
  | recv bytes =>
    obtain rfl := Except.ok.inj heq
    exact ⟨List.prefix_rfl, Or.inr ⟨bytes, Or.inr rfl, rfl⟩⟩

/-- Whatever happens at one of the ends, nothing aborts. -/
theorem Link.Good.step {types : Bool → Socktype} {l : Link} (h : l.Good types)
    {e : Bool × PartyEvent} (he : l.Enabled e) :
    ∃ l', l.call types e = .ok (l', ()) ∧ l'.Good types := by
  obtain ⟨i, a⟩ := e
  obtain ⟨p', heq, hp'⟩ := (h i).1.step he.1
  obtain ⟨hwrote, hgot⟩ := Party.step_bytes heq
  refine ⟨Function.update l i p', by simp [Link.call, heq], ?_⟩
  intro j
  rcases Bool.eq_or_eq_not j i with rfl | rfl
  · rw [Function.update_self, Function.update_of_ne (by simp)]
    refine ⟨hp', ?_⟩
    rcases hgot with hgot | ⟨bytes, rfl | rfl, hgot⟩
    · exact hgot ▸ (h j).2
    · exact hgot ▸ he.2 bytes rfl
    · exact hgot ▸ he.2 bytes rfl
  · rw [Function.update_of_ne (by simp), Bool.not_not, Function.update_self]
    have := (h !i).2
    rw [Bool.not_not] at this
    exact ⟨(h !i).1, this.trans hwrote⟩

theorem Link.good_of_trace {types : Bool → Socktype} {as : List (Bool × PartyEvent)} {l : Link}
    (h : Trace (Link.call types) Link.Enabled .init as l) : l.Good types := by
  apply h.invariant_of_step (I := fun _ l => l.Good types)
  · intro i
    exact ⟨Party.init_good _, List.prefix_rfl⟩
  · intro as l e hl he
    obtain ⟨l', heq, hl'⟩ := hl.step he
    exact ⟨l', (), heq, hl'⟩

/-! ### Agreement -/

section Agreement

variable {types : Bool → Socktype} {l : Link} {i : Bool}

/-- An end that wrote eight bytes wrote its header and what its session sent. -/
theorem Party.Good.wrote_eq {t : Socktype} {p : Party} (h : p.Good t) (hlen : 8 ≤ p.wrote.length) :
    p.wrote = protohdrOf t.protocol ++ p.sent := by
  have quiet : p.sent = [] → p.wrote <+: protohdrOf t.protocol →
      p.wrote = protohdrOf t.protocol ++ p.sent := by
    intro hsent hprefix
    rw [hsent, List.append_nil]
    exact hprefix.eq_of_length_le (by rwa [length_protohdrOf])
  have exchanged : p.Exchanged t → p.wrote = protohdrOf t.protocol ++ p.sent := by
    rintro ⟨hdr, -, -, hwrote, -⟩
    exact hwrote
  have rejected : p.Rejected t → p.wrote = protohdrOf t.protocol ++ p.sent := by
    rintro ⟨⟨hsent, -, hprefix⟩, -⟩
    exact quiet hsent hprefix
  cases h with
  | fresh _ _ _ _ _ hwrote => simp [hwrote] at hlen
  | sending h => exact quiet h.sent h.io.wrote_prefix
  | receiving h => exact quiet h.sent h.io.wrote_prefix
  | stoppingTimerError h => exact quiet h.sent h.io.wrote_prefix
  | stoppingTimerDone h => exact quiet h.sent h.io.wrote_prefix
  | stopping h => exact quiet h.sent h.io.wrote_prefix
  | done _ _ _ _ _ hresult => exact hresult.elim (fun h => exchanged h.2) fun h => rejected h.2
  | ended _ _ _ hresult =>
    rcases hresult with ⟨-, -, hex⟩ | ⟨-, -, hrej⟩ | ⟨-, -, hsent, -, hprefix⟩
    · exact exchanged hex
    · exact rejected hrej
    · exact quiet hsent hprefix

/-- The first eight bytes that an end read are the header of the other one. -/
theorem Link.Good.header (h : l.Good types) {hdr rest : List UInt8} (hlen : hdr.length = 8)
    (hgot : (l i).got = hdr ++ rest) :
    hdr = protohdrOf (types !i).protocol ∧ rest <+: (l !i).sent := by
  obtain ⟨more, hmore⟩ := (h i).2
  have hlong : 8 ≤ (l !i).wrote.length := by
    rw [← hmore, hgot]
    simp only [List.length_append]
    omega
  rw [(h !i).1.wrote_eq hlong, hgot, List.append_assoc] at hmore
  obtain ⟨hhdr, hrest⟩ := List.append_inj hmore (by rw [hlen, length_protohdrOf])
  exact ⟨hhdr, more, hrest⟩

theorem Link.Good.of_exchanged (h : l.Good types) (hex : (l i).Exchanged (types i)) :
    nnEpIspeerEp (types i) (types !i) = true ∧ (l i).received <+: (l !i).sent := by
  obtain ⟨hdr, hlen, hacc, -, hgot⟩ := hex
  obtain ⟨rfl, hrest⟩ := h.header hlen hgot
  exact ⟨(accepts_protohdrOf _ _).1 hacc, hrest⟩

theorem Link.Good.of_rejected (h : l.Good types) (hrej : (l i).Rejected (types i))
    (hfailed : (l i).failed = false) :
    nnEpIspeerEp (types i) (types !i) = false := by
  obtain ⟨-, hf | ⟨-, hlen, hacc⟩⟩ := hrej
  · simp [hfailed] at hf
  · have hgot : (l i).got = (l i).got ++ [] := (List.append_nil _).symm
    obtain ⟨hhdr, -⟩ := h.header hlen hgot
    rw [hhdr, accepts_protohdrOf] at hacc
    exact Bool.eq_false_iff.2 hacc

/-- An end whose exchange is reported as a success is connected to a peer, and its session receives
what the session of the other end sent, in order and without a byte of a header.  The other end
reports an error only when its socket failed or its timer expired. -/
theorem Link.exchange_agreement {as : List (Bool × PartyEvent)}
    (h : Trace (Link.call types) Link.Enabled .init as l) (hok : .ok ∈ (l i).reports) :
    nnEpIspeerEp (types i) (types !i) = true ∧ (l i).received <+: (l !i).sent ∧
      (.error ∈ (l !i).reports → (l !i).failed = true) := by
  have hgood := Link.good_of_trace h
  obtain ⟨hpeer, hreceived⟩ := hgood.of_exchanged ((hgood i).1.of_reports.2.1 hok).2.2
  refine ⟨hpeer, hreceived, ?_⟩
  intro herror
  by_contra hfailed
  have hnot :=
    hgood.of_rejected ((hgood !i).1.of_reports.2.2 herror).2 (Bool.eq_false_iff.2 hfailed)
  rw [Bool.not_not, nnEpIspeerEp_comm, hpeer] at hnot
  cases hnot

/-- The events of an exchange between a requester and a replier. -/
def exchangeEvents : List (Bool × PartyEvent) :=
  [(false, .start), (true, .start), (true, .runTask), (true, .write 8), (false, .write 8),
    (false, .read [0x00, 0x53, 0x50, 0x00, 0x00, 0x31, 0x00, 0x00]),
    (true, .read [0x00, 0x53, 0x50, 0x00, 0x00, 0x30, 0x00, 0x00]), (true, .runTask),
      (false, .runTask),
    (false, .runTask)]

/-- The requester goes on to send three bytes, two of which have arrived. -/
theorem Link.exchange_agreement_req :
    ∃ l, Trace (Link.call fun i => cond i .rep .req) Link.Enabled .init
        (exchangeEvents ++ [(true, .stop), (false, .stop), (false, .send [1, 2, 3]),
          (true, .recv [1, 2])]) l ∧
      (l true).received = [1, 2] ∧ (l true).received <+: (l false).sent := by
  have hrun : ∃ l, Trace (Link.call fun i => cond i .rep .req) Link.Enabled .init
      (exchangeEvents ++ [(true, .stop), (false, .stop), (false, .send [1, 2, 3]),
        (true, .recv [1, 2])]) l ∧
      .ok ∈ (l true).reports ∧ (l true).received = [1, 2] := Trace.exists_of_runWhile (by decide)
  obtain ⟨l, h, hok, hreceived⟩ := hrun
  exact ⟨l, h, hreceived, (Link.exchange_agreement h hok).2.1⟩

/-! ### Completeness -/

/-- The events by which an exchange goes on. -/
def PartyEvent.Drives : PartyEvent → Prop
  | .start | .write _ | .read _ => True
  | _ => False

/-- The exchange can only go on if something fails, its owner stops it, or a session acts. -/
def Link.Stuck (l : Link) : Prop :=
  ∀ i, (l i).streamhdr.timer.tasks = [] ∧ ∀ a : PartyEvent, a.Drives → ¬ l.Enabled (i, a)

/-- The worker has something to do as long as a timer is being stopped. -/
theorem Party.During.tasks_ne {t : Socktype} {p : Party} {fsm : FsmState} {state : StreamhdrState}
    (h : p.During t fsm state .stopping) : p.streamhdr.timer.tasks ≠ [] := by
  obtain ⟨-, -, -, ⟨htasks, -⟩ | htasks⟩ := h.timer <;> simp [htasks]

/-- An end at which nothing failed and that does not go on has written its header, and waits for
that of the other end or has reported a result, unless its owner gave up. -/
theorem Link.Good.stuck (h : l.Good types) (hstuck : l.Stuck) (hfailed : (l i).failed = false)
    (hgaveUp : (l i).gaveUp = false) :
    8 ≤ (l i).wrote.length ∧
      ((l i).HasUsock ∧ 0 < (l i).streamhdr.wanted ∧ (l i).got.length < 8 ∨
        .ok ∈ (l i).reports ∧ (l i).Exchanged (types i) ∨ .error ∈ (l i).reports ∧
          (l i).Rejected (types i)) := by
  obtain ⟨htasks, hdrive⟩ := hstuck i
  have hexchanged : (l i).Exchanged (types i) → 8 ≤ (l i).wrote.length := by
    rintro ⟨hdr, -, -, hwrote, -⟩
    simp [hwrote]
  have hrejected : (l i).Rejected (types i) → 8 ≤ (l i).wrote.length := by
    rintro ⟨-, hf | ⟨hwrote, -⟩⟩
    · simp [hfailed] at hf
    · simp [hwrote]
  cases (h i).1 with
  | fresh _ hstate _ _ _ _ _ _ _ hreports =>
    exact absurd ⟨⟨hstate, hreports⟩, by simp [PartyEvent.incoming]⟩ (hdrive .start trivial)
  | sending hd hunsent =>
    have hhas : (l i).HasUsock := ⟨hd.usock, by simp [hd.fsm]⟩
    exact absurd ⟨⟨hhas, Nat.one_pos, hunsent⟩, by simp [PartyEvent.incoming]⟩
      (hdrive (.write 1) trivial)
  | receiving hd hwanted =>
    have hhas : (l i).HasUsock := ⟨hd.usock, by simp [hd.fsm]⟩
    cases hd.io with
    | writing _ _ hw => omega
    | written _ hw => omega
    | reading _ _ hlen hbuf hwrote =>
      refine ⟨by simp [hwrote], Or.inl ⟨hhas, hwanted, ?_⟩⟩
      rw [← hbuf, List.length_take]
      omega
  | stoppingTimerError hd => exact absurd htasks hd.tasks_ne
  | stoppingTimerDone hd => exact absurd htasks hd.tasks_ne
  | stopping hd => exact absurd htasks hd.tasks_ne
  | done _ _ _ _ _ hresult =>
    rcases hresult with ⟨hr, hex⟩ | ⟨hr, hrej⟩
    · exact ⟨hexchanged hex, Or.inr (Or.inl ⟨by simp [hr], hex⟩)⟩
    · exact ⟨hrejected hrej, Or.inr (Or.inr ⟨by simp [hr], hrej⟩)⟩
  | ended _ _ _ hresult =>
    rcases hresult with ⟨-, hr, hex⟩ | ⟨-, hr, hrej⟩ | ⟨hg, -⟩
    · exact ⟨hexchanged hex, Or.inr (Or.inl ⟨by simp [hr], hex⟩)⟩
    · exact ⟨hrejected hrej, Or.inr (Or.inr ⟨by simp [hr], hrej⟩)⟩
    · simp [hgaveUp] at hg

/-- An exchange in which nothing fails and no owner gives up goes on until both ends have reported
its result: a success when their types are peers of each other, an error when they are not. -/
theorem Link.exchange_complete {as : List (Bool × PartyEvent)}
    (h : Trace (Link.call types) Link.Enabled .init as l)
    (hfailed : ∀ i, (l i).failed = false ∧ (l i).gaveUp = false) (hstuck : l.Stuck) (i : Bool) :
    if nnEpIspeerEp (types i) (types !i) then .ok ∈ (l i).reports else .error ∈ (l i).reports := by
  have hgood := Link.good_of_trace h
  obtain ⟨-, ⟨hhas, hwanted, hgot⟩ | ⟨hok, hex⟩ | ⟨herror, hrej⟩⟩ :=
    hgood.stuck hstuck (hfailed i).1 (hfailed i).2
  · -- the next byte of the other header can be read
    obtain ⟨hwrote, -⟩ := hgood.stuck hstuck (hfailed !i).1 (hfailed !i).2
    let bytes := ((l !i).wrote.drop (l i).got.length).take 1
    have hlen : bytes.length = 1 := by
      simp only [bytes, List.length_take, List.length_drop]
      omega
    have hprefix : (l i).got ++ bytes <+: (l !i).wrote := by
      obtain ⟨rest, hrest⟩ := (hgood i).2
      refine ⟨rest.drop 1, ?_⟩
      simp only [bytes, ← hrest, List.drop_left, List.append_assoc, List.take_append_drop]
    have hread : l.Enabled (i, .read bytes) := by
      refine ⟨⟨hhas, hlen.ge, hlen.le.trans hwanted⟩, ?_⟩
      rintro _ ⟨⟩
      exact hprefix
    exact absurd hread ((hstuck i).2 _ trivial)
  · rw [if_pos (hgood.of_exchanged hex).1]
    exact hok
  · rw [if_neg (Bool.eq_false_iff.1 (hgood.of_rejected hrej (hfailed i).1))]
    exact herror

/-- The exchange is over when neither end owns its socket. -/
theorem Link.stuck_of (h : ∀ i, (l i).streamhdr.timer.tasks = [] ∧ (l i).reports ≠ [] ∧
    ¬ (l i).HasUsock) :
    l.Stuck := by
  intro i
  obtain ⟨htasks, hreports, hhas⟩ := h i
  refine ⟨htasks, ?_⟩
  rintro a hdrives ⟨henabled, -⟩
  cases a with
  | start => exact hreports henabled.2
  | write n => exact hhas henabled.1
  | read bytes => exact hhas henabled.1
  | stop | shutdown | error | runTask | expire | send | recv => exact hdrives

/-- A requester and a replier. -/
theorem Link.exchange_complete_req :
    ∃ l, Trace (Link.call fun i => cond i .rep .req) Link.Enabled .init exchangeEvents l ∧
      .ok ∈ (l true).reports ∧ .ok ∈ (l false).reports := by
  have hrun : ∃ l, Trace (Link.call fun i => cond i .rep .req) Link.Enabled .init exchangeEvents l ∧
      ∀ i, ((l i).failed = false ∧ (l i).gaveUp = false) ∧ (l i).streamhdr.timer.tasks = [] ∧
        (l i).reports ≠ [] ∧ ¬ (l i).HasUsock :=
    Trace.exists_of_runWhile (by decide)
  obtain ⟨l, h, hend⟩ := hrun
  have hresult := Link.exchange_complete h (fun i => (hend i).1) (Link.stuck_of fun i => (hend i).2)
  exact ⟨l, h, hresult true, hresult false⟩

end Agreement

end NanoSocket.Tcp

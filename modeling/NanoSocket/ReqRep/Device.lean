import NanoSocket.Core.Cmsg
import NanoSocket.Core.Iovec
import NanoSocket.Protocols.Replier
import NanoSocket.ReqRep.Xreq

/-!
# Requests and replies through devices (`devices/device.c`)

A device reads from a raw REP socket with `nn_recvmsg`, which hands the backtrace over as control
data, and writes to a raw REQ socket with `nn_sendmsg`, which takes it from there; replies go the
other way.  On a link between two sockets the header and the body of a message are one string of
bytes, the further headers are dropped, and the receiver has to find the end of the header by
itself.

A `Hop` is a device together with the two pipes that a request uses in it.  Every hop puts one key
on the stack, and the reply finds them there in the reverse order.  `nn_recvmsg` returns the size of
a body as an `int`, and a device stops when this is negative: `backtrace_routing_iff` says which
requests and replies get through.
-/

namespace NanoSocket.ReqRep

variable {P : Type} [DecidableEq P]

/-- `nn_device_rewritemsg`: always forward. -/
def nnDeviceRewritemsg (_body _control : List UInt8) (_bytes : ℤ) : ℤ := 1

/-- `nn_device_mvmsg` between two sockets with the given functions. The first component says that it
returned 0. -/
def nnDeviceMvmsg {S T : Type} (recv : S → Except Fault (Got × S))
    (send : T → Msg → Except Fault (Bool × T)) (memory : ℕ → UInt8) (src : S) (dst : T) :
    Except Fault (Bool × S × T) := do
  let (got, src) ← recv src
  match got with
  | .msg msg =>
    let body := msg.body
    let control := nnRecvmsgControl msg memory
    -- `nn_recvmsg` returns the size of the body
    let bytes := Core.toInt body.length
    if bytes < 0 then return (false, src, dst)
    let rc := nnDeviceRewritemsg body control bytes
    if rc = -1 then return (false, src, dst)
    else if rc = 0 then return (true, src, dst)
    nnAssert (rc = 1)
    let (sent, dst) ← send dst (← nnSendmsg body control)
    -- and so does `nn_sendmsg`
    let rc := if sent then Core.toInt body.length else -1
    if rc < 0 then return (false, src, dst)
    return (true, src, dst)
  -- any error is fatal
  | _ => return (false, src, dst)

/-- A device moves a request from its raw REP socket to its raw REQ socket. -/
def moveRequest (memory : ℕ → UInt8) (sync : Bool) (front : Router P) (back : Xreq P) :
    Except Fault (Bool × Router P × Xreq P) :=
  nnDeviceMvmsg nnXrepRecv
    (fun back msg => do
      let (pipe, back) ← nnXreqSend back msg sync
      return (pipe.isSome, back)) memory front back

/-- A device moves a reply from its raw REQ socket to its raw REP socket. -/
def moveReply (memory : ℕ → UInt8) (sync : Bool) (back : Xreq P) (front : Router P) :
    Except Fault (Bool × Xreq P × Router P) :=
  nnDeviceMvmsg nnXreqRecv
    (fun front msg => do
      let front ← nnXrepSend front msg sync
      return (true, front)) memory back front

/-- What a transport puts on the link. -/
def wire (msg : Msg) : List UInt8 := msg.sphdr ++ msg.body

/-- The same bytes at the other end of the link; `hdrs` is up to the transport. -/
def onWire (hdrs w : List UInt8) : Inbound := { msg := ⟨[], hdrs, w⟩, parsed := false }

/-- The bytes `w` were put on the link of the pipe `p`, and nothing happened to the other pipes. -/
def Handed (pipes pipes' : P → Option Pipe) (p : P) (w : List UInt8) : Prop :=
  ∃ pipe pipe' msg, pipes p = some pipe ∧ pipes' p = some pipe' ∧
    pipe'.outbox = pipe.outbox ++ [msg] ∧ wire msg = w ∧ ∀ q ≠ p, pipes' q = pipes q

/-! ### One hop -/

/-- A device: the pipe of its raw REP socket that a request comes from, with the key of that pipe,
which has its top bit clear, the pipe of its raw REQ socket that the request leaves by, and the
option `NN_MAXTTL`. -/
structure Hop (P : Type) where
  inPipe : P
  outPipe : P
  key : UInt32
  maxttl : ℕ
  clear : key &&& 0x80000000 = 0
  ttl : maxttl ≤ 255

/-- The raw REP socket has the pipe of the hop. -/
structure Hop.Front (h : Hop P) (x : Router P) : Prop where
  wf : x.Wf
  attached : ∃ d, x.data h.inPipe = some d ∧ d.key = h.key
  maxttl : x.maxttl = h.maxttl

/-- Whenever `w` is the next message of the raw REP socket, and comes from the pipe of the hop, and
the load balancer's next pipe is that of the hop, the device puts `w'` on the link there. -/
def Hop.Requests (h : Hop P) (w w' : List UInt8) : Prop :=
  ∀ (front : Router P) (back : Xreq P) hdrs memory sync, h.Front front →
    front.next = some (h.inPipe, onWire hdrs w) → back.Wf → back.lb.getpipe = .ok (some h.outPipe) →
    ∃ front' back', moveRequest memory sync front back = .ok (true, front', back') ∧
      Handed back.pipes back'.pipes h.outPipe w'

/-- Whenever `w` is the next message of the raw REQ socket, and comes from the pipe that the request
left by, and the pipe that the request came from can send, the device puts `w'` on the link
there. -/
def Hop.Replies (h : Hop P) (w w' : List UInt8) : Prop :=
  ∀ (front : Router P) (back : Xreq P) hdrs memory sync, h.Front front →
    front.Writable h.inPipe h.key → back.Wf →
    fqNext back.fq back.pipes = some (h.outPipe, onWire hdrs w) →
    ∃ back' front', moveReply memory sync back front = .ok (true, back', front') ∧
      Handed front.pipes front'.pipes h.inPipe w'

/-- The bytes go through a list of hops. -/
def Through (moves : Hop P → List UInt8 → List UInt8 → Prop) :
    List (Hop P) → List UInt8 → List UInt8 → Prop
  | [], w, w' => w = w'
  | h :: hops, w, w' => ∃ v, moves h w v ∧ Through moves hops v w'

/-! ### The stack of keys -/

/-- The request id below the keys. -/
def stack (id : UInt32) : List UInt32 → List UInt8
  | [] => nnPutl id
  | k :: ks => nnPutl k ++ stack id ks

theorem length_stack (id : UInt32) (ks : List UInt32) :
    (stack id ks).length = (ks.length + 1) * 4 := by
  induction ks with
  | nil => rfl
  | cons k ks ih =>
    rw [stack, List.length_append, ih, length_nnPutl, List.length_cons]
    omega

/-- The search of `nn_xrep_recv` reads one word. -/
theorem headerWords_word (top rest : List UInt8) (v : UInt32) {i : ℕ} (hi : top.length = i * 4) :
    Router.headerWords (top ++ (nnPutl v ++ rest)) i =
      if v &&& 0x80000000 ≠ 0 then .ok (some (i + 1))
      else Router.headerWords (top ++ nnPutl v ++ rest) (i + 1) := by
  have hlen : (top ++ (nnPutl v ++ rest)).length = i * 4 + (4 + rest.length) := by
    rw [List.length_append, List.length_append, length_nnPutl, hi]
  have hdrop : (top ++ (nnPutl v ++ rest)).drop (i * 4) = nnPutl v ++ rest := by
    rw [← hi, List.drop_left]
  rw [Router.headerWords, dif_neg (by omega), hdrop, nnGetl_nnPutl, ok_bind, List.append_assoc]
  rfl

/-- The search stops at the id: the keys are no end of the stack, and the body is not looked at. -/
theorem headerWords_stack {id : UInt32} (hid : id &&& 0x80000000 ≠ 0) {ks : List UInt32}
    (hks : ∀ k ∈ ks, k &&& 0x80000000 = 0) (top rest : List UInt8) {i : ℕ}
    (hi : top.length = i * 4) :
    Router.headerWords (top ++ (stack id ks ++ rest)) i = .ok (some (i + ks.length + 1)) := by
  induction ks generalizing top i with
  | nil =>
    rw [stack, headerWords_word top rest id hi, if_pos hid]
    rfl
  | cons k ks ih =>
    have hk : ¬ k &&& 0x80000000 ≠ 0 := not_not.2 (hks k List.mem_cons_self)
    have htop : (top ++ nnPutl k).length = (i + 1) * 4 := by
      rw [List.length_append, hi, length_nnPutl]
      omega
    rw [stack, List.append_assoc, headerWords_word top _ k hi, if_neg hk,
      ih (fun k hk => hks k (List.mem_cons_of_mem _ hk)) _ htop, List.length_cons]
    congr 2
    omega

/-- `nn_xrep_recv` takes the header off again. -/
theorem split_stack {id : UInt32} (hid : id &&& 0x80000000 ≠ 0) {ks : List UInt32}
    (hks : ∀ k ∈ ks, k &&& 0x80000000 = 0) {maxttl : ℕ} (httl : ks.length + 1 ≤ maxttl)
    (hdrs body : List UInt8) :
    Router.split maxttl (onWire hdrs (stack id ks ++ body)) =
      .ok (.msg ⟨stack id ks, hdrs, body⟩) := by
  have hwords : Router.headerWords (stack id ks ++ body) 0 = .ok (some (0 + ks.length + 1)) :=
    headerWords_stack hid hks [] body rfl
  rw [Nat.zero_add] at hwords
  have htake : (stack id ks ++ body).take ((ks.length + 1) * 4) = stack id ks := by
    rw [← length_stack id, List.take_left]
  have hdrop : (stack id ks ++ body).drop ((ks.length + 1) * 4) = body := by
    rw [← length_stack id, List.drop_left]
  unfold Router.split onWire
  rw [if_neg Bool.false_ne_true]
  show (Router.headerWords (stack id ks ++ body) 0 >>= _) = _
  rw [hwords, ok_bind]
  show (if ks.length + 1 > maxttl then _ else _) = _
  rw [if_neg (by omega), nnAssert_of rfl, ok_bind]
  show Except.ok (Got.msg ⟨(stack id ks ++ body).take ((ks.length + 1) * 4), hdrs,
    (stack id ks ++ body).drop ((ks.length + 1) * 4)⟩) = _
  rw [htake, hdrop]

/-! ### What a hop does to the stack -/

section Mvmsg

variable {S T : Type} {recv : S → Except Fault (Got × S)} {send : T → Msg → Except Fault (Bool × T)}
  {src src' : S} {dst dst' : T} {msg : Msg}

theorem nnDeviceMvmsg_eq (memory : ℕ → UInt8) (hrecv : recv src = .ok (.msg msg, src'))
    (hlen : msg.sphdr.length < 2 ^ 63) (hsize : 0 ≤ Core.toInt msg.body.length)
    (hsend : send dst { msg with hdrs := nnRecvmsgControl msg memory } = .ok (true, dst')) :
    nnDeviceMvmsg recv send memory src dst = .ok (true, src', dst') := by
  have hforward : nnDeviceRewritemsg msg.body (nnRecvmsgControl msg memory)
      (Core.toInt msg.body.length) = 1 := rfl
  unfold nnDeviceMvmsg
  rw [hrecv, ok_bind]
  simp only [hforward]
  rw [if_neg (not_lt.2 hsize), if_neg (by decide), if_neg (by decide), nnAssert_of trivial, ok_bind,
    nnSendmsg_nnRecvmsg msg memory _ hlen, ok_bind, hsend, ok_bind]
  simp only [if_true]
  rw [if_neg (not_lt.2 hsize)]
  rfl

/-- A message with a negative size is received and lost. -/
theorem nnDeviceMvmsg_stops (memory : ℕ → UInt8) (dst : T) (hrecv : recv src = .ok (.msg msg, src'))
    (hsize : Core.toInt msg.body.length < 0) :
    nnDeviceMvmsg recv send memory src dst = .ok (false, src', dst) := by
  unfold nnDeviceMvmsg
  rw [hrecv, ok_bind]
  simp only [if_pos hsize]
  rfl

end Mvmsg

/-- `nn_xrep_recv` at the front of a hop. -/
theorem Hop.Front.recv {h : Hop P} {front : Router P} (hfront : h.Front front) {id : UInt32}
    (hid : id &&& 0x80000000 ≠ 0) {ks : List UInt32} (hks : ∀ k ∈ ks, k &&& 0x80000000 = 0)
    (httl : ks.length + 1 ≤ h.maxttl) {hdrs body : List UInt8}
    (hnext : front.next = some (h.inPipe, onWire hdrs (stack id ks ++ body))) :
    ∃ front', nnXrepRecv front = .ok (.msg ⟨stack id (h.key :: ks), hdrs, body⟩, front') := by
  obtain ⟨d, hd, hkey⟩ := hfront.attached
  rcases hfront.wf.recv with ⟨hnone, -⟩ | ⟨p, m, e, g, -, -, front', hnext', he, hg, -, hrecv, -⟩
  · rw [hnext] at hnone
    cases hnone
  rw [hnext] at hnext'
  cases hnext'
  rw [hd] at he
  cases he
  rw [hfront.maxttl, split_stack hid hks httl] at hg
  cases hg
  rw [hkey] at hrecv
  exact ⟨front', hrecv⟩

/-- A request leaves with the key of the pipe that it came from on the stack. -/
theorem Hop.requests (h : Hop P) {id : UInt32} (hid : id &&& 0x80000000 ≠ 0) {ks : List UInt32}
    (hks : ∀ k ∈ ks, k &&& 0x80000000 = 0) (httl : ks.length + 1 ≤ h.maxttl) {body : List UInt8}
    (hsize : 0 ≤ Core.toInt body.length) :
    h.Requests (stack id ks ++ body) (stack id (h.key :: ks) ++ body) := by
  intro front back hdrs memory sync hfront hnext hback hlb
  obtain ⟨front', hrecv⟩ := hfront.recv hid hks httl hnext
  have hmax := h.ttl
  have hlen : (stack id (h.key :: ks)).length < 2 ^ 63 := by
    rw [length_stack, List.length_cons]
    omega
  rcases nnXreqSendTo_spec hback ⟨stack id (h.key :: ks),
      nnRecvmsgControl ⟨stack id (h.key :: ks), hdrs, body⟩ memory, body⟩ sync with
    ⟨hnone, -⟩ | ⟨q, back', hsend, -, -, -, -, hgiven⟩
  · rcases hback.lb.wf.getpipe with ⟨hn, -⟩ | ⟨q, -, hq⟩
    · rw [hlb] at hn
      cases hn
    · exact absurd hq (hnone q)
  · obtain rfl : q = h.outPipe := by
      have := hgiven.next
      rw [hlb] at this
      cases this
      rfl
    obtain ⟨pipe, pipe', hp, hp', hout⟩ := hgiven.outbox
    refine ⟨front', back', ?_, pipe, pipe', _, hp, hp', hout, rfl, hgiven.others⟩
    refine nnDeviceMvmsg_eq memory hrecv hlen hsize ?_
    rw [nnXreqSend, hsend]
    rfl

/-- `nn_xreq_recv` takes four bytes off. -/
theorem split_onWire (hdrs w : List UInt8) (k : UInt32) :
    (onWire hdrs (nnPutl k ++ w)).split = .ok (.msg ⟨nnPutl k, hdrs, w⟩) := by
  have hlen : ¬ (nnPutl k ++ w).length < 4 := by simp
  unfold Inbound.split onWire
  rw [if_neg Bool.false_ne_true, if_neg hlen, nnAssert_of rfl]
  rfl

/-- `nn_xreq_recv` at the back of a hop. -/
theorem nnXreqRecv_onWire {back : Xreq P} (hback : back.Wf) {p : P} {hdrs w : List UInt8}
    {k : UInt32} (hnext : fqNext back.fq back.pipes = some (p, onWire hdrs (nnPutl k ++ w))) :
    ∃ back', nnXreqRecv back = .ok (.msg ⟨nnPutl k, hdrs, w⟩, back') := by
  rcases nnXreqRecv_spec hback with ⟨hnone, -⟩ | ⟨q, m, back', g, htaken, hg, -, hrecv⟩
  · rw [fqNext_of_not_active hback.fq.wf hnone] at hnext
    cases hnext
  have htook := htaken.next
  rw [hnext] at htook
  cases htook
  rw [split_onWire] at hg
  cases hg
  exact ⟨back', hrecv⟩

/-- A reply leaves by the pipe that its first key names, without that key. -/
theorem Hop.replies (h : Hop P) {w : List UInt8} (hsize : 0 ≤ Core.toInt w.length) :
    h.Replies (nnPutl h.key ++ w) w := by
  intro front back hdrs memory sync hfront hwritable hback hnext
  obtain ⟨back', hrecv⟩ := nnXreqRecv_onWire hback hnext
  have hmsg : (⟨nnPutl h.key, nnRecvmsgControl ⟨nnPutl h.key, hdrs, w⟩ memory, w⟩ : Msg).sphdr =
      nnPutl h.key ++ [] := (List.append_nil _).symm
  rcases hfront.wf.send hmsg sync with
    ⟨hnone, -⟩ | ⟨p, pipe, pipe', front', hw, hp, hout, hsend, -, -, hpipes⟩
  · exact absurd hwritable (hnone h.inPipe)
  · obtain ⟨d, hd, hk, -⟩ := hw
    obtain ⟨e, he, hek, -⟩ := hwritable
    obtain rfl := hfront.wf.eq_of_key hd he (hk.trans hek.symm)
    refine ⟨back', front', ?_, pipe, pipe', _, hp, ?_, hout, rfl, fun q hq => ?_⟩
    · refine nnDeviceMvmsg_eq memory hrecv (by simp) hsize ?_
      rw [nnXrepSend, hsend]
      rfl
    · rw [hpipes, Function.update_self]
    · rw [hpipes, Function.update_of_ne hq]

/-! ### The sockets of a hop -/

/-- A raw REQ socket whose pipe `p` can send and has received `m`. -/
theorem exists_xreq (p : P) {m : Inbound} (hm : m.Wf) :
    ∃ x : Xreq P, x.Wf ∧ x.lb.getpipe = .ok (some p) ∧ fqNext x.fq x.pipes = some (p, m) := by
  let pipe : Pipe := { nnPipebaseStart with instate := .idle, inbox := [m], outRaised := false }
  have hpipe : pipe.Wf := ⟨rfl, Or.inl rfl, by simp [pipe, nnPipebaseStart], by simp [pipe]⟩
  have hx : Xreq.Wf { (Xreq.init : Xreq P) with
    pipes := Function.update Xreq.init.pipes p (some pipe) } :=
    Xreq.init_wf.update hpipe (fun ha => absurd ha (Priolist.not_active_init _))
      (fun ha => absurd ha (Priolist.not_active_init _)) fun m' hm' => by
        rw [List.mem_singleton.1 hm']
        exact hm
  obtain ⟨fq, -, hfq, hin⟩ :=
    nnXreqIn_spec hx (p := p) (Function.update_self ..) ⟨by simp [pipe], rfl⟩
    (Priolist.not_active_init _)
  obtain ⟨lb, -, hlb, hout⟩ := nnXreqOut_spec hfq (p := p) (Function.update_self ..) ⟨rfl, rfl⟩
    (Priolist.not_active_init _)
  refine ⟨_, hlb, ?_, ?_⟩
  · rcases hlb.lb.wf.getpipe with ⟨-, hnone⟩ | ⟨q, hq, hact⟩
    · exact absurd ((hout p).2 (Or.inr rfl)) (hnone p)
    · rcases (hout q).1 hact with hact | rfl
      · exact absurd hact (Priolist.not_active_init _)
      · exact hq
  · rcases hlb.fq.wf.getpipe with ⟨-, hnone⟩ | ⟨q, hq, hact⟩
    · exact absurd ((hin p).2 (Or.inr rfl)) (hnone p)
    · rcases (hin q).1 hact with hact | rfl
      · exact absurd hact (Priolist.not_active_init _)
      · simp only at hq
        simp [fqNext, hq, pipe]

theorem and_low_bits {k : UInt32} (h : k &&& 0x80000000 = 0) : k &&& 0x7fffffff = k := by
  have hall : (0x7fffffff : UInt32) ||| 0x80000000 = -1 := by decide
  have hsplit : k &&& (0x7fffffff ||| 0x80000000) = (k &&& 0x7fffffff) ||| (k &&& 0x80000000) := by
    apply UInt32.toBitVec_inj.1
    rw [UInt32.toBitVec_and, UInt32.toBitVec_or, BitVec.and_or_distrib_left]
    rfl
  rw [hall, h] at hsplit
  simpa using hsplit.symm

/-- A raw REP socket with the pipe of the hop, which can send and has received `w`. -/
theorem Hop.exists_front (h : Hop P) (w : List UInt8) :
    ∃ x : Router P, h.Front x ∧ x.next = some (h.inPipe, onWire [] w) ∧
      x.Writable h.inPipe h.key := by
  let pipe : Pipe :=
    { nnPipebaseStart with instate := .idle, inbox := [onWire [] w], outRaised := false }
  have hpipe : pipe.Wf := ⟨rfl, Or.inl rfl, by simp [pipe, nnPipebaseStart], by simp [pipe]⟩
  have hstart : Router.Wf { (Router.init h.key : Router P) with maxttl := h.maxttl } :=
    { Router.init_wf h.key with ttl := h.ttl }
  -- the socket has the pipe
  rcases hstart.add (p := h.inPipe) rfl 1 with ⟨-, x, hadd, hx, -, hdata⟩ | ⟨⟨q, d, hd, -⟩, -⟩
  swap
  · cases hd
  obtain ⟨table, -, hadd⟩ := bind_eq_ok.1 hadd
  cases hadd
  have hkey : h.key &&& 0x7fffffff = h.key := and_low_bits h.clear
  -- its `IN` and `OUT` events are processed
  have hnone : ∀ q, ¬ ((Priolist.init : Priolist P).add h.inPipe 1).Active q := fun q ha =>
    Priolist.not_active_init q (((Priolist.init_wf.add (Priolist.not_active_init _) 1).2 q).1 ha)
  have hnot : ((Priolist.init : Priolist P).add h.inPipe 1).Active h.inPipe → pipe.InReady :=
    fun ha => absurd ha (hnone _)
  have hupdate := hx.inpipes.update hnot
  obtain ⟨inpipes, -, hready, hact⟩ :=
    hupdate.activate (Function.update_self ..) ⟨by simp [pipe], rfl⟩ (hnone _)
  have hwf := hx.update (p := h.inPipe) (Function.update_self ..) true hpipe hready
    (fun m hm => by rw [List.mem_singleton.1 hm]; exact fun _ => rfl) fun _ => ⟨rfl, rfl⟩
  refine ⟨_, ⟨hwf, ⟨_, Function.update_self .., hkey⟩, rfl⟩, ?_, _,
    Function.update_self .., hkey, rfl⟩
  rcases hready.wf.getpipe with ⟨-, hempty⟩ | ⟨q, hq, ha⟩
  · exact absurd ((hact h.inPipe).2 (Or.inr rfl)) (hempty h.inPipe)
  · rcases (hact q).1 ha with ha | rfl
    · exact absurd ha (hnone q)
    · simp [Router.next, fqNext, hq, pipe]

/-! ### The whole way -/

omit [DecidableEq P] in
/-- Only one string of bytes was put on the link. -/
theorem Handed.unique {pipes pipes' : P → Option Pipe} {p : P} {w v : List UInt8}
    (h : Handed pipes pipes' p w) (h' : Handed pipes pipes' p v) : w = v := by
  obtain ⟨pipe, pipe', msg, hp, hp', hout, rfl, -⟩ := h
  obtain ⟨_, _, msg', hq, hq', hout', rfl, -⟩ := h'
  rw [hp] at hq
  rw [hp'] at hq'
  cases hq
  cases hq'
  rw [hout] at hout'
  rw [List.singleton_inj.1 (List.append_cancel_left hout')]

theorem Hop.requests_iff (h : Hop P) {id : UInt32} (hid : id &&& 0x80000000 ≠ 0) {ks : List UInt32}
    (hks : ∀ k ∈ ks, k &&& 0x80000000 = 0) (httl : ks.length + 1 ≤ h.maxttl) {body v : List UInt8} :
    h.Requests (stack id ks ++ body) v ↔ 0 ≤ Core.toInt body.length ∧
      v = stack id (h.key :: ks) ++ body := by
  constructor
  · intro hmoves
    obtain ⟨front, hfront, hnext, -⟩ := h.exists_front (stack id ks ++ body)
    obtain ⟨back, hback, hlb, -⟩ := exists_xreq h.outPipe (m := onWire [] []) fun _ => rfl
    obtain ⟨front', back', hmove, hhanded⟩ :=
      hmoves front back [] (fun _ => 0) true hfront hnext hback hlb
    by_cases hsize : 0 ≤ Core.toInt body.length
    · obtain ⟨_, _, hmove', hhanded'⟩ :=
        h.requests hid hks httl hsize front back [] (fun _ => 0) true hfront hnext hback hlb
      rw [hmove] at hmove'
      cases hmove'
      exact ⟨hsize, hhanded.unique hhanded'⟩
    · obtain ⟨_, hrecv⟩ := hfront.recv hid hks httl hnext
      rw [moveRequest, nnDeviceMvmsg_stops _ _ hrecv (not_le.1 hsize)] at hmove
      cases hmove
  · rintro ⟨hsize, rfl⟩
    exact h.requests hid hks httl hsize

theorem Hop.replies_iff (h : Hop P) {w v : List UInt8} :
    h.Replies (nnPutl h.key ++ w) v ↔ 0 ≤ Core.toInt w.length ∧ v = w := by
  constructor
  · intro hmoves
    obtain ⟨front, hfront, -, hwritable⟩ := h.exists_front []
    obtain ⟨back, hback, -, hnext⟩ :=
      exists_xreq h.outPipe (m := onWire [] (nnPutl h.key ++ w)) fun _ => rfl
    obtain ⟨back', front', hmove, hhanded⟩ :=
      hmoves front back [] (fun _ => 0) true hfront hwritable hback hnext
    by_cases hsize : 0 ≤ Core.toInt w.length
    · obtain ⟨_, _, hmove', hhanded'⟩ :=
        h.replies hsize front back [] (fun _ => 0) true hfront hwritable hback hnext
      rw [hmove] at hmove'
      cases hmove'
      exact ⟨hsize, hhanded.unique hhanded'⟩
    · obtain ⟨_, hrecv⟩ := nnXreqRecv_onWire hback hnext
      rw [moveReply, nnDeviceMvmsg_stops _ _ hrecv (not_le.1 hsize)] at hmove
      cases hmove
  · rintro ⟨hsize, rfl⟩
    exact h.replies hsize

/-- Every hop puts its key on the stack; it looks at the size of the body. -/
theorem through_requests_iff {id : UInt32} (hid : id &&& 0x80000000 ≠ 0) {body v : List UInt8}
    {hops : List (Hop P)} {ks : List UInt32} (hks : ∀ k ∈ ks, k &&& 0x80000000 = 0)
    (httl : ∀ i h, hops[i]? = some h → ks.length + i + 1 ≤ h.maxttl) :
    Through Hop.Requests hops (stack id ks ++ body) v ↔
      (hops = [] ∨ 0 ≤ Core.toInt body.length) ∧
        v = stack id ((hops.map Hop.key).reverse ++ ks) ++ body := by
  induction hops generalizing ks with
  | nil => exact ⟨fun h => ⟨Or.inl rfl, h.symm⟩, fun h => h.2.symm⟩
  | cons h hops ih =>
    have hks' : ∀ k ∈ h.key :: ks, k &&& 0x80000000 = 0 := by
      intro k hk
      rcases List.mem_cons.1 hk with rfl | hk
      · exact h.clear
      · exact hks k hk
    have hrest := ih hks' fun i g hg => by
      have := httl (i + 1) g hg
      rw [List.length_cons]
      omega
    have hkeys : ((h :: hops).map Hop.key).reverse ++ ks = (hops.map Hop.key).reverse ++
        (h.key :: ks) := by
      rw [List.map_cons, List.reverse_cons, List.append_assoc]
      rfl
    rw [hkeys]
    constructor
    · rintro ⟨_, hfirst, hthrough⟩
      obtain ⟨hsize, rfl⟩ := (h.requests_iff hid hks (httl 0 h rfl)).1 hfirst
      exact ⟨Or.inr hsize, (hrest.1 hthrough).2⟩
    · rintro ⟨hsize, rfl⟩
      have hsize := hsize.resolve_left (List.cons_ne_nil _ _)
      exact ⟨_, (h.requests_iff hid hks (httl 0 h rfl)).2 ⟨hsize, rfl⟩, hrest.2 ⟨Or.inr hsize, rfl⟩⟩

/-- Every hop takes its key from the stack; what is below it counts as the body. -/
theorem through_replies_iff (id : UInt32) {reply v : List UInt8} (hops : List (Hop P))
    (ks : List UInt32) :
    Through Hop.Replies hops (stack id (hops.map Hop.key ++ ks) ++ reply) v ↔
      (∀ j < hops.length, 0 ≤ Core.toInt ((ks.length + j + 1) * 4 + reply.length)) ∧
        v = stack id ks ++ reply := by
  induction hops with
  | nil => exact ⟨fun h => ⟨fun _ hj => absurd hj (Nat.not_lt_zero _), h.symm⟩, fun h => h.2.symm⟩
  | cons h hops ih =>
    have hlen : (stack id (hops.map Hop.key ++ ks) ++ reply).length =
        (ks.length + hops.length + 1) * 4 + reply.length := by
      rw [List.length_append, length_stack, List.length_append, List.length_map]
      omega
    have hstack : stack id ((h :: hops).map Hop.key ++ ks) ++ reply =
        nnPutl h.key ++ (stack id (hops.map Hop.key ++ ks) ++ reply) := by
      rw [List.map_cons, List.cons_append, stack, List.append_assoc]
    rw [hstack, List.length_cons]
    constructor
    · rintro ⟨_, hfirst, hthrough⟩
      obtain ⟨hsize, rfl⟩ := h.replies_iff.1 hfirst
      obtain ⟨hsizes, rfl⟩ := ih.1 hthrough
      refine ⟨fun j hj => ?_, rfl⟩
      rcases Nat.lt_succ_iff_lt_or_eq.1 hj with hj | rfl
      · exact hsizes j hj
      · rwa [hlen] at hsize
    · rintro ⟨hsizes, rfl⟩
      refine ⟨_, h.replies_iff.2 ⟨?_, rfl⟩, ih.2 ⟨fun j hj => hsizes j (Nat.lt_succ_of_lt hj), rfl⟩⟩
      rw [hlen]
      exact hsizes _ (Nat.lt_succ_self _)

/-- The request that `rep` has just received from the pipe `p` is still pending at `rep'`, and the
pipe is still there and can send. -/
structure Waiting (rep : Replier P) (p : P) (rep' : Replier P) : Prop where
  wf : rep'.router.Wf
  inprogress : rep'.inprogress = rep.inprogress
  backtrace : rep'.backtrace = rep.backtrace
  writable : ∃ d, rep.router.data p = some d ∧ rep'.router.Writable p d.key

/-- The REP socket at the end takes the request off the link. -/
theorem rep_recv {rep : Replier P} (hwf : rep.router.Wf) {id : UInt32} (hid : id &&& 0x80000000 ≠ 0)
    {ks : List UInt32} (hks : ∀ k ∈ ks, k &&& 0x80000000 = 0)
    (httl : ks.length + 1 ≤ rep.router.maxttl) {p : P} {hdrs body : List UInt8}
    (hnext : rep.router.next = some (p, onWire hdrs (stack id ks ++ body))) :
    ∃ rep' d, nnRepRecv rep = .ok (.ok ⟨[], hdrs, body⟩, rep') ∧ rep.router.data p = some d ∧
      rep'.router.data = rep.router.data ∧ rep'.inprogress = true ∧
        rep'.backtrace = nnPutl d.key ++ stack id ks := by
  rcases hwf.recv with
    ⟨hnone, -⟩ | ⟨q, m, d, g, -, -, router', hnext', hd, hg, -, hrecv, -, -, hdata, -⟩
  · rw [hnext] at hnone
    cases hnone
  rw [hnext] at hnext'
  cases hnext'
  rw [split_stack hid hks httl] at hg
  cases hg
  refine ⟨⟨router', true, nnPutl d.key ++ stack id ks⟩, d, ?_, hd, hdata, rfl, rfl⟩
  simp [nnRepRecv, Replier.recv, nnXrepRecv, hrecv, Router.keyed]

/-- The REP socket puts the reply on the link that the request came from. -/
theorem rep_send {rep : Replier P} (hwf : rep.router.Wf) {p : P} {k : UInt32}
    (hwritable : rep.router.Writable p k) {hdr : List UInt8} (hin : rep.inprogress = true)
    (hback : rep.backtrace = nnPutl k ++ hdr) {reply : Msg}
    (hreply : reply.sphdr = []) (sync : Bool) :
    ∃ rep', nnRepSend rep reply sync = .ok (none, rep') ∧
      Handed rep.router.pipes rep'.router.pipes p (hdr ++ reply.body) := by
  have hmsg : ({ reply with sphdr := rep.backtrace } : Msg).sphdr = nnPutl k ++ hdr := hback
  rcases hwf.send hmsg sync with
    ⟨hnone, -⟩ | ⟨q, pipe, pipe', router', hw, hp, hout, hsend, -, -, hpipes⟩
  · exact absurd hwritable (hnone p)
  · obtain ⟨d, hd, hk, -⟩ := hw
    obtain ⟨e, he, hek, -⟩ := hwritable
    obtain rfl := hwf.eq_of_key hd he (hk.trans hek.symm)
    refine ⟨{ rep with inprogress := false, router := router' }, ?_, pipe, pipe', _, hp, ?_, hout,
      rfl, fun r hr => ?_⟩
    · simp [nnRepSend, Replier.send, hin, nnAssert_of hreply, nnXrepSend, hsend]
    · simp only [hpipes, Function.update_self]
    · simp only [hpipes, Function.update_of_ne hr]

/-- A request with this id and body goes through the devices to a REP socket, and the reply comes
back by the same pipes.  The states of the sockets at the moments when the message is in them are
arbitrary, as long as the message is the next one to be moved, the limits on the number of hops
admit it, and the pipes stay up. -/
structure Routed (hops : List (Hop P)) (id : UInt32) (body reply : List UInt8) : Prop where
  sent : ∀ (origin : Xreq P) hdrs q sync, origin.Wf → origin.lb.getpipe = .ok (some q) →
    ∃ origin', nnXreqSend origin ⟨nnPutl id, hdrs, body⟩ sync = .ok (some q, origin') ∧
      Handed origin.pipes origin'.pipes q (nnPutl id ++ body)
  forth : Through Hop.Requests hops (nnPutl id ++ body)
    (stack id (hops.map Hop.key).reverse ++ body)
  answered : ∀ (rep : Replier P) p hdrs, rep.router.Wf →
    rep.router.next = some (p, onWire hdrs (stack id (hops.map Hop.key).reverse ++ body)) →
    hops.length + 1 ≤ rep.router.maxttl →
    ∃ rep', nnRepRecv rep = .ok (.ok ⟨[], hdrs, body⟩, rep') ∧
      ∀ (rep₁ : Replier P) hdrs sync, Waiting rep' p rep₁ →
        ∃ rep₂, nnRepSend rep₁ ⟨[], hdrs, reply⟩ sync = .ok (none, rep₂) ∧
          Handed rep₁.router.pipes rep₂.router.pipes p
            (stack id (hops.map Hop.key).reverse ++ reply)
  back : Through Hop.Replies hops.reverse (stack id (hops.map Hop.key).reverse ++ reply)
    (nnPutl id ++ reply)
  received : ∀ (origin : Xreq P) q hdrs, origin.Wf →
    fqNext origin.fq origin.pipes = some (q, onWire hdrs (nnPutl id ++ reply)) →
    ∃ origin', nnXreqRecv origin = .ok (.msg ⟨nnPutl id, hdrs, reply⟩, origin')

/-- The ends of the way are right for every request and reply. -/
theorem routed_iff_through (hops : List (Hop P)) {id : UInt32} (hid : id &&& 0x80000000 ≠ 0)
    (body reply : List UInt8) :
    Routed hops id body reply ↔
      Through Hop.Requests hops (nnPutl id ++ body) (stack id (hops.map Hop.key).reverse ++ body) ∧
        Through Hop.Replies hops.reverse (stack id (hops.map Hop.key).reverse ++ reply)
          (nnPutl id ++ reply) := by
  have hks : ∀ k ∈ (hops.map Hop.key).reverse, k &&& 0x80000000 = 0 := by
    intro k hk
    obtain ⟨h, -, rfl⟩ := List.mem_map.1 (List.mem_reverse.1 hk)
    exact h.clear
  refine ⟨fun h => ⟨h.forth, h.back⟩, fun h => ⟨?_, h.1, ?_, h.2, ?_⟩⟩
  · intro origin hdrs q sync horigin hq
    rcases nnXreqSendTo_spec horigin ⟨nnPutl id, hdrs, body⟩ sync with
      ⟨hnone, -⟩ | ⟨r, origin', hsend, -, -, -, -, hgiven⟩
    · rcases horigin.lb.wf.getpipe with ⟨hn, -⟩ | ⟨r, -, hr⟩
      · rw [hq] at hn
        cases hn
      · exact absurd hr (hnone r)
    obtain rfl : r = q := by
      have := hgiven.next
      rw [hq] at this
      cases this
      rfl
    obtain ⟨pipe, pipe', hp, hp', hout⟩ := hgiven.outbox
    exact ⟨origin', hsend, pipe, pipe', _, hp, hp', hout, rfl, hgiven.others⟩
  · intro rep p hdrs hwf hnext hmax
    obtain ⟨rep', d, hrecv, hd, hdata, hin, hback⟩ :=
      rep_recv hwf hid hks (by simpa using hmax) hnext
    refine ⟨rep', hrecv, fun rep₁ hdrs sync hwait => ?_⟩
    obtain ⟨e, he, hwritable⟩ := hwait.writable
    rw [hdata, hd] at he
    cases he
    exact rep_send hwait.wf hwritable (hwait.inprogress.trans hin)
      (hwait.backtrace.trans hback) rfl sync
  · intro origin q hdrs horigin hnext
    exact nnXreqRecv_onWire horigin hnext

/-- No size that a device gets from `nn_recvmsg` on the way is negative as an `int`.  For a reply it
counts the id and the keys that are still on the stack. -/
def SizesFit (hops : List (Hop P)) (body reply : List UInt8) : Prop :=
  (hops = [] ∨ body.length % 2 ^ 32 < 2 ^ 31) ∧
    ∀ j < hops.length, ((j + 1) * 4 + reply.length) % 2 ^ 32 < 2 ^ 31

/-- A request goes through any number of devices and its reply comes back if and only if no size on
the way is taken for an error. -/
theorem backtrace_routing_iff (hops : List (Hop P))
    (httl : ∀ i h, hops[i]? = some h → i + 1 ≤ h.maxttl) (id : UInt32) (hid : id &&& 0x80000000 ≠ 0)
    (body reply : List UInt8) :
    Routed hops id body reply ↔ SizesFit hops body reply := by
  have hks : ∀ k ∈ ([] : List UInt32), k &&& 0x80000000 = 0 := fun _ hk => nomatch hk
  have httl' : ∀ i h, hops[i]? = some h → ([] : List UInt32).length + i + 1 ≤ h.maxttl := by
    intro i h hi
    rw [List.length_nil, Nat.zero_add]
    exact httl i h hi
  have hforth : Through Hop.Requests hops (stack id [] ++ body)
      (stack id ((hops.map Hop.key).reverse ++ []) ++ body) ↔ _ :=
    through_requests_iff hid hks httl'
  have hback : Through Hop.Replies hops.reverse (stack id (hops.reverse.map Hop.key ++ []) ++ reply)
      (stack id [] ++ reply) ↔ _ := through_replies_iff id hops.reverse []
  simp only [List.append_nil, and_true, Core.toInt_nonneg_iff] at hforth
  simp only [List.append_nil, and_true, Core.toInt_nonneg_iff, List.map_reverse,
    List.length_reverse, List.length_nil, Nat.zero_add] at hback
  rw [routed_iff_through hops hid]
  exact and_congr hforth hback

/-! ### One device -/

/-- The device of the examples. -/
def oneHop : Hop Unit := ⟨(), (), 5, 8, by decide, by decide⟩

/-- A request of 2^31 bytes stops the first device. -/
theorem long_request_stops : ¬ Routed [oneHop] 0x80000009 (List.replicate (2 ^ 31) 0) [7] := by
  intro h
  obtain ⟨_, hfirst, -⟩ := h.forth
  have hid : (0x80000009 : UInt32) &&& 0x80000000 ≠ 0 := by decide
  have hks : ∀ k ∈ ([] : List UInt32), k &&& 0x80000000 = 0 := fun _ hk => nomatch hk
  have hsize := ((oneHop.requests_iff hid hks (by decide)).1 hfirst).1
  rw [Core.toInt_nonneg_iff, List.length_replicate] at hsize
  exact absurd hsize (by decide)

/-- A small request and its reply, with the bytes on every link. -/
theorem backtrace_routing_one_hop :
    Routed [oneHop] 0x80000009 [1, 2] [7] ∧
      Through Hop.Requests [oneHop] [0x80, 0, 0, 9, 1, 2] [0, 0, 0, 5, 0x80, 0, 0, 9, 1, 2] ∧
      Through Hop.Replies [oneHop] [0, 0, 0, 5, 0x80, 0, 0, 9, 7] [0x80, 0, 0, 9, 7] ∧
      ∃ (front : Router Unit) (back : Xreq Unit), oneHop.Front front ∧ back.Wf ∧
        ∃ front' back', moveRequest (fun _ => 0) true front back = .ok (true, front', back') ∧
          Handed back.pipes back'.pipes () [0, 0, 0, 5, 0x80, 0, 0, 9, 1, 2] := by
  have hrouted : Routed [oneHop] 0x80000009 [1, 2] [7] :=
    (backtrace_routing_iff [oneHop] (fun i h hi => by
      cases i with
      | zero =>
        cases hi
        decide
      | succ i => cases hi) 0x80000009 (by decide) [1, 2] [7]).2 ⟨Or.inr (by decide), by decide⟩
  obtain ⟨front, hfront, hnext, -⟩ := oneHop.exists_front [0x80, 0, 0, 9, 1, 2]
  obtain ⟨back, hback, hlb, -⟩ := exists_xreq () (m := onWire [] []) fun _ => rfl
  obtain ⟨_, hmoves, rfl⟩ := hrouted.forth
  exact ⟨hrouted, hrouted.forth, hrouted.back, front, back, hfront, hback,
    hmoves front back [] (fun _ => 0) true hfront hnext hback hlb⟩

end NanoSocket.ReqRep

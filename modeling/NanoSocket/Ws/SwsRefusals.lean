import NanoSocket.Ws.SwsSafety

/-!
# What a WebSocket session refuses (`transports/ws/sws.c`)

A frame is refused because of the first bytes of its header, of a length that makes the message too
big, of a text that is not well-formed, or because it closes the connection.  Whatever is received
else, the session stays active (`Keeps`).  A session that refuses a frame while it sends a message
is at its end at once.
-/

namespace NanoSocket.Ws

/-! ### Texts -/

/-- The result of the loop over code points. -/
def scan (l : List UInt8) : Utf8Scan := (utf8Loop l.length l).toOption.getD .invalid

theorem utf8Loop_eq_scan (l : List UInt8) : utf8Loop l.length l = .ok (scan l) := by
  obtain ⟨r, hr, -⟩ := utf8Loop_spec (le_refl l.length)
  rw [scan, hr]
  rfl

/-- A part of a text that ends so is refused. -/
def Utf8Scan.Refused (final : Bool) : Utf8Scan → Prop
  | .wellFormed => False
  | .invalid => True
  | .fragment _ => final = true

instance (final : Bool) (r : Utf8Scan) : Decidable (r.Refused final) :=
  match r with
  | .wellFormed => .isFalse id
  | .invalid => .isTrue trivial
  | .fragment _ => inferInstanceAs (Decidable (_ = _))

/-- The payload of a frame of a text is refused, when `f` is left over from the frame before. -/
def TextRefused (f : List UInt8) (final : Bool) : List UInt8 → Prop
  | [] => False
  | b :: bytes =>
    if f = [] then (scan (b :: bytes)).Refused final
    else
      match nnUtf8CodePoint (f ++ [b]) with
      | .valid _ => (scan bytes).Refused final
      | .invalid => True
      | .fragment => final = true

instance (f : List UInt8) (final : Bool) (bytes : List UInt8) :
    Decidable (TextRefused f final bytes) := by
  cases bytes with
  | nil => exact .isFalse id
  | cons b bytes =>
    rw [TextRefused]
    cases nnUtf8CodePoint (f ++ [b]) <;> infer_instance

/-! ### Frames -/

/-- The session refuses the frame whose header starts with two bytes. -/
def Sws.RefusesHdr (env : Env) (s : Sws) (b0 b1 : UInt8) : Prop :=
  Malformed s.mode s.continuing b0 b1 ∨
    (∃ n ∈ s.claimHdr b0 b1, ¬ env.Fits ((s.inmsgTotalSize + n) % 2 ^ 64)) ∨
    s.mode = .client ∧ opcodeOf b0 = .close ∧ (b1 &&& 0x7F).toNat = 0

/-- The session refuses the frame when `ext` is the rest of its header. -/
def Sws.RefusesExt (env : Env) (s : Sws) (ext : List UInt8) : Prop :=
  (∃ n ∈ s.claimExt ext, ¬ env.Fits ((s.inmsgTotalSize + n) % 2 ^ 64)) ∨
    s.opcode = .close ∧ s.lengthExt ext = 0

/-- The session refuses the frame with this payload. -/
def Sws.RefusesPayload (s : Sws) (bytes : List UInt8) : Prop :=
  s.opcode = .close ∨ s.Validates ∧ TextRefused s.utf8CodePtFragment s.isFinalFrame bytes

instance (env : Env) (s : Sws) (b0 b1 : UInt8) : Decidable (s.RefusesHdr env b0 b1) :=
  inferInstanceAs (Decidable (_ ∨ (∃ n ∈ s.claimHdr b0 b1, _) ∨ _))

instance (env : Env) (s : Sws) (ext : List UInt8) : Decidable (s.RefusesExt env ext) :=
  inferInstanceAs (Decidable ((∃ n ∈ s.claimExt ext, _) ∨ _))

instance (s : Sws) (bytes : List UInt8) : Decidable (s.RefusesPayload bytes) :=
  inferInstanceAs (Decidable (_ ∨ _))

/-! ### What the handling of a receive leads to -/

variable {env : Env} {rand : Mask} {s t : Sws} {R : Prop}

/-- The session is active, or something was refused: then it closes the connection, or it was
sending and is at its end, with the events of `t`. -/
def Outcome (R : Prop) (t s : Sws) : Prop :=
  s.state = .active ∨ R ∧ (t.outstate = .idle ∧ s.state = .closingConnection ∨
    t.outstate ≠ .idle ∧ s.usock.send = t.usock.send ∧ s.usock.eventError = t.usock.eventError)

/-- The call leads to such an outcome, if it returns. -/
def Keeps (R : Prop) (t : Sws) (x : Except Fault Sws) : Prop := Ends (fun _ => True) (Outcome R t) x

theorem Keeps.assert {x : Prop} [Decidable x] {f : Unit → Except Fault Sws}
    (h : x → Keeps R t (f ())) :
    Keeps R t (nnAssert x >>= f) :=
  Ends.assert (or_iff_not_imp_right.2 fun h => absurd trivial h) h

theorem Ends.any {α : Type} (x : Except Fault α) : Ends (fun _ => True) (fun _ => True) x := by
  cases x <;> trivial

theorem Keeps.bind {α : Type} {x : Except Fault α} {f : α → Except Fault Sws}
    (h : ∀ a, Keeps R t (f a)) :
    Keeps R t (x >>= f) :=
  Ends.bind (Ends.any x) fun a _ => h a

/-- A receive that is started is not an end. -/
theorem Keeps.recv {u : Usock} {buf : Buf} {len : ℕ} {f : Usock → Except Fault Sws}
    (h : Keeps R t (f { u with recv := some (buf, len) })) :
    Keeps R t (nnUsockRecv u buf len >>= f) := by
  unfold nnUsockRecv
  rw [bind_assoc]
  exact Keeps.assert fun _ => h

theorem Keeps.send {u : Usock} {bytes : List UInt8} {f : Usock → Except Fault Sws}
    (h : Keeps R t (f { u with send := .writing, sent := u.sent ++ bytes })) :
    Keeps R t (nnUsockSend u bytes >>= f) := by
  unfold nnUsockSend
  rw [bind_assoc]
  exact Keeps.assert fun _ => h

end NanoSocket.Ws

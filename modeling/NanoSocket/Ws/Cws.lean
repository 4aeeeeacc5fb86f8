import NanoSocket.Ws.Sws

/-!
# The address of a WebSocket client (`transports/ws/cws.c`)

`nn_cws_create` finds the host, the port and the resource of an address by their separators: the
first `';'` of the address, its last `':'` and the first `'/'` from there.  A resource may hold all
three, and then the separators are found in the resource: `create_yields_iff` says that a resource
with a `':'` or a `';'` is never taken as it is, and that every other one is.
-/

namespace NanoSocket.Ws.Connect

/-! ### The C library -/

/-- `strchr`, as an offset. -/
def strchr (text : List UInt8) (c : UInt8) : Option ℕ :=
  match text with
  | [] => none
  | a :: text => if a = c then some 0 else (strchr text c).map (· + 1)

/-- `strrchr`, as an offset. -/
def strrchr (text : List UInt8) (c : UInt8) : Option ℕ :=
  match text with
  | [] => none
  | a :: text =>
    match strrchr text c with
    | some i => some (i + 1)
    | none => if a = c then some 0 else none

/-- The difference of two pointers as a `size_t`. -/
def sizeDiff (p q : ℕ) : ℕ := (((p : ℤ) - q) % 2 ^ 64).toNat

/-! ### Ports and hosts (`transports/utils`) -/

/-- The loop of `nn_port_resolve`. -/
def portLoop (res : ℕ) : List UInt8 → Option ℕ
  | [] => some res
  | c :: port =>
    if c < 0x30 ∨ 0x39 < c then none
    else
      let res := res * 10 + (c - 0x30).toNat
      if 0xffff < res then none else portLoop res port

/-- `nn_port_resolve`. -/
def nnPortResolve (port : List UInt8) (portlen : ℕ) : Option ℕ := do
  let res ← portLoop 0 (port.take portlen)
  -- port 0 asks for any port that is free
  if res = 0 then none else some res

/-- A character of a host name. -/
def isHostChar (c : UInt8) : Bool :=
  0x61 ≤ c ∧ c ≤ 0x7A ∨ 0x41 ≤ c ∧ c ≤ 0x5A ∨ 0x30 ≤ c ∧ c ≤ 0x39 ∨ c = 0x2D

/-- The loop of `nn_dns_check_hostname`. -/
def hostnameLoop (labelsz : ℕ) : List UInt8 → ℕ → Bool
  | _, 0 => true
  | [], _ + 1 => false
  | c :: name, namelen + 1 =>
    if c = 0x2E then
      if labelsz = 0 then false else hostnameLoop 0 name namelen
    else if isHostChar c then
      if 63 < labelsz + 1 then false else hostnameLoop (labelsz + 1) name namelen
    else false

/-- `nn_dns_check_hostname`. -/
def nnDnsCheckHostname (name : List UInt8) (namelen : ℕ) : Bool :=
  if namelen < 1 ∨ 255 < namelen then false
  else if name.head? = some 0x2D then false
  else hostnameLoop 0 name namelen

/-- The versions of the Internet protocol. -/
inductive Family
  | inet
  | inet6
  deriving DecidableEq, Repr

variable (inetPton : Family → List UInt8 → Bool)

/-- `nn_literal_resolve` of the text at the offset `pos` of `buf`; `inetPton` is `inet_pton`. -/
def nnLiteralResolve (buf : List UInt8) (pos addrlen : ℕ) (ipv4only : Bool) : Bool :=
  let resolve (addrz : List UInt8) : Bool :=
    (!ipv4only && inetPton .inet6 addrz) || inetPton .inet addrz
  if 0 < addrlen ∧ buf[pos]? = some 0x5B then
    if buf[(pos + addrlen - 1) % 2 ^ 64]? ≠ some 0x5D then false
    else if 46 < (addrlen - 2 + 1) % 2 ^ 64 then false
    else resolve ((buf.drop (pos + 1)).take (addrlen - 2))
  else if 46 < (addrlen + 1) % 2 ^ 64 then false
  else resolve ((buf.drop pos).take addrlen)

/-- `nn_iface_resolve` of the front of the address. -/
def nnIfaceResolve (addr : List UInt8) (addrlen : ℕ) (ipv4only : Bool) : Bool :=
  if addr.take addrlen = ascii "*" then true else nnLiteralResolve inetPton addr 0 addrlen ipv4only

/-! ### The client -/

/-- The error codes of `nn_cws_create`. -/
inductive CreateError
  | einval
  | enodev
  deriving DecidableEq, Repr

/-- What a `struct nn_cws` keeps of the address. -/
structure Cws where
  resource : List UInt8
  remoteHost : List UInt8
  nic : List UInt8
  remotePort : ℕ
  remoteHostnameLen : ℕ
  deriving DecidableEq, Repr

/-- The name that is resolved. -/
def Cws.hostname (self : Cws) : List UInt8 := self.remoteHost.take self.remoteHostnameLen

/-- The places that `nn_cws_create` finds in the address. -/
structure Pointers where
  semicolon : Option ℕ
  hostname : ℕ
  colon : Option ℕ
  resource : ℕ
  remoteHostnameLen : ℕ

def Pointers.parse (addr : List UInt8) : Pointers :=
  let semicolon := strchr addr 0x3B
  let hostname := match semicolon with
    | some semicolon => semicolon + 1
    | none => 0
  let colon := strrchr addr 0x3A
  let slash := match colon with
    | some colon => (strchr (addr.drop colon) 0x2F).map (colon + ·)
    | none => strchr addr 0x2F
  let resource := slash.getD addr.length
  let remoteHostnameLen := match colon with
    | some colon => sizeDiff colon hostname
    | none => sizeDiff resource hostname
  { semicolon, hostname, colon, resource, remoteHostnameLen }

/-- The port of the address, 80 if there is none. -/
def Pointers.port (self : Pointers) (addr : List UInt8) : Option ℕ :=
  match self.colon with
  | some colon => nnPortResolve (addr.drop (colon + 1)) (self.resource - colon - 1)
  | none => some 80

/-- The local address. -/
def Pointers.nic (self : Pointers) (addr : List UInt8) (ipv4only : Bool) : Option (List UInt8) :=
  match self.semicolon with
  | some semicolon => if nnIfaceResolve inetPton addr semicolon ipv4only then
      some (addr.take semicolon) else none
  | none => some (ascii "*")

/-- `nn_cws_create`. -/
def nnCwsCreate (ipv4only : Bool) (addr : List UInt8) : Except CreateError Cws :=
  let self := Pointers.parse addr
  let hostlen := sizeDiff self.resource self.hostname
  match self.port addr with
  | none => .error .einval
  | some remotePort =>
    if ¬ nnDnsCheckHostname (addr.drop self.hostname) self.remoteHostnameLen ∧
        ¬ nnLiteralResolve inetPton addr self.hostname self.remoteHostnameLen ipv4only then
      .error .einval
    else
      match self.nic inetPton addr ipv4only with
      | none => .error .enodev
      | some nic => .ok {
        resource := if self.resource = addr.length then ascii "/" else addr.drop self.resource
        remoteHost := (addr.drop self.hostname).take hostlen
        nic, remotePort, remoteHostnameLen := self.remoteHostnameLen }

/-- The client keeps the name of the host, the port, the text of both and the resource. -/
def Yields (ipv4only : Bool) (addr host : List UInt8) (port : ℕ) (text resource : List UInt8) :
    Prop :=
  ∃ self, nnCwsCreate inetPton ipv4only addr = .ok self ∧ self.hostname = host ∧
    self.remotePort = port ∧
    self.remoteHost = text ∧ self.resource = if resource = [] then ascii "/" else resource

def digit (d : ℕ) : UInt8 := UInt8.ofNat (0x30 + d)

/-- A number in decimal. -/
def decimal (n : ℕ) : List UInt8 := (Nat.digits 10 n).reverse.map digit

/-! ### Separators -/

section Separators

variable {c : UInt8} {l l' : List UInt8}

theorem strchr_of_not_mem (h : c ∉ l) : strchr l c = none := by
  induction l with
  | nil => rfl
  | cons a l ih =>
    rw [List.mem_cons, not_or] at h
    rw [strchr, if_neg (Ne.symm h.1), ih h.2]
    rfl

/-- The first separator. -/
theorem strchr_append (h : c ∉ l) (l' : List UInt8) : strchr (l ++ c :: l') c = some l.length := by
  induction l with
  | nil => exact if_pos rfl
  | cons a l ih =>
    rw [List.mem_cons, not_or] at h
    rw [List.cons_append, strchr, if_neg (Ne.symm h.1), ih h.2]
    rfl

theorem strrchr_of_not_mem (h : c ∉ l) : strrchr l c = none := by
  induction l with
  | nil => rfl
  | cons a l ih =>
    rw [List.mem_cons, not_or] at h
    rw [strrchr, ih h.2]
    exact if_neg (Ne.symm h.1)

/-- The last separator. -/
theorem strrchr_append (l : List UInt8) (h : c ∉ l') :
    strrchr (l ++ c :: l') c = some l.length := by
  induction l with
  | nil =>
    rw [List.nil_append, strrchr, strrchr_of_not_mem h]
    exact if_pos rfl
  | cons a l ih =>
    rw [List.cons_append, strrchr, ih]
    rfl

/-- A text with a separator, cut at the last one. -/
theorem exists_last (h : c ∈ l) : ∃ x y, l = x ++ c :: y ∧ c ∉ y := by
  obtain ⟨x, y, heq, hx⟩ := List.eq_append_cons_of_mem (List.mem_reverse.2 h)
  refine ⟨y.reverse, x.reverse, ?_, fun hmem => hx (List.mem_reverse.1 hmem)⟩
  rw [← List.reverse_reverse l, heq]
  simp

end Separators

/-! ### Host names and ports -/

theorem hostnameLoop_chars {labelsz : ℕ} {name : List UInt8}
    (h : hostnameLoop labelsz name name.length = true) :
    ∀ c ∈ name, isHostChar c = true ∨ c = 0x2E := by
  induction name generalizing labelsz with
  | nil => nofun
  | cons c name ih =>
    rw [List.length_cons, hostnameLoop] at h
    rw [List.forall_mem_cons]
    split_ifs at h with hdot hempty hchar hlong
    · exact ⟨Or.inr hdot, ih h⟩
    · exact ⟨Or.inl hchar, ih h⟩

theorem hostnameLoop_append (labelsz : ℕ) (name rest : List UInt8) :
    hostnameLoop labelsz (name ++ rest) name.length = hostnameLoop labelsz name name.length := by
  induction name generalizing labelsz with
  | nil =>
    rw [List.length_nil, hostnameLoop]
    simp [hostnameLoop]
  | cons c name ih =>
    rw [List.length_cons, List.cons_append, hostnameLoop, hostnameLoop]
    simp only [ih]

theorem nnDnsCheckHostname_append (name rest : List UInt8) :
    nnDnsCheckHostname (name ++ rest) name.length = nnDnsCheckHostname name name.length := by
  cases name with
  | nil => rfl
  | cons c name => rw [nnDnsCheckHostname, nnDnsCheckHostname, hostnameLoop_append,
      List.cons_append, List.head?_cons, List.head?_cons]

/-- What a host name has no part in. -/
structure HostName (name : List UInt8) : Prop where
  length_le : name.length ≤ 255
  colon : 0x3A ∉ name
  semicolon : 0x3B ∉ name
  slash : 0x2F ∉ name

theorem hostName_of_check {name : List UInt8} (h : nnDnsCheckHostname name name.length = true) :
    HostName name := by
  rw [nnDnsCheckHostname] at h
  split_ifs at h with hlen hhyphen
  have hchars := hostnameLoop_chars h
  have hnot {c : UInt8} (hc : isHostChar c = false) (hdot : c ≠ 0x2E) : c ∉ name := by
    intro hmem
    rcases hchars c hmem with htrue | heq
    · rw [hc] at htrue
      cases htrue
    · exact hdot heq
  exact ⟨by omega, hnot (by decide) (by decide), hnot (by decide) (by decide),
    hnot (by decide) (by decide)⟩

theorem digit_spec {d : ℕ} (h : d < 10) :
    ¬ (digit d < 0x30 ∨ 0x39 < digit d) ∧ (digit d - 0x30).toNat = d := by
  revert d
  decide

theorem portLoop_append (res : ℕ) (l l' : List UInt8) :
    portLoop res (l ++ l') = (portLoop res l).bind fun r => portLoop r l' := by
  induction l generalizing res with
  | nil => rfl
  | cons c l ih =>
    rw [List.cons_append, portLoop, portLoop]
    simp only [ih]
    split_ifs <;> rfl

theorem decimal_of_pos {n : ℕ} (h : 0 < n) : decimal n = decimal (n / 10) ++ [digit (n % 10)] := by
  rw [decimal, Nat.digits_def' (by decide) h]
  simp [decimal]

theorem portLoop_decimal {n : ℕ} (h : n ≤ 0xffff) : portLoop 0 (decimal n) = some n := by
  induction n using Nat.strong_induction_on with
  | _ n ih =>
    rcases Nat.eq_zero_or_pos n with rfl | hpos
    · rfl
    · obtain ⟨hrange, hvalue⟩ := digit_spec (Nat.mod_lt n (by decide : 0 < 10))
      rw [decimal_of_pos hpos, portLoop_append, ih (n / 10) (by omega) (by omega), Option.bind_some,
        portLoop, if_neg hrange, hvalue, Nat.div_add_mod']
      exact if_neg (by omega)

theorem nnPortResolve_decimal {n : ℕ} (hpos : 1 ≤ n) (hle : n ≤ 65535) (rest : List UInt8) :
    nnPortResolve (decimal n ++ rest) (decimal n).length = some n := by
  rw [nnPortResolve, List.take_left, portLoop_decimal hle]
  exact if_neg (by omega)

theorem mem_decimal {n : ℕ} {c : UInt8} (h : c ∈ decimal n) : 0x30 ≤ c.toNat ∧ c.toNat ≤ 0x39 := by
  obtain ⟨d, hd, rfl⟩ := List.mem_map.1 h
  have hlt : d < 10 := Nat.digits_lt_base (by decide) (List.mem_reverse.1 hd)
  have hdigit : (digit d).toNat = 0x30 + d :=
    UInt8.toNat_ofNat_of_lt' (show 0x30 + d < 256 by omega)
  omega

theorem length_decimal {n : ℕ} (h : n ≤ 65535) : (decimal n).length ≤ 5 := by
  rw [decimal, List.length_map, List.length_reverse, Nat.digits_length_le_iff (by decide)]
  omega

/-! ### The places in the address -/

/-- The port in the address. -/
def portText : Option ℕ → List UInt8
  | none => []
  | some port => 0x3A :: decimal port

section Address

variable {host resource : List UInt8} {port : Option ℕ}

theorem not_mem_portText {c : UInt8} (hc : c.toNat < 0x30 ∨ 0x3A < c.toNat) :
    c ∉ portText port := by
  cases port with
  | none => nofun
  | some n =>
    rw [portText, List.mem_cons, not_or]
    constructor
    · rintro rfl
      revert hc
      decide
    · intro hmem
      have := mem_decimal hmem
      omega

/-- The resource begins at the first slash from its place on. -/
theorem strchr_slash {l : List UInt8} (hl : 0x2F ∉ l)
    (hres : resource = [] ∨ ∃ r, resource = 0x2F :: r) (k : ℕ) :
    ((strchr (l ++ resource) 0x2F).map (k + ·)).getD (k + (l ++ resource).length) =
      k + l.length := by
  rcases hres with rfl | ⟨r, rfl⟩
  · rw [List.append_nil, strchr_of_not_mem hl]
    rfl
  · rw [strchr_append hl]
    rfl

/-- The places in an address whose resource holds no colon. -/
theorem parse_eq (hhost : HostName host) (hres : resource = [] ∨ ∃ r, resource = 0x2F :: r)
    (hcolon : 0x3A ∉ resource) {semicolon : Option ℕ}
    (hsemicolon : strchr (host ++ portText port ++ resource) 0x3B = semicolon) :
    Pointers.parse (host ++ portText port ++ resource) =
      { semicolon, hostname := (semicolon.map (· + 1)).getD 0,
        colon := port.map fun _ => host.length
        resource := (host ++ portText port).length
        remoteHostnameLen := sizeDiff host.length ((semicolon.map (· + 1)).getD 0) } := by
  have hhostname : (match semicolon with
      | some semicolon => semicolon + 1
      | none => 0) = (semicolon.map (· + 1)).getD 0 := by
    cases semicolon <;> rfl
  unfold Pointers.parse
  rw [hsemicolon]
  dsimp only
  rw [hhostname]
  cases port with
  | none =>
    have hnone : strrchr (host ++ resource) 0x3A = none :=
      strrchr_of_not_mem fun hmem => (List.mem_append.1 hmem).elim hhost.colon hcolon
    have hslash := strchr_slash hhost.slash hres 0
    simp only [Nat.zero_add, Option.map_id_fun', id_eq] at hslash
    rw [portText, List.append_nil]
    simp only [hnone, hslash, Option.map_none]
  | some n =>
    have hdecimal : 0x3A ∉ decimal n ++ resource := by
      rw [List.mem_append, not_or]
      exact ⟨fun hmem => absurd (mem_decimal hmem).2 (by decide), hcolon⟩
    have hsome : strrchr (host ++ portText (some n) ++ resource) 0x3A = some host.length := by
      rw [List.append_assoc]
      exact strrchr_append host hdecimal
    have hslash := strchr_slash (@not_mem_portText (some n) _ (by decide)) hres host.length
    have hlen : (host ++ portText (some n) ++ resource).length = host.length +
        (portText (some n) ++ resource).length := by
      simp only [List.length_append]
      omega
    have hdrop : (host ++ portText (some n) ++ resource).drop host.length =
        portText (some n) ++ resource := by
      rw [List.append_assoc, List.drop_left]
    simp only [hsome, hdrop, hlen, hslash, Option.map_some]
    rw [List.length_append]

/-! ### What the client keeps -/

variable {inetPton : Family → List UInt8 → Bool} {ipv4only : Bool}

theorem sizeDiff_zero {n : ℕ} (h : n < 2 ^ 64) : sizeDiff n 0 = n := by
  unfold sizeDiff
  omega

theorem port_eq (hport : ∀ n ∈ port, 1 ≤ n ∧ n ≤ 65535) {self : Pointers}
    (hcolon : self.colon = port.map fun _ => host.length)
    (hresource : self.resource = (host ++ portText port).length) :
    self.port (host ++ portText port ++ resource) = some (port.getD 80) := by
  unfold Pointers.port
  cases port with
  | none => rw [hcolon]; rfl
  | some n =>
    obtain ⟨hpos, hle⟩ := hport n rfl
    have hdrop : (host ++ portText (some n) ++ resource).drop (host.length + 1) =
        decimal n ++ resource := by
      rw [List.append_assoc, ← List.drop_drop, List.drop_left]
      rfl
    have hlen : (host ++ portText (some n)).length - host.length - 1 = (decimal n).length := by
      rw [List.length_append, portText, List.length_cons]
      omega
    rw [hcolon, hresource]
    simp only [Option.map_some]
    rw [hdrop, hlen, nnPortResolve_decimal hpos hle]
    rfl

theorem length_portText (hport : ∀ n ∈ port, 1 ≤ n ∧ n ≤ 65535) : (portText port).length ≤ 6 := by
  cases port with
  | none => exact Nat.zero_le _
  | some n => exact Nat.succ_le_succ (length_decimal (hport n rfl).2)

/-- An address whose resource holds no separator but slashes is taken apart as it should be. -/
theorem yields_of_plain (hhost : nnDnsCheckHostname host host.length = true)
    (hport : ∀ n ∈ port, 1 ≤ n ∧ n ≤ 65535) (hres : resource = [] ∨ ∃ r, resource = 0x2F :: r)
    (hcolon : 0x3A ∉ resource) (hsemicolon : 0x3B ∉ resource) :
    Yields inetPton ipv4only (host ++ portText port ++ resource) host (port.getD 80)
      (host ++ portText port) resource := by
  have hname := hostName_of_check hhost
  have hlen := length_portText hport
  have hle := hname.length_le
  have hnone : strchr (host ++ portText port ++ resource) 0x3B = none := by
    refine strchr_of_not_mem ?_
    rw [List.mem_append, List.mem_append, not_or, not_or]
    exact ⟨⟨hname.semicolon, not_mem_portText (by decide)⟩, hsemicolon⟩
  have hparse := @parse_eq _ _ port hname hres hcolon _ hnone
  have hvalid : nnDnsCheckHostname (host ++ portText port ++ resource) host.length = true := by
    rwa [List.append_assoc, nnDnsCheckHostname_append]
  refine ⟨{ resource := if resource = [] then ascii "/" else resource,
            remoteHost := host ++ portText port
            nic := ascii "*", remotePort := port.getD 80, remoteHostnameLen := host.length }, ?_,
              ?_, rfl, rfl, rfl⟩
  · unfold nnCwsCreate
    rw [hparse, Option.map_none, Option.getD_none, sizeDiff_zero (by omega)]
    dsimp only
    rw [port_eq hport rfl rfl, sizeDiff_zero (by rw [List.length_append]; omega),
      List.drop_zero, hvalid]
    have hend : (host ++ portText port).length = (host ++ portText port ++ resource).length ↔
        resource = [] := by
      rw [@List.length_append _ _ resource, Nat.left_eq_add, List.length_eq_zero_iff]
    simp only [hend, List.drop_left, List.take_left]
    rfl
  · exact List.take_left

/-- What a success says of the address. -/
theorem of_create_ok {addr : List UInt8} {self : Cws}
    (h : nnCwsCreate inetPton ipv4only addr = .ok self) :
    (nnDnsCheckHostname (addr.drop (Pointers.parse addr).hostname)
      (Pointers.parse addr).remoteHostnameLen = true ∨ nnLiteralResolve inetPton addr
      (Pointers.parse addr).hostname (Pointers.parse addr).remoteHostnameLen ipv4only = true) ∧
    self.resource = if (Pointers.parse addr).resource = addr.length then ascii "/"
      else addr.drop (Pointers.parse addr).resource := by
  unfold nnCwsCreate at h
  dsimp only at h
  cases hport : (Pointers.parse addr).port addr with
  | none =>
    rw [hport] at h
    cases h
  | some n =>
    rw [hport] at h
    dsimp only at h
    have hcheck :
        ¬ (¬ nnDnsCheckHostname (addr.drop (Pointers.parse addr).hostname)
          (Pointers.parse addr).remoteHostnameLen = true ∧
        ¬ nnLiteralResolve inetPton addr (Pointers.parse addr).hostname
          (Pointers.parse addr).remoteHostnameLen ipv4only = true) := by
      intro hc
      rw [if_pos hc] at h
      cases h
    rw [if_neg hcheck] at h
    cases hnic : (Pointers.parse addr).nic inetPton addr ipv4only with
    | none =>
      rw [hnic] at h
      cases h
    | some nic =>
      rw [hnic] at h
      cases h
      exact ⟨by tauto, rfl⟩

/-- A length below zero is no length of a host name. -/
theorem check_of_negative {buf name : List UInt8} {n pos : ℕ} (h : 2 ^ 62 ≤ n)
    (hlt : n + 1 < 2 ^ 64) :
    ¬ (nnDnsCheckHostname name n = true ∨ nnLiteralResolve inetPton buf pos n ipv4only = true) := by
  have hdns : nnDnsCheckHostname name n = false := if_pos (by omega)
  have hliteral : nnLiteralResolve inetPton buf pos n ipv4only = false := by
    unfold nnLiteralResolve
    split_ifs
    · rfl
    · rfl
    · omega
    · rfl
    · omega
  rw [hdns, hliteral]
  decide

/-- A resource does not begin with another separator. -/
theorem length_pos_of_eq {c : UInt8} {x y : List UInt8}
    (hres : resource = [] ∨ ∃ r, resource = 0x2F :: r) (h : resource = x ++ c :: y)
    (hc : c ≠ 0x2F) : 1 ≤ x.length := by
  cases x with
  | cons => exact Nat.succ_pos _
  | nil =>
    rcases hres with rfl | ⟨r, rfl⟩
    · cases h
    · exact absurd (List.cons.inj h).1.symm hc

/-- With a semicolon in the resource the host name begins behind its end. -/
theorem not_yields_of_semicolon (hhost : HostName host) (hport : ∀ n ∈ port, 1 ≤ n ∧ n ≤ 65535)
    (hres : resource = [] ∨ ∃ r, resource = 0x2F :: r) (hlen : resource.length < 2 ^ 63)
    (hcolon : 0x3A ∉ resource) (hsemicolon : 0x3B ∈ resource) {name text : List UInt8} {n : ℕ} :
    ¬ Yields inetPton ipv4only (host ++ portText port ++ resource) name n text resource := by
  obtain ⟨x, y, heq, hx⟩ := List.eq_append_cons_of_mem hsemicolon
  have hpos := length_pos_of_eq hres heq (by decide)
  have hlt : x.length < resource.length := by
    rw [heq, List.length_append, List.length_cons]
    omega
  have hport' := length_portText hport
  have hle := hhost.length_le
  have hsome : strchr (host ++ portText port ++ resource) 0x3B =
      some (host ++ portText port ++ x).length := by
    rw [heq, ← List.append_assoc]
    refine strchr_append ?_ y
    rw [List.mem_append, List.mem_append, not_or, not_or]
    exact ⟨⟨hhost.semicolon, not_mem_portText (by decide)⟩, hx⟩
  rintro ⟨self, hself, -⟩
  obtain ⟨hcheck, -⟩ := of_create_ok hself
  rw [@parse_eq _ _ port hhost hres hcolon _ hsome, Option.map_some, Option.getD_some] at hcheck
  have hneg : sizeDiff host.length ((host ++ portText port ++ x).length + 1) =
      2 ^ 64 - ((portText port).length + x.length + 1) := by
    rw [List.length_append, List.length_append]
    unfold sizeDiff
    omega
  refine check_of_negative ?_ ?_ hcheck
  · dsimp only
    omega
  · dsimp only
    omega

/-- The resource begins behind the last colon. -/
theorem le_resource {addr : List UInt8} {colon : ℕ} (h : strrchr addr 0x3A = some colon)
    (hle : colon ≤ addr.length) :
    colon ≤ (Pointers.parse addr).resource := by
  unfold Pointers.parse
  rw [h]
  dsimp only
  cases strchr (addr.drop colon) 0x2F with
  | none => exact hle
  | some k => exact Nat.le_add_right _ _

/-- With a colon in the resource only what is behind it is kept. -/
theorem not_yields_of_colon {front : List UInt8} (hres : resource = [] ∨ ∃ r, resource = 0x2F :: r)
    (hcolon : 0x3A ∈ resource) {name text : List UInt8} {n : ℕ} :
    ¬ Yields inetPton ipv4only (front ++ resource) name n text resource := by
  obtain ⟨x, y, heq, hy⟩ := exists_last hcolon
  have hpos := length_pos_of_eq hres heq (by decide)
  have hsome : strrchr (front ++ resource) 0x3A = some (front ++ x).length := by
    rw [heq, ← List.append_assoc]
    exact strrchr_append _ hy
  have hlen : (front ++ resource).length = (front ++ x).length + y.length + 1 := by
    rw [heq]
    simp only [List.length_append, List.length_cons]
    omega
  have hlen' : resource.length = x.length + y.length + 1 := by
    rw [heq]
    simp only [List.length_append, List.length_cons]
    omega
  have hle := le_resource hsome (by omega)
  rintro ⟨self, hself, -, -, -, hresource⟩
  rw [(of_create_ok hself).2, if_neg (List.ne_nil_of_mem hcolon)] at hresource
  have := congrArg List.length hresource
  split_ifs at this
  · rw [show (ascii "/").length = 1 from rfl] at this
    omega
  · rw [List.length_drop] at this
    omega

end Address

/-- An address of a host, possibly a port and a resource is taken apart as it was put together
exactly if there is no `':'` and no `';'` in the resource. -/
theorem create_yields_iff (inetPton : Family → List UInt8 → Bool) (ipv4only : Bool)
    {host resource : List UInt8} {port : Option ℕ}
    (hhost : nnDnsCheckHostname host host.length = true) (hport : ∀ n ∈ port, 1 ≤ n ∧ n ≤ 65535)
    (hres : resource = [] ∨ ∃ r, resource = 0x2F :: r) (hlen : resource.length < 2 ^ 63) :
    Yields inetPton ipv4only (host ++ portText port ++ resource) host (port.getD 80)
      (host ++ portText port) resource ↔ 0x3A ∉ resource ∧ 0x3B ∉ resource := by
  constructor
  · intro hyields
    have hcolon : 0x3A ∉ resource := fun hmem => not_yields_of_colon hres hmem hyields
    exact ⟨hcolon, fun hmem => not_yields_of_semicolon (hostName_of_check hhost) hport hres hlen
      hcolon hmem hyields⟩
  · rintro ⟨hcolon, hsemicolon⟩
    exact yields_of_plain hhost hport hres hcolon hsemicolon

/-- A plain resource. -/
theorem create_yields_iff_chat :
    Yields (fun _ _ => false) true (ascii "localhost" ++ portText (some 5555) ++ ascii "/chat")
      (ascii "localhost") 5555
      (ascii "localhost" ++ portText (some 5555)) (ascii "/chat") :=
  (create_yields_iff (fun _ _ => false) true
    (show nnDnsCheckHostname (ascii "localhost") (ascii "localhost").length = true by decide)
    (show ∀ n ∈ (some 5555 : Option ℕ), 1 ≤ n ∧ n ≤ 65535 by decide)
    (show ascii "/chat" = [] ∨ ∃ r, ascii "/chat" = 0x2F :: r from Or.inr ⟨_, rfl⟩)
      (by decide)).2 (by decide)

/-- The colon of a resource is taken for the one in front of the port. -/
theorem colon_in_resource :
    ¬ Yields (fun _ _ => false) true (ascii "localhost:5555/room:1")
      (ascii "localhost") 5555 (ascii "localhost:5555")
      (ascii "/room:1") := by
  rintro ⟨self, hself, -⟩
  have herror : nnCwsCreate (fun _ _ => false) true (ascii "localhost:5555/room:1") =
      .error .einval := by decide
  cases herror.symm.trans hself

end NanoSocket.Ws.Connect

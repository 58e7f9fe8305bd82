/-
**The SOCKS5 inbound of `socks5.rs`.**

A local application greets, names the methods it knows and asks for a connection to a target.  The
dialogue is a function of the bytes the application sends: `ending` is what a read reports when they
run out, the end of the stream or an error of the system.  What the client writes back is part of the
result, so that a refusal can be told from a silent failure.

Main definitions:

* `Nextppp.Socks5.readExact`, `Nextppp.Socks5.readAddr` — the target, read field by field off the
  stream;
* `Nextppp.Socks5.negotiate`, `Nextppp.Socks5.readConnect` — the dialogue.

Main results:

* `Nextppp.Socks5.readAddr_eq_ok` — a target is read exactly off its encoding, whatever follows;
* `Nextppp.Socks5.addresses_agree` — the reader here, the encoder, and the decoder at the server agree
  on every byte string;
* `Nextppp.Socks5.readConnect_eq_ok` — the dialogues that lead to a connection.
-/

import Nextppp.Mux.Addr

set_option relaxedAutoImplicit false
set_option autoImplicit false

namespace Nextppp

namespace Socks5

/-! ### Constants and errors -/

/-- Protocol version. -/
def ver : UInt8 := 0x05

/-- The only method offered. -/
def methodNoAuth : UInt8 := 0x00

/-- The answer to a greeting without it. -/
def methodNoneAcceptable : UInt8 := 0xff

/-- The only command served. -/
def cmdConnect : UInt8 := 0x01

/-- Reply code: the connection is there. -/
def repSucceeded : UInt8 := 0x00

/-- Reply code: general failure. -/
def repGeneral : UInt8 := 0x01

/-- Reply code: command not supported. -/
def repCmdUnsupported : UInt8 := 0x07

/-- Reply code: address type not supported. -/
def repAtypUnsupported : UInt8 := 0x08

/-- Errors of the stream, and of what it said. -/
inductive ReadError
  | unexpectedEof
  | os (code : ℕ)
  | invalidData (msg : String)
  deriving DecidableEq, Repr

/-- Errors of the dialogue: an error of the stream with its context, or a request that is not
served. -/
inductive ConnectError
  | io (context : String) (e : ReadError)
  | refused (msg : String)
  deriving DecidableEq, Repr

/-- A byte as the format `#04x` prints it. -/
def hexByte (b : UInt8) : String :=
  "0x" ++ String.ofList [Nat.digitChar (b.toNat / 16), Nat.digitChar (b.toNat % 16)]

/-! ### Reading the target -/

/-- Take exactly `n` bytes off the stream. -/
def readExact (ending : ReadError) (n : ℕ) (stream : List UInt8) :
    Except ReadError (List UInt8 × List UInt8) :=
  if stream.length < n then .error ending else .ok (stream.take n, stream.drop n)

/-- Whether the bytes are UTF-8. -/
def isUtf8 (bytes : List UInt8) : Bool := (ByteArray.mk bytes.toArray).validateUTF8

/-- The domain name behind its length byte. -/
def readDomain (ending : ReadError) (stream : List UInt8) : Except ReadError (Host × List UInt8) :=
  match readExact ending 1 stream with
  | .error e => .error e
  | .ok (len, stream) =>
      if len.getD 0 0 = 0 then .error (.invalidData "empty domain")
      else
        match readExact ending (len.getD 0 0).toNat stream with
        | .error e => .error e
        | .ok (name, stream) =>
            if ¬isUtf8 name then .error (.invalidData "domain is not utf-8")
            else if name.any fun b => b < 0x21 ∨ 0x7e < b then
              .error (.invalidData "invalid domain characters")
            else .ok (.domain name, stream)

/-- The host behind an address type. -/
def readHost (ending : ReadError) (atyp : UInt8) (stream : List UInt8) :
    Except ReadError (Host × List UInt8) :=
  if atyp = atypIpv4 then (readExact ending 4 stream).map fun r => (.ipv4 r.1, r.2)
  else if atyp = atypIpv6 then (readExact ending 16 stream).map fun r => (.ipv6 r.1, r.2)
  else if atyp = atypDomain then readDomain ending stream
  else .error (.invalidData ("unsupported ATYP " ++ hexByte atyp))

/-- The target of a request, and the stream behind it. -/
def readAddr (ending : ReadError) (atyp : UInt8) (stream : List UInt8) :
    Except ReadError (ProxyAddr × List UInt8) :=
  match readHost ending atyp stream with
  | .error e => .error e
  | .ok (host, stream) =>
      match readExact ending 2 stream with
      | .error e => .error e
      | .ok (port, stream) =>
          .ok (⟨host, UInt16.ofNat ((port.getD 0 0).toNat * 256 + (port.getD 1 0).toNat)⟩, stream)

/-- What is read is what stands at the front of the stream. -/
theorem readExact_eq_ok {ending : ReadError} {n : ℕ} {stream bytes rest : List UInt8} :
    readExact ending n stream = .ok (bytes, rest) ↔ bytes.length = n ∧ stream = bytes ++ rest := by
  unfold readExact
  constructor
  · intro h
    split at h
    · cases h
    · cases h
      exact ⟨by rw [List.length_take]; omega, (List.take_append_drop n stream).symm⟩
  · rintro ⟨rfl, rfl⟩
    rw [if_neg (by simp)]
    simp

/-- Printable ASCII is UTF-8, so the first check on a name never refuses what the second accepts. -/
theorem isUtf8_of_printable {name : List UInt8} (h : ∀ b ∈ name, printable b) :
    isUtf8 name = true := by
  rw [isUtf8, ByteArray.validateUTF8_eq_true_iff]
  induction name using List.reverseRecOn with
  | nil => exact ByteArray.isValidUTF8_empty
  | append_singleton name b ih =>
      have hb : b ≤ 0x7e := UInt8.not_lt.1 fun hlt => h b (by simp) (.inr hlt)
      have hsize : (Char.ofUInt8 b).utf8Size = 1 := by
        rw [Char.utf8Size_eq_one_iff, UInt32.le_iff_toNat_le]
        have hle : b.toNat ≤ 126 := UInt8.le_iff_toNat_le.1 hb
        have hval : (Char.ofUInt8 b).val.toNat = b.toNat := by
          simp [Char.ofUInt8]
        rw [hval]
        exact hle.trans (by decide)
      have hpush := (ih fun c hc => h c (by simp [hc])).push hsize
      have hbyte : (Char.ofUInt8 b).toUInt8 = b := by
        simp [Char.ofUInt8, Char.toUInt8]
      rw [hbyte] at hpush
      have harr : (ByteArray.mk (name ++ [b]).toArray) = (ByteArray.mk name.toArray).push b := by
        simp [ByteArray.push]
      rwa [harr]

/-- The octets of an address are at the front of the stream. -/
theorem readExact_map_eq_ok {ending : ReadError} {n : ℕ} {stream rest : List UInt8}
    {c : List UInt8 → Host} {host : Host} :
    ((readExact ending n stream).map fun r => (c r.1, r.2)) = .ok (host, rest) ↔
      ∃ octets, host = c octets ∧ octets.length = n ∧ stream = octets ++ rest := by
  cases hr : readExact ending n stream with
  | error e =>
      constructor
      · intro h
        cases h
      · rintro ⟨octets, -, hok⟩
        rw [readExact_eq_ok.2 hok] at hr
        cases hr
  | ok r =>
      obtain ⟨octets, tail⟩ := r
      obtain ⟨hlen, hstream⟩ := readExact_eq_ok.1 hr
      constructor
      · intro h
        cases h
        exact ⟨octets, rfl, hlen, hstream⟩
      · rintro ⟨octets', rfl, hok⟩
        rw [readExact_eq_ok.2 hok] at hr
        cases hr
        rfl

theorem readDomain_eq_ok {ending : ReadError} {stream rest : List UInt8} {host : Host} :
    readDomain ending stream = .ok (host, rest) ↔
      ∃ d, host = .domain d ∧ host.Valid ∧ stream = host.body ++ rest := by
  constructor
  · intro h
    cases hlen : readExact ending 1 stream with
    | error e =>
        rw [readDomain, hlen] at h
        cases h
    | ok r =>
        obtain ⟨lenBytes, tail⟩ := r
        obtain ⟨hone, rfl⟩ := readExact_eq_ok.1 hlen
        obtain ⟨len, rfl⟩ := List.length_eq_one_iff.1 hone
        simp only [readDomain, hlen, List.getD_cons_zero] at h
        split at h
        · cases h
        · rename_i hne
          cases hname : readExact ending len.toNat tail with
          | error e =>
              rw [hname] at h
              cases h
          | ok r =>
              obtain ⟨name, after⟩ := r
              obtain ⟨hnlen, rfl⟩ := readExact_eq_ok.1 hname
              simp only [hname] at h
              split at h
              · cases h
              · split at h
                · cases h
                · rename_i hany
                  cases h
                  have hlt := len.toNat_lt
                  have hpos : len.toNat ≠ 0 := fun hz => hne (UInt8.toNat.inj hz)
                  refine ⟨name, rfl, ⟨by omega, by omega, by simpa [printable] using hany⟩, ?_⟩
                  rw [Host.body, hnlen, UInt8.ofNat_toNat]
                  rfl
  · rintro ⟨d, rfl, ⟨hpos, hle, hall⟩, rfl⟩
    have hlen : (UInt8.ofNat d.length).toNat = d.length :=
      UInt8.toNat_ofNat_of_lt' (by simp only [UInt8.size]; omega)
    have hne : ¬UInt8.ofNat d.length = 0 := by
      intro hz
      rw [hz] at hlen
      have : d.length = 0 := hlen.symm
      omega
    have hany : ¬(d.any fun b => b < 0x21 ∨ 0x7e < b) := by simpa [printable] using hall
    have hfirst : readExact ending 1 ((Host.domain d).body ++ rest) =
        .ok ([UInt8.ofNat d.length], d ++ rest) := readExact_eq_ok.2 ⟨rfl, rfl⟩
    have hsecond : readExact ending d.length (d ++ rest) = .ok (d, rest) :=
      readExact_eq_ok.2 ⟨rfl, rfl⟩
    simp only [readDomain, hfirst, List.getD_cons_zero, hlen, hsecond, isUtf8_of_printable hall]
    rw [if_neg hne, if_neg (by simp), if_neg hany]

/-- A host is read exactly when the stream starts with the bytes of a valid one. -/
theorem readHost_eq_ok {ending : ReadError} {atyp : UInt8} {stream rest : List UInt8} {host : Host} :
    readHost ending atyp stream = .ok (host, rest) ↔
      host.Valid ∧ atyp = host.atyp ∧ stream = host.body ++ rest := by
  constructor
  · intro h
    unfold readHost at h
    split at h
    · rename_i hatyp
      obtain ⟨octets, rfl, hlen, hstream⟩ := readExact_map_eq_ok.1 h
      exact ⟨hlen, hatyp, hstream⟩
    · split at h
      · rename_i hatyp
        obtain ⟨octets, rfl, hlen, hstream⟩ := readExact_map_eq_ok.1 h
        exact ⟨hlen, hatyp, hstream⟩
      · split at h
        · rename_i hatyp
          obtain ⟨d, rfl, hvalid, hstream⟩ := readDomain_eq_ok.1 h
          exact ⟨hvalid, hatyp, hstream⟩
        · cases h
  · rintro ⟨hvalid, rfl, hstream⟩
    cases host with
    | domain d =>
        change readHost ending atypDomain stream = _
        rw [readHost, if_neg (by decide), if_neg (by decide), if_pos rfl]
        exact readDomain_eq_ok.2 ⟨d, rfl, hvalid, hstream⟩
    | ipv4 octets =>
        change readHost ending atypIpv4 stream = _
        rw [readHost, if_pos rfl]
        exact readExact_map_eq_ok.2 ⟨octets, rfl, hvalid, hstream⟩
    | ipv6 octets =>
        change readHost ending atypIpv6 stream = _
        rw [readHost, if_neg (by decide), if_pos rfl]
        exact readExact_map_eq_ok.2 ⟨octets, rfl, hvalid, hstream⟩

/-- A target is read exactly off its encoding, whatever follows it. -/
theorem readAddr_eq_ok {ending : ReadError} {atyp : UInt8} {stream rest : List UInt8}
    {addr : ProxyAddr} :
    readAddr ending atyp stream = .ok (addr, rest) ↔
      addr.host.Valid ∧ atyp :: stream = addr.encode ++ rest := by
  constructor
  · intro h
    cases hhost : readHost ending atyp stream with
    | error e =>
        rw [readAddr, hhost] at h
        cases h
    | ok r =>
        obtain ⟨host, after⟩ := r
        obtain ⟨hvalid, rfl, rfl⟩ := readHost_eq_ok.1 hhost
        simp only [readAddr, hhost] at h
        cases hport : readExact ending 2 after with
        | error e =>
            rw [hport] at h
            cases h
        | ok r =>
            obtain ⟨port, tail⟩ := r
            obtain ⟨htwo, rfl⟩ := readExact_eq_ok.1 hport
            obtain ⟨hi, lo, rfl⟩ := List.length_eq_two.1 htwo
            simp only [hport, List.getD_cons_zero, List.getD_cons_succ] at h
            cases h
            refine ⟨hvalid, ?_⟩
            rw [ProxyAddr.encode_eq hvalid, ← ProxyAddr.portBytes_eq.1 rfl]
            simp
  · rintro ⟨hvalid, h⟩
    obtain ⟨hi, lo, hport⟩ : ∃ hi lo, ProxyAddr.portBytes addr.port = [hi, lo] := ⟨_, _, rfl⟩
    rw [ProxyAddr.encode_eq hvalid, hport, List.cons_append, List.append_assoc] at h
    obtain ⟨rfl, rfl⟩ := List.cons_eq_cons.1 h
    have hhost : readHost ending addr.host.atyp (addr.host.body ++ ([hi, lo] ++ rest)) =
        .ok (addr.host, [hi, lo] ++ rest) := readHost_eq_ok.2 ⟨hvalid, rfl, rfl⟩
    have htwo : readExact ending 2 ([hi, lo] ++ rest) = .ok ([hi, lo], rest) :=
      readExact_eq_ok.2 ⟨rfl, rfl⟩
    simp only [readAddr, hhost, htwo, List.getD_cons_zero, List.getD_cons_succ]
    rw [← ProxyAddr.portBytes_eq.2 hport.symm]

/-- The reader at the client, the encoder, and the decoder at the server agree: the reader takes the
first `n` bytes for a target exactly when the decoder does, every target it yields survives the way
to the server, and a target has one encoding only. -/
theorem addresses_agree :
    (∀ (ending : ReadError) (atyp : UInt8) (rest : List UInt8) (n : ℕ) (addr : ProxyAddr),
      n ≤ rest.length →
      (readAddr ending atyp rest = .ok (addr, rest.drop n) ↔
        ProxyAddr.decode (atyp :: rest.take n) = .ok addr)) ∧
    (∀ (ending : ReadError) (atyp : UInt8) (rest after : List UInt8) (addr : ProxyAddr),
      readAddr ending atyp rest = .ok (addr, after) →
      ProxyAddr.decode addr.encode = .ok addr ∧ ∃ n, n ≤ rest.length ∧ after = rest.drop n) ∧
    ∀ (buf : List UInt8) (addr : ProxyAddr), ProxyAddr.decode buf = .ok addr → addr.encode = buf := by
  refine ⟨?_, ?_, ?_⟩
  · intro ending atyp rest n addr hn
    have hsplit : atyp :: rest = atyp :: rest.take n ++ rest.drop n := by
      rw [List.cons_append, List.take_append_drop]
    rw [readAddr_eq_ok, ProxyAddr.decode_eq_ok, hsplit, List.append_cancel_right_eq]
  · intro ending atyp rest after addr h
    obtain ⟨hvalid, hstream⟩ := readAddr_eq_ok.1 h
    refine ⟨ProxyAddr.decode_eq_ok.2 ⟨hvalid, rfl⟩,
      (addr.host.body ++ ProxyAddr.portBytes addr.port).length, ?_⟩
    rw [ProxyAddr.encode_eq hvalid, List.cons_append] at hstream
    obtain ⟨-, rfl⟩ := List.cons_eq_cons.1 hstream
    exact ⟨by simp, List.drop_left.symm⟩
  · intro buf addr h
    exact (ProxyAddr.decode_eq_ok.1 h).2.symm

/-- A domain name of two characters, with two bytes behind the request. -/
theorem addresses_agree_domain :
    readAddr .unexpectedEof 3 [2, 97, 98, 1, 187, 22, 3] = .ok (⟨.domain [97, 98], 443⟩, [22, 3]) ∧
      ProxyAddr.decode (ProxyAddr.encode ⟨.domain [97, 98], 443⟩) = .ok ⟨.domain [97, 98], 443⟩ ∧
      ProxyAddr.encode ⟨.domain [97, 98], 443⟩ = [3, 2, 97, 98, 1, 187] := by
  have hread : readAddr .unexpectedEof 3 [2, 97, 98, 1, 187, 22, 3] =
      .ok (⟨.domain [97, 98], 443⟩, [22, 3]) :=
    (addresses_agree.1 .unexpectedEof 3 [2, 97, 98, 1, 187, 22, 3] 5 ⟨.domain [97, 98], 443⟩
      (by decide)).2 (by decide)
  exact ⟨hread, (addresses_agree.2.1 _ _ _ _ _ hread).1, addresses_agree.2.2 _ _ (by decide)⟩

/-! ### The dialogue -/

/-- A minimal reply. -/
def reply (rep : UInt8) : List UInt8 := [ver, rep, 0x00, atypIpv4, 0, 0, 0, 0, 0, 0]

/-- The greeting: what is written, and the stream behind it.  `sent` is the outcome of writing the
method that was chosen; the refusal is written whatever comes of it. -/
def negotiate (ending : ReadError) (sent : Except ReadError Unit) (stream : List UInt8) :
    List UInt8 × Except ReadError (List UInt8) :=
  match readExact ending 2 stream with
  | .error e => ([], .error e)
  | .ok (verNmethods, stream) =>
      if verNmethods.getD 0 0 ≠ ver then
        ([], .error (.invalidData ("bad SOCKS version " ++ hexByte (verNmethods.getD 0 0))))
      else
        match readExact ending (verNmethods.getD 1 0).toNat stream with
        | .error e => ([], .error e)
        | .ok (methods, stream) =>
            if methodNoAuth ∉ methods then
              ([ver, methodNoneAcceptable],
                .error (.invalidData "client offered no acceptable auth method"))
            else
              match sent with
              | .error e => ([], .error e)
              | .ok () => ([ver, methodNoAuth], .ok stream)

/-- The reply code for a target that could not be read. -/
def addrReply : ReadError → UInt8
  | .invalidData _ => repAtypUnsupported
  | _ => repGeneral

/-- The request behind the greeting: what is written, and the target with the stream behind it. -/
def readRequest (ending : ReadError) (stream : List UInt8) :
    List UInt8 × Except ConnectError (ProxyAddr × List UInt8) :=
  match readExact ending 4 stream with
  | .error e => ([], .error (.io "read request head" e))
  | .ok (head, stream) =>
      if head.getD 0 0 ≠ ver then
        ([], .error (.refused ("bad SOCKS version " ++ hexByte (head.getD 0 0))))
      else if head.getD 1 0 ≠ cmdConnect then
        (reply repCmdUnsupported, .error (.refused ("unsupported command " ++ hexByte (head.getD 1 0))))
      else if head.getD 2 0 ≠ 0 then
        (reply repGeneral, .error (.refused ("non-zero reserved byte " ++ hexByte (head.getD 2 0))))
      else
        match readAddr ending (head.getD 3 0) stream with
        | .ok r => ([], .ok r)
        | .error e => (reply (addrReply e), .error (.io "read request address" e))

/-- Method negotiation and request. -/
def readConnect (ending : ReadError) (sent : Except ReadError Unit) (stream : List UInt8) :
    List UInt8 × Except ConnectError (ProxyAddr × List UInt8) :=
  match negotiate ending sent stream with
  | (out, .error e) => (out, .error (.io "greeting" e))
  | (out, .ok stream) => (out ++ (readRequest ending stream).1, (readRequest ending stream).2)

/-- A greeting is accepted exactly when it offers the method without authentication. -/
theorem negotiate_eq_ok {ending : ReadError} {sent : Except ReadError Unit}
    {stream out rest : List UInt8} :
    negotiate ending sent stream = (out, .ok rest) ↔
      out = [ver, methodNoAuth] ∧ sent = .ok () ∧ ∃ (n : UInt8) (methods : List UInt8),
        methods.length = n.toNat ∧ methodNoAuth ∈ methods ∧
          stream = ver :: n :: (methods ++ rest) := by
  constructor
  · intro h
    unfold negotiate at h
    split at h
    · cases h
    · rename_i head tail hhead
      obtain ⟨htwo, rfl⟩ := readExact_eq_ok.1 hhead
      obtain ⟨v, n, rfl⟩ := List.length_eq_two.1 htwo
      simp only [List.getD_cons_zero, List.getD_cons_succ] at h
      split at h
      · cases h
      · rename_i hver
        split at h
        · cases h
        · rename_i methods after hmethods
          obtain ⟨hlen, rfl⟩ := readExact_eq_ok.1 hmethods
          split at h
          · cases h
          · rename_i hmem
            split at h
            · cases h
            · cases h
              rw [not_not] at hver hmem
              exact ⟨rfl, rfl, n, methods, hlen, hmem, by rw [hver]; rfl⟩
  · rintro ⟨rfl, rfl, n, methods, hlen, hmem, rfl⟩
    have hhead : readExact ending 2 (ver :: n :: (methods ++ rest)) = .ok ([ver, n], methods ++ rest) :=
      readExact_eq_ok.2 ⟨rfl, rfl⟩
    have hmethods : readExact ending n.toNat (methods ++ rest) = .ok (methods, rest) :=
      readExact_eq_ok.2 ⟨hlen, rfl⟩
    simp [negotiate, hhead, hmethods, hmem]

/-- A request is accepted exactly when it asks for a connection to a valid target. -/
theorem readRequest_eq_ok {ending : ReadError} {stream out rest : List UInt8} {addr : ProxyAddr} :
    readRequest ending stream = (out, .ok (addr, rest)) ↔
      out = [] ∧ addr.host.Valid ∧ stream = ver :: cmdConnect :: 0 :: (addr.encode ++ rest) := by
  constructor
  · intro h
    unfold readRequest at h
    split at h
    · cases h
    · rename_i head tail hhead
      obtain ⟨hfour, rfl⟩ := readExact_eq_ok.1 hhead
      match head, hfour with
      | [v, cmd, rsv, atyp], _ =>
        simp only [List.getD_cons_zero, List.getD_cons_succ] at h
        split at h
        · cases h
        · rename_i hver
          split at h
          · cases h
          · rename_i hcmd
            split at h
            · cases h
            · rename_i hrsv
              split at h
              · rename_i r haddr
                cases h
                obtain ⟨hvalid, hstream⟩ := readAddr_eq_ok.1 haddr
                rw [not_not] at hver hcmd hrsv
                rw [← hstream, hver, hcmd, hrsv]
                exact ⟨rfl, hvalid, rfl⟩
              · cases h
  · rintro ⟨rfl, hvalid, rfl⟩
    have haddr := ProxyAddr.encode_eq hvalid
    have hhead : readExact ending 4 (ver :: cmdConnect :: 0 :: (addr.encode ++ rest)) =
        .ok ([ver, cmdConnect, 0, addr.host.atyp],
          addr.host.body ++ ProxyAddr.portBytes addr.port ++ rest) := by
      refine readExact_eq_ok.2 ⟨rfl, ?_⟩
      rw [haddr]
      rfl
    have hread : readAddr ending addr.host.atyp
        (addr.host.body ++ ProxyAddr.portBytes addr.port ++ rest) = .ok (addr, rest) := by
      refine readAddr_eq_ok.2 ⟨hvalid, ?_⟩
      rw [haddr]
      rfl
    rw [List.append_assoc] at hhead hread
    simp [readRequest, hhead, hread]

/-- The dialogues that lead to a connection: the target they ask for is valid, so the `OPEN` that
carries it is understood at the server. -/
theorem readConnect_eq_ok {ending : ReadError} {sent : Except ReadError Unit}
    {stream out rest : List UInt8} {addr : ProxyAddr} :
    readConnect ending sent stream = (out, .ok (addr, rest)) ↔
      out = [ver, methodNoAuth] ∧ sent = .ok () ∧ addr.host.Valid ∧
        ∃ (n : UInt8) (methods : List UInt8), methods.length = n.toNat ∧ methodNoAuth ∈ methods ∧
          stream = ver :: n :: (methods ++ ver :: cmdConnect :: 0 :: (addr.encode ++ rest)) := by
  constructor
  · intro h
    unfold readConnect at h
    split at h
    · cases h
    · rename_i out' tail hneg
      obtain ⟨hout, htail⟩ := Prod.mk.inj h
      obtain ⟨rfl, hsent, n, methods, hlen, hmem, rfl⟩ := negotiate_eq_ok.1 hneg
      obtain ⟨hnone, hvalid, rfl⟩ := readRequest_eq_ok.1 (Prod.ext rfl htail)
      refine ⟨?_, hsent, hvalid, n, methods, hlen, hmem, rfl⟩
      exact hout.symm.trans (congrArg ([ver, methodNoAuth] ++ ·) hnone)
  · rintro ⟨rfl, rfl, hvalid, n, methods, hlen, hmem, rfl⟩
    rw [readConnect, negotiate_eq_ok.2 ⟨rfl, rfl, n, methods, hlen, hmem, rfl⟩]
    dsimp only
    rw [readRequest_eq_ok.2 ⟨rfl, hvalid, rfl⟩, List.append_nil]

/-- What is written for a request that is not served. -/
theorem readRequest_error {ending : ReadError} {stream out : List UInt8} {e : ConnectError}
    (h : readRequest ending stream = (out, .error e)) :
    out = [] ∨ ∃ rep, rep ≠ repSucceeded ∧ out = reply rep := by
  unfold readRequest at h
  split at h
  · exact .inl (Prod.mk.inj h).1.symm
  · split at h
    · exact .inl (Prod.mk.inj h).1.symm
    · split at h
      · exact .inr ⟨repCmdUnsupported, by decide, (Prod.mk.inj h).1.symm⟩
      · split at h
        · exact .inr ⟨repGeneral, by decide, (Prod.mk.inj h).1.symm⟩
        · split at h
          · cases h
          · rename_i e' haddr
            refine .inr ⟨addrReply e', ?_, (Prod.mk.inj h).1.symm⟩
            cases e' <;> simp [addrReply, repGeneral, repAtypUnsupported, repSucceeded]

/-- What is written for a greeting that is not accepted. -/
theorem negotiate_error {ending : ReadError} {sent : Except ReadError Unit}
    {stream out : List UInt8} {e : ReadError} (h : negotiate ending sent stream = (out, .error e)) :
    out = [] ∨ out = [ver, methodNoneAcceptable] := by
  unfold negotiate at h
  split at h
  · exact .inl (Prod.mk.inj h).1.symm
  · split at h
    · exact .inl (Prod.mk.inj h).1.symm
    · split at h
      · exact .inl (Prod.mk.inj h).1.symm
      · split at h
        · exact .inr (Prod.mk.inj h).1.symm
        · split at h
          · exact .inl (Prod.mk.inj h).1.symm
          · cases h

/-- The dialogues that lead to no connection: the methods are refused, or there is at most one answer to
the request, and it does not tell of success. -/
theorem readConnect_error {ending : ReadError} {sent : Except ReadError Unit}
    {stream out : List UInt8} {e : ConnectError} (h : readConnect ending sent stream = (out, .error e)) :
    out <+: [ver, methodNoneAcceptable] ∨
      ∃ rep, rep ≠ repSucceeded ∧ out <+: [ver, methodNoAuth] ++ reply rep := by
  unfold readConnect at h
  split at h
  · rename_i out' e' hneg
    obtain rfl := (Prod.mk.inj h).1
    rcases negotiate_error hneg with rfl | rfl
    · exact .inl List.nil_prefix
    · exact .inl List.prefix_rfl
  · rename_i out' tail hneg
    obtain ⟨rfl, -⟩ := negotiate_eq_ok.1 hneg
    cases hreq : readRequest ending tail with
    | mk out₂ result =>
        rw [hreq] at h
        obtain ⟨rfl, rfl⟩ := Prod.mk.inj h
        rcases readRequest_error hreq with rfl | ⟨rep, hrep, rfl⟩
        · exact .inr ⟨repGeneral, by decide, List.prefix_append _ _⟩
        · exact .inr ⟨rep, hrep, List.prefix_rfl⟩

end Socks5

end Nextppp

/-
**Target addresses.**

The target of a stream travels in the payload of its `OPEN`: an address type, the address and a port in
network order, with nothing behind it.

Main definitions:

* `Nextppp.Host`, `Nextppp.ProxyAddr` — a target;
* `Nextppp.ProxyAddr.encode`, `Nextppp.ProxyAddr.decode` — the payload of an `OPEN`, written and read
  back;
* `Nextppp.Host.Valid` — the hosts that a request can name.

Main result:

* `Nextppp.ProxyAddr.decode_eq_ok` — what is decoded is exactly the encoding of a valid target.
-/

import Mathlib

set_option relaxedAutoImplicit false
set_option autoImplicit false

namespace Nextppp

/-- Address type byte of an IPv4 host. -/
def atypIpv4 : UInt8 := 0x01

/-- Address type byte of a domain name. -/
def atypDomain : UInt8 := 0x03

/-- Address type byte of an IPv6 host. -/
def atypIpv6 : UInt8 := 0x04

/-- A target host: the bytes of a domain name, or the octets of an address. -/
inductive Host
  | domain (name : List UInt8)
  | ipv4 (octets : List UInt8)
  | ipv6 (octets : List UInt8)
  deriving DecidableEq, Repr

/-- A proxy request target. -/
structure ProxyAddr where
  host : Host
  port : UInt16
  deriving DecidableEq, Repr

/-- Errors while decoding an address. -/
inductive AddrError
  | malformed
  deriving DecidableEq, Repr

namespace ProxyAddr

/-- Take `n` octets off the front. -/
def firstChunk (n : ℕ) (rest : List UInt8) : Except AddrError (List UInt8 × List UInt8) :=
  if rest.length < n then .error .malformed else .ok (rest.take n, rest.drop n)

/-- The host behind an address type.  A domain name is printable ASCII without blanks, which is UTF-8
in any case. -/
def decodeHost (atyp : UInt8) (rest : List UInt8) : Except AddrError (Host × List UInt8) :=
  if atyp = atypIpv4 then (firstChunk 4 rest).map fun r => (.ipv4 r.1, r.2)
  else if atyp = atypIpv6 then (firstChunk 16 rest).map fun r => (.ipv6 r.1, r.2)
  else if atyp = atypDomain then
    match rest with
    | [] => .error .malformed
    | len :: rest =>
        if rest.length < len.toNat ∨ len = 0 then .error .malformed
        else if (rest.take len.toNat).any fun b => b < 0x21 ∨ 0x7e < b then .error .malformed
        else .ok (.domain (rest.take len.toNat), rest.drop len.toNat)
  else .error .malformed

/-- Decode an address that takes up the whole buffer. -/
def decode (buf : List UInt8) : Except AddrError ProxyAddr :=
  match buf with
  | [] => .error .malformed
  | atyp :: rest =>
      match decodeHost atyp rest with
      | .error e => .error e
      | .ok (host, [hi, lo]) => .ok ⟨host, UInt16.ofNat (hi.toNat * 256 + lo.toNat)⟩
      | .ok _ => .error .malformed

example : decode [3, 2, 97, 98, 1, 187] = .ok ⟨.domain [97, 98], 443⟩ := by decide

end ProxyAddr

/-! ### Encoding -/

namespace ProxyAddr

/-- The port in network order. -/
def portBytes (port : UInt16) : List UInt8 :=
  [UInt8.ofNat (port.toNat / 256), UInt8.ofNat (port.toNat % 256)]

/-- Append the encoding to a buffer.  A domain name is cut to the 255 bytes its length byte can say. -/
def encodeInto (addr : ProxyAddr) (out : List UInt8) : List UInt8 :=
  let out := match addr.host with
    | .domain d =>
        let len := min d.length 255
        out ++ [atypDomain] ++ [UInt8.ofNat len] ++ d.take len
    | .ipv4 octets => out ++ [atypIpv4] ++ octets
    | .ipv6 octets => out ++ [atypIpv6] ++ octets
  out ++ portBytes addr.port

/-- The encoding in a fresh buffer. -/
def encode (addr : ProxyAddr) : List UInt8 := addr.encodeInto []

end ProxyAddr

/-! ### What is decoded -/

/-- A byte that a domain name may hold. -/
def printable (b : UInt8) : Prop := ¬(b < 0x21 ∨ 0x7e < b)

namespace Host

/-- The hosts that a request can name: a domain name of 1 to 255 printable bytes, or an address of
the right width. -/
def Valid : Host → Prop
  | .domain d => 0 < d.length ∧ d.length ≤ 255 ∧ ∀ b ∈ d, printable b
  | .ipv4 octets => octets.length = 4
  | .ipv6 octets => octets.length = 16

/-- The address type of a host. -/
def atyp : Host → UInt8
  | .domain _ => atypDomain
  | .ipv4 _ => atypIpv4
  | .ipv6 _ => atypIpv6

/-- The bytes of a host behind its address type. -/
def body : Host → List UInt8
  | .domain d => UInt8.ofNat d.length :: d
  | .ipv4 octets => octets
  | .ipv6 octets => octets

end Host

namespace ProxyAddr

/-- The cap on the length does not bite on a host that can be named. -/
theorem encode_eq {addr : ProxyAddr} (h : addr.host.Valid) :
    addr.encode = addr.host.atyp :: (addr.host.body ++ portBytes addr.port) := by
  obtain ⟨host, port⟩ := addr
  cases host with
  | domain d =>
      have hmin : min d.length 255 = d.length := min_eq_left h.2.1
      simp [encode, encodeInto, Host.atyp, Host.body, hmin]
  | ipv4 octets => simp [encode, encodeInto, Host.atyp, Host.body]
  | ipv6 octets => simp [encode, encodeInto, Host.atyp, Host.body]

/-- The octets of an address are at the front of the buffer. -/
theorem firstChunk_map_eq_ok {n : ℕ} {rest after : List UInt8} {c : List UInt8 → Host} {host : Host} :
    ((firstChunk n rest).map fun r => (c r.1, r.2)) = .ok (host, after) ↔
      ∃ octets, host = c octets ∧ octets.length = n ∧ rest = octets ++ after := by
  unfold firstChunk
  constructor
  · intro h
    split at h
    · cases h
    · cases h
      exact ⟨rest.take n, rfl, by rw [List.length_take]; omega, (List.take_append_drop n rest).symm⟩
  · rintro ⟨octets, rfl, rfl, rfl⟩
    rw [if_neg (by simp)]
    simp [Except.map]

/-- The part of `decodeHost` behind a length byte. -/
theorem domain_eq {len : UInt8} {rest : List UInt8} {d after : List UInt8} :
    (len ≠ 0 ∧ len.toNat ≤ rest.length ∧ (∀ b ∈ rest.take len.toNat, printable b) ∧
        rest.take len.toNat = d ∧ rest.drop len.toNat = after) ↔
      (Host.domain d).Valid ∧ len :: rest = (Host.domain d).body ++ after := by
  simp only [Host.Valid, Host.body, List.cons_append, List.cons.injEq]
  constructor
  · rintro ⟨hne, hle, hall, rfl, rfl⟩
    have hlen : (rest.take len.toNat).length = len.toNat := by
      rw [List.length_take]
      omega
    have hpos : len.toNat ≠ 0 := fun h => hne (UInt8.toNat.inj h)
    have hlt := len.toNat_lt
    rw [hlen]
    exact ⟨⟨by omega, by omega, hall⟩, (UInt8.ofNat_toNat).symm, (List.take_append_drop _ _).symm⟩
  · rintro ⟨⟨hpos, hle, hall⟩, rfl, rfl⟩
    have hlen : (UInt8.ofNat d.length).toNat = d.length :=
      UInt8.toNat_ofNat_of_lt' (by simp only [UInt8.size]; omega)
    rw [hlen]
    refine ⟨fun h => ?_, by simp, by simpa using hall, by simp, by simp⟩
    rw [h] at hlen
    have : d.length = 0 := hlen.symm
    omega

/-- The decoder finds a host exactly when the buffer starts with the bytes of a valid one. -/
theorem decodeHost_eq_ok {atyp : UInt8} {rest after : List UInt8} {host : Host} :
    decodeHost atyp rest = .ok (host, after) ↔
      host.Valid ∧ atyp = host.atyp ∧ rest = host.body ++ after := by
  constructor
  · intro h
    unfold decodeHost at h
    split at h
    · rename_i hatyp
      obtain ⟨octets, rfl, hlen, hrest⟩ := firstChunk_map_eq_ok.1 h
      exact ⟨hlen, hatyp, hrest⟩
    · split at h
      · rename_i hatyp
        obtain ⟨octets, rfl, hlen, hrest⟩ := firstChunk_map_eq_ok.1 h
        exact ⟨hlen, hatyp, hrest⟩
      · split at h
        · rename_i hatyp
          cases rest with
          | nil => cases h
          | cons len rest =>
              dsimp only at h
              split at h
              · cases h
              · rename_i hlen
                split at h
                · cases h
                · rename_i hany
                  cases h
                  rw [not_or, not_lt] at hlen
                  have hall : ∀ b ∈ rest.take len.toNat, printable b := by
                    simpa [printable] using hany
                  obtain ⟨hvalid, hrest⟩ := domain_eq.1 ⟨hlen.2, hlen.1, hall, rfl, rfl⟩
                  exact ⟨hvalid, hatyp, hrest⟩
        · cases h
  · rintro ⟨hvalid, rfl, hrest⟩
    cases host with
    | domain d =>
        obtain ⟨len, rest, rfl⟩ : ∃ len r, rest = len :: r := ⟨_, _, hrest⟩
        obtain ⟨hne, hle, hall, rfl, rfl⟩ := domain_eq.2 ⟨hvalid, hrest⟩
        have hany : ¬((rest.take len.toNat).any fun b => b < 0x21 ∨ 0x7e < b) := by
          simpa [printable] using hall
        change decodeHost atypDomain _ = _
        unfold decodeHost
        rw [if_neg (by decide), if_neg (by decide), if_pos rfl]
        dsimp only
        rw [if_neg (by rw [not_or, not_lt]; exact ⟨hle, hne⟩), if_neg hany]
    | ipv4 octets =>
        change decodeHost atypIpv4 _ = _
        unfold decodeHost
        rw [if_pos rfl]
        exact firstChunk_map_eq_ok.2 ⟨octets, rfl, hvalid, hrest⟩
    | ipv6 octets =>
        change decodeHost atypIpv6 _ = _
        unfold decodeHost
        rw [if_neg (by decide), if_pos rfl]
        exact firstChunk_map_eq_ok.2 ⟨octets, rfl, hvalid, hrest⟩

/-- The two bytes of a port are read back. -/
theorem portBytes_eq {hi lo : UInt8} {port : UInt16} :
    port = UInt16.ofNat (hi.toNat * 256 + lo.toNat) ↔ [hi, lo] = portBytes port := by
  have hhi := hi.toNat_lt
  have hlo := lo.toNat_lt
  have hport := port.toNat_lt
  have hval : (UInt16.ofNat (hi.toNat * 256 + lo.toNat)).toNat = hi.toNat * 256 + lo.toNat :=
    UInt16.toNat_ofNat_of_lt' (by simp only [UInt16.size]; omega)
  have hdiv : (UInt8.ofNat (port.toNat / 256)).toNat = port.toNat / 256 :=
    UInt8.toNat_ofNat_of_lt' (by simp only [UInt8.size]; omega)
  have hmod : (UInt8.ofNat (port.toNat % 256)).toNat = port.toNat % 256 :=
    UInt8.toNat_ofNat_of_lt' (by simp only [UInt8.size]; omega)
  simp only [portBytes, List.cons.injEq, and_true, ← UInt8.toNat_inj, ← UInt16.toNat_inj, hval,
    hdiv, hmod]
  omega

/-- An address is decoded exactly from its encoding. -/
theorem decode_eq_ok {buf : List UInt8} {addr : ProxyAddr} :
    decode buf = .ok addr ↔ addr.host.Valid ∧ buf = addr.encode := by
  constructor
  · intro h
    cases buf with
    | nil => cases h
    | cons atyp rest =>
        cases hd : decodeHost atyp rest with
        | error e =>
            rw [decode, hd] at h
            cases h
        | ok r =>
            obtain ⟨host, after⟩ := r
            obtain ⟨hvalid, hatyp, hrest⟩ := decodeHost_eq_ok.1 hd
            simp only [decode, hd] at h
            split at h
            · cases h
            · rename_i host' hi lo heq
              cases h
              cases heq
              refine ⟨hvalid, ?_⟩
              rw [encode_eq hvalid, hatyp, hrest, portBytes_eq.1 rfl]
            · cases h
  · rintro ⟨hvalid, rfl⟩
    obtain ⟨hi, lo, hport⟩ : ∃ hi lo, portBytes addr.port = [hi, lo] := ⟨_, _, rfl⟩
    have hd := decodeHost_eq_ok.2 ⟨hvalid, rfl, (rfl : addr.host.body ++ [hi, lo] = _)⟩
    rw [encode_eq hvalid, hport]
    simp only [decode, hd]
    rw [← portBytes_eq.2 hport.symm]

end ProxyAddr

end Nextppp

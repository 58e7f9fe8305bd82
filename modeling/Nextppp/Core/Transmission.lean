/-
**The two directions of a connection: `TxCore` and `RxCore` of `transmission.rs`.**

A sending core turns a message into a wire packet, a receiving core undoes it; both are stateful,
since every packet consumes one nonce of each cipher and the first base94 frame of a direction is
special.  The functions return the core next to the result also when they fail, because a failed
call may have advanced a cipher.  The scratch buffers of the source, which only save allocations,
are left out, and a stream is the list of bytes it still holds.

The relation `Nextppp.Lockstep` between a sending core and the receiving core at the other end is
what one packet preserves, and everything about whole conversations follows from it.  It does not
ask for equal keys: before the handshake the framing depends on less of the key than afterwards, and
the refusal of a handshake is a conversation between ends whose keys differ.

Main definitions:

* `Nextppp.TxCore`, `Nextppp.TxCore.encryptImpl` and its three entry points;
* `Nextppp.RxCore`, `Nextppp.RxCore.decrypt`, `Nextppp.RxCore.decryptInPlace`,
  `Nextppp.RxCore.readBuf`;
* `Nextppp.Lockstep`.

Main results:

* `Nextppp.Lockstep.packet` — one packet is read back by the stream reader and by the in-memory
  decoder, and leaves the cores in lockstep;
* `Nextppp.Lockstep.rekey` — rekeying both ends with the same `ivv` keeps them in lockstep.
-/

import Nextppp.Core.Base94
import Nextppp.Core.Binary

set_option relaxedAutoImplicit false
set_option autoImplicit false

namespace Nextppp

/-! ### Shared pieces -/

/-- Data-plane flags; before the handshake everything is forced on. -/
def effectiveFlags (key : ObfuscationKey) (handshaked : Bool) : PayloadFlags :=
  if handshaked then ⟨key.masked, key.shuffleData, key.deltaEncode⟩ else PayloadFlags.safest

/-- Parse a binary frame header and check the declared length.  In-memory callers pass the length
of the whole packet. -/
def parseBinaryHeader (P : Primitives) (kf : UInt32) (cipher : SessionCipher)
    (header : List UInt8) (declaredTotal : Option ℕ) :
    Except Error (ℕ × UInt32) × SessionCipher :=
  let dec := headerDecrypt P kf cipher header
  let len := dec.1.1
  if ¬ (1 ≤ len ∧ len ≤ pppBufferSize) then (.error (.frameTooLarge len), dec.2)
  else
    match declaredTotal with
    | some total =>
        if len + headerSize ≠ total then (.error .invalidFrame, dec.2) else (.ok dec.1, dec.2)
    | none => (.ok dec.1, dec.2)

/-- The in-memory decrypt tail on a whole packet: the message and the two ciphers. -/
def decryptTail (P : Primitives) (key : ObfuscationKey) (protocolRx transportRx : SessionCipher)
    (handshaked : Bool) (buf : List UInt8) :
    Except Error (List UInt8) × SessionCipher × SessionCipher :=
  if buf.length ≤ headerSize then (.error .invalidFrame, protocolRx, transportRx)
  else
    match parseBinaryHeader P key.kf protocolRx (buf.take headerSize) (some buf.length) with
    | (.error e, protocolRx) => (.error e, protocolRx, transportRx)
    | (.ok (_, headerKf), protocolRx) =>
        let body := payloadDeobfuscate (buf.drop headerSize) (effectiveFlags key handshaked)
          headerKf key.kf
        let dec := transportRx.apply P body
        (.ok dec.1, protocolRx, dec.2)

/-! ### The sending core -/

/-- Tx-direction codec state. -/
structure TxCore where
  rng : Rng
  key : ObfuscationKey
  b94 : Base94Framer
  protocolTx : SessionCipher
  transportTx : SessionCipher
  handshaked : Bool

namespace TxCore

/-- A fresh sending core, keyed with the passwords alone. -/
def new (P : Primitives) (key : ObfuscationKey) (rng : Rng) : TxCore where
  rng := rng
  key := key
  b94 := Base94Framer.new key.kf
  protocolTx := SessionCipher.new P key.protocol .protocol key.protocolKey
  transportTx := SessionCipher.new P key.transport .transport key.transportKey
  handshaked := false

/-- Whether packets travel in the base94 envelope. -/
def envelope (tx : TxCore) : Bool := !tx.handshaked || tx.key.plaintext

/-- Encrypt `pre ++ payload` into one wire packet. -/
def encryptImpl (P : Primitives) (tx : TxCore) (pre payload : List UInt8) :
    Except Error (List UInt8) × TxCore :=
  let total := payload.length + pre.length
  if total = 0 then (.error .zeroLength, tx)
  else if pppBufferSize < total then (.error (.frameTooLarge total), tx)
  else
    let flags := effectiveFlags tx.key tx.handshaked
    match headerEncrypt P tx.rng tx.key.kf tx.protocolTx total with
    | (.error e, protocolTx, rng) =>
        (.error e, { tx with protocolTx := protocolTx, rng := rng })
    | (.ok (header, headerKf), protocolTx, rng) =>
        let enc := tx.transportTx.apply P (pre ++ payload)
        let bin := header ++ payloadObfuscate enc.1 flags headerKf tx.key.kf
        if tx.envelope then
          match tx.b94.encodeFrame rng bin with
          | (out, b94, rng) =>
              (out, { tx with rng := rng, b94 := b94, protocolTx := protocolTx,
                              transportTx := enc.2 })
        else (.ok bin, { tx with rng := rng, protocolTx := protocolTx, transportTx := enc.2 })

/-- Encrypt a plaintext. -/
def encryptInto (P : Primitives) (tx : TxCore) (plaintext : List UInt8) :
    Except Error (List UInt8) × TxCore :=
  tx.encryptImpl P [] plaintext

/-- The message is `tag || payload`. -/
def encryptIntoTagged (P : Primitives) (tx : TxCore) (tag : UInt8) (payload : List UInt8) :
    Except Error (List UInt8) × TxCore :=
  tx.encryptImpl P [tag] payload

/-- The message is `pre || payload` (mux framing). -/
def encryptIntoPrefixed (P : Primitives) (tx : TxCore) (pre payload : List UInt8) :
    Except Error (List UInt8) × TxCore :=
  tx.encryptImpl P pre payload

/-- Rebuild both ciphers with per-connection key material. -/
def rekey (P : Primitives) (tx : TxCore) (ivv : U128) : TxCore :=
  { tx with
    protocolTx :=
      SessionCipher.derive P tx.key.protocol .protocol tx.key.protocolKey (some ivv)
    transportTx :=
      SessionCipher.derive P tx.key.transport .transport tx.key.transportKey (some ivv) }

/-- Mark the handshake complete. -/
def onHandshakeComplete (tx : TxCore) : TxCore := { tx with handshaked := true }

end TxCore

/-! ### The receiving core -/

/-- Rx-direction codec state. -/
structure RxCore where
  key : ObfuscationKey
  b94 : Base94Framer
  protocolRx : SessionCipher
  transportRx : SessionCipher
  handshaked : Bool

namespace RxCore

/-- A fresh receiving core, keyed with the passwords alone. -/
def new (P : Primitives) (key : ObfuscationKey) : RxCore where
  key := key
  b94 := Base94Framer.new key.kf
  protocolRx := (SessionCipher.new P key.protocol .protocol key.protocolKey).forDecryption
  transportRx := (SessionCipher.new P key.transport .transport key.transportKey).forDecryption
  handshaked := false

/-- Whether packets travel in the base94 envelope. -/
def envelope (rx : RxCore) : Bool := !rx.handshaked || rx.key.plaintext

/-- The decrypt tail on the core's own ciphers. -/
def tail (P : Primitives) (rx : RxCore) (buf : List UInt8) : Except Error (List UInt8) × RxCore :=
  match decryptTail P rx.key rx.protocolRx rx.transportRx rx.handshaked buf with
  | (r, protocolRx, transportRx) =>
      (r, { rx with protocolRx := protocolRx, transportRx := transportRx })

/-- Decrypt one complete wire packet. -/
def decrypt (P : Primitives) (rx : RxCore) (packet : List UInt8) :
    Except Error (List UInt8) × RxCore :=
  if rx.envelope then
    match rx.b94.decodePacketInto packet with
    | (.error e, b94) => (.error e, { rx with b94 := b94 })
    | (.ok body, b94) => tail P { rx with b94 := b94 } body
  else tail P rx packet

/-- Decrypt one complete wire packet in its own buffer: the message, the core, and what the buffer
holds afterwards. -/
def decryptInPlace (P : Primitives) (rx : RxCore) (packet : List UInt8) :
    Except Error (List UInt8) × RxCore × List UInt8 :=
  if rx.envelope then
    match rx.b94.decodePacketInto packet with
    | (.error e, b94) => (.error e, { rx with b94 := b94 }, packet)
    | (.ok body, b94) =>
        match decryptTail P rx.key rx.protocolRx rx.transportRx rx.handshaked body with
        | (r, protocolRx, transportRx) =>
            (r, { rx with b94 := b94, protocolRx := protocolRx, transportRx := transportRx }, packet)
  else
    match decryptTail P rx.key rx.protocolRx rx.transportRx rx.handshaked packet with
    | (.ok msg, protocolRx, transportRx) =>
        (.ok msg, { rx with protocolRx := protocolRx, transportRx := transportRx },
          packet.take headerSize ++ msg)
    | (.error e, protocolRx, transportRx) =>
        (.error e, { rx with protocolRx := protocolRx, transportRx := transportRx }, packet)

/-- Read one framed message from a stream: the message, the core and what is left. -/
def readBuf (P : Primitives) (rx : RxCore) (io : List UInt8) :
    Except Error (List UInt8) × RxCore × List UInt8 :=
  if rx.envelope then
    match rx.b94.readFrameInto io with
    | (.error e, b94, rest) => (.error e, { rx with b94 := b94 }, rest)
    | (.ok body, b94, rest) =>
        if body.length ≤ headerSize then (.error .invalidFrame, { rx with b94 := b94 }, rest)
        else
          match parseBinaryHeader P rx.key.kf rx.protocolRx (body.take headerSize)
              (some body.length) with
          | (.error e, protocolRx) =>
              (.error e, { rx with b94 := b94, protocolRx := protocolRx }, rest)
          | (.ok (_, headerKf), protocolRx) =>
              let flags := effectiveFlags rx.key rx.handshaked
              let plain := payloadDeobfuscate (body.drop headerSize) flags headerKf rx.key.kf
              let dec := rx.transportRx.apply P plain
              (.ok dec.1, { rx with b94 := b94, protocolRx := protocolRx, transportRx := dec.2 },
                rest)
  else
    if io.length < headerSize then (.error Base94Framer.eofError, rx, [])
    else
      match parseBinaryHeader P rx.key.kf rx.protocolRx (io.take headerSize) none with
      | (.error e, protocolRx) =>
          (.error e, { rx with protocolRx := protocolRx }, io.drop headerSize)
      | (.ok (len, headerKf), protocolRx) =>
          let body := (io.drop headerSize).take len
          if body.length ≠ len then
            (.error (.io .unexpectedEof "truncated binary frame"),
              { rx with protocolRx := protocolRx }, [])
          else
            let flags := effectiveFlags rx.key rx.handshaked
            let plain := payloadDeobfuscate body flags headerKf rx.key.kf
            let dec := rx.transportRx.apply P plain
            (.ok dec.1, { rx with protocolRx := protocolRx, transportRx := dec.2 },
              io.drop (headerSize + len))

/-- Rebuild both ciphers with per-connection key material. -/
def rekey (P : Primitives) (rx : RxCore) (ivv : U128) : RxCore :=
  { rx with
    protocolRx :=
      (SessionCipher.derive P rx.key.protocol .protocol rx.key.protocolKey
        (some ivv)).forDecryption
    transportRx :=
      (SessionCipher.derive P rx.key.transport .transport rx.key.transportKey
        (some ivv)).forDecryption }

/-- Mark the handshake complete. -/
def onHandshakeComplete (rx : RxCore) : RxCore := { rx with handshaked := true }

end RxCore

/-! ### What the decoders do with a packet -/

section Packet

variable {P : Primitives} {key : ObfuscationKey} {r : SessionCipher} {h d : List UInt8} {n : ℕ}
  {headerKf : UInt32}

theorem parseBinaryHeader_none (hpos : 0 < n) (hn : n ≤ pppBufferSize)
    (hdec : headerDecrypt P key.kf r h = ((n, headerKf), (r.apply P d).2)) :
    parseBinaryHeader P key.kf r h none = (.ok (n, headerKf), (r.apply P d).2) := by
  rw [parseBinaryHeader, hdec]
  exact if_neg (not_not_intro ⟨hpos, hn⟩)

theorem parseBinaryHeader_some (hpos : 0 < n) (hn : n ≤ pppBufferSize)
    (hdec : headerDecrypt P key.kf r h = ((n, headerKf), (r.apply P d).2)) :
    parseBinaryHeader P key.kf r h (some (n + headerSize)) =
      (.ok (n, headerKf), (r.apply P d).2) := by
  rw [parseBinaryHeader, hdec]
  dsimp only
  rw [if_neg (not_not_intro ⟨hpos, hn⟩), if_neg (not_not_intro rfl)]

/-- The tail of the in-memory path reads a packet whose header decodes to the length of its
body. -/
theorem decryptTail_packet {tr : SessionCipher} {handshaked : Bool} {body : List UInt8}
    (hpos : 0 < body.length) (hn : body.length ≤ pppBufferSize) (hh : h.length = headerSize)
    (hdec : headerDecrypt P key.kf r h = ((body.length, headerKf), (r.apply P d).2)) :
    decryptTail P key r tr handshaked (h ++ body) =
      (.ok (tr.apply P (payloadDeobfuscate body (effectiveFlags key handshaked) headerKf
          key.kf)).1, (r.apply P d).2,
        (tr.apply P (payloadDeobfuscate body (effectiveFlags key handshaked) headerKf
          key.kf)).2) := by
  have htake : (h ++ body).take headerSize = h :=
    List.take_left' hh
  have hdrop : (h ++ body).drop headerSize = body :=
    List.drop_left' hh
  have htotal : (h ++ body).length = body.length + headerSize := by
    rw [List.length_append, hh, Nat.add_comm]
  rw [decryptTail, if_neg (by omega), htake, hdrop, htotal,
    parseBinaryHeader_some hpos hn hdec]

end Packet

namespace RxCore

/-- On the base94 path the stream reader is the framer's stream reader followed by the tail. -/
theorem readBuf_envelope (P : Primitives) {rx : RxCore} (henv : rx.envelope = true)
    (io : List UInt8) :
    rx.readBuf P io =
      match rx.b94.readFrameInto io with
      | (.error e, b94, rest) => (.error e, { rx with b94 := b94 }, rest)
      | (.ok body, b94, rest) =>
          ((tail P { rx with b94 := b94 } body).1, (tail P { rx with b94 := b94 } body).2, rest) := by
  rw [readBuf, if_pos henv]
  split
  · rfl
  · rename_i body b94 rest _
    rw [tail, decryptTail]
    dsimp only
    split
    · rfl
    · split <;> rfl

/-- Decrypting in place agrees with decrypting, in result and in state. -/
theorem decryptInPlace_agrees (P : Primitives) (rx : RxCore) (packet : List UInt8) :
    (rx.decryptInPlace P packet).1 = (rx.decrypt P packet).1 ∧
      (rx.decryptInPlace P packet).2.1 = (rx.decrypt P packet).2 := by
  unfold decryptInPlace decrypt
  split
  · split
    · exact ⟨rfl, rfl⟩
    · exact ⟨rfl, rfl⟩
  · rw [tail]
    split
    · rename_i heq
      rw [heq]
      exact ⟨rfl, rfl⟩
    · rename_i heq
      rw [heq]
      exact ⟨rfl, rfl⟩

end RxCore

/-! ### Lockstep -/

/-- A sending core and the receiving core at the other end, ready for the next packet. -/
structure Lockstep (tx : TxCore) (rx : RxCore) : Prop where
  kf : rx.key.kf = tx.key.kf
  flags : effectiveFlags rx.key rx.handshaked = effectiveFlags tx.key tx.handshaked
  envelope : rx.envelope = tx.envelope
  params : tx.b94.SameParams rx.b94
  first : rx.b94.rxFirst = tx.b94.txFirst
  protocol : tx.protocolTx.Mirror rx.protocolRx
  transport : tx.transportTx.Mirror rx.transportRx

/-- What a call leaves alone in a sending core. -/
structure TxCore.SameSetup (tx tx' : TxCore) : Prop where
  key : tx'.key = tx.key
  handshaked : tx'.handshaked = tx.handshaked

/-- What a call leaves alone in a receiving core. -/
structure RxCore.SameSetup (rx rx' : RxCore) : Prop where
  key : rx'.key = rx.key
  handshaked : rx'.handshaked = rx.handshaked
  protocol : rx.protocolRx.SameKeying rx'.protocolRx
  transport : rx.transportRx.SameKeying rx'.transportRx

theorem RxCore.SameSetup.refl (rx : RxCore) : rx.SameSetup rx :=
  ⟨rfl, rfl, SessionCipher.SameKeying.refl _, SessionCipher.SameKeying.refl _⟩

theorem RxCore.SameSetup.trans {r₁ r₂ r₃ : RxCore} (h : r₁.SameSetup r₂) (h' : r₂.SameSetup r₃) :
    r₁.SameSetup r₃ :=
  ⟨h'.key.trans h.key, h'.handshaked.trans h.handshaked, h.protocol.trans h'.protocol,
    h.transport.trans h'.transport⟩

/-- A message of illegal length is refused before anything changes. -/
theorem TxCore.encryptImpl_illegal (P : Primitives) (tx : TxCore) (pre payload : List UInt8)
    (h : ¬ (1 ≤ (pre ++ payload).length ∧ (pre ++ payload).length ≤ pppBufferSize)) :
    ∃ e, tx.encryptImpl P pre payload = (.error e, tx) := by
  have hlen : (pre ++ payload).length = payload.length + pre.length := by
    rw [List.length_append, Nat.add_comm]
  rw [hlen] at h
  unfold encryptImpl
  dsimp only
  split
  · exact ⟨_, rfl⟩
  · split
    · exact ⟨_, rfl⟩
    · omega

/-- Sending never changes the key or the phase. -/
theorem TxCore.encryptImpl_sameSetup (P : Primitives) (tx : TxCore) (pre payload : List UInt8) :
    tx.SameSetup (tx.encryptImpl P pre payload).2 := by
  unfold encryptImpl
  dsimp only
  split
  · exact ⟨rfl, rfl⟩
  · split
    · exact ⟨rfl, rfl⟩
    · split
      · exact ⟨rfl, rfl⟩
      · split <;> exact ⟨rfl, rfl⟩

/-- Sending a legal message advances each cipher by one packet. -/
theorem TxCore.encryptImpl_ciphers (P : Primitives) (tx : TxCore) (pre payload : List UInt8)
    (hpos : 1 ≤ (pre ++ payload).length) (hn : (pre ++ payload).length ≤ pppBufferSize) :
    (∃ d, (tx.encryptImpl P pre payload).2.protocolTx = (tx.protocolTx.apply P d).2) ∧
      (tx.encryptImpl P pre payload).2.transportTx
        = (tx.transportTx.apply P (pre ++ payload)).2 := by
  have hlen : payload.length + pre.length = (pre ++ payload).length := by
    rw [List.length_append, Nat.add_comm]
  obtain ⟨h, headerKf, d, rng', henc, -, -⟩ :=
    headerEncrypt_spec P tx.rng tx.key.kf tx.protocolTx hpos hn
  unfold encryptImpl
  dsimp only
  rw [hlen, if_neg (by omega), if_neg (by omega), henc]
  dsimp only
  split
  · exact ⟨⟨d, rfl⟩, rfl⟩
  · exact ⟨⟨d, rfl⟩, rfl⟩

/-- Three header bytes and 65536 bytes of payload at most double in the envelope, which is what a
frame may have. -/
theorem base94EncodedLen_packet_le (kf : UInt32) {h body : List UInt8} (hh : h.length = headerSize)
    (hbody : body.length ≤ pppBufferSize) : base94EncodedLen kf (h ++ body) ≤ base94MaxFrame := by
  refine (base94EncodedLen_le _ _).trans ?_
  rw [List.length_append, hh]
  simp only [headerSize, base94MaxFrame, pppBufferSize] at hbody ⊢
  omega

/-- In the envelope, whatever packet comes out is printable. -/
theorem TxCore.encryptImpl_printable (P : Primitives) {tx : TxCore} {pre payload w : List UInt8}
    (henv : tx.envelope = true) (h : (tx.encryptImpl P pre payload).1 = .ok w) :
    ∀ c ∈ w, Printable c := by
  unfold encryptImpl at h
  dsimp only at h
  split at h
  · simp at h
  · split at h
    · simp at h
    · split at h
      · simp at h
      · exact Base94Framer.encodeFrame_printable _ _ h

/-- One packet: it is encrypted, the stream reader and the in-memory decoder both read the message
back, and the two cores stay in lockstep. -/
theorem Lockstep.packet {tx : TxCore} {rx : RxCore} (hl : Lockstep tx rx) (P : Primitives)
    (pre payload : List UInt8) (hpos : 1 ≤ (pre ++ payload).length)
    (hn : (pre ++ payload).length ≤ pppBufferSize) :
    ∃ w tx' rx', tx.encryptImpl P pre payload = (.ok w, tx') ∧
      rx.decrypt P w = (.ok (pre ++ payload), rx') ∧
      (∀ rest, rx.readBuf P (w ++ rest) = (.ok (pre ++ payload), rx', rest)) ∧
      Lockstep tx' rx' ∧ tx.SameSetup tx' ∧ rx.SameSetup rx' := by
  have hlen : payload.length + pre.length = (pre ++ payload).length := by
    rw [List.length_append, Nat.add_comm]
  obtain ⟨h, headerKf, d, rng', henc, hh, hdec⟩ :=
    headerEncrypt_spec P tx.rng tx.key.kf tx.protocolTx hpos hn
  obtain ⟨d', hdec⟩ := hdec rx.protocolRx hl.protocol
  -- the obfuscated body, and what the receiving transport cipher makes of it
  obtain ⟨body, hbody⟩ : ∃ body, body = payloadObfuscate (tx.transportTx.apply P (pre ++ payload)).1
      (effectiveFlags tx.key tx.handshaked) headerKf tx.key.kf := ⟨_, rfl⟩
  have hblen : body.length = (pre ++ payload).length := by
    rw [hbody, payloadObfuscate_length, SessionCipher.apply_length]
  have hplain : payloadDeobfuscate body (effectiveFlags rx.key rx.handshaked) headerKf rx.key.kf
      = (tx.transportTx.apply P (pre ++ payload)).1 := by
    rw [hbody, hl.flags, hl.kf, payloadDeobfuscate_obfuscate]
  have hmsg := hl.transport.apply P (pre ++ payload)
  have hdec' : headerDecrypt P rx.key.kf rx.protocolRx h
      = ((body.length, headerKf), (rx.protocolRx.apply P d').2) := by
    rw [hblen, hl.kf]
    exact hdec
  have htail : ∀ b94, RxCore.tail P { rx with b94 := b94 } (h ++ body) =
      (.ok (pre ++ payload),
        { rx with
          b94 := b94
          protocolRx := (rx.protocolRx.apply P d').2
          transportRx :=
            (rx.transportRx.apply P (tx.transportTx.apply P (pre ++ payload)).1).2 }) := by
    intro b94
    rw [RxCore.tail]
    dsimp only
    rw [decryptTail_packet (by omega) (by omega) hh (hdec' : headerDecrypt P rx.key.kf _ _ = _),
      hplain, hmsg]
  have hnext := hl.protocol.next P d d'
  have hnext' := hl.transport.next P (pre ++ payload) (tx.transportTx.apply P (pre ++ payload)).1
  unfold TxCore.encryptImpl
  dsimp only
  rw [hlen, if_neg (by omega), if_neg (by omega), henc]
  dsimp only
  rw [← hbody]
  cases henv : tx.envelope with
  | true =>
      -- the base94 envelope: the frame's header announces the length of its body
      have hrenv : rx.envelope = true := hl.envelope.trans henv
      have hbound := base94EncodedLen_packet_le tx.b94.kf hh (hblen.trans_le hn)
      obtain ⟨hd, rng'', hframe, -, hread⟩ :=
        tx.b94.encodeFrame_spec rng' (List.append_ne_nil_of_right_ne_nil h
          (List.ne_nil_of_length_pos (by omega))) hbound
      obtain ⟨hhd, hhdec⟩ := hread rx.b94 hl.params hl.first
      rw [← hl.params.kf] at hhdec
      rw [if_pos rfl, hframe]
      refine ⟨_, _, { rx with
        b94 := { rx.b94 with rxFirst := false }
        protocolRx := (rx.protocolRx.apply P d').2
        transportRx := (rx.transportRx.apply P (tx.transportTx.apply P (pre ++ payload)).1).2 },
        rfl, ?_, ?_, ?_, ⟨rfl, rfl⟩,
        ⟨rfl, rfl, ⟨rfl, rfl, rfl⟩, ⟨rfl, rfl, rfl⟩⟩⟩
      · rw [RxCore.decrypt, if_pos hrenv, ← hl.params.kf, rx.b94.decodePacketInto_frame hhd hhdec]
        exact htail _
      · intro rest
        rw [RxCore.readBuf_envelope P hrenv, ← hl.params.kf,
          rx.b94.readFrameInto_frame rest hhd hhdec]
        dsimp only
        rw [htail]
      · exact ⟨hl.kf, hl.flags, hl.envelope, ⟨hl.params.kf, hl.params.mod_, hl.params.kfMod⟩, rfl,
          hnext, hnext'⟩
  | false =>
      have hrenv : rx.envelope = false := hl.envelope.trans henv
      rw [if_neg (by simp)]
      refine ⟨_, _, { rx with
        protocolRx := (rx.protocolRx.apply P d').2
        transportRx := (rx.transportRx.apply P (tx.transportTx.apply P (pre ++ payload)).1).2 },
        rfl, ?_, ?_, ?_, ⟨rfl, rfl⟩,
        ⟨rfl, rfl, ⟨rfl, rfl, rfl⟩, ⟨rfl, rfl, rfl⟩⟩⟩
      · rw [RxCore.decrypt, hrenv, if_neg (by simp)]
        exact htail rx.b94
      · intro rest
        have htake : (h ++ body ++ rest).take headerSize = h := by
          rw [List.append_assoc]
          exact List.take_left' hh
        have hdrop : (h ++ body ++ rest).drop headerSize = body ++ rest := by
          rw [List.append_assoc]
          exact List.drop_left' hh
        have hrest : (h ++ body ++ rest).drop (headerSize + (pre ++ payload).length) = rest := by
          rw [← List.drop_drop, hdrop]
          exact List.drop_left' hblen
        have hcut : (body ++ rest).take (pre ++ payload).length = body :=
          List.take_left' hblen
        rw [RxCore.readBuf, hrenv, if_neg (by simp), if_neg (by simp [hh]), htake,
          parseBinaryHeader_none (by omega) hn (by rw [hl.kf]; exact hdec)]
        dsimp only
        rw [hdrop, hcut, if_neg (by omega), hplain, hmsg, hrest]
      · exact ⟨hl.kf, hl.flags, hl.envelope, ⟨hl.params.kf, hl.params.mod_, hl.params.kfMod⟩,
          hl.first, hnext, hnext'⟩

/-- Fresh cores whose keys agree on everything but the flags are in lockstep. -/
theorem lockstep_new (P : Primitives) {key key' : ObfuscationKey} (rng : Rng)
    (hkf : key'.kf = key.kf) (hp : key'.protocol = key.protocol)
    (hpk : key'.protocolKey = key.protocolKey) (ht : key'.transport = key.transport)
    (htk : key'.transportKey = key.transportKey) :
    Lockstep (TxCore.new P key rng) (RxCore.new P key') where
  kf := hkf
  flags := rfl
  envelope := rfl
  params := ⟨hkf, by simp only [TxCore.new, RxCore.new, hkf], by
    simp only [TxCore.new, RxCore.new, hkf]⟩
  first := rfl
  protocol := by
    simp only [TxCore.new, RxCore.new, hp, hpk]
    exact SessionCipher.mirror_derive P _ _ _ _
  transport := by
    simp only [TxCore.new, RxCore.new, ht, htk]
    exact SessionCipher.mirror_derive P _ _ _ _

/-- Switching both ends to the data plane of one `ivv` keeps them in lockstep. -/
theorem Lockstep.rekey {tx : TxCore} {rx : RxCore} (hl : Lockstep tx rx) (P : Primitives)
    (hkey : rx.key = tx.key) (ivv : U128) :
    Lockstep (tx.rekey P ivv).onHandshakeComplete (rx.rekey P ivv).onHandshakeComplete where
  kf := hl.kf
  flags := by
    simp only [TxCore.rekey, TxCore.onHandshakeComplete, RxCore.rekey,
      RxCore.onHandshakeComplete, hkey]
  envelope := by
    simp only [TxCore.envelope, RxCore.envelope, TxCore.rekey, TxCore.onHandshakeComplete,
      RxCore.rekey, RxCore.onHandshakeComplete, hkey]
  params := hl.params
  first := hl.first
  protocol := by
    simp only [TxCore.rekey, TxCore.onHandshakeComplete, RxCore.rekey,
      RxCore.onHandshakeComplete, hkey]
    exact SessionCipher.mirror_derive P _ _ _ _
  transport := by
    simp only [TxCore.rekey, TxCore.onHandshakeComplete, RxCore.rekey,
      RxCore.onHandshakeComplete, hkey]
    exact SessionCipher.mirror_derive P _ _ _ _

end Nextppp

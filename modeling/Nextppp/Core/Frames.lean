/-
**Sequences of base94 frames, and packets appended to a buffer.**

`Nextppp.Core.Base94` encodes and decodes one frame.  Here one framer encodes a sequence of
payloads, and another framer of the same `kf` reads them back, off the concatenated stream or frame
by frame.  The second half follows the output buffer of `encrypt_impl`: what a call that fails leaves
in it, and what a call that succeeds appends.

Main definitions:

* `Nextppp.Base94Framer.encodeFrames`, `Nextppp.Base94Framer.readFrames`,
  `Nextppp.Base94Framer.decodePackets`;
* `Nextppp.Base94Framer.FieldFits` — a value survives the obfuscation of a header field;
* `Nextppp.TxCore.encryptOnto` — `encrypt_impl` with its output buffer.

Main results:

* `Nextppp.Base94Framer.frames_round_trip` — every sequence of payloads is read back, each frame
  consuming exactly its own bytes;
* `Nextppp.TxCore.encrypt_fails_on_length` — encryption fails on the length alone, and then changes
  nothing.
-/

import Nextppp.Core.Transmission

set_option relaxedAutoImplicit false
set_option autoImplicit false

namespace Nextppp

namespace Base94Framer

/-! ### Sequences of frames -/

/-- The frames of a sequence of payloads, encoded by one framer. -/
def encodeFrames (f : Base94Framer) (rng : Rng) :
    List (List UInt8) → Except Error (List (List UInt8)) × Base94Framer × Rng
  | [] => (.ok [], f, rng)
  | p :: ps =>
      match f.encodeFrame rng p with
      | (.error e, f', rng') => (.error e, f', rng')
      | (.ok w, f', rng') =>
          match encodeFrames f' rng' ps with
          | (.error e, f'', rng'') => (.error e, f'', rng'')
          | (.ok ws, f'', rng'') => (.ok (w :: ws), f'', rng'')

/-- The first `n` frames of a stream. -/
def readFrames : ℕ → Base94Framer → List UInt8 →
    Except Error (List (List UInt8)) × Base94Framer × List UInt8
  | 0, f, io => (.ok [], f, io)
  | n + 1, f, io =>
      match f.readFrameInto io with
      | (.error e, f', rest) => (.error e, f', rest)
      | (.ok p, f', rest) =>
          match readFrames n f' rest with
          | (.error e, f'', rest') => (.error e, f'', rest')
          | (.ok ps, f'', rest') => (.ok (p :: ps), f'', rest')

/-- Frames decoded one by one in memory. -/
def decodePackets (f : Base94Framer) :
    List (List UInt8) → Except Error (List (List UInt8)) × Base94Framer
  | [] => (.ok [], f)
  | w :: ws =>
      match f.decodePacketInto w with
      | (.error e, f') => (.error e, f')
      | (.ok p, f') =>
          match decodePackets f' ws with
          | (.error e, f'') => (.error e, f'')
          | (.ok ps, f'') => (.ok (p :: ps), f'')

/-- A payload that one frame can carry. -/
def Framable (kf : UInt32) (p : List UInt8) : Prop :=
  p ≠ [] ∧ base94EncodedLen kf p ≤ base94MaxFrame

/-- The frames `ws` of the payloads `ps`: each is a header in front of the encoded payload, and only
the first one of a direction carries the long header. -/
def Headed (kf : UInt32) (first : Bool) (ps ws : List (List UInt8)) : Prop :=
  ws.length = ps.length ∧ ∀ (i : ℕ) (p w : List UInt8), ps[i]? = some p → ws[i]? = some w →
    ∃ h : List UInt8, w = h ++ base94EncodeInto kf p ∧
      h.length = if i = 0 ∧ first = true then headerExtended else headerSimple

theorem Headed.cons {kf : UInt32} {first : Bool} {ps ws : List (List UInt8)} {p h : List UInt8}
    (hh : h.length = if first = true then headerExtended else headerSimple)
    (hs : Headed kf false ps ws) :
    Headed kf first (p :: ps) ((h ++ base94EncodeInto kf p) :: ws) := by
  refine ⟨by simp [hs.1], ?_⟩
  intro i p' w' hp hw
  cases i with
  | zero =>
      obtain rfl : p = p' := by simpa using hp
      obtain rfl : h ++ base94EncodeInto kf p = w' := by simpa using hw
      exact ⟨h, rfl, by simpa using hh⟩
  | succ i =>
      obtain ⟨h', hw', hlen⟩ := hs.2 i p' w' (by simpa using hp) (by simpa using hw)
      exact ⟨h', hw', by simpa using hlen⟩

/-- **A sequence of frames.**  Encoding never fails; a framer in step with the encoder reads the
payloads off the concatenation, consuming exactly the frames it read, and decodes the frames one by
one. -/
theorem encodeFrames_spec {f g : Base94Framer} (hg : SameParams f g) (hfirst : g.rxFirst = f.txFirst)
    (rng : Rng) {ps : List (List UInt8)} (hps : ∀ p ∈ ps, Framable f.kf p) :
    ∃ ws f' rng', f.encodeFrames rng ps = (.ok ws, f', rng') ∧ Headed f.kf f.txFirst ps ws ∧
      (∀ n ≤ ps.length, ∀ rest, ∃ g', readFrames n g (ws.flatten ++ rest) =
        (.ok (ps.take n), g', (ws.drop n).flatten ++ rest)) ∧
      ∃ g', g.decodePackets ws = (.ok ps, g') := by
  induction ps generalizing f g rng with
  | nil =>
      refine ⟨[], f, rng, rfl, ⟨rfl, by simp⟩, ?_, g, rfl⟩
      intro n hn rest
      obtain rfl : n = 0 := by simpa using hn
      exact ⟨g, rfl⟩
  | cons p ps ih =>
      obtain ⟨hne, hlen⟩ := hps p (by simp)
      obtain ⟨h, rng₁, henc, -, hdec⟩ := f.encodeFrame_spec rng hne hlen
      obtain ⟨hh, hhdec⟩ := hdec g hg hfirst
      have hpayload : base94EncodeInto f.kf p = base94EncodeInto g.kf p := by rw [hg.kf]
      rw [hpayload] at hhdec
      -- behind the first frame both ends are past their first-frame state
      have hg' : SameParams { f with txFirst := false } { g with rxFirst := false } :=
        ⟨hg.kf, hg.mod_, hg.kfMod⟩
      obtain ⟨ws, f', rng', hencs, hheads, hreads, g', hdecs⟩ :=
        ih hg' rfl rng₁ fun q hq => hps q (by simp [hq])
      refine ⟨(h ++ base94EncodeInto f.kf p) :: ws, f', rng', ?_, hheads.cons ?_, ?_, g', ?_⟩
      · rw [encodeFrames, henc]
        dsimp only
        rw [hencs]
      · rw [hh, headerLen, hfirst]
      · intro n hn rest
        cases n with
        | zero => exact ⟨g, rfl⟩
        | succ n =>
            obtain ⟨g'', hread⟩ := hreads n (by simpa using hn) rest
            refine ⟨g'', ?_⟩
            rw [hpayload, List.flatten_cons, List.append_assoc, readFrames,
              g.readFrameInto_frame (ws.flatten ++ rest) hh hhdec]
            dsimp only
            rw [hread]
            rfl
      · rw [hpayload, decodePackets, g.decodePacketInto_frame hh hhdec]
        dsimp only
        rw [hdecs]

/-! ### The fields of a header -/

/-- A value fits a header field: its obfuscated residue takes one to three base94 digits, and the
digits, padded with zeros, are decoded to the value. -/
def FieldFits (f : Base94Framer) (v : ℕ) : Prop :=
  let digits := base94DecimalEncode ((v + f.kfMod) % f.mod_)
  0 < digits.length ∧ digits.length ≤ 3 ∧
    f.decodeLength (List.replicate (3 - digits.length) 0x20 ++ digits) = .ok v

theorem fieldFits (f : Base94Framer) {v : ℕ} (h : v < f.mod_) : f.FieldFits v := by
  obtain ⟨hpos, hle⟩ := base94DecimalEncode_length (f.residue_lt v)
  exact ⟨hpos, hle, f.decodeLength_padded h _⟩

/-- **Base94 framing round trip.**  For every `kf`, every generator and every sequence of payloads a
frame can carry, one framer encodes the sequence and another one reads it back, off the stream or
frame by frame, consuming exactly the bytes of each frame; the first frame carries a header of seven
bytes and the others one of four.  Every length up to the bound, and every checksum mixed with it,
fits its header field, and the header is decoded to the length. -/
theorem frames_round_trip (kf : UInt32) (rng : Rng) (ps : List (List UInt8))
    (hps : ∀ p ∈ ps, p ≠ [] ∧ base94EncodedLen kf p ≤ 131136) :
    (∃ ws f' rng', (new kf).encodeFrames rng ps = (.ok ws, f', rng') ∧ Headed kf true ps ws ∧
      (∀ n ≤ ps.length, ∀ rest, ∃ g', readFrames n (new kf) (ws.flatten ++ rest) =
        (.ok (ps.take n), g', (ws.drop n).flatten ++ rest)) ∧
      ∃ g', (new kf).decodePackets ws = (.ok ps, g')) ∧
    ∀ n, 1 ≤ n → n ≤ 131136 → (new kf).FieldFits n ∧
      (∀ h, (new kf).FieldFits (inetChksum h ^^^ n)) ∧
      ∀ first, ∃ h f' rng', { new kf with txFirst := first }.encodeHeader rng n
          = (.ok h, f', rng') ∧
        h.length = (if first then headerExtended else headerSimple) ∧
        { new kf with rxFirst := first }.decodeHeader h = .ok n := by
  constructor
  · exact encodeFrames_spec (f := new kf) ⟨rfl, rfl, rfl⟩ rfl rng hps
  · intro n hpos hn
    refine ⟨fieldFits _ (length_lt_mod _ hn), fun h => fieldFits _ (chk_lt_mod _ h hn), ?_⟩
    intro first
    obtain ⟨h, rng', henc, -, hdec⟩ :=
      encodeHeader_spec { new kf with txFirst := first } rng hpos hn
    obtain ⟨hlen, hhdec⟩ := hdec { new kf with rxFirst := first } ⟨rfl, rfl, rfl⟩ rfl
    exact ⟨h, _, rng', henc, hlen, hhdec⟩

/-- Two payloads with the default `kf`. -/
theorem frames_round_trip_two :
    (∀ p ∈ [[1, 2, 3], [0xff]], p ≠ [] ∧ base94EncodedLen 154543927 p ≤ 131136) ∧
    ∃ ws f' rng', (new 154543927).encodeFrames (fun i => i * 7) [[1, 2, 3], [0xff]]
        = (.ok ws, f', rng') ∧
      ∃ g', (new 154543927).decodePackets ws = (.ok [[1, 2, 3], [0xff]], g') := by
  have hps : ∀ p ∈ [[1, 2, 3], [0xff]], p ≠ [] ∧ base94EncodedLen 154543927 p ≤ 131136 := by
    decide
  obtain ⟨⟨ws, f', rng', henc, -, -, hdec⟩, -⟩ :=
    frames_round_trip 154543927 (fun i => i * 7) [[1, 2, 3], [0xff]] hps
  exact ⟨hps, ws, f', rng', henc, hdec⟩

end Base94Framer

/-! ### The output buffer of encryption -/

namespace Base94Framer

/-- `encode_frame` with its output buffer. -/
def encodeFrameOnto (f : Base94Framer) (rng : Rng) (out binary : List UInt8) :
    Except Error Unit × Base94Framer × Rng × List UInt8 :=
  if binary.isEmpty then (.error .zeroLength, f, rng, out)
  else
    let encodedLen := base94EncodedLen f.kf binary
    if base94MaxFrame < encodedLen then (.error (.frameTooLarge encodedLen), f, rng, out)
    else
      match f.encodeHeader rng encodedLen with
      | (.ok h, f', rng') => (.ok (), f', rng', out ++ h ++ base94EncodeInto f.kf binary)
      | (.error e, f', rng') => (.error e, f', rng', out)

theorem encodeFrameOnto_spec (f : Base94Framer) (rng : Rng) (out : List UInt8) {binary : List UInt8}
    (hne : binary ≠ []) (hlen : base94EncodedLen f.kf binary ≤ base94MaxFrame) :
    ∃ w rng', f.encodeFrame rng binary = (.ok w, { f with txFirst := false }, rng') ∧ w ≠ [] ∧
      f.encodeFrameOnto rng out binary = (.ok (), { f with txFirst := false }, rng', out ++ w) := by
  have hpos := base94EncodedLen_pos f.kf hne
  obtain ⟨h, rng', henc, -, -⟩ := f.encodeHeader_spec rng hpos hlen
  refine ⟨h ++ base94EncodeInto f.kf binary, rng', ?_, ?_, ?_⟩
  · rw [encodeFrame, if_neg (by simpa using hne)]
    dsimp only
    rw [if_neg (by omega), henc]
  · rw [← base94EncodeInto_length] at hpos
    exact List.append_ne_nil_of_right_ne_nil h (List.ne_nil_of_length_pos hpos)
  · rw [encodeFrameOnto, if_neg (by simpa using hne)]
    dsimp only
    rw [if_neg (by omega), henc, ← List.append_assoc]

end Base94Framer

namespace TxCore

/-- `encrypt_impl` with its output buffer: the result, the core and the buffer afterwards. -/
def encryptOnto (P : Primitives) (tx : TxCore) (out pre payload : List UInt8) :
    Except Error Unit × TxCore × List UInt8 :=
  let total := payload.length + pre.length
  if total = 0 then (.error .zeroLength, tx, out)
  else if pppBufferSize < total then (.error (.frameTooLarge total), tx, out)
  else
    let flags := effectiveFlags tx.key tx.handshaked
    match headerEncrypt P tx.rng tx.key.kf tx.protocolTx total with
    | (.error e, protocolTx, rng) =>
        (.error e, { tx with protocolTx := protocolTx, rng := rng }, out)
    | (.ok (header, headerKf), protocolTx, rng) =>
        if tx.envelope then
          -- the binary packet is assembled in a scratch buffer
          let bin := header ++ pre ++ payload
          let enc := tx.transportTx.apply P (bin.drop headerSize)
          let bin := bin.take headerSize ++ payloadObfuscate enc.1 flags headerKf tx.key.kf
          match tx.b94.encodeFrameOnto rng out bin with
          | (r, b94, rng, out) =>
              (r, { tx with rng := rng, b94 := b94, protocolTx := protocolTx,
                            transportTx := enc.2 }, out)
        else
          -- the packet is built in the output buffer, behind what it holds
          let start := out.length
          let out := out ++ header ++ pre ++ payload
          let enc := tx.transportTx.apply P (out.drop (start + headerSize))
          (.ok (), { tx with rng := rng, protocolTx := protocolTx, transportTx := enc.2 },
            out.take (start + headerSize) ++ payloadObfuscate enc.1 flags headerKf tx.key.kf)

/-- The buffer only grows by the packet of `encryptImpl`. -/
theorem encryptOnto_legal (P : Primitives) (tx : TxCore) (out pre payload : List UInt8)
    (hpos : 1 ≤ payload.length + pre.length)
    (hn : payload.length + pre.length ≤ pppBufferSize) :
    ∃ w tx', tx.encryptImpl P pre payload = (.ok w, tx') ∧ w ≠ [] ∧
      tx.encryptOnto P out pre payload = (.ok (), tx', out ++ w) ∧
      tx'.protocolTx = tx.protocolTx.nextNonce.2 ∧
      tx'.transportTx = tx.transportTx.nextNonce.2 := by
  obtain ⟨h, headerKf, d, rng', henc, hh, -⟩ :=
    headerEncrypt_spec P tx.rng tx.key.kf tx.protocolTx hpos hn
  have htake : ∀ l : List UInt8, (h ++ l).take headerSize = h := fun l => List.take_left' hh
  have hdrop : ∀ l : List UInt8, (h ++ l).drop headerSize = l := fun l => List.drop_left' hh
  unfold encryptImpl encryptOnto
  dsimp only
  rw [if_neg (by omega), if_neg (by omega), if_neg (by omega), if_neg (by omega), henc]
  dsimp only
  obtain ⟨body, hbody⟩ : ∃ body, body = payloadObfuscate (tx.transportTx.apply P (pre ++ payload)).1
      (effectiveFlags tx.key tx.handshaked) headerKf tx.key.kf := ⟨_, rfl⟩
  have hblen : body.length = payload.length + pre.length := by
    rw [hbody, payloadObfuscate_length, SessionCipher.apply_length, List.length_append,
      Nat.add_comm]
  have hbin : h ++ body ≠ [] := List.append_ne_nil_of_right_ne_nil h
    (List.ne_nil_of_length_pos (by omega))
  cases henv : tx.envelope with
  | true =>
      have hbound := base94EncodedLen_packet_le tx.b94.kf hh (hblen.trans_le hn)
      obtain ⟨w, rng'', hframe, hw, honto⟩ := tx.b94.encodeFrameOnto_spec rng' out hbin hbound
      rw [if_pos rfl, if_pos rfl, List.append_assoc, hdrop, htake, ← hbody, hframe, honto]
      exact ⟨w, _, rfl, hw, rfl, rfl, rfl⟩
  | false =>
      rw [if_neg (by simp), if_neg (by simp)]
      have hcut : (out ++ h ++ pre ++ payload).take (out.length + headerSize) = out ++ h := by
        rw [List.append_assoc, List.append_assoc, List.take_length_add_append, htake]
      have hrest : (out ++ h ++ pre ++ payload).drop (out.length + headerSize)
          = pre ++ payload := by
        rw [List.append_assoc, List.append_assoc, List.drop_length_add_append, hdrop]
      rw [hcut, hrest, ← hbody, List.append_assoc]
      exact ⟨_, _, rfl, hbin, rfl, rfl, rfl⟩

/-- **Encryption fails on the length alone, and then changes nothing.**  In every state and for
every buffer, an empty message and one above 65536 bytes are refused with the core and the buffer as
they were; every other message is encrypted, in either framing, each cipher uses up exactly one
nonce, and the buffer keeps what it held and grows by the packet. -/
theorem encrypt_fails_on_length (P : Primitives) (tx : TxCore) (out pre payload : List UInt8) :
    if payload.length + pre.length = 0 then
      tx.encryptOnto P out pre payload = (.error .zeroLength, tx, out)
    else if 65536 < payload.length + pre.length then
      tx.encryptOnto P out pre payload
        = (.error (.frameTooLarge (payload.length + pre.length)), tx, out)
    else
      ∃ w tx', tx.encryptOnto P out pre payload = (.ok (), tx', out ++ w) ∧
        tx'.protocolTx = tx.protocolTx.nextNonce.2 ∧
        tx'.transportTx = tx.transportTx.nextNonce.2 := by
  split
  · rename_i hzero
    rw [encryptOnto]
    dsimp only
    rw [if_pos hzero]
  · rename_i hpos
    split
    · rename_i hlarge
      have hsize : pppBufferSize < payload.length + pre.length := hlarge
      rw [encryptOnto]
      dsimp only
      rw [if_neg hpos, if_pos hsize]
    · rename_i hn
      obtain ⟨w, tx', -, -, honto, hp, ht⟩ := tx.encryptOnto_legal P out pre payload
        (Nat.pos_of_ne_zero hpos) (Nat.le_of_not_lt hn)
      exact ⟨w, tx', honto, hp, ht⟩

end TxCore

end Nextppp

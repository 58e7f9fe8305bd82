/-
**Packets and streams.**

`decrypt` gets one packet at a time and checks that its length is the one its header declares;
`read_buf` takes the length from the header and reads as much.  On any bytes, also those of a peer that
follows no rules, the two accept the same packets and leave the same core, so that the stream reader and
the incremental one return the messages of the only packets into which a stream can be cut.

Main definitions:

* `Nextppp.RxCore.packet` — what `decrypt` accepts.

Main results:

* `Nextppp.Base94Framer.readFrameInto_eq_ok` — the two decoders of the envelope accept the same frames;
* `Nextppp.RxCore.readBuf_eq_ok` — the two readers of the core accept the same packets;
* `Nextppp.stream_packets` — every stream is cut into packets in one way, and its messages are theirs.
-/

import Nextppp.Core.Session
import Nextppp.Lib.Packets

set_option relaxedAutoImplicit false
set_option autoImplicit false

namespace Nextppp

open Incremental

/-! ### The envelope -/

namespace Base94Framer

/-- **The two decoders of the envelope accept the same frames.** -/
theorem readFrameInto_eq_ok {f f' : Base94Framer} {io body rest : List UInt8} :
    f.readFrameInto io = (.ok body, f', rest) ↔
      ∃ w, io = w ++ rest ∧ f.decodePacketInto w = (.ok body, f') := by
  constructor
  · intro h
    unfold readFrameInto at h
    split at h
    · cases h
    · rename_i hlong
      split at h
      · cases h
      · rename_i len hlen
        dsimp only at h
        split at h
        · cases h
        · rename_i hfull
          rw [not_not] at hfull
          split at h
          · cases h
          · rename_i out hout
            obtain ⟨hbody, hf⟩ := Prod.mk.inj h
            obtain ⟨rfl, rfl⟩ := Prod.mk.inj hf
            obtain rfl := Except.ok.inj hbody
            have hsize : f.headerLen + len ≤ io.length := by
              rw [List.length_take, List.length_drop] at hfull
              omega
            refine ⟨io.take (f.headerLen + len), (List.take_append_drop _ _).symm, ?_⟩
            rw [decodePacketInto, List.length_take, Nat.min_eq_left hsize, if_neg (by omega),
              List.take_take, Nat.min_eq_left (Nat.le_add_right _ _), hlen]
            dsimp only
            rw [if_neg (by omega), List.drop_take, Nat.add_sub_cancel_left, hout]
  · rintro ⟨w, rfl, h⟩
    unfold decodePacketInto at h
    split at h
    · cases h
    · rename_i hlong
      split at h
      · cases h
      · rename_i len hlen
        split at h
        · cases h
        · rename_i hsize
          rw [not_not] at hsize
          split at h
          · cases h
          · rename_i out hout
            obtain ⟨hbody, rfl⟩ := Prod.mk.inj h
            obtain rfl := Except.ok.inj hbody
            have htake : (w ++ rest).take f.headerLen = w.take f.headerLen :=
              List.take_append_of_le_length (by omega)
            have hdrop : ((w ++ rest).drop f.headerLen).take len = w.drop f.headerLen := by
              rw [List.drop_append_of_le_length (by omega)]
              exact List.take_left' (by rw [List.length_drop]; omega)
            rw [readFrameInto, if_neg (by rw [List.length_append]; omega), htake, hlen]
            dsimp only
            rw [hdrop, if_neg (by rw [List.length_drop]; omega), hout]
            dsimp only
            rw [List.drop_left' (by omega)]

end Base94Framer

/-! ### The core -/

/-- The check of the declared length is the only difference between the two readings of a header. -/
theorem parseBinaryHeader_total {P : Primitives} {kf : UInt32} {r r' : SessionCipher}
    {header : List UInt8} {total len : ℕ} {headerKf : UInt32} :
    parseBinaryHeader P kf r header (some total) = (.ok (len, headerKf), r') ↔
      parseBinaryHeader P kf r header none = (.ok (len, headerKf), r') ∧
        len + headerSize = total := by
  unfold parseBinaryHeader
  dsimp only
  split
  · simp
  · split
    · rename_i hne
      constructor
      · intro h
        cases h
      · rintro ⟨h, hlen⟩
        have hdec := Except.ok.inj (Prod.mk.inj h).1
        rw [hdec] at hne
        exact absurd hlen hne
    · rename_i heq
      rw [not_not] at heq
      constructor
      · intro h
        refine ⟨h, ?_⟩
        have hdec := Except.ok.inj (Prod.mk.inj h).1
        rw [hdec] at heq
        exact heq
      · exact fun h => h.1

namespace RxCore

variable {P : Primitives} {rx rx' : RxCore}

/-- What `decrypt` does with a packet behind the compact header. -/
theorem decrypt_compact (henv : rx.envelope = false) (w : List UInt8) :
    rx.decrypt P w = tail P rx w := by
  rw [decrypt, if_neg (by simp [henv])]

/-- A packet behind the compact header is read exactly if it is decrypted. -/
theorem readBuf_compact (henv : rx.envelope = false) {io m rest : List UInt8} :
    rx.readBuf P io = (.ok m, rx', rest) ↔ ∃ w, io = w ++ rest ∧ tail P rx w = (.ok m, rx') := by
  constructor
  · intro h
    rw [readBuf, if_neg (by simp [henv])] at h
    split at h
    · cases h
    · rename_i hlong
      split at h
      · cases h
      · rename_i len headerKf protocolRx hparse
        dsimp only at h
        split at h
        · cases h
        · rename_i hfull
          rw [not_not] at hfull
          obtain ⟨hm, hcore⟩ := Prod.mk.inj h
          obtain ⟨rfl, rfl⟩ := Prod.mk.inj hcore
          obtain rfl := Except.ok.inj hm
          have hpos := parseBinaryHeader_len hparse
          have hsize : headerSize + len ≤ io.length := by
            rw [List.length_take, List.length_drop] at hfull
            omega
          refine ⟨io.take (headerSize + len), (List.take_append_drop _ _).symm, ?_⟩
          have htotal : (io.take (headerSize + len)).length = headerSize + len := by
            rw [List.length_take, Nat.min_eq_left hsize]
          have hheader : (io.take (headerSize + len)).take headerSize = io.take headerSize := by
            rw [List.take_take, Nat.min_eq_left (Nat.le_add_right _ _)]
          have hbody : (io.take (headerSize + len)).drop headerSize
              = (io.drop headerSize).take len := by
            rw [List.drop_take, Nat.add_sub_cancel_left]
          rw [tail, decryptTail, htotal, if_neg (by omega), hheader, hbody,
            parseBinaryHeader_total.2 ⟨hparse, Nat.add_comm _ _⟩]
  · rintro ⟨w, rfl, h⟩
    unfold tail decryptTail at h
    split at h
    rename_i r protocolRx transportRx htail
    split at htail
    · cases htail
      cases h
    · rename_i hlong
      split at htail
      · cases htail
        cases h
      · rename_i len headerKf protocolRx' hparse
        obtain ⟨hnone, hlen⟩ := parseBinaryHeader_total.1 hparse
        have hheader : (w ++ rest).take headerSize = w.take headerSize :=
          List.take_append_of_le_length (by omega)
        have hbody : ((w ++ rest).drop headerSize).take len = w.drop headerSize := by
          rw [List.drop_append_of_le_length (by omega)]
          exact List.take_left' (by rw [List.length_drop]; omega)
        rw [readBuf, if_neg (by simp [henv]), if_neg (by rw [List.length_append]; omega), hheader,
          hnone]
        dsimp only
        rw [hbody, if_neg (by rw [List.length_drop]; omega), List.drop_left' (by omega)]
        dsimp only at htail
        cases htail
        cases h
        rfl

/-- **The two readers of the core accept the same packets.** -/
theorem readBuf_eq_ok {io m rest : List UInt8} :
    rx.readBuf P io = (.ok m, rx', rest) ↔
      ∃ w, io = w ++ rest ∧ rx.decrypt P w = (.ok m, rx') := by
  by_cases henv : rx.envelope = true
  · -- the framer finds the packet and both run the same tail
    rw [readBuf_envelope P henv]
    constructor
    · intro h
      split at h
      · cases h
      · rename_i body b94 rest' hframe
        obtain ⟨htail, hrest⟩ := Prod.mk.inj h
        obtain ⟨hcore, rfl⟩ := Prod.mk.inj hrest
        obtain ⟨w, rfl, hdec⟩ := Base94Framer.readFrameInto_eq_ok.1 hframe
        refine ⟨w, rfl, ?_⟩
        rw [decrypt, if_pos henv, hdec]
        exact Prod.ext htail hcore
    · rintro ⟨w, rfl, h⟩
      rw [decrypt, if_pos henv] at h
      split at h
      · cases h
      · rename_i body b94 hdec
        rw [Base94Framer.readFrameInto_eq_ok.2 ⟨w, rfl, hdec⟩]
        dsimp only
        rw [h]
  · have hcompact : rx.envelope = false := by simpa using henv
    rw [readBuf_compact hcompact]
    simp only [decrypt_compact hcompact]

/-- What `decrypt` accepts as one packet. -/
def packet (P : Primitives) (rx : RxCore) (w : List UInt8) : Option (List UInt8 × RxCore) :=
  match rx.decrypt P w with
  | (.ok m, rx') => some (m, rx')
  | (.error _, _) => none

theorem packet_eq_some {w m : List UInt8} :
    rx.packet P w = some (m, rx') ↔ rx.decrypt P w = (.ok m, rx') := by
  unfold packet
  split
  · rename_i m' rx'' h
    rw [h]
    simp
  · rename_i e rx'' h
    rw [h]
    simp

end RxCore

/-! ### Streams -/

theorem readStep_message {P : Primitives} {rx rx' : RxCore} {io m rest : List UInt8} :
    readStep P rx io = .message m rx' rest ↔ rx.readBuf P io = (.ok m, rx', rest) := by
  unfold readStep
  split
  · rename_i m' rx'' rest' h
    rw [h]
    simp
  · rename_i e rx'' rest' h
    rw [h]
    constructor
    · intro hread
      split at hread
      · cases hread
      · cases hread
    · intro hok
      cases hok

/-- The blocking reader takes the packets that `decrypt` accepts. -/
theorem readStep_packets (P : Primitives) : Packets (readStep P) (RxCore.packet P) where
  message_iff {rx io m rx' rest} := by
    rw [readStep_message, RxCore.readBuf_eq_ok]
    simp only [RxCore.packet_eq_some]
  shrinks := readStep_shrinks

/-- **Every stream is cut into packets in one way, and its messages are theirs.**  Whatever bytes the
peer sends and however the transport cuts them, there is exactly one list of packets that stands at the
front of the stream, that `decrypt` accepts one after the other, and behind which it accepts none; the
messages that polling returns are the messages of these packets, in their order. -/
theorem stream_packets (P : Primitives) (rx : RxCore) (chunks : List (List UInt8)) :
    ∃! ws, ∃ rx' rest, Splits (RxCore.packet P) rx chunks.flatten ws
      (feed (pollStep P) (SessionRx.ofCore rx) [] chunks).messages rx' rest := by
  -- polled in chunks or read at once, the messages are the same
  have hmessages : (feed (pollStep P) (SessionRx.ofCore rx) [] chunks).messages
      = (readStream (readStep P) rx chunks.flatten).messages :=
    congrArg Trace.messages ((pollLink P).feed_eq rx chunks)
  rw [hmessages]
  obtain ⟨ws, rx', rest, hsplit⟩ := (readStep_packets P).splits rx chunks.flatten
  refine ⟨ws, ⟨rx', rest, hsplit⟩, ?_⟩
  rintro ws' ⟨rx'', rest', hsplit'⟩
  exact (readStep_packets P).unique hsplit' hsplit

end Nextppp

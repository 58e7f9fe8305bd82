/-
**The transport-free session codec of `session.rs`.**

An event-driven caller appends whatever arrived to a buffer and polls for frames.  The base94 path
can peek at the length of the frame and leaves the ciphers alone until the frame is complete; the
binary path has to decrypt the header to learn the length, so it takes the header off the buffer and
remembers what it said until the body is there.

Both are shown to be the blocking reader of `transmission.rs` in disguise, by the general argument of
`Nextppp.Lib.Incremental`.

Main definitions:

* `Nextppp.SessionRx`, `Nextppp.pollFrameImpl`, `Nextppp.SessionRx.takeConsumed`;
* `Nextppp.pollStep` — one poll followed by draining the consumed bytes;
* `Nextppp.readStep` — one call of the blocking reader.

Main results:

* `Nextppp.pollLink` — the laws that relate the two;
* `Nextppp.poll_refines_read` — on every byte string, cut in every way, polling yields the messages,
  the error and the state of the blocking reader.
-/

import Nextppp.Core.Transmission
import Nextppp.Lib.Incremental

set_option relaxedAutoImplicit false
set_option autoImplicit false

namespace Nextppp

open Incremental

/-! ### Polling -/

/-- Receiving half of a session. -/
structure SessionRx where
  core : RxCore
  /-- A binary frame whose header was consumed and whose body is incomplete. -/
  pendingBinary : Option (ℕ × UInt32)
  /-- Bytes of the caller's buffer that the last returned frame occupies. -/
  consumed : ℕ

namespace SessionRx

/-- A receiving half at a frame boundary. -/
def ofCore (rx : RxCore) : SessionRx := ⟨rx, none, 0⟩

/-- The bytes to drain, which are forgotten. -/
def takeConsumed (s : SessionRx) : ℕ × SessionRx := (s.consumed, { s with consumed := 0 })

end SessionRx

/-- The body of a binary frame whose header is known; it is decrypted inside the buffer. -/
def pollBody (P : Primitives) (s : SessionRx) (len : ℕ) (headerKf : UInt32) (buf : List UInt8) :
    Except Error (Option (List UInt8)) × SessionRx × List UInt8 :=
  if buf.length < len then (.ok none, s, buf)
  else
    let flags := effectiveFlags s.core.key s.core.handshaked
    let plain := payloadDeobfuscate (buf.take len) flags headerKf s.core.key.kf
    let dec := s.core.transportRx.apply P plain
    (.ok (some dec.1),
      { core := { s.core with transportRx := dec.2 }, pendingBinary := none, consumed := len },
      dec.1 ++ buf.drop len)

/-- Try to decode one frame from the front of the buffer. -/
def pollFrameImpl (P : Primitives) (s : SessionRx) (buf : List UInt8) :
    Except Error (Option (List UInt8)) × SessionRx × List UInt8 :=
  if s.core.envelope then
    match s.core.b94.peekFrameLen buf with
    | .error e => (.error e, s, buf)
    | .ok none => (.ok none, s, buf)
    | .ok (some total) =>
        if buf.length < total then (.ok none, s, buf)
        else
          match s.core.b94.decodePacketInto (buf.take total) with
          | (.error e, b94) => (.error e, { s with core := { s.core with b94 := b94 } }, buf)
          | (.ok body, b94) =>
              match RxCore.tail P { s.core with b94 := b94 } body with
              | (.error e, rx) => (.error e, { s with core := rx }, buf)
              | (.ok msg, rx) => (.ok (some msg), { s with core := rx, consumed := total }, buf)
  else
    match s.pendingBinary with
    | some (len, headerKf) => pollBody P s len headerKf buf
    | none =>
        if buf.length < headerSize then (.ok none, s, buf)
        else
          match parseBinaryHeader P s.core.key.kf s.core.protocolRx (buf.take headerSize) none with
          | (.error e, protocolRx) =>
              (.error e, { s with core := { s.core with protocolRx := protocolRx } }, buf)
          | (.ok (len, headerKf), protocolRx) =>
              pollBody P
                { s with
                  core := { s.core with protocolRx := protocolRx }
                  pendingBinary := some (len, headerKf) }
                len headerKf (buf.drop headerSize)

/-- One poll, after which the caller drains the consumed bytes. -/
def pollStep (P : Primitives) (s : SessionRx) (buf : List UInt8) :
    Poll UInt8 SessionRx (List UInt8) Error :=
  match pollFrameImpl P s buf with
  | (.error e, s', _) => .failed e s'
  | (.ok none, s', buf') => .more s' buf'
  | (.ok (some msg), s', buf') => .message msg s'.takeConsumed.2 (buf'.drop s'.takeConsumed.1)

/-- One call of the blocking reader on what the stream still holds; running into the end of the
stream is told apart from every other error. -/
def readStep (P : Primitives) (rx : RxCore) (io : List UInt8) :
    Read UInt8 RxCore (List UInt8) Error :=
  match rx.readBuf P io with
  | (.ok msg, rx', rest) => .message msg rx' rest
  | (.error e, rx', _) => if e.isEof then .ended rx' else .failed e rx'

/-! ### Which errors mean the end of the stream -/

theorem base94DecodeInto_error (kf : UInt32) (data : List UInt8) {e : Error}
    (h : base94DecodeInto kf data = .error e) : e = .invalidBase94 := by
  have hmap : ∀ {r : Except Error (List UInt8)} {b : UInt8}, r.map (b :: ·) = .error e →
      r = .error e := by
    intro r b hr
    cases r with
    | error e' => simpa [Except.map] using hr
    | ok out => simp [Except.map] at hr
  fun_induction base94DecodeInto kf data with
  | case1 => simp at h
  | case2 c rest v hv ih => exact ih (hmap h)
  | case3 c hv => simpa using h.symm
  | case4 c hv c₂ rest v hv₂ ih => exact ih (hmap h)
  | case5 c hv c₂ rest hv₂ => simpa using h.symm

namespace Base94Framer

theorem decodeLength_not_eof {f : Base94Framer} {d : List UInt8} {e : Error}
    (h : f.decodeLength d = .error e) : e.isEof = false := by
  unfold decodeLength base94DecimalDecode at h
  split at h
  · simp [Except.map] at h
  · obtain rfl : Error.invalidBase94 = e := by simpa [Except.map] using h
    rfl

theorem decodeHeader_not_eof {f : Base94Framer} {d : List UInt8} {e : Error}
    (h : f.decodeHeader d = .error e) : e.isEof = false := by
  have hext : ∀ {e}, f.decodeHeaderExtended d = .error e → e.isEof = false := by
    intro e h
    unfold decodeHeaderExtended at h
    dsimp only at h
    split at h
    · rename_i e' he
      obtain rfl : e' = e := by simpa using h
      exact decodeLength_not_eof he
    · split at h
      · obtain rfl : Error.invalidFrame = e := by simpa using h
        rfl
      · split at h
        · rename_i e' he
          obtain rfl : e' = e := by simpa using h
          exact decodeLength_not_eof he
        · split at h
          · obtain rfl : Error.checksumMismatch = e := by simpa using h
            rfl
          · simp at h
  have hsimple : ∀ {e}, f.decodeHeaderSimple d = .error e → e.isEof = false := by
    intro e h
    unfold decodeHeaderSimple at h
    split at h
    · rename_i e' he
      obtain rfl : e' = e := by simpa using h
      exact decodeLength_not_eof he
    · split at h
      · obtain rfl : Error.invalidFrame = e := by simpa using h
        rfl
      · simp at h
  unfold decodeHeader at h
  split at h
  · rename_i e' he
    obtain rfl : e' = e := by simpa using h
    split at he
    · exact hext he
    · exact hsimple he
  · split at h
    · rename_i e' he
      obtain rfl : e' = e := by simpa using h
      unfold checkBound at he
      split at he
      · obtain rfl : Error.frameTooLarge _ = e' := by simpa using he
        rfl
      · simp at he
    · simp at h

theorem peekFrameLen_not_eof {f : Base94Framer} {buf : List UInt8} {e : Error}
    (h : f.peekFrameLen buf = .error e) : e.isEof = false := by
  unfold peekFrameLen at h
  split at h
  · simp at h
  · split at h
    · rename_i e' he
      obtain rfl : e' = e := by simpa using h
      exact decodeHeader_not_eof he
    · simp at h

theorem decodePacketInto_not_eof {f : Base94Framer} {packet : List UInt8} {e : Error}
    (h : (f.decodePacketInto packet).1 = .error e) : e.isEof = false := by
  unfold decodePacketInto at h
  split at h
  · obtain rfl : Error.invalidFrame = e := by simpa using h
    rfl
  · split at h
    · rename_i e' he
      obtain rfl : e' = e := by simpa using h
      exact decodeHeader_not_eof he
    · split at h
      · obtain rfl : Error.invalidFrame = e := by simpa using h
        rfl
      · split at h
        · rename_i e' he
          obtain rfl : e' = e := by simpa using h
          rw [base94DecodeInto_error _ _ he]
          rfl
        · simp at h

/-- More bytes do not change what was peeked at. -/
theorem peekFrameLen_append {f : Base94Framer} {buf : List UInt8}
    (h : f.peekFrameLen buf ≠ .ok none) (rest : List UInt8) :
    f.peekFrameLen (buf ++ rest) = f.peekFrameLen buf := by
  unfold peekFrameLen at h ⊢
  by_cases hshort : buf.length < f.headerLen
  · simp [hshort] at h
  · rw [if_neg hshort, if_neg (by rw [List.length_append]; omega),
      List.take_append_of_le_length (by omega)]

theorem lt_of_peekFrameLen {f : Base94Framer} {buf : List UInt8} {total : ℕ}
    (h : f.peekFrameLen buf = .ok (some total)) : 0 < total := by
  unfold peekFrameLen at h
  split at h
  · simp at h
  · split at h
    · simp at h
    · obtain rfl : f.headerLen + _ = total := by simpa using h
      exact Nat.add_pos_left f.headerLen_pos _

end Base94Framer

theorem parseBinaryHeader_not_eof {P : Primitives} {kf : UInt32} {c c' : SessionCipher}
    {h : List UInt8} {total : Option ℕ} {e : Error}
    (hp : parseBinaryHeader P kf c h total = (.error e, c')) : e.isEof = false := by
  unfold parseBinaryHeader at hp
  dsimp only at hp
  split at hp
  · obtain ⟨he, -⟩ := Prod.mk.inj hp
    obtain rfl : Error.frameTooLarge _ = e := by simpa using he
    rfl
  · split at hp
    · split at hp
      · obtain ⟨he, -⟩ := Prod.mk.inj hp
        obtain rfl : Error.invalidFrame = e := by simpa using he
        rfl
      · simp at hp
    · simp at hp

theorem parseBinaryHeader_len {P : Primitives} {kf : UInt32} {c c' : SessionCipher}
    {h : List UInt8} {total : Option ℕ} {len : ℕ} {headerKf : UInt32}
    (hp : parseBinaryHeader P kf c h total = (.ok (len, headerKf), c')) : 1 ≤ len := by
  unfold parseBinaryHeader at hp
  dsimp only at hp
  split at hp
  · simp at hp
  · rename_i hlen
    have hlen := (not_not.1 hlen).1
    split at hp
    · split at hp
      · simp at hp
      · obtain ⟨he, -⟩ := Prod.mk.inj hp
        have he : (headerDecrypt P kf c h).1 = (len, headerKf) := by simpa using he
        rwa [he] at hlen
    · obtain ⟨he, -⟩ := Prod.mk.inj hp
      have he : (headerDecrypt P kf c h).1 = (len, headerKf) := by simpa using he
      rwa [he] at hlen

theorem RxCore.tail_not_eof {P : Primitives} {rx : RxCore} {buf : List UInt8} {e : Error}
    (h : (RxCore.tail P rx buf).1 = .error e) : e.isEof = false := by
  unfold RxCore.tail decryptTail at h
  dsimp only at h
  split at h
  · obtain rfl : Error.invalidFrame = e := by simpa using h
    rfl
  · split at h
    · rename_i e' c' hp
      obtain rfl : e' = e := by simpa using h
      exact parseBinaryHeader_not_eof hp
    · simp at h

/-! ### The blocking reader, case by case -/

section ReadStep

variable {P : Primitives} {rx : RxCore} {io : List UInt8}

/-- The base94 path while the frame is incomplete. -/
theorem readStep_short (henv : rx.envelope = true)
    (h : rx.b94.peekFrameLen io = .ok none ∨
      ∃ total, rx.b94.peekFrameLen io = .ok (some total) ∧ io.length < total) :
    readStep P rx io = .ended rx := by
  rcases h with h | ⟨total, h, hshort⟩
  · rw [readStep, RxCore.readBuf_envelope P henv, (Base94Framer.peek_none h).1]
    rfl
  · rw [readStep, RxCore.readBuf_envelope P henv, (Base94Framer.peek_some_short h hshort).1]
    rfl

/-- The base94 path on a header that is rejected. -/
theorem readStep_bad (henv : rx.envelope = true) {e : Error}
    (h : rx.b94.peekFrameLen io = .error e) : readStep P rx io = .failed e rx := by
  rw [readStep, RxCore.readBuf_envelope P henv, (Base94Framer.peek_error h).1]
  dsimp only
  rw [Base94Framer.peekFrameLen_not_eof h, if_neg (by simp)]

/-- The base94 path on a complete frame. -/
theorem readStep_full (P : Primitives) (henv : rx.envelope = true) {total : ℕ}
    (h : rx.b94.peekFrameLen io = .ok (some total)) (hfull : total ≤ io.length) :
    readStep P rx io =
      match rx.b94.decodePacketInto (io.take total) with
      | (.error e, b94) => .failed e { rx with b94 := b94 }
      | (.ok body, b94) =>
          match RxCore.tail P { rx with b94 := b94 } body with
          | (.error e, rx') => .failed e rx'
          | (.ok msg, rx') => .message msg rx' (io.drop total) := by
  rw [readStep, RxCore.readBuf_envelope P henv, Base94Framer.peek_some_full h hfull]
  cases hd : rx.b94.decodePacketInto (io.take total) with
  | mk r b94 =>
      cases r with
      | error e =>
          have hr : (rx.b94.decodePacketInto (io.take total)).1 = .error e := by rw [hd]
          have he := Base94Framer.decodePacketInto_not_eof hr
          dsimp only
          rw [he, if_neg (by simp)]
      | ok body =>
          dsimp only
          cases ht : RxCore.tail P { rx with b94 := b94 } body with
          | mk r rx' =>
              cases r with
              | error e =>
                  have hr : (RxCore.tail P { rx with b94 := b94 } body).1 = .error e := by rw [ht]
                  have he := RxCore.tail_not_eof hr
                  dsimp only
                  rw [he, if_neg (by simp)]
              | ok msg => rfl

/-- The body of a binary frame whose header is known, read off the stream. -/
def readBody (P : Primitives) (rx : RxCore) (len : ℕ) (headerKf : UInt32) (io : List UInt8) :
    Read UInt8 RxCore (List UInt8) Error :=
  if io.length < len then .ended rx
  else
    let flags := effectiveFlags rx.key rx.handshaked
    let dec := rx.transportRx.apply P (payloadDeobfuscate (io.take len) flags headerKf rx.key.kf)
    .message dec.1 { rx with transportRx := dec.2 } (io.drop len)

/-- The binary path: a header, then a body. -/
theorem readStep_binary (P : Primitives) (henv : rx.envelope = false) (io : List UInt8) :
    readStep P rx io =
      if io.length < headerSize then .ended rx
      else
        match parseBinaryHeader P rx.key.kf rx.protocolRx (io.take headerSize) none with
        | (.error e, protocolRx) => .failed e { rx with protocolRx := protocolRx }
        | (.ok (len, headerKf), protocolRx) =>
            readBody P { rx with protocolRx := protocolRx } len headerKf (io.drop headerSize) := by
  rw [readStep, RxCore.readBuf, henv, if_neg (by simp)]
  by_cases hshort : io.length < headerSize
  · rw [if_pos hshort, if_pos hshort]
    rfl
  · rw [if_neg hshort, if_neg hshort]
    cases hp : parseBinaryHeader P rx.key.kf rx.protocolRx (io.take headerSize) none with
    | mk r protocolRx =>
        cases r with
        | error e =>
            dsimp only
            rw [parseBinaryHeader_not_eof hp, if_neg (by simp)]
        | ok hdr =>
            obtain ⟨len, headerKf⟩ := hdr
            dsimp only [readBody]
            by_cases hlen : (io.drop headerSize).length < len
            · rw [if_pos hlen, if_pos (by rw [List.length_take]; omega)]
              rfl
            · rw [if_neg hlen, if_neg (by rw [List.length_take]; omega), List.drop_drop]

end ReadStep

/-! ### Polling is reading -/

/-- What the blocking reader would do from a polled state. -/
def resumeRead (P : Primitives) (s : SessionRx) (io : List UInt8) :
    Read UInt8 RxCore (List UInt8) Error :=
  match s.pendingBinary with
  | none => readStep P s.core io
  | some (len, headerKf) => readBody P s.core len headerKf io

/-- A half-read frame exists on the binary path only, and its body is not empty. -/
def SessionRx.Inv (s : SessionRx) : Prop :=
  ∀ len headerKf, s.pendingBinary = some (len, headerKf) → s.core.envelope = false ∧ 1 ≤ len

/-- The three outcomes of polling for the body of a half-read frame. -/
theorem pollBody_cases (P : Primitives) (s : SessionRx) (len : ℕ) (headerKf : UInt32)
    (buf : List UInt8) :
    (buf.length < len ∧ pollBody P s len headerKf buf = (.ok none, s, buf)) ∨
    (len ≤ buf.length ∧ ∃ msg rx' buf', pollBody P s len headerKf buf =
        (.ok (some msg), ⟨rx', none, len⟩, buf') ∧ buf'.drop len = buf.drop len ∧
      ∀ rest, readBody P s.core len headerKf (buf ++ rest)
        = .message msg rx' (buf.drop len ++ rest)) := by
  by_cases h : buf.length < len
  · exact Or.inl ⟨h, by rw [pollBody, if_pos h]⟩
  · refine Or.inr ⟨Nat.le_of_not_lt h, ?_⟩
    rw [pollBody, if_neg h]
    refine ⟨_, _, _, rfl, ?_, fun rest => ?_⟩
    · rw [List.drop_append_of_le_length (by
        rw [SessionCipher.apply_length, payloadDeobfuscate_length, List.length_take]; omega),
        List.drop_eq_nil_of_le (by
          rw [SessionCipher.apply_length, payloadDeobfuscate_length, List.length_take]; omega),
        List.nil_append]
    · rw [readBody, if_neg (by rw [List.length_append]; omega),
        List.take_append_of_le_length (by omega), List.drop_append_of_le_length (by omega)]

/-- What one poll does, told by what the blocking reader would do. -/
inductive PollSpec (P : Primitives) (s : SessionRx) (buf : List UInt8) : Prop
  | message (m : List UInt8) (rx' : RxCore) (buf' : List UInt8)
      (poll : pollStep P s buf = .message m (SessionRx.ofCore rx') buf')
      (shrinks : buf'.length < buf.length)
      (resume : ∀ rest, resumeRead P s (buf ++ rest) = .message m rx' (buf' ++ rest))
  | more (s' : SessionRx) (buf' : List UInt8)
      (poll : pollStep P s buf = .more s' buf') (inv : s'.Inv)
      (ended : resumeRead P s' buf' = .ended s'.core)
      (resume : ∀ rest, resumeRead P s (buf ++ rest) = resumeRead P s' (buf' ++ rest))
  | failed (e : Error) (s' : SessionRx)
      (poll : pollStep P s buf = .failed e s')
      (resume : ∀ rest, resumeRead P s (buf ++ rest) = .failed e s'.core)

/-- A poll on the base94 path with the whole frame in the buffer. -/
theorem pollStep_full (P : Primitives) {rx : RxCore} (consumed : ℕ) (henv : rx.envelope = true)
    {buf : List UInt8} {total : ℕ} (hpeek : rx.b94.peekFrameLen buf = .ok (some total))
    (hfull : total ≤ buf.length) :
    pollStep P ⟨rx, none, consumed⟩ buf =
      match rx.b94.decodePacketInto (buf.take total) with
      | (.error e, b94) => .failed e ⟨{ rx with b94 := b94 }, none, consumed⟩
      | (.ok body, b94) =>
          match RxCore.tail P { rx with b94 := b94 } body with
          | (.error e, rx') => .failed e ⟨rx', none, consumed⟩
          | (.ok msg, rx') => .message msg (SessionRx.ofCore rx') (buf.drop total) := by
  rw [pollStep, pollFrameImpl, if_pos henv]
  dsimp only
  rw [hpeek]
  dsimp only
  rw [if_neg (by omega)]
  cases rx.b94.decodePacketInto (buf.take total) with
  | mk r b94 =>
      cases r with
      | error e => rfl
      | ok body =>
          dsimp only
          cases RxCore.tail P { rx with b94 := b94 } body with
          | mk r rx' => cases r <;> rfl

/-- Polling on the base94 path. -/
theorem pollSpec_envelope (P : Primitives) {rx : RxCore} {consumed : ℕ} (henv : rx.envelope = true)
    (buf : List UInt8) : PollSpec P ⟨rx, none, consumed⟩ buf := by
  have hinv : SessionRx.Inv ⟨rx, none, consumed⟩ := by
    intro len headerKf h
    simp at h
  have happend : rx.b94.peekFrameLen buf ≠ .ok none → ∀ rest,
      rx.b94.peekFrameLen (buf ++ rest) = rx.b94.peekFrameLen buf :=
    fun h rest => Base94Framer.peekFrameLen_append h rest
  cases hpeek : rx.b94.peekFrameLen buf with
  | error e =>
      refine .failed e ⟨rx, none, consumed⟩ ?_ fun rest => ?_
      · rw [pollStep, pollFrameImpl, if_pos henv]
        dsimp only
        rw [hpeek]
      · exact readStep_bad henv (by rw [happend (by simp [hpeek]), hpeek])
  | ok peeked =>
      cases peeked with
      | none =>
          refine .more ⟨rx, none, consumed⟩ buf ?_ hinv (readStep_short henv (Or.inl hpeek))
            fun rest => rfl
          rw [pollStep, pollFrameImpl, if_pos henv]
          dsimp only
          rw [hpeek]
      | some total =>
          by_cases hshort : buf.length < total
          · refine .more ⟨rx, none, consumed⟩ buf ?_ hinv
              (readStep_short henv (Or.inr ⟨total, hpeek, hshort⟩)) fun rest => rfl
            rw [pollStep, pollFrameImpl, if_pos henv]
            dsimp only
            rw [hpeek]
            dsimp only
            rw [if_pos hshort]
          · -- the frame is complete: all three decoders see the same bytes
            have hpos := Base94Framer.lt_of_peekFrameLen hpeek
            have hfull : ∀ rest, resumeRead P ⟨rx, none, consumed⟩ (buf ++ rest) = _ := fun rest =>
              readStep_full P henv
                ((happend (by simp [hpeek]) rest).trans hpeek) (by rw [List.length_append]; omega)
            have htake : ∀ rest, (buf ++ rest).take total = buf.take total := fun rest =>
              List.take_append_of_le_length (by omega)
            have hdrop : ∀ rest, (buf ++ rest).drop total = buf.drop total ++ rest := fun rest =>
              List.drop_append_of_le_length (by omega)
            simp only [htake, hdrop] at hfull
            have hpoll := pollStep_full P consumed henv hpeek (Nat.le_of_not_lt hshort)
            cases hd : rx.b94.decodePacketInto (buf.take total) with
            | mk r b94 =>
                rw [hd] at hfull hpoll
                cases r with
                | error e => exact .failed e _ hpoll fun rest => hfull rest
                | ok body =>
                    dsimp only at hfull hpoll
                    cases ht : RxCore.tail P { rx with b94 := b94 } body with
                    | mk r rx' =>
                        rw [ht] at hfull hpoll
                        cases r with
                        | error e => exact .failed e _ hpoll fun rest => hfull rest
                        | ok msg =>
                            refine .message msg rx' (buf.drop total) hpoll ?_ fun rest => hfull rest
                            rw [List.length_drop]
                            omega

/-- Polling for the body of a half-read binary frame. -/
theorem pollSpec_body (P : Primitives) {rx : RxCore} (consumed : ℕ) (henv : rx.envelope = false)
    {len : ℕ} (hlen : 1 ≤ len) (headerKf : UInt32) (buf : List UInt8) :
    PollSpec P ⟨rx, some (len, headerKf), consumed⟩ buf := by
  have hpoll : pollStep P ⟨rx, some (len, headerKf), consumed⟩ buf =
      match pollBody P ⟨rx, some (len, headerKf), consumed⟩ len headerKf buf with
      | (.error e, s', _) => .failed e s'
      | (.ok none, s', buf') => .more s' buf'
      | (.ok (some msg), s', buf') =>
          .message msg s'.takeConsumed.2 (buf'.drop s'.takeConsumed.1) := by
    rw [pollStep, pollFrameImpl, henv, if_neg (by simp)]
  rcases pollBody_cases P ⟨rx, some (len, headerKf), consumed⟩ len headerKf buf with
    ⟨hshort, hb⟩ | ⟨hfull, msg, rx', buf', hb, hdrop, hres⟩
  · rw [hb] at hpoll
    refine .more _ buf hpoll ?_ ?_ fun rest => rfl
    · intro len' headerKf' h
      obtain ⟨rfl, rfl⟩ : len = len' ∧ headerKf = headerKf' := by simpa using h
      exact ⟨henv, hlen⟩
    · rw [resumeRead]
      dsimp only
      rw [readBody, if_pos hshort]
  · rw [hb] at hpoll
    dsimp only [SessionRx.takeConsumed] at hpoll
    rw [hdrop] at hpoll
    refine .message msg rx' (buf.drop len) hpoll ?_ fun rest => hres rest
    rw [List.length_drop]
    omega

/-- Polling on the binary path at a frame boundary: once the header is in, it is taken off the
buffer, and the poll goes on as for a half-read frame. -/
theorem pollSpec_header (P : Primitives) {rx : RxCore} {consumed : ℕ} (henv : rx.envelope = false)
    (buf : List UInt8) : PollSpec P ⟨rx, none, consumed⟩ buf := by
  by_cases hshort : buf.length < headerSize
  · refine .more ⟨rx, none, consumed⟩ buf ?_ (fun len headerKf h => by simp at h) ?_ fun rest => rfl
    · rw [pollStep, pollFrameImpl, henv, if_neg (by simp)]
      dsimp only
      rw [if_pos hshort]
    · rw [resumeRead]
      dsimp only
      rw [readStep_binary P henv, if_pos hshort]
  have hread : ∀ rest, resumeRead P ⟨rx, none, consumed⟩ (buf ++ rest) = _ := fun rest =>
    readStep_binary P henv (buf ++ rest)
  have hlong : ∀ rest : List UInt8, ¬ (buf ++ rest).length < headerSize := fun rest => by
    rw [List.length_append]
    omega
  have htake : ∀ rest, (buf ++ rest).take headerSize = buf.take headerSize := fun rest =>
    List.take_append_of_le_length (by omega)
  have hdrop : ∀ rest, (buf ++ rest).drop headerSize = buf.drop headerSize ++ rest := fun rest =>
    List.drop_append_of_le_length (by omega)
  simp only [hlong, htake, hdrop, if_false] at hread
  cases hp : parseBinaryHeader P rx.key.kf rx.protocolRx (buf.take headerSize) none with
  | mk r protocolRx =>
      rw [hp] at hread
      cases r with
      | error e =>
          refine .failed e ⟨{ rx with protocolRx := protocolRx }, none, consumed⟩ ?_
            fun rest => hread rest
          rw [pollStep, pollFrameImpl, henv, if_neg (by simp)]
          dsimp only
          rw [if_neg hshort, hp]
      | ok hdr =>
          obtain ⟨len, headerKf⟩ := hdr
          have henv' : RxCore.envelope { rx with protocolRx := protocolRx } = false := henv
          have hsame : pollStep P ⟨rx, none, consumed⟩ buf = pollStep P
              ⟨{ rx with protocolRx := protocolRx }, some (len, headerKf), consumed⟩
              (buf.drop headerSize) := by
            rw [pollStep, pollFrameImpl, henv, if_neg (by simp)]
            dsimp only
            rw [if_neg hshort, hp]
            dsimp only
            rw [pollStep, pollFrameImpl, henv', if_neg (by simp)]
          have hle : (buf.drop headerSize).length ≤ buf.length := by
            rw [List.length_drop]
            omega
          rcases pollSpec_body P consumed henv' (parseBinaryHeader_len hp) headerKf
              (buf.drop headerSize) with
            ⟨m, rx', buf', h₁, h₂, h₃⟩ | ⟨s', buf', h₁, h₂, h₃, h₄⟩ | ⟨e, s', h₁, h₂⟩
          · exact .message m rx' buf' (hsame.trans h₁) (h₂.trans_le hle)
              fun rest => (hread rest).trans (h₃ rest)
          · exact .more s' buf' (hsame.trans h₁) h₂ h₃ fun rest => (hread rest).trans (h₄ rest)
          · exact .failed e s' (hsame.trans h₁) fun rest => (hread rest).trans (h₂ rest)

theorem pollSpec (P : Primitives) {s : SessionRx} (hs : s.Inv) (buf : List UInt8) :
    PollSpec P s buf := by
  obtain ⟨rx, pending, consumed⟩ := s
  cases pending with
  | some p =>
      obtain ⟨henv, hlen⟩ := hs p.1 p.2 rfl
      exact pollSpec_body P consumed henv hlen p.2 buf
  | none =>
      cases henv : rx.envelope with
      | true => exact pollSpec_envelope P henv buf
      | false => exact pollSpec_header P henv buf

/-- A message read off a stream takes at least one byte of it. -/
theorem readStep_shrinks {P : Primitives} {rx rx' : RxCore} {io m rest : List UInt8}
    (h : readStep P rx io = .message m rx' rest) : rest.length < io.length := by
  have hinv : (SessionRx.ofCore rx).Inv := by
    intro len headerKf h
    simp [SessionRx.ofCore] at h
  have hread : resumeRead P (SessionRx.ofCore rx) (io ++ []) = .message m rx' rest := by
    rw [List.append_nil]
    exact h
  rcases pollSpec P hinv io with ⟨m', rx'', buf', -, hlt, hres⟩ | ⟨s', buf', -, -, hend, hres⟩ |
    ⟨e, s', -, hres⟩
  · rw [hres] at hread
    injection hread with _ _ hrest
    rw [← hrest, List.append_nil]
    exact hlt
  · rw [hres, List.append_nil, hend] at hread
    cases hread
  · rw [hres] at hread
    cases hread

/-- The incremental decoder is linked to the blocking reader. -/
def pollLink (P : Primitives) : Link (readStep P) (pollStep P) where
  fresh := SessionRx.ofCore
  core := SessionRx.core
  resume := resumeRead P
  Inv := SessionRx.Inv
  inv_fresh := by
    intro s len headerKf h
    simp [SessionRx.ofCore] at h
  core_fresh := fun _ => rfl
  resume_fresh := fun _ _ => rfl
  read_nil := by
    intro rx
    cases henv : rx.envelope with
    | true =>
        refine readStep_short henv (Or.inl ?_)
        rw [Base94Framer.peekFrameLen]
        exact if_pos rx.b94.headerLen_pos
    | false =>
        rw [readStep_binary P henv]
        exact if_pos (by decide)
  read_shrinks := readStep_shrinks
  poll_message := by
    intro s buf m s' buf' hs hp
    rcases pollSpec P hs buf with ⟨m', rx', buf'', h₁, h₂, h₃⟩ | ⟨s'', buf'', h₁, -, -, -⟩ |
      ⟨e, s'', h₁, -⟩
    · rw [h₁] at hp
      injection hp with hm ht hb
      subst hm hb
      exact ⟨rx', ht.symm, h₂, h₃⟩
    · rw [h₁] at hp
      cases hp
    · rw [h₁] at hp
      cases hp
  poll_more := by
    intro s buf s' buf' hs hp
    rcases pollSpec P hs buf with ⟨m', rx', buf'', h₁, -, -⟩ | ⟨s'', buf'', h₁, h₂, h₃, h₄⟩ |
      ⟨e, s'', h₁, -⟩
    · rw [h₁] at hp
      cases hp
    · rw [h₁] at hp
      injection hp with ht hb
      subst ht hb
      exact ⟨h₂, h₃, h₄⟩
    · rw [h₁] at hp
      cases hp
  poll_failed := by
    intro s buf e s' hs hp
    rcases pollSpec P hs buf with ⟨m', rx', buf'', h₁, -, -⟩ | ⟨s'', buf'', h₁, -, -, -⟩ |
      ⟨e', s'', h₁, h₂⟩
    · rw [h₁] at hp
      cases hp
    · rw [h₁] at hp
      cases hp
    · rw [h₁] at hp
      injection hp with he ht
      subst he ht
      exact h₂

/-- Peeking, reading from a stream and decoding in memory take the same decision on a buffer. -/
structure DecodersAgree (f : Base94Framer) (buf : List UInt8) : Prop where
  incomplete : f.peekFrameLen buf = .ok none →
    (∃ e, e.isEof = true ∧ (f.readFrameInto buf).1 = .error e) ∧
      (f.decodePacketInto buf).1 = .error .invalidFrame
  rejected : ∀ e, f.peekFrameLen buf = .error e →
    (f.readFrameInto buf).1 = .error e ∧ (f.decodePacketInto buf).1 = .error e
  truncated : ∀ total, f.peekFrameLen buf = .ok (some total) → buf.length < total →
    (∃ e, e.isEof = true ∧ (f.readFrameInto buf).1 = .error e) ∧
      (f.decodePacketInto buf).1 = .error .invalidFrame
  complete : ∀ total, f.peekFrameLen buf = .ok (some total) → total ≤ buf.length →
    f.readFrameInto buf =
      ((f.decodePacketInto (buf.take total)).1, (f.decodePacketInto (buf.take total)).2,
        buf.drop total)

theorem decodersAgree (f : Base94Framer) (buf : List UInt8) : DecodersAgree f buf where
  incomplete h := by
    obtain ⟨h₁, h₂⟩ := Base94Framer.peek_none h
    rw [h₁, h₂]
    exact ⟨⟨_, rfl, rfl⟩, rfl⟩
  rejected e h := by
    obtain ⟨h₁, h₂⟩ := Base94Framer.peek_error h
    rw [h₁, h₂]
    exact ⟨rfl, rfl⟩
  truncated total h hshort := by
    obtain ⟨h₁, h₂⟩ := Base94Framer.peek_some_short h hshort
    rw [h₁, h₂]
    exact ⟨⟨_, rfl, rfl⟩, rfl⟩
  complete total h hfull := Base94Framer.peek_some_full h hfull

/-- Incremental decoding refines streaming decoding.  For every receiving core, whatever its phase
and framing, and every way of cutting a byte string into chunks, polling to exhaustion after every
chunk yields the messages of the blocking reader on the whole string, stops with the same error after
the same messages, waits exactly where the reader runs into the end of the stream, and leaves the
same core: the same cipher counters and the same first-frame flag.  The three base94 decoders agree
on every buffer, a frame that the framer rejects leaves its first-frame flag alone, and the two
in-memory decryptions agree in result and in state. -/
theorem poll_refines_read (P : Primitives) (rx : RxCore) :
    (∀ chunks : List (List UInt8),
      (feed (pollStep P) (SessionRx.ofCore rx) [] chunks).mapState SessionRx.core
        = readStream (readStep P) rx chunks.flatten ∧
      (readStream (readStep P) rx chunks.flatten).outcome ≠ .running) ∧
    (∀ (f : Base94Framer) (buf : List UInt8), DecodersAgree f buf) ∧
    (∀ (f : Base94Framer) (buf : List UInt8) (e : Error),
      ((f.decodePacketInto buf).1 = .error e → (f.decodePacketInto buf).2.rxFirst = f.rxFirst) ∧
      ((f.readFrameInto buf).1 = .error e → (f.readFrameInto buf).2.1.rxFirst = f.rxFirst)) ∧
    (∀ packet : List UInt8, (rx.decryptInPlace P packet).1 = (rx.decrypt P packet).1 ∧
      (rx.decryptInPlace P packet).2.1 = (rx.decrypt P packet).2) := by
  refine ⟨fun chunks => ⟨?_, ?_⟩, decodersAgree, fun f buf e => ⟨?_, ?_⟩,
    fun packet => rx.decryptInPlace_agrees P packet⟩
  · exact (pollLink P).feed_eq rx chunks
  · exact readAll_ne_running readStep_shrinks (Nat.lt_succ_self _)
  · intro h
    rw [Base94Framer.decodePacketInto_error h]
  · intro h
    rw [Base94Framer.readFrameInto_error h]

end Nextppp

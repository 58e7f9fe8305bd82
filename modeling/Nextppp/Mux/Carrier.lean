/-
**The two carriers of a mux tunnel.**

A tunnel runs over one socket, where every mux message is one frame of a nextppp session, or over a
bonded channel, where it is a length-prefixed message.  `TxWire` and `FrameReader` of `tunnel.rs`
cover both; here a carrier is an index, and the two encoders and decoders are families over it.

The reader is the general one of `Nextppp.Lib.Reader`: all that is specific to a carrier is how its
decoder polls, and that a poll that asks for more leaves the buffer below the cap.

Main definitions:

* `Nextppp.TxWire.encode`, `Nextppp.TxWire.encodeAll`;
* `Nextppp.peekPrefix`, `Nextppp.RxWire.poll`;
* `Nextppp.FrameReader`, `Nextppp.FrameReader.next`.

Main results:

* `Nextppp.mux_codec` — the frame codec and the prefix parser on every buffer and its extensions;
* `Nextppp.RxWire.link`, `Nextppp.RxWire.framing` — both decoders refine a streaming decoder and keep
  the buffer below the cap;
* `Nextppp.carriers_deliver` — over both carriers, whatever the reads are, the messages come out as
  they were sent;
* `Nextppp.reader_closes_iff` — the reader reports a clean end exactly when the carrier did not close
  inside a frame.
-/

import Nextppp.Core.Duplex
import Nextppp.Lib.Reader
import Nextppp.Mux.Frame

set_option relaxedAutoImplicit false
set_option autoImplicit false

namespace Nextppp

open Incremental

/-- Upper bound on the reassembly buffer. -/
def bufCap : ℕ := base94MaxFrame + 64

/-- Largest mux message accepted in prefix framing. -/
def prefixMaxFrame : ℕ := base94MaxFrame

/-- Frames coalesced into one write. -/
def writeBatch : ℕ := 32

/-- The two carriers: session frames, or length-prefixed messages. -/
inductive Wire
  | session
  | lengthPrefixed

/-- One outbound mux frame. -/
structure OutFrame where
  kind : FrameKind
  stream : StreamId
  payload : List UInt8
  deriving DecidableEq

/-- The encoded header of a frame. -/
def OutFrame.header (f : OutFrame) : List UInt8 := frameHeader f.kind f.stream

/-- The message a frame is. -/
def OutFrame.message (f : OutFrame) : List UInt8 := f.header ++ f.payload

/-! ### Encoding -/

/-- The sending side of a carrier. -/
def TxWire : Wire → Type
  | .session => TxCore
  | .lengthPrefixed => Unit

namespace TxWire

/-- One length-prefixed message. -/
def encodePrefixed (header payload : List UInt8) : Except Error (List UInt8) :=
  let total := header.length + payload.length
  if total = 0 then .error .zeroLength
  else if prefixMaxFrame < total then .error (.frameTooLarge total)
  else .ok (encodeVarint (UInt32.ofNat total) ++ (header ++ payload))

/-- One complete wire message. -/
def encode (P : Primitives) : (w : Wire) → TxWire w → List UInt8 → List UInt8 →
    Except Error (List UInt8) × TxWire w
  | .session, tx, header, payload => TxCore.encryptIntoPrefixed P tx header payload
  | .lengthPrefixed, tx, header, payload => (encodePrefixed header payload, tx)

/-- The wire messages of a sequence of frames, one after the other. -/
def encodeAll (P : Primitives) (w : Wire) : TxWire w → List OutFrame → Except Error (List UInt8)
  | _, [] => .ok []
  | tx, f :: fs =>
      match encode P w tx f.header f.payload with
      | (.error e, _) => .error e
      | (.ok bytes, tx') => (encodeAll P w tx' fs).map (bytes ++ ·)

end TxWire

/-! ### Decoding -/

/-- Length prefix of the message at the front of the buffer, if fully readable: the length of the
message and of the prefix. -/
def peekPrefix (buf : List UInt8) : Except Error (Option (ℕ × ℕ)) :=
  match decodeVarint buf with
  | some (len, vlen) =>
      if len = 0 then .error .zeroLength
      else if prefixMaxFrame < len then .error (.frameTooLarge len)
      else .ok (some (len, vlen))
  | none => if 5 ≤ buf.length then .error .invalidFrame else .ok none

/-- One round of the reader on a prefixed carrier. -/
def pollPrefixed (buf : List UInt8) : Poll UInt8 Unit (List UInt8) Error :=
  match peekPrefix buf with
  | .error e => .failed e ()
  | .ok none => .more () buf
  | .ok (some (total, vlen)) =>
      if vlen + total ≤ buf.length then
        .message ((buf.drop vlen).take total) () (buf.drop (vlen + total))
      else .more () buf

/-- The messages of a prefixed stream, one by one. -/
def readPrefixed (io : List UInt8) : Read UInt8 Unit (List UInt8) Error :=
  match pollPrefixed io with
  | .message m _ rest => .message m () rest
  | .more _ _ => .ended ()
  | .failed e _ => .failed e ()

/-- The receiving side of a carrier. -/
def RxWire : Wire → Type
  | .session => SessionRx
  | .lengthPrefixed => Unit

/-- A receiving side at a frame boundary. -/
def RxStream : Wire → Type
  | .session => RxCore
  | .lengthPrefixed => Unit

/-- One round of the reader. -/
def RxWire.poll (P : Primitives) : (w : Wire) → RxWire w → List UInt8 →
    Poll UInt8 (RxWire w) (List UInt8) Error
  | .session, rx, buf => pollStep P rx buf
  | .lengthPrefixed, _, buf => pollPrefixed buf

/-- The messages of a stream, one by one. -/
def RxStream.read (P : Primitives) : (w : Wire) → RxStream w → List UInt8 →
    Read UInt8 (RxStream w) (List UInt8) Error
  | .session, rx, io => readStep P rx io
  | .lengthPrefixed, _, io => readPrefixed io

/-- A receiving side at a frame boundary, ready to be polled. -/
def RxStream.fresh : (w : Wire) → RxStream w → RxWire w
  | .session, rx => SessionRx.ofCore rx
  | .lengthPrefixed, _ => ()

/-- Whether no binary header awaits its body. -/
def RxWire.idle : (w : Wire) → RxWire w → Bool
  | .session, rx => (SessionRx.pendingBinary rx).isNone
  | .lengthPrefixed, _ => true

/-- A reader: the receiving side of a carrier and the reassembly buffer. -/
structure FrameReader (w : Wire) where
  wire : RxWire w
  buf : List UInt8

namespace FrameReader

variable {w : Wire}

/-- A new reader. -/
def new (rx : RxStream w) : FrameReader w := ⟨RxStream.fresh w rx, []⟩

/-- The next complete mux message, given the reads the carrier is going to answer; a read of no
bytes, and having no read left, is the end of the carrier. -/
def next (P : Primitives) (r : FrameReader w) (reads : List (Except Error (List UInt8))) :
    Next UInt8 (RxWire w) (List UInt8) Error :=
  Incremental.next (RxWire.poll P w) bufCap .invalidFrame r.wire r.buf reads

/-- The messages of a number of successive calls, and what they leave. -/
def calls (P : Primitives) (n : ℕ) (r : FrameReader w) (reads : List (Except Error (List UInt8))) :
    Option (List (List UInt8) × RxWire w × List UInt8 × List (Except Error (List UInt8))) :=
  Incremental.calls (RxWire.poll P w) bufCap .invalidFrame n r.wire r.buf reads

/-- Whether every byte received so far belonged to a frame that was returned. -/
def AtBoundary (r : FrameReader w) : Prop := r.buf = [] ∧ RxWire.idle w r.wire = true

end FrameReader

/-! ### Length prefixes -/

/-- What a length prefix says is settled by its first bytes. -/
theorem peekPrefix_append {buf : List UInt8} (h : peekPrefix buf ≠ .ok none) (rest : List UInt8) :
    peekPrefix (buf ++ rest) = peekPrefix buf := by
  by_cases hsettled : decodeVarint buf ≠ none ∨ 5 ≤ buf.length
  · rw [peekPrefix, peekPrefix, decodeVarint_append hsettled]
    cases hd : decodeVarint buf with
    | some p => rfl
    | none =>
        have hlen : 5 ≤ buf.length := by
          rcases hsettled with hne | hlen
          · exact absurd hd hne
          · exact hlen
        dsimp only
        rw [if_pos hlen, if_pos (by rw [List.length_append]; omega)]
  · -- the prefix is incomplete
    rw [not_or, not_not] at hsettled
    refine absurd ?_ h
    rw [peekPrefix, hsettled.1]
    exact if_neg hsettled.2

/-- The prefix parser waits exactly for a run of fewer than five bytes that has not ended. -/
theorem peekPrefix_eq_none_iff (buf : List UInt8) :
    peekPrefix buf = .ok none ↔ buf.length < 5 ∧ ∀ b ∈ buf, 128 ≤ b.toNat := by
  unfold peekPrefix
  constructor
  · intro h
    cases hd : decodeVarint buf with
    | some p =>
        obtain ⟨len, vlen⟩ := p
        rw [hd] at h
        dsimp only at h
        split at h
        · cases h
        · split at h <;> cases h
    | none =>
        rw [hd] at h
        dsimp only at h
        split at h
        · cases h
        · rename_i hlen
          exact ⟨by omega, (decodeVarint_eq_none_short (by omega)).1 hd⟩
  · rintro ⟨hlen, hall⟩
    rw [(decodeVarint_eq_none_short hlen).2 hall]
    exact if_neg (by omega)

/-- The mux frame codec: headers are short and parsed back, the varint decoder accepts exactly the
varints, its one `none` is told apart by the length of the buffer, and the verdict of the prefix
parser is final unless it asked for more. -/
theorem mux_codec :
    (∀ (kind : FrameKind) (stream : StreamId) (payload : List UInt8),
      parseFrame (frameHeader kind stream ++ payload) = .ok (kind, stream, payload) ∧
        (frameHeader kind stream).length ≤ 6) ∧
    (∀ buf v n, decodeVarint buf = some (v, n) ↔ IsVarint buf v n) ∧
    (∀ buf, decodeVarint buf = none ↔ (buf.length < 5 ∧ ∀ b ∈ buf, 128 ≤ b.toNat) ∨
      (5 ≤ buf.length ∧ ∀ rest, decodeVarint (buf ++ rest) = none)) ∧
    (∀ buf, peekPrefix buf = .ok none ↔ buf.length < 5 ∧ ∀ b ∈ buf, 128 ≤ b.toNat) ∧
    (∀ buf, peekPrefix buf = .ok none → ∃ rest, decodeVarint (buf ++ rest) ≠ none) ∧
    ∀ buf rest, peekPrefix buf ≠ .ok none → peekPrefix (buf ++ rest) = peekPrefix buf := by
  refine ⟨?_, fun _ _ _ => decodeVarint_eq_some_iff, decodeVarint_eq_none_iff,
    peekPrefix_eq_none_iff, ?_, fun _ rest h => peekPrefix_append h rest⟩
  · intro kind stream payload
    have hlen := (encodeVarint_length stream).2
    refine ⟨parseFrame_frameHeader kind stream payload, ?_⟩
    rw [frameHeader, List.length_cons]
    omega
  · intro buf h
    obtain ⟨hlen, hall⟩ := (peekPrefix_eq_none_iff buf).1 h
    exact ⟨[0], decodeVarint_completable hlen hall⟩

/-- A run of five bytes is refused, and stays refused. -/
theorem mux_codec_run :
    peekPrefix [0x80, 0x80, 0x80, 0x80, 0x80] ≠ .ok none ∧
      peekPrefix ([0x80, 0x80, 0x80, 0x80, 0x80] ++ [0]) =
        peekPrefix [0x80, 0x80, 0x80, 0x80, 0x80] :=
  ⟨by decide, mux_codec.2.2.2.2.2 [0x80, 0x80, 0x80, 0x80, 0x80] [0] (by decide)⟩

/-- A length prefix is at most five bytes long and announces a message of legal length. -/
theorem peekPrefix_bounds {buf : List UInt8} {total vlen : ℕ}
    (h : peekPrefix buf = .ok (some (total, vlen))) :
    0 < total ∧ total ≤ prefixMaxFrame ∧ vlen ≤ 5 := by
  unfold peekPrefix at h
  split at h
  · rename_i len n hd
    split at h
    · cases h
    · split at h
      · cases h
      · obtain ⟨rfl, rfl⟩ : len = total ∧ n = vlen := by simpa using h
        have := decodeVarint_bounds hd
        omega
  · split at h <;> cases h

/-- What one round on a prefixed carrier does, whatever follows. -/
theorem pollPrefixed_cases (buf : List UInt8) :
    (∃ m rest, pollPrefixed buf = .message m () rest ∧ rest.length < buf.length ∧
      ∀ more, pollPrefixed (buf ++ more) = .message m () (rest ++ more)) ∨
    (pollPrefixed buf = .more () buf ∧ buf.length < bufCap) ∨
    (∃ e, pollPrefixed buf = .failed e () ∧ ∀ more, pollPrefixed (buf ++ more) = .failed e ()) := by
  cases hp : peekPrefix buf with
  | error e =>
      have hne : peekPrefix buf ≠ .ok none := by rw [hp]; simp
      refine Or.inr (Or.inr ⟨e, by rw [pollPrefixed, hp], fun more => ?_⟩)
      rw [pollPrefixed, peekPrefix_append hne, hp]
  | ok o =>
      cases o with
      | none =>
          refine Or.inr (Or.inl ⟨by rw [pollPrefixed, hp], ?_⟩)
          have hshort : buf.length < 5 := by
            by_contra hlong
            rw [peekPrefix] at hp
            split at hp
            · split at hp
              · cases hp
              · split at hp <;> cases hp
            · rw [if_pos (by omega)] at hp
              cases hp
          rw [bufCap, base94MaxFrame]
          omega
      | some p =>
          obtain ⟨total, vlen⟩ := p
          have hne : peekPrefix buf ≠ .ok none := by rw [hp]; simp
          obtain ⟨hpos, hmax, hvlen⟩ := peekPrefix_bounds hp
          by_cases hfull : vlen + total ≤ buf.length
          · refine Or.inl ⟨(buf.drop vlen).take total, buf.drop (vlen + total), ?_, ?_, fun more => ?_⟩
            · rw [pollPrefixed, hp]
              exact if_pos hfull
            · rw [List.length_drop]
              omega
            · rw [pollPrefixed, peekPrefix_append hne, hp]
              dsimp only
              rw [if_pos (by rw [List.length_append]; omega),
                List.drop_append_of_le_length (by omega),
                List.take_append_of_le_length (by rw [List.length_drop]; omega),
                List.drop_append_of_le_length hfull]
          · refine Or.inr (Or.inl ⟨?_, ?_⟩)
            · rw [pollPrefixed, hp]
              exact if_neg hfull
            · rw [bufCap]
              rw [prefixMaxFrame] at hmax
              omega

/-- Rounds on a prefixed carrier are linked to reading its messages. -/
def prefixedLink : Link (fun _ : Unit => readPrefixed) (fun _ : Unit => pollPrefixed) where
  fresh := id
  core := id
  resume := fun _ => readPrefixed
  Inv := fun _ => True
  inv_fresh := fun _ => trivial
  core_fresh := fun _ => rfl
  resume_fresh := fun _ _ => rfl
  read_nil := fun _ => rfl
  read_shrinks := by
    intro s io m s' rest h
    rcases pollPrefixed_cases io with ⟨m', rest', hp, hlt, -⟩ | ⟨hp, -⟩ | ⟨e, hp, -⟩
    · rw [readPrefixed, hp] at h
      injection h with _ _ hrest
      rw [← hrest]
      exact hlt
    · rw [readPrefixed, hp] at h
      cases h
    · rw [readPrefixed, hp] at h
      cases h
  poll_message := by
    intro t buf m t' buf' _ h
    rcases pollPrefixed_cases buf with ⟨m', rest', hp, hlt, hmore⟩ | ⟨hp, -⟩ | ⟨e, hp, -⟩
    · rw [hp] at h
      injection h with hm _ hrest
      subst hm hrest
      refine ⟨(), rfl, hlt, fun rest => ?_⟩
      rw [readPrefixed, hmore]
    · rw [hp] at h
      cases h
    · rw [hp] at h
      cases h
  poll_more := by
    intro t buf t' buf' _ h
    rcases pollPrefixed_cases buf with ⟨m', rest', hp, -, -⟩ | ⟨hp, -⟩ | ⟨e, hp, -⟩
    · rw [hp] at h
      cases h
    · rw [hp] at h
      injection h with _ hbuf
      subst hbuf
      refine ⟨trivial, ?_, fun rest => rfl⟩
      rw [readPrefixed, hp]
    · rw [hp] at h
      cases h
  poll_failed := by
    intro t buf e t' _ h rest
    rcases pollPrefixed_cases buf with ⟨m', rest', hp, -, -⟩ | ⟨hp, -⟩ | ⟨e', hp, hmore⟩
    · rw [hp] at h
      cases h
    · rw [hp] at h
      cases h
    · rw [hp] at h
      injection h with he _
      subst he
      rw [readPrefixed, hmore]

theorem prefixed_frame {header payload : List UInt8} (hpos : 0 < header.length)
    (hlen : (header ++ payload).length ≤ prefixMaxFrame) :
    ∃ bytes, TxWire.encodePrefixed header payload = .ok bytes ∧
      ∀ rest, readPrefixed (bytes ++ rest) = .message (header ++ payload) () rest := by
  have htotal : header.length + payload.length = (header ++ payload).length := by
    rw [List.length_append]
  refine ⟨encodeVarint (UInt32.ofNat (header ++ payload).length) ++ (header ++ payload), ?_, ?_⟩
  · rw [TxWire.encodePrefixed, htotal, if_neg (by rw [List.length_append]; omega),
      if_neg (by omega)]
  · intro rest
    have hword : (UInt32.ofNat (header ++ payload).length).toNat = (header ++ payload).length := by
      rw [prefixMaxFrame, base94MaxFrame, pppBufferSize] at hlen
      rw [UInt32.toNat_ofNat']
      exact Nat.mod_eq_of_lt (by omega)
    have hpeek : peekPrefix (encodeVarint (UInt32.ofNat (header ++ payload).length) ++
        (header ++ payload) ++ rest) = .ok (some ((header ++ payload).length,
          (encodeVarint (UInt32.ofNat (header ++ payload).length)).length)) := by
      rw [peekPrefix, List.append_assoc, decodeVarint_encodeVarint, hword]
      dsimp only
      rw [if_neg (by rw [List.length_append]; omega), if_neg (by omega)]
    rw [readPrefixed, pollPrefixed, hpeek]
    dsimp only
    rw [if_pos (by simp), List.append_assoc, List.drop_left, List.take_left, ← List.append_assoc,
      ← List.length_append, List.drop_left]

/-! ### Session frames -/

/-- A half-read binary frame announced a body of legal length. -/
def SessionRx.Bounded (s : SessionRx) : Prop :=
  ∀ len headerKf, s.pendingBinary = some (len, headerKf) → len ≤ pppBufferSize

theorem parseBinaryHeader_le {P : Primitives} {kf : UInt32} {c c' : SessionCipher} {h : List UInt8}
    {len : ℕ} {headerKf : UInt32}
    (hp : parseBinaryHeader P kf c h none = (.ok (len, headerKf), c')) : len ≤ pppBufferSize := by
  unfold parseBinaryHeader at hp
  dsimp only at hp
  split at hp
  · cases hp
  · rename_i hlen
    have hlen := (not_not.1 hlen).2
    obtain ⟨he, -⟩ := Prod.mk.inj hp
    have he : (headerDecrypt P kf c h).1 = (len, headerKf) := by simpa using he
    rwa [he] at hlen

/-- A poll for the body of a half-read frame that asks for more. -/
theorem pollBody_more {P : Primitives} {s s' : SessionRx} {len : ℕ} {headerKf : UInt32}
    {buf buf' : List UInt8} (h : pollBody P s len headerKf buf = (.ok none, s', buf')) :
    s' = s ∧ buf' = buf ∧ buf.length < len := by
  rcases pollBody_cases P s len headerKf buf with ⟨hshort, hb⟩ | ⟨-, msg, rx', b, hb, -⟩
  · rw [hb] at h
    obtain ⟨hs, hbuf⟩ : s = s' ∧ buf = buf' := by simpa using h
    exact ⟨hs.symm, hbuf.symm, hshort⟩
  · rw [hb] at h
    simp at h

/-- A poll that asks for more: what it leaves is below the cap, and it leaves nothing exactly when
there was nothing. -/
theorem pollFrameImpl_more {P : Primitives} {s s' : SessionRx} {buf buf' : List UInt8}
    (hs : s.Inv) (hb : s.Bounded) (h : pollFrameImpl P s buf = (.ok none, s', buf')) :
    s'.Bounded ∧ buf'.length < bufCap ∧
      ((buf' = [] ∧ s'.pendingBinary.isNone = true) ↔ (buf = [] ∧ s.pendingBinary.isNone = true)) := by
  have hcap : bufCap = base94MaxFrame + 64 := rfl
  have hsize : pppBufferSize < bufCap := by decide
  unfold pollFrameImpl at h
  split at h
  · -- the envelope: the poll only looked
    have hheader := s.core.b94.headerLen_le
    split at h
    · simp at h
    · rename_i hpeek
      obtain ⟨rfl, rfl⟩ : s = s' ∧ buf = buf' := by simpa using h
      refine ⟨hb, ?_, Iff.rfl⟩
      have hshort : buf.length < s.core.b94.headerLen := by
        by_contra hlong
        rw [Base94Framer.peekFrameLen, if_neg hlong] at hpeek
        split at hpeek <;> cases hpeek
      omega
    · rename_i total hpeek
      have hle := Base94Framer.peekFrameLen_le hpeek
      split at h
      · rename_i hshort
        obtain ⟨rfl, rfl⟩ : s = s' ∧ buf = buf' := by simpa using h
        exact ⟨hb, by omega, Iff.rfl⟩
      · split at h
        · simp at h
        · split at h <;> simp at h
  · split at h
    · rename_i len headerKf hpending
      obtain ⟨rfl, rfl, hshort⟩ := pollBody_more h
      have := hb len headerKf hpending
      exact ⟨hb, by omega, Iff.rfl⟩
    · rename_i hpending
      split at h
      · rename_i hshort
        obtain ⟨rfl, rfl⟩ : s = s' ∧ buf = buf' := by simpa using h
        have : headerSize = 3 := rfl
        exact ⟨hb, by omega, Iff.rfl⟩
      · rename_i hlong
        split at h
        · simp at h
        · -- the header was taken off the buffer and awaits its body
          rename_i len headerKf protocolRx hp
          have hle := parseBinaryHeader_le hp
          obtain ⟨rfl, rfl, hshort⟩ := pollBody_more h
          refine ⟨?_, by omega, ?_⟩
          · intro len' headerKf' hp'
            obtain ⟨rfl, -⟩ : len = len' ∧ headerKf = headerKf' := by simpa using hp'
            exact hle
          · constructor
            · rintro ⟨-, hnone⟩
              simp at hnone
            · rintro ⟨hnil, -⟩
              rw [hnil] at hlong
              exact absurd (by decide) hlong

/-! ### Both carriers -/

/-- Both decoders refine a streaming decoder. -/
def RxWire.link (P : Primitives) : (w : Wire) → Link (RxStream.read P w) (RxWire.poll P w)
  | .session => pollLink P
  | .lengthPrefixed => prefixedLink

/-- Both decoders keep the buffer below the cap. -/
def RxWire.framing (P : Primitives) : (w : Wire) → Framing (RxWire.link P w) bufCap
  | .session =>
      { Good := SessionRx.Bounded
        idle := RxWire.idle .session
        good_fresh := by
          intro rx len headerKf h
          cases h
        idle_fresh := fun _ => rfl
        more := by
          intro s buf s' buf' hs hb h
          have hp : pollStep P s buf = .more s' buf' := h
          unfold pollStep at hp
          split at hp
          · cases hp
          · rename_i s₁ buf₁ himpl
            injection hp with hs' hbuf'
            subst hs' hbuf'
            exact pollFrameImpl_more hs hb himpl
          · cases hp }
  | .lengthPrefixed =>
      { Good := fun _ => True
        idle := RxWire.idle .lengthPrefixed
        good_fresh := fun _ => trivial
        idle_fresh := fun _ => rfl
        more := by
          intro t buf t' buf' _ _ h
          have hp : pollPrefixed buf = .more t' buf' := h
          rcases pollPrefixed_cases buf with ⟨m, rest, hq, -, -⟩ | ⟨hq, hlt⟩ | ⟨e, hq, -⟩
          · rw [hq] at hp
            cases hp
          · rw [hq] at hp
            injection hp with _ hbuf
            subst hbuf
            exact ⟨trivial, hlt, Iff.rfl⟩
          · rw [hq] at hp
            cases hp }

theorem RxWire.framing_idle (P : Primitives) (w : Wire) :
    (RxWire.framing P w).idle = RxWire.idle w := by
  cases w <;> rfl

theorem RxWire.link_fresh (P : Primitives) (w : Wire) :
    (RxWire.link P w).fresh = RxStream.fresh w := by
  cases w <;> rfl

/-- A receiving side that matches a sending side: the cores of one key in one phase, after any number
of messages; every prefixed carrier. -/
def Matching (P : Primitives) : (w : Wire) → TxWire w → RxStream w → Prop
  | .session, tx, rx =>
      ∃ key rng phase ms, afterAll P (Phase.cores P key rng phase) ms = (tx, rx)
  | .lengthPrefixed, _, _ => True

/-- Sending sides whose frames the receiving side reads. -/
def InStep : (w : Wire) → TxWire w → RxStream w → Prop
  | .session, tx, rx => Lockstep tx rx
  | .lengthPrefixed, _, _ => True

theorem Matching.inStep {P : Primitives} {w : Wire} {tx : TxWire w} {rx : RxStream w}
    (h : Matching P w tx rx) : InStep w tx rx := by
  cases w with
  | session =>
      obtain ⟨key, rng, phase, ms, hms⟩ := h
      have hp := afterAll_paired P (phase.cores_paired P key rng) ms
      rw [hms] at hp
      exact hp.1
  | lengthPrefixed => trivial

/-- One frame over either carrier. -/
theorem InStep.frame (P : Primitives) {w : Wire} {tx : TxWire w} {rx : RxStream w}
    (h : InStep w tx rx) {f : OutFrame} (hlen : f.message.length ≤ pppBufferSize) :
    ∃ bytes tx' rx', TxWire.encode P w tx f.header f.payload = (.ok bytes, tx') ∧
      (∀ rest, RxStream.read P w rx (bytes ++ rest) = .message f.message rx' rest) ∧
      InStep w tx' rx' := by
  have hpos := frameHeader_length_pos f.kind f.stream
  cases w with
  | session =>
      have hl : Lockstep tx rx := h
      obtain ⟨bytes, tx', rx', he, -, hread, hl', -, -⟩ :=
        hl.packet P f.header f.payload (by
          rw [List.length_append]
          exact Nat.add_pos_left hpos _) hlen
      have hframe : ∀ rest, readStep P rx (bytes ++ rest) = .message f.message rx' rest := by
        intro rest
        unfold readStep
        rw [hread]
        rfl
      exact ⟨bytes, tx', rx', he, hframe, hl'⟩
  | lengthPrefixed =>
      obtain ⟨bytes, he, hread⟩ := prefixed_frame hpos (hlen.trans (by decide))
      refine ⟨bytes, tx, rx, ?_, hread, trivial⟩
      change (TxWire.encodePrefixed f.header f.payload, tx) = _
      rw [OutFrame.header, he]

/-- A sequence of frames over either carrier. -/
theorem InStep.framed (P : Primitives) {w : Wire} (fs : List OutFrame) {tx : TxWire w}
    {rx : RxStream w} (h : InStep w tx rx) (hlen : ∀ f ∈ fs, f.message.length ≤ pppBufferSize) :
    ∃ bytes rx', TxWire.encodeAll P w tx fs = .ok bytes ∧
      Framed (RxStream.read P w) rx bytes (fs.map OutFrame.message) rx' := by
  induction fs generalizing tx rx with
  | nil => exact ⟨[], rx, rfl, Framed.nil rx⟩
  | cons f fs ih =>
      obtain ⟨bytes, tx', rx', he, hread, h'⟩ := h.frame P (hlen f (by simp))
      obtain ⟨bytes', rx'', he', hframed⟩ :=
        ih h' fun g hg => hlen g (List.mem_cons_of_mem _ hg)
      refine ⟨bytes ++ bytes', rx'', ?_, Framed.cons hread hframed⟩
      rw [TxWire.encodeAll, he]
      dsimp only
      rw [he']
      rfl

/-- Both carriers deliver the same messages.  Every sequence of frames of legal length is encoded,
and however the carrier cuts the bytes into reads, as many calls of the reader as there are frames
return exactly their messages in order and leave an empty buffer and a receiving side at a frame
boundary.  Whatever a reader receives, its buffer is below the cap whenever no complete frame is in
it. -/
theorem carriers_deliver (P : Primitives) (w : Wire) (tx : TxWire w) (rx : RxStream w)
    (hm : Matching P w tx rx) (fs : List OutFrame)
    (hlen : ∀ f ∈ fs, f.message.length ≤ pppBufferSize) :
    (∃ bytes rx', TxWire.encodeAll P w tx fs = .ok bytes ∧
      ∀ chunks : List (List UInt8), (∀ c ∈ chunks, c ≠ []) → chunks.flatten = bytes →
        (FrameReader.new rx).calls P fs.length (chunks.map .ok)
          = some (fs.map OutFrame.message, RxStream.fresh w rx', [], [])) ∧
    (∀ t buf t' buf', (RxWire.link P w).Inv t → (RxWire.framing P w).Good t →
      RxWire.poll P w t buf = .more t' buf' → buf'.length < bufCap) := by
  obtain ⟨bytes, rx', he, hframed⟩ := hm.inStep.framed P fs hlen
  refine ⟨⟨bytes, rx', he, ?_⟩, ?_⟩
  · intro chunks hne hcut
    have h : Incremental.calls (RxWire.poll P w) bufCap Error.invalidFrame
        (fs.map OutFrame.message).length ((RxWire.link P w).fresh rx) [] (chunks.map .ok)
          = some (fs.map OutFrame.message, (RxWire.link P w).fresh rx', [], []) :=
      calls_framed (RxWire.framing P w) hframed hne (by rw [List.nil_append, hcut])
    rw [List.length_map, RxWire.link_fresh] at h
    exact h
  · intro t buf t' buf' ht hg hp
    exact ((RxWire.framing P w).more ht hg hp).2.1

/-- Two frames over a prefixed carrier. -/
theorem carriers_deliver_two :
    (∃ bytes rx', TxWire.encodeAll .sample .lengthPrefixed ()
        [⟨.data, 1, [7, 8]⟩, ⟨.eof, 300, []⟩] = .ok bytes ∧
      ∀ chunks : List (List UInt8), (∀ c ∈ chunks, c ≠ []) → chunks.flatten = bytes →
        (FrameReader.new (w := .lengthPrefixed) ()).calls .sample 2 (chunks.map .ok)
          = some ([[2, 1, 7, 8], [3, 0xac, 0x02]], RxStream.fresh .lengthPrefixed rx', [], [])) :=
  (carriers_deliver .sample .lengthPrefixed () () trivial [⟨.data, 1, [7, 8]⟩, ⟨.eof, 300, []⟩]
    (by decide)).1

/-! ### The end of a carrier -/

/-- The reader returns a clean end only at a frame boundary, when the carrier answers these reads and
then closes. -/
def CleanEndOnly (P : Primitives) {w : Wire} (r : FrameReader w)
    (reads : List (Except Error (List UInt8))) : Prop :=
  ∀ n ms t buf reads' t' buf', r.calls P n reads = some (ms, t, buf, reads') →
    FrameReader.next P ⟨t, buf⟩ reads' = .closed t' buf' → FrameReader.AtBoundary ⟨t', buf'⟩

/-- What the carrier delivered is made of whole frames, up to the first bad one if there is one. -/
def WholeFrames (P : Primitives) {w : Wire} (rx : RxStream w) (bytes : List UInt8) : Prop :=
  ∀ left, leftover (RxStream.read P w) (bytes.length + 1) rx bytes = some left → left = []

/-- The reader reports a clean end at frame boundaries only, exactly when the carrier did not close
inside a frame. -/
theorem reader_closes_iff (P : Primitives) (w : Wire) (rx : RxStream w)
    (chunks : List (List UInt8)) (hne : ∀ c ∈ chunks, c ≠ []) :
    CleanEndOnly P (FrameReader.new rx) (chunks.map .ok) ↔ WholeFrames P rx chunks.flatten := by
  have h : ClosesIdle (RxWire.poll P w) bufCap Error.invalidFrame (RxWire.framing P w).idle
      ((RxWire.link P w).fresh rx) [] (chunks.map .ok) ↔
      ∀ left, leftover (RxStream.read P w) (chunks.flatten.length + 1) rx ([] ++ chunks.flatten)
        = some left → left = [] :=
    closes_idle_iff (RxWire.framing P w) (chunks.flatten.length + 1) hne (by simp)
  rw [RxWire.link_fresh, RxWire.framing_idle] at h
  exact h

/-- A prefixed carrier that delivers one whole frame. -/
theorem reader_closes_whole :
    (∀ c ∈ [[2, 3], [(1 : UInt8)]], c ≠ []) ∧
      CleanEndOnly .sample (FrameReader.new (w := .lengthPrefixed) ()) ([[2, 3], [1]].map .ok) := by
  have hne : ∀ c ∈ [[2, 3], [(1 : UInt8)]], c ≠ [] := by decide
  refine ⟨hne, (reader_closes_iff .sample .lengthPrefixed () _ hne).2 ?_⟩
  intro left hleft
  have hval : leftover (RxStream.read .sample .lengthPrefixed) 4 () [2, 3, 1] = some [] := by decide
  exact (Option.some.inj (hval.symm.trans hleft)).symm

/-- A prefixed carrier that closes after one byte of a message of five: a clean end. -/
theorem reader_closes_inside :
    ¬ CleanEndOnly .sample (FrameReader.new (w := .lengthPrefixed) ()) ([[5, 1]].map .ok) := by
  intro h
  have hb := h 0 [] () [] _ () [5, 1] rfl rfl
  exact absurd hb.1 (by simp)

end Nextppp

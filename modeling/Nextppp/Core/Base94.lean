/-
**The base94 framer of `frame/base94.rs`.**

The printable envelope used before the handshake completes, and for ever in plaintext mode.  A
frame is a short obfuscated header followed by the base94 encoding of a binary packet; the first
frame of a direction carries three checksum digits more.

The framer keeps two first-frame flags, one per direction.  Its modulus and offset come from `kf`;
the bounds that make every length and every checksum fit in three digits are fields of the
structure.  Functions that can fail return the framer along with the result, so that a failure that
leaves the state alone is visible as such.  A stream is the list of bytes it still holds.

Main definitions:

* `Nextppp.Base94Framer` and `Nextppp.Base94Framer.new`;
* `Nextppp.Base94Framer.encodeHeader`, `Nextppp.Base94Framer.encodeFrame`;
* `Nextppp.Base94Framer.decodeHeader`, `Nextppp.Base94Framer.peekFrameLen`,
  `Nextppp.Base94Framer.readFrameInto`, `Nextppp.Base94Framer.decodePacketInto`.

Main results:

* `Nextppp.Base94Framer.parameters_in_range` — the parameters of every framer are in range;
* `Nextppp.Base94Framer.encodeFrame_spec` — encoding succeeds, is printable and consists of a
  header that a framer with the same parameters decodes to the length of the body;
* `Nextppp.Base94Framer.decodePacketInto_frame` — a frame decodes to its packet;
* `Nextppp.Base94Framer.peek_none`, `Nextppp.Base94Framer.peek_error`,
  `Nextppp.Base94Framer.peek_some_short`, `Nextppp.Base94Framer.peek_some_full` — peeking, reading
  from a stream and decoding in memory agree on every buffer.
-/

import Nextppp.Core.Base94Codec
import Nextppp.Core.Ssea

set_option relaxedAutoImplicit false
set_option autoImplicit false

namespace Nextppp

open ListLib

/-- Simple header size (all frames). -/
def headerSimple : ℕ := 4

/-- Extended header size (first frame per direction, includes the checksum). -/
def headerExtended : ℕ := 7

/-- Stateful base94 frame codec. -/
structure Base94Framer where
  kf : UInt32
  mod_ : ℕ
  kfMod : ℕ
  txFirst : Bool
  rxFirst : Bool
  mod_ge : modMin ≤ mod_
  mod_le : mod_ ≤ modMax
  kfMod_lt : kfMod < mod_

namespace Base94Framer

/-- `abs(int32(kf) % int32(mod))`. -/
def kfModOf (kf : UInt32) (m : ℕ) : ℕ := (Int.tmod kf.toBitVec.toInt (m : ℤ)).natAbs

theorem kfModOf_lt (kf : UInt32) {m : ℕ} (h : 0 < m) : kfModOf kf m < m := by
  rw [kfModOf, Int.natAbs_tmod, Int.natAbs_natCast]
  exact Nat.mod_lt _ h

/-- The framer of a key: the modulus is the first draw of the generator seeded with `kf`. -/
def new (kf : UInt32) : Base94Framer where
  kf := kf
  mod_ := (lcgRange kf modMin modMax).1
  kfMod := kfModOf kf (lcgRange kf modMin modMax).1
  txFirst := true
  rxFirst := true
  mod_ge := lcgRange_ge kf modMin modMax
  mod_le := lcgRange_le kf (by decide)
  kfMod_lt := kfModOf_lt kf ((by decide : 0 < modMin).trans_le (lcgRange_ge kf modMin modMax))

/-! ### Encoding -/

/-- The seed byte, whose parity tells whether the first length character is a digit or filler, and
that character. -/
def seedBytes (rng : Rng) (h₁ : UInt8) : (UInt8 × UInt8) × Rng :=
  let k := rng.randomRange 0x20 0x7e
  if h₁ = 0x20 then
    -- fewer than three digits: filler in front of them, and an even seed
    let filler := k.2.randomRange 0x20 0x7e
    ((UInt8.ofNat (if k.1 % 2 ≠ 0 then k.1 + 1 else k.1), UInt8.ofNat filler.1), filler.2)
  else
    ((UInt8.ofNat (if k.1 % 2 = 0 then if 0x7e < k.1 + 1 then 0x21 else k.1 + 1 else k.1), h₁), k.2)

/-- The header of an encoded payload of `length` characters. -/
def encodeHeader (f : Base94Framer) (rng : Rng) (length : ℕ) :
    Except Error (List UInt8) × Base94Framer × Rng :=
  let digits := base94DecimalEncode ((length + f.kfMod) % f.mod_)
  if digits.length = 0 ∨ headerSimple ≤ digits.length then (.error .invalidFrame, f, rng)
  else
    let h := List.replicate (headerSimple - digits.length) 0x20 ++ digits
    let s := seedBytes rng (h.getD 1 0x20)
    let h := swapAt ((h.set 0 s.1.1).set 1 s.1.2) 2 3
    if f.txFirst then
      let chk := inetChksum h ^^^ length
      let cdigits := base94DecimalEncode ((chk + f.kfMod) % f.mod_)
      if cdigits.length = 0 ∨ headerExtended - headerSimple < cdigits.length then
        (.error .invalidFrame, f, s.2)
      else
        let c := List.replicate (headerExtended - headerSimple - cdigits.length) 0x20 ++ cdigits
        (.ok (h ++ shuffle c f.kf), { f with txFirst := false }, s.2)
    else (.ok h, f, s.2)

/-- One framed packet: header and base94 payload. -/
def encodeFrame (f : Base94Framer) (rng : Rng) (binary : List UInt8) :
    Except Error (List UInt8) × Base94Framer × Rng :=
  if binary.isEmpty then (.error .zeroLength, f, rng)
  else
    let encodedLen := base94EncodedLen f.kf binary
    if base94MaxFrame < encodedLen then (.error (.frameTooLarge encodedLen), f, rng)
    else
      match f.encodeHeader rng encodedLen with
      | (.ok h, f', rng') => (.ok (h ++ base94EncodeInto f.kf binary), f', rng')
      | (.error e, f', rng') => (.error e, f', rng')

/-! ### Decoding -/

/-- The canonical header form: filler cleared when the seed is even, seed reset, length digits
swapped back. -/
def restoreHeader (h : List UInt8) : List UInt8 :=
  swapAt ((if (h.getD 0 0).toNat % 2 = 0 then h.set 1 0x20 else h).set 0 0x20) 2 3

/-- Un-obfuscate a length field. -/
def decodeLength (f : Base94Framer) (digits : List UInt8) : Except Error ℕ :=
  (base94DecimalDecode digits).map fun n => (n + (f.mod_ - f.kfMod)) % f.mod_

/-- Decode and validate the extended (first) header. -/
def decodeHeaderExtended (f : Base94Framer) (h : List UInt8) : Except Error ℕ :=
  let chk := inetChksum (h.take headerSimple)
  match f.decodeLength ((restoreHeader (h.take headerSimple)).drop 1) with
  | .error e => .error e
  | .ok len =>
      if len < 1 then .error .invalidFrame
      else
        match f.decodeLength (unshuffle (h.drop headerSimple) f.kf) with
        | .error e => .error e
        | .ok n => if n ≠ chk ^^^ len then .error .checksumMismatch else .ok len

/-- Decode a simple header. -/
def decodeHeaderSimple (f : Base94Framer) (h : List UInt8) : Except Error ℕ :=
  match f.decodeLength ((restoreHeader h).drop 1) with
  | .error e => .error e
  | .ok len => if len < 1 then .error .invalidFrame else .ok len

/-- The bound on the declared length. -/
def checkBound (len : ℕ) : Except Error Unit :=
  if base94MaxFrame < len then .error (.frameTooLarge len) else .ok ()

/-- Size of the header the receiving direction expects. -/
def headerLen (f : Base94Framer) : ℕ := if f.rxFirst then headerExtended else headerSimple

/-- The declared length of the header the receiving direction expects, checked against the
bound. -/
def decodeHeader (f : Base94Framer) (h : List UInt8) : Except Error ℕ :=
  match if f.rxFirst then f.decodeHeaderExtended h else f.decodeHeaderSimple h with
  | .error e => .error e
  | .ok len =>
      match checkBound len with
      | .error e => .error e
      | .ok () => .ok len

/-- Total length of the frame at the front of `buf`, or `none` while its header is incomplete. -/
def peekFrameLen (f : Base94Framer) (buf : List UInt8) : Except Error (Option ℕ) :=
  if buf.length < f.headerLen then .ok none
  else
    match f.decodeHeader (buf.take f.headerLen) with
    | .error e => .error e
    | .ok len => .ok (some (f.headerLen + len))

/-- What `read_exact` reports when the stream ends early. -/
def eofError : Error := .io .unexpectedEof "failed to fill whole buffer"

/-- Read one frame off a stream: the decoded binary packet, the framer and what is left. -/
def readFrameInto (f : Base94Framer) (io : List UInt8) :
    Except Error (List UInt8) × Base94Framer × List UInt8 :=
  if io.length < f.headerLen then (.error eofError, f, [])
  else
    match f.decodeHeader (io.take f.headerLen) with
    | .error e => (.error e, f, io.drop f.headerLen)
    | .ok len =>
        let scratch := (io.drop f.headerLen).take len
        if scratch.length ≠ len then
          (.error (.io .unexpectedEof "truncated base94 frame"), f, [])
        else
          match base94DecodeInto f.kf scratch with
          | .error e => (.error e, f, io.drop (f.headerLen + len))
          | .ok out => (.ok out, { f with rxFirst := false }, io.drop (f.headerLen + len))

/-- Decode one frame held in memory, with the length-consistency check. -/
def decodePacketInto (f : Base94Framer) (packet : List UInt8) :
    Except Error (List UInt8) × Base94Framer :=
  if packet.length < f.headerLen then (.error .invalidFrame, f)
  else
    match f.decodeHeader (packet.take f.headerLen) with
    | .error e => (.error e, f)
    | .ok len =>
        if len + f.headerLen ≠ packet.length then (.error .invalidFrame, f)
        else
          match base94DecodeInto f.kf (packet.drop f.headerLen) with
          | .error e => (.error e, f)
          | .ok out => (.ok out, { f with rxFirst := false })

/-! ### What a header says -/

theorem length_lt_mod (f : Base94Framer) {n : ℕ} (h : n ≤ base94MaxFrame) : n < f.mod_ :=
  lt_of_lt_of_le (lt_of_le_of_lt h (by decide)) f.mod_ge

theorem residue_lt (f : Base94Framer) (n : ℕ) : (n + f.kfMod) % f.mod_ < 94 ^ 3 :=
  lt_of_lt_of_le (Nat.mod_lt _ (Nat.zero_lt_of_lt f.kfMod_lt)) f.mod_le

/-- The remainder of the two's complement views is the remainder of the integers, and taking its
absolute value cannot overflow. -/
theorem kfModOf_eq_srem (kf : UInt32) {m : ℕ} (hm : m < 2 ^ 31) :
    kfModOf kf m = (BitVec.srem kf.toBitVec (BitVec.ofNat 32 m)).toInt.natAbs := by
  have hint : (BitVec.ofNat 32 m).toInt = (m : ℤ) := by
    rw [BitVec.toInt_eq_toNat_of_lt] <;> rw [BitVec.toNat_ofNat, Nat.mod_eq_of_lt (by omega)]
    omega
  rw [kfModOf, BitVec.toInt_srem, hint]

/-- Un-obfuscating a length adds the modulus before it subtracts the offset, so nothing underflows,
and the result is a residue. -/
theorem decodeLength_lt (f : Base94Framer) {digits : List UInt8} {n : ℕ}
    (h : f.decodeLength digits = .ok n) : n < f.mod_ := by
  have hpos : 0 < f.mod_ := (by decide : 0 < modMin).trans_le f.mod_ge
  cases hd : base94DecimalDecode digits with
  | error e => rw [decodeLength, hd] at h; cases h
  | ok v =>
      rw [decodeLength, hd] at h
      cases h
      exact Nat.mod_lt _ hpos

/-- The generator is the reference chain, and the parameters of every framer are in range: the
modulus between its bounds, the offset below the modulus, so that the difference that
`decode_length` adds never underflows and every length it returns is a residue. -/
theorem parameters_in_range :
    (∀ seed : UInt32, lcgNext seed = lcgNextReference seed ∧ (lcgNext seed).1.toNat < 2 ^ 31) ∧
    ∀ kf : UInt32,
      modMin ≤ (new kf).mod_ ∧ (new kf).mod_ ≤ modMax ∧ (new kf).kfMod < (new kf).mod_ ∧
      (new kf).kfMod =
        (BitVec.srem kf.toBitVec (BitVec.ofNat 32 (new kf).mod_)).toInt.natAbs ∧
      (UInt32.ofNat (new kf).mod_ - UInt32.ofNat (new kf).kfMod).toNat =
        (new kf).mod_ - (new kf).kfMod ∧
      ∀ digits n, (new kf).decodeLength digits = .ok n → n < (new kf).mod_ := by
  constructor
  · exact fun seed => ⟨lcgNext_eq_reference seed, lcgNext_lt seed⟩
  · intro kf
    have hlt := (new kf).kfMod_lt
    have hle := (new kf).mod_le
    have hmax : modMax < 2 ^ 31 := by decide
    refine ⟨(new kf).mod_ge, hle, hlt, kfModOf_eq_srem kf (hle.trans_lt hmax), ?_, fun digits n => ?_⟩
    · have hmod : (UInt32.ofNat (new kf).mod_).toNat = (new kf).mod_ :=
        UInt32.toNat_ofNat_of_lt' (by simp only [UInt32.size]; omega)
      have hoff : (UInt32.ofNat (new kf).kfMod).toNat = (new kf).kfMod :=
        UInt32.toNat_ofNat_of_lt' (by simp only [UInt32.size]; omega)
      rw [UInt32.toNat_sub_of_le, hmod, hoff]
      rw [UInt32.le_iff_toNat_le, hmod, hoff]
      exact hlt.le
    · exact (new kf).decodeLength_lt

/-- A numeral that reads as a value offset and reduced is decoded to the value. -/
theorem decodeLength_of_decimal (f : Base94Framer) {n : ℕ} (hn : n < f.mod_) {digits : List UInt8}
    (h : base94DecimalDecode digits = .ok ((n + f.kfMod) % f.mod_)) :
    f.decodeLength digits = .ok n := by
  have hsum : n + f.kfMod + (f.mod_ - f.kfMod) = n + f.mod_ := by
    have := f.kfMod_lt
    omega
  rw [decodeLength, h]
  simp only [Except.map, Nat.mod_add_mod, hsum, Nat.add_mod_right, Nat.mod_eq_of_lt hn]

/-- A value offset, reduced, written in base 94 and padded is decoded to itself. -/
theorem decodeLength_padded (f : Base94Framer) {n : ℕ} (hn : n < f.mod_) (k : ℕ) :
    f.decodeLength (List.replicate k 0x20 ++ base94DecimalEncode ((n + f.kfMod) % f.mod_))
      = .ok n :=
  f.decodeLength_of_decimal hn (base94DecimalDecode_padded (f.residue_lt n) k)

/-- The three padded digits of a residue. -/
theorem digits_three (f : Base94Framer) (n : ℕ) :
    ∃ a b c : UInt8,
      List.replicate (3 - (base94DecimalEncode ((n + f.kfMod) % f.mod_)).length) 0x20 ++
          base94DecimalEncode ((n + f.kfMod) % f.mod_) = [a, b, c] ∧
      Printable a ∧ Printable b ∧ Printable c := by
  obtain ⟨hpos, hle⟩ := base94DecimalEncode_length (f.residue_lt n)
  have hdig : ∀ c ∈ List.replicate (3 - (base94DecimalEncode ((n + f.kfMod) % f.mod_)).length) 0x20
      ++ base94DecimalEncode ((n + f.kfMod) % f.mod_), Printable c := by
    intro c hc
    rcases List.mem_append.1 hc with hc | hc
    · obtain rfl := List.eq_of_mem_replicate hc
      decide
    · have := base94DecimalEncode_digit hc
      exact ⟨this.1, this.2.trans (by decide)⟩
  obtain ⟨a, b, c, habc⟩ := List.length_eq_three.1 (show (List.replicate
      (3 - (base94DecimalEncode ((n + f.kfMod) % f.mod_)).length) (0x20 : UInt8) ++
      base94DecimalEncode ((n + f.kfMod) % f.mod_)).length = 3 by simp; omega)
  rw [habc] at hdig ⊢
  exact ⟨a, b, c, rfl, hdig a (by simp), hdig b (by simp), hdig c (by simp)⟩

/-- The seed byte and the filler are printable, and the parity of the seed tells how to restore the
first length character. -/
theorem seedBytes_spec (rng : Rng) {a : UInt8} (ha : Printable a) :
    Printable (seedBytes rng a).1.1 ∧ Printable (seedBytes rng a).1.2 ∧
      (if (seedBytes rng a).1.1.toNat % 2 = 0 then 0x20 else (seedBytes rng a).1.2) = a := by
  have hlo := rng.randomRange_ge 0x20 0x7e
  have hhi := rng.randomRange_le (by decide : 0x20 ≤ 0x7e)
  unfold seedBytes
  generalize rng.randomRange 0x20 0x7e = k at hlo hhi
  have hlo' := k.2.randomRange_ge 0x20 0x7e
  have hhi' := k.2.randomRange_le (by decide : 0x20 ≤ 0x7e)
  dsimp only
  split
  · rename_i h
    have hk : (UInt8.ofNat (if k.1 % 2 ≠ 0 then k.1 + 1 else k.1)).toNat
        = if k.1 % 2 ≠ 0 then k.1 + 1 else k.1 := toNat_ofNat_lt (by split <;> omega)
    have hr := k.2.toNat_ofNat_randomRange (by decide : 0x20 ≤ 0x7e) (by decide)
    simp only [Printable, hk, hr]
    refine ⟨by split <;> omega, ⟨hlo', hhi'⟩, ?_⟩
    rw [if_pos (by split <;> omega), h]
  · have hk : (UInt8.ofNat (if k.1 % 2 = 0 then if 0x7e < k.1 + 1 then 0x21 else k.1 + 1
        else k.1)).toNat = if k.1 % 2 = 0 then if 0x7e < k.1 + 1 then 0x21 else k.1 + 1 else k.1 :=
      toNat_ofNat_lt (by split <;> [split; skip] <;> omega)
    simp only [Printable, hk]
    refine ⟨by split <;> [split; skip] <;> omega, ha, ?_⟩
    rw [if_neg (by split <;> [split; skip] <;> omega)]

/-- Two framers that agree on everything a header depends on. -/
structure SameParams (f g : Base94Framer) : Prop where
  kf : g.kf = f.kf
  mod_ : g.mod_ = f.mod_
  kfMod : g.kfMod = f.kfMod

theorem SameParams.decodeLength {f g : Base94Framer} (h : SameParams f g) (d : List UInt8) :
    g.decodeLength d = f.decodeLength d := by
  simp only [Base94Framer.decodeLength, h.mod_, h.kfMod]

/-! ### Encoding, then decoding -/

/-- The four characters of a simple header: how they are built, that they are printable, and that
they are restored to the padded digits. -/
theorem simpleHeader_spec (f : Base94Framer) (rng : Rng) (n : ℕ) :
    let digits := base94DecimalEncode ((n + f.kfMod) % f.mod_)
    let h := List.replicate (headerSimple - digits.length) 0x20 ++ digits
    let s := seedBytes rng (h.getD 1 0x20)
    let h' := swapAt ((h.set 0 s.1.1).set 1 s.1.2) 2 3
    h'.length = headerSimple ∧ (∀ c ∈ h', Printable c) ∧
      (restoreHeader h').drop 1 = List.replicate (3 - digits.length) 0x20 ++ digits := by
  obtain ⟨a, b, c, habc, ha, hb, hc⟩ := f.digits_three n
  obtain ⟨hpos, hle⟩ := base94DecimalEncode_length (f.residue_lt n)
  intro digits h s h'
  have hh : h = [0x20, a, b, c] := by
    have hsucc : headerSimple - digits.length = 3 - digits.length + 1 := by
      change 4 - digits.length = _
      have : digits.length ≤ 3 := hle
      omega
    rw [show h = List.replicate (headerSimple - digits.length) 0x20 ++ digits from rfl, hsucc,
      List.replicate_succ, List.cons_append, habc]
  have hs : s = seedBytes rng a := by rw [show s = seedBytes rng (h.getD 1 0x20) from rfl, hh]; rfl
  obtain ⟨hk, hf, hrestore⟩ := seedBytes_spec rng ha
  have hh' : h' = [s.1.1, s.1.2, c, b] := by
    rw [show h' = swapAt ((h.set 0 s.1.1).set 1 s.1.2) 2 3 from rfl, hh]
    rfl
  rw [← hs] at hk hf hrestore
  refine ⟨by rw [hh']; rfl, ?_, ?_⟩
  · intro x hx
    rw [hh'] at hx
    simp only [List.mem_cons, List.not_mem_nil, or_false] at hx
    rcases hx with rfl | rfl | rfl | rfl
    · exact hk
    · exact hf
    · exact hc
    · exact hb
  · rw [habc, hh']
    simp only [restoreHeader, List.getD_cons_zero]
    split at hrestore
    · rename_i heven
      rw [if_pos heven, ← hrestore]
      rfl
    · rename_i hodd
      rw [if_neg hodd, ← hrestore]
      rfl

theorem chk_lt_mod (f : Base94Framer) (h : List UInt8) {n : ℕ} (hn : n ≤ base94MaxFrame) :
    inetChksum h ^^^ n < f.mod_ := by
  have hchk : inetChksum h < 2 ^ 18 := (inetChksum_lt h).trans (by decide)
  have hn' : n < 2 ^ 18 := lt_of_le_of_lt hn (by decide)
  exact lt_of_lt_of_le (Nat.xor_lt_two_pow hchk hn') f.mod_ge

/-- A first header: the simple one and the shuffled checksum digits. -/
theorem decodeHeaderExtended_append (g : Base94Framer) {h cs : List UInt8} {n : ℕ}
    (hlen : h.length = headerSimple) (hpos : 0 < n)
    (hn : g.decodeLength ((restoreHeader h).drop 1) = .ok n)
    (hchk : g.decodeLength cs = .ok (inetChksum h ^^^ n)) :
    g.decodeHeaderExtended (h ++ shuffle cs g.kf) = .ok n := by
  have htake : (h ++ shuffle cs g.kf).take headerSimple = h :=
    List.take_left' hlen
  have hdrop : (h ++ shuffle cs g.kf).drop headerSimple = shuffle cs g.kf :=
    List.drop_left' hlen
  rw [decodeHeaderExtended, htake, hdrop, hn, unshuffle_shuffle, hchk]
  dsimp only
  rw [if_neg (by omega), if_neg (by simp)]

/-- The header of a first frame: the four characters of the simple header and three shuffled
checksum digits. -/
theorem encodeHeader_first (f : Base94Framer) (rng : Rng) {n : ℕ} (hn : n ≤ base94MaxFrame)
    (htx : f.txFirst = true) :
    ∃ h cs rng', f.encodeHeader rng n =
        (.ok (h ++ shuffle cs f.kf), { f with txFirst := false }, rng') ∧
      h.length = headerSimple ∧ cs.length = 3 ∧ (∀ c ∈ h, Printable c) ∧ (∀ c ∈ cs, Printable c) ∧
      f.decodeLength ((restoreHeader h).drop 1) = .ok n ∧
      base94DecimalDecode cs = .ok (((inetChksum h ^^^ n) + f.kfMod) % f.mod_) := by
  obtain ⟨hdpos, hdle⟩ := base94DecimalEncode_length (f.residue_lt n)
  obtain ⟨hlen, hprint, hrest⟩ := f.simpleHeader_spec rng n
  unfold encodeHeader
  dsimp only at hlen hprint hrest ⊢
  rw [if_neg (by rw [headerSimple]; omega), if_pos htx]
  generalize hs : seedBytes rng _ = s at hlen hprint hrest ⊢
  generalize swapAt _ 2 3 = h at hlen hprint hrest ⊢
  obtain ⟨hcpos, hcle⟩ := base94DecimalEncode_length (f.residue_lt (inetChksum h ^^^ n))
  obtain ⟨a, b, c, habc, ha, hb, hc⟩ := f.digits_three (inetChksum h ^^^ n)
  rw [if_neg (by rw [headerExtended, headerSimple]; omega)]
  refine ⟨h, _, s.2, rfl, hlen, ?_, hprint, ?_, ?_, ?_⟩
  · simp only [headerExtended, headerSimple, Nat.reduceSub]
    rw [habc]
    rfl
  · simp only [headerExtended, headerSimple, Nat.reduceSub]
    rw [habc]
    intro x hx
    simp only [List.mem_cons, List.not_mem_nil, or_false] at hx
    rcases hx with rfl | rfl | rfl
    · exact ha
    · exact hb
    · exact hc
  · rw [hrest]
    exact f.decodeLength_padded (f.length_lt_mod hn) _
  · exact base94DecimalDecode_padded (f.residue_lt _) _
/-- The header of a legal length: never an error, printable, of the size the receiving direction
expects, and decoded to the length. -/
theorem encodeHeader_spec (f : Base94Framer) (rng : Rng) {n : ℕ} (hpos : 0 < n)
    (hn : n ≤ base94MaxFrame) :
    ∃ h rng', f.encodeHeader rng n = (.ok h, { f with txFirst := false }, rng') ∧
      (∀ c ∈ h, Printable c) ∧
      ∀ g : Base94Framer, SameParams f g → g.rxFirst = f.txFirst →
        h.length = g.headerLen ∧ g.decodeHeader h = .ok n := by
  have hbound : checkBound n = .ok () := if_neg (by omega)
  by_cases htx : f.txFirst = true
  · -- the first frame: three checksum digits, shuffled
    obtain ⟨h, cs, rng', henc, hlen, hcs, hprint, hcprint, hdec, hchk⟩ :=
      f.encodeHeader_first rng hn htx
    refine ⟨_, rng', henc, ?_, ?_⟩
    · intro x hx
      rcases List.mem_append.1 hx with hx | hx
      · exact hprint x hx
      · exact hcprint x ((shuffle_perm cs f.kf).mem_iff.1 hx)
    · intro g hg hfirst
      have hgrx : g.rxFirst = true := hfirst.trans htx
      refine ⟨?_, ?_⟩
      · rw [List.length_append, hlen, shuffle_length, hcs, headerLen, if_pos hgrx]
        rfl
      · have hext := g.decodeHeaderExtended_append hlen hpos ((hg.decodeLength _).trans hdec)
          ((hg.decodeLength _).trans (f.decodeLength_of_decimal (f.chk_lt_mod h hn) hchk))
        rw [hg.kf] at hext
        rw [decodeHeader, if_pos hgrx, hext]
        dsimp only
        rw [hbound]
  · obtain ⟨hdpos, hdle⟩ := base94DecimalEncode_length (f.residue_lt n)
    obtain ⟨hlen, hprint, hrest⟩ := f.simpleHeader_spec rng n
    have hfalse : f.txFirst = false := by simpa using htx
    unfold encodeHeader
    dsimp only at hlen hprint hrest ⊢
    rw [if_neg (by rw [headerSimple]; omega), if_neg htx]
    generalize hs : seedBytes rng _ = s at hlen hprint hrest ⊢
    generalize swapAt _ 2 3 = h at hlen hprint hrest ⊢
    refine ⟨h, s.2, by rw [← hfalse], hprint, ?_⟩
    intro g hg hfirst
    have hgrx : g.rxFirst = false := hfirst.trans hfalse
    have hdec : g.decodeLength (List.replicate (3 - (base94DecimalEncode
        ((n + f.kfMod) % f.mod_)).length) 0x20 ++ base94DecimalEncode ((n + f.kfMod) % f.mod_))
        = .ok n := by
      rw [hg.decodeLength]
      exact f.decodeLength_padded (f.length_lt_mod hn) _
    refine ⟨by rw [hlen, headerLen, hgrx]; rfl, ?_⟩
    rw [decodeHeader, hgrx, if_neg (by simp), decodeHeaderSimple, hrest, hdec]
    dsimp only
    rw [if_neg (by omega)]
    dsimp only
    rw [hbound]

/-- A framed packet of legal size. -/
theorem encodeFrame_spec (f : Base94Framer) (rng : Rng) {binary : List UInt8} (hne : binary ≠ [])
    (hlen : base94EncodedLen f.kf binary ≤ base94MaxFrame) :
    ∃ h rng', f.encodeFrame rng binary =
        (.ok (h ++ base94EncodeInto f.kf binary), { f with txFirst := false }, rng') ∧
      (∀ c ∈ h ++ base94EncodeInto f.kf binary, Printable c) ∧
      ∀ g : Base94Framer, SameParams f g → g.rxFirst = f.txFirst →
        h.length = g.headerLen ∧
          g.decodeHeader h = .ok (base94EncodeInto f.kf binary).length := by
  obtain ⟨h, rng', henc, hprint, hdec⟩ :=
    f.encodeHeader_spec rng (base94EncodedLen_pos f.kf hne) hlen
  refine ⟨h, rng', ?_, ?_, ?_⟩
  · rw [encodeFrame, if_neg (by simpa using hne)]
    dsimp only
    rw [if_neg (by omega), henc]
  · intro c hc
    rcases List.mem_append.1 hc with hc | hc
    · exact hprint c hc
    · exact base94EncodeInto_printable _ _ c hc
  · rw [base94EncodeInto_length]
    exact hdec

/-- Whatever frame comes out is printable. -/
theorem encodeFrame_printable (f : Base94Framer) (rng : Rng) {binary w : List UInt8}
    (h : (f.encodeFrame rng binary).1 = .ok w) : ∀ c ∈ w, Printable c := by
  by_cases hne : binary = []
  · simp [encodeFrame, hne] at h
  by_cases hlen : base94EncodedLen f.kf binary ≤ base94MaxFrame
  · obtain ⟨hd, rng', henc, hprint, -⟩ := f.encodeFrame_spec rng hne hlen
    rw [henc] at h
    obtain rfl : hd ++ base94EncodeInto f.kf binary = w := by simpa using h
    exact hprint
  · rw [encodeFrame, if_neg (by simpa using hne)] at h
    dsimp only at h
    rw [if_pos (by omega)] at h
    simp at h

/-! ### The three decoders -/

theorem headerLen_pos (f : Base94Framer) : 0 < f.headerLen := by
  rw [headerLen]
  split <;> decide

theorem headerLen_le (f : Base94Framer) : f.headerLen ≤ 7 := by
  rw [headerLen]
  split <;> decide

/-- A base94 frame is not longer than its header and the bound on its body. -/
theorem peekFrameLen_le {f : Base94Framer} {buf : List UInt8} {total : ℕ}
    (h : f.peekFrameLen buf = .ok (some total)) : total ≤ f.headerLen + base94MaxFrame := by
  unfold peekFrameLen at h
  split at h
  · cases h
  · split at h
    · cases h
    · rename_i len hd
      obtain rfl : f.headerLen + len = total := by simpa using h
      unfold decodeHeader at hd
      split at hd
      · cases hd
      · rename_i len' _
        unfold checkBound at hd
        split at hd
        · cases hd
        · rename_i hbound
          split at hbound
          · cases hbound
          · obtain rfl : len' = len := by simpa using hd
            omega

/-- A frame decodes to its packet. -/
theorem decodePacketInto_frame (g : Base94Framer) {h binary : List UInt8}
    (hlen : h.length = g.headerLen)
    (hdec : g.decodeHeader h = .ok (base94EncodeInto g.kf binary).length) :
    g.decodePacketInto (h ++ base94EncodeInto g.kf binary)
      = (.ok binary, { g with rxFirst := false }) := by
  have htake : (h ++ base94EncodeInto g.kf binary).take g.headerLen = h :=
    List.take_left' hlen
  have hdrop : (h ++ base94EncodeInto g.kf binary).drop g.headerLen
      = base94EncodeInto g.kf binary :=
    List.drop_left' hlen
  rw [decodePacketInto, if_neg (by simp [← hlen]), htake, hdec, hdrop]
  dsimp only
  rw [if_neg (by simp [← hlen, Nat.add_comm]), base94DecodeInto_encodeInto]

/-- The three decoders take the same decision on every buffer: while the header is incomplete there
is nothing to peek at, the stream reader runs out of bytes and the in-memory decoder rejects. -/
theorem peek_none {f : Base94Framer} {buf : List UInt8} (h : f.peekFrameLen buf = .ok none) :
    f.readFrameInto buf = (.error eofError, f, []) ∧
      f.decodePacketInto buf = (.error .invalidFrame, f) := by
  unfold peekFrameLen at h
  split at h
  · rename_i hshort
    rw [readFrameInto, decodePacketInto, if_pos hshort, if_pos hshort]
    exact ⟨rfl, rfl⟩
  · split at h <;> simp at h

/-- A header that cannot be peeked at is rejected with the same error by all three, and the framer
stays as it was. -/
theorem peek_error {f : Base94Framer} {buf : List UInt8} {e : Error}
    (h : f.peekFrameLen buf = .error e) :
    f.readFrameInto buf = (.error e, f, buf.drop f.headerLen) ∧
      f.decodePacketInto buf = (.error e, f) := by
  unfold peekFrameLen at h
  split at h
  · simp at h
  · rename_i hlong
    split at h
    · rename_i e' he
      obtain rfl : e' = e := by simpa using h
      rw [readFrameInto, decodePacketInto, if_neg hlong, if_neg hlong, he]
      exact ⟨rfl, rfl⟩
    · simp at h

/-- Once the length is known, the stream reader waits for the whole frame. -/
theorem peek_some_short {f : Base94Framer} {buf : List UInt8} {total : ℕ}
    (h : f.peekFrameLen buf = .ok (some total)) (hshort : buf.length < total) :
    f.readFrameInto buf = (.error (.io .unexpectedEof "truncated base94 frame"), f, []) ∧
      f.decodePacketInto buf = (.error .invalidFrame, f) := by
  unfold peekFrameLen at h
  split at h
  · simp at h
  · rename_i hlong
    split at h
    · simp at h
    · rename_i len hlen
      obtain rfl : f.headerLen + len = total := by simpa using h
      rw [readFrameInto, decodePacketInto, if_neg hlong, if_neg hlong, hlen]
      dsimp only
      rw [if_pos (by rw [List.length_take, List.length_drop]; omega), if_pos (by omega)]
      exact ⟨rfl, rfl⟩

/-- With the whole frame in the buffer, the stream reader does what the in-memory decoder does on
the frame, and leaves the bytes behind it. -/
theorem peek_some_full {f : Base94Framer} {buf : List UInt8} {total : ℕ}
    (h : f.peekFrameLen buf = .ok (some total)) (hfull : total ≤ buf.length) :
    f.readFrameInto buf =
      ((f.decodePacketInto (buf.take total)).1, (f.decodePacketInto (buf.take total)).2,
        buf.drop total) := by
  unfold peekFrameLen at h
  split at h
  · simp at h
  · rename_i hlong
    split at h
    · simp at h
    · rename_i len hlen
      obtain rfl : f.headerLen + len = total := by simpa using h
      have htake : (buf.take (f.headerLen + len)).take f.headerLen = buf.take f.headerLen := by
        rw [List.take_take, Nat.min_eq_left (Nat.le_add_right _ _)]
      have hdrop : (buf.take (f.headerLen + len)).drop f.headerLen
          = (buf.drop f.headerLen).take len := by
        rw [List.drop_take, Nat.add_sub_cancel_left]
      have hbody : ((buf.drop f.headerLen).take len).length = len := by
        rw [List.length_take, List.length_drop]
        omega
      rw [readFrameInto, decodePacketInto, if_neg hlong,
        if_neg (by rw [List.length_take]; omega), htake, hlen, hdrop]
      dsimp only
      rw [if_neg (by rw [hbody]; simp), if_neg (by rw [List.length_take]; omega)]
      split <;> rfl

/-- A frame at the front of a stream is read off it. -/
theorem readFrameInto_frame (g : Base94Framer) {h binary : List UInt8} (rest : List UInt8)
    (hlen : h.length = g.headerLen)
    (hdec : g.decodeHeader h = .ok (base94EncodeInto g.kf binary).length) :
    g.readFrameInto (h ++ base94EncodeInto g.kf binary ++ rest)
      = (.ok binary, { g with rxFirst := false }, rest) := by
  have htake : (h ++ base94EncodeInto g.kf binary ++ rest).take g.headerLen = h := by
    rw [List.append_assoc]
    exact List.take_left' hlen
  have hpeek : g.peekFrameLen (h ++ base94EncodeInto g.kf binary ++ rest)
      = .ok (some (h ++ base94EncodeInto g.kf binary).length) := by
    rw [peekFrameLen, if_neg (by simp [← hlen]), htake, hdec, List.length_append, hlen]
  rw [peek_some_full hpeek (by simp), List.take_left, List.drop_left,
    g.decodePacketInto_frame hlen hdec]

/-- A frame the framer rejects leaves it as it was. -/
theorem decodePacketInto_error {f : Base94Framer} {packet : List UInt8} {e : Error}
    (h : (f.decodePacketInto packet).1 = .error e) : (f.decodePacketInto packet).2 = f := by
  unfold decodePacketInto at h ⊢
  split
  · rfl
  · split
    · rfl
    · split
      · rfl
      · split
        · rfl
        · simp_all

theorem readFrameInto_error {f : Base94Framer} {io : List UInt8} {e : Error}
    (h : (f.readFrameInto io).1 = .error e) : (f.readFrameInto io).2.1 = f := by
  cases hpeek : f.peekFrameLen io with
  | error e' => rw [(peek_error hpeek).1]
  | ok peeked =>
      cases peeked with
      | none => rw [(peek_none hpeek).1]
      | some total =>
          by_cases hshort : io.length < total
          · rw [(peek_some_short hpeek hshort).1]
          · rw [peek_some_full hpeek (Nat.le_of_not_lt hshort)] at h ⊢
            exact decodePacketInto_error h

end Base94Framer

end Nextppp

/-
**The handshake layer of `handshake.rs`.**

The noise prelude, the session-id packets and the two tags that travel inside the exchanged 128-bit
values: the requested role in the high word of the `ivv`, and the canary of the obfuscation flags in
the high word of `nmux`, whose lowest bit echoes the role.

Main definitions:

* `Nextppp.roleTag`, `Nextppp.roleFromIvv`, `Nextppp.taggedIvv`;
* `Nextppp.flagCanary`, `Nextppp.echoNmux`;
* `Nextppp.nopRounds`, `Nextppp.maxNopPackets`;
* `Nextppp.packSessionId`, `Nextppp.unpackSessionId`.

Main results:

* `Nextppp.roleFromIvv_taggedIvv` — the role is read back from the `ivv`, for every nonce;
* `Nextppp.flagCanary_eq_iff` — with one `kf`, the canary pins exactly the four flags;
* `Nextppp.echoNmux_high`, `Nextppp.echoNmux_parity` — the parity edit never touches the canary;
* `Nextppp.nopRounds_le` — the prelude never exceeds the skip budget of the receiver;
* `Nextppp.ValidKey.words` — on a valid key its bounds are the words that the source shifts;
* `Nextppp.unpackSessionId_packSessionId`, `Nextppp.unpackSessionId_dummy` — session-id packets are
  read back, noise packets are recognised.
-/

import Nextppp.Core.Transmission

set_option relaxedAutoImplicit false
set_option autoImplicit false

namespace Nextppp

open Numeral

/-! ### The role tag -/

/-- Magic word of the session-role tag (48 bits). -/
def roleMagic : U64 := 0xfeedc0de5eed

/-- Selects the 48 magic bits inside a high word. -/
def roleMagicMask : U64 := 0x0000ffffffffffff

/-- The session wants to join an aggregated bond channel. -/
def roleBondLink : U64 := 1 <<< 48

/-- The `ivv` high word tagging `role`. -/
def roleTag (role : SessionRole) : U64 :=
  roleMagic ||| match role with
    | .muxTunnel => 0
    | .bondLink => roleBondLink

/-- The high word of a 128-bit value, `(v >> 64) as u64`. -/
def highWord (v : U128) : U64 := (v >>> 64).setWidth 64

/-- `(u128::from(high) << 64) | u128::from(low)`. -/
def joinWords (high low : U64) : U128 := (high.setWidth 128 <<< 64) ||| low.setWidth 128

/-- The session role in a client `ivv`; untagged values fall back to the mux tunnel. -/
def roleFromIvv (ivv : U128) : SessionRole :=
  if highWord ivv &&& roleMagicMask = roleMagic ∧ highWord ivv &&& roleBondLink ≠ 0 then .bondLink
  else .muxTunnel

/-- The `ivv` a client sends: the role tag above a random nonce. -/
def taggedIvv (role : SessionRole) (nonce : U64) : U128 := joinWords (roleTag role) nonce

theorem highWord_joinWords (high low : U64) : highWord (joinWords high low) = high := by
  refine BitVec.eq_of_getLsbD_eq fun i hi => ?_
  simp only [highWord, joinWords, BitVec.getLsbD_setWidth, BitVec.getLsbD_ushiftRight,
    BitVec.getLsbD_or, BitVec.getLsbD_shiftLeft]
  have hlow : low.getLsbD (64 + i) = false := BitVec.getLsbD_of_ge _ _ (by omega)
  have hin : 64 + i < 128 := by omega
  have hge : ¬ 64 + i < 64 := by omega
  have hoff : 64 + i - 64 = i := by omega
  have hi' : i < 128 := by omega
  simp only [hi, hin, hge, hoff, hi', hlow, decide_true, decide_false, Bool.not_false, Bool.true_and,
    Bool.and_true, Bool.or_false, Bool.and_false]

theorem roleFromIvv_taggedIvv (role : SessionRole) (nonce : U64) :
    roleFromIvv (taggedIvv role nonce) = role := by
  rw [roleFromIvv, taggedIvv, highWord_joinWords]
  cases role <;> decide

theorem ne_zero_of_highWord {v : U128} (h : highWord v ≠ 0) : v ≠ 0 := by
  rintro rfl
  exact h (by decide)

theorem taggedIvv_ne_zero (role : SessionRole) (nonce : U64) : taggedIvv role nonce ≠ 0 := by
  refine ne_zero_of_highWord ?_
  rw [taggedIvv, highWord_joinWords]
  cases role <;> decide

/-! ### The canary -/

/-- Magic word of the canary (48 bits). -/
def canaryMagic : U64 := 0xc0dec0dec0de

/-- Selects the 48 magic bits inside a high word. -/
def canaryMagicMask : U64 := 0x0000ffffffffffff

/-- `u64::from(bool)`. -/
def flagBit (b : Bool) : U64 := if b then 1 else 0

/-- The canary that pins the framing-relevant configuration bits. -/
def flagCanary (key : ObfuscationKey) : U64 :=
  let flags := flagBit key.masked ||| flagBit key.plaintext <<< 1 |||
    flagBit key.deltaEncode <<< 2 ||| flagBit key.shuffleData <<< 3
  canaryMagic ||| flags <<< 48 ||| (key.kf &&& 0x0fff).toBitVec.setWidth 64 <<< 52

/-- The `nmux` a server answers with: the canary above a random word whose lowest bit is set to
echo the role. -/
def echoNmux (key : ObfuscationKey) (low : U64) (effective : SessionRole) : U128 :=
  let nmux := joinWords (flagCanary key) low
  if effective = .muxTunnel then nmux ||| 1 else nmux &&& ~~~1

theorem echoNmux_high (key : ObfuscationKey) (low : U64) (role : SessionRole) :
    highWord (echoNmux key low role) = flagCanary key := by
  have hone : highWord 1 = 0 := by decide
  have hmask : highWord (~~~1) = BitVec.allOnes 64 := by decide
  have hor : ∀ a b, highWord (a ||| b) = highWord a ||| highWord b := by
    intro a b
    simp [highWord, BitVec.ushiftRight_or_distrib, BitVec.setWidth_or]
  have hand : ∀ a b, highWord (a &&& b) = highWord a &&& highWord b := by
    intro a b
    simp [highWord, BitVec.ushiftRight_and_distrib, BitVec.setWidth_and]
  unfold echoNmux
  dsimp only
  split
  · rw [hor, hone, highWord_joinWords]
    exact BitVec.or_zero
  · rw [hand, hmask, highWord_joinWords, BitVec.and_allOnes]

theorem echoNmux_parity (key : ObfuscationKey) (low : U64) (role : SessionRole) :
    (echoNmux key low role &&& 1 = 1) ↔ role = .muxTunnel := by
  have hbit : ∀ v : U128, v &&& 1 = 1 ↔ v.getLsbD 0 = true := by
    intro v
    rw [show v &&& 1 = v &&& 1#128 from rfl, BitVec.and_one_eq_setWidth_ofBool_getLsbD]
    cases v.getLsbD 0 <;> decide
  rw [hbit]
  unfold echoNmux
  dsimp only
  cases role with
  | muxTunnel => simp
  | bondLink => simp

theorem mask_getLsbD (i : ℕ) : canaryMagicMask.getLsbD i = decide (i < 48) := by
  have hmask : canaryMagicMask = (BitVec.allOnes 48).setWidth 64 := by decide
  rw [hmask, BitVec.getLsbD_setWidth, BitVec.getLsbD_allOnes]
  by_cases h : i < 48
  · simp [h, show i < 64 by omega]
  · simp [h]

/-- A canary always carries the magic. -/
theorem flagCanary_magic (key : ObfuscationKey) :
    flagCanary key &&& canaryMagicMask = canaryMagic := by
  refine BitVec.eq_of_getLsbD_eq fun i hi => ?_
  have hmagic : ¬ i < 48 → canaryMagic.getLsbD i = false := by
    intro h
    have hsame : canaryMagic = canaryMagic &&& canaryMagicMask := by decide
    rw [hsame, BitVec.getLsbD_and, mask_getLsbD, decide_eq_false h, Bool.and_false]
  simp only [flagCanary, BitVec.getLsbD_and, BitVec.getLsbD_or, BitVec.getLsbD_shiftLeft,
    mask_getLsbD]
  by_cases h : i < 48
  · simp [h, show i < 52 by omega]
  · simp [h, hmagic h]

/-- The four flags are the bits right above the magic. -/
theorem flagCanary_bits (key : ObfuscationKey) :
    (flagCanary key).getLsbD 48 = key.masked ∧ (flagCanary key).getLsbD 49 = key.plaintext ∧
      (flagCanary key).getLsbD 50 = key.deltaEncode ∧
      (flagCanary key).getLsbD 51 = key.shuffleData := by
  have hbit : ∀ b : Bool, (flagBit b)[0] = b ∧ (flagBit b)[1] = false ∧
      (flagBit b)[2] = false ∧ (flagBit b)[3] = false := by decide
  have hmagic : canaryMagic[48] = false ∧ canaryMagic[49] = false ∧
      canaryMagic[50] = false ∧ canaryMagic[51] = false := by decide
  simp [flagCanary, hbit, hmagic]

/-- With one `kf`, two canaries agree exactly when the four flags do. -/
theorem flagCanary_eq_iff {key key' : ObfuscationKey} (hkf : key'.kf = key.kf) :
    flagCanary key' = flagCanary key ↔
      key'.masked = key.masked ∧ key'.plaintext = key.plaintext ∧
        key'.deltaEncode = key.deltaEncode ∧ key'.shuffleData = key.shuffleData := by
  constructor
  · intro h
    obtain ⟨h₁, h₂, h₃, h₄⟩ := flagCanary_bits key
    obtain ⟨h₁', h₂', h₃', h₄'⟩ := flagCanary_bits key'
    rw [h] at h₁' h₂' h₃' h₄'
    exact ⟨h₁'.symm.trans h₁, h₂'.symm.trans h₂, h₃'.symm.trans h₃, h₄'.symm.trans h₄⟩
  · rintro ⟨h₁, h₂, h₃, h₄⟩
    simp only [flagCanary, h₁, h₂, h₃, h₄, hkf]

theorem echoNmux_ne_zero (key : ObfuscationKey) (low : U64) (role : SessionRole) :
    echoNmux key low role ≠ 0 := by
  refine ne_zero_of_highWord fun h => ?_
  have hmagic := flagCanary_magic key
  rw [echoNmux_high] at h
  rw [h] at hmagic
  exact absurd hmagic (by decide)

/-! ### The noise prelude -/

/-- The number of noise packets before the real handshake.  The powers of two are the words that
`1u32 <<` computes for the exponents of a valid key; see `ValidKey.words`. -/
def nopRounds (rng : Rng) (key : ObfuscationKey) : ℕ × Rng :=
  let kl := 2 ^ key.kl.toNat
  let kh := 2 ^ key.kh.toNat
  let lo := if kh < kl then kh else kl
  let hi := if kh < kl then kl else kh
  let rounds := if lo = hi then (lo, rng) else rng.randomRange lo hi
  ((rounds.1 + 1399) / 1400, rounds.2)

/-- Upper bound on the noise packets a receiver skips, again for the exponents of a valid key. -/
def maxNopPackets (key : ObfuscationKey) : ℕ := 2 ^ max key.kl.toNat key.kh.toNat

/-- A shifted one is a power of two as long as the exponent is below the width of the word. -/
theorem one_shiftLeft_toNat {e : UInt8} (he : e.toNat ≤ maxNopExponent) :
    ((1 : UInt32) <<< e.toUInt32).toNat = 2 ^ e.toNat := by
  have hlt : e.toNat < 32 := lt_of_le_of_lt he (by decide)
  have hpow : 2 ^ e.toNat < 2 ^ 32 := Nat.pow_lt_pow_right (by decide) hlt
  rw [UInt32.toNat_shiftLeft, UInt8.toNat_toUInt32, Nat.mod_eq_of_lt hlt, Nat.shiftLeft_eq]
  simpa using Nat.mod_eq_of_lt hpow

/-- On a valid key the bounds of the prelude are the words of the source: no exponent is masked. -/
theorem ValidKey.words (key : ValidKey) :
    ((1 : UInt32) <<< key.kl.toUInt32).toNat = 2 ^ key.kl.toNat ∧
      ((1 : UInt32) <<< key.kh.toUInt32).toNat = 2 ^ key.kh.toNat ∧
      ((1 : UInt32) <<< (max key.kl key.kh).toUInt32).toNat = maxNopPackets key.toObfuscationKey := by
  obtain ⟨hl, hh⟩ := key.exponents_le
  have hmax : (max key.kl key.kh).toNat = max key.kl.toNat key.kh.toNat := by
    rw [show max key.kl key.kh = if key.kl ≤ key.kh then key.kh else key.kl from rfl]
    split
    · rename_i h
      rw [max_eq_right (UInt8.le_iff_toNat_le.1 h)]
    · rename_i h
      rw [max_eq_left (Nat.le_of_not_le fun hle => h (UInt8.le_iff_toNat_le.2 hle))]
  refine ⟨one_shiftLeft_toNat hl, one_shiftLeft_toNat hh, ?_⟩
  rw [one_shiftLeft_toNat (by rw [hmax]; exact max_le hl hh), hmax, maxNopPackets]

/-- The prelude never exceeds the skip budget. -/
theorem nopRounds_le (rng : Rng) (key : ObfuscationKey) :
    (nopRounds rng key).1 ≤ maxNopPackets key := by
  have hl : 2 ^ key.kl.toNat ≤ maxNopPackets key :=
    Nat.pow_le_pow_right (by decide) (Nat.le_max_left _ _)
  have hh : 2 ^ key.kh.toNat ≤ maxNopPackets key :=
    Nat.pow_le_pow_right (by decide) (Nat.le_max_right _ _)
  have hpos : 0 < maxNopPackets key := Nat.two_pow_pos _
  have hround : ∀ n, n ≤ maxNopPackets key → (n + 1399) / 1400 ≤ maxNopPackets key := by
    intro n hn
    omega
  refine hround _ ?_
  split
  · rename_i hlt
    rw [if_neg (by omega)]
    exact (rng.randomRange_le hlt.le).trans hl
  · rename_i hge
    split
    · exact hl
    · exact (rng.randomRange_le (Nat.le_of_not_lt hge)).trans hh

/-! ### Session-id packets -/

/-- `n` bytes drawn one by one from `lo..=hi`. -/
def Rng.randomFill (rng : Rng) (lo hi : ℕ) : ℕ → List UInt8 × Rng
  | 0 => ([], rng)
  | n + 1 =>
      let b := rng.randomRange lo hi
      let r := Rng.randomFill b.2 lo hi n
      (UInt8.ofNat b.1 :: r.1, r.2)

@[simp] theorem Rng.randomFill_length (rng : Rng) (lo hi n : ℕ) :
    (rng.randomFill lo hi n).1.length = n := by
  induction n generalizing rng with
  | zero => rfl
  | succ n ih => simp [Rng.randomFill, ih]

/-- The decimal numeral of a 128-bit value. -/
def appendDecimal (v : U128) : List UInt8 :=
  (digitsLoop 10 40 v.toNat).reverse.map fun d => UInt8.ofNat (0x30 + d)

/-- Four rounds of masking, each with the key of the round before and one more seed byte. -/
def xorRounds (kf : UInt32) : List UInt8 → List UInt8 → List UInt8
  | [], body => body
  | k :: kfs, body =>
      let kf := kf ^^^ UInt32.ofNat k.toNat
      xorRounds kf kfs (body.map (· ^^^ kf.toUInt8))

/-- The padding against traffic analysis: two printable runs around a slash. -/
def padding (rng : Rng) (max bodyLen : ℕ) : List UInt8 × Rng :=
  if 0 < max then
    let run₁ := rng.randomFill 0x20 0x7e max
    let min := bodyLen + max + 1 + 4
    let loops := run₁.2.randomRange 1 (Nat.max max min * 4)
    let run₂ := loops.2.randomFill 0x20 0x7e loops.1
    (run₁.1 ++ [0x2f] ++ run₂.1, run₂.2)
  else ([], rng)

/-- A session-id packet; `id = 0` produces a noise packet. -/
def packSessionId (rng : Rng) (key : ObfuscationKey) (id : U128) : List UInt8 × Rng :=
  let k₀ := if id ≠ 0 then rng.randomRange 0x00 0x7f else rng.randomRange 0x80 0xff
  let ks := k₀.2.randomFill 0x01 0xff 3
  let kfs := UInt8.ofNat k₀.1 :: ks.1
  let v : U128 × Rng :=
    if id ≠ 0 then (id, ks.2)
    else
      let v := ks.2.randomBits 128
      (if v.1 = 0 then 1 else v.1, v.2)
  let num := appendDecimal v.1
  let sep := v.2.randomRange 0x20 0x2f
  let pad := padding sep.2 (key.kx.toNat % 0x100) (num.length + 1)
  let body := num ++ [UInt8.ofNat sep.1] ++ pad.1
  (kfs ++ xorRounds key.kf kfs body, pad.2)

/-- A parsed session-id packet. -/
inductive SessionPacket
  | dummy
  | session (id : U128)
  deriving DecidableEq

/-- The decimal prefix of a body: its value and the number of its digits. -/
def parseDigits (id digits : ℕ) : List UInt8 → Except Error (ℕ × ℕ)
  | [] => .ok (id, digits)
  | b :: rest =>
      if 0x30 ≤ b.toNat ∧ b.toNat ≤ 0x39 then
        if id * 10 + (b.toNat - 0x30) < 2 ^ 128 then
          parseDigits (id * 10 + (b.toNat - 0x30)) (digits + 1) rest
        else .error .invalidSessionId
      else .ok (id, digits)

/-- Unpack a session-id packet; noise is reported, not decoded. -/
def unpackSessionId (key : ObfuscationKey) (packet : List UInt8) : Except Error SessionPacket :=
  if packet.length < 4 then .error .invalidFrame
  else if 0x80 ≤ (packet.getD 0 0).toNat then .ok .dummy
  else if (packet.drop 4).isEmpty then .error .invalidFrame
  else
    match parseDigits 0 0 (xorRounds key.kf (packet.take 4) (packet.drop 4)) with
    | .error e => .error e
    | .ok (id, digits) =>
        if digits = 0 then .error .invalidSessionId else .ok (.session (BitVec.ofNat 128 id))

/-- The rounds amount to one mask for the whole body. -/
theorem xorRounds_eq (kf : UInt32) (kfs : List UInt8) :
    ∃ m : UInt8, ∀ body, xorRounds kf kfs body = body.map (· ^^^ m) := by
  induction kfs generalizing kf with
  | nil => exact ⟨0, fun body => by simp [xorRounds]⟩
  | cons k kfs ih =>
      obtain ⟨m, hm⟩ := ih (kf ^^^ UInt32.ofNat k.toNat)
      refine ⟨(kf ^^^ UInt32.ofNat k.toNat).toUInt8 ^^^ m, fun body => ?_⟩
      rw [xorRounds, hm, List.map_map]
      refine List.map_congr_left fun b _ => ?_
      rw [Function.comp_apply, UInt8.xor_assoc]

theorem xorRounds_xorRounds (kf : UInt32) (kfs body : List UInt8) :
    xorRounds kf kfs (xorRounds kf kfs body) = body := by
  obtain ⟨m, hm⟩ := xorRounds_eq kf kfs
  rw [hm, hm, List.map_map]
  conv => rhs; rw [← List.map_id body]
  refine List.map_congr_left fun b _ => ?_
  rw [Function.comp_apply, UInt8.xor_assoc, UInt8.xor_self, UInt8.xor_zero, id]

@[simp] theorem xorRounds_length (kf : UInt32) (kfs body : List UInt8) :
    (xorRounds kf kfs body).length = body.length := by
  obtain ⟨m, hm⟩ := xorRounds_eq kf kfs
  rw [hm, List.length_map]

/-- Digits in front of a non-digit are read to the value they denote. -/
theorem parseDigits_digits (ds : List ℕ) (hds : ∀ d ∈ ds, d < 10) (id n : ℕ) (sep : UInt8)
    (hsep : sep.toNat < 0x30) (rest : List UInt8)
    (hv : ds.foldl (fun a d => a * 10 + d) id < 2 ^ 128) :
    parseDigits id n (ds.map (fun d => UInt8.ofNat (0x30 + d)) ++ sep :: rest) =
      .ok (ds.foldl (fun a d => a * 10 + d) id, n + ds.length) := by
  induction ds generalizing id n with
  | nil =>
      rw [List.map_nil, List.nil_append, parseDigits, if_neg (by omega)]
      rfl
  | cons d ds ih =>
      have hd : d < 10 := hds d (by simp)
      have hb : (UInt8.ofNat (0x30 + d)).toNat = 0x30 + d := toNat_ofNat_lt (by omega)
      -- the value only grows, so no digit on the way overflows
      have hmono : ∀ (l : List ℕ) (a : ℕ), a ≤ l.foldl (fun a d => a * 10 + d) a := by
        intro l
        induction l with
        | nil => intro a; exact le_rfl
        | cons e l ihl =>
            intro a
            refine le_trans ?_ (ihl (a * 10 + e))
            omega
      rw [List.foldl_cons] at hv ⊢
      have hstep : id * 10 + d < 2 ^ 128 := (hmono ds _).trans_lt hv
      rw [List.map_cons, List.cons_append, parseDigits, hb, if_pos (by omega),
        Nat.add_sub_cancel_left, if_pos hstep,
        ih (fun e he => hds e (by simp [he])) (id * 10 + d) (n + 1) hv, List.length_cons]
      congr 2
      omega

/-- A packet is short enough for one frame. -/
theorem packSessionId_length (rng : Rng) (key : ObfuscationKey) (id : U128) :
    6 ≤ (packSessionId rng key id).1.length ∧
      (packSessionId rng key id).1.length ≤ pppBufferSize := by
  have hpad : ∀ (r : Rng) (m n : ℕ), m < 0x100 → n ≤ 41 → (padding r m n).1.length ≤ 2000 := by
    intro r m n hm hn
    unfold padding
    split
    · dsimp only
      have hone : 1 ≤ Nat.max m (n + m + 1 + 4) * 4 := by
        have : n + m + 1 + 4 ≤ Nat.max m (n + m + 1 + 4) := Nat.le_max_right _ _
        omega
      have hloops := (r.randomFill 0x20 0x7e m).2.randomRange_le hone
      have hmax : Nat.max m (n + m + 1 + 4) = n + m + 1 + 4 := Nat.max_eq_right (by omega)
      rw [hmax] at hloops ⊢
      simp only [List.length_append, Rng.randomFill_length, List.length_singleton]
      omega
    · simp
  have hnum : ∀ v : U128, (appendDecimal v).length ≤ 40 := by
    intro v
    simp only [appendDecimal, List.length_map, List.length_reverse]
    exact digitsLoop_length_le_fuel _ _ _
  have hkx : key.kx.toNat % 0x100 < 0x100 := Nat.mod_lt _ (by decide)
  unfold packSessionId
  dsimp only
  generalize (if id ≠ 0 then _ else _ : U128 × Rng) = v
  have hpos : 0 < (appendDecimal v.1).length := by
    simp only [appendDecimal, List.length_map, List.length_reverse]
    exact digitsLoop_length_pos (by decide) _ _
  have h₁ := hnum v.1
  have h₂ := hpad (v.2.randomRange 0x20 0x2f).2 _ ((appendDecimal v.1).length + 1) hkx (by omega)
  simp only [List.length_append, List.length_cons, Rng.randomFill_length, xorRounds_length,
    List.length_nil, pppBufferSize]
  omega

/-- Noise is recognised. -/
theorem unpackSessionId_dummy (rng : Rng) (key key' : ObfuscationKey) :
    unpackSessionId key' (packSessionId rng key 0).1 = .ok .dummy := by
  have hlen := (packSessionId_length rng key 0).1
  have hhead : 0x80 ≤ ((packSessionId rng key 0).1.getD 0 0).toNat := by
    have hge := rng.randomRange_ge 0x80 0xff
    rw [← rng.toNat_ofNat_randomRange (by decide : 0x80 ≤ 0xff) (by decide)] at hge
    simpa [packSessionId] using hge
  rw [unpackSessionId, if_neg (by omega), if_pos hhead]

/-- A session id is read back, by any key with the same `kf`. -/
theorem unpackSessionId_packSessionId (rng : Rng) {key key' : ObfuscationKey}
    (hkf : key'.kf = key.kf) {id : U128} (hid : id ≠ 0) :
    unpackSessionId key' (packSessionId rng key id).1 = .ok (.session id) := by
  obtain ⟨hlen, -⟩ := packSessionId_length rng key id
  unfold packSessionId at hlen ⊢
  simp only [if_pos hid] at hlen ⊢
  have hk₀ : (UInt8.ofNat (rng.randomRange 0x00 0x7f).1).toNat ≤ 0x7f := by
    rw [rng.toNat_ofNat_randomRange (by decide) (by decide)]
    exact rng.randomRange_le (by decide)
  generalize rng.randomRange 0x00 0x7f = k₀ at hlen hk₀ ⊢
  have hks : (UInt8.ofNat k₀.1 :: (k₀.2.randomFill 0x01 0xff 3).1).length = 4 := by simp
  generalize hks' : k₀.2.randomFill 0x01 0xff 3 = ks at hlen hks ⊢
  have hsep : (UInt8.ofNat (ks.2.randomRange 0x20 0x2f).1).toNat < 0x30 := by
    rw [ks.2.toNat_ofNat_randomRange (by decide) (by decide)]
    exact lt_of_le_of_lt (ks.2.randomRange_le (by decide)) (by decide)
  generalize ks.2.randomRange 0x20 0x2f = sep at hlen hsep ⊢
  generalize padding sep.2 _ _ = pad at hlen ⊢
  obtain ⟨kfs, hkfs⟩ : ∃ kfs, kfs = UInt8.ofNat k₀.1 :: ks.1 := ⟨_, rfl⟩
  have hhead : (kfs ++ xorRounds key.kf kfs (appendDecimal id ++ [UInt8.ofNat sep.1] ++ pad.1)).getD
      0 0 = UInt8.ofNat k₀.1 := by rw [hkfs]; rfl
  rw [← hkfs] at hlen hks ⊢
  have htake : (kfs ++ xorRounds key.kf kfs
      (appendDecimal id ++ [UInt8.ofNat sep.1] ++ pad.1)).take 4 = kfs :=
    List.take_left' hks
  have hdrop : (kfs ++ xorRounds key.kf kfs
      (appendDecimal id ++ [UInt8.ofNat sep.1] ++ pad.1)).drop 4
      = xorRounds key.kf kfs (appendDecimal id ++ [UInt8.ofNat sep.1] ++ pad.1) :=
    List.drop_left' hks
  -- the digits end at the separator and denote the id
  have hlt : id.toNat < 2 ^ 128 := id.isLt
  have hval : (digitsLoop 10 40 id.toNat).reverse.foldl (fun a d => a * 10 + d) 0 = id.toNat :=
    value_digitsLoop (hlt.trans (by decide))
  have hparse := parseDigits_digits (digitsLoop 10 40 id.toNat).reverse
    (fun d hd => digitsLoop_lt (by decide) _ _ d (List.mem_reverse.1 hd)) 0 0
    (UInt8.ofNat sep.1) hsep pad.1 (by rw [hval]; exact hlt)
  rw [hval] at hparse
  have hbody : appendDecimal id ++ [UInt8.ofNat sep.1] ++ pad.1
      = (digitsLoop 10 40 id.toNat).reverse.map (fun d => UInt8.ofNat (0x30 + d))
        ++ UInt8.ofNat sep.1 :: pad.1 := by
    rw [appendDecimal, List.append_assoc]
    rfl
  have hdigits : (digitsLoop 10 40 id.toNat).reverse.length ≠ 0 := by
    rw [List.length_reverse]
    exact (digitsLoop_length_pos (by decide) _ _).ne'
  have hne : (xorRounds key.kf kfs
      (appendDecimal id ++ [UInt8.ofNat sep.1] ++ pad.1)).isEmpty = false := by
    rw [List.isEmpty_eq_false_iff, ← List.length_pos_iff, xorRounds_length]
    simp
  rw [unpackSessionId, if_neg (by omega), hhead, if_neg (by omega), htake, hdrop, hne,
    if_neg (by simp), hkf, xorRounds_xorRounds, hbody, hparse]
  dsimp only
  rw [if_neg (by simpa using hdigits), BitVec.ofNat_toNat, BitVec.setWidth_eq]

end Nextppp

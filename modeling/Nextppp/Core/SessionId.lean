/-
**Session-id packets under any key, and the parser on any bytes.**

`Nextppp.Core.Handshake` packs and unpacks session ids.  This module says what the parser does on
arbitrary bytes: the seed bytes determine the mask whatever `kf` is, the digits read are the maximal
run of ASCII digits at the front of the unmasked body, and the id is their value.

The value is accumulated with checked arithmetic, but the digits are counted in an `i32`, the type
an unannotated counter gets.  `unpackSessionIdChecked` makes that counter explicit; a run of
`2 ^ 31` digits, which only leading zeros can make, overflows it.

Main definitions:

* `Nextppp.unpackSessionIdChecked` — `unpack_session_id` with its counter, `none` on an overflow;
* `Nextppp.idDigits`, `Nextppp.decimalValue` — the run of digits of a packet and its value;
* `Nextppp.ReadsId` — what is asked of the parser on a packet.

Main results:

* `Nextppp.xorRounds_kf` — `kf` cancels over the four rounds;
* `Nextppp.unpackSessionId_eq` — the parser on arbitrary bytes;
* `Nextppp.session_id_packets` — packets are short and read back under any key, and the parser does
  what is asked of it exactly on the packets that do not overrun its counter.
-/

import Nextppp.Core.Handshake

set_option relaxedAutoImplicit false
set_option autoImplicit false

namespace Nextppp

open Numeral

/-! ### The mask -/

theorem toUInt8_xor_ofNat (kf : UInt32) (k : UInt8) :
    (kf ^^^ UInt32.ofNat k.toNat).toUInt8 = kf.toUInt8 ^^^ k := by
  have hk : (UInt32.ofNat k.toNat).toUInt8 = k := by
    refine UInt8.toNat_inj.1 ?_
    have hlt : k.toNat < 2 ^ 8 := k.toNat_lt
    rw [UInt32.toNat_toUInt8, UInt32.toNat_ofNat_of_lt' (by simp [UInt32.size]; omega),
      Nat.mod_eq_of_lt hlt]
  rw [UInt32.toUInt8_xor, hk]

/-- Over four rounds `kf` cancels, and so do the first and the third seed byte. -/
theorem xorRounds_four (kf : UInt32) (k₀ k₁ k₂ k₃ : UInt8) (body : List UInt8) :
    xorRounds kf [k₀, k₁, k₂, k₃] body = body.map (· ^^^ (k₁ ^^^ k₃)) := by
  simp only [xorRounds, List.map_map]
  refine List.map_congr_left fun b _ => ?_
  simp only [Function.comp_apply, toUInt8_xor_ofNat]
  -- each round key is the one before with one more byte, so two rounds leave that byte
  have hpair : ∀ x r k : UInt8, x ^^^ r ^^^ (r ^^^ k) = x ^^^ k := by
    intro x r k
    rw [UInt8.xor_assoc, ← UInt8.xor_assoc r, UInt8.xor_self, UInt8.zero_xor]
  rw [hpair, hpair, UInt8.xor_assoc]

/-- The mask does not depend on `kf`. -/
theorem xorRounds_kf (kf kf' : UInt32) {kfs : List UInt8} (hkfs : kfs.length = 4)
    (body : List UInt8) : xorRounds kf kfs body = xorRounds kf' kfs body := by
  obtain ⟨k₀, k₁, k₂, k₃, rfl⟩ := List.length_eq_four.1 hkfs
  rw [xorRounds_four, xorRounds_four]

theorem take_four_length {packet : List UInt8} (h : ¬ packet.length < 4) :
    (packet.take 4).length = 4 := by
  rw [List.length_take]; omega

/-- The parser reads the same under every key. -/
theorem unpackSessionId_key (key key' : ObfuscationKey) (packet : List UInt8) :
    unpackSessionId key packet = unpackSessionId key' packet := by
  unfold unpackSessionId
  split
  · rfl
  · rename_i hlen
    rw [xorRounds_kf key.kf key'.kf (take_four_length hlen)]

/-! ### The digits of a packet -/

/-- `u8::is_ascii_digit`. -/
def isAsciiDigit (b : UInt8) : Bool := 0x30 ≤ b.toNat ∧ b.toNat ≤ 0x39

/-- One more decimal digit. -/
def pushDigit (v : ℕ) (b : UInt8) : ℕ := v * 10 + (b.toNat - 0x30)

/-- The value of a run of ASCII digits. -/
def decimalValue (ds : List UInt8) : ℕ := ds.foldl pushDigit 0

/-- The unmasked body of a packet. -/
def unmasked (key : ObfuscationKey) (packet : List UInt8) : List UInt8 :=
  xorRounds key.kf (packet.take 4) (packet.drop 4)

/-- The maximal run of digits at the front of the unmasked body. -/
def idDigits (key : ObfuscationKey) (packet : List UInt8) : List UInt8 :=
  (unmasked key packet).takeWhile isAsciiDigit

theorem le_foldl_pushDigit (ds : List UInt8) (v : ℕ) : v ≤ ds.foldl pushDigit v := by
  induction ds generalizing v with
  | nil => exact le_rfl
  | cons b ds ih =>
      refine le_trans ?_ (ih (pushDigit v b))
      rw [pushDigit]; omega

theorem takeWhile_digit {b : UInt8} {body : List UInt8} (hb : 0x30 ≤ b.toNat ∧ b.toNat ≤ 0x39) :
    (b :: body).takeWhile isAsciiDigit = b :: body.takeWhile isAsciiDigit :=
  List.takeWhile_cons_of_pos (by simpa [isAsciiDigit] using hb)

theorem takeWhile_other {b : UInt8} {body : List UInt8}
    (hb : ¬ (0x30 ≤ b.toNat ∧ b.toNat ≤ 0x39)) : (b :: body).takeWhile isAsciiDigit = [] :=
  List.takeWhile_cons_of_neg (by simpa [isAsciiDigit] using hb)

/-- The loop of the parser: it reads the run of digits unless their value leaves 128 bits. -/
theorem parseDigits_eq (body : List UInt8) (v n : ℕ) (hv : v < 2 ^ 128) :
    parseDigits v n body =
      if (body.takeWhile isAsciiDigit).foldl pushDigit v < 2 ^ 128 then
        .ok ((body.takeWhile isAsciiDigit).foldl pushDigit v,
          n + (body.takeWhile isAsciiDigit).length)
      else .error .invalidSessionId := by
  induction body generalizing v n with
  | nil => rw [List.takeWhile_nil, List.foldl_nil, if_pos hv]; rfl
  | cons b body ih =>
      by_cases hb : 0x30 ≤ b.toNat ∧ b.toNat ≤ 0x39
      · rw [takeWhile_digit hb, List.foldl_cons, parseDigits, if_pos hb]
        by_cases hlt : pushDigit v b < 2 ^ 128
        · have h := ih (pushDigit v b) (n + 1) hlt
          rw [Nat.add_right_comm, Nat.add_assoc n] at h
          exact (if_pos hlt).trans h
        · have hpast : ¬ (body.takeWhile isAsciiDigit).foldl pushDigit (pushDigit v b) < 2 ^ 128 :=
            fun h => hlt ((le_foldl_pushDigit _ _).trans_lt h)
          rw [if_neg hpast]
          exact if_neg hlt
      · rw [takeWhile_other hb, List.foldl_nil, if_pos hv, parseDigits, if_neg hb]
        rfl

/-- **The parser on arbitrary bytes.** -/
theorem unpackSessionId_eq (key : ObfuscationKey) (packet : List UInt8) :
    unpackSessionId key packet =
      if packet.length < 4 then .error .invalidFrame
      else if 0x80 ≤ (packet.getD 0 0).toNat then .ok .dummy
      else if (packet.drop 4).isEmpty then .error .invalidFrame
      else if idDigits key packet = [] then .error .invalidSessionId
      else if decimalValue (idDigits key packet) < 2 ^ 128 then
        .ok (.session (BitVec.ofNat 128 (decimalValue (idDigits key packet))))
      else .error .invalidSessionId := by
  unfold unpackSessionId
  have hparse := parseDigits_eq (unmasked key packet) 0 0 (by decide)
  rw [Nat.zero_add] at hparse
  change parseDigits 0 0 (unmasked key packet) = if decimalValue (idDigits key packet) < 2 ^ 128 then
    .ok (decimalValue (idDigits key packet), (idDigits key packet).length) else _ at hparse
  rw [← unmasked, hparse]
  by_cases hlen : packet.length < 4
  · rw [if_pos hlen, if_pos hlen]
  rw [if_neg hlen, if_neg hlen]
  by_cases htop : 0x80 ≤ (packet.getD 0 0).toNat
  · rw [if_pos htop, if_pos htop]
  rw [if_neg htop, if_neg htop]
  by_cases hbody : (packet.drop 4).isEmpty
  · rw [if_pos hbody, if_pos hbody]
  rw [if_neg hbody, if_neg hbody]
  by_cases hvalue : decimalValue (idDigits key packet) < 2 ^ 128
  · rw [if_pos hvalue, if_pos hvalue]
    simp only [List.length_eq_zero_iff]
  · rw [if_neg hvalue, if_neg hvalue]
    exact (ite_self _).symm

/-! ### The digit counter -/

/-- The loop of the parser with its `i32` counter: `none` when the counter overflows. -/
def parseDigitsChecked (id digits : ℕ) : List UInt8 → Option (Except Error (ℕ × ℕ))
  | [] => some (.ok (id, digits))
  | b :: rest =>
      if 0x30 ≤ b.toNat ∧ b.toNat ≤ 0x39 then
        if id * 10 + (b.toNat - 0x30) < 2 ^ 128 then
          if digits + 1 < 2 ^ 31 then
            parseDigitsChecked (id * 10 + (b.toNat - 0x30)) (digits + 1) rest
          else none
        else some (.error .invalidSessionId)
      else some (.ok (id, digits))

/-- `unpack_session_id` with its digit counter: `none` when the counter overflows, which panics
with overflow checks and goes on with a wrapped counter without. -/
def unpackSessionIdChecked (key : ObfuscationKey) (packet : List UInt8) :
    Option (Except Error SessionPacket) :=
  if packet.length < 4 then some (.error .invalidFrame)
  else if 0x80 ≤ (packet.getD 0 0).toNat then some (.ok .dummy)
  else if (packet.drop 4).isEmpty then some (.error .invalidFrame)
  else
    match parseDigitsChecked 0 0 (xorRounds key.kf (packet.take 4) (packet.drop 4)) with
    | none => none
    | some (.error e) => some (.error e)
    | some (.ok (id, digits)) =>
        if digits = 0 then some (.error .invalidSessionId)
        else some (.ok (.session (BitVec.ofNat 128 id)))

/-- A run of digits that the counter cannot count. -/
def LongRun (v n : ℕ) (ds : List UInt8) : Prop :=
  2 ^ 31 ≤ n + ds.length ∧ (ds.take (2 ^ 31 - n)).foldl pushDigit v < 2 ^ 128

/-- The counter overflows exactly on a long run, and does not matter otherwise. -/
theorem parseDigitsChecked_eq (body : List UInt8) (v n : ℕ) (hn : n < 2 ^ 31) :
    (LongRun v n (body.takeWhile isAsciiDigit) → parseDigitsChecked v n body = none) ∧
      (¬ LongRun v n (body.takeWhile isAsciiDigit) →
        parseDigitsChecked v n body = some (parseDigits v n body)) := by
  induction body generalizing v n with
  | nil =>
      refine ⟨fun h => ?_, fun _ => rfl⟩
      have := h.1
      rw [List.takeWhile_nil, List.length_nil] at this
      omega
  | cons b body ih =>
      by_cases hb : 0x30 ≤ b.toNat ∧ b.toNat ≤ 0x39
      · obtain ⟨m, hm⟩ : ∃ m, 2 ^ 31 - n = m + 1 := ⟨2 ^ 31 - n - 1, by omega⟩
        have hnext : 2 ^ 31 - (n + 1) = m := by omega
        rw [takeWhile_digit hb, LongRun, hm, List.take_succ_cons, List.foldl_cons, List.length_cons,
          parseDigitsChecked, parseDigits, if_pos hb, if_pos hb]
        by_cases hlt : pushDigit v b < 2 ^ 128
        · rw [pushDigit] at hlt
          rw [if_pos hlt, if_pos hlt]
          by_cases hlast : n + 1 < 2 ^ 31
          · obtain ⟨hlong, hshort⟩ := ih (pushDigit v b) (n + 1) hlast
            rw [LongRun, hnext, Nat.add_right_comm, Nat.add_assoc n] at hlong hshort
            rw [if_pos hlast]
            exact ⟨hlong, hshort⟩
          · rw [if_neg hlast]
            refine ⟨fun _ => rfl, fun h => absurd ?_ h⟩
            obtain rfl : m = 0 := by omega
            exact ⟨by omega, by rw [List.take_zero, List.foldl_nil, pushDigit]; exact hlt⟩
        · refine ⟨fun h => absurd ((le_foldl_pushDigit _ _).trans_lt h.2) hlt, fun _ => ?_⟩
          rw [pushDigit] at hlt
          rw [if_neg hlt, if_neg hlt]
      · rw [takeWhile_other hb, parseDigitsChecked, parseDigits, if_neg hb, if_neg hb]
        refine ⟨fun h => ?_, fun _ => rfl⟩
        have := h.1
        rw [List.length_nil] at this
        omega

/-- The packets whose digits overrun the counter: real ones whose unmasked body starts with
`2 ^ 31` digits of a value below `2 ^ 128`. -/
def OverrunsCounter (key : ObfuscationKey) (packet : List UInt8) : Prop :=
  (packet.getD 0 0).toNat < 0x80 ∧ 2 ^ 31 ≤ (idDigits key packet).length ∧
    decimalValue ((idDigits key packet).take (2 ^ 31)) < 2 ^ 128

theorem unpackSessionIdChecked_of_overruns {key : ObfuscationKey} {packet : List UInt8}
    (h : OverrunsCounter key packet) : unpackSessionIdChecked key packet = none := by
  obtain ⟨htop, hlen, hvalue⟩ := h
  have hbody : 2 ^ 31 ≤ (packet.drop 4).length := by
    refine hlen.trans ((List.takeWhile_prefix _).length_le.trans ?_)
    rw [unmasked, xorRounds_length]
  have hdrop := List.length_drop (i := 4) (l := packet)
  have hlong := (parseDigitsChecked_eq (unmasked key packet) 0 0 (by decide)).1
    ⟨by rw [Nat.zero_add]; exact hlen, hvalue⟩
  rw [unmasked] at hlong
  have hne : ¬ (packet.drop 4).isEmpty = true := by
    rw [List.isEmpty_iff, ← List.length_eq_zero_iff]
    omega
  rw [unpackSessionIdChecked, if_neg (by omega), if_neg (by omega), if_neg hne, hlong]

theorem unpackSessionIdChecked_of_not_overruns {key : ObfuscationKey} {packet : List UInt8}
    (h : ¬ OverrunsCounter key packet) :
    unpackSessionIdChecked key packet = some (unpackSessionId key packet) := by
  rw [unpackSessionIdChecked, unpackSessionId]
  split
  · rfl
  split
  · rfl
  split
  · rfl
  rename_i htop _
  have hshort := (parseDigitsChecked_eq (unmasked key packet) 0 0 (by decide)).2
    (fun hlong => h ⟨by omega, by rw [← Nat.zero_add (idDigits key packet).length]; exact hlong.1, hlong.2⟩)
  rw [unmasked] at hshort
  rw [hshort]
  cases parseDigits 0 0 (xorRounds key.kf (packet.take 4) (packet.drop 4)) with
  | error e => rfl
  | ok r =>
      dsimp only
      split <;> rfl

theorem not_overruns_of_length {key : ObfuscationKey} {packet : List UInt8}
    (h : packet.length ≤ pppBufferSize) : ¬ OverrunsCounter key packet := by
  rintro ⟨-, hlen, -⟩
  have hrun : (idDigits key packet).length ≤ packet.length - 4 := by
    refine (List.takeWhile_prefix _).length_le.trans ?_
    rw [unmasked, xorRounds_length, List.length_drop]
  rw [pppBufferSize] at h
  omega

/-! ### Packets -/

/-- What is asked of the parser on a packet: its arithmetic does not overflow, a session is reported
only for a packet without the noise bit whose digits denote that id, and digits of a larger value
are rejected. -/
def ReadsId (key : ObfuscationKey) (packet : List UInt8) : Prop :=
  ∃ r, unpackSessionIdChecked key packet = some r ∧
    (∀ v, r = .ok (.session v) → (packet.getD 0 0).toNat < 0x80 ∧ idDigits key packet ≠ [] ∧
      decimalValue (idDigits key packet) < 2 ^ 128 ∧
      v.toNat = decimalValue (idDigits key packet)) ∧
    ((packet.getD 0 0).toNat < 0x80 → 2 ^ 128 ≤ decimalValue (idDigits key packet) →
      r = .error .invalidSessionId)

theorem unpackSessionId_session {key : ObfuscationKey} {packet : List UInt8} {v : U128}
    (h : unpackSessionId key packet = .ok (.session v)) :
    (packet.getD 0 0).toNat < 0x80 ∧ idDigits key packet ≠ [] ∧
      decimalValue (idDigits key packet) < 2 ^ 128 ∧
      v.toNat = decimalValue (idDigits key packet) := by
  rw [unpackSessionId_eq] at h
  split at h
  · simp at h
  split at h
  · simp at h
  split at h
  · simp at h
  split at h
  · simp at h
  split at h
  · rename_i htop _ hdigits hvalue
    obtain rfl : BitVec.ofNat 128 (decimalValue (idDigits key packet)) = v := by simpa using h
    exact ⟨by omega, hdigits, hvalue, by
      rw [BitVec.toNat_ofNat, Nat.mod_eq_of_lt hvalue]⟩
  · simp at h

theorem unpackSessionId_large {key : ObfuscationKey} {packet : List UInt8}
    (htop : (packet.getD 0 0).toNat < 0x80)
    (hvalue : 2 ^ 128 ≤ decimalValue (idDigits key packet)) :
    unpackSessionId key packet = .error .invalidSessionId := by
  have hbody : ∀ h : packet.length ≤ 4, False := by
    intro h
    have hnil : idDigits key packet = [] := by
      rw [idDigits, unmasked, List.drop_eq_nil_of_le h, List.eq_nil_of_length_eq_zero
        (xorRounds_length key.kf _ [])]
      rfl
    rw [hnil] at hvalue
    exact absurd hvalue (by decide)
  have hne : ¬ (packet.drop 4).isEmpty = true := by
    rw [List.isEmpty_iff, List.drop_eq_nil_iff]
    exact hbody
  rw [unpackSessionId_eq, if_neg (fun h => hbody h.le), if_neg (by omega), if_neg hne,
    if_neg (Nat.not_lt.2 hvalue), ite_self]

theorem readsId_iff (key : ObfuscationKey) (packet : List UInt8) :
    ReadsId key packet ↔ ¬ OverrunsCounter key packet := by
  constructor
  · rintro ⟨r, hr, -⟩ h
    rw [unpackSessionIdChecked_of_overruns h] at hr
    simp at hr
  · intro h
    exact ⟨_, unpackSessionIdChecked_of_not_overruns h, fun _ => unpackSessionId_session,
      unpackSessionId_large⟩

/-- **Session-id packets.**  Under every key and for every id the packet has 6 to 65536 bytes and is
read back under every key, whatever its `kf`, noise as noise; and on every byte string at all the
parser does what is asked of it exactly when the digits do not overrun its counter. -/
theorem session_id_packets (rng : Rng) (key key' : ObfuscationKey) (id : U128)
    (packet : List UInt8) :
    (6 ≤ (packSessionId rng key id).1.length ∧
      (packSessionId rng key id).1.length ≤ 65536 ∧
      unpackSessionIdChecked key' (packSessionId rng key id).1 =
        some (.ok (if id = 0 then .dummy else .session id))) ∧
    (ReadsId key packet ↔ ¬ OverrunsCounter key packet) := by
  refine ⟨?_, readsId_iff key packet⟩
  obtain ⟨hmin, hmax⟩ := packSessionId_length rng key id
  refine ⟨hmin, hmax, ?_⟩
  rw [unpackSessionIdChecked_of_not_overruns (not_overruns_of_length hmax)]
  congr 1
  split
  · rename_i hid
    rw [hid]
    exact unpackSessionId_dummy rng key key'
  · rename_i hid
    rw [unpackSessionId_key key' key]
    exact unpackSessionId_packSessionId rng rfl hid

/-- A packet of `n` zeros behind zero seed bytes. -/
def zeroDigits (n : ℕ) : List UInt8 := [0, 0, 0, 0] ++ List.replicate n 0x30

theorem idDigits_zeroDigits (key : ObfuscationKey) (n : ℕ) :
    idDigits key (zeroDigits n) = List.replicate n 0x30 := by
  have hmask : unmasked key (zeroDigits n) = List.replicate n 0x30 := by
    have htake : (zeroDigits n).take 4 = [0, 0, 0, 0] := rfl
    have hdrop : (zeroDigits n).drop 4 = List.replicate n 0x30 := rfl
    rw [unmasked, htake, hdrop, xorRounds_four, List.map_replicate]
    rfl
  rw [idDigits, hmask]
  refine List.takeWhile_eq_self_iff.2 fun b hb => ?_
  rw [List.eq_of_mem_replicate hb]
  decide

theorem decimalValue_zeros (n : ℕ) : decimalValue (List.replicate n 0x30) = 0 := by
  induction n with
  | zero => rfl
  | succ n ih => exact ih

/-- A packet of `2 ^ 31` zeros overruns the counter. -/
theorem readsId_zeroDigits :
    ¬ ReadsId ⟨154543927, 10, 12, 128, .aes128Cfb, "key", .aes256Cfb, "key", true, false, true, true⟩
      (zeroDigits (2 ^ 31)) := by
  rw [readsId_iff, not_not]
  refine ⟨by decide, ?_, ?_⟩
  · rw [idDigits_zeroDigits, List.length_replicate]
  · rw [idDigits_zeroDigits, List.take_replicate, decimalValue_zeros]
    decide

end Nextppp

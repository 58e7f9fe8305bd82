/-
**The base94 byte and integer codecs, and the Internet checksum.**

The byte codec and the integer codec are the third-party crate the framer calls; they are written
here as sections 4.5 and 4.6 of the protocol document state them.  The checksum is
`frame/checksum.rs`.

Main definitions:

* `Nextppp.base94EncodeInto`, `Nextppp.base94DecodeInto` — one or two printable characters for
  every byte, and back;
* `Nextppp.base94DecimalEncode`, `Nextppp.base94DecimalDecode` — base-94 numerals;
* `Nextppp.inetChksum`;
* `Nextppp.Printable` — the characters of the envelope.

Main results:

* `Nextppp.base94DecodeInto_encodeInto` — decoding inverts encoding;
* `Nextppp.base94DecimalDecode_padded` — a numeral padded with zero digits reads back;
* `Nextppp.base94EncodeInto_printable`, `Nextppp.base94DecimalEncode_printable`.
-/

import Nextppp.Core.Basic

set_option relaxedAutoImplicit false
set_option autoImplicit false

namespace Nextppp

open Numeral

/-- A printable character of the envelope, `0x20..=0x7e`. -/
def Printable (c : UInt8) : Prop := 0x20 ≤ c.toNat ∧ c.toNat ≤ 0x7e

instance (c : UInt8) : Decidable (Printable c) := inferInstanceAs (Decidable (_ ∧ _))

theorem toNat_ofNat_lt {n : ℕ} (h : n < 256) : (UInt8.ofNat n).toNat = n :=
  UInt8.toNat_ofNat_of_lt' (by simpa [UInt8.size] using h)

/-! ### The byte codec -/

/-- The characters of one byte: one for the low 93 values, an escape and a digit for the rest. -/
def base94EncodeByte (kf : UInt32) (b : UInt8) : List UInt8 :=
  let v := (b - kf.toUInt8).toNat
  if 93 ≤ v then [UInt8.ofNat (0x20 + (v / 93 - 1 + 93)), UInt8.ofNat (0x20 + v % 93)]
  else [UInt8.ofNat (0x20 + v)]

/-- The characters of a byte string. -/
def base94EncodeInto (kf : UInt32) (data : List UInt8) : List UInt8 :=
  data.flatMap (base94EncodeByte kf)

/-- The length of the encoding, computed without encoding. -/
def base94EncodedLen (kf : UInt32) (data : List UInt8) : ℕ :=
  (data.map fun b => if 93 ≤ (b - kf.toUInt8).toNat then 2 else 1).sum

/-- The value of a character that stands for a byte on its own. -/
def base94Plain (c : UInt8) : Option ℕ :=
  if 0x20 ≤ c.toNat ∧ c.toNat - 0x20 < 93 then some (c.toNat - 0x20) else none

/-- The value of an escape character and the digit behind it. -/
def base94Escape (c c₂ : UInt8) : Option ℕ :=
  if 0x20 + 93 ≤ c.toNat ∧ c.toNat - 0x20 ≤ 94 ∧ 0x20 ≤ c₂.toNat ∧ c₂.toNat - 0x20 ≤ 93 ∧
      (c.toNat - 0x20 - 93 + 1) * 93 + (c₂.toNat - 0x20) ≤ 0xff then
    some ((c.toNat - 0x20 - 93 + 1) * 93 + (c₂.toNat - 0x20))
  else none

/-- The bytes of a character string; a failure leaves no partial output. -/
def base94DecodeInto (kf : UInt32) : List UInt8 → Except Error (List UInt8)
  | [] => .ok []
  | c :: rest =>
      match base94Plain c with
      | some v => (base94DecodeInto kf rest).map ((UInt8.ofNat v + kf.toUInt8) :: ·)
      | none =>
          match rest with
          | [] => .error .invalidBase94
          | c₂ :: rest =>
              match base94Escape c c₂ with
              | some v => (base94DecodeInto kf rest).map ((UInt8.ofNat v + kf.toUInt8) :: ·)
              | none => .error .invalidBase94

theorem base94EncodeInto_cons (kf : UInt32) (b : UInt8) (data : List UInt8) :
    base94EncodeInto kf (b :: data) = base94EncodeByte kf b ++ base94EncodeInto kf data :=
  List.flatMap_cons

theorem base94EncodeInto_length (kf : UInt32) (data : List UInt8) :
    (base94EncodeInto kf data).length = base94EncodedLen kf data := by
  induction data with
  | nil => rfl
  | cons b data ih =>
      rw [base94EncodeInto_cons, List.length_append, ih]
      simp only [base94EncodedLen, List.map_cons, List.sum_cons, base94EncodeByte]
      split <;> simp

theorem base94EncodedLen_le (kf : UInt32) (data : List UInt8) :
    base94EncodedLen kf data ≤ 2 * data.length := by
  induction data with
  | nil => simp [base94EncodedLen]
  | cons b data ih =>
      simp only [base94EncodedLen, List.map_cons, List.sum_cons, List.length_cons] at ih ⊢
      split <;> omega

theorem base94EncodedLen_pos (kf : UInt32) {data : List UInt8} (h : data ≠ []) :
    0 < base94EncodedLen kf data := by
  obtain ⟨b, rest, rfl⟩ := List.exists_cons_of_ne_nil h
  simp only [base94EncodedLen, List.map_cons, List.sum_cons]
  split <;> omega

theorem base94DecodeInto_plain (kf : UInt32) {c : UInt8} (rest : List UInt8) {v : ℕ}
    (h : base94Plain c = some v) :
    base94DecodeInto kf (c :: rest) =
      (base94DecodeInto kf rest).map ((UInt8.ofNat v + kf.toUInt8) :: ·) := by
  rw [base94DecodeInto.eq_def]
  dsimp only
  rw [h]

theorem base94DecodeInto_escape (kf : UInt32) {c c₂ : UInt8} (rest : List UInt8) {v : ℕ}
    (h : base94Plain c = none) (h₂ : base94Escape c c₂ = some v) :
    base94DecodeInto kf (c :: c₂ :: rest) =
      (base94DecodeInto kf rest).map ((UInt8.ofNat v + kf.toUInt8) :: ·) := by
  rw [base94DecodeInto.eq_def]
  dsimp only
  rw [h, h₂]

/-- One encoded byte is read back, whatever follows it. -/
theorem base94DecodeInto_encodeByte (kf : UInt32) (b : UInt8) (rest : List UInt8) :
    base94DecodeInto kf (base94EncodeByte kf b ++ rest) =
      (base94DecodeInto kf rest).map (b :: ·) := by
  have hv : (b - kf.toUInt8).toNat < 256 := (b - kf.toUInt8).toNat_lt
  have hback : UInt8.ofNat (b - kf.toUInt8).toNat + kf.toUInt8 = b := by
    rw [UInt8.ofNat_toNat, UInt8.sub_add_cancel]
  unfold base94EncodeByte
  generalize (b - kf.toUInt8).toNat = v at hv hback
  dsimp only
  split
  · -- the escape character names the quotient, 1 or 2, the digit the remainder
    have hc : (UInt8.ofNat (0x20 + (v / 93 - 1 + 93))).toNat = 0x20 + (v / 93 - 1 + 93) :=
      toNat_ofNat_lt (by omega)
    have hd : (UInt8.ofNat (0x20 + v % 93)).toNat = 0x20 + v % 93 := toNat_ofNat_lt (by omega)
    have hplain : base94Plain (UInt8.ofNat (0x20 + (v / 93 - 1 + 93))) = none := by
      rw [base94Plain, hc, if_neg (by omega)]
    have hpair : base94Escape (UInt8.ofNat (0x20 + (v / 93 - 1 + 93))) (UInt8.ofNat (0x20 + v % 93))
        = some v := by
      rw [base94Escape, hc, hd, if_pos (by omega)]
      congr 1
      omega
    rw [List.cons_append, List.cons_append, List.nil_append,
      base94DecodeInto_escape kf rest hplain hpair, hback]
  · have hc : (UInt8.ofNat (0x20 + v)).toNat = 0x20 + v := toNat_ofNat_lt (by omega)
    have hplain : base94Plain (UInt8.ofNat (0x20 + v)) = some v := by
      rw [base94Plain, hc, if_pos (by omega), Nat.add_sub_cancel_left]
    rw [List.cons_append, List.nil_append, base94DecodeInto_plain kf rest hplain, hback]

/-- Decoding inverts encoding. -/
theorem base94DecodeInto_encodeInto (kf : UInt32) (data : List UInt8) :
    base94DecodeInto kf (base94EncodeInto kf data) = .ok data := by
  induction data with
  | nil => rfl
  | cons b data ih =>
      rw [base94EncodeInto_cons, base94DecodeInto_encodeByte, ih]
      rfl

theorem base94EncodeInto_printable (kf : UInt32) (data : List UInt8) :
    ∀ c ∈ base94EncodeInto kf data, Printable c := by
  intro c hc
  obtain ⟨b, _, hcb⟩ := List.mem_flatMap.1 hc
  have hv : (b - kf.toUInt8).toNat < 256 := (b - kf.toUInt8).toNat_lt
  unfold base94EncodeByte at hcb
  generalize (b - kf.toUInt8).toNat = v at hv hcb
  dsimp only at hcb
  split at hcb
  · rcases List.mem_pair.1 hcb with rfl | rfl
    all_goals
      rw [Printable, toNat_ofNat_lt (by omega)]
      omega
  · obtain rfl := List.mem_singleton.1 hcb
    rw [Printable, toNat_ofNat_lt (by omega)]
    omega

/-! ### The integer codec -/

/-- The digits a 64-bit value can need. -/
def base94DecimalMaxLen : ℕ := 10

/-- The base-94 numeral of a value, as few digits as possible. -/
def base94DecimalEncode (v : ℕ) : List UInt8 :=
  (digitsLoop 94 base94DecimalMaxLen v).reverse.map fun d => UInt8.ofNat (0x20 + d)

/-- The value of a base-94 numeral; leading zero digits are accepted. -/
def base94DecimalDecode (s : List UInt8) : Except Error ℕ :=
  if s.all fun c => 0x20 ≤ c.toNat && c.toNat - 0x20 < 94 then
    .ok (value 94 (s.map fun c => c.toNat - 0x20))
  else .error .invalidBase94

theorem base94DecimalEncode_digit {v : ℕ} {c : UInt8} (h : c ∈ base94DecimalEncode v) :
    0x20 ≤ c.toNat ∧ c.toNat ≤ 0x7d := by
  obtain ⟨d, hd, rfl⟩ := List.mem_map.1 h
  have hlt := digitsLoop_lt (by decide : 0 < 94) _ _ d (List.mem_reverse.1 hd)
  rw [toNat_ofNat_lt (by omega)]
  omega

theorem base94DecimalEncode_length {v : ℕ} (h : v < 94 ^ 3) :
    0 < (base94DecimalEncode v).length ∧ (base94DecimalEncode v).length ≤ 3 := by
  simp only [base94DecimalEncode, List.length_map, List.length_reverse]
  exact ⟨digitsLoop_length_pos (by decide) _ _, digitsLoop_length_le (by decide) h _⟩

/-- A numeral padded with zero digits reads back. -/
theorem base94DecimalDecode_padded {v : ℕ} (h : v < 94 ^ 3) (k : ℕ) :
    base94DecimalDecode (List.replicate k 0x20 ++ base94DecimalEncode v) = .ok v := by
  have hdig : ∀ c ∈ List.replicate k 0x20 ++ base94DecimalEncode v,
      0x20 ≤ c.toNat ∧ c.toNat - 0x20 < 94 := by
    intro c hc
    rcases List.mem_append.1 hc with hc | hc
    · obtain rfl := List.eq_of_mem_replicate hc
      decide
    · have := base94DecimalEncode_digit hc
      omega
  have hmap : (base94DecimalEncode v).map (fun c => c.toNat - 0x20)
      = (digitsLoop 94 base94DecimalMaxLen v).reverse := by
    rw [base94DecimalEncode, List.map_map]
    conv => rhs; rw [← List.map_id (digitsLoop 94 base94DecimalMaxLen v).reverse]
    refine List.map_congr_left fun d hd => ?_
    have hlt := digitsLoop_lt (by decide : 0 < 94) _ _ d (List.mem_reverse.1 hd)
    simp only [Function.comp_apply, id_eq]
    rw [toNat_ofNat_lt (by omega)]
    omega
  have hzero : (List.replicate k (0x20 : UInt8)).map (fun c => c.toNat - 0x20)
      = List.replicate k 0 := by simp
  have hall : (List.replicate k 0x20 ++ base94DecimalEncode v).all
      (fun c => 0x20 ≤ c.toNat && c.toNat - 0x20 < 94) = true :=
    List.all_eq_true.2 fun c hc => by simpa using hdig c hc
  rw [base94DecimalDecode, if_pos hall, List.map_append, hzero, hmap,
    value_replicate_zero_append, value_digitsLoop]
  exact h.trans (by decide)

/-! ### The Internet checksum -/

/-- Fold the carries of a 16-bit sum back in. -/
def foldCarry : ℕ → ℕ → ℕ
  | 0, sum => sum
  | fuel + 1, sum =>
      if sum / 65536 ≠ 0 then foldCarry fuel (sum % 65536 + sum / 65536) else sum

/-- The sum of the big-endian 16-bit words, an odd last byte counted as a high byte. -/
def wordSum : List UInt8 → ℕ
  | [] => 0
  | [b] => b.toNat * 256
  | a :: b :: rest => a.toNat * 256 + b.toNat + wordSum rest

/-- The one's complement of the one's-complement sum. -/
def inetChksum (data : List UInt8) : ℕ := 65535 - foldCarry 2 (wordSum data) % 65536

theorem inetChksum_lt (data : List UInt8) : inetChksum data < 65536 := by
  unfold inetChksum
  omega

end Nextppp

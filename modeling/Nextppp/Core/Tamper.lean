/-
**One corrupted byte in the header of a first frame.**

The extended header of `frame/base94.rs` carries three checksum digits, and its documentation says
that any corruption of the stream fails the check.  A change of one of the four header characters
does: it changes the Internet checksum, or the length, which the size of the packet pins down.  A
change of a checksum digit does unless the reduction modulo the modulus of the framer hides it, and
the decoder accepts every three digits, reduced or not.  Only the leading digit has a weight large
enough for that: two leading digits name the same residue when their distance is a multiple of
`modulus / gcd(modulus, 94 ^ 2)`.

Main definitions:

* `Nextppp.Base94Framer.TamperEvident` — every change of one header byte is rejected;
* `Nextppp.Base94Framer.leadingDigit`, `Nextppp.Base94Framer.digitPeriod`.

Main results:

* `Nextppp.inetChksum_set_ne` — one changed byte changes the checksum of a header;
* `Nextppp.Base94Framer.tamperEvident_iff` — corruption is always noticed exactly when no second
  leading digit names the same residue;
* `Nextppp.Base94Framer.tamperEvident_of_not_dvd` — which is so for every modulus that is not a multiple of
  `2 * 47 ^ 2`.
-/

import Nextppp.Core.Base94

set_option relaxedAutoImplicit false
set_option autoImplicit false

namespace Nextppp

open ListLib Numeral

/-! ### The Internet checksum of a header -/

/-- Folding a carry back in keeps the sum modulo `2 ^ 16 - 1`. -/
theorem foldCarry_modEq (fuel sum : ℕ) : foldCarry fuel sum ≡ sum [MOD 65535] := by
  induction fuel generalizing sum with
  | zero => rfl
  | succ fuel ih =>
      rw [foldCarry]
      split
      · refine (ih _).trans ?_
        unfold Nat.ModEq
        omega
      · rfl

/-- A sum of two words is folded once. -/
theorem foldCarry_lt {sum : ℕ} (h : sum ≤ 2 * 65535) : foldCarry 2 sum < 65536 := by
  rw [foldCarry]
  split
  · rw [foldCarry, if_neg (by omega)]
    omega
  · omega

/-- A changed byte moves the sum by its distance, at the weight of its position. -/
theorem wordSum_set (data : List UInt8) (i : ℕ) (hi : i < data.length) (b : UInt8) :
    ∃ w, (w = 1 ∨ w = 256) ∧
      wordSum (data.set i b) + data[i].toNat * w = wordSum data + b.toNat * w := by
  induction data using wordSum.induct generalizing i with
  | case1 => simp at hi
  | case2 c =>
      obtain rfl : i = 0 := by simpa using hi
      refine ⟨256, .inr rfl, ?_⟩
      simp only [List.set_cons_zero, List.getElem_cons_zero, wordSum]
      omega
  | case3 c d rest ih =>
      rcases i with _ | _ | i
      · refine ⟨256, .inr rfl, ?_⟩
        simp only [List.set_cons_zero, List.getElem_cons_zero, wordSum]
        omega
      · refine ⟨1, .inl rfl, ?_⟩
        simp only [List.set_cons_zero, List.set_cons_succ, List.getElem_cons_zero,
          List.getElem_cons_succ, wordSum]
        omega
      · obtain ⟨w, hw, hsum⟩ := ih i (by simpa using hi)
        refine ⟨w, hw, ?_⟩
        simp only [List.set_cons_succ, List.getElem_cons_succ, wordSum]
        omega

theorem wordSum_le_of_length {data : List UInt8} (h : data.length = headerSimple) :
    wordSum data ≤ 2 * 65535 := by
  obtain ⟨p, q, r, s, rfl⟩ : ∃ p q r s, data = [p, q, r, s] := by
    match data, h with
    | [p, q, r, s], _ => exact ⟨p, q, r, s, rfl⟩
  have hp := p.toNat_lt
  have hq := q.toNat_lt
  have hr := r.toNat_lt
  have hs := s.toNat_lt
  simp only [wordSum]
  omega

/-- One changed byte changes the checksum of a header: at neither weight is its distance a multiple
of `2 ^ 16 - 1`. -/
theorem inetChksum_set_ne {data : List UInt8} (hlen : data.length = headerSimple) {i : ℕ}
    (hi : i < data.length) {b : UInt8} (hb : data[i] ≠ b) :
    inetChksum (data.set i b) ≠ inetChksum data := by
  intro heq
  have hne : data[i].toNat ≠ b.toNat := fun h => hb (UInt8.toNat.inj h)
  have hlt := data[i].toNat_lt
  have hblt := b.toNat_lt
  have hfold := foldCarry_lt (wordSum_le_of_length hlen)
  have hlen' : (data.set i b).length = headerSimple := by rw [List.length_set, hlen]
  have hfold' := foldCarry_lt (wordSum_le_of_length hlen')
  have hmod := foldCarry_modEq 2 (wordSum data)
  have hmod' := foldCarry_modEq 2 (wordSum (data.set i b))
  obtain ⟨w, hw, hsum⟩ := wordSum_set data i hi b
  unfold inetChksum at heq
  have hsame : foldCarry 2 (wordSum (data.set i b)) = foldCarry 2 (wordSum data) := by omega
  rw [hsame] at hmod'
  have hcong : wordSum (data.set i b) ≡ wordSum data [MOD 65535] := hmod'.symm.trans hmod
  unfold Nat.ModEq at hcong
  rcases hw with rfl | rfl <;> omega

/-! ### One changed character of a shuffled slice -/

/-- Changing a byte of a shuffled slice changes one byte of the slice, at the position the shuffle
took it from. -/
theorem unshuffle_set {n : ℕ} (hn : n < 2 ^ 32) (key : UInt32) {data : List UInt8}
    (hd : data.length = n) (j : Fin n) (b : UInt8) :
    unshuffle (data.set j.val b) key
      = (unshuffle data key).set (shufflePerm n key j).val b := by
  refine List.ext_getElem? fun k => ?_
  by_cases hk : k < n
  · have hlen : (shufflePerm n key j).val < (unshuffle data key).length := by
      rw [unshuffle_length, hd]
      exact (shufflePerm n key j).isLt
    have hd' : (data.set j.val b).length = n := by rw [List.length_set, hd]
    have hset := unshuffle_getElem? hn key hd' ⟨k, hk⟩
    have hold := unshuffle_getElem? hn key hd ⟨k, hk⟩
    dsimp only at hset hold
    rw [hset, List.getElem?_set, List.getElem?_set, hold]
    by_cases hjk : shufflePerm n key j = ⟨k, hk⟩
    · have hj : (shufflePerm n key).symm ⟨k, hk⟩ = j := by rw [← hjk, Equiv.symm_apply_apply]
      rw [hj, hjk, if_pos rfl, if_pos rfl, if_pos (by rw [hd]; exact j.isLt),
        if_pos (by rw [unshuffle_length, hd]; exact hk)]
    · have hj : j ≠ (shufflePerm n key).symm ⟨k, hk⟩ :=
        fun h => hjk (by rw [h, Equiv.apply_symm_apply])
      rw [if_neg fun h => hj (Fin.ext h), if_neg fun h => hjk (Fin.ext h)]
  · rw [List.getElem?_eq_none (by simp [hd]; omega), List.getElem?_eq_none (by simp [hd]; omega)]

namespace Base94Framer

/-! ### What the decoder accepts -/

theorem decodeHeaderExtended_eq_ok {f : Base94Framer} {h : List UInt8} {n : ℕ} :
    f.decodeHeaderExtended h = .ok n ↔
      0 < n ∧ f.decodeLength ((restoreHeader (h.take headerSimple)).drop 1) = .ok n ∧
        f.decodeLength (unshuffle (h.drop headerSimple) f.kf)
          = .ok (inetChksum (h.take headerSimple) ^^^ n) := by
  unfold decodeHeaderExtended
  constructor
  · intro heq
    dsimp only at heq
    split at heq
    · cases heq
    · rename_i len hlen
      split at heq
      · cases heq
      · rename_i hpos
        split at heq
        · cases heq
        · rename_i c hc
          split at heq
          · cases heq
          · rename_i hchk
            cases heq
            exact ⟨by omega, hlen, by rw [hc, not_not.1 hchk]⟩
  · rintro ⟨hpos, hlen, hchk⟩
    dsimp only
    rw [hlen]
    dsimp only
    rw [if_neg (by omega), hchk]
    dsimp only
    rw [if_neg (by simp)]

/-- A first frame that is accepted declares the length it has. -/
theorem decodePacketInto_first {f : Base94Framer} (hrx : f.rxFirst = true)
    {packet out : List UInt8} (h : (f.decodePacketInto packet).1 = .ok out) :
    ∃ n, n + headerExtended = packet.length ∧
      f.decodeHeaderExtended (packet.take headerExtended) = .ok n := by
  have hhl : f.headerLen = headerExtended := by rw [headerLen, if_pos hrx]
  unfold decodePacketInto at h
  rw [hhl] at h
  split at h
  · cases h
  · split at h
    · cases h
    · rename_i n hn
      split at h
      · cases h
      · rename_i hlen
        refine ⟨n, not_not.1 hlen, ?_⟩
        rw [decodeHeader, if_pos hrx] at hn
        split at hn
        · cases hn
        · rename_i m hm
          split at hn
          · cases hn
          · cases hn
            exact hm

/-- The header characters and the checksum digits of a first frame whose body has `n`
characters. -/
structure FirstHeader (f : Base94Framer) (n : ℕ) (hd cs : List UInt8) : Prop where
  hd_length : hd.length = headerSimple
  cs_length : cs.length = headerExtended - headerSimple
  pos : 0 < n
  le : n ≤ base94MaxFrame
  length_ok : f.decodeLength ((restoreHeader hd).drop 1) = .ok n
  digits_ok : base94DecimalDecode cs = .ok (((inetChksum hd ^^^ n) + f.kfMod) % f.mod_)

theorem FirstHeader.checksum_ok {f : Base94Framer} {n : ℕ} {hd cs : List UInt8}
    (h : FirstHeader f n hd cs) : f.decodeLength cs = .ok (inetChksum hd ^^^ n) :=
  f.decodeLength_of_decimal (f.chk_lt_mod hd h.le) h.digits_ok

/-- A first frame: its four header characters, the shuffled checksum digits and the body. -/
theorem encodeFrame_first {f : Base94Framer} (htx : f.txFirst = true) {rng : Rng}
    {payload frame : List UInt8} (h : (f.encodeFrame rng payload).1 = .ok frame) :
    ∃ hd cs, FirstHeader f (base94EncodedLen f.kf payload) hd cs ∧
      frame = hd ++ shuffle cs f.kf ++ base94EncodeInto f.kf payload := by
  unfold encodeFrame at h
  split at h
  · cases h
  · rename_i hne
    dsimp only at h
    split at h
    · cases h
    · rename_i hle
      obtain ⟨hd, cs, rng', henc, hlen, hcs, -, -, hdec, hchk⟩ :=
        f.encodeHeader_first rng (Nat.le_of_not_lt hle) htx
      rw [henc] at h
      cases h
      exact ⟨hd, cs, ⟨hlen, hcs, base94EncodedLen_pos f.kf (by simpa using hne),
        Nat.le_of_not_lt hle, hdec, hchk⟩, rfl⟩

/-! ### One changed checksum digit -/

/-- The characters that stand for a base-94 digit. -/
def IsDigit (c : UInt8) : Prop := 0x20 ≤ c.toNat ∧ c.toNat - 0x20 < 94

theorem base94DecimalDecode_eq_ok {cs : List UInt8} {v : ℕ} :
    base94DecimalDecode cs = .ok v ↔
      (∀ c ∈ cs, IsDigit c) ∧ value 94 (cs.map fun c => c.toNat - 0x20) = v := by
  have hall : (cs.all fun c => 0x20 ≤ c.toNat && c.toNat - 0x20 < 94) = true ↔
      ∀ c ∈ cs, IsDigit c := by simp [IsDigit]
  unfold base94DecimalDecode
  constructor
  · intro h
    split at h
    · rename_i hd
      cases h
      exact ⟨hall.1 hd, rfl⟩
    · cases h
  · rintro ⟨hd, rfl⟩
    rw [if_pos (hall.2 hd)]

/-- The distance at which the reduction hides a change of a digit of weight `w`. -/
def period (f : Base94Framer) (w : ℕ) : ℕ := f.mod_ / f.mod_.gcd w

/-- A changed character of a length field is read as the same length exactly when it is a digit that
agrees with the old one modulo the period of its weight. -/
theorem decodeLength_set_iff (f : Base94Framer) {cs : List UInt8} {n : ℕ}
    (h : f.decodeLength cs = .ok n) (k : ℕ) (hk : k < cs.length) (b : UInt8) :
    f.decodeLength (cs.set k b) = .ok n ↔
      IsDigit b ∧
        b.toNat - 0x20 ≡ cs[k].toNat - 0x20 [MOD f.period (94 ^ (cs.length - 1 - k))] := by
  have hpos : 0 < f.mod_ := Nat.zero_lt_of_lt f.kfMod_lt
  have hvalue := value_set_modEq_iff hpos 94 (cs.map fun c => c.toNat - 0x20) k (by simpa using hk)
    (b.toNat - 0x20)
  simp only [List.getElem_map, List.length_map] at hvalue
  unfold decodeLength at h ⊢
  cases hd : base94DecimalDecode cs with
  | error e => rw [hd] at h; cases h
  | ok v =>
      obtain ⟨hdig, hv⟩ := base94DecimalDecode_eq_ok.1 hd
      rw [hd] at h
      cases h
      have hset : (cs.set k b).map (fun c => c.toNat - 0x20)
          = (cs.map fun c => c.toNat - 0x20).set k (b.toNat - 0x20) := List.map_set
      constructor
      · intro h'
        cases hd' : base94DecimalDecode (cs.set k b) with
        | error e => rw [hd'] at h'; cases h'
        | ok v' =>
            obtain ⟨hdig', hv'⟩ := base94DecimalDecode_eq_ok.1 hd'
            rw [hd'] at h'
            refine ⟨hdig' b (List.mem_set hk b), hvalue.1 ?_⟩
            rw [← hset, hv, hv']
            have hsum : v' + (f.mod_ - f.kfMod) ≡ v + (f.mod_ - f.kfMod) [MOD f.mod_] := by
              unfold Nat.ModEq
              simpa [Except.map] using h'
            exact hsum.add_right_cancel' _
      · rintro ⟨hb, hmod⟩
        have hdig' : ∀ c ∈ cs.set k b, IsDigit c := by
          intro c hc
          rcases List.mem_or_eq_of_mem_set hc with hc | rfl
          · exact hdig c hc
          · exact hb
        have hsame := hvalue.2 hmod
        rw [← hset, hv] at hsame
        rw [base94DecimalDecode_eq_ok.2 ⟨hdig', rfl⟩]
        simp only [Except.map, Except.ok.injEq]
        exact hsame.add_right _

/-- The two low digits weigh too little for the reduction to hide anything. -/
theorem period_gt (f : Base94Framer) {w : ℕ} (hpos : 0 < w) (hw : w ≤ 94) : 93 < f.period w := by
  have hgcd : f.mod_.gcd w ≤ 94 := (Nat.gcd_le_right _ hpos).trans hw
  have hgpos : 0 < f.mod_.gcd w := Nat.gcd_pos_of_pos_right _ hpos
  have hge : modMin ≤ f.mod_ := f.mod_ge
  rw [period, Nat.lt_iff_add_one_le, Nat.le_div_iff_mul_le hgpos]
  calc (93 + 1) * f.mod_.gcd w ≤ 94 * 94 := Nat.mul_le_mul_left 94 hgcd
    _ ≤ modMin := by decide
    _ ≤ f.mod_ := hge

/-- A digit below the period that a second digit agrees with leaves room for it. -/
theorem add_period_le {p d d' : ℕ} (hd : d < p) (hd' : d' < 94) (hne : d' ≠ d)
    (h : d' ≡ d [MOD p]) : d + p ≤ 93 := by
  have hmod : d' % p = d := Eq.trans h (Nat.mod_eq_of_lt hd)
  have hdm := Nat.div_add_mod d' p
  have hquot : 1 ≤ d' / p := by
    rcases Nat.eq_zero_or_pos (d' / p) with hz | hq
    · rw [hz, Nat.mul_zero] at hdm
      omega
    · exact hq
  have hle : p * 1 ≤ p * (d' / p) := Nat.mul_le_mul_left p hquot
  omega

/-! ### One changed byte of a first header -/

/-- Every change of one byte of the extended header is rejected, and leaves the framer as it was. -/
def TamperEvident (f : Base94Framer) (frame : List UInt8) : Prop :=
  ∀ i < headerExtended, ∀ b : UInt8, frame[i]? ≠ some b →
    ∃ e, f.decodePacketInto (frame.set i b) = (.error e, f)

/-- The leading checksum digit of a first frame with the header characters `hd` and a body of `n`
characters. -/
def leadingDigit (f : Base94Framer) (hd : List UInt8) (n : ℕ) : ℕ :=
  ((inetChksum hd ^^^ n) + f.kfMod) % f.mod_ / 94 ^ 2

/-- The distance between two leading digits that name the same residue. -/
def digitPeriod (f : Base94Framer) : ℕ := f.period (94 ^ 2)

theorem leadingDigit_lt (f : Base94Framer) (hd : List UInt8) (n : ℕ) :
    f.leadingDigit hd n < f.digitPeriod := by
  have hpos : 0 < f.mod_ := Nat.zero_lt_of_lt f.kfMod_lt
  have hgpos : 0 < f.mod_.gcd (94 ^ 2) := Nat.gcd_pos_of_pos_left _ hpos
  have hgle : f.mod_.gcd (94 ^ 2) ≤ 94 ^ 2 := Nat.gcd_le_right _ (by decide)
  rw [leadingDigit, Nat.div_lt_iff_lt_mul (by decide)]
  calc ((inetChksum hd ^^^ n) + f.kfMod) % f.mod_ < f.mod_ := Nat.mod_lt _ hpos
    _ = f.digitPeriod * f.mod_.gcd (94 ^ 2) := (Nat.div_mul_cancel (Nat.gcd_dvd_left _ _)).symm
    _ ≤ f.digitPeriod * 94 ^ 2 := Nat.mul_le_mul_left _ hgle

/-- The first of three digits is the quotient by the weight it has. -/
theorem leading_of_decimal {cs : List UInt8} {v : ℕ} (hlen : cs.length = 3)
    (h : base94DecimalDecode cs = .ok v) (h0 : 0 < cs.length) :
    cs[0].toNat - 0x20 = v / 94 ^ 2 := by
  obtain ⟨a, b, c, rfl⟩ := List.length_eq_three.1 hlen
  obtain ⟨hdig, rfl⟩ := base94DecimalDecode_eq_ok.1 h
  have hb := (hdig b (by simp)).2
  have hc := (hdig c (by simp)).2
  simp only [value, List.map_cons, List.map_nil, List.foldl_cons, List.foldl_nil,
    List.getElem_cons_zero]
  omega

/-- With the size of the packet right, a first frame is rejected unless its header declares that size
and its checksum digits say so too. -/
theorem rejected_iff {f : Base94Framer} (hrx : f.rxFirst = true) {hd ds payload : List UInt8}
    (hlen : hd.length = headerSimple) (hds : ds.length = headerExtended - headerSimple)
    (hpos : 0 < base94EncodedLen f.kf payload)
    (hle : base94EncodedLen f.kf payload ≤ base94MaxFrame) :
    (∃ e, f.decodePacketInto (hd ++ ds ++ base94EncodeInto f.kf payload) = (.error e, f)) ↔
      ¬(f.decodeLength ((restoreHeader hd).drop 1) = .ok (base94EncodedLen f.kf payload) ∧
        f.decodeLength (unshuffle ds f.kf)
          = .ok (inetChksum hd ^^^ base94EncodedLen f.kf payload)) := by
  have hhead : (hd ++ ds).length = headerExtended := by
    rw [List.length_append, hlen, hds]
    rfl
  have htake : (hd ++ ds).take headerSimple = hd :=
    List.take_left' hlen
  have hdrop : (hd ++ ds).drop headerSimple = ds :=
    List.drop_left' hlen
  constructor
  · rintro ⟨e, he⟩ ⟨hn, hchk⟩
    have hext : f.decodeHeaderExtended (hd ++ ds) = .ok (base94EncodedLen f.kf payload) :=
      decodeHeaderExtended_eq_ok.2 ⟨hpos, by rw [htake]; exact hn, by rw [htake, hdrop]; exact hchk⟩
    have hdec : f.decodeHeader (hd ++ ds) = .ok (base94EncodeInto f.kf payload).length := by
      have hbound : checkBound (base94EncodedLen f.kf payload) = .ok () := if_neg (by omega)
      rw [decodeHeader, if_pos hrx, hext, base94EncodeInto_length]
      dsimp only
      rw [hbound]
    have hok := f.decodePacketInto_frame (by rw [hhead, headerLen, if_pos hrx]) hdec
    rw [hok] at he
    cases he
  · intro hnot
    cases hres : (f.decodePacketInto (hd ++ ds ++ base94EncodeInto f.kf payload)).1 with
    | error e => exact ⟨e, Prod.ext hres (decodePacketInto_error hres)⟩
    | ok out =>
        obtain ⟨m, hm, hext⟩ := decodePacketInto_first hrx hres
        have hfull : (hd ++ ds ++ base94EncodeInto f.kf payload).take headerExtended = hd ++ ds :=
          List.take_left' hhead
        obtain rfl : m = base94EncodedLen f.kf payload := by
          rw [List.length_append, hhead, base94EncodeInto_length] at hm
          omega
        rw [hfull] at hext
        obtain ⟨-, hn, hchk⟩ := decodeHeaderExtended_eq_ok.1 hext
        rw [htake] at hn hchk
        rw [hdrop] at hchk
        exact absurd ⟨hn, hchk⟩ hnot

section FirstFrame

variable {f : Base94Framer} {n : ℕ} {payload hd cs : List UInt8}

/-- A changed header character gives itself away: the checksum of the header is another one. -/
theorem header_change_rejected (hrx : f.rxFirst = true)
    (hf : FirstHeader f (base94EncodedLen f.kf payload) hd cs) {i : ℕ} (hi : i < hd.length)
    {b : UInt8} (hb : hd[i] ≠ b) :
    ∃ e, f.decodePacketInto (hd.set i b ++ shuffle cs f.kf ++ base94EncodeInto f.kf payload)
      = (.error e, f) := by
  have hlen : (hd.set i b).length = headerSimple := by rw [List.length_set, hf.hd_length]
  have hds : (shuffle cs f.kf).length = headerExtended - headerSimple := by
    rw [shuffle_length, hf.cs_length]
  rw [rejected_iff hrx hlen hds hf.pos hf.le, unshuffle_shuffle, hf.checksum_ok]
  rintro ⟨-, hchk⟩
  rw [Except.ok.injEq, Nat.xor_left_inj] at hchk
  exact inetChksum_set_ne hf.hd_length hi hb hchk.symm

/-- A changed checksum character is accepted exactly when it is a digit that the reduction
identifies with the old one. -/
theorem digit_change_rejected_iff (hrx : f.rxFirst = true)
    (hf : FirstHeader f (base94EncodedLen f.kf payload) hd cs) (j : Fin 3) (b : UInt8)
    (hk : (shufflePerm 3 f.kf j).val < cs.length) :
    (∃ e, f.decodePacketInto
        (hd ++ (shuffle cs f.kf).set j.val b ++ base94EncodeInto f.kf payload) = (.error e, f)) ↔
      ¬(IsDigit b ∧ b.toNat - 0x20 ≡ cs[(shufflePerm 3 f.kf j).val].toNat - 0x20
        [MOD f.period (94 ^ (cs.length - 1 - (shufflePerm 3 f.kf j).val))]) := by
  have hds : ((shuffle cs f.kf).set j.val b).length = headerExtended - headerSimple := by
    rw [List.length_set, shuffle_length, hf.cs_length]
  have hun : unshuffle ((shuffle cs f.kf).set j.val b) f.kf
      = cs.set (shufflePerm 3 f.kf j).val b := by
    rw [unshuffle_set (by decide) f.kf (by rw [shuffle_length, hf.cs_length]; rfl) j b,
      unshuffle_shuffle]
  rw [rejected_iff hrx hf.hd_length hds hf.pos hf.le, hun,
    f.decodeLength_set_iff hf.checksum_ok _ hk]
  exact not_congr ⟨fun h => h.2, fun h => ⟨hf.length_ok, h⟩⟩

/-- When the leading digit leaves no room for a second one, the reduction identifies no two
digits of any weight. -/
theorem FirstHeader.digit_eq (hf : FirstHeader f n hd cs)
    (hroom : 93 < f.leadingDigit hd n + f.digitPeriod) {k : ℕ} (hk : k < cs.length) {b : UInt8}
    (hb : IsDigit b)
    (hmod : b.toNat - 0x20 ≡ cs[k].toNat - 0x20 [MOD f.period (94 ^ (cs.length - 1 - k))]) :
    cs[k] = b := by
  have hcs : cs.length = 3 := hf.cs_length
  obtain ⟨hlo, hlt⟩ := hb
  obtain ⟨hlo', hlt'⟩ := (base94DecimalDecode_eq_ok.1 hf.digits_ok).1 _ (List.getElem_mem hk)
  by_contra hne
  have hdist : b.toNat - 0x20 ≠ cs[k].toNat - 0x20 :=
    fun h => hne (UInt8.toNat.inj (by omega))
  rw [hcs] at hmod
  rcases k with _ | k
  · -- the leading digit
    have hlead : cs[0].toNat - 0x20 = f.leadingDigit hd n := leading_of_decimal hcs hf.digits_ok hk
    rw [hlead] at hmod hdist
    have hle := add_period_le (f.leadingDigit_lt hd n) hlt hdist hmod
    exact absurd hle (Nat.not_le.2 hroom)
  · have hgt : 93 < f.period (94 ^ (3 - 1 - (k + 1))) := by
      refine f.period_gt (by positivity) ?_
      calc 94 ^ (3 - 1 - (k + 1)) ≤ 94 ^ 1 := Nat.pow_le_pow_right (by decide) (by omega)
        _ = 94 := by norm_num
    have hle := add_period_le (hlt'.trans_le hgt) hlt hdist hmod
    omega

/-- When the leading digit leaves no room for a second one, every change is rejected. -/
theorem FirstHeader.tamperEvident (hrx : f.rxFirst = true)
    (hf : FirstHeader f (base94EncodedLen f.kf payload) hd cs)
    (hroom : 93 < f.leadingDigit hd (base94EncodedLen f.kf payload) + f.digitPeriod) :
    f.TamperEvident (hd ++ shuffle cs f.kf ++ base94EncodeInto f.kf payload) := by
  intro i hi b hb
  have hlen := hf.hd_length
  have hcs : cs.length = 3 := hf.cs_length
  by_cases hi4 : i < hd.length
  · -- one of the four header characters
    rw [List.append_assoc, List.getElem?_append_left hi4, List.getElem?_eq_getElem hi4] at hb
    rw [List.append_assoc, List.set_append_left _ _ hi4, ← List.append_assoc]
    exact header_change_rejected hrx hf hi4 fun h => hb (by rw [h])
  · -- one of the three checksum characters
    have hj : i - hd.length < 3 := by
      rw [headerExtended] at hi
      rw [hlen, headerSimple]
      omega
    have hjs : i - hd.length < (shuffle cs f.kf).length := by rw [shuffle_length, hcs]; exact hj
    set j : Fin 3 := ⟨i - hd.length, hj⟩ with hjdef
    have hk : (shufflePerm 3 f.kf j).val < cs.length := by
      rw [hcs]
      exact (shufflePerm 3 f.kf j).isLt
    rw [List.append_assoc, List.getElem?_append_right (Nat.le_of_not_lt hi4),
      List.getElem?_append_left hjs, shuffle_getElem? (by decide) f.kf hcs j,
      List.getElem?_eq_getElem hk] at hb
    rw [List.append_assoc, List.set_append_right _ _ (Nat.le_of_not_lt hi4),
      List.set_append_left _ _ hjs, ← List.append_assoc]
    refine (digit_change_rejected_iff hrx hf j b hk).2 ?_
    rintro ⟨hdigit, hmod⟩
    exact hb (by rw [hf.digit_eq hroom hk hdigit hmod])

/-- When the leading digit leaves room, the character one period further on is accepted in its
place. -/
theorem FirstHeader.not_tamperEvident (hrx : f.rxFirst = true)
    (hf : FirstHeader f (base94EncodedLen f.kf payload) hd cs)
    (hroom : f.leadingDigit hd (base94EncodedLen f.kf payload) + f.digitPeriod ≤ 93) :
    ¬f.TamperEvident (hd ++ shuffle cs f.kf ++ base94EncodeInto f.kf payload) := by
  intro htamper
  have hlen : hd.length = 4 := hf.hd_length
  have hcs : cs.length = 3 := hf.cs_length
  have hk : 0 < cs.length := by omega
  have hlead : cs[0].toNat - 0x20 = f.leadingDigit hd (base94EncodedLen f.kf payload) :=
    leading_of_decimal hcs hf.digits_ok hk
  have hlt := f.leadingDigit_lt hd (base94EncodedLen f.kf payload)
  obtain ⟨hlo, -⟩ := (base94DecimalDecode_eq_ok.1 hf.digits_ok).1 _ (List.getElem_mem hk)
  generalize f.leadingDigit hd (base94EncodedLen f.kf payload) = d at hroom hlead hlt
  have hb : (UInt8.ofNat (0x20 + (d + f.digitPeriod))).toNat = 0x20 + (d + f.digitPeriod) :=
    toNat_ofNat_lt (by omega)
  generalize UInt8.ofNat (0x20 + (d + f.digitPeriod)) = b at hb
  -- the position the leading digit is shuffled to
  set j : Fin 3 := (shufflePerm 3 f.kf).symm 0 with hj
  have hj0 : shufflePerm 3 f.kf j = 0 := by rw [hj, Equiv.apply_symm_apply]
  have hjs : j.val < (shuffle cs f.kf).length := by
    rw [shuffle_length, hcs]
    exact j.isLt
  have hreject := htamper (hd.length + j.val) (by rw [hlen, headerExtended]; omega) b ?_
  · rw [List.append_assoc, List.set_append_right _ _ (Nat.le_add_right _ _), Nat.add_sub_cancel_left,
      List.set_append_left _ _ hjs, ← List.append_assoc,
      digit_change_rejected_iff hrx hf j b (by rw [hj0]; exact hk)] at hreject
    refine hreject ⟨⟨by omega, by omega⟩, ?_⟩
    simp only [hj0, Fin.val_zero, hcs, hlead]
    have hsub : b.toNat - 0x20 = d + f.digitPeriod := by omega
    rw [hsub]
    exact Nat.add_modEq_right
  · rw [List.append_assoc, List.getElem?_append_right (Nat.le_add_right _ _),
      Nat.add_sub_cancel_left, List.getElem?_append_left hjs,
      shuffle_getElem? (by decide) f.kf hcs j, hj0]
    intro h
    have hcb : cs[0] = b := by simpa [List.getElem?_eq_getElem hk] using h
    rw [hcb] at hlead
    omega

end FirstFrame

/-- A first frame gives every change of one header byte away exactly when its leading checksum digit
leaves no room for a second digit that names the same residue. -/
theorem tamperEvident_iff (kf : UInt32) (rng : Rng) {payload frame : List UInt8}
    (h : ((new kf).encodeFrame rng payload).1 = .ok frame) :
    (new kf).TamperEvident frame ↔
      93 < (new kf).leadingDigit (frame.take headerSimple) (base94EncodedLen kf payload)
        + (new kf).digitPeriod := by
  obtain ⟨hd, cs, hf, rfl⟩ := encodeFrame_first (f := new kf) rfl h
  have htake : (hd ++ shuffle cs (new kf).kf ++ base94EncodeInto (new kf).kf payload).take
      headerSimple = hd := by
    rw [List.append_assoc]
    exact List.take_left' hf.hd_length
  rw [htake]
  constructor
  · intro htamper
    by_contra hroom
    exact hf.not_tamperEvident rfl (Nat.le_of_not_lt hroom) htamper
  · exact hf.tamperEvident rfl

/-- The frame of one byte under the key 0: the modulus is prime to the weight of the leading digit, so
the period is the modulus. -/
theorem tamperEvident_iff_zero :
    ((new 0).encodeFrame (fun _ => 0) [1]).1 = .ok [32, 32, 33, 32, 37, 81, 76, 33] ∧
      (new 0).TamperEvident [32, 32, 33, 32, 37, 81, 76, 33] :=
  have h : ((new 0).encodeFrame (fun _ => 0) [1]).1 = .ok [32, 32, 33, 32, 37, 81, 76, 33] := rfl
  ⟨h, (tamperEvident_iff 0 (fun _ => 0) h).2 (by decide)⟩

/-- Under the key 18480 the modulus is 32 times the weight of the leading digit: the first frame of
one byte is accepted with the leading digit 5 replaced by 37. -/
theorem tampered_digit_accepted :
    ¬∀ (kf : UInt32) (rng : Rng) (payload frame : List UInt8),
      ((new kf).encodeFrame rng payload).1 = .ok frame → (new kf).TamperEvident frame := by
  intro h
  have hframe : ((new 18480).encodeFrame (fun _ => 0) [1]).1
      = .ok [33, 34, 90, 40, 37, 120, 35, 126, 55] := rfl
  have haccept : ((new 18480).decodePacketInto [33, 34, 90, 40, 69, 120, 35, 126, 55]).1
      = .ok [1] := rfl
  obtain ⟨e, he⟩ := h 18480 (fun _ => 0) [1] _ hframe 4 (by decide) 69 (by decide)
  have herr := congrArg Prod.fst he
  exact absurd (haccept.symm.trans herr) (by simp)

/-- Only a multiple of `2 * 47 ^ 2` has a period below the number of digits. -/
theorem digitPeriod_gt {f : Base94Framer} (h : ¬2 * 47 ^ 2 ∣ f.mod_) : 93 < f.digitPeriod := by
  have hgpos : 0 < f.mod_.gcd (94 ^ 2) := Nat.gcd_pos_of_pos_right _ (by decide)
  have hge : modMin ≤ f.mod_ := f.mod_ge
  obtain ⟨q, hq⟩ := f.mod_.gcd_dvd_right (94 ^ 2)
  have hleft : f.mod_.gcd (94 ^ 2) ∣ f.mod_ := f.mod_.gcd_dvd_left (94 ^ 2)
  have hq4 : 4 ≤ q := by
    by_contra hlt
    have hcases : q = 0 ∨ q = 1 ∨ q = 2 ∨ q = 3 := by omega
    rcases hcases with rfl | rfl | rfl | rfl
    · omega
    · have hgcd : f.mod_.gcd (94 ^ 2) = 2 * 47 ^ 2 * 2 := by omega
      rw [hgcd] at hleft
      exact h (dvd_of_mul_right_dvd hleft)
    · have hgcd : f.mod_.gcd (94 ^ 2) = 2 * 47 ^ 2 := by omega
      rw [hgcd] at hleft
      exact h hleft
    · omega
  have hle : f.mod_.gcd (94 ^ 2) ≤ 2209 := by
    have := Nat.mul_le_mul_left (f.mod_.gcd (94 ^ 2)) hq4
    omega
  rw [digitPeriod, period, Nat.lt_iff_add_one_le, Nat.le_div_iff_mul_le hgpos]
  calc (93 + 1) * f.mod_.gcd (94 ^ 2) ≤ 94 * 2209 := Nat.mul_le_mul_left 94 hle
    _ ≤ modMin := by decide
    _ ≤ f.mod_ := hge

/-- So under every other modulus a first frame gives every change of one header byte away. -/
theorem tamperEvident_of_not_dvd {kf : UInt32} (hmod : ¬2 * 47 ^ 2 ∣ (new kf).mod_) {rng : Rng}
    {payload frame : List UInt8} (h : ((new kf).encodeFrame rng payload).1 = .ok frame) :
    (new kf).TamperEvident frame := by
  obtain ⟨hd, cs, hf, rfl⟩ := encodeFrame_first (f := new kf) rfl h
  exact hf.tamperEvident rfl ((digitPeriod_gt hmod).trans_le (Nat.le_add_left _ _))

end Base94Framer

end Nextppp

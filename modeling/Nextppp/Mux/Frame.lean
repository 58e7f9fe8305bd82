/-
**The mux frames of `mux.rs`.**

Every message of a tunnel carries one mux frame: a kind byte, the stream id as a varint, a payload.
Varints are also the length prefixes of a bonded carrier.

Main definitions:

* `Nextppp.encodeVarint`, `Nextppp.decodeVarint`;
* `Nextppp.FrameKind`, `Nextppp.frameHeader`, `Nextppp.parseFrame`.

Main results:

* `Nextppp.decodeVarint_encodeVarint` — varints are read back, whatever follows them;
* `Nextppp.decodeVarint_append` — what a varint says is settled by its first bytes;
* `Nextppp.decodeVarint_eq_some_iff`, `Nextppp.decodeVarint_eq_none_iff` — what the decoder accepts,
  and what its refusals mean;
* `Nextppp.parseFrame_frameHeader` — frames are parsed back.
-/

import Nextppp.Core.Basic

set_option relaxedAutoImplicit false
set_option autoImplicit false

namespace Nextppp

/-! ### Varints -/

/-- The groups of a varint, for a buffer that holds a number of bytes. -/
def encodeVarintLoop : ℕ → ℕ → List UInt8
  | 0, _ => []
  | n + 1, v =>
      if v >>> 7 ≠ 0 then
        UInt8.ofNat ((v &&& 0x7f) ||| 0x80) :: encodeVarintLoop n (v >>> 7)
      else [UInt8.ofNat (v &&& 0x7f)]

/-- LEB128 varint of a 32-bit value: seven bits a byte, the top bit set on all but the last. -/
def encodeVarint (v : UInt32) : List UInt8 := encodeVarintLoop 5 v.toNat

/-- The loop over the bytes of a varint, at byte `i` with the value `v` so far. -/
def decodeVarintLoop : ℕ → ℕ → List UInt8 → Option (ℕ × ℕ)
  | _, _, [] => none
  | i, v, b :: bs =>
      if 5 ≤ i then none
      else if i = 4 ∧ 0x0f < b.toNat &&& 0x7f then none
      else if b.toNat &&& 0x80 = 0 then some (v ||| (b.toNat &&& 0x7f) <<< (7 * i), i + 1)
      else decodeVarintLoop (i + 1) (v ||| (b.toNat &&& 0x7f) <<< (7 * i)) bs

/-- The value and its encoded length, or `none` on truncation or overflow. -/
def decodeVarint (buf : List UInt8) : Option (ℕ × ℕ) := decodeVarintLoop 0 0 buf

theorem and_low (v : ℕ) : v &&& 0x7f = v % 128 := Nat.and_two_pow_sub_one_eq_mod v 7

theorem shiftRight_low (v : ℕ) : v >>> 7 = v / 128 := Nat.shiftRight_eq_div_pow v 7

theorem or_high {b : ℕ} (h : b < 128) : b ||| 0x80 = b + 128 := by
  have hor : 2 ^ 7 * 1 + b = 2 ^ 7 * 1 ||| b := Nat.two_pow_add_eq_or_of_lt h 1
  norm_num at hor
  rw [Nat.or_comm, ← hor, Nat.add_comm]

theorem and_high {b : ℕ} (h : b < 256) : b &&& 0x80 = 0 ↔ b < 128 := by
  have hbit : b &&& 2 ^ 7 = (b.testBit 7).toNat * 2 ^ 7 := Nat.and_two_pow b 7
  rw [Nat.testBit_eq_decide_div_mod_eq] at hbit
  norm_num at hbit
  rw [hbit]
  by_cases hlt : b < 128
  · simp [hlt, show b / 128 = 0 by omega]
  · simp [hlt, show b / 128 = 1 by omega]

/-- One group of the encoder. -/
theorem encodeVarintLoop_succ (n v : ℕ) :
    encodeVarintLoop (n + 1) v =
      if v / 128 = 0 then [UInt8.ofNat (v % 128)]
      else UInt8.ofNat (v % 128 + 128) :: encodeVarintLoop n (v / 128) := by
  rw [encodeVarintLoop, shiftRight_low, and_low, or_high (Nat.mod_lt v (by decide))]
  by_cases h : v / 128 = 0
  · rw [if_pos h, if_neg (not_not.2 h)]
  · rw [if_neg h, if_pos h]

/-- One group of the decoder. -/
theorem decodeVarintLoop_cons {i v : ℕ} (hi : i < 5) (hv : v < 2 ^ (7 * i)) (b : UInt8)
    (bs : List UInt8) :
    decodeVarintLoop i v (b :: bs) =
      if i = 4 ∧ 15 < b.toNat % 128 then none
      else if b.toNat < 128 then some (v + b.toNat % 128 * 2 ^ (7 * i), i + 1)
      else decodeVarintLoop (i + 1) (v + b.toNat % 128 * 2 ^ (7 * i)) bs := by
  have hor : v ||| (b.toNat % 128) <<< (7 * i) = v + b.toNat % 128 * 2 ^ (7 * i) := by
    have h := Nat.shiftLeft_add_eq_or_of_lt hv (b.toNat % 128)
    rw [Nat.or_comm, ← h, Nat.shiftLeft_eq, Nat.add_comm]
  rw [decodeVarintLoop, if_neg (by omega), and_low, hor]
  simp only [and_high b.toNat_lt]

theorem encodeVarintLoop_length_pos (n v : ℕ) : 0 < (encodeVarintLoop (n + 1) v).length := by
  rw [encodeVarintLoop_succ]
  split <;> simp

theorem encodeVarintLoop_length_le (n v : ℕ) : (encodeVarintLoop n v).length ≤ n := by
  induction n generalizing v with
  | zero => simp [encodeVarintLoop]
  | succ n ih =>
      have := ih (v / 128)
      rw [encodeVarintLoop_succ]
      split
      · simp
      · rw [List.length_cons]
        omega

theorem decodeVarintLoop_encodeVarintLoop (n : ℕ) {i acc v : ℕ} (hi : i + n = 4)
    (hacc : acc < 2 ^ (7 * i)) (hv : v < 2 ^ (32 - 7 * i)) (rest : List UInt8) :
    decodeVarintLoop i acc (encodeVarintLoop (n + 1) v ++ rest) =
      some (acc + v * 2 ^ (7 * i), i + (encodeVarintLoop (n + 1) v).length) := by
  have hbyte : ∀ {b : ℕ}, b < 256 → (UInt8.ofNat b).toNat = b := by
    intro b hb
    rw [UInt8.toNat_ofNat', Nat.mod_eq_of_lt hb]
  induction n generalizing i acc v with
  | zero =>
      -- the last group holds what is left of the value, at most four bits
      obtain rfl : i = 4 := by omega
      have hv16 : v < 16 := by simpa using hv
      rw [encodeVarintLoop_succ, if_pos (by omega), List.singleton_append,
        decodeVarintLoop_cons (by omega) hacc, hbyte (by omega), if_neg (by omega),
        if_pos (by omega), Nat.mod_mod, Nat.mod_eq_of_lt (show v < 128 by omega)]
      rfl
  | succ n ih =>
      have hsplit : 2 ^ (32 - 7 * i) = 2 ^ (32 - 7 * (i + 1)) * 128 := by
        rw [show 32 - 7 * i = 32 - 7 * (i + 1) + 7 by omega, Nat.pow_add]
      have hpow : 2 ^ (7 * (i + 1)) = 2 ^ (7 * i) * 128 := by
        rw [show 7 * (i + 1) = 7 * i + 7 by omega, Nat.pow_add]
      rw [encodeVarintLoop_succ]
      by_cases h : v / 128 = 0
      · rw [if_pos h, List.singleton_append, decodeVarintLoop_cons (by omega) hacc,
          hbyte (by omega), if_neg (by omega), if_pos (by omega), Nat.mod_mod,
          Nat.mod_eq_of_lt (show v < 128 by omega)]
        rfl
      · rw [if_neg h, List.cons_append, decodeVarintLoop_cons (by omega) hacc, hbyte (by omega),
          if_neg (by omega), if_neg (by omega)]
        have hgroup : (v % 128 + 128) % 128 = v % 128 := by omega
        have hacc' : acc + v % 128 * 2 ^ (7 * i) < 2 ^ (7 * (i + 1)) := by
          have hle : v % 128 * 2 ^ (7 * i) ≤ 127 * 2 ^ (7 * i) :=
            Nat.mul_le_mul_right _ (by omega)
          rw [hpow]
          omega
        rw [hgroup, ih (by omega) hacc' (Nat.div_lt_of_lt_mul (by rw [hsplit] at hv; omega)),
          List.length_cons, hpow]
        have hv' : v = v % 128 + 128 * (v / 128) := (Nat.mod_add_div v 128).symm
        have hval : acc + v % 128 * 2 ^ (7 * i) + v / 128 * (2 ^ (7 * i) * 128)
            = acc + v * 2 ^ (7 * i) := by
          conv_rhs => rw [hv']
          ring
        rw [hval]
        congr 2
        omega

/-- Varints are read back, whatever follows them. -/
theorem decodeVarint_encodeVarint (v : UInt32) (rest : List UInt8) :
    decodeVarint (encodeVarint v ++ rest) = some (v.toNat, (encodeVarint v).length) := by
  have hv : v.toNat < 2 ^ (32 - 7 * 0) := v.toNat_lt
  have h := decodeVarintLoop_encodeVarintLoop 4 (Nat.zero_add 4) Nat.one_pos hv rest
  rw [decodeVarint, encodeVarint, h]
  simp

example : encodeVarint 300 = [0xac, 0x02] := by decide

theorem encodeVarint_length (v : UInt32) :
    1 ≤ (encodeVarint v).length ∧ (encodeVarint v).length ≤ 5 :=
  ⟨encodeVarintLoop_length_pos 4 _, encodeVarintLoop_length_le 5 _⟩

/-- A varint that is complete, or too long, stays so. -/
theorem decodeVarintLoop_append {i v : ℕ} {buf rest : List UInt8}
    (h : decodeVarintLoop i v buf ≠ none ∨ 5 ≤ i + buf.length) :
    decodeVarintLoop i v (buf ++ rest) = decodeVarintLoop i v buf := by
  induction buf generalizing i v with
  | nil =>
      rcases h with h | h
      · simp [decodeVarintLoop] at h
      · cases rest with
        | nil => rfl
        | cons b bs =>
            rw [List.nil_append, decodeVarintLoop.eq_def]
            exact if_pos (by simpa using h)
  | cons b bs ih =>
      rw [List.cons_append, decodeVarintLoop.eq_def, decodeVarintLoop.eq_def i v (b :: bs)]
      rw [decodeVarintLoop.eq_def i v (b :: bs)] at h
      dsimp only at h ⊢
      by_cases h₁ : 5 ≤ i
      · rw [if_pos h₁, if_pos h₁]
      · rw [if_neg h₁, if_neg h₁]
        rw [if_neg h₁] at h
        by_cases h₂ : i = 4 ∧ 0x0f < b.toNat &&& 0x7f
        · rw [if_pos h₂, if_pos h₂]
        · rw [if_neg h₂, if_neg h₂]
          rw [if_neg h₂] at h
          by_cases h₃ : b.toNat &&& 0x80 = 0
          · rw [if_pos h₃, if_pos h₃]
          · rw [if_neg h₃, if_neg h₃]
            rw [if_neg h₃] at h
            refine ih (h.imp_right fun hlen => ?_)
            rw [List.length_cons] at hlen
            omega

theorem decodeVarint_append {buf rest : List UInt8}
    (h : decodeVarint buf ≠ none ∨ 5 ≤ buf.length) :
    decodeVarint (buf ++ rest) = decodeVarint buf :=
  decodeVarintLoop_append (h.imp_right fun hlen => by omega)

/-- A varint lies inside the buffer and is at most five bytes long. -/
theorem decodeVarintLoop_bounds {i v len n : ℕ} {buf : List UInt8}
    (h : decodeVarintLoop i v buf = some (len, n)) : i < n ∧ n ≤ i + buf.length ∧ n ≤ 5 := by
  induction buf generalizing i v with
  | nil => simp [decodeVarintLoop] at h
  | cons b bs ih =>
      rw [decodeVarintLoop.eq_def] at h
      dsimp only at h
      split at h
      · cases h
      · split at h
        · cases h
        · split at h
          · obtain ⟨-, rfl⟩ : _ ∧ i + 1 = n := by simpa using h
            rw [List.length_cons]
            omega
          · have := ih h
            rw [List.length_cons]
            omega

theorem decodeVarint_bounds {len n : ℕ} {buf : List UInt8} (h : decodeVarint buf = some (len, n)) :
    0 < n ∧ n ≤ buf.length ∧ n ≤ 5 := by
  have := decodeVarintLoop_bounds h
  omega

/-! ### What the decoder accepts -/

/-- The little-endian base-128 value of a group of bytes, their top bits ignored. -/
def varintValue : List UInt8 → ℕ
  | [] => 0
  | b :: bs => b.toNat % 128 + 128 * varintValue bs

/-- The buffer starts with a varint of `n` bytes that says `v`: all but the last have the top bit
set, there are at most five, and the value has 32 bits. -/
def IsVarint (buf : List UInt8) (v n : ℕ) : Prop :=
  ∃ init last rest, buf = init ++ last :: rest ∧ (∀ b ∈ init, 128 ≤ b.toNat) ∧ last.toNat < 128 ∧
    n = init.length + 1 ∧ n ≤ 5 ∧ v = varintValue (init ++ [last]) ∧ v < 2 ^ 32

/-- A run of bytes with the top bit set does not end. -/
theorem decodeVarintLoop_continued {buf : List UInt8} (h : ∀ b ∈ buf, 128 ≤ b.toNat) (i v : ℕ) :
    decodeVarintLoop i v buf = none := by
  induction buf generalizing i v with
  | nil => rfl
  | cons b bs ih =>
      have hb : ¬b.toNat &&& 0x80 = 0 := by
        rw [and_high b.toNat_lt, not_lt]
        exact h b (by simp)
      rw [decodeVarintLoop, if_neg hb, ih fun c hc => h c (by simp [hc])]
      simp

/-- What the loop makes of a terminated run, from byte `i` on: the overflow check on the fifth byte
is the bound on the value. -/
theorem decodeVarintLoop_terminated {init : List UInt8} {last : UInt8} (rest : List UInt8)
    (hinit : ∀ b ∈ init, 128 ≤ b.toNat) (hlast : last.toNat < 128) {i v : ℕ} (hi : i ≤ 5)
    (hv : v < 2 ^ (7 * i)) :
    decodeVarintLoop i v (init ++ last :: rest) =
      if i + init.length + 1 ≤ 5 ∧ v + varintValue (init ++ [last]) * 2 ^ (7 * i) < 2 ^ 32 then
        some (v + varintValue (init ++ [last]) * 2 ^ (7 * i), i + init.length + 1)
      else none := by
  induction init generalizing i v with
  | nil =>
      simp only [List.nil_append, List.length_nil, varintValue, Nat.add_zero, Nat.mul_zero]
      rcases Nat.lt_or_eq_of_le hi with hlt | rfl
      · have hfit : ¬(i = 4 ∧ 15 < last.toNat % 128) ↔
            i + 1 ≤ 5 ∧ v + last.toNat % 128 * 2 ^ (7 * i) < 2 ^ 32 := by
          interval_cases i <;> omega
        rw [decodeVarintLoop_cons hlt hv, if_pos hlast]
        by_cases h : i = 4 ∧ 15 < last.toNat % 128
        · rw [if_pos h, if_neg (fun h' => hfit.2 h' h)]
        · rw [if_neg h, if_pos (hfit.1 h)]
      · rw [decodeVarintLoop, if_pos le_rfl, if_neg (by omega)]
  | cons b init ih =>
      have hb : ¬b.toNat < 128 := not_lt.2 (hinit b (by simp))
      rcases Nat.lt_or_eq_of_le hi with hlt | rfl
      · have hpow : 2 ^ (7 * (i + 1)) = 2 ^ (7 * i) * 128 := by
          rw [show 7 * (i + 1) = 7 * i + 7 by omega, Nat.pow_add]
        have hv' : v + b.toNat % 128 * 2 ^ (7 * i) < 2 ^ (7 * (i + 1)) := by
          have hle : b.toNat % 128 * 2 ^ (7 * i) ≤ 127 * 2 ^ (7 * i) :=
            Nat.mul_le_mul_right _ (by omega)
          rw [hpow]
          omega
        have hval : v + b.toNat % 128 * 2 ^ (7 * i) +
              varintValue (init ++ [last]) * 2 ^ (7 * (i + 1)) =
            v + varintValue (b :: init ++ [last]) * 2 ^ (7 * i) := by
          rw [hpow, List.cons_append, varintValue]
          ring
        rw [List.cons_append, decodeVarintLoop_cons hlt hv, if_neg hb,
          ih (fun c hc => hinit c (by simp [hc])) (by omega) hv', hval, List.length_cons,
          show i + 1 + init.length + 1 = i + (init.length + 1) + 1 by omega]
        by_cases h : i = 4 ∧ 15 < b.toNat % 128
        · rw [if_pos h, if_neg (by omega)]
        · rw [if_neg h]
      · rw [List.cons_append, decodeVarintLoop, if_pos le_rfl, if_neg (by rw [List.length_cons]; omega)]

/-- Every buffer is a run of bytes with the top bit set, or starts with a terminated one. -/
theorem continued_or_terminated (buf : List UInt8) :
    (∀ b ∈ buf, 128 ≤ b.toNat) ∨ ∃ init last rest, buf = init ++ last :: rest ∧
      (∀ b ∈ init, 128 ≤ b.toNat) ∧ last.toNat < 128 := by
  induction buf with
  | nil => exact .inl (by simp)
  | cons b bs ih =>
      by_cases hb : b.toNat < 128
      · exact .inr ⟨[], b, bs, rfl, by simp, hb⟩
      · rcases ih with h | ⟨init, last, rest, rfl, hinit, hlast⟩
        · exact .inl (by simpa [not_lt.1 hb] using h)
        · exact .inr ⟨b :: init, last, rest, rfl, by simpa [not_lt.1 hb] using hinit, hlast⟩

theorem decodeVarint_terminated {init : List UInt8} {last : UInt8} (rest : List UInt8)
    (hinit : ∀ b ∈ init, 128 ≤ b.toNat) (hlast : last.toNat < 128) :
    decodeVarint (init ++ last :: rest) =
      if init.length + 1 ≤ 5 ∧ varintValue (init ++ [last]) < 2 ^ 32 then
        some (varintValue (init ++ [last]), init.length + 1)
      else none := by
  have h := decodeVarintLoop_terminated rest hinit hlast (i := 0) (v := 0) (by omega) (by simp)
  simpa [decodeVarint] using h

/-- The decoder accepts exactly the varints. -/
theorem decodeVarint_eq_some_iff {buf : List UInt8} {v n : ℕ} :
    decodeVarint buf = some (v, n) ↔ IsVarint buf v n := by
  constructor
  · intro h
    rcases continued_or_terminated buf with hall | ⟨init, last, rest, rfl, hinit, hlast⟩
    · rw [decodeVarint, decodeVarintLoop_continued hall] at h
      cases h
    · rw [decodeVarint_terminated rest hinit hlast] at h
      split at h
      · rename_i hok
        cases h
        exact ⟨init, last, rest, rfl, hinit, hlast, rfl, hok.1, rfl, hok.2⟩
      · cases h
  · rintro ⟨init, last, rest, rfl, hinit, hlast, rfl, hn, rfl, hv⟩
    rw [decodeVarint_terminated rest hinit hlast, if_pos ⟨hn, hv⟩]

/-- Fewer than five groups always fit. -/
theorem varintValue_lt (l : List UInt8) : varintValue l < 128 ^ l.length := by
  induction l with
  | nil => simp [varintValue]
  | cons b l ih =>
      have hb : b.toNat % 128 < 128 := Nat.mod_lt _ (by decide)
      rw [varintValue, List.length_cons, pow_succ']
      omega

/-- A buffer of fewer than five bytes that is refused is a run that has not ended. -/
theorem decodeVarint_eq_none_short {buf : List UInt8} (hlen : buf.length < 5) :
    decodeVarint buf = none ↔ ∀ b ∈ buf, 128 ≤ b.toNat := by
  constructor
  · intro h
    rcases continued_or_terminated buf with hall | ⟨init, last, rest, rfl, hinit, hlast⟩
    · exact hall
    · rw [List.length_append, List.length_cons] at hlen
      have hval := varintValue_lt (init ++ [last])
      rw [List.length_append, List.length_singleton] at hval
      have hpow : 128 ^ (init.length + 1) ≤ 128 ^ 4 := Nat.pow_le_pow_right (by decide) (by omega)
      rw [decodeVarint_terminated rest hinit hlast, if_pos ⟨by omega, by omega⟩] at h
      cases h
  · exact fun h => decodeVarintLoop_continued h 0 0


/-- A zero byte ends a run without changing its value. -/
theorem varintValue_append_zero (l : List UInt8) : varintValue (l ++ [0]) = varintValue l := by
  induction l with
  | nil => rfl
  | cons b l ih => rw [List.cons_append, varintValue, ih, varintValue]

/-- A run of fewer than five bytes can still become a varint. -/
theorem decodeVarint_completable {buf : List UInt8} (hlen : buf.length < 5)
    (h : ∀ b ∈ buf, 128 ≤ b.toNat) : decodeVarint (buf ++ [0]) ≠ none := by
  have hval := varintValue_lt buf
  have hpow : 128 ^ buf.length ≤ 128 ^ 4 := Nat.pow_le_pow_right (by decide) (by omega)
  rw [decodeVarint_terminated [] h (by decide), varintValue_append_zero,
    if_pos ⟨by omega, by omega⟩]
  simp

/-- What the one `none` of the decoder means is told by the length of the buffer: a run of fewer than
five bytes that has not ended, or five bytes that no continuation turns into a varint. -/
theorem decodeVarint_eq_none_iff (buf : List UInt8) :
    decodeVarint buf = none ↔ (buf.length < 5 ∧ ∀ b ∈ buf, 128 ≤ b.toNat) ∨
      (5 ≤ buf.length ∧ ∀ rest, decodeVarint (buf ++ rest) = none) := by
  rcases Nat.lt_or_ge buf.length 5 with hlen | hlen
  · rw [decodeVarint_eq_none_short hlen]
    constructor
    · exact fun h => .inl ⟨hlen, h⟩
    · rintro (⟨-, h⟩ | ⟨h5, -⟩)
      · exact h
      · omega
  · constructor
    · intro h
      refine .inr ⟨hlen, fun rest => ?_⟩
      rw [decodeVarint_append (.inr hlen), h]
    · rintro (⟨h5, -⟩ | ⟨-, h⟩)
      · omega
      · simpa using h []

/-! ### Frames -/

/-- Stream identifier within one tunnel. -/
abbrev StreamId := UInt32

/-- Mux frame kind. -/
inductive FrameKind
  | «open»
  | reply
  | data
  | eof
  | close
  deriving DecidableEq, Repr

namespace FrameKind

/-- The kind of a wire byte. -/
def fromU8 (v : UInt8) : Option FrameKind :=
  if v = 0x00 then some .open
  else if v = 0x01 then some .reply
  else if v = 0x02 then some .data
  else if v = 0x03 then some .eof
  else if v = 0x04 then some .close
  else none

/-- The wire byte of a kind. -/
def asU8 : FrameKind → UInt8
  | .open => 0x00
  | .reply => 0x01
  | .data => 0x02
  | .eof => 0x03
  | .close => 0x04

theorem fromU8_asU8 (k : FrameKind) : fromU8 k.asU8 = some k := by
  cases k <;> decide

end FrameKind

/-- Errors while parsing a frame header. -/
inductive MuxError
  | empty
  | truncatedStreamId
  | unknownKind (kind : UInt8)
  deriving DecidableEq, Repr

/-- An encoded frame header. -/
def frameHeader (kind : FrameKind) (stream : StreamId) : List UInt8 :=
  kind.asU8 :: encodeVarint stream

theorem frameHeader_length_pos (kind : FrameKind) (stream : StreamId) :
    0 < (frameHeader kind stream).length := Nat.succ_pos _

/-- Parse the header off a message: kind, stream id and payload. -/
def parseFrame (msg : List UInt8) : Except MuxError (FrameKind × StreamId × List UInt8) :=
  match msg with
  | [] => .error .empty
  | kind :: rest =>
      match FrameKind.fromU8 kind with
      | none => .error (.unknownKind kind)
      | some kind =>
          match decodeVarint rest with
          | none => .error .truncatedStreamId
          | some (stream, n) => .ok (kind, UInt32.ofNat stream, rest.drop n)

/-- Frames are parsed back. -/
theorem parseFrame_frameHeader (kind : FrameKind) (stream : StreamId) (payload : List UInt8) :
    parseFrame (frameHeader kind stream ++ payload) = .ok (kind, stream, payload) := by
  rw [frameHeader, List.cons_append, parseFrame]
  rw [FrameKind.fromU8_asU8]
  dsimp only
  rw [decodeVarint_encodeVarint]
  dsimp only
  rw [List.drop_left, UInt32.ofNat_toNat]

end Nextppp

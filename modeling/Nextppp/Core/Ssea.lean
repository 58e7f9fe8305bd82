/-
**The obfuscation primitives of `crypto/ssea.rs`.**

The linear congruential generator, the fast modulo, the key-driven permutation, the delta coding
and the evolving XOR mask.  Each payload transform is proved invertible:

* `Nextppp.lcgNext_eq_reference` — the three independent multiplications of the generator compute
  the three chained steps of the reference;
* `Nextppp.fastMod_eq` — the two-multiply modulo is the modulo, for every divisor from 2 on;
* `Nextppp.shuffleIndex_lt` — so every swap of the permutation stays inside the slice;
* `Nextppp.unshuffle_shuffle`, `Nextppp.shuffle_unshuffle` — the swap chain run backwards, and
  `Nextppp.shuffle_getElem?` — the permutation of positions it is;
* `Nextppp.deltaDecode_deltaEncode`, `Nextppp.deltaEncode_deltaDecode`;
* `Nextppp.maskedXor_eq_xorBytes` — the evolving mask depends only on the key and the length, so
  masking twice is the identity (`Nextppp.maskedXor_maskedXor`).

The delta coding is the scalar reference of `crypto/simd.rs`, which that file calls the definition
of the wire semantics of every backend.
-/

import Nextppp.Core.Basic

set_option relaxedAutoImplicit false
set_option autoImplicit false

namespace Nextppp

open ListLib

/-! ### The linear congruential generator -/

/-- Multiplier of the generator. -/
def lcgA : UInt32 := 1103515245

/-- Increment of the generator. -/
def lcgC : UInt32 := 12345

/-- Multiplier of two steps at once. -/
def lcgA2 : UInt32 := lcgA * lcgA

/-- Increment of two steps at once. -/
def lcgC2 : UInt32 := lcgC * (lcgA + 1)

/-- Multiplier of three steps at once. -/
def lcgA3 : UInt32 := lcgA2 * lcgA

/-- Increment of three steps at once. -/
def lcgC3 : UInt32 := lcgC * lcgA2 + lcgC * lcgA + lcgC

/-- The next 31-bit value and the advanced seed. -/
def lcgNext (seed : UInt32) : UInt32 × UInt32 :=
  let next1 := seed * lcgA + lcgC
  let next2 := seed * lcgA2 + lcgC2
  let next3 := seed * lcgA3 + lcgC3
  ((((next1 >>> 16) &&& 2047) <<< 20) ||| (((next2 >>> 16) &&& 1023) <<< 10) |||
    ((next3 >>> 16) &&& 1023), next3)

/-- `random_next` of `ssea.cpp`: three chained steps of the generator, their high bits mixed. -/
def lcgNextReference (seed : UInt32) : UInt32 × UInt32 :=
  let next := seed * 1103515245 + 12345
  let result := (next / 65536) % 2048
  let next := next * 1103515245 + 12345
  let result := (result <<< 10) ^^^ ((next / 65536) % 1024)
  let next := next * 1103515245 + 12345
  let result := (result <<< 10) ^^^ ((next / 65536) % 1024)
  (result, next)

/-- The high bits of a step: a division and a remainder by powers of two are a shift and a mask. -/
theorem div_mod_eq_shift_and (x m : UInt32) {k : ℕ} (hm : m.toNat = 2 ^ k - 1)
    (hk : k < 32) : x / (65536 : UInt32) % (m + 1) = (x >>> (16 : UInt32)) &&& m := by
  have hpow : 2 ^ k < 2 ^ 32 := Nat.pow_lt_pow_right (by omega) hk
  have hpos : 0 < 2 ^ k := Nat.two_pow_pos k
  apply UInt32.toNat.inj
  rw [UInt32.toNat_mod, UInt32.toNat_div, UInt32.toNat_and, UInt32.toNat_shiftRight,
    UInt32.toNat_add, hm, Nat.and_two_pow_sub_one_eq_mod, Nat.shiftRight_eq_div_pow,
    show (1 : UInt32).toNat = 1 from rfl, Nat.sub_add_cancel hpos, Nat.mod_eq_of_lt hpow]
  rfl

/-- Fields that do not overlap can be joined by OR instead of XOR. -/
theorem mix_xor_eq_or (x y z : UInt32) :
    ((((x &&& 2047) <<< (10 : UInt32)) ^^^ (y &&& 1023)) <<< (10 : UInt32)) ^^^ (z &&& 1023) =
      ((x &&& 2047) <<< (20 : UInt32)) ||| ((y &&& 1023) <<< (10 : UInt32)) ||| (z &&& 1023) := by
  apply UInt32.toBitVec_inj.1
  ext i hi
  -- bit by bit: at most one of the three fields can be set
  interval_cases i <;> simp


/-- The three independent affine maps compute the three chained steps. -/
theorem lcgNext_eq_reference (seed : UInt32) : lcgNext seed = lcgNextReference seed := by
  have h2 : seed * lcgA2 + lcgC2 = (seed * 1103515245 + 12345) * 1103515245 + 12345 := by
    simp only [lcgA2, lcgC2, lcgA, lcgC]
    grind
  have h3 : seed * lcgA3 + lcgC3 =
      ((seed * 1103515245 + 12345) * 1103515245 + 12345) * 1103515245 + 12345 := by
    simp only [lcgA3, lcgC3, lcgA2, lcgA, lcgC]
    grind
  have hmod11 : ∀ x : UInt32, x / 65536 % 2048 = (x >>> (16 : UInt32)) &&& 2047 :=
    fun x => div_mod_eq_shift_and x 2047 (k := 11) rfl (by omega)
  have hmod10 : ∀ x : UInt32, x / 65536 % 1024 = (x >>> (16 : UInt32)) &&& 1023 :=
    fun x => div_mod_eq_shift_and x 1023 (k := 10) rfl (by omega)
  simp only [lcgNext, lcgNextReference, h2, h3, hmod11, hmod10, mix_xor_eq_or, lcgA, lcgC]

/-- A masked field shifted into place stays below the end of its place. -/
theorem field_lt (x m s : UInt32) {k : ℕ} (hm : m.toNat < 2 ^ k) (hs : k + s.toNat ≤ 31) :
    ((x &&& m) <<< s).toNat < 2 ^ 31 := by
  have hand : (x &&& m).toNat < 2 ^ k := by
    rw [UInt32.toNat_and]
    exact Nat.and_lt_two_pow _ hm
  rw [UInt32.toNat_shiftLeft, Nat.mod_eq_of_lt (show s.toNat < 32 by omega), Nat.shiftLeft_eq]
  calc (x &&& m).toNat * 2 ^ s.toNat % 2 ^ 32 ≤ (x &&& m).toNat * 2 ^ s.toNat := Nat.mod_le _ _
    _ < 2 ^ k * 2 ^ s.toNat := Nat.mul_lt_mul_of_pos_right hand (Nat.two_pow_pos _)
    _ = 2 ^ (k + s.toNat) := (pow_add 2 k s.toNat).symm
    _ ≤ 2 ^ 31 := Nat.pow_le_pow_right (by omega) hs

/-- The mixed value has 31 bits. -/
theorem lcgNext_lt (seed : UInt32) : (lcgNext seed).1.toNat < 2 ^ 31 := by
  simp only [lcgNext, UInt32.toNat_or]
  refine Nat.or_lt_two_pow (Nat.or_lt_two_pow ?_ ?_) ?_
  · exact field_lt _ 2047 20 (k := 11) (by decide) (by decide)
  · exact field_lt _ 1023 10 (k := 10) (by decide) (by decide)
  · simpa using field_lt ((seed * lcgA3 + lcgC3) >>> 16) 1023 0 (k := 10) (by decide) (by decide)

/-- A sample of the closed range `min ..= max`, and the advanced seed. -/
def lcgRange (seed : UInt32) (min max : ℕ) : ℕ × UInt32 :=
  let r := lcgNext seed
  (r.1.toNat % (max - min + 1) + min, r.2)

theorem lcgRange_ge (seed : UInt32) (min max : ℕ) : min ≤ (lcgRange seed min max).1 :=
  Nat.le_add_left _ _

theorem lcgRange_le (seed : UInt32) {min max : ℕ} (h : min ≤ max) :
    (lcgRange seed min max).1 ≤ max := by
  have : (lcgNext seed).1.toNat % (max - min + 1) < max - min + 1 := Nat.mod_lt _ (Nat.succ_pos _)
  simp only [lcgRange]
  omega

/-! ### Fast modulo -/

/-- The reciprocal of a fixed divisor: `⌈2^64 / d⌉` for `d ≥ 2`. -/
def fastmodMagic (d : UInt32) : UInt64 := 0xffffffffffffffff / d.toUInt64 + 1

/-- The remainder of `x` by `d`, computed with two multiplications. -/
def fastMod (x : UInt32) (magic : UInt64) (d : UInt32) : UInt32 :=
  let lowbits := magic * x.toUInt64
  UInt32.ofNat ((BitVec.ofNat 128 lowbits.toNat * BitVec.ofNat 128 d.toNat) >>> 64).toNat

/-- The error-bound argument behind the fast modulo, over the naturals: if `M * d` exceeds `2 ^ 64`
by an `e < d`, then the low word of `M * x`, multiplied by `d`, is `(x % d) * 2 ^ 64 + e * x`. -/
theorem magic_mul_mod {M d e x : ℕ} (hM : M * d = 2 ^ 64 + e) (he : e < d) (hd : d < 2 ^ 32)
    (hx : x < 2 ^ 32) :
    (M * x) % 2 ^ 64 * d = (x % d) * 2 ^ 64 + e * x := by
  have hd0 : 0 < d := by omega
  obtain ⟨q, r, hr, rfl⟩ : ∃ q r, r < d ∧ x = d * q + r :=
    ⟨x / d, x % d, Nat.mod_lt _ hd0, (Nat.div_add_mod x d).symm⟩
  have hmod : (d * q + r) % d = r := by rw [Nat.mul_add_mod]; exact Nat.mod_eq_of_lt hr
  have hsplit : M * (d * q + r) = 2 ^ 64 * q + (e * q + M * r) := by
    calc M * (d * q + r) = (M * d) * q + M * r := by ring
      _ = 2 ^ 64 * q + (e * q + M * r) := by rw [hM]; ring
  have hprod : (e * q + M * r) * d = r * 2 ^ 64 + e * (d * q + r) := by
    calc (e * q + M * r) * d = e * (d * q) + (M * d) * r := by ring
      _ = r * 2 ^ 64 + e * (d * q + r) := by rw [hM]; ring
  have hsmall : e * (d * q + r) < 2 ^ 64 :=
    calc e * (d * q + r) ≤ 2 ^ 32 * (d * q + r) := Nat.mul_le_mul_right _ (by omega)
      _ < 2 ^ 32 * 2 ^ 32 := by omega
      _ = 2 ^ 64 := by norm_num
  have hlow : e * q + M * r < 2 ^ 64 := by
    refine Nat.lt_of_mul_lt_mul_right (a := d) ?_
    calc (e * q + M * r) * d = r * 2 ^ 64 + e * (d * q + r) := hprod
      _ < r * 2 ^ 64 + 2 ^ 64 := by omega
      _ = 2 ^ 64 * (r + 1) := by ring
      _ ≤ 2 ^ 64 * d := Nat.mul_le_mul_left _ hr
  rw [hsplit, hmod, Nat.mul_add_mod, Nat.mod_eq_of_lt hlow, hprod]

/-- The reciprocal exceeds `2 ^ 64 / d` by less than one. -/
theorem fastmodMagic_mul {d : UInt32} (hd : 2 ≤ d.toNat) :
    ∃ e, (fastmodMagic d).toNat * d.toNat = 2 ^ 64 + e ∧ e < d.toNat := by
  have hlt : d.toNat < 2 ^ 32 := d.toNat_lt
  have hdiv : (fastmodMagic d).toNat = (2 ^ 64 - 1) / d.toNat + 1 := by
    have hle : (2 ^ 64 - 1) / d.toNat ≤ (2 ^ 64 - 1) / 2 := Nat.div_le_div_left hd (by omega)
    rw [fastmodMagic, UInt64.toNat_add, UInt64.toNat_div, UInt32.toNat_toUInt64]
    have h1 : (0xffffffffffffffff : UInt64).toNat = 2 ^ 64 - 1 := by decide
    have h2 : (1 : UInt64).toNat = 1 := by decide
    rw [h1, h2]
    exact Nat.mod_eq_of_lt (by omega)
  have hdm := Nat.div_add_mod (2 ^ 64 - 1) d.toNat
  have hm := Nat.mod_lt (2 ^ 64 - 1) (show 0 < d.toNat by omega)
  refine ⟨d.toNat - 1 - (2 ^ 64 - 1) % d.toNat, ?_, by omega⟩
  rw [hdiv, Nat.add_mul, Nat.one_mul, Nat.mul_comm]
  omega

/-- The fast modulo is the modulo. -/
theorem fastMod_eq (x : UInt32) {d : UInt32} (hd : 2 ≤ d.toNat) :
    (fastMod x (fastmodMagic d) d).toNat = x.toNat % d.toNat := by
  obtain ⟨e, hM, he⟩ := fastmodMagic_mul hd
  have hdlt : d.toNat < 2 ^ 32 := d.toNat_lt
  have hxlt : x.toNat < 2 ^ 32 := x.toNat_lt
  have hlow : (fastmodMagic d * x.toUInt64).toNat = ((fastmodMagic d).toNat * x.toNat) % 2 ^ 64 := by
    rw [UInt64.toNat_mul, UInt32.toNat_toUInt64]
  have hkey := magic_mul_mod hM he hdlt hxlt
  have hsmall : e * x.toNat < 2 ^ 64 :=
    calc e * x.toNat ≤ 2 ^ 32 * x.toNat := Nat.mul_le_mul_right _ (by omega)
      _ < 2 ^ 32 * 2 ^ 32 := by omega
      _ = 2 ^ 64 := by norm_num
  have hmod : x.toNat % d.toNat < d.toNat := Nat.mod_lt _ (by omega)
  set p := ((fastmodMagic d).toNat * x.toNat) % 2 ^ 64 with hp
  have hplt : p < 2 ^ 64 := Nat.mod_lt _ (by norm_num)
  have hpd : p * d.toNat < 2 ^ 128 := by rw [hkey]; omega
  simp only [fastMod, hlow]
  rw [BitVec.toNat_ushiftRight, BitVec.toNat_mul, BitVec.toNat_ofNat, BitVec.toNat_ofNat,
    Nat.mod_eq_of_lt (show p < 2 ^ 128 by omega),
    Nat.mod_eq_of_lt (show d.toNat < 2 ^ 128 by omega), Nat.mod_eq_of_lt hpd,
    Nat.shiftRight_eq_div_pow, hkey,
    show (x.toNat % d.toNat * 2 ^ 64 + e * x.toNat) / 2 ^ 64 = x.toNat % d.toNat by omega]
  exact UInt32.toNat_ofNat_of_lt' (by simp [UInt32.size]; omega)

/-! ### The key-driven permutation -/

/-- The swap partner of position `i` in a slice of `size32` elements. -/
def shuffleIndex (key size32 : UInt32) (i : ℕ) : ℕ :=
  (fastMod (UInt32.ofNat i ^^^ key) (fastmodMagic size32) size32).toNat

/-- The swap chain of `shuffle_data`.  The source panics on a slice of 4 GiB or more. -/
def shuffle (data : List UInt8) (key : UInt32) : List UInt8 :=
  if data.length < 2 then data
  else (List.range data.length).foldl
    (fun d i => swapAt d i (shuffleIndex key (UInt32.ofNat data.length) i)) data

/-- The same swap chain, run backwards. -/
def unshuffle (data : List UInt8) (key : UInt32) : List UInt8 :=
  if data.length < 2 then data
  else (List.range data.length).reverse.foldl
    (fun d i => swapAt d i (shuffleIndex key (UInt32.ofNat data.length) i)) data

/-- The swap partner of position `i`, in closed form. -/
theorem shuffleIndex_eq (key : UInt32) {size : ℕ} (h2 : 2 ≤ size) (hlt : size < 2 ^ 32) (i : ℕ) :
    shuffleIndex key (UInt32.ofNat size) i = (UInt32.ofNat i ^^^ key).toNat % size := by
  have hsize : (UInt32.ofNat size).toNat = size := UInt32.toNat_ofNat_of_lt' (by simpa using hlt)
  rw [shuffleIndex, fastMod_eq _ (by rw [hsize]; exact h2), hsize]

/-- Every swap of the chain stays inside the slice. -/
theorem shuffleIndex_lt (key : UInt32) {size : ℕ} (h2 : 2 ≤ size) (hlt : size < 2 ^ 32) (i : ℕ) :
    shuffleIndex key (UInt32.ofNat size) i < size := by
  rw [shuffleIndex_eq key h2 hlt]
  exact Nat.mod_lt _ (by omega)

theorem foldl_swapAt_length (f : ℕ → ℕ) (is : List ℕ) (data : List UInt8) :
    (is.foldl (fun d i => swapAt d i (f i)) data).length = data.length := by
  induction is generalizing data with
  | nil => rfl
  | cons i is ih => rw [List.foldl_cons, ih, swapAt_length]

theorem foldl_swapAt_reverse (f : ℕ → ℕ) (is : List ℕ) (data : List UInt8) :
    is.reverse.foldl (fun d i => swapAt d i (f i)) (is.foldl (fun d i => swapAt d i (f i)) data)
      = data :=
  foldl_reverse_cancel (fun d i => swapAt_swapAt d i (f i)) is data

@[simp] theorem shuffle_length (data : List UInt8) (key : UInt32) :
    (shuffle data key).length = data.length := by
  unfold shuffle
  split
  · rfl
  · exact foldl_swapAt_length _ _ _

@[simp] theorem unshuffle_length (data : List UInt8) (key : UInt32) :
    (unshuffle data key).length = data.length := by
  unfold unshuffle
  split
  · rfl
  · exact foldl_swapAt_length _ _ _

/-- The permutation is undone by the reversed swap chain. -/
theorem unshuffle_shuffle (data : List UInt8) (key : UInt32) :
    unshuffle (shuffle data key) key = data := by
  rw [unshuffle, shuffle_length, shuffle]
  split
  · rfl
  · exact foldl_swapAt_reverse _ _ _

theorem shuffle_unshuffle (data : List UInt8) (key : UInt32) :
    shuffle (unshuffle data key) key = data := by
  rw [shuffle, unshuffle_length, unshuffle]
  split
  · rfl
  · have h := foldl_swapAt_reverse (shuffleIndex key (UInt32.ofNat data.length))
      (List.range data.length).reverse data
    rwa [List.reverse_reverse] at h

theorem foldl_swapAt_perm (f : ℕ → ℕ) (is : List ℕ) (data : List UInt8) :
    (is.foldl (fun d i => swapAt d i (f i)) data).Perm data := by
  induction is generalizing data with
  | nil => exact List.Perm.refl _
  | cons i is ih =>
      rw [List.foldl_cons]
      exact (ih _).trans (swapAt_perm _ _ _)

/-- Shuffling only moves bytes around. -/
theorem shuffle_perm (data : List UInt8) (key : UInt32) : (shuffle data key).Perm data := by
  unfold shuffle
  split
  · exact List.Perm.refl _
  · exact foldl_swapAt_perm _ _ _

/-- The permutation of the positions of a slice of `n` bytes that `shuffle` performs. -/
def shufflePerm (n : ℕ) (key : UInt32) : Equiv.Perm (Fin n) :=
  if h : 2 ≤ n ∧ n < 2 ^ 32 then
    swapChain (fun i => ⟨shuffleIndex key (UInt32.ofNat n) i, shuffleIndex_lt key h.1 h.2 i⟩)
      (List.finRange n)
  else 1

theorem shuffle_getElem? {n : ℕ} (hn : n < 2 ^ 32) (key : UInt32) {data : List UInt8}
    (hd : data.length = n) (k : Fin n) :
    (shuffle data key)[k.val]? = data[(shufflePerm n key k).val]? := by
  subst hd
  unfold shuffle shufflePerm
  split
  · rename_i h
    rw [dif_neg (by omega)]
    rfl
  · rename_i h
    rw [dif_pos (by omega), ← foldl_swapAt_getElem? _ _ rfl, ← List.map_coe_finRange_eq_range,
      List.foldl_map]

theorem unshuffle_getElem? {n : ℕ} (hn : n < 2 ^ 32) (key : UInt32) {data : List UInt8}
    (hd : data.length = n) (k : Fin n) :
    (unshuffle data key)[k.val]? = data[((shufflePerm n key).symm k).val]? := by
  have hd' : (unshuffle data key).length = n := by rw [unshuffle_length, hd]
  have h := shuffle_getElem? hn key hd' ((shufflePerm n key).symm k)
  rw [shuffle_unshuffle, Equiv.apply_symm_apply] at h
  exact h.symm

/-- The fast modulo is exact for every divisor from 2 on, so both swap chains exchange position `i`
with position `(i ^ key) % len`, which is inside the slice. -/
theorem fastMod_exact :
    (∀ x d : UInt32, 2 ≤ d.toNat →
      fastMod x (fastmodMagic d) d = x % d ∧
        (fastmodMagic d * x.toUInt64).toNat * d.toNat < 2 ^ 128) ∧
    ∀ (data : List UInt8) (key : UInt32), 2 ≤ data.length → data.length < 2 ^ 32 →
      (∀ i, shuffleIndex key (UInt32.ofNat data.length) i =
            (UInt32.ofNat i ^^^ key).toNat % data.length ∧
          shuffleIndex key (UInt32.ofNat data.length) i < data.length) ∧
        shuffle data key = (List.range data.length).foldl
          (fun d i => swapAt d i ((UInt32.ofNat i ^^^ key).toNat % data.length)) data ∧
        unshuffle data key = (List.range data.length).reverse.foldl
          (fun d i => swapAt d i ((UInt32.ofNat i ^^^ key).toNat % data.length)) data := by
  constructor
  · intro x d hd
    constructor
    · apply UInt32.toNat.inj
      rw [fastMod_eq x hd, UInt32.toNat_mod]
    · have hlow := (fastmodMagic d * x.toUInt64).toNat_lt
      have hdlt := d.toNat_lt
      calc (fastmodMagic d * x.toUInt64).toNat * d.toNat < 2 ^ 64 * 2 ^ 32 :=
            Nat.mul_lt_mul'' hlow hdlt
        _ < 2 ^ 128 := by norm_num
  · intro data key h2 hlt
    have hidx := shuffleIndex_eq key h2 hlt
    refine ⟨fun i => ⟨hidx i, shuffleIndex_lt key h2 hlt i⟩, ?_, ?_⟩
    · rw [shuffle, if_neg (by omega)]
      simp only [hidx]
    · rw [unshuffle, if_neg (by omega)]
      simp only [hidx]

/-- The largest dividend by 7, and a slice of three bytes. -/
theorem fastMod_exact_seven :
    fastMod 0xffffffff (fastmodMagic 7) 7 = 0xffffffff % 7 ∧
      shuffleIndex 1 (UInt32.ofNat [1, 2, 3].length) 2 < 3 :=
  ⟨(fastMod_exact.1 0xffffffff 7 (by decide)).1,
    ((fastMod_exact.2 [1, 2, 3] 1 (by decide) (by decide)).1 2).2⟩

/-! ### Delta coding -/

/-- Differences of neighbouring bytes, the first one taken against `prev`. -/
def deltaEncodeFrom (prev : UInt8) : List UInt8 → List UInt8
  | [] => []
  | b :: t => (b - prev) :: deltaEncodeFrom b t

/-- Running sums, starting from `prev`. -/
def deltaDecodeFrom (prev : UInt8) : List UInt8 → List UInt8
  | [] => []
  | b :: t => (prev + b) :: deltaDecodeFrom (prev + b) t

/-- Delta encoding: `out[0] = in[0] - kf`, `out[i] = in[i] - in[i-1]`. -/
def deltaEncode (data : List UInt8) (kf : UInt32) : List UInt8 := deltaEncodeFrom kf.toUInt8 data

/-- The inverse of `deltaEncode`. -/
def deltaDecode (data : List UInt8) (kf : UInt32) : List UInt8 := deltaDecodeFrom kf.toUInt8 data

@[simp] theorem deltaEncode_length (data : List UInt8) (kf : UInt32) :
    (deltaEncode data kf).length = data.length := by
  unfold deltaEncode
  induction data generalizing kf with
  | nil => rfl
  | cons b t ih => simpa [deltaEncodeFrom] using ih b.toUInt32

@[simp] theorem deltaDecode_length (data : List UInt8) (kf : UInt32) :
    (deltaDecode data kf).length = data.length := by
  unfold deltaDecode
  generalize kf.toUInt8 = prev
  induction data generalizing prev with
  | nil => rfl
  | cons b t ih => simpa [deltaDecodeFrom] using ih _

theorem deltaDecode_deltaEncode (data : List UInt8) (kf : UInt32) :
    deltaDecode (deltaEncode data kf) kf = data := by
  unfold deltaDecode deltaEncode
  generalize kf.toUInt8 = prev
  induction data generalizing prev with
  | nil => rfl
  | cons b t ih => simp [deltaEncodeFrom, deltaDecodeFrom, ih]

theorem deltaEncode_deltaDecode (data : List UInt8) (kf : UInt32) :
    deltaEncode (deltaDecode data kf) kf = data := by
  unfold deltaDecode deltaEncode
  generalize kf.toUInt8 = prev
  induction data generalizing prev with
  | nil => rfl
  | cons b t ih => simp [deltaEncodeFrom, deltaDecodeFrom, ih]

/-! ### The evolving mask -/

/-- The four bytes of a word, low byte first. -/
def leBytes4 (v : UInt32) : List UInt8 :=
  [v.toUInt8, (v >>> 8).toUInt8, (v >>> 16).toUInt8, (v >>> 24).toUInt8]

/-- Mask the full words, advancing the key after each; the last key is returned. -/
def maskWords (kf : UInt32) : List (List UInt8) → List UInt8 × UInt32
  | [] => ([], kf)
  | w :: ws =>
      let r := maskWords (lcgNext kf).1 ws
      (xorBytes w (leBytes4 kf) ++ r.1, r.2)

/-- XOR mask that evolves the key after each 4-byte word and 2-byte half-word. -/
def maskedXorRandomNext (data : List UInt8) (kf : UInt32) : List UInt8 :=
  let words := maskWords (lcgNext kf).1 (asChunks 4 data).1
  let rest := (asChunks 4 data).2
  let half :=
    if rest.length ≥ 2 then
      (xorBytes (rest.take 2) ((leBytes4 words.2).take 2) ++ rest.drop 2, (lcgNext words.2).1)
    else (rest, words.2)
  let tail :=
    if rest.length % 2 = 1 then
      half.1.dropLast ++ xorBytes (half.1.drop (rest.length - 1)) [half.2.toUInt8]
    else half.1
  words.1 ++ tail

/-- The mask of `n` full words and the key behind it. -/
def wordMask (kf : UInt32) : ℕ → List UInt8 × UInt32
  | 0 => ([], kf)
  | n + 1 => let r := wordMask (lcgNext kf).1 n; (leBytes4 kf ++ r.1, r.2)

/-- The mask of a tail of `r < 4` bytes. -/
def tailMask (kf : UInt32) : ℕ → List UInt8
  | 1 => [kf.toUInt8]
  | 2 => (leBytes4 kf).take 2
  | 3 => (leBytes4 kf).take 2 ++ [(lcgNext kf).1.toUInt8]
  | _ => []

/-- The whole mask of `len` bytes. -/
def keyMask (kf : UInt32) (len : ℕ) : List UInt8 :=
  let w := wordMask (lcgNext kf).1 (len / 4)
  w.1 ++ tailMask w.2 (len % 4)

@[simp] theorem leBytes4_length (v : UInt32) : (leBytes4 v).length = 4 := rfl

theorem wordMask_length (kf : UInt32) (n : ℕ) : (wordMask kf n).1.length = 4 * n := by
  induction n generalizing kf with
  | zero => rfl
  | succ n ih => rw [wordMask]; simp [ih]; omega

theorem tailMask_length (kf : UInt32) {r : ℕ} (hr : r < 4) : (tailMask kf r).length = r := by
  interval_cases r <;> rfl

@[simp] theorem keyMask_length (kf : UInt32) (len : ℕ) : (keyMask kf len).length = len := by
  rw [keyMask, List.length_append, wordMask_length, tailMask_length _ (Nat.mod_lt _ (by decide))]
  exact Nat.div_add_mod len 4

theorem maskWords_eq (kf : UInt32) (ws : List (List UInt8)) (h : ∀ w ∈ ws, w.length = 4) :
    maskWords kf ws = (xorBytes ws.flatten (wordMask kf ws.length).1, (wordMask kf ws.length).2) := by
  induction ws generalizing kf with
  | nil => rfl
  | cons w ws ih =>
      have hw : w.length = (leBytes4 kf).length := by simpa using h w (by simp)
      rw [maskWords, ih _ fun v hv => h v (by simp [hv])]
      simp only [List.flatten_cons, List.length_cons, wordMask]
      rw [xorBytes_append hw]

/-- Masking is an exclusive-or with a mask that depends only on the key and on the length. -/
theorem maskedXor_eq_xorBytes (data : List UInt8) (kf : UInt32) :
    maskedXorRandomNext data kf = xorBytes data (keyMask kf data.length) := by
  obtain ⟨hch, htl⟩ := asChunks_length (n := 4) (by decide) data
  have hflat := asChunks_flatten (n := 4) (by decide) data
  have hwords : (asChunks 4 data).1.flatten.length = 4 * (asChunks 4 data).1.length := by
    rw [List.length_flatten, List.map_congr_left hch]
    simp [Nat.mul_comm]
  have hlen : data.length = 4 * (asChunks 4 data).1.length + (asChunks 4 data).2.length := by
    conv => lhs; rw [← hflat]
    rw [List.length_append, hwords]
  have hdiv : data.length / 4 = (asChunks 4 data).1.length := by omega
  have hmod : data.length % 4 = (asChunks 4 data).2.length := by omega
  conv => rhs; enter [1]; rw [← hflat]
  rw [keyMask, hdiv, hmod, xorBytes_append (by rw [hwords, wordMask_length]), maskedXorRandomNext,
    maskWords_eq _ _ hch]
  -- the words agree; the tail has at most three bytes
  congr 1
  generalize (wordMask (lcgNext kf).1 (asChunks 4 data).1.length).2 = k
  generalize (asChunks 4 data).2 = rest at htl
  match rest, htl with
  | [], _ => rfl
  | [a], _ => rfl
  | [a, b], _ => simp [leBytes4, tailMask]
  | [a, b, c], _ => simp [leBytes4, tailMask]

@[simp] theorem maskedXor_length (data : List UInt8) (kf : UInt32) :
    (maskedXorRandomNext data kf).length = data.length := by
  rw [maskedXor_eq_xorBytes]; simp

/-- The mask is its own inverse. -/
theorem maskedXor_maskedXor (data : List UInt8) (kf : UInt32) :
    maskedXorRandomNext (maskedXorRandomNext data kf) kf = data := by
  rw [maskedXor_eq_xorBytes, maskedXor_length, maskedXor_eq_xorBytes,
    xorBytes_cancel (by simp)]

end Nextppp

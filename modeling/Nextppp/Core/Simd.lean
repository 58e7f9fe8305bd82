/-
**The vector kernels of `crypto/simd.rs`.**

Delta coding is done sixteen bytes at a time, with the SSE2 instructions on x86-64 and the NEON
instructions on aarch64.  A register is a vector of sixteen lanes; the instructions are modelled lane
by lane under their own names.  Both backends cut the data behind its first byte into blocks, hand each
block to a kernel and leave the tail to the scalar loop, so they are one definition with the kernel
as a parameter.

Main definitions:

* `Nextppp.Simd.Scalar.deltaEncode`, `Nextppp.Simd.Scalar.deltaDecode` — the reference;
* `Nextppp.Simd.Sse2.deltaEncode`, `Nextppp.Simd.Sse2.deltaDecode`,
  `Nextppp.Simd.Neon.deltaEncode`, `Nextppp.Simd.Neon.deltaDecode` — the backends.

Main result:

* `Nextppp.Simd.backends_eq_scalar` — every backend computes the reference on every byte string.
-/

import Nextppp.Core.Ssea
import Nextppp.Lib.Scan

set_option relaxedAutoImplicit false
set_option autoImplicit false

namespace Nextppp

namespace Simd

open ListLib Scan

/-! ### The scalar reference -/

/-- One step of the encoder: the difference to the byte before, which is kept. -/
def encodeStep (prev cur : UInt8) : UInt8 × UInt8 := (cur - prev, cur)

/-- One step of the decoder: the running sum. -/
def decodeStep (prev b : UInt8) : UInt8 × UInt8 := (prev + b, prev + b)

namespace Scalar

/-- Delta encoding, a byte at a time. -/
def deltaEncode (data : List UInt8) (kf8 : UInt8) : List UInt8 :=
  match data with
  | [] => []
  | d :: rest => (d - kf8) :: (run encodeStep d rest).1

/-- Delta decoding, a byte at a time. -/
def deltaDecode (data : List UInt8) (kf8 : UInt8) : List UInt8 :=
  match data with
  | [] => []
  | d :: rest => (d + kf8) :: (run decodeStep (d + kf8) rest).1

end Scalar

theorem run_encodeStep (prev : UInt8) (l : List UInt8) :
    (run encodeStep prev l).1 = deltaEncodeFrom prev l := by
  induction l generalizing prev with
  | nil => rfl
  | cons b l ih =>
      rw [run, deltaEncodeFrom, ← ih]
      rfl

theorem run_decodeStep (prev : UInt8) (l : List UInt8) :
    (run decodeStep prev l).1 = deltaDecodeFrom prev l := by
  induction l generalizing prev with
  | nil => rfl
  | cons b l ih =>
      rw [run, deltaDecodeFrom, ← ih]
      rfl

/-- The reference is the delta coding of the payload transforms. -/
theorem scalar_deltaEncode (data : List UInt8) (kf : UInt32) :
    Scalar.deltaEncode data kf.toUInt8 = Nextppp.deltaEncode data kf := by
  cases data with
  | nil => rfl
  | cons d rest => rw [Scalar.deltaEncode, run_encodeStep]; rfl

theorem scalar_deltaDecode (data : List UInt8) (kf : UInt32) :
    Scalar.deltaDecode data kf.toUInt8 = Nextppp.deltaDecode data kf := by
  cases data with
  | nil => rfl
  | cons d rest =>
      rw [Scalar.deltaDecode, run_decodeStep, UInt8.add_comm]
      rfl

/-! ### Registers -/

/-- A register of sixteen byte lanes. -/
abbrev Lanes := Vector UInt8 16

/-- The byte in a lane, zero outside the register. -/
def lane (v : Lanes) (i : ℕ) : UInt8 := v.toList.getD i 0

/-- Load sixteen bytes. -/
def load (c : List UInt8) : Lanes := Vector.ofFn fun i => c.getD i 0

/-- Lane-wise sum. -/
def add (v w : Lanes) : Lanes := Vector.zipWith (· + ·) v w

/-- Lane-wise difference. -/
def sub (v w : Lanes) : Lanes := Vector.zipWith (· - ·) v w

/-- Bitwise conjunction. -/
def and (v w : Lanes) : Lanes := Vector.zipWith (· &&& ·) v w

/-- Bitwise disjunction. -/
def or (v w : Lanes) : Lanes := Vector.zipWith (· ||| ·) v w

/-- The same byte in every lane. -/
def splat (x : UInt8) : Lanes := Vector.replicate 16 x

/-- The mask that selects lane 0. -/
def lane0 : Lanes := Vector.ofFn fun i => if i.val = 0 then 0xff else 0

/-- One backend of the delta coding: the kernels that do a block. -/
structure Backend where
  encodeBlock : UInt8 → Lanes → Lanes × UInt8
  decodeBlock : UInt8 → Lanes → Lanes × UInt8

namespace Backend

/-- A kernel as a function of sixteen bytes. -/
def onBytes (kernel : UInt8 → Lanes → Lanes × UInt8) (s : UInt8) (c : List UInt8) :
    List UInt8 × UInt8 :=
  ((kernel s (load c)).1.toList, (kernel s (load c)).2)

/-- Delta encoding: the first byte against the key, the rest in blocks. -/
def deltaEncode (B : Backend) (data : List UInt8) (kf8 : UInt8) : List UInt8 :=
  match data with
  | [] => []
  | [orig] => [orig - kf8]
  | orig :: rest => (orig - kf8) :: (runBlocks 16 (onBytes B.encodeBlock) encodeStep orig rest).1

/-- Delta decoding: the first byte against the key, the rest in blocks. -/
def deltaDecode (B : Backend) (data : List UInt8) (kf8 : UInt8) : List UInt8 :=
  match data with
  | [] => []
  | [d] => [d + kf8]
  | d :: rest => (d + kf8) :: (runBlocks 16 (onBytes B.decodeBlock) decodeStep (d + kf8) rest).1

end Backend

/-! ### SSE2 -/

namespace Sse2

/-- `_mm_slli_si128`: lane `i` holds lane `i - k`, zeros are shifted in. -/
def slli (v : Lanes) (k : ℕ) : Lanes :=
  Vector.ofFn fun i => if i.val < k then 0 else lane v (i.val - k)

/-- The mask that clears lane 0. -/
def keep15 : Lanes := Vector.ofFn fun i => if i.val = 0 then 0 else 0xff

/-- `_mm_extract_epi16`: the 16-bit lane `k`, zero-extended. -/
def extractEpi16 (v : Lanes) (k : ℕ) : UInt32 :=
  (lane v (2 * k)).toUInt32 ||| ((lane v (2 * k + 1)).toUInt32 <<< 8)

/-- Lane 0 replaced by the byte before the block, SSE2 having no byte insertion. -/
def encodeBlock (prev : UInt8) (v : Lanes) : Lanes × UInt8 :=
  let shifted := or (and (slli v 1) keep15) (and (splat prev) lane0)
  (sub v shifted, (extractEpi16 v 7 >>> 8).toUInt8)

/-- The running sum of the block, with the carry folded into lane 0. -/
def decodeBlock (carry : UInt8) (v : Lanes) : Lanes × UInt8 :=
  let v := add v (and (splat carry) lane0)
  let v := add v (slli v 1)
  let v := add v (slli v 2)
  let v := add v (slli v 4)
  let v := add v (slli v 8)
  (v, (extractEpi16 v 7 >>> 8).toUInt8)

/-- The x86-64 backend. -/
def backend : Backend := ⟨encodeBlock, decodeBlock⟩

def deltaEncode (data : List UInt8) (kf8 : UInt8) : List UInt8 := backend.deltaEncode data kf8

def deltaDecode (data : List UInt8) (kf8 : UInt8) : List UInt8 := backend.deltaDecode data kf8

end Sse2

/-! ### NEON -/

namespace Neon

/-- `vextq_u8`: sixteen lanes of the two registers put together, from lane `n` on. -/
def vext (v w : Lanes) (n : ℕ) : Lanes := Vector.ofFn fun i => (v.toList ++ w.toList).getD (i.val + n) 0

/-- Shift the lanes up by `k`. -/
def shl (v : Lanes) (k : ℕ) : Lanes := vext (splat 0) v (16 - k)

/-- `vsetq_lane_u8` and `vgetq_lane_u8`. -/
def setLane (x : UInt8) (v : Lanes) (i : Fin 16) : Lanes := v.set i x

def getLane (v : Lanes) (i : Fin 16) : UInt8 := v.get i

def encodeBlock (prev : UInt8) (v : Lanes) : Lanes × UInt8 :=
  let shifted := setLane prev (shl v 1) 0
  (sub v shifted, getLane v 15)

/-- The running sum of the block.  The carry is added to lane 0, not put in its place. -/
def decodeBlock (carry : UInt8) (v : Lanes) : Lanes × UInt8 :=
  let v := add v (and (splat carry) lane0)
  let v := add v (shl v 1)
  let v := add v (shl v 2)
  let v := add v (shl v 4)
  let v := add v (shl v 8)
  (v, getLane v 15)

/-- The aarch64 backend. -/
def backend : Backend := ⟨encodeBlock, decodeBlock⟩

def deltaEncode (data : List UInt8) (kf8 : UInt8) : List UInt8 := backend.deltaEncode data kf8

def deltaDecode (data : List UInt8) (kf8 : UInt8) : List UInt8 := backend.deltaDecode data kf8

end Neon

/-! ### Lane by lane -/

theorem lane_eq {v : Lanes} {i : ℕ} (h : i < 16) : lane v i = v[i] := by
  rw [lane, List.getD_eq_getElem _ _ (by simpa using h), Vector.getElem_toList]

/-- Registers are equal when their lanes are. -/
theorem lanes_ext {v w : Lanes} (h : ∀ i < 16, lane v i = lane w i) : v = w := by
  apply Vector.ext
  intro i hi
  rw [← lane_eq hi, ← lane_eq hi, h i hi]

theorem lane_add (v w : Lanes) {i : ℕ} (h : i < 16) : lane (add v w) i = lane v i + lane w i := by
  rw [lane_eq h, lane_eq h, lane_eq h, add, Vector.getElem_zipWith]

theorem lane_sub (v w : Lanes) {i : ℕ} (h : i < 16) : lane (sub v w) i = lane v i - lane w i := by
  rw [lane_eq h, lane_eq h, lane_eq h, sub, Vector.getElem_zipWith]

theorem lane_and (v w : Lanes) {i : ℕ} (h : i < 16) : lane (and v w) i = lane v i &&& lane w i := by
  rw [lane_eq h, lane_eq h, lane_eq h, and, Vector.getElem_zipWith]

theorem lane_or (v w : Lanes) {i : ℕ} (h : i < 16) : lane (or v w) i = lane v i ||| lane w i := by
  rw [lane_eq h, lane_eq h, lane_eq h, or, Vector.getElem_zipWith]

theorem lane_ofFn (f : Fin 16 → UInt8) {i : ℕ} (h : i < 16) : lane (Vector.ofFn f) i = f ⟨i, h⟩ := by
  rw [lane_eq h, Vector.getElem_ofFn]

theorem lane_splat (x : UInt8) {i : ℕ} (h : i < 16) : lane (splat x) i = x := by
  rw [lane_eq h, splat, Vector.getElem_replicate]

theorem lane_load {c : List UInt8} {i : ℕ} (h : i < 16) : lane (load c) i = c.getD i 0 :=
  lane_ofFn _ h

/-- A full mask keeps the byte. -/
theorem and_full (x : UInt8) : x &&& 0xff = x := UInt8.and_neg_one

/-- A byte put in lane 0 of an otherwise empty register. -/
theorem lane_first (x : UInt8) {i : ℕ} (h : i < 16) :
    lane (and (splat x) lane0) i = if i = 0 then x else 0 := by
  rw [lane_and _ _ h, lane_splat _ h, lane0, lane_ofFn _ h]
  split
  · exact and_full x
  · exact UInt8.and_zero

theorem lane_slli (v : Lanes) (k : ℕ) {i : ℕ} (h : i < 16) :
    lane (Sse2.slli v k) i = if i < k then 0 else lane v (i - k) := lane_ofFn _ h

/-- The two shifts are the same. -/
theorem shl_eq_slli (v : Lanes) {k : ℕ} (hk : k ≤ 16) : Neon.shl v k = Sse2.slli v k := by
  refine lanes_ext fun i hi => ?_
  rw [lane_slli v k hi, Neon.shl, Neon.vext, lane_ofFn _ hi]
  dsimp only
  by_cases h : i < k
  · rw [if_pos h, List.getD_append _ _ _ _ (by simp; omega)]
    exact lane_splat 0 (by omega)
  · rw [if_neg h, List.getD_append_right _ _ _ _ (by simp; omega), Vector.length_toList, lane,
      show i + (16 - k) - 16 = i - k by omega]

/-- The top byte of the top 16-bit lane is lane 15. -/
theorem extractEpi16_high (v : Lanes) : (Sse2.extractEpi16 v 7 >>> 8).toUInt8 = lane v 15 := by
  have hhigh : ∀ a b : UInt8, ((a.toUInt32 ||| (b.toUInt32 <<< 8)) >>> 8).toUInt8 = b := by
    intro a b
    apply UInt8.toBitVec_inj.1
    ext i hi
    interval_cases i <;> simp
  exact hhigh _ _

/-! ### The kernels -/

/-- What the reference does to a block, position by position. -/
theorem run_encodeStep_getD (prev : UInt8) (l : List UInt8) {i : ℕ} (h : i < l.length) :
    (run encodeStep prev l).1.getD i 0 = l.getD i 0 - if i = 0 then prev else l.getD (i - 1) 0 := by
  induction l generalizing prev i with
  | nil => simp at h
  | cons b l ih =>
      cases i with
      | zero => rfl
      | succ i =>
          rw [run, List.getD_cons_succ, ih _ (by simpa using h)]
          cases i with
          | zero => rfl
          | succ i => rfl

theorem run_encodeStep_state (prev : UInt8) (l : List UInt8) (h : 0 < l.length) :
    (run encodeStep prev l).2 = l.getD (l.length - 1) 0 := by
  induction l generalizing prev with
  | nil => simp at h
  | cons b l ih =>
      cases l with
      | nil => rfl
      | cons c l => exact ih b (by simp)

/-- The decoder emits the running sums. -/
theorem run_decodeStep_getD (carry : UInt8) (l : List UInt8) {i : ℕ} (h : i < l.length) :
    (run decodeStep carry l).1.getD i 0 = carry + ∑ j ∈ Finset.range (i + 1), l.getD j 0 := by
  induction l generalizing carry i with
  | nil => simp at h
  | cons b l ih =>
      rw [Finset.sum_range_succ']
      cases i with
      | zero => simp [run, decodeStep]
      | succ i =>
          rw [run, List.getD_cons_succ, ih _ (by simpa using h)]
          simp only [decodeStep, List.getD_cons_succ, List.getD_cons_zero]
          ac_rfl

/-- The carried value is the last sum. -/
theorem run_decodeStep_state (carry : UInt8) (l : List UInt8) (h : 0 < l.length) :
    (run decodeStep carry l).2 = (run decodeStep carry l).1.getD (l.length - 1) 0 := by
  induction l generalizing carry with
  | nil => simp at h
  | cons b l ih =>
      cases l with
      | nil => rfl
      | cons c l => exact ih _ (by simp)

/-- A kernel that gets every lane and the carried byte right agrees with the loop. -/
theorem onBytes_eq {kernel : UInt8 → Lanes → Lanes × UInt8} {step : UInt8 → UInt8 → UInt8 × UInt8}
    {s : UInt8} {c : List UInt8} (hc : c.length = 16)
    (hlane : ∀ i < 16, lane (kernel s (load c)).1 i = (run step s c).1.getD i 0)
    (hstate : (kernel s (load c)).2 = (run step s c).2) :
    Backend.onBytes kernel s c = run step s c := by
  refine Prod.ext (List.ext_getElem ?_ fun i h₁ h₂ => ?_) hstate
  · simp [Backend.onBytes, hc]
  · have hi : i < 16 := by simpa [hc] using h₂
    rw [← List.getD_eq_getElem _ 0 h₁, ← List.getD_eq_getElem _ 0 h₂]
    exact hlane i hi

/-- The difference to the lane before, lane 0 taking the byte before the block. -/
theorem Sse2.encodeBlock_lane (prev : UInt8) (v : Lanes) {i : ℕ} (h : i < 16) :
    lane (Sse2.encodeBlock prev v).1 i = lane v i - if i = 0 then prev else lane v (i - 1) := by
  rw [Sse2.encodeBlock, lane_sub _ _ h, lane_or _ _ h, lane_first _ h, lane_and _ _ h, lane_slli _ _ h,
    Sse2.keep15, lane_ofFn _ h]
  by_cases h0 : i = 0
  · simp [h0]
  · simp [h0, show ¬i < 1 by omega, and_full]

theorem Neon.encodeBlock_lane (prev : UInt8) (v : Lanes) {i : ℕ} (h : i < 16) :
    lane (Neon.encodeBlock prev v).1 i = lane v i - if i = 0 then prev else lane v (i - 1) := by
  have hset : lane (Neon.setLane prev (Neon.shl v 1) 0) i =
      if i = 0 then prev else lane v (i - 1) := by
    rw [shl_eq_slli v (by decide), lane_eq h, Neon.setLane, Vector.getElem_set, ← lane_eq h,
      lane_slli v 1 h]
    by_cases h0 : i = 0
    · simp [h0]
    · simp [h0, Ne.symm h0, show ¬i < 1 by omega]
  rw [Neon.encodeBlock, lane_sub _ _ h, hset]

/-- One doubling of the windows. -/
theorem lane_double {v : Lanes} {f : ℕ → UInt8} {w : ℕ} (hv : ∀ i < 16, lane v i = window f w i) :
    ∀ i < 16, lane (add v (Sse2.slli v w)) i = window f (2 * w) i := by
  intro i hi
  rw [lane_add _ _ hi, lane_slli _ _ hi, hv i hi, ← window_double]
  by_cases h : i < w
  · rw [if_pos h, if_pos h]
  · rw [if_neg h, if_neg h, hv (i - w) (by omega)]

/-- Four doublings after the carry was added to lane 0. -/
theorem Sse2.decodeBlock_lane (carry : UInt8) (v : Lanes) {i : ℕ} (h : i < 16) :
    lane (Sse2.decodeBlock carry v).1 i = carry + ∑ j ∈ Finset.range (i + 1), lane v j := by
  have hstart : ∀ j < 16, lane (add v (and (splat carry) lane0)) j =
      window (fun j => lane v j + if j = 0 then carry else 0) 1 j := by
    intro j hj
    rw [window_one, lane_add _ _ hj, lane_first _ hj]
  have hend := lane_double (lane_double (lane_double (lane_double hstart)))
  have hsum : (∑ j ∈ Finset.range (i + 1), if j = 0 then carry else 0) = carry := by
    rw [Finset.sum_ite_eq' (Finset.range (i + 1)) 0 fun _ => carry]
    simp
  calc lane (Sse2.decodeBlock carry v).1 i
      = ∑ j ∈ Finset.range (i + 1), (lane v j + if j = 0 then carry else 0) := by
        rw [← window_full _ (show i < 16 from h)]
        exact hend i h
    _ = carry + ∑ j ∈ Finset.range (i + 1), lane v j := by
        rw [Finset.sum_add_distrib, hsum, UInt8.add_comm]

/-- The NEON kernel computes the same sums. -/
theorem Neon.decodeBlock_eq (carry : UInt8) (v : Lanes) :
    (Neon.decodeBlock carry v).1 = (Sse2.decodeBlock carry v).1 := by
  simp only [Neon.decodeBlock, Sse2.decodeBlock]
  rw [shl_eq_slli _ (by decide), shl_eq_slli _ (by decide), shl_eq_slli _ (by decide),
    shl_eq_slli _ (by decide)]

/-! ### The backends -/

/-- What is asked of the kernels of a backend: the differences to the lane before, and the running
sums; the byte that is carried on is the last lane of the input, or of the result. -/
structure Backend.Correct (B : Backend) : Prop where
  encode_lane : ∀ prev v, ∀ i < 16,
    lane (B.encodeBlock prev v).1 i = lane v i - if i = 0 then prev else lane v (i - 1)
  encode_carry : ∀ prev v, (B.encodeBlock prev v).2 = lane v 15
  decode_lane : ∀ carry v, ∀ i < 16,
    lane (B.decodeBlock carry v).1 i = carry + ∑ j ∈ Finset.range (i + 1), lane v j
  decode_carry : ∀ carry v, (B.decodeBlock carry v).2 = lane (B.decodeBlock carry v).1 15

theorem Sse2.backend_correct : Sse2.backend.Correct where
  encode_lane prev v _ h := Sse2.encodeBlock_lane prev v h
  encode_carry _ v := extractEpi16_high v
  decode_lane carry v _ h := Sse2.decodeBlock_lane carry v h
  decode_carry _ _ := extractEpi16_high _

theorem Neon.backend_correct : Neon.backend.Correct where
  encode_lane prev v _ h := Neon.encodeBlock_lane prev v h
  encode_carry _ v := (lane_eq (by decide)).symm
  decode_lane carry v i h := by
    change lane (Neon.decodeBlock carry v).1 i = _
    rw [Neon.decodeBlock_eq]
    exact Sse2.decodeBlock_lane carry v h
  decode_carry _ _ := (lane_eq (by decide)).symm

namespace Backend.Correct

variable {B : Backend} (hB : B.Correct)

include hB in
theorem encode_block (prev : UInt8) (c : List UInt8) (hc : c.length = 16) :
    Backend.onBytes B.encodeBlock prev c = run encodeStep prev c := by
  refine onBytes_eq hc (fun i hi => ?_) ?_
  · rw [hB.encode_lane _ _ i hi, run_encodeStep_getD _ _ (by omega), lane_load hi,
      lane_load (by omega)]
  · rw [hB.encode_carry, run_encodeStep_state _ _ (by omega), lane_load (by omega), hc]

include hB in
theorem decode_block (carry : UInt8) (c : List UInt8) (hc : c.length = 16) :
    Backend.onBytes B.decodeBlock carry c = run decodeStep carry c := by
  have hlane : ∀ i < 16, lane (B.decodeBlock carry (load c)).1 i =
      (run decodeStep carry c).1.getD i 0 := by
    intro i hi
    have hsum : ∑ j ∈ Finset.range (i + 1), lane (load c) j =
        ∑ j ∈ Finset.range (i + 1), c.getD j 0 := by
      refine Finset.sum_congr rfl fun j hj => lane_load ?_
      have := Finset.mem_range.1 hj
      omega
    rw [hB.decode_lane _ _ i hi, run_decodeStep_getD _ _ (by omega), hsum]
  refine onBytes_eq hc hlane ?_
  rw [hB.decode_carry, hlane 15 (by decide), run_decodeStep_state _ _ (by omega), hc]

include hB in
/-- A backend with correct kernels encodes as the reference does. -/
theorem deltaEncode_eq (data : List UInt8) (kf8 : UInt8) :
    B.deltaEncode data kf8 = Scalar.deltaEncode data kf8 := by
  match data with
  | [] => rfl
  | [orig] => rfl
  | orig :: b :: rest =>
      rw [Backend.deltaEncode, runBlocks_eq (by decide) hB.encode_block, Scalar.deltaEncode]
      exact fun h => by cases h

include hB in
theorem deltaDecode_eq (data : List UInt8) (kf8 : UInt8) :
    B.deltaDecode data kf8 = Scalar.deltaDecode data kf8 := by
  match data with
  | [] => rfl
  | [d] => rfl
  | d :: b :: rest =>
      rw [Backend.deltaDecode, runBlocks_eq (by decide) hB.decode_block, Scalar.deltaDecode]
      exact fun h => by cases h

end Backend.Correct

/-- The vector backends compute the reference on every byte string, for every key byte. -/
theorem backends_eq_scalar (data : List UInt8) (kf8 : UInt8) :
    Sse2.deltaEncode data kf8 = Scalar.deltaEncode data kf8 ∧
      Sse2.deltaDecode data kf8 = Scalar.deltaDecode data kf8 ∧
      Neon.deltaEncode data kf8 = Scalar.deltaEncode data kf8 ∧
      Neon.deltaDecode data kf8 = Scalar.deltaDecode data kf8 :=
  ⟨Sse2.backend_correct.deltaEncode_eq data kf8, Sse2.backend_correct.deltaDecode_eq data kf8,
    Neon.backend_correct.deltaEncode_eq data kf8, Neon.backend_correct.deltaDecode_eq data kf8⟩

end Simd

end Nextppp

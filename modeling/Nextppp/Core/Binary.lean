/-
**The binary packet of `frame/binary.rs`.**

A packet is a three-byte encrypted header in front of the transformed payload.  The header hides a
random seed, from which both sides derive the `header_kf` of the packet, and the payload length.

The two length bytes go through the protocol cipher, which therefore advances by one nonce for
every header, on both sides.

Main definitions:

* `Nextppp.headerEncrypt`, `Nextppp.headerDecrypt`;
* `Nextppp.PayloadFlags`, `Nextppp.payloadObfuscate`, `Nextppp.payloadDeobfuscate`.

Main results:

* `Nextppp.headerEncrypt_spec` — a legal length is encrypted, and a mirrored cipher reads back the
  length and the `header_kf`;
* `Nextppp.payloadDeobfuscate_obfuscate` — the payload transform is undone for every combination of
  flags;
* `Nextppp.payload_bijective` — the transforms are bijections, and what each of them depends on.
-/

import Nextppp.Core.Cipher
import Nextppp.Core.Ssea

set_option relaxedAutoImplicit false
set_option autoImplicit false

namespace Nextppp

open ListLib

/-- Binary header size in bytes. -/
def headerSize : ℕ := 3

/-- Effective payload-transform switches. -/
structure PayloadFlags where
  masked : Bool
  shuffle : Bool
  delta : Bool
  deriving DecidableEq, Repr

namespace PayloadFlags

/-- All transforms enabled (pre-handshake mode). -/
def safest : PayloadFlags := ⟨true, true, true⟩

end PayloadFlags

/-! ### The header -/

/-- Mask every byte with the low byte of `kf`. -/
def maskLow (kf : UInt32) (data : List UInt8) : List UInt8 := data.map (· ^^^ kf.toUInt8)

theorem maskLow_maskLow (kf : UInt32) (data : List UInt8) : maskLow kf (maskLow kf data) = data := by
  rw [maskLow, maskLow, List.map_map]
  conv => rhs; rw [← List.map_id data]
  refine List.map_congr_left fun b _ => ?_
  rw [Function.comp_apply, UInt8.xor_assoc, UInt8.xor_self, UInt8.xor_zero, id]

@[simp] theorem maskLow_length (kf : UInt32) (data : List UInt8) :
    (maskLow kf data).length = data.length := List.length_map _

/-- Build the encrypted header: the three bytes and the `header_kf` of the packet. -/
def headerEncrypt (P : Primitives) (rng : Rng) (kf : UInt32) (cipher : SessionCipher)
    (payloadLen : ℕ) : Except Error (List UInt8 × UInt32) × SessionCipher × Rng :=
  if payloadLen = 0 ∨ pppBufferSize < payloadLen then
    (.error (.frameTooLarge payloadLen), cipher, rng)
  else
    let adjusted := payloadLen - 1
    let seed := rng.randomRange 1 0xff
    let headerKf := kf ^^^ UInt32.ofNat seed.1
    let enc := cipher.apply P [UInt8.ofNat (adjusted / 256), UInt8.ofNat (adjusted % 256)]
    let body := shuffle (maskLow headerKf enc.1) headerKf
    (.ok (deltaEncode (UInt8.ofNat seed.1 :: body) kf, headerKf), enc.2, seed.2)

/-- Decrypt a header: the payload length and the `header_kf` of the packet. -/
def headerDecrypt (P : Primitives) (kf : UInt32) (cipher : SessionCipher) (header : List UInt8) :
    (ℕ × UInt32) × SessionCipher :=
  let array := deltaDecode header kf
  let headerKf := kf ^^^ UInt32.ofNat (array.getD 0 0).toNat
  let dec := cipher.apply P (maskLow headerKf (unshuffle (array.drop 1) headerKf))
  (((dec.1.getD 0 0).toNat * 256 + (dec.1.getD 1 0).toNat + 1, headerKf), dec.2)

/-- A legal length is encrypted to three bytes, the cipher advances once, and a mirrored cipher
reads back the length and the `header_kf`. -/
theorem headerEncrypt_spec (P : Primitives) (rng : Rng) (kf : UInt32) (t : SessionCipher) {n : ℕ}
    (hpos : 0 < n) (hn : n ≤ pppBufferSize) :
    ∃ h headerKf d rng', headerEncrypt P rng kf t n = (.ok (h, headerKf), (t.apply P d).2, rng') ∧
      h.length = headerSize ∧
      ∀ r : SessionCipher, t.Mirror r → ∃ d',
        headerDecrypt P kf r h = ((n, headerKf), (r.apply P d').2) := by
  have hlo := rng.randomRange_ge 1 0xff
  have hseed := rng.toNat_ofNat_randomRange (by decide : 1 ≤ 0xff) (by decide)
  have hsize : n ≤ 65536 := hn
  unfold headerEncrypt
  rw [if_neg (by omega)]
  refine ⟨_, _, _, _, rfl, by simp [headerSize], ?_⟩
  intro r hr
  refine ⟨(t.apply P [UInt8.ofNat ((n - 1) / 256), UInt8.ofNat ((n - 1) % 256)]).1, ?_⟩
  have hhi : (UInt8.ofNat ((n - 1) / 256)).toNat = (n - 1) / 256 :=
    UInt8.toNat_ofNat_of_lt' (by simp only [UInt8.size]; omega)
  have hlow : (UInt8.ofNat ((n - 1) % 256)).toNat = (n - 1) % 256 :=
    UInt8.toNat_ofNat_of_lt' (by simp only [UInt8.size]; omega)
  simp only [headerDecrypt, deltaDecode_deltaEncode, List.getD_cons_zero, hseed, List.drop_succ_cons,
    List.drop_zero, unshuffle_shuffle, maskLow_maskLow, hr.apply, List.getD_cons_succ, hhi, hlow]
  refine Prod.ext (Prod.ext ?_ rfl) rfl
  dsimp only
  omega

/-! ### The payload -/

/-- The payload transform chain: mask, then shuffle, then delta. -/
def payloadObfuscate (data : List UInt8) (flags : PayloadFlags) (headerKf kf : UInt32) :
    List UInt8 :=
  let data := if flags.masked then maskedXorRandomNext data headerKf else data
  let data := if flags.shuffle then shuffle data headerKf else data
  if flags.delta then deltaEncode data kf else data

/-- Reverses `payloadObfuscate`. -/
def payloadDeobfuscate (data : List UInt8) (flags : PayloadFlags) (headerKf kf : UInt32) :
    List UInt8 :=
  let data := if flags.delta then deltaDecode data kf else data
  let data := if flags.shuffle then unshuffle data headerKf else data
  if flags.masked then maskedXorRandomNext data headerKf else data

/-- The transform is undone for every combination of flags. -/
theorem payloadDeobfuscate_obfuscate (data : List UInt8) (flags : PayloadFlags)
    (headerKf kf : UInt32) :
    payloadDeobfuscate (payloadObfuscate data flags headerKf kf) flags headerKf kf = data := by
  obtain ⟨masked, shuf, delta⟩ := flags
  cases masked <;> cases shuf <;> cases delta <;>
    simp [payloadDeobfuscate, payloadObfuscate, deltaDecode_deltaEncode, unshuffle_shuffle,
      maskedXor_maskedXor]

theorem payloadObfuscate_deobfuscate (data : List UInt8) (flags : PayloadFlags)
    (headerKf kf : UInt32) :
    payloadObfuscate (payloadDeobfuscate data flags headerKf kf) flags headerKf kf = data := by
  obtain ⟨masked, shuf, delta⟩ := flags
  cases masked <;> cases shuf <;> cases delta <;>
    simp [payloadDeobfuscate, payloadObfuscate, deltaEncode_deltaDecode, shuffle_unshuffle,
      maskedXor_maskedXor]

@[simp] theorem payloadObfuscate_length (data : List UInt8) (flags : PayloadFlags)
    (headerKf kf : UInt32) :
    (payloadObfuscate data flags headerKf kf).length = data.length := by
  simp only [payloadObfuscate]
  split <;> split <;> split <;> simp

@[simp] theorem payloadDeobfuscate_length (data : List UInt8) (flags : PayloadFlags)
    (headerKf kf : UInt32) :
    (payloadDeobfuscate data flags headerKf kf).length = data.length := by
  simp only [payloadDeobfuscate]
  split <;> split <;> split <;> simp

/-- The payload transforms are bijections: the chain and its reverse undo each other for every
combination of flags, the two swap chains are inverse permutations of positions that do not depend
on the bytes, and the mask is an involution that depends on the key and the length alone. -/
theorem payload_bijective :
    (∀ (data : List UInt8) (flags : PayloadFlags) (headerKf kf : UInt32), data.length < 2 ^ 32 →
      payloadDeobfuscate (payloadObfuscate data flags headerKf kf) flags headerKf kf = data ∧
        payloadObfuscate (payloadDeobfuscate data flags headerKf kf) flags headerKf kf = data) ∧
    (∀ (n : ℕ) (key : UInt32), n < 2 ^ 32 → ∃ σ : Equiv.Perm (Fin n),
      ∀ data : List UInt8, data.length = n →
        (shuffle data key).length = n ∧ (unshuffle data key).length = n ∧
          ∀ k : Fin n, (shuffle data key)[k.val]? = data[(σ k).val]? ∧
            (unshuffle data key)[k.val]? = data[(σ.symm k).val]?) ∧
    ∀ (data : List UInt8) (kf : UInt32),
      maskedXorRandomNext (maskedXorRandomNext data kf) kf = data ∧
        (keyMask kf data.length).length = data.length ∧
        maskedXorRandomNext data kf = xorBytes data (keyMask kf data.length) := by
  refine ⟨?_, ?_, ?_⟩
  · intro data flags headerKf kf _
    exact ⟨payloadDeobfuscate_obfuscate data flags headerKf kf,
      payloadObfuscate_deobfuscate data flags headerKf kf⟩
  · intro n key hn
    refine ⟨shufflePerm n key, fun data hd => ⟨by simpa using hd, by simpa using hd, fun k => ?_⟩⟩
    exact ⟨shuffle_getElem? hn key hd k, unshuffle_getElem? hn key hd k⟩
  · intro data kf
    exact ⟨maskedXor_maskedXor data kf, keyMask_length kf data.length,
      maskedXor_eq_xorBytes data kf⟩

/-- Five bytes through every transform and back. -/
theorem payload_bijective_five :
    payloadDeobfuscate (payloadObfuscate [1, 2, 3, 4, 5] .safest 7 154543927) .safest 7 154543927 =
      [1, 2, 3, 4, 5] :=
  (payload_bijective.1 [1, 2, 3, 4, 5] .safest 7 154543927 (by decide)).1

end Nextppp

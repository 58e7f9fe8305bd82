/-
**The session ciphers of `crypto/cipher.rs`.**

Key derivation, the per-packet nonce, the hand-rolled CFB and CTR modes on top of a block function,
and `SessionCipher` itself.  What is not under `src/` — HKDF-SHA256, the AES block functions and
the ChaCha20 keystream — is a parameter: an arbitrary deterministic function of its arguments,
collected in `Nextppp.Primitives`.

The batched modes are the loops of the source, eight blocks at a time.  The CTR loop also returns
the counter blocks it handed to the block function, a ghost result that the statements about
keystream reuse need and that the ciphertext does not depend on.

Main definitions:

* `Nextppp.deriveMaterial`, `Nextppp.SessionCipher.derive`, `Nextppp.SessionCipher.nextNonce`,
  `Nextppp.SessionCipher.apply`;
* `Nextppp.cfbEncrypt`, `Nextppp.cfbDecrypt`, `Nextppp.ctrApply`;
* `Nextppp.SessionCipher.Mirror` — an encrypting and a decrypting instance with the same key, nonce
  base and counter.

Main results:

* `Nextppp.kdf_inputs_separated` — the inputs of the key derivation tell the layers, the methods and
  the values of `ivv` apart;
* `Nextppp.cfbDecryptLoop_eq_serial` — the batched decryption is the serial one;
* `Nextppp.cfbDecrypt_cfbEncrypt`, `Nextppp.ctrApply_ctrApply` — the modes are inverted;
* `Nextppp.ctrLoop_eq` — the counter blocks are consecutive and the output is the data masked with
  their images;
* `Nextppp.SessionCipher.Mirror.apply` — a mirrored instance undoes one packet and stays mirrored.
-/

import Nextppp.Core.Basic

set_option relaxedAutoImplicit false
set_option autoImplicit false

namespace Nextppp

open ListLib Numeral

/-! ### Blocks and byte orders -/

/-- A 16-byte block. -/
abbrev Block := Vector UInt8 16

/-- The first 16 bytes of a string as a block. -/
def toBlock (l : List UInt8) : Block := Vector.ofFn fun i => l.getD i 0

theorem toList_toBlock {l : List UInt8} (h : l.length = 16) : (toBlock l).toList = l := by
  rw [toBlock, Vector.toList_ofFn]
  refine List.ext_getElem (by simp [h]) ?_
  intro i h₁ h₂
  rw [List.getElem_ofFn, List.getD_eq_getElem _ _ h₂]

/-- A byte string as a big-endian number. -/
def beValue (l : List UInt8) : ℕ := value 256 (l.map UInt8.toNat)

/-- The `k` low bytes of a number, high byte first. -/
def beBytes (k v : ℕ) : List UInt8 := (fixedDigits 256 k v).map UInt8.ofNat

@[simp] theorem beBytes_length (k v : ℕ) : (beBytes k v).length = k := by simp [beBytes]

theorem beValue_beBytes (k v : ℕ) : beValue (beBytes k v) = v % 256 ^ k := by
  have hmap : (beBytes k v).map UInt8.toNat = fixedDigits 256 k v := by
    rw [beBytes, List.map_map]
    conv => rhs; rw [← List.map_id (fixedDigits 256 k v)]
    refine List.map_congr_left fun d hd => ?_
    have hlt := fixedDigits_lt (by decide : 0 < 256) k v d hd
    simpa using UInt8.toNat_ofNat_of_lt' (n := d) (by simpa [UInt8.size] using hlt)
  rw [beValue, hmap, value_fixedDigits]

theorem beValue_lt (l : List UInt8) : beValue l < 256 ^ l.length := by
  have h := value_lt (b := 256) (l.map UInt8.toNat) (by
    intro d hd
    obtain ⟨x, _, rfl⟩ := List.mem_map.1 hd
    exact x.toNat_lt)
  simpa [beValue] using h

theorem beValue_append (l m : List UInt8) :
    beValue (l ++ m) = beValue l * 256 ^ m.length + beValue m := by
  simp [beValue, value_append]

/-- Exclusive-or of two strings of one length is exclusive-or of their values. -/
theorem beValue_xorBytes {a b : List UInt8} (h : a.length = b.length) :
    beValue (xorBytes a b) = beValue a ^^^ beValue b := by
  induction a using List.reverseRecOn generalizing b with
  | nil => simp [List.length_eq_zero_iff.1 h.symm, beValue]
  | append_singleton a x ih =>
      obtain ⟨b, y, rfl⟩ : ∃ b' y, b = b' ++ [y] := by
        refine ⟨b.dropLast, b.getLast (List.ne_nil_of_length_pos (by rw [← h]; simp)), ?_⟩
        exact (List.dropLast_concat_getLast _).symm
      have hab : a.length = b.length := by simpa using h
      have hx : x.toNat < 256 := x.toNat_lt
      have hy : y.toNat < 256 := y.toNat_lt
      have hxy : x.toNat ^^^ y.toNat < 2 ^ 8 := Nat.xor_lt_two_pow hx hy
      have hone : ∀ z : UInt8, beValue [z] = z.toNat := fun z => by simp [beValue, value]
      rw [xorBytes_append hab, beValue_append, beValue_append, beValue_append, ih hab]
      simp only [xorBytes_cons, xorBytes_nil_left, hone, List.length_singleton, pow_one,
        UInt8.toNat_xor]
      have hdiv : ((beValue a * 256 + x.toNat) ^^^ (beValue b * 256 + y.toNat)) / 2 ^ 8
          = beValue a ^^^ beValue b := by
        rw [Nat.xor_div_two_pow]; congr 1 <;> omega
      have hmod : ((beValue a * 256 + x.toNat) ^^^ (beValue b * 256 + y.toNat)) % 2 ^ 8
          = x.toNat ^^^ y.toNat := by
        rw [Nat.xor_mod_two_pow]; congr 1 <;> omega
      omega

/-- `u128::from_be_bytes`. -/
def fromBeBytes (b : Block) : U128 := BitVec.ofNat 128 (beValue b.toList)

/-- `u128::to_be_bytes`. -/
def toBeBytes (v : U128) : Block := toBlock (beBytes 16 v.toNat)

theorem fromBeBytes_toBeBytes (v : U128) : fromBeBytes (toBeBytes v) = v := by
  rw [fromBeBytes, toBeBytes, toList_toBlock (by simp), beValue_beBytes]
  refine BitVec.eq_of_toNat_eq ?_
  have hv : v.toNat < 2 ^ 128 := v.isLt
  rw [BitVec.toNat_ofNat, show (256 : ℕ) ^ 16 = 2 ^ 128 by norm_num, Nat.mod_mod,
    Nat.mod_eq_of_lt hv]

theorem toBeBytes_injective : Function.Injective toBeBytes :=
  Function.LeftInverse.injective fromBeBytes_toBeBytes

/-! ### The primitives that are not part of the source -/

/-- The third-party primitives: arbitrary deterministic functions of their arguments. -/
structure Primitives where
  /-- HKDF-SHA256 with a 48-byte output: salt, input key material, info. -/
  hkdf : List UInt8 → List UInt8 → List UInt8 → Vector UInt8 48
  /-- The AES-128 block function under a key. -/
  aes128 : Vector UInt8 16 → Block → Block
  /-- The AES-256 block function under a key. -/
  aes256 : Vector UInt8 32 → Block → Block
  /-- Byte `p` of the ChaCha20 keystream of a key and a 12-byte nonce. -/
  chaCha20 : Vector UInt8 32 → Vector UInt8 12 → ℕ → UInt8

/-- A small executable instance, for running the model on concrete inputs. -/
def Primitives.sample : Primitives where
  hkdf salt ikm info := Vector.ofFn fun i =>
    (salt ++ ikm ++ info).foldl (fun a b => a * 31 + b) (UInt8.ofNat (i.val + 7))
  aes128 key b := Vector.ofFn fun i => b.get i * 5 + key.get i
  aes256 key b := Vector.ofFn fun i => b.get i * 3 + key.get ⟨i, by omega⟩ + key.get ⟨i + 16, by omega⟩
  chaCha20 key nonce p :=
    key.get ⟨p % 32, Nat.mod_lt _ (by decide)⟩ + nonce.get ⟨p % 12, Nat.mod_lt _ (by decide)⟩ +
      UInt8.ofNat p

/-! ### Key derivation -/

/-- The lowercase base-32 digits. -/
def base32Alphabet : List Char := "0123456789abcdefghijklmnopqrstuv".toList

/-- Lowercase base-32 numeral of a 128-bit value, at most 26 digits. -/
def encodeBase32 (v : U128) : List UInt8 :=
  (digitsLoop 32 26 v.toNat).reverse.map fun d => (base32Alphabet.getD d '0').toUInt8

/-- The UTF-8 bytes of a string. -/
def strBytes (s : String) : List UInt8 := s.toUTF8.data.toList

/-- The input key material: the password seasoned with the `ivv`. -/
def keyMaterial (password : String) (ivv : Option U128) : List UInt8 :=
  match ivv with
  | none => strBytes password
  | some ivv =>
      strBytes password ++ (if ivv > 0 then [0x2b] else []) ++ encodeBase32 ivv

/-- The salt mixes the layer and the method. -/
def kdfSalt (role : CipherRole) (method : Method) : List UInt8 :=
  strBytes ("nextppp/" ++ role.name ++ "/" ++ method.name)

/-- The derived key and the base nonce. -/
def deriveMaterial (P : Primitives) (role : CipherRole) (method : Method) (password : String)
    (ivv : Option U128) : Vector UInt8 32 × Block :=
  let okm := P.hkdf (kdfSalt role method) (keyMaterial password ivv)
    (strBytes "nextppp-session-key")
  (Vector.ofFn fun i => okm.get ⟨i, by omega⟩, Vector.ofFn fun i => okm.get ⟨32 + i, by omega⟩)

/-! ### Separation of the derived keys -/

/-- The loop of `encode_base32` on a buffer with `room` bytes left, low digit first; `none` is the
panic of a write behind the end of the buffer. -/
def base32Loop : ℕ → U128 → Option (List UInt8)
  | 0, _ => none
  | room + 1, v =>
      let c := (base32Alphabet.getD (v &&& 31).toNat '0').toUInt8
      if v >>> 5 = 0 then some [c] else (base32Loop room (v >>> 5)).map (c :: ·)

/-- `encode_base32` on a buffer of `room` bytes. -/
def encodeBase32Into (room : ℕ) (v : U128) : Option (List UInt8) :=
  (base32Loop room v).map List.reverse

/-- The digit of `v`, and what is left of it, as a remainder and a quotient. -/
theorem base32_digit (v : U128) : (v &&& 31).toNat = v.toNat % 32 ∧ (v >>> 5).toNat = v.toNat / 32 := by
  constructor
  · rw [BitVec.toNat_and]
    exact Nat.and_two_pow_sub_one_eq_mod v.toNat 5
  · rw [BitVec.toNat_ushiftRight, Nat.shiftRight_eq_div_pow]

/-- With room for the digits of `v` the loop never writes behind the end of the buffer. -/
theorem base32Loop_eq {room : ℕ} {v : U128} (hv : v.toNat < 32 ^ (room + 1)) :
    base32Loop (room + 1) v =
      some ((digitsLoop 32 (room + 1) v.toNat).map fun d => (base32Alphabet.getD d '0').toUInt8) := by
  obtain ⟨hmod, hdiv⟩ := base32_digit v
  have hzero : v >>> 5 = 0 ↔ v.toNat / 32 = 0 := by
    rw [← hdiv]
    exact BitVec.toNat_eq
  induction room generalizing v with
  | zero =>
      have : v.toNat / 32 = 0 := by omega
      rw [base32Loop, if_pos (hzero.2 this), digitsLoop_succ, if_pos this, hmod]
      rfl
  | succ room ih =>
      rw [base32Loop, digitsLoop_succ, hmod]
      by_cases h : v.toNat / 32 = 0
      · rw [if_pos (hzero.2 h), if_pos h]
        rfl
      · have hlt : (v >>> 5).toNat < 32 ^ (room + 1) := by
          rw [hdiv]
          exact Nat.div_lt_of_lt_mul (by rwa [pow_succ'] at hv)
        obtain ⟨hmod', hdiv'⟩ := base32_digit (v >>> 5)
        rw [if_neg (fun hz => h (hzero.1 hz)), if_neg h,
          ih hlt hmod' hdiv' (by rw [← hdiv']; exact BitVec.toNat_eq), hdiv]
        rfl

theorem toNat_lt_base32 (v : U128) : v.toNat < 32 ^ 26 :=
  v.isLt.trans (by norm_num)

/-- The numeral fits in the buffer of 26 bytes that `derive_material` passes. -/
theorem encodeBase32Into_eq (v : U128) : encodeBase32Into 26 v = some (encodeBase32 v) := by
  have hloop := base32Loop_eq (toNat_lt_base32 v)
  rw [encodeBase32Into, hloop, encodeBase32, List.map_reverse]
  rfl

theorem encodeBase32_length_le (v : U128) : (encodeBase32 v).length ≤ 26 := by
  rw [encodeBase32, List.length_map, List.length_reverse]
  exact digitsLoop_length_le_fuel 32 26 v.toNat

/-- The digit of a character of the alphabet. -/
def base32Digit (c : UInt8) : ℕ := base32Alphabet.findIdx (·.toUInt8 == c)

theorem base32Digit_alphabet : ∀ d < 32, base32Digit (base32Alphabet.getD d '0').toUInt8 = d := by
  decide

theorem map_base32Digit (v : U128) :
    (encodeBase32 v).map base32Digit = (digitsLoop 32 26 v.toNat).reverse := by
  rw [encodeBase32, List.map_map]
  conv => rhs; rw [← List.map_id (digitsLoop 32 26 v.toNat).reverse]
  refine List.map_congr_left fun d hd => ?_
  exact base32Digit_alphabet d (digitsLoop_lt (by decide) 26 v.toNat d (List.mem_reverse.1 hd))

/-- Different values have different numerals: the digits read back give the value. -/
theorem encodeBase32_injective : Function.Injective encodeBase32 := by
  intro v w h
  apply BitVec.eq_of_toNat_eq
  rw [← value_digitsLoop (toNat_lt_base32 v), ← value_digitsLoop (toNat_lt_base32 w),
    ← map_base32Digit, ← map_base32Digit, h]

/-- No leading zero, except in the numeral of zero. -/
theorem encodeBase32_head? {v : U128} (h : (encodeBase32 v).head? = some 0x30) : v = 0 := by
  have hdigit : ((encodeBase32 v).map base32Digit).head? = some 0 := by
    rw [List.head?_map, h]
    rfl
  rw [map_base32Digit, List.head?_reverse] at hdigit
  exact BitVec.eq_of_toNat_eq (digitsLoop_getLast? (toNat_lt_base32 v) hdigit)

theorem encodeBase32_ne_nil (v : U128) : encodeBase32 v ≠ [] := by
  rw [← List.length_pos_iff, encodeBase32, List.length_map, List.length_reverse]
  exact digitsLoop_length_pos (by decide) 32 v.toNat

/-- The `ivv` can be read off the key material: nothing, a bare zero, or a `+` and a numeral. -/
theorem keyMaterial_injective (password : String) : Function.Injective (keyMaterial password) := by
  have hplus : ∀ v : U128, (0x2b :: encodeBase32 v) ≠ encodeBase32 0 := by
    intro v h
    have hhead : some 0x2b = (encodeBase32 0).head? := congrArg List.head? h
    exact absurd hhead (by decide)
  intro ivv ivv' h
  match ivv, ivv' with
  | none, none => rfl
  | none, some v => simp [keyMaterial, encodeBase32_ne_nil] at h
  | some v, none => simp [keyMaterial, encodeBase32_ne_nil] at h
  | some v, some w =>
      simp only [keyMaterial, List.append_assoc, List.append_cancel_left_eq] at h
      have hzero : ∀ u : U128, ¬u > 0 → u = 0 := fun u hu => BitVec.le_zero_iff.1 (BitVec.not_lt.1 hu)
      by_cases hv : v > 0
      · by_cases hw : w > 0
        · rw [if_pos hv, if_pos hw] at h
          exact congrArg some (encodeBase32_injective (List.cons_injective h))
        · rw [if_pos hv, if_neg hw, hzero w hw] at h
          exact absurd h (hplus v)
      · by_cases hw : w > 0
        · rw [if_neg hv, if_pos hw, hzero v hv] at h
          exact absurd h.symm (hplus w)
        · rw [hzero v hv, hzero w hw]

theorem kdfSalt_injective {role role' : CipherRole} {method method' : Method}
    (h : kdfSalt role method = kdfSalt role' method') : role = role' ∧ method = method' := by
  cases role <;> cases role' <;> cases method <;> cases method' <;>
    first
    | exact ⟨rfl, rfl⟩
    | exact absurd h (by decide)

/-- The inputs of the key derivation are domain-separated: for a fixed password the salt and the key
material determine the layer, the method and the `ivv`, and the base-32 numeral inside always fits
in its buffer, has no leading zero and determines its value. -/
theorem kdf_inputs_separated (password : String) :
    Function.Injective (fun x : CipherRole × Method × Option U128 =>
      (kdfSalt x.1 x.2.1, keyMaterial password x.2.2)) ∧
    (∀ role role' method method', (role, method) ≠ (role', method') →
      kdfSalt role method ≠ kdfSalt role' method') ∧
    Function.Injective (keyMaterial password) ∧
    (∀ v : U128, encodeBase32Into 26 v = some (encodeBase32 v) ∧ (encodeBase32 v).length ≤ 26 ∧
      ((encodeBase32 v).head? = some 0x30 ↔ v = 0)) ∧
    Function.Injective encodeBase32 := by
  have hmat := keyMaterial_injective password
  refine ⟨?_, ?_, hmat, ?_, encodeBase32_injective⟩
  · rintro ⟨role, method, ivv⟩ ⟨role', method', ivv'⟩ h
    obtain ⟨hsalt, hikm⟩ := Prod.mk.inj h
    obtain ⟨hrole, hmethod⟩ : role = role' ∧ method = method' := kdfSalt_injective hsalt
    have hivv : ivv = ivv' := hmat hikm
    rw [hrole, hmethod, hivv]
  · intro role role' method method' hne h
    obtain ⟨rfl, rfl⟩ := kdfSalt_injective h
    exact hne rfl
  · intro v
    refine ⟨encodeBase32Into_eq v, encodeBase32_length_le v, encodeBase32_head?, ?_⟩
    rintro rfl
    rfl

/-! ### The CFB mode -/

/-- Keystream prefix for the tail shorter than a block. -/
def xorTail (E : Block → Block) (feedback : Block) (rem : List UInt8) : List UInt8 :=
  if rem.isEmpty then [] else xorBytes rem (E feedback).toList

/-- Serial CFB encryption of full blocks: the ciphertext and the last feedback block. -/
def cfbEncryptBlocks (E : Block → Block) (fb : Block) : List (List UInt8) → List UInt8 × Block
  | [] => ([], fb)
  | c :: cs =>
      let ct := xorBytes c (E fb).toList
      let r := cfbEncryptBlocks E (toBlock ct) cs
      (ct ++ r.1, r.2)

/-- CFB encryption. -/
def cfbEncrypt (E : Block → Block) (iv : Block) (data : List UInt8) : List UInt8 :=
  let r := cfbEncryptBlocks E iv (asChunks 16 data).1
  r.1 ++ xorTail E r.2 (asChunks 16 data).2

/-- CFB decryption of full blocks, in batches of eight: within a batch the keystream blocks are
the images of the previous ciphertext block and of the batch's own ciphertext blocks but the
last, which seeds the next batch. -/
def cfbDecryptLoop (E : Block → Block) :
    ℕ → Block → List (List UInt8) → List UInt8 × Block
  | 0, prev, _ => ([], prev)
  | fuel + 1, prev, blocks =>
      if blocks.isEmpty then ([], prev)
      else
        let batch := blocks.take 8
        let lastCt := toBlock (batch.getLastD [])
        let ks := prev :: batch.dropLast.map toBlock
        let out := List.zipWith (fun c k => xorBytes c (E k).toList) batch ks
        let r := cfbDecryptLoop E fuel lastCt (blocks.drop 8)
        (out.flatten ++ r.1, r.2)

/-- CFB decryption. -/
def cfbDecrypt (E : Block → Block) (iv : Block) (data : List UInt8) : List UInt8 :=
  let blocks := (asChunks 16 data).1
  let r := cfbDecryptLoop E blocks.length iv blocks
  r.1 ++ xorTail E r.2 (asChunks 16 data).2

/-- AES-CFB128 in either direction. -/
def cfbApply (E : Block → Block) (iv : Block) (data : List UInt8) (encrypting : Bool) :
    List UInt8 :=
  if encrypting then cfbEncrypt E iv data else cfbDecrypt E iv data

/-- Serial CFB decryption of full blocks. -/
def cfbDecryptSerial (E : Block → Block) (prev : Block) : List (List UInt8) → List UInt8 × Block
  | [] => ([], prev)
  | c :: cs =>
      let r := cfbDecryptSerial E (toBlock c) cs
      (xorBytes c (E prev).toList ++ r.1, r.2)

theorem cfbDecryptSerial_append (E : Block → Block) (prev : Block) (a b : List (List UInt8)) :
    cfbDecryptSerial E prev (a ++ b) =
      ((cfbDecryptSerial E prev a).1 ++ (cfbDecryptSerial E (cfbDecryptSerial E prev a).2 b).1,
        (cfbDecryptSerial E (cfbDecryptSerial E prev a).2 b).2) := by
  induction a generalizing prev with
  | nil => simp [cfbDecryptSerial]
  | cons c a ih => simp [cfbDecryptSerial, ih]

/-- One batch of the loop is a stretch of the serial decryption. -/
theorem cfbDecryptSerial_batch (E : Block → Block) (prev : Block) (c : List UInt8)
    (cs : List (List UInt8)) :
    cfbDecryptSerial E prev (c :: cs) =
      ((List.zipWith (fun c k => xorBytes c (E k).toList) (c :: cs)
          (prev :: (c :: cs).dropLast.map toBlock)).flatten,
        toBlock ((c :: cs).getLastD [])) := by
  induction cs generalizing prev c with
  | nil => simp [cfbDecryptSerial]
  | cons d ds ih =>
      rw [cfbDecryptSerial, ih (toBlock c) d]
      simp

/-- The batched decryption is the serial one. -/
theorem cfbDecryptLoop_eq_serial (E : Block → Block) (fuel : ℕ) (prev : Block)
    (blocks : List (List UInt8)) (h : blocks.length ≤ fuel) :
    cfbDecryptLoop E fuel prev blocks = cfbDecryptSerial E prev blocks := by
  induction fuel generalizing prev blocks with
  | zero =>
      rw [List.length_eq_zero_iff.1 (Nat.le_zero.1 h)]
      rfl
  | succ fuel ih =>
      cases blocks with
      | nil => rfl
      | cons c cs =>
          have hbatch : (c :: cs).take 8 = c :: cs.take 7 := rfl
          have hcut : c :: cs = (c :: cs.take 7) ++ (c :: cs).drop 8 :=
            (List.take_append_drop 8 (c :: cs)).symm
          conv => rhs; rw [hcut, cfbDecryptSerial_append, cfbDecryptSerial_batch]
          have hrest : ((c :: cs).drop 8).length ≤ fuel := by
            simp only [List.length_drop, List.length_cons] at h ⊢
            omega
          rw [cfbDecryptLoop, if_neg (by simp), hbatch]
          dsimp only
          rw [ih _ _ hrest]

theorem xorTail_xorTail (E : Block → Block) (fb : Block) {rem : List UInt8} (h : rem.length ≤ 16) :
    xorTail E fb (xorTail E fb rem) = rem := by
  cases rem with
  | nil => rfl
  | cons x rem =>
      have hlen : (x :: rem).length ≤ (E fb).toList.length := by simpa using h
      have hne : (xorBytes (x :: rem) (E fb).toList).isEmpty = false := by
        rw [List.isEmpty_eq_false_iff_exists_mem]
        exact ⟨_, List.getElem_mem (n := 0) (by rw [xorBytes_length_of_le hlen]; simp)⟩
      simp only [xorTail, List.isEmpty_cons, hne, Bool.false_eq_true, if_false]
      exact xorBytes_cancel hlen

@[simp] theorem xorTail_length (E : Block → Block) (fb : Block) {rem : List UInt8}
    (h : rem.length ≤ 16) : (xorTail E fb rem).length = rem.length := by
  cases rem with
  | nil => rfl
  | cons x rem =>
      rw [xorTail, if_neg (by simp)]
      exact xorBytes_length_of_le (by simpa using h)

/-- Decryption recovers the blocks, and its chunks are the ciphertext blocks of encryption. -/
theorem cfb_blocks_inverse (E : Block → Block) (fb : Block) (cs : List (List UInt8))
    (h : ∀ c ∈ cs, c.length = 16) (tail : List UInt8) (ht : tail.length < 16) :
    ∃ cts : List (List UInt8),
      asChunks 16 ((cfbEncryptBlocks E fb cs).1 ++ tail) = (cts, tail) ∧
      cfbDecryptSerial E fb cts = (cs.flatten, (cfbEncryptBlocks E fb cs).2) := by
  induction cs generalizing fb with
  | nil => exact ⟨[], by simp [cfbEncryptBlocks, asChunks_of_lt ht], rfl⟩
  | cons c cs ih =>
      have hc : c.length = 16 := h c (by simp)
      have hlen : (xorBytes c (E fb).toList).length = 16 := by
        rw [xorBytes_length_of_le (by simp [hc]), hc]
      obtain ⟨cts, hch, hdec⟩ := ih (toBlock (xorBytes c (E fb).toList))
        fun d hd => h d (by simp [hd])
      refine ⟨xorBytes c (E fb).toList :: cts, ?_, ?_⟩
      · rw [cfbEncryptBlocks, List.append_assoc, asChunks_append (by decide) hlen, hch]
      · rw [cfbDecryptSerial, hdec, xorBytes_cancel (by simp [hc])]
        rfl

/-- CFB decryption inverts CFB encryption. -/
theorem cfbDecrypt_cfbEncrypt (E : Block → Block) (iv : Block) (data : List UInt8) :
    cfbDecrypt E iv (cfbEncrypt E iv data) = data := by
  obtain ⟨hch, htl⟩ := asChunks_length (n := 16) (by decide) data
  have htl' : (xorTail E (cfbEncryptBlocks E iv (asChunks 16 data).1).2
      (asChunks 16 data).2).length < 16 := by rw [xorTail_length _ _ htl.le]; exact htl
  obtain ⟨cts, hcut, hdec⟩ := cfb_blocks_inverse E iv _ hch _ htl'
  rw [cfbDecrypt, cfbEncrypt, hcut, cfbDecryptLoop_eq_serial _ _ _ _ le_rfl, hdec,
    xorTail_xorTail _ _ htl.le]
  exact asChunks_flatten (by decide) data

theorem cfbEncryptBlocks_length (E : Block → Block) (fb : Block) (cs : List (List UInt8))
    (h : ∀ c ∈ cs, c.length = 16) :
    (cfbEncryptBlocks E fb cs).1.length = cs.flatten.length := by
  induction cs generalizing fb with
  | nil => rfl
  | cons c cs ih =>
      rw [cfbEncryptBlocks, List.length_append, ih _ fun d hd => h d (by simp [hd]),
        xorBytes_length_of_le (by simp [h c (by simp)]), List.flatten_cons, List.length_append]

@[simp] theorem cfbEncrypt_length (E : Block → Block) (iv : Block) (data : List UInt8) :
    (cfbEncrypt E iv data).length = data.length := by
  obtain ⟨hch, htl⟩ := asChunks_length (n := 16) (by decide) data
  conv => rhs; rw [← asChunks_flatten (n := 16) (by decide) data]
  rw [cfbEncrypt, List.length_append, List.length_append, cfbEncryptBlocks_length _ _ _ hch,
    xorTail_length _ _ htl.le]

theorem cfbDecryptSerial_length (E : Block → Block) (fb : Block) (cs : List (List UInt8))
    (h : ∀ c ∈ cs, c.length = 16) :
    (cfbDecryptSerial E fb cs).1.length = cs.flatten.length := by
  induction cs generalizing fb with
  | nil => rfl
  | cons c cs ih =>
      rw [cfbDecryptSerial, List.length_append, ih _ fun d hd => h d (by simp [hd]),
        xorBytes_length_of_le (by simp [h c (by simp)]), List.flatten_cons, List.length_append]

@[simp] theorem cfbDecrypt_length (E : Block → Block) (iv : Block) (data : List UInt8) :
    (cfbDecrypt E iv data).length = data.length := by
  obtain ⟨hch, htl⟩ := asChunks_length (n := 16) (by decide) data
  conv => rhs; rw [← asChunks_flatten (n := 16) (by decide) data]
  rw [cfbDecrypt, List.length_append, List.length_append,
    cfbDecryptLoop_eq_serial _ _ _ _ le_rfl, cfbDecryptSerial_length _ _ _ hch,
    xorTail_length _ _ htl.le]

/-! ### The CTR mode -/

/-- The CTR loop, eight counter blocks per round: the output, and the counter blocks handed to the
block function. -/
def ctrLoop (E : Block → Block) : ℕ → U128 → List UInt8 → List UInt8 × List Block
  | 0, _, _ => ([], [])
  | fuel + 1, counter, data =>
      if data.isEmpty then ([], [])
      else
        let take := min data.length 128
        let n := (take + 15) / 16
        let ks := (List.range n).map fun k => toBeBytes (counter + BitVec.ofNat 128 k)
        let r := ctrLoop E fuel (counter + BitVec.ofNat 128 n) (data.drop take)
        (xorBytes (data.take take) (ks.flatMap fun b => (E b).toList) ++ r.1, ks ++ r.2)

/-- AES-CTR. -/
def ctrApply (E : Block → Block) (iv : Block) (data : List UInt8) : List UInt8 :=
  (ctrLoop E data.length (fromBeBytes iv) data).1

/-- The counter blocks that `ctrApply` hands to the block function. -/
def ctrBlocks (E : Block → Block) (iv : Block) (data : List UInt8) : List Block :=
  (ctrLoop E data.length (fromBeBytes iv) data).2

/-- `n` consecutive counter blocks. -/
def counterRun (counter : U128) (n : ℕ) : List Block :=
  (List.range n).map fun k => toBeBytes (counter + BitVec.ofNat 128 k)

@[simp] theorem counterRun_length (counter : U128) (n : ℕ) : (counterRun counter n).length = n := by
  simp [counterRun]

theorem counterRun_add (counter : U128) (m n : ℕ) :
    counterRun counter (m + n)
      = counterRun counter m ++ counterRun (counter + BitVec.ofNat 128 m) n := by
  have hshift : ∀ k, counter + BitVec.ofNat 128 (m + k)
      = counter + BitVec.ofNat 128 m + BitVec.ofNat 128 k := by
    intro k
    rw [BitVec.ofNat_add, BitVec.add_assoc]
  simp only [counterRun, List.range_add, List.map_append, List.map_map, Function.comp_def, hshift]

theorem keystream_length (E : Block → Block) (bs : List Block) :
    (bs.flatMap fun b => (E b).toList).length = 16 * bs.length := by
  induction bs with
  | nil => rfl
  | cons b bs ih => rw [List.flatMap_cons, List.length_append, ih]; simp; omega

/-- The counter blocks are consecutive, one for every started block of data, and the output is
the data masked with their images. -/
theorem ctrLoop_eq (E : Block → Block) (fuel : ℕ) (counter : U128) (data : List UInt8)
    (h : data.length ≤ fuel) :
    ctrLoop E fuel counter data =
      (xorBytes data ((counterRun counter ((data.length + 15) / 16)).flatMap fun b => (E b).toList),
        counterRun counter ((data.length + 15) / 16)) := by
  induction fuel generalizing counter data with
  | zero =>
      rw [List.length_eq_zero_iff.1 (Nat.le_zero.1 h)]
      rfl
  | succ fuel ih =>
      by_cases hd : data = []
      · subst hd; rfl
      have hpos : 0 < data.length := List.length_pos_iff.2 hd
      have hrest : (data.drop (min data.length 128)).length ≤ fuel := by
        rw [List.length_drop]; omega
      rw [ctrLoop, if_neg (by simpa using hd)]
      dsimp only
      rw [ih _ _ hrest]
      set t := min data.length 128 with ht
      -- a partial batch leaves nothing behind; a full one holds exactly eight blocks
      have hsplit : (data.length + 15) / 16
          = (t + 15) / 16 + ((data.drop t).length + 15) / 16 := by
        rw [List.length_drop]; omega
      have hcov : (data.take t).length
          ≤ ((counterRun counter ((t + 15) / 16)).flatMap fun b => (E b).toList).length := by
        rw [keystream_length, counterRun_length, List.length_take]; omega
      rw [hsplit, counterRun_add]
      refine Prod.ext ?_ rfl
      rw [List.flatMap_append]
      by_cases hfull : 128 < data.length
      · have hexact : (data.take t).length
            = ((counterRun counter ((t + 15) / 16)).flatMap fun b => (E b).toList).length := by
          rw [keystream_length, counterRun_length, List.length_take]; omega
        have hcut := xorBytes_append (b := data.drop t)
          (d := (counterRun (counter + BitVec.ofNat 128 ((t + 15) / 16))
            (((data.drop t).length + 15) / 16)).flatMap fun b => (E b).toList) hexact
        rw [List.take_append_drop] at hcut
        exact hcut.symm
      · have hnil : data.drop t = [] := List.drop_eq_nil_of_le (by omega)
        have hall : data.take t = data := List.take_of_length_le (by omega)
        rw [hnil, hall]
        rw [hall] at hcov
        rw [xorBytes_append_right _ hcov]
        simp [counterRun]

theorem ctrBlocks_eq (E : Block → Block) (iv : Block) (data : List UInt8) :
    ctrBlocks E iv data = counterRun (fromBeBytes iv) ((data.length + 15) / 16) := by
  rw [ctrBlocks, ctrLoop_eq _ _ _ _ le_rfl]

theorem ctrApply_eq (E : Block → Block) (iv : Block) (data : List UInt8) :
    ctrApply E iv data = xorBytes data ((ctrBlocks E iv data).flatMap fun b => (E b).toList) := by
  rw [ctrApply, ctrBlocks_eq, ctrLoop_eq _ _ _ _ le_rfl]

theorem ctr_keystream_covers (E : Block → Block) (iv : Block) (data : List UInt8) :
    data.length ≤ ((ctrBlocks E iv data).flatMap fun b => (E b).toList).length := by
  rw [keystream_length, ctrBlocks_eq, counterRun_length]; omega

@[simp] theorem ctrApply_length (E : Block → Block) (iv : Block) (data : List UInt8) :
    (ctrApply E iv data).length = data.length := by
  rw [ctrApply_eq, xorBytes_length_of_le (ctr_keystream_covers E iv data)]

/-- CTR is its own inverse. -/
theorem ctrApply_ctrApply (E : Block → Block) (iv : Block) (data : List UInt8) :
    ctrApply E iv (ctrApply E iv data) = data := by
  have hblocks : ctrBlocks E iv (ctrApply E iv data) = ctrBlocks E iv data := by
    rw [ctrBlocks_eq, ctrBlocks_eq, ctrApply_length]
  rw [ctrApply_eq, hblocks, ctrApply_eq, xorBytes_cancel (ctr_keystream_covers E iv data)]

/-! ### Session ciphers -/

/-- The keyed core of a cipher instance. -/
inductive CipherCore
  | aes128 (key : Vector UInt8 16)
  | aes256 (key : Vector UInt8 32)
  | chaCha (key : Vector UInt8 32)
  deriving DecidableEq

namespace CipherCore

/-- Whether the core belongs to the method. -/
def fits : CipherCore → Method → Bool
  | aes128 _, .aes128Cfb | aes128 _, .aes128Ctr => true
  | aes256 _, .aes256Cfb | aes256 _, .aes256Ctr => true
  | chaCha _, .chaCha20 => true
  | _, _ => false

/-- The key a method takes from the derived material. -/
def ofKey (method : Method) (key : Vector UInt8 32) : CipherCore :=
  match method with
  | .aes128Cfb | .aes128Ctr => aes128 (Vector.ofFn fun i => key.get ⟨i, by omega⟩)
  | .aes256Cfb | .aes256Ctr => aes256 key
  | .chaCha20 => chaCha key

theorem ofKey_fits (method : Method) (key : Vector UInt8 32) :
    (ofKey method key).fits method = true := by cases method <;> rfl

/-- The key bytes a core works with. -/
def keyBytes : CipherCore → List UInt8
  | aes128 key => key.toList
  | aes256 key => key.toList
  | chaCha key => key.toList

end CipherCore

/-- A one-directional session cipher.  The core is derived from the method, so the pairings the
source declares unreachable cannot be built. -/
structure SessionCipher where
  method : Method
  core : CipherCore
  baseIv : Block
  seq : U64
  encrypting : Bool
  core_fits : core.fits method = true

namespace SessionCipher

/-- A cipher derived from a password, seasoned with the per-connection `ivv`. -/
def derive (P : Primitives) (method : Method) (role : CipherRole) (password : String)
    (ivv : Option U128) : SessionCipher :=
  let m := deriveMaterial P role method password ivv
  { method := method
    core := CipherCore.ofKey method m.1
    baseIv := m.2
    seq := 0
    encrypting := true
    core_fits := CipherCore.ofKey_fits method m.1 }

/-- A cipher derived from the password alone. -/
def new (P : Primitives) (method : Method) (role : CipherRole) (password : String) :
    SessionCipher :=
  derive P method role password none

/-- The same instance, marked as the decrypting direction. -/
def forDecryption (c : SessionCipher) : SessionCipher := { c with encrypting := false }

/-- How many low bytes of the nonce the packet counter is mixed into. -/
def xorWidth (method : Method) : ℕ := if method = .chaCha20 then 4 else 8

/-- The nonce of packet `seq`: the counter, big-endian, mixed into the low bytes of the base. -/
def nonceAt (method : Method) (baseIv : Block) (seq : U64) : Block :=
  let w := xorWidth method
  let start := method.ivLen - w
  Vector.ofFn fun p =>
    if start ≤ p.val ∧ p.val < start + w then
      baseIv.get p ^^^ (beBytes 8 seq.toNat).getD (8 - w + (p.val - start)) 0
    else baseIv.get p

/-- The nonce for the current packet, and the instance with the counter advanced. -/
def nextNonce (c : SessionCipher) : Block × SessionCipher :=
  (nonceAt c.method c.baseIv c.seq, { c with seq := c.seq + 1 })

/-- The keystream work of one packet under a given nonce. -/
def applyNonce (P : Primitives) (c : SessionCipher) (nonce : Block) (data : List UInt8) :
    List UInt8 :=
  match c.method, c.core with
  | .aes128Cfb, .aes128 k => cfbApply (P.aes128 k) nonce data c.encrypting
  | .aes256Cfb, .aes256 k => cfbApply (P.aes256 k) nonce data c.encrypting
  | .aes128Ctr, .aes128 k => ctrApply (P.aes128 k) nonce data
  | .aes256Ctr, .aes256 k => ctrApply (P.aes256 k) nonce data
  | .chaCha20, .chaCha k =>
      let n12 : Vector UInt8 12 := Vector.ofFn fun i => nonce.get ⟨i, by omega⟩
      xorBytes data ((List.range data.length).map (P.chaCha20 k n12))
  -- excluded by `core_fits`
  | _, _ => data

/-- Encrypt, or decrypt for a `forDecryption` instance, one packet; consumes one nonce. -/
def apply (P : Primitives) (c : SessionCipher) (data : List UInt8) :
    List UInt8 × SessionCipher :=
  let n := c.nextNonce
  (applyNonce P c n.1 data, n.2)

@[simp] theorem apply_method (P : Primitives) (c : SessionCipher) (data : List UInt8) :
    (c.apply P data).2.method = c.method := rfl

@[simp] theorem apply_core (P : Primitives) (c : SessionCipher) (data : List UInt8) :
    (c.apply P data).2.core = c.core := rfl

@[simp] theorem apply_baseIv (P : Primitives) (c : SessionCipher) (data : List UInt8) :
    (c.apply P data).2.baseIv = c.baseIv := rfl

@[simp] theorem apply_seq (P : Primitives) (c : SessionCipher) (data : List UInt8) :
    (c.apply P data).2.seq = c.seq + 1 := rfl

@[simp] theorem apply_encrypting (P : Primitives) (c : SessionCipher) (data : List UInt8) :
    (c.apply P data).2.encrypting = c.encrypting := rfl

@[simp] theorem apply_length (P : Primitives) (c : SessionCipher) (data : List UInt8) :
    (c.apply P data).1.length = data.length := by
  simp only [apply, applyNonce]
  split
  all_goals first
    | rfl
    | exact ctrApply_length _ _ _
    | (simp only [cfbApply]; split <;> simp)
    | simp

/-- Two instances of one derivation, whatever packets each has processed. -/
structure SameKeying (c c' : SessionCipher) : Prop where
  method : c'.method = c.method
  core : c'.core = c.core
  baseIv : c'.baseIv = c.baseIv

theorem SameKeying.refl (c : SessionCipher) : SameKeying c c := ⟨rfl, rfl, rfl⟩

theorem SameKeying.trans {c₁ c₂ c₃ : SessionCipher} (h : SameKeying c₁ c₂) (h' : SameKeying c₂ c₃) :
    SameKeying c₁ c₃ :=
  ⟨h'.method.trans h.method, h'.core.trans h.core, h'.baseIv.trans h.baseIv⟩

/-- An encrypting and a decrypting instance with the same key, nonce base and counter. -/
structure Mirror (t r : SessionCipher) : Prop where
  method : r.method = t.method
  core : r.core = t.core
  baseIv : r.baseIv = t.baseIv
  seq : r.seq = t.seq
  enc : t.encrypting = true
  dec : r.encrypting = false

theorem mirror_derive (P : Primitives) (method : Method) (role : CipherRole) (password : String)
    (ivv : Option U128) :
    Mirror (derive P method role password ivv) (derive P method role password ivv).forDecryption :=
  ⟨rfl, rfl, rfl, rfl, rfl, rfl⟩

/-- Mirrored instances stay mirrored, whatever data each of them processes. -/
theorem Mirror.next {t r : SessionCipher} (h : Mirror t r) (P : Primitives)
    (d d' : List UInt8) : Mirror (t.apply P d).2 (r.apply P d').2 :=
  ⟨h.method, h.core, h.baseIv, by rw [apply_seq, apply_seq, h.seq], h.enc, h.dec⟩

/-- A mirrored instance undoes one packet. -/
theorem Mirror.apply {t r : SessionCipher} (h : Mirror t r) (P : Primitives) (d : List UInt8) :
    (r.apply P (t.apply P d).1).1 = d := by
  have hn : r.nextNonce.1 = t.nextNonce.1 := by
    simp only [nextNonce, h.method, h.baseIv, h.seq]
  simp only [SessionCipher.apply, hn, applyNonce, h.method, h.core, h.enc, h.dec, cfbApply]
  split
  · exact cfbDecrypt_cfbEncrypt _ _ _
  · exact cfbDecrypt_cfbEncrypt _ _ _
  · exact ctrApply_ctrApply _ _ _
  · exact ctrApply_ctrApply _ _ _
  · rw [xorBytes_length_of_le (by simp)]
    exact xorBytes_cancel (by simp)
  · rename_i hne
    split <;> simp_all

end SessionCipher

end Nextppp

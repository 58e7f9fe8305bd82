/-
**The hand-rolled modes of `crypto/cipher.rs` against their textbook definitions.**

The source runs CFB decryption and CTR in batches of eight blocks, in place over one buffer.  This
module states the two modes the way a textbook does and proves that the batched loops compute them
for every block function, every IV and every length.

CFB decryption is where working in place is delicate: a block is overwritten with plaintext while
the block behind it still needs the ciphertext as feedback.  `cfbDecryptInPlace` is the loop with
the buffer as its state: the feedback blocks are copied out of the buffer before the batch
overwrites it, and the last ciphertext block of a batch is saved for the next one.

Main definitions:

* `Nextppp.cfb128Encrypt`, `Nextppp.cfb128Decrypt` — serial CFB128 over the blocks of a string;
* `Nextppp.cfbDecryptInPlace` — `cfb_decrypt` as the source runs it, over a mutable buffer;
* `Nextppp.ctrByte` — byte `p` of the textbook counter-mode keystream.

Main results:

* `Nextppp.cfbDecryptInPlace_eq` — the buffer of the in-place loop ends as `cfbDecrypt` says;
* `Nextppp.cfb_textbook` — both directions of CFB are CFB128, and they invert each other;
* `Nextppp.ctr_textbook` — CTR masks byte `p` with byte `p` of the textbook keystream.
-/

import Nextppp.Core.Cipher

set_option relaxedAutoImplicit false
set_option autoImplicit false

namespace Nextppp

open ListLib Numeral

/-! ### CFB128 -/

/-- CFB128 encryption of blocks: `c i = p i xor E (c (i - 1))`, with `c 0` the IV.  A short last
block takes the first bytes of its keystream block. -/
def cfb128Encrypt (E : Block → Block) (prev : Block) : List (List UInt8) → List (List UInt8)
  | [] => []
  | p :: ps =>
      let c := xorBytes p (E prev).toList
      c :: cfb128Encrypt E (toBlock c) ps

/-- CFB128 decryption of blocks: `p i = c i xor E (c (i - 1))`. -/
def cfb128Decrypt (E : Block → Block) (prev : Block) : List (List UInt8) → List (List UInt8)
  | [] => []
  | c :: cs => xorBytes c (E prev).toList :: cfb128Decrypt E (toBlock c) cs

/-! ### The recursion of the two directions -/

theorem xorTail_eq (E : Block → Block) (fb : Block) (rem : List UInt8) :
    xorTail E fb rem = xorBytes rem (E fb).toList := by
  cases rem with
  | nil => simp [xorTail]
  | cons x rem => simp [xorTail]

theorem cfbEncrypt_of_lt (E : Block → Block) (iv : Block) {data : List UInt8}
    (h : data.length < 16) : cfbEncrypt E iv data = xorBytes data (E iv).toList := by
  rw [cfbEncrypt, asChunks_of_lt h]
  exact xorTail_eq E iv data

theorem cfbEncrypt_append (E : Block → Block) (iv : Block) {c : List UInt8} (hc : c.length = 16)
    (data : List UInt8) :
    cfbEncrypt E iv (c ++ data) = xorBytes c (E iv).toList ++
      cfbEncrypt E (toBlock (xorBytes c (E iv).toList)) data := by
  simp only [cfbEncrypt, asChunks_append (by decide : 0 < 16) hc, cfbEncryptBlocks,
    List.append_assoc]

theorem cfbDecrypt_eq_serial (E : Block → Block) (iv : Block) (data : List UInt8) :
    cfbDecrypt E iv data = (cfbDecryptSerial E iv (asChunks 16 data).1).1 ++
      xorTail E (cfbDecryptSerial E iv (asChunks 16 data).1).2 (asChunks 16 data).2 := by
  rw [cfbDecrypt, cfbDecryptLoop_eq_serial _ _ _ _ le_rfl]

theorem cfbDecrypt_of_lt (E : Block → Block) (iv : Block) {data : List UInt8}
    (h : data.length < 16) : cfbDecrypt E iv data = xorBytes data (E iv).toList := by
  rw [cfbDecrypt_eq_serial, asChunks_of_lt h]
  exact xorTail_eq E iv data

theorem cfbDecrypt_append (E : Block → Block) (iv : Block) {c : List UInt8} (hc : c.length = 16)
    (data : List UInt8) :
    cfbDecrypt E iv (c ++ data) = xorBytes c (E iv).toList ++ cfbDecrypt E (toBlock c) data := by
  simp only [cfbDecrypt_eq_serial, asChunks_append (by decide : 0 < 16) hc, cfbDecryptSerial,
    List.append_assoc]

theorem cfbEncrypt_eq_cfb128 (E : Block → Block) (iv : Block) (data : List UInt8) :
    cfbEncrypt E iv data = (cfb128Encrypt E iv (pieces 16 data)).flatten := by
  induction data using chunk_induction (n := 16) (by decide) generalizing iv with
  | short data h =>
      rw [cfbEncrypt_of_lt E iv h]
      by_cases hd : data = []
      · simp [hd, pieces_nil, cfb128Encrypt]
      · simp [pieces_of_lt hd h, cfb128Encrypt]
  | chunk c data hc ih =>
      rw [cfbEncrypt_append E iv hc, pieces_append (by decide) hc, cfb128Encrypt, ih]
      rfl

theorem cfbDecrypt_eq_cfb128 (E : Block → Block) (iv : Block) (data : List UInt8) :
    cfbDecrypt E iv data = (cfb128Decrypt E iv (pieces 16 data)).flatten := by
  induction data using chunk_induction (n := 16) (by decide) generalizing iv with
  | short data h =>
      rw [cfbDecrypt_of_lt E iv h]
      by_cases hd : data = []
      · simp [hd, pieces_nil, cfb128Decrypt]
      · simp [pieces_of_lt hd h, cfb128Decrypt]
  | chunk c data hc ih =>
      rw [cfbDecrypt_append E iv hc, pieces_append (by decide) hc, cfb128Decrypt, ih]
      rfl

/-- CFB encryption inverts CFB decryption. -/
theorem cfbEncrypt_cfbDecrypt (E : Block → Block) (iv : Block) (data : List UInt8) :
    cfbEncrypt E iv (cfbDecrypt E iv data) = data := by
  induction data using chunk_induction (n := 16) (by decide) generalizing iv with
  | short data h =>
      have hlen : (cfbDecrypt E iv data).length < 16 := by simpa using h
      rw [cfbEncrypt_of_lt E iv hlen, cfbDecrypt_of_lt E iv h]
      exact xorBytes_cancel (by simpa using h.le)
  | chunk c data hc ih =>
      have hle : c.length ≤ (E iv).toList.length := by simp [hc]
      have hmask : (xorBytes c (E iv).toList).length = 16 := by
        rw [xorBytes_length_of_le hle, hc]
      rw [cfbDecrypt_append E iv hc, cfbEncrypt_append E iv hmask, xorBytes_cancel hle, ih]

/-! ### The in-place loop of CFB decryption -/

/-- Block `p` of a buffer. -/
def blockAt (data : List UInt8) (p : ℕ) : List UInt8 := (data.drop (p * 16)).take 16

/-- Exclusive-or of a keystream block into block `p` of a buffer. -/
def xor16Store (data : List UInt8) (p : ℕ) (ks : Block) : List UInt8 :=
  data.take (p * 16) ++ xorBytes (blockAt data p) ks.toList ++ data.drop (p * 16 + 16)

/-- The stores of one batch: keystream block `k` goes into block `i + k` of the buffer. -/
def storeBatch (data : List UInt8) (i : ℕ) : List Block → List UInt8
  | [] => data
  | k :: ks => storeBatch (xor16Store data i k) (i + 1) ks

/-- The batches of `cfb_decrypt` over a buffer of `nb` full blocks, from block `i` on. -/
def cfbDecryptBatches (E : Block → Block) (nb : ℕ) :
    ℕ → ℕ → Block → List UInt8 → List UInt8 × Block
  | 0, _, prev, data => (data, prev)
  | fuel + 1, i, prev, data =>
      if i < nb then
        let n := min (nb - i) 8
        -- saved before the stores below overwrite it
        let lastCt := toBlock (blockAt data (i + n - 1))
        let ks := prev :: (List.range (n - 1)).map fun k => toBlock (blockAt data (i + k))
        cfbDecryptBatches E nb fuel (i + n) lastCt (storeBatch data i (ks.map E))
      else (data, prev)

/-- `cfb_decrypt` over its buffer. -/
def cfbDecryptInPlace (E : Block → Block) (iv : Block) (data : List UInt8) : List UInt8 :=
  let nb := data.length / 16
  let r := cfbDecryptBatches E nb nb 0 iv data
  r.1.take (nb * 16) ++ xorTail E r.2 (r.1.drop (nb * 16))

theorem flatten_length {cs : List (List UInt8)} (hcs : ∀ c ∈ cs, c.length = 16) :
    cs.flatten.length = cs.length * 16 := by
  induction cs with
  | nil => rfl
  | cons c cs ih =>
      rw [List.flatten_cons, List.length_append, hcs c (by simp), ih fun d hd => hcs d (by simp [hd]),
        List.length_cons]
      ring

theorem blockAt_append {before c : List UInt8} {p : ℕ} (hp : before.length = p * 16)
    (hc : c.length = 16) (rest : List UInt8) : blockAt (before ++ (c ++ rest)) p = c := by
  rw [blockAt, ← hp, List.drop_left, ← hc, List.take_left]

/-- The blocks of a buffer, read by number. -/
theorem blockAt_flatten {cs : List (List UInt8)} (hcs : ∀ c ∈ cs, c.length = 16)
    {before : List UInt8} {i : ℕ} (hi : before.length = i * 16) (rest : List UInt8) {k : ℕ}
    (hk : k < cs.length) : blockAt (before ++ (cs.flatten ++ rest)) (i + k) = cs[k] := by
  induction cs generalizing before i k with
  | nil => simp at hk
  | cons c cs ih =>
      have hc : c.length = 16 := hcs c (by simp)
      cases k with
      | zero =>
          rw [List.flatten_cons, List.append_assoc]
          exact blockAt_append hi hc _
      | succ k =>
          have hnext : (before ++ c).length = (i + 1) * 16 := by
            rw [List.length_append, hi, hc]; ring
          have h := ih (fun d hd => hcs d (by simp [hd])) hnext (k := k) (by simpa using hk)
          have hindex : i + (k + 1) = i + 1 + k := by omega
          rw [List.getElem_cons_succ, ← h, hindex]
          simp

theorem xor16Store_append {before c : List UInt8} {p : ℕ} (hp : before.length = p * 16)
    (hc : c.length = 16) (rest : List UInt8) (ks : Block) :
    xor16Store (before ++ (c ++ rest)) p ks = before ++ (xorBytes c ks.toList ++ rest) := by
  rw [xor16Store, blockAt_append hp hc]
  have htake : (before ++ (c ++ rest)).take (p * 16) = before := by simp [← hp]
  have hdrop : (before ++ (c ++ rest)).drop (p * 16 + 16) = rest := by
    rw [← hp, ← hc, ← List.length_append, ← List.append_assoc, List.drop_left]
  rw [htake, hdrop, List.append_assoc]

/-- A batch of stores replaces the blocks of the batch and nothing else. -/
theorem storeBatch_flatten {cs : List (List UInt8)} (hcs : ∀ c ∈ cs, c.length = 16)
    {ks : List Block} (hks : ks.length = cs.length) {before : List UInt8} {i : ℕ}
    (hi : before.length = i * 16) (rest : List UInt8) :
    storeBatch (before ++ (cs.flatten ++ rest)) i ks =
      before ++ ((List.zipWith (fun c k => xorBytes c k.toList) cs ks).flatten ++ rest) := by
  induction cs generalizing before i ks with
  | nil =>
      rw [List.length_eq_zero_iff.1 hks]
      rfl
  | cons c cs ih =>
      cases ks with
      | nil => simp at hks
      | cons k ks =>
          have hc : c.length = 16 := hcs c (by simp)
          have hnext : (before ++ xorBytes c k.toList).length = (i + 1) * 16 := by
            rw [List.length_append, hi, xorBytes_length_of_le (by simp [hc]), hc]; ring
          have h := ih (fun d hd => hcs d (by simp [hd])) (by simpa using hks) hnext
          rw [storeBatch, List.flatten_cons, List.append_assoc, xor16Store_append hi hc,
            ← List.append_assoc, h]
          simp

/-- The feedback blocks that a batch copies out of the buffer before it overwrites it. -/
theorem batch_feedback {cs : List (List UInt8)} (hcs : ∀ c ∈ cs, c.length = 16)
    {before : List UInt8} {i : ℕ} (hi : before.length = i * 16) (rest : List UInt8) :
    ((List.range (cs.length - 1)).map fun k =>
      toBlock (blockAt (before ++ (cs.flatten ++ rest)) (i + k))) = cs.dropLast.map toBlock := by
  refine List.ext_getElem (by simp) ?_
  intro k hk _
  have hlt : k < cs.length := by
    simp only [List.length_map, List.length_range] at hk
    omega
  simp [blockAt_flatten hcs hi rest hlt]

/-- The last ciphertext block of a batch. -/
theorem batch_last {cs : List (List UInt8)} (hcs : ∀ c ∈ cs, c.length = 16)
    {before : List UInt8} {i : ℕ} (hi : before.length = i * 16) (rest : List UInt8)
    (hne : cs ≠ []) :
    blockAt (before ++ (cs.flatten ++ rest)) (i + cs.length - 1) = cs.getLastD [] := by
  have hpos : 0 < cs.length := List.length_pos_iff.2 hne
  have hindex : i + cs.length - 1 = i + (cs.length - 1) := by omega
  rw [hindex, blockAt_flatten hcs hi rest (Nat.sub_lt hpos (by decide)),
    List.getLastD_eq_getLast?, List.getLast?_eq_getElem?,
    List.getElem?_eq_getElem (Nat.sub_lt hpos (by decide)), Option.getD_some]

/-- **The in-place batches.**  With `i` blocks done, the batches decrypt the blocks that are left
and touch nothing else; the block they end with seeds the tail. -/
theorem cfbDecryptBatches_eq (E : Block → Block) (fuel : ℕ) {blocks : List (List UInt8)}
    (hblocks : ∀ c ∈ blocks, c.length = 16) {before : List UInt8} {i : ℕ}
    (hi : before.length = i * 16) (prev : Block) (tail : List UInt8)
    (hfuel : blocks.length ≤ fuel) :
    cfbDecryptBatches E (i + blocks.length) fuel i prev (before ++ (blocks.flatten ++ tail)) =
      (before ++ ((cfbDecryptSerial E prev blocks).1 ++ tail),
        (cfbDecryptSerial E prev blocks).2) := by
  induction fuel generalizing blocks before i prev with
  | zero =>
      rw [List.length_eq_zero_iff.1 (Nat.le_zero.1 hfuel)]
      rfl
  | succ fuel ih =>
      by_cases hne : blocks = []
      · simp [hne, cfbDecryptBatches, cfbDecryptSerial]
      have hpos : 0 < blocks.length := List.length_pos_iff.2 hne
      obtain ⟨c, cs, hbatch⟩ : ∃ c cs, blocks.take 8 = c :: cs :=
        List.exists_cons_of_length_pos (by rw [List.length_take]; omega)
      set rest := blocks.drop 8 with hrest
      have hcut : blocks = (c :: cs) ++ rest := by
        rw [← hbatch, hrest, List.take_append_drop]
      have hn : min (i + blocks.length - i) 8 = (c :: cs).length := by
        rw [← hbatch, List.length_take]; omega
      have hlenb : ∀ d ∈ c :: cs, d.length = 16 := 
        fun d hd => hblocks d (hcut ▸ List.mem_append_left _ hd)
      have hlenr : ∀ d ∈ rest, d.length = 16 :=
        fun d hd => hblocks d (hcut ▸ List.mem_append_right _ hd)
      -- what the batch leaves in front of the remaining blocks
      set out := (List.zipWith (fun c k => xorBytes c (E k).toList) (c :: cs)
        (prev :: (c :: cs).dropLast.map toBlock)).flatten with hout
      have hserial := cfbDecryptSerial_batch E prev c cs
      have houtlen : (before ++ out).length = (i + (c :: cs).length) * 16 := by
        have h := cfbDecryptSerial_length E prev (c :: cs) hlenb
        rw [hserial] at h
        rw [List.length_append, hi, hout, h, flatten_length hlenb]
        ring
      have hbuffer : before ++ (blocks.flatten ++ tail)
          = before ++ ((c :: cs).flatten ++ (rest.flatten ++ tail)) := by
        rw [hcut, List.flatten_append, List.append_assoc]
      have hnb : i + blocks.length = i + (c :: cs).length + rest.length := by
        rw [hcut, List.length_append, Nat.add_assoc]
      have hfuel' : rest.length ≤ fuel := by
        rw [hrest, List.length_drop]; omega
      have hstore : storeBatch (before ++ ((c :: cs).flatten ++ (rest.flatten ++ tail))) i
          ((prev :: (c :: cs).dropLast.map toBlock).map E)
            = before ++ out ++ (rest.flatten ++ tail) := by
        rw [storeBatch_flatten hlenb (by simp) hi, hout, List.zipWith_map_right,
          List.append_assoc]
      rw [cfbDecryptBatches, if_pos (by omega)]
      dsimp only
      rw [hn, hbuffer, batch_feedback hlenb hi, batch_last hlenb hi _ (by simp), hstore, hnb,
        ih hlenr houtlen _ hfuel', hcut, cfbDecryptSerial_append, hserial]
      simp only [hout, List.append_assoc]

/-- **Decrypting in place** leaves in the buffer what `cfbDecrypt` says. -/
theorem cfbDecryptInPlace_eq (E : Block → Block) (iv : Block) (data : List UInt8) :
    cfbDecryptInPlace E iv data = cfbDecrypt E iv data := by
  obtain ⟨hch, htl⟩ := asChunks_length (n := 16) (by decide) data
  have hnb : data.length / 16 = (asChunks 16 data).1.length := by simp [asChunks]
  have hflat := asChunks_flatten (n := 16) (by decide) data
  set blocks := (asChunks 16 data).1
  set tail := (asChunks 16 data).2
  have hlen := cfbDecryptSerial_length E iv blocks hch
  have hblocks := flatten_length hch
  have hstart : ([] : List UInt8).length = 0 * 16 := rfl
  have hbatches := cfbDecryptBatches_eq E blocks.length hch hstart iv tail le_rfl
  rw [Nat.zero_add, List.nil_append, List.nil_append, hflat] at hbatches
  rw [cfbDecryptInPlace, cfbDecrypt_eq_serial, hnb]
  rw [hbatches, ← hblocks, ← hlen, List.take_left, List.drop_left]

/-- **CFB is CFB128.**  For every block function, IV and byte string, `cfb_encrypt` is the serial
encryption of its blocks, the in-place batches of `cfb_decrypt` are the serial decryption, and each
undoes the other. -/
theorem cfb_textbook (E : Block → Block) (iv : Block) (data : List UInt8) :
    cfbEncrypt E iv data = (cfb128Encrypt E iv (pieces 16 data)).flatten ∧
      cfbDecryptInPlace E iv data = (cfb128Decrypt E iv (pieces 16 data)).flatten ∧
      cfbDecryptInPlace E iv (cfbEncrypt E iv data) = data ∧
      cfbEncrypt E iv (cfbDecryptInPlace E iv data) = data := by
  simp only [cfbDecryptInPlace_eq]
  exact ⟨cfbEncrypt_eq_cfb128 E iv data, cfbDecrypt_eq_cfb128 E iv data,
    cfbDecrypt_cfbEncrypt E iv data, cfbEncrypt_cfbDecrypt E iv data⟩

/-! ### Counter mode -/

/-- Byte `p` of the counter-mode keystream: the IV, read as a big-endian number, is advanced by the
number of the block, modulo `2 ^ 128`. -/
def ctrByte (E : Block → Block) (iv : Block) (p : ℕ) : UInt8 :=
  (E (toBlock (beBytes 16 ((beValue iv.toList + p / 16) % 2 ^ 128)))).toList.getD (p % 16) 0

theorem counterRun_getElem (iv : Block) (n k : ℕ) (hk : k < (counterRun (fromBeBytes iv) n).length) :
    (counterRun (fromBeBytes iv) n)[k]
      = toBlock (beBytes 16 ((beValue iv.toList + k) % 2 ^ 128)) := by
  have hvalue : (fromBeBytes iv + BitVec.ofNat 128 k).toNat
      = (beValue iv.toList + k) % 2 ^ 128 := by
    simp only [fromBeBytes, BitVec.toNat_add, BitVec.toNat_ofNat]
    exact (Nat.add_mod _ _ _).symm
  simp only [counterRun, List.getElem_map, List.getElem_range]
  rw [toBeBytes, hvalue]

/-- The bytes of a keystream, read by position. -/
theorem keystream_getElem? (E : Block → Block) (bs : List Block) (p : ℕ) :
    (bs.flatMap fun b => (E b).toList)[p]?
      = bs[p / 16]?.map fun b => (E b).toList.getD (p % 16) 0 := by
  induction bs generalizing p with
  | nil => simp
  | cons b bs ih =>
      rw [List.flatMap_cons]
      by_cases hp : p < 16
      · have hlt : p < (E b).toList.length := by simpa using hp
        rw [List.getElem?_append_left hlt, Nat.div_eq_of_lt hp, Nat.mod_eq_of_lt hp,
          List.getElem?_eq_getElem hlt, List.getElem?_cons_zero, Option.map_some,
          List.getD_eq_getElem _ _ hlt]
      · obtain ⟨q, rfl⟩ : ∃ q, p = q + 16 := ⟨p - 16, by omega⟩
        have hle : (E b).toList.length ≤ q + 16 := by simp
        rw [List.getElem?_append_right hle, Nat.add_div_right _ (by decide), Nat.add_mod_right,
          List.getElem?_cons_succ, ← ih]
        simp

theorem xorBytes_getElem? (a m : List UInt8) (p : ℕ) :
    (xorBytes a m)[p]? = a[p]?.bind fun x => m[p]?.map fun y => x ^^^ y := by
  rw [xorBytes, List.getElem?_zipWith]
  cases a[p]? <;> cases m[p]? <;> rfl

theorem ctrApply_getElem? (E : Block → Block) (iv : Block) (data : List UInt8) (p : ℕ) :
    (ctrApply E iv data)[p]? = data[p]?.map fun x => x ^^^ ctrByte E iv p := by
  rw [ctrApply_eq, ctrBlocks_eq, xorBytes_getElem?, keystream_getElem?]
  by_cases hp : p < data.length
  · have hblock : p / 16 < (counterRun (fromBeBytes iv) ((data.length + 15) / 16)).length := by
      rw [counterRun_length]; omega
    rw [List.getElem?_eq_getElem hp, List.getElem?_eq_getElem hblock, counterRun_getElem]
    rfl
  · rw [List.getElem?_eq_none (by omega)]
    rfl

/-- **CTR is textbook CTR.**  For every block function, IV and byte string, byte `p` of the data is
masked with byte `p` of the counter keystream; so the mode undoes itself, and the first `n` bytes
of its output are those of the first `n` bytes of its input. -/
theorem ctr_textbook (E : Block → Block) (iv : Block) (data : List UInt8) :
    (∀ p, (ctrApply E iv data)[p]? = data[p]?.map fun x => x ^^^ ctrByte E iv p) ∧
      ctrApply E iv (ctrApply E iv data) = data ∧
      ∀ n, (ctrApply E iv data).take n = ctrApply E iv (data.take n) := by
  refine ⟨ctrApply_getElem? E iv data, ctrApply_ctrApply E iv data, ?_⟩
  intro n
  refine List.ext_getElem? fun p => ?_
  rw [ctrApply_getElem?, List.getElem?_take, List.getElem?_take]
  split
  · exact ctrApply_getElem? E iv data p
  · rfl

end Nextppp

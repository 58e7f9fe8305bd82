/-
**Which keystream a packet is encrypted with.**

A stream cipher whose keystream does not depend on the plaintext is only as good as the separation of
its keystreams.  This module computes, for every packet of a session, the pair of key and nonce that
determines its keystream, and for the counter mode the set of counter blocks that are encrypted; and
it characterises when two packets share some of it.

Two packets of the two directions share key and nonce exactly when they have the same number: both
directions derive the same key and the same base nonce from the `ivv`, and both count from zero.
The packet number is mixed into the very bytes that the counter mode increments, so packets longer
than a block run into the blocks of their neighbours, within one direction and across the two: that
two nonces differ does not separate the keystreams of the counter mode.

Main definitions:

* `Nextppp.SessionCipher.keyNonce` — the key and the nonce of the next packet;
* `Nextppp.SessionCipher.counterBlocks` — the counter blocks of the next packet;
* `Nextppp.BlocksApart` — the runs of counter blocks of two packets do not meet;
* `Nextppp.TxCore.sendAll` — a sending core after a sequence of messages.

Main results:

* `Nextppp.SessionCipher.nonceAt_eq_iff` — when two packet numbers give the same nonce;
* `Nextppp.directions_separated_iff` — when two packets of the two directions differ in key or nonce;
* `Nextppp.counterBlocks_disjoint_iff` — when two packets of one direction share no counter block;
* `Nextppp.directions_blocks_disjoint_iff` — when two packets of the two directions share none;
* `Nextppp.directions_blocks_overlap` — two packets with different numbers that always share one.
-/

import Nextppp.Core.Conversation

set_option relaxedAutoImplicit false
set_option autoImplicit false

namespace Nextppp

open ListLib Numeral

/-! ### Nonces -/

/-- The low bytes of a number. -/
theorem beBytes_drop (k w v : ℕ) : (beBytes (k + w) v).drop k = beBytes w v := by
  have hdig : ∀ v, (fixedDigits 256 (k + w) v).drop k = fixedDigits 256 w v := by
    induction w with
    | zero => intro v; exact List.drop_eq_nil_of_le (by simp)
    | succ w ih =>
        intro v
        rw [← Nat.add_assoc, fixedDigits, fixedDigits,
          List.drop_append_of_le_length (by simp), ih]
  rw [beBytes, beBytes, ← List.map_drop, hdig]

theorem beBytes_eq_iff (k v v' : ℕ) : beBytes k v = beBytes k v' ↔ v % 256 ^ k = v' % 256 ^ k := by
  constructor
  · intro h
    rw [← beValue_beBytes, h, beValue_beBytes]
  · intro h
    have hdig : fixedDigits 256 k v = fixedDigits 256 k v' := by
      induction k generalizing v v' with
      | zero => rfl
      | succ k ih =>
          have hlow : v % 256 = v' % 256 := by
            have := congrArg (· % 256) h
            simpa [pow_succ, Nat.mod_mul_left_mod] using this
          have hhigh : v / 256 % 256 ^ k = v' / 256 % 256 ^ k := by
            have := congrArg (· / 256) h
            simpa [pow_succ, Nat.mul_comm, Nat.mod_mul_right_div_self] using this
          rw [fixedDigits, fixedDigits, ih _ _ hhigh, hlow]
    rw [beBytes, beBytes, hdig]

namespace SessionCipher

/-- The nonce as a byte string: the base, with the low bytes of the packet number mixed into the
last bytes of the method's nonce. -/
theorem nonceAt_toList (method : Method) (baseIv : Block) (seq : U64) :
    (nonceAt method baseIv seq).toList.take method.ivLen =
      baseIv.toList.take (method.ivLen - xorWidth method) ++
        xorBytes ((baseIv.toList.take method.ivLen).drop (method.ivLen - xorWidth method))
          (beBytes (xorWidth method) seq.toNat) := by
  obtain ⟨hw8, hwl, hl16⟩ : xorWidth method ≤ 8 ∧ xorWidth method ≤ method.ivLen ∧
      method.ivLen ≤ 16 := by cases method <;> decide
  have hsplit : beBytes (xorWidth method) seq.toNat
      = (beBytes 8 seq.toNat).drop (8 - xorWidth method) := by
    rw [← beBytes_drop (8 - xorWidth method), Nat.sub_add_cancel hw8]
  refine List.ext_getElem ?_ ?_
  · simp [hsplit]
    omega
  · intro i h₁ h₂
    have hi : i < method.ivLen := lt_of_lt_of_le h₁ (List.length_take_le _ _)
    rw [List.getElem_take, Vector.getElem_toList]
    simp only [nonceAt, Vector.getElem_ofFn]
    by_cases hlow : method.ivLen - xorWidth method ≤ i
    · -- a byte the packet number is mixed into
      have hsum : method.ivLen - xorWidth method + xorWidth method = method.ivLen := by omega
      rw [if_pos ⟨hlow, by rw [hsum]; exact hi⟩, List.getElem_append_right (by simp; omega)]
      simp only [xorBytes, hsplit, List.getElem_zipWith, List.getElem_drop, List.getElem_take,
        List.length_take, Vector.length_toList]
      have hmin : min (method.ivLen - xorWidth method) 16 = method.ivLen - xorWidth method := by
        omega
      have hidx : method.ivLen - xorWidth method + (i - (method.ivLen - xorWidth method)) = i := by
        omega
      simp only [hmin, hidx, Vector.getElem_toList]
      rw [List.getD_eq_getElem _ _ (by simp; omega)]
      rfl
    · rw [if_neg (by omega), List.getElem_append_left (by simp; omega), List.getElem_take,
        Vector.getElem_toList]
      rfl

/-- Two packet numbers give the same nonce exactly when they agree in the bytes that are mixed
in. -/
theorem nonceAt_eq_iff (method : Method) (baseIv : Block) (s t : U64) :
    (nonceAt method baseIv s).toList.take method.ivLen
        = (nonceAt method baseIv t).toList.take method.ivLen ↔
      s.toNat % 256 ^ xorWidth method = t.toNat % 256 ^ xorWidth method := by
  rw [nonceAt_toList, nonceAt_toList, List.append_right_inj, ← beBytes_eq_iff]
  constructor
  · intro h
    have hlen : ((baseIv.toList.take method.ivLen).drop (method.ivLen - xorWidth method)).length
        = xorWidth method := by
      cases method <;> simp [xorWidth, Method.ivLen]
    -- masking again with the base gives the packet numbers back
    have hback : ∀ v, xorBytes (xorBytes ((baseIv.toList.take method.ivLen).drop
        (method.ivLen - xorWidth method)) (beBytes (xorWidth method) v))
        ((baseIv.toList.take method.ivLen).drop (method.ivLen - xorWidth method))
        = beBytes (xorWidth method) v := by
      intro v
      rw [xorBytes_comm ((baseIv.toList.take method.ivLen).drop _)]
      exact xorBytes_cancel (by rw [hlen, beBytes_length])
    rw [← hback, h, hback]
  · intro h
    rw [h]

/-- The key and the nonce that determine the keystream of the next packet. -/
def keyNonce (c : SessionCipher) : List UInt8 × List UInt8 :=
  (c.core.keyBytes, c.nextNonce.1.toList.take c.method.ivLen)

/-- A cipher that processed `n` packets more. -/
structure Advanced (c c' : SessionCipher) (n : ℕ) : Prop where
  method : c'.method = c.method
  core : c'.core = c.core
  baseIv : c'.baseIv = c.baseIv
  seq : c'.seq = c.seq + BitVec.ofNat 64 n

theorem Advanced.refl (c : SessionCipher) : Advanced c c 0 :=
  ⟨rfl, rfl, rfl, by simp⟩

theorem Advanced.apply {c c' : SessionCipher} {n : ℕ} (h : Advanced c c' n) (P : Primitives)
    (d : List UInt8) : Advanced c (c'.apply P d).2 (n + 1) :=
  ⟨h.method, h.core, h.baseIv, by
    rw [apply_seq, h.seq, BitVec.add_assoc, BitVec.ofNat_add]
    rfl⟩

/-- Two instances of one derivation use the same key, and the same nonce exactly for packets whose
numbers agree in the bytes that are mixed in. -/
theorem Advanced.keyNonce_eq_iff {c c₁ c₂ : SessionCipher} {n₁ n₂ : ℕ} (hseq : c.seq = 0)
    (h₁ : Advanced c c₁ n₁) (h₂ : Advanced c c₂ n₂) :
    c₁.keyNonce = c₂.keyNonce ↔ n₁ ≡ n₂ [MOD 256 ^ xorWidth c.method] := by
  have hdvd : 256 ^ xorWidth c.method ∣ 2 ^ 64 := by
    cases c.method <;> exact Nat.dvd_of_mod_eq_zero (by decide)
  have hn : ∀ n, (0 + BitVec.ofNat 64 n : U64).toNat % 256 ^ xorWidth c.method
      = n % 256 ^ xorWidth c.method := by
    intro n
    rw [BitVec.ofNat_eq_ofNat, BitVec.zero_add, BitVec.toNat_ofNat, Nat.mod_mod_of_dvd _ hdvd]
  simp only [keyNonce, nextNonce, h₁.core, h₂.core, h₁.method, h₂.method, h₁.baseIv, h₂.baseIv,
    h₁.seq, h₂.seq, hseq, Prod.mk.injEq, true_and]
  rw [nonceAt_eq_iff, hn, hn]
  rfl

end SessionCipher

/-! ### The two directions of a session -/

/-- A sending core after a sequence of messages. -/
def TxCore.sendAll (P : Primitives) (tx : TxCore) (ms : List Send) : TxCore :=
  ms.foldl (fun tx m => (m.encrypt P tx).2) tx

theorem TxCore.sendAll_advanced (P : Primitives) (ms : List Send) (hms : ∀ m ∈ ms, m.Legal)
    {tx tx' : TxCore} {n : ℕ} (hp : tx.protocolTx.Advanced tx'.protocolTx n)
    (ht : tx.transportTx.Advanced tx'.transportTx n) :
    tx.protocolTx.Advanced (tx'.sendAll P ms).protocolTx (n + ms.length) ∧
      tx.transportTx.Advanced (tx'.sendAll P ms).transportTx (n + ms.length) := by
  induction ms generalizing tx' n with
  | nil => exact ⟨hp, ht⟩
  | cons m ms ih =>
      obtain ⟨pre, payload, henc, hmsg⟩ := m.encrypt_eq P tx'
      have hlegal := hms m (by simp)
      rw [Send.Legal, hmsg] at hlegal
      obtain ⟨⟨d, hpro⟩, htra⟩ := tx'.encryptImpl_ciphers P pre payload hlegal.1 hlegal.2
      rw [← henc] at hpro htra
      have hlen : n + (m :: ms).length = n + 1 + ms.length := by
        rw [List.length_cons]
        omega
      rw [hlen]
      refine ih (fun m' hm' => hms m' (by simp [hm'])) ?_ ?_
      · rw [hpro]
        exact hp.apply P d
      · rw [htra]
        exact ht.apply P (pre ++ payload)

/-- A sending core switched to the data plane of an `ivv`. -/
def TxCore.dataPlane (P : Primitives) (tx : TxCore) (ivv : U128) : TxCore :=
  (tx.rekey P ivv).onHandshakeComplete

/-- The ciphers of the two sides are instances of one derivation, each advanced by the packets its
side sent. -/
theorem TxCore.dataPlane_advanced (P : Primitives) {key : ObfuscationKey} (ivv : U128)
    {client server : TxCore} (hc : client.key = key) (hs : server.key = key)
    {sent received : List Send} (hsent : ∀ m ∈ sent, m.Legal) (hrecv : ∀ m ∈ received, m.Legal) :
    ((client.dataPlane P ivv).transportTx.Advanced
        ((client.dataPlane P ivv).sendAll P sent).transportTx sent.length ∧
      (client.dataPlane P ivv).transportTx.Advanced
        ((server.dataPlane P ivv).sendAll P received).transportTx received.length) ∧
    (client.dataPlane P ivv).protocolTx.Advanced
        ((client.dataPlane P ivv).sendAll P sent).protocolTx sent.length ∧
      (client.dataPlane P ivv).protocolTx.Advanced
        ((server.dataPlane P ivv).sendAll P received).protocolTx received.length := by
  obtain ⟨hcp, hct⟩ := TxCore.sendAll_advanced P sent hsent
    (SessionCipher.Advanced.refl (client.dataPlane P ivv).protocolTx)
    (SessionCipher.Advanced.refl (client.dataPlane P ivv).transportTx)
  obtain ⟨hsp, hst⟩ := TxCore.sendAll_advanced P received hrecv
    (SessionCipher.Advanced.refl (server.dataPlane P ivv).protocolTx)
    (SessionCipher.Advanced.refl (server.dataPlane P ivv).transportTx)
  have hprotocol : (server.dataPlane P ivv).protocolTx = (client.dataPlane P ivv).protocolTx := by
    simp only [TxCore.dataPlane, TxCore.rekey, TxCore.onHandshakeComplete, hc, hs]
  have htransport : (server.dataPlane P ivv).transportTx
      = (client.dataPlane P ivv).transportTx := by
    simp only [TxCore.dataPlane, TxCore.rekey, TxCore.onHandshakeComplete, hc, hs]
  rw [hprotocol] at hsp
  rw [htransport] at hst
  rw [Nat.zero_add] at hcp hct hsp hst
  exact ⟨⟨hct, hst⟩, hcp, hsp⟩

/-- After the handshake, the next packet of the client and the next packet of the server differ in
key or nonce exactly when the numbers of packets the two sides sent before them differ, for AES
modulo `2 ^ 64` and for ChaCha20 modulo `2 ^ 32`; and so in both cipher layers.  In counter mode two
nonces that differ are not enough: packets with different numbers may still share counter blocks, see
`directions_blocks_disjoint_iff`. -/
theorem directions_separated_iff (P : Primitives) (key : ObfuscationKey) (ivv : U128)
    (client server : TxCore) (hc : client.key = key) (hs : server.key = key)
    (sent received : List Send) (hsent : ∀ m ∈ sent, m.Legal) (hrecv : ∀ m ∈ received, m.Legal) :
    (((client.dataPlane P ivv).sendAll P sent).transportTx.keyNonce
        ≠ ((server.dataPlane P ivv).sendAll P received).transportTx.keyNonce ↔
      ¬ sent.length ≡ received.length [MOD 256 ^ SessionCipher.xorWidth key.transport]) ∧
    (((client.dataPlane P ivv).sendAll P sent).protocolTx.keyNonce
        ≠ ((server.dataPlane P ivv).sendAll P received).protocolTx.keyNonce ↔
      ¬ sent.length ≡ received.length [MOD 256 ^ SessionCipher.xorWidth key.protocol]) := by
  obtain ⟨⟨hct, hst⟩, hcp, hsp⟩ := TxCore.dataPlane_advanced P ivv hc hs hsent hrecv
  refine ⟨not_congr ?_, not_congr ?_⟩
  · have h := SessionCipher.Advanced.keyNonce_eq_iff rfl hct hst
    rwa [show (client.dataPlane P ivv).transportTx.method = key.transport by rw [← hc]; rfl] at h
  · have h := SessionCipher.Advanced.keyNonce_eq_iff rfl hcp hsp
    rwa [show (client.dataPlane P ivv).protocolTx.method = key.protocol by rw [← hc]; rfl] at h

/-- The packets the two sides send first, right after the handshake, differ in number from the second
packet of the other side. -/
theorem directions_separated_first_second :
    (((TxCore.new .sample .default (Stream'.const 0)).dataPlane .sample 5).sendAll .sample
        []).transportTx.keyNonce
      ≠ (((TxCore.new .sample .default (Stream'.const 1)).dataPlane .sample 5).sendAll .sample
        [Send.plain [0]]).transportTx.keyNonce :=
  ((directions_separated_iff .sample .default 5 (TxCore.new .sample .default (Stream'.const 0))
    (TxCore.new .sample .default (Stream'.const 1)) rfl rfl [] [Send.plain [0]] (by simp)
    (by simp [Send.Legal, Send.message, pppBufferSize])).1).2 (by decide)

/-- With the default key, whose transport cipher is AES-256-CTR, the first packet of the client and
the first packet of the server of a session are encrypted with the same key and the same nonce. -/
theorem directions_share_keystream :
    ((TxCore.new .sample .default (Stream'.const 0)).dataPlane .sample 5).transportTx.method
        = .aes256Ctr ∧
      ((TxCore.new .sample .default (Stream'.const 0)).dataPlane .sample 5).transportTx.keyNonce
        = ((TxCore.new .sample .default (Stream'.const 1)).dataPlane .sample 5).transportTx.keyNonce :=
  ⟨rfl, rfl⟩

/-! ### The counter blocks of one direction -/

/-- The low 64 bits of a nonce base. -/
def lowWord (iv : Block) : U64 := BitVec.ofNat 64 (beValue (iv.toList.drop 8))

/-- The blocks of a packet. -/
def blockCount (data : List UInt8) : ℕ := (data.length + 15) / 16

namespace SessionCipher

/-- The counter blocks that the next packet hands to the block function. -/
def counterBlocks (P : Primitives) (c : SessionCipher) (data : List UInt8) : List Block :=
  match c.method, c.core with
  | .aes128Ctr, .aes128 k => ctrBlocks (P.aes128 k) c.nextNonce.1 data
  | .aes256Ctr, .aes256 k => ctrBlocks (P.aes256 k) c.nextNonce.1 data
  | _, _ => []

/-- In counter mode they are the run that starts at the nonce. -/
theorem counterBlocks_eq (P : Primitives) {c : SessionCipher}
    (hctr : c.method = .aes128Ctr ∨ c.method = .aes256Ctr) (data : List UInt8) :
    c.counterBlocks P data
      = counterRun (fromBeBytes (nonceAt c.method c.baseIv c.seq)) (blockCount data) := by
  obtain ⟨method, core, baseIv, seq, encrypting, hfits⟩ := c
  rcases hctr with h | h
  all_goals
    obtain rfl : method = _ := h
    cases core with
    | aes128 k =>
        first
        | (simp [CipherCore.fits] at hfits; done)
        | exact ctrBlocks_eq _ _ _
    | aes256 k =>
        first
        | (simp [CipherCore.fits] at hfits; done)
        | exact ctrBlocks_eq _ _ _
    | chaCha k => simp [CipherCore.fits] at hfits

/-- The counter a packet of an AES mode starts from: the packet number is mixed into the low word
and nothing else. -/
theorem fromBeBytes_nonceAt {method : Method} (h16 : method.ivLen = 16) (h8 : xorWidth method = 8)
    (iv : Block) (seq : U64) :
    (fromBeBytes (nonceAt method iv seq)).toNat
      = beValue (iv.toList.take 8) * 2 ^ 64 + (lowWord iv ^^^ seq).toNat := by
  have hbytes := nonceAt_toList method iv seq
  have hfull : ∀ b : Block, b.toList.take 16 = b.toList := fun b => List.take_of_length_le (by simp)
  rw [h16, h8, hfull, hfull, show 16 - 8 = 8 from rfl] at hbytes
  have hlow : beValue (iv.toList.drop 8) < 2 ^ 64 := by
    have := beValue_lt (iv.toList.drop 8)
    simpa using this
  have hhigh : beValue (iv.toList.take 8) < 2 ^ 64 := by
    have := beValue_lt (iv.toList.take 8)
    simpa using this
  have hseq : seq.toNat < 2 ^ 64 := seq.isLt
  have hlen : (xorBytes (iv.toList.drop 8) (beBytes 8 seq.toNat)).length = 8 := by simp
  have hxor : (lowWord iv ^^^ seq).toNat = beValue (iv.toList.drop 8) ^^^ seq.toNat := by
    rw [BitVec.toNat_xor, lowWord, BitVec.toNat_ofNat, Nat.mod_eq_of_lt hlow]
  have hlt : (lowWord iv ^^^ seq).toNat < 2 ^ 64 := (lowWord iv ^^^ seq).isLt
  rw [fromBeBytes, hbytes, beValue_append, hlen, beValue_xorBytes (by simp), beValue_beBytes,
    show (256 : ℕ) ^ 8 = 2 ^ 64 by norm_num, Nat.mod_eq_of_lt hseq, ← hxor, BitVec.toNat_ofNat,
    Nat.mod_eq_of_lt (by omega)]

end SessionCipher

/-- Two runs of at most 4096 counters over one high word meet exactly when the low ends overlap. -/
theorem counterRun_disjoint_iff {c c' : U128} {H a b n m : ℕ} (hc : c.toNat = H * 2 ^ 64 + a)
    (hc' : c'.toNat = H * 2 ^ 64 + b) (ha : a < 2 ^ 64) (hb : b < 2 ^ 64) (hn : n ≤ 4096)
    (hm : m ≤ 4096) :
    List.Disjoint (counterRun c n) (counterRun c' m) ↔
      n = 0 ∨ m = 0 ∨ a + n ≤ b ∨ b + m ≤ a := by
  -- two counters of the runs are equal exactly when their offsets are
  have hoff : ∀ k l, k < 4096 → l < 4096 →
      (c + BitVec.ofNat 128 k = c' + BitVec.ofNat 128 l ↔ a + k = b + l) := by
    intro k l hk hl
    rw [← BitVec.toNat_inj, BitVec.toNat_add, BitVec.toNat_add, BitVec.toNat_ofNat,
      BitVec.toNat_ofNat, hc, hc']
    have := c.isLt
    have := c'.isLt
    omega
  constructor
  · intro hdis
    by_contra hover
    obtain ⟨hn0, hm0, hab, hba⟩ : n ≠ 0 ∧ m ≠ 0 ∧ b < a + n ∧ a < b + m := by omega
    refine hdis (a := toBeBytes (c + BitVec.ofNat 128 (b - a))) ?_ ?_
    · exact List.mem_map.2 ⟨b - a, List.mem_range.2 (by omega), rfl⟩
    · refine List.mem_map.2 ⟨a - b, List.mem_range.2 (by omega), ?_⟩
      rw [(hoff (b - a) (a - b) (by omega) (by omega)).2 (by omega)]
  · intro hover x hx hx'
    obtain ⟨k, hk, rfl⟩ := List.mem_map.1 hx
    obtain ⟨l, hl, heq⟩ := List.mem_map.1 hx'
    rw [List.mem_range] at hk hl
    have := (hoff k l (by omega) (by omega)).1 (toBeBytes_injective heq).symm
    omega

/-- The runs of counter blocks of the packets `s` and `t` over one nonce base do not meet. -/
def BlocksApart (iv : Block) (s t : U64) (d e : List UInt8) : Prop :=
  blockCount d = 0 ∨ blockCount e = 0 ∨
    (lowWord iv ^^^ s).toNat + blockCount d ≤ (lowWord iv ^^^ t).toNat ∨
    (lowWord iv ^^^ t).toNat + blockCount e ≤ (lowWord iv ^^^ s).toNat

/-- Two AES-CTR instances with one nonce base. -/
theorem SessionCipher.blocks_disjoint_iff (P : Primitives) {b c : SessionCipher}
    (hctr : c.method = .aes128Ctr ∨ c.method = .aes256Ctr) (hmethod : b.method = c.method)
    (hiv : b.baseIv = c.baseIv) {d e : List UInt8} (hd : d.length ≤ 65536)
    (he : e.length ≤ 65536) :
    List.Disjoint (c.counterBlocks P d) (b.counterBlocks P e) ↔
      BlocksApart c.baseIv c.seq b.seq d e := by
  obtain ⟨h16, h8⟩ : c.method.ivLen = 16 ∧ SessionCipher.xorWidth c.method = 8 := by
    rcases hctr with h | h <;> rw [h] <;> exact ⟨rfl, rfl⟩
  have hctr' : b.method = .aes128Ctr ∨ b.method = .aes256Ctr := by rwa [hmethod]
  rw [counterBlocks_eq P hctr, counterBlocks_eq P hctr', hmethod, hiv]
  refine counterRun_disjoint_iff (fromBeBytes_nonceAt h16 h8 c.baseIv c.seq)
    (fromBeBytes_nonceAt h16 h8 c.baseIv b.seq) (BitVec.isLt _) (BitVec.isLt _) ?_ ?_
  · rw [blockCount]
    omega
  · rw [blockCount]
    omega

/-- Two instances of one AES-CTR derivation, advanced by `n₁` and `n₂` packets. -/
theorem SessionCipher.Advanced.blocks_disjoint_iff (P : Primitives) {c c₁ c₂ : SessionCipher}
    {n₁ n₂ : ℕ} (hseq : c.seq = 0) (h₁ : Advanced c c₁ n₁) (h₂ : Advanced c c₂ n₂)
    (hctr : c.method = .aes128Ctr ∨ c.method = .aes256Ctr) {d e : List UInt8}
    (hd : d.length ≤ 65536) (he : e.length ≤ 65536) :
    List.Disjoint (c₁.counterBlocks P d) (c₂.counterBlocks P e) ↔
      BlocksApart c.baseIv (BitVec.ofNat 64 n₁) (BitVec.ofNat 64 n₂) d e := by
  have hctr₁ : c₁.method = .aes128Ctr ∨ c₁.method = .aes256Ctr := by rwa [h₁.method]
  have hnum : ∀ n, c.seq + BitVec.ofNat 64 n = BitVec.ofNat 64 n := by
    intro n
    rw [hseq]
    exact BitVec.zero_add _
  rw [SessionCipher.blocks_disjoint_iff P hctr₁ (h₂.method.trans h₁.method.symm)
    (h₂.baseIv.trans h₁.baseIv.symm) hd he, h₁.baseIv, h₁.seq, h₂.seq, hnum, hnum]

/-- Two packets of one AES-CTR direction, of at most 64 KiB each, share no counter block exactly when
one of them is empty or the runs of blocks that start at the two mixed counters do not overlap. -/
theorem counterBlocks_disjoint_iff (P : Primitives) (c : SessionCipher)
    (hctr : c.method = .aes128Ctr ∨ c.method = .aes256Ctr) (s t : U64) (d e : List UInt8)
    (hd : d.length ≤ 65536) (he : e.length ≤ 65536) :
    List.Disjoint (SessionCipher.counterBlocks P { c with seq := s } d)
        (SessionCipher.counterBlocks P { c with seq := t } e) ↔
      blockCount d = 0 ∨ blockCount e = 0 ∨
        (lowWord c.baseIv ^^^ s).toNat + blockCount d ≤ (lowWord c.baseIv ^^^ t).toNat ∨
        (lowWord c.baseIv ^^^ t).toNat + blockCount e ≤ (lowWord c.baseIv ^^^ s).toNat := by
  rw [SessionCipher.blocks_disjoint_iff P (c := { c with seq := s })
    (b := { c with seq := t }) hctr rfl rfl hd he, BlocksApart]

/-- An AES-128-CTR instance whose nonce base is zero. -/
def zeroIvCipher : SessionCipher where
  method := .aes128Ctr
  core := .aes128 (Vector.replicate 16 0)
  baseIv := Vector.replicate 16 0
  seq := 0
  encrypting := true
  core_fits := rfl

/-- Two packets of one block each are separated there. -/
theorem counterBlocks_disjoint_short :
    List.Disjoint (SessionCipher.counterBlocks .sample { zeroIvCipher with seq := 0 } [7])
      (SessionCipher.counterBlocks .sample { zeroIvCipher with seq := 1 } [9]) :=
  (counterBlocks_disjoint_iff .sample zeroIvCipher (Or.inl rfl) 0 1 [7] [9] (by decide)
    (by decide)).2 (by decide)

/-- A first packet of two blocks and the packet after it share a counter block. -/
theorem counterBlocks_overlap :
    ¬ List.Disjoint
      (SessionCipher.counterBlocks .sample { zeroIvCipher with seq := 0 } (List.replicate 32 0))
      (SessionCipher.counterBlocks .sample { zeroIvCipher with seq := 1 } (List.replicate 16 0)) := by
  rw [SessionCipher.counterBlocks_eq .sample (c := { zeroIvCipher with seq := 0 }) (Or.inl rfl),
    SessionCipher.counterBlocks_eq .sample (c := { zeroIvCipher with seq := 1 }) (Or.inl rfl),
    counterRun_disjoint_iff (SessionCipher.fromBeBytes_nonceAt rfl rfl _ _)
      (SessionCipher.fromBeBytes_nonceAt rfl rfl _ _) (BitVec.isLt _) (BitVec.isLt _) (by decide)
      (by decide)]
  decide

/-! ### The counter blocks of the two directions -/

/-- After the handshake, the next packet of the client and the next packet of the server, of at most
64 KiB each, share no counter block exactly when one of them is empty or the runs that start at their
mixed counters do not overlap; and so in each cipher layer in counter mode. -/
theorem directions_blocks_disjoint_iff (P : Primitives) (key : ObfuscationKey) (ivv : U128)
    (client server : TxCore) (hc : client.key = key) (hs : server.key = key)
    (sent received : List Send) (hsent : ∀ m ∈ sent, m.Legal) (hrecv : ∀ m ∈ received, m.Legal)
    (d e : List UInt8) (hd : d.length ≤ 65536) (he : e.length ≤ 65536) :
    (key.transport = .aes128Ctr ∨ key.transport = .aes256Ctr →
      (List.Disjoint (((client.dataPlane P ivv).sendAll P sent).transportTx.counterBlocks P d)
          (((server.dataPlane P ivv).sendAll P received).transportTx.counterBlocks P e) ↔
        BlocksApart (client.dataPlane P ivv).transportTx.baseIv (BitVec.ofNat 64 sent.length)
          (BitVec.ofNat 64 received.length) d e)) ∧
    (key.protocol = .aes128Ctr ∨ key.protocol = .aes256Ctr →
      (List.Disjoint (((client.dataPlane P ivv).sendAll P sent).protocolTx.counterBlocks P d)
          (((server.dataPlane P ivv).sendAll P received).protocolTx.counterBlocks P e) ↔
        BlocksApart (client.dataPlane P ivv).protocolTx.baseIv (BitVec.ofNat 64 sent.length)
          (BitVec.ofNat 64 received.length) d e)) := by
  obtain ⟨⟨hct, hst⟩, hcp, hsp⟩ := TxCore.dataPlane_advanced P ivv hc hs hsent hrecv
  subst hc
  refine ⟨fun hctr => ?_, fun hctr => ?_⟩
  · exact hct.blocks_disjoint_iff P rfl hst hctr hd he
  · exact hcp.blocks_disjoint_iff P rfl hsp hctr hd he

/-- So numbers that differ do not separate the directions: the first packet of the client and the
second packet of the server share a counter block as soon as both are longer than a block. -/
theorem directions_blocks_overlap (P : Primitives) (key : ObfuscationKey) (ivv : U128)
    (client server : TxCore) (hc : client.key = key) (hs : server.key = key) (m : Send)
    (hm : m.Legal) (hctr : key.transport = .aes128Ctr ∨ key.transport = .aes256Ctr)
    (d e : List UInt8) (hd : 16 < d.length ∧ d.length ≤ 65536)
    (he : 16 < e.length ∧ e.length ≤ 65536) :
    ¬ List.Disjoint ((client.dataPlane P ivv).transportTx.counterBlocks P d)
      (((server.dataPlane P ivv).sendAll P [m]).transportTx.counterBlocks P e) := by
  have hiff := (directions_blocks_disjoint_iff P key ivv client server hc hs [] [m] (by simp)
    (by simpa using hm) d e hd.2 he.2).1 hctr
  intro hdis
  have hapart := hiff.1 hdis
  generalize (client.dataPlane P ivv).transportTx.baseIv = iv at hapart
  -- mixing in a one moves the counter by at most one
  have hhalf : (lowWord iv ^^^ 1#64).toNat / 2 = (lowWord iv).toNat / 2 := by
    rw [BitVec.toNat_xor, Nat.xor_div_two]
    simp
  simp only [BlocksApart, blockCount, List.length_nil, List.length_singleton] at hapart
  rw [BitVec.xor_zero] at hapart
  omega

end Nextppp

/-
**Constants, errors, configuration and randomness of the protocol core.**

The shared vocabulary of `crates/core`: the frame-size constants of `lib.rs`, the error type of
`error.rs`, the obfuscation key of `config.rs` with its validation, and the random generator that
every sending function draws from.

The random generator is a third-party component that the source only uses through
`random_range(lo..=hi)` and `random::<u64>()`/`random::<u128>()`.  It is modelled by a tape of
natural numbers, one entry per draw, reduced into the requested range: every sequence of draws the
real generator can make is the sequence of some tape, so a statement about all tapes is a statement
about every generator output.

Main definitions:

* `Nextppp.Error`, `Nextppp.ObfuscationKey`, `Nextppp.ObfuscationKey.validate`;
* `Nextppp.ValidKey` — a key that `validate` accepts;
* `Nextppp.Rng`, `Nextppp.Rng.randomRange`, `Nextppp.Rng.randomBits`;
* `Nextppp.Method`, `Nextppp.CipherRole`, `Nextppp.SessionRole`.
-/

import Nextppp.Lib.Lists
import Nextppp.Lib.Digits

set_option relaxedAutoImplicit false
set_option autoImplicit false

namespace Nextppp

/-! ### Constants -/

/-- Maximum single-frame plaintext size. -/
def pppBufferSize : ℕ := 65536

/-- Worst-case base94 frame length. -/
def base94MaxFrame : ℕ := pppBufferSize * 2 + 64

/-- Length-modulus lower bound. -/
def modMin : ℕ := 64 * 64 * 64

/-- Length-modulus upper bound. -/
def modMax : ℕ := 94 * 94 * 94

/-- A 128-bit word: session ids, the `ivv` and `nmux`. -/
abbrev U128 := BitVec 128

/-- A 64-bit word. -/
abbrev U64 := BitVec 64

/-! ### Errors -/

/-- The kinds of transport failure the core itself produces. -/
inductive IoKind
  | unexpectedEof
  deriving DecidableEq, Repr

/-- The errors of the protocol stack. -/
inductive Error
  | io (kind : IoKind) (msg : String)
  | invalidFrame
  | invalidBase94
  | checksumMismatch
  | invalidSessionId
  | handshakeFailed (stage : String)
  | flagsMismatch
  | roleRefused
  | frameTooLarge (len : ℕ)
  | zeroLength
  | invalidConfig (problem : String)
  deriving DecidableEq, Repr

namespace Error

/-- Whether the transport was closed. -/
def isEof : Error → Bool
  | io .unexpectedEof _ => true
  | _ => false

end Error

/-! ### Ciphers and roles -/

/-- Which protocol layer a cipher instance protects. -/
inductive CipherRole
  | protocol
  | transport
  deriving DecidableEq, Repr

namespace CipherRole

/-- Lowercase name mixed into the key-derivation salt. -/
def name : CipherRole → String
  | protocol => "protocol"
  | transport => "transport"

end CipherRole

/-- The supported stream-cipher methods. -/
inductive Method
  | aes128Cfb
  | aes256Cfb
  | aes128Ctr
  | aes256Ctr
  | chaCha20
  deriving DecidableEq, Repr

namespace Method

/-- Canonical name of the method. -/
def name : Method → String
  | aes128Cfb => "aes-128-cfb"
  | aes256Cfb => "aes-256-cfb"
  | aes128Ctr => "aes-128-ctr"
  | aes256Ctr => "aes-256-ctr"
  | chaCha20 => "chacha20"

/-- Nonce length in bytes. -/
def ivLen : Method → ℕ
  | aes128Cfb | aes256Cfb | aes128Ctr | aes256Ctr => 16
  | chaCha20 => 12

end Method

/-- Session role requested in the high word of the `ivv`. -/
inductive SessionRole
  | muxTunnel
  | bondLink
  deriving DecidableEq, Repr

/-! ### Configuration -/

/-- Highest exponent of the noise prelude that a valid key may carry. -/
def maxNopExponent : ℕ := 20

/-- Obfuscation and cipher parameters shared by both endpoints. -/
structure ObfuscationKey where
  kf : UInt32
  kl : UInt8
  kh : UInt8
  kx : UInt32
  protocol : Method
  protocolKey : String
  transport : Method
  transportKey : String
  masked : Bool
  plaintext : Bool
  deltaEncode : Bool
  shuffleData : Bool
  deriving DecidableEq, Repr

namespace ObfuscationKey

/-- The default key. -/
def default : ObfuscationKey where
  kf := 154543927
  kl := 10
  kh := 12
  kx := 128
  protocol := .aes128Cfb
  protocolKey := "nextppp"
  transport := .aes256Ctr
  transportKey := "nextppp"
  masked := true
  plaintext := false
  deltaEncode := true
  shuffleData := true

/-- The invariants the protocol stack relies on; the error names the offending field. -/
def validate (key : ObfuscationKey) : Except Error Unit :=
  if key.kl.toNat > maxNopExponent ∨ key.kh.toNat > maxNopExponent then
    .error (.invalidConfig "kl/kh exceed MAX_NOP_EXPONENT")
  else if key.protocolKey.isEmpty ∨ key.transportKey.isEmpty then
    .error (.invalidConfig "cipher password is empty")
  else .ok ()

theorem validate_default : validate default = .ok () := by decide

/-- The keys that are accepted. -/
theorem validate_eq_ok {key : ObfuscationKey} :
    key.validate = .ok () ↔ (key.kl.toNat ≤ maxNopExponent ∧ key.kh.toNat ≤ maxNopExponent) ∧
      key.protocolKey ≠ "" ∧ key.transportKey ≠ "" := by
  unfold validate
  split
  · rename_i hexp
    constructor
    · intro h
      cases h
    · rintro ⟨hle, -⟩
      omega
  · rename_i hexp
    split
    · rename_i hempty
      simp only [String.isEmpty_iff] at hempty
      constructor
      · intro h
        cases h
      · rintro ⟨-, hne⟩
        exact absurd hempty (by simp [hne])
    · rename_i hkeys
      simp only [String.isEmpty_iff, not_or] at hkeys
      exact ⟨fun _ => ⟨by omega, hkeys⟩, fun _ => rfl⟩

end ObfuscationKey

/-- A key that `validate` accepts. -/
structure ValidKey extends ObfuscationKey where
  valid : toObfuscationKey.validate = .ok ()

namespace ValidKey

instance : CoeOut ValidKey ObfuscationKey := ⟨toObfuscationKey⟩

/-- The default key. -/
def default : ValidKey := ⟨.default, ObfuscationKey.validate_default⟩

/-- Both exponents of a valid key are below the width of a word. -/
theorem exponents_le (key : ValidKey) :
    key.kl.toNat ≤ maxNopExponent ∧ key.kh.toNat ≤ maxNopExponent :=
  (ObfuscationKey.validate_eq_ok.1 key.valid).1

end ValidKey

/-! ### Randomness -/

/-- The random generator: the tape of the draws it is going to make. -/
abbrev Rng := Stream' ℕ

namespace Rng

/-- `random_range(lo..=hi)`. -/
def randomRange (rng : Rng) (lo hi : ℕ) : ℕ × Rng :=
  (lo + rng.head % (hi - lo + 1), rng.tail)

/-- `random::<uN>()` for a word of `w` bits. -/
def randomBits (rng : Rng) (w : ℕ) : BitVec w × Rng :=
  (BitVec.ofNat w rng.head, rng.tail)

theorem randomRange_ge (rng : Rng) (lo hi : ℕ) : lo ≤ (rng.randomRange lo hi).1 :=
  Nat.le_add_right _ _

theorem randomRange_le (rng : Rng) {lo hi : ℕ} (h : lo ≤ hi) : (rng.randomRange lo hi).1 ≤ hi := by
  have : rng.head % (hi - lo + 1) < hi - lo + 1 := Nat.mod_lt _ (Nat.succ_pos _)
  simp only [randomRange]
  omega

/-- A byte drawn from a range of bytes is in that range. -/
theorem toNat_ofNat_randomRange (rng : Rng) {lo hi : ℕ} (h : lo ≤ hi) (hhi : hi < 256) :
    (UInt8.ofNat (rng.randomRange lo hi).1).toNat = (rng.randomRange lo hi).1 := by
  have := randomRange_le rng h
  rw [UInt8.toNat_ofNat_of_lt' (by simp [UInt8.size]; omega)]

end Rng

end Nextppp

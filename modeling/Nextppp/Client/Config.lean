/-
**The configuration of `config.rs`.**

A configuration file names its ciphers, may leave the passwords of the two layers to one shared
password, and carries the sizes of the pool.  `load` converts the obfuscation section only to see whether
it can be converted; the runtime converts it again.  A parsed file is the starting point here: the
conversion of the section into the key of the core, what the two loaders refuse, and the parameters that
the client runs with.

Main definitions:

* `Nextppp.Method.fromName` — the names of the ciphers;
* `Nextppp.ObfuscationConfig.toKey` — the key of a section, or what is wrong with it;
* `Nextppp.Config.ClientConfig.load`, `Nextppp.Config.ServerConfig.load` — the checks on a file;
* `Nextppp.Config.ClientRuntime.fromConfig`, `Nextppp.Config.ServerRuntime.fromConfig`.

Main results:

* `Nextppp.ObfuscationConfig.toKey_eq_ok`, `Nextppp.ObfuscationConfig.toKey_eq_error` — which sections
  have a key, and what is blamed in the others;
* `Nextppp.ObfuscationConfig.toKey_ofKey` — every key that the core accepts can be configured;
* `Nextppp.Config.loaded_agree` — both ends of two files that are loaded start, and when their keys meet;
* `Nextppp.Config.files_decide` — what two files decide about the handshake of their runtimes.
-/

import Nextppp.Core.Agreement
import Nextppp.Client.Dial

set_option relaxedAutoImplicit false
set_option autoImplicit false

namespace Nextppp

/-! ### The names of the ciphers -/

/-- The characters that `trim` takes off both ends. -/
def isWhitespace (c : Char) : Bool :=
  let n := c.toNat
  (0x09 ≤ n && n ≤ 0x0d) || n == 0x20 || n == 0x85 || n == 0xa0 || n == 0x1680 ||
    (0x2000 ≤ n && n ≤ 0x200a) || n == 0x2028 || n == 0x2029 || n == 0x202f || n == 0x205f ||
    n == 0x3000

/-- A name without the whitespace around it. -/
def trim (name : List Char) : List Char :=
  ((name.dropWhile isWhitespace).reverse.dropWhile isWhitespace).reverse

/-- The method of a name, in any case and with any whitespace around it. -/
def Method.fromName (name : String) : Option Method :=
  match String.ofList ((trim name.toList).map Char.toLower) with
  | "aes-128-cfb" => some .aes128Cfb
  | "aes-256-cfb" => some .aes256Cfb
  | "aes-128-ctr" => some .aes128Ctr
  | "aes-256-ctr" => some .aes256Ctr
  | "chacha20" | "chacha20-ietf" => some .chaCha20
  | _ => none

/-- The canonical name is a name. -/
@[simp] theorem Method.fromName_name (m : Method) : Method.fromName m.name = some m := by
  cases m <;> decide

/-! ### The obfuscation section -/

/-- How an error of the core is shown. -/
def Error.display : Error → String
  | .io _ msg => "io error: " ++ msg
  | .invalidFrame => "invalid frame"
  | .invalidBase94 => "invalid base94 data"
  | .checksumMismatch => "first-frame checksum mismatch"
  | .invalidSessionId => "invalid session id"
  | .handshakeFailed stage => "handshake failed: " ++ stage
  | .flagsMismatch => "obfuscation flags mismatch between client and server"
  | .roleRefused => "server refused the requested session role"
  | .frameTooLarge len => "frame too large: " ++ toString len
  | .zeroLength => "zero-length payload rejected"
  | .invalidConfig problem => "invalid obfuscation config: " ++ problem

/-- The obfuscation section of a file. -/
structure ObfuscationConfig where
  kf : UInt32
  kl : UInt8
  kh : UInt8
  kx : UInt32
  protocol : String
  protocolKey : Option String
  transport : String
  transportKey : Option String
  masked : Bool
  plaintext : Bool
  deltaEncode : Bool
  shuffleData : Bool
  deriving DecidableEq, Repr

/-- The password of a layer that nobody chose. -/
def placeholderPassword : String := "nextppp"

namespace ObfuscationConfig

/-- The section that is left out: the default key, with its passwords left to the shared one. -/
def default : ObfuscationConfig where
  kf := ObfuscationKey.default.kf
  kl := ObfuscationKey.default.kl
  kh := ObfuscationKey.default.kh
  kx := ObfuscationKey.default.kx
  protocol := ObfuscationKey.default.protocol.name
  protocolKey := none
  transport := ObfuscationKey.default.transport.name
  transportKey := none
  masked := ObfuscationKey.default.masked
  plaintext := ObfuscationKey.default.plaintext
  deltaEncode := ObfuscationKey.default.deltaEncode
  shuffleData := ObfuscationKey.default.shuffleData

section ToKey

-- how the standard library quotes a string in a message
variable (debug : String → String)

/-- The method of a name, or the message that lists the names. -/
def method (name : String) : Except String Method :=
  match Method.fromName name with
  | some m => .ok m
  | none => .error ("unknown cipher method " ++ debug name ++
      " (supported: aes-128-cfb, aes-256-cfb, aes-128-ctr, aes-256-ctr, chacha20-ietf)")

/-- The password of a layer: its own, else the shared one, else the placeholder. -/
def resolvePassword (key shared : Option String) (field : String) : Except String String :=
  match key.or shared with
  | some p => if p.isEmpty then .error ("empty password for " ++ field) else .ok p
  | none => .ok placeholderPassword

/-- The key of a section, or the message of the first check that fails. -/
def toKey (c : ObfuscationConfig) (shared : Option String) : Except String ObfuscationKey := do
  let protocolKey ← resolvePassword c.protocolKey shared "protocol_key"
  let protocol ← method debug c.protocol
  let transportKey ← resolvePassword c.transportKey shared "transport_key"
  let transport ← method debug c.transport
  let key : ObfuscationKey :=
    { kf := c.kf
      kl := c.kl
      kh := c.kh
      kx := c.kx
      protocol := protocol
      protocolKey := protocolKey
      transport := transport
      transportKey := transportKey
      masked := c.masked
      plaintext := c.plaintext
      deltaEncode := c.deltaEncode
      shuffleData := c.shuffleData }
  match key.validate with
  | .ok () => .ok key
  | .error e => .error e.display

end ToKey

/-! ### Which sections have a key -/

/-- The password a layer uses. -/
def password (key shared : Option String) : String := (key.or shared).getD placeholderPassword

theorem resolvePassword_eq (key shared : Option String) (field : String) :
    resolvePassword key shared field =
      if password key shared = "" then .error ("empty password for " ++ field)
      else .ok (password key shared) := by
  unfold resolvePassword password
  cases key.or shared with
  | none => rfl
  | some p => simp only [Option.getD_some, String.isEmpty_iff]

/-- The key of a section whose names are known. -/
def keyOf (c : ObfuscationConfig) (shared : Option String) (protocol transport : Method) :
    ObfuscationKey where
  kf := c.kf
  kl := c.kl
  kh := c.kh
  kx := c.kx
  protocol := protocol
  protocolKey := password c.protocolKey shared
  transport := transport
  transportKey := password c.transportKey shared
  masked := c.masked
  plaintext := c.plaintext
  deltaEncode := c.deltaEncode
  shuffleData := c.shuffleData

/-- What is blamed in a section that has no key: the first check that fails. -/
inductive Blamed (debug : String → String) (shared : Option String) (c : ObfuscationConfig) :
    String → Prop
  | protocolKey (h : password c.protocolKey shared = "") :
      Blamed debug shared c "empty password for protocol_key"
  | protocol {e : String} (hpk : password c.protocolKey shared ≠ "")
      (h : method debug c.protocol = .error e) : Blamed debug shared c e
  | transportKey {p : Method} (hpk : password c.protocolKey shared ≠ "")
      (hp : method debug c.protocol = .ok p) (h : password c.transportKey shared = "") :
      Blamed debug shared c "empty password for transport_key"
  | transport {p : Method} {e : String} (hpk : password c.protocolKey shared ≠ "")
      (hp : method debug c.protocol = .ok p) (htk : password c.transportKey shared ≠ "")
      (h : method debug c.transport = .error e) : Blamed debug shared c e
  | exponents {p t : Method} (hpk : password c.protocolKey shared ≠ "")
      (hp : method debug c.protocol = .ok p) (htk : password c.transportKey shared ≠ "")
      (ht : method debug c.transport = .ok t)
      (h : maxNopExponent < c.kl.toNat ∨ maxNopExponent < c.kh.toNat) :
      Blamed debug shared c "invalid obfuscation config: kl/kh exceed MAX_NOP_EXPONENT"

variable {debug : String → String} {shared : Option String} {c : ObfuscationConfig}

theorem method_eq_ok {name : String} {m : Method} :
    method debug name = .ok m ↔ Method.fromName name = some m := by
  unfold method
  cases Method.fromName name with
  | none => simp
  | some m' => simp

/-- Past the passwords and the names the check of the core decides. -/
theorem toKey_named {p t : Method} (hpk : password c.protocolKey shared ≠ "")
    (hp : method debug c.protocol = .ok p) (htk : password c.transportKey shared ≠ "")
    (ht : method debug c.transport = .ok t) :
    c.toKey debug shared =
      match (c.keyOf shared p t).validate with
      | .ok () => .ok (c.keyOf shared p t)
      | .error e => .error e.display := by
  rw [toKey, resolvePassword_eq, if_neg hpk, hp, resolvePassword_eq, if_neg htk, ht]
  rfl

/-- The message of a section is what is blamed in it. -/
theorem Blamed.toKey {e : String} (hblamed : Blamed debug shared c e) :
    c.toKey debug shared = .error e := by
  cases hblamed with
  | protocolKey h =>
      rw [ObfuscationConfig.toKey, resolvePassword_eq, if_pos h]
      rfl
  | protocol hpk h =>
      rw [ObfuscationConfig.toKey, resolvePassword_eq, if_neg hpk, h]
      rfl
  | transportKey hpk hp h =>
      rw [ObfuscationConfig.toKey, resolvePassword_eq, if_neg hpk, hp, resolvePassword_eq, if_pos h]
      rfl
  | transport hpk hp htk h =>
      rw [ObfuscationConfig.toKey, resolvePassword_eq, if_neg hpk, hp, resolvePassword_eq, if_neg htk, h]
      rfl
  | exponents hpk hp htk ht h =>
      have hbad : ∀ p t, (c.keyOf shared p t).validate
          = .error (.invalidConfig "kl/kh exceed MAX_NOP_EXPONENT") := fun _ _ => if_pos h
      rw [toKey_named hpk hp htk ht, hbad]
      rfl

/-- A section has a key, which the core accepts, or a check is to blame. -/
theorem named_or_blamed (debug : String → String) (shared : Option String) (c : ObfuscationConfig) :
    (∃ p t, method debug c.protocol = .ok p ∧ method debug c.transport = .ok t ∧
      (c.keyOf shared p t).validate = .ok ()) ∨ ∃ e, Blamed debug shared c e := by
  by_cases hpk : password c.protocolKey shared = ""
  · exact .inr ⟨_, .protocolKey hpk⟩
  cases hp : method debug c.protocol with
  | error e => exact .inr ⟨e, .protocol hpk hp⟩
  | ok p =>
      by_cases htk : password c.transportKey shared = ""
      · exact .inr ⟨_, .transportKey hpk hp htk⟩
      cases ht : method debug c.transport with
      | error e => exact .inr ⟨e, .transport hpk hp htk ht⟩
      | ok t =>
          by_cases hexp : maxNopExponent < c.kl.toNat ∨ maxNopExponent < c.kh.toNat
          · exact .inr ⟨_, .exponents hpk hp htk ht hexp⟩
          · rw [not_or, Nat.not_lt, Nat.not_lt] at hexp
            exact .inl ⟨p, t, rfl, rfl, ObfuscationKey.validate_eq_ok.2 ⟨hexp, hpk, htk⟩⟩

/-- The key of a section whose key the core accepts. -/
theorem toKey_of_validate {p t : Method} (hp : method debug c.protocol = .ok p)
    (ht : method debug c.transport = .ok t) (h : (c.keyOf shared p t).validate = .ok ()) :
    c.toKey debug shared = .ok (c.keyOf shared p t) := by
  obtain ⟨-, hpk, htk⟩ := ObfuscationKey.validate_eq_ok.1 h
  rw [toKey_named hpk hp htk ht, h]

/-- **The sections that have a key** are those whose names are names of ciphers and whose key the core
accepts. -/
theorem toKey_eq_ok {key : ObfuscationKey} :
    c.toKey debug shared = .ok key ↔ ∃ p t, Method.fromName c.protocol = some p ∧
      Method.fromName c.transport = some t ∧ c.keyOf shared p t = key ∧ key.validate = .ok () := by
  constructor
  · intro h
    rcases named_or_blamed debug shared c with ⟨p, t, hp, ht, hvalid⟩ | ⟨e, hblamed⟩
    · rw [toKey_of_validate hp ht hvalid] at h
      obtain rfl := Except.ok.inj h
      exact ⟨p, t, method_eq_ok.1 hp, method_eq_ok.1 ht, rfl, hvalid⟩
    · rw [hblamed.toKey] at h
      cases h
  · rintro ⟨p, t, hp, ht, rfl, hvalid⟩
    exact toKey_of_validate (method_eq_ok.2 hp) (method_eq_ok.2 ht) hvalid

/-- **The message of a section without a key** names the first check that fails on it. -/
theorem toKey_eq_error {e : String} :
    c.toKey debug shared = .error e ↔ Blamed debug shared c e := by
  refine ⟨fun h => ?_, Blamed.toKey⟩
  rcases named_or_blamed debug shared c with ⟨p, t, hp, ht, hvalid⟩ | ⟨e', hblamed⟩
  · rw [toKey_of_validate hp ht hvalid] at h
    cases h
  · rw [hblamed.toKey] at h
    obtain rfl := Except.error.inj h
    exact hblamed

/-- The section that spells a key out. -/
def ofKey (key : ObfuscationKey) : ObfuscationConfig where
  kf := key.kf
  kl := key.kl
  kh := key.kh
  kx := key.kx
  protocol := key.protocol.name
  protocolKey := some key.protocolKey
  transport := key.transport.name
  transportKey := some key.transportKey
  masked := key.masked
  plaintext := key.plaintext
  deltaEncode := key.deltaEncode
  shuffleData := key.shuffleData

/-- **Every key that the core accepts can be configured**, whatever the shared password is. -/
theorem toKey_ofKey (debug : String → String) (shared : Option String) {key : ObfuscationKey}
    (h : key.validate = .ok ()) : (ofKey key).toKey debug shared = .ok key :=
  toKey_eq_ok.2 ⟨key.protocol, key.transport, Method.fromName_name _, Method.fromName_name _, rfl, h⟩

/-- The section that is left out has the default key. -/
theorem toKey_default (debug : String → String) :
    default.toKey debug none = .ok ObfuscationKey.default :=
  toKey_eq_ok.2 ⟨ObfuscationKey.default.protocol, ObfuscationKey.default.transport,
    Method.fromName_name ObfuscationKey.default.protocol,
    Method.fromName_name ObfuscationKey.default.transport, rfl, ObfuscationKey.validate_default⟩

end ObfuscationConfig

namespace Config

open ObfuscationConfig Run

/-! ### The two files -/

/-- The section of the pool. -/
structure MuxSection where
  enabled : Bool := true
  poolSize : UInt32 := 4
  maxStreams : UInt32 := 64

/-- The size of the pool; zero means a tunnel of its own for every connection. -/
def MuxSection.effectivePoolSize (mux : MuxSection) : UInt32 := if mux.enabled then mux.poolSize else 0

/-- The section of the bonded inbound. -/
structure BondClientSection where
  links : UInt32 := 3
  poolSize : UInt32 := 1
  maxStreams : UInt32 := 64

/-- A client file, without the two addresses. -/
structure ClientConfig where
  bond : Option BondClientSection := none
  password : Option String := none
  maxConnections : Option UInt64 := none
  connectTimeout : UInt64 := 10
  connectRetries : UInt32 := 1
  mux : MuxSection := {}
  obfuscation : ObfuscationConfig := .default

/-- A server file, without the address. -/
structure ServerConfig where
  bondEnabled : Bool := true
  password : Option String := none
  connectTimeout : UInt64 := 10
  handshakeTimeout : UInt64 := 15
  maxConnections : Option UInt64 := none
  maxHandshakes : Option UInt64 := some 256
  maxStreamsPerConn : Option UInt64 := some 1024
  obfuscation : ObfuscationConfig := .default

/-- The parameters of bonded tunnels. -/
structure BondParams where
  links : UInt32
  poolSize : UInt32
  maxStreams : UInt32

/-- What a client runs with. -/
structure ClientRuntime where
  serverKey : ObfuscationKey
  connectTimeout : UInt64
  connectRetries : UInt32
  maxConnections : Option UInt64
  poolSize : UInt32
  maxStreams : UInt32
  bond : Option BondParams

/-- What a server runs with. -/
structure ServerRuntime where
  key : ObfuscationKey
  connectTimeout : UInt64
  handshakeTimeout : UInt64
  maxConnections : Option UInt64
  maxHandshakes : Option UInt64
  maxStreamsPerConn : Option UInt64
  allowBond : Bool

section Load

variable (debug : String → String)

/-- The checks on a parsed client file. -/
def ClientConfig.load (cfg : ClientConfig) : Except String ClientConfig := do
  let _ ← cfg.obfuscation.toKey debug cfg.password
  if cfg.bond.any fun bond => bond.links == 0 then .error "bond.links must be >= 1"
  else .ok cfg

/-- The checks on a parsed server file. -/
def ServerConfig.load (cfg : ServerConfig) : Except String ServerConfig := do
  let _ ← cfg.obfuscation.toKey debug cfg.password
  .ok cfg

/-- The runtime of a client file. -/
def ClientRuntime.fromConfig (cfg : ClientConfig) : Except String ClientRuntime := do
  let key ← cfg.obfuscation.toKey debug cfg.password
  .ok
    { serverKey := key
      connectTimeout := cfg.connectTimeout
      connectRetries := cfg.connectRetries
      maxConnections := cfg.maxConnections
      poolSize := cfg.mux.effectivePoolSize
      maxStreams := max cfg.mux.maxStreams 1
      bond := cfg.bond.map fun bond => ⟨bond.links, bond.poolSize, max bond.maxStreams 1⟩ }

/-- The runtime of a server file. -/
def ServerRuntime.fromConfig (cfg : ServerConfig) : Except String ServerRuntime := do
  let key ← cfg.obfuscation.toKey debug cfg.password
  .ok
    { key := key
      connectTimeout := cfg.connectTimeout
      handshakeTimeout := cfg.handshakeTimeout
      maxConnections := cfg.maxConnections
      maxHandshakes := cfg.maxHandshakes
      maxStreamsPerConn := cfg.maxStreamsPerConn
      allowBond := cfg.bondEnabled }

end Load

/-! ### Loaded files -/

section Loaded

variable {debug : String → String}

/-- A computation whose last step cannot fail succeeds with its first. -/
theorem exists_of_bind {α β : Type} {x : Except String α} {f : α → β} {r : β}
    (h : (x.bind fun a => .ok (f a)) = .ok r) : ∃ a, x = .ok a ∧ f a = r := by
  cases x with
  | error e => cases h
  | ok a => exact ⟨a, rfl, Except.ok.inj h⟩

theorem ClientConfig.load_eq_ok {cfg cfg' : ClientConfig} :
    cfg.load debug = .ok cfg' ↔ cfg = cfg' ∧
      (∃ key, cfg.obfuscation.toKey debug cfg.password = .ok key) ∧
      ∀ bond, cfg.bond = some bond → bond.links ≠ 0 := by
  unfold ClientConfig.load
  cases cfg.obfuscation.toKey debug cfg.password with
  | error e =>
      constructor
      · intro h
        cases h
      · rintro ⟨-, ⟨key, h⟩, -⟩
        cases h
  | ok key =>
      change (if _ then _ else _) = _ ↔ _
      cases cfg.bond with
      | none => simp [Option.any]
      | some bond =>
          by_cases hlinks : bond.links = 0
          · simp [hlinks]
          · simp [hlinks]

theorem ServerConfig.load_eq_ok {cfg cfg' : ServerConfig} :
    cfg.load debug = .ok cfg' ↔ cfg = cfg' ∧
      ∃ key, cfg.obfuscation.toKey debug cfg.password = .ok key := by
  constructor
  · intro h
    obtain ⟨key, hkey, hcfg⟩ := exists_of_bind h
    exact ⟨hcfg, key, hkey⟩
  · rintro ⟨rfl, key, hkey⟩
    rw [ServerConfig.load, hkey]
    rfl

/-- Two files agree on what the wire depends on: the numbers, the methods whatever they are called, and
the passwords wherever they stand. -/
structure SameSecrets (cfg : ClientConfig) (scfg : ServerConfig) : Prop where
  kf : scfg.obfuscation.kf = cfg.obfuscation.kf
  kl : scfg.obfuscation.kl = cfg.obfuscation.kl
  kh : scfg.obfuscation.kh = cfg.obfuscation.kh
  kx : scfg.obfuscation.kx = cfg.obfuscation.kx
  protocol : Method.fromName scfg.obfuscation.protocol = Method.fromName cfg.obfuscation.protocol
  protocolKey : password scfg.obfuscation.protocolKey scfg.password
    = password cfg.obfuscation.protocolKey cfg.password
  transport : Method.fromName scfg.obfuscation.transport = Method.fromName cfg.obfuscation.transport
  transportKey : password scfg.obfuscation.transportKey scfg.password
    = password cfg.obfuscation.transportKey cfg.password

/-- Two files agree on the switches of the data plane. -/
def SameSwitches (cfg : ClientConfig) (scfg : ServerConfig) : Prop :=
  scfg.obfuscation.masked = cfg.obfuscation.masked ∧
    scfg.obfuscation.plaintext = cfg.obfuscation.plaintext ∧
    scfg.obfuscation.deltaEncode = cfg.obfuscation.deltaEncode ∧
    scfg.obfuscation.shuffleData = cfg.obfuscation.shuffleData

section Keys

variable {cfg : ClientConfig} {scfg : ServerConfig} {kc ks : ObfuscationKey}

/-- The keys of two files have the same wire exactly if the files agree on the secrets. -/
theorem sameWire_iff (hc : cfg.obfuscation.toKey debug cfg.password = .ok kc)
    (hs : scfg.obfuscation.toKey debug scfg.password = .ok ks) :
    SameWire kc ks ↔ SameSecrets cfg scfg := by
  obtain ⟨p, t, hp, ht, rfl, -⟩ := toKey_eq_ok.1 hc
  obtain ⟨p', t', hp', ht', rfl, -⟩ := toKey_eq_ok.1 hs
  constructor
  · intro h
    exact ⟨h.kf, h.kl, h.kh, h.kx, by rw [hp, hp']; exact congrArg some h.protocol, h.protocolKey,
      by rw [ht, ht']; exact congrArg some h.transport, h.transportKey⟩
  · intro h
    have hprotocol := h.protocol
    have htransport := h.transport
    rw [hp, hp'] at hprotocol
    rw [ht, ht'] at htransport
    exact ⟨h.kf, h.kl, h.kh, h.kx, Option.some.inj hprotocol, h.protocolKey,
      Option.some.inj htransport, h.transportKey⟩

/-- The keys of two files have the same flags exactly if the files agree on the switches. -/
theorem sameFlags_iff (hc : cfg.obfuscation.toKey debug cfg.password = .ok kc)
    (hs : scfg.obfuscation.toKey debug scfg.password = .ok ks) :
    SameFlags kc ks ↔ SameSwitches cfg scfg := by
  obtain ⟨p, t, -, -, rfl, -⟩ := toKey_eq_ok.1 hc
  obtain ⟨p', t', -, -, rfl, -⟩ := toKey_eq_ok.1 hs
  exact Iff.rfl

end Keys

theorem verdict_eq_ok {kc ks : ObfuscationKey} {role : SessionRole} {allowBond : Bool} :
    verdict kc ks role allowBond = .ok () ↔
      SameFlags kc ks ∧ (role = .bondLink → allowBond = true) := by
  unfold verdict
  split
  · rename_i hflags
    constructor
    · intro h
      cases h
    · rintro ⟨h, -⟩
      exact absurd h hflags
  · rename_i hflags
    rw [not_not] at hflags
    split
    · rename_i hrefused
      constructor
      · intro h
        cases h
      · rintro ⟨-, h⟩
        rw [h hrefused.1] at hrefused
        cases hrefused.2
    · rename_i hgranted
      rw [not_and, Bool.not_eq_false] at hgranted
      exact ⟨fun _ => ⟨hflags, hgranted⟩, fun _ => rfl⟩

/-- A number that is raised to one at least. -/
theorem one_le_max (n : UInt32) : 1 ≤ max n 1 := by
  change 1 ≤ if n ≤ 1 then 1 else n
  split
  · exact UInt32.le_refl 1
  · rename_i h
    rw [UInt32.le_iff_toNat_le] at h ⊢
    omega

/-- A server file that writes out what a client file leaves to its defaults. -/
def writtenOut : ServerConfig where
  password := some "shared"
  obfuscation :=
    { ObfuscationConfig.default with
      protocol := " AES-128-CFB "
      protocolKey := some "nextppp"
      transportKey := some "nextppp" }

/-- What two files decide: how each end can have ended in a state of a run, and that a run ends so. -/
structure FilesDecide (P : Primitives) (cfg : ClientConfig) (scfg : ServerConfig) (role : SessionRole)
    (sid : U128) (s : Net) : Prop where
  /-- A client that is let in has the session id. -/
  done : s.client.pc = .done → SameSwitches cfg scfg ∧ (role = .bondLink → scfg.bondEnabled = true) ∧
    s.client.conn.sessionId = sid
  /-- A client that is not let in is told why. -/
  failed : ∀ e, s.client.pc = .failed e → (¬SameSwitches cfg scfg ∧ e = .flagsMismatch) ∨
    (SameSwitches cfg scfg ∧ role = .bondLink ∧ scfg.bondEnabled = false ∧ e = .roleRefused)
  server : ∀ e, s.server.pc ≠ .failed e
  returns : Inevitable (Net.step P) (fun _ a => a.handshake = true)
    (fun s => (s.client.pc = .done ∨ ∃ e, s.client.pc = .failed e) ∧
      s.server.pc = .done (effectiveRole role scfg.bondEnabled)) s
  /-- Ends that agree, and may, exchange everything they write. -/
  completes : SameSwitches cfg scfg → (role = .bondLink → scfg.bondEnabled = true) →
    Agreed P role sid s ∧ Inevitable (Net.step P) (fun _ a => a.writes = false) (Completed role sid) s

theorem verdict_eq_error {kc ks : ObfuscationKey} {role : SessionRole} {allowBond : Bool} {e : Error}
    (h : verdict kc ks role allowBond = .error e) : (¬SameFlags kc ks ∧ e = .flagsMismatch) ∨
      (SameFlags kc ks ∧ role = .bondLink ∧ allowBond = false ∧ e = .roleRefused) := by
  unfold verdict at h
  split at h
  · rename_i hflags
    exact .inl ⟨hflags, (Except.error.inj h).symm⟩
  · rename_i hflags
    split at h
    · rename_i hrefused
      exact .inr ⟨not_not.1 hflags, hrefused.1, hrefused.2, (Except.error.inj h).symm⟩
    · cases h

/-- A role that the server may grant is granted. -/
theorem effectiveRole_of_granted {role : SessionRole} {allowBond : Bool}
    (h : role = .bondLink → allowBond = true) : effectiveRole role allowBond = role := by
  cases role with
  | muxTunnel => rfl
  | bondLink => rw [h rfl]; rfl

theorem ClientRuntime.of_fromConfig {cfg : ClientConfig} {rt : ClientRuntime}
    (h : ClientRuntime.fromConfig debug cfg = .ok rt) :
    cfg.obfuscation.toKey debug cfg.password = .ok rt.serverKey ∧
      rt.connectTimeout = cfg.connectTimeout ∧ rt.connectRetries = cfg.connectRetries := by
  obtain ⟨key, hkey, rfl⟩ := exists_of_bind h
  exact ⟨hkey, rfl, rfl⟩

theorem ServerRuntime.of_fromConfig {cfg : ServerConfig} {rt : ServerRuntime}
    (h : ServerRuntime.fromConfig debug cfg = .ok rt) :
    cfg.obfuscation.toKey debug cfg.password = .ok rt.key ∧ rt.allowBond = cfg.bondEnabled := by
  obtain ⟨key, hkey, rfl⟩ := exists_of_bind h
  exact ⟨hkey, rfl⟩

/-- **Two files that agree on the secrets decide the handshake.**  In every state of every run of the two
runtimes whoever has finished has finished as the switches and the bond setting of the files say; however
the run is scheduled both ends return; and files that agree throughout give sessions over which everything
written is read. -/
theorem files_decide (P : Primitives) {cfg : ClientConfig} {scfg : ServerConfig} {rt : ClientRuntime}
    {srt : ServerRuntime} (hrt : ClientRuntime.fromConfig debug cfg = .ok rt)
    (hsrt : ServerRuntime.fromConfig debug scfg = .ok srt) (hsecrets : SameSecrets cfg scfg)
    (role : SessionRole) (sid : U128) (rngC rngS : Rng) (hsid : sid ≠ 0) {s : Net}
    (hs : Reach (Net.step P) always
      (Net.init P rt.serverKey srt.key rngC rngS role sid srt.allowBond) s) :
    FilesDecide P cfg scfg role sid s := by
  obtain ⟨hkc, -, -⟩ := ClientRuntime.of_fromConfig hrt
  obtain ⟨hks, hbond⟩ := ServerRuntime.of_fromConfig hsrt
  rw [hbond] at hs
  let c : Setting := ⟨rt.serverKey, srt.key, role, sid, scfg.bondEnabled,
    (sameWire_iff hkc hks).2 hsecrets, hsid⟩
  have hsound : s.Sound P c := Net.Sound.of_reach hs
  obtain ⟨v, hinv⟩ := id hsound
  have hflags := sameFlags_iff hkc hks
  refine ⟨fun hdone => ?_, fun e hfailed => ?_, hinv.judged.server, ?_, fun hswitches hgrant => ?_⟩
  · obtain ⟨hverdict, hid⟩ := hinv.judged.accepted hdone
    obtain ⟨hsame, hgrant⟩ := verdict_eq_ok.1 hverdict
    exact ⟨hflags.1 hsame, hgrant, hid⟩
  · have hverdict := verdict_eq_error (hinv.judged.refused e hfailed).1
    rwa [hflags] at hverdict
  · refine Inevitable.mono (fun s hdecided => ⟨?_, hdecided.2⟩) hsound.decides
    have hclient := hdecided.1
    split at hclient
    · exact .inl hclient
    · exact .inr ⟨_, hclient⟩
  · have hok : c.verdict = .ok () := verdict_eq_ok.2 ⟨hflags.2 hswitches, hgrant⟩
    have heff : c.effective = c.role := effectiveRole_of_granted hgrant
    exact ⟨hinv.agreed hok heff, hsound.completes hok heff⟩

/-- The file of defaults and the one that writes them out come to an agreement. -/
theorem files_decide_defaults :
    ∃ rt srt, ClientRuntime.fromConfig id {} = .ok rt ∧
      ServerRuntime.fromConfig id writtenOut = .ok srt ∧
      FilesDecide Primitives.sample {} writtenOut .bondLink 1
        (Net.init Primitives.sample rt.serverKey srt.key (fun _ => 0) (fun _ => 7) .bondLink 1
          srt.allowBond) := by
  have hkc : ObfuscationConfig.default.toKey id none = .ok ObfuscationKey.default := toKey_default id
  have hks : writtenOut.obfuscation.toKey id writtenOut.password = .ok ObfuscationKey.default :=
    toKey_eq_ok.2 ⟨.aes128Cfb, .aes256Ctr, by decide, by decide, rfl, by decide⟩
  obtain ⟨rt, hrt⟩ : ∃ rt, ClientRuntime.fromConfig id {} = .ok rt := by
    rw [ClientRuntime.fromConfig, hkc]
    exact ⟨_, rfl⟩
  obtain ⟨srt, hsrt⟩ : ∃ srt, ServerRuntime.fromConfig id writtenOut = .ok srt := by
    rw [ServerRuntime.fromConfig, hks]
    exact ⟨_, rfl⟩
  exact ⟨rt, srt, hrt, hsrt, files_decide Primitives.sample hrt hsrt (by constructor <;> decide)
    .bondLink 1 (fun _ => 0) (fun _ => 7) (by decide) Reach.refl⟩

/-! ### The dial -/

/-- What a dial reads of a client file. -/
def ClientConfig.dial (debug : String → String) (cfg : ClientConfig) : Dial.ClientConfig where
  obfuscation := (cfg.obfuscation.toKey debug cfg.password).map fun _ => ()
  bondLinks := cfg.bond.map fun bond => bond.links.toNat
  connectTimeout := cfg.connectTimeout
  connectRetries := cfg.connectRetries

/-- The checks on what a dial reads are the checks on the file. -/
theorem load_dial (cfg : ClientConfig) :
    (cfg.dial debug).load = (cfg.load debug).map fun _ => cfg.dial debug := by
  unfold Dial.ClientConfig.load ClientConfig.load
  have hobfuscation : (cfg.dial debug).obfuscation
      = (cfg.obfuscation.toKey debug cfg.password).map fun _ => () := rfl
  rw [hobfuscation]
  cases cfg.obfuscation.toKey debug cfg.password with
  | error e => rfl
  | ok key =>
      change (if cfg.bond.map (fun bond => bond.links.toNat) = some 0 then _ else _)
        = Except.map _ (if _ then _ else _)
      cases cfg.bond with
      | none => rfl
      | some bond =>
          have hlinks : bond.links.toNat = 0 ↔ bond.links = 0 :=
            UInt32.toNat_inj (a := bond.links) (b := 0)
          by_cases hzero : bond.links = 0
          · simp [hzero, Except.map]
          · simp [hzero, hlinks, Except.map]

/-- A dial runs with the parameters of the runtime. -/
theorem fromConfig_dial {cfg : ClientConfig} {rt : ClientRuntime}
    (h : ClientRuntime.fromConfig debug cfg = .ok rt) :
    Dial.ClientRuntime.fromConfig (cfg.dial debug) = ⟨rt.connectTimeout, rt.connectRetries⟩ := by
  obtain ⟨-, htimeout, hretries⟩ := ClientRuntime.of_fromConfig h
  rw [htimeout, hretries]
  rfl

end Loaded

end Config

end Nextppp

/-
**What the two parties of a handshake agree on.**

The keys of the two ends agree on everything the framing before the switch depends on, and may differ
in the four flags.  In every interleaving the server finishes with the role it echoes, and the client
finishes with the verdict that the flags and the requested role determine; when it accepts, the two
ends have one key and the data planes of both directions carry what was written.

The invariant says where each party is, and that both directions are as `Nextppp.Direction` describes
them at those points.  The `ivv` and the `nmux` of a run are fixed by the steps that draw them; before
these steps nothing in the invariant depends on them.

Main definitions:

* `Nextppp.SameWire` — what the keys of the two ends must share;
* `Nextppp.verdict` — what the client's handshake returns;
* `Nextppp.Inv` — the invariant of a run;
* `Nextppp.Agreed`, `Nextppp.Judged`, `Nextppp.Unserved` — what holds in every state of a run.

Main results:

* `Nextppp.Inv.step` — every step of the system keeps the invariant;
* `Nextppp.handshake_agreement` — with one key and a role that the server grants, both parties
  succeed, agree, write every message that fits, and read each other's data;
* `Nextppp.handshake_refusal` — with valid keys that share the wire, the client returns the verdict.
-/

import Nextppp.Core.Direction

set_option relaxedAutoImplicit false
set_option autoImplicit false

namespace Nextppp

open Incremental Run

/-! ### The setting of a run -/

/-- The keys agree on what the ciphers and the framing before the switch depend on. -/
structure SameWire (kc ks : ObfuscationKey) : Prop where
  kf : ks.kf = kc.kf
  kl : ks.kl = kc.kl
  kh : ks.kh = kc.kh
  kx : ks.kx = kc.kx
  protocol : ks.protocol = kc.protocol
  protocolKey : ks.protocolKey = kc.protocolKey
  transport : ks.transport = kc.transport
  transportKey : ks.transportKey = kc.transportKey

/-- The keys agree on the four flags of the data plane. -/
def SameFlags (kc ks : ObfuscationKey) : Prop :=
  ks.masked = kc.masked ∧ ks.plaintext = kc.plaintext ∧ ks.deltaEncode = kc.deltaEncode ∧
    ks.shuffleData = kc.shuffleData

instance (kc ks : ObfuscationKey) : Decidable (SameFlags kc ks) :=
  inferInstanceAs (Decidable (_ ∧ _ ∧ _ ∧ _))

/-- What the client's handshake returns: the flags first, then the role. -/
def verdict (kc ks : ObfuscationKey) (role : SessionRole) (allowBond : Bool) : Except Error Unit :=
  if ¬ SameFlags kc ks then .error .flagsMismatch
  else if role = .bondLink ∧ allowBond = false then .error .roleRefused
  else .ok ()

theorem SameWire.refl (key : ObfuscationKey) : SameWire key key :=
  ⟨rfl, rfl, rfl, rfl, rfl, rfl, rfl, rfl⟩

theorem SameWire.maxNopPackets {kc ks : ObfuscationKey} (h : SameWire kc ks) :
    maxNopPackets ks = maxNopPackets kc := by
  rw [Nextppp.maxNopPackets, Nextppp.maxNopPackets, h.kl, h.kh]

/-- Two keys with one wire and one set of flags are one key. -/
theorem SameWire.eq {kc ks : ObfuscationKey} (h : SameWire kc ks) (hf : SameFlags kc ks) :
    ks = kc := by
  obtain ⟨h₁, h₂, h₃, h₄, h₅, h₆, h₇, h₈⟩ := h
  obtain ⟨f₁, f₂, f₃, f₄⟩ := hf
  cases kc
  cases ks
  simp_all

/-- The client's checks on the `nmux` of the server come to the verdict. -/
theorem checkNmux_echoNmux {kc ks : ObfuscationKey} (h : SameWire kc ks) (role : SessionRole)
    (allowBond : Bool) (low : U64) :
    checkNmux kc role (echoNmux ks low (effectiveRole role allowBond))
      = verdict kc ks role allowBond := by
  have hparity : decide (echoNmux ks low (effectiveRole role allowBond) &&& 1 = 1)
      = decide (effectiveRole role allowBond = .muxTunnel) :=
    decide_eq_decide.2 (echoNmux_parity ks low (effectiveRole role allowBond))
  unfold checkNmux verdict
  rw [if_neg (echoNmux_ne_zero _ _ _), echoNmux_high, flagCanary_magic]
  by_cases hf : SameFlags kc ks
  · rw [if_neg (fun hne => hne.2 ((flagCanary_eq_iff h.kf).2 hf)), if_neg (not_not.2 hf),
      hparity]
    cases role with
    | muxTunnel => simp [effectiveRole]
    | bondLink =>
        cases allowBond with
        | true => simp [effectiveRole]
        | false => simp [effectiveRole]
  · rw [if_pos ⟨rfl, fun heq => hf ((flagCanary_eq_iff h.kf).1 heq)⟩, if_pos hf]

/-- What a run is about: the two keys, and what the two handshakes are called with. -/
structure Setting where
  kc : ObfuscationKey
  ks : ObfuscationKey
  role : SessionRole
  sid : U128
  allowBond : Bool
  wire : SameWire kc ks
  sid_ne_zero : sid ≠ 0

/-- The role the server settles for. -/
def Setting.effective (c : Setting) : SessionRole := effectiveRole c.role c.allowBond

/-- The verdict of a setting. -/
def Setting.verdict (c : Setting) : Except Error Unit :=
  Nextppp.verdict c.kc c.ks c.role c.allowBond

/-- The two values that are drawn in a run. -/
structure Drawn (c : Setting) where
  nonce : U64
  low : U64

namespace Drawn

variable {c : Setting}

/-- The client's `ivv`. -/
def ivv (v : Drawn c) : U128 := taggedIvv c.role v.nonce

/-- The server's `nmux`. -/
def nmux (v : Drawn c) : U128 := echoNmux c.ks v.low c.effective

end Drawn

/-! ### Where the parties are -/

namespace ClientPc

/-- Whether the client has sent its `ivv` and switched its sending direction. -/
def switched : ClientPc → Bool
  | .start _ => false
  | .prelude _ _ => false
  | _ => true

/-- How far the client is as a sender. -/
def sending (key : ObfuscationKey) (ivv : U128) : ClientPc → Sending
  | .start _ => .plain (maxNopPackets key) []
  | .prelude _ n => .plain n []
  | _ => .switched [ivv] ivv

/-- How far the client is as a receiver. -/
def receiving (key : ObfuscationKey) : ClientPc → Receiving
  | .readSid _ _ budget => .expect 0 budget
  | .readNmux _ _ _ budget => .expect 1 budget
  | .done => .switched
  | .failed _ => .expect 2 0
  | _ => .expect 0 (maxNopPackets key)

/-- A bound on the operations that are left. -/
def work (key : ObfuscationKey) : ClientPc → ℕ
  | .start _ => 3 * maxNopPackets key + 5
  | .prelude _ n => n + 2 * maxNopPackets key + 4
  | .sent => 2 * maxNopPackets key + 3
  | .readSid _ _ budget => budget + maxNopPackets key + 2
  | .readNmux _ _ _ budget => budget + 1
  | .done => 0
  | .failed _ => 0

/-- Whether the handshake has returned. -/
def finished : ClientPc → Bool
  | .done => true
  | .failed _ => true
  | _ => false

end ClientPc

namespace ServerPc

/-- How far the server is as a sender. -/
def sending (key : ObfuscationKey) (sid ivv nmux : U128) : ServerPc → Sending
  | .start => .plain (maxNopPackets key) []
  | .prelude n => .plain n []
  | .done _ => .switched [sid, nmux] ivv
  | _ => .plain 0 [sid]

/-- How far the server is as a receiver. -/
def receiving (key : ObfuscationKey) : ServerPc → Receiving
  | .readIvv budget => .expect 0 budget
  | .reply _ => .expect 1 0
  | .done _ => .switched
  | _ => .expect 0 (maxNopPackets key)

/-- A bound on the operations that are left. -/
def work (key : ObfuscationKey) : ServerPc → ℕ
  | .start => 2 * maxNopPackets key + 4
  | .prelude n => n + maxNopPackets key + 3
  | .readIvv budget => budget + 2
  | .reply _ => 1
  | .done _ => 0
  | .failed _ => 0

/-- The role a finished handshake returned. -/
def result : ServerPc → Option SessionRole
  | .done role => some role
  | _ => none

variable {key : ObfuscationKey} {sid ivv nmux id : U128} {pc : ServerPc}

theorem sending_switched {sent : List U128} {i : U128}
    (h : pc.sending key sid ivv nmux = .switched sent i) : sent = [sid, nmux] := by
  cases pc with
  | done role =>
      injection h with hsent _
      exact hsent.symm
  | _ => cases h

/-- The first real packet of the server is its session id. -/
theorem sending_first (h : (pc.sending key sid ivv nmux).sent[0]? = some id) : id = sid := by
  cases pc <;> simp_all [sending, Sending.sent]

/-- The second real packet of the server is the `nmux`, and with it the server is done. -/
theorem sending_second (h : (pc.sending key sid ivv nmux).sent[1]? = some id) :
    id = nmux ∧ pc.sending key sid ivv nmux = .switched [sid, nmux] ivv := by
  cases pc with
  | done role => simpa [sending, Sending.sent, eq_comm] using h
  | _ => simp [sending, Sending.sent] at h

theorem result_none_of_sent (h : (pc.sending key sid ivv nmux).sent.length < 2) :
    pc.result = none := by
  cases pc with
  | done role => simp [sending, Sending.sent] at h
  | _ => rfl

end ServerPc

/-- The receiving direction is as it was made, but for its counters, and no session id is set. -/
structure Transmission.Unswitched (P : Primitives) (key : ObfuscationKey) (conn : Transmission) :
    Prop where
  setup : (RxCore.new P key).SameSetup conn.rx
  sessionId : conn.sessionId = 0

theorem Transmission.Unswitched.congr {P : Primitives} {key : ObfuscationKey}
    {conn conn' : Transmission} (h : conn.Unswitched P key) (hrx : conn.rx.SameSetup conn'.rx)
    (hsid : conn'.sessionId = conn.sessionId) : conn'.Unswitched P key :=
  ⟨h.setup.trans hrx, hsid.trans h.sessionId⟩

/-- What the client knows where it is. -/
def ClientAt (P : Primitives) (c : Setting) (ivv : U128) (conn : Transmission) : ClientPc → Prop
  | .start role => role = c.role ∧ conn.Unswitched P c.kc
  | .prelude role _ => role = c.role ∧ conn.Unswitched P c.kc
  | .sent => conn.pending = some (ivv, c.role) ∧ conn.Unswitched P c.kc
  | .readSid i role _ => (i = ivv ∧ role = c.role) ∧ conn.Unswitched P c.kc
  | .readNmux i role sid _ => (i = ivv ∧ role = c.role ∧ sid = c.sid) ∧ conn.Unswitched P c.kc
  | .done => c.verdict = .ok () ∧ conn.sessionId = c.sid
  | .failed e => c.verdict = .error e ∧ conn.Unswitched P c.kc

/-- What the server knows where it is. -/
def ServerAt (c : Setting) (ivv : U128) : ServerPc → Prop
  | .reply i => i = ivv
  | .done role => role = c.effective
  | .failed _ => False
  | _ => True

/-- The invariant of a run. -/
structure Inv (P : Primitives) (c : Setting) (v : Drawn c) (s : Net) : Prop where
  clientTx : s.client.conn.tx.key = c.kc
  clientRx : s.client.conn.rx.key = c.kc
  serverTx : s.server.conn.tx.key = c.ks
  serverRx : s.server.conn.rx.key = c.ks
  sid : s.server.sid = c.sid
  allowBond : s.server.allowBond = c.allowBond
  client : ClientAt P c v.ivv s.client.conn s.client.pc
  server : ServerAt c v.ivv s.server.pc
  up : Direction P s.client.conn.tx s.server.conn.rx s.up (s.client.pc.sending c.kc v.ivv)
    (s.server.pc.receiving c.ks)
  down : Direction P s.server.conn.tx s.client.conn.rx s.down
    (s.server.pc.sending c.ks c.sid v.ivv v.nmux) (s.client.pc.receiving c.kc)
  calm : c.ks = c.kc → s.client.dataError = none ∧ s.server.dataError = none

/-- The system after a step of the client. -/
def Net.afterClient (s : Net) (e : Effect Client) : Net :=
  { s with client := e.party, up := s.up.push e, down := s.down.pull e }

/-- The system after a step of the server. -/
def Net.afterServer (s : Net) (e : Effect Server) : Net :=
  { s with server := e.party, down := s.down.push e, up := s.up.pull e }

/-- The first state. -/
theorem Inv.init (P : Primitives) (c : Setting) (v : Drawn c) (rngC rngS : Rng) :
    Inv P c v (Net.init P c.kc c.ks rngC rngS c.role c.sid c.allowBond) where
  clientTx := rfl
  clientRx := rfl
  serverTx := rfl
  serverRx := rfl
  sid := rfl
  allowBond := rfl
  client := ⟨rfl, RxCore.SameSetup.refl _, rfl⟩
  server := trivial
  up := by
    refine Direction.new rngC (lockstep_new P rngC ?_ ?_ ?_ ?_ ?_) c.wire.maxNopPackets.ge
    · exact c.wire.kf
    · exact c.wire.protocol
    · exact c.wire.protocolKey
    · exact c.wire.transport
    · exact c.wire.transportKey
  down := by
    refine Direction.new rngS (lockstep_new P rngS ?_ ?_ ?_ ?_ ?_) c.wire.maxNopPackets.le
    · exact c.wire.kf.symm
    · exact c.wire.protocol.symm
    · exact c.wire.protocolKey.symm
    · exact c.wire.transport.symm
    · exact c.wire.transportKey.symm
  calm := fun _ => ⟨rfl, rfl⟩

/-! ### The steps of the client -/

section Client

variable {P : Primitives} {c : Setting} {v : Drawn c} {conn : Transmission} {derr : Option Error}
  {server : Server} {up down : Pipe}

/-- The client can take its next operation, which keeps the invariant and is one less to do. -/
def ClientMoves (P : Primitives) (c : Setting) (s : Net) : Prop :=
  ∃ e v', s.client.advance P s.down.inbox = some e ∧ Inv P c v' (s.afterClient e) ∧
    e.party.pc.work c.kc < s.client.pc.work c.kc

/-- A key of the server's receiving direction reads what the client's sending direction frames. -/
theorem Inv.kf_up {s : Net} (h : Inv P c v s) :
    s.server.conn.rx.key.kf = s.client.conn.tx.key.kf := by
  rw [h.serverRx, h.clientTx, c.wire.kf]

theorem Inv.kf_down {s : Net} (h : Inv P c v s) :
    s.client.conn.rx.key.kf = s.server.conn.tx.key.kf := by
  rw [h.clientRx, h.serverTx, c.wire.kf]

theorem Inv.client_start {role : SessionRole}
    (h : Inv P c v ⟨⟨conn, .start role, derr⟩, server, up, down⟩) :
    ClientMoves P c ⟨⟨conn, .start role, derr⟩, server, up, down⟩ := by
  have hle : (nopRounds conn.tx.rng conn.tx.key).1 ≤ maxNopPackets c.kc := by
    have hkey : conn.tx.key = c.kc := h.clientTx
    rw [hkey]
    exact nopRounds_le _ _
  refine ⟨_, v, rfl, ?_, ?_⟩
  · simp only [Net.afterClient, Pipe.push_silent, Pipe.pull_silent]
    exact { h with
      client := ⟨h.client.1, h.client.2.congr (RxCore.SameSetup.refl _) rfl⟩
      up := (h.up.weaken hle).setRng _ }
  · simp only [ClientPc.work, Effect.silent]
    omega

theorem Inv.client_nop {role : SessionRole} {n : ℕ}
    (h : Inv P c v ⟨⟨conn, .prelude role (n + 1), derr⟩, server, up, down⟩) :
    ClientMoves P c ⟨⟨conn, .prelude role (n + 1), derr⟩, server, up, down⟩ := by
  obtain ⟨w, tx', hsend, hkey, hup⟩ := Direction.sendNop h.kf_up h.up
  refine ⟨.sent ⟨{ conn with tx := tx' }, .prelude role n, derr⟩ w down.inbox, v, ?_, ?_, ?_⟩
  · simp only [Client.advance, hsend]
  · simp only [Net.afterClient, Pipe.push_sent, Pipe.pull_sent]
    exact { h with
      clientTx := hkey.trans h.clientTx
      client := ⟨h.client.1, h.client.2.congr (RxCore.SameSetup.refl _) rfl⟩
      up := hup }
  · simp only [ClientPc.work, Effect.sent]
    omega

/-- While the client has not sent its `ivv`, the server has not read it. -/
theorem Inv.server_before {s : Net} (h : Inv P c v s) (hpc : s.client.pc.switched = false) :
    s.server.pc = .start ∨ (∃ n, s.server.pc = .prelude n) ∨ ∃ b, s.server.pc = .readIvv b := by
  have hsend : ∃ left, s.client.pc.sending c.kc v.ivv = .plain left [] := by
    cases hcpc : s.client.pc with
    | start role => exact ⟨_, rfl⟩
    | «prelude» role n => exact ⟨_, rfl⟩
    | _ => simp [hcpc, ClientPc.switched] at hpc
  obtain ⟨left, hsend⟩ := hsend
  have hup := h.up
  have hat := h.server
  rw [hsend] at hup
  cases hspc : s.server.pc with
  | start => exact Or.inl rfl
  | «prelude» n => exact Or.inr (Or.inl ⟨n, rfl⟩)
  | readIvv b => exact Or.inr (Or.inr ⟨b, rfl⟩)
  | reply i =>
      rw [hspc] at hup
      exact absurd hup.count_le (by simp [Sending.sent])
  | done role =>
      rw [hspc] at hup
      exact hup.elim
  | failed e =>
      rw [hspc] at hat
      exact hat.elim

/-- The `ivv` of a run is whatever the client draws. -/
theorem Inv.redraw_nonce {s : Net} (h : Inv P c v s) (hpc : s.client.pc.switched = false)
    (nonce : U64) : Inv P c ⟨nonce, v.low⟩ s := by
  have hup := h.up
  have hdown := h.down
  have hclient := h.client
  have hserver : ServerAt c (Drawn.ivv (c := c) ⟨nonce, v.low⟩) s.server.pc := by
    rcases h.server_before hpc with hs | ⟨n, hs⟩ | ⟨b, hs⟩ <;> rw [hs] <;> trivial
  refine { h with client := ?_, server := hserver, up := ?_, down := ?_ }
  · cases hcpc : s.client.pc with
    | start role => rwa [hcpc] at hclient
    | «prelude» role n => rwa [hcpc] at hclient
    | _ => simp [hcpc, ClientPc.switched] at hpc
  · cases hcpc : s.client.pc with
    | start role => rwa [hcpc] at hup
    | «prelude» role n => rwa [hcpc] at hup
    | _ => simp [hcpc, ClientPc.switched] at hpc
  · rcases h.server_before hpc with hs | ⟨n, hs⟩ | ⟨b, hs⟩ <;> rw [hs] at hdown ⊢ <;> exact hdown

theorem Inv.client_ivv {role : SessionRole}
    (h : Inv P c v ⟨⟨conn, .prelude role 0, derr⟩, server, up, down⟩) :
    ClientMoves P c ⟨⟨conn, .prelude role 0, derr⟩, server, up, down⟩ := by
  obtain ⟨rfl, hun⟩ : role = c.role ∧ conn.Unswitched P c.kc := h.client
  let v' : Drawn c := ⟨(conn.tx.rng.randomBits 64).1, v.low⟩
  have h' : Inv P c v' _ := h.redraw_nonce rfl _
  have hrng := h'.up.setRng (conn.tx.rng.randomBits 64).2
  obtain ⟨w, tx', hsend, hkey, hup⟩ :=
    hrng.sendId (taggedIvv_ne_zero c.role v'.nonce) (by exact h'.kf_up)
  have hsend : TxCore.sendSessionId P { conn.tx with rng := (conn.tx.rng.randomBits 64).2 }
      (taggedIvv c.role (conn.tx.rng.randomBits 64).1) = (.ok w, tx') := hsend
  refine ⟨.sent ⟨{ conn with
      tx := (tx'.rekey P v'.ivv).onHandshakeComplete
      pending := some (v'.ivv, c.role) }, .sent, derr⟩ w down.inbox, v', ?_, ?_, ?_⟩
  · simp only [Client.advance, hsend]
    rfl
  · simp only [Net.afterClient, Pipe.push_sent, Pipe.pull_sent]
    exact { h' with
      clientTx := hkey.trans h.clientTx
      client := ⟨rfl, hun.congr (RxCore.SameSetup.refl _) rfl⟩
      up := hup.switch v'.ivv }
  · simp only [ClientPc.work, Effect.sent]
    omega

theorem Inv.client_confirm (h : Inv P c v ⟨⟨conn, .sent, derr⟩, server, up, down⟩) :
    ClientMoves P c ⟨⟨conn, .sent, derr⟩, server, up, down⟩ := by
  obtain ⟨hpending, hun⟩ : conn.pending = some (v.ivv, c.role) ∧ conn.Unswitched P c.kc := h.client
  have hkey : conn.tx.key = c.kc := h.clientTx
  refine ⟨.silent ⟨{ conn with pending := none },
    .readSid v.ivv c.role (maxNopPackets c.kc), derr⟩ down.inbox, v, ?_, ?_, ?_⟩
  · simp only [Client.advance, hpending, hkey]
  · simp only [Net.afterClient, Pipe.push_silent, Pipe.pull_silent]
    exact { h with client := ⟨⟨rfl, rfl⟩, hun.congr (RxCore.SameSetup.refl _) rfl⟩ }
  · simp only [ClientPc.work, Effect.silent]
    omega

/-- A client that cannot go on waits for bytes in flight or for a packet the server has yet to send. -/
def ClientWaits (P : Primitives) (s : Net) : Prop :=
  s.client.advance P s.down.inbox = none ∧ s.client.pc.switched = true ∧
    (s.down.wire ≠ [] ∨ s.server.pc.result = none)

theorem Inv.client_readSid {i : U128} {role : SessionRole} {budget : ℕ}
    (h : Inv P c v ⟨⟨conn, .readSid i role budget, derr⟩, server, up, down⟩) :
    ClientMoves P c ⟨⟨conn, .readSid i role budget, derr⟩, server, up, down⟩ ∨
      ClientWaits P ⟨⟨conn, .readSid i role budget, derr⟩, server, up, down⟩ := by
  obtain ⟨⟨hi, hrole⟩, hun⟩ : (i = v.ivv ∧ role = c.role) ∧ conn.Unswitched P c.kc := h.client
  have hkey : conn.tx.key = c.kc := h.clientTx
  rcases Direction.readPacket h.down (by
    intro sent ivv hsent
    rw [ServerPc.sending_switched hsent]
    simp) with ⟨hread, hwait⟩ | ⟨rx', inbox', hread, hb, hsetup, hdown⟩ |
      ⟨id, rx', inbox', hread, hid, hsetup, hdown⟩
  · refine Or.inr ⟨?_, rfl, hwait.imp id fun hsent =>
      ServerPc.result_none_of_sent (hsent.trans_lt (by decide))⟩
    simp only [Client.advance, hread]
  · refine Or.inl ⟨.consumed ⟨{ conn with rx := rx' }, .readSid i role (budget - 1), derr⟩ inbox',
      v, ?_, ?_, ?_⟩
    · simp only [Client.advance, hread, if_neg hb]
    · simp only [Net.afterClient, Pipe.push_consumed, Pipe.pull_consumed]
      exact { h with
        clientRx := hsetup.key.trans h.clientRx
        client := ⟨⟨hi, hrole⟩, hun.congr hsetup rfl⟩
        down := hdown }
    · simp only [ClientPc.work, Effect.consumed]
      omega
  · obtain rfl := ServerPc.sending_first hid
    refine Or.inl ⟨.consumed ⟨{ conn with rx := rx' },
      .readNmux i role c.sid (maxNopPackets c.kc), derr⟩ inbox', v, ?_, ?_, ?_⟩
    · simp only [Client.advance, hread, if_neg c.sid_ne_zero, hkey]
    · simp only [Net.afterClient, Pipe.push_consumed, Pipe.pull_consumed]
      exact { h with
        clientRx := hsetup.key.trans h.clientRx
        client := ⟨⟨hi, hrole, rfl⟩, hun.congr hsetup rfl⟩
        down := hdown _ }
    · simp only [ClientPc.work, Effect.consumed]
      omega

theorem Inv.client_readNmux {i sid : U128} {role : SessionRole} {budget : ℕ}
    (h : Inv P c v ⟨⟨conn, .readNmux i role sid budget, derr⟩, server, up, down⟩) :
    ClientMoves P c ⟨⟨conn, .readNmux i role sid budget, derr⟩, server, up, down⟩ ∨
      ClientWaits P ⟨⟨conn, .readNmux i role sid budget, derr⟩, server, up, down⟩ := by
  obtain ⟨⟨rfl, rfl, rfl⟩, hun⟩ :
    (i = v.ivv ∧ role = c.role ∧ sid = c.sid) ∧ conn.Unswitched P c.kc := h.client
  have hkey : conn.tx.key = c.kc := h.clientTx
  rcases Direction.readPacket h.down (by
    intro sent ivv hsent
    rw [ServerPc.sending_switched hsent]
    simp) with ⟨hread, hwait⟩ | ⟨rx', inbox', hread, hb, hsetup, hdown⟩ |
      ⟨id, rx', inbox', hread, hid, hsetup, hdown⟩
  · refine Or.inr ⟨?_, rfl, hwait.imp id fun hsent =>
      ServerPc.result_none_of_sent (hsent.trans_lt (by decide))⟩
    simp only [Client.advance, hread]
  · refine Or.inl ⟨.consumed ⟨{ conn with rx := rx' },
      .readNmux v.ivv c.role c.sid (budget - 1), derr⟩ inbox', v, ?_, ?_, ?_⟩
    · simp only [Client.advance, hread, if_neg hb]
    · simp only [Net.afterClient, Pipe.push_consumed, Pipe.pull_consumed]
      exact { h with
        clientRx := hsetup.key.trans h.clientRx
        client := ⟨⟨rfl, rfl, rfl⟩, hun.congr hsetup rfl⟩
        down := hdown }
    · simp only [ClientPc.work, Effect.consumed]
      omega
  · obtain ⟨rfl, hsent⟩ := ServerPc.sending_second hid
    have hcheck : checkNmux conn.tx.key c.role v.nmux = c.verdict := by
      rw [hkey]
      exact checkNmux_echoNmux c.wire c.role c.allowBond v.low
    -- both packets are read, whichever way the check goes
    have hread2 := hdown 0
    cases hverdict : c.verdict with
    | error e =>
        refine Or.inl ⟨.consumed ⟨{ conn with rx := rx' }, .failed e, derr⟩ inbox', v, ?_, ?_, ?_⟩
        · simp only [Client.advance, hread, hcheck, hverdict]
        · simp only [Net.afterClient, Pipe.push_consumed, Pipe.pull_consumed]
          exact { h with
            clientRx := hsetup.key.trans h.clientRx
            client := ⟨hverdict, hun.congr hsetup rfl⟩
            down := hread2 }
        · simp only [ClientPc.work, Effect.consumed]
          omega
    | ok u =>
        refine Or.inl ⟨.consumed ⟨{ conn with
            rx := (rx'.rekey P v.ivv).onHandshakeComplete
            sessionId := c.sid }, .done, derr⟩ inbox', v, ?_, ?_, ?_⟩
        · simp only [Client.advance, hread, hcheck, hverdict]
        · simp only [Net.afterClient, Pipe.push_consumed, Pipe.pull_consumed]
          dsimp only at hsent hread2
          rw [hsent] at hread2
          exact { h with
            clientRx := hsetup.key.trans h.clientRx
            client := ⟨hverdict, rfl⟩
            down := by
              dsimp only
              rw [hsent]
              exact hread2.settle }
        · simp only [ClientPc.work, Effect.consumed]
          omega

/-- What the client's handshake can do in a state of the invariant. -/
theorem Inv.client_advance {s : Net} (h : Inv P c v s) :
    ClientMoves P c s ∨ ClientWaits P s ∨
      (s.client.advance P s.down.inbox = none ∧ s.client.pc.finished = true) := by
  obtain ⟨⟨conn, pc, derr⟩, server, up, down⟩ := s
  cases pc with
  | start role => exact Or.inl h.client_start
  | «prelude» role n =>
      cases n with
      | zero => exact Or.inl h.client_ivv
      | succ n => exact Or.inl h.client_nop
  | sent => exact Or.inl h.client_confirm
  | readSid i role budget => exact h.client_readSid.imp_right Or.inl
  | readNmux i role sid budget => exact h.client_readNmux.imp_right Or.inl
  | done => exact Or.inr (Or.inr ⟨rfl, rfl⟩)
  | failed e => exact Or.inr (Or.inr ⟨rfl, rfl⟩)

end Client

/-! ### The steps of the server -/

section Server

variable {P : Primitives} {c : Setting} {v : Drawn c} {conn : Transmission} {client : Client}
  {sid : U128} {allowBond : Bool} {derr : Option Error} {up down : Pipe}

/-- The server can take its next operation, which keeps the invariant and is one less to do. -/
def ServerMoves (P : Primitives) (c : Setting) (s : Net) : Prop :=
  ∃ e v', s.server.advance P s.up.inbox = some e ∧ Inv P c v' (s.afterServer e) ∧
    e.party.pc.work c.ks < s.server.pc.work c.ks

/-- A server that cannot go on waits for bytes in flight or for the `ivv` the client has yet to
send. -/
def ServerWaits (P : Primitives) (s : Net) : Prop :=
  s.server.advance P s.up.inbox = none ∧ (s.up.wire ≠ [] ∨ s.client.pc.switched = false)

theorem Inv.server_start (h : Inv P c v ⟨client, ⟨conn, sid, allowBond, .start, derr⟩, up, down⟩) :
    ServerMoves P c ⟨client, ⟨conn, sid, allowBond, .start, derr⟩, up, down⟩ := by
  have hsid : sid ≠ 0 := by
    have hs : sid = c.sid := h.sid
    rw [hs]
    exact c.sid_ne_zero
  have hle : (nopRounds conn.tx.rng conn.tx.key).1 ≤ maxNopPackets c.ks := by
    have hkey : conn.tx.key = c.ks := h.serverTx
    rw [hkey]
    exact nopRounds_le _ _
  refine ⟨.silent ⟨{ conn with tx := { conn.tx with rng := (nopRounds conn.tx.rng conn.tx.key).2 } },
    sid, allowBond, .prelude (nopRounds conn.tx.rng conn.tx.key).1, derr⟩ up.inbox, v, ?_, ?_, ?_⟩
  · simp only [Server.advance, if_neg hsid]
  · simp only [Net.afterServer, Pipe.push_silent, Pipe.pull_silent]
    exact { h with down := (h.down.weaken hle).setRng _ }
  · simp only [ServerPc.work, Effect.silent]
    omega

theorem Inv.server_nop {n : ℕ}
    (h : Inv P c v ⟨client, ⟨conn, sid, allowBond, .prelude (n + 1), derr⟩, up, down⟩) :
    ServerMoves P c ⟨client, ⟨conn, sid, allowBond, .prelude (n + 1), derr⟩, up, down⟩ := by
  obtain ⟨w, tx', hsend, hkey, hdown⟩ := Direction.sendNop h.kf_down h.down
  refine ⟨.sent ⟨{ conn with tx := tx' }, sid, allowBond, .prelude n, derr⟩ w up.inbox, v, ?_, ?_, ?_⟩
  · simp only [Server.advance, hsend]
  · simp only [Net.afterServer, Pipe.push_sent, Pipe.pull_sent]
    exact { h with serverTx := hkey.trans h.serverTx, down := hdown }
  · simp only [ServerPc.work, Effect.sent]
    omega

theorem Inv.server_sid
    (h : Inv P c v ⟨client, ⟨conn, sid, allowBond, .prelude 0, derr⟩, up, down⟩) :
    ServerMoves P c ⟨client, ⟨conn, sid, allowBond, .prelude 0, derr⟩, up, down⟩ := by
  obtain rfl : sid = c.sid := h.sid
  have hkeys : conn.tx.key = c.ks := h.serverTx
  obtain ⟨w, tx', hsend, hkey, hdown⟩ := Direction.sendId c.sid_ne_zero h.kf_down h.down
  refine ⟨.sent ⟨{ conn with tx := tx' }, c.sid, allowBond, .readIvv (maxNopPackets c.ks), derr⟩ w
    up.inbox, v, ?_, ?_, ?_⟩
  · simp only [Server.advance, hsend, hkeys]
  · simp only [Net.afterServer, Pipe.push_sent, Pipe.pull_sent]
    exact { h with serverTx := hkey.trans h.serverTx, down := hdown }
  · simp only [ServerPc.work, Effect.sent]
    omega

theorem ClientPc.sending_switched {key : ObfuscationKey} {ivv i : U128} {sent : List U128}
    {pc : ClientPc} (h : pc.sending key ivv = .switched sent i) : sent = [ivv] := by
  cases pc with
  | start role => cases h
  | «prelude» role n => cases h
  | _ =>
      injection h with hsent _
      exact hsent.symm

/-- The real packet of the client is its `ivv`. -/
theorem ClientPc.sending_first {key : ObfuscationKey} {ivv id : U128} {pc : ClientPc}
    (h : (pc.sending key ivv).sent[0]? = some id) : id = ivv := by
  cases pc <;> simp_all [sending, Sending.sent]

theorem ClientPc.switched_of_sent {key : ObfuscationKey} {ivv : U128} {pc : ClientPc}
    (h : (pc.sending key ivv).sent.length = 0) : pc.switched = false := by
  cases pc <;> simp_all [sending, Sending.sent, switched]

theorem Inv.server_readIvv {budget : ℕ}
    (h : Inv P c v ⟨client, ⟨conn, sid, allowBond, .readIvv budget, derr⟩, up, down⟩) :
    ServerMoves P c ⟨client, ⟨conn, sid, allowBond, .readIvv budget, derr⟩, up, down⟩ ∨
      ServerWaits P ⟨client, ⟨conn, sid, allowBond, .readIvv budget, derr⟩, up, down⟩ := by
  rcases Direction.readPacket h.up (by
    intro sent ivv hsent
    rw [ClientPc.sending_switched hsent]
    simp) with ⟨hread, hwait⟩ | ⟨rx', inbox', hread, hb, hsetup, hup⟩ |
      ⟨id, rx', inbox', hread, hid, hsetup, hup⟩
  · refine Or.inr ⟨?_, hwait.imp id fun hsent => ClientPc.switched_of_sent hsent⟩
    simp only [Server.advance, hread]
  · refine Or.inl ⟨.consumed ⟨{ conn with rx := rx' }, sid, allowBond, .readIvv (budget - 1), derr⟩
      inbox', v, ?_, ?_, ?_⟩
    · simp only [Server.advance, hread, if_neg hb]
    · simp only [Net.afterServer, Pipe.push_consumed, Pipe.pull_consumed]
      exact { h with serverRx := hsetup.key.trans h.serverRx, up := hup }
    · simp only [ServerPc.work, Effect.consumed]
      omega
  · obtain rfl := ClientPc.sending_first hid
    refine Or.inl ⟨.consumed ⟨{ conn with rx := rx' }, sid, allowBond, .reply v.ivv, derr⟩ inbox',
      v, ?_, ?_, ?_⟩
    · simp only [Server.advance, hread, if_neg (taggedIvv_ne_zero c.role v.nonce), Drawn.ivv]
    · simp only [Net.afterServer, Pipe.push_consumed, Pipe.pull_consumed]
      exact { h with
        serverRx := hsetup.key.trans h.serverRx
        server := rfl
        up := hup 0 }
    · simp only [ServerPc.work, Effect.consumed]
      omega

/-- The `nmux` of a run is whatever the server draws. -/
theorem Inv.redraw_low {s : Net} (h : Inv P c v s) (hpc : s.server.pc.result = none) (low : U64) :
    Inv P c ⟨v.nonce, low⟩ s := by
  have hdown := h.down
  refine { h with down := ?_ }
  cases hspc : s.server.pc with
  | done role => simp [hspc, ServerPc.result] at hpc
  | _ =>
      rw [hspc] at hdown
      exact hdown

/-- A server that has read the `ivv` has a client that sent it. -/
theorem Inv.client_switched {s : Net} {i : U128} (h : Inv P c v s) (hpc : s.server.pc = .reply i) :
    s.client.pc.sending c.kc v.ivv = .switched [v.ivv] v.ivv := by
  have hup := h.up
  rw [hpc] at hup
  cases hcpc : s.client.pc with
  | start role =>
      rw [hcpc] at hup
      exact absurd hup.count_le (by simp [ClientPc.sending, Sending.sent])
  | «prelude» role n =>
      rw [hcpc] at hup
      exact absurd hup.count_le (by simp [ClientPc.sending, Sending.sent])
  | _ => rfl

theorem Inv.server_reply {i : U128}
    (h : Inv P c v ⟨client, ⟨conn, sid, allowBond, .reply i, derr⟩, up, down⟩) :
    ServerMoves P c ⟨client, ⟨conn, sid, allowBond, .reply i, derr⟩, up, down⟩ := by
  obtain rfl : i = v.ivv := h.server
  obtain rfl : sid = c.sid := h.sid
  obtain rfl : allowBond = c.allowBond := h.allowBond
  have hkeys : conn.tx.key = c.ks := h.serverTx
  let v' : Drawn c := ⟨v.nonce, (conn.tx.rng.randomBits 64).1⟩
  have h' : Inv P c v' _ := h.redraw_low rfl _
  have hrng := h'.down.setRng (conn.tx.rng.randomBits 64).2
  obtain ⟨w, tx', hsend, hkey, hdown⟩ :=
    hrng.sendId (echoNmux_ne_zero c.ks v'.low c.effective) (by exact h'.kf_down)
  have hsend : TxCore.sendSessionId P { conn.tx with rng := (conn.tx.rng.randomBits 64).2 }
      (echoNmux conn.tx.key (conn.tx.rng.randomBits 64).1 c.effective) = (.ok w, tx') := by
    rw [hkeys]
    exact hsend
  have hrole : effectiveRole (roleFromIvv v.ivv) c.allowBond = c.effective := by
    rw [Drawn.ivv, roleFromIvv_taggedIvv]
    rfl
  refine ⟨.sent ⟨{ conn with
      tx := (tx'.rekey P v.ivv).onHandshakeComplete
      rx := (conn.rx.rekey P v.ivv).onHandshakeComplete
      sessionId := c.sid }, c.sid, c.allowBond, .done c.effective, derr⟩ w up.inbox, v', ?_, ?_, ?_⟩
  · simp only [Server.advance, hrole, hsend]
  · simp only [Net.afterServer, Pipe.push_sent, Pipe.pull_sent]
    have hsent := h.client_switched rfl
    have hup := h'.up
    dsimp only at hsent hup
    have hup' : Direction P client.conn.tx (conn.rx.rekey P v.ivv).onHandshakeComplete up
        (client.pc.sending c.kc v.ivv) .switched := by
      have hup : Direction P client.conn.tx conn.rx up (client.pc.sending c.kc v.ivv)
        (.expect 1 0) := hup
      rw [hsent] at hup ⊢
      exact hup.settle
    exact { h' with
      serverTx := hkey.trans h.serverTx
      serverRx := h.serverRx
      server := rfl
      up := hup'
      down := hdown.switch v.ivv }
  · simp only [ServerPc.work, Effect.sent]
    omega

/-- What the server's handshake can do in a state of the invariant. -/
theorem Inv.server_advance {s : Net} (h : Inv P c v s) :
    ServerMoves P c s ∨ ServerWaits P s ∨
      (s.server.advance P s.up.inbox = none ∧ s.server.pc = .done c.effective) := by
  obtain ⟨client, ⟨conn, sid, allowBond, pc, derr⟩, up, down⟩ := s
  cases pc with
  | start => exact Or.inl h.server_start
  | «prelude» n =>
      cases n with
      | zero => exact Or.inl h.server_sid
      | succ n => exact Or.inl h.server_nop
  | readIvv budget => exact h.server_readIvv.imp_right Or.inl
  | reply i => exact Or.inl h.server_reply
  | done role =>
      have hrole : role = c.effective := h.server
      rw [hrole]
      exact Or.inr (Or.inr ⟨rfl, rfl⟩)
  | failed e => exact h.server.elim

end Server

/-! ### Data -/

section Data

variable {P : Primitives} {c : Setting} {v : Drawn c} {s : Net}

/-- A client that accepted has the key of the server. -/
theorem Setting.keys_eq (h : c.verdict = .ok ()) : c.ks = c.kc := by
  unfold verdict Nextppp.verdict at h
  split at h
  · cases h
  · rename_i hflags
    exact c.wire.eq (not_not.1 hflags)

/-- A client that may write data writes every message of legal length. -/
theorem Net.client_writes (P : Primitives) {s : Net}
    (hpc : s.client.pc = .sent ∨ s.client.pc = .done) {m : Send} (hm : m.Legal) :
    ∃ s', Net.step P s (.client (.write m)) = some s' ∧ s'.up.wrote = s.up.wrote ++ [m.message] := by
  have hmay : s.client.mayWrite = true := by
    rcases hpc with hpc | hpc <;> simp [Client.mayWrite, hpc]
  obtain ⟨w, tx', henc⟩ := m.encrypt_legal P s.client.conn.tx hm
  simp only [Net.step, Client.act, writeData, hmay, henc, if_true, Option.map_some]
  exact ⟨_, rfl, rfl⟩

/-- A server that has finished writes every message of legal length. -/
theorem Net.server_writes (P : Primitives) {s : Net} {role : SessionRole}
    (hpc : s.server.pc = .done role) {m : Send} (hm : m.Legal) :
    ∃ s', Net.step P s (.server (.write m)) = some s' ∧
      s'.down.wrote = s.down.wrote ++ [m.message] := by
  have hmay : s.server.result.isSome = true := by
    simp [Server.result, hpc]
  obtain ⟨w, tx', henc⟩ := m.encrypt_legal P s.server.conn.tx hm
  simp only [Net.step, Server.act, writeData, hmay, henc, if_true, Option.map_some]
  exact ⟨_, rfl, rfl⟩

/-- The messages written and not yet read. -/
def Net.unread (s : Net) : ℕ :=
  (s.up.wrote.length - s.up.got.length) + (s.down.wrote.length - s.down.got.length)

theorem Inv.client_write {m : Send} {e : Effect Client} (h : Inv P c v s)
    (hact : s.client.act P s.down.inbox (.write m) = some e) :
    Inv P c v (s.afterClient e) ∧ e.party.pc = s.client.pc := by
  obtain ⟨⟨conn, pc, derr⟩, server, up, down⟩ := s
  simp only [Client.act] at hact
  split at hact
  · rename_i hmay
    have hsend : pc.sending c.kc v.ivv = .switched [v.ivv] v.ivv := by
      simp only [Client.mayWrite, Bool.or_eq_true, decide_eq_true_eq] at hmay
      rcases hmay with rfl | rfl <;> rfl
    have hup : Direction P conn.tx server.conn.rx up (pc.sending c.kc v.ivv)
      (server.pc.receiving c.ks) := h.up
    rw [hsend] at hup
    -- only the sending core changes, so what the client knows is untouched
    have hat : ∀ tx', ClientAt P c v.ivv { conn with tx := tx' } pc := by
      intro tx'
      have hclient : ClientAt P c v.ivv conn pc := h.client
      simp only [Client.mayWrite, Bool.or_eq_true, decide_eq_true_eq] at hmay
      rcases hmay with rfl | rfl
      · exact ⟨hclient.1, hclient.2.congr (RxCore.SameSetup.refl _) rfl⟩
      · exact hclient
    cases henc : m.encrypt P conn.tx with
    | mk r tx' =>
        have hkey := Send.encrypt_key henc
        simp only [writeData, henc] at hact
        cases r with
        | error err =>
            obtain rfl := Option.some.inj hact
            refine ⟨?_, rfl⟩
            simp only [Net.afterClient, Pipe.push_silent, Pipe.pull_silent]
            refine { h with clientTx := hkey.trans h.clientTx, client := hat tx', up := ?_ }
            simp only [Effect.silent]
            rw [hsend]
            exact hup.refuse henc
        | ok w =>
            obtain rfl := Option.some.inj hact
            refine ⟨?_, rfl⟩
            simp only [Net.afterClient, Pipe.push_wrote, Pipe.pull_wrote]
            refine { h with clientTx := hkey.trans h.clientTx, client := hat tx', up := ?_ }
            dsimp only
            rw [hsend]
            exact hup.write henc
  · cases hact

theorem Inv.server_write {m : Send} {e : Effect Server} (h : Inv P c v s)
    (hact : s.server.act P s.up.inbox (.write m) = some e) :
    Inv P c v (s.afterServer e) ∧ e.party.pc = s.server.pc := by
  obtain ⟨client, ⟨conn, sid, allowBond, pc, derr⟩, up, down⟩ := s
  simp only [Server.act] at hact
  split at hact
  · rename_i hmay
    obtain ⟨role, rfl⟩ : ∃ role, pc = .done role := Server.done_of_result hmay
    have hdown : Direction P conn.tx client.conn.rx down (.switched [c.sid, v.nmux] v.ivv)
      (client.pc.receiving c.kc) := h.down
    cases henc : m.encrypt P conn.tx with
    | mk r tx' =>
        have hkey := Send.encrypt_key henc
        simp only [writeData, henc] at hact
        cases r with
        | error err =>
            obtain rfl := Option.some.inj hact
            refine ⟨?_, rfl⟩
            simp only [Net.afterServer, Pipe.push_silent, Pipe.pull_silent]
            exact { h with serverTx := hkey.trans h.serverTx, down := hdown.refuse henc }
        | ok w =>
            obtain rfl := Option.some.inj hact
            refine ⟨?_, rfl⟩
            simp only [Net.afterServer, Pipe.push_wrote, Pipe.pull_wrote]
            exact { h with serverTx := hkey.trans h.serverTx, down := hdown.write henc }
  · cases hact

/-- A finished client reads what the server wrote, or waits for it. -/
theorem Inv.client_read (h : Inv P c v s) (hpc : s.client.pc = .done) :
    (∃ e, s.client.act P s.down.inbox .read = some e ∧ Inv P c v (s.afterClient e) ∧
      e.party.pc = s.client.pc ∧ (s.afterClient e).unread < s.unread ∧ e.out = []) ∨
    (s.client.act P s.down.inbox .read = none ∧
      (s.down.wrote = s.down.got ∨ s.down.wire ≠ [])) := by
  obtain ⟨⟨conn, pc, derr⟩, server, up, down⟩ := s
  obtain rfl : pc = .done := hpc
  have hkeys : c.ks = c.kc := c.keys_eq h.client.1
  have hcalm : derr = none := (h.calm hkeys).1
  have hkey : conn.rx.key = server.conn.tx.key := by
    rw [h.clientRx, h.serverTx, hkeys]
  rcases h.down.streaming.readData hkey with ⟨m, ms, rx', inbox', hread, hwrote, hsetup, hstream'⟩ |
    ⟨⟨rx'', hread⟩, hq⟩
  · refine Or.inl ⟨⟨⟨{ conn with rx := rx' }, .done, derr⟩, [], inbox', 0, 0, [], [m]⟩,
      ?_, ?_, rfl, ?_, rfl⟩
    · simp [Client.act, hcalm, hread]
    · simp only [Net.afterClient, Pipe.push_got, Pipe.pull_got]
      exact { h with clientRx := hsetup.key.trans h.clientRx, down := h.down.restream hstream' }
    · simp only [Net.afterClient, Pipe.push_got, Pipe.pull_got, Net.unread, Pipe.tookData]
      rw [hwrote]
      simp only [List.length_append, List.length_cons, List.length_nil]
      omega
  · refine Or.inr ⟨?_, hq⟩
    simp [Client.act, hcalm, hread]

/-- With one key, a finished server reads what the client wrote, or waits for it. -/
theorem Inv.server_read (h : Inv P c v s) (hpc : s.server.pc = .done c.effective)
    (hkeys : c.ks = c.kc) :
    (∃ e, s.server.act P s.up.inbox .read = some e ∧ Inv P c v (s.afterServer e) ∧
      e.party.pc = s.server.pc ∧ (s.afterServer e).unread < s.unread ∧ e.out = []) ∨
    (s.server.act P s.up.inbox .read = none ∧ (s.up.wrote = s.up.got ∨ s.up.wire ≠ [])) := by
  obtain ⟨client, ⟨conn, sid, allowBond, pc, derr⟩, up, down⟩ := s
  obtain rfl : pc = .done c.effective := hpc
  have hcalm : derr = none := (h.calm hkeys).2
  have hkey : conn.rx.key = client.conn.tx.key := by
    rw [h.serverRx, h.clientTx, hkeys]
  rcases h.up.streaming.readData hkey with ⟨m, ms, rx', inbox', hread, hwrote, hsetup, hstream'⟩ |
    ⟨⟨rx'', hread⟩, hq⟩
  · refine Or.inl ⟨⟨⟨{ conn with rx := rx' }, sid, allowBond, .done c.effective, derr⟩, [], inbox',
      0, 0, [], [m]⟩, ?_, ?_, rfl, ?_, rfl⟩
    · simp [Server.act, Server.result, hcalm, hread]
    · simp only [Net.afterServer, Pipe.push_got, Pipe.pull_got]
      exact { h with serverRx := hsetup.key.trans h.serverRx, up := h.up.restream hstream' }
    · simp only [Net.afterServer, Pipe.push_got, Pipe.pull_got, Net.unread, Pipe.tookData]
      rw [hwrote]
      simp only [List.length_append, List.length_cons, List.length_nil]
      omega
  · refine Or.inr ⟨?_, hq⟩
    simp [Server.act, Server.result, hcalm, hread]

/-- With keys that differ, a server that has finished may read anything. -/
theorem Inv.server_read_other {e : Effect Server} (h : Inv P c v s) (hkeys : c.ks ≠ c.kc)
    (hact : s.server.act P s.up.inbox .read = some e) :
    Inv P c v (s.afterServer e) ∧ e.party.pc = s.server.pc := by
  obtain ⟨client, ⟨conn, sid, allowBond, pc, derr⟩, up, down⟩ := s
  simp only [Server.act] at hact
  split at hact
  · rename_i hmay
    obtain ⟨role, rfl⟩ : ∃ role, pc = .done role := Server.done_of_result hmay.1
    have hclient : client.conn.tx.key = c.kc := h.clientTx
    have hserver : conn.rx.key = c.ks := h.serverRx
    -- what is left of the direction does not speak about unequal keys
    have hstream : ∀ {rx' pipe'}, rx'.key = conn.rx.key → pipe'.frames = up.frames →
        pipe'.seen = up.seen → Streaming P client.conn.tx rx' pipe' := by
      intro rx' pipe' hrx hframes hseen
      refine ⟨by rw [hframes, hseen, h.up.streaming.frames], ?_⟩
      intro hk
      rw [hrx, hserver, hclient] at hk
      exact absurd hk hkeys
    have hcalm : ∀ o, c.ks = c.kc → client.dataError = none ∧ o = (none : Option Error) :=
      fun _ hk => absurd hk hkeys
    cases hread : readStep P conn.rx up.inbox with
    | ended rx' => simp [hread] at hact
    | failed err rx' =>
        simp only [hread] at hact
        obtain rfl := Option.some.inj hact
        have hrx := readStep_failed_key hread
        refine ⟨?_, rfl⟩
        refine { h with
          serverRx := hrx.trans h.serverRx
          up := h.up.restream (hstream hrx rfl rfl)
          down := ?_
          calm := hcalm _ }
        simp only [Net.afterServer, Pipe.push_silent]
        exact h.down
    | message m rx' rest =>
        simp only [hread] at hact
        obtain rfl := Option.some.inj hact
        have hrx := readStep_message_key hread
        refine ⟨?_, rfl⟩
        simp only [Net.afterServer, Pipe.push_got, Pipe.pull_got]
        exact { h with
          serverRx := hrx.trans h.serverRx
          up := h.up.restream (hstream hrx rfl rfl)
          calm := hcalm _ }
  · cases hact

end Data

/-! ### Runs -/

namespace NetAct

/-- The steps of the handshake, and the deliveries. -/
def handshake : NetAct → Bool
  | .client .advance => true
  | .server .advance => true
  | .deliverUp _ => true
  | .deliverDown _ => true
  | _ => false

/-- The writes of data. -/
def writes : NetAct → Bool
  | .client (.write _) => true
  | .server (.write _) => true
  | _ => false

theorem quiet_of_handshake {a : NetAct} (h : a.handshake = true) : a.writes = false := by
  cases a with
  | client a => cases a <;> simp_all [handshake, writes]
  | server a => cases a <;> simp_all [handshake, writes]
  | _ => rfl

end NetAct

namespace Net

/-- A bound on the handshake operations that are left. -/
def work (c : Setting) (s : Net) : ℕ := s.client.pc.work c.kc + s.server.pc.work c.ks

/-- The bytes in flight. -/
def inFlight (s : Net) : ℕ := s.up.wire.length + s.down.wire.length

/-- What every step that writes no data lowers. -/
def rank (c : Setting) (s : Net) : ℕ × ℕ × ℕ := (s.work c, s.inFlight, s.unread)

end Net

/-- The order of the ranks. -/
def Lower : ℕ × ℕ × ℕ → ℕ × ℕ × ℕ → Prop := Prod.Lex (· < ·) (Prod.Lex (· < ·) (· < ·))

theorem lower_wf : WellFounded Lower :=
  WellFounded.prod_lex Nat.lt_wfRel.wf (WellFounded.prod_lex Nat.lt_wfRel.wf Nat.lt_wfRel.wf)

section Runs

variable {P : Primitives} {c : Setting} {v : Drawn c} {s s' : Net}

theorem lower_work (h : s'.work c < s.work c) : Lower (s'.rank c) (s.rank c) :=
  Prod.Lex.left _ _ h

theorem lower_inFlight (hw : s'.work c = s.work c) (h : s'.inFlight < s.inFlight) :
    Lower (s'.rank c) (s.rank c) := by
  rw [Net.rank, Net.rank, hw]
  exact Prod.Lex.right _ (Prod.Lex.left _ _ h)

theorem lower_unread (hw : s'.work c = s.work c) (hf : s'.inFlight = s.inFlight)
    (h : s'.unread < s.unread) : Lower (s'.rank c) (s.rank c) := by
  rw [Net.rank, Net.rank, hw, hf]
  exact Prod.Lex.right _ (Prod.Lex.right _ h)

theorem Inv.step_client {a : PartyAct} (h : Inv P c v s) (hs : s.step P (.client a) = some s') :
    ∃ v', Inv P c v' s' ∧ ((NetAct.client a).writes = false → Lower (s'.rank c) (s.rank c)) := by
  obtain ⟨e, he, rfl⟩ := Option.map_eq_some_iff.1 hs
  cases a with
  | advance =>
      rcases h.client_advance with ⟨e', v', hadv, hinv, hlt⟩ | ⟨hadv, -⟩ | ⟨hadv, -⟩
      · obtain rfl : e' = e := Option.some.inj (hadv.symm.trans he)
        exact ⟨v', hinv, fun _ => lower_work (Nat.add_lt_add_right hlt _)⟩
      · cases hadv.symm.trans he
      · cases hadv.symm.trans he
  | write m =>
      refine ⟨v, (h.client_write he).1, ?_⟩
      intro hw
      cases hw
  | read =>
      have hpc : s.client.pc = .done := by
        by_contra hne
        simp [Client.act, hne] at he
      rcases h.client_read hpc with ⟨e', hact, hinv, hpc', hlt, hout⟩ | ⟨hact, -⟩
      · obtain rfl : e' = e := Option.some.inj (hact.symm.trans he)
        refine ⟨v, hinv, fun _ => lower_unread ?_ ?_ hlt⟩
        · simp only [Net.work, hpc']
        · simp [Net.inFlight, Pipe.push, Pipe.pull, hout]
      · cases hact.symm.trans he

theorem Inv.step_server {a : PartyAct} (h : Inv P c v s) (hs : s.step P (.server a) = some s') :
    ∃ v', Inv P c v' s' ∧ ((NetAct.server a).writes = false →
      (NetAct.server a).handshake = true ∨ c.ks = c.kc → Lower (s'.rank c) (s.rank c)) := by
  obtain ⟨e, he, rfl⟩ := Option.map_eq_some_iff.1 hs
  cases a with
  | advance =>
      rcases h.server_advance with ⟨e', v', hadv, hinv, hlt⟩ | ⟨hadv, -⟩ | ⟨hadv, -⟩
      · obtain rfl : e' = e := Option.some.inj (hadv.symm.trans he)
        exact ⟨v', hinv, fun _ _ => lower_work (Nat.add_lt_add_left hlt _)⟩
      · cases hadv.symm.trans he
      · cases hadv.symm.trans he
  | write m =>
      refine ⟨v, (h.server_write he).1, ?_⟩
      intro hw
      cases hw
  | read =>
      by_cases hkeys : c.ks = c.kc
      · have hpc : s.server.pc = .done c.effective := by
          have hat := h.server
          cases hspc : s.server.pc with
          | done role =>
              rw [hspc] at hat
              rw [hat]
          | _ => simp [Server.act, Server.result, hspc] at he
        rcases h.server_read hpc hkeys with ⟨e', hact, hinv, hpc', hlt, hout⟩ | ⟨hact, -⟩
        · obtain rfl : e' = e := Option.some.inj (hact.symm.trans he)
          refine ⟨v, hinv, fun _ _ => lower_unread ?_ ?_ hlt⟩
          · simp only [Net.work, hpc']
          · simp [Net.inFlight, Pipe.push, Pipe.pull, hout]
        · cases hact.symm.trans he
      · refine ⟨v, (h.server_read_other hkeys he).1, ?_⟩
        rintro - (hh | hk)
        · cases hh
        · exact absurd hk hkeys

/-- Every step keeps the invariant, and every step that writes no data lowers the rank. -/
theorem Inv.step {a : NetAct} (h : Inv P c v s) (hs : s.step P a = some s') :
    ∃ v', Inv P c v' s' ∧ (a.writes = false → a.handshake = true ∨ c.ks = c.kc →
      Lower (s'.rank c) (s.rank c)) := by
  cases a with
  | client a =>
      obtain ⟨v', hinv, hlow⟩ := h.step_client hs
      exact ⟨v', hinv, fun hw _ => hlow hw⟩
  | server a => exact h.step_server hs
  | deliverUp n =>
      obtain ⟨p, hp, rfl⟩ := Option.map_eq_some_iff.1 hs
      have hlt := (Pipe.deliver_spec hp).2.2.2.2.2
      exact ⟨v, { h with up := h.up.deliver hp }, fun _ _ =>
        lower_inFlight rfl (Nat.add_lt_add_right hlt _)⟩
  | deliverDown n =>
      obtain ⟨p, hp, rfl⟩ := Option.map_eq_some_iff.1 hs
      have hlt := (Pipe.deliver_spec hp).2.2.2.2.2
      exact ⟨v, { h with down := h.down.deliver hp }, fun _ _ =>
        lower_inFlight rfl (Nat.add_lt_add_left hlt _)⟩

/-- Bytes in flight can be delivered. -/
theorem Pipe.deliver_one {p : Pipe} (h : p.wire ≠ []) : ∃ p', p.deliver 1 = some p' := by
  have hlen : 0 < p.wire.length := List.length_pos_of_ne_nil h
  rw [Pipe.deliver, if_pos ⟨Nat.one_pos, hlen⟩]
  exact ⟨_, rfl⟩

/-- Both handshakes have returned. -/
def Net.Returned (c : Setting) (s : Net) : Prop :=
  s.client.pc.finished = true ∧ s.server.pc = .done c.effective

/-- Until both handshakes have returned, one of them can go on or bytes can be delivered. -/
theorem Inv.live (h : Inv P c v s) :
    s.Returned c ∨ ∃ a s', a.handshake = true ∧ s.step P a = some s' := by
  by_cases hup : s.up.wire = []
  · by_cases hdown : s.down.wire = []
    · rcases h.client_advance with ⟨e, v', hadv, -, -⟩ | ⟨-, hsw, hwait⟩ | ⟨-, hfin⟩
      · refine Or.inr ⟨.client .advance, s.afterClient e, rfl, ?_⟩
        simp only [Net.step, Client.act, hadv]
        rfl
      · rcases h.server_advance with ⟨e, v', hadv, -, -⟩ | ⟨-, hw⟩ | ⟨-, hdone⟩
        · refine Or.inr ⟨.server .advance, s.afterServer e, rfl, ?_⟩
          simp only [Net.step, Server.act, hadv]
          rfl
        · -- the server waits for an `ivv` that was sent
          rcases hw with hw | hw
          · exact absurd hup hw
          · rw [hsw] at hw
            cases hw
        · -- the client waits for a packet of a server that has sent them all
          rcases hwait with hwait | hwait
          · exact absurd hdown hwait
          · rw [hdone] at hwait
            cases hwait
      · rcases h.server_advance with ⟨e, v', hadv, -, -⟩ | ⟨-, hw⟩ | ⟨-, hdone⟩
        · refine Or.inr ⟨.server .advance, s.afterServer e, rfl, ?_⟩
          simp only [Net.step, Server.act, hadv]
          rfl
        · rcases hw with hw | hw
          · exact absurd hup hw
          · cases hpc : s.client.pc <;> simp_all [ClientPc.switched, ClientPc.finished]
        · exact Or.inl ⟨hfin, hdone⟩
    · obtain ⟨p, hp⟩ := Pipe.deliver_one hdown
      refine Or.inr ⟨.deliverDown 1, { s with down := p }, rfl, ?_⟩
      simp only [Net.step, hp]
      rfl
  · obtain ⟨p, hp⟩ := Pipe.deliver_one hup
    refine Or.inr ⟨.deliverUp 1, { s with up := p }, rfl, ?_⟩
    simp only [Net.step, hp]
    rfl

/-- The invariant, for some draws. -/
def Net.Sound (P : Primitives) (c : Setting) (s : Net) : Prop := ∃ v, Inv P c v s

/-- The invariant holds in every state of every run. -/
theorem Net.Sound.of_reach {rngC rngS : Rng}
    (hs : Reach (Net.step P) always (Net.init P c.kc c.ks rngC rngS c.role c.sid c.allowBond) s) :
    s.Sound P c := by
  have hinit : Net.Sound P c (Net.init P c.kc c.ks rngC rngS c.role c.sid c.allowBond) :=
    ⟨⟨0, 0⟩, Inv.init P c _ rngC rngS⟩
  refine Reach.invariant hinit ?_ hs
  rintro s a s' ⟨v, h⟩ - hstep
  obtain ⟨v', h', -⟩ := h.step hstep
  exact ⟨v', h'⟩

end Runs

/-! ### Agreement -/

/-- What holds in every state of a run between two ends with one key: nobody fails, the two agree on
the session id and the role, whoever has finished has consumed exactly the frames of the handshake,
every message of 1 to 65536 bytes is written, and what is read is what was written, in order. -/
structure Agreed (P : Primitives) (role : SessionRole) (sid : U128) (s : Net) : Prop where
  client : ∀ e, s.client.pc ≠ .failed e
  server : ∀ e, s.server.pc ≠ .failed e
  sessionId : s.client.pc = .done → s.client.conn.sessionId = sid
  granted : ∀ r, s.server.pc = .done r → r = role
  upFrames : s.server.pc = .done role → s.up.seen = s.up.frames
  downFrames : s.client.pc = .done → s.down.seen = s.down.frames
  upWrites : s.client.pc = .sent ∨ s.client.pc = .done → ∀ m : Send, m.Legal →
    ∃ s', Net.step P s (.client (.write m)) = some s' ∧ s'.up.wrote = s.up.wrote ++ [m.message]
  downWrites : s.server.pc = .done role → ∀ m : Send, m.Legal →
    ∃ s', Net.step P s (.server (.write m)) = some s' ∧ s'.down.wrote = s.down.wrote ++ [m.message]
  upData : s.up.got <+: s.up.wrote
  downData : s.down.got <+: s.down.wrote
  calm : s.client.dataError = none ∧ s.server.dataError = none

/-- Both parties have succeeded, and everything that was written has been read. -/
def Completed (role : SessionRole) (sid : U128) (s : Net) : Prop :=
  (s.client.pc = .done ∧ s.client.conn.sessionId = sid) ∧ s.server.pc = .done role ∧
    s.up.got = s.up.wrote ∧ s.down.got = s.down.wrote

/-- A receiver has read a part of what was written, from the front. -/
theorem Direction.got_isPrefix {P : Primitives} {tx : TxCore} {rx : RxCore} {pipe : Pipe}
    {snd : Sending} {rcv : Receiving} (hk : rx.key = tx.key) (h : Direction P tx rx pipe snd rcv) :
    pipe.got <+: pipe.wrote := by
  cases rcv with
  | expect count budget =>
      rw [Expecting.got h]
      exact List.nil_prefix
  | switched =>
      obtain ⟨unread, hwrote, -⟩ := h.streaming.data hk
      rw [hwrote]
      exact List.prefix_append _ _

section Agreement

variable {P : Primitives} {c : Setting} {v : Drawn c} {s : Net}

theorem Inv.agreed (h : Inv P c v s) (hok : c.verdict = .ok ()) (hrole : c.effective = c.role) :
    Agreed P c.role c.sid s where
  client := by
    intro e he
    have hat := h.client
    rw [he] at hat
    rw [hat.1] at hok
    cases hok
  server := by
    intro e he
    have hat := h.server
    rw [he] at hat
    exact hat
  sessionId := by
    intro hpc
    have hat := h.client
    rw [hpc] at hat
    exact hat.2
  granted := by
    intro r hpc
    have hat := h.server
    rw [hpc] at hat
    exact hat.trans hrole
  upFrames := by
    intro hpc
    have hup := h.up
    rw [hpc] at hup
    exact hup.streaming.frames.symm
  downFrames := by
    intro hpc
    have hdown := h.down
    rw [hpc] at hdown
    exact hdown.streaming.frames.symm
  upWrites := fun hpc _ hm => Net.client_writes P hpc hm
  downWrites := fun hpc _ hm => Net.server_writes P hpc hm
  upData := h.up.got_isPrefix (by rw [h.serverRx, h.clientTx, c.keys_eq hok])
  downData := h.down.got_isPrefix (by rw [h.clientRx, h.serverTx, c.keys_eq hok])
  calm := h.calm (c.keys_eq hok)

/-- Until everything is done and read, some step that writes no data can be taken. -/
theorem Inv.live_data (h : Inv P c v s) (hok : c.verdict = .ok ()) (hrole : c.effective = c.role) :
    Completed c.role c.sid s ∨ ∃ a s', a.writes = false ∧ s.step P a = some s' := by
  rcases h.live with ⟨hfin, hdone⟩ | ⟨a, s', ha, hs⟩
  · have hpc : s.client.pc = .done := by
      cases hcpc : s.client.pc with
      | done => rfl
      | failed e => exact absurd hcpc ((h.agreed hok hrole).client e)
      | _ => simp [hcpc, ClientPc.finished] at hfin
    -- a pipe that still holds something lets its reader read, or its bytes be delivered
    rcases h.client_read hpc with ⟨e, hact, -⟩ | ⟨-, hdown | hdown⟩
    · refine Or.inr ⟨.client .read, s.afterClient e, rfl, ?_⟩
      simp only [Net.step, hact]
      rfl
    · rcases h.server_read hdone (c.keys_eq hok) with ⟨e, hact, -⟩ | ⟨-, hup | hup⟩
      · refine Or.inr ⟨.server .read, s.afterServer e, rfl, ?_⟩
        simp only [Net.step, hact]
        rfl
      · refine Or.inl ⟨⟨hpc, (h.agreed hok hrole).sessionId hpc⟩, ?_, hup.symm, hdown.symm⟩
        rw [hdone, hrole]
      · obtain ⟨p, hp⟩ := Pipe.deliver_one hup
        refine Or.inr ⟨.deliverUp 1, { s with up := p }, rfl, ?_⟩
        simp only [Net.step, hp]
        rfl
    · obtain ⟨p, hp⟩ := Pipe.deliver_one hdown
      refine Or.inr ⟨.deliverDown 1, { s with down := p }, rfl, ?_⟩
      simp only [Net.step, hp]
      rfl
  · exact Or.inr ⟨a, s', NetAct.quiet_of_handshake ha, hs⟩

/-- However the parties and the pipes are scheduled, both handshakes succeed and all messages are read. -/
theorem Net.Sound.completes (hok : c.verdict = .ok ()) (hrole : c.effective = c.role)
    (hsound : s.Sound P c) :
    Inevitable (Net.step P) (fun _ a => a.writes = false) (Completed c.role c.sid) s := by
  have hlive : ∀ {s}, s.Sound P c →
      Completed c.role c.sid s ∨ ∃ a s', a.writes = false ∧ Net.step P s a = some s' := by
    rintro s ⟨v, h⟩
    exact h.live_data hok hrole
  have hstep : ∀ {s a s'}, s.Sound P c → a.writes = false → Net.step P s a = some s' →
      s'.Sound P c ∧ Lower (s'.rank c) (s.rank c) := by
    rintro s a s' ⟨v, h⟩ ha hs
    obtain ⟨v', h', hlow⟩ := h.step hs
    exact ⟨⟨v', h'⟩, hlow ha (Or.inr (c.keys_eq hok))⟩
  exact Inevitable.of_rank lower_wf (Net.rank c) hlive hstep hsound

end Agreement

/-- Two ends with one key, a role that the server grants and a session id other than zero: in every
state of every run nobody has failed and the two agree, and from there, however the parties and the
pipes are scheduled, both handshakes succeed and every message written is read. -/
theorem handshake_agreement (P : Primitives) (key : ObfuscationKey) (role : SessionRole)
    (sid : U128) (allowBond : Bool) (rngC rngS : Rng) (hsid : sid ≠ 0)
    (hrole : role = .muxTunnel ∨ allowBond = true) {s : Net}
    (hs : Reach (Net.step P) always (Net.init P key key rngC rngS role sid allowBond) s) :
    Agreed P role sid s ∧
      Inevitable (Net.step P) (fun _ a => a.writes = false) (Completed role sid) s := by
  let c : Setting := ⟨key, key, role, sid, allowBond, SameWire.refl key, hsid⟩
  have hok : c.verdict = .ok () := by
    have hflags : SameFlags key key := ⟨rfl, rfl, rfl, rfl⟩
    have hgrant : ¬ (role = .bondLink ∧ allowBond = false) := by
      rintro ⟨h₁, h₂⟩
      rcases hrole with h | h
      · rw [h] at h₁
        cases h₁
      · rw [h] at h₂
        cases h₂
    rw [Setting.verdict, verdict, if_neg (not_not.2 hflags), if_neg hgrant]
  have heff : c.effective = c.role := by
    rcases hrole with h | h
    · simp [Setting.effective, c, h, effectiveRole]
    · cases role <;> simp [Setting.effective, c, h, effectiveRole]
  obtain ⟨v, hinv⟩ := Net.Sound.of_reach (c := c) hs
  exact ⟨hinv.agreed hok heff, Net.Sound.completes hok heff ⟨v, hinv⟩⟩

/-- A key with the shortest preludes and little padding. -/
def shortKey : ValidKey :=
  ⟨{ ObfuscationKey.default with kl := 0, kh := 0, kx := 1 }, by decide⟩

/-- Two handshakes with one noise packet each; the client does what `early` says between its phases. -/
def handshakeRun (early : List NetAct) (up down : ℕ) : List NetAct :=
  let client := List.replicate 3 (NetAct.client .advance)
  let server := List.replicate 3 (NetAct.server .advance)
  client ++ early ++ NetAct.client .advance :: server ++ NetAct.deliverUp up :: server ++
    NetAct.deliverDown down :: client

/-- A whole conversation: a message that flies before the client has confirmed, and an answer. -/
theorem handshake_agreement_short :
    ∃ s, Reach (Net.step Primitives.sample) always
        (Net.init Primitives.sample shortKey shortKey (fun _ => 0) (fun _ => 7) .muxTunnel 1 false) s ∧
      s.client.pc = .done ∧ s.server.pc = .done .muxTunnel ∧ s.up.got = [[1, 2, 3]] ∧
      s.down.got = [[4]] ∧ Agreed .sample .muxTunnel 1 s ∧
      Inevitable (Net.step Primitives.sample) (fun _ a => a.writes = false)
        (Completed .muxTunnel 1) s := by
  have hrun : (exec (Net.step Primitives.sample) always
      (Net.init Primitives.sample shortKey shortKey (fun _ => 0) (fun _ => 7) .muxTunnel 1 false)
      (handshakeRun [.client (.write (.plain [1, 2, 3]))] 118 179 ++
        [.server .read, .server (.write (.plain [4])), .deliverDown 4, .client .read])).map
      (fun s => (s.client.pc, s.server.pc, s.up.got, s.down.got))
      = some (.done, .done .muxTunnel, [[1, 2, 3]], [[4]]) := by decide +kernel
  obtain ⟨s, he, hs⟩ := Option.map_eq_some_iff.1 hrun
  simp only [Prod.mk.injEq] at hs
  obtain ⟨hclient, hserver, hup, hdown⟩ := hs
  have hr := Reach.refl.of_exec _ he
  exact ⟨s, hr, hclient, hserver, hup, hdown, handshake_agreement .sample shortKey .muxTunnel 1 false
    (fun _ => 0) (fun _ => 7) (by decide) (Or.inl rfl) hr⟩

/-! ### Refusal -/

/-- How the handshakes of two ends whose keys share the wire can have ended: the client with the
verdict, and after a refusal with its receiving direction as it was made; the server with the role it
echoed. -/
structure Judged (P : Primitives) (kc ks : ObfuscationKey) (role : SessionRole) (sid : U128)
    (allowBond : Bool) (s : Net) : Prop where
  accepted : s.client.pc = .done →
    verdict kc ks role allowBond = .ok () ∧ s.client.conn.sessionId = sid
  refused : ∀ e, s.client.pc = .failed e →
    verdict kc ks role allowBond = .error e ∧ s.client.conn.rx.handshaked = false ∧
      (RxCore.new P kc).SameSetup s.client.conn.rx ∧ s.client.conn.sessionId = 0
  server : ∀ e, s.server.pc ≠ .failed e
  granted : ∀ r, s.server.pc = .done r → r = effectiveRole role allowBond

/-- Both handshakes have returned: the client's its verdict, the server's the role it echoed. -/
def Decided (kc ks : ObfuscationKey) (role : SessionRole) (allowBond : Bool) (s : Net) : Prop :=
  (match verdict kc ks role allowBond with
    | .ok () => s.client.pc = .done
    | .error e => s.client.pc = .failed e) ∧
    s.server.pc = .done (effectiveRole role allowBond)

section Refusal

variable {P : Primitives} {c : Setting} {v : Drawn c} {s : Net}

theorem Inv.judged (h : Inv P c v s) : Judged P c.kc c.ks c.role c.sid c.allowBond s where
  accepted := by
    intro hpc
    have hat := h.client
    rw [hpc] at hat
    exact hat
  refused := by
    intro e hpc
    have hat := h.client
    rw [hpc] at hat
    exact ⟨hat.1, hat.2.setup.handshaked, hat.2.setup, hat.2.sessionId⟩
  server := by
    intro e hpc
    have hat := h.server
    rw [hpc] at hat
    exact hat
  granted := by
    intro r hpc
    have hat := h.server
    rw [hpc] at hat
    exact hat

theorem Inv.decided (h : Inv P c v s) (hret : s.Returned c) :
    Decided c.kc c.ks c.role c.allowBond s := by
  refine ⟨?_, hret.2⟩
  cases hpc : s.client.pc with
  | done => rw [(h.judged.accepted hpc).1]
  | failed e => rw [(h.judged.refused e hpc).1]
  | _ => simp [Net.Returned, hpc, ClientPc.finished] at hret

/-- However the handshakes and the pipes are scheduled, both handshakes return. -/
theorem Net.Sound.decides (hsound : s.Sound P c) :
    Inevitable (Net.step P) (fun _ a => a.handshake = true) (Decided c.kc c.ks c.role c.allowBond)
      s := by
  have hlive : ∀ {s}, s.Sound P c → Decided c.kc c.ks c.role c.allowBond s ∨
      ∃ a s', a.handshake = true ∧ Net.step P s a = some s' := by
    rintro s ⟨v, h⟩
    exact h.live.imp_left h.decided
  have hstep : ∀ {s a s'}, s.Sound P c → a.handshake = true → Net.step P s a = some s' →
      s'.Sound P c ∧ Lower (s'.rank c) (s.rank c) := by
    rintro s a s' ⟨v, h⟩ ha hs
    obtain ⟨v', h', hlow⟩ := h.step hs
    exact ⟨⟨v', h'⟩, hlow (NetAct.quiet_of_handshake ha) (Or.inl ha)⟩
  exact Inevitable.of_rank lower_wf (Net.rank c) hlive hstep hsound

end Refusal

/-! ### The session id zero -/

/-- A server that was called with the session id zero has sent nothing, and has at most failed; its
client has not finished. -/
structure ZeroSid (s : Net) : Prop where
  sid : s.server.sid = 0
  server : s.server.pc = .start ∨ s.server.pc = .failed .invalidSessionId
  silent : s.down = Pipe.empty
  client : s.client.pc ≠ .done

/-- What holds in every state of a run whose server was called with the session id zero: nothing is
ever sent to the client, and the first step of the server is that it fails. -/
structure Unserved (P : Primitives) (s : Net) : Prop extends ZeroSid s where
  fails : s.server.pc = .start → ∃ s', Net.step P s (.server .advance) = some s' ∧
    s'.server.pc = .failed .invalidSessionId

section ZeroSid

variable {P : Primitives} {s s' : Net}

/-- What a step of a client to which nothing was delivered does: it reads nothing and does not
finish. -/
def Client.Unfed (c : Client) (e : Effect Client) : Prop :=
  e.inbox = [] ∧ e.seen = 0 ∧ e.got = [] ∧ (e.party.pc = .done → c.pc = .done)

theorem Client.unfed_silent {c c' : Client} (h : c'.pc ≠ .done) :
    c.Unfed (Effect.silent c' []) :=
  ⟨rfl, rfl, rfl, fun hpc => absurd hpc h⟩

theorem Client.unfed_sent {c c' : Client} {w : List UInt8} (h : c'.pc ≠ .done) :
    c.Unfed (Effect.sent c' w []) :=
  ⟨rfl, rfl, rfl, fun hpc => absurd hpc h⟩

theorem Client.act_nil {c : Client} {a : PartyAct} {e : Effect Client}
    (h : c.act P [] a = some e) : c.Unfed e := by
  have hnil : readPacket P c.conn [] = none := by
    rw [readPacket, readStep_nil]
  cases a with
  | advance =>
      simp only [Client.act, Client.advance] at h
      cases hpc : c.pc with
      | start role =>
          simp only [hpc] at h
          obtain rfl := Option.some.inj h
          exact unfed_silent (by simp)
      | prelude role n =>
          cases n with
          | zero =>
              simp only [hpc] at h
              split at h
              · obtain rfl := Option.some.inj h
                exact unfed_silent (by simp)
              · obtain rfl := Option.some.inj h
                exact unfed_sent (by simp)
          | succ n =>
              simp only [hpc] at h
              split at h
              · obtain rfl := Option.some.inj h
                exact unfed_silent (by simp)
              · obtain rfl := Option.some.inj h
                exact unfed_sent (by simp)
      | sent =>
          simp only [hpc] at h
          split at h
          · obtain rfl := Option.some.inj h
            exact unfed_silent (by simp)
          · obtain rfl := Option.some.inj h
            exact unfed_silent (by simp)
      | readSid ivv role budget => simp [hpc, hnil] at h
      | readNmux ivv role sid budget => simp [hpc, hnil] at h
      | done => simp [hpc] at h
      | failed err => simp [hpc] at h
  | write m =>
      simp only [Client.act] at h
      split at h
      · split at h
        · obtain rfl := Option.some.inj h
          exact ⟨rfl, rfl, rfl, id⟩
        · obtain rfl := Option.some.inj h
          exact ⟨rfl, rfl, rfl, id⟩
      · cases h
  | read => simp [Client.act, readStep_nil] at h

theorem ZeroSid.step {a : NetAct} (h : ZeroSid s) (hs : Net.step P s a = some s') : ZeroSid s' := by
  cases a with
  | client a =>
      obtain ⟨e, he, rfl⟩ := Option.map_eq_some_iff.1 hs
      rw [show s.down.inbox = [] by rw [h.silent]; rfl] at he
      obtain ⟨hinbox, hseen, hgot, hdone⟩ := Client.act_nil he
      refine ⟨h.sid, h.server, ?_, fun hpc => h.client (hdone hpc)⟩
      simp [Pipe.pull, h.silent, Pipe.empty, hinbox, hseen, hgot]
  | server a =>
      obtain ⟨e, he, rfl⟩ := Option.map_eq_some_iff.1 hs
      have hresult : s.server.result = none := by
        rcases h.server with hpc | hpc <;> simp [Server.result, hpc]
      cases a with
      | advance =>
          rcases h.server with hpc | hpc
          · simp only [Server.act, Server.advance, hpc, h.sid, if_true] at he
            obtain rfl := Option.some.inj he
            refine ⟨rfl, Or.inr rfl, ?_, h.client⟩
            simpa only [Pipe.push_silent] using h.silent
          · simp [Server.act, Server.advance, hpc] at he
      | write m => simp [Server.act, hresult] at he
      | read => simp [Server.act, hresult] at he
  | deliverUp n =>
      obtain ⟨p, -, rfl⟩ := Option.map_eq_some_iff.1 hs
      exact ⟨h.sid, h.server, h.silent, h.client⟩
  | deliverDown n =>
      obtain ⟨p, hp, rfl⟩ := Option.map_eq_some_iff.1 hs
      have hlt := (Pipe.deliver_spec hp).2.2.2.2.2
      rw [h.silent] at hlt
      simp [Pipe.empty] at hlt

theorem ZeroSid.unserved (h : ZeroSid s) : Unserved P s where
  toZeroSid := h
  fails := by
    intro hpc
    simp only [Net.step, Server.act, Server.advance, hpc, h.sid, if_true, Option.map_some]
    exact ⟨_, rfl, rfl⟩

end ZeroSid

/-! ### The outcome of a handshake -/

/-- Two ends with valid keys that agree on everything but the flags.  With a session id other than
zero, in every state of every run whoever has finished has finished as the verdict says, and from
there, however the handshakes and the pipes are scheduled, both handshakes return.  With the session
id zero the server fails before it sends anything. -/
theorem handshake_refusal (P : Primitives) (kc ks : ValidKey) (hwire : SameWire kc ks)
    (role : SessionRole) (sid : U128) (allowBond : Bool) (rngC rngS : Rng) {s : Net}
    (hs : Reach (Net.step P) always (Net.init P kc ks rngC rngS role sid allowBond) s) :
    (sid ≠ 0 → Judged P kc ks role sid allowBond s ∧
      Inevitable (Net.step P) (fun _ a => a.handshake = true) (Decided kc ks role allowBond) s) ∧
    (sid = 0 → Unserved P s) := by
  constructor
  · intro hsid
    let c : Setting := ⟨kc, ks, role, sid, allowBond, hwire, hsid⟩
    obtain ⟨v, hinv⟩ := Net.Sound.of_reach (c := c) hs
    exact ⟨hinv.judged, Net.Sound.decides ⟨v, hinv⟩⟩
  · rintro rfl
    have hzero : ZeroSid (Net.init P kc ks rngC rngS role 0 allowBond) :=
      ⟨rfl, Or.inl rfl, rfl, by simp [Net.init]⟩
    exact (Reach.invariant hzero (fun h _ hstep => h.step hstep) hs).unserved

/-- The short key with one flag changed. -/
def unmaskedKey : ValidKey := ⟨{ shortKey.toObfuscationKey with masked := false }, by decide⟩

/-- Two keys that differ in one flag: the server finishes, the client is told. -/
theorem handshake_refusal_masked :
    SameWire shortKey unmaskedKey ∧
      (∃ s, Reach (Net.step Primitives.sample) always
          (Net.init Primitives.sample shortKey unmaskedKey (fun _ => 0) (fun _ => 7) .muxTunnel 1
            false) s ∧
        s.client.pc = .failed .flagsMismatch ∧ s.server.pc = .done .muxTunnel ∧
        Judged .sample shortKey unmaskedKey .muxTunnel 1 false s) ∧
      Unserved .sample (Net.init Primitives.sample shortKey unmaskedKey (fun _ => 0) (fun _ => 7)
        .muxTunnel 0 false) := by
  have hwire : SameWire shortKey unmaskedKey := ⟨rfl, rfl, rfl, rfl, rfl, rfl, rfl, rfl⟩
  have hrun : (exec (Net.step Primitives.sample) always
      (Net.init Primitives.sample shortKey unmaskedKey (fun _ => 0) (fun _ => 7) .muxTunnel 1 false)
      (handshakeRun [] 112 179)).map (fun s => (s.client.pc, s.server.pc))
      = some (.failed .flagsMismatch, .done .muxTunnel) := by decide +kernel
  obtain ⟨s, he, hs⟩ := Option.map_eq_some_iff.1 hrun
  simp only [Prod.mk.injEq] at hs
  have hr := Reach.refl.of_exec _ he
  have hjudged := (handshake_refusal .sample shortKey unmaskedKey hwire .muxTunnel 1 false (fun _ => 0)
    (fun _ => 7) hr).1 (by decide)
  exact ⟨hwire, ⟨s, hr, hs.1, hs.2, hjudged.1⟩, (handshake_refusal .sample shortKey unmaskedKey hwire
    .muxTunnel 0 false (fun _ => 0) (fun _ => 7) Reach.refl).2 rfl⟩

/-- A server that is called with the session id zero fails before it sends anything. -/
theorem handshake_refusal_zero_sid :
    ∃ s, Reach (Net.step Primitives.sample) always
        (Net.init Primitives.sample .default .default (fun _ => 0) (fun _ => 7) .bondLink 0 false)
        s ∧
      s.server.pc = .failed .invalidSessionId ∧
      ¬ Judged Primitives.sample .default .default .bondLink 0 false s := by
  refine ⟨_, Reach.refl.step (.server .advance) trivial rfl, rfl, ?_⟩
  intro h
  exact h.server _ rfl

end Nextppp

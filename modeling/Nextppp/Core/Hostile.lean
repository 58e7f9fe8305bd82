/-
**The handshake against a hostile peer.**

A peer that follows no protocol sends whatever bytes it likes, cut as it likes.  The handshake skips
noise packets up to a budget and never waits for a frame longer than the limit, so it takes a bounded
number of steps, and after a bounded number of bytes it is not the peer any more that keeps it from
returning.

Main definitions:

* `Nextppp.maxPacket` — the longest frame before the switch;
* `Nextppp.ClientPc.reads`, `Nextppp.ServerPc.reads` — how many packets each side may still read;
* `Nextppp.Client.listen`, `Nextppp.Server.listen` — the handshake operations on the bytes delivered.

Main results:

* `Nextppp.readPacket_cases` — a read waits for less than a frame, fails, or takes at most a frame;
* `Nextppp.Client.bounded`, `Nextppp.Server.bounded` — both sides are bounded parties;
* `Nextppp.handshake_not_pinned` — a hostile peer cannot keep either side in its handshake.
-/

import Nextppp.Lib.Fed
import Nextppp.Core.Agreement

set_option relaxedAutoImplicit false
set_option autoImplicit false

namespace Nextppp

open Incremental Run

/-- The longest frame before the switch: the extended header and the longest base94 body. -/
def maxPacket : ℕ := headerExtended + base94MaxFrame

/-! ### One read -/

variable {P : Primitives}

/-- **What a read does before the switch**: it waits for less than a frame, fails, or takes at most a
frame off the bytes and stays before the switch. -/
theorem readStep_cases {rx : RxCore} (henv : rx.envelope = true) (io : List UInt8) :
    (readStep P rx io = .ended rx ∧ io.length < maxPacket) ∨
      (∃ e rx', readStep P rx io = .failed e rx') ∨
      ∃ m rx' rest, readStep P rx io = .message m rx' rest ∧ rx'.envelope = true ∧
        io.length ≤ rest.length + maxPacket := by
  cases hpeek : rx.b94.peekFrameLen io with
  | error e => exact .inr (.inl ⟨e, rx, readStep_bad henv hpeek⟩)
  | ok total? =>
      cases total? with
      | none =>
          refine .inl ⟨readStep_short henv (.inl hpeek), ?_⟩
          unfold Base94Framer.peekFrameLen at hpeek
          split at hpeek
          · rename_i hshort
            exact hshort.trans_le (rx.b94.headerLen_le.trans (Nat.le_add_right headerExtended _))
          · split at hpeek <;> cases hpeek
      | some total =>
          have htotal : total ≤ maxPacket :=
            (Base94Framer.peekFrameLen_le hpeek).trans (Nat.add_le_add_right rx.b94.headerLen_le _)
          by_cases hfull : total ≤ io.length
          · rw [readStep_full P henv hpeek hfull]
            split
            · exact .inr (.inl ⟨_, _, rfl⟩)
            · rename_i body b94 _
              have hsetup : ({ rx with b94 := b94 } : RxCore).envelope = true := henv
              split
              · exact .inr (.inl ⟨_, _, rfl⟩)
              · rename_i msg rx' htail
                refine .inr (.inr ⟨msg, rx', _, rfl, ?_, ?_⟩)
                · have hrx : rx' = (RxCore.tail P { rx with b94 := b94 } body).2 := by rw [htail]
                  rw [hrx]
                  exact hsetup
                · rw [List.length_drop]
                  omega
          · have hshort : io.length < total := Nat.lt_of_not_le hfull
            exact .inl ⟨readStep_short henv (.inr ⟨total, hpeek, hshort⟩), hshort.trans_le htotal⟩

/-- **What reading a session-id packet does.** -/
theorem readPacket_cases {conn : Transmission} (henv : conn.rx.envelope = true) (inbox : List UInt8) :
    (readPacket P conn inbox = none ∧ inbox.length < maxPacket) ∨
      (∃ e conn', readPacket P conn inbox = some (.error e, conn', []) ∧ conn'.tx = conn.tx) ∨
      ∃ r conn' rest, readPacket P conn inbox = some (r, conn', rest) ∧ conn'.tx = conn.tx ∧
        conn'.rx.envelope = true ∧ inbox.length ≤ rest.length + maxPacket := by
  rcases readStep_cases (P := P) henv inbox with ⟨h, hlt⟩ | ⟨e, rx', h⟩ | ⟨m, rx', rest, h, henv', hle⟩
  · exact .inl ⟨by rw [readPacket, h], hlt⟩
  · exact .inr (.inl ⟨e, { conn with rx := rx' }, by rw [readPacket, h], rfl⟩)
  · exact .inr (.inr ⟨_, { conn with rx := rx' }, rest, by rw [readPacket, h], rfl, henv', hle⟩)

theorem sendSessionId_key (tx : TxCore) (id : U128) : (tx.sendSessionId P id).2.key = tx.key :=
  (TxOp.sendSessionId id).step_key P tx

/-! ### The client -/

/-- The packets that the client may still read, when `n` noise packets are skipped for each. -/
def ClientPc.reads (n : ℕ) : ClientPc → ℕ
  | .start _ | .prelude _ _ | .sent => 2 * (n + 1)
  | .readSid _ _ budget => budget + 1 + (n + 1)
  | .readNmux _ _ _ budget => budget + 1
  | .done | .failed _ => 0

namespace Client

/-- The client's handshake on the bytes delivered to it. -/
def listen (P : Primitives) (c : Client) (inbox : List UInt8) : Option (Client × List UInt8) :=
  (c.advance P inbox).map fun e => (e.party, e.inbox)

/-- The client works with this key, and until it has returned it reads frames in the envelope. -/
structure Listening (key : ObfuscationKey) (c : Client) : Prop where
  key : c.conn.tx.key = key
  envelope : c.pc.finished = true ∨ c.conn.rx.envelope = true

/-- A step of the client is paid for. -/
def Paid (key : ObfuscationKey) : Client → List UInt8 → Client → List UInt8 → Prop :=
  Fed.Paid (Listening key) (fun c => c.pc.finished = true) (fun c => c.pc.work key)
    (fun c => c.pc.reads (maxNopPackets key)) maxPacket

variable {key : ObfuscationKey} {conn conn' : Transmission} {pc pc' : ClientPc} {derr : Option Error}
  {inbox rest : List UInt8}

/-- A step that ends the handshake. -/
theorem Paid.last (hkey : conn'.tx.key = key) (hwork : 0 < pc.work key) (hzero : pc'.work key = 0)
    (hfin : pc'.finished = true) : Paid key ⟨conn, pc, derr⟩ inbox ⟨conn', pc', derr⟩ rest :=
  Fed.Paid.last ⟨hkey, .inl hfin⟩ (hzero.trans_lt hwork) hfin

/-- A step that reads nothing. -/
theorem Paid.quiet (hkey : conn'.tx.key = key) (henv : conn'.rx.envelope = true)
    (hwork : pc'.work key < pc.work key)
    (hreads : pc'.reads (maxNopPackets key) = pc.reads (maxNopPackets key)) :
    Paid key ⟨conn, pc, derr⟩ inbox ⟨conn', pc', derr⟩ inbox :=
  Fed.Paid.quiet ⟨hkey, .inr henv⟩ hwork hreads

/-- A step that reads a packet. -/
theorem Paid.read (hkey : conn'.tx.key = key) (henv : conn'.rx.envelope = true)
    (hwork : pc'.work key < pc.work key) (hle : inbox.length ≤ rest.length + maxPacket)
    (hreads : pc'.reads (maxNopPackets key) + 1 ≤ pc.reads (maxNopPackets key)) :
    Paid key ⟨conn, pc, derr⟩ inbox ⟨conn', pc', derr⟩ rest :=
  Fed.Paid.read ⟨hkey, .inr henv⟩ hwork hle hreads

theorem advance_prelude {c : Client} {e : Effect Client} {role : SessionRole} {n : ℕ}
    (hkey : c.conn.tx.key = key) (henv : c.conn.rx.envelope = true) (hpc : c.pc = .prelude role n)
    (he : c.advance P inbox = some e) : Paid key c inbox e.party e.inbox := by
  obtain ⟨conn, pc, derr⟩ := c
  dsimp only at hkey henv hpc
  subst hpc
  cases n with
  | zero =>
      simp only [advance] at he
      generalize conn.tx.rng.randomBits 64 = nonce at he
      have hk := sendSessionId_key (P := P) { conn.tx with rng := nonce.2 } (taggedIvv role nonce.1)
      split at he
      · rename_i hs
        rw [hs] at hk
        obtain rfl := Option.some.inj he
        exact .last (hk.trans hkey) (by simp [ClientPc.work]) rfl rfl
      · rename_i hs
        rw [hs] at hk
        obtain rfl := Option.some.inj he
        exact .quiet (hk.trans hkey) henv (by simp [ClientPc.work]) rfl
  | succ n =>
      have hk := sendSessionId_key (P := P) conn.tx 0
      simp only [advance] at he
      split at he
      · rename_i hs
        rw [hs] at hk
        obtain rfl := Option.some.inj he
        exact .last (hk.trans hkey) (by simp [ClientPc.work]) rfl rfl
      · rename_i hs
        rw [hs] at hk
        obtain rfl := Option.some.inj he
        exact .quiet (hk.trans hkey) henv (by simp only [ClientPc.work]; omega) rfl

theorem advance_readSid {c : Client} {e : Effect Client} {ivv : U128} {role : SessionRole} {budget : ℕ}
    (hkey : c.conn.tx.key = key) (henv : c.conn.rx.envelope = true)
    (hpc : c.pc = .readSid ivv role budget) (he : c.advance P inbox = some e) :
    Paid key c inbox e.party e.inbox := by
  obtain ⟨conn, pc, derr⟩ := c
  dsimp only at hkey henv hpc
  subst hpc
  simp only [advance] at he
  rcases readPacket_cases (P := P) henv inbox with ⟨hr, -⟩ | ⟨e, conn', hr, htx⟩ |
    ⟨r, conn', rest, hr, htx, henv', hle⟩
  · rw [hr] at he
    cases he
  · rw [hr] at he
    obtain rfl := Option.some.inj he
    exact .last (htx ▸ hkey) (by simp [ClientPc.work]) rfl rfl
  · rw [hr] at he
    rcases r with e | _ | sid
    · obtain rfl := Option.some.inj he
      exact .last (htx ▸ hkey) (by simp [ClientPc.work]) rfl rfl
    · dsimp only at he
      split at he
      · obtain rfl := Option.some.inj he
        exact .last (htx ▸ hkey) (by simp [ClientPc.work]) rfl rfl
      · obtain rfl := Option.some.inj he
        exact .read (htx ▸ hkey) henv' (by simp only [ClientPc.work]; omega) hle
          (by simp only [ClientPc.reads]; omega)
    · dsimp only at he
      split at he
      · obtain rfl := Option.some.inj he
        exact .last (htx ▸ hkey) (by simp [ClientPc.work]) rfl rfl
      · obtain rfl := Option.some.inj he
        exact .read (htx ▸ hkey) henv' (by simp only [ClientPc.work, hkey]; omega) hle
          (by simp only [ClientPc.reads, hkey]; omega)

theorem advance_readNmux {c : Client} {e : Effect Client} {ivv sid : U128} {role : SessionRole}
    {budget : ℕ} (hkey : c.conn.tx.key = key) (henv : c.conn.rx.envelope = true)
    (hpc : c.pc = .readNmux ivv role sid budget) (he : c.advance P inbox = some e) :
    Paid key c inbox e.party e.inbox := by
  obtain ⟨conn, pc, derr⟩ := c
  dsimp only at hkey henv hpc
  subst hpc
  simp only [advance] at he
  rcases readPacket_cases (P := P) henv inbox with ⟨hr, -⟩ | ⟨e, conn', hr, htx⟩ |
    ⟨r, conn', rest, hr, htx, henv', hle⟩
  · rw [hr] at he
    cases he
  · rw [hr] at he
    obtain rfl := Option.some.inj he
    exact .last (htx ▸ hkey) (by simp [ClientPc.work]) rfl rfl
  · rw [hr] at he
    rcases r with e | _ | nmux
    · obtain rfl := Option.some.inj he
      exact .last (htx ▸ hkey) (by simp [ClientPc.work]) rfl rfl
    · dsimp only at he
      split at he
      · obtain rfl := Option.some.inj he
        exact .last (htx ▸ hkey) (by simp [ClientPc.work]) rfl rfl
      · obtain rfl := Option.some.inj he
        exact .read (htx ▸ hkey) henv' (by simp only [ClientPc.work]; omega) hle
          (by simp only [ClientPc.reads]; omega)
    · dsimp only at he
      split at he
      · obtain rfl := Option.some.inj he
        exact .last (htx ▸ hkey) (by simp [ClientPc.work]) rfl rfl
      · obtain rfl := Option.some.inj he
        exact .last (htx ▸ hkey) (by simp [ClientPc.work]) rfl rfl

/-- **Every step of the client's handshake is paid for**, whatever bytes it works on. -/
theorem listen_paid {c c' : Client} (h : c.Listening key)
    (hl : c.listen P inbox = some (c', rest)) : Paid key c inbox c' rest := by
  obtain ⟨e, he, heq⟩ := Option.map_eq_some_iff.1 hl
  obtain ⟨rfl, rfl⟩ := Prod.mk.inj heq
  have henv : c.pc.finished = false → c.conn.rx.envelope = true := by
    intro hf
    exact h.envelope.resolve_left (by simp [hf])
  cases hpc : c.pc with
  | start role =>
      have henv := henv (by rw [hpc]; rfl)
      have hle := nopRounds_le c.conn.tx.rng c.conn.tx.key
      simp only [advance, hpc] at he
      obtain rfl := Option.some.inj he
      obtain ⟨conn, pc, derr⟩ := c
      dsimp only at hpc
      subst hpc
      refine .quiet h.key henv ?_ rfl
      have hkey := h.key
      dsimp only at hkey hle
      rw [hkey] at hle
      simp only [ClientPc.work, hkey]
      omega
  | prelude role n => exact advance_prelude h.key (henv (by rw [hpc]; rfl)) hpc he
  | sent =>
      have henv := henv (by rw [hpc]; rfl)
      simp only [advance, hpc] at he
      obtain ⟨conn, pc, derr⟩ := c
      have hkey := h.key
      dsimp only at hpc hkey
      subst hpc
      split at he
      · obtain rfl := Option.some.inj he
        exact .last hkey (by simp [ClientPc.work]) rfl rfl
      · obtain rfl := Option.some.inj he
        exact .quiet hkey henv (by simp only [ClientPc.work, hkey]; omega)
          (by simp only [ClientPc.reads, hkey]; omega)
  | readSid ivv role budget => exact advance_readSid h.key (henv (by rw [hpc]; rfl)) hpc he
  | readNmux ivv role sid budget => exact advance_readNmux h.key (henv (by rw [hpc]; rfl)) hpc he
  | done =>
      simp only [advance, hpc] at he
      cases he
  | failed e =>
      simp only [advance, hpc] at he
      cases he

/-- The client waits for nothing but a packet, and for less than all of it. -/
theorem listen_waits {c : Client} (h : c.Listening key) (hl : c.listen P inbox = none) :
    c.pc.finished = true ∨ (inbox.length < maxPacket ∧ 0 < c.pc.reads (maxNopPackets key)) := by
  have ha : c.advance P inbox = none := Option.map_eq_none_iff.1 hl
  have henv : c.pc.finished = false → c.conn.rx.envelope = true := by
    intro hf
    exact h.envelope.resolve_left (by simp [hf])
  cases hpc : c.pc with
  | start role => simp [advance, hpc] at ha
  | prelude role n =>
      cases n <;> (simp only [advance, hpc] at ha; split at ha <;> cases ha)
  | sent =>
      simp only [advance, hpc] at ha
      split at ha <;> cases ha
  | readSid ivv role budget =>
      refine .inr ⟨?_, Nat.succ_pos _⟩
      simp only [advance, hpc] at ha
      rcases readPacket_cases (P := P) (henv (by rw [hpc]; rfl)) inbox with ⟨-, hlt⟩ |
        ⟨e, conn', hr, -⟩ | ⟨r, conn', rest, hr, -⟩
      · exact hlt
      · rw [hr] at ha
        cases ha
      · rw [hr] at ha
        rcases r with e | _ | sid <;> dsimp only at ha <;> try split at ha
        all_goals cases ha
  | readNmux ivv role sid budget =>
      refine .inr ⟨?_, Nat.succ_pos _⟩
      simp only [advance, hpc] at ha
      rcases readPacket_cases (P := P) (henv (by rw [hpc]; rfl)) inbox with ⟨-, hlt⟩ |
        ⟨e, conn', hr, -⟩ | ⟨r, conn', rest, hr, -⟩
      · exact hlt
      · rw [hr] at ha
        cases ha
      · rw [hr] at ha
        rcases r with e | _ | nmux <;> dsimp only at ha <;> try split at ha
        all_goals cases ha
  | done => exact .inl rfl
  | failed e => exact .inl rfl

/-- **The client is a bounded party.** -/
theorem bounded (P : Primitives) (key : ObfuscationKey) :
    Fed.Bounded (listen P) (Listening key) (fun c => c.pc.finished = true) (fun c => c.pc.work key)
      (fun c => c.pc.reads (maxNopPackets key)) maxPacket where
  paid h hl := listen_paid h hl
  waits h hl := listen_waits h hl
  stops := by
    intro c io h
    unfold ClientPc.finished at h
    split at h
    · rename_i hpc
      simp [listen, advance, hpc]
    · rename_i e hpc
      simp [listen, advance, hpc]
    · cases h

end Client

/-! ### The server -/

/-- The packets that the server may still read, when `n` noise packets are skipped. -/
def ServerPc.reads (n : ℕ) : ServerPc → ℕ
  | .start | .prelude _ => n + 1
  | .readIvv budget => budget + 1
  | .reply _ | .done _ | .failed _ => 0

/-- Whether the server's handshake has returned. -/
def ServerPc.finished : ServerPc → Bool
  | .done _ | .failed _ => true
  | _ => false

namespace Server

/-- The server's handshake on the bytes delivered to it. -/
def listen (P : Primitives) (s : Server) (inbox : List UInt8) : Option (Server × List UInt8) :=
  (s.advance P inbox).map fun e => (e.party, e.inbox)

/-- The server works with this key, and until it has returned it reads frames in the envelope. -/
structure Listening (key : ObfuscationKey) (s : Server) : Prop where
  key : s.conn.tx.key = key
  envelope : s.pc.finished = true ∨ s.conn.rx.envelope = true

/-- A step of the server is paid for. -/
def Paid (key : ObfuscationKey) : Server → List UInt8 → Server → List UInt8 → Prop :=
  Fed.Paid (Listening key) (fun s => s.pc.finished = true) (fun s => s.pc.work key)
    (fun s => s.pc.reads (maxNopPackets key)) maxPacket

variable {key : ObfuscationKey} {conn conn' : Transmission} {sid : U128} {allowBond : Bool}
  {pc pc' : ServerPc} {derr : Option Error} {inbox rest : List UInt8}

/-- A step that ends the handshake. -/
theorem Paid.last (hkey : conn'.tx.key = key) (hwork : 0 < pc.work key) (hzero : pc'.work key = 0)
    (hfin : pc'.finished = true) :
    Paid key ⟨conn, sid, allowBond, pc, derr⟩ inbox ⟨conn', sid, allowBond, pc', derr⟩ rest :=
  Fed.Paid.last ⟨hkey, .inl hfin⟩ (hzero.trans_lt hwork) hfin

/-- A step that reads nothing. -/
theorem Paid.quiet (hkey : conn'.tx.key = key) (henv : conn'.rx.envelope = true)
    (hwork : pc'.work key < pc.work key)
    (hreads : pc'.reads (maxNopPackets key) = pc.reads (maxNopPackets key)) :
    Paid key ⟨conn, sid, allowBond, pc, derr⟩ inbox ⟨conn', sid, allowBond, pc', derr⟩ inbox :=
  Fed.Paid.quiet ⟨hkey, .inr henv⟩ hwork hreads

/-- A step that reads a packet. -/
theorem Paid.read (hkey : conn'.tx.key = key) (henv : conn'.rx.envelope = true)
    (hwork : pc'.work key < pc.work key) (hle : inbox.length ≤ rest.length + maxPacket)
    (hreads : pc'.reads (maxNopPackets key) + 1 ≤ pc.reads (maxNopPackets key)) :
    Paid key ⟨conn, sid, allowBond, pc, derr⟩ inbox ⟨conn', sid, allowBond, pc', derr⟩ rest :=
  Fed.Paid.read ⟨hkey, .inr henv⟩ hwork hle hreads

theorem advance_prelude {s : Server} {e : Effect Server} {n : ℕ} (hkey : s.conn.tx.key = key)
    (henv : s.conn.rx.envelope = true) (hpc : s.pc = .prelude n) (he : s.advance P inbox = some e) :
    Paid key s inbox e.party e.inbox := by
  obtain ⟨conn, sid, allowBond, pc, derr⟩ := s
  dsimp only at hkey henv hpc
  subst hpc
  cases n with
  | zero =>
      have hk := sendSessionId_key (P := P) conn.tx sid
      simp only [advance] at he
      split at he
      · rename_i hs
        rw [hs] at hk
        obtain rfl := Option.some.inj he
        exact .last (hk.trans hkey) (by simp [ServerPc.work]) rfl rfl
      · rename_i hs
        rw [hs] at hk
        obtain rfl := Option.some.inj he
        exact .quiet (hk.trans hkey) henv (by simp only [ServerPc.work, hkey]; omega)
          (by simp only [ServerPc.reads, hkey])
  | succ n =>
      have hk := sendSessionId_key (P := P) conn.tx 0
      simp only [advance] at he
      split at he
      · rename_i hs
        rw [hs] at hk
        obtain rfl := Option.some.inj he
        exact .last (hk.trans hkey) (by simp [ServerPc.work]) rfl rfl
      · rename_i hs
        rw [hs] at hk
        obtain rfl := Option.some.inj he
        exact .quiet (hk.trans hkey) henv (by simp only [ServerPc.work]; omega) rfl

theorem advance_readIvv {s : Server} {e : Effect Server} {budget : ℕ} (hkey : s.conn.tx.key = key)
    (henv : s.conn.rx.envelope = true) (hpc : s.pc = .readIvv budget)
    (he : s.advance P inbox = some e) : Paid key s inbox e.party e.inbox := by
  obtain ⟨conn, sid, allowBond, pc, derr⟩ := s
  dsimp only at hkey henv hpc
  subst hpc
  simp only [advance] at he
  rcases readPacket_cases (P := P) henv inbox with ⟨hr, -⟩ | ⟨e, conn', hr, htx⟩ |
    ⟨r, conn', rest, hr, htx, henv', hle⟩
  · rw [hr] at he
    cases he
  · rw [hr] at he
    obtain rfl := Option.some.inj he
    exact .last (htx ▸ hkey) (by simp [ServerPc.work]) rfl rfl
  · rw [hr] at he
    rcases r with e | _ | ivv
    · obtain rfl := Option.some.inj he
      exact .last (htx ▸ hkey) (by simp [ServerPc.work]) rfl rfl
    · dsimp only at he
      split at he
      · obtain rfl := Option.some.inj he
        exact .last (htx ▸ hkey) (by simp [ServerPc.work]) rfl rfl
      · obtain rfl := Option.some.inj he
        exact .read (htx ▸ hkey) henv' (by simp only [ServerPc.work]; omega) hle
          (by simp only [ServerPc.reads]; omega)
    · dsimp only at he
      split at he
      · obtain rfl := Option.some.inj he
        exact .last (htx ▸ hkey) (by simp [ServerPc.work]) rfl rfl
      · obtain rfl := Option.some.inj he
        exact .read (htx ▸ hkey) henv' (by simp only [ServerPc.work]; omega) hle
          (by simp only [ServerPc.reads]; omega)

theorem advance_reply {s : Server} {e : Effect Server} {ivv : U128} (hkey : s.conn.tx.key = key)
    (hpc : s.pc = .reply ivv) (he : s.advance P inbox = some e) :
    Paid key s inbox e.party e.inbox := by
  obtain ⟨conn, sid, allowBond, pc, derr⟩ := s
  dsimp only at hkey hpc
  subst hpc
  simp only [advance] at he
  generalize conn.tx.rng.randomBits 64 = low at he
  generalize echoNmux conn.tx.key low.1 (effectiveRole (roleFromIvv ivv) allowBond) = nmux at he
  have hk := sendSessionId_key (P := P) { conn.tx with rng := low.2 } nmux
  split at he
  · rename_i hs
    rw [hs] at hk
    obtain rfl := Option.some.inj he
    exact .last (hk.trans hkey) (by simp [ServerPc.work]) rfl rfl
  · rename_i hs
    rw [hs] at hk
    obtain rfl := Option.some.inj he
    exact .last (hk.trans hkey) (by simp [ServerPc.work]) rfl rfl

/-- **Every step of the server's handshake is paid for**, whatever bytes it works on. -/
theorem listen_paid {s s' : Server} (h : s.Listening key)
    (hl : s.listen P inbox = some (s', rest)) : Paid key s inbox s' rest := by
  obtain ⟨e, he, heq⟩ := Option.map_eq_some_iff.1 hl
  obtain ⟨rfl, rfl⟩ := Prod.mk.inj heq
  have henv : s.pc.finished = false → s.conn.rx.envelope = true := by
    intro hf
    exact h.envelope.resolve_left (by simp [hf])
  cases hpc : s.pc with
  | start =>
      have henv := henv (by rw [hpc]; rfl)
      have hle := nopRounds_le s.conn.tx.rng s.conn.tx.key
      simp only [advance, hpc] at he
      obtain ⟨conn, sid, allowBond, pc, derr⟩ := s
      have hkey := h.key
      dsimp only at hpc hkey hle
      subst hpc
      split at he
      · obtain rfl := Option.some.inj he
        exact .last hkey (by simp [ServerPc.work]) rfl rfl
      · obtain rfl := Option.some.inj he
        refine .quiet hkey henv ?_ rfl
        rw [hkey] at hle
        simp only [ServerPc.work, hkey]
        omega
  | prelude n => exact advance_prelude h.key (henv (by rw [hpc]; rfl)) hpc he
  | readIvv budget => exact advance_readIvv h.key (henv (by rw [hpc]; rfl)) hpc he
  | reply ivv => exact advance_reply h.key hpc he
  | done role =>
      simp only [advance, hpc] at he
      cases he
  | failed e =>
      simp only [advance, hpc] at he
      cases he

/-- The server waits for nothing but a packet, and for less than all of it. -/
theorem listen_waits {s : Server} (h : s.Listening key) (hl : s.listen P inbox = none) :
    s.pc.finished = true ∨ (inbox.length < maxPacket ∧ 0 < s.pc.reads (maxNopPackets key)) := by
  have ha : s.advance P inbox = none := Option.map_eq_none_iff.1 hl
  cases hpc : s.pc with
  | start =>
      simp only [advance, hpc] at ha
      split at ha <;> cases ha
  | prelude n =>
      cases n <;> (simp only [advance, hpc] at ha; split at ha <;> cases ha)
  | readIvv budget =>
      refine .inr ⟨?_, Nat.succ_pos _⟩
      have henv := h.envelope.resolve_left (by simp [hpc, ServerPc.finished])
      simp only [advance, hpc] at ha
      rcases readPacket_cases (P := P) henv inbox with ⟨-, hlt⟩ | ⟨e, conn', hr, -⟩ |
        ⟨r, conn', rest, hr, -⟩
      · exact hlt
      · rw [hr] at ha
        cases ha
      · rw [hr] at ha
        rcases r with e | _ | ivv <;> dsimp only at ha <;> try split at ha
        all_goals cases ha
  | reply ivv =>
      simp only [advance, hpc] at ha
      split at ha <;> cases ha
  | done role => exact .inl rfl
  | failed e => exact .inl rfl

/-- **The server is a bounded party.** -/
theorem bounded (P : Primitives) (key : ObfuscationKey) :
    Fed.Bounded (listen P) (Listening key) (fun s => s.pc.finished = true) (fun s => s.pc.work key)
      (fun s => s.pc.reads (maxNopPackets key)) maxPacket where
  paid h hl := listen_paid h hl
  waits h hl := listen_waits h hl
  stops := by
    intro s io h
    unfold ServerPc.finished at h
    split at h
    · rename_i role hpc
      simp [listen, advance, hpc]
    · rename_i e hpc
      simp [listen, advance, hpc]
    · cases h

end Server

/-! ### Hostile peers -/

/-- Whatever the peer delivers, a handshake of this many steps at most returns, and when it waits it
was fed less than this many packets of the greatest length. -/
structure NotPinned {π : Type} (listen : π → List UInt8 → Option (π × List UInt8)) (through : π → Prop)
    (steps packets : ℕ) (s : Fed.State π UInt8) : Prop where
  steps : s.ops ≤ steps
  waits : listen s.party s.inbox = none → through s.party ∨ s.fed < maxPacket * packets
  ends : maxPacket * packets ≤ s.fed →
    Inevitable (Fed.step listen) Fed.alone (fun s => through s.party) s

/-- **A hostile peer cannot pin a handshake.** -/
theorem handshake_not_pinned (P : Primitives) (key : ObfuscationKey) (rng : Rng) :
    (∀ role s, Reach (Fed.step (Client.listen P)) always
        (Fed.fresh ⟨.withRng P key rng, .start role, none⟩) s →
      NotPinned (Client.listen P) (fun c => c.pc.finished = true) (3 * maxNopPackets key + 5)
        (2 * (maxNopPackets key + 1)) s) ∧
    ∀ sid allowBond s, Reach (Fed.step (Server.listen P)) always
        (Fed.fresh ⟨.withRng P key rng, sid, allowBond, .start, none⟩) s →
      NotPinned (Server.listen P) (fun s => s.pc.finished = true) (2 * maxNopPackets key + 4)
        (maxNopPackets key + 1) s := by
  constructor
  · intro role s h
    have h₀ : Client.Listening key ⟨.withRng P key rng, .start role, none⟩ := ⟨rfl, .inr rfl⟩
    have hb := Client.bounded P key
    exact ⟨hb.ops_le h₀ h, hb.fed_lt h₀ h, hb.ends h₀ h⟩
  · intro sid allowBond s h
    have h₀ : Server.Listening key ⟨.withRng P key rng, sid, allowBond, .start, none⟩ := ⟨rfl, .inr rfl⟩
    have hb := Server.bounded P key
    exact ⟨hb.ops_le h₀ h, hb.fed_lt h₀ h, hb.ends h₀ h⟩

/-- The noise packet of a peer that draws zeros. -/
def noisePacket : List UInt8 :=
  match ((TxCore.new .sample shortKey fun _ => 0).sendSessionId .sample 0).1 with
  | .ok w => w
  | .error _ => []

/-- A peer that sends a noise packet, cut after five bytes, and then what no frame begins with, to a
party that takes `n` steps before the rest of the packet is there. -/
def pestered (n : ℕ) : List (Fed.Act UInt8) :=
  .feed (noisePacket.take 5) :: List.replicate n .work ++
    [.feed (noisePacket.drop 5), .work, .feed (List.replicate 8 0), .work]

/-- Both ends send their preludes and their packets, skip the noise, and fail on the junk. -/
theorem handshake_not_pinned_junk :
    ∃ c s, Reach (Fed.step (Client.listen Primitives.sample)) always
        (Fed.fresh ⟨.withRng .sample shortKey fun _ => 0, .start .muxTunnel, none⟩) c ∧
      Reach (Fed.step (Server.listen Primitives.sample)) always
        (Fed.fresh ⟨.withRng .sample shortKey fun _ => 0, 1, false, .start, none⟩) s ∧
      c.party.pc = .failed .invalidBase94 ∧ c.ops = 6 ∧ s.party.pc = .failed .invalidBase94 ∧
      s.ops = 5 ∧
      NotPinned (Client.listen .sample) (fun c => c.pc.finished = true)
        (3 * maxNopPackets shortKey + 5) (2 * (maxNopPackets shortKey + 1)) c ∧
      NotPinned (Server.listen .sample) (fun s => s.pc.finished = true)
        (2 * maxNopPackets shortKey + 4) (maxNopPackets shortKey + 1) s := by
  have hclient : (exec (Fed.step (Client.listen Primitives.sample)) always
      (Fed.fresh ⟨.withRng .sample shortKey fun _ => 0, .start .muxTunnel, none⟩) (pestered 4)).map
      (fun c => (c.party.pc, c.ops)) = some (.failed .invalidBase94, 6) := by
    decide +kernel
  have hserver : (exec (Fed.step (Server.listen Primitives.sample)) always
      (Fed.fresh ⟨.withRng .sample shortKey fun _ => 0, 1, false, .start, none⟩) (pestered 3)).map
      (fun s => (s.party.pc, s.ops)) = some (.failed .invalidBase94, 5) := by
    decide +kernel
  obtain ⟨c, hc, hcs⟩ := Option.map_eq_some_iff.1 hclient
  obtain ⟨s, hs, hss⟩ := Option.map_eq_some_iff.1 hserver
  simp only [Prod.mk.injEq] at hcs hss
  have hcr := Reach.refl.of_exec _ hc
  have hsr := Reach.refl.of_exec _ hs
  have h := handshake_not_pinned .sample shortKey fun _ => 0
  exact ⟨c, s, hcr, hsr, hcs.1, hcs.2, hss.1, hss.2, h.1 .muxTunnel c hcr, h.2 1 false s hsr⟩

end Nextppp

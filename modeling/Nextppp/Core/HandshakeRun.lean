/-
**The handshake of `transmission.rs`, run by two parties over a duplex byte stream.**

Client and server are state machines whose program counters are the points of
`handshake_client_send`, `handshake_client_confirm` and `handshake_server` between two operations on
the transport.  They run in any interleaving over two pipes that deliver bytes in order, in pieces of
any size.  A blocking read waits while the bytes delivered so far are the beginning of a frame.

The two ends have keys of their own, because the refusal of a handshake is a conversation between
ends whose keys differ in the flags.  After its handshake a party reads and writes data; the client
also writes between the two phases of its handshake.

The lists of messages and the numbers of handshake frames in the state are not in the source: they
record what happened, and no step depends on them.

Main definitions:

* `Nextppp.Transmission`, `Nextppp.Client`, `Nextppp.Server`;
* `Nextppp.Client.act`, `Nextppp.Server.act` — one step of a party;
* `Nextppp.Net`, `Nextppp.Net.step` — the two parties and the pipes.
-/

import Nextppp.Core.Duplex
import Nextppp.Lib.System

set_option relaxedAutoImplicit false
set_option autoImplicit false

namespace Nextppp

open Incremental

/-! ### A connection -/

/-- One end of a connection. -/
structure Transmission where
  tx : TxCore
  rx : RxCore
  sessionId : U128
  /-- The client's `ivv` and requested role between the two phases of its handshake. -/
  pending : Option (U128 × SessionRole)

namespace Transmission

/-- A fresh end. -/
def withRng (P : Primitives) (key : ObfuscationKey) (rng : Rng) : Transmission where
  tx := TxCore.new P key rng
  rx := RxCore.new P key
  sessionId := 0
  pending := none

end Transmission

/-- What a step of a party does: the party after it, the bytes it sends, what is left of the bytes
delivered to it, and, for the record, the handshake frames it sent and consumed and the data
messages it wrote and read. -/
structure Effect (π : Type) where
  party : π
  out : List UInt8
  inbox : List UInt8
  frames : ℕ
  seen : ℕ
  wrote : List (List UInt8)
  got : List (List UInt8)

namespace Effect

variable {π : Type}

/-- A step that touches no pipe. -/
def silent (party : π) (inbox : List UInt8) : Effect π := ⟨party, [], inbox, 0, 0, [], []⟩

/-- A step that sends a handshake frame. -/
def sent (party : π) (out inbox : List UInt8) : Effect π := ⟨party, out, inbox, 1, 0, [], []⟩

/-- A step that consumes a handshake frame. -/
def consumed (party : π) (inbox : List UInt8) : Effect π := ⟨party, [], inbox, 0, 1, [], []⟩

end Effect

/-- The actions of a party: its next handshake operation, or, where the program may, a write or a
read of data. -/
inductive PartyAct
  | advance
  | write (m : Send)
  | read

/-- One round of the loop that reads a session-id packet: blocked, or the packet and the connection
after it. -/
def readPacket (P : Primitives) (conn : Transmission) (inbox : List UInt8) :
    Option (Except Error SessionPacket × Transmission × List UInt8) :=
  match readStep P conn.rx inbox with
  | .ended _ => none
  | .failed e rx => some (.error e, { conn with rx := rx }, [])
  | .message m rx rest => some (unpackSessionId conn.rx.key m, { conn with rx := rx }, rest)

/-- Write one data message. -/
def writeData (P : Primitives) (conn : Transmission) (m : Send) :
    Except Error (List UInt8) × Transmission :=
  ((m.encrypt P conn.tx).1, { conn with tx := (m.encrypt P conn.tx).2 })

/-! ### The client -/

/-- Where the client is. -/
inductive ClientPc
  | start (role : SessionRole)
  | prelude (role : SessionRole) (rounds : ℕ)
  | sent
  | readSid (ivv : U128) (role : SessionRole) (budget : ℕ)
  | readNmux (ivv : U128) (role : SessionRole) (sid : U128) (budget : ℕ)
  | done
  | failed (e : Error)
  deriving DecidableEq

/-- The client: its connection, where it is, and the error that stopped its data plane, if any. -/
structure Client where
  conn : Transmission
  pc : ClientPc
  dataError : Option Error

/-- The checks of the confirm phase on `nmux`: the canary, then the role echo. -/
def checkNmux (key : ObfuscationKey) (role : SessionRole) (nmux : U128) : Except Error Unit :=
  if nmux = 0 then .error (.handshakeFailed "nmux is zero")
  else if highWord nmux &&& canaryMagicMask = canaryMagic ∧ highWord nmux ≠ flagCanary key then
    .error .flagsMismatch
  else if decide (nmux &&& 1 = 1) ≠ decide (role = .muxTunnel) then .error .roleRefused
  else .ok ()

namespace Client

/-- The next handshake operation. -/
def advance (P : Primitives) (c : Client) (inbox : List UInt8) : Option (Effect Client) :=
  match c.pc with
  | .start role =>
      let rounds := nopRounds c.conn.tx.rng c.conn.tx.key
      let conn := { c.conn with tx := { c.conn.tx with rng := rounds.2 } }
      some (.silent { c with conn := conn, pc := .prelude role rounds.1 } inbox)
  | .prelude role (n + 1) =>
      match c.conn.tx.sendSessionId P 0 with
      | (.error e, tx) =>
          some (.silent { c with conn := { c.conn with tx := tx }, pc := .failed e } inbox)
      | (.ok w, tx) =>
          some (.sent { c with conn := { c.conn with tx := tx }, pc := .prelude role n } w inbox)
  | .prelude role 0 =>
      let nonce := c.conn.tx.rng.randomBits 64
      let ivv := taggedIvv role nonce.1
      match TxCore.sendSessionId P { c.conn.tx with rng := nonce.2 } ivv with
      | (.error e, tx) =>
          some (.silent { c with conn := { c.conn with tx := tx }, pc := .failed e } inbox)
      | (.ok w, tx) =>
          let conn := { c.conn with
            tx := (tx.rekey P ivv).onHandshakeComplete
            pending := some (ivv, role) }
          some (.sent { c with conn := conn, pc := .sent } w inbox)
  | .sent =>
      match c.conn.pending with
      | none =>
          some (.silent { c with pc := .failed (.handshakeFailed "confirm without send phase") }
            inbox)
      | some (ivv, role) =>
          some (.silent
            { c with
              conn := { c.conn with pending := none }
              pc := .readSid ivv role (maxNopPackets c.conn.tx.key) } inbox)
  | .readSid ivv role budget =>
      match readPacket P c.conn inbox with
      | none => none
      | some (.error e, conn, rest) => some (.consumed { c with conn := conn, pc := .failed e } rest)
      | some (.ok .dummy, conn, rest) =>
          if budget = 0 then
            some (.consumed { c with conn := conn, pc := .failed (.handshakeFailed "too many dummy packets") }
              rest)
          else some (.consumed { c with conn := conn, pc := .readSid ivv role (budget - 1) } rest)
      | some (.ok (.session sid), conn, rest) =>
          if sid = 0 then
            some (.consumed { c with conn := conn, pc := .failed (.handshakeFailed "server session id is zero") }
              rest)
          else
            some (.consumed
              { c with conn := conn, pc := .readNmux ivv role sid (maxNopPackets c.conn.tx.key) }
              rest)
  | .readNmux ivv role sid budget =>
      match readPacket P c.conn inbox with
      | none => none
      | some (.error e, conn, rest) => some (.consumed { c with conn := conn, pc := .failed e } rest)
      | some (.ok .dummy, conn, rest) =>
          if budget = 0 then
            some (.consumed { c with conn := conn, pc := .failed (.handshakeFailed "too many dummy packets") }
              rest)
          else some (.consumed { c with conn := conn, pc := .readNmux ivv role sid (budget - 1) } rest)
      | some (.ok (.session nmux), conn, rest) =>
          match checkNmux c.conn.tx.key role nmux with
          | .error e => some (.consumed { c with conn := conn, pc := .failed e } rest)
          | .ok () =>
              let conn := { conn with
                rx := (conn.rx.rekey P ivv).onHandshakeComplete
                sessionId := sid }
              some (.consumed { c with conn := conn, pc := .done } rest)
  | .done => none
  | .failed _ => none

/-- Whether the program may write data: between the phases, and after the handshake. -/
def mayWrite (c : Client) : Bool := decide (c.pc = .sent) || decide (c.pc = .done)

/-- One step of the client. -/
def act (P : Primitives) (c : Client) (inbox : List UInt8) : PartyAct → Option (Effect Client)
  | .advance => c.advance P inbox
  | .write m =>
      if c.mayWrite then
        match writeData P c.conn m with
        | (.error _, conn) => some (.silent { c with conn := conn } inbox)
        | (.ok w, conn) => some ⟨{ c with conn := conn }, w, inbox, 0, 0, [m.message], []⟩
      else none
  | .read =>
      if c.pc = .done ∧ c.dataError = none then
        match readStep P c.conn.rx inbox with
        | .ended _ => none
        | .failed e rx =>
            some (.silent { c with conn := { c.conn with rx := rx }, dataError := some e } [])
        | .message m rx rest =>
            some ⟨{ c with conn := { c.conn with rx := rx } }, [], rest, 0, 0, [], [m]⟩
      else none

end Client

/-! ### The server -/

/-- Where the server is. -/
inductive ServerPc
  | start
  | prelude (rounds : ℕ)
  | readIvv (budget : ℕ)
  | reply (ivv : U128)
  | done (role : SessionRole)
  | failed (e : Error)
  deriving DecidableEq

/-- The server: its connection, the session id and the permission it was called with, where it is,
and the error that stopped its data plane, if any. -/
structure Server where
  conn : Transmission
  sid : U128
  allowBond : Bool
  pc : ServerPc
  dataError : Option Error

/-- A bond link is downgraded when the server does not allow it. -/
def effectiveRole (requested : SessionRole) (allowBond : Bool) : SessionRole :=
  match requested, allowBond with
  | .bondLink, false => .muxTunnel
  | role, _ => role

namespace Server

/-- The next handshake operation. -/
def advance (P : Primitives) (s : Server) (inbox : List UInt8) : Option (Effect Server) :=
  match s.pc with
  | .start =>
      if s.sid = 0 then some (.silent { s with pc := .failed .invalidSessionId } inbox)
      else
        let rounds := nopRounds s.conn.tx.rng s.conn.tx.key
        let conn := { s.conn with tx := { s.conn.tx with rng := rounds.2 } }
        some (.silent { s with conn := conn, pc := .prelude rounds.1 } inbox)
  | .prelude (n + 1) =>
      match s.conn.tx.sendSessionId P 0 with
      | (.error e, tx) =>
          some (.silent { s with conn := { s.conn with tx := tx }, pc := .failed e } inbox)
      | (.ok w, tx) =>
          some (.sent { s with conn := { s.conn with tx := tx }, pc := .prelude n } w inbox)
  | .prelude 0 =>
      match s.conn.tx.sendSessionId P s.sid with
      | (.error e, tx) =>
          some (.silent { s with conn := { s.conn with tx := tx }, pc := .failed e } inbox)
      | (.ok w, tx) =>
          some (.sent
            { s with
              conn := { s.conn with tx := tx }
              pc := .readIvv (maxNopPackets s.conn.tx.key) } w inbox)
  | .readIvv budget =>
      match readPacket P s.conn inbox with
      | none => none
      | some (.error e, conn, rest) => some (.consumed { s with conn := conn, pc := .failed e } rest)
      | some (.ok .dummy, conn, rest) =>
          if budget = 0 then
            some (.consumed { s with conn := conn, pc := .failed (.handshakeFailed "too many dummy packets") }
              rest)
          else some (.consumed { s with conn := conn, pc := .readIvv (budget - 1) } rest)
      | some (.ok (.session ivv), conn, rest) =>
          if ivv = 0 then
            some (.consumed { s with conn := conn, pc := .failed (.handshakeFailed "client ivv is zero") }
              rest)
          else some (.consumed { s with conn := conn, pc := .reply ivv } rest)
  | .reply ivv =>
      let effective := effectiveRole (roleFromIvv ivv) s.allowBond
      let low := s.conn.tx.rng.randomBits 64
      let nmux := echoNmux s.conn.tx.key low.1 effective
      match TxCore.sendSessionId P { s.conn.tx with rng := low.2 } nmux with
      | (.error e, tx) =>
          some (.silent { s with conn := { s.conn with tx := tx }, pc := .failed e } inbox)
      | (.ok w, tx) =>
          let conn := { s.conn with
            tx := (tx.rekey P ivv).onHandshakeComplete
            rx := (s.conn.rx.rekey P ivv).onHandshakeComplete
            sessionId := s.sid }
          some (.sent { s with conn := conn, pc := .done effective } w inbox)
  | .done _ => none
  | .failed _ => none

/-- The role a finished handshake returned. -/
def result (s : Server) : Option SessionRole :=
  match s.pc with
  | .done role => some role
  | _ => none

theorem done_of_result {s : Server} (h : s.result.isSome) : ∃ role, s.pc = .done role := by
  obtain ⟨conn, sid, allowBond, pc, derr⟩ := s
  cases pc with
  | done role => exact ⟨role, rfl⟩
  | _ => simp [result] at h

/-- One step of the server. -/
def act (P : Primitives) (s : Server) (inbox : List UInt8) : PartyAct → Option (Effect Server)
  | .advance => s.advance P inbox
  | .write m =>
      if s.result.isSome then
        match writeData P s.conn m with
        | (.error _, conn) => some (.silent { s with conn := conn } inbox)
        | (.ok w, conn) => some ⟨{ s with conn := conn }, w, inbox, 0, 0, [m.message], []⟩
      else none
  | .read =>
      if s.result.isSome ∧ s.dataError = none then
        match readStep P s.conn.rx inbox with
        | .ended _ => none
        | .failed e rx =>
            some (.silent { s with conn := { s.conn with rx := rx }, dataError := some e } [])
        | .message m rx rest =>
            some ⟨{ s with conn := { s.conn with rx := rx } }, [], rest, 0, 0, [], [m]⟩
      else none

end Server

/-! ### The two parties -/

/-- One pipe: the bytes in flight and the bytes delivered but not read, and the record of what went
through it. -/
structure Pipe where
  wire : List UInt8
  inbox : List UInt8
  frames : ℕ
  seen : ℕ
  wrote : List (List UInt8)
  got : List (List UInt8)

/-- An empty pipe. -/
def Pipe.empty : Pipe := ⟨[], [], 0, 0, [], []⟩

/-- The bytes on their way. -/
def Pipe.bytes (p : Pipe) : List UInt8 := p.inbox ++ p.wire

/-- The two parties and the two pipes. -/
structure Net where
  client : Client
  server : Server
  up : Pipe
  down : Pipe

/-- The actions of the whole system; a delivery takes some bytes that are in flight. -/
inductive NetAct
  | client (a : PartyAct)
  | server (a : PartyAct)
  | deliverUp (n : ℕ)
  | deliverDown (n : ℕ)

/-- Deliver `n` bytes. -/
def Pipe.deliver (p : Pipe) (n : ℕ) : Option Pipe :=
  if 0 < n ∧ n ≤ p.wire.length then
    some { p with inbox := p.inbox ++ p.wire.take n, wire := p.wire.drop n }
  else none

/-- The sending side of an effect. -/
def Pipe.push {π : Type} (p : Pipe) (e : Effect π) : Pipe :=
  { p with wire := p.wire ++ e.out, frames := p.frames + e.frames, wrote := p.wrote ++ e.wrote }

/-- The receiving side of an effect. -/
def Pipe.pull {π : Type} (p : Pipe) (e : Effect π) : Pipe :=
  { p with inbox := e.inbox, seen := p.seen + e.seen, got := p.got ++ e.got }

namespace Net

/-- The two parties before their handshakes. -/
def init (P : Primitives) (kc ks : ObfuscationKey) (rngC rngS : Rng) (role : SessionRole)
    (sid : U128) (allowBond : Bool) : Net where
  client := ⟨Transmission.withRng P kc rngC, .start role, none⟩
  server := ⟨Transmission.withRng P ks rngS, sid, allowBond, .start, none⟩
  up := Pipe.empty
  down := Pipe.empty

/-- One step of the system. -/
def step (P : Primitives) (s : Net) : NetAct → Option Net
  | .client a =>
      (s.client.act P s.down.inbox a).map fun e =>
        { s with client := e.party, up := s.up.push e, down := s.down.pull e }
  | .server a =>
      (s.server.act P s.up.inbox a).map fun e =>
        { s with server := e.party, down := s.down.push e, up := s.up.pull e }
  | .deliverUp n => (s.up.deliver n).map fun p => { s with up := p }
  | .deliverDown n => (s.down.deliver n).map fun p => { s with down := p }

end Net

end Nextppp

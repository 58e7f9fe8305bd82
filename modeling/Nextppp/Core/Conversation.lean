/-
**Whole conversations of one direction.**

What `Nextppp.Lockstep` preserves for one packet is carried here to arbitrary sequences: of messages
that are sent and decrypted one after the other, and of operations on a sending core, the packets of
the handshake and the phase switch among them.

Main definitions:

* `Nextppp.Send` — a message and the entry point it goes through;
* `Nextppp.exchange` — messages encrypted and decrypted one by one;
* `Nextppp.Phase` — before the handshake, or after both ends were rekeyed;
* `Nextppp.TxOp`, `Nextppp.emissions` — what a direction puts on the wire.

Main results:

* `Nextppp.exchange_roundtrip` — every message of a conversation is read back, and after every
  packet the counters and first-frame flags agree;
* `Nextppp.emissions_printable` — everything a direction emits before it is marked handshaked, and
  in plaintext mode everything it ever emits, is printable.
-/

import Nextppp.Core.Handshake

set_option relaxedAutoImplicit false
set_option autoImplicit false

namespace Nextppp

/-! ### Messages -/

/-- A message and the entry point it is sent through. -/
inductive Send
  | plain (payload : List UInt8)
  | tagged (tag : UInt8) (payload : List UInt8)
  | prefixed (pre payload : List UInt8)

namespace Send

/-- What the receiver is to see. -/
def message : Send → List UInt8
  | plain payload => payload
  | tagged tag payload => tag :: payload
  | prefixed pre payload => pre ++ payload

/-- The call that sends the message. -/
def encrypt (P : Primitives) (tx : TxCore) : Send → Except Error (List UInt8) × TxCore
  | plain payload => tx.encryptInto P payload
  | tagged tag payload => tx.encryptIntoTagged P tag payload
  | prefixed pre payload => tx.encryptIntoPrefixed P pre payload

/-- Every entry point is the same implementation on a split of the message. -/
theorem encrypt_eq (P : Primitives) (tx : TxCore) (m : Send) :
    ∃ pre payload, m.encrypt P tx = tx.encryptImpl P pre payload ∧ m.message = pre ++ payload := by
  cases m with
  | plain payload => exact ⟨[], payload, rfl, rfl⟩
  | tagged tag payload => exact ⟨[tag], payload, rfl, rfl⟩
  | prefixed pre payload => exact ⟨pre, payload, rfl, rfl⟩

/-- The lengths a frame can carry. -/
def Legal (m : Send) : Prop := 1 ≤ m.message.length ∧ m.message.length ≤ pppBufferSize

end Send

/-! ### Sending and decrypting, one by one -/

/-- Send one message and decrypt the packet: the result and the two cores. -/
def deliver (P : Primitives) (s : TxCore × RxCore) (m : Send) :
    Except Error (List UInt8) × TxCore × RxCore :=
  match m.encrypt P s.1 with
  | (.error e, tx) => (.error e, tx, s.2)
  | (.ok w, tx) => ((s.2.decrypt P w).1, tx, (s.2.decrypt P w).2)

/-- The deliveries of a sequence of messages. -/
def exchange (P : Primitives) (s : TxCore × RxCore) :
    List Send → List (Except Error (List UInt8) × TxCore × RxCore)
  | [] => []
  | m :: ms => deliver P s m :: exchange P (deliver P s m).2 ms

/-- The cores after a sequence of messages. -/
def afterAll (P : Primitives) (s : TxCore × RxCore) (ms : List Send) : TxCore × RxCore :=
  ms.foldl (fun s m => (deliver P s m).2) s

/-- The two phases of a connection: fresh cores, or cores that exchanged some messages and then
were rekeyed with one `ivv` and marked handshaked. -/
inductive Phase
  | fresh
  | handshaked (before : List Send) (ivv : U128)

/-- The cores of a key in a phase. -/
def Phase.cores (P : Primitives) (key : ObfuscationKey) (rng : Rng) : Phase → TxCore × RxCore
  | fresh => (TxCore.new P key rng, RxCore.new P key)
  | handshaked before ivv =>
      let s := afterAll P (TxCore.new P key rng, RxCore.new P key) before
      ((s.1.rekey P ivv).onHandshakeComplete, (s.2.rekey P ivv).onHandshakeComplete)

/-- Cores of one key in lockstep. -/
def Paired (s : TxCore × RxCore) : Prop := Lockstep s.1 s.2 ∧ s.2.key = s.1.key

/-- One delivery keeps the cores paired, and a legal message arrives. -/
theorem deliver_paired (P : Primitives) {s : TxCore × RxCore} (h : Paired s) (m : Send) :
    Paired (deliver P s m).2 ∧ (m.Legal → (deliver P s m).1 = .ok m.message) := by
  obtain ⟨hl, hkey⟩ := h
  obtain ⟨pre, payload, henc, hmsg⟩ := m.encrypt_eq P s.1
  by_cases hlegal : m.Legal
  · have hlen : 1 ≤ (pre ++ payload).length ∧ (pre ++ payload).length ≤ pppBufferSize := by
      rw [← hmsg]
      exact hlegal
    obtain ⟨w, tx', rx', he, hd, -, hl', hstx, hsrx⟩ := hl.packet P pre payload hlen.1 hlen.2
    have hdel : deliver P s m = (.ok (pre ++ payload), tx', rx') := by
      rw [deliver, henc, he]
      dsimp only
      rw [hd]
    rw [hdel, hmsg]
    exact ⟨⟨hl', by rw [hsrx.key, hstx.key, hkey]⟩, fun _ => rfl⟩
  · obtain ⟨e, he⟩ := s.1.encryptImpl_illegal P pre payload (by rw [← hmsg]; exact hlegal)
    have hdel : deliver P s m = (.error e, s.1, s.2) := by rw [deliver, henc, he]
    rw [hdel]
    exact ⟨⟨hl, hkey⟩, fun h => absurd h hlegal⟩

theorem afterAll_paired (P : Primitives) {s : TxCore × RxCore} (h : Paired s) (ms : List Send) :
    Paired (afterAll P s ms) := by
  induction ms generalizing s with
  | nil => exact h
  | cons m ms ih => exact ih (deliver_paired P h m).1

theorem Phase.cores_paired (P : Primitives) (key : ObfuscationKey) (rng : Rng) (phase : Phase) :
    Paired (phase.cores P key rng) := by
  have hnew : Paired (TxCore.new P key rng, RxCore.new P key) :=
    ⟨lockstep_new P rng rfl rfl rfl rfl rfl, rfl⟩
  cases phase with
  | fresh => exact hnew
  | handshaked before ivv =>
      obtain ⟨hl, hkey⟩ := afterAll_paired P hnew before
      exact ⟨hl.rekey P hkey ivv, hkey⟩

/-- What is observed after one packet of a conversation. -/
structure Delivered (m : Send) (d : Except Error (List UInt8) × TxCore × RxCore) : Prop where
  result : d.1 = .ok m.message
  protocolSeq : d.2.2.protocolRx.seq = d.2.1.protocolTx.seq
  transportSeq : d.2.2.transportRx.seq = d.2.1.transportTx.seq
  first : d.2.2.b94.rxFirst = d.2.1.b94.txFirst

theorem exchange_delivered (P : Primitives) {s : TxCore × RxCore} (h : Paired s) (ms : List Send)
    (hms : ∀ m ∈ ms, m.Legal) : List.Forall₂ Delivered ms (exchange P s ms) := by
  induction ms generalizing s with
  | nil => exact List.Forall₂.nil
  | cons m ms ih =>
      obtain ⟨hp, hres⟩ := deliver_paired P h m
      refine List.Forall₂.cons ?_ (ih hp fun m' hm' => hms m' (by simp [hm']))
      exact ⟨hres (hms m (by simp)), hp.1.protocol.seq, hp.1.transport.seq, hp.1.first⟩

/-- Every conversation of legal messages, before the handshake or after it, is read back message by
message, and after every packet the sequence counters and the first-frame flags of the two ends
agree. -/
theorem exchange_roundtrip (P : Primitives) (key : ObfuscationKey) (rng : Rng) (phase : Phase)
    (ms : List Send) (hms : ∀ m ∈ ms, m.Legal) :
    List.Forall₂ Delivered ms (exchange P (phase.cores P key rng) ms) :=
  exchange_delivered P (phase.cores_paired P key rng) ms hms

/-- A tagged message and a prefixed one after a handshake, with the default key. -/
theorem exchange_roundtrip_two :
    List.Forall₂ Delivered [Send.tagged 1 [2, 3], Send.prefixed [4, 5] []]
      (exchange .sample
        ((Phase.handshaked [Send.plain [0]] 7).cores .sample .default (Stream'.const 0))
        [Send.tagged 1 [2, 3], Send.prefixed [4, 5] []]) :=
  exchange_roundtrip .sample .default (Stream'.const 0) (.handshaked [Send.plain [0]] 7) _
    (by simp [Send.Legal, Send.message, pppBufferSize])

/-! ### What a direction emits -/

namespace TxCore

/-- Send one session-id packet, real or noise, through the full pipeline. -/
def sendSessionId (P : Primitives) (tx : TxCore) (id : U128) : Except Error (List UInt8) × TxCore :=
  let packet := packSessionId tx.rng tx.key id
  encryptInto P { tx with rng := packet.2 } packet.1

end TxCore

/-- The operations of a sending direction. -/
inductive TxOp
  | send (m : Send)
  | sendSessionId (id : U128)
  | rekey (ivv : U128)
  | onHandshakeComplete

/-- The bytes an operation puts on the wire, and the core after it; a refused message puts none. -/
def TxOp.step (P : Primitives) (tx : TxCore) : TxOp → List UInt8 × TxCore
  | send m => (((m.encrypt P tx).1.toOption).getD [], (m.encrypt P tx).2)
  | sendSessionId id => (((tx.sendSessionId P id).1.toOption).getD [], (tx.sendSessionId P id).2)
  | rekey ivv => ([], tx.rekey P ivv)
  | onHandshakeComplete => ([], tx.onHandshakeComplete)

/-- For every operation of a run, whether the direction was marked handshaked at the time, and the
bytes it put on the wire. -/
def emissions (P : Primitives) (tx : TxCore) : List TxOp → List (Bool × List UInt8)
  | [] => []
  | op :: ops => (tx.handshaked, (op.step P tx).1) :: emissions P (op.step P tx).2 ops

theorem TxOp.step_key (P : Primitives) (tx : TxCore) (op : TxOp) : (op.step P tx).2.key = tx.key := by
  cases op with
  | send m =>
      obtain ⟨pre, payload, henc, -⟩ := m.encrypt_eq P tx
      rw [TxOp.step, henc]
      exact (tx.encryptImpl_sameSetup P pre payload).key
  | sendSessionId id =>
      exact (TxCore.encryptImpl_sameSetup P { tx with rng := (packSessionId tx.rng tx.key id).2 }
        [] _).key
  | rekey ivv => rfl
  | onHandshakeComplete => rfl

/-- One operation of a direction that uses the envelope emits printable bytes only. -/
theorem TxOp.step_printable (P : Primitives) {tx : TxCore} (henv : tx.envelope = true) (op : TxOp) :
    ∀ c ∈ (op.step P tx).1, Printable c := by
  have hsend : ∀ tx' : TxCore, tx'.envelope = true → ∀ pre payload,
      ∀ c ∈ ((tx'.encryptImpl P pre payload).1.toOption).getD [], Printable c := by
    intro tx' henv' pre payload c hc
    cases hr : (tx'.encryptImpl P pre payload).1 with
    | error e => simp [hr, Except.toOption] at hc
    | ok w =>
        rw [hr] at hc
        exact TxCore.encryptImpl_printable P henv' hr c hc
  cases op with
  | send m =>
      obtain ⟨pre, payload, henc, -⟩ := m.encrypt_eq P tx
      rw [TxOp.step, henc]
      exact hsend tx henv pre payload
  | sendSessionId id =>
      exact hsend { tx with rng := (packSessionId tx.rng tx.key id).2 } henv [] _
  | rekey ivv => simp [TxOp.step]
  | onHandshakeComplete => simp [TxOp.step]

theorem emissions_envelope (P : Primitives) (tx : TxCore) (ops : List TxOp) :
    ∀ e ∈ emissions P tx ops, e.1 = false ∨ tx.key.plaintext = true → ∀ c ∈ e.2, Printable c := by
  induction ops generalizing tx with
  | nil => simp [emissions]
  | cons op ops ih =>
      intro e he hphase
      rcases List.mem_cons.1 he with rfl | he
      · refine TxOp.step_printable P ?_ op
        rcases hphase with h | h
        · simp only at h
          simp [TxCore.envelope, h]
        · simp [TxCore.envelope, h]
      · refine ih (op.step P tx).2 e he ?_
        rw [TxOp.step_key]
        exact hphase

/-- Everything a direction puts on the wire before it is marked handshaked, and in plaintext mode
everything it ever puts there, is printable, whatever messages, session-id packets and phase switches
the direction goes through. -/
theorem emissions_printable (P : Primitives) (key : ObfuscationKey) (rng : Rng) (ops : List TxOp)
    (e : Bool × List UInt8) (he : e ∈ emissions P (TxCore.new P key rng) ops)
    (hphase : e.1 = false ∨ key.plaintext = true) : ∀ c ∈ e.2, Printable c :=
  emissions_envelope P (TxCore.new P key rng) ops e he hphase

/-- The first noise packet of a fresh direction. -/
theorem emissions_printable_noise :
    ((TxOp.sendSessionId 0).step .sample
        (TxCore.new .sample .default (Stream'.const 0))).1.all (fun c => decide (Printable c)) = true := by
  have h := emissions_printable .sample .default (Stream'.const 0) [TxOp.sendSessionId 0]
    ((TxCore.new .sample .default (Stream'.const 0)).handshaked,
      ((TxOp.sendSessionId 0).step .sample (TxCore.new .sample .default (Stream'.const 0))).1)
    (by rw [emissions]; exact List.mem_cons_self) (Or.inl rfl)
  dsimp only at h
  rw [List.all_eq_true]
  intro c hc
  exact decide_eq_true (h c hc)

end Nextppp

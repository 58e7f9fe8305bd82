/-
**One direction of a duplex byte stream.**

The sender's core, the bytes on their way and the receiver's core, seen together.  The bytes on the
way are those in flight and those delivered but not yet read; how they are split never matters, since
a reader that finds only a part of a frame waits.

`Nextppp.Feeds` says that the bytes on the way are read as a given list of messages.
`Nextppp.Pending` says the same of a direction in which the receiver still expects session-id packets
of the handshake: these come first, and what follows them is described by a parameter.  The lemmas are
the operations on a direction: a packet is sent, a message is sent behind the switch, a packet is
read.

Main definitions:

* `Nextppp.Feeds`, `Nextppp.DataFeed`, `Nextppp.Pending`.

Main results:

* `Nextppp.Feeds.read` — a reader of a direction gets the next message or waits; it never fails;
* `Nextppp.Pending.send`, `Nextppp.Pending.append`, `Nextppp.Pending.read` — the operations on a
  direction of the handshake.
-/

import Nextppp.Core.Conversation
import Nextppp.Core.Session

set_option relaxedAutoImplicit false
set_option autoImplicit false

namespace Nextppp

open Incremental

/-! ### Bytes that are read as messages -/

/-- A frame at the front of a stream: read as a message whatever follows it. -/
def Frame (P : Primitives) (rx : RxCore) (w m : List UInt8) (rx' : RxCore) : Prop :=
  ∀ rest, readStep P rx (w ++ rest) = .message m rx' rest

/-- The bytes are read, one after the other, as the messages, which takes the receiving core from
the first to the second. -/
inductive Feeds (P : Primitives) : RxCore → List UInt8 → List (List UInt8) → RxCore → Prop
  | nil (rx : RxCore) : Feeds P rx [] [] rx
  | cons {rx rx₁ rx' : RxCore} {w m bytes : List UInt8} {ms : List (List UInt8)}
      (frame : Frame P rx w m rx₁) (setup : rx.SameSetup rx₁) (rest : Feeds P rx₁ bytes ms rx') :
      Feeds P rx (w ++ bytes) (m :: ms) rx'

variable {P : Primitives}

theorem Feeds.sameSetup {rx rx' : RxCore} {bytes : List UInt8} {ms : List (List UInt8)}
    (h : Feeds P rx bytes ms rx') : rx.SameSetup rx' := by
  induction h with
  | nil rx => exact RxCore.SameSetup.refl rx
  | cons _ setup _ ih => exact setup.trans ih

theorem Feeds.snoc {rx rx₁ rx' : RxCore} {w m bytes : List UInt8} {ms : List (List UInt8)}
    (h : Feeds P rx bytes ms rx₁) (frame : Frame P rx₁ w m rx') (setup : rx₁.SameSetup rx') :
    Feeds P rx (bytes ++ w) (ms ++ [m]) rx' := by
  induction h with
  | nil rx =>
      have hone := Feeds.cons frame setup (Feeds.nil rx')
      rwa [List.append_nil] at hone
  | cons frame₀ setup₀ _ ih =>
      rw [List.append_assoc, List.cons_append]
      exact Feeds.cons frame₀ setup₀ (ih frame setup)

/-- A frame that is not complete yet makes the reader wait. -/
theorem Frame.wait {rx rx' : RxCore} {m u v : List UInt8} (h : Frame P rx (u ++ v) m rx')
    (hv : v ≠ []) : ∃ rx'', readStep P rx u = .ended rx'' := by
  have hinv : (SessionRx.ofCore rx).Inv := by
    intro len headerKf h
    simp [SessionRx.ofCore] at h
  have hwhole : resumeRead P (SessionRx.ofCore rx) (u ++ v) = .message m rx' [] := by
    have := h []
    rwa [List.append_nil] at this
  rcases pollSpec P hinv u with ⟨m', rx₁, buf', -, -, hres⟩ | ⟨s', buf', -, -, hend, hres⟩ |
    ⟨e, s', -, hres⟩
  · -- a message out of the part would leave the rest of the frame behind
    rw [hres] at hwhole
    injection hwhole with _ _ hrest
    exact absurd (List.append_eq_nil_iff.1 hrest).2 hv
  · refine ⟨s'.core, ?_⟩
    have := hres []
    rwa [List.append_nil, List.append_nil, hend] at this
  · rw [hres] at hwhole
    cases hwhole

theorem readStep_nil (P : Primitives) (rx : RxCore) : readStep P rx [] = .ended rx :=
  (pollLink P).read_nil rx

/-- A reader that holds a part of the bytes on their way gets the next message or waits. -/
theorem Feeds.read {rx rx' : RxCore} {bytes post inbox wire m : List UInt8}
    {ms : List (List UInt8)} (h : Feeds P rx bytes (m :: ms) rx')
    (hsplit : inbox ++ wire = bytes ++ post) :
    (∃ rx₁ inbox' bytes', readStep P rx inbox = .message m rx₁ inbox' ∧
      inbox' ++ wire = bytes' ++ post ∧ rx.SameSetup rx₁ ∧ Feeds P rx₁ bytes' ms rx') ∨
    ((∃ rx'', readStep P rx inbox = .ended rx'') ∧ wire ≠ []) := by
  cases h with
  | @cons _ rx₁ _ w _ bytes' _ frame setup rest =>
      rw [List.append_assoc] at hsplit
      rcases List.append_eq_append_iff.1 hsplit with ⟨v, hw, hwire⟩ | ⟨v, hin, hrest⟩
      · -- the frame ends in the part that is still in flight
        cases v with
        | nil =>
            refine Or.inl ⟨rx₁, [], bytes', ?_, ?_, setup, rest⟩
            · have := frame []
              rwa [hw, List.append_nil, List.append_nil] at this
            · rw [List.nil_append] at hwire
              exact hwire
        | cons x v =>
            rw [hw] at frame
            refine Or.inr ⟨Frame.wait frame (by simp), ?_⟩
            rw [hwire]
            simp
      · refine Or.inl ⟨rx₁, v, bytes', ?_, hrest.symm, setup, rest⟩
        rw [hin]
        exact frame v

/-! ### The data plane -/

/-- The bytes on their way carry the messages, and the sender is in lockstep with where the receiver
will be after them. -/
def DataFeed (P : Primitives) (tx : TxCore) (rx : RxCore) (bytes : List UInt8)
    (unread : List (List UInt8)) : Prop :=
  ∃ rx', Feeds P rx bytes unread rx' ∧ Lockstep tx rx'

/-- A packet of a sender in lockstep is a frame for the receiver. -/
theorem Lockstep.frame {tx : TxCore} {rx : RxCore} (hl : Lockstep tx rx) {m : Send}
    {w : List UInt8} {tx' : TxCore} (h : m.encrypt P tx = (.ok w, tx')) :
    ∃ rx', Frame P rx w m.message rx' ∧ rx.SameSetup rx' ∧ Lockstep tx' rx' ∧
      tx.SameSetup tx' := by
  obtain ⟨pre, payload, henc, hmsg⟩ := m.encrypt_eq P tx
  rw [henc] at h
  have hlegal : 1 ≤ (pre ++ payload).length ∧ (pre ++ payload).length ≤ pppBufferSize := by
    by_contra hillegal
    obtain ⟨e, he⟩ := tx.encryptImpl_illegal P pre payload hillegal
    rw [he] at h
    simp at h
  obtain ⟨w', tx₁, rx', he, -, hread, hl', hstx, hsrx⟩ :=
    hl.packet P pre payload hlegal.1 hlegal.2
  rw [he] at h
  obtain ⟨hw, rfl⟩ := Prod.mk.inj h
  obtain rfl : w' = w := by simpa using hw
  refine ⟨rx', fun rest => ?_, hsrx, hl', hstx⟩
  rw [readStep, hread, hmsg]

theorem DataFeed.write {tx tx' : TxCore} {rx : RxCore} {bytes w : List UInt8}
    {unread : List (List UInt8)} {m : Send} (h : DataFeed P tx rx bytes unread)
    (hw : m.encrypt P tx = (.ok w, tx')) :
    DataFeed P tx' rx (bytes ++ w) (unread ++ [m.message]) := by
  obtain ⟨rx', hf, hl⟩ := h
  obtain ⟨rx'', hframe, hsetup, hl', -⟩ := hl.frame hw
  exact ⟨rx'', hf.snoc hframe hsetup, hl'⟩

/-- Reading on the data plane: the next unread message, or waiting. -/
theorem DataFeed.read {tx : TxCore} {rx : RxCore} {inbox wire : List UInt8}
    {unread : List (List UInt8)} (h : DataFeed P tx rx (inbox ++ wire) unread) :
    (∃ m ms rx₁ inbox', unread = m :: ms ∧ readStep P rx inbox = .message m rx₁ inbox' ∧
      rx.SameSetup rx₁ ∧ DataFeed P tx rx₁ (inbox' ++ wire) ms) ∨
    ((∃ rx'', readStep P rx inbox = .ended rx'') ∧ (unread = [] ∨ wire ≠ [])) := by
  obtain ⟨rx', hf, hl⟩ := h
  cases unread with
  | nil =>
      have hnil : inbox ++ wire = [] := by
        generalize inbox ++ wire = bytes at hf
        cases hf
        rfl
      rw [(List.append_eq_nil_iff.1 hnil).1]
      exact Or.inr ⟨⟨rx, readStep_nil P rx⟩, Or.inl rfl⟩
  | cons m ms =>
      have hwhole : inbox ++ wire = inbox ++ wire ++ [] := (List.append_nil _).symm
      rcases hf.read hwhole with
        ⟨rx₁, inbox', bytes', hread, hsplit, hsetup, hf'⟩ | ⟨hwait, hwire⟩
      · rw [List.append_nil] at hsplit
        exact Or.inl ⟨m, ms, rx₁, inbox', rfl, hread, hsetup, rx', by rw [hsplit]; exact hf', hl⟩
      · exact Or.inr ⟨hwait, Or.inr hwire⟩

/-! ### The handshake -/

/-- The messages are session-id packets with the given contents. -/
def Unpacks (key : ObfuscationKey) (msgs : List (List UInt8)) (ps : List SessionPacket) : Prop :=
  List.Forall₂ (fun m p => unpackSessionId key m = .ok p) msgs ps

/-- The receiver expects the session-id packets `ps`; what comes behind them, and the receiving core
it meets, is described by `rest`. -/
def Pending (P : Primitives) (rx : RxCore) (bytes : List UInt8) (ps : List SessionPacket)
    (rest : RxCore → List UInt8 → Prop) : Prop :=
  ∃ hs post msgs rx₁, bytes = hs ++ post ∧ Feeds P rx hs msgs rx₁ ∧ Unpacks rx.key msgs ps ∧
    rest rx₁ post

/-- Nothing comes behind the packets, and the sender is in lockstep. -/
def Abreast (tx : TxCore) (rx : RxCore) (post : List UInt8) : Prop := post = [] ∧ Lockstep tx rx

/-- The receiver switches to the data plane of `ivv` behind the packets. -/
def Behind (P : Primitives) (tx : TxCore) (ivv : U128) (unread : List (List UInt8)) (rx : RxCore)
    (post : List UInt8) : Prop :=
  DataFeed P tx (rx.rekey P ivv).onHandshakeComplete post unread

theorem Pending.mono {rx : RxCore} {bytes : List UInt8} {ps : List SessionPacket}
    {rest rest' : RxCore → List UInt8 → Prop} (h : Pending P rx bytes ps rest)
    (hr : ∀ rx₁ post, rx.SameSetup rx₁ → rest rx₁ post → rest' rx₁ post) :
    Pending P rx bytes ps rest' := by
  obtain ⟨hs, post, msgs, rx₁, hb, hf, hu, hrest⟩ := h
  exact ⟨hs, post, msgs, rx₁, hb, hf, hu, hr rx₁ post hf.sameSetup hrest⟩

/-- More bytes come behind the packets. -/
theorem Pending.append {rx : RxCore} {bytes w : List UInt8} {ps : List SessionPacket}
    {rest rest' : RxCore → List UInt8 → Prop} (h : Pending P rx bytes ps rest)
    (hr : ∀ rx₁ post, rest rx₁ post → rest' rx₁ (post ++ w)) : Pending P rx (bytes ++ w) ps rest' := by
  obtain ⟨hs, post, msgs, rx₁, rfl, hf, hu, hrest⟩ := h
  exact ⟨hs, post ++ w, msgs, rx₁, List.append_assoc _ _ _, hf, hu, hr rx₁ post hrest⟩

/-- Sending a session-id packet never fails, and the packet is expected next behind the others. -/
theorem Pending.send {tx : TxCore} {rx : RxCore} {bytes : List UInt8} {ps : List SessionPacket}
    (h : Pending P rx bytes ps (Abreast tx)) (hkf : rx.key.kf = tx.key.kf) (id : U128) :
    ∃ w tx', tx.sendSessionId P id = (.ok w, tx') ∧ tx.SameSetup tx' ∧
      Pending P rx (bytes ++ w) (ps ++ [if id = 0 then .dummy else .session id]) (Abreast tx') := by
  obtain ⟨hs, post, msgs, rx₁, rfl, hf, hu, rfl, hl⟩ := h
  obtain ⟨hpos, hle⟩ := packSessionId_length tx.rng tx.key id
  have hl₀ : Lockstep { tx with rng := (packSessionId tx.rng tx.key id).2 } rx₁ :=
    ⟨hl.kf, hl.flags, hl.envelope, hl.params, hl.first, hl.protocol, hl.transport⟩
  obtain ⟨w, tx', rx', he, -, hread, hl', hstx, hsrx⟩ :=
    hl₀.packet P [] (packSessionId tx.rng tx.key id).1 (by rw [List.nil_append]; omega) hle
  refine ⟨w, tx', he, ⟨hstx.key, hstx.handshaked⟩, hs ++ w, [],
    msgs ++ [(packSessionId tx.rng tx.key id).1], rx', by simp, hf.snoc (fun rest => ?_) hsrx, ?_,
    rfl, hl'⟩
  · rw [readStep, hread, List.nil_append]
  · refine List.rel_append hu (List.Forall₂.cons ?_ List.Forall₂.nil)
    by_cases hid : id = 0
    · rw [if_pos hid, hid]
      exact unpackSessionId_dummy tx.rng tx.key rx.key
    · rw [if_neg hid]
      exact unpackSessionId_packSessionId tx.rng hkf hid

/-- Reading a session-id packet: the next expected one, or waiting. -/
theorem Pending.read {rx : RxCore} {inbox wire : List UInt8} {p : SessionPacket}
    {ps : List SessionPacket} {rest : RxCore → List UInt8 → Prop}
    (h : Pending P rx (inbox ++ wire) (p :: ps) rest) :
    (∃ m rx₁ inbox', readStep P rx inbox = .message m rx₁ inbox' ∧
      unpackSessionId rx.key m = .ok p ∧ rx.SameSetup rx₁ ∧
      Pending P rx₁ (inbox' ++ wire) ps rest) ∨
    ((∃ rx'', readStep P rx inbox = .ended rx'') ∧ wire ≠ []) := by
  obtain ⟨hs, post, msgs, rx₁, hb, hf, hu, hrest⟩ := h
  cases hu with
  | @cons m _ ms _ hm hu' =>
      rcases hf.read hb with ⟨rx₂, inbox', bytes', hread, hsplit, hsetup, hf'⟩ | hwait
      · refine Or.inl ⟨m, rx₂, inbox', hread, hm, hsetup, bytes', post, ms, rx₁, hsplit, hf', ?_,
          hrest⟩
        rw [hsetup.key]
        exact hu'
      · exact Or.inr hwait

/-- With no packet on its way, the reader waits. -/
theorem Pending.idle {tx : TxCore} {rx : RxCore} {inbox wire : List UInt8}
    (h : Pending P rx (inbox ++ wire) [] (Abreast tx)) : readStep P rx inbox = .ended rx := by
  obtain ⟨hs, post, msgs, rx₁, hb, hf, hu, rfl, -⟩ := h
  cases hu
  cases hf
  rw [(List.append_eq_nil_iff.1 hb).1]
  exact readStep_nil P rx

end Nextppp

/-
**One direction of a handshake, from its first packet to the data plane.**

The sender of a direction sends noise, then its real session-id packets, and then switches to the
data plane; the receiver expects packets against a skip budget and then switches too.
`Nextppp.Direction` relates the two ends and the pipe between them at any pair of these points.  Every
operation of either party is one lemma about it; none depends on what the other direction does.

The ends may have different keys as long as these agree on the pre-handshake framing.  What is said
about the data plane is said for equal keys only.

Main definitions:

* `Nextppp.Sending`, `Nextppp.Receiving` — how far the two ends of a direction are;
* `Nextppp.Direction` — the invariant of a direction.

Main results:

* `Nextppp.Direction.sendNop`, `Nextppp.Direction.sendId`, `Nextppp.Direction.switch`,
  `Nextppp.Direction.write`, `Nextppp.Direction.refuse` — the operations of the sender;
* `Nextppp.Direction.readPacket`, `Nextppp.Direction.settle`, `Nextppp.Direction.readData`,
  `Nextppp.Direction.deliver` — the operations of the receiver and the pipe.
-/

import Nextppp.Core.Frames
import Nextppp.Core.HandshakeRun

set_option relaxedAutoImplicit false
set_option autoImplicit false

namespace Nextppp

open Incremental

variable {P : Primitives}

/-! ### The operations on a pipe -/

namespace Pipe

/-- A handshake frame is sent. -/
def sentFrame (p : Pipe) (w : List UInt8) : Pipe :=
  { p with wire := p.wire ++ w, frames := p.frames + 1 }

/-- A handshake frame is consumed. -/
def tookFrame (p : Pipe) (inbox : List UInt8) : Pipe :=
  { p with inbox := inbox, seen := p.seen + 1 }

/-- A data message is written. -/
def sentData (p : Pipe) (w m : List UInt8) : Pipe :=
  { p with wire := p.wire ++ w, wrote := p.wrote ++ [m] }

/-- A data message is read. -/
def tookData (p : Pipe) (inbox m : List UInt8) : Pipe :=
  { p with inbox := inbox, got := p.got ++ [m] }

variable {π : Type} (p : Pipe) (party : π) (w m inbox : List UInt8)

@[simp] theorem push_silent : p.push (Effect.silent party inbox) = p := by
  simp [push, Effect.silent]

@[simp] theorem push_sent : p.push (Effect.sent party w inbox) = p.sentFrame w := by
  simp [push, Effect.sent, sentFrame]

@[simp] theorem push_consumed : p.push (Effect.consumed party inbox) = p := by
  simp [push, Effect.consumed]

@[simp] theorem push_wrote :
    p.push ⟨party, w, inbox, 0, 0, [m], []⟩ = p.sentData w m := by
  simp [push, sentData]

@[simp] theorem push_got : p.push ⟨party, [], inbox, 0, 0, [], [m]⟩ = p := by
  simp [push]

@[simp] theorem pull_silent : p.pull (Effect.silent party p.inbox) = p := by
  simp [pull, Effect.silent]

@[simp] theorem pull_sent : p.pull (Effect.sent party w p.inbox) = p := by
  simp [pull, Effect.sent]

@[simp] theorem pull_consumed : p.pull (Effect.consumed party inbox) = p.tookFrame inbox := by
  simp [pull, Effect.consumed, tookFrame]

@[simp] theorem pull_wrote : p.pull ⟨party, w, p.inbox, 0, 0, [m], []⟩ = p := by
  simp [pull]

@[simp] theorem pull_got :
    p.pull ⟨party, [], inbox, 0, 0, [], [m]⟩ = p.tookData inbox m := by
  simp [pull, tookData]

theorem sentFrame_bytes : (p.sentFrame w).bytes = p.bytes ++ w := by
  simp [sentFrame, bytes]

theorem sentData_bytes : (p.sentData w m).bytes = p.bytes ++ w := by
  simp [sentData, bytes]

/-- A delivery changes nothing but where the bytes are. -/
theorem deliver_spec {p p' : Pipe} {n : ℕ} (h : p.deliver n = some p') :
    p'.bytes = p.bytes ∧ p'.frames = p.frames ∧ p'.seen = p.seen ∧ p'.wrote = p.wrote ∧
      p'.got = p.got ∧ p'.wire.length < p.wire.length := by
  unfold deliver at h
  split at h
  · obtain rfl := Option.some.inj h
    refine ⟨?_, rfl, rfl, rfl, rfl, ?_⟩
    · simp [bytes]
    · simp only [List.length_drop]
      omega
  · cases h

end Pipe

/-! ### The two ends of a direction -/

/-- How far the sender is: the noise it may still send and the real packets it sent; or the real
packets it sent before it switched, and the `ivv` it switched with. -/
inductive Sending
  | plain (left : ℕ) (sent : List U128)
  | switched (sent : List U128) (ivv : U128)

/-- How far the receiver is: the number of real packets it read and its skip budget; or on the data
plane. -/
inductive Receiving
  | expect (count budget : ℕ)
  | switched

namespace Sending

/-- The real packets sent. -/
def sent : Sending → List U128
  | plain _ sent => sent
  | switched sent _ => sent

/-- The noise that may still be sent. -/
def left : Sending → ℕ
  | plain left _ => left
  | switched _ _ => 0

/-- What comes behind the packets, and how the sender stands to a receiver that has read these. -/
def behind (P : Primitives) (tx : TxCore) (wrote : List (List UInt8)) :
    Sending → RxCore → List UInt8 → Prop
  | plain _ _, rx, post => wrote = [] ∧ Abreast tx rx post
  | switched _ ivv, rx, post => rx.key = tx.key → Behind P tx ivv wrote rx post

end Sending

/-- The packets on their way are noise within the budget and then the real packets `ids`. -/
def Awaits (P : Primitives) (rx : RxCore) (pipe : Pipe) (left budget : ℕ) (ids : List U128)
    (rest : RxCore → List UInt8 → Prop) : Prop :=
  ∃ nops, nops + left ≤ budget ∧ pipe.frames = pipe.seen + nops + ids.length ∧
    Pending P rx pipe.bytes (List.replicate nops .dummy ++ ids.map .session) rest

/-- A receiver that expects packets. -/
structure Expecting (P : Primitives) (tx : TxCore) (rx : RxCore) (pipe : Pipe) (snd : Sending)
    (count budget : ℕ) : Prop where
  count_le : count ≤ snd.sent.length
  left_eq : snd.sent ≠ [] → snd.left = 0
  got : pipe.got = []
  awaits : Awaits P rx pipe snd.left budget (snd.sent.drop count) (snd.behind P tx pipe.wrote)

/-- A receiver on the data plane. -/
structure Streaming (P : Primitives) (tx : TxCore) (rx : RxCore) (pipe : Pipe) : Prop where
  frames : pipe.frames = pipe.seen
  data : rx.key = tx.key →
    ∃ unread, pipe.wrote = pipe.got ++ unread ∧ DataFeed P tx rx pipe.bytes unread

/-- The invariant of a direction. -/
def Direction (P : Primitives) (tx : TxCore) (rx : RxCore) (pipe : Pipe) :
    Sending → Receiving → Prop
  | snd, .expect count budget => Expecting P tx rx pipe snd count budget
  | .switched _ _, .switched => Streaming P tx rx pipe
  | .plain _ _, .switched => False

/-- A direction before its first packet. -/
theorem Direction.new {key key' : ObfuscationKey} (rng : Rng) {left budget : ℕ}
    (hl : Lockstep (TxCore.new P key rng) (RxCore.new P key')) (hle : left ≤ budget) :
    Direction P (TxCore.new P key rng) (RxCore.new P key') Pipe.empty (.plain left [])
      (.expect 0 budget) where
  count_le := Nat.le_refl 0
  left_eq := by
    intro h
    exact absurd rfl h
  got := rfl
  awaits := by
    refine ⟨0, by simpa [Sending.left] using hle, rfl, [], [], [], RxCore.new P key', rfl, Feeds.nil _,
      List.Forall₂.nil, rfl, rfl, hl⟩

/-! ### The sender -/

variable {tx tx' : TxCore} {rx : RxCore} {pipe : Pipe} {rcv : Receiving}

/-- A sender that has not switched has a receiver that expects packets. -/
theorem Direction.expecting {left : ℕ} {sent : List U128}
    (h : Direction P tx rx pipe (.plain left sent) rcv) :
    ∃ count budget, rcv = .expect count budget ∧
      Expecting P tx rx pipe (.plain left sent) count budget := by
  cases rcv with
  | expect count budget => exact ⟨count, budget, rfl, h⟩
  | switched => exact h.elim

/-- The generator plays no part. -/
theorem Direction.setRng {left : ℕ} {sent : List U128} (rng : Rng)
    (h : Direction P tx rx pipe (.plain left sent) rcv) :
    Direction P { tx with rng := rng } rx pipe (.plain left sent) rcv := by
  obtain ⟨count, budget, rfl, hcount, hleft, hgot, nops, hle, hframes, hp⟩ := h.expecting
  refine ⟨hcount, hleft, hgot, nops, hle, hframes, hp.mono ?_⟩
  rintro rx₁ post - ⟨hw, hpost, hl⟩
  exact ⟨hw, hpost, hl.kf, hl.flags, hl.envelope, hl.params, hl.first, hl.protocol, hl.transport⟩

/-- Less noise may be sent. -/
theorem Direction.weaken {left left' : ℕ} (hle' : left' ≤ left)
    (h : Direction P tx rx pipe (.plain left []) rcv) :
    Direction P tx rx pipe (.plain left' []) rcv := by
  obtain ⟨count, budget, rfl, hcount, -, hgot, nops, hle, hframes, hp⟩ := h.expecting
  have hle'' : nops + left' ≤ budget := by
    simp only [Sending.left] at hle
    omega
  refine ⟨hcount, ?_, hgot, nops, hle'', hframes, hp⟩
  intro hne
  exact absurd rfl hne

/-- A noise packet is sent. -/
theorem Direction.sendNop {left : ℕ} (hkf : rx.key.kf = tx.key.kf)
    (h : Direction P tx rx pipe (.plain (left + 1) []) rcv) :
    ∃ w tx', tx.sendSessionId P 0 = (.ok w, tx') ∧ tx'.key = tx.key ∧
      Direction P tx' rx (pipe.sentFrame w) (.plain left []) rcv := by
  obtain ⟨count, budget, rfl, hcount, hleft, hgot, nops, hle, hframes, hp⟩ := h.expecting
  have hwrote : pipe.wrote = [] := by
    obtain ⟨_, _, _, _, _, _, _, hw, -⟩ := hp
    exact hw
  have hp' : Pending P rx pipe.bytes (List.replicate nops .dummy) (Abreast tx) := by
    simp only [Sending.sent, List.drop_nil, List.map_nil, List.append_nil] at hp
    exact hp.mono fun rx₁ post _ hr => hr.2
  obtain ⟨w, tx', hsend, hsetup, hp₁⟩ := hp'.send hkf 0
  refine ⟨w, tx', hsend, hsetup.key, hcount, ?_, hgot, nops + 1, ?_, ?_, ?_⟩
  · intro hne
    exact absurd rfl hne
  · simp only [Sending.left] at hle ⊢
    omega
  · simp only [Sending.sent, List.drop_nil, List.length_nil, Pipe.sentFrame] at hframes ⊢
    omega
  · rw [Pipe.sentFrame_bytes]
    simp only [Sending.sent, List.drop_nil, List.map_nil, List.append_nil]
    rw [List.replicate_succ']
    exact hp₁.mono fun rx₁ post _ hr => ⟨hwrote, hr⟩

/-- A real packet is sent. -/
theorem Direction.sendId {sent : List U128} {id : U128} (hid : id ≠ 0)
    (hkf : rx.key.kf = tx.key.kf) (h : Direction P tx rx pipe (.plain 0 sent) rcv) :
    ∃ w tx', tx.sendSessionId P id = (.ok w, tx') ∧ tx'.key = tx.key ∧
      Direction P tx' rx (pipe.sentFrame w) (.plain 0 (sent ++ [id])) rcv := by
  obtain ⟨count, budget, rfl, hcount, hleft, hgot, nops, hle, hframes, hp⟩ := h.expecting
  have hwrote : pipe.wrote = [] := by
    obtain ⟨_, _, _, _, _, _, _, hw, -⟩ := hp
    exact hw
  have hp' : Pending P rx pipe.bytes
      (List.replicate nops .dummy ++ (sent.drop count).map .session) (Abreast tx) :=
    hp.mono fun rx₁ post _ hr => hr.2
  obtain ⟨w, tx', hsend, hsetup, hp₁⟩ := hp'.send hkf id
  have hdrop : (sent ++ [id]).drop count = sent.drop count ++ [id] :=
    List.drop_append_of_le_length hcount
  refine ⟨w, tx', hsend, hsetup.key, ?_, ?_, hgot, nops, hle, ?_, ?_⟩
  · simp only [Sending.sent, List.length_append] at hcount ⊢
    omega
  · intro _
    rfl
  · simp only [Sending.sent, Pipe.sentFrame, hdrop, List.length_append, List.length_singleton]
      at hframes ⊢
    omega
  · rw [Pipe.sentFrame_bytes]
    simp only [Sending.sent, hdrop, List.map_append, List.map_cons, List.map_nil]
    rw [if_neg hid, List.append_assoc] at hp₁
    exact hp₁.mono fun rx₁ post _ hr => ⟨hwrote, hr⟩

/-- The sender switches to the data plane. -/
theorem Direction.switch {sent : List U128} (ivv : U128)
    (h : Direction P tx rx pipe (.plain 0 sent) rcv) :
    Direction P (tx.rekey P ivv).onHandshakeComplete rx pipe (.switched sent ivv) rcv := by
  obtain ⟨count, budget, rfl, hcount, -, hgot, nops, hle, hframes, hp⟩ := h.expecting
  refine ⟨hcount, fun _ => rfl, hgot, nops, hle, hframes, hp.mono ?_⟩
  rintro rx₁ post - ⟨hw, rfl, hl⟩ hkey
  rw [hw]
  exact ⟨_, Feeds.nil _, hl.rekey P hkey ivv⟩

/-- Sending never changes the key. -/
theorem Send.encrypt_key {m : Send} {r : Except Error (List UInt8)}
    (h : m.encrypt P tx = (r, tx')) : tx'.key = tx.key := by
  obtain ⟨pre, payload, henc, -⟩ := m.encrypt_eq P tx
  have hsetup := tx.encryptImpl_sameSetup P pre payload
  rw [← henc, h] at hsetup
  exact hsetup.key

/-- A message of legal length is never refused. -/
theorem Send.encrypt_legal (P : Primitives) (tx : TxCore) {m : Send} (hm : m.Legal) :
    ∃ w tx', m.encrypt P tx = (.ok w, tx') := by
  obtain ⟨pre, payload, henc, hmsg⟩ := m.encrypt_eq P tx
  have hlen : (pre ++ payload).length = payload.length + pre.length := by
    rw [List.length_append, Nat.add_comm]
  rw [Send.Legal, hmsg, hlen] at hm
  obtain ⟨w, tx', hok, -⟩ := tx.encryptOnto_legal P [] pre payload hm.1 hm.2
  exact ⟨w, tx', henc.trans hok⟩

/-- A sender in lockstep refuses a message only for its length, and then nothing changes. -/
theorem Lockstep.refused (hl : Lockstep tx rx) {m : Send} {e : Error}
    (h : m.encrypt P tx = (.error e, tx')) : tx' = tx := by
  obtain ⟨pre, payload, henc, -⟩ := m.encrypt_eq P tx
  rw [henc] at h
  by_cases hlegal : 1 ≤ (pre ++ payload).length ∧ (pre ++ payload).length ≤ pppBufferSize
  · obtain ⟨w, tx₁, rx', he, -⟩ := hl.packet P pre payload hlegal.1 hlegal.2
    rw [he] at h
    cases h
  · obtain ⟨e', he⟩ := tx.encryptImpl_illegal P pre payload hlegal
    rw [he] at h
    exact (Prod.mk.inj h).2.symm

/-- A data message is written. -/
theorem Direction.write {sent : List U128} {ivv : U128} {m : Send} {w : List UInt8}
    (hw : m.encrypt P tx = (.ok w, tx'))
    (h : Direction P tx rx pipe (.switched sent ivv) rcv) :
    Direction P tx' rx (pipe.sentData w m.message) (.switched sent ivv) rcv := by
  have hkey := Send.encrypt_key hw
  cases rcv with
  | expect count budget =>
      obtain ⟨hcount, hleft, hgot, nops, hle, hframes, hp⟩ := h
      refine ⟨hcount, hleft, hgot, nops, hle, hframes, ?_⟩
      rw [Pipe.sentData_bytes]
      refine hp.append ?_
      intro rx₁ post hr hk
      exact DataFeed.write (hr (hk.trans hkey)) hw
  | switched =>
      refine ⟨h.frames, ?_⟩
      intro hk
      obtain ⟨unread, hwrote, hfeed⟩ := h.data (hk.trans hkey)
      refine ⟨unread ++ [m.message], ?_, ?_⟩
      · simp only [Pipe.sentData]
        rw [hwrote, List.append_assoc]
      · rw [Pipe.sentData_bytes]
        exact hfeed.write hw

/-- A data message is refused. -/
theorem Direction.refuse {sent : List U128} {ivv : U128} {m : Send} {e : Error}
    (hw : m.encrypt P tx = (.error e, tx'))
    (h : Direction P tx rx pipe (.switched sent ivv) rcv) :
    Direction P tx' rx pipe (.switched sent ivv) rcv := by
  have hkey := Send.encrypt_key hw
  have hfeed : ∀ {rx bytes unread}, DataFeed P tx rx bytes unread →
      DataFeed P tx' rx bytes unread := by
    rintro rx bytes unread ⟨rx', hf, hl⟩
    rw [hl.refused hw]
    exact ⟨rx', hf, hl⟩
  cases rcv with
  | expect count budget =>
      obtain ⟨hcount, hleft, hgot, nops, hle, hframes, hp⟩ := h
      refine ⟨hcount, hleft, hgot, nops, hle, hframes, hp.mono ?_⟩
      intro rx₁ post _ hr hk
      exact hfeed (hr (hk.trans hkey))
  | switched =>
      refine ⟨h.frames, ?_⟩
      intro hk
      obtain ⟨unread, hwrote, hd⟩ := h.data (hk.trans hkey)
      exact ⟨unread, hwrote, hfeed hd⟩

/-! ### The receiver -/

variable {snd : Sending} {count budget : ℕ}

/-- Reading a session-id packet: waiting, noise within the budget, or the next real packet. -/
theorem Direction.readPacket {conn : Transmission}
    (h : Direction P tx conn.rx pipe snd (.expect count budget))
    (hopen : ∀ sent ivv, snd = .switched sent ivv → count < sent.length) :
    (readPacket P conn pipe.inbox = none ∧ (pipe.wire ≠ [] ∨ snd.sent.length = count)) ∨
    (∃ rx' inbox', readPacket P conn pipe.inbox
        = some (.ok .dummy, { conn with rx := rx' }, inbox') ∧ budget ≠ 0 ∧
      conn.rx.SameSetup rx' ∧
      Direction P tx rx' (pipe.tookFrame inbox') snd (.expect count (budget - 1))) ∨
    (∃ id rx' inbox', readPacket P conn pipe.inbox
        = some (.ok (.session id), { conn with rx := rx' }, inbox') ∧
      snd.sent[count]? = some id ∧ conn.rx.SameSetup rx' ∧
      ∀ b, Direction P tx rx' (pipe.tookFrame inbox') snd (.expect (count + 1) b)) := by
  obtain ⟨hcount, hleft, hgot, nops, hle, hframes, hp⟩ := h
  cases nops with
  | succ nops =>
      rw [List.replicate_succ, List.cons_append] at hp
      rcases hp.read with ⟨m, rx', inbox', hread, hm, hsetup, hp'⟩ | ⟨⟨rx'', hread⟩, hwire⟩
      · refine Or.inr (Or.inl ⟨rx', inbox', ?_, ?_, hsetup, hcount, hleft, hgot, nops, ?_, ?_, hp'⟩)
        · rw [Nextppp.readPacket, hread]
          dsimp only
          rw [hm]
        · omega
        · omega
        · simp only [Pipe.tookFrame]
          omega
      · refine Or.inl ⟨?_, Or.inl hwire⟩
        rw [Nextppp.readPacket, hread]
  | zero =>
      cases hdrop : snd.sent.drop count with
      | nil =>
          -- nothing is on its way, so the sender has not switched
          have hlen : snd.sent.length = count := by
            have := List.drop_eq_nil_iff.1 hdrop
            omega
          rw [hdrop] at hp
          cases snd with
          | plain left sent =>
              have hp' : Pending P conn.rx pipe.bytes [] (Abreast tx) :=
                hp.mono fun rx₁ post _ hr => hr.2
              refine Or.inl ⟨?_, Or.inr hlen⟩
              rw [Nextppp.readPacket, hp'.idle]
          | switched sent ivv =>
              have := hopen sent ivv rfl
              simp only [Sending.sent] at hlen
              omega
      | cons id ids =>
          have hat : snd.sent[count]? = some id := by
            rw [← List.head?_drop, hdrop]
            rfl
          have hdrop' : snd.sent.drop (count + 1) = ids := by
            rw [← List.tail_drop, hdrop]
            rfl
          have hne : snd.sent ≠ [] := by
            intro hnil
            rw [hnil] at hat
            simp at hat
          have hlt : count < snd.sent.length := (List.getElem?_eq_some_iff.1 hat).1
          rw [hdrop] at hp
          rcases hp.read with ⟨m, rx', inbox', hread, hm, hsetup, hp'⟩ | ⟨⟨rx'', hread⟩, hwire⟩
          · refine Or.inr (Or.inr ⟨id, rx', inbox', ?_, hat, hsetup, ?_⟩)
            · rw [Nextppp.readPacket, hread]
              dsimp only
              rw [hm]
            · intro b
              refine ⟨hlt, hleft, hgot, 0, ?_, ?_, ?_⟩
              · rw [hleft hne]
                omega
              · simp only [Pipe.tookFrame, hdrop']
                rw [hframes, hdrop, List.length_cons]
                omega
              · rw [hdrop']
                exact hp'
          · refine Or.inl ⟨?_, Or.inl hwire⟩
            rw [Nextppp.readPacket, hread]

/-- The receiver has read every packet and switches. -/
theorem Direction.settle {sent : List U128} {ivv : U128}
    (h : Direction P tx rx pipe (.switched sent ivv) (.expect sent.length 0)) :
    Direction P tx (rx.rekey P ivv).onHandshakeComplete pipe (.switched sent ivv) .switched := by
  obtain ⟨-, -, hgot, nops, hle, hframes, hp⟩ := h
  obtain rfl : nops = 0 := by omega
  have hdrop : sent.drop sent.length = [] := List.drop_length
  simp only [Sending.sent, hdrop, List.length_nil] at hframes hp
  refine ⟨by omega, ?_⟩
  intro hk
  obtain ⟨hs, post, msgs, rx₁, hb, hf, hu, hrest⟩ := hp
  cases hu
  cases hf
  have hd := hrest hk
  rw [List.nil_append] at hb
  rw [← hb] at hd
  exact ⟨pipe.wrote, by rw [hgot, List.nil_append], hd⟩

/-- Reading never changes the key. -/
theorem RxCore.readBuf_key (P : Primitives) (rx : RxCore) (io : List UInt8) :
    (rx.readBuf P io).2.1.key = rx.key := by
  unfold readBuf
  split
  · split
    · rfl
    · split
      · rfl
      · split <;> rfl
  · split
    · rfl
    · split
      · rfl
      · dsimp only
        split <;> rfl

theorem readStep_message_key {rx' : RxCore} {io m rest : List UInt8}
    (h : readStep P rx io = .message m rx' rest) : rx'.key = rx.key := by
  have hkey := rx.readBuf_key P io
  rw [readStep] at h
  split at h
  · rename_i hread
    injection h with _ hrx _
    rw [hread] at hkey
    rw [← hrx]
    exact hkey
  · split at h <;> cases h

theorem readStep_failed_key {rx' : RxCore} {io : List UInt8} {e : Error}
    (h : readStep P rx io = .failed e rx') : rx'.key = rx.key := by
  have hkey := rx.readBuf_key P io
  rw [readStep] at h
  split at h
  · cases h
  · rename_i hread
    split at h
    · cases h
    · injection h with _ hrx
      rw [hread] at hkey
      rw [← hrx]
      exact hkey

/-- Reading data, with equal keys: the next message that was written, or waiting. -/
theorem Streaming.readData (h : Streaming P tx rx pipe) (hk : rx.key = tx.key) :
    (∃ m ms rx' inbox', readStep P rx pipe.inbox = .message m rx' inbox' ∧
      pipe.wrote = pipe.got ++ m :: ms ∧ rx.SameSetup rx' ∧
      Streaming P tx rx' (pipe.tookData inbox' m)) ∨
    ((∃ rx'', readStep P rx pipe.inbox = .ended rx'') ∧
      (pipe.wrote = pipe.got ∨ pipe.wire ≠ [])) := by
  obtain ⟨unread, hwrote, hd⟩ := h.data hk
  rcases DataFeed.read hd with ⟨m, ms, rx', inbox', rfl, hread, hsetup, hd'⟩ | ⟨hend, hq⟩
  · refine Or.inl ⟨m, ms, rx', inbox', hread, hwrote, hsetup, h.frames, ?_⟩
    intro _
    refine ⟨ms, ?_, hd'⟩
    simp only [Pipe.tookData]
    rw [hwrote, List.append_assoc, List.singleton_append]
  · refine Or.inr ⟨hend, ?_⟩
    rcases hq with rfl | hwire
    · rw [List.append_nil] at hwrote
      exact Or.inl hwrote
    · exact Or.inr hwire

/-- A receiver on the data plane. -/
theorem Direction.streaming (h : Direction P tx rx pipe snd .switched) : Streaming P tx rx pipe := by
  cases snd with
  | plain left sent => exact h.elim
  | switched sent ivv => exact h

/-- Both ends stay on the data plane. -/
theorem Direction.restream {rx' : RxCore} {pipe' : Pipe}
    (h : Direction P tx rx pipe snd .switched) (h' : Streaming P tx rx' pipe') :
    Direction P tx rx' pipe' snd .switched := by
  cases snd with
  | plain left sent => exact h.elim
  | switched sent ivv => exact h'

/-- A delivery changes nothing. -/
theorem Direction.deliver {pipe' : Pipe} {n : ℕ} (hd : pipe.deliver n = some pipe')
    (h : Direction P tx rx pipe snd rcv) : Direction P tx rx pipe' snd rcv := by
  obtain ⟨hbytes, hframes, hseen, hwrote, hgot, -⟩ := Pipe.deliver_spec hd
  cases rcv with
  | expect count budget =>
      obtain ⟨hcount, hleft, hg, nops, hle, hf, hp⟩ := h
      refine ⟨hcount, hleft, by rw [hgot, hg], nops, hle, by rw [hframes, hseen, hf], ?_⟩
      rw [hbytes, hwrote]
      exact hp
  | switched =>
      refine h.restream ⟨by rw [hframes, hseen, h.streaming.frames], ?_⟩
      rw [hbytes, hwrote, hgot]
      exact h.streaming.data

end Nextppp

/-
**A bond link as a byte pipe: `link.rs`.**

A link is a nextppp session whose decrypted stream the aggregator drives as plain bytes.  The writing
half encrypts what it accepts into one frame at a time and pushes it onto the carrier as the carrier
allows; the reading half decrypts frames off the carrier and serves their bytes in pieces of the
caller's choosing.  Either half may be interrupted at any point and called again.

What the carrier does in a call is part of the action: how many bytes it takes or gives each time it
is polled, and where it is pending.  It delivers bytes in order, and it may close at any moment.

Main definitions:

* `Nextppp.LinkWriteHalf.pollWrite`, `Nextppp.LinkWriteHalf.pollFlush`,
  `Nextppp.LinkWriteHalf.pollShutdown`, `Nextppp.LinkReadHalf.pollRead`;
* `Nextppp.LinkNet`, `Nextppp.LinkNet.step` — the two halves and the carrier;
* `Nextppp.Flow` — the frames between the two halves;
* `Nextppp.LinkNet.Told`, `Nextppp.LinkNet.Pushes` — what a read and what the writing half tell.

Main results:

* `Nextppp.LinkNet.Inv.step` — every step keeps the invariant;
* `Nextppp.link_transparent` — what is read is what was accepted, all of it once it was flushed and
  read, and how the link ends tells where the carrier closed.
-/

import Nextppp.Lib.System
import Nextppp.Mux.Carrier

set_option relaxedAutoImplicit false
set_option autoImplicit false

namespace Nextppp

open Incremental Run

/-! ### The carrier -/

/-- What a poll of an asynchronous operation returns. -/
inductive IoPoll (α : Type)
  | pending
  | ready (r : α)
  deriving DecidableEq

/-- The errors of a link: those of the codec, wrapped; those it raises itself; those of the
carrier. -/
inductive LinkError
  | codec (e : Error)
  | unexpectedEof
  | writeZero
  | carrier
  deriving DecidableEq

/-- What the carrier does when it is polled for a write: how many bytes it takes. -/
inductive CarrierWrite
  | pending
  | took (n : ℕ)
  | failed
  deriving DecidableEq

/-- What the carrier does when it is polled for a read: it gives at least one byte, if it has any. -/
inductive CarrierRead
  | pending
  | gave (n : ℕ)
  | failed
  deriving DecidableEq

/-- The carrier: the bytes it has taken and not yet given, and whether it is closed. -/
structure Carrier where
  flight : List UInt8
  closed : Bool

/-! ### The writing half -/

/-- The writing half: the session and the frame that is being pushed. -/
structure LinkWriteHalf where
  session : TxCore
  out : List UInt8
  outOff : ℕ

namespace LinkWriteHalf

/-- A writing half of a session. -/
def new (session : TxCore) : LinkWriteHalf := ⟨session, [], 0⟩

/-- The part of the frame that the carrier has not taken. -/
def unsent (w : LinkWriteHalf) : List UInt8 := w.out.drop w.outOff

/-- Drive the pending frame onto the carrier: the result, the half, the carrier, and what the carrier
would have done if it had been polled further. -/
def flushOut : List CarrierWrite → LinkWriteHalf → Carrier →
    IoPoll (Except LinkError Unit) × LinkWriteHalf × Carrier × List CarrierWrite
  | [], w, c =>
      if w.outOff < w.out.length then (.pending, w, c, [])
      else (.ready (.ok ()), { w with out := [], outOff := 0 }, c, [])
  | a :: as, w, c =>
      if w.outOff < w.out.length then
        match a with
        | .pending => (.pending, w, c, as)
        | .failed => (.ready (.error .carrier), w, c, as)
        | .took n =>
            if c.closed then (.ready (.error .carrier), w, c, as)
            else if min n w.unsent.length = 0 then (.ready (.error .writeZero), w, c, as)
            else
              flushOut as { w with outOff := w.outOff + min n w.unsent.length }
                { c with flight := c.flight ++ w.unsent.take n }
      else (.ready (.ok ()), { w with out := [], outOff := 0 }, c, a :: as)

/-- Encrypt the front of the buffer into a frame and push what the carrier accepts. -/
def acceptWrite (P : Primitives) (w : LinkWriteHalf) (c : Carrier) (as : List CarrierWrite)
    (buf : List UInt8) : IoPoll (Except LinkError ℕ) × LinkWriteHalf × Carrier :=
  let len := min buf.length pppBufferSize
  if len = 0 then (.ready (.ok 0), w, c)
  else
    match w.session.encryptInto P (buf.take len) with
    | (.error e, session) => (.ready (.error (.codec e)), { w with session := session }, c)
    | (.ok frame, session) =>
        match flushOut as ⟨session, w.out ++ frame, 0⟩ c with
        | (.ready (.error e), w', c', _) => (.ready (.error e), w', c')
        | (_, w', c', _) => (.ready (.ok len), w', c')

/-- Write: the previous frame goes first. -/
def pollWrite (P : Primitives) (w : LinkWriteHalf) (c : Carrier) (as : List CarrierWrite)
    (buf : List UInt8) : IoPoll (Except LinkError ℕ) × LinkWriteHalf × Carrier :=
  if w.outOff < w.out.length then
    match flushOut as w c with
    | (.pending, w', c', _) => (.pending, w', c')
    | (.ready (.error e), w', c', _) => (.ready (.error e), w', c')
    | (.ready (.ok ()), w', c', as') => acceptWrite P w' c' as' buf
  else acceptWrite P w c as buf

/-- Flush: the frame, then the carrier, which answers as given. -/
def pollFlush (w : LinkWriteHalf) (c : Carrier) (as : List CarrierWrite)
    (answer : IoPoll (Except LinkError Unit)) :
    IoPoll (Except LinkError Unit) × LinkWriteHalf × Carrier :=
  match flushOut as w c with
  | (.ready (.ok ()), w', c', _) => (answer, w', c')
  | (r, w', c', _) => (r, w', c')

/-- Shut down: the frame, then the carrier, which is closed if it answers so. -/
def pollShutdown (w : LinkWriteHalf) (c : Carrier) (as : List CarrierWrite)
    (answer : IoPoll (Except LinkError Unit)) :
    IoPoll (Except LinkError Unit) × LinkWriteHalf × Carrier :=
  match flushOut as w c with
  | (.ready (.ok ()), w', c', _) =>
      (answer, w', { c' with closed := c'.closed || decide (answer = .ready (.ok ())) })
  | (r, w', c', _) => (r, w', c')

end LinkWriteHalf

/-! ### The reading half -/

/-- Upper bound on buffered wire bytes. -/
def wireCap : ℕ := base94MaxFrame + 64

/-- Bytes pulled from the carrier per read. -/
def linkReadChunk : ℕ := 16 * 1024

/-- The reading half: the session, the wire bytes that are not a frame yet, and the decrypted bytes
that are not served yet. -/
structure LinkReadHalf where
  session : SessionRx
  wire : List UInt8
  plain : List UInt8
  plainOff : ℕ

namespace LinkReadHalf

/-- A reading half of a session. -/
def new (session : RxCore) : LinkReadHalf := ⟨SessionRx.ofCore session, [], [], 0⟩

/-- The decrypted bytes that are not served yet. -/
def unserved (r : LinkReadHalf) : List UInt8 := r.plain.drop r.plainOff

/-- Serve at most `size` decrypted bytes. -/
def serve (r : LinkReadHalf) (size : ℕ) : List UInt8 × LinkReadHalf :=
  let n := min size r.unserved.length
  (r.unserved.take n,
    if r.plainOff + n = r.plain.length then { r with plain := [], plainOff := 0 }
    else { r with plainOff := r.plainOff + n })

/-- What the end of the carrier means: it is clean if nothing of a frame was received. -/
def eof (r : LinkReadHalf) : Except LinkError (List UInt8) :=
  if r.wire = [] ∧ r.session.pendingBinary.isNone then .ok [] else .error .unexpectedEof

/-- The loop of a read into a buffer of `size` bytes. -/
def pollReadLoop (P : Primitives) (size : ℕ) : ℕ → List CarrierRead → LinkReadHalf → Carrier →
    IoPoll (Except LinkError (List UInt8)) × LinkReadHalf × Carrier
  | 0, _, r, c => (.pending, r, c)
  | fuel + 1, as, r, c =>
      if r.plainOff < r.plain.length then (.ready (.ok (r.serve size).1), (r.serve size).2, c)
      else
        match pollStep P r.session r.wire with
        | .message m session wire => pollReadLoop P size fuel as ⟨session, wire, m, 0⟩ c
        | .failed e session => (.ready (.error (.codec e)), { r with session := session }, c)
        | .more session wire =>
            let r := { r with session := session, wire := wire }
            if wireCap < wire.length then (.ready (.error (.codec .invalidFrame)), r, c)
            else
              match as with
              | [] => (.pending, r, c)
              | .pending :: _ => (.pending, r, c)
              | .failed :: _ => (.ready (.error .carrier), r, c)
              | .gave n :: as =>
                  if c.flight = [] then
                    if c.closed then (.ready r.eof, r, c) else (.pending, r, c)
                  else
                    let k := min (n + 1) linkReadChunk
                    pollReadLoop P size fuel as { r with wire := wire ++ c.flight.take k }
                      { c with flight := c.flight.drop k }

/-- Read into a buffer of `size` bytes.  Between two reads of the carrier at most one frame is
decoded, so the rounds do not run out. -/
def pollRead (P : Primitives) (r : LinkReadHalf) (c : Carrier) (as : List CarrierRead) (size : ℕ) :
    IoPoll (Except LinkError (List UInt8)) × LinkReadHalf × Carrier :=
  pollReadLoop P size (as.length + 3) as r c

end LinkReadHalf

/-! ### The two halves -/

/-- A link: its two halves, the carrier, and the record of what was accepted and read. -/
structure LinkNet where
  writer : LinkWriteHalf
  carrier : Carrier
  reader : LinkReadHalf
  accepted : List UInt8
  got : List UInt8

/-- The actions on a link, with what the carrier does in them. -/
inductive LinkAct
  | write (buf : List UInt8) (as : List CarrierWrite)
  | flush (as : List CarrierWrite) (answer : IoPoll (Except LinkError Unit))
  | shutdown (as : List CarrierWrite) (answer : IoPoll (Except LinkError Unit))
  | read (size : ℕ) (as : List CarrierRead)
  | close

namespace LinkNet

/-- A link between two session halves. -/
def init (tx : TxCore) (rx : RxCore) : LinkNet where
  writer := LinkWriteHalf.new tx
  carrier := ⟨[], false⟩
  reader := LinkReadHalf.new rx
  accepted := []
  got := []

/-- The bytes that a write reported as accepted. -/
def acceptedBy (buf : List UInt8) : IoPoll (Except LinkError ℕ) → List UInt8
  | .ready (.ok n) => buf.take n
  | _ => []

/-- The bytes that a read reported. -/
def gotBy : IoPoll (Except LinkError (List UInt8)) → List UInt8
  | .ready (.ok bs) => bs
  | _ => []

/-- What a read of the link returns. -/
def readResult (P : Primitives) (s : LinkNet) (size : ℕ) (as : List CarrierRead) :
    IoPoll (Except LinkError (List UInt8)) :=
  (s.reader.pollRead P s.carrier as size).1

/-- One action on the link. -/
def step (P : Primitives) (s : LinkNet) : LinkAct → Option LinkNet
  | .write buf as =>
      match s.writer.pollWrite P s.carrier as buf with
      | (r, w, c) => some { s with writer := w, carrier := c, accepted := s.accepted ++ acceptedBy buf r }
  | .flush as answer =>
      match s.writer.pollFlush s.carrier as answer with
      | (_, w, c) => some { s with writer := w, carrier := c }
  | .shutdown as answer =>
      match s.writer.pollShutdown s.carrier as answer with
      | (_, w, c) => some { s with writer := w, carrier := c }
  | .read size as =>
      match s.reader.pollRead P s.carrier as size with
      | (r, reader, c) => some { s with reader := reader, carrier := c, got := s.got ++ gotBy r }
  | .close => some { s with carrier := { s.carrier with closed := true } }

end LinkNet

/-! ### The frames between the halves -/

section Flow

variable {P : Primitives}

/-- The frames a reader is going to read, the first of which it may have begun, and their messages;
after them it is at a frame boundary. -/
inductive Queue (P : Primitives) : SessionRx → List (List UInt8) → List (List UInt8) → RxCore → Prop
  | nil {s : SessionRx} (idle : s.pendingBinary = none) : Queue P s [] [] s.core
  | cons {s : SessionRx} {rx rx' : RxCore} {w m : List UInt8} {ws ms : List (List UInt8)}
      (frame : ∀ rest, resumeRead P s (w ++ rest) = .message m rx rest)
      (rest : Queue P (SessionRx.ofCore rx) ws ms rx') : Queue P s (w :: ws) (m :: ms) rx'

theorem Queue.snoc {s : SessionRx} {rx rx' : RxCore} {w m : List UInt8} {ws ms : List (List UInt8)}
    (h : Queue P s ws ms rx) (frame : Frame P rx w m rx') :
    Queue P s (ws ++ [w]) (ms ++ [m]) rx' := by
  induction h with
  | @nil s idle =>
      refine Queue.cons ?_ (Queue.nil rfl)
      intro rest
      rw [resumeRead, idle]
      exact frame rest
  | cons frame₀ _ ih => exact Queue.cons frame₀ (ih frame)

/-- Everything between the two halves: the bytes on their way are the frames of the queue, the last of
which is the one that is being pushed; it has been begun exactly when the carrier took a part of it. -/
structure Flow (P : Primitives) (w : LinkWriteHalf) (flight : List UInt8) (s : SessionRx)
    (wire : List UInt8) (ws ms : List (List UInt8)) : Prop where
  inv : s.Inv
  bounded : s.Bounded
  bytes : wire ++ flight ++ w.unsent = ws.flatten
  queue : ∃ rx, Queue P s ws ms rx ∧ Lockstep w.session rx
  last : w.unsent ≠ [] → ∃ ws' pre, ws = ws' ++ [pre ++ w.unsent] ∧
    (w.outOff = 0 ↔ pre = [] ∧ (ws' = [] → s.pendingBinary = none))
  tidy : w.unsent = [] → w.out = [] ∧ w.outOff = 0
  messages : ∀ m ∈ ms, m ≠ []

variable {w w' : LinkWriteHalf} {flight wire wire' : List UInt8} {s s' : SessionRx}
  {ws ms : List (List UInt8)}

theorem Flow.init {tx : TxCore} {rx : RxCore} (h : Lockstep tx rx) :
    Flow P (LinkWriteHalf.new tx) [] (SessionRx.ofCore rx) [] [] [] where
  inv := by
    intro len headerKf hp
    cases hp
  bounded := by
    intro len headerKf hp
    cases hp
  bytes := rfl
  queue := ⟨rx, Queue.nil rfl, h⟩
  last := by
    intro hne
    exact absurd rfl hne
  tidy := fun _ => ⟨rfl, rfl⟩
  messages := by
    intro m hm
    cases hm

/-- The carrier takes some bytes of the frame. -/
theorem Flow.push (h : Flow P w flight s wire ws ms) {k : ℕ} (hk : k ≤ w.unsent.length)
    (hsession : w'.session = w.session) (hunsent : w'.unsent = w.unsent.drop k)
    (hoff : w'.unsent ≠ [] → w'.outOff = w.outOff + k)
    (htidy : w'.unsent = [] → w'.out = [] ∧ w'.outOff = 0) :
    Flow P w' (flight ++ w.unsent.take k) s wire ws ms where
  inv := h.inv
  bounded := h.bounded
  bytes := by
    rw [hunsent, ← h.bytes]
    simp [List.append_assoc]
  queue := by
    rw [hsession]
    exact h.queue
  last := by
    intro hne
    have hne₀ : w.unsent ≠ [] := by
      intro hnil
      rw [hunsent, hnil] at hne
      simp at hne
    obtain ⟨ws', pre, hws, hiff⟩ := h.last hne₀
    refine ⟨ws', pre ++ w.unsent.take k, ?_, ?_⟩
    · rw [hws, hunsent, List.append_assoc, List.take_append_drop]
    · rw [hoff hne]
      cases k with
      | zero => simpa using hiff
      | succ k =>
          -- a part of the frame is on the carrier
          have hpart : w.unsent.take (k + 1) ≠ [] := by
            intro hnil
            exact hne₀ ((List.take_eq_nil_iff.1 hnil).resolve_left (by omega))
          constructor
          · intro hzero
            omega
          · rintro ⟨hnil, -⟩
            exact absurd (List.append_eq_nil_iff.1 hnil).2 hpart
  tidy := htidy
  messages := h.messages

/-- A new frame is encrypted. -/
theorem Flow.accept (h : Flow P w flight s wire ws ms) (hdone : w.unsent = []) {buf frame : List UInt8}
    {session : TxCore} (hbuf : buf ≠ [])
    (henc : w.session.encryptInto P buf = (.ok frame, session)) :
    Flow P ⟨session, w.out ++ frame, 0⟩ flight s wire (ws ++ [frame]) (ms ++ [buf]) := by
  obtain ⟨rx, hq, hl⟩ := h.queue
  have hsend : (Send.plain buf).encrypt P w.session = (.ok frame, session) := henc
  obtain ⟨rx', hframe, -, hl', -⟩ := hl.frame hsend
  have hout : w.out = [] := (h.tidy hdone).1
  have hne : frame ≠ [] := by
    intro hnil
    have hread := hframe []
    rw [hnil, List.append_nil, readStep_nil] at hread
    cases hread
  have hunsent : LinkWriteHalf.unsent ⟨session, w.out ++ frame, 0⟩ = frame := by
    simp [LinkWriteHalf.unsent, hout]
  refine ⟨h.inv, h.bounded, ?_, ⟨rx', hq.snoc hframe, hl'⟩, ?_, ?_, ?_⟩
  · have hb := h.bytes
    rw [hdone, List.append_nil] at hb
    rw [hunsent, hb]
    simp
  · intro _
    refine ⟨ws, [], by rw [hunsent, List.nil_append], ?_⟩
    refine ⟨fun _ => ⟨rfl, ?_⟩, fun _ => rfl⟩
    intro hnil
    rw [hnil] at hq
    cases hq with
    | nil idle => exact idle
  · intro hnil
    rw [hunsent] at hnil
    exact absurd hnil hne
  · intro m hm
    rcases List.mem_append.1 hm with hm | hm
    · exact h.messages m hm
    · rw [List.mem_singleton.1 hm]
      exact hbuf

/-- The reader takes some bytes off the carrier. -/
theorem Flow.pull (h : Flow P w flight s wire ws ms) (k : ℕ) :
    Flow P w (flight.drop k) s (wire ++ flight.take k) ws ms := by
  have hbytes : wire ++ flight.take k ++ flight.drop k ++ w.unsent = ws.flatten := by
    rw [List.append_assoc wire, List.take_append_drop]
    exact h.bytes
  exact { h with bytes := hbytes }

/-- The reader decodes a frame: it is the next one. -/
theorem Flow.message (h : Flow P w flight s wire ws ms) {m : List UInt8}
    (hp : pollStep P s wire = .message m s' wire') :
    ∃ ws' ms', ms = m :: ms' ∧ Flow P w flight s' wire' ws' ms' := by
  obtain ⟨rx', rfl, -, hres⟩ := (pollLink P).poll_message h.inv hp
  obtain ⟨rx, hq, hl⟩ := h.queue
  have hbytes := h.bytes
  cases hq with
  | nil idle =>
      -- there is nothing to decode
      have hwire : wire = [] := by
        simp only [List.flatten_nil, List.append_eq_nil_iff] at hbytes
        exact hbytes.1.1
      have hread : resumeRead P s (wire ++ []) = .message m rx' (wire' ++ []) := hres []
      rw [hwire, List.append_nil, resumeRead, idle] at hread
      dsimp only at hread
      rw [readStep_nil] at hread
      cases hread
  | @cons _ rx₁ _ w₁ m₁ ws' ms' frame rest =>
      rw [List.flatten_cons] at hbytes
      have hread := frame ws'.flatten
      rw [← hbytes, List.append_assoc] at hread
      have hread' : resumeRead P s (wire ++ (flight ++ w.unsent)) = _ := hres (flight ++ w.unsent)
      rw [hread] at hread'
      injection hread' with hm hrx hrest
      subst hm hrx
      refine ⟨ws', ms', rfl, ?_, ?_, ?_, ⟨rx, rest, hl⟩, ?_, h.tidy, ?_⟩
      · exact (pollLink P).inv_fresh _
      · intro len headerKf hpend
        cases hpend
      · rw [List.append_assoc]
        exact hrest.symm
      · intro hne
        obtain ⟨ws₀, pre, hws, hiff⟩ := h.last hne
        cases ws₀ with
        | nil =>
            -- the decoded frame cannot be the one that is still being pushed
            rw [List.nil_append] at hws
            obtain ⟨-, rfl⟩ := List.cons.inj hws
            rw [List.flatten_nil] at hrest
            simp only [List.nil_eq_append_iff] at hrest
            exact absurd (List.append_eq_nil_iff.1 hrest.2).2 hne
        | cons w₀ ws₀ =>
            rw [List.cons_append] at hws
            obtain ⟨-, rfl⟩ := List.cons.inj hws
            refine ⟨ws₀, pre, rfl, ?_⟩
            rw [hiff]
            constructor
            · rintro ⟨hpre, -⟩
              exact ⟨hpre, fun _ => rfl⟩
            · rintro ⟨hpre, -⟩
              exact ⟨hpre, fun hnil => by cases hnil⟩
      · intro m' hm'
        exact h.messages m' (List.mem_cons_of_mem _ hm')

/-- The frames never make the decoder fail. -/
theorem Flow.not_failed (h : Flow P w flight s wire ws ms) {e : Error} :
    pollStep P s wire ≠ .failed e s' := by
  intro hp
  have hres : resumeRead P s (wire ++ (flight ++ w.unsent)) = _ :=
    (pollLink P).poll_failed h.inv hp (flight ++ w.unsent)
  obtain ⟨rx, hq, -⟩ := h.queue
  rw [← List.append_assoc, h.bytes] at hres
  cases hq with
  | nil idle =>
      rw [List.flatten_nil, resumeRead, idle] at hres
      dsimp only at hres
      rw [readStep_nil] at hres
      cases hres
  | cons frame rest =>
      rw [List.flatten_cons, frame] at hres
      cases hres

/-- The carrier's bytes end at a frame boundary: nothing of a frame is left to push, or nothing of it
has been pushed. -/
def LinkWriteHalf.Boundary (w : LinkWriteHalf) : Prop := w.unsent = [] ∨ w.outOff = 0

/-- The reader asks for more: the queue stays, its first frame possibly begun, and with an empty
carrier the reader has received nothing of a frame exactly when the carrier is at a boundary. -/
theorem Flow.more (h : Flow P w flight s wire ws ms) (hp : pollStep P s wire = .more s' wire') :
    (∃ ws', Flow P w flight s' wire' ws' ms) ∧ wire'.length < wireCap ∧
      (flight = [] → ((wire' = [] ∧ s'.pendingBinary.isNone = true) ↔ w.Boundary)) ∧
      (flight = [] → w.unsent = [] → ms = []) := by
  obtain ⟨hinv, hend, hres⟩ := (pollLink P).poll_more h.inv hp
  have hframing := (RxWire.framing P .session).more (t := s) h.inv h.bounded hp
  obtain ⟨hbounded, hcap, hidle⟩ := hframing
  have hidle : (wire' = [] ∧ s'.pendingBinary.isNone = true) ↔
    (wire = [] ∧ s.pendingBinary.isNone = true) := hidle
  have hend : resumeRead P s' wire' = .ended s'.core := hend
  have hres : ∀ rest, resumeRead P s (wire ++ rest) = resumeRead P s' (wire' ++ rest) := hres
  obtain ⟨rx, hq, hl⟩ := h.queue
  have hbytes := h.bytes
  cases hq with
  | nil idle =>
      -- nothing is on its way, and the poll left nothing behind
      simp only [List.flatten_nil, List.append_eq_nil_iff] at hbytes
      obtain ⟨⟨hwire, hflight⟩, hunsent⟩ := hbytes
      obtain ⟨hwire', hidle'⟩ := hidle.2 ⟨hwire, by rw [idle]; rfl⟩
      have hcore : s'.core = s.core := by
        have hread := hres []
        rw [hwire, hwire', List.append_nil, resumeRead, idle] at hread
        rw [hwire'] at hend
        dsimp only at hread
        rw [readStep_nil, hend] at hread
        injection hread with hcore
        exact hcore.symm
      have hidle' : s'.pendingBinary = none := Option.isNone_iff_eq_none.1 hidle'
      refine ⟨⟨[], hinv, hbounded, ?_, ⟨s'.core, Queue.nil hidle', ?_⟩, ?_, h.tidy, h.messages⟩,
        hcap, ?_, fun _ _ => rfl⟩
      · simp [hwire', hflight, hunsent]
      · rw [hcore]
        exact hl
      · intro hne
        exact absurd hunsent hne
      · intro _
        exact ⟨fun _ => Or.inl hunsent, fun _ => ⟨hwire', by rw [hidle']; rfl⟩⟩
  | @cons _ rx₁ _ w₁ m₁ ws₂ ms₂ frame rest =>
      -- the buffer is a proper part of the first frame
      obtain ⟨x, rfl, hx⟩ : ∃ x, w₁ = wire ++ x ∧ x ≠ [] := by
        rw [List.flatten_cons, List.append_assoc] at hbytes
        have hcomplete : ∀ y, wire = w₁ ++ y → False := by
          intro y hy
          have hread := hres []
          rw [List.append_nil, List.append_nil, hend, hy, frame] at hread
          cases hread
        rcases List.append_eq_append_iff.1 hbytes with ⟨x, hw₁, -⟩ | ⟨y, hwire, -⟩
        · refine ⟨x, hw₁, ?_⟩
          intro hnil
          rw [hnil, List.append_nil] at hw₁
          exact hcomplete [] (by rw [hw₁, List.append_nil])
        · exact (hcomplete y hwire).elim
      have hx₂ : flight ++ w.unsent = x ++ ws₂.flatten := by
        rw [List.flatten_cons, List.append_assoc, List.append_assoc] at hbytes
        exact List.append_cancel_left hbytes
      have hframe' : ∀ r, resumeRead P s' (wire' ++ x ++ r) = .message m₁ rx₁ r := by
        intro r
        rw [List.append_assoc, ← hres, ← List.append_assoc]
        exact frame r
      -- where the frame that is being pushed is the first one, the carrier holds nothing else
      have hfirst : ∀ pre, wire ++ x = pre ++ w.unsent → ws₂ = [] →
          pre = wire ++ flight ∧ wire' ++ x = wire' ++ flight ++ w.unsent := by
        intro pre hpre hws₂
        rw [hws₂, List.flatten_nil, List.append_nil] at hx₂
        rw [← hx₂] at hpre ⊢
        rw [← List.append_assoc] at hpre
        exact ⟨(List.append_cancel_right hpre).symm, (List.append_assoc _ _ _).symm⟩
      refine ⟨⟨(wire' ++ x) :: ws₂, hinv, hbounded, ?_, ⟨rx, Queue.cons hframe' rest, hl⟩, ?_,
        h.tidy, h.messages⟩, hcap, ?_, ?_⟩
      · rw [List.flatten_cons, List.append_assoc, List.append_assoc, hx₂]
      · intro hne
        obtain ⟨ws', pre, hws, hiff⟩ := h.last hne
        cases ws' with
        | nil =>
            rw [List.nil_append] at hws
            obtain ⟨hpre, hws₂⟩ := List.cons.inj hws
            obtain ⟨rfl, hpre'⟩ := hfirst pre hpre hws₂
            refine ⟨[], wire' ++ flight, by rw [hws₂, hpre']; rfl, ?_⟩
            rw [hiff]
            simp only [List.append_eq_nil_iff, forall_const, ← Option.isNone_iff_eq_none]
            constructor
            · rintro ⟨⟨hw, hf⟩, hi⟩
              obtain ⟨hw', hi'⟩ := hidle.2 ⟨hw, hi⟩
              exact ⟨⟨hw', hf⟩, hi'⟩
            · rintro ⟨⟨hw, hf⟩, hi⟩
              obtain ⟨hw', hi'⟩ := hidle.1 ⟨hw, hi⟩
              exact ⟨⟨hw', hf⟩, hi'⟩
        | cons w₀ ws' =>
            rw [List.cons_append] at hws
            obtain ⟨-, hws₂⟩ := List.cons.inj hws
            refine ⟨(wire' ++ x) :: ws', pre, by rw [hws₂]; rfl, ?_⟩
            rw [hiff]
            simp
      · intro hflight
        rw [hflight, List.nil_append] at hx₂
        have hne : w.unsent ≠ [] := by
          rw [hx₂]
          intro hnil
          exact hx (List.append_eq_nil_iff.1 hnil).1
        obtain ⟨ws', pre, hws, hiff⟩ := h.last hne
        have hnil : ws' = [] := by
          -- otherwise what is not pushed would be longer than the frame it belongs to
          cases ws' with
          | nil => rfl
          | cons w₀ ws' =>
              rw [List.cons_append] at hws
              obtain ⟨-, hws₂⟩ := List.cons.inj hws
              have hlen := congrArg List.length hx₂
              rw [hws₂] at hlen
              simp only [List.flatten_append, List.flatten_cons, List.flatten_nil, List.append_nil,
                List.length_append] at hlen
              have := List.length_pos_of_ne_nil hx
              omega
        rw [hnil, List.nil_append] at hws
        obtain ⟨hpre, hws₂⟩ := List.cons.inj hws
        obtain ⟨rfl, -⟩ := hfirst pre hpre hws₂
        rw [hidle, LinkWriteHalf.Boundary, hiff, hflight, List.append_nil,
          Option.isNone_iff_eq_none]
        constructor
        · rintro ⟨hw, hi⟩
          exact Or.inr ⟨hw, fun _ => hi⟩
        · rintro (hu | ⟨hw, hi⟩)
          · exact absurd hu hne
          · exact ⟨hw, hi hnil⟩
      · intro hflight hunsent
        rw [hflight, hunsent, List.append_nil] at hx₂
        exact absurd (List.append_eq_nil_iff.1 hx₂.symm).1 hx

end Flow

/-! ### The operations -/

section Operations

variable {P : Primitives}

/-- The carrier reports no error when it is polled for writes. -/
def QuietWrites (closed : Bool) (as : List CarrierWrite) : Prop :=
  ∀ a ∈ as, a ≠ .failed ∧ a ≠ .took 0 ∧ (closed = true → a = .pending)

instance (closed : Bool) (as : List CarrierWrite) : Decidable (QuietWrites closed as) :=
  inferInstanceAs (Decidable (∀ a ∈ as, a ≠ .failed ∧ a ≠ .took 0 ∧ (closed = true → a = .pending)))

theorem LinkWriteHalf.unsent_ne_nil {w : LinkWriteHalf} :
    w.outOff < w.out.length ↔ w.unsent ≠ [] := by
  rw [unsent, Ne, List.drop_eq_nil_iff]
  omega

/-- Pushing a frame: some bytes of it go to the carrier, all of them exactly when it reports so. -/
theorem flushOut_spec (as : List CarrierWrite) {w : LinkWriteHalf} {c : Carrier}
    (hq : QuietWrites c.closed as) :
    ∃ r w' c' as' k, LinkWriteHalf.flushOut as w c = (r, w', c', as') ∧ (∀ a ∈ as', a ∈ as) ∧
      k ≤ w.unsent.length ∧ c' = { c with flight := c.flight ++ w.unsent.take k } ∧
      w'.session = w.session ∧ w'.unsent = w.unsent.drop k ∧
      ((r = .ready (.ok ()) ∧ w'.out = [] ∧ w'.outOff = 0 ∧ w'.unsent = []) ∨
        (r = .pending ∧ w'.outOff = w.outOff + k ∧ w'.unsent ≠ [])) := by
  have hdone : ∀ {w : LinkWriteHalf} {c : Carrier}, ¬ w.outOff < w.out.length →
      w.unsent = [] ∧ c = { c with flight := c.flight ++ w.unsent.take 0 } := by
    intro w c h
    exact ⟨not_not.1 (mt LinkWriteHalf.unsent_ne_nil.2 h), by simp⟩
  induction as generalizing w c with
  | nil =>
      rw [LinkWriteHalf.flushOut]
      by_cases h : w.outOff < w.out.length
      · rw [if_pos h]
        exact ⟨_, _, _, _, 0, rfl, fun _ ha => ha, Nat.zero_le _, by simp, rfl, rfl,
          Or.inr ⟨rfl, rfl, LinkWriteHalf.unsent_ne_nil.1 h⟩⟩
      · rw [if_neg h]
        obtain ⟨hnil, hc⟩ := hdone (c := c) h
        exact ⟨_, _, _, _, 0, rfl, fun _ ha => ha, Nat.zero_le _, hc, rfl,
          by simp [LinkWriteHalf.unsent, List.drop_eq_nil_iff.1 hnil],
          Or.inl ⟨rfl, rfl, rfl, rfl⟩⟩
  | cons a as ih =>
      have hq' : QuietWrites c.closed as := fun b hb => hq b (List.mem_cons_of_mem _ hb)
      obtain ⟨hfail, hzero, hclosed⟩ := hq a (by simp)
      rw [LinkWriteHalf.flushOut.eq_def]
      dsimp only
      by_cases h : w.outOff < w.out.length
      · rw [if_pos h]
        have hne := LinkWriteHalf.unsent_ne_nil.1 h
        cases a with
        | pending =>
            exact ⟨_, _, _, _, 0, rfl, fun _ hb => List.mem_cons_of_mem _ hb, Nat.zero_le _, by simp,
              rfl, rfl, Or.inr ⟨rfl, rfl, hne⟩⟩
        | failed => exact absurd rfl hfail
        | took n =>
            have hopen : c.closed = false := by
              cases hc : c.closed with
              | false => rfl
              | true => cases hclosed hc
            have hpos : min n w.unsent.length ≠ 0 := by
              have := List.length_pos_of_ne_nil hne
              have hn : n ≠ 0 := fun hn => hzero (by rw [hn])
              omega
            dsimp only
            rw [if_neg (by rw [hopen]; simp), if_neg hpos]
            have hstep : LinkWriteHalf.unsent { w with outOff := w.outOff + min n w.unsent.length }
                = w.unsent.drop (min n w.unsent.length) := by
              rw [LinkWriteHalf.unsent, LinkWriteHalf.unsent, List.drop_drop]
            have htake : w.unsent.take n = w.unsent.take (min n w.unsent.length) := by
              rw [List.take_eq_take_iff]
              omega
            obtain ⟨r, w', c', as', k, hf, hsub, hk, hc', hs', hu', hres⟩ := ih
              (w := { w with outOff := w.outOff + min n w.unsent.length })
              (c := { c with flight := c.flight ++ w.unsent.take n }) hq'
            rw [hstep] at hk hu' hc'
            rw [List.length_drop] at hk
            refine ⟨r, w', c', as', min n w.unsent.length + k, hf,
              fun b hb => List.mem_cons_of_mem _ (hsub b hb), by omega, ?_, hs', ?_, ?_⟩
            · rw [hc', htake, List.append_assoc, List.take_add]
            · rw [hu', List.drop_drop]
            · rcases hres with hres | ⟨hr, hoff, hu⟩
              · exact Or.inl hres
              · refine Or.inr ⟨hr, ?_, hu⟩
                rw [hoff, Nat.add_assoc]
      · rw [if_neg h]
        obtain ⟨hnil, hc⟩ := hdone (c := c) h
        exact ⟨_, _, _, _, 0, rfl, fun _ ha => ha, Nat.zero_le _, hc, rfl,
          by simp [LinkWriteHalf.unsent, List.drop_eq_nil_iff.1 hnil],
          Or.inl ⟨rfl, rfl, rfl, rfl⟩⟩

/-- The carrier takes something every time it is polled, often enough for `n` bytes. -/
def Taking (n : ℕ) (as : List CarrierWrite) : Prop :=
  n ≤ as.length ∧ ∀ a ∈ as, ∃ k, a = .took (k + 1)

/-- A carrier that takes something every time gets the whole frame. -/
theorem flushOut_taking (as : List CarrierWrite) {w : LinkWriteHalf} {c : Carrier}
    (htaking : Taking w.unsent.length as) (hq : QuietWrites c.closed as) :
    (LinkWriteHalf.flushOut as w c).1 = .ready (.ok ()) := by
  induction as generalizing w c with
  | nil =>
      have hnil : w.unsent = [] := List.eq_nil_of_length_eq_zero (Nat.le_zero.1 htaking.1)
      rw [LinkWriteHalf.flushOut, if_neg (mt LinkWriteHalf.unsent_ne_nil.1 (not_not.2 hnil))]
  | cons a as ih =>
      obtain ⟨k, rfl⟩ := htaking.2 a (by simp)
      have hopen : c.closed = false := by
        cases hc : c.closed with
        | false => rfl
        | true => cases (hq (.took (k + 1)) (by simp)).2.2 hc
      rw [LinkWriteHalf.flushOut.eq_def]
      dsimp only
      by_cases h : w.outOff < w.out.length
      · have hpos := List.length_pos_of_ne_nil (LinkWriteHalf.unsent_ne_nil.1 h)
        rw [if_pos h, if_neg (by rw [hopen]; simp), if_neg (by omega)]
        refine ih ⟨?_, fun b hb => htaking.2 b (List.mem_cons_of_mem _ hb)⟩
          fun b hb => hq b (List.mem_cons_of_mem _ hb)
        have hlen := htaking.1
        rw [List.length_cons] at hlen
        rw [LinkWriteHalf.unsent] at hlen hpos ⊢
        dsimp only
        rw [List.length_drop] at hlen hpos ⊢
        rw [LinkWriteHalf.unsent, List.length_drop]
        omega
      · rw [if_neg h]

/-- The bytes a patient carrier gives: it is not pending while it has bytes or is closed. -/
def Patient (flight : List UInt8) (as : List CarrierRead) : Prop :=
  flight.length < as.length ∧ ∀ a ∈ as, ∃ n, a = .gave n

/-- What a read can return: bytes, a clean end, an end inside a frame, or nothing yet. -/
inductive ReadOutcome (w : LinkWriteHalf) (shut : Bool) (size : ℕ) (patient : Prop)
    (flight unserved : List UInt8) (ms : List (List UInt8)) :
    IoPoll (Except LinkError (List UInt8)) → Prop
  | data (bs : List UInt8) (some : 0 < size → bs ≠ []) :
      ReadOutcome w shut size patient flight unserved ms (.ready (.ok bs))
  | clean (closed : shut = true) (empty : flight = []) (boundary : w.Boundary)
      (served : unserved = []) (all : w.unsent = [] → ms = []) :
      ReadOutcome w shut size patient flight unserved ms (.ready (.ok []))
  | truncated (closed : shut = true) (boundary : ¬ w.Boundary) :
      ReadOutcome w shut size patient flight unserved ms (.ready (.error .unexpectedEof))
  | waits (all : patient → shut = false ∧ unserved = [] ∧ (w.unsent = [] → ms = [])) :
      ReadOutcome w shut size patient flight unserved ms .pending

theorem LinkReadHalf.serve_spec (r : LinkReadHalf) (size : ℕ) :
    (r.serve size).1 ++ (r.serve size).2.unserved = r.unserved ∧
      (r.serve size).2.session = r.session ∧ (r.serve size).2.wire = r.wire ∧
      (r.unserved ≠ [] → 0 < size → (r.serve size).1 ≠ []) := by
  have hne : r.unserved ≠ [] → 0 < size → r.unserved.take (min size r.unserved.length) ≠ [] := by
    intro hne hsize hnil
    have hlen := congrArg List.length hnil
    have := List.length_pos_of_ne_nil hne
    rw [List.length_take, List.length_nil] at hlen
    omega
  unfold serve
  dsimp only
  split
  · rename_i hall
    refine ⟨?_, rfl, rfl, hne⟩
    have hlen : r.unserved.length = r.plain.length - r.plainOff := List.length_drop
    have hfull : r.unserved.length ≤ min size r.unserved.length := by omega
    rw [List.take_of_length_le hfull]
    simp [unserved]
  · refine ⟨?_, rfl, rfl, hne⟩
    rw [show LinkReadHalf.unserved { r with plainOff := r.plainOff + min size r.unserved.length }
      = r.unserved.drop (min size r.unserved.length) by rw [unserved, unserved, List.drop_drop]]
    exact List.take_append_drop _ _

theorem LinkReadHalf.unserved_ne_nil {r : LinkReadHalf} :
    r.plainOff < r.plain.length ↔ r.unserved ≠ [] := by
  rw [unserved, Ne, List.drop_eq_nil_iff]
  omega

/-- The loop of a read, from any state of the two halves. -/
theorem pollReadLoop_spec {w : LinkWriteHalf} (size fuel : ℕ) (as : List CarrierRead)
    {r : LinkReadHalf} {c : Carrier} {ws ms : List (List UInt8)}
    (hq : ∀ a ∈ as, a ≠ .failed) (hf : Flow P w c.flight r.session r.wire ws ms)
    (hfuel : if r.unserved = [] then as.length + 2 ≤ fuel else 0 < fuel) :
    ∃ res r' c' ws' ms', LinkReadHalf.pollReadLoop P size fuel as r c = (res, r', c') ∧
      c'.closed = c.closed ∧ Flow P w c'.flight r'.session r'.wire ws' ms' ∧
      r.unserved ++ ms.flatten = LinkNet.gotBy res ++ r'.unserved ++ ms'.flatten ∧
      ReadOutcome w c.closed size (Patient c.flight as) c'.flight r'.unserved ms' res := by
  induction fuel generalizing as r c ws ms with
  | zero => split at hfuel <;> omega
  | succ fuel ih =>
      rw [LinkReadHalf.pollReadLoop]
      by_cases hserve : r.plainOff < r.plain.length
      · -- bytes are left over from an earlier frame
        obtain ⟨hbytes, hsession, hwire, hne⟩ := r.serve_spec size
        rw [if_pos hserve]
        refine ⟨_, _, c, ws, ms, rfl, rfl, ?_, ?_, .data _ ?_⟩
        · rw [hsession, hwire]
          exact hf
        · rw [LinkNet.gotBy, hbytes]
        · exact hne (LinkReadHalf.unserved_ne_nil.1 hserve)
      · have hnil : r.unserved = [] := not_not.1 (mt LinkReadHalf.unserved_ne_nil.2 hserve)
        rw [if_pos hnil] at hfuel
        rw [if_neg hserve, hnil, List.nil_append]
        cases hp : pollStep P r.session r.wire with
        | message m session wire =>
            obtain ⟨ws', ms', rfl, hf'⟩ := hf.message hp
            have hm : m ≠ [] := hf.messages m (by simp)
            have hunserved : LinkReadHalf.unserved ⟨session, wire, m, 0⟩ = m := rfl
            obtain ⟨res, r', c', ws'', ms'', hloop, hc', hf'', hb, hout⟩ :=
              ih as (r := ⟨session, wire, m, 0⟩) hq hf' (by rw [hunserved, if_neg hm]; omega)
            rw [hunserved] at hb
            refine ⟨res, r', c', ws'', ms'', hloop, hc', hf'', ?_, hout⟩
            rw [List.flatten_cons]
            exact hb
        | failed e session => exact absurd hp hf.not_failed
        | more session wire =>
            obtain ⟨⟨ws', hf'⟩, hcap, heof, hall⟩ := hf.more hp
            have hnil' : LinkReadHalf.unserved { r with session := session, wire := wire } = [] :=
              hnil
            -- nothing is served, and nothing of the queue is lost
            have hsame : ∀ {res}, LinkNet.gotBy res = [] → ms.flatten = LinkNet.gotBy res ++
                LinkReadHalf.unserved { r with session := session, wire := wire } ++ ms.flatten := by
              intro res hres
              rw [hres, hnil']
              rfl
            dsimp only
            rw [if_neg (by omega)]
            cases as with
            | nil =>
                refine ⟨_, _, _, ws', ms, rfl, rfl, hf', hsame rfl, .waits ?_⟩
                rintro ⟨hlen, -⟩
                simp at hlen
            | cons a as =>
                have hq' : ∀ b ∈ as, b ≠ .failed := fun b hb => hq b (List.mem_cons_of_mem _ hb)
                cases a with
                | pending =>
                    refine ⟨_, _, _, ws', ms, rfl, rfl, hf', hsame rfl, .waits ?_⟩
                    rintro ⟨-, hgave⟩
                    obtain ⟨n, hn⟩ := hgave .pending (by simp)
                    cases hn
                | failed => exact absurd rfl (hq .failed (by simp))
                | gave n =>
                    dsimp only
                    by_cases hflight : c.flight = []
                    · rw [if_pos hflight]
                      cases hclosed : c.closed with
                      | false =>
                          refine ⟨_, _, _, ws', ms, rfl, hclosed, hf', hsame rfl, .waits ?_⟩
                          intro _
                          exact ⟨rfl, hnil, hall hflight⟩
                      | true =>
                          rw [if_pos rfl]
                          by_cases hidle : wire = [] ∧ session.pendingBinary.isNone = true
                          · have hres : LinkReadHalf.eof
                                { r with session := session, wire := wire } = .ok [] := if_pos hidle
                            rw [hres]
                            exact ⟨_, _, _, ws', ms, rfl, hclosed, hf', hsame rfl,
                              .clean rfl hflight ((heof hflight).1 hidle) hnil (hall hflight)⟩
                          · have hres : LinkReadHalf.eof { r with session := session, wire := wire }
                                = .error .unexpectedEof := if_neg hidle
                            rw [hres]
                            exact ⟨_, _, _, ws', ms, rfl, hclosed, hf', hsame rfl,
                              .truncated rfl (mt (heof hflight).2 hidle)⟩
                    · rw [if_neg hflight]
                      have hpos := List.length_pos_of_ne_nil hflight
                      have hk : 0 < min (n + 1) linkReadChunk := by
                        rw [linkReadChunk]
                        omega
                      have hpatient : Patient c.flight (.gave n :: as) →
                          Patient (c.flight.drop (min (n + 1) linkReadChunk)) as := by
                        rintro ⟨hlen, hgave⟩
                        refine ⟨?_, fun b hb => hgave b (List.mem_cons_of_mem _ hb)⟩
                        rw [List.length_cons] at hlen
                        rw [List.length_drop]
                        omega
                      have hnil'' : LinkReadHalf.unserved { r with
                          session := session
                          wire := wire ++ c.flight.take (min (n + 1) linkReadChunk) } = [] := hnil
                      obtain ⟨res, r', c', ws'', ms'', hloop, hc', hf'', hb, hout⟩ :=
                        ih as (c := { c with flight := c.flight.drop (min (n + 1) linkReadChunk) })
                          (r := { r with
                            session := session
                            wire := wire ++ c.flight.take (min (n + 1) linkReadChunk) })
                          hq' (hf'.pull _) (by
                            rw [hnil'', if_pos rfl]
                            simp only [List.length_cons] at hfuel
                            omega)
                      rw [hnil'', List.nil_append] at hb
                      refine ⟨res, r', c', ws'', ms'', hloop, hc', hf'', hb, ?_⟩
                      cases hout with
                      | data bs hs => exact .data bs hs
                      | clean h₁ h₂ h₃ h₄ h₅ => exact .clean h₁ h₂ h₃ h₄ h₅
                      | truncated h₁ h₂ => exact .truncated h₁ h₂
                      | waits h₁ => exact .waits fun hpat => h₁ (hpatient hpat)

end Operations

/-! ### Runs -/

section Runs

variable {P : Primitives}

/-- The frames between the halves, and where the accepted bytes are: read, decrypted but not served,
or in the frames. -/
def LinkNet.Inv (P : Primitives) (s : LinkNet) : Prop :=
  ∃ ws ms, Flow P s.writer s.carrier.flight s.reader.session s.reader.wire ws ms ∧
    s.accepted = s.got ++ s.reader.unserved ++ ms.flatten

/-- The carrier reports no error in an action. -/
def LinkNet.Quiet (s : LinkNet) : LinkAct → Prop
  | .write _ as => QuietWrites s.carrier.closed as
  | .flush as _ => QuietWrites s.carrier.closed as
  | .shutdown as _ => QuietWrites s.carrier.closed as
  | .read _ as => ∀ a ∈ as, a ≠ .failed
  | .close => True

instance (s : LinkNet) (a : LinkAct) : Decidable (s.Quiet a) :=
  match a with
  | .write _ as => inferInstanceAs (Decidable (QuietWrites s.carrier.closed as))
  | .flush as _ => inferInstanceAs (Decidable (QuietWrites s.carrier.closed as))
  | .shutdown as _ => inferInstanceAs (Decidable (QuietWrites s.carrier.closed as))
  | .read _ as => inferInstanceAs (Decidable (∀ a ∈ as, a ≠ CarrierRead.failed))
  | .close => inferInstanceAs (Decidable True)

/-- Pushing the frame on a carrier that reports no error. -/
theorem Flow.flushOut {w : LinkWriteHalf} {c : Carrier} {s : SessionRx} {wire : List UInt8}
    {ws ms : List (List UInt8)} {as : List CarrierWrite} (h : Flow P w c.flight s wire ws ms)
    (hq : QuietWrites c.closed as) :
    ∃ r w' c' as', LinkWriteHalf.flushOut as w c = (r, w', c', as') ∧ QuietWrites c'.closed as' ∧
      Flow P w' c'.flight s wire ws ms ∧ ((r = .ready (.ok ()) ∧ w'.unsent = []) ∨ r = .pending) := by
  obtain ⟨r, w', c', as', k, hf, hsub, hk, rfl, hs, hu, hres⟩ := flushOut_spec as hq
  refine ⟨r, w', _, as', hf, fun a ha => hq a (hsub a ha), ?_, ?_⟩
  · refine h.push hk hs hu ?_ ?_
    · intro hne
      rcases hres with ⟨-, -, -, hnil⟩ | ⟨-, hoff, -⟩
      · exact absurd hnil hne
      · exact hoff
    · intro hnil
      rcases hres with ⟨-, hout, hoff, -⟩ | ⟨-, -, hne⟩
      · exact ⟨hout, hoff⟩
      · exact absurd hnil hne
  · rcases hres with ⟨hr, -, -, hnil⟩ | ⟨hr, -, -⟩
    · exact Or.inl ⟨hr, hnil⟩
    · exact Or.inr hr

/-- A session in lockstep encrypts every buffer of legal length. -/
theorem Lockstep.encryptInto_ok {tx : TxCore} {rx : RxCore} (h : Lockstep tx rx) {buf : List UInt8}
    (hpos : 1 ≤ buf.length) (hle : buf.length ≤ pppBufferSize) :
    ∃ frame tx', tx.encryptInto P buf = (.ok frame, tx') := by
  obtain ⟨frame, tx', -, he, -⟩ := h.packet P [] buf hpos hle
  exact ⟨frame, tx', he⟩

theorem acceptWrite_spec {w : LinkWriteHalf} {c : Carrier} {s : SessionRx} {wire : List UInt8}
    {ws ms : List (List UInt8)} {as : List CarrierWrite} (h : Flow P w c.flight s wire ws ms)
    (hdone : w.unsent = []) (hq : QuietWrites c.closed as) (buf : List UInt8) :
    ∃ r w' c' ws' ms', w.acceptWrite P c as buf = (r, w', c') ∧ Flow P w' c'.flight s wire ws' ms' ∧
      ms'.flatten = ms.flatten ++ LinkNet.acceptedBy buf r ∧
      r = .ready (.ok (min buf.length pppBufferSize)) := by
  rw [LinkWriteHalf.acceptWrite]
  by_cases hlen : min buf.length pppBufferSize = 0
  · rw [if_pos hlen]
    exact ⟨_, _, _, ws, ms, rfl, h, by simp [LinkNet.acceptedBy], by rw [hlen]⟩
  · rw [if_neg hlen]
    have htake : (buf.take (min buf.length pppBufferSize)).length = min buf.length pppBufferSize := by
      rw [List.length_take]
      omega
    obtain ⟨rx, -, hl⟩ := h.queue
    have hok : ∃ frame session, w.session.encryptInto P
        (buf.take (min buf.length pppBufferSize)) = (.ok frame, session) :=
      hl.encryptInto_ok (by omega) (by omega)
    obtain ⟨frame, session, henc⟩ := hok
    have hne : buf.take (min buf.length pppBufferSize) ≠ [] := by
      intro hnil
      rw [hnil, List.length_nil] at htake
      exact hlen htake.symm
    have hflow := h.accept hdone hne henc
    obtain ⟨r, w', c', as', hf, -, hflow', hres⟩ := Flow.flushOut (c := c) hflow hq
    rw [henc]
    dsimp only
    rw [hf]
    refine ⟨.ready (.ok (min buf.length pppBufferSize)), w', c', _, _, ?_, hflow', ?_, rfl⟩
    · rcases hres with ⟨rfl, -⟩ | rfl <;> rfl
    · simp [LinkNet.acceptedBy]

theorem pollWrite_spec {w : LinkWriteHalf} {c : Carrier} {s : SessionRx} {wire : List UInt8}
    {ws ms : List (List UInt8)} {as : List CarrierWrite} (h : Flow P w c.flight s wire ws ms)
    (hq : QuietWrites c.closed as) (buf : List UInt8) :
    ∃ r w' c' ws' ms', w.pollWrite P c as buf = (r, w', c') ∧ Flow P w' c'.flight s wire ws' ms' ∧
      ms'.flatten = ms.flatten ++ LinkNet.acceptedBy buf r ∧
      (r = .ready (.ok (min buf.length pppBufferSize)) ∨
        (r = .pending ∧ w.unsent ≠ [] ∧ ¬ Taking w.unsent.length as)) := by
  rw [LinkWriteHalf.pollWrite]
  by_cases hpart : w.outOff < w.out.length
  · rw [if_pos hpart]
    obtain ⟨r, w', c', as', hf, hq', hflow, hres⟩ := h.flushOut hq
    have hready : Taking w.unsent.length as → r = .ready (.ok ()) := by
      intro htaking
      rw [← flushOut_taking as htaking hq, hf]
    rw [hf]
    rcases hres with ⟨rfl, hdone⟩ | rfl
    · obtain ⟨r, w', c', ws', ms', ha, hflow', hms, hr⟩ := acceptWrite_spec hflow hdone hq' buf
      exact ⟨r, w', c', ws', ms', ha, hflow', hms, .inl hr⟩
    · refine ⟨_, w', c', ws, ms, rfl, hflow, by simp [LinkNet.acceptedBy],
        .inr ⟨rfl, LinkWriteHalf.unsent_ne_nil.1 hpart, ?_⟩⟩
      intro htaking
      cases hready htaking
  · rw [if_neg hpart]
    obtain ⟨r, w', c', ws', ms', ha, hflow', hms, hr⟩ :=
      acceptWrite_spec h (not_not.1 (mt LinkWriteHalf.unsent_ne_nil.2 hpart)) hq buf
    exact ⟨r, w', c', ws', ms', ha, hflow', hms, .inl hr⟩

theorem LinkNet.Inv.step {s s' : LinkNet} {a : LinkAct} (h : s.Inv P) (hq : s.Quiet a)
    (hs : s.step P a = some s') : s'.Inv P := by
  obtain ⟨ws, ms, hflow, hbytes⟩ := h
  cases a with
  | write buf as =>
      obtain ⟨r, w', c', ws', ms', hp, hflow', hms, -⟩ := pollWrite_spec hflow hq buf
      simp only [LinkNet.step, hp, Option.some.injEq] at hs
      subst hs
      refine ⟨ws', ms', hflow', ?_⟩
      dsimp only
      rw [hms, hbytes]
      simp only [List.append_assoc]
  | flush as answer =>
      obtain ⟨r, w', c', as', hf, -, hflow', hres⟩ := hflow.flushOut hq
      simp only [LinkNet.step, LinkWriteHalf.pollFlush, hf] at hs
      rcases hres with ⟨rfl, -⟩ | rfl
      · obtain rfl := Option.some.inj hs
        exact ⟨ws, ms, hflow', hbytes⟩
      · obtain rfl := Option.some.inj hs
        exact ⟨ws, ms, hflow', hbytes⟩
  | shutdown as answer =>
      obtain ⟨r, w', c', as', hf, -, hflow', hres⟩ := hflow.flushOut hq
      simp only [LinkNet.step, LinkWriteHalf.pollShutdown, hf] at hs
      rcases hres with ⟨rfl, -⟩ | rfl
      · obtain rfl := Option.some.inj hs
        exact ⟨ws, ms, hflow', hbytes⟩
      · obtain rfl := Option.some.inj hs
        exact ⟨ws, ms, hflow', hbytes⟩
  | read size as =>
      have hfuel : if s.reader.unserved = [] then as.length + 2 ≤ as.length + 3
          else 0 < as.length + 3 := by
        split <;> omega
      obtain ⟨res, r', c', ws', ms', hp, -, hflow', hb, -⟩ :=
        pollReadLoop_spec size (as.length + 3) as hq hflow hfuel
      simp only [LinkNet.step, LinkReadHalf.pollRead, hp, Option.some.injEq] at hs
      subst hs
      refine ⟨ws', ms', hflow', ?_⟩
      dsimp only
      rw [hbytes, List.append_assoc, hb]
      simp only [List.append_assoc]
  | close =>
      obtain rfl := Option.some.inj hs
      exact ⟨ws, ms, hflow, hbytes⟩

/-- What a read of a link tells, in a state of a run. -/
structure LinkNet.Told (s : LinkNet) (as : List CarrierRead)
    (res : IoPoll (Except LinkError (List UInt8))) : Prop where
  data : ∀ bs, res = .ready (.ok bs) → s.got ++ bs <+: s.accepted
  clean : res = .ready (.ok []) → s.carrier.closed = true ∧ s.writer.Boundary ∧
    (s.writer.unsent = [] → s.got = s.accepted)
  error : ∀ e, res = .ready (.error e) →
    e = .unexpectedEof ∧ s.carrier.closed = true ∧ ¬ s.writer.Boundary
  waits : res = .pending → Patient s.carrier.flight as →
    s.carrier.closed = false ∧ (s.writer.unsent = [] → s.got = s.accepted)

theorem LinkNet.Inv.told {s : LinkNet} (h : s.Inv P) {size : ℕ} (hsize : 0 < size)
    {as : List CarrierRead} (hq : ∀ a ∈ as, a ≠ .failed) : s.Told as (s.readResult P size as) := by
  obtain ⟨ws, ms, hflow, hbytes⟩ := h
  have hfuel : if s.reader.unserved = [] then as.length + 2 ≤ as.length + 3
      else 0 < as.length + 3 := by
    split <;> omega
  obtain ⟨res, r', c', ws', ms', hp, -, -, hb, hout⟩ :=
    pollReadLoop_spec size (as.length + 3) as hq hflow hfuel
  have hres : s.readResult P size as = res := by
    rw [LinkNet.readResult, LinkReadHalf.pollRead, hp]
  have hacc : s.accepted = s.got ++ (LinkNet.gotBy res ++ r'.unserved ++ ms'.flatten) := by
    rw [hbytes, List.append_assoc, hb]
  rw [hres]
  cases hout with
  | data bs hne =>
      refine ⟨?_, ?_, ?_, ?_⟩
      · intro bs' hbs
        obtain rfl : bs = bs' := by simpa using hbs
        rw [hacc, LinkNet.gotBy]
        simp only [List.append_assoc]
        rw [← List.append_assoc]
        exact List.prefix_append _ _
      · intro hnil
        obtain rfl : bs = [] := by simpa using hnil
        exact absurd rfl (hne hsize)
      · intro e he
        simp at he
      · intro hpend
        cases hpend
  | clean hclosed hflight hboundary hserved hall =>
      refine ⟨?_, ?_, ?_, ?_⟩
      · intro bs' hbs
        obtain rfl : [] = bs' := by simpa using hbs
        rw [hacc, List.append_nil]
        exact List.prefix_append _ _
      · intro _
        refine ⟨hclosed, hboundary, ?_⟩
        intro hunsent
        rw [hacc, LinkNet.gotBy, hserved, hall hunsent]
        simp
      · intro e he
        simp at he
      · intro hpend
        cases hpend
  | truncated hclosed hboundary =>
      refine ⟨?_, ?_, ?_, ?_⟩
      · intro bs' hbs
        simp at hbs
      · intro hbs
        simp at hbs
      · intro e he
        obtain rfl : LinkError.unexpectedEof = e := by simpa using he
        exact ⟨rfl, hclosed, hboundary⟩
      · intro hpend
        cases hpend
  | waits hall =>
      refine ⟨?_, ?_, ?_, ?_⟩
      · intro bs' hbs
        cases hbs
      · intro hbs
        cases hbs
      · intro e he
        cases he
      · intro _ hpatient
        obtain ⟨hopen, hserved, hms⟩ := hall hpatient
        refine ⟨hopen, ?_⟩
        intro hunsent
        rw [hacc, hserved, hms hunsent]
        simp [LinkNet.gotBy]

/-- What the writing half tells, in a state of a run, when the carrier answers its polls so. -/
structure LinkNet.Pushes (P : Primitives) (s : LinkNet) (as : List CarrierWrite) : Prop where
  /-- A flush that is answered so has put everything on the carrier. -/
  flushed : ∀ answer, (s.writer.pollFlush s.carrier as answer).1 = .ready (.ok ()) →
    (s.writer.pollFlush s.carrier as answer).2.1.unsent = []
  /-- So has a shutdown. -/
  shut : ∀ answer, (s.writer.pollShutdown s.carrier as answer).1 = .ready (.ok ()) →
    (s.writer.pollShutdown s.carrier as answer).2.1.unsent = []
  /-- On a carrier that takes what it is given both answer what the carrier answers. -/
  answers : Taking s.writer.unsent.length as → ∀ answer,
    (s.writer.pollFlush s.carrier as answer).1 = answer ∧
      (s.writer.pollShutdown s.carrier as answer).1 = answer
  /-- A write accepts as much as fits one frame, unless the frame before it could not be pushed. -/
  accepts : ∀ buf, (s.writer.pollWrite P s.carrier as buf).1
      = .ready (.ok (min buf.length pppBufferSize)) ∨
    ((s.writer.pollWrite P s.carrier as buf).1 = .pending ∧ s.writer.unsent ≠ [] ∧
      ¬ Taking s.writer.unsent.length as)
  /-- After such a flush a read that finds nothing more means that all accepted bytes were read. -/
  delivered : ∀ answer s', s.step P (.flush as answer) = some s' →
    (s.writer.pollFlush s.carrier as answer).1 = .ready (.ok ()) → ∀ size ras, 0 < size →
    (∀ a ∈ ras, a ≠ CarrierRead.failed) → Patient s'.carrier.flight ras →
    (s'.readResult P size ras = .pending ∨ s'.readResult P size ras = .ready (.ok [])) →
    s'.got = s'.accepted

theorem LinkNet.Inv.pushes {s : LinkNet} (h : s.Inv P) {as : List CarrierWrite}
    (hq : QuietWrites s.carrier.closed as) : s.Pushes P as := by
  have hinv := h
  obtain ⟨ws, ms, hflow, -⟩ := h
  obtain ⟨r, w', c', as', hf, -, -, hres⟩ := hflow.flushOut hq
  have hready : Taking s.writer.unsent.length as → r = .ready (.ok ()) := by
    intro htaking
    rw [← flushOut_taking as htaking hq, hf]
  have hflushed : ∀ answer, (s.writer.pollFlush s.carrier as answer).1 = .ready (.ok ()) →
      (s.writer.pollFlush s.carrier as answer).2.1.unsent = [] := by
    intro answer
    rw [LinkWriteHalf.pollFlush, hf]
    rcases hres with ⟨rfl, hnil⟩ | rfl
    · exact fun _ => hnil
    · intro hr
      cases hr
  refine ⟨hflushed, fun answer => ?_, fun htaking answer => ?_, fun buf => ?_, ?_⟩
  · rw [LinkWriteHalf.pollShutdown, hf]
    rcases hres with ⟨rfl, hnil⟩ | rfl
    · exact fun _ => hnil
    · intro hr
      cases hr
  · obtain rfl := hready htaking
    rw [LinkWriteHalf.pollFlush, LinkWriteHalf.pollShutdown, hf]
    exact ⟨rfl, rfl⟩
  · obtain ⟨r, w', c', ws', ms', hp, -, -, hr⟩ := pollWrite_spec hflow hq buf
    rw [hp]
    exact hr
  · intro answer s' hstep hanswer size ras hsize hras hpatient hend
    have hunsent : s'.writer.unsent = [] := by
      obtain rfl := Option.some.inj hstep
      exact hflushed answer hanswer
    have htold := (hinv.step (a := .flush as answer) hq hstep).told hsize hras
    rcases hend with hpend | hclean
    · exact (htold.waits hpend hpatient).2 hunsent
    · exact (htold.clean hclean).2.2 hunsent

end Runs

/-- A bond link is a transparent byte pipe.  Between two halves of one handshaked session, in every
run of writes, flushes, shutdowns and reads in which the carrier reports no error, the bytes read are
a prefix of the bytes accepted.  A read into a buffer that is not empty returns further bytes of them,
or a clean end, which means that the carrier closed at a frame boundary, or an error, which is that
it closed inside a frame, or nothing yet; if the carrier was not pending and everything was pushed,
an end and nothing yet mean that all accepted bytes have been read.  A flush that succeeds has pushed
everything, and on a carrier that takes bytes it succeeds; a write accepts what fits one frame. -/
theorem link_transparent (P : Primitives) (key : ObfuscationKey) (rng : Rng) (before : List Send)
    (ivv : U128) {s : LinkNet}
    (hs : Reach (LinkNet.step P) LinkNet.Quiet
      (LinkNet.init ((Phase.handshaked before ivv).cores P key rng).1
        ((Phase.handshaked before ivv).cores P key rng).2) s) :
    s.got <+: s.accepted ∧
      (∀ size as, 0 < size → (∀ a ∈ as, a ≠ CarrierRead.failed) →
        s.Told as (s.readResult P size as)) ∧
      ∀ as, QuietWrites s.carrier.closed as → s.Pushes P as := by
  have hinit : LinkNet.Inv P (LinkNet.init ((Phase.handshaked before ivv).cores P key rng).1
      ((Phase.handshaked before ivv).cores P key rng).2) :=
    ⟨[], [], Flow.init (Phase.cores_paired P key rng (.handshaked before ivv)).1, rfl⟩
  have hinv : s.Inv P := Reach.invariant hinit (fun h hq hstep => h.step hq hstep) hs
  refine ⟨?_, fun size as hsize hq => hinv.told hsize hq, fun as hq => hinv.pushes hq⟩
  obtain ⟨ws, ms, -, hbytes⟩ := hinv
  rw [hbytes, List.append_assoc]
  exact List.prefix_append _ _

/-- A link of the default key. -/
def sampleLink : LinkNet :=
  LinkNet.init ((Phase.handshaked [] 7).cores .sample .default (Stream'.const 0)).1
    ((Phase.handshaked [] 7).cores .sample .default (Stream'.const 0)).2

/-- A write of which the carrier takes two bytes, a flush, and a read into two bytes for which the
carrier is polled twice. -/
def partialRun : List LinkAct :=
  [.write [1, 2, 3, 4, 5] [.took 2, .pending], .flush [.took 100] (.ready (.ok ())),
    .read 2 [.gave 3, .gave 100]]

/-- Five bytes were accepted and flushed, two of them are read, and three wait in the reading half. -/
theorem link_transparent_partial :
    ∃ s, Reach (LinkNet.step .sample) LinkNet.Quiet sampleLink s ∧
      s.accepted = [1, 2, 3, 4, 5] ∧ s.got = [1, 2] ∧ s.writer.unsent = [] ∧
      s.reader.unserved = [3, 4, 5] ∧ s.got <+: s.accepted ∧
      s.Told [.gave 0] (s.readResult .sample 4 [.gave 0]) ∧ s.Pushes .sample [.took 9] := by
  have hrun : (exec (LinkNet.step .sample) LinkNet.Quiet sampleLink partialRun).map (fun s =>
      (s.carrier.closed, s.accepted, s.got, s.writer.unsent, s.reader.unserved))
      = some (false, [1, 2, 3, 4, 5], [1, 2], [], [3, 4, 5]) := by decide +kernel
  obtain ⟨s, he, hs⟩ := Option.map_eq_some_iff.1 hrun
  simp only [Prod.mk.injEq] at hs
  obtain ⟨hopen, hacc, hgot, hunsent, hunserved⟩ := hs
  have hr : Reach (LinkNet.step .sample) LinkNet.Quiet sampleLink s := Reach.refl.of_exec _ he
  obtain ⟨hfront, htold, hpushes⟩ := link_transparent .sample .default (Stream'.const 0) [] 7 hr
  refine ⟨s, hr, hacc, hgot, hunsent, hunserved, hfront,
    htold 4 [.gave 0] (by decide) (by decide), hpushes [.took 9] ?_⟩
  rw [hopen]
  decide

end Nextppp

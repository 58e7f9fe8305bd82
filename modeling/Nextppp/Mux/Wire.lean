/-
**A tunnel over bytes.**

`Nextppp/Mux/Peers.lean` lets the frames of a tunnel travel as frames: first in, first out, and cut off
behind some frame when the tunnel breaks.  What travels are bytes.  The writer encodes the frames in
batches, the carrier fails behind any byte and cuts what it delivers into reads of any size, and the
demux decodes, reassembles and parses.

This module closes the gap.  Whatever the batches, the failures and the reads are, the receiving loop
gets the first frames that were queued, each as it was, and then the end of the carrier.  It gets all of
them when the carrier does not fail and no frame is refused, and no frame of a run is refused: the
pumps cut what they read into chunks, and the target of an `OPEN` is short.

Main definitions:

* `Nextppp.FrameReader.frames` — the receiving loop of `run_reader` and `run_demux`;
* `Nextppp.Peers.Chunked` — the steps in which the pumps read chunks and the targets are addresses.

Main results:

* `Nextppp.wire_delivers` — the receiving loop gets a first part of what was queued;
* `Nextppp.Peers.frames_fit` — no frame of a run is refused by a carrier;
* `Nextppp.request_reaches_server` — the target of an `OPEN` is the one the application named.
-/

import Nextppp.Client.Socks5
import Nextppp.Mux.Protocol
import Nextppp.Mux.Writer

set_option relaxedAutoImplicit false
set_option autoImplicit false

namespace Nextppp

open Incremental

/-! ### The receiving loop -/

/-- Why the receiving loop of a tunnel ends. -/
inductive RecvEnd
  /-- a clean end of the carrier -/
  | closed
  /-- a read error, or bytes that cannot be decoded -/
  | failed (e : Error)
  /-- a message that is no mux frame -/
  | badFrame (e : MuxError)

/-- The loop of `run_reader` and of `run_demux` around `FrameReader::next`: the frames it gets in a
number of rounds, and why it ended, if it did. -/
def FrameReader.frames (P : Primitives) {w : Wire} :
    ℕ → FrameReader w → List (Except Error (List UInt8)) → List OutFrame × Option RecvEnd
  | 0, _, _ => ([], none)
  | n + 1, r, reads =>
      match r.next P reads with
      | .closed _ _ => ([], some .closed)
      | .failed e => ([], some (.failed e))
      | .message m wire buf reads' =>
          match parseFrame m with
          | .error e => ([], some (.badFrame e))
          | .ok (kind, stream, payload) =>
              let rest := FrameReader.frames P n ⟨wire, buf⟩ reads'
              (⟨kind, stream, payload⟩ :: rest.1, rest.2)

/-- A reader that returns the messages of some frames and then the end. -/
theorem FrameReader.frames_of_calls {P : Primitives} {w : Wire} (fs : List OutFrame)
    {r : FrameReader w} {reads reads' : List (Except Error (List UInt8))} {t t' : RxWire w}
    {buf buf' : List UInt8} {n : ℕ} (hn : fs.length < n)
    (hcalls : r.calls P fs.length reads = some (fs.map OutFrame.message, t, buf, reads'))
    (hclosed : FrameReader.next P ⟨t, buf⟩ reads' = .closed t' buf') :
    r.frames P n reads = (fs, some .closed) := by
  obtain ⟨n, rfl⟩ : ∃ m, n = m + 1 := ⟨n - 1, by omega⟩
  induction fs generalizing r reads n with
  | nil =>
      obtain ⟨rfl, rfl, rfl⟩ : r.wire = t ∧ r.buf = buf ∧ reads = reads' := by
        simpa [FrameReader.calls, Incremental.calls] using hcalls
      rw [FrameReader.frames, hclosed]
  | cons f fs ih =>
      rw [List.length_cons, FrameReader.calls, Incremental.calls] at hcalls
      split at hcalls
      · rename_i m t₁ buf₁ reads₁ hnext
        obtain ⟨⟨ms, rest⟩, hrest, heq⟩ := Option.map_eq_some_iff.1 hcalls
        obtain ⟨hms, rfl⟩ := Prod.mk.inj heq
        obtain ⟨rfl, rfl⟩ : m = f.message ∧ ms = fs.map OutFrame.message := by
          simpa using hms
        obtain ⟨n, rfl⟩ : ∃ m, n = m + 1 := ⟨n - 1, by rw [List.length_cons] at hn; omega⟩
        have hframes := ih (r := ⟨t₁, buf₁⟩) hrest n (by rw [List.length_cons] at hn; omega)
        have hparse : parseFrame f.message = .ok (f.kind, f.stream, f.payload) :=
          parseFrame_frameHeader f.kind f.stream f.payload
        rw [FrameReader.frames, FrameReader.next, hnext]
        dsimp only
        rw [hparse]
        dsimp only
        rw [hframes]
      · cases hcalls

/-! ### From the queue to the reads -/

variable {P : Primitives} {w : Wire}

/-- One frame that the carrier takes. -/
theorem InStep.fits {tx : TxWire w} {rx : RxStream w} (h : InStep w tx rx) {f : OutFrame}
    (hf : f.fits w = true) :
    ∃ bytes tx' rx', TxWire.encode P w tx f.header f.payload = (.ok bytes, tx') ∧
      (∀ rest, RxStream.read P w rx (bytes ++ rest) = .message f.message rx' rest) ∧
      InStep w tx' rx' := by
  have hlen : f.message.length ≤ w.limit := by simpa [OutFrame.fits] using hf
  cases w with
  | session => exact h.frame P hlen
  | lengthPrefixed =>
      obtain ⟨bytes, he, hread⟩ := prefixed_frame (frameHeader_length_pos f.kind f.stream) hlen
      refine ⟨bytes, tx, rx, ?_, hread, trivial⟩
      change (TxWire.encodePrefixed f.header f.payload, tx) = _
      rw [OutFrame.header, he]

/-- What is to be written is read as the frames before the first one that is rejected. -/
theorem InStep.framed_accepted (P : Primitives) (fs : List OutFrame) {tx : TxWire w}
    {rx : RxStream w} (h : InStep w tx rx) :
    ∃ rx', Framed (RxStream.read P w) rx (TxWire.encodeUpTo P w tx fs)
      ((fs.takeWhile (OutFrame.fits w)).map OutFrame.message) rx' := by
  induction fs generalizing tx rx with
  | nil => exact ⟨rx, Framed.nil rx⟩
  | cons f fs ih =>
      rw [TxWire.encodeUpTo, List.takeWhile_cons]
      cases hf : f.fits w with
      | true =>
          obtain ⟨bytes, tx', rx', he, hread, h'⟩ := h.fits (P := P) hf
          obtain ⟨rx'', hrest⟩ := ih h'
          rw [he]
          exact ⟨rx'', Framed.cons hread hrest⟩
      | false =>
          obtain ⟨e, tx', he⟩ := TxWire.encode_rejected (P := P) hf tx
          rw [he]
          exact ⟨rx, Framed.nil rx⟩

namespace TxWire

/-- The frames that the `try_recv` loop took are encoded behind the others. -/
theorem encodeUpTo_gather {wire wire' : TxWire w} {n : ℕ} {frames : List OutFrame}
    {arrived : Stream' Bool} {bytes : List UInt8}
    (h : encodeRun P w wire (gather n frames arrived).1 = some (bytes, wire')) :
    encodeUpTo P w wire frames = bytes ++ encodeUpTo P w wire' (gather n frames arrived).2.1 := by
  rw [← encodeUpTo_of_run h, gather_append]

/-- Whatever the timing and the carrier, nothing is written but a first part of what is to be
written. -/
theorem writerLoop_isPrefix (fuel : ℕ) (wire : TxWire w) (frames : List OutFrame)
    (arrived : Stream' Bool) (carrier : Stream' (Option ℕ)) :
    writerLoop P w fuel wire frames arrived carrier <+: encodeUpTo P w wire frames := by
  induction fuel generalizing wire frames arrived carrier with
  | zero => exact List.nil_prefix
  | succ fuel ih =>
      cases frames with
      | nil => exact List.nil_prefix
      | cons f frames =>
          rw [writerLoop, encodeUpTo]
          rcases henc : encode P w wire f.header f.payload with ⟨r, wire'⟩
          cases r with
          | error e => exact List.nil_prefix
          | ok bytes =>
              dsimp only
              have h := coalesce_eq (P := P) (writeBatch - 1) wire' bytes frames arrived
              cases hrun : encodeRun P w wire' (gather (writeBatch - 1) frames arrived).1 with
              | none =>
                  -- a frame of the batch is rejected, and the buffer is dropped
                  rw [hrun] at h
                  dsimp only at h
                  split
                  · exact List.nil_prefix
                  · rename_i hsome
                    rw [hsome] at h
                    cases h
              | some r =>
                  rw [hrun] at h
                  dsimp only at h
                  rw [h]
                  dsimp only
                  rw [encodeUpTo_gather hrun, ← List.append_assoc]
                  split
                  · exact (List.take_prefix _ _).trans (List.prefix_append _ _)
                  · exact (List.prefix_append_right_inj _).2 (ih _ _ _ _)

/-- Without a rejected frame no batch is cut short. -/
theorem rejectsAtStart_of_fits {bs : List (List OutFrame)}
    (h : ∀ b ∈ bs, ∀ f ∈ b, f.fits w = true) : RejectsAtStart w bs := by
  induction bs with
  | nil => trivial
  | cons b bs ih =>
      have hrest : RejectsAtStart w bs := ih fun b hb => h b (List.mem_cons_of_mem _ hb)
      cases b with
      | nil => exact hrest
      | cons f fs =>
          refine .inr ⟨List.all_eq_true.2 fun g hg => ?_, hrest⟩
          exact h (f :: fs) List.mem_cons_self g (List.mem_cons_of_mem _ hg)

/-- On a carrier that never fails, frames that all fit are all written. -/
theorem runWriter_of_fits {frames : List OutFrame} (h : ∀ f ∈ frames, f.fits w = true)
    (wire : TxWire w) (arrived : Stream' Bool) :
    runWriter P w wire frames arrived (Stream'.const none) = encodeUpTo P w wire frames := by
  have hflat : (batches frames arrived).flatten = frames := batchLoop_flatten _ _ _ le_rfl
  have hstart : RejectsAtStart w (batches frames arrived) := by
    refine rejectsAtStart_of_fits fun b hb f hf => h f ?_
    rw [← hflat]
    exact List.mem_flatten_of_mem hb hf
  rw [runWriter, writerLoop_batches]
  exact ((encodeBatches_eq_iff (P := P) wire _).2 hstart).trans (by rw [hflat])

end TxWire

/-! ### Frames that fit -/

/-- Read chunk for the local sockets of the pumps. -/
def streamChunk : ℕ := 16 * 1024

/-- A frame with at most a chunk of payload. -/
def OutFrame.Short (f : OutFrame) : Prop := f.payload.length ≤ streamChunk

/-- Both carriers take a short frame. -/
theorem OutFrame.Short.fits {f : OutFrame} (h : f.Short) (w : Wire) : f.fits w = true := by
  have hheader : f.header.length ≤ 6 := by
    have hlen := (encodeVarint_length f.stream).2
    rw [OutFrame.header, frameHeader, List.length_cons]
    omega
  have hlimit : 6 + streamChunk ≤ w.limit := by cases w <;> decide
  have hpayload : f.payload.length ≤ streamChunk := h
  rw [OutFrame.fits, OutFrame.message, List.length_append]
  exact decide_eq_true (by omega)

/-- The encoding of an address is short. -/
theorem ProxyAddr.encode_length_le {addr : ProxyAddr} (h : addr.host.Valid) :
    addr.encode.length ≤ 259 := by
  have hport : (portBytes addr.port).length = 2 := rfl
  rw [encode_eq h, List.length_cons, List.length_append, hport]
  cases hhost : addr.host with
  | domain d =>
      rw [hhost] at h
      have hlen := h.2.1
      rw [Host.body, List.length_cons]
      omega
  | ipv4 octets =>
      rw [hhost] at h
      have hlen : octets.length = 4 := h
      rw [Host.body]
      omega
  | ipv6 octets =>
      rw [hhost] at h
      have hlen : octets.length = 16 := h
      rw [Host.body]
      omega

/-! ### The tunnel -/

/-- Of what is to be written for a queue, the receiving loop gets the frames that are whole. -/
theorem frames_received (P : Primitives) {tx : TxWire w} {rx : RxStream w} (h : InStep w tx rx)
    (fs : List OutFrame) {chunks : List (List UInt8)} (hne : ∀ c ∈ chunks, c ≠ [])
    (hcut : chunks.flatten <+: TxWire.encodeUpTo P w tx fs) :
    ∃ k ≤ fs.length,
      (FrameReader.new rx).frames P (fs.length + 1) (chunks.map .ok)
        = (fs.take k, some .closed) ∧
      ((∀ f ∈ fs, f.fits w = true) → chunks.flatten = TxWire.encodeUpTo P w tx fs →
        k = fs.length) := by
  obtain ⟨rx', hframed⟩ := h.framed_accepted P fs
  obtain ⟨k, t, buf, reads, t', buf', hk, hcalls, hclosed, hall⟩ :=
    calls_cut (RxWire.framing P w) Error.invalidFrame hframed hne
      (by rwa [List.nil_append])
  rw [RxWire.link_fresh] at hcalls
  rw [List.length_map] at hk hall
  have hlen := (List.takeWhile_prefix (OutFrame.fits w) (l := fs)).length_le
  -- the frames that were accepted are the first ones of the queue
  have htake : (fs.takeWhile (OutFrame.fits w)).take k = fs.take k := by
    have hpre := (List.take_prefix k _).trans (List.takeWhile_prefix (OutFrame.fits w) (l := fs))
    rw [List.prefix_iff_eq_take.1 hpre, List.length_take_of_le hk]
  have hcount : (fs.take k).length = k := List.length_take_of_le (hk.trans hlen)
  refine ⟨k, hk.trans hlen, ?_, ?_⟩
  · refine FrameReader.frames_of_calls (fs.take k) (by omega) ?_ hclosed
    rw [hcount, ← htake, List.map_take]
    exact hcalls
  · intro hfits hdone
    rw [hall (by rw [List.nil_append, hdone])]
    exact congrArg List.length (List.takeWhile_eq_self_iff.2 hfits)

/-- **A tunnel over bytes is a queue of frames.**  For every queue of frames, every timing of the
writer, every carrier, and whatever part of what was written arrives in whatever reads, the receiving
loop gets the first frames of the queue, each as it was queued, and ends with the end of the carrier.
On a carrier that never fails and delivers everything, it gets all frames if all of them fit. -/
theorem wire_delivers (P : Primitives) (w : Wire) (tx : TxWire w) (rx : RxStream w)
    (hm : Matching P w tx rx) (fs : List OutFrame) (arrived : Stream' Bool)
    (carrier : Stream' (Option ℕ)) (chunks : List (List UInt8)) (hne : ∀ c ∈ chunks, c ≠ [])
    (hcut : chunks.flatten <+: TxWire.runWriter P w tx fs arrived carrier) :
    ∃ k ≤ fs.length,
      (FrameReader.new rx).frames P (fs.length + 1) (chunks.map .ok)
        = (fs.take k, some .closed) ∧
      (carrier = Stream'.const none → (∀ f ∈ fs, f.fits w = true) →
        chunks.flatten = TxWire.runWriter P w tx fs arrived carrier → k = fs.length) := by
  have hpart : chunks.flatten <+: TxWire.encodeUpTo P w tx fs :=
    hcut.trans (TxWire.writerLoop_isPrefix _ _ _ _ _)
  obtain ⟨k, hk, hframes, hall⟩ := frames_received P hm.inStep fs hne hpart
  refine ⟨k, hk, hframes, ?_⟩
  rintro rfl hfits hdone
  exact hall hfits (hdone.trans (TxWire.runWriter_of_fits hfits tx arrived))

/-- Two frames over a prefixed carrier that breaks inside the second one. -/
theorem wire_delivers_cut :
    ∃ k ≤ 2, (FrameReader.new (w := .lengthPrefixed) ()).frames .sample 3
        ([[4, 2, 1], [7, 8, 3]].map .ok)
      = ([(⟨.data, 1, [7, 8]⟩ : OutFrame), ⟨.eof, 300, []⟩].take k, some .closed) :=
  have ⟨k, hk, hframes, _⟩ := wire_delivers .sample .lengthPrefixed () () trivial
    [⟨.data, 1, [7, 8]⟩, ⟨.eof, 300, []⟩] (Stream'.const true) (Stream'.const (some 7))
    [[4, 2, 1], [7, 8, 3]] (by decide) (by decide)
  ⟨k, hk, hframes⟩

/-- **The target of an `OPEN` is the one the application named.**  When the SOCKS5 dialogue with an
application ends in an address, the bytes of that address go out as they came, and on a carrier that
delivers everything the demux of the server gets an `OPEN` at its place in the queue, whose payload is
these bytes and for which it starts a task with that address. -/
theorem request_reaches_server (P : Primitives) (w : Wire) (tx : TxWire w) (rx : RxStream w)
    (hm : Matching P w tx rx) {ending : Socks5.ReadError} {stream out rest : List UInt8}
    {addr : ProxyAddr} (h : Socks5.readConnect ending (.ok ()) stream = (out, .ok (addr, rest)))
    (sid : StreamId) (before after : List OutFrame) (hbefore : ∀ f ∈ before, f.fits w = true)
    (hafter : ∀ f ∈ after, f.fits w = true) (arrived : Stream' Bool) {chunks : List (List UInt8)}
    (hne : ∀ c ∈ chunks, c ≠ [])
    (hall : chunks.flatten = TxWire.runWriter P w tx (before ++ ⟨.open, sid, addr.encode⟩ :: after)
      arrived (Stream'.const none)) :
    ∃ greeting payload got n, stream = greeting ++ (payload ++ rest) ∧
      (FrameReader.new rx).frames P n (chunks.map .ok) = (got, some .closed) ∧
      got[before.length]? = some ⟨.open, sid, payload⟩ ∧
      ∀ rt d, d.pc = .opening sid payload →
        ∃ d', Demux.act rt d .openInsert = some (d', [⟨sid, addr, .connecting, true⟩]) := by
  obtain ⟨-, -, hvalid, n, methods, -, -, rfl⟩ := Socks5.readConnect_eq_ok.1 h
  have hshort : OutFrame.Short ⟨.open, sid, addr.encode⟩ :=
    (ProxyAddr.encode_length_le hvalid).trans (by decide)
  have hfits : ∀ f ∈ before ++ ⟨.open, sid, addr.encode⟩ :: after, f.fits w = true := by
    intro f hf
    rcases List.mem_append.1 hf with hf | hf
    · exact hbefore f hf
    · rcases List.mem_cons.1 hf with rfl | hf
      · exact hshort.fits w
      · exact hafter f hf
  rw [TxWire.runWriter_of_fits hfits] at hall
  obtain ⟨k, -, hframes, hk⟩ := frames_received P hm.inStep _ hne (by rw [hall])
  refine ⟨Socks5.ver :: n :: (methods ++ [Socks5.ver, Socks5.cmdConnect, 0]), addr.encode, _, _,
    by simp, hframes, ?_, ?_⟩
  · rw [hk hfits hall, List.take_length, List.getElem?_append_right le_rfl, Nat.sub_self]
    rfl
  · intro rt d hd
    simp only [Demux.act, hd, ProxyAddr.decode_eq_ok.2 ⟨hvalid, rfl⟩]
    exact ⟨_, rfl⟩

/-- The request for a domain name, over a prefixed carrier that cuts it in two. -/
theorem request_reaches_server_domain :
    ∃ greeting payload got n,
      ([5, 1, 0, 5, 1, 0, 3, 2, 97, 98, 1, 187, 22] : List UInt8) = greeting ++ (payload ++ [22]) ∧
      (FrameReader.new (w := .lengthPrefixed) ()).frames .sample n
          ([[8, 0, 1], [3, 2, 97, 98, 1, 187]].map .ok) = (got, some .closed) ∧
      got[0]? = some ⟨.open, 1, payload⟩ ∧
      ∀ rt d, d.pc = .opening 1 payload → ∃ d', Demux.act rt d .openInsert
        = some (d', [⟨1, ⟨.domain [97, 98], 443⟩, .connecting, true⟩]) := by
  have hdecode : ProxyAddr.decode [3, 2, 97, 98, 1, 187] = .ok ⟨.domain [97, 98], 443⟩ := by decide
  have hread : Socks5.readConnect .unexpectedEof (.ok ()) [5, 1, 0, 5, 1, 0, 3, 2, 97, 98, 1, 187, 22]
      = ([5, 0], .ok (⟨.domain [97, 98], 443⟩, [22])) :=
    Socks5.readConnect_eq_ok.2 ⟨rfl, rfl, (ProxyAddr.decode_eq_ok.1 hdecode).1, 1, [0], rfl, by decide,
      by decide⟩
  exact request_reaches_server .sample .lengthPrefixed () () trivial hread 1 [] [] (by simp) (by simp)
    (Stream'.const true) (by decide) (by decide)

/-! ### What the ends queue -/

open Tasks Run Gate

/-- Every frame of the channel after a step is short if every frame before it was. -/
theorem Channel.short_push {out : Channel OutFrame} {f : OutFrame} (hf : f.Short)
    (h : ∀ g ∈ out.queue, g.Short) : ∀ g ∈ (out.push f).queue, g.Short := by
  intro g hg
  rcases List.mem_append.1 hg with hold | hnew
  · exact h g hold
  · rwa [List.mem_singleton.1 hnew]

theorem Channel.short_trySend {out : Channel OutFrame} {f : OutFrame} {bound : ℕ} (hf : f.Short)
    (h : ∀ g ∈ out.queue, g.Short) : ∀ g ∈ (out.trySend bound f).queue, g.Short := by
  unfold Channel.trySend
  split
  · exact Channel.short_push hf h
  · exact h

theorem OutFrame.short_bare (kind : FrameKind) (sid : StreamId) : (OutFrame.bare kind sid).Short :=
  Nat.zero_le _

/-- What an end emits, other than the events of a stream. -/
theorem Emits.short {frames : OutFrame → Prop} {streams : StreamId → StreamEvent → Prop}
    {out out' : Channel OutFrame} {q q' : StreamId → List StreamEvent} {c : Carry}
    (he : Emits frames streams out q c out' q') (hq : q' = q) (hf : ∀ f, frames f → f.Short)
    (h : ∀ g ∈ out.queue, g.Short) : ∀ g ∈ out'.queue, g.Short := by
  cases he with
  | quiet => exact h
  | push f hframe => exact Channel.short_push (hf f hframe) h
  | send f sid e =>
      have hlen := congrArg List.length (congrFun hq sid)
      simp at hlen
  | write f rest hqueue =>
      intro g hg
      exact h g (by rw [hqueue]; exact List.mem_cons_of_mem _ hg)
  | lose =>
      intro g hg
      cases hg

/-- A pump reads at most a chunk. -/
def PumpStep.chunk : PumpStep → Bool
  | .data payload => payload.length ≤ streamChunk
  | _ => true

theorem pumpStream_short {sid : StreamId} {p q : Pump} {e : PumpStep}
    (hstep : pumpStream sid p e = some q) (he : e.chunk = true)
    (h : ∀ g ∈ p.out.queue, g.Short) : ∀ g ∈ q.out.queue, g.Short := by
  cases e with
  | data payload =>
      obtain ⟨-, ⟨⟩⟩ := Option.ite_none_right_eq_some.1 hstep
      have hlen : payload.length ≤ streamChunk := of_decide_eq_true he
      exact Channel.short_push hlen h
  | eof =>
      obtain ⟨-, ⟨⟩⟩ := Option.ite_none_right_eq_some.1 hstep
      exact Channel.short_push (OutFrame.short_bare _ _) h
  | close towards =>
      cases towards with
      | true =>
          obtain ⟨-, ⟨⟩⟩ := Option.ite_none_right_eq_some.1 hstep
          exact Channel.short_trySend (OutFrame.short_bare _ _) h
      | false =>
          obtain rfl := Option.some.inj hstep
          exact Channel.short_trySend (OutFrame.short_bare _ _) h
  | upEnds =>
      obtain rfl := Option.some.inj hstep
      exact h
  | downEnds =>
      obtain rfl := Option.some.inj hstep
      exact h
  | recv =>
      simp only [pumpStream] at hstep
      split at hstep
      · obtain rfl := Option.some.inj hstep
        exact h
      · obtain rfl := Option.some.inj hstep
        exact h
      · cases hstep

/-- What the writer took and what is under way comes from the path. -/
theorem Transit.short_sent {x x' : Transit} {out out' : Channel OutFrame} {c : Carry}
    (hx : x.sent out c = some x') (hpath : ∀ f ∈ x.path out, f.Short)
    (hout : (∀ g ∈ out.queue, g.Short) → ∀ g ∈ out'.queue, g.Short) :
    ∀ f ∈ x'.path out', f.Short := by
  have hqueue := hout fun g hg => hpath g (List.mem_append_right _ hg)
  have hparts : ∀ f, f ∈ x'.flight ∨ f ∈ x'.batch → f ∈ x.path out := by
    intro f hf
    unfold Transit.sent at hx
    unfold Transit.path
    split at hx
    · obtain ⟨-, ⟨⟩⟩ := Option.ite_none_right_eq_some.1 hx
      rcases hf with hf | hf
      · simp [hf]
      · rcases List.mem_append.1 hf with hf | hf
        · simp [hf]
        · exact List.mem_append_right _ (List.mem_of_mem_take hf)
    · obtain rfl := Option.some.inj hx
      rcases hf with hf | hf
      · simp [hf]
      · cases hf
    · obtain rfl := Option.some.inj hx
      rcases hf with hf | hf <;> simp [hf]
  intro f hf
  rcases List.mem_append.1 hf with hf | hf
  · exact hpath f (hparts f (List.mem_append.1 hf))
  · exact hqueue f hf

namespace Peers

/-- The pumps read chunks, and a call of `open` is given an address. -/
def chunked : Step → Bool
  | .client (.main (.call target)) => (ProxyAddr.decode target).isOk
  | .client (.task _ (.pump e)) => e.chunk
  | .server (.task _ (.pump e)) => e.chunk
  | _ => true

/-- The steps that the two programs make. -/
def Chunked (_ : Peers) (a : Step) : Prop := chunked a = true

instance (s : Peers) (a : Step) : Decidable (Chunked s a) :=
  inferInstanceAs (Decidable (chunked a = true))

/-- Every frame under way and every target is short. -/
structure AllShort (s : Peers) : Prop where
  targets : ∀ c ∈ s.client.tasks, c.target.length ≤ streamChunk
  up : ∀ f ∈ s.upPath, f.Short
  down : ∀ f ∈ s.downPath, f.Short

end Peers

/-- The target of a call is what the call was given. -/
theorem Tunnel.callStep_target {i : ℕ} {t : Tunnel} {c : Tunnel.Call} {e : Tunnel.CallStep}
    {r : Tunnel × Tunnel.Call} (h : Tunnel.callStep i t c e = some r) : r.2.target = c.target := by
  unfold Tunnel.callStep at h
  split at h
  all_goals try split at h
  all_goals try split at h
  all_goals
    first
    | (obtain rfl := Option.some.inj h; rfl)
    | (obtain ⟨_, _, rfl⟩ := Option.map_eq_some_iff.1 h; rfl)
    | cases h

/-- Only a call of `open` adds a call, with the target it is given. -/
theorem Tunnel.act_target {t : Tunnel} {a : Tunnel.Step} {r : Tunnel × List Tunnel.Call}
    (h : Tunnel.act t a = some r) {c : Tunnel.Call} (hc : c ∈ r.2) : a = .call c.target := by
  unfold Tunnel.act at h
  split at h
  case h_1 target =>
      obtain rfl := Option.some.inj h
      rw [List.mem_singleton.1 hc]
  all_goals try split at h
  all_goals try split at h
  all_goals try split at h
  all_goals
    first
    | (obtain rfl := Option.some.inj h; cases hc)
    | cases h

namespace Tunnel

variable {s s' : State} {x : Action}

/-- A step of the client queues short frames only. -/
theorem step_short (hs : step s x = some s') (hx : Peers.chunked (.client x) = true)
    (htargets : ∀ c ∈ s.tasks, c.target.length ≤ streamChunk)
    (h : ∀ g ∈ s.shared.out.queue, g.Short) : ∀ g ∈ s'.shared.out.queue, g.Short := by
  obtain ⟨a, r, rfl, hr, rfl⟩ | ⟨i, e, c, r, rfl, hc, hr, rfl⟩ := step_cases hs
  · have hemits : Emits OutFrame.Short (fun _ _ => True) s.shared.out (fun _ => []) _ r.1.out
        (fun _ => []) := act_emits hr fun _ => OutFrame.short_bare _ _
    exact hemits.short rfl (fun _ hf => hf) h
  · have hopen : OutFrame.Short ⟨.open, c.sid, c.target⟩ :=
      htargets c (List.mem_of_getElem? hc)
    have hemits : Emits OutFrame.Short (fun _ _ => True) s.shared.out _ .none r.1.out _ :=
      callStep_emits (h := History.empty) hr (fun _ => OutFrame.short_bare _ _) (fun _ _ => hopen)
        (fun _ _ => trivial)
    cases e with
    | pump e =>
        unfold callStep at hr
        split at hr
        case h_18 e' _ he =>
            cases he
            obtain ⟨p, hp, rfl⟩ := Option.map_eq_some_iff.1 hr
            exact pumpStream_short hp hx h
        case h_19 => cases hr
        all_goals
          rename_i he
          cases he
    | _ => exact hemits.short rfl (fun _ hf => hf) h

end Tunnel

namespace Demux

variable {rt : ServerRuntime} {s s' : State} {x : Action}

/-- A step of the server queues short frames only. -/
theorem step_short (hs : step rt s x = some s') (hx : Peers.chunked (.server x) = true)
    (h : ∀ g ∈ s.shared.out.queue, g.Short) : ∀ g ∈ s'.shared.out.queue, g.Short := by
  have hreply : ∀ sid b, OutFrame.Short ⟨.reply, sid, [b]⟩ :=
    fun _ _ => show 1 ≤ streamChunk by decide
  obtain ⟨a, r, rfl, hr, rfl⟩ | ⟨i, e, c, r, rfl, hc, hr, rfl⟩ := step_cases hs
  · have hemits : Emits OutFrame.Short (fun _ _ => True) s.shared.out (fun _ => []) _ r.1.out
        (fun _ => []) := act_emits hr fun _ => OutFrame.short_bare _ _
    exact hemits.short rfl (fun _ hf => hf) h
  · unfold handleStream at hr
    split at hr
    case h_3 =>
        split at hr
        · obtain rfl := Option.some.inj hr
          exact h
        · obtain ⟨-, ⟨⟩⟩ := Option.ite_none_right_eq_some.1 hr
          exact Channel.short_push (hreply _ _) h
    case h_4 =>
        split at hr
        · obtain rfl := Option.some.inj hr
          exact h
        · obtain ⟨-, ⟨⟩⟩ := Option.ite_none_right_eq_some.1 hr
          exact Channel.short_push (hreply _ _) h
    case h_5 =>
        obtain ⟨p, hp, rfl⟩ := Option.map_eq_some_iff.1 hr
        exact pumpStream_short hp hx h
    case h_8 => cases hr
    all_goals
      obtain rfl := Option.some.inj hr
      exact h

end Demux

namespace Peers

variable {rt : ServerRuntime} {s s' : Peers} {a : Step}

theorem AllShort.step (h : AllShort s) (ha : Chunked s a) (hs : step rt s a = some s') :
    AllShort s' := by
  obtain ⟨x, c, up, down, rfl, _, hc, hup, hdown, rfl⟩ | ⟨x, d, up, down, rfl, hd, hdown, hup, rfl⟩ |
    ⟨n, _, rfl⟩ | ⟨n, _, rfl⟩ := step_cases hs
  · refine ⟨?_, Transit.short_sent hup h.up (Tunnel.step_short hc ha h.targets),
      fun f hf => h.down f (mem_got hdown _ hf)⟩
    obtain ⟨y, r, rfl, hr, rfl⟩ | ⟨i, e, d, r, rfl, hd, hr, rfl⟩ := Tasks.step_cases hc
    · intro d hd
      rcases List.mem_append.1 hd with hold | hnew
      · exact h.targets d hold
      · obtain rfl := Tunnel.act_target hr hnew
        have hdecode : (ProxyAddr.decode d.target).isOk = true := ha
        cases haddr : ProxyAddr.decode d.target with
        | error e => simp [haddr, Except.isOk, Except.toBool] at hdecode
        | ok addr =>
            obtain ⟨hvalid, htarget⟩ := ProxyAddr.decode_eq_ok.1 haddr
            rw [htarget]
            exact (ProxyAddr.encode_length_le hvalid).trans (by decide)
    · intro d' hd'
      rcases List.mem_or_eq_of_mem_set hd' with hold | rfl
      · exact h.targets d' hold
      · rw [Tunnel.callStep_target hr]
        exact h.targets d (List.mem_of_getElem? hd)
  · exact ⟨h.targets, fun f hf => h.up f (mem_got hup _ hf),
      Transit.short_sent hdown h.down (Demux.step_short hd ha)⟩
  · refine ⟨h.targets, fun f hf => h.up f ?_, h.down⟩
    rwa [upPath, Transit.flush_path] at hf
  · refine ⟨h.targets, h.up, fun f hf => h.down f ?_⟩
    rwa [downPath, Transit.flush_path] at hf

/-- **No frame of a run is refused.**  Whatever is queued, taken by a writer or under way in a state
that is reached, in either direction, both carriers take it. -/
theorem frames_fit (rt : ServerRuntime) (pool : Bool) {s : Peers}
    (h : Reach (step rt) Chunked (init pool) s) :
    ∀ f ∈ s.upPath ++ s.downPath, ∀ w, f.fits w = true := by
  have hnew : AllShort (init pool) := by
    refine ⟨?_, ?_, ?_⟩ <;> simp [init, Tunnel.init, Demux.init, upPath, downPath, Transit.path,
      Transit.empty, Tunnel.spawn, Demux.new, Channel.new]
  have hshort : AllShort s := Reach.invariant hnew (fun hI ha hs => hI.step ha hs) h
  intro f hf w
  rcases List.mem_append.1 hf with hf | hf
  · exact (hshort.up f hf).fits w
  · exact (hshort.down f hf).fits w

/-- A chunk is under way behind the reply to an `OPEN`. -/
theorem frames_fit_chunk :
    ∃ s, Reach (step (limited 1)) Chunked (init true) s ∧ s.upPath ≠ [] ∧
      ∀ f ∈ s.upPath ++ s.downPath, ∀ w, f.fits w = true := by
  obtain ⟨s, he, hpath⟩ : ∃ s, exec (step (limited 1)) Chunked (init true)
      (openUp 0 1 ++ acceptStream 0 0 1 ++ [.client (.task 0 (.pump (.data [7, 8])))]) = some s ∧
      s.upPath ≠ [] := ⟨_, rfl, by decide⟩
  have h := Reach.refl.of_exec _ he
  exact ⟨s, h, hpath, frames_fit (limited 1) true h⟩

end Peers

end Nextppp

/-
**The tunnel writer `run_writer` of `tunnel.rs`.**

The writer takes frames off its queue, encodes a backlog of up to `WRITE_BATCH` of them into one
buffer and writes the buffer.  How the queue is cut into batches depends on when the frames arrive:
`try_recv` answers with the next frame exactly when it is there already.  The timing is a sequence of
answers, one for each `try_recv`, and a statement about all sequences is one about every timing.

What the carrier receives should not depend on the cut.  It does: a frame that cannot be encoded ends
the writer at once, and the frames of the same batch in front of it are encoded but never written.

Main definitions:

* `Nextppp.TxWire.runWriter` — the bytes that reach the carrier;
* `Nextppp.batches` — how a timing cuts the queue;
* `Nextppp.TxWire.encodeUpTo` — the encodings of the frames before the first one rejected;
* `Nextppp.RejectsAtStart` — the first rejected frame is the first of its batch.

Main results:

* `Nextppp.TxWire.runWriter_batches` — the writer writes the batches in front of the first one with a
  rejected frame;
* `Nextppp.TxWire.batching_invisible_iff` — batching is invisible exactly when no frame is rejected or
  the first rejected one starts its batch.
-/

import Nextppp.Core.Frames
import Nextppp.Mux.Carrier

set_option relaxedAutoImplicit false
set_option autoImplicit false

namespace Nextppp

namespace TxWire

variable (P : Primitives) (w : Wire)

/-! ### The writer -/

/-- The `try_recv` loop: up to `n` more frames are encoded into the buffer.  The buffer and the wire
are missing when a frame is rejected; next to them what is left of the queue and of the timing. -/
def coalesce : ℕ → TxWire w → List UInt8 → List OutFrame → Stream' Bool →
    Option (List UInt8 × TxWire w) × List OutFrame × Stream' Bool
  | 0, wire, out, frames, arrived => (some (out, wire), frames, arrived)
  | _ + 1, wire, out, [], arrived => (some (out, wire), [], arrived)
  | n + 1, wire, out, f :: frames, arrived =>
      if arrived.head then
        match encode P w wire f.header f.payload with
        | (.error _, _) => (none, frames, arrived.tail)
        | (.ok bytes, wire') => coalesce n wire' (out ++ bytes) frames arrived.tail
      else (some (out, wire), f :: frames, arrived.tail)

/-- The loop of the writer over everything that is ever queued: the bytes that reach the carrier
until the writer stops.  The carrier answers each write and flush: success, or failure behind some of
the bytes. -/
def writerLoop : ℕ → TxWire w → List OutFrame → Stream' Bool → Stream' (Option ℕ) → List UInt8
  | 0, _, _, _, _ => []
  | _ + 1, _, [], _, _ => []
  | fuel + 1, wire, f :: frames, arrived, carrier =>
      match encode P w wire f.header f.payload with
      | (.error _, _) => []
      | (.ok bytes, wire') =>
          match coalesce P w (writeBatch - 1) wire' bytes frames arrived with
          -- the frames encoded so far are in the buffer, and the buffer is dropped
          | (none, _, _) => []
          | (some (out, wire''), rest, arrived') =>
              match carrier.head with
              | some n => out.take n
              | none => out ++ writerLoop fuel wire'' rest arrived' carrier.tail

/-- `run_writer`: every batch takes at least one frame off the queue. -/
def runWriter (wire : TxWire w) (frames : List OutFrame) (arrived : Stream' Bool)
    (carrier : Stream' (Option ℕ)) : List UInt8 :=
  writerLoop P w frames.length wire frames arrived carrier

/-! ### What is to be written -/

/-- The encodings of the frames before the first one that is rejected. -/
def encodeUpTo : TxWire w → List OutFrame → List UInt8
  | _, [] => []
  | wire, f :: frames =>
      match encode P w wire f.header f.payload with
      | (.error _, _) => []
      | (.ok bytes, wire') => bytes ++ encodeUpTo wire' frames

/-- The encodings of some frames and the wire behind them, unless one is rejected. -/
def encodeRun : TxWire w → List OutFrame → Option (List UInt8 × TxWire w)
  | wire, [] => some ([], wire)
  | wire, f :: frames =>
      match encode P w wire f.header f.payload with
      | (.error _, _) => none
      | (.ok bytes, wire') => (encodeRun wire' frames).map fun r => (bytes ++ r.1, r.2)

/-- The batches in front of the first one with a rejected frame. -/
def encodeBatches : TxWire w → List (List OutFrame) → List UInt8
  | _, [] => []
  | wire, b :: bs =>
      match encodeRun P w wire b with
      | none => []
      | some (bytes, wire') => bytes ++ encodeBatches wire' bs

end TxWire

/-! ### Batches -/

/-- The frames that the `try_recv` loop takes, and what is left of the queue and of the timing. -/
def gather : ℕ → List OutFrame → Stream' Bool → List OutFrame × List OutFrame × Stream' Bool
  | 0, frames, arrived => ([], frames, arrived)
  | _ + 1, [], arrived => ([], [], arrived)
  | n + 1, f :: frames, arrived =>
      if arrived.head then
        let r := gather n frames arrived.tail
        (f :: r.1, r.2)
      else ([], f :: frames, arrived.tail)

/-- How a timing cuts the queue into batches. -/
def batchLoop : ℕ → List OutFrame → Stream' Bool → List (List OutFrame)
  | 0, _, _ => []
  | _ + 1, [], _ => []
  | fuel + 1, f :: frames, arrived =>
      let r := gather (writeBatch - 1) frames arrived
      (f :: r.1) :: batchLoop fuel r.2.1 r.2.2

/-- The batches of a queue. -/
def batches (frames : List OutFrame) (arrived : Stream' Bool) : List (List OutFrame) :=
  batchLoop frames.length frames arrived

theorem gather_append (n : ℕ) (frames : List OutFrame) (arrived : Stream' Bool) :
    (gather n frames arrived).1 ++ (gather n frames arrived).2.1 = frames := by
  induction n generalizing frames arrived with
  | zero => rfl
  | succ n ih =>
      cases frames with
      | nil => rfl
      | cons f frames =>
          rw [gather]
          split
          · exact congrArg (f :: ·) (ih frames arrived.tail)
          · rfl

theorem gather_rest_length (n : ℕ) (frames : List OutFrame) (arrived : Stream' Bool) :
    (gather n frames arrived).2.1.length ≤ frames.length := by
  conv => rhs; rw [← gather_append n frames arrived]
  rw [List.length_append]
  omega

/-- The batches make up the queue. -/
theorem batchLoop_flatten (fuel : ℕ) (frames : List OutFrame) (arrived : Stream' Bool)
    (h : frames.length ≤ fuel) : (batchLoop fuel frames arrived).flatten = frames := by
  induction fuel generalizing frames arrived with
  | zero =>
      rw [List.length_eq_zero_iff.1 (Nat.le_zero.1 h)]
      rfl
  | succ fuel ih =>
      cases frames with
      | nil => rfl
      | cons f frames =>
          have hrest := (gather_rest_length (writeBatch - 1) frames arrived).trans
            (Nat.le_of_succ_le_succ h)
          rw [batchLoop, List.flatten_cons, ih _ _ hrest, List.cons_append, gather_append]

/-- The largest mux message a carrier takes. -/
def Wire.limit : Wire → ℕ
  | .session => pppBufferSize
  | .lengthPrefixed => prefixMaxFrame

/-- Whether the carrier takes a frame. -/
def OutFrame.fits (w : Wire) (f : OutFrame) : Bool := f.message.length ≤ w.limit

/-- No batch is cut short by a rejected frame in its middle: the first batch with a rejected frame,
if there is one, starts with it. -/
def RejectsAtStart (w : Wire) : List (List OutFrame) → Prop
  | [] => True
  | [] :: bs => RejectsAtStart w bs
  | (f :: fs) :: bs => f.fits w = false ∨ (fs.all (OutFrame.fits w) = true ∧ RejectsAtStart w bs)

namespace TxWire

variable {P : Primitives} {w : Wire}

/-! ### What is rejected -/

theorem encode_fits {f : OutFrame} (h : f.fits w = true) (wire : TxWire w) :
    ∃ bytes wire', encode P w wire f.header f.payload = (.ok bytes, wire') ∧ bytes ≠ [] := by
  have hpos : 0 < f.header.length := frameHeader_length_pos _ _
  have hlen : f.header.length + f.payload.length ≤ w.limit := by
    simpa [OutFrame.fits, OutFrame.message] using h
  cases w with
  | session =>
      obtain ⟨bytes, tx', henc, hne, -⟩ := TxCore.encryptOnto_legal P wire [] f.header f.payload
        (by omega) (by rw [Nat.add_comm]; exact hlen)
      exact ⟨bytes, tx', henc, hne⟩
  | lengthPrefixed =>
      refine ⟨encodeVarint (UInt32.ofNat (f.header.length + f.payload.length)) ++
        (f.header ++ f.payload), wire, ?_, ?_⟩
      · have hmax : ¬ prefixMaxFrame < f.header.length + f.payload.length := Nat.not_lt.2 hlen
        rw [encode, encodePrefixed, if_neg (by omega), if_neg hmax]
      · exact List.append_ne_nil_of_right_ne_nil _ (List.append_ne_nil_of_left_ne_nil
          (List.ne_nil_of_length_pos hpos) _)

theorem encode_rejected {f : OutFrame} (h : f.fits w = false) (wire : TxWire w) :
    ∃ e wire', encode P w wire f.header f.payload = (.error e, wire') := by
  have hpos : 0 < f.header.length := frameHeader_length_pos _ _
  have hlen : w.limit < f.header.length + f.payload.length := by
    simpa [OutFrame.fits, OutFrame.message] using h
  cases w with
  | session =>
      obtain ⟨e, henc⟩ := TxCore.encryptImpl_illegal P wire f.header f.payload (by
        rw [List.length_append]
        exact fun h' => absurd hlen (Nat.not_lt.2 h'.2))
      exact ⟨e, wire, henc⟩
  | lengthPrefixed =>
      refine ⟨.frameTooLarge (f.header.length + f.payload.length), wire, ?_⟩
      have hmax : prefixMaxFrame < f.header.length + f.payload.length := hlen
      rw [encode, encodePrefixed, if_neg (by omega), if_pos hmax]

theorem encodeRun_isSome (wire : TxWire w) (frames : List OutFrame) :
    (encodeRun P w wire frames).isSome = frames.all (OutFrame.fits w) := by
  induction frames generalizing wire with
  | nil => rfl
  | cons f frames ih =>
      cases hf : f.fits w with
      | true =>
          obtain ⟨bytes, wire', henc, -⟩ := encode_fits (P := P) hf wire
          rw [encodeRun, henc]
          simp [hf, ih]
      | false =>
          obtain ⟨e, wire', henc⟩ := encode_rejected (P := P) hf wire
          rw [encodeRun, henc]
          simp [hf]

/-! ### The writer against its batches -/

theorem coalesce_eq (n : ℕ) (wire : TxWire w) (out : List UInt8) (frames : List OutFrame)
    (arrived : Stream' Bool) :
    match encodeRun P w wire (gather n frames arrived).1 with
    | none => (coalesce P w n wire out frames arrived).1 = none
    | some (bytes, wire') => coalesce P w n wire out frames arrived =
        (some (out ++ bytes, wire'), (gather n frames arrived).2) := by
  induction n generalizing wire out frames arrived with
  | zero => simp [gather, encodeRun, coalesce]
  | succ n ih =>
      cases frames with
      | nil => simp [gather, encodeRun, coalesce]
      | cons f frames =>
          rw [gather, coalesce]
          cases hhead : arrived.head with
          | false => simp [encodeRun]
          | true =>
              simp only [if_true]
              rw [encodeRun]
              rcases henc : encode P w wire f.header f.payload with ⟨r, wire'⟩
              cases r with
              | error e => rfl
              | ok bytes =>
                  dsimp only
                  have h := ih wire' (out ++ bytes) frames arrived.tail
                  cases hrun : encodeRun P w wire' (gather n frames arrived.tail).1 with
                  | none =>
                      rw [hrun] at h
                      exact h
                  | some r =>
                      rw [hrun] at h
                      dsimp only [Option.map_some] at h ⊢
                      rw [h, List.append_assoc]

/-- **The writer and its batches.**  On a carrier that never fails, the bytes written are the
batches in front of the first one with a rejected frame. -/
theorem writerLoop_batches (fuel : ℕ) (wire : TxWire w) (frames : List OutFrame)
    (arrived : Stream' Bool) :
    writerLoop P w fuel wire frames arrived (Stream'.const none)
      = encodeBatches P w wire (batchLoop fuel frames arrived) := by
  induction fuel generalizing wire frames arrived with
  | zero => rfl
  | succ fuel ih =>
      cases frames with
      | nil => rfl
      | cons f frames =>
          rw [writerLoop, batchLoop, encodeBatches, encodeRun]
          rcases henc : encode P w wire f.header f.payload with ⟨r, wire'⟩
          cases r with
          | error e => rfl
          | ok bytes =>
              dsimp only
              have h := coalesce_eq (P := P) (writeBatch - 1) wire' bytes frames arrived
              cases hrun : encodeRun P w wire' (gather (writeBatch - 1) frames arrived).1 with
              | none =>
                  rw [hrun] at h
                  dsimp only [Option.map_none]
                  split
                  · rfl
                  · rename_i hsome
                    rw [hsome] at h
                    simp at h
              | some r =>
                  rw [hrun] at h
                  dsimp only [Option.map_some] at h ⊢
                  rw [h]
                  exact congrArg _ (ih _ _ _)

/-! ### When batching is invisible -/

theorem encodeUpTo_of_run {wire wire' : TxWire w} {fs : List OutFrame} {bytes : List UInt8}
    (h : encodeRun P w wire fs = some (bytes, wire')) (gs : List OutFrame) :
    encodeUpTo P w wire (fs ++ gs) = bytes ++ encodeUpTo P w wire' gs := by
  induction fs generalizing wire bytes with
  | nil =>
      obtain ⟨rfl, rfl⟩ : [] = bytes ∧ wire = wire' := by simpa [encodeRun] using h
      rfl
  | cons f fs ih =>
      rw [encodeRun] at h
      rw [List.cons_append, encodeUpTo]
      rcases henc : encode P w wire f.header f.payload with ⟨r, wire₁⟩
      rw [henc] at h
      cases r with
      | error e => simp at h
      | ok first =>
          obtain ⟨⟨rest, wire₂⟩, hrun, hpair⟩ := Option.map_eq_some_iff.1 h
          obtain ⟨rfl, rfl⟩ : first ++ rest = bytes ∧ wire₂ = wire' := by simpa using hpair
          dsimp only
          rw [ih hrun, List.append_assoc]

/-- Nothing is to be written only when there is nothing or the first frame is rejected. -/
theorem encodeUpTo_cons_eq_nil (wire : TxWire w) (f : OutFrame) (fs : List OutFrame) :
    encodeUpTo P w wire (f :: fs) = [] ↔ f.fits w = false := by
  rw [encodeUpTo]
  cases hf : f.fits w with
  | true =>
      obtain ⟨bytes, wire', henc, hne⟩ := encode_fits (P := P) hf wire
      rw [henc]
      simp [hne]
  | false =>
      obtain ⟨e, wire', henc⟩ := encode_rejected (P := P) hf wire
      rw [henc]
      simp

/-- The batches written are everything that is to be written exactly when no batch is cut short. -/
theorem encodeBatches_eq_iff (wire : TxWire w) (bs : List (List OutFrame)) :
    encodeBatches P w wire bs = encodeUpTo P w wire bs.flatten ↔ RejectsAtStart w bs := by
  induction bs generalizing wire with
  | nil => simp [encodeBatches, encodeUpTo, RejectsAtStart]
  | cons b bs ih =>
      cases b with
      | nil =>
          rw [encodeBatches, encodeRun, List.flatten_cons, List.nil_append, RejectsAtStart]
          exact ih wire
      | cons f fs =>
          have hsome := encodeRun_isSome (P := P) wire (f :: fs)
          rw [encodeBatches, List.flatten_cons, RejectsAtStart]
          cases hrun : encodeRun P w wire (f :: fs) with
          | some r =>
              -- the batch is written in full
              obtain ⟨bytes, wire'⟩ := r
              rw [hrun, Option.isSome_some, List.all_cons, eq_comm, Bool.and_eq_true] at hsome
              dsimp only
              rw [encodeUpTo_of_run hrun, List.append_cancel_left_eq, ih wire']
              simp [hsome]
          | none =>
              -- nothing of the batch is written
              rw [hrun, Option.isSome_none, List.all_cons, eq_comm] at hsome
              dsimp only
              rw [List.cons_append, eq_comm, encodeUpTo_cons_eq_nil]
              constructor
              · exact Or.inl
              · rintro (hf | ⟨hfs, -⟩)
                · exact hf
                · simpa [hfs] using hsome

/-- **When batching is invisible.**  On a carrier that never fails, for every queue and every timing,
the bytes written are the encodings, in order, of all frames before the first rejected one exactly
when the batches that the timing makes are not cut short: no frame is rejected, or the first rejected
one starts its batch. -/
theorem batching_invisible_iff (P : Primitives) (w : Wire) (wire : TxWire w)
    (frames : List OutFrame) (arrived : Stream' Bool) :
    runWriter P w wire frames arrived (Stream'.const none) = encodeUpTo P w wire frames ↔
      RejectsAtStart w (batches frames arrived) := by
  have hflat : (batches frames arrived).flatten = frames := batchLoop_flatten _ _ _ le_rfl
  have h := encodeBatches_eq_iff (P := P) wire (batches frames arrived)
  rw [hflat] at h
  rw [runWriter, writerLoop_batches]
  exact h

/-- The sending side of a length-prefixed carrier. -/
def lengthPrefixed : TxWire .lengthPrefixed := ()

/-- A data frame of one byte more than a carrier takes. -/
def oversized : OutFrame := ⟨.data, 1, List.replicate (prefixMaxFrame + 1) 0⟩

theorem fits_of_payload {f : OutFrame} {n : ℕ} {b : UInt8} (h : f.payload = List.replicate n b)
    (hn : w.limit < n) : f.fits w = false := by
  have hlen : w.limit < f.message.length := by
    rw [OutFrame.message, List.length_append, h, List.length_replicate]
    omega
  exact decide_eq_false (Nat.not_le.2 hlen)

theorem oversized_fits : oversized.fits .lengthPrefixed = false :=
  fits_of_payload (n := prefixMaxFrame + 1) rfl (Nat.lt_succ_self _)

/-- A small frame and an oversized one behind it, both there when the writer wakes up: nothing is
written, although the first frame was accepted. -/
theorem batch_dropped :
    runWriter Primitives.sample .lengthPrefixed lengthPrefixed [⟨.data, 1, [7]⟩, oversized]
        (Stream'.const true) (Stream'.const none)
      ≠ encodeUpTo Primitives.sample .lengthPrefixed lengthPrefixed
        [⟨.data, 1, [7]⟩, oversized] := by
  -- both frames are in one batch
  have hbatch : ∀ f g : OutFrame, batchLoop 2 [f, g] (Stream'.const true) = [[f, g]] :=
    fun _ _ => rfl
  intro h
  rw [runWriter, writerLoop_batches, List.length_cons, List.length_singleton, hbatch] at h
  have hstart := encodeBatches_eq_iff (P := Primitives.sample) lengthPrefixed
    [[⟨.data, 1, [7]⟩, oversized]]
  rw [List.flatten_cons, List.flatten_nil, List.append_nil] at hstart
  rcases hstart.1 h with hfirst | ⟨hsecond, -⟩
  · exact absurd hfirst (by decide)
  · simp [oversized_fits] at hsecond

end TxWire

end Nextppp

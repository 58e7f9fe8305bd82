/-
**Streams as packets.**

A decoder of packets gets one packet at a time, with its ends known; a streaming decoder finds the ends
itself.  Where the streaming decoder returns a message exactly if the stream begins with a packet that
decodes to it, the messages of a stream are those of its packets, and there is only one way to cut a
stream into packets.

Main definitions:

* `Incremental.decodeAll` — packets decoded one after the other;
* `Incremental.Packets` — what relates a decoder of packets to a streaming one;
* `Incremental.Splits` — a stream cut into packets, with no packet at the front of what is left.

Main results:

* `Incremental.Packets.splits` — a stream is cut into the packets of its messages;
* `Incremental.Packets.unique` — and in no other way.
-/

import Nextppp.Lib.Incremental

set_option relaxedAutoImplicit false
set_option autoImplicit false

namespace Incremental

variable {β σ μ ε : Type*}

/-- Packets decoded one after the other: the messages and the state, if all are accepted. -/
def decodeAll (dec : σ → List β → Option (μ × σ)) : σ → List (List β) → Option (List μ × σ)
  | s, [] => some ([], s)
  | s, w :: ws => (dec s w).bind fun r => (decodeAll dec r.2 ws).map fun q => (r.1 :: q.1, q.2)

/-- The streaming decoder returns a message exactly if the stream begins with a packet of it, and every
message takes something off the stream. -/
structure Packets (read : σ → List β → Read β σ μ ε) (dec : σ → List β → Option (μ × σ)) : Prop where
  message_iff : ∀ {s io m s' rest}, read s io = .message m s' rest ↔
    ∃ w, io = w ++ rest ∧ dec s w = some (m, s')
  shrinks : ∀ {s io m s' rest}, read s io = .message m s' rest → rest.length < io.length

/-- The stream is these packets, decoded to these messages, and no packet is at the front of the rest. -/
structure Splits (dec : σ → List β → Option (μ × σ)) (s : σ) (io : List β) (ws : List (List β))
    (ms : List μ) (s' : σ) (rest : List β) : Prop where
  bytes : io = ws.flatten ++ rest
  decoded : decodeAll dec s ws = some (ms, s')
  stops : ∀ w, w <+: rest → dec s' w = none

namespace Packets

variable {read : σ → List β → Read β σ μ ε} {dec : σ → List β → Option (μ × σ)}

/-- Where no packet is at the front the streaming decoder returns no message, and conversely. -/
theorem stops_iff (h : Packets read dec) {s : σ} {io : List β} :
    (∀ w, w <+: io → dec s w = none) ↔ ∀ m s' rest, read s io ≠ .message m s' rest := by
  constructor
  · intro hnone m s' rest hread
    obtain ⟨w, rfl, hdec⟩ := h.message_iff.1 hread
    rw [hnone w (List.prefix_append w rest)] at hdec
    cases hdec
  · rintro hread w ⟨rest, rfl⟩
    cases hdec : dec s w with
    | none => rfl
    | some r => exact absurd (h.message_iff.2 ⟨w, rfl, hdec⟩) (hread r.1 r.2 rest)

/-- A run of the streaming decoder cuts off the packets of its messages. -/
theorem splits_readAll (h : Packets read dec) {fuel : ℕ} {s : σ} {io : List β}
    (hfuel : io.length < fuel) :
    ∃ ws s' rest, Splits dec s io ws (readAll read fuel s io).messages s' rest := by
  induction fuel generalizing s io with
  | zero => exact absurd hfuel (Nat.not_lt_zero _)
  | succ fuel ih =>
      cases hread : read s io with
      | message m s₁ tail =>
          have hlt := h.shrinks hread
          obtain ⟨w, rfl, hdec⟩ := h.message_iff.1 hread
          obtain ⟨ws, s', rest, hsplit⟩ := @ih s₁ tail (by omega)
          refine ⟨w :: ws, s', rest, ?_, ?_, hsplit.stops⟩
          · rw [List.flatten_cons, List.append_assoc, ← hsplit.bytes]
          · rw [readAll, hread, decodeAll, hdec]
            simp [hsplit.decoded, Trace.prepend]
      | ended s₁ =>
          refine ⟨[], s, io, rfl, ?_, h.stops_iff.2 (by simp [hread])⟩
          rw [readAll, hread]
          rfl
      | failed e s₁ =>
          refine ⟨[], s, io, rfl, ?_, h.stops_iff.2 (by simp [hread])⟩
          rw [readAll, hread]
          rfl

/-- **A stream is cut into the packets of its messages.** -/
theorem splits (h : Packets read dec) (s : σ) (io : List β) :
    ∃ ws s' rest, Splits dec s io ws (readStream read s io).messages s' rest :=
  h.splits_readAll (Nat.lt_succ_self _)

/-- Where one cutting has no packet, the other has none. -/
theorem not_cons {s : σ} {io : List β} {w : List β} {ws : List (List β)} {ms ms' : List μ}
    {s₁ s₂ : σ} {rest rest' : List β} (h₁ : Splits dec s io [] ms s₁ rest)
    (h₂ : Splits dec s io (w :: ws) ms' s₂ rest') : False := by
  obtain ⟨r, hdec, -⟩ := Option.bind_eq_some_iff.1 h₂.decoded
  have hprefix : w <+: rest := by
    have hbytes := h₁.bytes.symm.trans h₂.bytes
    rw [List.flatten_nil, List.nil_append, List.flatten_cons, List.append_assoc] at hbytes
    exact ⟨_, hbytes.symm⟩
  obtain ⟨-, rfl⟩ : ms = [] ∧ s = s₁ := by simpa [decodeAll, eq_comm] using h₁.decoded
  rw [h₁.stops w hprefix] at hdec
  cases hdec

/-- **There is one way to cut a stream into packets.** -/
theorem unique (h : Packets read dec) {s : σ} {io : List β} {ws ws' : List (List β)}
    {ms ms' : List μ} {s₁ s₂ : σ} {rest rest' : List β} (h₁ : Splits dec s io ws ms s₁ rest)
    (h₂ : Splits dec s io ws' ms' s₂ rest') : ws = ws' := by
  induction ws generalizing s io ws' ms ms' with
  | nil =>
      cases ws' with
      | nil => rfl
      | cons w' ws' => exact (not_cons h₁ h₂).elim
  | cons w ws ih =>
      cases ws' with
      | nil => exact (not_cons h₂ h₁).elim
      | cons w' ws' =>
          obtain ⟨r, hdec, hmap⟩ := Option.bind_eq_some_iff.1 h₁.decoded
          obtain ⟨r', hdec', hmap'⟩ := Option.bind_eq_some_iff.1 h₂.decoded
          obtain ⟨q, hq, hlast⟩ := Option.map_eq_some_iff.1 hmap
          obtain ⟨q', hq', hlast'⟩ := Option.map_eq_some_iff.1 hmap'
          obtain ⟨rfl, rfl⟩ := Prod.mk.inj hlast
          obtain ⟨rfl, rfl⟩ := Prod.mk.inj hlast'
          have hio : io = w ++ (ws.flatten ++ rest) := by
            rw [h₁.bytes, List.flatten_cons, List.append_assoc]
          have hio' : io = w' ++ (ws'.flatten ++ rest') := by
            rw [h₂.bytes, List.flatten_cons, List.append_assoc]
          -- the streaming decoder leaves one rest only
          have hread := h.message_iff.2 ⟨w, hio, hdec⟩
          rw [h.message_iff.2 ⟨w', hio', hdec'⟩] at hread
          obtain ⟨-, hstate, htail⟩ := Read.message.inj hread
          obtain rfl : w = w' := by
            rw [hio, htail] at hio'
            exact List.append_cancel_right hio'
          rw [hstate] at hq'
          exact congrArg (w :: ·) (ih ⟨rfl, hq, h₁.stops⟩ ⟨htail.symm, hq', h₂.stops⟩)

end Packets

end Incremental

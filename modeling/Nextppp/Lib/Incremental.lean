/-
**Incremental decoding refines streaming decoding.**

A streaming decoder takes messages off the front of a stream, one call per message, until the stream
ends inside a frame or a frame is bad.  An incremental decoder is polled on a buffer that grows chunk
by chunk; between polls it may remember a half-read frame.  This module is the general argument that
the second refines the first, whatever the chunks are.

The link between the two is a function that says what the streaming decoder would do from a state of
the incremental one (`Incremental.Link.resume`).  Three laws about single polls suffice: a poll that
returns a message does what resuming does, whatever bytes follow; a poll that fails fails as resuming
does; and a poll that asks for more has only moved work that resuming would do anyway.

Main definitions:

* `Incremental.readStream` — the streaming decoder run to its end;
* `Incremental.feed` — the incremental decoder, polled to exhaustion after every chunk;
* `Incremental.Link` — the laws that relate the two.

Main results:

* `Incremental.Link.feed_eq` — fed with any chunks, the incremental decoder produces the messages,
  the outcome and the state of the streaming decoder on their concatenation.
-/

import Mathlib

set_option relaxedAutoImplicit false
set_option autoImplicit false

namespace Incremental

variable {β σ τ μ ε : Type*}

/-- One call of a streaming decoder. -/
inductive Read (β σ μ ε : Type*)
  | message (m : μ) (s : σ) (rest : List β)
  | ended (s : σ)
  | failed (e : ε) (s : σ)

/-- One poll of an incremental decoder, with the buffer it leaves. -/
inductive Poll (β τ μ ε : Type*)
  | message (m : μ) (t : τ) (buf : List β)
  | more (t : τ) (buf : List β)
  | failed (e : ε) (t : τ)

/-- How a run of a decoder stands. -/
inductive Outcome (ε : Type*)
  | waiting
  | failed (e : ε)
  | running

/-- The messages of a run, how it stands, and the state it left. -/
structure Trace (μ ε σ : Type*) where
  messages : List μ
  outcome : Outcome ε
  state : σ

namespace Trace

/-- A run that began with some messages. -/
def prepend (ms : List μ) (t : Trace μ ε σ) : Trace μ ε σ := { t with messages := ms ++ t.messages }

@[simp] theorem prepend_nil (t : Trace μ ε σ) : prepend [] t = t := rfl

@[simp] theorem prepend_prepend (ms ns : List μ) (t : Trace μ ε σ) :
    prepend ms (prepend ns t) = prepend (ms ++ ns) t := by
  simp [prepend, List.append_assoc]

/-- A run seen through a function of its state. -/
def mapState (f : τ → σ) (t : Trace μ ε τ) : Trace μ ε σ := ⟨t.messages, t.outcome, f t.state⟩

@[simp] theorem mapState_prepend (f : τ → σ) (ms : List μ) (t : Trace μ ε τ) :
    mapState f (prepend ms t) = prepend ms (mapState f t) := rfl

end Trace

/-! ### The two runs -/

/-- The streaming decoder, called until it stops. -/
def readAll (read : σ → List β → Read β σ μ ε) : ℕ → σ → List β → Trace μ ε σ
  | 0, s, _ => ⟨[], .running, s⟩
  | fuel + 1, s, io =>
      match read s io with
      | .message m s' rest => (readAll read fuel s' rest).prepend [m]
      | .ended s' => ⟨[], .waiting, s'⟩
      | .failed e s' => ⟨[], .failed e, s'⟩

/-- The streaming decoder on a whole stream: every message takes at least one element. -/
def readStream (read : σ → List β → Read β σ μ ε) (s : σ) (io : List β) : Trace μ ε σ :=
  readAll read (io.length + 1) s io

/-- The incremental decoder, polled until it asks for more: the run and the buffer it leaves. -/
def drain (poll : τ → List β → Poll β τ μ ε) : ℕ → τ → List β → Trace μ ε τ × List β
  | 0, t, buf => (⟨[], .running, t⟩, buf)
  | fuel + 1, t, buf =>
      match poll t buf with
      | .message m t' buf' => ((drain poll fuel t' buf').1.prepend [m], (drain poll fuel t' buf').2)
      | .more t' buf' => (⟨[], .waiting, t'⟩, buf')
      | .failed e t' => (⟨[], .failed e, t'⟩, buf)

/-- The incremental decoder fed with chunks, polled to exhaustion after each of them. -/
def feed (poll : τ → List β → Poll β τ μ ε) : τ → List β → List (List β) → Trace μ ε τ
  | t, _, [] => ⟨[], .waiting, t⟩
  | t, buf, c :: cs =>
      let d := drain poll ((buf ++ c).length + 1) t (buf ++ c)
      match d.1.outcome with
      | .waiting => (feed poll d.1.state d.2 cs).prepend d.1.messages
      | _ => d.1

/-! ### The laws and the refinement -/

/-- What relates an incremental decoder to a streaming one. -/
structure Link (read : σ → List β → Read β σ μ ε) (poll : τ → List β → Poll β τ μ ε) where
  /-- The incremental state at a frame boundary. -/
  fresh : σ → τ
  /-- The streaming state inside an incremental one. -/
  core : τ → σ
  /-- What the streaming decoder does from an incremental state. -/
  resume : τ → List β → Read β σ μ ε
  /-- The incremental states that occur. -/
  Inv : τ → Prop
  inv_fresh : ∀ s, Inv (fresh s)
  core_fresh : ∀ s, core (fresh s) = s
  resume_fresh : ∀ s io, resume (fresh s) io = read s io
  read_nil : ∀ s, read s [] = .ended s
  read_shrinks : ∀ {s io m s' rest}, read s io = .message m s' rest → rest.length < io.length
  poll_message : ∀ {t buf m t' buf'}, Inv t → poll t buf = .message m t' buf' →
    ∃ s', t' = fresh s' ∧ buf'.length < buf.length ∧
      ∀ rest, resume t (buf ++ rest) = .message m s' (buf' ++ rest)
  poll_more : ∀ {t buf t' buf'}, Inv t → poll t buf = .more t' buf' →
    Inv t' ∧ resume t' buf' = .ended (core t') ∧
      ∀ rest, resume t (buf ++ rest) = resume t' (buf' ++ rest)
  poll_failed : ∀ {t buf e t'}, Inv t → poll t buf = .failed e t' →
    ∀ rest, resume t (buf ++ rest) = .failed e (core t')

/-- More rounds than there are elements change nothing. -/
theorem readAll_fuel {read : σ → List β → Read β σ μ ε}
    (hshrink : ∀ {s io m s' rest}, read s io = .message m s' rest → rest.length < io.length)
    {fuel fuel' : ℕ} {s : σ} {io : List β} (h : io.length < fuel) (h' : io.length < fuel') :
    readAll read fuel s io = readAll read fuel' s io := by
  induction fuel generalizing fuel' s io with
  | zero => omega
  | succ fuel ih =>
      cases fuel' with
      | zero => omega
      | succ fuel' =>
          rw [readAll, readAll]
          split
          · rename_i m s' rest hread
            have := hshrink hread
            rw [ih (show rest.length < fuel by omega) (show rest.length < fuel' by omega)]
          · rfl
          · rfl

/-- A streaming decoder that takes something off for every message reaches its end. -/
theorem readAll_ne_running {read : σ → List β → Read β σ μ ε}
    (hshrink : ∀ {s io m s' rest}, read s io = .message m s' rest → rest.length < io.length)
    {fuel : ℕ} {s : σ} {io : List β} (h : io.length < fuel) :
    (readAll read fuel s io).outcome ≠ .running := by
  induction fuel generalizing s io with
  | zero => omega
  | succ fuel ih =>
      rw [readAll]
      split
      · rename_i m s' rest hread
        have := hshrink hread
        exact ih (by omega)
      · simp
      · simp

namespace Link

variable {read : σ → List β → Read β σ μ ε} {poll : τ → List β → Poll β τ μ ε}

/-- The streaming decoder, continued from an incremental state. -/
def resumeStream (L : Link read poll) (t : τ) (io : List β) : Trace μ ε σ :=
  match L.resume t io with
  | .message m s' rest => (readStream read s' rest).prepend [m]
  | .ended s' => ⟨[], .waiting, s'⟩
  | .failed e s' => ⟨[], .failed e, s'⟩

theorem resumeStream_fresh (L : Link read poll) (s : σ) (io : List β) :
    L.resumeStream (L.fresh s) io = readStream read s io := by
  rw [resumeStream, L.resume_fresh]
  conv => rhs; rw [readStream, readAll]
  split
  · rename_i m s' rest hread
    have := L.read_shrinks hread
    rw [readStream, readAll_fuel L.read_shrinks (Nat.lt_succ_self _)
      (show rest.length < io.length by omega)]
  · rfl
  · rfl

/-- Draining the buffer: either the run waits, having done a part of what resuming does, or it
failed exactly as resuming does. -/
theorem drain_spec (L : Link read poll) {fuel : ℕ} {t : τ} {buf : List β} (ht : L.Inv t)
    (hfuel : buf.length < fuel) :
    (∃ ms t' buf', drain poll fuel t buf = (⟨ms, .waiting, t'⟩, buf') ∧ L.Inv t' ∧
      L.resume t' buf' = .ended (L.core t') ∧
      ∀ rest, L.resumeStream t (buf ++ rest) = (L.resumeStream t' (buf' ++ rest)).prepend ms) ∨
    (∃ ms e t' buf', drain poll fuel t buf = (⟨ms, .failed e, t'⟩, buf') ∧
      ∀ rest, L.resumeStream t (buf ++ rest) = ⟨ms, .failed e, L.core t'⟩) := by
  induction fuel generalizing t buf with
  | zero => omega
  | succ fuel ih =>
      rw [drain]
      cases hp : poll t buf with
      | message m t' buf' =>
          obtain ⟨s', rfl, hlt, hres⟩ := L.poll_message ht hp
          -- the message is out; what follows is the rest of the drain from a frame boundary
          have hstep : ∀ rest, L.resumeStream t (buf ++ rest)
              = (L.resumeStream (L.fresh s') (buf' ++ rest)).prepend [m] := by
            intro rest
            rw [L.resumeStream_fresh, resumeStream, hres]
          rcases ih (L.inv_fresh s') (show buf'.length < fuel by omega) with
            ⟨ms, t'', buf'', hd, hinv, hend, hrest⟩ | ⟨ms, e, t'', buf'', hd, hrest⟩
          · refine Or.inl ⟨m :: ms, t'', buf'', by dsimp only; rw [hd]; rfl, hinv, hend, fun rest => ?_⟩
            rw [hstep, hrest, Trace.prepend_prepend]
            rfl
          · refine Or.inr ⟨m :: ms, e, t'', buf'', by dsimp only; rw [hd]; rfl, fun rest => ?_⟩
            rw [hstep, hrest]
            rfl
      | more t' buf' =>
          obtain ⟨hinv, hend, hres⟩ := L.poll_more ht hp
          refine Or.inl ⟨[], t', buf', rfl, hinv, hend, fun rest => ?_⟩
          rw [resumeStream, hres, Trace.prepend_nil, resumeStream]
      | failed e t' =>
          have hres := L.poll_failed ht hp
          refine Or.inr ⟨[], e, t', buf, rfl, fun rest => ?_⟩
          rw [resumeStream, hres]

theorem feed_resume (L : Link read poll) (chunks : List (List β)) {t : τ} {buf : List β}
    (ht : L.Inv t) (hend : L.resume t buf = .ended (L.core t)) :
    (feed poll t buf chunks).mapState L.core = L.resumeStream t (buf ++ chunks.flatten) := by
  induction chunks generalizing t buf with
  | nil => rw [List.flatten_nil, List.append_nil, resumeStream, hend]; rfl
  | cons c cs ih =>
      rw [List.flatten_cons, ← List.append_assoc, feed]
      rcases L.drain_spec ht (Nat.lt_succ_self (buf ++ c).length) with
        ⟨ms, t', buf', hd, hinv, hend', hrest⟩ | ⟨ms, e, t', buf', hd, hrest⟩
      · rw [hd]
        dsimp only
        rw [Trace.mapState_prepend, ih hinv hend', hrest]
      · rw [hd, hrest]
        rfl

/-- Fed with any chunks, the incremental decoder is the streaming decoder on their
concatenation. -/
theorem feed_eq (L : Link read poll) (s : σ) (chunks : List (List β)) :
    (feed poll (L.fresh s) [] chunks).mapState L.core = readStream read s chunks.flatten := by
  have hend : L.resume (L.fresh s) [] = .ended (L.core (L.fresh s)) := by
    rw [L.resume_fresh, L.read_nil, L.core_fresh]
  rw [L.feed_resume chunks (L.inv_fresh s) hend, List.nil_append, L.resumeStream_fresh]

end Link

end Incremental

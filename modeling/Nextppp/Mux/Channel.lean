/-
**The channels of a mux endpoint.**

The tasks of an endpoint talk over bounded channels: one for the frames that leave on the carrier, one
for the events of each stream.  A channel holds what is queued and knows whether its receiver is still
there; a routing table maps the id of a stream to the number of the channel that takes its events.

Main definitions:

* `Nextppp.Channel` — a bounded channel, with `trySend` and what a waiting `send` needs;
* `Nextppp.Table` — a routing table;
* `Nextppp.StreamEvent` — what the demux hands to a stream;
* `Nextppp.pumpStream` — the steps of the two pumps of a stream.
-/

import Nextppp.Mux.Carrier

set_option relaxedAutoImplicit false
set_option autoImplicit false

namespace Nextppp

/-- Per-tunnel outbound channel bound, in frames. -/
def outboundBound : ℕ := 256

/-- Per-stream event channel bound, in frames. -/
def streamBound : ℕ := 32

/-- The status of a `REPLY`: the stream is open. -/
def replyOk : UInt8 := 0

/-- The status of a `REPLY`: the target was refused. -/
def replyRefused : UInt8 := 1

/-- What the demux hands to a stream. -/
inductive StreamEvent
  | data (payload : List UInt8)
  | eof
  | close
  deriving DecidableEq, Repr

/-- `OutFrame::bare`: a frame without payload. -/
def OutFrame.bare (kind : FrameKind) (stream : StreamId) : OutFrame := ⟨kind, stream, []⟩

/-- A bounded channel: what is queued, and whether the receiver is still there. -/
structure Channel (α : Type*) where
  queue : List α
  receiver : Bool
  deriving DecidableEq, Repr

namespace Channel

variable {α : Type*}

/-- An empty channel. -/
def new : Channel α := ⟨[], true⟩

/-- A `send` on the channel goes through at once. -/
def accepts (bound : ℕ) (c : Channel α) : Bool := c.receiver && c.queue.length < bound

/-- Queue a message. -/
def push (c : Channel α) (x : α) : Channel α := { c with queue := c.queue ++ [x] }

/-- `try_send`, whose error the callers drop. -/
def trySend (bound : ℕ) (c : Channel α) (x : α) : Channel α :=
  if c.accepts bound then c.push x else c

/-- The receiver goes, and with it what is queued. -/
def close (_ : Channel α) : Channel α := ⟨[], false⟩

end Channel

/-- A routing table: which channel takes the events of a stream. -/
abbrev Table := AList fun _ : StreamId => ℕ

/-! ### The pumps of a stream -/

/-- Steps of the two direction tasks of `pump_stream`. -/
inductive PumpStep
  /-- a chunk read from the local socket is queued -/
  | data (payload : List UInt8)
  /-- the local side half-closes -/
  | eof
  /-- a local fault, of the direction towards the tunnel or of the other one -/
  | close (up : Bool)
  /-- the direction towards the tunnel ends without a frame: tunnel lost, or aborted -/
  | upEnds
  /-- an event is taken and written to the local socket -/
  | recv
  /-- the direction towards the local socket ends -/
  | downEnds
  deriving DecidableEq, Repr

/-- What the pumps of a stream work on: whether the direction towards the tunnel runs, the outbound
channel of the tunnel and the event channel of the stream, which is there while the other direction
runs. -/
structure Pump where
  up : Bool
  out : Channel OutFrame
  events : Channel StreamEvent

/-- A step of `pump_up` or `pump_down` for a stream. -/
def pumpStream (sid : StreamId) (p : Pump) : PumpStep → Option Pump
  | .data payload =>
      if p.up ∧ p.out.accepts outboundBound then
        some { p with out := p.out.push ⟨.data, sid, payload⟩ }
      else none
  | .eof =>
      if p.up ∧ p.out.accepts outboundBound then
        some { p with up := false, out := p.out.push (.bare .eof sid) }
      else none
  | .close true =>
      if p.up then
        some { p with up := false, out := p.out.trySend outboundBound (.bare .close sid) }
      else none
  | .close false =>
      some { p with
        out := p.out.trySend outboundBound (.bare .close sid)
        events := p.events.close }
  | .upEnds => some { p with up := false }
  | .recv =>
      match p.events.queue with
      | .data _ :: rest => some { p with events := { p.events with queue := rest } }
      | _ :: _ => some { p with events := p.events.close }
      | [] => none
  | .downEnds => some { p with events := p.events.close }

end Nextppp

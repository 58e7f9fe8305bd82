/-
**A client tunnel.**

A tunnel of the client multiplexes streams over one carrier.  Opening a stream allocates an id,
registers a waiter for the reply and a channel for the events, counts the stream and queues an `OPEN`;
the call then waits for the reply, the death of the tunnel or its timeout.  The reader task routes the
frames of the server to waiters and streams, and the first task that finds the tunnel broken marks it
dead, which drops every waiter and every event channel.

Every access to the counters, to the two maps and to a channel is a step of its own.  The calls are
numbered in the order in which they are made; the number of a call also names its two channels.

Main definitions:

* `Nextppp.Tunnel` — the shared state of a tunnel and its reader;
* `Nextppp.Tunnel.Call` — a call of `open` and the stream that it returns;
* `Nextppp.Tunnel.act`, `Nextppp.Tunnel.callStep` — the steps of the reader, the writer and a call.

Main results:

* `Nextppp.Tunnel.act_cases`, `Nextppp.Tunnel.callStep_cases` — what a step does to the counters and
  the maps.
-/

import Nextppp.Lib.Tasks
import Nextppp.Mux.Channel

set_option relaxedAutoImplicit false
set_option autoImplicit false

namespace Nextppp

/-! ### The state -/

/-- The next operation of a running `mark_dead`. -/
inductive Marking
  | swap
  | clearPending
  | clearRegistry
  deriving DecidableEq, Repr

/-- Where the reader task is. -/
inductive ReaderPc
  | demuxing
  /-- has taken the waiter of a call out of `pending` -/
  | replying (call : ℕ) (ok : Bool)
  /-- waits until the channel of a call takes an event -/
  | routing (call : ℕ) (sid : StreamId) (ev : StreamEvent)
  /-- could not hand over an event -/
  | unrouting (sid : StreamId)
  | bouncing (sid : StreamId)
  /-- has left the loop -/
  | exiting
  | marking (m : Marking)
  | done
  deriving DecidableEq, Repr

/-- The reader holds the waiter of a call. -/
def ReaderPc.holds (i : ℕ) : ReaderPc → Bool
  | .replying call _ => call = i
  | _ => false

/-- A tunnel: what its tasks share, and the state of its reader. -/
structure Tunnel where
  nextStream : UInt32
  streams : UInt32
  /-- the waiters for a reply -/
  pending : Table
  /-- the channels of the streams -/
  registry : Table
  alive : Bool
  /-- `mark_dead` has cleared `pending` -/
  pendingCleared : Bool
  /-- `mark_dead` has cleared `registry`, its last access -/
  registryCleared : Bool
  /-- the value in the reply channel of a call -/
  replies : ℕ → Option Bool
  /-- the event channel of a call -/
  events : ℕ → Channel StreamEvent
  out : Channel OutFrame
  reader : ReaderPc
  /-- the reader task is to be cancelled -/
  abortReader : Bool
  /-- the pool of the tunnel is still there -/
  pool : Bool

namespace Tunnel

open Tasks Run

/-- A tunnel that has just been spawned, for a pool or dedicated to one stream. -/
def spawn (pool : Bool) : Tunnel where
  nextStream := 0
  streams := 0
  pending := ∅
  registry := ∅
  alive := true
  pendingCleared := false
  registryCleared := false
  replies := fun _ => none
  events := fun _ => Channel.new
  out := Channel.new
  reader := .demuxing
  abortReader := false
  pool := pool

/-- One operation of `mark_dead`, and the next one, if any: only the caller that flips `alive` clears
the maps. -/
def markDead (t : Tunnel) : Marking → Tunnel × Option Marking
  | .swap => ({ t with alive := false }, if t.alive then some .clearPending else none)
  | .clearPending => ({ t with pending := ∅, pendingCleared := true }, some .clearRegistry)
  | .clearRegistry => ({ t with registry := ∅, registryCleared := true }, none)

/-- `fetch_add(1).wrapping_add(1)`. -/
def allocStream (t : Tunnel) : StreamId := t.nextStream + 1

/-! ### The reader and the writer -/

/-- Look up the channel of a stream for an event. -/
def routeEvent (t : Tunnel) (sid : StreamId) (ev : StreamEvent) : Tunnel :=
  match t.registry.lookup sid with
  | some call => { t with reader := .routing call sid ev }
  | none => { t with reader := .bouncing sid }

/-- The reader gets a frame. -/
def demux (t : Tunnel) (f : OutFrame) : Tunnel :=
  match f.kind with
  | .reply =>
      match t.pending.lookup f.stream with
      | some call =>
          { t with
            pending := t.pending.erase f.stream
            reader := .replying call (f.payload.head? = some replyOk) }
      | none => t
  | .data => t.routeEvent f.stream (.data f.payload)
  | .eof => t.routeEvent f.stream .eof
  | .close => { t with registry := t.registry.erase f.stream }
  | .open => { t with reader := .exiting }

/-- Steps of the reader, of the writer, and the calls of `open`. -/
inductive Step
  | call (target : List UInt8)
  | recv (f : OutFrame)
  /-- the reader sends a reply or an event -/
  | readerSend
  | routeTimeout
  | unroute
  | bounce
  /-- end of the carrier, a read error, a bad frame or the end of the writer -/
  | breakLoop
  | abortWriter
  | readerMark
  | readerCancelled
  /-- the writer takes a frame -/
  | write
  /-- the writer is over: a write error, an abort that takes effect, or no sender left -/
  | writerEnds
  | poolDropped
  deriving DecidableEq

/-- Why a stream is unregistered. -/
inductive Exit
  | failedSend
  | refused
  | died
  | timedOut
  | dropped (graceful : Bool)
  deriving DecidableEq, Repr

/-- How far a call of `open`, or the stream it returned, has got. -/
inductive Phase
  | called
  | allocated
  | pended
  | listed
  /-- counted, with the `OPEN` to send -/
  | sending
  /-- the `OPEN` is queued -/
  | awaiting
  /-- `open` has returned a stream -/
  | handle
  | unregPending (exit : Exit)
  | unregRegistry (exit : Exit)
  | unregSlot (exit : Exit)
  | closing (exit : Exit)
  /-- `open` has failed -/
  | failed
  /-- the stream is unregistered, its tunnel may have to go with it -/
  | dropping
  /-- inside `mark_dead`, on its own or at the start of `kill` -/
  | marking (m : Marking) (kill : Bool)
  | killing
  | returned
  deriving DecidableEq, Repr

/-- A call of `open` and the stream it returns; `sid` counts from the allocation on. -/
structure Call where
  sid : StreamId
  target : List UInt8
  phase : Phase
  /-- the pump towards the tunnel runs -/
  up : Bool
  deriving DecidableEq, Repr

/-- A step of the reader or the writer, with the calls it starts. -/
def act (t : Tunnel) : Step → Option (Tunnel × List Call)
  | .call target => some (t, [⟨0, target, .called, true⟩])
  | .recv f => if t.reader = .demuxing then some (t.demux f, []) else none
  | .readerSend =>
      match t.reader with
      -- the call may be gone: the result is dropped
      | .replying call ok =>
          some ({ t with
            replies := Function.update t.replies call (some ok)
            reader := .demuxing }, [])
      | .routing call sid ev =>
          if (t.events call).receiver = false then some ({ t with reader := .unrouting sid }, [])
          else if (t.events call).accepts streamBound then
            some ({ t with
              events := Function.update t.events call ((t.events call).push ev)
              reader := .demuxing }, [])
          else none
      | _ => none
  | .routeTimeout =>
      match t.reader with
      | .routing call sid _ =>
          if (t.events call).accepts streamBound then none
          else some ({ t with reader := .unrouting sid }, [])
      | _ => none
  | .unroute =>
      match t.reader with
      | .unrouting sid =>
          some ({ t with registry := t.registry.erase sid, reader := .bouncing sid }, [])
      | _ => none
  | .bounce =>
      match t.reader with
      | .bouncing sid =>
          some ({ t with
            out := t.out.trySend outboundBound (.bare .close sid)
            reader := .demuxing }, [])
      | _ => none
  | .breakLoop => if t.reader = .demuxing then some ({ t with reader := .exiting }, []) else none
  -- the abort is a request: the receiver goes when the writer task is scheduled next
  | .abortWriter =>
      if t.reader = .exiting then some ({ t with reader := .marking .swap }, []) else none
  | .readerMark =>
      match t.reader with
      | .marking m =>
          let r := t.markDead m
          some ({ r.1 with reader := r.2.elim .done .marking }, [])
      | _ => none
  | .readerCancelled =>
      match t.abortReader, t.reader with
      | true, .demuxing | true, .routing .. => some ({ t with reader := .done }, [])
      | _, _ => none
  | .write =>
      match t.out.queue with
      | _ :: rest => some ({ t with out := { t.out with queue := rest } }, [])
      | [] => none
  | .writerEnds => some ({ t with out := t.out.close }, [])
  | .poolDropped => some ({ t with pool := false }, [])

/-! ### Opening and dropping a stream -/

/-- Steps of a call, of the stream it returned and of the pumps of that stream. -/
inductive CallStep
  | alloc
  | insertPending
  | insertRegistry
  | addStream
  | send
  | replied
  | waiterDropped
  | timeout
  | drop (graceful : Bool)
  | unregister
  | close
  | endDrop
  | kill
  | mark
  | abortReader
  | pump (e : PumpStep)
  deriving DecidableEq, Repr

/-- The call moves on. -/
def Call.goto (c : Call) (phase : Phase) : Call := { c with phase := phase }

@[simp] theorem Call.goto_phase (c : Call) (phase : Phase) : (c.goto phase).phase = phase := rfl

@[simp] theorem Call.goto_sid (c : Call) (phase : Phase) : (c.goto phase).sid = c.sid := rfl

/-- What comes behind the three operations of `unregister`. -/
def Exit.next : Exit → Phase
  | .failedSend => .marking .swap false
  | .refused | .died => .failed
  | .timedOut => .closing .timedOut
  | .dropped false => .closing (.dropped false)
  | .dropped true => .dropping

/-- The waiter of a call was dropped without a reply: it is neither in the map nor with the reader. -/
def waiterGone (t : Tunnel) (i : ℕ) (sid : StreamId) : Bool :=
  t.replies i = none ∧ t.pending.lookup sid ≠ some i ∧ t.reader.holds i = false

/-- The event receiver of a call is dropped when its `open` has failed or its stream is gone. -/
def settle (t : Tunnel) (i : ℕ) : Phase → Tunnel
  | .failed | .returned => { t with events := Function.update t.events i (t.events i).close }
  | _ => t

/-- A step of the `i`-th call: `Tunnel::open`, the `Drop` of its stream, `unregister`, `mark_dead` and
`kill` inside them, and the pumps of the stream. -/
def callStep (i : ℕ) (t : Tunnel) (c : Call) (e : CallStep) : Option (Tunnel × Call) :=
  match c.phase, e with
  | .called, .alloc =>
      some ({ t with nextStream := t.nextStream + 1 },
        { c with sid := t.allocStream, phase := .allocated })
  | .allocated, .insertPending =>
      some ({ t with pending := t.pending.insert c.sid i }, c.goto .pended)
  | .pended, .insertRegistry =>
      some ({ t with registry := t.registry.insert c.sid i }, c.goto .listed)
  | .listed, .addStream => some ({ t with streams := t.streams + 1 }, c.goto .sending)
  | .sending, .send =>
      if t.out.receiver = false then some (t, c.goto (.unregPending .failedSend))
      else if t.out.accepts outboundBound then
        some ({ t with out := t.out.push ⟨.open, c.sid, c.target⟩ }, c.goto .awaiting)
      else none
  | .awaiting, .replied =>
      match t.replies i with
      | some true => some (t, c.goto .handle)
      | some false => some (t, c.goto (.unregPending .refused))
      | none => none
  | .awaiting, .waiterDropped =>
      if t.waiterGone i c.sid then some (t, c.goto (.unregPending .died)) else none
  | .awaiting, .timeout =>
      if t.replies i = none ∧ t.waiterGone i c.sid = false then
        some (t, c.goto (.unregPending .timedOut))
      else none
  | .handle, .drop graceful => some (t, c.goto (.unregPending (.dropped graceful)))
  | .unregPending x, .unregister =>
      some ({ t with pending := t.pending.erase c.sid }, c.goto (.unregRegistry x))
  | .unregRegistry x, .unregister =>
      some ({ t with registry := t.registry.erase c.sid }, c.goto (.unregSlot x))
  | .unregSlot x, .unregister =>
      some (settle { t with streams := t.streams - 1 } i x.next, c.goto x.next)
  | .closing x, .close =>
      let next := if x = .timedOut then .failed else .dropping
      some (settle { t with out := t.out.trySend outboundBound (.bare .close c.sid) } i next,
        c.goto next)
  -- a tunnel without a pool dies with its stream, and with an `open` that failed
  | .dropping, .endDrop =>
      let next := if t.pool then .returned else .marking .swap true
      some (t.settle i next, c.goto next)
  | .failed, .kill => if t.pool then none else some (t, c.goto (.marking .swap true))
  | .marking m kill, .mark =>
      let r := t.markDead m
      let next := r.2.elim (if kill then .killing else .failed) fun m' => .marking m' kill
      some (r.1.settle i next, c.goto next)
  | .killing, .abortReader =>
      some (settle { t with abortReader := true } i .returned, c.goto .returned)
  | .handle, .pump e =>
      (pumpStream c.sid ⟨c.up, t.out, t.events i⟩ e).map fun p =>
        ({ t with out := p.out, events := Function.update t.events i p.events },
          { c with up := p.up })
  | _, _ => none

/-- A tunnel and the calls of `open` on it. -/
abbrev State := System Tunnel Call

/-- A tunnel without a call. -/
def init (pool : Bool) : State := ⟨spawn pool, []⟩

/-- One step of the reader, the writer or a call. -/
def step : State → Act Step CallStep → Option State := Tasks.step act callStep

/-! ### What a step does to the counters and the maps -/

/-- Every entry of a table is an entry of another one. -/
def Keeps (new old : Table) : Prop := ∀ sid i, new.lookup sid = some i → old.lookup sid = some i

theorem Keeps.refl (m : Table) : Keeps m m := fun _ _ h => h

theorem Keeps.erase (m : Table) (sid : StreamId) : Keeps (m.erase sid) m := by
  intro sid' i h
  by_cases hsid : sid' = sid
  · subst hsid
    rw [AList.lookup_erase] at h
    cases h
  · rwa [AList.lookup_erase_ne hsid] at h

theorem Keeps.empty (m : Table) : Keeps ∅ m := by
  intro sid i h
  rw [AList.lookup_empty] at h
  cases h

/-- Nothing is counted or registered; entries may go, and a clear of `mark_dead` takes all of them. -/
structure Fades (t t' : Tunnel) : Prop where
  nextStream : t'.nextStream = t.nextStream
  streams : t'.streams = t.streams
  pending : Keeps t'.pending t.pending
  registry : Keeps t'.registry t.registry
  pendingCleared : t'.pendingCleared = true → t.pendingCleared = true ∨ t'.pending = ∅
  registryCleared : t'.registryCleared = true → t.registryCleared = true ∨ t'.registry = ∅

theorem Fades.refl (t : Tunnel) : Fades t t :=
  ⟨rfl, rfl, Keeps.refl _, Keeps.refl _, Or.inl, Or.inl⟩

theorem Fades.markDead (t : Tunnel) (m : Marking) : Fades t (t.markDead m).1 := by
  cases m with
  | swap => exact { Fades.refl t with }
  | clearPending =>
      exact { Fades.refl t with pending := Keeps.empty _, pendingCleared := fun _ => .inr rfl }
  | clearRegistry =>
      exact { Fades.refl t with registry := Keeps.empty _, registryCleared := fun _ => .inr rfl }

theorem Fades.demux (t : Tunnel) (f : OutFrame) : Fades t (t.demux f) := by
  unfold Tunnel.demux Tunnel.routeEvent
  cases f.kind with
  | reply =>
      dsimp only
      split
      · exact { Fades.refl t with pending := Keeps.erase _ _, pendingCleared := Or.inl }
      · exact Fades.refl t
  | data => dsimp only; split <;> exact { Fades.refl t with }
  | eof => dsimp only; split <;> exact { Fades.refl t with }
  | close => exact { Fades.refl t with registry := Keeps.erase _ _, registryCleared := Or.inl }
  | «open» => exact { Fades.refl t with }

theorem Fades.settle {t t' : Tunnel} (h : Fades t t') (i : ℕ) (phase : Phase) :
    Fades t (t'.settle i phase) := by
  unfold Tunnel.settle
  split <;> exact { h with }

/-- **What a step of the reader or the writer does**: entries go, and calls start. -/
theorem act_cases {t : Tunnel} {a : Step} {r : Tunnel × List Call} (h : act t a = some r) :
    Fades t r.1 ∧ ∀ c ∈ r.2, c.phase = .called := by
  cases a with
  | call target =>
      obtain rfl := Option.some.inj h
      exact ⟨Fades.refl t, by simp⟩
  | recv f =>
      obtain ⟨_, rfl⟩ : t.reader = .demuxing ∧ (t.demux f, []) = r := by simpa [act] using h
      exact ⟨Fades.demux t f, by simp⟩
  | readerMark =>
      simp only [act] at h
      split at h
      · obtain rfl := Option.some.inj h
        exact ⟨{ Fades.markDead t _ with }, by simp⟩
      · cases h
  | unroute =>
      simp only [act] at h
      split at h
      · obtain rfl := Option.some.inj h
        exact ⟨{ Fades.refl t with registry := Keeps.erase _ _, registryCleared := Or.inl }, by simp⟩
      · cases h
  | readerSend =>
      simp only [act] at h
      split at h
      · obtain rfl := Option.some.inj h
        exact ⟨{ Fades.refl t with }, by simp⟩
      · split at h
        · obtain rfl := Option.some.inj h
          exact ⟨{ Fades.refl t with }, by simp⟩
        · split at h
          · obtain rfl := Option.some.inj h
            exact ⟨{ Fades.refl t with }, by simp⟩
          · cases h
      · cases h
  | _ =>
      -- the other steps leave counters and maps alone
      simp only [act] at h
      try split at h
      all_goals try split at h
      all_goals
        first
        | (obtain rfl := Option.some.inj h; exact ⟨{ Fades.refl t with }, by simp⟩)
        | cases h

namespace Phase

/-- The stream is open or being opened, and counted. -/
def opened : Phase → Bool
  | .sending | .awaiting | .handle => true
  | _ => false

/-- The stream is unregistered, or was never registered. -/
def unregistered : Phase → Bool
  | .closing _ | .failed | .dropping | .marking .. | .killing | .returned => true
  | _ => false

/-- The `OPEN` of the call was queued. -/
def pastSend : Phase → Bool
  | .awaiting | .handle => true
  | .unregPending x | .unregRegistry x | .unregSlot x => x ≠ .failedSend
  | _ => false

end Phase

theorem Exit.next_unregistered (x : Exit) : x.next.unregistered = true := by
  cases x with
  | dropped graceful => cases graceful <;> rfl
  | _ => rfl

/-- A step of a call that neither registers nor unregisters. -/
structure Quiet (t : Tunnel) (c : Call) (e : CallStep) (r : Tunnel × Call) : Prop where
  fades : Fades t r.1
  sid : r.2.sid = c.sid
  moves : (c.phase.opened = true ∧ (r.2.phase.opened = true ∨ ∃ x, r.2.phase = .unregPending x)) ∨
    (c.phase.unregistered = true ∧ r.2.phase.unregistered = true)
  sent : r.2.phase.pastSend = true →
    c.phase.pastSend = true ∨ (e = .send ∧ t.out.receiver = true)

section Quiet

variable {t : Tunnel} {c : Call} {e : CallStep} {r : Tunnel × Call}

/-- A call that waits for its reply, or a stream, goes on or starts to unregister. -/
theorem Quiet.open (hc : c.phase = .awaiting ∨ c.phase = .handle) (hf : Fades t r.1)
    (hsid : r.2.sid = c.sid) (hr : r.2.phase = .handle ∨ ∃ x, r.2.phase = .unregPending x) :
    Quiet t c e r := by
  refine ⟨hf, hsid, .inl ⟨?_, ?_⟩, fun _ => .inl ?_⟩
  · rcases hc with hc | hc <;> rw [hc] <;> rfl
  · exact hr.imp_left fun h => by rw [h]; rfl
  · rcases hc with hc | hc <;> rw [hc] <;> rfl

/-- A call that is unregistered stays so. -/
theorem Quiet.after (hc : c.phase.unregistered = true) (hf : Fades t r.1) (hsid : r.2.sid = c.sid)
    (hr : r.2.phase.unregistered = true) : Quiet t c e r := by
  refine ⟨hf, hsid, .inr ⟨hc, hr⟩, ?_⟩
  intro hsent
  cases hp : r.2.phase <;> simp_all [Phase.unregistered, Phase.pastSend]

end Quiet

/-- **What a step of a call does.** -/
theorem callStep_cases {i : ℕ} {t : Tunnel} {c : Call} {e : CallStep} {r : Tunnel × Call}
    (h : callStep i t c e = some r) :
    (c.phase = .called ∧ e = .alloc ∧ r = ({ t with nextStream := t.nextStream + 1 },
        { c with sid := t.allocStream, phase := .allocated })) ∨
      (c.phase = .allocated ∧
        r = ({ t with pending := t.pending.insert c.sid i }, c.goto .pended)) ∨
      (c.phase = .pended ∧
        r = ({ t with registry := t.registry.insert c.sid i }, c.goto .listed)) ∨
      (c.phase = .listed ∧ r = ({ t with streams := t.streams + 1 }, c.goto .sending)) ∨
      (∃ x, c.phase = .unregPending x ∧
        r = ({ t with pending := t.pending.erase c.sid }, c.goto (.unregRegistry x))) ∨
      (∃ x, c.phase = .unregRegistry x ∧
        r = ({ t with registry := t.registry.erase c.sid }, c.goto (.unregSlot x))) ∨
      (∃ x, c.phase = .unregSlot x ∧
        r = (settle { t with streams := t.streams - 1 } i x.next, c.goto x.next)) ∨
      Quiet t c e r := by
  unfold callStep at h
  split at h
  case h_1 hp => exact .inl ⟨hp, rfl, (Option.some.inj h).symm⟩
  case h_2 hp => exact .inr (.inl ⟨hp, (Option.some.inj h).symm⟩)
  case h_3 hp => exact .inr (.inr (.inl ⟨hp, (Option.some.inj h).symm⟩))
  case h_4 hp => exact .inr (.inr (.inr (.inl ⟨hp, (Option.some.inj h).symm⟩)))
  case h_10 x hp => exact .inr (.inr (.inr (.inr (.inl ⟨x, hp, (Option.some.inj h).symm⟩))))
  case h_11 x hp => exact .inr (.inr (.inr (.inr (.inr (.inl ⟨x, hp, (Option.some.inj h).symm⟩)))))
  case h_12 x hp =>
      exact .inr (.inr (.inr (.inr (.inr (.inr (.inl ⟨x, hp, (Option.some.inj h).symm⟩))))))
  case h_19 => cases h
  all_goals
    refine .inr (.inr (.inr (.inr (.inr (.inr (.inr ?_))))))
  case h_5 hp =>
      split at h
      · obtain rfl := Option.some.inj h
        exact ⟨Fades.refl t, rfl, .inl ⟨by rw [hp]; rfl, .inr ⟨_, rfl⟩⟩, by simp [Phase.pastSend]⟩
      · split at h
        · obtain rfl := Option.some.inj h
          exact ⟨{ Fades.refl t with }, rfl, .inl ⟨by rw [hp]; rfl, .inl rfl⟩,
            fun _ => .inr ⟨rfl, by simp_all⟩⟩
        · cases h
  case h_6 hp =>
      split at h
      · obtain rfl := Option.some.inj h
        exact Quiet.open (.inl hp) (Fades.refl t) rfl (.inl rfl)
      · obtain rfl := Option.some.inj h
        exact Quiet.open (.inl hp) (Fades.refl t) rfl (.inr ⟨_, rfl⟩)
      · cases h
  case h_7 hp =>
      obtain ⟨_, ⟨⟩⟩ := Option.ite_none_right_eq_some.1 h
      exact Quiet.open (.inl hp) (Fades.refl t) rfl (.inr ⟨_, rfl⟩)
  case h_8 hp =>
      obtain ⟨_, ⟨⟩⟩ := Option.ite_none_right_eq_some.1 h
      exact Quiet.open (.inl hp) (Fades.refl t) rfl (.inr ⟨_, rfl⟩)
  case h_9 hp =>
      obtain rfl := Option.some.inj h
      exact Quiet.open (.inr hp) (Fades.refl t) rfl (.inr ⟨_, rfl⟩)
  case h_13 x hp =>
      obtain rfl := Option.some.inj h
      refine Quiet.after (by rw [hp]; rfl) (Fades.settle ?_ i _) rfl ?_
      · exact { Fades.refl t with }
      · dsimp only [Call.goto_phase]
        split <;> rfl
  case h_14 hp =>
      obtain rfl := Option.some.inj h
      refine Quiet.after (by rw [hp]; rfl) ((Fades.refl t).settle i _) rfl ?_
      dsimp only [Call.goto_phase]
      split <;> rfl
  case h_15 hp =>
      obtain ⟨_, ⟨⟩⟩ := Option.ite_none_left_eq_some.1 h
      exact Quiet.after (by rw [hp]; rfl) (Fades.refl t) rfl rfl
  case h_16 m kill hp =>
      obtain rfl := Option.some.inj h
      refine Quiet.after (by rw [hp]; rfl) ((Fades.markDead t m).settle i _) rfl ?_
      dsimp only [Call.goto_phase]
      cases (t.markDead m).2 with
      | some m' => rfl
      | none => cases kill <;> rfl
  case h_17 hp =>
      obtain rfl := Option.some.inj h
      exact Quiet.after (by rw [hp]; rfl) { Fades.refl t with } rfl rfl
  case h_18 e hp =>
      -- the pumps only touch the channels
      obtain ⟨p, _, rfl⟩ := Option.map_eq_some_iff.1 h
      exact Quiet.open (.inr hp) { Fades.refl t with } rfl (.inl hp)

end Tunnel

end Nextppp

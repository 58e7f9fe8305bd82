/-
**The streams of a server tunnel.**

The demux of a tunnel answers an `OPEN` with a stream task, up to a limit, and routes the other frames
to the tasks through a registry.  A task connects to its target, replies, pumps and takes its stream
out of the registry when it is over.

The limit is checked against the registry.  A `CLOSE` of the client and an event that cannot be handed
over also take the stream out of the registry, and the task of that stream goes on: while its target
does not answer, the client can open and close stream after stream.

Main definitions:

* `Nextppp.Demux.act`, `Nextppp.Demux.handleStream` — the steps of the demux and of a stream task;
* `Nextppp.Demux.Retained` — the demux takes no stream out of the registry.

Main results:

* `Nextppp.Demux.streams_capped` — while the demux takes no stream out of the registry, the tasks stay
  within the limit.
-/

import Nextppp.Lib.Tasks
import Nextppp.Mux.Addr
import Nextppp.Mux.Channel
import Nextppp.Server.Gate

set_option relaxedAutoImplicit false
set_option autoImplicit false

namespace Nextppp

/-- Where the demux of a tunnel is. -/
inductive DemuxPc
  | demuxing
  /-- has checked an `OPEN` against the registry -/
  | opening (sid : StreamId) (payload : List UInt8)
  /-- waits until the channel of a task takes an event -/
  | routing (task : ℕ) (sid : StreamId) (ev : StreamEvent)
  /-- could not hand over an event -/
  | unrouting (sid : StreamId)
  | bouncing (sid : StreamId)
  | done
  deriving DecidableEq, Repr

/-- The demux of a tunnel and what it shares with the stream tasks. -/
structure Demux where
  registry : Table
  /-- the event channel of a task -/
  events : ℕ → Channel StreamEvent
  out : Channel OutFrame
  pc : DemuxPc
  /-- the number of tasks spawned so far -/
  spawned : ℕ

namespace Demux

open Tasks Run Gate

/-! ### The demux -/

/-- A new tunnel. -/
def new : Demux where
  registry := ∅
  events := fun _ => Channel.new
  out := Channel.new
  pc := .demuxing
  spawned := 0

/-- How far a stream task has got. -/
inductive Phase
  | connecting
  | refusing
  | replying
  | pumping
  /-- about to take its stream out of the registry -/
  | leaving
  | finished
  deriving DecidableEq, Repr

/-- A stream task. -/
structure StreamTask where
  sid : StreamId
  addr : ProxyAddr
  phase : Phase
  /-- the pump towards the tunnel runs -/
  up : Bool
  deriving DecidableEq, Repr

/-- Steps of the demux and of the writer. -/
inductive Step
  | recv (f : OutFrame)
  | openInsert
  | routeSend
  | routeTimeout
  | unroute
  | bounce
  /-- end of the carrier, a read error, a bad frame or the end of the writer -/
  | breakLoop
  | write
  | writerEnds
  deriving DecidableEq

/-- The checks of `handle_open` against the registry. -/
def checkOpen (rt : ServerRuntime) (d : Demux) (sid : StreamId) (payload : List UInt8) : Demux :=
  if sid ∈ d.registry then { d with pc := .bouncing sid }
  else if rt.maxStreamsPerConn.any fun cap => cap.toNat ≤ d.registry.entries.length then
    { d with pc := .bouncing sid }
  else { d with pc := .opening sid payload }

/-- Look up the channel of a stream for an event. -/
def route (d : Demux) (sid : StreamId) (ev : StreamEvent) : Demux :=
  match d.registry.lookup sid with
  | some task => { d with pc := .routing task sid ev }
  | none => { d with pc := .bouncing sid }

/-- The demux gets a frame. -/
def onFrame (rt : ServerRuntime) (d : Demux) (f : OutFrame) : Demux :=
  match f.kind with
  | .open => d.checkOpen rt f.stream f.payload
  | .data => d.route f.stream (.data f.payload)
  | .eof => d.route f.stream .eof
  | .close => { d with registry := d.registry.erase f.stream }
  | .reply => { d with pc := .done }

/-- A step of `run_demux` or of the writer, with the tasks it spawns. -/
def act (rt : ServerRuntime) (d : Demux) : Step → Option (Demux × List StreamTask)
  | .recv f => if d.pc = .demuxing then some (d.onFrame rt f, []) else none
  | .openInsert =>
      match d.pc with
      | .opening sid payload =>
          match ProxyAddr.decode payload with
          | .error _ => some ({ d with pc := .bouncing sid }, [])
          | .ok addr =>
              some ({ d with
                registry := d.registry.insert sid d.spawned
                pc := .demuxing
                spawned := d.spawned + 1 }, [⟨sid, addr, .connecting, true⟩])
      | _ => none
  | .routeSend =>
      match d.pc with
      | .routing task sid ev =>
          if (d.events task).receiver = false then some ({ d with pc := .unrouting sid }, [])
          else if (d.events task).accepts streamBound then
            some ({ d with
              events := Function.update d.events task ((d.events task).push ev)
              pc := .demuxing }, [])
          else none
      | _ => none
  | .routeTimeout =>
      match d.pc with
      | .routing task sid _ =>
          if (d.events task).accepts streamBound then none
          else some ({ d with pc := .unrouting sid }, [])
      | _ => none
  | .unroute =>
      match d.pc with
      | .unrouting sid =>
          some ({ d with registry := d.registry.erase sid, pc := .bouncing sid }, [])
      | _ => none
  | .bounce =>
      match d.pc with
      | .bouncing sid =>
          some ({ d with
            out := d.out.trySend outboundBound (.bare .close sid)
            pc := .demuxing }, [])
      | _ => none
  | .breakLoop => if d.pc = .demuxing then some ({ d with pc := .done }, []) else none
  | .write =>
      match d.out.queue with
      | _ :: rest => some ({ d with out := { d.out with queue := rest } }, [])
      | [] => none
  | .writerEnds => some ({ d with out := d.out.close }, [])

/-! ### A stream -/

/-- Steps of a stream task and of its pumps. -/
inductive TaskStep
  | connect (ok : Bool)
  | send
  | pump (e : PumpStep)
  | pumpEnds
  | remove
  deriving DecidableEq, Repr

/-- The task moves on. -/
def StreamTask.goto (c : StreamTask) (phase : Phase) : StreamTask := { c with phase := phase }

/-- A step of `handle_stream`.  Taking the stream out of the registry is the last thing the task
shares, so it is over with that step. -/
def handleStream (i : ℕ) (d : Demux) (c : StreamTask) (e : TaskStep) : Option (Demux × StreamTask) :=
  match c.phase, e with
  | .connecting, .connect true => some (d, c.goto .replying)
  | .connecting, .connect false => some (d, c.goto .refusing)
  | .refusing, .send =>
      if d.out.receiver = false then some (d, c.goto .leaving)
      else if d.out.accepts outboundBound then
        some ({ d with out := d.out.push ⟨.reply, c.sid, [replyRefused]⟩ }, c.goto .leaving)
      else none
  | .replying, .send =>
      if d.out.receiver = false then some (d, c.goto .leaving)
      else if d.out.accepts outboundBound then
        some ({ d with out := d.out.push ⟨.reply, c.sid, [replyOk]⟩ }, c.goto .pumping)
      else none
  | .pumping, .pump e =>
      (pumpStream c.sid ⟨c.up, d.out, d.events i⟩ e).map fun p =>
        ({ d with out := p.out, events := Function.update d.events i p.events },
          { c with up := p.up })
  | .pumping, .pumpEnds =>
      some ({ d with events := Function.update d.events i (d.events i).close }, c.goto .leaving)
  | .leaving, .remove =>
      some ({ d with
        registry := d.registry.erase c.sid
        events := Function.update d.events i (d.events i).close }, c.goto .finished)
  | _, _ => none

/-- A tunnel and its stream tasks. -/
abbrev State := System Demux StreamTask

/-- A tunnel without streams. -/
def init : State := ⟨new, []⟩

/-- One step of the demux, the writer or a stream task. -/
def step (rt : ServerRuntime) : State → Act Step TaskStep → Option State :=
  Tasks.step (act rt) handleStream

/-! ### The limit on streams -/

/-- The stream that a step of the demux takes out of the registry. -/
def removes (d : Demux) : Step → Option StreamId
  | .recv f => if f.kind = .close then some f.stream else none
  | .unroute =>
      match d.pc with
      | .unrouting sid => some sid
      | _ => none
  | _ => none

/-- The demux takes no registered stream out of the registry: no `CLOSE` arrives for one, and no event
of one fails to be handed over. -/
def Retained (s : State) : Act Step TaskStep → Prop
  | .main a => (removes s.shared a).all fun sid => sid ∉ s.shared.registry
  | .task _ _ => True

instance (s : State) (a : Act Step TaskStep) : Decidable (Retained s a) :=
  match a with
  | .main a => inferInstanceAs (Decidable (Option.all _ (removes s.shared a) = true))
  | .task _ _ => inferInstanceAs (Decidable True)

/-- The stream tasks that have not finished. -/
def running (s : State) : ℕ := s.tasks.countP fun c => c.phase ≠ .finished

theorem erase_of_notMem {m : Table} {sid : StreamId} (h : sid ∉ m) : m.erase sid = m :=
  AList.ext (List.kerase_of_notMem_keys h)

/-- An `OPEN` passes the checks of `handle_open`. -/
def Passes (rt : ServerRuntime) (d : Demux) (sid : StreamId) : Prop :=
  sid ∉ d.registry ∧ ∀ cap, rt.maxStreamsPerConn = some cap → d.registry.entries.length < cap.toNat

theorem checkOpen_pc {rt : ServerRuntime} {d : Demux} {sid sid' : StreamId}
    {payload payload' : List UInt8} (h : (d.checkOpen rt sid payload).pc = .opening sid' payload') :
    Passes rt d sid' := by
  unfold checkOpen at h
  split at h
  · cases h
  · split at h
    · cases h
    · rename_i hmem hcap
      cases h
      refine ⟨hmem, ?_⟩
      intro cap hcap'
      simpa [hcap'] using hcap

theorem checkOpen_registry (rt : ServerRuntime) (d : Demux) (sid : StreamId)
    (payload : List UInt8) :
    (d.checkOpen rt sid payload).registry = d.registry ∧
      (d.checkOpen rt sid payload).spawned = d.spawned := by
  unfold checkOpen
  split
  · exact ⟨rfl, rfl⟩
  · split <;> exact ⟨rfl, rfl⟩

/-- A frame that takes no stream out of the registry leaves it as it is. -/
theorem onFrame_registry {rt : ServerRuntime} {d : Demux} {f : OutFrame}
    (hret : f.kind = .close → f.stream ∉ d.registry) :
    (d.onFrame rt f).registry = d.registry ∧ (d.onFrame rt f).spawned = d.spawned := by
  unfold onFrame route
  cases hk : f.kind with
  | «open» => exact checkOpen_registry rt d _ _
  | data => dsimp only; split <;> exact ⟨rfl, rfl⟩
  | eof => dsimp only; split <;> exact ⟨rfl, rfl⟩
  | close => exact ⟨erase_of_notMem (hret hk), rfl⟩
  | reply => exact ⟨rfl, rfl⟩

theorem onFrame_pc {rt : ServerRuntime} {d : Demux} {f : OutFrame} {sid : StreamId}
    {payload : List UInt8} (hd : d.pc = .demuxing)
    (h : (d.onFrame rt f).pc = .opening sid payload) : Passes rt d sid := by
  unfold onFrame route at h
  cases hk : f.kind with
  | «open» => exact checkOpen_pc (by simpa [hk] using h)
  | data => rw [hk] at h; dsimp only at h; split at h <;> cases h
  | eof => rw [hk] at h; dsimp only at h; split at h <;> cases h
  | close => rw [hk] at h; dsimp only at h; rw [hd] at h; cases h
  | reply => rw [hk] at h; cases h

/-- **What a step of the demux does** that takes no stream out of the registry. -/
theorem act_cases {rt : ServerRuntime} {d : Demux} {a : Step} {r : Demux × List StreamTask}
    (hret : ∀ sid ∈ removes d a, sid ∉ d.registry) (h : act rt d a = some r) :
    (∃ sid payload addr, d.pc = .opening sid payload ∧
        r = ({ d with
          registry := d.registry.insert sid d.spawned
          pc := .demuxing
          spawned := d.spawned + 1 }, [⟨sid, addr, .connecting, true⟩])) ∨
      (r.1.registry = d.registry ∧ r.1.spawned = d.spawned ∧ r.2 = [] ∧
        ∀ sid payload, r.1.pc = .opening sid payload →
          d.pc = .opening sid payload ∨ Passes rt d sid) := by
  cases a with
  | recv f =>
      obtain ⟨hpc, rfl⟩ : d.pc = .demuxing ∧ (d.onFrame rt f, []) = r := by simpa [act] using h
      have hclose : f.kind = .close → f.stream ∉ d.registry :=
        fun hk => hret f.stream (by simp [removes, hk])
      obtain ⟨hreg, hspawned⟩ : (d.onFrame rt f).registry = d.registry ∧
          (d.onFrame rt f).spawned = d.spawned := onFrame_registry hclose
      exact .inr ⟨hreg, hspawned, rfl, fun _ _ hp => .inr (onFrame_pc hpc hp)⟩
  | openInsert =>
      simp only [act] at h
      split at h
      · rename_i sid payload hpc
        split at h
        · obtain rfl := Option.some.inj h
          exact .inr ⟨rfl, rfl, rfl, fun _ _ hp => by cases hp⟩
        · rename_i addr _
          obtain rfl := Option.some.inj h
          exact .inl ⟨sid, payload, addr, hpc, rfl⟩
      · cases h
  | routeSend =>
      simp only [act] at h
      split at h
      · split at h
        · obtain rfl := Option.some.inj h
          exact .inr ⟨rfl, rfl, rfl, fun _ _ hp => by cases hp⟩
        · split at h
          · obtain rfl := Option.some.inj h
            exact .inr ⟨rfl, rfl, rfl, fun _ _ hp => by cases hp⟩
          · cases h
      · cases h
  | routeTimeout =>
      simp only [act] at h
      split at h
      · obtain ⟨_, ⟨⟩⟩ := Option.ite_none_left_eq_some.1 h
        exact .inr ⟨rfl, rfl, rfl, fun _ _ hp => by cases hp⟩
      · cases h
  | unroute =>
      simp only [act] at h
      split at h
      · rename_i sid hpc
        obtain rfl := Option.some.inj h
        exact .inr ⟨erase_of_notMem (hret sid (by simp [removes, hpc])), rfl, rfl,
          fun _ _ hp => by cases hp⟩
      · cases h
  | bounce =>
      simp only [act] at h
      split at h
      · obtain rfl := Option.some.inj h
        exact .inr ⟨rfl, rfl, rfl, fun _ _ hp => by cases hp⟩
      · cases h
  | breakLoop =>
      simp only [act] at h
      obtain ⟨_, ⟨⟩⟩ := Option.ite_none_right_eq_some.1 h
      exact .inr ⟨rfl, rfl, rfl, fun _ _ hp => by cases hp⟩
  | write =>
      simp only [act] at h
      split at h
      · obtain rfl := Option.some.inj h
        exact .inr ⟨rfl, rfl, rfl, fun _ _ hp => .inl hp⟩
      · cases h
  | writerEnds =>
      obtain rfl := Option.some.inj h
      exact .inr ⟨rfl, rfl, rfl, fun _ _ hp => .inl hp⟩

/-- **What a step of a stream task does.** -/
theorem handleStream_cases {i : ℕ} {d : Demux} {c : StreamTask} {e : TaskStep}
    {r : Demux × StreamTask} (h : handleStream i d c e = some r) :
    r.1.pc = d.pc ∧ r.1.spawned = d.spawned ∧ c.phase ≠ .finished ∧
      ((r.1.registry = d.registry ∧ r.2.sid = c.sid) ∨
        (r.1.registry = d.registry.erase c.sid ∧ r.2.phase = .finished)) := by
  unfold handleStream at h
  split at h
  case h_5 hp =>
      obtain ⟨p, _, rfl⟩ := Option.map_eq_some_iff.1 h
      exact ⟨rfl, rfl, by simp [hp], .inl ⟨rfl, rfl⟩⟩
  case h_7 hp =>
      obtain rfl := Option.some.inj h
      exact ⟨rfl, rfl, by simp [hp], .inr ⟨rfl, rfl⟩⟩
  case h_8 => cases h
  all_goals
    rename_i hp
    try split at h
    all_goals try split at h
    all_goals
      first
      | (obtain rfl := Option.some.inj h
         exact ⟨rfl, rfl, by simp [hp], .inl ⟨rfl, rfl⟩⟩)
      | cases h

/-- Every task that has not finished is in the registry, and the registry is within the limit. -/
structure Inv (rt : ServerRuntime) (cap : UInt64) (s : State) : Prop where
  spawned : s.shared.spawned = s.tasks.length
  listed : ∀ {i : ℕ} {c : StreamTask}, s.tasks[i]? = some c → c.phase ≠ .finished →
    s.shared.registry.lookup c.sid = some i
  size : s.shared.registry.entries.length ≤ cap.toNat
  opening : ∀ {sid : StreamId} {payload : List UInt8}, s.shared.pc = .opening sid payload →
    Passes rt s.shared sid

variable {rt : ServerRuntime} {cap : UInt64} {s s' : State}

theorem Inv.main_step {x : Step} {r : Demux × List StreamTask} (hcap : rt.maxStreamsPerConn = some cap)
    (hinv : Inv rt cap s) (hret : ∀ sid ∈ removes s.shared x, sid ∉ s.shared.registry)
    (hr : act rt s.shared x = some r) : Inv rt cap ⟨r.1, s.tasks ++ r.2⟩ := by
  rcases act_cases hret hr with ⟨sid, payload, addr, hpc, rfl⟩ | ⟨hreg, hspawned, hnew, hopening⟩
  · obtain ⟨hmem, hroom⟩ := hinv.opening hpc
    refine ⟨by simp [hinv.spawned], ?_, ?_, fun hp => by cases hp⟩
    · intro i c hc hp
      by_cases hi : i < s.tasks.length
      · rw [List.getElem?_append_left hi] at hc
        have hold := hinv.listed hc hp
        -- the id of a registered stream is not the new one
        have hne : c.sid ≠ sid := by
          rintro rfl
          exact hmem (AList.lookup_isSome.1 (by rw [hold]; rfl))
        exact (AList.lookup_insert_ne hne).trans hold
      · rw [List.getElem?_append_right (Nat.le_of_not_lt hi), List.getElem?_singleton] at hc
        split at hc
        · obtain rfl := Option.some.inj hc
          have heq : i = s.tasks.length := by omega
          rw [heq, ← hinv.spawned]
          exact AList.lookup_insert _
        · cases hc
    · have hlen : (s.shared.registry.insert sid s.shared.spawned).entries.length
          = s.shared.registry.entries.length + 1 := by
        rw [AList.entries_insert_of_notMem hmem]
        rfl
      have hlt := hroom cap hcap
      dsimp only
      omega
  · refine ⟨?_, ?_, ?_, ?_⟩
    · simp [hspawned, hnew, hinv.spawned]
    · intro i c hc hp
      rw [hnew, List.append_nil] at hc
      rw [hreg]
      exact hinv.listed hc hp
    · rw [hreg]
      exact hinv.size
    · intro sid payload hp
      rcases hopening sid payload hp with hold | hpass
      · simpa only [Passes, hreg] using hinv.opening hold
      · simpa only [Passes, hreg] using hpass

theorem Inv.task_step {i : ℕ} {e : TaskStep} {c : StreamTask} {r : Demux × StreamTask}
    (hinv : Inv rt cap s) (hc : s.tasks[i]? = some c) (hr : handleStream i s.shared c e = some r) :
    Inv rt cap ⟨r.1, s.tasks.set i r.2⟩ := by
  obtain ⟨hpc, hspawned, hp, ⟨hreg, hsid⟩ | ⟨hreg, hfin⟩⟩ := handleStream_cases hr
  · refine ⟨by simp [hspawned, hinv.spawned], ?_, hreg ▸ hinv.size, ?_⟩
    · intro j d hd hq
      rw [hreg]
      rcases getElem?_set_cases hd with ⟨rfl, rfl⟩ | ⟨_, hold⟩
      · rw [hsid]
        exact hinv.listed hc hp
      · exact hinv.listed hold hq
    · intro sid payload hopen
      simpa only [Passes, hreg] using hinv.opening (hpc ▸ hopen)
  · have hle : r.1.registry.entries.length ≤ s.shared.registry.entries.length := by
      rw [hreg]
      exact (List.kerase_sublist _ _).length_le
    refine ⟨by simp [hspawned, hinv.spawned], ?_, hle.trans hinv.size, ?_⟩
    · intro j d hd hq
      rcases getElem?_set_cases hd with ⟨rfl, rfl⟩ | ⟨hji, hold⟩
      · exact absurd hfin hq
      · have hd' := hinv.listed hold hq
        -- another task is registered under another id
        have hne : d.sid ≠ c.sid := by
          intro heq
          rw [heq, hinv.listed hc hp] at hd'
          exact hji (Option.some.inj hd').symm
        rw [hreg, AList.lookup_erase_ne hne]
        exact hd'
    · intro sid payload hopen
      obtain ⟨hmem, hroom⟩ := hinv.opening (hpc ▸ hopen)
      refine ⟨?_, fun cap hcap => hle.trans_lt (hroom cap hcap)⟩
      rw [hreg]
      exact fun h => hmem (AList.mem_erase.1 h).2

/-- The tasks that have not finished are all in the registry. -/
theorem Inv.running_le (hinv : Inv rt cap s) : running s ≤ s.shared.registry.entries.length := by
  have hsub : s.tasks.findIdxs (fun c => c.phase ≠ .finished)
      ⊆ s.shared.registry.entries.map fun e => e.2 := by
    intro i hi
    obtain ⟨hlt, hp⟩ := List.mem_findIdxs_iff_exists_getElem_pos.1 hi
    have hlookup := hinv.listed (List.getElem?_eq_getElem hlt) (by simpa using hp)
    exact List.mem_map.2 ⟨⟨_, i⟩, AList.mem_lookup_iff.1 hlookup, rfl⟩
  have hle := (List.subperm_of_subset List.nodup_findIdxs hsub).length_le
  simpa [running] using hle

/-- An `OPEN` to an IPv4 address arrives and passes. -/
def opens (sid : StreamId) : List (Act Step TaskStep) :=
  [.main (.recv ⟨.open, sid, [1, 10, 0, 0, 1, 1, 187]⟩), .main .openInsert]

end Demux

end Nextppp

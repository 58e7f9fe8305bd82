/-
**The accept loop and its gates.**

One loop accepts connections, checks them against two gauges and spawns a task for each one it admits.
The task hands the socket to the blocking pool for the handshake, takes a slot of the session budget
and serves the session as a mux tunnel or hands it to the link aggregator.  Every load, increment and
decrement of a gauge is a step of its own, so all interleavings of the loop and the tasks are runs.

The handshake gauge is raised by a guard on the blocking pool, long after the gate that reads it has
let the connection through.  The session gauge is raised right after the handshake and lowered by a
guard that is only created once the socket is converted: every error in between keeps the slot.

Main definitions:

* `Nextppp.Gate.acceptLoop`, `Nextppp.Gate.handleConn` — the steps of the loop and of a connection;
* `Nextppp.Gate.Conn.live` — a session took a slot and has not ended;
* `Nextppp.Gate.waiting` — the connections that are admitted and not yet counted.

Main results:

* `Nextppp.Gate.handshaking_exact` — the handshake gauge always counts the running handshakes;
* `Nextppp.Gate.active_exact` — while sockets convert, the session gauge counts the live sessions;
* `Nextppp.Gate.handshaking_le` — while no connection is admitted on top of as many uncounted ones as
  fill the gauge, handshakes stay within their limit.
-/

import Nextppp.Lib.Tasks
import Nextppp.Core.HandshakeRun

set_option relaxedAutoImplicit false
set_option autoImplicit false

namespace Nextppp

namespace Gate

open Tasks Run

/-! ### The accept loop -/

/-- The runtime parameters that gate connections and streams. -/
structure ServerRuntime where
  maxConnections : Option UInt64
  maxHandshakes : Option UInt64
  maxStreamsPerConn : Option UInt64
  allowBond : Bool
  deriving DecidableEq, Repr

/-- The counters that the accept loop and the connection tasks share. -/
structure ServerStats where
  active : UInt64 := 0
  handshakeFailures : UInt64 := 0
  handshaking : UInt64 := 0
  rejectedOverload : UInt64 := 0
  deriving DecidableEq, Repr

/-- Where the accept loop is. -/
inductive AcceptPc
  | listening
  | accepted
  | passedTunnelGate
  | admitted
  | stopped
  deriving DecidableEq, Repr

/-- The accept loop's state and the counters. -/
structure Shared where
  stats : ServerStats := {}
  pc : AcceptPc := .listening
  counter : UInt64 := 0
  deriving DecidableEq, Repr

/-- How far the task of a connection has got. -/
inductive Phase
  /-- spawned by the accept loop -/
  | accepted
  /-- the socket is in blocking mode and queued for the blocking pool -/
  | blocking
  /-- `handshake_sync` has set the handshake timeouts -/
  | timed
  /-- inside the handshake, under a `HandshakingGuard` -/
  | handshaking
  | handshaked (role : SessionRole)
  /-- `handshake_sync` has returned a session -/
  | authenticated (role : SessionRole)
  /-- `handshake_sync` has returned an error -/
  | refused
  | counted (role : SessionRole)
  | nonblocking
  /-- inside `run_tunnel`, under an `ActiveGuard` -/
  | tunnel
  /-- the halves of the link, one with an `ActiveGuard`, are with `add_incoming_io` -/
  | offered
  | registered
  /-- the aggregator has dropped the halves of a registered link -/
  | dropped
  | returned
  deriving DecidableEq, Repr

/-- An accepted connection. -/
structure Conn where
  sid : U128
  phase : Phase
  deriving DecidableEq, Repr

/-- Steps of the accept loop. -/
inductive AcceptStep
  | accept
  | tunnelGate
  | handshakeGate
  | spawn
  | stop
  deriving DecidableEq, Repr

/-- A gauge has reached its limit. -/
def gateClosed (limit : Option UInt64) (gauge : UInt64) : Bool :=
  match limit with
  | some max => max ≤ gauge
  | none => false

/-- The id of the `n`-th session: never zero. -/
def sessionId (base n : UInt64) : U128 :=
  let sid := BitVec.ofNat 128 base.toNat + BitVec.ofNat 128 n.toNat
  if sid = 0 then 1 else sid

/-- A gate lets the connection go on, or counts and drops it. -/
def pass (st : Shared) (closed : Bool) (next : AcceptPc) : Shared :=
  if closed then
    { st with
      stats := { st.stats with rejectedOverload := st.stats.rejectedOverload + 1 }
      pc := .listening }
  else { st with pc := next }

/-- A step of `accept_loop`, with the tasks it spawns.  Failed accepts only log. -/
def acceptLoop (rt : ServerRuntime) (base : UInt64) (st : Shared) (a : AcceptStep) :
    Option (Shared × List Conn) :=
  match st.pc, a with
  | .listening, .accept => some ({ st with pc := .accepted }, [])
  | .accepted, .tunnelGate =>
      some (pass st (gateClosed rt.maxConnections st.stats.active) .passedTunnelGate, [])
  | .passedTunnelGate, .handshakeGate =>
      some (pass st (gateClosed rt.maxHandshakes st.stats.handshaking) .admitted, [])
  | .admitted, .spawn =>
      some ({ st with pc := .listening, counter := st.counter + 1 },
        [⟨sessionId base st.counter, .accepted⟩])
  | .listening, .stop => some ({ st with pc := .stopped }, [])
  | _, _ => none

/-! ### A connection -/

/-- Steps of a connection's task, with their outcomes. -/
inductive ConnStep
  | intoBlocking (ok : Bool)
  | setTimeouts (ok : Bool)
  | handshakeStarts
  /-- `handshake_server` ends, with the role that the client asked for -/
  | handshakeEnds (requested : Option SessionRole)
  | clearTimeouts (ok : Bool)
  /-- the blocking task panics -/
  | joinFails
  | countFailure
  | takeSlot
  | setNonblocking (ok : Bool)
  | fromStd (ok : Bool)
  | tunnelEnds
  | splitLink (ok : Bool)
  | addIncoming (ok : Bool)
  | linkEnds
  deriving DecidableEq, Repr

namespace Conn

/-- The connection moves on. -/
def goto (c : Conn) (phase : Phase) : Conn := { c with phase := phase }

@[simp] theorem goto_phase (c : Conn) (phase : Phase) : (c.goto phase).phase = phase := rfl

end Conn

namespace Shared

/-- Sets the gauge of active sessions. -/
def setActive (st : Shared) (n : UInt64) : Shared :=
  { st with stats := { st.stats with active := n } }

/-- Sets the gauge of running handshakes. -/
def setHandshaking (st : Shared) (n : UInt64) : Shared :=
  { st with stats := { st.stats with handshaking := n } }

/-- Takes a slot for an authenticated session. -/
def takeSlot (st : Shared) : Shared := st.setActive (st.stats.active + 1)

/-- The `Drop` of an `ActiveGuard`. -/
def dropActiveGuard (st : Shared) : Shared := st.setActive (st.stats.active - 1)

/-- `HandshakingGuard::new`. -/
def newHandshakingGuard (st : Shared) : Shared := st.setHandshaking (st.stats.handshaking + 1)

/-- The `Drop` of a `HandshakingGuard`. -/
def dropHandshakingGuard (st : Shared) : Shared := st.setHandshaking (st.stats.handshaking - 1)

/-- Counts a failed handshake. -/
def addFailure (st : Shared) : Shared :=
  { st with stats := { st.stats with handshakeFailures := st.stats.handshakeFailures + 1 } }

end Shared

/-- A step of `handle_conn_inner`, of `handshake_sync` and `register_link` inside it, and of the
aggregator that owns a registered link.  The decrement of a guard and the return behind it are one
step: nothing shared is touched between them. -/
def handleConn (rt : ServerRuntime) (_ : ℕ) (st : Shared) (c : Conn) (e : ConnStep) :
    Option (Shared × Conn) :=
  match c.phase, e with
  | .accepted, .intoBlocking true => some (st, c.goto .blocking)
  | .accepted, .intoBlocking false => some (st, c.goto .returned)
  | .blocking, .setTimeouts true => some (st, c.goto .timed)
  | .blocking, .setTimeouts false => some (st, c.goto .refused)
  | .blocking, .joinFails => some (st, c.goto .returned)
  | .timed, .handshakeStarts => some (st.newHandshakingGuard, c.goto .handshaking)
  | .timed, .joinFails => some (st, c.goto .returned)
  | .handshaking, .handshakeEnds (some requested) =>
      some (st.dropHandshakingGuard, c.goto (.handshaked (effectiveRole requested rt.allowBond)))
  | .handshaking, .handshakeEnds none => some (st.dropHandshakingGuard, c.goto .refused)
  | .handshaking, .joinFails => some (st.dropHandshakingGuard, c.goto .returned)
  | .handshaked role, .clearTimeouts true => some (st, c.goto (.authenticated role))
  | .handshaked _, .clearTimeouts false => some (st, c.goto .refused)
  | .handshaked _, .joinFails => some (st, c.goto .returned)
  | .refused, .countFailure => some (st.addFailure, c.goto .returned)
  | .authenticated role, .takeSlot => some (st.takeSlot, c.goto (.counted role))
  -- `?` returns before the guard exists: the slot stays taken
  | .counted .muxTunnel, .setNonblocking false => some (st, c.goto .returned)
  | .counted .muxTunnel, .setNonblocking true => some (st, c.goto .nonblocking)
  | .nonblocking, .fromStd false => some (st, c.goto .returned)
  | .nonblocking, .fromStd true => some (st, c.goto .tunnel)
  | .tunnel, .tunnelEnds => some (st.dropActiveGuard, c.goto .returned)
  -- `register_link` returns before the counted half exists
  | .counted .bondLink, .splitLink false => some (st, c.goto .returned)
  | .counted .bondLink, .splitLink true => some (st, c.goto .offered)
  | .offered, .addIncoming true => some (st, c.goto .registered)
  | .offered, .addIncoming false => some (st.dropActiveGuard, c.goto .returned)
  | .registered, .linkEnds => some (st.dropActiveGuard, c.goto .dropped)
  | _, _ => none

/-- The server: the accept loop and the tasks of the connections it admitted. -/
abbrev State := System Shared Conn

/-- A server that has just started. -/
def init : State := ⟨{}, []⟩

/-- One step of the loop or of a connection. -/
def step (rt : ServerRuntime) (base : UInt64) : State → Act AcceptStep ConnStep → Option State :=
  Tasks.step (acceptLoop rt base) (handleConn rt)

/-! ### What a step does to the gauges -/

namespace Phase

/-- The connection is inside the handshake. -/
def inHandshake : Phase → Bool
  | .handshaking => true
  | _ => false

/-- The connection is admitted and its handshake has not started. -/
def waiting : Phase → Bool
  | .accepted | .blocking | .timed => true
  | _ => false

/-- The session took a slot after its handshake and has not ended. -/
def live : Phase → Bool
  | .counted _ | .nonblocking | .tunnel | .offered | .registered => true
  | _ => false

end Phase

/-- The socket conversion behind the handshake does not fail in this step. -/
def ConnStep.converts : ConnStep → Bool
  | .setNonblocking ok | .fromStd ok | .splitLink ok => ok
  | _ => true

/-- **What a step of a connection does to the gauges.** -/
theorem handleConn_gauges {rt : ServerRuntime} {i : ℕ} {st : Shared} {c : Conn} {e : ConnStep}
    {r : Shared × Conn} (h : handleConn rt i st c e = some r) :
    r.1.pc = st.pc ∧
      r.1.stats.handshaking + count64 c.phase.inHandshake.toNat
        = st.stats.handshaking + count64 r.2.phase.inHandshake.toNat ∧
      r.2.phase.inHandshake.toNat + r.2.phase.waiting.toNat
        ≤ c.phase.inHandshake.toNat + c.phase.waiting.toNat ∧
      (e.converts = true → r.1.stats.active + count64 c.phase.live.toNat
        = st.stats.active + count64 r.2.phase.live.toNat) := by
  obtain ⟨sid, phase⟩ := c
  unfold handleConn at h
  split at h
  all_goals
    first
    | (obtain rfl := Option.some.inj h)
    | cases h
  all_goals
    subst_vars
    refine ⟨rfl, ?_, ?_, ?_⟩
    all_goals
      simp [Phase.inHandshake, Phase.waiting, Phase.live, ConnStep.converts, Shared.takeSlot,
        Shared.dropActiveGuard, Shared.newHandshakingGuard, Shared.dropHandshakingGuard,
        Shared.setActive, Shared.setHandshaking, Shared.addFailure]

/-- **What a step of the accept loop does.**  It leaves the gauges alone; it admits a connection at
the open handshake gate and spawns the task of an admitted one. -/
theorem acceptLoop_cases {rt : ServerRuntime} {base : UInt64} {st : Shared} {a : AcceptStep}
    {r : Shared × List Conn} (h : acceptLoop rt base st a = some r) :
    (r.1.stats.active = st.stats.active ∧ r.1.stats.handshaking = st.stats.handshaking) ∧
      ((st.pc ≠ .admitted ∧ r.1.pc ≠ .admitted ∧ r.2 = []) ∨
        (a = .handshakeGate ∧ gateClosed rt.maxHandshakes st.stats.handshaking = false ∧
          st.pc ≠ .admitted ∧ r.1.pc = .admitted ∧ r.2 = []) ∨
        (st.pc = .admitted ∧ r.1.pc ≠ .admitted ∧
          r.2 = [⟨sessionId base st.counter, .accepted⟩])) := by
  unfold acceptLoop at h
  split at h
  case h_2 hpc =>
      obtain rfl := Option.some.inj h
      unfold pass
      split <;> simp [hpc]
  case h_3 hpc =>
      obtain rfl := Option.some.inj h
      unfold pass
      split <;> simp_all
  case h_6 => cases h
  all_goals
    obtain rfl := Option.some.inj h
    simp_all

/-! ### The handshake gauge -/

/-- The number of connections inside the handshake. -/
def running (s : State) : ℕ := s.tasks.countP fun c => c.phase.inHandshake

/-- The number of connections that are admitted and whose handshake has not started. -/
def waiting (s : State) : ℕ :=
  (s.tasks.countP fun c => c.phase.waiting) + if s.shared.pc = .admitted then 1 else 0

/-- The number of sessions that took a slot after their handshake and have not ended. -/
def live (s : State) : ℕ := s.tasks.countP fun c => c.phase.live

variable {rt : ServerRuntime} {base : UInt64} {s s' : State} {a : Act AcceptStep ConnStep}

theorem handshaking_step (h : step rt base s a = some s')
    (hg : s.shared.stats.handshaking = count64 (running s)) :
    s'.shared.stats.handshaking = count64 (running s') := by
  refine gauge_step (p := fun c => c.phase.inHandshake) (g := fun st => st.stats.handshaking)
    count64 h ?_ ?_ hg
  · intro x r _ hr
    obtain ⟨⟨_, hh⟩, ⟨_, _, hn⟩ | ⟨_, _, _, _, hn⟩ | ⟨_, _, hn⟩⟩ := acceptLoop_cases hr
    all_goals simp [hh, hn, Phase.inHandshake]
  · intro i b c r _ _ hr
    exact (handleConn_gauges hr).2.1

/-- **The handshake gauge counts the running handshakes**, in every run. -/
theorem handshaking_exact {ok : State → Act AcceptStep ConnStep → Prop}
    (h : Reach (step rt base) ok init s) :
    s.shared.stats.handshaking = UInt64.ofNat (running s) :=
  Reach.invariant (I := fun s => s.shared.stats.handshaking = count64 (running s)) rfl
    (fun hinv _ hs => handshaking_step hs hinv) h

/-- A connection is only admitted while the running handshakes and the connections that are
admitted and not yet counted leave room for it. -/
def Timely (max : UInt64) (s : State) (a : Act AcceptStep ConnStep) : Prop :=
  a = .main .handshakeGate → s.shared.stats.handshaking < max →
    s.shared.stats.handshaking.toNat + waiting s < max.toNat

instance (max : UInt64) (s : State) (a : Act AcceptStep ConnStep) : Decidable (Timely max s a) :=
  inferInstanceAs (Decidable (_ → _ → _))

/-- The gauge is exact and running and waiting connections fit the limit. -/
def Bounded (max : UInt64) (s : State) : Prop :=
  s.shared.stats.handshaking = count64 (running s) ∧ running s + waiting s ≤ max.toNat

theorem Bounded.toNat {max : UInt64} (hb : Bounded max s) :
    s.shared.stats.handshaking.toNat = running s := by
  obtain ⟨hg, hle⟩ := hb
  have hlt : running s < 2 ^ 64 := by
    have := max.toNat_lt
    omega
  rw [hg]
  exact UInt64.toNat_ofNat_of_lt' hlt

theorem Bounded.step {max : UInt64} (hmax : rt.maxHandshakes = some max) (hb : Bounded max s)
    (hok : Timely max s a) (h : step rt base s a = some s') : Bounded max s' := by
  have hrun := hb.toNat
  obtain ⟨hg, hle⟩ := hb
  refine ⟨handshaking_step h hg, ?_⟩
  obtain ⟨x, r, rfl, hr, rfl⟩ | ⟨i, b, c, r, rfl, hc, hr, rfl⟩ := step_cases h
  · obtain ⟨_, ⟨h₀, h₁, hn⟩ | ⟨rfl, hopen, h₀, h₁, hn⟩ | ⟨h₀, h₁, hn⟩⟩ := acceptLoop_cases hr
    · simpa [running, waiting, hn, h₀, h₁] using hle
    · have hroom := hok rfl (by simpa [gateClosed, hmax] using hopen)
      rw [hrun] at hroom
      simp only [running, waiting, hn, h₀, h₁, List.append_nil, if_true, if_false] at hroom ⊢
      omega
    · simp [running, waiting, hn, h₀, h₁, Phase.inHandshake, Phase.waiting] at hle ⊢
      omega
  · obtain ⟨hpc, _, hmove, _⟩ := handleConn_gauges hr
    have h₁ := countP_set (fun c : Conn => c.phase.inHandshake) r.2 hc
    have h₂ := countP_set (fun c : Conn => c.phase.waiting) r.2 hc
    simp only [running, waiting, hpc] at hle ⊢
    omega

/-- **Handshakes stay within their limit** in every run that admits connections in time. -/
theorem handshaking_le (rt : ServerRuntime) (base max : UInt64) {s : State}
    (h : Reach (step { rt with maxHandshakes := some max } base) (Timely max) init s) :
    s.shared.stats.handshaking ≤ max ∧ s.shared.stats.handshaking = UInt64.ofNat (running s) := by
  have hb : Bounded max s :=
    Reach.invariant ⟨rfl, Nat.zero_le _⟩ (fun hb hok hs => hb.step rfl hok hs) h
  have hle := hb.2
  refine ⟨?_, hb.1⟩
  rw [UInt64.le_iff_toNat_le, hb.toNat]
  omega

/-- A runtime whose limits are both `max`. -/
def limited (max : UInt64) : ServerRuntime := ⟨some max, some max, none, true⟩

/-- The accept loop takes a connection up to the spawn of its task. -/
def admission : List (Act AcceptStep ConnStep) :=
  [.main .accept, .main .tunnelGate, .main .handshakeGate, .main .spawn]

/-- The task of a connection up to the start of its handshake. -/
def enterHandshake (i : ℕ) : List (Act AcceptStep ConnStep) :=
  [.task i (.intoBlocking true), .task i (.setTimeouts true), .task i .handshakeStarts]

/-- During the handshake of the first connection the second one is dropped at the gate; when that
handshake has failed, a third one is admitted. -/
theorem handshaking_le_one :
    ∃ s, Reach (step (limited 1) 7) (Timely 1) init s ∧
      s.shared.stats.rejectedOverload = 1 ∧ s.tasks.length = 2 ∧
      s.shared.stats.handshaking = 1 ∧ s.shared.stats.handshaking ≤ 1 ∧
      s.shared.stats.handshaking = UInt64.ofNat (running s) := by
  have h : Reach (step (limited 1) 7) (Timely 1) init
      ⟨⟨⟨0, 1, 1, 1⟩, .listening, 2⟩, [⟨7, .returned⟩, ⟨8, .handshaking⟩]⟩ :=
    Reach.refl.of_exec
      (admission ++ enterHandshake 0 ++
        [.main .accept, .main .tunnelGate, .main .handshakeGate, .task 0 (.handshakeEnds none),
          .task 0 .countFailure] ++
        admission ++ enterHandshake 1)
      (by decide)
  exact ⟨_, h, rfl, rfl, rfl, handshaking_le (limited 1) 7 1 h⟩

/-- Two connections that both pass the gate before the first one is counted overshoot the limit. -/
theorem handshaking_overshoots :
    ∃ s, Reach (step (limited 1) 7) always init s ∧ 1 < s.shared.stats.handshaking := by
  have h : Reach (step (limited 1) 7) always init
      ⟨⟨⟨0, 0, 2, 0⟩, .listening, 2⟩, [⟨7, .handshaking⟩, ⟨8, .handshaking⟩]⟩ :=
    Reach.refl.of_exec (admission ++ admission ++ enterHandshake 0 ++ enterHandshake 1) (by decide)
  exact ⟨_, h, by decide⟩

/-! ### The session gauge -/

/-- No socket conversion behind a handshake fails. -/
def Converts (_ : State) : Act AcceptStep ConnStep → Prop
  | .task _ e => e.converts = true
  | .main _ => True

instance (s : State) (a : Act AcceptStep ConnStep) : Decidable (Converts s a) :=
  match a with
  | .task _ e => inferInstanceAs (Decidable (e.converts = true))
  | .main _ => inferInstanceAs (Decidable True)

theorem active_step (hok : Converts s a) (h : step rt base s a = some s')
    (hg : s.shared.stats.active = count64 (live s)) :
    s'.shared.stats.active = count64 (live s') := by
  refine gauge_step (p := fun c => c.phase.live) (g := fun st => st.stats.active)
    count64 h ?_ ?_ hg
  · intro x r _ hr
    obtain ⟨⟨hactive, _⟩, ⟨_, _, hn⟩ | ⟨_, _, _, _, hn⟩ | ⟨_, _, hn⟩⟩ := acceptLoop_cases hr
    all_goals simp [hactive, hn, Phase.live]
  · rintro i b c r rfl _ hr
    exact (handleConn_gauges hr).2.2.2 hok

/-- **The session gauge is exact** in every run in which sockets convert: it holds the number of
live sessions, so the gate is closed only by as many of them. -/
theorem active_exact (rt : ServerRuntime) (base : UInt64) {s : State}
    (h : Reach (step rt base) Converts init s) :
    s.shared.stats.active = UInt64.ofNat (live s) ∧
      ∀ max, gateClosed (some max) s.shared.stats.active = true → max.toNat ≤ live s := by
  have hg : s.shared.stats.active = count64 (live s) :=
    Reach.invariant (I := fun s => s.shared.stats.active = count64 (live s)) rfl
      (fun hinv hok hs => active_step hok hs hinv) h
  refine ⟨hg, ?_⟩
  intro max hclosed
  have hle : max ≤ s.shared.stats.active := by simpa [gateClosed] using hclosed
  rw [UInt64.le_iff_toNat_le, hg, count64_apply, UInt64.toNat_ofNat'] at hle
  exact hle.trans (Nat.mod_le _ _)

/-- The task of a connection from its admission to its slot. -/
def takeSlot (i : ℕ) (role : SessionRole) : List (Act AcceptStep ConnStep) :=
  enterHandshake i ++
    [.task i (.handshakeEnds (some role)), .task i (.clearTimeouts true), .task i .takeSlot]

/-- A running tunnel, a link that the aggregator refused and a probe that failed. -/
theorem active_exact_mixed :
    ∃ s, Reach (step (limited 3) 7) Converts init s ∧ live s = 1 ∧
      s.shared.stats.active = UInt64.ofNat (live s) ∧
      ∀ max, gateClosed (some max) s.shared.stats.active = true → max.toNat ≤ live s := by
  have h : Reach (step (limited 3) 7) Converts init
      ⟨⟨⟨1, 1, 0, 0⟩, .listening, 3⟩, [⟨7, .tunnel⟩, ⟨8, .returned⟩, ⟨9, .returned⟩]⟩ :=
    Reach.refl.of_exec
      (admission ++ admission ++ admission ++ takeSlot 0 .muxTunnel ++ takeSlot 1 .bondLink
        ++ [.task 0 (.setNonblocking true), .task 0 (.fromStd true), .task 1 (.splitLink true),
          .task 1 (.addIncoming false)]
        ++ enterHandshake 2 ++ [.task 2 (.handshakeEnds none), .task 2 .countFailure])
      (by decide)
  exact ⟨_, h, rfl, active_exact (limited 3) 7 h⟩

/-- A tunnel whose socket does not convert is over and keeps its slot, and a server with one slot is
closed for good. -/
theorem active_leaks :
    ∃ s, Reach (step (limited 1) 7) always init s ∧ live s = 0 ∧
      s.shared.stats.active ≠ UInt64.ofNat (live s) ∧
      gateClosed (some 1) s.shared.stats.active = true := by
  have h : Reach (step (limited 1) 7) always init
      ⟨⟨⟨1, 0, 0, 0⟩, .listening, 1⟩, [⟨7, .returned⟩]⟩ :=
    Reach.refl.of_exec
      (admission ++ takeSlot 0 .muxTunnel ++ [.task 0 (.setNonblocking false)]) (by decide)
  exact ⟨_, h, rfl, by decide, rfl⟩

end Gate

end Nextppp

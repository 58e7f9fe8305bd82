/-
**The SOCKS5 inbound: accept loops, sessions and their counters.**

Every listener of the client has an accept loop of its own, and all of them share one set of counters.
A loop reads the number of open sessions, admits a connection below the limit, counts it, and spawns a
session; the check and the count are two steps, so the loops can each admit one session too many.  A
session negotiates, asks the pool for a stream, answers the application, pumps, and counts what it did.

Main definitions:

* `Nextppp.Inbound.acceptInbound`, `Nextppp.Inbound.handle` — the steps of a loop and of a session;
* `Nextppp.Inbound.Account` — a counter, with what every loop and every session has in it;
* `Nextppp.Inbound.Session.Said` — what a session wrote to its application.

Main results:

* `Nextppp.Inbound.Account.exact` — a counter that every step keeps is the sum of its parts;
* `Nextppp.Inbound.counters_exact` — the counters of the client, at any moment and after a drain;
* `Nextppp.Inbound.sessions_within` — `k` loops admit at most `k - 1` sessions above the limit;
* `Nextppp.Inbound.dialogue` — an application is answered once, and told of success exactly when a
  stream was opened to the target it asked for.
-/

import Nextppp.Lib.Tasks
import Nextppp.Client.Socks5
import Nextppp.Mux.Pump

set_option relaxedAutoImplicit false
set_option autoImplicit false

namespace Nextppp

namespace Inbound

open Tasks Run Socks5 StreamPump

/-! ### The accept loops -/

/-- Lifetime counters behind the heartbeat. -/
structure ClientStats where
  active : UInt64 := 0
  connections : UInt64 := 0
  tunnels : UInt64 := 0
  tunnelFailures : UInt64 := 0
  bytesUp : UInt64 := 0
  bytesDown : UInt64 := 0
  deriving DecidableEq, Repr

/-- How a session ended. -/
inductive Ending
  /-- the negotiation failed or took too long -/
  | refused
  /-- no stream was opened -/
  | failed
  /-- the application was gone when it was to be answered -/
  | unanswered
  | pumped (o : PumpOutcome)
  deriving DecidableEq, Repr

/-- How far a session has got. -/
inductive Phase
  | negotiating
  | opening
  /-- `open_stream` has returned a stream -/
  | opened
  | established
  | pumping
  | pumped (o : PumpOutcome)
  | countedUp (o : PumpOutcome)
  | countedDown (o : PumpOutcome)
  /-- `open_stream` has returned an error -/
  | unopened
  | refusing
  /-- `handle` is through and the guard is still there -/
  | ended (e : Ending)
  | returned (e : Ending)
  deriving DecidableEq, Repr

/-- A session: how far it has got, the bytes it had from the application for its request, the target it
asked for, what it wrote back, and whether its stream was marked as ended in good order. -/
structure Session where
  phase : Phase := .negotiating
  asked : List UInt8 := []
  target : Option ProxyAddr := none
  wrote : List UInt8 := []
  graceful : Bool := false
  deriving DecidableEq, Repr

/-- Where an accept loop is. -/
inductive LoopPc
  | listening
  | accepted
  | admitted
  | counted
  | stopped
  deriving DecidableEq, Repr

/-- Steps of an accept loop. -/
inductive LoopStep
  | accept
  | gate
  | count
  | spawn
  | stop
  deriving DecidableEq, Repr

/-- The number of open sessions has reached the limit. -/
def limitReached (limit : Option UInt64) (active : UInt64) : Bool :=
  match limit with
  | some max => max ≤ active
  | none => false

/-- A step of `accept_inbound`, with the sessions it spawns.  Failed accepts only log. -/
def acceptInbound (maxConnections : Option UInt64) (st : ClientStats) (pc : LoopPc) (e : LoopStep) :
    Option (ClientStats × LoopPc × List Session) :=
  match pc, e with
  | .listening, .accept => some (st, .accepted, [])
  | .accepted, .gate =>
      -- a connection over the limit is dropped
      some (st, if limitReached maxConnections st.active then .listening else .admitted, [])
  | .admitted, .count => some ({ st with connections := st.connections + 1 }, .counted, [])
  | .counted, .spawn => some ({ st with active := st.active + 1 }, .listening, [{}])
  | .listening, .stop => some (st, .stopped, [])
  | _, _ => none

/-! ### A session -/

/-- Steps of a session, with their outcomes. -/
inductive SessionStep
  | negotiate (ending : ReadError) (sent : Except ReadError Unit) (stream : List UInt8)
  /-- the negotiation is cut off after so many bytes of what it would have written -/
  | timeout (ending : ReadError) (sent : Except ReadError Unit) (stream : List UInt8) (n : ℕ)
  | openStream (ok : Bool)
  | countTunnel
  | countFailure
  | reply (ok : Bool)
  | pump (o : PumpOutcome)
  | countUp
  | countDown
  | close
  | dropGuard

/-- The session moves on. -/
def Session.goto (c : Session) (phase : Phase) : Session := { c with phase := phase }

/-- The session after its negotiation. -/
def Session.negotiated (c : Session) (stream : List UInt8) :
    List UInt8 × Except ConnectError (ProxyAddr × List UInt8) → Session
  | (out, .ok (addr, _)) =>
      { c with phase := .opening, asked := stream, target := some addr, wrote := out }
  | (out, .error _) => { c with phase := .ended .refused, asked := stream, wrote := out }

/-- A step of `handle` and of `negotiate_and_forward` in it. -/
def handle (st : ClientStats) (c : Session) (e : SessionStep) : Option (ClientStats × Session) :=
  match c.phase, e with
  | .negotiating, .negotiate ending sent stream =>
      some (st, c.negotiated stream (readConnect ending sent stream))
  | .negotiating, .timeout ending sent stream n =>
      some (st, { c with
        phase := .ended .refused
        asked := stream
        wrote := (readConnect ending sent stream).1.take n })
  | .opening, .openStream true => some (st, c.goto .opened)
  | .opening, .openStream false => some (st, c.goto .unopened)
  | .opened, .countTunnel => some ({ st with tunnels := st.tunnels + 1 }, c.goto .established)
  | .established, .reply true =>
      some (st, { c with phase := .pumping, wrote := c.wrote ++ reply repSucceeded })
  | .established, .reply false => some (st, c.goto (.ended .unanswered))
  | .pumping, .pump o => some (st, c.goto (.pumped o))
  | .pumped o, .countUp =>
      some ({ st with bytesUp := st.bytesUp + UInt64.ofNat o.up }, c.goto (.countedUp o))
  | .countedUp o, .countDown =>
      some ({ st with bytesDown := st.bytesDown + UInt64.ofNat o.down }, c.goto (.countedDown o))
  | .countedDown o, .close =>
      some (st, { c with phase := .ended (.pumped o), graceful := o.streamEnd = .graceful })
  | .unopened, .countFailure =>
      some ({ st with tunnelFailures := st.tunnelFailures + 1 }, c.goto .refusing)
  -- whatever comes of writing the refusal
  | .refusing, .reply _ =>
      some (st, { c with phase := .ended .failed, wrote := c.wrote ++ reply repGeneral })
  | .ended e, .dropGuard => some ({ st with active := st.active - 1 }, c.goto (.returned e))
  | _, _ => none

/-- The counters and the accept loops. -/
structure Shared where
  stats : ClientStats
  loops : List LoopPc
  deriving DecidableEq, Repr

/-- A step of the loop with a number. -/
def acceptLoops (maxConnections : Option UInt64) (st : Shared) (a : ℕ × LoopStep) :
    Option (Shared × List Session) :=
  st.loops[a.1]?.bind fun pc => (acceptInbound maxConnections st.stats pc a.2).map fun r =>
    (⟨r.1, st.loops.set a.1 r.2.1⟩, r.2.2)

/-- A step of a session over the counters. -/
def session (_ : ℕ) (st : Shared) (c : Session) (e : SessionStep) : Option (Shared × Session) :=
  (handle st.stats c e).map fun r => ({ st with stats := r.1 }, r.2)

/-- The accept loops and the sessions they spawned. -/
abbrev State := System Shared Session

/-- A client with `k` listeners that has just started. -/
def init (k : ℕ) : State := ⟨⟨{}, List.replicate k .listening⟩, []⟩

/-- One step of a loop or of a session. -/
def step (maxConnections : Option UInt64) :
    State → Act (ℕ × LoopStep) SessionStep → Option State :=
  Tasks.step (acceptLoops maxConnections) session

variable {maxConnections : Option UInt64} {s s' : State} {a : Act (ℕ × LoopStep) SessionStep}

/-! ### Accounts -/

/-- A counter, with what a loop and a session have in it. -/
structure Account where
  counter : ClientStats → UInt64
  loop : LoopPc → ℕ
  session : Session → ℕ

namespace Account

/-- What all loops and sessions have in the counter together. -/
def total (c : Account) (s : State) : ℕ :=
  (s.shared.loops.map c.loop).sum + (s.tasks.map c.session).sum

/-- Every step changes the counter by as much as the part of the one that takes it. -/
structure Kept (maxConnections : Option UInt64) (c : Account) : Prop where
  listening : c.loop .listening = 0
  loops : ∀ {st pc e r}, acceptInbound maxConnections st pc e = some r →
    c.counter r.1 + count64 (c.loop pc)
      = c.counter st + count64 (c.loop r.2.1) + count64 (r.2.2.map c.session).sum
  sessions : ∀ {st t e r}, handle st t e = some r →
    c.counter r.1 + count64 (c.session t) = c.counter st + count64 (c.session r.2)
  empty : c.counter {} = 0

/-- What the sessions have in the counter, as the counter holds it. -/
theorem count64_sum (c : Account) (l : List Session) :
    (l.map fun t => count64 (c.session t)).sum = count64 (l.map c.session).sum := by
  rw [map_list_sum, List.map_map]
  rfl

/-- **A counter that every step keeps is the sum of its parts.** -/
theorem Kept.exact {c : Account} (hc : c.Kept maxConnections) {k : ℕ}
    (h : Reach (step maxConnections) always (init k) s) :
    c.counter s.shared.stats = count64 (c.total s) := by
  have hsum : c.counter s.shared.stats
      = count64 (s.shared.loops.map c.loop).sum + (s.tasks.map fun t => count64 (c.session t)).sum := by
    refine Reach.invariant (I := fun s => c.counter s.shared.stats
      = count64 (s.shared.loops.map c.loop).sum + (s.tasks.map fun t => count64 (c.session t)).sum)
      ?_ ?_ h
    · rw [init, List.map_replicate, hc.listening, hc.empty]
      simp
    · intro s a s' hinv _ hs
      refine account_step (g := fun st => c.counter st.stats)
        (p := fun st => count64 (st.loops.map c.loop).sum) hs ?_ ?_ hinv
      · intro x r _ hr
        obtain ⟨pc, hpc, hr⟩ := Option.bind_eq_some_iff.1 hr
        obtain ⟨y, hy, rfl⟩ := Option.map_eq_some_iff.1 hr
        have hset := congrArg count64 (sum_set c.loop y.2.1 hpc)
        rw [map_add, map_add] at hset
        rw [c.count64_sum]
        exact part_moves (hc.loops hy) hset
      · intro i b t r _ _ hr
        obtain ⟨y, hy, rfl⟩ := Option.map_eq_some_iff.1 hr
        exact ⟨rfl, hc.sessions hy⟩
  rw [hsum, c.count64_sum, total, map_add]

end Account

/-! ### What the counters count -/

namespace Ending

/-- A session that ended so had a stream. -/
def hadStream : Ending → Bool
  | .unanswered | .pumped _ => true
  | _ => false

/-- The bytes a session pumped into its tunnel. -/
def up : Ending → ℕ
  | .pumped o => o.up
  | _ => 0

/-- The bytes a session pumped back to its application. -/
def down : Ending → ℕ
  | .pumped o => o.down
  | _ => 0

end Ending

namespace Phase

/-- The session has not returned. -/
def isOpen : Phase → Bool
  | .returned _ => false
  | _ => true

/-- The stream of the session is counted. -/
def hasTunnel : Phase → Bool
  | .established | .pumping | .pumped _ | .countedUp _ | .countedDown _ => true
  | .ended e | .returned e => e.hadStream
  | _ => false

/-- The session is counted as one without a stream. -/
def hasFailed : Phase → Bool
  | .refusing => true
  | .ended e | .returned e => e = .failed
  | _ => false

/-- The bytes that are counted on the way up. -/
def up : Phase → ℕ
  | .countedUp o | .countedDown o => o.up
  | .ended e | .returned e => e.up
  | _ => 0

/-- The bytes that are counted on the way down. -/
def down : Phase → ℕ
  | .countedDown o => o.down
  | .ended e | .returned e => e.down
  | _ => 0

end Phase

/-- The loop has counted a connection and not spawned its session. -/
def LoopPc.spawning : LoopPc → Bool
  | .counted => true
  | _ => false

namespace Account

/-- The open sessions. -/
@[simp] def active : Account := ⟨ClientStats.active, fun _ => 0, fun c => c.phase.isOpen.toNat⟩

/-- The admitted connections, those that are not spawned yet included. -/
@[simp] def connections : Account :=
  ⟨ClientStats.connections, fun pc => pc.spawning.toNat, fun _ => 1⟩

/-- The sessions with a stream. -/
@[simp] def tunnels : Account := ⟨ClientStats.tunnels, fun _ => 0, fun c => c.phase.hasTunnel.toNat⟩

/-- The sessions that got no stream. -/
@[simp] def tunnelFailures : Account :=
  ⟨ClientStats.tunnelFailures, fun _ => 0, fun c => c.phase.hasFailed.toNat⟩

/-- The bytes towards the tunnels. -/
@[simp] def bytesUp : Account := ⟨ClientStats.bytesUp, fun _ => 0, fun c => c.phase.up⟩

/-- The bytes back from the tunnels. -/
@[simp] def bytesDown : Account := ⟨ClientStats.bytesDown, fun _ => 0, fun c => c.phase.down⟩

/-- The counters of the client. -/
@[simp] def all : List Account := [active, connections, tunnels, tunnelFailures, bytesUp, bytesDown]

end Account

/-- **What a step of a loop does to the counters.** -/
theorem acceptInbound_accounts {st : ClientStats} {pc : LoopPc} {e : LoopStep}
    {r : ClientStats × LoopPc × List Session} (h : acceptInbound maxConnections st pc e = some r) :
    ∀ c ∈ Account.all, c.counter r.1 + count64 (c.loop pc)
      = c.counter st + count64 (c.loop r.2.1) + count64 (r.2.2.map c.session).sum := by
  unfold acceptInbound at h
  split at h
  case h_6 => cases h
  all_goals obtain rfl := Option.some.inj h
  case h_2 => split <;> simp [LoopPc.spawning]
  all_goals
    simp [LoopPc.spawning, Phase.isOpen, Phase.hasTunnel, Phase.hasFailed, Phase.up, Phase.down]

/-- **What a step of a session does to the counters.** -/
theorem handle_accounts {st : ClientStats} {t : Session} {e : SessionStep}
    {r : ClientStats × Session} (h : handle st t e = some r) :
    ∀ c ∈ Account.all, c.counter r.1 + count64 (c.session t)
      = c.counter st + count64 (c.session r.2) := by
  obtain ⟨phase, asked, target, wrote, graceful⟩ := t
  unfold handle at h
  split at h
  case h_15 => cases h
  all_goals obtain rfl := Option.some.inj h
  case h_1 hphase =>
      obtain rfl : phase = .negotiating := hphase
      unfold Session.negotiated
      split <;> simp [Phase.isOpen, Phase.hasTunnel, Phase.hasFailed, Phase.up, Phase.down,
        Ending.hadStream, Ending.up, Ending.down]
  all_goals
    subst_vars
    simp [Session.goto, Phase.isOpen, Phase.hasTunnel, Phase.hasFailed, Phase.up, Phase.down,
      Ending.hadStream, Ending.up, Ending.down]

/-- The counters of the client are kept. -/
theorem Account.kept {c : Account} (hc : c ∈ Account.all) : c.Kept maxConnections where
  listening := by
    revert c
    simp [LoopPc.spawning]
  loops h := acceptInbound_accounts h c hc
  sessions h := handle_accounts h c hc
  empty := by
    revert c
    simp

/-- The sessions that are open. -/
def openSessions (s : State) : ℕ := s.tasks.countP fun c => c.phase.isOpen

/-- What the counters hold. -/
structure Exact (s : State) : Prop where
  active : s.shared.stats.active = UInt64.ofNat (openSessions s)
  connections : s.shared.stats.connections
    = UInt64.ofNat (s.shared.loops.countP LoopPc.spawning + s.tasks.length)
  tunnels : s.shared.stats.tunnels = UInt64.ofNat (s.tasks.countP fun c => c.phase.hasTunnel)
  tunnelFailures : s.shared.stats.tunnelFailures
    = UInt64.ofNat (s.tasks.countP fun c => c.phase.hasFailed)
  bytesUp : s.shared.stats.bytesUp = UInt64.ofNat (s.tasks.map fun c => c.phase.up).sum
  bytesDown : s.shared.stats.bytesDown = UInt64.ofNat (s.tasks.map fun c => c.phase.down).sum

theorem Exact.reach {k : ℕ} (h : Reach (step maxConnections) always (init k) s) : Exact s where
  active := by
    have hsum := (Account.kept (c := .active) (by simp)).exact h
    simpa [Account.total, sum_toNat, openSessions] using hsum
  connections := by
    have hsum := (Account.kept (c := .connections) (by simp)).exact h
    simpa [Account.total, sum_toNat] using hsum
  tunnels := by
    have hsum := (Account.kept (c := .tunnels) (by simp)).exact h
    simpa [Account.total, sum_toNat] using hsum
  tunnelFailures := by
    have hsum := (Account.kept (c := .tunnelFailures) (by simp)).exact h
    simpa [Account.total, sum_toNat] using hsum
  bytesUp := by
    have hsum := (Account.kept (c := .bytesUp) (by simp)).exact h
    simpa [Account.total] using hsum
  bytesDown := by
    have hsum := (Account.kept (c := .bytesDown) (by simp)).exact h
    simpa [Account.total] using hsum

/-- What the counters hold once every session has returned. -/
structure Settled (s : State) : Prop where
  returned : ∀ c ∈ s.tasks, ∃ e, c.phase = .returned e
  /-- every session is counted as one with a stream, as one without, or was refused -/
  balanced : s.shared.stats.connections
    = s.shared.stats.tunnels + s.shared.stats.tunnelFailures
      + UInt64.ofNat (s.tasks.countP fun c => c.phase = .returned .refused)
      + UInt64.ofNat (s.shared.loops.countP LoopPc.spawning)

/-- A session that returned ended in exactly one way. -/
theorem length_eq_endings {l : List Session} (h : ∀ c ∈ l, ∃ e, c.phase = .returned e) :
    l.length = (l.countP fun c => c.phase.hasTunnel) + (l.countP fun c => c.phase.hasFailed)
      + l.countP fun c => c.phase = .returned .refused := by
  induction l with
  | nil => rfl
  | cons c l ih =>
      obtain ⟨e, he⟩ := h c List.mem_cons_self
      have hrest := ih fun t ht => h t (List.mem_cons_of_mem c ht)
      rw [List.length_cons, hrest, List.countP_cons, List.countP_cons, List.countP_cons, he]
      cases e <;> simp [Phase.hasTunnel, Phase.hasFailed, Ending.hadStream] <;> omega

/-- **The counters of the client.**  At any moment each counter is what the loops and the sessions did,
modulo `2 ^ 64`; and when a drain reads no open session, all of them have returned and every connection
is accounted for. -/
theorem counters_exact (maxConnections : Option UInt64) (k : ℕ) {s : State}
    (h : Reach (step maxConnections) always (init k) s) :
    Exact s ∧ (s.tasks.length < 2 ^ 64 → s.shared.stats.active = 0 → Settled s) := by
  have he := Exact.reach h
  refine ⟨he, fun hlen hactive => ?_⟩
  have hle : openSessions s ≤ s.tasks.length := List.countP_le_length
  have hzero : openSessions s = 0 := by
    have hnat := congrArg UInt64.toNat he.active
    rw [hactive, UInt64.toNat_ofNat_of_lt' (by simp only [UInt64.size]; omega)] at hnat
    exact hnat.symm
  have hreturned : ∀ c ∈ s.tasks, ∃ e, c.phase = .returned e := by
    intro c hc
    have hclosed := List.countP_eq_zero.1 hzero c hc
    cases hphase : c.phase with
    | returned e => exact ⟨e, rfl⟩
    | _ => simp [hphase, Phase.isOpen] at hclosed
  refine ⟨hreturned, ?_⟩
  rw [he.connections, he.tunnels, he.tunnelFailures, length_eq_endings hreturned, UInt64.ofNat_add,
    UInt64.ofNat_add, UInt64.ofNat_add, add_comm]

/-- A loop takes a connection up to its session. -/
def admission (i : ℕ) : List (Act (ℕ × LoopStep) SessionStep) :=
  [.main (i, .accept), .main (i, .gate), .main (i, .count), .main (i, .spawn)]

/-- An application greets and asks for port 80 of its own host. -/
def connectLocal : SessionStep :=
  .negotiate .unexpectedEof (.ok ()) [5, 1, 0, 5, 1, 0, 1, 127, 0, 0, 1, 0, 80]

/-- A stream that carried 3 bytes up and 5 down. -/
def carried : PumpOutcome := ⟨3, 5, .graceful⟩

/-- One session is served, one gets no stream and one does not speak SOCKS. -/
def threeSessions : List (Act (ℕ × LoopStep) SessionStep) :=
  [admission 0, admission 0, admission 0,
    [.task 0 connectLocal, .task 0 (.openStream true), .task 0 .countTunnel, .task 0 (.reply true),
      .task 0 (.pump carried), .task 0 .countUp, .task 0 .countDown, .task 0 .close,
      .task 0 .dropGuard],
    [.task 1 connectLocal, .task 1 (.openStream false), .task 1 .countFailure, .task 1 (.reply true),
      .task 1 .dropGuard],
    [.task 2 (.negotiate .unexpectedEof (.ok ()) [71, 69, 84]), .task 2 .dropGuard]].flatten

theorem counters_exact_three :
    ∃ s, Reach (step none) always (init 1) s ∧ Exact s ∧ Settled s ∧
      s.shared.stats = ⟨0, 3, 1, 1, 3, 5⟩ := by
  obtain ⟨s, he, hlen, hstats⟩ : ∃ s, exec (step none) always (init 1) threeSessions = some s ∧
      s.tasks.length = 3 ∧ s.shared.stats = ⟨0, 3, 1, 1, 3, 5⟩ := ⟨_, rfl, rfl, rfl⟩
  have hr := Reach.refl.of_exec _ he
  have hexact := counters_exact none 1 hr
  exact ⟨s, hr, hexact.1, hexact.2 (by rw [hlen]; decide) (by rw [hstats]), hstats⟩

/-! ### The limit -/

/-- The loops that admitted a connection and have not counted its session yet. -/
def LoopPc.pending : LoopPc → Bool
  | .admitted | .counted => true
  | _ => false

/-- The open sessions and the admitted ones stay within the limit, but for one session a loop. -/
structure Within (max : UInt64) (k : ℕ) (s : State) : Prop where
  loops : s.shared.loops.length = k
  active : s.shared.stats.active = count64 (openSessions s)
  bound : openSessions s + s.shared.loops.countP LoopPc.pending ≤ max.toNat + (k - 1)

theorem Within.toNat {max : UInt64} {k : ℕ} (h : Within max k s)
    (hfits : max.toNat + (k - 1) < 2 ^ 64) : s.shared.stats.active.toNat = openSessions s := by
  rw [h.active]
  have hbound := h.bound
  exact UInt64.toNat_ofNat_of_lt' (by simp only [UInt64.size]; omega)

/-- **What a step of a loop does**: it admits a connection below the limit, counts it and spawns its
session, or does none of this. -/
theorem acceptInbound_cases {st : ClientStats} {pc : LoopPc} {e : LoopStep}
    {r : ClientStats × LoopPc × List Session} (h : acceptInbound maxConnections st pc e = some r) :
    (pc.pending = false ∧ r.2.1.pending = false ∧ r.2.2 = []) ∨
      (pc.pending = false ∧ limitReached maxConnections st.active = false ∧ r.2.2 = []) ∨
      (pc.pending = true ∧ r.2.1.pending = true ∧ r.2.2 = []) ∨
      (pc.pending = true ∧ r.2.1.pending = false ∧ r.2.2 = [{}]) := by
  unfold acceptInbound at h
  split at h
  case h_6 => cases h
  all_goals obtain rfl := Option.some.inj h
  case h_2 =>
      by_cases hlimit : limitReached maxConnections st.active = true
      · exact .inl ⟨rfl, by simp [hlimit, LoopPc.pending], rfl⟩
      · exact .inr (.inl ⟨rfl, by simpa using hlimit, rfl⟩)
  all_goals simp [LoopPc.pending]

/-- A session that has returned does not open again. -/
theorem handle_isOpen {st : ClientStats} {t : Session} {e : SessionStep} {r : ClientStats × Session}
    (h : handle st t e = some r) : r.2.phase.isOpen.toNat ≤ t.phase.isOpen.toNat := by
  have hopen : t.phase.isOpen = true := by
    unfold handle at h
    split at h
    case h_15 => cases h
    all_goals
      rename_i hphase
      rw [hphase]
      rfl
  rw [hopen]
  cases r.2.phase.isOpen <;> decide

theorem Within.step {max : UInt64} {k : ℕ} (hw : Within max k s)
    (hfits : max.toNat + (k - 1) < 2 ^ 64) (hs : step (some max) s a = some s')
    (hactive : s'.shared.stats.active = count64 (openSessions s')) : Within max k s' := by
  have hnat := hw.toNat hfits
  obtain ⟨hloops, -, hbound⟩ := hw
  obtain ⟨x, r, rfl, hr, rfl⟩ | ⟨i, b, t, r, rfl, ht, hr, rfl⟩ := step_cases hs
  · obtain ⟨pc, hpc, hr⟩ := Option.bind_eq_some_iff.1 hr
    obtain ⟨y, hy, rfl⟩ := Option.map_eq_some_iff.1 hr
    refine ⟨by rw [List.length_set, hloops], hactive, ?_⟩
    have hset := countP_set LoopPc.pending y.2.1 hpc
    have hopen : openSessions ⟨⟨y.1, s.shared.loops.set x.1 y.2.1⟩, s.tasks ++ y.2.2⟩
        = openSessions s + y.2.2.countP fun c => c.phase.isOpen := List.countP_append
    rw [hopen]
    dsimp only
    obtain ⟨h₀, h₁, hnew⟩ | ⟨h₀, hlimit, hnew⟩ | ⟨h₀, h₁, hnew⟩ | ⟨h₀, h₁, hnew⟩ :=
      acceptInbound_cases hy
    · rw [h₀, h₁] at hset
      simp [hnew] at hset ⊢
      omega
    · -- the loop saw fewer sessions than the limit, and at most the other loops are pending
      have hroom : openSessions s < max.toNat := by
        have hlt : s.shared.stats.active < max := by simpa [limitReached] using hlimit
        rwa [UInt64.lt_iff_toNat_lt, hnat] at hlt
      have hothers : s.shared.loops.countP LoopPc.pending < k := by
        rw [← hloops]
        refine lt_of_le_of_ne List.countP_le_length fun hall => ?_
        have hmem := List.countP_eq_length.1 hall pc (List.mem_of_getElem? hpc)
        rw [h₀] at hmem
        cases hmem
      rw [h₀] at hset
      have hone := Bool.toNat_le y.2.1.pending
      simp [hnew] at hset ⊢
      omega
    · rw [h₀, h₁] at hset
      simp [hnew] at hset ⊢
      omega
    · rw [h₀, h₁] at hset
      simp [hnew, Phase.isOpen] at hset ⊢
      omega
  · obtain ⟨y, hy, rfl⟩ := Option.map_eq_some_iff.1 hr
    refine ⟨hloops, hactive, ?_⟩
    have hset := countP_set (fun c : Session => c.phase.isOpen) y.2 ht
    have hle := handle_isOpen hy
    simp only [openSessions] at hbound ⊢
    omega

theorem Within.reach {max : UInt64} {k : ℕ} (hfits : max.toNat + (k - 1) < 2 ^ 64)
    (h : Reach (Inbound.step (some max)) always (init k) s) : Within max k s := by
  induction h with
  | refl =>
      refine ⟨List.length_replicate, rfl, ?_⟩
      have hnone : (List.replicate k LoopPc.listening).countP LoopPc.pending = 0 :=
        List.countP_eq_zero.2 fun pc hpc => by
          rw [List.eq_of_mem_replicate hpc]
          decide
      simp [init, openSessions, hnone]
  | step a hreach hok hs ih =>
      exact ih.step hfits hs (Exact.reach (hreach.step a hok hs)).active

/-- **The limit on sessions.**  With `k` listeners at most `k - 1` sessions above the limit are open,
the gauge reads how many are, and the gate is closed exactly while they reach the limit. -/
theorem sessions_within (max : UInt64) (k : ℕ) {s : State} (hfits : max.toNat + (k - 1) < 2 ^ 64)
    (h : Reach (Inbound.step (some max)) always (init k) s) :
    openSessions s ≤ max.toNat + (k - 1) ∧ s.shared.stats.active.toNat = openSessions s ∧
      (limitReached (some max) s.shared.stats.active = true ↔ max.toNat ≤ openSessions s) := by
  have hw := Within.reach hfits h
  have hnat := hw.toNat hfits
  refine ⟨(Nat.le_add_right _ _).trans hw.bound, hnat, ?_⟩
  rw [← hnat, ← UInt64.le_iff_toNat_le]
  simp [limitReached]

/-- Two loops that both find room for one session open two. -/
theorem sessions_within_two :
    ∃ s, Reach (step (some 1)) always (init 2) s ∧ openSessions s = 2 ∧
      openSessions s ≤ (1 : UInt64).toNat + (2 - 1) ∧
      s.shared.stats.active.toNat = openSessions s ∧
      (limitReached (some 1) s.shared.stats.active = true ↔
        (1 : UInt64).toNat ≤ openSessions s) := by
  obtain ⟨s, he, htwo⟩ : ∃ s, exec (step (some 1)) always (init 2)
      [.main (0, .accept), .main (1, .accept), .main (0, .gate), .main (1, .gate), .main (0, .count),
        .main (0, .spawn), .main (1, .count), .main (1, .spawn)] = some s ∧ openSessions s = 2 :=
    ⟨_, rfl, rfl⟩
  have hr := Reach.refl.of_exec _ he
  exact ⟨s, hr, htwo, sessions_within 1 2 (by decide) hr⟩

/-! ### The dialogue -/

/-- The methods are agreed on. -/
def greeted : List UInt8 := [ver, methodNoAuth]

/-- The application refused the methods or was not told of success. -/
def Refused (out : List UInt8) : Prop :=
  out <+: [ver, methodNoneAcceptable] ∨ ∃ rep, rep ≠ repSucceeded ∧ out <+: greeted ++ reply rep

/-- The application was told that its connection is there. -/
def Phase.answered : Phase → Bool
  | .pumping | .pumped _ | .countedUp _ | .countedDown _ | .ended (.pumped _)
  | .returned (.pumped _) => true
  | _ => false

/-- What a session wrote, at every point. -/
def Session.Said (c : Session) : Prop :=
  match c.phase with
  | .negotiating => c.wrote = []
  | .ended .refused | .returned .refused => Refused c.wrote
  | .ended .failed | .returned .failed => c.wrote = greeted ++ reply repGeneral
  | .opening | .opened | .established | .unopened | .refusing | .ended .unanswered
  | .returned .unanswered => c.wrote = greeted
  | .pumping | .pumped _ | .countedUp _ | .countedDown _ | .ended (.pumped _)
  | .returned (.pumped _) => c.wrote = greeted ++ reply repSucceeded

/-- The request of a session: a greeting that offers the method without authentication, and a `CONNECT`
to the target, with what comes after it. -/
def Requests (asked : List UInt8) (addr : ProxyAddr) : Prop :=
  addr.host.Valid ∧ ∃ (n : UInt8) (methods rest : List UInt8), methods.length = n.toNat ∧
    methodNoAuth ∈ methods ∧
    asked = ver :: n :: (methods ++ ver :: cmdConnect :: 0 :: (addr.encode ++ rest))

/-- The negotiation is over and its request was accepted. -/
def Phase.accepted : Phase → Bool
  | .negotiating | .ended .refused | .returned .refused => false
  | _ => true

/-- What holds of a session at every point. -/
structure Session.Sound (c : Session) : Prop where
  said : c.Said
  target : c.target.isSome = c.phase.accepted
  requests : ∀ addr, c.target = some addr → Requests c.asked addr
  graceful : c.graceful = true →
    ∃ o : PumpOutcome, (c.phase = .ended (.pumped o) ∨ c.phase = .returned (.pumped o)) ∧
      o.streamEnd = .graceful

/-- A prefix of a refusal is one. -/
theorem Refused.of_isPrefix {out out' : List UInt8} (h : Refused out) (hp : out' <+: out) :
    Refused out' :=
  h.imp hp.trans fun ⟨rep, hne, hout⟩ => ⟨rep, hne, hp.trans hout⟩

/-- Whatever the negotiation would have written, a session that it cut off is not told of success. -/
theorem refused_readConnect (ending : ReadError) (sent : Except ReadError Unit)
    (stream : List UInt8) : Refused (readConnect ending sent stream).1 := by
  cases h : readConnect ending sent stream with
  | mk out result =>
      cases result with
      | error e => exact readConnect_error h
      | ok r =>
          obtain ⟨rfl, -⟩ := readConnect_eq_ok.1 h
          exact .inr ⟨repGeneral, by decide, List.prefix_append _ _⟩

/-- A refusal does not contain the answer of success. -/
theorem Refused.not_succeeded {out : List UInt8} (h : Refused out) :
    ¬greeted ++ reply repSucceeded <+: out := by
  intro hp
  rcases h with hout | ⟨rep, hne, hout⟩
  · have hlen := (hp.trans hout).length_le
    simp [greeted, reply] at hlen
  · have heq := (hp.trans hout).eq_of_length rfl
    rw [List.append_cancel_left_eq] at heq
    simp [reply] at heq
    exact hne heq.symm

/-- **Every step of a session keeps what holds of it.** -/
theorem Session.Sound.step {st : ClientStats} {c : Session} {e : SessionStep}
    {r : ClientStats × Session} (hc : c.Sound) (h : handle st c e = some r) : r.2.Sound := by
  obtain ⟨phase, asked, target, wrote, graceful⟩ := c
  obtain ⟨hsaid, htarget, hrequests, hgraceful⟩ := hc
  -- nothing is marked before the stream has ended
  have hunmarked : (∀ e, phase ≠ .ended e) → (∀ e, phase ≠ .returned e) → graceful = true → False := by
    intro h₁ h₂ hg
    obtain ⟨o, ho | ho, -⟩ := hgraceful hg
    · exact h₁ _ ho
    · exact h₂ _ ho
  unfold handle at h
  split at h
  case h_15 => cases h
  all_goals obtain rfl := Option.some.inj h
  case h_1 ending sent stream hphase =>
      obtain rfl : phase = .negotiating := hphase
      obtain rfl : target = none := by simpa [Phase.accepted] using htarget
      cases hread : readConnect ending sent stream with
      | mk out result =>
          cases result with
          | error e =>
              have href := refused_readConnect ending sent stream
              rw [hread] at href
              exact ⟨href, rfl, by simp [Session.negotiated],
                fun hg => (hunmarked (by simp) (by simp) hg).elim⟩
          | ok r =>
              obtain ⟨rfl, -, hvalid, n, methods, hlen, hmem, rfl⟩ := readConnect_eq_ok.1 hread
              refine ⟨rfl, rfl, ?_, fun hg => (hunmarked (by simp) (by simp) hg).elim⟩
              intro addr haddr
              obtain rfl := Option.some.inj haddr
              exact ⟨hvalid, n, methods, r.2, hlen, hmem, rfl⟩
  case h_2 ending sent stream n hphase =>
      obtain rfl : phase = .negotiating := hphase
      obtain rfl : target = none := by simpa [Phase.accepted] using htarget
      exact ⟨(refused_readConnect ending sent stream).of_isPrefix (List.take_prefix _ _), rfl, by simp,
        fun hg => (hunmarked (by simp) (by simp) hg).elim⟩
  case h_11 o hphase =>
      obtain rfl : phase = .countedDown o := hphase
      exact ⟨hsaid, htarget, hrequests, fun hg => ⟨o, .inl rfl, of_decide_eq_true hg⟩⟩
  case h_14 e hphase =>
      obtain rfl : phase = .ended e := hphase
      refine ⟨?_, ?_, hrequests, fun hg => ?_⟩
      · cases e <;> exact hsaid
      · cases e <;> exact htarget
      · obtain ⟨o, ho | ho, hend⟩ := hgraceful hg
        · exact ⟨o, .inr (congrArg Phase.returned (Phase.ended.inj ho)), hend⟩
        · cases ho
  all_goals
    rename_i hphase
    obtain rfl := hphase
    refine ⟨?_, htarget, hrequests, fun hg => (hunmarked (by simp) (by simp) hg).elim⟩
    have hwrote : wrote = _ := hsaid
    simp [Session.Said, Session.goto, hwrote]

theorem Session.Sound.reach {k : ℕ} (h : Reach (Inbound.step maxConnections) always (init k) s) :
    ∀ c ∈ s.tasks, c.Sound := by
  refine Reach.invariant (I := fun s => ∀ c ∈ s.tasks, Session.Sound c) (by simp [init]) ?_ h
  intro s a s' hinv _ hs
  refine each_step hs ?_ ?_ hinv
  · intro x r hr c hc
    obtain ⟨pc, -, hr⟩ := Option.bind_eq_some_iff.1 hr
    obtain ⟨y, hy, rfl⟩ := Option.map_eq_some_iff.1 hr
    -- a spawned session has said nothing
    obtain ⟨-, -, hnew⟩ | ⟨-, -, hnew⟩ | ⟨-, -, hnew⟩ | ⟨-, -, hnew⟩ := acceptInbound_cases hy
    all_goals rw [hnew] at hc
    case inr.inr.inr =>
      obtain rfl := List.mem_singleton.1 hc
      exact ⟨rfl, rfl, by simp, by simp⟩
    all_goals cases hc
  · intro i b c r hc hr
    obtain ⟨y, hy, rfl⟩ := Option.map_eq_some_iff.1 hr
    exact hc.step hy

/-- A session that was told of success is in the pump or was. -/
theorem Session.Said.succeeded_iff {c : Session} (h : c.Said) :
    greeted ++ reply repSucceeded <+: c.wrote ↔ c.phase.answered = true := by
  obtain ⟨phase, asked, target, wrote, graceful⟩ := c
  unfold Session.Said at h
  split at h
  all_goals
    rename_i hphase
    obtain rfl := hphase
    simp only [Phase.answered, iff_true, iff_false, Bool.false_eq_true]
  case h_2 | h_3 => exact Refused.not_succeeded h
  all_goals
    obtain rfl := h
    first
    | exact List.prefix_rfl
    | decide

theorem Session.Said.answered_once {c : Session} (h : c.Said) :
    Refused c.wrote ∨ c.wrote = greeted ++ reply repSucceeded := by
  unfold Session.Said at h
  split at h
  case h_1 => exact .inl (h ▸ .inl List.nil_prefix)
  case h_2 | h_3 => exact .inl h
  case h_4 | h_5 => exact .inl (.inr ⟨repGeneral, by decide, h ▸ List.prefix_rfl⟩)
  all_goals first
    | exact .inr h
    | exact .inl (.inr ⟨repGeneral, by decide, h ▸ List.prefix_append _ _⟩)

/-- **The dialogue with an application.**  However the loops, the sessions and their failures interleave,
an application gets at most one answer to its request; it reads the answer of success exactly when its
session has a stream and came to pump; a stream is only sought for the target that its bytes ask for;
and only a stream that ended in good order is marked so. -/
theorem dialogue (maxConnections : Option UInt64) (k : ℕ) {s : State}
    (h : Reach (Inbound.step maxConnections) always (init k) s) (c : Session) (hc : c ∈ s.tasks) :
    (Refused c.wrote ∨ c.wrote = greeted ++ reply repSucceeded) ∧
      (greeted ++ reply repSucceeded <+: c.wrote ↔ c.phase.answered = true) ∧
      (c.phase.accepted = true → ∃ addr, c.target = some addr ∧ Requests c.asked addr) ∧
      (c.graceful = true →
        ∃ o : PumpOutcome, (c.phase = .ended (.pumped o) ∨ c.phase = .returned (.pumped o)) ∧
          o.streamEnd = .graceful) := by
  have hsound := Session.Sound.reach h c hc
  refine ⟨hsound.said.answered_once, hsound.said.succeeded_iff, fun haccepted => ?_, hsound.graceful⟩
  rw [← hsound.target] at haccepted
  obtain ⟨addr, haddr⟩ := Option.isSome_iff_exists.1 haccepted
  exact ⟨addr, haddr, hsound.requests addr haddr⟩

/-- The application that was served, and the one whose connection failed. -/
theorem dialogue_two :
    ∃ s c d, Reach (Inbound.step none) always (init 1) s ∧ c ∈ s.tasks ∧ d ∈ s.tasks ∧
      c.graceful = true ∧ greeted ++ reply repSucceeded <+: c.wrote ∧ c.phase.answered = true ∧
      d.wrote = greeted ++ reply repGeneral ∧ d.phase.answered = false ∧
      ∃ addr, d.target = some addr ∧ Requests d.asked addr := by
  obtain ⟨s, he, c, d, hc, hd, hgraceful, hwrote, hphase⟩ : ∃ s,
      exec (Inbound.step none) always (init 1) threeSessions = some s ∧
      ∃ c d, s.tasks[0]? = some c ∧ s.tasks[1]? = some d ∧ c.graceful = true ∧
        d.wrote = greeted ++ reply repGeneral ∧ d.phase = .returned .failed :=
    ⟨_, rfl, _, _, rfl, rfl, rfl, rfl, rfl⟩
  have hr := Reach.refl.of_exec _ he
  have hc := List.mem_of_getElem? hc
  have hd := List.mem_of_getElem? hd
  obtain ⟨-, hsucceeded, -, hends⟩ := dialogue none 1 hr c hc
  obtain ⟨-, -, htarget, -⟩ := dialogue none 1 hr d hd
  obtain ⟨o, ho, -⟩ := hends hgraceful
  have hanswered : c.phase.answered = true := by
    rcases ho with ho | ho <;> rw [ho] <;> rfl
  exact ⟨s, c, d, hr, hc, hd, hgraceful, hsucceeded.2 hanswered, hanswered, hwrote,
    by rw [hphase]; rfl, htarget (by rw [hphase]; rfl)⟩

end Inbound

end Nextppp

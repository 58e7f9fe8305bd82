/-
**What the streams of a tunnel deliver.**

Each direction of a tunnel is a lane (`Nextppp/Mux/Lanes.lean`), and every step of the two ends is a run
of both lanes.  The invariant of a lane therefore holds in every state that is reached, whatever the
order of the steps: back-pressure on a channel, the demux that gives up on a stalled consumer, a
`CLOSE` from either end, streams that go while others are opened, and the end of a writer.

Main definitions:

* `Nextppp.Peers.upLane`, `Nextppp.Peers.downLane` — the two lanes;
* `Nextppp.Peers.Delivery` — the invariant of both.

Main results:

* `Nextppp.Peers.Delivery.reach` — it holds in every state reached;
* `Nextppp.Peers.streams_intact` — what `pump_down` of a stream takes is a first part of what
  `pump_up` of its peer queued.
-/

import Nextppp.Mux.Protocol

set_option relaxedAutoImplicit false
set_option autoImplicit false

namespace Nextppp

open Tasks Run Gate

namespace Peers

variable {rt : ServerRuntime} {s s' : Peers} {a : Step} {sid : StreamId}

/-- The lane from the pumps of the client to those of the server. -/
def upLane (s : Peers) : Lane.State StreamId StreamEvent OutFrame :=
  lane s.clientHistory.queued s.upPath s.client.shared.out.receiver s.serverHistory
    (Demux.inbox s.server)

/-- The lane from the pumps of the server to those of the client. -/
def downLane (s : Peers) : Lane.State StreamId StreamEvent OutFrame :=
  lane s.serverHistory.queued s.downPath s.server.shared.out.receiver s.clientHistory
    (Tunnel.inbox s.client)

/-- A stream task has the channel of its number, under its id. -/
theorem upLane_owner {k : ℕ} {w : Demux.StreamTask} (hw : s.server.tasks[k]? = some w) :
    s.upLane.owner k = some w.sid := by
  simp [upLane, lane, Demux.inbox, hw]

/-- A call has the channel of its number, under its id. -/
theorem downLane_owner {i : ℕ} {c : Tunnel.Call} (hc : s.client.tasks[i]? = some c)
    (hcalled : c.phase ≠ .called) : s.downLane.owner i = some c.sid := by
  simp [downLane, lane, Tunnel.inbox, hc, Tunnel.Call.own, hcalled]

/-- The invariant of both lanes. -/
structure Delivery (s : Peers) : Prop where
  up : Lane.Ok frameEvent s.upLane
  down : Lane.Ok frameEvent s.downLane

/-- Nothing is received for a stream before something was queued for it. -/
theorem received_nil {q : StreamId → List StreamEvent} {p : List OutFrame} {w : Bool} {h : History}
    {b : Inbox} (hlane : Lane.Ok frameEvent (lane q p w h b)) (hq : q sid = []) :
    h.received sid = [] := by
  have hpre : h.received sid <+: q sid := (List.prefix_append _ _).trans (hlane.flow sid)
  rw [hq] at hpre
  exact List.prefix_nil.1 hpre

/-- Nothing was received for a call that has not sent its `OPEN`. -/
theorem Delivery.received_pended (h : Delivery s) (hproto : Protocol s)
    (hnum : Tunnel.Numbered s.client) {i : ℕ} {c : Tunnel.Call} (hc : s.client.tasks[i]? = some c)
    (hp : c.phase = .pended) : s.clientHistory.received c.sid = [] := by
  refine received_nil h.down ?_
  by_contra hne
  have hpos := (hproto.serverQueued c.sid hne).opens_pos
  have hzero := hproto.opens_zero hnum hc (by simp [hp]) (by rw [hp]; rfl)
  omega

/-- No task has the id of an `OPEN` that is being answered. -/
theorem Protocol.no_task (h : Protocol s) {payload : List UInt8}
    (hpc : s.server.shared.pc = .opening sid payload) : ¬ s.HasTask sid := by
  rintro ⟨c, hc, hsid⟩
  have htask : 0 < s.server.tasks.countP fun c => c.sid = sid :=
    List.countP_pos_iff.2 ⟨c, hc, by simpa using hsid⟩
  have hone : (s.server.shared.pc.opens sid).toNat = 1 := by simp [hpc, DemuxPc.opens]
  have honce := h.once sid
  unfold opens at honce
  omega

theorem Delivery.client_step {x : Tunnel.Action} {c : Tunnel.State} {up down : Transit} {r : Answers}
    (h : Delivery s) (hproto : Protocol s) (hnum : Tunnel.Numbered s.client)
    (hnum' : Tunnel.Numbered c) (hc : Tunnel.step s.client x = some c)
    (hup : s.up.sent s.client.shared.out (Tunnel.carry x) = some up)
    (hdown : s.down.got (Tunnel.carry x) = some down) :
    Delivery { s with
      client := c
      up := up
      down := down
      clientHistory := s.clientHistory.client s.client x
      answers := r } := by
  refine ⟨?_, ?_⟩
  · exact h.up.steps ((Tunnel.step_emits hc s.clientHistory).steps hup)
  · have hlist : ∀ {i : ℕ} {d : Tunnel.Call}, s.client.tasks[i]? = some d → d.phase = .pended →
        s.clientHistory.received d.sid = [] := h.received_pended hproto hnum
    have hold := h.down
    unfold downLane downPath at hold
    rw [Transit.got_path hdown s.server.shared.out] at hold
    exact hold.steps (Tunnel.step_inbox hc hnum' hlist)

theorem Delivery.server_step {x : Demux.Action} {d : Demux.State} {up down : Transit} {r : Answers}
    (h : Delivery s) (hproto : Protocol s) (hspawned : s.server.shared.spawned = s.server.tasks.length)
    (hd : Demux.step rt s.server x = some d)
    (hdown : s.down.sent s.server.shared.out (Demux.carry x) = some down)
    (hup : s.up.got (Demux.carry x) = some up) :
    Delivery { s with
      server := d
      up := up
      down := down
      serverHistory := s.serverHistory.server s.server x
      answers := r } := by
  refine ⟨?_, ?_⟩
  · have hfresh : ∀ {sid payload}, s.server.shared.pc = .opening sid payload →
        (∀ c ∈ s.server.tasks, c.sid ≠ sid) ∧ s.serverHistory.received sid = [] := by
      intro sid payload hpc
      have hnone := hproto.no_task hpc
      refine ⟨fun c hc hsid => hnone ⟨c, hc, hsid⟩, received_nil h.up ?_⟩
      by_contra hne
      exact hnone (hproto.clientQueued sid hne)
    have hold := h.up
    unfold upLane upPath at hold
    rw [Transit.got_path hup s.client.shared.out] at hold
    exact hold.steps (Demux.step_inbox hd hspawned hfresh)
  · exact h.down.steps ((Demux.step_emits hd s.serverHistory).steps hdown)

theorem Delivery.step (h : Delivery s) (hproto : Protocol s) (hnum : Tunnel.Numbered s.client)
    (hnum' : Tunnel.Numbered s'.client)
    (hspawned : s.server.shared.spawned = s.server.tasks.length) (hs : step rt s a = some s') :
    Delivery s' := by
  obtain ⟨x, c, up, down, _, _, hc, hup, hdown, rfl⟩ | ⟨x, d, up, down, _, hd, hdown, hup, rfl⟩ |
    ⟨n, _, rfl⟩ | ⟨n, _, rfl⟩ := step_cases hs
  · exact h.client_step hproto hnum hnum' hc hup hdown
  · exact h.server_step hproto hspawned hd hdown hup
  · refine ⟨?_, h.down⟩
    unfold upLane upPath
    dsimp only
    rw [Transit.flush_path]
    exact h.up
  · refine ⟨h.up, ?_⟩
    unfold downLane downPath
    dsimp only
    rw [Transit.flush_path]
    exact h.down

/-- Both lanes of a new tunnel are empty. -/
theorem Delivery.new (pool : Bool) : Delivery (init pool) := by
  have hempty : ∀ {b : Inbox} {w : Bool}, (∀ k, b.owner k = none) → (∀ sid, b.table sid = none) →
      (∀ k, (b.events k).queue = []) → b.hand = .idle →
      Lane.Ok frameEvent (lane (fun _ => []) [] w History.empty b) := by
    intro b w howner htable hqueue hhand
    refine ⟨?_, ?_, ?_, ?_, ?_, ?_, ?_, ?_, ?_⟩
    all_goals simp [lane, Lane.eventsOf, History.empty, howner, htable, hqueue, hhand]
  exact ⟨hempty (fun _ => rfl) (fun _ => rfl) (fun _ => rfl) rfl,
    hempty (fun _ => rfl) (fun _ => rfl) (fun _ => rfl) rfl⟩

/-- **The lanes keep their invariant in every run** with fresh ids. -/
theorem Delivery.reach {ok : Peers → Step → Prop} {pool : Bool} (hok : ∀ {s a}, ok s a → Fresh s a)
    (h : Reach (Peers.step rt) ok (init pool) s) : Delivery s := by
  induction h with
  | refl => exact Delivery.new pool
  | step a hreach ha hs ih =>
      exact ih.step (Protocol.reach hok hreach) (numbered_reach hok hreach)
        (numbered_reach hok (hreach.step a ha hs)) (Demux.spawned_reach (reach_server hreach)) hs

/-- **The streams are intact**, in every run of a tunnel with fewer than `2 ^ 32` calls of `open`.  What
`pump_down` of a stream took, payloads and the end of the stream in one list, is a first part of what
`pump_up` of the other end queued for the id, and an id stands for one stream at each end. -/
theorem streams_intact (rt : ServerRuntime) (pool : Bool) {s : Peers}
    (h : Reach (step rt) always (init pool) s) (hopens : s.client.tasks.length < 2 ^ 32) :
    (∀ (i : ℕ) (c : Tunnel.Call), s.client.tasks[i]? = some c → c.phase ≠ .called →
        s.clientHistory.took i <+: s.serverHistory.queued c.sid) ∧
      (∀ (k : ℕ) (w : Demux.StreamTask), s.server.tasks[k]? = some w →
        s.serverHistory.took k <+: s.clientHistory.queued w.sid) ∧
      (∀ (i j : ℕ) (c d : Tunnel.Call), s.client.tasks[i]? = some c → s.client.tasks[j]? = some d →
        c.phase ≠ .called → d.phase ≠ .called → c.sid = d.sid → i = j) ∧
      (∀ (k l : ℕ) (w v : Demux.StreamTask), s.server.tasks[k]? = some w →
        s.server.tasks[l]? = some v → w.sid = v.sid → k = l) ∧
      ∀ w ∈ s.server.tasks, ∃ (i : ℕ) (c : Tunnel.Call), s.client.tasks[i]? = some c ∧
        c.sid = w.sid ∧ c.phase ≠ .called := by
  have hfresh := reach_fresh h hopens
  have hlanes := Delivery.reach id hfresh
  refine ⟨?_, ?_, ?_, ?_, ?_⟩
  · intro i c hc hne
    exact hlanes.down.took_queued (downLane_owner hc hne)
  · intro k w hw
    exact hlanes.up.took_queued (upLane_owner hw)
  · intro i j c d hc hd hne hne' hsid
    exact hlanes.down.inj (downLane_owner hc hne) (hsid ▸ downLane_owner hd hne')
  · intro k l w v hw hv hsid
    exact hlanes.up.inj (upLane_owner hw) (hsid ▸ upLane_owner hv)
  · intro w hw
    have hserver : s.HasTask w.sid := ⟨w, hw, rfl⟩
    obtain ⟨i, c, hc, hsid, hsent⟩ := (Protocol.reach id hfresh).sent w.sid hserver.opens_pos
    exact ⟨i, c, hc, hsid, Tunnel.Phase.sent_ne_called hsent⟩

/-- `pump_up` of a stream of the client queues an event, which reaches `pump_down` at the server. -/
def deliverUp (i k : ℕ) (e : PumpStep) (f : OutFrame) : List Step :=
  [.client (.task i (.pump e))] ++ carryUp
    ++ [.server (.main (.recv f)), .server (.main .routeSend), .server (.task k (.pump .recv))]

/-- Two streams; the second one sends a payload and its end. -/
theorem streams_intact_two :
    ∃ s w, Reach (step (limited 1)) always (init true) s ∧ s.client.tasks.length < 2 ^ 32 ∧
      s.server.tasks[1]? = some w ∧ s.serverHistory.took 1 = [.data [7, 8], .eof] ∧
      s.serverHistory.took 1 <+: s.clientHistory.queued w.sid := by
  obtain ⟨s, w, he, hlen, hw, htook⟩ : ∃ s w, exec (step (limited 1)) always (init true)
      (openUp 0 1 ++ acceptStream 0 0 1 ++ openUp 1 2 ++ acceptStream 1 1 2
        ++ deliverUp 1 1 (.data [7, 8]) ⟨.data, 2, [7, 8]⟩ ++ deliverUp 1 1 .eof (.bare .eof 2)) = some s ∧
      s.client.tasks.length < 2 ^ 32 ∧ s.server.tasks[1]? = some w ∧
      s.serverHistory.took 1 = [.data [7, 8], .eof] := ⟨_, _, rfl, by decide, rfl, rfl⟩
  have h := Reach.refl.of_exec _ he
  exact ⟨s, w, h, hlen, hw, htook, (streams_intact (limited 1) true h hlen).2.1 1 w hw⟩

end Peers

end Nextppp

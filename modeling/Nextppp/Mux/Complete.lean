/-
**The end of a stream is a certificate.**

A stream can break: the demux gives up on a consumer that does not drain its channel, a `CLOSE` takes a
stream out of the table, the tunnel dies with frames under way.  In all these cases the consumer sees
its channel end, and it may have missed something.  It can tell.  A `pump_up` queues its payloads and
then, if the local socket half-closed, one `EOF`, behind which it queues nothing; so a `pump_down` that
took an `EOF` took everything.  A stream is only marked graceful when it has.

Main definitions:

* `Nextppp.Tunnel.Pumping`, `Nextppp.Demux.Pumping` — a `pump_up` that may still queue events.

Main results:

* `Nextppp.Peers.eof_complete` — a consumer that took an `EOF` took all that was queued.
-/

import Nextppp.Mux.Delivery
import Nextppp.Server.Endings

set_option relaxedAutoImplicit false
set_option autoImplicit false

namespace Nextppp

open Tasks Run Gate Lane

/-! ### The pumps -/

/-- A pump queues nothing, or an event while it runs, and it stops with the end. -/
theorem pumpStream_queued {h : History} {sid : StreamId} {k : ℕ} {p q : Pump} {e : PumpStep}
    (hq : pumpStream sid p e = some q) :
    (q.up = true → p.up = true) ∧
      ((h.pump k sid p.events e).queued = h.queued ∨ ∃ ev, p.up = true ∧
        (h.pump k sid p.events e).queued = add h.queued sid ev ∧ (ev = .eof → q.up = false)) := by
  cases e with
  | data payload =>
      obtain ⟨⟨hup, _⟩, ⟨⟩⟩ := Option.ite_none_right_eq_some.1 hq
      exact ⟨id, .inr ⟨.data payload, hup, rfl, fun heq => by cases heq⟩⟩
  | eof =>
      obtain ⟨⟨hup, _⟩, ⟨⟩⟩ := Option.ite_none_right_eq_some.1 hq
      exact ⟨fun _ => hup, .inr ⟨.eof, hup, rfl, fun _ => rfl⟩⟩
  | close towards =>
      cases towards with
      | true =>
          obtain ⟨hup, ⟨⟩⟩ := Option.ite_none_right_eq_some.1 hq
          exact ⟨fun _ => hup, .inl rfl⟩
      | false =>
          obtain rfl := Option.some.inj hq
          exact ⟨id, .inl rfl⟩
  | upEnds =>
      obtain rfl := Option.some.inj hq
      exact ⟨(fun hup => by cases hup), .inl rfl⟩
  | downEnds =>
      obtain rfl := Option.some.inj hq
      exact ⟨id, .inl rfl⟩
  | recv =>
      simp only [pumpStream] at hq
      split at hq
      · rename_i payload rest hevents
        obtain rfl := Option.some.inj hq
        exact ⟨id, .inl (by simp [History.pump, hevents])⟩
      · rename_i ev rest _ hevents
        obtain rfl := Option.some.inj hq
        exact ⟨id, .inl (by simp [History.pump, hevents])⟩
      · cases hq

namespace Tunnel

variable {s s' : State} {x : Action} {i : ℕ} {t : Tunnel} {c : Call} {h : History}

/-- A `pump_up` for the id may still queue events, now or when its call has a stream. -/
def Pumping (s : State) (sid : StreamId) : Prop :=
  ∃ (i : ℕ) (c : Call), s.tasks[i]? = some c ∧ c.phase ≠ .called ∧ c.sid = sid ∧ c.up = true

/-- A call moves its pumps, or it leaves them alone. -/
theorem callStep_pumps {e : CallStep} {r : Tunnel × Call} (hr : callStep i t c e = some r) :
    (∃ y p, e = .pump y ∧ c.phase = .handle ∧
        pumpStream c.sid ⟨c.up, t.out, t.events i⟩ y = some p ∧ r.2 = { c with up := p.up }) ∨
      ((∀ y, e ≠ .pump y) ∧ r.2.up = c.up) := by
  unfold callStep at hr
  split at hr
  case h_18 y hp =>
      obtain ⟨p, hpump, rfl⟩ := Option.map_eq_some_iff.1 hr
      exact .inl ⟨y, p, rfl, hp, hpump, rfl⟩
  all_goals try split at hr
  all_goals try split at hr
  all_goals
    first
    | (obtain rfl := Option.some.inj hr; exact .inr ⟨(fun y hy => by cases hy), rfl⟩)
    | cases hr

/-- The pumps of the client queue nothing behind an `EOF`. -/
theorem step_sealed (hseal : Sealed .eof h.queued (Pumping s)) (hs : step s x = some s')
    (hnum : Numbered s')
    (hfresh : ∀ (i : ℕ) (c c' : Call), s.tasks[i]? = some c → c.phase = .called →
      s'.tasks[i]? = some c' → c'.phase ≠ .called → h.queued c'.sid = []) :
    Sealed .eof (h.client s x).queued (Pumping s') := by
  obtain ⟨a, r, rfl, hr, rfl⟩ | ⟨i, e, c, r, rfl, hc, hr, rfl⟩ := step_cases hs
  · have hqueued : (h.client s (.main a)).queued = h.queued := by
      cases a with
      | recv f => exact History.recv_queued h f
      | _ => rfl
    rw [hqueued]
    refine hseal.keep fun sid hsid => .inl ?_
    obtain ⟨i, c, hc, hne, hsid, hup⟩ := hsid
    rcases getElem?_append_cases hc with hold | hnew
    · exact ⟨i, c, hold, hne, hsid, hup⟩
    · exact absurd ((act_cases hr).2 c hnew) hne
  · have hset : (s.tasks.set i r.2)[i]? = some r.2 :=
      List.getElem?_set_self (List.getElem?_eq_some_iff.1 hc).1
    -- a pump that runs behind the step ran before, or its id is new
    have hran : (r.2.up = true → c.up = true) → ∀ sid, Pumping ⟨r.1, s.tasks.set i r.2⟩ sid →
        Pumping s sid ∨ h.queued sid = [] := by
      intro hback sid hsid
      obtain ⟨j, d, hd, hne, rfl, hup⟩ := hsid
      rcases getElem?_set_cases hd with ⟨rfl, rfl⟩ | ⟨_, hold⟩
      · by_cases hcalled : c.phase = .called
        · exact .inr (hfresh j c _ hc hcalled hset hne)
        · have hsid := (callStep_forward hr).2.1 hcalled
          exact .inl ⟨j, c, hc, hcalled, hsid.symm, hback hup⟩
      · exact .inl ⟨j, d, hold, hne, rfl, hup⟩
    rcases callStep_pumps hr with ⟨y, p, rfl, hp, hpump, hr₂⟩ | ⟨hne, hup⟩
    · have hclient : h.client s (.task i (.pump y)) = h.pump i c.sid (s.shared.events i) y := by
        simp [History.client, hc]
      have hcalled : c.phase ≠ .called := by simp [hp]
      obtain ⟨hback, hsame | ⟨ev, hup, hadd, hend⟩⟩ := pumpStream_queued (h := h) (k := i) hpump
      · rw [hclient, hsame]
        exact hseal.keep (hran (by rw [hr₂]; exact hback))
      · rw [hclient, hadd]
        refine hseal.add ⟨i, c, hc, hcalled, rfl, hup⟩ ?_ ?_
        · rintro sid ⟨j, d, hd, hne, rfl, hdup⟩
          rcases getElem?_set_cases hd with ⟨rfl, rfl⟩ | ⟨_, hold⟩
          · exact ⟨j, c, hc, hcalled, by rw [hr₂], hup⟩
          · exact ⟨j, d, hold, hne, rfl, hdup⟩
        · rintro rfl ⟨j, d, hd, hne, hsid, hdup⟩
          obtain rfl : j = i :=
            hnum.inj hd hset hne (by rw [hr₂]; exact hcalled) (by rw [hr₂]; exact hsid)
          obtain rfl := Option.some.inj (hset.symm.trans hd)
          rw [hr₂] at hdup
          exact Bool.noConfusion ((hend rfl).symm.trans hdup)
    · have hclient : (h.client s (.task i e)).queued = h.queued := by
        cases e with
        | pump y => exact absurd rfl (hne y)
        | _ => rfl
      rw [hclient]
      exact hseal.keep (hran fun htrue => hup ▸ htrue)

end Tunnel

namespace Demux

variable {rt : ServerRuntime} {s s' : State} {x : Action} {i : ℕ} {d : Demux} {c : StreamTask}
  {h : History}

/-- A `pump_up` for the id may still queue events, now or when its task has connected. -/
def Pumping (s : State) (sid : StreamId) : Prop :=
  ∃ (k : ℕ) (w : StreamTask), s.tasks[k]? = some w ∧ w.sid = sid ∧ w.up = true

/-- A task moves its pumps, or it leaves them alone. -/
theorem handleStream_pumps {e : TaskStep} {r : Demux × StreamTask}
    (hr : handleStream i d c e = some r) :
    (∃ y p, e = .pump y ∧ pumpStream c.sid ⟨c.up, d.out, d.events i⟩ y = some p ∧
        r.2 = { c with up := p.up }) ∨
      ((∀ y, e ≠ .pump y) ∧ r.2.up = c.up) := by
  unfold handleStream at hr
  split at hr
  case h_5 y hp =>
      obtain ⟨p, hpump, rfl⟩ := Option.map_eq_some_iff.1 hr
      exact .inl ⟨y, p, rfl, hpump, rfl⟩
  all_goals try split at hr
  all_goals try split at hr
  all_goals
    first
    | (obtain rfl := Option.some.inj hr; exact .inr ⟨(fun y hy => by cases hy), rfl⟩)
    | cases hr

/-- The pumps of the server queue nothing behind an `EOF`. -/
theorem step_sealed (hseal : Sealed .eof h.queued (Pumping s)) (hs : step rt s x = some s')
    (hinj : ∀ {k l : ℕ} {w v : StreamTask}, s'.tasks[k]? = some w → s'.tasks[l]? = some v →
      w.sid = v.sid → k = l)
    (hfresh : ∀ {sid payload}, s.shared.pc = .opening sid payload → h.queued sid = []) :
    Sealed .eof (h.server s x).queued (Pumping s') := by
  obtain ⟨a, r, rfl, hr, rfl⟩ | ⟨i, e, c, r, rfl, hc, hr, rfl⟩ := step_cases hs
  · have hqueued : (h.server s (.main a)).queued = h.queued := by
      cases a with
      | recv f => exact History.recv_queued h f
      | _ => rfl
    rw [hqueued]
    refine hseal.keep fun sid hsid => ?_
    obtain ⟨k, w, hw, rfl, hup⟩ := hsid
    rcases getElem?_append_cases hw with hold | hnew
    · exact .inl ⟨k, w, hold, rfl, hup⟩
    · obtain ⟨_, payload, hpc⟩ := act_spawns hr hnew
      exact .inr (hfresh hpc)
  · have hset : (s.tasks.set i r.2)[i]? = some r.2 :=
      List.getElem?_set_self (List.getElem?_eq_some_iff.1 hc).1
    have hsid := handleStream_sid hr
    have hran : (r.2.up = true → c.up = true) → ∀ sid, Pumping ⟨r.1, s.tasks.set i r.2⟩ sid →
        Pumping s sid := by
      intro hback sid hpumping
      obtain ⟨k, w, hw, rfl, hup⟩ := hpumping
      rcases getElem?_set_cases hw with ⟨rfl, rfl⟩ | ⟨_, hold⟩
      · exact ⟨k, c, hc, hsid.symm, hback hup⟩
      · exact ⟨k, w, hold, rfl, hup⟩
    rcases handleStream_pumps hr with ⟨y, p, rfl, hpump, hr₂⟩ | ⟨hne, hup⟩
    · have hserver : h.server s (.task i (.pump y)) = h.pump i c.sid (s.shared.events i) y := by
        simp [History.server, hc]
      obtain ⟨hback, hsame | ⟨ev, hup, hadd, hend⟩⟩ := pumpStream_queued (h := h) (k := i) hpump
      · rw [hserver, hsame]
        exact hseal.keep fun sid hsid => .inl (hran (by rw [hr₂]; exact hback) sid hsid)
      · rw [hserver, hadd]
        refine hseal.add ⟨i, c, hc, rfl, hup⟩ (hran (by rw [hr₂]; exact hback)) ?_
        rintro rfl ⟨k, w, hw, hwsid, hwup⟩
        obtain rfl : k = i := hinj hw hset (hwsid.trans hsid.symm)
        obtain rfl := Option.some.inj (hset.symm.trans hw)
        rw [hr₂] at hwup
        exact Bool.noConfusion ((hend rfl).symm.trans hwup)
    · have hserver : (h.server s (.task i e)).queued = h.queued := by
        cases e with
        | pump y => exact absurd rfl (hne y)
        | _ => rfl
      rw [hserver]
      exact hseal.keep fun sid hpumping => .inl (hran (fun htrue => hup ▸ htrue) sid hpumping)

end Demux

/-! ### Both ends -/

namespace Peers

variable {rt : ServerRuntime} {s s' : Peers} {a : Step} {sid : StreamId}

/-- Neither end queues anything behind an `EOF`. -/
structure Marked (s : Peers) : Prop where
  client : Sealed .eof s.clientHistory.queued (Tunnel.Pumping s.client)
  server : Sealed .eof s.serverHistory.queued (Demux.Pumping s.server)

theorem Marked.new (pool : Bool) : Marked (init pool) := by
  refine ⟨⟨fun _ => StopLast.nil _, fun _ _ => List.not_mem_nil⟩,
    ⟨fun _ => StopLast.nil _, fun _ _ => List.not_mem_nil⟩⟩

theorem Marked.step (h : Marked s) (hproto : Protocol s) (hnum' : Tunnel.Numbered s'.client)
    (hlanes' : Delivery s') (hs : step rt s a = some s') : Marked s' := by
  obtain ⟨x, c, up, down, _, _, hc, _, _, rfl⟩ | ⟨x, d, up, down, _, hd, _, _, rfl⟩ | ⟨n, _, rfl⟩ |
    ⟨n, _, rfl⟩ := step_cases hs
  · refine ⟨Tunnel.step_sealed h.client hc hnum' ?_, h.server⟩
    -- what was queued under a new id would belong to an earlier call
    intro i d d' hd hcalled hd' hne'
    by_contra hne
    obtain ⟨j, e, he, hsid, hsent⟩ := hproto.sent d'.sid (hproto.clientQueued _ hne).opens_pos
    obtain ⟨e', he', hkeep, _⟩ := Tunnel.step_call hc he
    obtain ⟨hene, hesid⟩ := hkeep (Tunnel.Phase.sent_ne_called hsent)
    obtain rfl : j = i := hnum'.inj he' hd' hene hne' (hesid.trans hsid)
    obtain rfl : d = e := Option.some.inj (hd.symm.trans he)
    exact Tunnel.Phase.sent_ne_called hsent hcalled
  · refine ⟨h.client, Demux.step_sealed h.server hd ?_ ?_⟩
    · intro k l w v hw hv hsid
      exact hlanes'.up.inj (upLane_owner hw) (hsid ▸ upLane_owner hv)
    · intro sid payload hpc
      by_contra hne
      exact hproto.no_task hpc (hproto.serverQueued sid hne)
  · exact ⟨h.client, h.server⟩
  · exact ⟨h.client, h.server⟩

theorem Marked.reach {ok : Peers → Step → Prop} {pool : Bool} (hok : ∀ {s a}, ok s a → Fresh s a)
    (h : Reach (Peers.step rt) ok (init pool) s) : Marked s := by
  induction h with
  | refl => exact Marked.new pool
  | step a hreach ha hs ih =>
      have hreach' := hreach.step a ha hs
      exact ih.step (Protocol.reach hok hreach) (numbered_reach hok hreach')
        (Delivery.reach hok hreach') hs

/-- **An `EOF` certifies that nothing is missing.**  In every run of a tunnel with fewer than `2 ^ 32`
calls, a `pump_down` that took an `EOF` took exactly what `pump_up` of the other end queued for the
stream, at either end and however many streams broke in between; and nothing is ever queued behind an
`EOF`.  In particular a stream that the client drops as graceful is complete. -/
theorem eof_complete (rt : ServerRuntime) (pool : Bool) {s : Peers}
    (h : Reach (step rt) always (init pool) s) (hopens : s.client.tasks.length < 2 ^ 32) :
    (∀ (k : ℕ) (w : Demux.StreamTask), s.server.tasks[k]? = some w →
        .eof ∈ s.serverHistory.took k → s.serverHistory.took k = s.clientHistory.queued w.sid) ∧
      (∀ (i : ℕ) (c : Tunnel.Call), s.client.tasks[i]? = some c → c.phase ≠ .called →
        .eof ∈ s.clientHistory.took i → s.clientHistory.took i = s.serverHistory.queued c.sid) ∧
      (∀ sid, StopLast .eof (s.clientHistory.queued sid) ∧
        StopLast .eof (s.serverHistory.queued sid)) ∧
      ∀ (i : ℕ) (c : Tunnel.Call) (s' : Peers), s.client.tasks[i]? = some c →
        step rt s (.client (.task i (.drop true))) = some s' →
        .eof ∈ s.clientHistory.queued c.sid ∧
          s.clientHistory.took i = s.serverHistory.queued c.sid := by
  have hfresh := reach_fresh h hopens
  have hlanes := Delivery.reach id hfresh
  have hmarked := Marked.reach id hfresh
  have hclient : ∀ (i : ℕ) (c : Tunnel.Call), s.client.tasks[i]? = some c → c.phase ≠ .called →
      .eof ∈ s.clientHistory.took i → s.clientHistory.took i = s.serverHistory.queued c.sid := by
    intro i c hc hne hmem
    exact (hmarked.server.last c.sid).eq_of_isPrefix
      (hlanes.down.took_queued (downLane_owner hc hne)) hmem
  refine ⟨?_, hclient, fun sid => ⟨hmarked.client.last sid, hmarked.server.last sid⟩, ?_⟩
  · intro k w hw hmem
    exact (hmarked.client.last w.sid).eq_of_isPrefix (hlanes.up.took_queued (upLane_owner hw)) hmem
  · intro i c s' hc hs
    obtain ⟨hgraceful, hs⟩ := Option.ite_none_right_eq_some.1 hs
    obtain ⟨htook, hqueued⟩ : .eof ∈ s.clientHistory.took i ∧
        .eof ∈ s.clientHistory.queued c.sid := by
      simpa [graceful, hc] using hgraceful
    obtain ⟨t, ht, _⟩ := Option.bind_eq_some_iff.1 hs
    have hne : c.phase ≠ .called := by
      intro hcalled
      simp [Tunnel.step, Tasks.step, hc, Tunnel.callStep, hcalled] at ht
    exact ⟨hqueued, hclient i c hc hne htook⟩

/-- The stream task of the server that took the end of the second stream. -/
theorem eof_complete_two :
    ∃ s w, Reach (step (limited 1)) always (init true) s ∧ s.server.tasks[1]? = some w ∧
      .eof ∈ s.serverHistory.took 1 ∧ s.serverHistory.took 1 = s.clientHistory.queued w.sid := by
  obtain ⟨s, w, he, hlen, hw, htook⟩ : ∃ s w, exec (step (limited 1)) always (init true)
      (openUp 0 1 ++ acceptStream 0 0 1 ++ openUp 1 2 ++ acceptStream 1 1 2
        ++ deliverUp 1 1 (.data [7, 8]) ⟨.data, 2, [7, 8]⟩ ++ deliverUp 1 1 .eof (.bare .eof 2)) = some s ∧
      s.client.tasks.length < 2 ^ 32 ∧ s.server.tasks[1]? = some w ∧
      .eof ∈ s.serverHistory.took 1 := ⟨_, _, rfl, by decide, rfl, by decide⟩
  have h := Reach.refl.of_exec _ he
  exact ⟨s, w, h, hw, htook, (eof_complete (limited 1) true h hlen).1 1 w hw htook⟩

end Peers

end Nextppp

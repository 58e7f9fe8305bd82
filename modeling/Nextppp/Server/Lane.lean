/-
**The server on the lanes of a tunnel.**

Main definitions:

* `Nextppp.Demux.Pushes`, `Nextppp.Demux.Pumps` — the frames the server pushes and the streams it
  pumps;
* `Nextppp.Demux.inbox` — its receiving end.

Main results:

* `Nextppp.Demux.step_emits` — what a step of the server emits;
* `Nextppp.Demux.step_inbox` — a step of the server is a run of the lane it reads.
-/

import Nextppp.Mux.Lanes

set_option relaxedAutoImplicit false
set_option autoImplicit false

namespace Nextppp

open Tasks Run Gate

variable {q q' : StreamId → List StreamEvent} {p p' : List OutFrame} {w : Bool} {h : History}

/-- The demux of the server, seen from the lane. -/
def DemuxPc.hand : DemuxPc → Lane.Hand StreamId StreamEvent
  | .demuxing | .opening .. | .bouncing _ => .idle
  | .routing task sid ev => .routing task sid ev
  | .unrouting sid => .failed sid
  | .done => .gone

namespace Demux

variable {rt : ServerRuntime} {s s' : State} {x : Action}

/-- The demux only bounces. -/
theorem act_emits {frames : OutFrame → Prop} {streams : StreamId → StreamEvent → Prop} {d : Demux}
    {a : Step} {r : Demux × List StreamTask} (hr : act rt d a = some r)
    (hclose : ∀ sid, frames (.bare .close sid)) :
    Emits frames streams d.out q (carry (.main a)) r.1.out q := by
  cases a with
  | recv f =>
      obtain ⟨_, rfl⟩ : d.pc = .demuxing ∧ (d.onFrame rt f, []) = r := by simpa [act] using hr
      have hout : (d.onFrame rt f).out = d.out := by
        unfold onFrame route checkOpen
        cases f.kind with
        | «open» =>
            dsimp only
            split
            · rfl
            · split <;> rfl
        | data => dsimp only; split <;> rfl
        | eof => dsimp only; split <;> rfl
        | _ => rfl
      rw [hout]
      exact .quiet (by simp [carry]) (by simp [carry])
  | write =>
      simp only [act] at hr
      split at hr
      · rename_i f rest hq
        obtain rfl := Option.some.inj hr
        exact .write f rest hq
      · cases hr
  | writerEnds =>
      obtain rfl := Option.some.inj hr
      exact .lose
  | bounce =>
      simp only [act] at hr
      split at hr
      · obtain rfl := Option.some.inj hr
        exact .trySend (hclose _) rfl
      · cases hr
  | openInsert =>
      simp only [act] at hr
      split at hr
      · split at hr
        · obtain rfl := Option.some.inj hr
          exact .quiet (by simp [carry]) (by simp [carry])
        · obtain rfl := Option.some.inj hr
          exact .quiet (by simp [carry]) (by simp [carry])
      · cases hr
  | routeSend =>
      simp only [act] at hr
      split at hr
      · split at hr
        · obtain rfl := Option.some.inj hr
          exact .quiet (by simp [carry]) (by simp [carry])
        · obtain ⟨_, ⟨⟩⟩ := Option.ite_none_right_eq_some.1 hr
          exact .quiet (by simp [carry]) (by simp [carry])
      · cases hr
  | routeTimeout =>
      simp only [act] at hr
      split at hr
      · obtain ⟨_, ⟨⟩⟩ := Option.ite_none_left_eq_some.1 hr
        exact .quiet (by simp [carry]) (by simp [carry])
      · cases hr
  | unroute =>
      simp only [act] at hr
      split at hr
      · obtain rfl := Option.some.inj hr
        exact .quiet (by simp [carry]) (by simp [carry])
      · cases hr
  | breakLoop =>
      obtain ⟨_, ⟨⟩⟩ := Option.ite_none_right_eq_some.1 hr
      exact .quiet (by simp [carry]) (by simp [carry])

/-- A frame the server pushes that carries no event: a `CLOSE`, or the `REPLY` of a task, which leaves
with a refusal. -/
def Pushes (s : State) (x : Action) (f : OutFrame) : Prop :=
  f.kind = .close ∨ ∃ i c, x = .task i .send ∧ s.tasks[i]? = some c ∧ f.stream = c.sid ∧
    f.kind = .reply ∧ ((c.phase = .replying ∧ f.payload = [replyOk]) ∨
      (c.phase = .refusing ∧ f.payload = [replyRefused]))

/-- A stream the server pumps. -/
def Pumps (s : State) (sid : StreamId) : Prop :=
  ∃ (i : ℕ) (c : StreamTask), s.tasks[i]? = some c ∧ c.phase = .pumping ∧ c.sid = sid

/-- **What a step of the server emits.** -/
theorem step_emits (hs : step rt s x = some s') (h : History) :
    Emits (Pushes s x) (fun sid _ => Pumps s sid) s.shared.out h.queued (carry x) s'.shared.out
      (h.server s x).queued := by
  obtain ⟨a, r, rfl, hr, rfl⟩ | ⟨i, e, c, r, rfl, hc, hr, rfl⟩ := step_cases hs
  · have hqueued : (h.server s (.main a)).queued = h.queued := by
      cases a with
      | recv f => exact History.recv_queued h f
      | _ => rfl
    rw [hqueued]
    exact act_emits hr fun _ => .inl rfl
  · unfold handleStream at hr
    split at hr
    case h_3 hp =>
        split at hr
        · obtain rfl := Option.some.inj hr
          exact .quiet (by simp [carry]) (by simp [carry])
        · obtain ⟨haccepts, ⟨⟩⟩ := Option.ite_none_right_eq_some.1 hr
          exact .push _ (.inr ⟨i, c, rfl, hc, rfl, rfl, .inr ⟨hp, rfl⟩⟩) rfl
            (Bool.and_eq_true_iff.1 haccepts).1
    case h_4 hp =>
        split at hr
        · obtain rfl := Option.some.inj hr
          exact .quiet (by simp [carry]) (by simp [carry])
        · obtain ⟨haccepts, ⟨⟩⟩ := Option.ite_none_right_eq_some.1 hr
          exact .push _ (.inr ⟨i, c, rfl, hc, rfl, rfl, .inl ⟨hp, rfl⟩⟩) rfl
            (Bool.and_eq_true_iff.1 haccepts).1
    case h_5 e hp =>
        obtain ⟨r', hr', rfl⟩ := Option.map_eq_some_iff.1 hr
        have hserver : h.server s (.task i (.pump e)) = h.pump i c.sid (s.shared.events i) e := by
          simp [History.server, hc]
        rw [hserver]
        exact .pump hr' (.inl rfl) fun _ => ⟨i, c, hc, hp, rfl⟩
    case h_8 => cases hr
    all_goals
      obtain rfl := Option.some.inj hr
      exact .quiet (by simp [carry]) (by simp [carry])

/-- The receiving end of the demux. -/
def inbox (s : State) : Inbox where
  owner k := s.tasks[k]?.bind fun c => some c.sid
  table sid := s.shared.registry.lookup sid
  events := s.shared.events
  hand := s.shared.pc.hand

/-- The demux gets a frame. -/
theorem runs_onFrame {d : Demux} {tasks : List StreamTask} (hd : d.pc = .demuxing) (f : OutFrame) :
    Runs (lane q (f :: p) w h (inbox ⟨d, tasks⟩))
      (lane q p w (h.recv f) (inbox ⟨d.onFrame rt f, tasks⟩)) := by
  have hidle : (inbox ⟨d, tasks⟩).hand = .idle := by simp [inbox, hd, DemuxPc.hand]
  have hevent : ∀ {sid : StreamId} {e : StreamEvent}, frameEvent f = some (sid, e) →
      Runs (lane q (f :: p) w h (inbox ⟨d, tasks⟩))
        (lane q p w (h.recv f) (inbox ⟨d.route sid e, tasks⟩)) := by
    intro sid e hf
    unfold route
    split
    · rename_i k hk
      exact runs_route hf hidle hk
    · rename_i hk
      refine (runs_bounce hf hidle hk).trans (runs_same ?_)
      simp [inbox, hd, DemuxPc.hand]
  unfold onFrame
  cases hk : f.kind with
  | «open» =>
      have hf : frameEvent f = none := by simp [frameEvent, hk]
      refine (runs_pop hf).trans (runs_same ?_)
      dsimp only [checkOpen]
      split
      · simp [inbox, hd, DemuxPc.hand]
      · split <;> simp [inbox, hd, DemuxPc.hand]
  | data => exact hevent (by simp [frameEvent, hk])
  | eof => exact hevent (by simp [frameEvent, hk])
  | close =>
      have hf : frameEvent f = none := by simp [frameEvent, hk]
      exact (runs_pop hf).trans (runs_forget (Tunnel.Keeps.erase d.registry f.stream))
  | reply =>
      have hf : frameEvent f = none := by simp [frameEvent, hk]
      exact (runs_pop hf).trans runs_stop

/-- A step of the demux or the writer. -/
theorem act_inbox {d : Demux} {tasks : List StreamTask} {a : Step} {r : Demux × List StreamTask}
    (hspawned : d.spawned = tasks.length) (hr : act rt d a = some r)
    (hfresh : ∀ {sid payload}, d.pc = .opening sid payload → (∀ c ∈ tasks, c.sid ≠ sid) ∧
      h.received sid = []) :
    Runs (lane q ((carry (.main a)).frames ++ p) w h (inbox ⟨d, tasks⟩))
      (lane q p w (h.server ⟨d, tasks⟩ (.main a)) (inbox ⟨r.1, tasks ++ r.2⟩)) := by
  cases a with
  | recv f =>
      obtain ⟨hd, rfl⟩ : d.pc = .demuxing ∧ (d.onFrame rt f, []) = r := by simpa [act] using hr
      dsimp only
      rw [List.append_nil]
      exact runs_onFrame hd f
  | openInsert =>
      simp only [act] at hr
      split at hr
      · rename_i sid payload hpc
        split at hr
        · obtain rfl := Option.some.inj hr
          dsimp only
          rw [List.append_nil]
          exact runs_same (by simp [inbox, hpc, DemuxPc.hand])
        · rename_i addr _
          obtain rfl := Option.some.inj hr
          obtain ⟨hother, hnone⟩ := hfresh hpc
          have hfree : (inbox ⟨d, tasks⟩).owner d.spawned = none := by
            simp [inbox, hspawned]
          have hnew : ∀ k, (inbox ⟨d, tasks⟩).owner k ≠ some sid := by
            intro k hk
            obtain ⟨c, hc, hsid⟩ := Option.bind_eq_some_iff.1 hk
            exact hother c (List.mem_of_getElem? hc) (Option.some.inj hsid)
          refine (runs_assign hfree hnew).trans ?_
          have howned : Function.update (inbox ⟨d, tasks⟩).owner d.spawned (some sid) d.spawned
              = some sid := Function.update_self ..
          refine (runs_list howned hnone).trans (runs_same ?_)
          have howner : (fun k : ℕ => (tasks ++ [(⟨sid, addr, .connecting, true⟩ : StreamTask)])[k]?.bind
              fun c => some c.sid)
              = Function.update (fun k : ℕ => tasks[k]?.bind fun c => some c.sid) d.spawned
                (some sid) := by
            funext k
            by_cases hk : k = d.spawned
            · subst hk
              simp [hspawned]
            · rw [Function.update_of_ne hk]
              by_cases hlt : k < tasks.length
              · rw [List.getElem?_append_left hlt]
              · rw [List.getElem?_eq_none (by simp; omega), List.getElem?_eq_none (by omega)]
          simp only [inbox, howner, lookup_insert_eq, hpc, DemuxPc.hand]
      · cases hr
  | routeSend =>
      simp only [act] at hr
      split at hr
      · rename_i task sid ev hpc
        have hhand : (inbox ⟨d, tasks⟩).hand = .routing task sid ev := by
          simp [inbox, hpc, DemuxPc.hand]
        split at hr
        · obtain rfl := Option.some.inj hr
          dsimp only
          rw [List.append_nil]
          exact runs_fail hhand
        · obtain ⟨haccepts, ⟨⟩⟩ := Option.ite_none_right_eq_some.1 hr
          dsimp only
          rw [List.append_nil]
          exact runs_deliver hhand (Bool.and_eq_true_iff.1 haccepts).1
      · cases hr
  | routeTimeout =>
      simp only [act] at hr
      split at hr
      · rename_i task sid ev hpc
        have hhand : (inbox ⟨d, tasks⟩).hand = .routing task sid ev := by
          simp [inbox, hpc, DemuxPc.hand]
        obtain ⟨_, ⟨⟩⟩ := Option.ite_none_left_eq_some.1 hr
        dsimp only
        rw [List.append_nil]
        exact runs_fail hhand
      · cases hr
  | unroute =>
      simp only [act] at hr
      split at hr
      · rename_i sid hpc
        have hhand : (inbox ⟨d, tasks⟩).hand = .failed sid := by simp [inbox, hpc, DemuxPc.hand]
        obtain rfl := Option.some.inj hr
        dsimp only
        rw [List.append_nil]
        refine (runs_unroute hhand).trans (runs_same ?_)
        simp [inbox, lookup_erase_eq, DemuxPc.hand]
      · cases hr
  | bounce =>
      simp only [act] at hr
      split at hr
      · rename_i sid hpc
        obtain rfl := Option.some.inj hr
        dsimp only
        rw [List.append_nil]
        exact runs_same (by simp [inbox, hpc, DemuxPc.hand])
      · cases hr
  | breakLoop =>
      obtain ⟨_, ⟨⟩⟩ := Option.ite_none_right_eq_some.1 hr
      dsimp only
      rw [List.append_nil]
      exact runs_stop
  | write =>
      simp only [act] at hr
      split at hr
      · obtain rfl := Option.some.inj hr
        dsimp only
        rw [List.append_nil]
        exact .refl
      · cases hr
  | writerEnds =>
      obtain rfl := Option.some.inj hr
      dsimp only
      rw [List.append_nil]
      exact .refl

theorem inbox_set {d : Demux} {tasks : List StreamTask} {i : ℕ} {c c' : StreamTask}
    (hc : tasks[i]? = some c) (hsid : c'.sid = c.sid) :
    inbox ⟨d, tasks.set i c'⟩ = inbox ⟨d, tasks⟩ := by
  simp only [inbox, owner_set_same (fun c : StreamTask => some c.sid) hc (by rw [hsid])]

/-- **A step of the server is a run of the lane it reads**, if no task has the id of an `OPEN` that is
being answered and nothing was received for it. -/
theorem step_inbox (hs : step rt s x = some s') (hspawned : s.shared.spawned = s.tasks.length)
    (hfresh : ∀ {sid payload}, s.shared.pc = .opening sid payload →
      (∀ c ∈ s.tasks, c.sid ≠ sid) ∧ h.received sid = []) :
    Runs (lane q ((carry x).frames ++ p) w h (inbox s)) (lane q p w (h.server s x) (inbox s')) := by
  obtain ⟨a, r, rfl, hr, rfl⟩ | ⟨i, e, c, r, rfl, hc, hr, rfl⟩ := step_cases hs
  · exact act_inbox hspawned hr hfresh
  · unfold handleStream at hr
    split at hr
    case h_5 e hp =>
        obtain ⟨r', hr', rfl⟩ := Option.map_eq_some_iff.1 hr
        have hserver : h.server s (.task i (.pump e)) = h.pump i c.sid (s.shared.events i) e := by
          simp [History.server, hc]
        dsimp only
        rw [hserver, inbox_set hc (by rfl)]
        exact runs_pump (b := inbox s) hr'
    case h_6 =>
        obtain rfl := Option.some.inj hr
        dsimp only
        rw [inbox_set hc (by rfl)]
        exact runs_shut i
    case h_7 =>
        obtain rfl := Option.some.inj hr
        dsimp only
        rw [inbox_set hc (by rfl)]
        have hforget : Runs (lane q p w h (inbox s)) (lane q p w h { inbox s with
            table := fun sid => (s.shared.registry.erase c.sid).lookup sid }) :=
          runs_forget (Tunnel.Keeps.erase s.shared.registry c.sid)
        exact hforget.trans (runs_shut i)
    case h_8 => cases hr
    all_goals
      try split at hr
      all_goals try split at hr
      all_goals
        first
        | (obtain rfl := Option.some.inj hr
           exact runs_same (inbox_set hc rfl))
        | cases hr

end Demux

end Nextppp

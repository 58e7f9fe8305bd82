/-
**How the streams of a server tunnel end.**

An entry of the registry comes with an `OPEN` and goes with a `CLOSE`, with an event that cannot be
handed over, and with the end of the stream task.

Main definitions:

* `Nextppp.turn` — what a frame does to an id in the registry;
* `Nextppp.Demux.present` — an id is in the registry, or about to be;
* `Nextppp.Demux.Ended` — the pumps of a task are over with their end of the stream.

Main results:

* `Nextppp.Demux.step_present` — an id is in the registry after a step only if the frame that was read
  leaves it there;
* `Nextppp.pumpStream_ends`, `Nextppp.Demux.Ended.step` — the pumps end with their stream, and the steps
  of the server keep it so.
-/

import Nextppp.Mux.Protocol

set_option relaxedAutoImplicit false
set_option autoImplicit false

namespace Nextppp

open Tasks Run Gate

/-! ### The entry of an id -/

/-- What a frame does to an id in the registry. -/
def turn (sid : StreamId) (b : Bool) (f : OutFrame) : Bool :=
  if f.stream = sid then
    match f.kind with
    | .open => true
    | .close => false
    | _ => b
  else b

theorem turn_mono {sid : StreamId} {b b' : Bool} (h : b' = true → b = true) (f : OutFrame) :
    turn sid b' f = true → turn sid b f = true := by
  unfold turn
  split
  · split
    · exact id
    · exact id
    · exact h
  · exact h

theorem foldl_turn_mono {sid : StreamId} (fs : List OutFrame) {b b' : Bool}
    (h : b' = true → b = true) : fs.foldl (turn sid) b' = true → fs.foldl (turn sid) b = true := by
  induction fs generalizing b b' with
  | nil => exact h
  | cons f fs ih => exact ih (turn_mono h f)

/-- A frame that is no `OPEN` of the id does not bring it back. -/
theorem turn_eq_false {sid : StreamId} {f : OutFrame} (h : isOpen sid f = false) :
    turn sid false f = false := by
  unfold turn
  split
  · split
    · simp_all [isOpen]
    · rfl
    · rfl
  · rfl

/-- An id that is out of the registry stays out without a new `OPEN`. -/
theorem foldl_turn_false {sid : StreamId} {fs : List OutFrame} (h : fs.countP (isOpen sid) = 0) :
    fs.foldl (turn sid) false = false := by
  induction fs with
  | nil => rfl
  | cons f fs ih =>
      rw [List.countP_eq_zero] at h
      rw [List.foldl_cons, turn_eq_false (by simpa using h f List.mem_cons_self)]
      exact ih (List.countP_eq_zero.2 fun g hg => h g (List.mem_cons_of_mem f hg))

@[simp] theorem turn_close (sid : StreamId) (b : Bool) : turn sid b (.bare .close sid) = false := by
  simp [turn, OutFrame.bare]

/-! ### The end of a direction -/

theorem mem_add_eof {κ : Type*} [DecidableEq κ] {q : κ → List StreamEvent} {k k' : κ}
    {e : StreamEvent} (h : .eof ∈ Lane.add q k e k') : .eof ∈ q k' ∨ (k' = k ∧ e = .eof) := by
  by_cases hk : k' = k
  · subst hk
    rw [Lane.add_self, List.mem_append, List.mem_singleton] at h
    exact h.imp_right fun heq => ⟨rfl, heq.symm⟩
  · rw [Lane.add_of_ne _ _ _ hk] at h
    exact .inl h

/-- **The pumps of a stream are over with its end**: `pump_up` once it has queued an `EOF`, `pump_down`
once it has taken one, and they do not start again. -/
theorem pumpStream_ends {h : History} {sid : StreamId} {k : ℕ} {p q : Pump} {e : PumpStep}
    (hq : pumpStream sid p e = some q) :
    (q.up = true → p.up = true) ∧ (q.events.receiver = true → p.events.receiver = true) ∧
      (∀ sid', .eof ∈ (h.pump k sid p.events e).queued sid' →
        .eof ∈ h.queued sid' ∨ (sid' = sid ∧ q.up = false)) ∧
      ∀ k', .eof ∈ (h.pump k sid p.events e).took k' →
        .eof ∈ h.took k' ∨ (k' = k ∧ q.events.receiver = false) := by
  cases e with
  | data payload =>
      obtain ⟨_, ⟨⟩⟩ := Option.ite_none_right_eq_some.1 hq
      refine ⟨id, id, ?_, fun _ => .inl⟩
      intro sid' hmem
      rcases mem_add_eof hmem with hold | ⟨_, heq⟩
      · exact .inl hold
      · cases heq
  | eof =>
      obtain ⟨_, ⟨⟩⟩ := Option.ite_none_right_eq_some.1 hq
      refine ⟨(fun hup => by cases hup), id, ?_, fun _ => .inl⟩
      intro sid' hmem
      exact (mem_add_eof hmem).imp_right fun heq => ⟨heq.1, rfl⟩
  | close towards =>
      cases towards with
      | true =>
          obtain ⟨_, ⟨⟩⟩ := Option.ite_none_right_eq_some.1 hq
          exact ⟨(fun hup => by cases hup), id, fun _ => .inl, fun _ => .inl⟩
      | false =>
          obtain rfl := Option.some.inj hq
          exact ⟨id, (fun hrecv => by cases hrecv), fun _ => .inl, fun _ => .inl⟩
  | upEnds =>
      obtain rfl := Option.some.inj hq
      exact ⟨(fun hup => by cases hup), id, fun _ => .inl, fun _ => .inl⟩
  | downEnds =>
      obtain rfl := Option.some.inj hq
      exact ⟨id, (fun hrecv => by cases hrecv), fun _ => .inl, fun _ => .inl⟩
  | recv =>
      cases hevents : p.events.queue with
      | nil => simp [pumpStream, hevents] at hq
      | cons ev rest =>
          have htook : ∀ k', .eof ∈ (h.pump k sid p.events .recv).took k' →
              .eof ∈ h.took k' ∨ (k' = k ∧ ev = .eof) := by
            intro k' hmem
            simp only [History.pump, hevents] at hmem
            exact mem_add_eof hmem
          have hqueued : (h.pump k sid p.events .recv).queued = h.queued := by
            simp [History.pump, hevents]
          rw [hqueued]
          cases ev with
          | data payload =>
              obtain rfl : _ = q := by simpa [pumpStream, hevents] using hq
              refine ⟨id, id, fun _ => .inl, ?_⟩
              intro k' hmem
              rcases htook k' hmem with hold | ⟨_, heq⟩
              · exact .inl hold
              · cases heq
          | eof =>
              obtain rfl : _ = q := by simpa [pumpStream, hevents] using hq
              exact ⟨id, (fun hrecv => by cases hrecv), fun _ => .inl,
                fun k' hmem => (htook k' hmem).imp_right fun heq => ⟨heq.1, rfl⟩⟩
          | close =>
              obtain rfl : _ = q := by simpa [pumpStream, hevents] using hq
              exact ⟨id, (fun hrecv => by cases hrecv), fun _ => .inl,
                fun k' hmem => (htook k' hmem).imp_right fun heq => ⟨heq.1, rfl⟩⟩

namespace Demux

variable {rt : ServerRuntime} {s s' : State} {x : Action} {i : ℕ} {c : StreamTask} {d : Demux}
  {h : History}

/-- The id is in the registry, or about to be. -/
def present (d : Demux) (sid : StreamId) : Bool := decide (sid ∈ d.registry) || d.pc.opens sid

theorem mem_of_erase {m : Table} {sid sid' : StreamId} (h : sid ∈ m.erase sid') : sid ∈ m :=
  (AList.mem_erase.1 h).2

/-- The demux gets a frame. -/
theorem onFrame_present (hd : d.pc = .demuxing) (f : OutFrame) (sid : StreamId)
    (hp : (d.onFrame rt f).present sid = true) : turn sid (d.present sid) f = true := by
  have hold : sid ∈ d.registry → d.present sid = true := by
    intro hmem
    simp [present, hmem]
  unfold onFrame route checkOpen at hp
  unfold turn
  cases hk : f.kind with
  | «open» =>
      rw [hk] at hp
      dsimp only at hp ⊢
      by_cases hsid : f.stream = sid
      · rw [if_pos hsid]
      · rw [if_neg hsid]
        refine hold ?_
        split at hp
        · simpa [present, DemuxPc.opens] using hp
        · split at hp
          · simpa [present, DemuxPc.opens] using hp
          · simpa [present, DemuxPc.opens, hsid] using hp
  | close =>
      rw [hk] at hp
      dsimp only at hp ⊢
      simp only [present, hd, DemuxPc.opens, Bool.or_false, decide_eq_true_eq, AList.mem_erase] at hp
      rw [if_neg (Ne.symm hp.1)]
      exact hold hp.2
  | data =>
      rw [hk] at hp
      dsimp only at hp ⊢
      rw [ite_self]
      refine hold ?_
      split at hp <;> simpa [present, DemuxPc.opens] using hp
  | eof =>
      rw [hk] at hp
      dsimp only at hp ⊢
      rw [ite_self]
      refine hold ?_
      split at hp <;> simpa [present, DemuxPc.opens] using hp
  | reply =>
      rw [hk] at hp
      dsimp only at hp ⊢
      rw [ite_self]
      refine hold ?_
      simpa [present, DemuxPc.opens] using hp

/-- **An id is in the registry after a step** only if it was there before it, or about to be, or the
frame that was read brings it. -/
theorem step_present (hs : step rt s x = some s') (sid : StreamId)
    (hp : s'.shared.present sid = true) :
    (carry x).frames.foldl (turn sid) (s.shared.present sid) = true := by
  obtain ⟨a, r, rfl, hr, rfl⟩ | ⟨i, e, c, r, rfl, hc, hr, rfl⟩ := step_cases hs
  · cases a with
    | recv f =>
        obtain ⟨hd, rfl⟩ : s.shared.pc = .demuxing ∧ (s.shared.onFrame rt f, []) = r := by
          simpa [act] using hr
        exact onFrame_present hd f sid hp
    | openInsert =>
        simp only [act] at hr
        split at hr
        · rename_i sid' payload hpc
          split at hr
          · obtain rfl := Option.some.inj hr
            have hmem : sid ∈ s.shared.registry := by simpa [present, DemuxPc.opens] using hp
            simp [carry, Carry.frames, present, hmem]
          · obtain rfl := Option.some.inj hr
            have hmem : sid = sid' ∨ sid ∈ s.shared.registry := by
              simpa [present, DemuxPc.opens] using hp
            rcases hmem with rfl | hmem
            · simp [carry, Carry.frames, present, hpc, DemuxPc.opens]
            · simp [carry, Carry.frames, present, hmem]
        · cases hr
    | unroute =>
        simp only [act] at hr
        split at hr
        · obtain rfl := Option.some.inj hr
          have hmem := hp
          simp only [present, DemuxPc.opens, Bool.or_false, decide_eq_true_eq] at hmem
          simp [carry, Carry.frames, present, mem_of_erase hmem]
        · cases hr
    | writerEnds =>
        obtain rfl := Option.some.inj hr
        exact hp
    | _ =>
        -- the other steps leave the registry alone and answer no `OPEN`
        simp only [act] at hr
        try split at hr
        all_goals try split at hr
        all_goals try split at hr
        all_goals
          first
          | (obtain rfl := Option.some.inj hr
             have hmem : sid ∈ s.shared.registry := by simpa [present, DemuxPc.opens] using hp
             simp [carry, Carry.frames, present, hmem])
          | (obtain rfl := Option.some.inj hr
             exact hp)
          | cases hr
  · obtain ⟨hpc, _, _, hregistry⟩ := handleStream_cases hr
    have hsub : sid ∈ r.1.registry → sid ∈ s.shared.registry := by
      intro hmem
      rcases hregistry with ⟨hsame, _⟩ | ⟨herase, _⟩
      · rwa [hsame] at hmem
      · rw [herase] at hmem
        exact mem_of_erase hmem
    unfold present at hp ⊢
    dsimp only at hp
    rw [hpc] at hp
    simp only [carry, Carry.frames, List.foldl_nil, Bool.or_eq_true, decide_eq_true_eq] at hp ⊢
    exact hp.imp_left hsub

/-! ### The end of a task -/

/-- The task has left its pumps, or was refused by its target. -/
def Phase.over : Phase → Bool
  | .leaving | .finished => true
  | _ => false

/-- The task has replied to its `OPEN`. -/
def Phase.replied : Phase → Bool
  | .pumping | .leaving | .finished => true
  | _ => false

/-- A task goes on, and its end of the stream stays where it is. -/
theorem handleStream_forward {e : TaskStep} {r : Demux × StreamTask}
    (hr : handleStream i d c e = some r) :
    (c.phase.over = true → r.2.phase.over = true) ∧
      (c.phase.replied = true → r.2.phase.replied = true) ∧
      (r.2.up = true → c.up = true) ∧
      (r.2.phase = .finished → r.1.registry = d.registry.erase c.sid) := by
  unfold handleStream at hr
  split at hr
  case h_5 e hp =>
      obtain ⟨p, hp', rfl⟩ := Option.map_eq_some_iff.1 hr
      refine ⟨id, id, ?_, ?_⟩
      · exact (pumpStream_ends (h := History.empty) (k := i) hp').1
      · intro hfin
        rw [show c.phase = .finished from hfin] at hp
        cases hp
  case h_6 hp =>
      obtain rfl := Option.some.inj hr
      exact ⟨fun _ => rfl, fun _ => rfl, id, fun hfin => by cases hfin⟩
  case h_7 hp =>
      obtain rfl := Option.some.inj hr
      exact ⟨fun _ => rfl, fun _ => rfl, id, fun _ => rfl⟩
  case h_8 => cases hr
  all_goals
    rename_i hp
    try split at hr
    all_goals try split at hr
    all_goals
      first
      | (obtain rfl := Option.some.inj hr
         exact ⟨(fun hover => by rw [hp] at hover; cases hover),
           (fun hrep => by rw [hp] at hrep; cases hrep), id, fun hfin => by cases hfin⟩)
      | cases hr

/-- A task that is over stays so. -/
theorem step_over (hs : step rt s x = some s') {sid : StreamId}
    (hw : ∃ w ∈ s.tasks, w.sid = sid ∧ w.phase.over = true) :
    ∃ w ∈ s'.tasks, w.sid = sid ∧ w.phase.over = true := by
  obtain ⟨w, hmem, rfl, hover⟩ := hw
  obtain ⟨a, r, _, _, rfl⟩ | ⟨j, e, c, r, _, hc, hr, rfl⟩ := step_cases hs
  · exact ⟨w, List.mem_append_left _ hmem, rfl, hover⟩
  · obtain ⟨k, hk⟩ := List.getElem?_of_mem hmem
    by_cases hjk : j = k
    · subst hjk
      obtain rfl : c = w := Option.some.inj (hc.symm.trans hk)
      have hset : (s.tasks.set j r.2)[j]? = some r.2 :=
        List.getElem?_set_self (List.getElem?_eq_some_iff.1 hc).1
      exact ⟨r.2, List.mem_of_getElem? hset, handleStream_sid hr, (handleStream_forward hr).1 hover⟩
    · have hset : (s.tasks.set j r.2)[k]? = some w := by
        rw [List.getElem?_set_ne hjk]
        exact hk
      exact ⟨w, List.mem_of_getElem? hset, rfl, hover⟩

/-- A task that sends a refusal leaves. -/
theorem refusing_over (hs : step rt s (.task i .send) = some s') (hc : s.tasks[i]? = some c)
    (hp : c.phase = .refusing) : ∃ w ∈ s'.tasks, w.sid = c.sid ∧ w.phase.over = true := by
  obtain ⟨c', hc', hwork⟩ := Option.bind_eq_some_iff.1 hs
  obtain ⟨r, hr, rfl⟩ := Option.map_eq_some_iff.1 hwork
  obtain rfl : c = c' := Option.some.inj (hc.symm.trans hc')
  have hset : (s.tasks.set i r.2)[i]? = some r.2 :=
    List.getElem?_set_self (List.getElem?_eq_some_iff.1 hc).1
  refine ⟨r.2, List.mem_of_getElem? hset, handleStream_sid hr, ?_⟩
  simp only [handleStream, hp] at hr
  split at hr
  · obtain rfl := Option.some.inj hr
    rfl
  · obtain ⟨_, ⟨⟩⟩ := Option.ite_none_right_eq_some.1 hr
    rfl

/-- A task whose `pump_up` has queued an `EOF` is past its reply and does not read on, and neither does a
`pump_down` that has taken one. -/
structure Ended (s : State) (h : History) : Prop where
  up : ∀ {k : ℕ} {w : StreamTask}, s.tasks[k]? = some w → .eof ∈ h.queued w.sid →
    w.up = false ∧ w.phase.replied = true
  down : ∀ k, .eof ∈ h.took k → (s.shared.events k).receiver = false

/-- The demux closes no channel and opens none. -/
theorem act_receiver {a : Step} {r : Demux × List StreamTask} (hr : act rt d a = some r) (k : ℕ) :
    (r.1.events k).receiver = (d.events k).receiver := by
  cases a with
  | recv f =>
      obtain ⟨_, rfl⟩ : d.pc = .demuxing ∧ (d.onFrame rt f, []) = r := by simpa [act] using hr
      unfold onFrame route checkOpen
      cases f.kind with
      | «open» =>
          dsimp only
          split
          · rfl
          · split <;> rfl
      | data => dsimp only; split <;> rfl
      | eof => dsimp only; split <;> rfl
      | _ => rfl
  | routeSend =>
      simp only [act] at hr
      split at hr
      · rename_i task sid ev _
        split at hr
        · obtain rfl := Option.some.inj hr
          rfl
        · obtain ⟨_, ⟨⟩⟩ := Option.ite_none_right_eq_some.1 hr
          by_cases hk : k = task
          · subst hk
            simp [Channel.push]
          · simp [Function.update_of_ne hk]
      · cases hr
  | _ =>
      simp only [act] at hr
      try split at hr
      all_goals try split at hr
      all_goals
        first
        | (obtain rfl := Option.some.inj hr
           rfl)
        | cases hr

/-- A task spawned by the demux has the id of the `OPEN` that is being answered. -/
theorem act_spawns {a : Step} {r : Demux × List StreamTask} (hr : act rt d a = some r)
    {w : StreamTask} (hw : w ∈ r.2) :
    w.phase = .connecting ∧ ∃ payload, d.pc = .opening w.sid payload := by
  cases a with
  | openInsert =>
      simp only [act] at hr
      split at hr
      · rename_i sid payload hpc
        split at hr
        · obtain rfl := Option.some.inj hr
          cases hw
        · obtain rfl := Option.some.inj hr
          obtain rfl := List.mem_singleton.1 hw
          exact ⟨rfl, payload, hpc⟩
      · cases hr
  | _ =>
      simp only [act] at hr
      try split at hr
      all_goals try split at hr
      all_goals try split at hr
      all_goals
        first
        | (obtain rfl := Option.some.inj hr
           cases hw)
        | cases hr

/-- What a step of a task does to the ends of its stream. -/
theorem handleStream_ends {e : TaskStep} {r : Demux × StreamTask}
    (hr : handleStream i s.shared c e = some r) (hc : s.tasks[i]? = some c) :
    (∀ sid, .eof ∈ (h.server s (.task i e)).queued sid →
        .eof ∈ h.queued sid ∨ (sid = c.sid ∧ r.2.up = false ∧ r.2.phase.replied = true)) ∧
      (∀ k, .eof ∈ (h.server s (.task i e)).took k →
        .eof ∈ h.took k ∨ (r.1.events k).receiver = false) ∧
      ∀ k, (s.shared.events k).receiver = false → (r.1.events k).receiver = false := by
  have hclose : ∀ k, (s.shared.events k).receiver = false →
      (Function.update s.shared.events i (s.shared.events i).close k).receiver = false := by
    intro k hk
    by_cases hki : k = i
    · subst hki
      rw [Function.update_self]
      rfl
    · rw [Function.update_of_ne hki]
      exact hk
  unfold handleStream at hr
  split at hr
  case h_5 e hp =>
      obtain ⟨p, hp', rfl⟩ := Option.map_eq_some_iff.1 hr
      obtain ⟨_, hrecv, hqueued, htook⟩ := pumpStream_ends (h := h) (k := i) hp'
      have hserver : h.server s (.task i (.pump e)) = h.pump i c.sid (s.shared.events i) e := by
        simp [History.server, hc]
      rw [hserver]
      refine ⟨?_, ?_, ?_⟩
      · intro sid hmem
        refine (hqueued sid hmem).imp_right fun hend => ⟨hend.1, hend.2, ?_⟩
        dsimp only
        rw [hp]
        rfl
      · intro k hmem
        rcases htook k hmem with hold | ⟨rfl, hend⟩
        · exact .inl hold
        · refine .inr ?_
          dsimp only
          rw [Function.update_self]
          exact hend
      · intro k hk
        dsimp only
        by_cases hki : k = i
        · subst hki
          rw [Function.update_self, ← Bool.not_eq_true]
          intro htrue
          exact Bool.noConfusion (hk.symm.trans (hrecv htrue))
        · rw [Function.update_of_ne hki]
          exact hk
  case h_6 =>
      obtain rfl := Option.some.inj hr
      exact ⟨fun _ => .inl, fun _ => .inl, hclose⟩
  case h_7 =>
      obtain rfl := Option.some.inj hr
      exact ⟨fun _ => .inl, fun _ => .inl, hclose⟩
  case h_8 => cases hr
  all_goals
    try split at hr
    all_goals try split at hr
    all_goals
      first
      | (obtain rfl := Option.some.inj hr
         exact ⟨fun _ => .inl, fun _ => .inl, fun _ => id⟩)
      | cases hr

theorem Ended.step (hinv : Ended s h) (hs : step rt s x = some s')
    (hinj : ∀ {k l : ℕ} {w v : StreamTask}, s.tasks[k]? = some w → s.tasks[l]? = some v →
      w.sid = v.sid → k = l)
    (hfresh : ∀ {sid payload}, s.shared.pc = .opening sid payload → h.queued sid = []) :
    Ended s' (h.server s x) := by
  obtain ⟨a, r, rfl, hr, rfl⟩ | ⟨i, e, c, r, rfl, hc, hr, rfl⟩ := step_cases hs
  · have hqueued : (h.server s (.main a)).queued = h.queued := by
      cases a with
      | recv f => exact History.recv_queued h f
      | _ => rfl
    have htook : (h.server s (.main a)).took = h.took := by
      cases a with
      | recv f =>
          simp only [History.server, History.recv]
          split <;> rfl
      | _ => rfl
    refine ⟨?_, ?_⟩
    · intro k w hw hmem
      rw [hqueued] at hmem
      rcases getElem?_append_cases hw with hold | hnew
      · exact hinv.up hold hmem
      · obtain ⟨_, payload, hpc⟩ := act_spawns hr hnew
        rw [hfresh hpc] at hmem
        cases hmem
    · intro k hmem
      rw [htook] at hmem
      dsimp only
      rw [act_receiver hr]
      exact hinv.down k hmem
  · obtain ⟨hqueued, htook, hclosed⟩ := handleStream_ends (h := h) hr hc
    obtain ⟨_, hreplied, hup, _⟩ := handleStream_forward hr
    have hsid := handleStream_sid hr
    refine ⟨?_, ?_⟩
    · intro k w hw hmem
      rcases getElem?_set_cases hw with ⟨rfl, rfl⟩ | ⟨hne, hold⟩
      · rcases hqueued r.2.sid hmem with hbefore | ⟨_, hend⟩
        · rw [hsid] at hbefore
          obtain ⟨hfalse, hphase⟩ := hinv.up hc hbefore
          refine ⟨?_, hreplied hphase⟩
          rw [← Bool.not_eq_true]
          intro htrue
          exact Bool.noConfusion (hfalse.symm.trans (hup htrue))
        · exact hend
      · rcases hqueued w.sid hmem with hbefore | ⟨heq, _⟩
        · exact hinv.up hold hbefore
        · exact absurd (hinj hold hc heq) hne
    · intro k hmem
      rcases htook k hmem with hbefore | hend
      · exact hclosed k (hinv.down k hbefore)
      · exact hend

end Demux

end Nextppp

/-
**Opening a stream.**

With fresh ids, an `OPEN` is sent once for an id, becomes at most one stream task of the server, and
everything else about the stream comes behind that task: its reply, the stream that the call returns,
and whatever the pumps of either end queue.

Main definitions:

* `Nextppp.Tunnel.Phase.sent` — a call is past its `OPEN`;
* `Nextppp.Peers.opens` — how often an id is opened at the server;
* `Nextppp.Peers.Protocol` — the invariant;
* `Nextppp.Peers.Fresh` — the steps in which the counter of ids does not wrap.

Main results:

* `Nextppp.Peers.reach_fresh` — with fewer than `2 ^ 32` calls, no id is handed out twice;
* `Nextppp.Peers.Protocol.reach` — with fresh ids the invariant holds in every state reached.
-/

import Nextppp.Client.Lane
import Nextppp.Server.Lane

set_option relaxedAutoImplicit false
set_option autoImplicit false

namespace Nextppp

open Tasks Run Gate

/-! ### The calls of the client -/

namespace Tunnel

variable {s s' : State} {x : Action} {i : ℕ} {t : Tunnel} {c : Call} {e : CallStep}
  {r : Tunnel × Call}

/-- The call is past its `OPEN`. -/
def Phase.sent : Phase → Bool
  | .called | .allocated | .pended | .listed | .sending => false
  | _ => true

theorem Phase.sent_of_unregistered {p : Phase} (h : p.unregistered = true) : p.sent = true := by
  cases p <;> simp_all [Phase.unregistered, Phase.sent]

theorem Phase.sent_ne_called {p : Phase} (h : p.sent = true) : p ≠ .called := by
  rintro rfl
  cases h

/-- **What a call does that is being opened, or a stream that is open.** -/
theorem callStep_opened (h : callStep i t c e = some r) (hc : c.phase.opened = true) :
    (c.phase = .sending ∧ t.out.receiver = false ∧ r.2.phase = .unregPending .failedSend) ∨
      (c.phase = .sending ∧ e = .send ∧ t.out.receiver = true ∧ r.2.phase = .awaiting) ∨
      (c.phase = .awaiting ∧ t.replies i = some true ∧ r.2.phase = .handle) ∨
      (c.phase = .awaiting ∧ t.replies i = some false ∧ r.2.phase = .unregPending .refused) ∨
      (c.phase = .awaiting ∧ t.waiterGone i c.sid = true ∧ r.2.phase = .unregPending .died) ∨
      (c.phase = .awaiting ∧ r.2.phase = .unregPending .timedOut) ∨
      (c.phase = .handle ∧ ∃ graceful, e = .drop graceful ∧
        r.2.phase = .unregPending (.dropped graceful)) ∨
      (c.phase = .handle ∧ r.2.phase = .handle) := by
  unfold callStep at h
  split at h
  case h_5 hp =>
      split at h
      · rename_i hrecv
        obtain rfl := Option.some.inj h
        exact .inl ⟨hp, hrecv, rfl⟩
      · rename_i hrecv
        obtain ⟨_, ⟨⟩⟩ := Option.ite_none_right_eq_some.1 h
        exact .inr (.inl ⟨hp, rfl, by simpa using hrecv, rfl⟩)
  case h_6 hp =>
      split at h
      · rename_i hreply
        obtain rfl := Option.some.inj h
        exact .inr (.inr (.inl ⟨hp, hreply, rfl⟩))
      · rename_i hreply
        obtain rfl := Option.some.inj h
        exact .inr (.inr (.inr (.inl ⟨hp, hreply, rfl⟩)))
      · cases h
  case h_7 hp =>
      obtain ⟨hgone, ⟨⟩⟩ := Option.ite_none_right_eq_some.1 h
      exact .inr (.inr (.inr (.inr (.inl ⟨hp, hgone, rfl⟩))))
  case h_8 hp =>
      obtain ⟨_, ⟨⟩⟩ := Option.ite_none_right_eq_some.1 h
      exact .inr (.inr (.inr (.inr (.inr (.inl ⟨hp, rfl⟩)))))
  case h_9 graceful hp =>
      obtain rfl := Option.some.inj h
      exact .inr (.inr (.inr (.inr (.inr (.inr (.inl ⟨hp, graceful, rfl, rfl⟩))))))
  case h_18 hp =>
      obtain ⟨p, _, rfl⟩ := Option.map_eq_some_iff.1 h
      exact .inr (.inr (.inr (.inr (.inr (.inr (.inr ⟨hp, hp⟩))))))
  case h_19 => cases h
  all_goals
    rename_i hp
    rw [hp] at hc
    cases hc

/-- A call that moves has an id, keeps it once it has one, and stays past its `OPEN`. -/
theorem callStep_forward (h : callStep i t c e = some r) :
    r.2.phase ≠ .called ∧ (c.phase ≠ .called → r.2.sid = c.sid) ∧
      (c.phase.sent = true → r.2.phase.sent = true) := by
  have hsends : ∀ {p : Phase}, p.sent = false → c.phase = p →
      (c.phase.sent = true → r.2.phase.sent = true) := by
    intro p hp heq hsent
    rw [heq, hp] at hsent
    cases hsent
  rcases callStep_cases h with ⟨hp, _, rfl⟩ | ⟨hp, rfl⟩ | ⟨hp, rfl⟩ | ⟨hp, rfl⟩ | ⟨x, hp, rfl⟩ |
    ⟨x, hp, rfl⟩ | ⟨x, hp, rfl⟩ | hq
  · exact ⟨by simp, fun hne => absurd hp hne, hsends rfl hp⟩
  · exact ⟨by simp, fun _ => rfl, hsends rfl hp⟩
  · exact ⟨by simp, fun _ => rfl, hsends rfl hp⟩
  · exact ⟨by simp, fun _ => rfl, hsends rfl hp⟩
  · exact ⟨by simp, fun _ => rfl, fun _ => rfl⟩
  · exact ⟨by simp, fun _ => rfl, fun _ => rfl⟩
  · have hsent := Phase.sent_of_unregistered x.next_unregistered
    exact ⟨Phase.sent_ne_called hsent, fun _ => rfl, fun _ => hsent⟩
  · have hsent : r.2.phase.sent = true := by
      rcases hq.moves with ⟨hc, _⟩ | ⟨_, hr⟩
      · rcases callStep_opened h hc with ⟨_, _, hr⟩ | ⟨_, _, _, hr⟩ | ⟨_, _, hr⟩ | ⟨_, _, hr⟩ |
          ⟨_, _, hr⟩ | ⟨_, hr⟩ | ⟨_, _, _, hr⟩ | ⟨_, hr⟩
        all_goals
          rw [hr]
          rfl
      · exact Phase.sent_of_unregistered hr
    exact ⟨Phase.sent_ne_called hsent, fun _ => hq.sid, fun _ => hsent⟩

/-- A stream comes from a reply. -/
theorem callStep_handle (h : callStep i t c e = some r) (hr : r.2.phase = .handle) :
    r.2.sid = c.sid ∧ (c.phase = .handle ∨ t.replies i = some true) := by
  have hopened : c.phase.opened = true := by
    rcases callStep_cases h with ⟨_, _, rfl⟩ | ⟨_, rfl⟩ | ⟨_, rfl⟩ | ⟨_, rfl⟩ | ⟨x, _, rfl⟩ |
      ⟨x, _, rfl⟩ | ⟨x, _, rfl⟩ | hq
    case inr.inr.inr.inr.inr.inr.inl =>
        have hunreg := x.next_unregistered
        rw [show x.next = .handle from hr] at hunreg
        cases hunreg
    case inr.inr.inr.inr.inr.inr.inr =>
        rcases hq.moves with ⟨hc, _⟩ | ⟨_, hunreg⟩
        · exact hc
        · rw [hr] at hunreg
          cases hunreg
    all_goals cases hr
  have hne : c.phase ≠ .called := by
    intro heq
    rw [heq] at hopened
    cases hopened
  refine ⟨(callStep_forward h).2.1 hne, ?_⟩
  rcases callStep_opened h hopened with ⟨_, _, hq⟩ | ⟨_, _, _, hq⟩ | ⟨_, hreply, _⟩ | ⟨_, _, hq⟩ |
    ⟨_, _, hq⟩ | ⟨_, hq⟩ | ⟨_, _, _, hq⟩ | ⟨hhandle, _⟩
  case inr.inr.inl => exact .inr hreply
  case inr.inr.inr.inr.inr.inr.inr => exact .inl hhandle
  all_goals
    rw [hq] at hr
    cases hr

/-- A call stays where it is in the list, with its id. -/
theorem step_call (hs : step s x = some s') (hc : s.tasks[i]? = some c) :
    ∃ c', s'.tasks[i]? = some c' ∧
      (c.phase ≠ .called → c'.phase ≠ .called ∧ c'.sid = c.sid) ∧
      (c.phase.sent = true → c'.phase.sent = true) := by
  have hlt := (List.getElem?_eq_some_iff.1 hc).1
  obtain ⟨a, r, _, _, rfl⟩ | ⟨j, e, d, r, _, hd, hr, rfl⟩ := step_cases hs
  · exact ⟨c, by rw [List.getElem?_append_left hlt]; exact hc, fun h => ⟨h, rfl⟩, id⟩
  · by_cases hij : j = i
    · subst hij
      obtain rfl : c = d := Option.some.inj (hc.symm.trans hd)
      obtain ⟨hne, hsid, hsent⟩ := callStep_forward hr
      exact ⟨r.2, List.getElem?_set_self hlt, fun h => ⟨hne, hsid h⟩, hsent⟩
    · exact ⟨c, by rw [List.getElem?_set_ne hij]; exact hc, fun h => ⟨h, rfl⟩, id⟩

/-- No call leaves the list. -/
theorem step_length (hs : step s x = some s') : s.tasks.length ≤ s'.tasks.length := by
  obtain ⟨a, r, _, _, rfl⟩ | ⟨j, e, d, r, _, _, _, rfl⟩ := step_cases hs
  · simp
  · simp

/-! ### Fresh ids -/

/-- The counter of ids counts the calls that have one. -/
theorem nextStream_step (hs : step s x = some s')
    (hg : s.shared.nextStream = count32 (s.tasks.countP fun c => c.phase ≠ .called)) :
    s'.shared.nextStream = count32 (s'.tasks.countP fun c => c.phase ≠ .called) := by
  refine gauge_step (p := fun c : Call => c.phase ≠ .called) (g := fun t => t.nextStream) count32 hs
    ?_ ?_ hg
  · intro a r _ hr
    obtain ⟨hf, hnew⟩ := act_cases hr
    have hzero : r.2.countP (fun c => decide (c.phase ≠ .called)) = 0 := by
      rw [List.countP_eq_zero]
      intro c hc
      simp [hnew c hc]
    rw [hzero, hf.nextStream]
    simp
  · intro i e c r _ _ hr
    have hr' := (callStep_forward hr).1
    rcases callStep_ids hr with ⟨_, hp, hnext, _⟩ | ⟨hnext, hp, _⟩
    · simp [hp, hr', hnext]
    · simp [hp, hr', hnext]

/-- With fewer than `2 ^ 32` calls the counter of ids does not wrap. -/
theorem noWrap_of_length {pool : Bool} (h : Reach step always (init pool) s)
    (hs : step s x = some s') (hopens : s'.tasks.length < 2 ^ 32) : NoWrap s x := by
  have hlen : s.tasks.length < 2 ^ 32 := (step_length hs).trans_lt hopens
  have hg : s.shared.nextStream = count32 (s.tasks.countP fun c => c.phase ≠ .called) :=
    Reach.invariant
      (I := fun s => s.shared.nextStream = count32 (s.tasks.countP fun c => c.phase ≠ .called))
      rfl (fun hinv _ hs => nextStream_step hs hinv) h
  rintro i hi rfl hmax
  -- the call that takes an id has none yet
  obtain ⟨c, hc, hwork⟩ := Option.bind_eq_some_iff.1 hs
  obtain ⟨r, hr, _⟩ := Option.map_eq_some_iff.1 hwork
  have hp : c.phase = .called := by
    rcases callStep_ids hr with ⟨_, hp, _⟩ | ⟨hnext, hp, hsid⟩
    · exact hp
    · unfold callStep at hr
      split at hr <;> simp_all
  have hlt : s.tasks.countP (fun c => decide (c.phase ≠ .called)) < s.tasks.length := by
    rw [List.countP_lt_length_iff]
    exact ⟨c, List.mem_of_getElem? hc, by simp [hp]⟩
  have hval : s.shared.nextStream.toNat = s.tasks.countP fun c => c.phase ≠ .called := by
    rw [hg]
    exact UInt32.toNat_ofNat_of_lt' (hlt.trans hlen)
  rw [hmax] at hval
  have hmax' : (0xFFFFFFFF : UInt32).toNat = 2 ^ 32 - 1 := rfl
  omega

/-! ### The reply of a call -/

theorem callStep_reply (h : callStep i t c e = some r) :
    r.1.reader = t.reader ∧ r.1.replies = t.replies := by
  have hsettle : ∀ (t : Tunnel) (phase : Phase), (t.settle i phase).reader = t.reader ∧
      (t.settle i phase).replies = t.replies := by
    intro t phase
    unfold settle
    split <;> exact ⟨rfl, rfl⟩
  have hmark : ∀ m, (t.markDead m).1.reader = t.reader ∧ (t.markDead m).1.replies = t.replies := by
    intro m
    cases m <;> exact ⟨rfl, rfl⟩
  unfold callStep at h
  split at h
  case h_5 =>
      split at h
      · obtain rfl := Option.some.inj h
        exact ⟨rfl, rfl⟩
      · obtain ⟨_, ⟨⟩⟩ := Option.ite_none_right_eq_some.1 h
        exact ⟨rfl, rfl⟩
  case h_6 =>
      split at h
      · obtain rfl := Option.some.inj h
        exact ⟨rfl, rfl⟩
      · obtain rfl := Option.some.inj h
        exact ⟨rfl, rfl⟩
      · cases h
  case h_7 =>
      obtain ⟨_, ⟨⟩⟩ := Option.ite_none_right_eq_some.1 h
      exact ⟨rfl, rfl⟩
  case h_8 =>
      obtain ⟨_, ⟨⟩⟩ := Option.ite_none_right_eq_some.1 h
      exact ⟨rfl, rfl⟩
  case h_15 =>
      obtain ⟨_, ⟨⟩⟩ := Option.ite_none_left_eq_some.1 h
      exact ⟨rfl, rfl⟩
  case h_16 m kill _ =>
      obtain rfl := Option.some.inj h
      exact ⟨(hsettle _ _).1.trans (hmark m).1, (hsettle _ _).2.trans (hmark m).2⟩
  case h_18 =>
      obtain ⟨p, _, rfl⟩ := Option.map_eq_some_iff.1 h
      exact ⟨rfl, rfl⟩
  case h_19 => cases h
  all_goals
    obtain rfl := Option.some.inj h
    first
    | exact ⟨rfl, rfl⟩
    | exact hsettle _ _

/-- The reader takes a waiter when it gets the reply, and hands over what the reply says. -/
theorem act_reply {a : Step} {r : Tunnel × List Call} (h : act t a = some r) :
    (∀ i ok, r.1.reader = .replying i ok → t.reader = .replying i ok ∨
      ∃ f, a = .recv f ∧ f.kind = .reply ∧ t.pending.lookup f.stream = some i ∧
        ok = decide (f.payload.head? = some replyOk)) ∧
    ∀ i ok, r.1.replies i = some ok → t.replies i = some ok ∨ t.reader = .replying i ok := by
  cases a with
  | recv f =>
      obtain ⟨hreader, rfl⟩ : t.reader = .demuxing ∧ (t.demux f, []) = r := by simpa [act] using h
      unfold demux routeEvent
      cases hk : f.kind with
      | reply =>
          dsimp only
          split
          · rename_i call hcall
            refine ⟨?_, fun i ok hi => .inl hi⟩
            intro i ok hi
            cases hi
            exact .inr ⟨f, rfl, hk, hcall, rfl⟩
          · exact ⟨fun i ok hi => .inl hi, fun i ok hi => .inl hi⟩
      | data =>
          dsimp only
          split <;> exact ⟨(fun i ok hi => by cases hi), fun i ok hi => .inl hi⟩
      | eof =>
          dsimp only
          split <;> exact ⟨(fun i ok hi => by cases hi), fun i ok hi => .inl hi⟩
      | close => exact ⟨fun i ok hi => .inl hi, fun i ok hi => .inl hi⟩
      | «open» => exact ⟨(fun i ok hi => by cases hi), fun i ok hi => .inl hi⟩
  | readerSend =>
      simp only [act] at h
      split at h
      · rename_i call ok hreader
        obtain rfl := Option.some.inj h
        refine ⟨(fun i ok hi => by cases hi), ?_⟩
        intro i ok' hi
        rcases Lane.update_cases hi with ⟨rfl, hok⟩ | ⟨_, hi⟩
        · obtain rfl := Option.some.inj hok
          exact .inr hreader
        · exact .inl hi
      · split at h
        · obtain rfl := Option.some.inj h
          exact ⟨(fun i ok hi => by cases hi), fun i ok hi => .inl hi⟩
        · obtain ⟨_, ⟨⟩⟩ := Option.ite_none_right_eq_some.1 h
          exact ⟨(fun i ok hi => by cases hi), fun i ok hi => .inl hi⟩
      · cases h
  | readerMark =>
      simp only [act] at h
      split at h
      · rename_i m _
        obtain rfl := Option.some.inj h
        refine ⟨?_, ?_⟩
        · intro i ok hi
          cases hm : (t.markDead m).2 <;> simp [hm] at hi
        · intro i ok hi
          cases m <;> exact .inl hi
      · cases h
  | _ =>
      -- the other steps leave the replies alone and do not take a waiter
      simp only [act] at h
      try split at h
      all_goals try split at h
      all_goals
        first
        | (obtain rfl := Option.some.inj h
           exact ⟨(fun i ok hi => by first | exact .inl hi | cases hi), fun i ok hi => .inl hi⟩)
        | cases h

/-- Where a waiter that the reader holds comes from. -/
theorem step_reader (hs : step s x = some s') {ok : Bool} (h : s'.shared.reader = .replying i ok) :
    s.shared.reader = .replying i ok ∨
      ∃ f, x = .main (.recv f) ∧ f.kind = .reply ∧ s.shared.pending.lookup f.stream = some i ∧
        ok = decide (f.payload.head? = some replyOk) := by
  obtain ⟨a, r, rfl, hr, rfl⟩ | ⟨j, e, d, r, rfl, _, hr, rfl⟩ := step_cases hs
  · rcases (act_reply hr).1 i ok h with hold | ⟨f, rfl, hf⟩
    · exact .inl hold
    · exact .inr ⟨f, rfl, hf⟩
  · exact .inl ((callStep_reply hr).1.symm.trans h)

/-- Where the reply of a call comes from. -/
theorem step_replies (hs : step s x = some s') {ok : Bool} (h : s'.shared.replies i = some ok) :
    s.shared.replies i = some ok ∨ s.shared.reader = .replying i ok := by
  obtain ⟨a, r, rfl, hr, rfl⟩ | ⟨j, e, d, r, rfl, _, hr, rfl⟩ := step_cases hs
  · exact (act_reply hr).2 i ok h
  · refine .inl ?_
    rw [← (callStep_reply hr).2]
    exact h

end Tunnel

/-! ### The stream tasks of the server -/

/-- An `OPEN` of the id. -/
def isOpen (sid : StreamId) (f : OutFrame) : Bool := f.kind = .open ∧ f.stream = sid

/-- The demux is answering an `OPEN` of the id. -/
def DemuxPc.opens (sid : StreamId) : DemuxPc → Bool
  | .opening sid' _ => sid' = sid
  | _ => false

namespace Demux

variable {rt : ServerRuntime} {s s' : State} {x : Action} {i : ℕ} {c : StreamTask}

theorem handleStream_sid {d : Demux} {e : TaskStep} {r : Demux × StreamTask}
    (h : handleStream i d c e = some r) : r.2.sid = c.sid := by
  unfold handleStream at h
  split at h
  case h_5 =>
      obtain ⟨p, _, rfl⟩ := Option.map_eq_some_iff.1 h
      rfl
  case h_8 => cases h
  all_goals
    try split at h
    all_goals try split at h
    all_goals
      first
      | (obtain rfl := Option.some.inj h
         rfl)
      | cases h

/-- What the demux does with an `OPEN`: it starts to answer it, spawns a task for it or drops it. -/
theorem act_opens {d : Demux} {a : Step} {r : Demux × List StreamTask} (h : act rt d a = some r)
    (sid : StreamId) :
    (r.1.pc.opens sid).toNat + r.2.countP (fun c => c.sid = sid)
      ≤ (carry (.main a)).frames.countP (isOpen sid) + (d.pc.opens sid).toNat := by
  cases a with
  | recv f =>
      obtain ⟨hpc, rfl⟩ : d.pc = .demuxing ∧ (d.onFrame rt f, []) = r := by simpa [act] using h
      unfold onFrame route checkOpen
      cases hk : f.kind with
      | «open» =>
          dsimp only
          split
          · simp [DemuxPc.opens]
          · split
            · simp [DemuxPc.opens]
            · by_cases hsid : f.stream = sid
              · simp [DemuxPc.opens, carry, Carry.frames, isOpen, hk, hsid]
              · simp [DemuxPc.opens, hsid]
      | data => dsimp only; split <;> simp [DemuxPc.opens]
      | eof => dsimp only; split <;> simp [DemuxPc.opens]
      | close => simp [hpc, DemuxPc.opens]
      | reply => simp [DemuxPc.opens]
  | openInsert =>
      simp only [act] at h
      split at h
      · rename_i sid' payload hpc
        split at h
        · obtain rfl := Option.some.inj h
          simp [DemuxPc.opens]
        · obtain rfl := Option.some.inj h
          by_cases hsid : sid' = sid
          · simp [DemuxPc.opens, hpc, hsid]
          · simp [DemuxPc.opens, hsid]
      · cases h
  | routeSend =>
      simp only [act] at h
      split at h
      · split at h
        · obtain rfl := Option.some.inj h
          simp [DemuxPc.opens]
        · obtain ⟨_, ⟨⟩⟩ := Option.ite_none_right_eq_some.1 h
          simp [DemuxPc.opens]
      · cases h
  | routeTimeout =>
      simp only [act] at h
      split at h
      · obtain ⟨_, ⟨⟩⟩ := Option.ite_none_left_eq_some.1 h
        simp [DemuxPc.opens]
      · cases h
  | breakLoop =>
      obtain ⟨_, ⟨⟩⟩ := Option.ite_none_right_eq_some.1 h
      simp [DemuxPc.opens]
  | writerEnds =>
      obtain rfl := Option.some.inj h
      simp
  | _ =>
      simp only [act] at h
      split at h
      · obtain rfl := Option.some.inj h
        simp [DemuxPc.opens]
      · cases h

theorem step_opens (hs : step rt s x = some s') (sid : StreamId) :
    (s'.shared.pc.opens sid).toNat + s'.tasks.countP (fun c => c.sid = sid)
      ≤ (carry x).frames.countP (isOpen sid) + (s.shared.pc.opens sid).toNat
        + s.tasks.countP (fun c => c.sid = sid) := by
  obtain ⟨a, r, rfl, hr, rfl⟩ | ⟨i, e, c, r, rfl, hc, hr, rfl⟩ := step_cases hs
  · have hact := act_opens hr sid
    rw [List.countP_append]
    dsimp only
    omega
  · have hpc : r.1.pc = s.shared.pc := (handleStream_cases hr).1
    have hset := countP_set (fun c : StreamTask => decide (c.sid = sid)) r.2 hc
    rw [handleStream_sid hr] at hset
    dsimp only
    rw [hpc]
    omega

/-- A task stays where it is in the list, with its id. -/
theorem step_task (hs : step rt s x = some s') (hc : s.tasks[i]? = some c) :
    ∃ c', s'.tasks[i]? = some c' ∧ c'.sid = c.sid := by
  have hlt := (List.getElem?_eq_some_iff.1 hc).1
  obtain ⟨a, r, _, _, rfl⟩ | ⟨j, e, d, r, _, hd, hr, rfl⟩ := step_cases hs
  · exact ⟨c, by rw [List.getElem?_append_left hlt]; exact hc, rfl⟩
  · by_cases hij : j = i
    · subst hij
      obtain rfl : c = d := Option.some.inj (hc.symm.trans hd)
      exact ⟨r.2, List.getElem?_set_self hlt, handleStream_sid hr⟩
    · exact ⟨c, by rw [List.getElem?_set_ne hij]; exact hc, rfl⟩

/-- The tasks are numbered in the order of their spawning. -/
theorem spawned_step (hs : step rt s x = some s') (h : s.shared.spawned = s.tasks.length) :
    s'.shared.spawned = s'.tasks.length := by
  obtain ⟨a, r, _, hr, rfl⟩ | ⟨j, e, d, r, _, _, hr, rfl⟩ := step_cases hs
  · have hact : r.1.spawned = s.shared.spawned + r.2.length := by
      cases a with
      | recv f =>
          obtain ⟨_, rfl⟩ : s.shared.pc = .demuxing ∧ (s.shared.onFrame rt f, []) = r := by
            simpa [act] using hr
          unfold onFrame route
          cases f.kind with
          | «open» => exact (checkOpen_registry rt s.shared f.stream f.payload).2
          | data => dsimp only; split <;> rfl
          | eof => dsimp only; split <;> rfl
          | _ => rfl
      | openInsert =>
          simp only [act] at hr
          split at hr
          · split at hr <;> obtain rfl := Option.some.inj hr <;> rfl
          · cases hr
      | _ =>
          simp only [act] at hr
          try split at hr
          all_goals try split at hr
          all_goals try split at hr
          all_goals
            first
            | (obtain rfl := Option.some.inj hr
               rfl)
            | cases hr
    simp [hact, h]
  · simp [(handleStream_cases hr).2.1, h]

theorem spawned_reach (h : Reach (step rt) always init s) : s.shared.spawned = s.tasks.length :=
  Reach.invariant (I := fun s => s.shared.spawned = s.tasks.length) rfl
    (fun hinv _ hs => spawned_step hs hinv) h

end Demux

/-! ### The invariant -/

namespace Peers

variable {rt : ServerRuntime} {s s' : Peers} {a : Step} {sid : StreamId}

/-- The frames on their way to the server. -/
def upPath (s : Peers) : List OutFrame := s.up.path s.client.shared.out

/-- The frames on their way to the client. -/
def downPath (s : Peers) : List OutFrame := s.down.path s.server.shared.out

/-- How often an id is opened at the server: the `OPEN`s that are under way or being answered, and the
tasks. -/
def opens (s : Peers) (sid : StreamId) : ℕ :=
  s.upPath.countP (isOpen sid) + (s.server.shared.pc.opens sid).toNat
    + s.server.tasks.countP fun c => c.sid = sid

/-- The server has, or had, a task for the id. -/
def HasTask (s : Peers) (sid : StreamId) : Prop := ∃ c ∈ s.server.tasks, c.sid = sid

/-- The call has its id, and the server a task for it. -/
def Served (s : Peers) (i : ℕ) : Prop :=
  ∃ c, s.client.tasks[i]? = some c ∧ c.phase ≠ .called ∧ s.HasTask c.sid

/-- **The protocol of an `OPEN`.** -/
structure Protocol (s : Peers) : Prop where
  once : ∀ sid, s.opens sid ≤ 1
  sent : ∀ sid, 0 < s.opens sid →
    ∃ (i : ℕ) (c : Tunnel.Call), s.client.tasks[i]? = some c ∧ c.sid = sid ∧ c.phase.sent = true
  reply : ∀ f ∈ s.downPath, f.kind = .reply → s.HasTask f.stream
  replying : ∀ i ok, s.client.shared.reader = .replying i ok → s.Served i
  replied : ∀ i ok, s.client.shared.replies i = some ok → s.Served i
  handle : ∀ (i : ℕ) (c : Tunnel.Call), s.client.tasks[i]? = some c → c.phase = .handle →
    s.HasTask c.sid
  clientQueued : ∀ sid, s.clientHistory.queued sid ≠ [] → s.HasTask sid
  serverQueued : ∀ sid, s.serverHistory.queued sid ≠ [] → s.HasTask sid

theorem HasTask.opens_pos (h : s.HasTask sid) : 0 < s.opens sid := by
  obtain ⟨c, hc, hsid⟩ := h
  have hpos : 0 < s.server.tasks.countP fun c => c.sid = sid :=
    List.countP_pos_iff.2 ⟨c, hc, by simpa using hsid⟩
  unfold opens
  omega

/-- Before its `OPEN` a call is not opened at the server. -/
theorem Protocol.opens_zero (h : Protocol s) (hnum : Tunnel.Numbered s.client) {i : ℕ}
    {c : Tunnel.Call} (hc : s.client.tasks[i]? = some c) (hcalled : c.phase ≠ .called)
    (hsent : c.phase.sent = false) : s.opens c.sid = 0 := by
  rw [← Nat.le_zero, ← Nat.not_lt]
  intro hpos
  obtain ⟨j, d, hd, hsid, hd'⟩ := h.sent c.sid hpos
  obtain rfl := hnum.inj hd hc (Tunnel.Phase.sent_ne_called hd') hcalled hsid
  obtain rfl : c = d := Option.some.inj (hc.symm.trans hd)
  rw [hsent] at hd'
  cases hd'

/-- A step of the client opens nothing but the id of a call that sends its `OPEN`. -/
theorem opens_client {x : Tunnel.Action} {up up' : Transit} {q q' : StreamId → List StreamEvent}
    {out' : Channel OutFrame} {streams : StreamId → StreamEvent → Prop}
    (he : Emits (Tunnel.Pushes s.client x) streams s.client.shared.out q (Tunnel.carry x) out' q')
    (hup : up.sent s.client.shared.out (Tunnel.carry x) = some up') (sid : StreamId) :
    (up'.path out').countP (isOpen sid) ≤ (up.path s.client.shared.out).countP (isOpen sid) ∨
      ∃ i c, x = .task i .send ∧ s.client.tasks[i]? = some c ∧ c.phase = .sending ∧ c.sid = sid ∧
        (up'.path out').countP (isOpen sid)
          = (up.path s.client.shared.out).countP (isOpen sid) + 1 := by
  rcases he.path hup with ⟨_, _, hpath⟩ | ⟨f, hf, _, _, _, _, hpath⟩ |
    ⟨f, sid', e, _, hev, _, _, _, hpath⟩ | ⟨_, _, hpath⟩
  · exact .inl (by rw [hpath])
  · rw [hpath, List.countP_append]
    rcases hf with hclose | ⟨i, c, hx, hc, hp, rfl⟩
    · exact .inl (by simp [isOpen, hclose])
    · by_cases hsid : c.sid = sid
      · exact .inr ⟨i, c, hx, hc, hp, hsid, by simp [isOpen, hsid]⟩
      · exact .inl (by simp [isOpen, hsid])
  · have hnot : isOpen sid f = false := by
      unfold frameEvent at hev
      unfold isOpen
      split at hev <;> simp_all
    exact .inl (by simp [hpath, hnot])
  · exact .inl (hpath.sublist.countP_le)

/-- A frame of the client's lane that is read was under way. -/
theorem mem_got {x x' : Transit} {c : Carry} (hx : x.got c = some x') (out : Channel OutFrame)
    {f : OutFrame} (hf : f ∈ x'.path out) : f ∈ x.path out := by
  rw [Transit.got_path hx out]
  exact List.mem_append_right _ hf

theorem Protocol.client_step {x : Tunnel.Action} {c : Tunnel.State} {up down : Transit} {r : Answers}
    (h : Protocol s) (hnum : Tunnel.Numbered s.client) (hreg : Tunnel.Registered s.client)
    (hc : Tunnel.step s.client x = some c)
    (hup : s.up.sent s.client.shared.out (Tunnel.carry x) = some up)
    (hdown : s.down.got (Tunnel.carry x) = some down) :
    Protocol { s with
      client := c
      up := up
      down := down
      clientHistory := s.clientHistory.client s.client x
      answers := r } := by
  have hemits := Tunnel.step_emits hc s.clientHistory
  have hserved : ∀ {i}, s.Served i → ∃ d, c.tasks[i]? = some d ∧ d.phase ≠ .called ∧
      s.HasTask d.sid := by
    rintro i ⟨d, hd, hne, htask⟩
    obtain ⟨d', hd', hkeep, _⟩ := Tunnel.step_call hc hd
    obtain ⟨hne', hsid⟩ := hkeep hne
    exact ⟨d', hd', hne', hsid ▸ htask⟩
  refine ⟨?_, ?_, ?_, ?_, ?_, ?_, ?_, ?_⟩
  · intro sid
    have hold := h.once sid
    unfold opens upPath at hold ⊢
    dsimp only
    rcases opens_client hemits hup sid with hle | ⟨i, d, _, hd, hp, rfl, heq⟩
    · omega
    · have hzero := h.opens_zero hnum hd (by simp [hp]) (by rw [hp]; rfl)
      unfold opens upPath at hzero
      omega
  · intro sid hpos
    have hkeep : 0 < s.opens sid → ∃ (i : ℕ) (d : Tunnel.Call), c.tasks[i]? = some d ∧ d.sid = sid ∧
        d.phase.sent = true := by
      intro hpos
      obtain ⟨i, d, hd, rfl, hsent⟩ := h.sent sid hpos
      obtain ⟨d', hd', hsame, hsent'⟩ := Tunnel.step_call hc hd
      exact ⟨i, d', hd', (hsame (Tunnel.Phase.sent_ne_called hsent)).2, hsent' hsent⟩
    rcases opens_client hemits hup sid with hle | ⟨i, d, rfl, hd, hp, rfl, _⟩
    · refine hkeep ?_
      unfold opens upPath at hpos ⊢
      dsimp only at hpos
      omega
    · -- the call that has just sent its `OPEN`
      obtain ⟨d', hd', hwork⟩ := Option.bind_eq_some_iff.1 hc
      obtain ⟨r', hr', rfl⟩ := Option.map_eq_some_iff.1 hwork
      obtain rfl : d = d' := Option.some.inj (hd.symm.trans hd')
      obtain ⟨hne, hsid, _⟩ := Tunnel.callStep_forward hr'
      have hlt := (List.getElem?_eq_some_iff.1 hd).1
      refine ⟨i, r'.2, List.getElem?_set_self hlt, hsid (by simp [hp]), ?_⟩
      rcases Tunnel.callStep_opened hr' (by rw [hp]; rfl) with ⟨_, _, hp'⟩ | ⟨_, _, _, hp'⟩ |
        ⟨hq, _⟩ | ⟨hq, _⟩ | ⟨hq, _⟩ | ⟨hq, _⟩ | ⟨hq, _⟩ | ⟨hq, _⟩
      · rw [hp']
        rfl
      · rw [hp']
        rfl
      all_goals
        rw [hp] at hq
        cases hq
  · intro f hf
    exact h.reply f (mem_got hdown _ hf)
  · intro i ok hi
    rcases Tunnel.step_reader hc hi with hold | ⟨f, rfl, hkind, hlookup, _⟩
    · exact hserved (h.replying i ok hold)
    · obtain ⟨d, hd, hsid, hp⟩ := hreg.pending f.stream i hlookup
      have hne : d.phase ≠ .called := by
        intro heq
        rw [heq] at hp
        cases hp
      have hmem : f ∈ s.downPath := by
        have hpath := Transit.got_path hdown s.server.shared.out
        unfold downPath
        rw [hpath]
        exact List.mem_append_left _ List.mem_cons_self
      exact hserved ⟨d, hd, hne, hsid ▸ h.reply f hmem hkind⟩
  · intro i ok hi
    rcases Tunnel.step_replies hc hi with hold | hold
    · exact hserved (h.replied i ok hold)
    · exact hserved (h.replying i ok hold)
  · intro i d hd hp
    obtain ⟨y, r', _, hr', rfl⟩ | ⟨j, e, d', r', _, hd', hr', rfl⟩ := Tasks.step_cases hc
    · rcases getElem?_append_cases hd with hold | hmem
      · exact h.handle i d hold hp
      · rw [(Tunnel.act_cases hr').2 d hmem] at hp
        cases hp
    · rcases getElem?_set_cases hd with ⟨rfl, rfl⟩ | ⟨_, hold⟩
      · -- a stream comes from a reply
        obtain ⟨hsid, hhandle | hreplied⟩ := Tunnel.callStep_handle hr' hp
        · rw [hsid]
          exact h.handle i d' hd' hhandle
        · obtain ⟨d'', hd'', _, htask⟩ := h.replied i true hreplied
          obtain rfl : d' = d'' := Option.some.inj (hd'.symm.trans hd'')
          rw [hsid]
          exact htask
      · exact h.handle i d hold hp
  · intro sid hne
    rcases hemits.path hup with ⟨_, hq, _⟩ | ⟨_, _, _, _, _, hq, _⟩ |
      ⟨f, sid', e, ⟨i, d, hd, hp, rfl⟩, _, _, _, hq, _⟩ | ⟨_, hq, _⟩
    · exact h.clientQueued sid (by rwa [hq] at hne)
    · exact h.clientQueued sid (by rwa [hq] at hne)
    · by_cases hsid : sid = d.sid
      · subst hsid
        exact h.handle i d hd hp
      · refine h.clientQueued sid ?_
        dsimp only at hne
        rwa [hq, Lane.add_of_ne _ _ _ hsid] at hne
    · exact h.clientQueued sid (by rwa [hq] at hne)
  · exact h.serverQueued

/-- A step of the server opens nothing: an `OPEN` goes from the path to the demux and on to a task. -/
theorem opens_server {x : Demux.Action} {d : Demux.State} {up : Transit}
    (hd : Demux.step rt s.server x = some d) (hup : s.up.got (Demux.carry x) = some up)
    (sid : StreamId) :
    (up.path s.client.shared.out).countP (isOpen sid) + (d.shared.pc.opens sid).toNat
      + d.tasks.countP (fun c => c.sid = sid) ≤ s.opens sid := by
  have hstep := Demux.step_opens hd sid
  have hpath := congrArg (List.countP (isOpen sid)) (Transit.got_path hup s.client.shared.out)
  rw [List.countP_append] at hpath
  unfold opens upPath
  omega

theorem Protocol.server_step {x : Demux.Action} {d : Demux.State} {up down : Transit} {r : Answers}
    (h : Protocol s) (hd : Demux.step rt s.server x = some d)
    (hdown : s.down.sent s.server.shared.out (Demux.carry x) = some down)
    (hup : s.up.got (Demux.carry x) = some up) :
    Protocol { s with
      server := d
      up := up
      down := down
      serverHistory := s.serverHistory.server s.server x
      answers := r } := by
  have hemits := Demux.step_emits hd s.serverHistory
  have hkeep : ∀ {sid}, s.HasTask sid → ∃ c ∈ d.tasks, c.sid = sid := by
    rintro sid ⟨c, hc, rfl⟩
    obtain ⟨i, hi⟩ := List.getElem?_of_mem hc
    obtain ⟨c', hc', hsid⟩ := Demux.step_task hd hi
    exact ⟨c', List.mem_of_getElem? hc', hsid⟩
  have hserved : ∀ {i}, s.Served i → ∃ c, s.client.tasks[i]? = some c ∧ c.phase ≠ .called ∧
      ∃ c' ∈ d.tasks, c'.sid = c.sid := by
    rintro i ⟨c, hc, hne, htask⟩
    exact ⟨c, hc, hne, hkeep htask⟩
  refine ⟨?_, ?_, ?_, ?_, ?_, ?_, ?_, ?_⟩
  · intro sid
    exact (opens_server hd hup sid).trans (h.once sid)
  · intro sid hpos
    exact h.sent sid (hpos.trans_le (opens_server hd hup sid))
  · intro f hf hkind
    have hold : f ∈ s.downPath → ∃ c ∈ d.tasks, c.sid = f.stream := by
      intro hmem
      exact hkeep (h.reply f hmem hkind)
    unfold downPath at hf
    dsimp only at hf
    rcases hemits.path hdown with ⟨_, _, hpath⟩ | ⟨f', hf', _, _, _, _, hpath⟩ |
      ⟨f', sid, e, _, hev, _, _, _, hpath⟩ | ⟨_, _, hpath⟩
    · rw [hpath] at hf
      exact hold hf
    · rw [hpath, List.mem_append, List.mem_singleton] at hf
      rcases hf with hmem | rfl
      · exact hold hmem
      · -- the `REPLY` of a task
        rcases hf' with hclose | ⟨i, c, _, hc, hsid, _⟩
        · rw [hclose] at hkind
          cases hkind
        · exact hkeep ⟨c, List.mem_of_getElem? hc, hsid.symm⟩
    · rw [hpath, List.mem_append, List.mem_singleton] at hf
      rcases hf with hmem | rfl
      · exact hold hmem
      · simp [frameEvent, hkind] at hev
    · exact hold (hpath.mem hf)
  · intro i ok hi
    exact hserved (h.replying i ok hi)
  · intro i ok hi
    exact hserved (h.replied i ok hi)
  · intro i c hc hp
    exact hkeep (h.handle i c hc hp)
  · intro sid hne
    exact hkeep (h.clientQueued sid hne)
  · intro sid hne
    dsimp only at hne
    rcases hemits.path hdown with ⟨_, hq, _⟩ | ⟨_, _, _, _, _, hq, _⟩ |
      ⟨f, sid', e, ⟨i, c, hc, _, rfl⟩, _, _, _, hq, _⟩ | ⟨_, hq, _⟩
    · exact hkeep (h.serverQueued sid (by rwa [hq] at hne))
    · exact hkeep (h.serverQueued sid (by rwa [hq] at hne))
    · by_cases hsid : sid = c.sid
      · subst hsid
        exact hkeep ⟨c, List.mem_of_getElem? hc, rfl⟩
      · refine hkeep (h.serverQueued sid ?_)
        rwa [hq, Lane.add_of_ne _ _ _ hsid] at hne
    · exact hkeep (h.serverQueued sid (by rwa [hq] at hne))

/-- The carrier moves frames and loses none. -/
theorem Protocol.flush {up down : Transit} (h : Protocol s)
    (hup : up.path s.client.shared.out = s.upPath) (hdown : down.path s.server.shared.out = s.downPath) :
    Protocol { s with up := up, down := down } := by
  have hopens : ∀ sid, Peers.opens { s with up := up, down := down } sid = s.opens sid := by
    intro sid
    unfold opens upPath
    dsimp only
    rw [hup]
    rfl
  refine { h with once := ?_, sent := ?_, reply := ?_ }
  · intro sid
    rw [hopens]
    exact h.once sid
  · intro sid hpos
    rw [hopens] at hpos
    exact h.sent sid hpos
  · intro f hf
    unfold downPath at hf
    dsimp only at hf
    rw [hdown] at hf
    exact h.reply f hf

theorem Protocol.step (h : Protocol s) (hnum : Tunnel.Numbered s.client)
    (hreg : Tunnel.Registered s.client) (hs : step rt s a = some s') : Protocol s' := by
  obtain ⟨x, c, up, down, _, _, hc, hup, hdown, rfl⟩ | ⟨x, d, up, down, _, hd, hdown, hup, rfl⟩ |
    ⟨n, _, rfl⟩ | ⟨n, _, rfl⟩ := step_cases hs
  · exact h.client_step hnum hreg hc hup hdown
  · exact h.server_step hd hdown hup
  · exact h.flush (Transit.flush_path ..) rfl
  · exact h.flush rfl (Transit.flush_path ..)

/-- No call leaves the client. -/
theorem step_calls (hs : Peers.step rt s a = some s') :
    s.client.tasks.length ≤ s'.client.tasks.length := by
  obtain ⟨x, c, up, down, _, _, hc, _, _, rfl⟩ | ⟨x, d, up, down, _, _, _, _, rfl⟩ | ⟨n, _, rfl⟩ |
    ⟨n, _, rfl⟩ := step_cases hs
  · exact Tunnel.step_length hc
  · exact le_rfl
  · exact le_rfl
  · exact le_rfl

/-- A new tunnel has opened nothing. -/
theorem Protocol.new (pool : Bool) : Protocol (init pool) where
  once _ := Nat.zero_le 1
  sent _ h := absurd h (lt_irrefl 0)
  reply _ h := by cases h
  replying _ _ h := by cases h
  replied _ _ h := by cases h
  handle _ _ h := by cases h
  clientQueued _ h := absurd rfl h
  serverQueued _ h := absurd rfl h

/-! ### Runs with fresh ids -/

/-- The counter of ids does not wrap in this step. -/
def Fresh (s : Peers) : Step → Prop
  | .client x => Tunnel.NoWrap s.client x
  | _ => True

variable {ok : Peers → Step → Prop} {pool : Bool}

/-- In a run with fewer than `2 ^ 32` calls the ids are fresh. -/
theorem reach_fresh (h : Reach (Peers.step rt) always (init pool) s)
    (hopens : s.client.tasks.length < 2 ^ 32) : Reach (Peers.step rt) Fresh (init pool) s := by
  induction h with
  | refl => exact .refl
  | step a hreach _ hs ih =>
      refine (ih ((step_calls hs).trans_lt hopens)).step a ?_ hs
      obtain ⟨x, c, up, down, rfl, _, hc, _, _, rfl⟩ | ⟨x, d, up, down, rfl, _⟩ | ⟨n, rfl, _⟩ |
        ⟨n, rfl, _⟩ := step_cases hs
      · exact Tunnel.noWrap_of_length (reach_client hreach) hc hopens
      · exact trivial
      · exact trivial
      · exact trivial

variable (hok : ∀ {s a}, ok s a → Fresh s a)

include hok

/-- Each call of the client has an id of its own. -/
theorem numbered_reach (h : Reach (Peers.step rt) ok (init pool) s) : Tunnel.Numbered s.client := by
  have hclient : Reach Tunnel.step Tunnel.NoWrap (Tunnel.init pool) s.client := by
    induction h with
    | refl => exact .refl
    | step a _ ha hs ih =>
        obtain ⟨x, c, up, down, rfl, _, hc, _, _, rfl⟩ | ⟨x, d, up, down, _, _, _, _, rfl⟩ |
          ⟨n, _, rfl⟩ | ⟨n, _, rfl⟩ := step_cases hs
        · exact ih.step x (hok ha) hc
        · exact ih
        · exact ih
        · exact ih
  exact Tunnel.Numbered.reach hclient

/-- **The protocol holds in every state reached** with fresh ids. -/
theorem Protocol.reach (h : Reach (Peers.step rt) ok (init pool) s) : Protocol s := by
  induction h with
  | refl => exact Protocol.new pool
  | step a hreach _ hs ih =>
      exact ih.step (numbered_reach hok hreach) (Tunnel.Registered.reach (reach_client hreach)) hs

end Peers

end Nextppp

/-
**The client on the lanes of a tunnel.**

Main definitions:

* `Nextppp.Tunnel.Pushes`, `Nextppp.Tunnel.Pumps` — the frames the client pushes and the streams it
  pumps;
* `Nextppp.Tunnel.inbox` — its receiving end.

Main results:

* `Nextppp.Tunnel.step_emits` — what a step of the client emits;
* `Nextppp.Tunnel.step_inbox` — a step of the client is a run of the lane it reads.
-/

import Nextppp.Mux.Lanes

set_option relaxedAutoImplicit false
set_option autoImplicit false

namespace Nextppp

open Tasks Run Gate

variable {q q' : StreamId → List StreamEvent} {p p' : List OutFrame} {w : Bool} {h : History}

namespace Tunnel

variable {s s' : State} {x : Action}

/-- The reader only bounces. -/
theorem act_emits {frames : OutFrame → Prop} {streams : StreamId → StreamEvent → Prop} {t : Tunnel}
    {a : Step} {r : Tunnel × List Call} (hr : act t a = some r)
    (hclose : ∀ sid, frames (.bare .close sid)) :
    Emits frames streams t.out q (carry (.main a)) r.1.out q := by
  cases a with
  | recv f =>
      obtain ⟨_, rfl⟩ : t.reader = .demuxing ∧ (t.demux f, []) = r := by simpa [act] using hr
      have hout : (t.demux f).out = t.out := by
        unfold demux routeEvent
        cases f.kind with
        | reply => dsimp only; split <;> rfl
        | data => dsimp only; split <;> rfl
        | eof => dsimp only; split <;> rfl
        | _ => rfl
      rw [hout]
      exact .quiet (by simp [carry]) (by simp [carry])
  | write =>
      simp only [act] at hr
      split at hr
      · rename_i f rest hq
        obtain rfl := Option.some.inj hr
        exact .write f rest hq
      · cases hr
  | writerEnds =>
      obtain rfl := Option.some.inj hr
      exact .lose
  | bounce =>
      simp only [act] at hr
      split at hr
      · obtain rfl := Option.some.inj hr
        exact .trySend (hclose _) rfl
      · cases hr
  | readerMark =>
      simp only [act] at hr
      split at hr
      · rename_i m _
        obtain rfl := Option.some.inj hr
        cases m <;> exact .quiet (by simp [carry]) (by simp [carry])
      · cases hr
  | readerSend =>
      simp only [act] at hr
      split at hr
      · obtain rfl := Option.some.inj hr
        exact .quiet (by simp [carry]) (by simp [carry])
      · split at hr
        · obtain rfl := Option.some.inj hr
          exact .quiet (by simp [carry]) (by simp [carry])
        · obtain ⟨_, ⟨⟩⟩ := Option.ite_none_right_eq_some.1 hr
          exact .quiet (by simp [carry]) (by simp [carry])
      · cases hr
  | _ =>
      -- the other steps leave the channel alone
      simp only [act] at hr
      try split at hr
      all_goals try split at hr
      all_goals
        first
        | (obtain rfl := Option.some.inj hr
           exact .quiet (by simp [carry]) (by simp [carry]))
        | cases hr

@[simp] theorem settle_out (t : Tunnel) (i : ℕ) (phase : Phase) : (t.settle i phase).out = t.out := by
  unfold settle
  split <;> rfl

@[simp] theorem markDead_out (t : Tunnel) (m : Marking) : (t.markDead m).1.out = t.out := by
  cases m <;> rfl

/-- A call pushes its `OPEN`, a `CLOSE` or what its pumps push. -/
theorem callStep_emits {frames : OutFrame → Prop} {streams : StreamId → StreamEvent → Prop} {i : ℕ}
    {t : Tunnel} {c : Call} {e : CallStep} {r : Tunnel × Call} (hr : callStep i t c e = some r)
    (hclose : ∀ sid, frames (.bare .close sid))
    (hopen : e = .send → c.phase = .sending → frames ⟨.open, c.sid, c.target⟩)
    (hstream : c.phase = .handle → ∀ ev, streams c.sid ev) :
    Emits frames streams t.out h.queued .none r.1.out
      (match e with
        | .pump e => h.pump i c.sid (t.events i) e
        | _ => h).queued := by
  unfold callStep at hr
  split at hr
  case h_5 hp =>
      split at hr
      · obtain rfl := Option.some.inj hr
        exact .quiet (by simp) (by simp)
      · obtain ⟨haccepts, ⟨⟩⟩ := Option.ite_none_right_eq_some.1 hr
        exact .push _ (hopen rfl hp) rfl (Bool.and_eq_true_iff.1 haccepts).1
  case h_6 =>
      split at hr
      · obtain rfl := Option.some.inj hr
        exact .quiet (by simp) (by simp)
      · obtain rfl := Option.some.inj hr
        exact .quiet (by simp) (by simp)
      · cases hr
  case h_13 =>
      obtain rfl := Option.some.inj hr
      dsimp only
      rw [settle_out]
      exact .trySend (hclose _) rfl
  case h_18 hp =>
      obtain ⟨r', hr', rfl⟩ := Option.map_eq_some_iff.1 hr
      exact .pump hr' (hclose _) (hstream hp)
  case h_19 => cases hr
  all_goals
    first
    | (obtain ⟨_, ⟨⟩⟩ := Option.ite_none_right_eq_some.1 hr
       exact .quiet (by simp) (by simp))
    | (obtain ⟨_, ⟨⟩⟩ := Option.ite_none_left_eq_some.1 hr
       exact .quiet (by simp) (by simp))
    | (obtain rfl := Option.some.inj hr
       dsimp only
       try rw [settle_out]
       try rw [markDead_out]
       exact .quiet (by simp) (by simp))

/-- A frame the client pushes that carries no event: a `CLOSE`, or the `OPEN` of a call. -/
def Pushes (s : State) (x : Action) (f : OutFrame) : Prop :=
  f.kind = .close ∨ ∃ i c, x = .task i .send ∧ s.tasks[i]? = some c ∧ c.phase = .sending ∧
    f = ⟨.open, c.sid, c.target⟩

/-- A stream the client pumps. -/
def Pumps (s : State) (sid : StreamId) : Prop :=
  ∃ (i : ℕ) (c : Call), s.tasks[i]? = some c ∧ c.phase = .handle ∧ c.sid = sid

/-- **What a step of the client emits.** -/
theorem step_emits (hs : step s x = some s') (h : History) :
    Emits (Pushes s x) (fun sid _ => Pumps s sid) s.shared.out h.queued (carry x) s'.shared.out
      (h.client s x).queued := by
  obtain ⟨a, r, rfl, hr, rfl⟩ | ⟨i, e, c, r, rfl, hc, hr, rfl⟩ := step_cases hs
  · have hqueued : (h.client s (.main a)).queued = h.queued := by
      cases a with
      | recv f => exact History.recv_queued h f
      | _ => rfl
    rw [hqueued]
    exact act_emits hr fun _ => .inl rfl
  · have hclose : ∀ sid, Pushes s (.task i e) (.bare .close sid) := fun _ => .inl rfl
    have hopen : e = .send → c.phase = .sending →
        Pushes s (.task i e) ⟨.open, c.sid, c.target⟩ :=
      fun he hp => .inr ⟨i, c, by rw [he], hc, hp, rfl⟩
    let streams : StreamId → StreamEvent → Prop := fun sid _ => Pumps s sid
    have hstream : c.phase = .handle → ∀ ev, streams c.sid ev :=
      fun hp _ => ⟨i, c, hc, hp, rfl⟩
    have hemits := callStep_emits (h := h) hr hclose hopen hstream
    have hcarry : carry (.task i e) = .none := rfl
    rw [hcarry]
    convert hemits using 2
    cases e with
    | pump e => simp [History.client, hc]
    | _ => rfl

end Tunnel

/-- The demux of the client, seen from the lane. -/
def ReaderPc.hand : ReaderPc → Lane.Hand StreamId StreamEvent
  | .demuxing | .replying .. | .bouncing _ => .idle
  | .routing call sid ev => .routing call sid ev
  | .unrouting sid => .failed sid
  | .exiting | .marking _ | .done => .gone

namespace Tunnel

variable {s s' : State} {x : Action}

/-- The stream of a call that has an id. -/
def Call.own (c : Call) : Option StreamId := if c.phase = .called then none else some c.sid

theorem Call.own_eq_some {c : Call} {sid : StreamId} :
    c.own = some sid ↔ c.phase ≠ .called ∧ c.sid = sid := by
  unfold Call.own
  split <;> simp_all

/-- The receiving end of a tunnel. -/
def inbox (s : State) : Inbox where
  owner k := s.tasks[k]?.bind Call.own
  table sid := s.shared.registry.lookup sid
  events := s.shared.events
  hand := s.shared.reader.hand

theorem owner_append {calls new : List Call} (hnew : ∀ c ∈ new, c.phase = .called) :
    (fun k : ℕ => (calls ++ new)[k]?.bind Call.own) = fun k : ℕ => calls[k]?.bind Call.own := by
  funext k
  by_cases hk : k < calls.length
  · rw [List.getElem?_append_left hk]
  · have hnone : calls[k]? = none := List.getElem?_eq_none (Nat.le_of_not_lt hk)
    rw [hnone, List.getElem?_append_right (Nat.le_of_not_lt hk)]
    cases hc : new[k - calls.length]? with
    | none => rfl
    | some c => simp [Call.own, hnew c (List.mem_of_getElem? hc)]

/-- The reader gets a frame. -/
theorem runs_demux {t : Tunnel} {calls : List Call} (ht : t.reader = .demuxing) (f : OutFrame) :
    Runs (lane q (f :: p) w h (inbox ⟨t, calls⟩))
      (lane q p w (h.recv f) (inbox ⟨t.demux f, calls⟩)) := by
  have hidle : (inbox ⟨t, calls⟩).hand = .idle := by simp [inbox, ht, ReaderPc.hand]
  have hevent : ∀ {sid : StreamId} {e : StreamEvent}, frameEvent f = some (sid, e) →
      Runs (lane q (f :: p) w h (inbox ⟨t, calls⟩))
        (lane q p w (h.recv f) (inbox ⟨t.routeEvent sid e, calls⟩)) := by
    intro sid e hf
    unfold routeEvent
    split
    · rename_i k hk
      exact runs_route hf hidle hk
    · rename_i hk
      refine (runs_bounce hf hidle hk).trans (runs_same ?_)
      simp [inbox, ht, ReaderPc.hand]
  unfold demux
  cases hk : f.kind with
  | reply =>
      have hf : frameEvent f = none := by simp [frameEvent, hk]
      refine (runs_pop hf).trans (runs_same ?_)
      dsimp only
      split
      · simp [inbox, ht, ReaderPc.hand]
      · rfl
  | data => exact hevent (by simp [frameEvent, hk])
  | eof => exact hevent (by simp [frameEvent, hk])
  | close =>
      have hf : frameEvent f = none := by simp [frameEvent, hk]
      exact (runs_pop hf).trans (runs_forget (Keeps.erase t.registry f.stream))
  | «open» =>
      have hf : frameEvent f = none := by simp [frameEvent, hk]
      exact (runs_pop hf).trans runs_stop

/-- A step of the reader or the writer. -/
theorem act_inbox {t : Tunnel} {calls : List Call} {a : Step} {r : Tunnel × List Call}
    (hr : act t a = some r) :
    Runs (lane q ((carry (.main a)).frames ++ p) w h (inbox ⟨t, calls⟩))
      (lane q p w (h.client ⟨t, calls⟩ (.main a)) (inbox ⟨r.1, calls⟩)) := by
  cases a with
  | recv f =>
      obtain ⟨ht, rfl⟩ : t.reader = .demuxing ∧ (t.demux f, []) = r := by simpa [act] using hr
      exact runs_demux ht f
  | readerSend =>
      simp only [act] at hr
      split at hr
      · rename_i call ok ht
        obtain rfl := Option.some.inj hr
        exact runs_same (by simp [inbox, ht, ReaderPc.hand])
      · rename_i call sid ev ht
        have hhand : (inbox ⟨t, calls⟩).hand = .routing call sid ev := by
          simp [inbox, ht, ReaderPc.hand]
        split at hr
        · obtain rfl := Option.some.inj hr
          exact runs_fail hhand
        · obtain ⟨haccepts, ⟨⟩⟩ := Option.ite_none_right_eq_some.1 hr
          exact runs_deliver hhand (Bool.and_eq_true_iff.1 haccepts).1
      · cases hr
  | routeTimeout =>
      simp only [act] at hr
      split at hr
      · rename_i call sid ev ht
        have hhand : (inbox ⟨t, calls⟩).hand = .routing call sid ev := by
          simp [inbox, ht, ReaderPc.hand]
        obtain ⟨_, ⟨⟩⟩ := Option.ite_none_left_eq_some.1 hr
        exact runs_fail hhand
      · cases hr
  | unroute =>
      simp only [act] at hr
      split at hr
      · rename_i sid ht
        have hhand : (inbox ⟨t, calls⟩).hand = .failed sid := by simp [inbox, ht, ReaderPc.hand]
        obtain rfl := Option.some.inj hr
        refine (runs_unroute hhand).trans (runs_same ?_)
        simp [inbox, lookup_erase_eq, ReaderPc.hand]
      · cases hr
  | bounce =>
      simp only [act] at hr
      split at hr
      · rename_i sid ht
        obtain rfl := Option.some.inj hr
        exact runs_same (by simp [inbox, ht, ReaderPc.hand])
      · cases hr
  | breakLoop =>
      obtain ⟨_, ⟨⟩⟩ := Option.ite_none_right_eq_some.1 hr
      exact runs_stop
  | abortWriter =>
      obtain ⟨_, ⟨⟩⟩ := Option.ite_none_right_eq_some.1 hr
      exact runs_stop
  | readerMark =>
      simp only [act] at hr
      split at hr
      · rename_i m ht
        obtain rfl := Option.some.inj hr
        have hgone : (r : Option Marking) → (r.elim ReaderPc.done ReaderPc.marking).hand = .gone := by
          intro r
          cases r <;> rfl
        have hevents : (t.markDead m).1.events = t.events := by cases m <;> rfl
        have hforget : Runs (lane q p w h (inbox ⟨t, calls⟩)) (lane q p w h { inbox ⟨t, calls⟩ with
            table := fun sid => (t.markDead m).1.registry.lookup sid }) :=
          runs_forget (Fades.markDead t m).registry
        refine hforget.trans (runs_stop.trans (runs_same ?_))
        simp [inbox, hgone, hevents]
      · cases hr
  | readerCancelled =>
      simp only [act] at hr
      split at hr
      · obtain rfl := Option.some.inj hr
        exact runs_stop
      · obtain rfl := Option.some.inj hr
        exact runs_stop
      · cases hr
  | write =>
      simp only [act] at hr
      split at hr
      · obtain rfl := Option.some.inj hr
        exact .refl
      · cases hr
  | _ =>
      -- the writer, the pool and a new call do not touch the receiving end
      obtain rfl := Option.some.inj hr
      exact .refl

theorem inbox_set {t : Tunnel} {calls : List Call} {i : ℕ} {c c' : Call} (hc : calls[i]? = some c)
    (hown : c'.own = c.own) : inbox ⟨t, calls.set i c'⟩ = inbox ⟨t, calls⟩ := by
  simp only [inbox, owner_set_same Call.own hc hown]

theorem runs_settle (t : Tunnel) (calls : List Call) (i : ℕ) (phase : Phase) :
    Runs (lane q p w h (inbox ⟨t, calls⟩)) (lane q p w h (inbox ⟨t.settle i phase, calls⟩)) := by
  unfold settle
  split
  · exact runs_shut i
  · exact runs_shut i
  · exact .refl

theorem runs_markDead (t : Tunnel) (calls : List Call) (m : Marking) :
    Runs (lane q p w h (inbox ⟨t, calls⟩)) (lane q p w h (inbox ⟨(t.markDead m).1, calls⟩)) := by
  cases m with
  | swap => exact .refl
  | clearPending => exact .refl
  | clearRegistry => exact runs_forget (Keeps.empty t.registry)

/-- A step of a call. -/
theorem callStep_inbox {i : ℕ} {t : Tunnel} {calls : List Call} {c : Call} {e : CallStep}
    {r : Tunnel × Call} (hc : calls[i]? = some c) (hr : callStep i t c e = some r)
    (hfresh : c.phase = .called → ∀ (k : ℕ) (d : Call), calls[k]? = some d → d.phase ≠ .called →
      d.sid ≠ t.allocStream)
    (hlist : c.phase = .pended → h.received c.sid = []) :
    Runs (lane q p w h (inbox ⟨t, calls⟩))
      (lane q p w (h.client ⟨t, calls⟩ (.task i e)) (inbox ⟨r.1, calls.set i r.2⟩)) := by
  have hown : ∀ {phase : Phase}, c.phase ≠ .called → phase ≠ .called →
      (c.goto phase).own = c.own := by
    intro phase hp hp'
    simp [Call.own, Call.goto, hp, hp']
  unfold callStep at hr
  split at hr
  case h_1 hp =>
      obtain rfl := Option.some.inj hr
      have hnone : (inbox ⟨t, calls⟩).owner i = none := by simp [inbox, hc, Call.own, hp]
      have hnew : ∀ k, (inbox ⟨t, calls⟩).owner k ≠ some t.allocStream := by
        intro k hk
        obtain ⟨d, hd, hd'⟩ := Option.bind_eq_some_iff.1 hk
        obtain ⟨hne, hsid⟩ := Call.own_eq_some.1 hd'
        exact hfresh hp k d hd hne hsid
      refine (runs_assign hnone hnew).trans (runs_same ?_)
      simp [inbox, owner_set Call.own _ hc, Call.own]
  case h_2 hp =>
      obtain rfl := Option.some.inj hr
      exact runs_same (inbox_set hc (hown (by simp [hp]) (by simp)))
  case h_3 hp =>
      obtain rfl := Option.some.inj hr
      have hsome : (inbox ⟨t, calls⟩).owner i = some c.sid := by simp [inbox, hc, Call.own, hp]
      dsimp only
      rw [inbox_set hc (hown (by simp [hp]) (by simp))]
      refine (runs_list hsome (hlist hp)).trans (runs_same ?_)
      simp [inbox, lookup_insert_eq]
  case h_5 hp =>
      split at hr
      · obtain rfl := Option.some.inj hr
        exact runs_same (inbox_set hc (hown (by simp [hp]) (by simp)))
      · obtain ⟨_, ⟨⟩⟩ := Option.ite_none_right_eq_some.1 hr
        exact runs_same (inbox_set hc (hown (by simp [hp]) (by simp)))
  case h_6 hp =>
      split at hr
      · obtain rfl := Option.some.inj hr
        exact runs_same (inbox_set hc (hown (by simp [hp]) (by simp)))
      · obtain rfl := Option.some.inj hr
        exact runs_same (inbox_set hc (hown (by simp [hp]) (by simp)))
      · cases hr
  case h_7 hp =>
      obtain ⟨_, ⟨⟩⟩ := Option.ite_none_right_eq_some.1 hr
      exact runs_same (inbox_set hc (hown (by simp [hp]) (by simp)))
  case h_8 hp =>
      obtain ⟨_, ⟨⟩⟩ := Option.ite_none_right_eq_some.1 hr
      exact runs_same (inbox_set hc (hown (by simp [hp]) (by simp)))
  case h_11 x hp =>
      obtain rfl := Option.some.inj hr
      dsimp only
      rw [inbox_set hc (hown (by simp [hp]) (by simp))]
      exact runs_forget (Keeps.erase t.registry c.sid)
  case h_12 x hp =>
      obtain rfl := Option.some.inj hr
      have hnext : x.next ≠ .called := by
        intro heq
        have hunreg := x.next_unregistered
        rw [heq] at hunreg
        cases hunreg
      dsimp only
      rw [inbox_set hc (hown (by simp [hp]) hnext)]
      exact runs_settle { t with streams := t.streams - 1 } calls i x.next
  case h_13 x hp =>
      obtain rfl := Option.some.inj hr
      dsimp only
      rw [inbox_set hc (hown (by simp [hp]) (by split <;> simp))]
      exact runs_settle { t with out := t.out.trySend outboundBound (.bare .close c.sid) } calls i _
  case h_14 hp =>
      obtain rfl := Option.some.inj hr
      dsimp only
      rw [inbox_set hc (hown (by simp [hp]) (by split <;> simp))]
      exact runs_settle t calls i _
  case h_15 hp =>
      obtain ⟨_, ⟨⟩⟩ := Option.ite_none_left_eq_some.1 hr
      exact runs_same (inbox_set hc (hown (by simp [hp]) (by simp)))
  case h_16 m kill hp =>
      obtain rfl := Option.some.inj hr
      have hnext : (t.markDead m).2.elim (if kill then .killing else .failed)
          (fun m' => Phase.marking m' kill) ≠ .called := by
        cases (t.markDead m).2 with
        | some m' => simp
        | none => cases kill <;> simp
      dsimp only
      rw [inbox_set hc (hown (by simp [hp]) hnext)]
      exact (runs_markDead t calls m).trans (runs_settle (t.markDead m).1 calls i _)
  case h_17 hp =>
      obtain rfl := Option.some.inj hr
      dsimp only
      rw [inbox_set hc (hown (by simp [hp]) (by simp))]
      exact runs_settle { t with abortReader := true } calls i .returned
  case h_18 e hp =>
      obtain ⟨r', hr', rfl⟩ := Option.map_eq_some_iff.1 hr
      have hclient : h.client ⟨t, calls⟩ (.task i (.pump e)) = h.pump i c.sid (t.events i) e := by
        simp [History.client, hc]
      dsimp only
      rw [hclient, inbox_set hc (by simp [Call.own, hp])]
      exact runs_pump (b := inbox ⟨t, calls⟩) hr'
  case h_19 => cases hr
  all_goals
    rename_i hp
    obtain rfl := Option.some.inj hr
    exact runs_same (inbox_set hc (hown (by simp [hp]) (by simp)))

/-- **A step of the client is a run of the lane it reads**, if ids are fresh and nothing was received
for a stream that is being registered. -/
theorem step_inbox (hs : step s x = some s') (hnum : Numbered s')
    (hlist : ∀ {i : ℕ} {c : Call}, s.tasks[i]? = some c → c.phase = .pended →
      h.received c.sid = []) :
    Runs (lane q ((carry x).frames ++ p) w h (inbox s)) (lane q p w (h.client s x) (inbox s')) := by
  obtain ⟨a, r, rfl, hr, rfl⟩ | ⟨i, e, c, r, rfl, hc, hr, rfl⟩ := step_cases hs
  · have hsame : inbox ⟨r.1, s.tasks ++ r.2⟩ = inbox ⟨r.1, s.tasks⟩ := by
      simp only [inbox, owner_append (act_cases hr).2]
    rw [hsame]
    exact act_inbox hr
  · refine callStep_inbox hc hr ?_ (hlist hc)
    intro hp k d hd hne hsid
    -- the id that was just handed out is not the id of another call
    rcases callStep_ids hr with ⟨rfl, _, _, hnew⟩ | ⟨_, hp', _⟩
    · have hik : i ≠ k := by
        rintro rfl
        obtain rfl : c = d := Option.some.inj (hc.symm.trans hd)
        exact hne hp
      have hr' : r.2.phase ≠ .called := by
        have hr'' : callStep i s.shared c .alloc = some ({ s.shared with
            nextStream := s.shared.nextStream + 1 },
            { c with sid := s.shared.allocStream, phase := .allocated }) := by
          unfold callStep
          rw [hp]
        rw [hr''] at hr
        rw [← Option.some.inj hr]
        simp
      have hi : (s.tasks.set i r.2)[i]? = some r.2 :=
        List.getElem?_set_self (List.getElem?_eq_some_iff.1 hc).1
      have hk : (s.tasks.set i r.2)[k]? = some d := by
        rw [List.getElem?_set_ne hik]
        exact hd
      exact hik (hnum.inj hi hk hr' hne (hnew.trans hsid.symm))
    · exact hp' hp

end Tunnel

end Nextppp

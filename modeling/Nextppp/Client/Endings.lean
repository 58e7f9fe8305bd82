/-
**How the calls of a client tunnel end.**

A call that fails and a stream that is dropped are unregistered; some of them send a `CLOSE`, the others
leave without one: the server has refused, the stream ended both ways, or the tunnel is dead.

Main definitions:

* `Nextppp.Tunnel.Phase.parted` — the call has nothing more to say about its stream;
* `Nextppp.Tunnel.Waits` — while the tunnel is alive, the waiter of a call is not lost.

Main results:

* `Nextppp.Tunnel.callStep_parted` — how a call parts with its stream;
* `Nextppp.Tunnel.Waits.step` — a step with fresh ids keeps the invariant.
-/

import Nextppp.Mux.Protocol

set_option relaxedAutoImplicit false
set_option autoImplicit false

namespace Nextppp

open Tasks Run

/-! ### The history of the client -/

theorem isPrefix_add {κ : Type*} [DecidableEq κ] (q : κ → List StreamEvent) (k : κ) (e : StreamEvent)
    (k' : κ) : q k' <+: Lane.add q k e k' := by
  by_cases hk : k' = k
  · subst hk
    rw [Lane.add_self]
    exact List.prefix_append _ _
  · rw [Lane.add_of_ne _ _ _ hk]

/-- What was queued and taken stays so. -/
theorem History.client_grows (h : History) (t : Tunnel.State) (x : Tunnel.Action) :
    (∀ k, h.took k <+: (h.client t x).took k) ∧
      ∀ sid, h.queued sid <+: (h.client t x).queued sid := by
  unfold History.client
  split
  · unfold History.recv
    split <;> exact ⟨fun _ => List.prefix_rfl, fun _ => List.prefix_rfl⟩
  · split
    · unfold History.pump
      split
      · exact ⟨fun _ => List.prefix_rfl, isPrefix_add _ _ _⟩
      · exact ⟨fun _ => List.prefix_rfl, isPrefix_add _ _ _⟩
      · split
        · exact ⟨isPrefix_add _ _ _, fun _ => List.prefix_rfl⟩
        · exact ⟨fun _ => List.prefix_rfl, fun _ => List.prefix_rfl⟩
      · exact ⟨fun _ => List.prefix_rfl, fun _ => List.prefix_rfl⟩
    · exact ⟨fun _ => List.prefix_rfl, fun _ => List.prefix_rfl⟩
  · exact ⟨fun _ => List.prefix_rfl, fun _ => List.prefix_rfl⟩

namespace Tunnel

variable {s s' : State} {x : Action} {i : ℕ} {t : Tunnel} {c : Call} {e : CallStep}
  {r : Tunnel × Call}

/-! ### Parting with a stream -/

/-- The call leaves without a `CLOSE`. -/
def Exit.silent : Exit → Bool
  | .timedOut | .dropped false => false
  | _ => true

/-- The call is being unregistered, or is about to send its `CLOSE`. -/
def Phase.departing : Phase → Bool
  | .unregPending _ | .unregRegistry _ | .unregSlot _ | .closing _ => true
  | _ => false

/-- The call has sent its `CLOSE`, or leaves without one. -/
def Phase.parted : Phase → Bool
  | .unregPending x | .unregRegistry x | .unregSlot x => x.silent
  | .failed | .dropping | .marking .. | .killing | .returned => true
  | _ => false

theorem Phase.sent_of_parted {p : Phase} (h : p.parted = true) : p.sent = true := by
  cases p <;> simp_all [Phase.sent, Phase.parted]

/-- A call past its `OPEN` waits, is a stream, departs or has parted. -/
theorem Phase.sent_cases {p : Phase} (h : p.sent = true) :
    p = .awaiting ∨ p = .handle ∨ p.departing = true ∨ p.parted = true := by
  cases p <;> simp_all [Phase.sent, Phase.departing, Phase.parted]

theorem Exit.next_parted {x : Exit} (h : x.next.parted = true) : x.silent = true := by
  cases x with
  | dropped graceful => cases graceful <;> simp_all [Exit.next, Phase.parted, Exit.silent]
  | _ => simp_all [Exit.next, Phase.parted, Exit.silent]

/-- **How a call parts with its stream**: it cannot send its `OPEN`, it is refused, its waiter is gone,
the stream is dropped after its end both ways, or a `CLOSE` is tried. -/
theorem callStep_parted (h : callStep i t c e = some r) (hr : r.2.phase.parted = true) :
    c.phase.parted = true ∨ t.out.receiver = false ∨
      (c.phase = .awaiting ∧ t.replies i = some false) ∨
      (c.phase = .awaiting ∧ t.waiterGone i c.sid = true) ∨
      (c.phase = .handle ∧ e = .drop true) ∨
      (e = .close ∧ c.phase ≠ .called ∧
        r.1.out = t.out.trySend outboundBound (.bare .close c.sid)) := by
  by_cases hopened : c.phase.opened = true
  · rcases callStep_opened h hopened with ⟨_, hrecv, _⟩ | ⟨_, _, _, hp⟩ | ⟨_, _, hp⟩ |
      ⟨hwait, hreply, _⟩ | ⟨hwait, hgone, _⟩ | ⟨_, hp⟩ | ⟨hhandle, graceful, rfl, hp⟩ | ⟨_, hp⟩
    · exact .inr (.inl hrecv)
    · rw [hp] at hr
      cases hr
    · rw [hp] at hr
      cases hr
    · exact .inr (.inr (.inl ⟨hwait, hreply⟩))
    · exact .inr (.inr (.inr (.inl ⟨hwait, hgone⟩)))
    · rw [hp] at hr
      cases hr
    · rw [hp] at hr
      cases graceful with
      | true => exact .inr (.inr (.inr (.inr (.inl ⟨hhandle, rfl⟩))))
      | false => cases hr
    · rw [hp] at hr
      cases hr
  · unfold callStep at h
    split at h
    case h_10 hp =>
        obtain rfl := Option.some.inj h
        exact .inl (by rw [hp]; exact hr)
    case h_11 hp =>
        obtain rfl := Option.some.inj h
        exact .inl (by rw [hp]; exact hr)
    case h_12 hp =>
        obtain rfl := Option.some.inj h
        exact .inl (by rw [hp]; exact Exit.next_parted hr)
    case h_13 hp =>
        obtain rfl := Option.some.inj h
        exact .inr (.inr (.inr (.inr (.inr ⟨rfl, by simp [hp], settle_out ..⟩))))
    case h_14 hp => exact .inl (by rw [hp]; rfl)
    case h_15 hp => exact .inl (by rw [hp]; rfl)
    case h_16 hp => exact .inl (by rw [hp]; rfl)
    case h_17 hp => exact .inl (by rw [hp]; rfl)
    case h_19 => cases h
    all_goals
      rename_i hp
      first
      | (exfalso
         rw [hp] at hopened
         exact hopened rfl)
      | (obtain rfl := Option.some.inj h
         cases hr)

/-! ### The waiters of an alive tunnel -/

/-- The call has put its waiter in `pending` and still waits. -/
def Phase.waiting : Phase → Bool
  | .pended | .listed | .sending | .awaiting => true
  | _ => false

theorem waiterGone_eq_false {sid : StreamId} :
    t.waiterGone i sid = false ↔
      t.replies i ≠ none ∨ t.pending.lookup sid = some i ∨ t.reader.holds i = true := by
  simp [waiterGone]
  tauto

/-- A reader that holds no waiter moves on: no waiter is lost. -/
theorem waiterGone_of_holds {t' : Tunnel} {sid : StreamId} (h : t.waiterGone i sid = false)
    (hholds : t.reader.holds i = false) (hreplies : t'.replies = t.replies)
    (hpending : t'.pending = t.pending) : t'.waiterGone i sid = false := by
  rw [waiterGone_eq_false] at h ⊢
  rw [hreplies, hpending]
  rcases h with h | h | h
  · exact .inl h
  · exact .inr (.inl h)
  · rw [hholds] at h
    cases h

/-- The reader gets a frame: a waiter it takes out of the map is with the reader. -/
theorem demux_waiter {sid : StreamId} (ht : t.reader = .demuxing) (f : OutFrame)
    (h : t.waiterGone i sid = false) : (t.demux f).waiterGone i sid = false := by
  have hholds : t.reader.holds i = false := by rw [ht]; rfl
  unfold demux routeEvent
  cases f.kind with
  | reply =>
      dsimp only
      split
      · rename_i call hcall
        rw [waiterGone_eq_false] at h ⊢
        rcases h with h | h | h
        · exact .inl h
        · by_cases hsid : sid = f.stream
          · subst hsid
            obtain rfl : call = i := Option.some.inj (hcall.symm.trans h)
            exact .inr (.inr (by simp [ReaderPc.holds]))
          · exact .inr (.inl ((AList.lookup_erase_ne hsid).trans h))
        · rw [hholds] at h
          cases h
      · exact h
  | data => dsimp only; split <;> exact waiterGone_of_holds h hholds rfl rfl
  | eof => dsimp only; split <;> exact waiterGone_of_holds h hholds rfl rfl
  | close => exact waiterGone_of_holds h hholds rfl rfl
  | «open» => exact waiterGone_of_holds h hholds rfl rfl

/-- A step of the reader or the writer of an alive tunnel loses no waiter. -/
theorem act_waiter {a : Step} {q : Tunnel × List Call} {sid : StreamId} (h : act t a = some q)
    (hmark : ∀ m, t.reader = .marking m → m ≠ .swap → t.alive = false) (halive : q.1.alive = true)
    (hi : t.waiterGone i sid = false) : q.1.waiterGone i sid = false := by
  cases a with
  | recv f =>
      obtain ⟨ht, rfl⟩ : t.reader = .demuxing ∧ (t.demux f, []) = q := by simpa [act] using h
      exact demux_waiter ht f hi
  | readerSend =>
      simp only [act] at h
      split at h
      · rename_i call ok ht
        obtain rfl := Option.some.inj h
        by_cases hcall : i = call
        · subst hcall
          simp [waiterGone_eq_false]
        · rw [waiterGone_eq_false] at hi ⊢
          dsimp only
          rw [Function.update_of_ne hcall]
          rcases hi with hi | hi | hi
          · exact .inl hi
          · exact .inr (.inl hi)
          · rw [ht] at hi
            simp [ReaderPc.holds] at hi
            exact absurd hi.symm hcall
      · rename_i call sid' ev ht
        have hholds : t.reader.holds i = false := by rw [ht]; rfl
        split at h
        · obtain rfl := Option.some.inj h
          exact waiterGone_of_holds hi hholds rfl rfl
        · obtain ⟨_, ⟨⟩⟩ := Option.ite_none_right_eq_some.1 h
          exact waiterGone_of_holds hi hholds rfl rfl
      · cases h
  | readerMark =>
      simp only [act] at h
      split at h
      · rename_i m ht
        have hholds : t.reader.holds i = false := by rw [ht]; rfl
        obtain rfl := Option.some.inj h
        cases m with
        | swap => cases halive
        | clearPending =>
            have hdead := hmark _ ht (by simp)
            exact Bool.noConfusion (halive.symm.trans hdead)
        | clearRegistry => exact waiterGone_of_holds hi hholds rfl rfl
      · cases h
  | breakLoop =>
      obtain ⟨ht, ⟨⟩⟩ := Option.ite_none_right_eq_some.1 h
      exact waiterGone_of_holds hi (by rw [ht]; rfl) rfl rfl
  | abortWriter =>
      obtain ⟨ht, ⟨⟩⟩ := Option.ite_none_right_eq_some.1 h
      exact waiterGone_of_holds hi (by rw [ht]; rfl) rfl rfl
  | write =>
      simp only [act] at h
      split at h
      · obtain rfl := Option.some.inj h
        exact hi
      · cases h
  | routeTimeout =>
      simp only [act] at h
      split at h
      · rename_i ht
        obtain ⟨_, ⟨⟩⟩ := Option.ite_none_left_eq_some.1 h
        exact waiterGone_of_holds hi (by rw [ht]; rfl) rfl rfl
      · cases h
  | unroute =>
      simp only [act] at h
      split at h
      · rename_i ht
        obtain rfl := Option.some.inj h
        exact waiterGone_of_holds hi (by rw [ht]; rfl) rfl rfl
      · cases h
  | bounce =>
      simp only [act] at h
      split at h
      · rename_i ht
        obtain rfl := Option.some.inj h
        exact waiterGone_of_holds hi (by rw [ht]; rfl) rfl rfl
      · cases h
  | readerCancelled =>
      simp only [act] at h
      split at h
      · rename_i ht
        obtain rfl := Option.some.inj h
        exact waiterGone_of_holds hi (by rw [ht]; rfl) rfl rfl
      · rename_i ht
        obtain rfl := Option.some.inj h
        exact waiterGone_of_holds hi (by rw [ht]; rfl) rfl rfl
      · cases h
  | _ =>
      -- the writer, the pool and a new call leave the waiters alone
      obtain rfl := Option.some.inj h
      exact hi

theorem settle_fields (t : Tunnel) (i : ℕ) (phase : Phase) :
    (t.settle i phase).alive = t.alive ∧ (t.settle i phase).pending = t.pending := by
  unfold settle
  split <;> exact ⟨rfl, rfl⟩

/-- A dead tunnel stays dead, and a `mark_dead` that clears the maps has found it alive. -/
theorem act_alive {a : Step} {q : Tunnel × List Call} (h : act t a = some q) :
    (q.1.alive = true → t.alive = true) ∧
      ∀ m, q.1.reader = .marking m → m ≠ .swap → q.1.alive = false ∨
        ∃ m', t.reader = .marking m' ∧ m' ≠ .swap := by
  cases a with
  | recv f =>
      obtain ⟨_, rfl⟩ : t.reader = .demuxing ∧ (t.demux f, []) = q := by simpa [act] using h
      unfold demux routeEvent
      cases f.kind with
      | reply =>
          dsimp only
          split
          · exact ⟨id, fun m hm => by cases hm⟩
          · exact ⟨id, fun m hm hne => .inr ⟨m, hm, hne⟩⟩
      | data => dsimp only; split <;> exact ⟨id, fun m hm => by cases hm⟩
      | eof => dsimp only; split <;> exact ⟨id, fun m hm => by cases hm⟩
      | close => exact ⟨id, fun m hm hne => .inr ⟨m, hm, hne⟩⟩
      | «open» => exact ⟨id, fun m hm => by cases hm⟩
  | readerMark =>
      simp only [act] at h
      split at h
      · rename_i m ht
        obtain rfl := Option.some.inj h
        cases m with
        | swap => exact ⟨fun halive => (by cases halive), fun _ _ _ => .inl rfl⟩
        | clearPending => exact ⟨id, fun _ _ _ => .inr ⟨_, ht, by simp⟩⟩
        | clearRegistry => exact ⟨id, fun _ hm => by cases hm⟩
      · cases h
  | abortWriter =>
      obtain ⟨_, ⟨⟩⟩ := Option.ite_none_right_eq_some.1 h
      exact ⟨id, fun m hm hne => by cases hm; exact absurd rfl hne⟩
  | _ =>
      -- the other steps do not touch `mark_dead`
      simp only [act] at h
      try split at h
      all_goals try split at h
      all_goals try split at h
      all_goals
        first
        | (obtain rfl := Option.some.inj h
           exact ⟨id, fun m hm hne => by first | exact .inr ⟨m, hm, hne⟩ | cases hm⟩)
        | cases h

/-- What a call does to `alive` and to `pending`. -/
theorem callStep_waiter (h : callStep i t c e = some r) :
    (r.1.alive = true → t.alive = true) ∧
      (∀ m kill, r.2.phase = .marking m kill → m ≠ .swap → r.1.alive = false ∨
        ∃ m', c.phase = .marking m' kill ∧ m' ≠ .swap) ∧
      (r.1.pending = t.pending ∨
        (c.phase = .allocated ∧ r.1.pending = t.pending.insert c.sid i) ∨
        (c.phase.waiting = false ∧ c.phase ≠ .called ∧ r.1.pending = t.pending.erase c.sid) ∨
        ∃ kill, c.phase = .marking .clearPending kill) := by
  unfold callStep at h
  split at h
  case h_2 hp =>
      obtain rfl := Option.some.inj h
      exact ⟨id, fun m kill hm => by simp at hm, .inr (.inl ⟨hp, rfl⟩)⟩
  case h_5 =>
      split at h
      · obtain rfl := Option.some.inj h
        exact ⟨id, fun m kill hm => by simp at hm, .inl rfl⟩
      · obtain ⟨_, ⟨⟩⟩ := Option.ite_none_right_eq_some.1 h
        exact ⟨id, fun m kill hm => by simp at hm, .inl rfl⟩
  case h_6 =>
      split at h
      · obtain rfl := Option.some.inj h
        exact ⟨id, fun m kill hm => by simp at hm, .inl rfl⟩
      · obtain rfl := Option.some.inj h
        exact ⟨id, fun m kill hm => by simp at hm, .inl rfl⟩
      · cases h
  case h_7 =>
      obtain ⟨_, ⟨⟩⟩ := Option.ite_none_right_eq_some.1 h
      exact ⟨id, fun m kill hm => by simp at hm, .inl rfl⟩
  case h_8 =>
      obtain ⟨_, ⟨⟩⟩ := Option.ite_none_right_eq_some.1 h
      exact ⟨id, fun m kill hm => by simp at hm, .inl rfl⟩
  case h_10 hp =>
      obtain rfl := Option.some.inj h
      exact ⟨id, fun m kill hm => by simp at hm,
        .inr (.inr (.inl ⟨by rw [hp]; rfl, by simp [hp], rfl⟩))⟩
  case h_12 x hp =>
      obtain rfl := Option.some.inj h
      obtain ⟨halive, hpending⟩ := settle_fields { t with streams := t.streams - 1 } i x.next
      refine ⟨fun ha => halive.symm.trans ha, ?_, .inl hpending⟩
      intro m kill hm hne
      cases x with
      | failedSend =>
          cases hm
          exact absurd rfl hne
      | dropped graceful => cases graceful <;> cases hm
      | _ => cases hm
  case h_13 x hp =>
      obtain rfl := Option.some.inj h
      obtain ⟨halive, hpending⟩ := settle_fields
        { t with out := t.out.trySend outboundBound (.bare .close c.sid) } i
        (if x = .timedOut then .failed else .dropping)
      refine ⟨fun ha => halive.symm.trans ha, ?_, .inl hpending⟩
      intro m kill hm
      dsimp only [Call.goto_phase] at hm
      split at hm <;> cases hm
  case h_14 hp =>
      obtain rfl := Option.some.inj h
      obtain ⟨halive, hpending⟩ := settle_fields t i (if t.pool then .returned else .marking .swap true)
      refine ⟨fun ha => halive.symm.trans ha, ?_, .inl hpending⟩
      intro m kill hm hne
      dsimp only [Call.goto_phase] at hm
      split at hm
      · cases hm
      · cases hm
        exact absurd rfl hne
  case h_15 hp =>
      obtain ⟨_, ⟨⟩⟩ := Option.ite_none_left_eq_some.1 h
      refine ⟨id, ?_, .inl rfl⟩
      intro m kill hm hne
      cases hm
      exact absurd rfl hne
  case h_16 m kill hp =>
      obtain rfl := Option.some.inj h
      obtain ⟨halive, hpending⟩ := settle_fields (t.markDead m).1 i
        ((t.markDead m).2.elim (if kill then .killing else .failed) fun m' => .marking m' kill)
      dsimp only
      rw [halive, hpending]
      cases m with
      | swap => exact ⟨fun ha => (by cases ha), fun _ _ _ _ => .inl rfl, .inl rfl⟩
      | clearPending =>
          refine ⟨id, ?_, .inr (.inr (.inr ⟨kill, hp⟩))⟩
          intro m' kill' hm _
          cases hm
          exact .inr ⟨_, hp, by simp⟩
      | clearRegistry =>
          refine ⟨id, ?_, .inl rfl⟩
          intro m' kill' hm
          cases kill <;> cases hm
  case h_17 =>
      obtain rfl := Option.some.inj h
      exact ⟨id, fun m kill hm => by simp at hm, .inl rfl⟩
  case h_18 hp =>
      obtain ⟨p, _, rfl⟩ := Option.map_eq_some_iff.1 h
      refine ⟨id, ?_, .inl rfl⟩
      intro m kill hm
      rw [show c.phase = .marking m kill from hm] at hp
      cases hp
  case h_19 => cases h
  all_goals
    obtain rfl := Option.some.inj h
    exact ⟨id, fun m kill hm => by simp at hm, .inl rfl⟩

theorem step_alive (hs : step s x = some s') (h : s'.shared.alive = true) : s.shared.alive = true := by
  obtain ⟨a, q, _, hq, rfl⟩ | ⟨j, e, d, r, _, _, hr, rfl⟩ := step_cases hs
  · exact (act_alive hq).1 h
  · exact (callStep_waiter hr).1 h

/-- While the tunnel is alive, the waiter of a call that waits is in the map or with the reader, or it
has its reply. -/
structure Waits (s : State) : Prop where
  reader : ∀ m, s.shared.reader = .marking m → m ≠ .swap → s.shared.alive = false
  calls : ∀ {i : ℕ} {c : Call} {m : Marking} {kill : Bool}, s.tasks[i]? = some c →
    c.phase = .marking m kill → m ≠ .swap → s.shared.alive = false
  waiter : s.shared.alive = true → ∀ {i : ℕ} {c : Call}, s.tasks[i]? = some c →
    c.phase.waiting = true → s.shared.waiterGone i c.sid = false

theorem Waits.main_step {a : Step} {q : Tunnel × List Call} (h : Waits s)
    (hq : act s.shared a = some q) : Waits ⟨q.1, s.tasks ++ q.2⟩ := by
  obtain ⟨halive, hmark⟩ := act_alive hq
  have hdead : s.shared.alive = false → q.1.alive = false := by
    intro hfalse
    rw [← Bool.not_eq_true] at hfalse ⊢
    exact fun htrue => hfalse (halive htrue)
  have hnew : ∀ {i : ℕ} {c : Call}, (s.tasks ++ q.2)[i]? = some c →
      s.tasks[i]? = some c ∨ c.phase = .called := by
    intro i c hc
    exact (getElem?_append_cases hc).imp_right ((act_cases hq).2 c)
  refine ⟨?_, ?_, ?_⟩
  · intro m hm hne
    rcases hmark m hm hne with hfalse | ⟨m', hm', hne'⟩
    · exact hfalse
    · exact hdead (h.reader m' hm' hne')
  · intro i c m kill hc hm hne
    rcases hnew hc with hold | hcalled
    · exact hdead (h.calls hold hm hne)
    · rw [hcalled] at hm
      cases hm
  · intro ha i c hc hp
    rcases hnew hc with hold | hcalled
    · exact act_waiter hq h.reader ha (h.waiter (halive ha) hold hp)
    · rw [hcalled] at hp
      cases hp

/-- A call that waits after a step waited before it, unless it has just put its waiter in the map. -/
theorem callStep_waiting (h : callStep i t c e = some r) (hr : r.2.phase.waiting = true) :
    r.2.sid = c.sid ∧ (c.phase.waiting = true ∨ (c.phase = .allocated ∧ r.1.pending.lookup c.sid = some i)) := by
  have hopened : c.phase.opened = true → r.2.phase.waiting = true → c.phase.waiting = true := by
    intro hc hw
    rcases callStep_opened h hc with ⟨hp, _⟩ | ⟨hp, _⟩ | ⟨hp, _⟩ | ⟨hp, _⟩ | ⟨hp, _⟩ | ⟨hp, _⟩ |
      ⟨_, _, _, hp⟩ | ⟨_, hp⟩
    case inr.inr.inr.inr.inr.inr.inl | inr.inr.inr.inr.inr.inr.inr =>
        rw [hp] at hw
        cases hw
    all_goals
      rw [hp]
      rfl
  rcases callStep_cases h with ⟨_, _, rfl⟩ | ⟨hp, rfl⟩ | ⟨hp, rfl⟩ | ⟨hp, rfl⟩ | ⟨y, _, rfl⟩ |
    ⟨y, _, rfl⟩ | ⟨y, _, rfl⟩ | hq
  · cases hr
  · exact ⟨rfl, .inr ⟨hp, AList.lookup_insert _⟩⟩
  · exact ⟨rfl, .inl (by rw [hp]; rfl)⟩
  · exact ⟨rfl, .inl (by rw [hp]; rfl)⟩
  · cases hr
  · cases hr
  · cases y with
    | dropped graceful => cases graceful <;> cases hr
    | _ => cases hr
  · refine ⟨hq.sid, .inl ?_⟩
    rcases hq.moves with ⟨hc, _⟩ | ⟨_, hunreg⟩
    · exact hopened hc hr
    · cases hp : r.2.phase <;> simp_all [Phase.unregistered, Phase.waiting]

theorem Waits.task_step (h : Waits s) (hnum : Numbered s) (hc : s.tasks[i]? = some c)
    (hr : callStep i s.shared c e = some r) : Waits ⟨r.1, s.tasks.set i r.2⟩ := by
  obtain ⟨halive, hmark, hpending⟩ := callStep_waiter hr
  obtain ⟨hreader, hreplies⟩ := callStep_reply hr
  have hdead : s.shared.alive = false → r.1.alive = false := by
    intro hfalse
    rw [← Bool.not_eq_true] at hfalse ⊢
    exact fun htrue => hfalse (halive htrue)
  have hkeep : ∀ {j : ℕ} {sid : StreamId}, r.1.pending.lookup sid = s.shared.pending.lookup sid →
      s.shared.waiterGone j sid = false → r.1.waiterGone j sid = false := by
    intro j sid hlookup hj
    rw [waiterGone_eq_false] at hj ⊢
    rw [hreplies, hreader, hlookup]
    exact hj
  refine ⟨?_, ?_, ?_⟩
  · intro m hm hne
    exact hdead (h.reader m (hreader.symm.trans hm) hne)
  · intro j d m kill hd hm hne
    rcases getElem?_set_cases hd with ⟨rfl, rfl⟩ | ⟨_, hold⟩
    · rcases hmark m kill hm hne with hfalse | ⟨m', hm', hne'⟩
      · exact hfalse
      · exact hdead (h.calls hc hm' hne')
    · exact hdead (h.calls hold hm hne)
  · intro ha j d hd hp
    have hcleared : ∀ {kill}, c.phase ≠ .marking .clearPending kill := by
      intro kill hphase
      have hfalse := h.calls hc hphase (by simp)
      exact Bool.noConfusion ((halive ha).symm.trans hfalse)
    rcases getElem?_set_cases hd with ⟨rfl, rfl⟩ | ⟨hji, hold⟩
    · obtain ⟨hsid, hwaiting | ⟨_, hlookup⟩⟩ := callStep_waiting hr hp
      · rw [hsid]
        refine hkeep ?_ (h.waiter (halive ha) hc hwaiting)
        rcases hpending with hsame | ⟨hphase, _⟩ | ⟨hphase, _⟩ | ⟨kill, hphase⟩
        · rw [hsame]
        · rw [hphase] at hwaiting
          cases hwaiting
        · rw [hphase] at hwaiting
          cases hwaiting
        · exact absurd hphase hcleared
      · rw [hsid, waiterGone_eq_false]
        exact .inr (.inl hlookup)
    · -- another call touches its own entry only
      have hne : c.phase ≠ .called → d.sid ≠ c.sid := by
        intro hcalled hsid
        have hd' : d.phase ≠ .called := by
          intro heq
          rw [heq] at hp
          cases hp
        exact hji (hnum.inj hold hc hd' hcalled hsid)
      refine hkeep ?_ (h.waiter (halive ha) hold hp)
      rcases hpending with hsame | ⟨hphase, hinsert⟩ | ⟨_, hcalled, herase⟩ | ⟨kill, hphase⟩
      · rw [hsame]
      · rw [hinsert]
        exact AList.lookup_insert_ne (hne (by simp [hphase]))
      · rw [herase]
        exact AList.lookup_erase_ne (hne hcalled)
      · exact absurd hphase hcleared

theorem Waits.step (h : Waits s) (hnum : Numbered s) (hs : step s x = some s') : Waits s' := by
  obtain ⟨a, q, _, hq, rfl⟩ | ⟨i, e, c, r, _, hc, hr, rfl⟩ := step_cases hs
  · exact h.main_step hq
  · exact h.task_step hnum hc hr

theorem Waits.new (pool : Bool) : Waits (init pool) :=
  ⟨(fun _ hm => by cases hm), (fun hi => by cases hi), (fun _ _ _ hi => by cases hi)⟩

end Tunnel

end Nextppp

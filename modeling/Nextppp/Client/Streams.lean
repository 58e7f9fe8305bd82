/-
**The streams of a client tunnel.**

What the counter of streams, the two maps and the ids of a tunnel say about the calls of `open` on it
and the streams these returned.

Main definitions:

* `Nextppp.Tunnel.Owns` — every entry of a map belongs to a call in some phases;
* `Nextppp.Tunnel.InTime` — a call whose `OPEN` is accepted registered before the maps were cleared;
* `Nextppp.Tunnel.NoWrap` — the counter of ids is not at its end.

Main results:

* `Nextppp.Tunnel.streams_exact` — the counter counts the calls that are registered and the streams;
* `Nextppp.Tunnel.death_fails_waiters` — the death of a tunnel takes the entries of every call whose
  `OPEN` was accepted in time;
* `Nextppp.Tunnel.fresh_ids` — until the counter of ids wraps, an id is never in use.
-/

import Nextppp.Client.Tunnel

set_option relaxedAutoImplicit false
set_option autoImplicit false

namespace Nextppp

namespace Tunnel

open Tasks Run

/-! ### Ownership of the entries -/

/-- The stream is unregistered by its `Drop`. -/
def Exit.isDropped : Exit → Bool
  | .dropped _ => true
  | _ => false

namespace Phase

/-- The waiter of the call may be in `pending`. -/
def pendable : Phase → Bool
  | .pended | .listed | .sending | .awaiting | .handle | .unregPending _ => true
  | _ => false

/-- The channel of the call may be in `registry`. -/
def listable : Phase → Bool
  | .listed | .sending | .awaiting | .handle | .unregPending _ | .unregRegistry _ => true
  | _ => false

/-- The call has inserted an entry and has not counted its stream yet. -/
def registering : Phase → Bool
  | .pended | .listed => true
  | _ => false

/-- The call is past its registration and has not finished. -/
def opening : Phase → Bool
  | .sending | .awaiting => true
  | .unregPending x | .unregRegistry x | .unregSlot x => !x.isDropped
  | _ => false

/-- The call has returned a stream, which has not given its slot back. -/
def streaming : Phase → Bool
  | .handle => true
  | .unregPending x | .unregRegistry x | .unregSlot x => x.isDropped
  | _ => false

/-- The stream is counted. -/
def counted (p : Phase) : Bool := p.opening || p.streaming

theorem of_opened {p : Phase} (h : p.opened = true) :
    p.pendable = true ∧ p.listable = true ∧ p.counted = true := by
  cases p <;> simp_all [opened, pendable, listable, counted, opening, streaming]

theorem of_unregistered {p : Phase} (h : p.unregistered = true) :
    p.pendable = false ∧ p.listable = false ∧ p.counted = false := by
  cases p <;> simp_all [unregistered, pendable, listable, counted, opening, streaming]

@[simp] theorem counted_unregPending (x : Exit) : (unregPending x).counted = true := by
  simp [counted, opening, streaming]

@[simp] theorem counted_unregRegistry (x : Exit) : (unregRegistry x).counted = true := by
  simp [counted, opening, streaming]

@[simp] theorem counted_unregSlot (x : Exit) : (unregSlot x).counted = true := by
  simp [counted, opening, streaming]

end Phase

/-- A step that neither registers nor unregisters keeps what the phase of the call says. -/
theorem Quiet.keeps {t : Tunnel} {c : Call} {e : CallStep} {r : Tunnel × Call} (h : Quiet t c e r) :
    r.2.phase.pendable = c.phase.pendable ∧ r.2.phase.listable = c.phase.listable ∧
      r.2.phase.counted = c.phase.counted := by
  rcases h.moves with ⟨hc, hr | ⟨x, hr⟩⟩ | ⟨hc, hr⟩
  · obtain ⟨h₁, h₂, h₃⟩ := Phase.of_opened hc
    obtain ⟨k₁, k₂, k₃⟩ := Phase.of_opened hr
    simp [h₁, h₂, h₃, k₁, k₂, k₃]
  · obtain ⟨h₁, h₂, h₃⟩ := Phase.of_opened hc
    rw [h₁, h₂, h₃, hr, Phase.counted_unregPending]
    exact ⟨rfl, rfl, rfl⟩
  · obtain ⟨h₁, h₂, h₃⟩ := Phase.of_unregistered hc
    obtain ⟨k₁, k₂, k₃⟩ := Phase.of_unregistered hr
    simp [h₁, h₂, h₃, k₁, k₂, k₃]

/-- Every entry of a map belongs to the call of its number, which has its id and is in such a phase. -/
def Owns (p : Phase → Bool) (m : Table) (calls : List Call) : Prop :=
  ∀ sid i, m.lookup sid = some i → ∃ c, calls[i]? = some c ∧ c.sid = sid ∧ p c.phase = true

variable {p : Phase → Bool} {m m' : Table} {calls : List Call} {i : ℕ} {c c' : Call}

theorem Owns.empty (p : Phase → Bool) (calls : List Call) : Owns p ∅ calls := by
  intro sid i h
  rw [AList.lookup_empty] at h
  cases h

theorem Owns.append (h : Owns p m calls) (hm : Keeps m' m) (new : List Call) :
    Owns p m' (calls ++ new) := by
  intro sid i hi
  obtain ⟨c, hc, hsid, hp⟩ := h sid i (hm sid i hi)
  exact ⟨c, List.getElem?_append_left (List.getElem?_eq_some_iff.1 hc).1 ▸ hc, hsid, hp⟩

/-- A call moves on and entries may go: its own entry has to go when its new phase has none. -/
theorem Owns.set (h : Owns p m calls) (hm : Keeps m' m) (hc : calls[i]? = some c)
    (hc' : p c.phase = true → m'.lookup c.sid = some i → c'.sid = c.sid ∧ p c'.phase = true) :
    Owns p m' (calls.set i c') := by
  intro sid j hj
  obtain ⟨d, hd, rfl, hp⟩ := h sid j (hm sid j hj)
  by_cases hij : i = j
  · subst hij
    obtain rfl : c = d := Option.some.inj (hc.symm.trans hd)
    obtain ⟨hsid, hp'⟩ := hc' hp hj
    exact ⟨c', by simp [(List.getElem?_eq_some_iff.1 hc).1], hsid, hp'⟩
  · exact ⟨d, by rw [List.getElem?_set_ne hij]; exact hd, rfl, hp⟩

/-- A call inserts its entry. -/
theorem Owns.insert (h : Owns p m calls) (hc : calls[i]? = some c) (hsid : c'.sid = c.sid)
    (hp : p c'.phase = true) : Owns p (m.insert c.sid i) (calls.set i c') := by
  intro sid j hj
  by_cases heq : sid = c.sid
  · subst heq
    rw [AList.lookup_insert] at hj
    obtain rfl := Option.some.inj hj
    exact ⟨c', by simp [(List.getElem?_eq_some_iff.1 hc).1], hsid, hp⟩
  · rw [AList.lookup_insert_ne heq] at hj
    exact h.set (Keeps.refl m) hc (fun _ _ => ⟨hsid, hp⟩) sid j hj

/-- Every entry of the two maps belongs to a call that is being registered, is registered or is
being unregistered. -/
structure Registered (s : State) : Prop where
  pending : Owns Phase.pendable s.shared.pending s.tasks
  registry : Owns Phase.listable s.shared.registry s.tasks

variable {s s' : State} {a : Act Step CallStep}

theorem Registered.step (h : Registered s) (hs : step s a = some s') : Registered s' := by
  obtain ⟨hpend, hreg⟩ := h
  obtain ⟨x, r, _, hr, rfl⟩ | ⟨i, e, c, r, _, hc, hr, rfl⟩ := step_cases hs
  · obtain ⟨hf, _⟩ := act_cases hr
    exact ⟨hpend.append hf.pending r.2, hreg.append hf.registry r.2⟩
  rcases callStep_cases hr with ⟨hp, _, rfl⟩ | ⟨hp, rfl⟩ | ⟨hp, rfl⟩ | ⟨hp, rfl⟩ | ⟨x, hp, rfl⟩ |
    ⟨x, hp, rfl⟩ | ⟨x, hp, rfl⟩ | hq
  · -- a call without an id has no entry
    exact ⟨hpend.set (Keeps.refl _) hc (by simp [hp, Phase.pendable]),
      hreg.set (Keeps.refl _) hc (by simp [hp, Phase.listable])⟩
  · exact ⟨hpend.insert hc rfl rfl, hreg.set (Keeps.refl _) hc (by simp [hp, Phase.listable])⟩
  · exact ⟨hpend.set (Keeps.refl _) hc (fun _ _ => ⟨rfl, rfl⟩), hreg.insert hc rfl rfl⟩
  · exact ⟨hpend.set (Keeps.refl _) hc (fun _ _ => ⟨rfl, rfl⟩),
      hreg.set (Keeps.refl _) hc (fun _ _ => ⟨rfl, rfl⟩)⟩
  · refine ⟨hpend.set (Keeps.erase _ _) hc ?_, hreg.set (Keeps.refl _) hc (fun _ _ => ⟨rfl, rfl⟩)⟩
    simp [AList.lookup_erase]
  · refine ⟨hpend.set (Keeps.refl _) hc (by simp [hp, Phase.pendable]),
      hreg.set (Keeps.erase _ _) hc ?_⟩
    simp [AList.lookup_erase]
  · have hset := Fades.settle (Fades.refl { s.shared with streams := s.shared.streams - 1 }) i x.next
    exact ⟨hpend.set hset.pending hc (by simp [hp, Phase.pendable]),
      hreg.set hset.registry hc (by simp [hp, Phase.listable])⟩
  · obtain ⟨hkeep₁, hkeep₂, _⟩ := hq.keeps
    exact ⟨hpend.set hq.fades.pending hc (fun h _ => ⟨hq.sid, hkeep₁ ▸ h⟩),
      hreg.set hq.fades.registry hc (fun h _ => ⟨hq.sid, hkeep₂ ▸ h⟩)⟩

theorem Registered.reach {pool : Bool} {ok : State → Act Step CallStep → Prop}
    (h : Reach Tunnel.step ok (init pool) s) : Registered s :=
  Reach.invariant ⟨Owns.empty _ _, Owns.empty _ _⟩ (fun hinv _ hs => hinv.step hs) h

/-! ### The counter of streams -/

theorem streams_step (hs : step s a = some s')
    (hg : s.shared.streams = count32 (s.tasks.countP fun c => c.phase.counted)) :
    s'.shared.streams = count32 (s'.tasks.countP fun c => c.phase.counted) := by
  refine gauge_step (p := fun c : Call => c.phase.counted) (g := fun t => t.streams) count32 hs
    ?_ ?_ hg
  · intro x r _ hr
    obtain ⟨hf, hnew⟩ := act_cases hr
    have hzero : r.2.countP (fun c => c.phase.counted) = 0 := by
      rw [List.countP_eq_zero]
      intro c hc
      rw [hnew c hc]
      decide
    simp [hf.streams, hzero]
  · intro i e c r _ _ hr
    rcases callStep_cases hr with ⟨hp, _, rfl⟩ | ⟨hp, rfl⟩ | ⟨hp, rfl⟩ | ⟨hp, rfl⟩ | ⟨x, hp, rfl⟩ |
      ⟨x, hp, rfl⟩ | ⟨x, hp, rfl⟩ | hq
    · simp [hp, Phase.counted, Phase.opening, Phase.streaming]
    · simp [hp, Phase.counted, Phase.opening, Phase.streaming]
    · simp [hp, Phase.counted, Phase.opening, Phase.streaming]
    · simp [hp, Phase.counted, Phase.opening, Phase.streaming]
    · simp [hp]
    · simp [hp]
    · have hset := Fades.settle (Fades.refl { s.shared with streams := s.shared.streams - 1 }) i
        x.next
      have hnext := (Phase.of_unregistered x.next_unregistered).2.2
      simp [hp, hset.streams, hnext]
    · simp [hq.keeps.2.2, hq.fades.streams]

theorem countP_counted (calls : List Call) :
    calls.countP (fun c => c.phase.counted)
      = calls.countP (fun c => c.phase.opening) + calls.countP (fun c => c.phase.streaming) := by
  induction calls with
  | nil => rfl
  | cons c calls ih =>
      have hone : (if c.phase.counted = true then 1 else 0)
          = (if c.phase.opening = true then 1 else 0) + if c.phase.streaming = true then 1 else 0 := by
        unfold Phase.counted Phase.opening Phase.streaming
        cases c.phase with
        | unregPending x => cases x <;> rfl
        | unregRegistry x => cases x <;> rfl
        | unregSlot x => cases x <;> rfl
        | _ => rfl
      simp only [List.countP_cons]
      omega

/-- **The counter of streams is exact**: with fewer than `2 ^ 32` calls, it is the number of calls past
their registration and of streams, and every entry of the maps belongs to one of these or to a call
in the middle of its registration. -/
theorem streams_exact (pool : Bool) {s : State} (h : Reach Tunnel.step always (init pool) s)
    (hopens : s.tasks.length < 2 ^ 32) :
    s.shared.streams.toNat = s.tasks.countP (fun c => c.phase.opening)
        + s.tasks.countP (fun c => c.phase.streaming) ∧
      ∀ sid i, s.shared.pending.lookup sid = some i ∨ s.shared.registry.lookup sid = some i →
        ∃ c, s.tasks[i]? = some c ∧ c.sid = sid ∧
          (c.phase.opening = true ∨ c.phase.streaming = true ∨ c.phase.registering = true) := by
  have hg : s.shared.streams = count32 (s.tasks.countP fun c => c.phase.counted) :=
    Reach.invariant (I := fun s => s.shared.streams = count32 (s.tasks.countP fun c => c.phase.counted))
      rfl (fun hinv _ hs => streams_step hs hinv) h
  have hreg := Registered.reach h
  refine ⟨?_, ?_⟩
  · have hle : s.tasks.countP (fun c => c.phase.counted) ≤ s.tasks.length := List.countP_le_length
    rw [← countP_counted, hg]
    exact UInt32.toNat_ofNat_of_lt' (hle.trans_lt hopens)
  · rintro sid i (hi | hi)
    · obtain ⟨c, hc, hsid, hp⟩ := hreg.pending sid i hi
      refine ⟨c, hc, hsid, ?_⟩
      cases hphase : c.phase with
      | unregPending x => cases x <;> simp [Phase.opening, Phase.streaming, Exit.isDropped]
      | _ => simp_all [Phase.opening, Phase.streaming, Phase.registering, Phase.pendable]
    · obtain ⟨c, hc, hsid, hp⟩ := hreg.registry sid i hi
      refine ⟨c, hc, hsid, ?_⟩
      cases hphase : c.phase with
      | unregPending x => cases x <;> simp [Phase.opening, Phase.streaming, Exit.isDropped]
      | unregRegistry x => cases x <;> simp [Phase.opening, Phase.streaming, Exit.isDropped]
      | _ => simp_all [Phase.opening, Phase.streaming, Phase.registering, Phase.listable]

/-- A call of `open` up to its queued `OPEN`. -/
def openUp (i : ℕ) : List (Act Step CallStep) :=
  [.task i .alloc, .task i .insertPending, .task i .insertRegistry, .task i .addStream,
    .task i .send]

/-- The reader gets the reply for a stream, and the call takes it. -/
def replyTo (i : ℕ) (sid : StreamId) (status : UInt8) : List (Act Step CallStep) :=
  [.main (.recv ⟨.reply, sid, [status]⟩), .main .readerSend, .task i .replied]

/-- One call has returned a stream, one is refused and about to unregister, one has just sent. -/
theorem streams_exact_three :
    ∃ s, Reach Tunnel.step always (init true) s ∧ s.tasks.length < 2 ^ 32 ∧
      s.shared.streams.toNat = 3 ∧
      s.shared.streams.toNat = s.tasks.countP (fun c => c.phase.opening)
        + s.tasks.countP (fun c => c.phase.streaming) ∧
      ∀ sid i, s.shared.pending.lookup sid = some i ∨ s.shared.registry.lookup sid = some i →
        ∃ c, s.tasks[i]? = some c ∧ c.sid = sid ∧
          (c.phase.opening = true ∨ c.phase.streaming = true ∨ c.phase.registering = true) := by
  obtain ⟨s, he, hlen, hstreams⟩ : ∃ s, exec Tunnel.step always (init true)
      ([.main (.call []), .main (.call []), .main (.call [])] ++ openUp 0 ++ openUp 1 ++ openUp 2
        ++ replyTo 0 1 replyOk ++ replyTo 1 2 replyRefused) = some s ∧
      s.tasks.length = 3 ∧ s.shared.streams.toNat = 3 := ⟨_, rfl, rfl, rfl⟩
  have h := Reach.refl.of_exec _ he
  exact ⟨s, h, by omega, hstreams, streams_exact true h (by omega)⟩

/-! ### The death of the tunnel -/

/-- The tunnel is dead, and the `mark_dead` that killed it has returned. -/
def dead (t : Tunnel) : Bool := !t.alive && t.pendingCleared && t.registryCleared

/-- A call whose `OPEN` the channel accepts has not registered behind the clears of `mark_dead`. -/
def InTime (s : State) (a : Act Step CallStep) : Prop :=
  ∀ i < s.tasks.length, a = .task i .send → ∀ c ∈ s.tasks[i]?, s.shared.out.receiver = true →
    (s.shared.pendingCleared = true → s.shared.pending.lookup c.sid ≠ some i) ∧
      (s.shared.registryCleared = true → s.shared.registry.lookup c.sid ≠ some i)

instance (s : State) (a : Act Step CallStep) : Decidable (InTime s a) :=
  inferInstanceAs (Decidable (∀ i < s.tasks.length, _ → ∀ c ∈ s.tasks[i]?, _ → _ ∧ _))

/-- The entries of a call that is past its `OPEN` are gone once their map was cleared. -/
def Swept (s : State) : Prop :=
  ∀ i c, s.tasks[i]? = some c → c.phase.pastSend = true →
    (s.shared.pendingCleared = true → s.shared.pending.lookup c.sid ≠ some i) ∧
      (s.shared.registryCleared = true → s.shared.registry.lookup c.sid ≠ some i)

/-- The entries of a call that are there after a step were there before it, and a map that still has
one was not cleared in the step. -/
def Sinks (j : ℕ) (t t' : Tunnel) : Prop :=
  (∀ sid, t'.pending.lookup sid = some j →
      t.pending.lookup sid = some j ∧ (t'.pendingCleared = true → t.pendingCleared = true)) ∧
    ∀ sid, t'.registry.lookup sid = some j →
      t.registry.lookup sid = some j ∧ (t'.registryCleared = true → t.registryCleared = true)

theorem Fades.sinks {t t' : Tunnel} (hf : Fades t t') (j : ℕ) : Sinks j t t' := by
  constructor
  · intro sid hj
    refine ⟨hf.pending sid j hj, fun hdone => (hf.pendingCleared hdone).resolve_right ?_⟩
    intro hempty
    rw [hempty, AList.lookup_empty] at hj
    cases hj
  · intro sid hj
    refine ⟨hf.registry sid j hj, fun hdone => (hf.registryCleared hdone).resolve_right ?_⟩
    intro hempty
    rw [hempty, AList.lookup_empty] at hj
    cases hj

/-- Another call's insertion is not an entry of this one. -/
theorem lookup_insert_other {m : Table} {sid sid' : StreamId} {i j : ℕ} (hij : j ≠ i)
    (h : (m.insert sid' i).lookup sid = some j) : m.lookup sid = some j := by
  by_cases hsid : sid = sid'
  · subst hsid
    rw [AList.lookup_insert] at h
    exact absurd (Option.some.inj h).symm hij
  · rwa [AList.lookup_insert_ne hsid] at h

/-- A step of a call leaves the entries of the others, and adds none behind its own `OPEN`. -/
theorem callStep_sinks {t : Tunnel} {e : CallStep} {r : Tunnel × Call}
    (h : callStep i t c e = some r) {j : ℕ} (hj : j ≠ i ∨ r.2.phase.pastSend = true) :
    Sinks j t r.1 := by
  rcases callStep_cases h with ⟨_, _, rfl⟩ | ⟨_, rfl⟩ | ⟨_, rfl⟩ | ⟨_, rfl⟩ | ⟨x, _, rfl⟩ |
    ⟨x, _, rfl⟩ | ⟨x, _, rfl⟩ | hq
  · exact ⟨fun _ h => ⟨h, id⟩, fun _ h => ⟨h, id⟩⟩
  · have hij : j ≠ i := hj.resolve_right (by simp [Phase.pastSend])
    exact ⟨fun _ h => ⟨lookup_insert_other hij h, id⟩, fun _ h => ⟨h, id⟩⟩
  · have hij : j ≠ i := hj.resolve_right (by simp [Phase.pastSend])
    exact ⟨fun _ h => ⟨h, id⟩, fun _ h => ⟨lookup_insert_other hij h, id⟩⟩
  · exact ⟨fun _ h => ⟨h, id⟩, fun _ h => ⟨h, id⟩⟩
  · exact ⟨fun sid h => ⟨Keeps.erase _ _ sid j h, id⟩, fun _ h => ⟨h, id⟩⟩
  · exact ⟨fun _ h => ⟨h, id⟩, fun sid h => ⟨Keeps.erase _ _ sid j h, id⟩⟩
  · exact (Fades.settle (Fades.refl { t with streams := t.streams - 1 }) i x.next).sinks j
  · exact hq.fades.sinks j

/-- What is swept stays swept. -/
theorem Sinks.swept {t t' : Tunnel} {j : ℕ} (hs : Sinks j t t') {sid : StreamId}
    (h : (t.pendingCleared = true → t.pending.lookup sid ≠ some j) ∧
      (t.registryCleared = true → t.registry.lookup sid ≠ some j)) :
    (t'.pendingCleared = true → t'.pending.lookup sid ≠ some j) ∧
      (t'.registryCleared = true → t'.registry.lookup sid ≠ some j) := by
  constructor
  · intro hdone hj
    obtain ⟨hold, hcleared⟩ := hs.1 sid hj
    exact h.1 (hcleared hdone) hold
  · intro hdone hj
    obtain ⟨hold, hcleared⟩ := hs.2 sid hj
    exact h.2 (hcleared hdone) hold

/-- A call gets past its `OPEN` in the step that queues it. -/
theorem callStep_pastSend {t : Tunnel} {e : CallStep} {r : Tunnel × Call}
    (h : callStep i t c e = some r) (hsent : r.2.phase.pastSend = true) :
    r.2.sid = c.sid ∧ (c.phase.pastSend = true ∨ (e = .send ∧ t.out.receiver = true)) := by
  rcases callStep_cases h with ⟨_, _, rfl⟩ | ⟨_, rfl⟩ | ⟨_, rfl⟩ | ⟨_, rfl⟩ | ⟨x, hp, rfl⟩ |
    ⟨x, hp, rfl⟩ | ⟨x, _, rfl⟩ | hq
  · cases hsent
  · cases hsent
  · cases hsent
  · cases hsent
  · exact ⟨rfl, .inl (by rw [hp]; exact hsent)⟩
  · exact ⟨rfl, .inl (by rw [hp]; exact hsent)⟩
  · cases x with
    | dropped graceful => cases graceful <;> cases hsent
    | _ => cases hsent
  · exact ⟨hq.sid, hq.sent hsent⟩

theorem Swept.step (h : Swept s) (hok : InTime s a) (hs : step s a = some s') : Swept s' := by
  obtain ⟨x, r, _, hr, rfl⟩ | ⟨i, e, c, r, rfl, hc, hr, rfl⟩ := step_cases hs
  · intro j d hd hsent
    obtain ⟨hf, hnew⟩ := act_cases hr
    rcases getElem?_append_cases hd with hold | hmem
    · exact (hf.sinks j).swept (h j d hold hsent)
    · rw [hnew d hmem] at hsent
      cases hsent
  · intro j d hd hsent
    rcases getElem?_set_cases hd with ⟨rfl, rfl⟩ | ⟨hji, hold⟩
    · obtain ⟨hsid, hpast | ⟨rfl, hrecv⟩⟩ := callStep_pastSend hr hsent
      · rw [hsid]
        exact (callStep_sinks hr (.inr hsent)).swept (h j c hc hpast)
      · have hj : j < s.tasks.length := (List.getElem?_eq_some_iff.1 hc).1
        rw [hsid]
        exact (callStep_sinks hr (.inr hsent)).swept (hok j hj rfl c hc hrecv)
    · exact (callStep_sinks hr (.inl hji)).swept (h j d hold hsent)

/-- **The death of the tunnel fails every waiter**: once `mark_dead` has returned, the maps hold no
entry of a call whose `OPEN` was accepted, in every run in which such a call registered in time. -/
theorem death_fails_waiters (pool : Bool) {s : State} (h : Reach Tunnel.step InTime (init pool) s)
    (hdead : s.shared.dead = true) {i : ℕ} {c : Call} (hc : s.tasks[i]? = some c)
    (hsent : c.phase.pastSend = true) (sid : StreamId) :
    s.shared.pending.lookup sid ≠ some i ∧ s.shared.registry.lookup sid ≠ some i := by
  have hswept : Swept s :=
    Reach.invariant (by intro i c hi; cases hi) (fun hinv hok hs => hinv.step hok hs) h
  have hreg := Registered.reach h
  obtain ⟨⟨_, hpend⟩, hlist⟩ : (s.shared.alive = false ∧ s.shared.pendingCleared = true) ∧
      s.shared.registryCleared = true := by simpa [dead] using hdead
  constructor
  · intro hi
    obtain ⟨d, hd, rfl, _⟩ := hreg.pending sid i hi
    obtain rfl : c = d := Option.some.inj (hc.symm.trans hd)
    exact (hswept i c hc hsent).1 hpend hi
  · intro hi
    obtain ⟨d, hd, rfl, _⟩ := hreg.registry sid i hi
    obtain rfl : c = d := Option.some.inj (hc.symm.trans hd)
    exact (hswept i c hc hsent).2 hlist hi

/-- The reader leaves its loop, aborts the writer and marks the tunnel dead. -/
def readerExit : List (Act Step CallStep) :=
  [.main .breakLoop, .main .abortWriter, .main .readerMark, .main .readerMark, .main .readerMark]

/-- A call that waits for its reply when the reader exits is failed by the death of the tunnel. -/
theorem death_fails_waiters_awaiting :
    ∃ s c, Reach Tunnel.step InTime (init true) s ∧ s.shared.dead = true ∧ s.tasks[0]? = some c ∧
      c.phase.pastSend = true ∧
      ∀ sid, s.shared.pending.lookup sid ≠ some 0 ∧ s.shared.registry.lookup sid ≠ some 0 := by
  obtain ⟨s, c, he, hdead, hc, hsent⟩ : ∃ s c, exec Tunnel.step InTime (init true)
      ([.main (.call [])] ++ openUp 0 ++ readerExit) = some s ∧ s.shared.dead = true ∧
      s.tasks[0]? = some c ∧ c.phase.pastSend = true := ⟨_, _, rfl, rfl, rfl, rfl⟩
  have h := Reach.refl.of_exec _ he
  exact ⟨s, c, h, hdead, hc, hsent, death_fails_waiters true h hdead hc hsent⟩

/-- A call that registers behind the clears, while the aborted writer still holds the receiver, is
past its `OPEN` and waits on a dead tunnel. -/
theorem death_misses_waiter :
    ∃ s c, Reach Tunnel.step always (init true) s ∧ s.shared.dead = true ∧ s.tasks[0]? = some c ∧
      c.phase.pastSend = true ∧ s.shared.pending.lookup c.sid = some 0 ∧
      s.shared.registry.lookup c.sid = some 0 := by
  obtain ⟨s, c, he, hrest⟩ : ∃ s c, exec Tunnel.step always (init true)
      ([.main (.call [])] ++ readerExit ++ openUp 0) = some s ∧ s.shared.dead = true ∧
      s.tasks[0]? = some c ∧ c.phase.pastSend = true ∧ s.shared.pending.lookup c.sid = some 0 ∧
      s.shared.registry.lookup c.sid = some 0 := ⟨_, _, rfl, rfl, rfl, rfl, rfl, rfl⟩
  exact ⟨s, c, Reach.refl.of_exec _ he, hrest⟩

/-! ### Fresh ids -/

/-- The counter of ids does not wrap in this step. -/
def NoWrap (s : State) (a : Act Step CallStep) : Prop :=
  ∀ i < s.tasks.length, a = .task i .alloc → s.shared.nextStream ≠ 0xFFFFFFFF

instance (s : State) (a : Act Step CallStep) : Decidable (NoWrap s a) :=
  inferInstanceAs (Decidable (∀ i < s.tasks.length, _ → _))

/-- A step of a call hands out an id or keeps the ones there are. -/
theorem callStep_ids {t : Tunnel} {e : CallStep} {r : Tunnel × Call}
    (h : callStep i t c e = some r) :
    (e = .alloc ∧ c.phase = .called ∧ r.1.nextStream = t.nextStream + 1 ∧
        r.2.sid = t.nextStream + 1) ∨
      (r.1.nextStream = t.nextStream ∧ c.phase ≠ .called ∧ r.2.sid = c.sid) := by
  rcases callStep_cases h with ⟨hp, he, rfl⟩ | ⟨hp, rfl⟩ | ⟨hp, rfl⟩ | ⟨hp, rfl⟩ | ⟨x, hp, rfl⟩ |
    ⟨x, hp, rfl⟩ | ⟨x, hp, rfl⟩ | hq
  · exact .inl ⟨he, hp, rfl, rfl⟩
  · exact .inr ⟨rfl, by simp [hp], rfl⟩
  · exact .inr ⟨rfl, by simp [hp], rfl⟩
  · exact .inr ⟨rfl, by simp [hp], rfl⟩
  · exact .inr ⟨rfl, by simp [hp], rfl⟩
  · exact .inr ⟨rfl, by simp [hp], rfl⟩
  · have hset := Fades.settle (Fades.refl { t with streams := t.streams - 1 }) i x.next
    exact .inr ⟨hset.nextStream, by simp [hp], rfl⟩
  · refine .inr ⟨hq.fades.nextStream, ?_, hq.sid⟩
    intro hcalled
    rcases hq.moves with ⟨hopened, _⟩ | ⟨hunreg, _⟩
    · rw [hcalled] at hopened
      cases hopened
    · rw [hcalled] at hunreg
      cases hunreg

/-- Ids are handed out in order, each to one call. -/
structure Numbered (s : State) : Prop where
  le : ∀ {i : ℕ} {c : Call}, s.tasks[i]? = some c → c.phase ≠ .called →
    0 < c.sid.toNat ∧ c.sid.toNat ≤ s.shared.nextStream.toNat
  inj : ∀ {i j : ℕ} {c d : Call}, s.tasks[i]? = some c → s.tasks[j]? = some d →
    c.phase ≠ .called → d.phase ≠ .called → c.sid = d.sid → i = j

/-- Without a wrap the next id is above the counter. -/
theorem allocStream_toNat {t : Tunnel} (h : t.nextStream ≠ 0xFFFFFFFF) :
    t.allocStream.toNat = t.nextStream.toNat + 1 := by
  have hlt := t.nextStream.toNat_lt
  have hne : t.nextStream.toNat ≠ 2 ^ 32 - 1 := fun heq => h (UInt32.toNat_inj.1 heq)
  rw [allocStream, UInt32.toNat_add, UInt32.toNat_one]
  exact Nat.mod_eq_of_lt (by omega)

theorem Numbered.main_step {x : Step} {r : Tunnel × List Call} (h : Numbered s)
    (hr : act s.shared x = some r) : Numbered ⟨r.1, s.tasks ++ r.2⟩ := by
  obtain ⟨hf, hnew⟩ := act_cases hr
  have hold : ∀ {i : ℕ} {c : Call}, (s.tasks ++ r.2)[i]? = some c → c.phase ≠ .called →
      s.tasks[i]? = some c := by
    intro i c hc hp
    exact (getElem?_append_cases hc).resolve_right fun hmem => hp (hnew c hmem)
  constructor
  · intro i c hc hp
    rw [hf.nextStream]
    exact h.le (hold hc hp) hp
  · intro i j c d hc hd hp hq hsid
    exact h.inj (hold hc hp) (hold hd hq) hp hq hsid

theorem Numbered.task_step {e : CallStep} {r : Tunnel × Call} (h : Numbered s)
    (hok : NoWrap s (.task i e)) (hc : s.tasks[i]? = some c)
    (hr : callStep i s.shared c e = some r) : Numbered ⟨r.1, s.tasks.set i r.2⟩ := by
  rcases callStep_ids hr with ⟨rfl, hp, hnext, hsid⟩ | ⟨hnext, hp, hsid⟩
  · have hsucc := allocStream_toNat (hok i (List.getElem?_eq_some_iff.1 hc).1 rfl)
    rw [allocStream] at hsucc
    constructor
    · intro j d hd hq
      dsimp only
      rcases getElem?_set_cases hd with ⟨rfl, rfl⟩ | ⟨_, hd⟩
      · rw [hsid, hnext, hsucc]
        omega
      · obtain ⟨hpos, hle⟩ := h.le hd hq
        rw [hnext, hsucc]
        omega
    · -- the new id is above all the others
      have hfresh : ∀ {j : ℕ} {d : Call}, s.tasks[j]? = some d → d.phase ≠ .called →
          d.sid ≠ r.2.sid := by
        intro j d hd hq heq
        obtain ⟨_, hle⟩ := h.le hd hq
        rw [heq, hsid, hsucc] at hle
        omega
      intro j k d d' hd hd' hq hq' heq
      rcases getElem?_set_cases hd with ⟨rfl, rfl⟩ | ⟨_, hold⟩
      · rcases getElem?_set_cases hd' with ⟨rfl, rfl⟩ | ⟨_, hold'⟩
        · rfl
        · exact absurd heq.symm (hfresh hold' hq')
      · rcases getElem?_set_cases hd' with ⟨rfl, rfl⟩ | ⟨_, hold'⟩
        · exact absurd heq (hfresh hold hq)
        · exact h.inj hold hold' hq hq' heq
  · have hold : ∀ {j : ℕ} {d : Call}, (s.tasks.set i r.2)[j]? = some d → d.phase ≠ .called →
        ∃ d', s.tasks[j]? = some d' ∧ d'.phase ≠ .called ∧ d.sid = d'.sid := by
      intro j d hd hq
      rcases getElem?_set_cases hd with ⟨rfl, rfl⟩ | ⟨_, hd⟩
      · exact ⟨c, hc, hp, hsid⟩
      · exact ⟨d, hd, hq, rfl⟩
    constructor
    · intro j d hd hq
      obtain ⟨d', hd', hq', heq⟩ := hold hd hq
      rw [heq, hnext]
      exact h.le hd' hq'
    · intro j k d e hd he hq hq' heq
      obtain ⟨d', hd', hp₁, h₁⟩ := hold hd hq
      obtain ⟨e', he', hp₂, h₂⟩ := hold he hq'
      exact h.inj hd' he' hp₁ hp₂ (h₁.symm.trans (heq.trans h₂))

theorem Numbered.reach {pool : Bool} (h : Reach Tunnel.step NoWrap (init pool) s) : Numbered s := by
  refine Reach.invariant ⟨(fun hi => by cases hi), (fun hi => by cases hi)⟩ ?_ h
  intro s a s' hinv hok hs
  obtain ⟨x, r, _, hr, rfl⟩ | ⟨i, e, c, r, rfl, hc, hr, rfl⟩ := step_cases hs
  · exact hinv.main_step hr
  · exact hinv.task_step hok hc hr

/-- An id above the counter is in no map. -/
theorem Numbered.lookup_next (h : Numbered s) (howns : Owns p m s.tasks) (hp : p .called = false)
    {sid : StreamId} (hlt : s.shared.nextStream.toNat < sid.toNat) : m.lookup sid = none := by
  rw [Option.eq_none_iff_forall_ne_some]
  intro i hi
  obtain ⟨c, hc, rfl, hphase⟩ := howns sid i hi
  have hne : c.phase ≠ .called := by
    intro heq
    rw [heq, hp] at hphase
    cases hphase
  have hle := (h.le hc hne).2
  omega

/-- The id of a call whose phase has no entry is not in the map. -/
theorem Numbered.lookup_self (h : Numbered s) (howns : Owns p m s.tasks) (hp : p .called = false)
    (hc : s.tasks[i]? = some c) (hne : c.phase ≠ .called) (hphase : p c.phase = false) :
    m.lookup c.sid = none := by
  rw [Option.eq_none_iff_forall_ne_some]
  intro j hj
  obtain ⟨d, hd, hsid, hpd⟩ := howns c.sid j hj
  have hned : d.phase ≠ .called := by
    intro heq
    rw [heq, hp] at hpd
    cases hpd
  obtain rfl := h.inj hd hc hned hne hsid
  obtain rfl : c = d := Option.some.inj (hc.symm.trans hd)
  rw [hphase] at hpd
  cases hpd

/-- **Ids are fresh until the counter wraps.**  In a run without a wrap, the next id is not zero and in
neither map exactly as long as the counter is not at its end, and no insertion meets an entry. -/
theorem fresh_ids (pool : Bool) {s : State} (h : Reach Tunnel.step NoWrap (init pool) s) :
    ((s.shared.allocStream ≠ 0 ∧ s.shared.pending.lookup s.shared.allocStream = none ∧
        s.shared.registry.lookup s.shared.allocStream = none) ↔
      s.shared.nextStream ≠ 0xFFFFFFFF) ∧
    ∀ (i : ℕ) (c : Call), s.tasks[i]? = some c →
      (c.phase = .allocated → s.shared.pending.lookup c.sid = none) ∧
        (c.phase = .pended → s.shared.registry.lookup c.sid = none) := by
  have hnum := Numbered.reach h
  obtain ⟨hpend, hlist⟩ := Registered.reach h
  refine ⟨⟨?_, ?_⟩, ?_⟩
  · rintro ⟨hzero, _⟩ heq
    exact hzero (by rw [allocStream, heq]; rfl)
  · intro hmax
    have hsucc := allocStream_toNat hmax
    refine ⟨?_, hnum.lookup_next hpend rfl (by omega), hnum.lookup_next hlist rfl (by omega)⟩
    intro heq
    rw [heq] at hsucc
    simp at hsucc
  · intro i c hc
    constructor
    · intro hp
      exact hnum.lookup_self hpend rfl hc (by simp [hp]) (by rw [hp]; rfl)
    · intro hp
      exact hnum.lookup_self hlist rfl hc (by simp [hp]) (by rw [hp]; rfl)

/-- With a stream open, the second call is about to insert its entries. -/
theorem fresh_ids_second :
    ∃ s, Reach Tunnel.step NoWrap (init true) s ∧ s.shared.allocStream = 3 ∧
      ((s.shared.allocStream ≠ 0 ∧ s.shared.pending.lookup s.shared.allocStream = none ∧
          s.shared.registry.lookup s.shared.allocStream = none) ↔
        s.shared.nextStream ≠ 0xFFFFFFFF) ∧
      ∀ (i : ℕ) (c : Call), s.tasks[i]? = some c →
        (c.phase = .allocated → s.shared.pending.lookup c.sid = none) ∧
          (c.phase = .pended → s.shared.registry.lookup c.sid = none) := by
  obtain ⟨s, he, hid⟩ : ∃ s, exec Tunnel.step NoWrap (init true)
      ([.main (.call []), .main (.call [])] ++ openUp 0 ++ replyTo 0 1 replyOk
        ++ [.task 1 .alloc]) = some s ∧ s.shared.allocStream = 3 := ⟨_, rfl, rfl⟩
  have h := Reach.refl.of_exec _ he
  exact ⟨s, h, hid, fresh_ids true h⟩

/-- A pooled tunnel whose reader waits for a frame and whose writer has nothing to write. -/
def resting (nextStream streams : UInt32) (pending registry : Table) (replies : ℕ → Option Bool)
    (events : ℕ → Channel StreamEvent) : Tunnel :=
  { spawn true with
    nextStream := nextStream
    streams := streams
    pending := pending
    registry := registry
    replies := replies
    events := events }

/-- A call that the server refuses takes an id and leaves the entries of the others. -/
theorem refused_call {n k : UInt32} {p r : Table} {rep : ℕ → Option Bool}
    {ev : ℕ → Channel StreamEvent} {calls : List Call}
    (h : Reach Tunnel.step always (init true) ⟨resting n k p r rep ev, calls⟩) :
    ∃ k' p' r' rep' ev' c, Reach Tunnel.step always (init true)
        ⟨resting (n + 1) k' p' r' rep' ev', calls ++ [c]⟩ ∧
      ∀ sid, sid ≠ n + 1 → r'.lookup sid = r.lookup sid := by
  have h₁ := reach_spawn (a := .call []) h rfl
  have h₂ := reach_last (b := .alloc) h₁ rfl
  have h₃ := reach_last (b := .insertPending) h₂ rfl
  have h₄ := reach_last (b := .insertRegistry) h₃ rfl
  have h₅ := reach_last (b := .addStream) h₄ rfl
  have h₆ := reach_last (b := .send) h₅ rfl
  have h₇ := reach_main (a := .write) h₆ rfl
  -- the refusal takes the waiter out of the map
  have hrecv : act (resting (n + 1) (k + 1) (p.insert (n + 1) calls.length)
        (r.insert (n + 1) calls.length) rep ev) (.recv ⟨.reply, n + 1, [replyRefused]⟩)
      = some ({ resting (n + 1) (k + 1) ((p.insert (n + 1) calls.length).erase (n + 1))
        (r.insert (n + 1) calls.length) rep ev with reader := .replying calls.length false }, []) := by
    simp only [act, demux, resting, spawn, AList.lookup_insert]
    rfl
  have h₈ := reach_main h₇ hrecv
  have h₉ := reach_main (a := .readerSend) h₈ rfl
  have hreplied : callStep calls.length (resting (n + 1) (k + 1)
        ((p.insert (n + 1) calls.length).erase (n + 1)) (r.insert (n + 1) calls.length)
        (Function.update rep calls.length (some false)) ev) ⟨n + 1, [], .awaiting, true⟩ .replied
      = some (resting (n + 1) (k + 1) ((p.insert (n + 1) calls.length).erase (n + 1))
        (r.insert (n + 1) calls.length) (Function.update rep calls.length (some false)) ev,
        ⟨n + 1, [], .unregPending .refused, true⟩) := by
    simp only [callStep, resting, Function.update_self]
    rfl
  have h₁₀ := reach_last h₉ hreplied
  have h₁₁ := reach_last (b := .unregister) h₁₀ rfl
  have h₁₂ := reach_last (b := .unregister) h₁₁ rfl
  have h₁₃ := reach_last (b := .unregister) h₁₂ rfl
  refine ⟨k + 1 - 1, ((p.insert (n + 1) calls.length).erase (n + 1)).erase (n + 1),
    (r.insert (n + 1) calls.length).erase (n + 1), Function.update rep calls.length (some false),
    Function.update ev calls.length (ev calls.length).close, ⟨n + 1, [], .failed, true⟩, h₁₃, ?_⟩
  intro sid hsid
  rw [AList.lookup_erase_ne hsid, AList.lookup_insert_ne hsid]

/-- After any number of refused calls the first stream is still there, until its id comes up again. -/
theorem first_stream_open (n : ℕ) (hn : n < 2 ^ 32) :
    ∃ k p r rep ev calls, Reach Tunnel.step always (init true)
        ⟨resting (UInt32.ofNat (n + 1)) k p r rep ev, calls⟩ ∧
      r.lookup 1 = some 0 ∧ ∃ c, calls[0]? = some c ∧ c.phase = .handle ∧ c.sid = 1 := by
  induction n with
  | zero =>
      have he : exec Tunnel.step always (init true)
          ([.main (.call [])] ++ openUp 0 ++ [.main .write] ++ replyTo 0 1 replyOk)
          = some ⟨resting 1 1 ((AList.insert 1 0 ∅ : Table).erase 1) (AList.insert 1 0 ∅)
            (Function.update (fun _ => none) 0 (some true)) (fun _ => Channel.new),
            [⟨1, [], .handle, true⟩]⟩ := rfl
      exact ⟨_, _, _, _, _, _, Reach.refl.of_exec _ he, rfl, _, rfl, rfl, rfl⟩
  | succ n ih =>
      obtain ⟨k, p, r, rep, ev, calls, h, hlookup, c, hc, hphase⟩ := ih (by omega)
      obtain ⟨k', p', r', rep', ev', c', h', hkeep⟩ := refused_call h
      have hne : (1 : StreamId) ≠ UInt32.ofNat (n + 1) + 1 := by
        intro heq
        have hzero : (UInt32.ofNat (n + 1)).toNat = 0 := by
          rw [left_eq_add.1 (heq.trans (add_comm _ _))]
          rfl
        rw [UInt32.toNat_ofNat_of_lt' hn] at hzero
        omega
      refine ⟨k', p', r', rep', ev', calls ++ [c'], ?_, (hkeep 1 hne).trans hlookup, c, ?_, hphase⟩
      · rw [UInt32.ofNat_add]
        exact h'
      · rw [List.getElem?_append_left (List.getElem?_eq_some_iff.1 hc).1]
        exact hc

/-- After `2 ^ 32 - 1` calls the next id is zero, and after one more it is the id of the first stream,
which is still open. -/
theorem ids_wrap :
    (∃ s, Reach Tunnel.step always (init true) s ∧ s.shared.allocStream = 0) ∧
      ∃ s c, Reach Tunnel.step always (init true) s ∧ s.tasks[0]? = some c ∧ c.phase = .handle ∧
        c.sid = s.shared.allocStream ∧ s.shared.registry.lookup s.shared.allocStream = some 0 := by
  constructor
  · obtain ⟨k, p, r, rep, ev, calls, h, _⟩ := first_stream_open (2 ^ 32 - 2) (by norm_num)
    have hid : UInt32.ofNat (2 ^ 32 - 2 + 1) + 1 = 0 := by decide
    exact ⟨_, h, hid⟩
  · obtain ⟨k, p, r, rep, ev, calls, h, hlookup, c, hc, hphase, hsid⟩ :=
      first_stream_open (2 ^ 32 - 1) (by norm_num)
    have hid : UInt32.ofNat (2 ^ 32 - 1 + 1) + 1 = 1 := by decide
    refine ⟨_, c, h, hc, hphase, hsid.trans hid.symm, ?_⟩
    change r.lookup (UInt32.ofNat (2 ^ 32 - 1 + 1) + 1) = some 0
    rw [hid]
    exact hlookup

end Tunnel

end Nextppp

/-
**Notices of death to the maintainer.**

Between its rounds the maintainer sleeps: for a short while after it has spawned dials, and for half a
minute when nothing was missing.  What wakes it earlier is `died`, which every tunnel notifies when it
is marked dead.  The notice is a permit that is kept until the maintainer takes it, so a death that
falls between the count and the sleep is not lost.

A dial that ends is not noticed.  If it fails, or if its tunnel was counted in the pool while its guard
was still counted too, the maintainer sleeps on although a tunnel is missing.

Main definitions:

* `Nextppp.Pool.Watch`, `Nextppp.Pool.watch` — the pool with its notices, over the steps of the pool;
* `Nextppp.Pool.Watch.Noticed` — a tunnel that is alive in the pool or whose death is not forgotten;
* `Nextppp.Pool.Lands` — no dial ends silently while the maintainer sleeps for long.

Main results:

* `Nextppp.Pool.watch_pool` — the steps with notices are steps of the pool;
* `Nextppp.Pool.no_death_lost` — a maintainer that sleeps for long with no notice left misses no
  tunnel that is not being dialed.
-/

import Nextppp.Client.Pool

set_option relaxedAutoImplicit false
set_option autoImplicit false

namespace Nextppp

namespace Pool

open Tasks Run

/-! ### The notices -/

/-- The pool with the permit of `died` and what the maintainer found in its round. -/
structure Watch where
  pool : State
  /-- `died` holds a permit -/
  died : Bool
  /-- the tunnels that are marked dead and have not notified `died` yet -/
  dying : List ℕ
  /-- the tunnels that the last count found alive -/
  live : List ℕ
  /-- nothing was short in the last round -/
  idle : Bool
  deriving DecidableEq

/-- The arms of the maintainer's `select!`. -/
inductive Arm
  | added
  | died
  | sleep
  deriving DecidableEq, Repr

/-- What happens to the pool. -/
inductive Event
  /-- a step of the maintainer or of a dial in which no tunnel dies and nobody is woken -/
  | act (a : Act PoolStep DialStep)
  /-- the maintainer's wait ends by this arm -/
  | select (arm : Arm)
  /-- `mark_dead` takes the flag `alive` of the tunnel -/
  | swap (id : ℕ)
  /-- `mark_dead` is through and notifies `died` -/
  | notify (id : ℕ)
  /-- a stream that finds no live tunnel notifies `died` -/
  | kick
  deriving DecidableEq

/-- Neither a death nor the end of a wait. -/
def plain : Act PoolStep DialStep → Bool
  | .main .wake | .main (.died _) | .task _ .dies => false
  | _ => true

/-- The tunnel is in the pool and serves streams. -/
def Watch.Alive (w : Watch) (id : ℕ) : Prop := ∃ t ∈ w.pool.shared.tunnels, t.id = id ∧ t.alive = true

instance (w : Watch) (id : ℕ) : Decidable (w.Alive id) :=
  inferInstanceAs (Decidable (∃ t ∈ _, _))

/-- A step of the pool with its notices. -/
def watch (poolSize : UInt32) (w : Watch) : Event → Option Watch
  | .act (.main .loadDialing) =>
      (step poolSize w.pool (.main .loadDialing)).map fun p =>
        { w with pool := p, live := w.pool.shared.pc.seen, idle := p.shared.pc.short = 0 }
  | .act a => if plain a then (step poolSize w.pool a).map fun p => { w with pool := p } else none
  | .select .added =>
      -- the wait of an idle maintainer has no such arm
      if w.idle then none
      else (step poolSize w.pool (.main .wake)).map fun p => { w with pool := p }
  | .select .died =>
      if w.died then
        (step poolSize w.pool (.main .wake)).map fun p => { w with pool := p, died := false }
      else none
  | .select .sleep => (step poolSize w.pool (.main .wake)).map fun p => { w with pool := p }
  | .swap id =>
      if w.Alive id then
        (step poolSize w.pool (.main (.died id))).map fun p =>
          { w with pool := p, dying := id :: w.dying }
      else if w.pool.tasks[id]? = some (.dialed true) then
        (step poolSize w.pool (.task id .dies)).map fun p =>
          { w with pool := p, dying := id :: w.dying }
      else none
  | .notify id =>
      if id ∈ w.dying then some { w with dying := w.dying.erase id, died := true } else none
  | .kick => some { w with died := true }

/-- A new pool. -/
def unwatched (poolSize : UInt32) : Watch := ⟨init poolSize, false, [], [], false⟩

/-- The maintainer found nothing missing and sleeps until it is notified or the sweep is due. -/
def Watch.Idle (w : Watch) : Prop := w.pool.shared.pc = .refill 0 ∧ w.idle = true

instance (w : Watch) : Decidable w.Idle := inferInstanceAs (Decidable (_ ∧ _))

/-- The tunnel is alive in the pool, or its death is being notified or was. -/
def Watch.Noticed (w : Watch) (id : ℕ) : Prop := w.Alive id ∨ id ∈ w.dying ∨ w.died = true

instance (w : Watch) (id : ℕ) : Decidable (w.Noticed id) := inferInstanceAs (Decidable (_ ∨ _))

/-- The dial whose guard is dropped. -/
def Event.dropped : Event → Option ℕ
  | .act (.task i .dropGuard) => some i
  | _ => none

/-- A dial that drops its guard while the maintainer sleeps for long has pushed a tunnel that the
maintainer had not counted yet, and this tunnel is noticed. -/
def Lands (w : Watch) (e : Event) : Prop :=
  ∀ i ∈ e.dropped, w.Idle → w.pool.tasks[i]? = some .pushed ∧ i ∉ w.live ∧ w.Noticed i

instance (w : Watch) (e : Event) : Decidable (Lands w e) :=
  inferInstanceAs (Decidable (∀ i ∈ e.dropped, _))

variable {poolSize : UInt32} {w w' : Watch} {e : Event}

/-! ### The steps of the pool below -/

/-- **What a step with notices does.** -/
theorem watch_cases (h : watch poolSize w e = some w') :
    (∃ p, e = .act (.main .loadDialing) ∧ step poolSize w.pool (.main .loadDialing) = some p ∧
        w' = { w with pool := p, live := w.pool.shared.pc.seen, idle := p.shared.pc.short = 0 }) ∨
      (∃ a p, e = .act a ∧ plain a = true ∧ a ≠ .main .loadDialing ∧ step poolSize w.pool a = some p ∧
        w' = { w with pool := p }) ∨
      (∃ arm p died, e = .select arm ∧ step poolSize w.pool (.main .wake) = some p ∧
        w' = { w with pool := p, died := died } ∧ (arm ≠ .died → died = w.died)) ∨
      (∃ id a p, e = .swap id ∧ (a = .main (.died id) ∨ a = .task id .dies) ∧
        step poolSize w.pool a = some p ∧ w' = { w with pool := p, dying := id :: w.dying }) ∨
      ∃ dying, e ≠ .select .died ∧ (∀ a, e ≠ .act a) ∧ w' = { w with dying := dying, died := true } := by
  unfold watch at h
  split at h
  case h_1 =>
      obtain ⟨p, hp, rfl⟩ := Option.map_eq_some_iff.1 h
      exact .inl ⟨p, rfl, hp, rfl⟩
  case h_2 a hne =>
      split at h
      · rename_i hplain
        obtain ⟨p, hp, rfl⟩ := Option.map_eq_some_iff.1 h
        exact .inr (.inl ⟨a, p, rfl, hplain, hne, hp, rfl⟩)
      · cases h
  case h_3 =>
      split at h
      · cases h
      · obtain ⟨p, hp, rfl⟩ := Option.map_eq_some_iff.1 h
        exact .inr (.inr (.inl ⟨_, p, _, rfl, hp, rfl, fun _ => rfl⟩))
  case h_4 =>
      split at h
      · obtain ⟨p, hp, rfl⟩ := Option.map_eq_some_iff.1 h
        exact .inr (.inr (.inl ⟨_, p, _, rfl, hp, rfl, fun hne => absurd rfl hne⟩))
      · cases h
  case h_5 =>
      obtain ⟨p, hp, rfl⟩ := Option.map_eq_some_iff.1 h
      exact .inr (.inr (.inl ⟨_, p, _, rfl, hp, rfl, fun _ => rfl⟩))
  case h_6 id =>
      split at h
      · obtain ⟨p, hp, rfl⟩ := Option.map_eq_some_iff.1 h
        exact .inr (.inr (.inr (.inl ⟨id, _, p, rfl, .inl rfl, hp, rfl⟩)))
      · split at h
        · obtain ⟨p, hp, rfl⟩ := Option.map_eq_some_iff.1 h
          exact .inr (.inr (.inr (.inl ⟨id, _, p, rfl, .inr rfl, hp, rfl⟩)))
        · cases h
  case h_7 id =>
      split at h
      · obtain rfl := Option.some.inj h
        exact .inr (.inr (.inr (.inr ⟨_, by simp, by simp, rfl⟩)))
      · cases h
  case h_8 =>
      obtain rfl := Option.some.inj h
      exact .inr (.inr (.inr (.inr ⟨w.dying, by simp, by simp, rfl⟩)))

/-- A step either leaves the pool alone or is a step of the pool. -/
theorem watch_pool (h : watch poolSize w e = some w') :
    w'.pool = w.pool ∨ ∃ a, step poolSize w.pool a = some w'.pool := by
  obtain ⟨p, -, hp, rfl⟩ | ⟨a, p, -, -, -, hp, rfl⟩ | ⟨arm, p, died, -, hp, rfl, -⟩ |
    ⟨id, a, p, -, -, hp, rfl⟩ | ⟨dying, -, -, rfl⟩ := watch_cases h
  · exact .inr ⟨_, hp⟩
  · exact .inr ⟨_, hp⟩
  · exact .inr ⟨_, hp⟩
  · exact .inr ⟨_, hp⟩
  · exact .inl rfl

theorem watch_reach {ok : Watch → Event → Prop}
    (h : Reach (watch poolSize) ok (unwatched poolSize) w) :
    Reach (step poolSize) always (init poolSize) w.pool := by
  induction h with
  | refl => exact .refl
  | step e _ _ hs ih =>
      obtain heq | ⟨a, ha⟩ := watch_pool hs
      · rwa [heq]
      · exact ih.step a trivial ha

/-- Every tunnel was pushed by the dial of its number, and the dials are counted. -/
structure Owned (s : State) : Prop where
  gauge : s.shared.dialing = count32 (guards s)
  ids : (s.shared.tunnels.map Tunnel.id).Nodup
  owner : ∀ n ∈ s.shared.tunnels.map Tunnel.id, s.tasks[n]? = some .pushed ∨ s.tasks[n]? = some .ended

/-- A dial that has pushed its tunnel does nothing but end. -/
theorem dialTask_pushed {i : ℕ} {st : PoolInner} {e : DialStep} {r : PoolInner × Dial} {d : Dial}
    (h : dialTask i st d e = some r) (hd : d = .pushed ∨ d = .ended) :
    r.2 = .ended ∧ d = .pushed ∧ e = .dropGuard ∧ r.1.tunnels = st.tunnels := by
  unfold dialTask at h
  split at h
  all_goals first
    | (obtain rfl := Option.some.inj h; simp_all)
    | cases h

/-- A dial that is over stays so. -/
theorem step_over {s s' : State} {a : Act PoolStep DialStep} (h : step poolSize s a = some s') {n : ℕ}
    (hn : s.tasks[n]? = some .pushed ∨ s.tasks[n]? = some .ended) :
    s'.tasks[n]? = some .ended ∨ s'.tasks[n]? = s.tasks[n]? := by
  obtain ⟨x, r, rfl, -, rfl⟩ | ⟨i, b, d, r, rfl, hd, hr, rfl⟩ := step_cases h
  · have hlt : n < s.tasks.length := by
      rcases hn with hn | hn <;> exact (List.getElem?_eq_some_iff.1 hn).1
    exact .inr (List.getElem?_append_left hlt)
  · by_cases hin : i = n
    · subst hin
      have hover : d = .pushed ∨ d = .ended := by simpa [hd] using hn
      refine .inl ?_
      simp [(List.getElem?_eq_some_iff.1 hd).1, (dialTask_pushed hr hover).1]
    · exact .inr (List.getElem?_set_ne hin)

theorem Owned.step {s s' : State} {a : Act PoolStep DialStep} (h : Owned s)
    (hs : step poolSize s a = some s') : Owned s' := by
  have hover : ∀ n ∈ s.shared.tunnels.map Tunnel.id,
      s'.tasks[n]? = some .pushed ∨ s'.tasks[n]? = some .ended := by
    intro n hn
    rcases step_over hs (h.owner n hn) with heq | heq
    · exact .inr heq
    · rw [heq]
      exact h.owner n hn
  have hg := gauge_exact hs h.gauge
  obtain ⟨x, r, rfl, hr, rfl⟩ | ⟨i, b, d, r, rfl, hd, hr, rfl⟩ := step_cases hs
  · have hthin : Thins r.1.tunnels s.shared.tunnels := by
      obtain ⟨hthin, -⟩ | ⟨seen, -, -, rfl⟩ | ⟨n, -, rfl⟩ := maintain_cases hr
      · exact hthin
      · exact Thins.refl _
      · exact Thins.refl _
    exact ⟨hg, h.ids.sublist hthin.1, fun n hn => hover n (hthin.1.subset hn)⟩
  · obtain ⟨hst, -⟩ | ⟨alive, rfl, rfl⟩ | ⟨-, rfl⟩ := dialTask_cases hr
    · exact ⟨hg, hst ▸ h.ids, fun n hn => hover n (hst ▸ hn)⟩
    · have hfresh : i ∉ s.shared.tunnels.map Tunnel.id := by
        intro hn
        rcases h.owner i hn with heq | heq <;> (rw [hd] at heq; cases heq)
      refine ⟨hg, ?_, ?_⟩
      · simp only [List.map_append, List.map_cons, List.map_nil]
        exact h.ids.append (List.nodup_singleton i) (by simpa using hfresh)
      · intro n hn
        simp only [List.map_append, List.map_cons, List.map_nil, List.mem_append,
          List.mem_singleton] at hn
        rcases hn with hn | rfl
        · exact hover n hn
        · exact .inl (by simp [(List.getElem?_eq_some_iff.1 hd).1])
    · exact ⟨hg, h.ids, hover⟩

theorem Owned.reach {s : State} (h : Reach (Pool.step poolSize) always (init poolSize) s) :
    Owned s :=
  Reach.invariant (I := Owned) ⟨rfl, by simp [init], by simp [init]⟩ (fun h _ hs => h.step hs) h

/-! ### Deaths are noticed -/

/-- A plain step of the maintainer takes no live tunnel out of the pool. -/
theorem maintain_alive {st : PoolInner} {a : PoolStep} {r : PoolInner × List Dial}
    (h : maintain poolSize st a = some r) (ha : ∀ id, a ≠ .died id) {t : Tunnel}
    (ht : t ∈ st.tunnels) (halive : t.alive = true) : t ∈ r.1.tunnels := by
  unfold maintain at h
  split at h
  case h_6 id => exact absurd rfl (ha id)
  case h_7 id =>
      split at h
      · cases h
      · rename_i hdead
        obtain rfl := Option.some.inj h
        refine List.mem_filter.2 ⟨ht, ?_⟩
        simp only [List.any_eq_true, decide_eq_true_eq, not_exists, not_and] at hdead
        simpa using fun hid => hdead t ht hid halive
  all_goals first
    | cases h; done
    | (obtain rfl := Option.some.inj h; first | exact ht | exact List.mem_filter.2 ⟨ht, halive⟩)

/-- A step in which nothing dies leaves the live tunnels in the pool. -/
theorem step_alive {s s' : State} {a : Act PoolStep DialStep} (h : step poolSize s a = some s')
    (ha : ∀ id, a ≠ .main (.died id)) {t : Tunnel} (ht : t ∈ s.shared.tunnels)
    (halive : t.alive = true) : t ∈ s'.shared.tunnels := by
  obtain ⟨x, r, rfl, hr, rfl⟩ | ⟨i, b, d, r, rfl, hd, hr, rfl⟩ := step_cases h
  · exact maintain_alive hr (fun id hx => ha id (by rw [hx])) ht halive
  · obtain ⟨hst, -⟩ | ⟨alive, rfl, rfl⟩ | ⟨-, rfl⟩ := dialTask_cases hr
    · rwa [hst]
    · exact List.mem_append_left _ ht
    · exact ht

/-- A tunnel may die wherever the maintainer is. -/
theorem maintain_died (poolSize : UInt32) (st : PoolInner) (id : ℕ) :
    maintain poolSize st (.died id) = some ({ st with
      tunnels := st.tunnels.map fun t => if t.id = id then { t with alive := false } else t }, []) := by
  obtain ⟨tunnels, dialing, pc⟩ := st
  cases pc with
  | refill n => cases n <;> rfl
  | _ => rfl

/-- A death changes no other tunnel. -/
theorem step_died {s s' : State} {n : ℕ} (h : step poolSize s (.main (.died n)) = some s') {t : Tunnel}
    (ht : t ∈ s.shared.tunnels) (hn : t.id ≠ n) : t ∈ s'.shared.tunnels := by
  obtain ⟨x, r, hx, hr, rfl⟩ | ⟨i, b, d, r, hx, -⟩ := step_cases h
  · cases hx
    obtain rfl := Option.some.inj ((maintain_died _ _ _).symm.trans hr)
    exact List.mem_map.2 ⟨t, ht, if_neg hn⟩
  · cases hx

/-- A tunnel that is noticed stays so until the maintainer takes the permit. -/
theorem Watch.Noticed.keep (h : watch poolSize w e = some w') (he : e ≠ .select .died) {id : ℕ}
    (hid : w.Noticed id) : w'.Noticed id := by
  have hlift : ∀ {a p}, step poolSize w.pool a = some p → (∀ n, a ≠ .main (.died n)) →
      w.Alive id → ∃ t ∈ p.shared.tunnels, t.id = id ∧ t.alive = true := by
    rintro a p hp ha ⟨t, ht, hid, halive⟩
    exact ⟨t, step_alive hp ha ht halive, hid, halive⟩
  obtain ⟨p, -, hp, rfl⟩ | ⟨a, p, -, hplain, -, hp, rfl⟩ | ⟨arm, p, died, rfl, hp, rfl, hdied⟩ |
    ⟨n, a, p, -, ha, hp, rfl⟩ | ⟨dying, -, -, rfl⟩ := watch_cases h
  · exact hid.imp_left (hlift hp (by simp))
  · refine hid.imp_left (hlift hp ?_)
    rintro n rfl
    simp [plain] at hplain
  · obtain rfl : died = w.died := hdied (fun harm => he (by rw [harm]))
    exact hid.imp_left (hlift hp (by simp))
  · by_cases hn : id = n
    · exact .inr (.inl (by simp [hn]))
    refine hid.imp ?_ (Or.imp_left fun hd => List.mem_cons_of_mem _ hd)
    rintro ⟨t, ht, rfl, halive⟩
    rcases ha with rfl | rfl
    · -- the mark falls on another tunnel
      exact ⟨t, step_died hp ht hn, rfl, halive⟩
    · exact ⟨t, step_alive hp (by simp) ht halive, rfl, halive⟩
  · exact .inr (.inr rfl)

/-! ### The sleep of the maintainer -/

/-- **Where a step leaves the maintainer.** -/
theorem step_pc {s s' : State} {a : Act PoolStep DialStep} (h : step poolSize s a = some s') :
    (s'.shared.pc = .recount ∨ s'.shared.pc = .upkeep) ∨
      (s'.shared.pc = .counted (s'.shared.tunnels.map Tunnel.id) ∧
        ∀ t ∈ s'.shared.tunnels, t.alive = true) ∨
      (∃ seen, a = .main .loadDialing ∧ s.shared.pc = .counted seen ∧ s'.tasks = s.tasks ∧
        s'.shared = { s.shared with pc := .refill (shortOf poolSize seen.length s.shared.dialing) }) ∨
      (∃ n, s.shared.pc = .refill (n + 1) ∧ s'.shared.pc = .refill n) ∨
      (a ≠ .main .wake ∧ s'.shared.pc = s.shared.pc) := by
  obtain ⟨x, r, rfl, hr, rfl⟩ | ⟨i, b, d, r, rfl, hd, hr, rfl⟩ := step_cases h
  · unfold maintain at hr
    split at hr
    case h_1 =>
        obtain rfl := Option.some.inj hr
        exact .inl (.inl rfl)
    case h_2 =>
        obtain rfl := Option.some.inj hr
        exact .inr (.inl ⟨rfl, fun t ht => (List.mem_filter.1 ht).2⟩)
    case h_3 seen hpc =>
        obtain rfl := Option.some.inj hr
        exact .inr (.inr (.inl ⟨seen, rfl, hpc, by simp, rfl⟩))
    case h_4 n hpc =>
        obtain rfl := Option.some.inj hr
        exact .inr (.inr (.inr (.inl ⟨n, hpc, rfl⟩)))
    case h_5 =>
        obtain rfl := Option.some.inj hr
        exact .inl (.inr rfl)
    case h_6 =>
        obtain rfl := Option.some.inj hr
        exact .inr (.inr (.inr (.inr ⟨by simp, rfl⟩)))
    case h_7 =>
        split at hr
        · cases hr
        · obtain rfl := Option.some.inj hr
          exact .inr (.inr (.inr (.inr ⟨by simp, rfl⟩)))
    case h_8 => cases hr
  · refine .inr (.inr (.inr (.inr ⟨by simp, ?_⟩)))
    obtain ⟨hst, -⟩ | ⟨alive, rfl, rfl⟩ | ⟨-, rfl⟩ := dialTask_cases hr
    · rw [hst]
    · rfl
    · rfl

/-- Only a dropped guard lowers the number of the dials that are counted. -/
theorem step_guards {s s' : State} {a : Act PoolStep DialStep} (h : step poolSize s a = some s') :
    guards s ≤ guards s' ∨
      ∃ i, i < s.tasks.length ∧ a = .task i .dropGuard ∧ guards s = guards s' + 1 ∧
        s'.tasks[i]? = some .ended := by
  obtain ⟨x, r, rfl, hr, rfl⟩ | ⟨i, b, d, r, rfl, hd, hr, rfl⟩ := step_cases h
  · exact .inl (by simp [guards])
  · have hcount := countP_set Dial.guarded r.2 hd
    have hi := (List.getElem?_eq_some_iff.1 hd).1
    unfold dialTask at hr
    split at hr
    case h_7 => cases hr
    all_goals
      obtain rfl := Option.some.inj hr
      simp only [Dial.guarded, Bool.toNat_true, Bool.toNat_false, guards] at hcount ⊢
    case h_5 => exact .inr ⟨i, hi, rfl, by omega, by simp [hi]⟩
    case h_6 => exact .inr ⟨i, hi, rfl, by omega, by simp [hi]⟩
    all_goals exact .inl (by omega)

/-- Where nothing is short, the count and the dials in flight reach the size of the pool. -/
theorem le_of_shortOf {poolSize : UInt32} {live n : ℕ}
    (h : shortOf poolSize live (UInt32.ofNat n) = 0) : poolSize.toNat ≤ live + n := by
  have hclamp : (clampU32 live).toNat ≤ live := by
    unfold clampU32
    split
    · rename_i hlt
      rw [UInt32.toNat_ofNat_of_lt' hlt]
    · exact Nat.le_of_lt (Nat.lt_of_lt_of_le (UInt32.toNat_lt _) (Nat.le_of_not_lt ‹_›))
  have hsum : (clampU32 live + UInt32.ofNat n).toNat ≤ live + n := by
    rw [UInt32.toNat_add]
    refine (Nat.mod_le _ _).trans (Nat.add_le_add hclamp ?_)
    rw [UInt32.toNat_ofNat']
    exact Nat.mod_le _ _
  rw [shortOf, saturatingSub] at h
  split at h
  · rename_i hle
    rw [UInt32.toNat_sub_of_le _ _ hle] at h
    have hle' := UInt32.le_iff_toNat_le.1 hle
    omega
  · rename_i hlt
    rw [UInt32.le_iff_toNat_le] at hlt
    omega

/-- Enough tunnels are noticed that none is missing beside the dials that are counted: tunnels of the
last count, and tunnels of dials that have ended since. -/
def Watch.Covered (poolSize : UInt32) (w : Watch) : Prop :=
  ∃ ids : List ℕ, ids.Nodup ∧
    (∀ i ∈ ids, w.Noticed i ∧ (i ∈ w.live ∨ w.pool.tasks[i]? = some .ended)) ∧
    poolSize.toNat ≤ ids.length + guards w.pool

/-- What the maintainer relies on while it counts and while it sleeps for long. -/
structure Rested (poolSize : UInt32) (w : Watch) : Prop where
  owned : Owned w.pool
  counted : ∀ seen, w.pool.shared.pc = .counted seen → seen.Nodup ∧ ∀ i ∈ seen, w.Noticed i
  flag : w.idle = true → w.pool.shared.pc.short = 0
  covered : w.Idle → w.Covered poolSize

/-- A maintainer that sleeps on stays covered. -/
theorem Watch.Covered.keep (h : watch poolSize w e = some w') (he : e ≠ .select .died)
    (hlive : w'.live = w.live) (hland : Lands w e) (hidle : w.Idle)
    (hc : w.Covered poolSize) : w'.Covered poolSize := by
  obtain ⟨ids, hnodup, hids, hle⟩ := hc
  have hkeep : ∀ i ∈ ids, w'.Noticed i ∧ (i ∈ w'.live ∨ w'.pool.tasks[i]? = some .ended) := by
    intro i hi
    obtain ⟨hn, hin⟩ := hids i hi
    refine ⟨hn.keep h he, ?_⟩
    rcases hin with hin | hin
    · exact .inl (hlive ▸ hin)
    · refine .inr ?_
      obtain heq | ⟨a, ha⟩ := watch_pool h
      · rwa [heq]
      · rcases step_over ha (.inr hin) with hend | heq
        · exact hend
        · rwa [heq]
  have hdrop : guards w.pool ≤ guards w'.pool ∨ ∃ i, i < w.pool.tasks.length ∧
      e = .act (.task i .dropGuard) ∧ guards w.pool = guards w'.pool + 1 ∧
      w'.pool.tasks[i]? = some .ended := by
    obtain ⟨p, -, hp, rfl⟩ | ⟨a, p, rfl, -, -, hp, rfl⟩ | ⟨arm, p, died, -, hp, rfl, -⟩ |
      ⟨id, a, p, -, ha, hp, rfl⟩ | ⟨dying, -, -, rfl⟩ := watch_cases h
    · exact .inl ((step_guards hp).resolve_right (by simp))
    · obtain hle | ⟨i, hi, rfl, hg, hend⟩ := step_guards hp
      · exact .inl hle
      · exact .inr ⟨i, hi, rfl, hg, hend⟩
    · exact .inl ((step_guards hp).resolve_right (by simp))
    · refine .inl ((step_guards hp).resolve_right ?_)
      rcases ha with rfl | rfl <;> simp
    · exact .inl le_rfl
  obtain hg | ⟨i, hi, rfl, hg, hend⟩ := hdrop
  · exact ⟨ids, hnodup, hkeep, hle.trans (Nat.add_le_add_left hg _)⟩
  · -- the dial takes the place of its guard with a tunnel that was not counted before
    obtain ⟨hpushed, hnew, hnoticed⟩ := hland i rfl hidle
    refine ⟨i :: ids, List.nodup_cons.2 ⟨?_, hnodup⟩, ?_, ?_⟩
    · intro hin
      rcases (hids i hin).2 with hlive | hended
      · exact hnew hlive
      · rw [hpushed] at hended
        cases hended
    · intro j hj
      rcases List.mem_cons.1 hj with rfl | hj
      · exact ⟨hnoticed.keep h he, .inr hend⟩
      · exact hkeep j hj
    · simp only [List.length_cons]
      omega

/-- **Where a step with notices leaves the maintainer.** -/
theorem watch_pc (h : watch poolSize w e = some w') :
    (∃ seen, e = .act (.main .loadDialing) ∧ w.pool.shared.pc = .counted seen ∧ w'.live = seen ∧
        w'.pool.tasks = w.pool.tasks ∧ (w'.idle = true → w'.pool.shared.pc.short = 0) ∧
        w'.pool.shared.pc = .refill (shortOf poolSize seen.length w.pool.shared.dialing)) ∨
      w'.live = w.live ∧ w'.idle = w.idle ∧
        ((w'.pool.shared.pc = .recount ∨ w'.pool.shared.pc = .upkeep) ∨
          (w'.pool.shared.pc = .counted (w'.pool.shared.tunnels.map Tunnel.id) ∧
            ∀ t ∈ w'.pool.shared.tunnels, t.alive = true) ∨
          (∃ n, w.pool.shared.pc = .refill (n + 1) ∧ w'.pool.shared.pc = .refill n) ∨
          (e ≠ .select .died ∧ w'.pool.shared.pc = w.pool.shared.pc)) := by
  obtain ⟨p, rfl, hp, rfl⟩ | ⟨a, p, rfl, -, ha, hp, rfl⟩ | ⟨arm, p, died, rfl, hp, rfl, -⟩ |
    ⟨id, a, p, rfl, ha, hp, rfl⟩ | ⟨dying, he, -, rfl⟩ := watch_cases h
  · refine .inl ?_
    obtain ⟨x, r, hx, hr, rfl⟩ | ⟨i, b, d, r, hx, -⟩ := step_cases hp
    · cases hx
      unfold maintain at hr
      split at hr
      all_goals try cases hr
      case h_3 seen hpc heq =>
          exact ⟨seen, rfl, hpc, by simp [hpc, MaintainPc.seen], by simp, by simp, rfl⟩
      all_goals contradiction
    · cases hx
  all_goals refine .inr ⟨rfl, rfl, ?_⟩
  · obtain hpc | hpc | ⟨seen, hload, -⟩ | hpc | ⟨-, hpc⟩ := step_pc hp
    · exact .inl hpc
    · exact .inr (.inl hpc)
    · exact absurd hload ha
    · exact .inr (.inr (.inl hpc))
    · exact .inr (.inr (.inr ⟨by simp, hpc⟩))
  · obtain hpc | hpc | ⟨seen, hload, -⟩ | hpc | ⟨hne, -⟩ := step_pc hp
    · exact .inl hpc
    · exact .inr (.inl hpc)
    · cases hload
    · exact .inr (.inr (.inl hpc))
    · exact absurd rfl hne
  · obtain hpc | hpc | ⟨seen, rfl, -⟩ | hpc | ⟨-, hpc⟩ := step_pc hp
    · exact .inl hpc
    · exact .inr (.inl hpc)
    · simp at ha
    · exact .inr (.inr (.inl hpc))
    · exact .inr (.inr (.inr ⟨by simp, hpc⟩))
  · exact .inr (.inr (.inr ⟨he, rfl⟩))

theorem Rested.step (hr : Rested poolSize w) (hland : Lands w e) (h : watch poolSize w e = some w') :
    Rested poolSize w' := by
  have howned : Owned w'.pool := by
    obtain heq | ⟨a, ha⟩ := watch_pool h
    · rw [heq]
      exact hr.owned
    · exact hr.owned.step ha
  obtain ⟨seen, rfl, hpc, hlive, htasks, hidle, hpc'⟩ | ⟨hlive, hidle, hcase⟩ := watch_pc h
  · refine ⟨howned, by simp [hpc'], hidle, fun hw => ?_⟩
    obtain ⟨hnodup, hseen⟩ := hr.counted seen hpc
    refine ⟨seen, hnodup, fun i hi => ⟨(hseen i hi).keep h (by simp), .inl (hlive ▸ hi)⟩, ?_⟩
    have hshort : shortOf poolSize seen.length w.pool.shared.dialing = 0 := by
      have h₀ := hw.1
      rw [hpc'] at h₀
      exact MaintainPc.refill.inj h₀
    rw [hr.owned.gauge] at hshort
    have hle := le_of_shortOf hshort
    simpa [guards, htasks] using hle
  · obtain (hpc' | hpc') | ⟨hpc', hall⟩ | ⟨n, hpc, hpc'⟩ | ⟨he, hpc'⟩ := hcase
    · exact ⟨howned, by simp [hpc'], by simp [hpc', MaintainPc.short], by simp [Watch.Idle, hpc']⟩
    · exact ⟨howned, by simp [hpc'], by simp [hpc', MaintainPc.short], by simp [Watch.Idle, hpc']⟩
    · refine ⟨howned, fun seen hseen => ?_, by simp [hpc', MaintainPc.short], by simp [Watch.Idle, hpc']⟩
      obtain rfl := MaintainPc.counted.inj (hpc'.symm.trans hseen)
      refine ⟨howned.ids, fun i hi => .inl ?_⟩
      obtain ⟨t, ht, rfl⟩ := List.mem_map.1 hi
      exact ⟨t, ht, rfl, hall t ht⟩
    · -- a maintainer that spawns dials found something missing
      have hbusy : w.idle = true → False := by
        intro hw
        have h₀ := hr.flag hw
        rw [hpc] at h₀
        cases h₀
      exact ⟨howned, by simp [hpc'], fun hw => (hbusy (hidle ▸ hw)).elim,
        fun hw => (hbusy (hidle ▸ hw.2)).elim⟩
    · refine ⟨howned, fun seen hseen => ?_, ?_, fun hw => ?_⟩
      · obtain ⟨hnodup, hseen⟩ := hr.counted seen (hpc' ▸ hseen)
        exact ⟨hnodup, fun i hi => (hseen i hi).keep h he⟩
      · rw [hidle, hpc']
        exact hr.flag
      · have hw' : w.Idle := ⟨hpc' ▸ hw.1, hidle ▸ hw.2⟩
        exact (hr.covered hw').keep h he hlive hland hw'

/-- The live tunnels of the pool are at least as many as these. -/
theorem le_live {ids : List ℕ} (hnodup : ids.Nodup) (h : ∀ i ∈ ids, w.Alive i) :
    ids.length ≤ live w.pool := by
  have hsub : ids ⊆ (w.pool.shared.tunnels.filter Tunnel.alive).map Tunnel.id := by
    intro i hi
    obtain ⟨t, ht, rfl, halive⟩ := h i hi
    exact List.mem_map_of_mem (List.mem_filter.2 ⟨ht, halive⟩)
  have hle := (List.subperm_of_subset hnodup hsub).length_le
  simpa [live, List.countP_eq_length_filter] using hle

/-- A round of the maintainer that ends with the reading of the counter of dials. -/
def countRound : List Event :=
  [.act (.main .prune), .act (.main .recount), .act (.main .loadDialing)]

/-- The `i`-th dial succeeds, pushes its tunnel and ends. -/
def landed (i : ℕ) : List Event :=
  [.act (.task i (.dial true)), .act (.task i .push), .act (.task i .dropGuard)]

/-- A dial that fails while the maintainer sleeps for long is not noticed: no tunnel is left, none is
being dialed, and the maintainer sleeps on. -/
theorem failed_dial_unnoticed :
    ∃ w, Reach (watch 1) always (unwatched 1) w ∧ w.Idle ∧ w.died = false ∧ w.dying = [] ∧
      live w.pool + guards w.pool = 0 := by
  have h : Reach (watch 1) always (unwatched 1)
      ⟨⟨⟨[], 0, .refill 0⟩, [.ended]⟩, false, [], [], true⟩ :=
    Reach.refl.of_exec
      [countRound, [.act (.main .spawnDial), .select .sleep], countRound,
        [.act (.task 0 (.dial false)), .act (.task 0 .dropGuard)]].flatten
      (by decide)
  exact ⟨_, h, ⟨rfl, rfl⟩, rfl, rfl, rfl⟩

/-- A tunnel that is counted in the pool while its dial still holds the guard is counted twice, and the
maintainer sleeps with one tunnel missing although no dial fails. -/
theorem tunnel_counted_twice :
    ∃ w, Reach (watch 2) always (unwatched 2) w ∧ w.Idle ∧ w.died = false ∧ w.dying = [] ∧
      live w.pool + guards w.pool = 1 := by
  have h : Reach (watch 2) always (unwatched 2)
      ⟨⟨⟨[⟨1, true⟩], 0, .refill 0⟩, [.ended, .ended]⟩, false, [], [1], true⟩ :=
    Reach.refl.of_exec
      [countRound, [.act (.main .spawnDial), .act (.main .spawnDial)], landed 0,
        [.swap 0, .notify 0, .act (.task 1 (.dial true)), .act (.task 1 .push), .select .died],
        countRound, [.act (.task 1 .dropGuard)]].flatten
      (by decide)
  exact ⟨_, h, ⟨rfl, rfl⟩, rfl, rfl, rfl⟩

end Pool

end Nextppp

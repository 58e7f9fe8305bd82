/-
**The tunnel pool and its maintainer.**

A maintainer keeps a pool of tunnels at a fixed size.  In each round it prunes the dead tunnels, counts
the rest under the lock, reads the counter of the dials in flight and spawns a dial for every tunnel
that is missing.  A dial pushes its tunnel under the lock and then drops the guard that counts it.

The number of tunnels and the number of dials are read at two moments.  A dial that pushes its tunnel
and drops its guard in between is seen by neither reading, and the round dials one tunnel too many.

Main definitions:

* `Nextppp.Pool.maintain`, `Nextppp.Pool.dialTask` — the steps of the maintainer and of a dial;
* `Nextppp.Pool.live`, `Nextppp.Pool.mayAdd` — the live tunnels and the dials that may still add one;
* `Nextppp.Pool.Counted` — at its reading of the counter, the maintainer misses no tunnel.

Main results:

* `Nextppp.Pool.pool_within` — while the maintainer misses no tunnel, live tunnels and dials that may
  add one stay within the size of the pool.
-/

import Nextppp.Lib.Tasks

set_option relaxedAutoImplicit false
set_option autoImplicit false

namespace Nextppp

namespace Pool

open Tasks Run

/-! ### The pool -/

/-- A pooled tunnel: the number of the dial that made it, and whether it still serves streams. -/
structure Tunnel where
  id : ℕ
  alive : Bool
  deriving DecidableEq, Repr

/-- Where the maintainer is. -/
inductive MaintainPc
  /-- a pool of size zero has no maintainer -/
  | off
  /-- at the top of a round -/
  | upkeep
  /-- the upkeep of the live tunnels is over -/
  | recount
  /-- the live tunnels are counted: these ones -/
  | counted (seen : List ℕ)
  /-- so many dials are left to spawn before the maintainer waits for the next round -/
  | refill (short : ℕ)
  deriving DecidableEq, Repr

/-- The dials that the maintainer is still going to spawn in this round. -/
def MaintainPc.short : MaintainPc → ℕ
  | .refill short => short
  | _ => 0

/-- The tunnels that the maintainer has counted in this round. -/
def MaintainPc.seen : MaintainPc → List ℕ
  | .counted seen => seen
  | _ => []

/-- `PoolInner`, and the maintainer's own state. -/
structure PoolInner where
  tunnels : List Tunnel
  dialing : UInt32
  pc : MaintainPc
  deriving DecidableEq, Repr

/-- Steps of the maintainer, the deaths of tunnels and the removal of a dead one by a stream that
failed to open on it. -/
inductive PoolStep
  | prune
  | recount
  | loadDialing
  | spawnDial
  | wake
  | died (id : ℕ)
  | remove (id : ℕ)
  deriving DecidableEq, Repr

/-- How far a dial has got. -/
inductive Dial
  | dialing
  /-- the tunnel is spawned and may die before it is pushed -/
  | dialed (alive : Bool)
  | failed
  | pushed
  /-- the `DialingGuard` is dropped -/
  | ended
  deriving DecidableEq, Repr

/-- Steps of a dial. -/
inductive DialStep
  | dial (ok : Bool)
  | dies
  | push
  | dropGuard
  deriving DecidableEq, Repr

/-- `u32::try_from(n).unwrap_or(u32::MAX)`. -/
def clampU32 (n : ℕ) : UInt32 := if n < 2 ^ 32 then UInt32.ofNat n else 0xFFFFFFFF

/-- `u32::saturating_sub`. -/
def saturatingSub (a b : UInt32) : UInt32 := if b ≤ a then a - b else 0

/-- The tunnels that are missing; the sum wraps, as in a release build. -/
def shortOf (poolSize : UInt32) (live : ℕ) (dialing : UInt32) : ℕ :=
  (saturatingSub poolSize (clampU32 live + dialing)).toNat

/-- A step of `maintain` or of the tunnels it looks after, with the dials it spawns.  Only the
maintainer reads the counter of dials, so raising it and spawning the dial are one step; what wakes
the maintainer is left open. -/
def maintain (poolSize : UInt32) (st : PoolInner) (a : PoolStep) :
    Option (PoolInner × List Dial) :=
  match st.pc, a with
  | .upkeep, .prune => some ({ st with tunnels := st.tunnels.filter Tunnel.alive, pc := .recount }, [])
  | .recount, .recount =>
      let tunnels := st.tunnels.filter Tunnel.alive
      some ({ st with tunnels := tunnels, pc := .counted (tunnels.map Tunnel.id) }, [])
  | .counted seen, .loadDialing =>
      some ({ st with pc := .refill (shortOf poolSize seen.length st.dialing) }, [])
  | .refill (short + 1), .spawnDial =>
      some ({ st with dialing := st.dialing + 1, pc := .refill short }, [.dialing])
  | .refill 0, .wake => some ({ st with pc := .upkeep }, [])
  | _, .died id =>
      some ({ st with
        tunnels := st.tunnels.map fun t => if t.id = id then { t with alive := false } else t }, [])
  | _, .remove id =>
      if st.tunnels.any fun t => t.id = id ∧ t.alive then none
      else some ({ st with tunnels := st.tunnels.filter fun t => t.id ≠ id }, [])
  | _, _ => none

/-- A step of a dial, the `i`-th that the maintainer spawned. -/
def dialTask (i : ℕ) (st : PoolInner) (d : Dial) (e : DialStep) : Option (PoolInner × Dial) :=
  match d, e with
  | .dialing, .dial true => some (st, .dialed true)
  | .dialing, .dial false => some (st, .failed)
  | .dialed _, .dies => some (st, .dialed false)
  | .dialed alive, .push => some ({ st with tunnels := st.tunnels ++ [⟨i, alive⟩] }, .pushed)
  | .failed, .dropGuard | .pushed, .dropGuard =>
      some ({ st with dialing := st.dialing - 1 }, .ended)
  | _, _ => none

/-- The pool and the dials that its maintainer spawned. -/
abbrev State := System PoolInner Dial

/-- A new pool. -/
def init (poolSize : UInt32) : State :=
  ⟨⟨[], 0, if poolSize = 0 then .off else .upkeep⟩, []⟩

/-- One step of the maintainer, a dial or a tunnel. -/
def step (poolSize : UInt32) : State → Act PoolStep DialStep → Option State :=
  Tasks.step (maintain poolSize) dialTask

/-! ### Counting tunnels and dials -/

/-- The dial is counted by its guard. -/
def Dial.guarded : Dial → Bool
  | .ended => false
  | _ => true

/-- The dial may still add a tunnel to the pool. -/
def Dial.mayAdd : Dial → Bool
  | .dialing | .dialed _ => true
  | _ => false

/-- The dial has pushed its tunnel and holds its guard. -/
def Dial.isPushed : Dial → Bool
  | .pushed => true
  | _ => false

/-- The live tunnels in the pool. -/
def live (s : State) : ℕ := s.shared.tunnels.countP Tunnel.alive

/-- The dials that may still add a tunnel. -/
def mayAdd (s : State) : ℕ := s.tasks.countP Dial.mayAdd

/-- The dials that are counted by a guard. -/
def guards (s : State) : ℕ := s.tasks.countP Dial.guarded

/-- The maintainer misses no tunnel when it reads the counter of dials: every live tunnel was counted
in the lock or comes from a dial that is still counted by its guard, and the sum of both counts fits
the machine word. -/
def Counted (s : State) (a : Act PoolStep DialStep) : Prop :=
  a = .main .loadDialing →
    (∀ t ∈ s.shared.tunnels, t.alive = true →
      t.id ∈ s.shared.pc.seen ∨ s.tasks[t.id]? = some .pushed) ∧
    s.shared.pc.seen.length + guards s < 2 ^ 32

instance (s : State) (a : Act PoolStep DialStep) : Decidable (Counted s a) :=
  inferInstanceAs (Decidable (_ → _))

/-- The tunnels are some of the old ones, and no more of them live. -/
def Thins (new old : List Tunnel) : Prop :=
  (new.map Tunnel.id).Sublist (old.map Tunnel.id) ∧ new.countP Tunnel.alive ≤ old.countP Tunnel.alive

theorem Thins.refl (l : List Tunnel) : Thins l l := ⟨List.Sublist.refl _, le_rfl⟩

theorem Thins.filter (l : List Tunnel) (p : Tunnel → Bool) : Thins (l.filter p) l :=
  ⟨List.filter_sublist.map _, List.filter_sublist.countP_le⟩

theorem Thins.died (l : List Tunnel) (id : ℕ) :
    Thins (l.map fun t => if t.id = id then { t with alive := false } else t) l := by
  constructor
  · rw [List.map_map]
    refine (List.map_congr_left ?_).symm ▸ List.Sublist.refl _
    intro t _
    simp only [Function.comp]
    split <;> rfl
  · rw [List.countP_map]
    refine List.countP_mono_left ?_
    intro t _ h
    simp only [Function.comp] at h
    split at h
    · cases h
    · exact h

/-- **What a step of the maintainer does.** -/
theorem maintain_cases {poolSize : UInt32} {st : PoolInner} {a : PoolStep}
    {r : PoolInner × List Dial} (h : maintain poolSize st a = some r) :
    (Thins r.1.tunnels st.tunnels ∧ r.1.dialing = st.dialing ∧ r.1.pc.short = st.pc.short ∧
        r.2 = []) ∨
      (∃ seen, a = .loadDialing ∧ st.pc = .counted seen ∧
        r = ({ st with pc := .refill (shortOf poolSize seen.length st.dialing) }, [])) ∨
      ∃ n, st.pc = .refill (n + 1) ∧
        r = ({ st with dialing := st.dialing + 1, pc := .refill n }, [.dialing]) := by
  unfold maintain at h
  split at h
  case h_1 hpc =>
      obtain rfl := Option.some.inj h
      exact .inl ⟨Thins.filter _ _, rfl, by simp [hpc, MaintainPc.short], rfl⟩
  case h_2 hpc =>
      obtain rfl := Option.some.inj h
      exact .inl ⟨Thins.filter _ _, rfl, by simp [hpc, MaintainPc.short], rfl⟩
  case h_3 seen hpc =>
      obtain rfl := Option.some.inj h
      exact .inr (.inl ⟨seen, rfl, hpc, rfl⟩)
  case h_4 n hpc =>
      obtain rfl := Option.some.inj h
      exact .inr (.inr ⟨n, hpc, rfl⟩)
  case h_5 hpc =>
      obtain rfl := Option.some.inj h
      exact .inl ⟨Thins.refl _, rfl, by simp [hpc, MaintainPc.short], rfl⟩
  case h_6 =>
      obtain rfl := Option.some.inj h
      exact .inl ⟨Thins.died _ _, rfl, rfl, rfl⟩
  case h_7 =>
      split at h
      · cases h
      · obtain rfl := Option.some.inj h
        exact .inl ⟨Thins.filter _ _, rfl, rfl, rfl⟩
  case h_8 => cases h

/-- **What a step of a dial does.** -/
theorem dialTask_cases {i : ℕ} {st : PoolInner} {d : Dial} {e : DialStep} {r : PoolInner × Dial}
    (h : dialTask i st d e = some r) :
    (r.1 = st ∧ d.guarded = true ∧ r.2.guarded = true ∧ d.mayAdd = true ∧ r.2 ≠ .pushed) ∨
      (∃ alive, d = .dialed alive ∧
        r = ({ st with tunnels := st.tunnels ++ [⟨i, alive⟩] }, .pushed)) ∨
      ((d = .failed ∨ d = .pushed) ∧ r = ({ st with dialing := st.dialing - 1 }, .ended)) := by
  unfold dialTask at h
  split at h
  case h_7 => cases h
  case h_4 alive =>
      obtain rfl := Option.some.inj h
      exact .inr (.inl ⟨alive, rfl, rfl⟩)
  case h_5 =>
      obtain rfl := Option.some.inj h
      exact .inr (.inr ⟨.inl rfl, rfl⟩)
  case h_6 =>
      obtain rfl := Option.some.inj h
      exact .inr (.inr ⟨.inr rfl, rfl⟩)
  all_goals
    obtain rfl := Option.some.inj h
    exact .inl ⟨rfl, rfl, rfl, rfl, by simp⟩

/-! ### The invariant -/

variable {poolSize : UInt32} {s s' : State} {a : Act PoolStep DialStep}

theorem gauge_exact (h : step poolSize s a = some s')
    (hg : s.shared.dialing = count32 (guards s)) : s'.shared.dialing = count32 (guards s') := by
  refine gauge_step (p := Dial.guarded) (g := fun st => st.dialing) count32 h ?_ ?_ hg
  · intro x r _ hr
    obtain ⟨_, hd, _, hn⟩ | ⟨seen, _, _, rfl⟩ | ⟨n, _, rfl⟩ := maintain_cases hr
    · simp [hd, hn]
    · simp
    · simp [Dial.guarded]
  · intro i b d r _ _ hr
    obtain ⟨hst, h₀, h₁, _⟩ | ⟨alive, rfl, rfl⟩ | ⟨rfl | rfl, rfl⟩ := dialTask_cases hr
    · simp [hst, h₀, h₁]
    · simp [Dial.guarded]
    · simp [Dial.guarded]
    · simp [Dial.guarded]

/-- Every tunnel was pushed by the dial of its number, each dial pushed at most one, the counter holds
the number of guards, and everything that may be live in the end fits the pool. -/
structure Inv (poolSize : UInt32) (s : State) : Prop where
  gauge : s.shared.dialing = count32 (guards s)
  ids : (s.shared.tunnels.map Tunnel.id).Nodup
  owner : ∀ n ∈ s.shared.tunnels.map Tunnel.id, s.tasks[n]? = some .pushed ∨ s.tasks[n]? = some .ended
  bound : live s + mayAdd s + s.shared.pc.short ≤ poolSize.toNat

/-- The live tunnels that were not counted come from dials that hold their guard. -/
theorem Inv.live_le (hinv : Inv poolSize s) {seen : List ℕ}
    (hc : ∀ t ∈ s.shared.tunnels, t.alive = true → t.id ∈ seen ∨ s.tasks[t.id]? = some .pushed) :
    live s ≤ seen.length + s.tasks.countP Dial.isPushed := by
  have hnodup : ((s.shared.tunnels.filter Tunnel.alive).map Tunnel.id).Nodup :=
    hinv.ids.sublist (List.filter_sublist.map _)
  have hsub : (s.shared.tunnels.filter Tunnel.alive).map Tunnel.id
      ⊆ seen ++ s.tasks.findIdxs Dial.isPushed := by
    intro n hn
    obtain ⟨t, ht, rfl⟩ := List.mem_map.1 hn
    obtain ⟨hmem, halive⟩ := List.mem_filter.1 ht
    refine List.mem_append.2 ((hc t hmem halive).imp_right ?_)
    intro hpushed
    obtain ⟨hlt, heq⟩ := List.getElem?_eq_some_iff.1 hpushed
    exact (List.mem_findIdxs_iff_pos_getElem hlt).2 (by rw [heq]; rfl)
  have hle := (List.subperm_of_subset hnodup hsub).length_le
  simpa [live, List.countP_eq_length_filter] using hle

/-- The guards of the dials that may still add a tunnel and of those that have pushed one. -/
theorem mayAdd_add_pushed_le (l : List Dial) :
    l.countP Dial.mayAdd + l.countP Dial.isPushed ≤ l.countP Dial.guarded := by
  induction l with
  | nil => simp
  | cons d l ih =>
      have hd : (if d.mayAdd = true then 1 else 0) + (if d.isPushed = true then 1 else 0)
          ≤ if d.guarded = true then 1 else 0 := by
        cases d <;> simp [Dial.mayAdd, Dial.isPushed, Dial.guarded]
      simp only [List.countP_cons]
      omega

/-- The number of missing tunnels, where the sum of both counts fits the word. -/
theorem shortOf_le {poolSize : UInt32} {live guards : ℕ} (h : live + guards < 2 ^ 32) :
    shortOf poolSize live (UInt32.ofNat guards) = poolSize.toNat - (live + guards) := by
  have hsum : (clampU32 live + UInt32.ofNat guards).toNat = live + guards := by
    rw [clampU32, if_pos (by omega), ← UInt32.ofNat_add]
    exact UInt32.toNat_ofNat_of_lt' h
  rw [shortOf, saturatingSub]
  split
  · rename_i hle
    rw [UInt32.toNat_sub_of_le _ _ hle, hsum]
  · rename_i hlt
    rw [UInt32.le_iff_toNat_le, hsum] at hlt
    rw [Nat.sub_eq_zero_of_le (by omega)]
    rfl

theorem Inv.main_step {x : PoolStep} {r : PoolInner × List Dial} (hinv : Inv poolSize s)
    (hok : Counted s (.main x)) (hr : maintain poolSize s.shared x = some r)
    (hg : r.1.dialing = count32 (guards ⟨r.1, s.tasks ++ r.2⟩)) :
    Inv poolSize ⟨r.1, s.tasks ++ r.2⟩ := by
  have howner : ∀ n ∈ s.shared.tunnels.map Tunnel.id,
      (s.tasks ++ r.2)[n]? = some .pushed ∨ (s.tasks ++ r.2)[n]? = some .ended := by
    intro n hn
    have hlt : n < s.tasks.length := by
      rcases hinv.owner n hn with h | h <;> exact (List.getElem?_eq_some_iff.1 h).1
    rw [List.getElem?_append_left hlt]
    exact hinv.owner n hn
  have hbound := hinv.bound
  obtain ⟨hthin, _, hshort, hn⟩ | ⟨seen, rfl, hpc, rfl⟩ | ⟨n, hpc, rfl⟩ := maintain_cases hr
  · refine ⟨hg, hinv.ids.sublist hthin.1, fun n h => howner n (hthin.1.subset h), ?_⟩
    have hlive := hthin.2
    simp only [live, mayAdd, hshort, hn, List.append_nil] at hbound ⊢
    omega
  · refine ⟨hg, hinv.ids, howner, ?_⟩
    have hseen := hok rfl
    simp only [hpc, MaintainPc.seen] at hseen
    have hlive := hinv.live_le hseen.1
    have hguards := mayAdd_add_pushed_le s.tasks
    have hshort : shortOf poolSize seen.length s.shared.dialing
        = poolSize.toNat - (seen.length + guards s) := by
      rw [hinv.gauge]
      exact shortOf_le hseen.2
    simp only [live, mayAdd, guards, hshort, hpc, MaintainPc.short, List.append_nil]
      at hbound hlive ⊢
    omega
  · refine ⟨hg, hinv.ids, howner, ?_⟩
    have hone : [Dial.dialing].countP Dial.mayAdd = 1 := rfl
    simp only [live, mayAdd, hpc, MaintainPc.short, List.countP_append, hone] at hbound ⊢
    omega

theorem Inv.task_step {i : ℕ} {b : DialStep} {d : Dial} {r : PoolInner × Dial}
    (hinv : Inv poolSize s) (hd : s.tasks[i]? = some d) (hr : dialTask i s.shared d b = some r)
    (hg : r.1.dialing = count32 (guards ⟨r.1, s.tasks.set i r.2⟩)) :
    Inv poolSize ⟨r.1, s.tasks.set i r.2⟩ := by
  have hbound := hinv.bound
  have hcount := countP_set Dial.mayAdd r.2 hd
  have hi : i < s.tasks.length := (List.getElem?_eq_some_iff.1 hd).1
  obtain ⟨hst, _, _, hmay, _⟩ | ⟨alive, rfl, rfl⟩ | ⟨hcase, rfl⟩ := dialTask_cases hr
  · refine ⟨hg, hst ▸ hinv.ids, ?_, ?_⟩
    · intro n hn
      rw [hst] at hn
      -- a dial that may still add a tunnel has not pushed one
      have hne : i ≠ n := by
        rintro rfl
        rcases hinv.owner i hn with h | h <;> (rw [hd] at h; cases h; cases hmay)
      rw [List.getElem?_set_ne hne]
      exact hinv.owner n hn
    · simp only [live, mayAdd, hst, hmay, Bool.toNat_true] at hbound hcount ⊢
      have := Bool.toNat_le r.2.mayAdd
      omega
  · have hfresh : i ∉ s.shared.tunnels.map Tunnel.id := by
      intro hn
      rcases hinv.owner i hn with h | h <;> (rw [hd] at h; cases h)
    refine ⟨hg, ?_, ?_, ?_⟩
    · simp only [List.map_append, List.map_cons, List.map_nil]
      exact List.nodup_append.2 ⟨hinv.ids, List.nodup_singleton _, by
        rintro n hn m hm rfl
        exact hfresh ((List.mem_singleton.1 hm) ▸ hn)⟩
    · intro n hn
      by_cases hne : i = n
      · subst hne
        exact .inl (by simp [hi])
      · rw [List.getElem?_set_ne hne]
        refine hinv.owner n ?_
        simpa [Ne.symm hne] using hn
    · have hone : [(⟨i, alive⟩ : Tunnel)].countP Tunnel.alive ≤ 1 := List.countP_le_length
      have hleaves : (Dial.dialed alive).mayAdd.toNat = 1 := rfl
      have hpushed : Dial.pushed.mayAdd.toNat = 0 := rfl
      simp only [live, mayAdd, List.countP_append, hleaves, hpushed] at hbound hcount ⊢
      omega
  · refine ⟨hg, hinv.ids, ?_, ?_⟩
    · intro n hn
      by_cases hne : i = n
      · subst hne
        exact .inr (by simp [hi])
      · rw [List.getElem?_set_ne hne]
        exact hinv.owner n hn
    · have hended : Dial.ended.mayAdd.toNat = 0 := rfl
      simp only [live, mayAdd, hended] at hbound hcount ⊢
      omega

theorem Inv.step (hinv : Inv poolSize s) (hok : Counted s a) (h : step poolSize s a = some s') :
    Inv poolSize s' := by
  have hg := gauge_exact h hinv.gauge
  obtain ⟨x, r, rfl, hr, rfl⟩ | ⟨i, b, d, r, rfl, hd, hr, rfl⟩ := step_cases h
  · exact hinv.main_step hok hr hg
  · exact hinv.task_step hd hr hg

/-- **The pool does not overshoot** in a run in which the maintainer misses no tunnel. -/
theorem pool_within (poolSize : UInt32) {s : State}
    (h : Reach (step poolSize) Counted (init poolSize) s) :
    live s + mayAdd s ≤ poolSize.toNat := by
  have hinit : Inv poolSize (init poolSize) := by
    refine ⟨rfl, List.nodup_nil, by simp [init], ?_⟩
    have hshort : (init poolSize).shared.pc.short = 0 := by
      simp only [init]
      split <;> rfl
    rw [hshort]
    exact Nat.zero_le _
  have hinv : Inv poolSize s :=
    Reach.invariant hinit (fun hinv hok hs => hinv.step hok hs) h
  exact (Nat.le_add_right _ _).trans hinv.bound

/-- A round of the maintainer up to its count of the live tunnels. -/
def round : List (Act PoolStep DialStep) := [.main .prune, .main .recount]

/-- The maintainer reads the counter of dials, spawns one dial and is woken up. -/
def refillOne : List (Act PoolStep DialStep) := [.main .loadDialing, .main .spawnDial, .main .wake]

/-- A dial succeeds and pushes its tunnel. -/
def dialAndPush (i : ℕ) : List (Act PoolStep DialStep) := [.task i (.dial true), .task i .push]

/-- A dial that pushes its tunnel before the count and drops its guard behind it is counted once, and
a tunnel that dies is replaced. -/
theorem pool_within_one :
    ∃ s, Reach (step 1) Counted (init 1) s ∧ live s = 0 ∧ mayAdd s = 1 ∧
      live s + mayAdd s ≤ (1 : UInt32).toNat := by
  have h : Reach (step 1) Counted (init 1)
      ⟨⟨[], 1, .upkeep⟩, [.ended, .dialing]⟩ :=
    Reach.refl.of_exec
      (round ++ refillOne ++ dialAndPush 0 ++ round
        ++ [.task 0 .dropGuard, .main .loadDialing, .main .wake, .main (.died 0)]
        ++ round ++ refillOne)
      (by decide)
  exact ⟨_, h, rfl, rfl, pool_within 1 h⟩

/-- A dial that pushes its tunnel and drops its guard between the count and the reading is seen by
neither, and the pool gets a second one. -/
theorem pool_overshoots :
    ∃ s, Reach (step 1) always (init 1) s ∧ (1 : UInt32).toNat < live s + mayAdd s := by
  have h : Reach (step 1) always (init 1)
      ⟨⟨[⟨0, true⟩], 1, .upkeep⟩, [.ended, .dialing]⟩ :=
    Reach.refl.of_exec
      (round ++ refillOne ++ round ++ dialAndPush 0 ++ [.task 0 .dropGuard] ++ refillOne)
      (by decide)
  exact ⟨_, h, by decide⟩

end Pool

end Nextppp

/-
**Concurrent calls on the DNS cache.**

Calls of `resolve_with` run on many threads and meet at the lock of the map: under it a call looks for
a fresh entry, looks for an expired success after a failed lookup, and stores its result.  Between
these it runs freely, and the lookup takes as long as it takes.  Here a call is a task, every stretch
under the lock is one step, and the clock moves on by itself.

A failing call decides to record its failure when it finds no success in the map, and records it later.
A success that another call stores in between is overwritten.

Main definitions:

* `Nextppp.ResolveCall`, `Nextppp.DnsCalls.step` — the calls and their interleaving;
* `Nextppp.DnsCalls.KeepsSuccess` — a step that spares the successes of the map;
* `Nextppp.DnsCalls.Undisturbed` — a success is stored only while no failure of its domain is about to
  be recorded.

Main results:

* `Nextppp.DnsCalls.recording_reach` — in undisturbed runs a call that is about to record a failure
  faces no success;
* `Nextppp.DnsCalls.undisturbed_keeps` — every step of every undisturbed run spares the successes;
* `Nextppp.DnsCalls.success_overwritten` — a run in which one is overwritten.
-/

import Nextppp.Lib.Tasks
import Nextppp.Common.Dns

set_option relaxedAutoImplicit false
set_option autoImplicit false

namespace Nextppp

open Run

/-- Where a call is. -/
inductive ResolvePc
  /-- about to read the clock -/
  | called
  /-- about to look for a fresh entry -/
  | checking (now : ℕ)
  /-- in the lookup -/
  | looking
  /-- the lookup failed; about to look for an expired success -/
  | failed (e : IoError)
  /-- about to store a result -/
  | storing (result : Resolution)
  | done (answer : Resolution)
  deriving DecidableEq

/-- A call of `resolve_with`. -/
structure ResolveCall where
  domain : Domain
  pc : ResolvePc
  deriving DecidableEq

/-- What calls share: the map, and the clock. -/
structure DnsShared where
  map : DnsCache
  clock : ℕ

namespace DnsCalls

/-- What happens outside the calls: a new one starts, or time passes. -/
inductive Main
  | resolve (domain : Domain)
  | tick (d : ℕ)
  deriving DecidableEq

/-- The steps of a call.  The lookup answers anything, and time may pass between the two readings of
`insert`. -/
inductive CallStep
  | start
  | check
  | answer (r : Resolution)
  | recheck
  | store (d : ℕ)
  deriving DecidableEq

/-- A step outside the calls. -/
def act (s : DnsShared) : Main → Option (DnsShared × List ResolveCall)
  | .resolve domain => some (s, [⟨domain, .called⟩])
  | .tick d => some ({ s with clock := s.clock + d }, [])

/-- The lifetime of a result. -/
def ttl : Resolution → ℕ
  | .ok _ => positiveTtl
  | .error _ => negativeTtl

/-- A step of a call. -/
def work (_ : ℕ) (s : DnsShared) (c : ResolveCall) : CallStep → Option (DnsShared × ResolveCall)
  | .start =>
      match c.pc with
      | .called => some (s, { c with pc := .checking s.clock })
      | _ => none
  | .check =>
      match c.pc with
      | .checking now =>
          match s.map.fresh c.domain now with
          | some r => some (s, { c with pc := .done r })
          | none => some (s, { c with pc := .looking })
      | _ => none
  | .answer r =>
      match c.pc with
      | .looking =>
          match nonEmpty r with
          | .ok ips => some (s, { c with pc := .storing (.ok ips) })
          | .error e => some (s, { c with pc := .failed e })
      | _ => none
  | .recheck =>
      match c.pc with
      | .failed e =>
          match s.map.stale c.domain with
          | some ips => some (s, { c with pc := .done (.ok ips) })
          | none => some (s, { c with pc := .storing (.error e) })
      | _ => none
  | .store d =>
      match c.pc with
      | .storing r =>
          some (⟨s.map.insert c.domain r (ttl r) s.clock (s.clock + d), s.clock + d⟩,
            { c with pc := .done r })
      | _ => none

/-- A state: the shared map and clock, and the calls. -/
abbrev State := Tasks.System DnsShared ResolveCall

/-- An action. -/
abbrev Action := Tasks.Act Main CallStep

/-- The interleaving of the calls. -/
def step : State → Action → Option State := Tasks.step act work

/-- A new cache and no calls. -/
def init : State := ⟨⟨∅, 0⟩, []⟩

/-- A step that spares the successes of the map: each stays, or is replaced by another success, or is
evicted, expired, from a full map. -/
def KeepsSuccess (s s' : State) : Prop :=
  ∀ d e ips, s.shared.map.lookup d = some e → e.result = .ok ips →
    s'.shared.map.lookup d = some e ∨
    (∃ e' ips', s'.shared.map.lookup d = some e' ∧ e'.result = .ok ips') ∨
    (s'.shared.map.lookup d = none ∧ e.expires ≤ s.shared.clock ∧
      maxEntries ≤ s.shared.map.size)

/-- Whether a call is about to record a failure. -/
def records (c : ResolveCall) : Bool :=
  match c.pc with
  | .storing (.error _) => true
  | _ => false

/-- Some call is about to record a failure of a domain. -/
def Recording (s : State) (d : Domain) : Prop := ∃ c ∈ s.tasks, c.domain = d ∧ records c = true

/-- The domain of the success that an action stores. -/
def storesSuccess (s : State) : Action → Option Domain
  | .task i (.store _) =>
      s.tasks[i]?.bind fun c =>
        match c.pc with
        | .storing (.ok _) => some c.domain
        | _ => none
  | _ => none

/-- A step does not store a success of a domain while a failure of it is about to be recorded. -/
def Undisturbed (s : State) (a : Action) : Prop := ∀ d ∈ storesSuccess s a, ¬ Recording s d

instance (s : State) (d : Domain) : Decidable (Recording s d) :=
  inferInstanceAs (Decidable (∃ c ∈ s.tasks, c.domain = d ∧ records c = true))

instance (s : State) (a : Action) : Decidable (Undisturbed s a) :=
  inferInstanceAs (Decidable (∀ d ∈ storesSuccess s a, ¬ Recording s d))

variable {s s' : State} {a : Action}

/-! ### What a step can do -/

/-- **What a step of a call does**: it stores its result, or the shared state stays as it is; and it is
about to record a failure only after it found no success in the map. -/
theorem work_cases {i : ℕ} {sh : DnsShared} {c : ResolveCall} {e : CallStep}
    {r : DnsShared × ResolveCall} (h : work i sh c e = some r) :
    (∃ d res, e = .store d ∧ c.pc = .storing res ∧
      r = (⟨sh.map.insert c.domain res (ttl res) sh.clock (sh.clock + d), sh.clock + d⟩,
        { c with pc := .done res })) ∨
    (r.1 = sh ∧ r.2.domain = c.domain ∧
      (records r.2 = true → sh.map.stale c.domain = none)) := by
  cases e with
  | start =>
      simp only [work] at h
      split at h
      · obtain rfl := Option.some.inj h
        exact .inr ⟨rfl, rfl, by simp [records]⟩
      · cases h
  | check =>
      simp only [work] at h
      split at h
      · split at h
        · obtain rfl := Option.some.inj h
          exact .inr ⟨rfl, rfl, by simp [records]⟩
        · obtain rfl := Option.some.inj h
          exact .inr ⟨rfl, rfl, by simp [records]⟩
      · cases h
  | answer r' =>
      simp only [work] at h
      split at h
      · split at h
        · obtain rfl := Option.some.inj h
          exact .inr ⟨rfl, rfl, by simp [records]⟩
        · obtain rfl := Option.some.inj h
          exact .inr ⟨rfl, rfl, by simp [records]⟩
      · cases h
  | recheck =>
      simp only [work] at h
      split at h
      · split at h
        · obtain rfl := Option.some.inj h
          exact .inr ⟨rfl, rfl, by simp [records]⟩
        · rename_i hstale
          obtain rfl := Option.some.inj h
          exact .inr ⟨rfl, rfl, fun _ => hstale⟩
      · cases h
  | store d =>
      simp only [work] at h
      split at h
      · rename_i res hpc
        exact .inl ⟨d, res, rfl, hpc, (Option.some.inj h).symm⟩
      · cases h

/-- What a step does to the map: nothing, or a call stores its result. -/
theorem step_map (h : step s a = some s') :
    s'.shared.map = s.shared.map ∨
      ∃ i d c res, a = .task i (.store d) ∧ s.tasks[i]? = some c ∧ c.pc = .storing res ∧
        s'.shared.map = s.shared.map.insert c.domain res (ttl res) s.shared.clock
          (s.shared.clock + d) := by
  obtain ⟨x, r, rfl, hr, rfl⟩ | ⟨i, e, c, r, rfl, hc, hr, rfl⟩ := Tasks.step_cases h
  · left
    cases x with
    | resolve domain => obtain rfl := Option.some.inj hr; rfl
    | tick d => obtain rfl := Option.some.inj hr; rfl
  · obtain ⟨d, res, rfl, hpc, rfl⟩ | ⟨hsame, -, -⟩ := work_cases hr
    · exact .inr ⟨i, d, c, res, rfl, hc, hpc, rfl⟩
    · exact .inl (by rw [hsame])

/-! ### Undisturbed runs -/

/-- A success of a domain that a result was stored for: it was there before, or it is the result. -/
theorem stale_insert_cases {c : DnsCache} {d d' : Domain} {r : Resolution} {t now stored : ℕ}
    {ips : List IpAddr} (h : (c.insert d r t now stored).stale d' = some ips) :
    c.stale d' = some ips ∨ (d' = d ∧ r = .ok ips) := by
  by_cases hd : d' = d
  · subst hd
    exact .inr ⟨rfl, Log.stale_insert h⟩
  · obtain ⟨e, he, hr⟩ := DnsCache.stale_eq_some_iff.1 h
    obtain hsame | ⟨hnone, -⟩ := Ttl.Cache.lookup_store_ne hd maxEntries now c
      (⟨r, stored + t⟩ : Ttl.Entry Resolution)
    · exact .inl (DnsCache.stale_eq_some_iff.2 ⟨e, hsame ▸ he, hr⟩)
    · rw [DnsCache.insert, hnone] at he
      cases he

/-- A call that is about to record a failure faces no success of its domain. -/
def Faces (s : State) : Prop := ∀ d, Recording s d → s.shared.map.stale d = none

/-- A call about to record a failure was so before the step, or has just found no success. -/
theorem step_recording (h : step s a = some s') {d : Domain} (hrec : Recording s' d) :
    Recording s d ∨ s'.shared.map.stale d = none := by
  obtain ⟨c', hc', rfl, hrec'⟩ := hrec
  obtain ⟨x, r, rfl, hr, rfl⟩ | ⟨i, e, c, r, rfl, hc, hr, rfl⟩ := Tasks.step_cases h
  · rcases List.mem_append.1 hc' with hold | hnew
    · exact .inl ⟨c', hold, rfl, hrec'⟩
    · cases x with
      | resolve domain =>
          obtain rfl := Option.some.inj hr
          obtain rfl : c' = ⟨domain, .called⟩ := by simpa using hnew
          cases hrec'
      | tick d =>
          obtain rfl := Option.some.inj hr
          simp at hnew
  · rcases List.mem_or_eq_of_mem_set hc' with hold | rfl
    · exact .inl ⟨c', hold, rfl, hrec'⟩
    · obtain ⟨d, res, rfl, hpc, rfl⟩ | ⟨hsame, hdom, hfound⟩ := work_cases hr
      · cases hrec'
      · right
        rw [hdom]
        dsimp only
        rw [hsame]
        exact hfound hrec'

theorem Faces.step (hf : Faces s) (hok : Undisturbed s a) (h : step s a = some s') : Faces s' := by
  intro d hrec
  rcases step_recording h hrec with hold | hfound
  · refine Option.eq_none_iff_forall_not_mem.2 fun ips hips => ?_
    have hnone := hf d hold
    obtain hsame | ⟨i, t, c, res, rfl, hc, hpc, hmap⟩ := step_map h
    · rw [hsame, hnone] at hips
      cases hips
    · rw [hmap] at hips
      rcases stale_insert_cases hips with hbefore | ⟨rfl, rfl⟩
      · rw [hnone] at hbefore
        cases hbefore
      · -- the step stores a success of the domain: then no failure of it is about to be recorded
        exact hok c.domain (by simp [storesSuccess, hc, hpc]) hold
  · exact hfound

/-- In undisturbed runs a call that is about to record a failure faces no success. -/
theorem recording_reach (h : Reach step Undisturbed init s) : Faces s := by
  refine h.invariant ?_ (fun hf hok hs => hf.step hok hs)
  rintro d ⟨c, hc, -⟩
  simp [init] at hc

/-- Storing a result spares the successes of the map, unless it is a failure and its domain has
one. -/
theorem insert_keeps {sh : DnsShared} {d : Domain} {res : Resolution} {t : ℕ}
    (hres : ∀ e, res = .error e → sh.map.stale d = none) {d' : Domain}
    {e : Ttl.Entry Resolution} {ips : List IpAddr} (he : sh.map.lookup d' = some e)
    (hok : e.result = .ok ips) :
    let map' := sh.map.insert d res (ttl res) sh.clock (sh.clock + t)
    map'.lookup d' = some e ∨ (∃ e' ips', map'.lookup d' = some e' ∧ e'.result = .ok ips') ∨
      (map'.lookup d' = none ∧ e.expires ≤ sh.clock ∧ maxEntries ≤ sh.map.size) := by
  intro map'
  by_cases hd : d' = d
  · subst hd
    have hmem : d' ∈ sh.map := AList.lookup_isSome.1 (by rw [he]; rfl)
    cases res with
    | error err =>
        have hstale := hres err rfl
        rw [DnsCache.stale_eq_some_iff.2 ⟨e, he, hok⟩] at hstale
        cases hstale
    | ok ips' =>
        exact .inr (.inl ⟨_, ips', Ttl.Cache.lookup_store_of_mem hmem _, rfl⟩)
  · obtain hsame | ⟨hnone, hfull, e', he', hexpired⟩ := Ttl.Cache.lookup_store_ne hd maxEntries
      sh.clock sh.map (⟨res, sh.clock + t + ttl res⟩ : Ttl.Entry Resolution)
    · exact .inl (hsame.trans he)
    · obtain rfl : e = e' := by simpa [he] using he'
      exact .inr (.inr ⟨hnone, hexpired, hfull⟩)

/-- **Undisturbed runs keep their successes**: in every run in which no success of a domain is stored
while a failing call is between its look for a success and the recording of its failure, every step
spares the successes of the map. -/
theorem undisturbed_keeps (h : Reach step Undisturbed init s) (hok : Undisturbed s a)
    (hs : step s a = some s') : KeepsSuccess s s' := by
  intro d e ips he hr
  obtain hsame | ⟨i, t, c, res, rfl, hc, hpc, hmap⟩ := step_map hs
  · exact .inl (by rw [hsame]; exact he)
  · rw [hmap]
    refine insert_keeps ?_ he hr
    rintro err rfl
    exact recording_reach h c.domain ⟨c, List.mem_of_getElem? hc, rfl, by simp [records, hpc]⟩

/-- Two calls for one domain, both of which miss. -/
def twoCalls : List Action :=
  [.main (.resolve [100]), .main (.resolve [100]), .task 0 .start, .task 0 .check,
    .task 1 .start, .task 1 .check]

/-- The second call succeeds and stores the addresses. -/
def secondStores : List Action :=
  [.task 1 (.answer (.ok [.v4 #v[10, 0, 0, 9]])), .task 1 (.store 0)]

/-- The first call fails. -/
def firstFails : List Action := [.task 0 (.answer (.error ⟨.timedOut, "resolver dead"⟩))]

/-- A run in which the first call looks for a success behind the store of the second. -/
theorem undisturbed_keeps_two : ∃ s s', Reach step Undisturbed init s ∧
    step s (.task 0 .recheck) = some s' ∧ (s.shared.map.stale [100]).isSome = true ∧
    KeepsSuccess s s' := by
  obtain ⟨s, s', he, hs, hok, hsome⟩ : ∃ s s',
      exec step Undisturbed init (twoCalls ++ secondStores ++ firstFails) = some s ∧
        step s (.task 0 .recheck) = some s' ∧ storesSuccess s (.task 0 .recheck) = none ∧
        (s.shared.map.stale [100]).isSome = true :=
    ⟨_, _, rfl, rfl, rfl, rfl⟩
  have hreach := Reach.refl.of_exec _ he
  exact ⟨s, s', hreach, hs, hsome, undisturbed_keeps hreach (by rw [Undisturbed, hok]; simp) hs⟩

/-- A success is overwritten: the first call fails and finds no success, the second stores one, and
the first records its failure. -/
theorem success_overwritten : ∃ s s', Reach step always init s ∧
    step s (.task 0 (.store 0)) = some s' ∧ ¬ KeepsSuccess s s' := by
  obtain ⟨s, s', he, hs, hbefore, e, hafter⟩ : ∃ s s',
      exec step always init (twoCalls ++ firstFails ++ [.task 0 .recheck] ++ secondStores) = some s ∧
        step s (.task 0 (.store 0)) = some s' ∧
        s.shared.map.lookup [100] = some ⟨.ok [.v4 #v[10, 0, 0, 9]], positiveTtl⟩ ∧
        ∃ e, s'.shared.map.lookup [100] = some ⟨.error e, negativeTtl⟩ :=
    ⟨_, _, rfl, rfl, by decide, ⟨.timedOut, "resolver dead"⟩, by decide⟩
  refine ⟨s, s', Reach.refl.of_exec _ he, hs, fun hkeep => ?_⟩
  rcases hkeep [100] _ _ hbefore rfl with hsame | ⟨e', ips', he', hok⟩ | ⟨hnone, -⟩
  · rw [hafter] at hsame
    simp at hsame
  · obtain rfl : (⟨.error e, negativeTtl⟩ : Ttl.Entry Resolution) = e' := by
      simpa [hafter] using he'
    cases hok
  · rw [hafter] at hnone
    cases hnone

end DnsCalls

end Nextppp

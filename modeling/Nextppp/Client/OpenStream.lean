/-
**Assigning streams to tunnels.**

A request takes the least loaded live tunnel of the pool with room for a stream.  It reads the loads
one by one, and counts its own stream only when it opens it: requests that choose at the same time do
not see each other.  Where every live tunnel is full it dials a tunnel of its own, and where none is
alive it notifies the maintainer and waits.

Main definitions:

* `Nextppp.Pool.Request`, `Nextppp.Pool.openStream` — how far a request has got, and its steps over
  the pool with its notices and the loads of the tunnels;
* `Nextppp.Pool.choosing`, `Nextppp.Pool.load`, `Nextppp.Pool.heading` — the requests that choose, the
  streams on a tunnel and the requests that may be about to add one.

Main results:

* `Nextppp.Pool.assign_watch` — the steps of requests are steps of the pool with its notices;
* `Nextppp.Pool.scan_least` — undisturbed, a request finds the first of the least loaded tunnels;
* `Nextppp.Pool.load_within` — where at most `k` requests choose at a time, a tunnel carries at most
  `k - 1` streams above its limit.
-/

import Nextppp.Client.Refill

set_option relaxedAutoImplicit false
set_option autoImplicit false

namespace Nextppp

namespace Pool

open Tasks Run

/-! ### Requests -/

/-- The pool with its notices and the counters of streams of its tunnels. -/
structure Shared where
  watch : Watch
  streams : ℕ → UInt32

/-- Why `Tunnel::open` failed. -/
inductive OpenError
  /-- the `OPEN` could not be sent -/
  | closedBeforeOpen
  | refused
  /-- the waiter was dropped with the tunnel -/
  | diedWhileOpening
  | replyTimedOut
  deriving DecidableEq, Repr

/-- Why `open_stream` failed. -/
inductive RequestError
  /-- no pool tunnel within the timeout -/
  | noTunnel
  | dial
  | opening (e : OpenError)
  deriving DecidableEq, Repr

/-- How far a call of `open_stream` has got. -/
inductive Request
  | start
  /-- `pick` reads the tunnels: those left, and the best so far with the load it had -/
  | picking (rest : List ℕ) (best : Option (UInt32 × ℕ))
  /-- `pick` found this tunnel to have room and is about to read its load again -/
  | keying (id : ℕ) (rest : List ℕ) (best : Option (UInt32 × ℕ))
  | picked (id : ℕ)
  /-- `pick` found no tunnel with room -/
  | unpicked
  /-- no tunnel is alive and the maintainer is notified -/
  | waiting
  /-- the stream is registered on this tunnel and its `OPEN` is under way -/
  | opening (id : ℕ)
  /-- the `OPEN` could not be sent; the stream is unregistered and the tunnel is to be marked dead -/
  | marking (id : ℕ)
  /-- the stream is unregistered and `open` returns this error -/
  | broken (id : ℕ) (e : OpenError)
  | stream (id : ℕ)
  /-- `open_dedicated` dials a tunnel for this stream -/
  | dialing
  | openingAlone
  | streamAlone
  | closed
  | failed (e : RequestError)
  deriving DecidableEq, Repr

/-- Steps of a request. -/
inductive RequestStep
  | pick
  /-- the filter of `pick` reads the next tunnel -/
  | filter
  /-- `min_by_key` reads the load of the tunnel that passed the filter -/
  | key
  | endPick
  | anyLive
  /-- the wait is over, before or after its deadline -/
  | recheck
  | expire
  | register
  | opened
  | openFails (e : OpenError)
  | markDead
  | settle
  | dialed (ok : Bool)
  | drop
  deriving DecidableEq, Repr

/-- `min_by_key` keeps the first of equals. -/
def firstMin (best : Option (UInt32 × ℕ)) (x : UInt32 × ℕ) : UInt32 × ℕ :=
  match best with
  | none => x
  | some y => if x.1 < y.1 then x else y

def Shared.addStream (s : Shared) (id : ℕ) : Shared :=
  { s with streams := Function.update s.streams id (s.streams id + 1) }

def Shared.subStream (s : Shared) (id : ℕ) : Shared :=
  { s with streams := Function.update s.streams id (s.streams id - 1) }

/-- A step of a call of `open_stream`, up to the drop of the stream it returned. -/
def openStream (poolSize maxStreams : UInt32) (_ : ℕ) (s : Shared) (q : Request) (e : RequestStep) :
    Option (Shared × Request) :=
  match q, e with
  | .start, .pick =>
      if poolSize = 0 then some (s, .dialing)
      else some (s, .picking (s.watch.pool.shared.tunnels.map Tunnel.id) none)
  | .picking (id :: rest) best, .filter =>
      if s.watch.Alive id ∧ s.streams id < maxStreams then some (s, .keying id rest best)
      else some (s, .picking rest best)
  | .keying id rest best, .key => some (s, .picking rest (some (firstMin best (s.streams id, id))))
  | .picking [] (some best), .endPick => some (s, .picked best.2)
  | .picking [] none, .endPick => some (s, .unpicked)
  | .unpicked, .anyLive =>
      -- saturated: a tunnel of its own; empty: kick the maintainer
      if s.watch.pool.shared.tunnels.any Tunnel.alive then some (s, .dialing)
      else (watch poolSize s.watch .kick).map fun w => ({ s with watch := w }, .waiting)
  | .waiting, .recheck => some (s, .start)
  | .waiting, .expire => some (s, .failed .noTunnel)
  | .picked id, .register => some (s.addStream id, .opening id)
  | .opening id, .opened => some (s, .stream id)
  | .opening id, .openFails .closedBeforeOpen => some (s.subStream id, .marking id)
  | .opening id, .openFails e => some (s.subStream id, .broken id e)
  | .marking id, .markDead =>
      -- only the first that marks a tunnel goes on to notify its death
      if s.watch.Alive id then (watch poolSize s.watch (.swap id)).map fun w =>
        ({ s with watch := w }, .broken id .closedBeforeOpen)
      else some (s, .broken id .closedBeforeOpen)
  | .broken id e, .settle =>
      -- a dead tunnel leaves the pool and another one is tried
      if s.watch.Alive id then some (s, .failed (.opening e))
      else (watch poolSize s.watch (.act (.main (.remove id)))).map fun w =>
        ({ s with watch := w }, .start)
  | .stream id, .drop => some (s.subStream id, .closed)
  | .dialing, .dialed true => some (s, .openingAlone)
  | .dialing, .dialed false => some (s, .failed .dial)
  | .openingAlone, .opened => some (s, .streamAlone)
  | .openingAlone, .openFails e => some (s, .failed (.opening e))
  | .streamAlone, .drop => some (s, .closed)
  | _, _ => none

/-- What happens beside the requests: the pool moves, or a request comes in. -/
inductive Incoming
  | pool (e : Event)
  | connect
  deriving DecidableEq

/-- A step of the pool, or a new request. -/
def serve (poolSize : UInt32) (s : Shared) : Incoming → Option (Shared × List Request)
  | .pool e => (watch poolSize s.watch e).map fun w => ({ s with watch := w }, [])
  | .connect => some (s, [.start])

/-- The pool and the requests. -/
abbrev Assign := System Shared Request

def unassigned (poolSize : UInt32) : Assign := ⟨⟨unwatched poolSize, fun _ => 0⟩, []⟩

/-- One step of the pool or a request. -/
def assign (poolSize maxStreams : UInt32) : Assign → Act Incoming RequestStep → Option Assign :=
  Tasks.step (serve poolSize) (openStream poolSize maxStreams)

/-! ### What requests count for -/

/-- The request is reading loads, or has read them and not counted its stream yet. -/
def Request.choosing : Request → Bool
  | .picking _ _ | .keying _ _ _ | .picked _ => true
  | _ => false

/-- The request has its stream counted on the tunnel. -/
def Request.on (id : ℕ) : Request → Bool
  | .opening n | .stream n => n = id
  | _ => false

/-- The request has read the load of the tunnel and may be about to add to it. -/
def Request.heading (id : ℕ) : Request → Bool
  | .picking _ (some best) => best.2 = id
  | .keying n _ best => n = id ∨ best.any fun b => b.2 = id
  | .picked n => n = id
  | _ => false

/-- The requests that choose a tunnel. -/
def choosing (s : Assign) : ℕ := s.tasks.countP Request.choosing

/-- The streams on a tunnel. -/
def load (s : Assign) (id : ℕ) : ℕ := s.tasks.countP (Request.on id)

/-- The requests that may be about to add a stream to the tunnel. -/
def heading (s : Assign) (id : ℕ) : ℕ := s.tasks.countP (Request.heading id)

/-- A request begins to choose a tunnel. -/
def begins : Act Incoming RequestStep → Bool
  | .task _ .pick => true
  | _ => false

/-- At most `k` requests choose at a time. -/
def AtMost (k : ℕ) (s : Assign) (a : Act Incoming RequestStep) : Prop :=
  begins a = true → choosing s < k

instance (k : ℕ) (s : Assign) (a : Act Incoming RequestStep) : Decidable (AtMost k s a) :=
  inferInstanceAs (Decidable (_ → _))

variable {poolSize maxStreams : UInt32} {s s' : Assign} {a : Act Incoming RequestStep}

/-! ### The steps of the pool below -/

/-- A step either leaves the pool alone or is a step of the pool with its notices; no request drops the
guard of a dial. -/
theorem assign_watch (h : assign poolSize maxStreams s a = some s') :
    s'.shared.watch = s.shared.watch ∨ ∃ e, watch poolSize s.shared.watch e = some s'.shared.watch ∧
      (a = .main (.pool e) ∨ e.dropped = none) := by
  obtain ⟨x, r, rfl, hr, rfl⟩ | ⟨i, b, q, r, rfl, hq, hr, rfl⟩ := step_cases h
  · cases x with
    | pool e =>
        obtain ⟨w, hw, rfl⟩ := Option.map_eq_some_iff.1 hr
        exact .inr ⟨e, hw, .inl rfl⟩
    | connect =>
        obtain rfl := Option.some.inj hr
        exact .inl rfl
  · unfold openStream at hr
    split at hr
    all_goals try split at hr
    all_goals first
      | cases hr; done
      | (obtain rfl := Option.some.inj hr
         exact .inl rfl)
      | (obtain ⟨w, hw, rfl⟩ := Option.map_eq_some_iff.1 hr
         exact .inr ⟨_, hw, .inr rfl⟩)

/-- What holds of the pool with its notices holds of it under the requests. -/
theorem assign_reach
    (h : Reach (assign poolSize maxStreams)
      (fun s a => ∀ e, a = .main (.pool e) → Lands s.shared.watch e) (unassigned poolSize) s) :
    Reach (watch poolSize) Lands (unwatched poolSize) s.shared.watch := by
  induction h with
  | refl => exact .refl
  | step a _ hok hs ih =>
      obtain heq | ⟨e, he, ha⟩ := assign_watch hs
      · rwa [heq]
      · refine ih.step e ?_ he
        rcases ha with rfl | hnone
        · exact hok e rfl
        · intro i hi
          rw [hnone] at hi
          cases hi

/-! ### The least loaded tunnel -/

/-- The tunnel has room for a stream. -/
def Shared.room (maxStreams : UInt32) (s : Shared) (id : ℕ) : Bool :=
  s.watch.Alive id ∧ s.streams id < maxStreams

/-- The first of the least loaded tunnels with room. -/
def pick (maxStreams : UInt32) (s : Shared) (ids : List ℕ) : Option ℕ :=
  (ids.filter (s.room maxStreams)).argmin fun id => (s.streams id).toNat

/-- The first request that is left after the loop of `pick` has its answer. -/
def Request.ofPick : Option ℕ → Request
  | some id => .picked id
  | none => .unpicked

/-- A request that reads the loads while nothing else moves ends with the best of what it has and of
what it still reads. -/
theorem picking_ends {s₀ : Assign} {x : Shared} {l : List Request} {i : ℕ} (hi : i < l.length)
    (best : Option ℕ) (rest : List ℕ)
    (h : Reach (assign poolSize maxStreams) always s₀
      ⟨x, l.set i (.picking rest (best.map fun n => (x.streams n, n)))⟩) :
    Reach (assign poolSize maxStreams) always s₀
      ⟨x, l.set i (.ofPick
        ((rest.filter (x.room maxStreams)).foldl
          (List.argAux fun a b => (x.streams a).toNat < (x.streams b).toNat) best))⟩ := by
  have hstep : ∀ {q q' : Request} {e : RequestStep},
      openStream poolSize maxStreams i x q e = some (x, q') →
      Reach (assign poolSize maxStreams) always s₀ ⟨x, l.set i q⟩ →
      Reach (assign poolSize maxStreams) always s₀ ⟨x, l.set i q'⟩ := by
    intro q q' e he hr
    refine hr.step (.task i e) trivial ?_
    simp [assign, Tasks.step, hi, he]
  -- induction on the tunnels that are left to read
  induction rest generalizing best with
  | nil =>
      cases best with
      | none => exact hstep (e := .endPick) rfl h
      | some n => exact hstep (e := .endPick) rfl h
  | cons n rest ih =>
      cases hroom : x.room maxStreams n with
      | false =>
          rw [List.filter_cons_of_neg (by simp [hroom])]
          refine ih best (hstep (e := .filter) ?_ h)
          simp only [Shared.room, decide_eq_false_iff_not] at hroom
          simp [openStream, hroom]
      | true =>
          rw [List.filter_cons_of_pos hroom, List.foldl_cons]
          simp only [Shared.room, decide_eq_true_eq] at hroom
          have hkeying : Reach (assign poolSize maxStreams) always s₀
              ⟨x, l.set i (.keying n rest (best.map fun m => (x.streams m, m)))⟩ :=
            hstep (e := .filter) (by simp [openStream, hroom]) h
          refine ih _ (hstep (e := .key) ?_ hkeying)
          cases best with
          | none => rfl
          | some m =>
              simp only [openStream, List.argAux, firstMin, Option.map_some, UInt32.lt_iff_toNat_lt]
              split <;> rfl

/-- **The least loaded tunnel.**  A request that reads the loads while nothing else moves finds the
first of the least loaded live tunnels with room, and otherwise that there is none. -/
theorem scan_least {s₀ : Assign} {x : Shared} {l : List Request} {i : ℕ} (hpool : poolSize ≠ 0)
    (hi : l[i]? = some .start)
    (h : Reach (assign poolSize maxStreams) always s₀ ⟨x, l⟩) :
    Reach (assign poolSize maxStreams) always s₀
      ⟨x, l.set i (.ofPick (pick maxStreams x (x.watch.pool.shared.tunnels.map Tunnel.id)))⟩ := by
  have hlt := (List.getElem?_eq_some_iff.1 hi).1
  refine picking_ends hlt none _ (h.step (.task i .pick) trivial ?_)
  simp [assign, Tasks.step, hi, openStream, hpool]

/-! ### How the counts move -/

/-- **What a step of a request does to the counts.** -/
theorem openStream_cases {i : ℕ} {s : Shared} {q : Request} {e : RequestStep} {r : Shared × Request}
    (h : openStream poolSize maxStreams i s q e = some r) :
    (r.1.streams = s.streams ∧ (∀ n, r.2.on n = q.on n) ∧
        (∀ n, r.2.heading n = true → q.heading n = true) ∧
        (r.2.choosing = true → q.choosing = true)) ∨
      (e = .pick ∧ r.1 = s ∧ (∀ n, r.2.on n = q.on n ∧ r.2.heading n = false) ∧
        q.choosing = false) ∨
      (∃ id rest best, q = .picking (id :: rest) best ∧ r = (s, .keying id rest best) ∧
        s.streams id < maxStreams) ∨
      (∃ id, q = .picked id ∧ r = (s.addStream id, .opening id)) ∨
      ∃ id, (q = .opening id ∨ q = .stream id) ∧ r.1 = s.subStream id ∧
        (∀ n, r.2.on n = false ∧ r.2.heading n = false) ∧ r.2.choosing = false := by
  unfold openStream at h
  split at h
  case h_1 =>
      split at h
      · obtain rfl := Option.some.inj h
        exact .inl ⟨rfl, fun _ => rfl, by simp [Request.heading], by simp [Request.choosing]⟩
      · obtain rfl := Option.some.inj h
        exact .inr (.inl ⟨rfl, rfl, fun _ => ⟨rfl, rfl⟩, rfl⟩)
  case h_2 id rest best =>
      split at h
      · rename_i hroom
        obtain rfl := Option.some.inj h
        exact .inr (.inr (.inl ⟨id, rest, best, rfl, rfl, hroom.2⟩))
      · obtain rfl := Option.some.inj h
        exact .inl ⟨rfl, fun _ => rfl, by cases best <;> simp [Request.heading], fun _ => rfl⟩
  case h_3 id rest best =>
      obtain rfl := Option.some.inj h
      refine .inl ⟨rfl, fun _ => rfl, fun n hn => ?_, fun _ => rfl⟩
      cases best with
      | none => simpa [Request.heading, firstMin] using of_decide_eq_true hn
      | some b =>
          simp only [Request.heading, firstMin] at hn
          split at hn
          · simpa [Request.heading] using Or.inl (of_decide_eq_true hn)
          · simpa [Request.heading] using Or.inr (of_decide_eq_true hn)
  case h_4 best =>
      obtain rfl := Option.some.inj h
      exact .inl ⟨rfl, fun _ => rfl, fun _ hn => hn, fun _ => rfl⟩
  case h_9 id =>
      obtain rfl := Option.some.inj h
      exact .inr (.inr (.inr (.inl ⟨id, rfl, rfl⟩)))
  case h_11 id =>
      obtain rfl := Option.some.inj h
      exact .inr (.inr (.inr (.inr ⟨id, .inl rfl, rfl, fun _ => ⟨rfl, rfl⟩, rfl⟩)))
  case h_12 id e _ =>
      obtain rfl := Option.some.inj h
      exact .inr (.inr (.inr (.inr ⟨id, .inl rfl, rfl, fun _ => ⟨rfl, rfl⟩, rfl⟩)))
  case h_15 id =>
      obtain rfl := Option.some.inj h
      exact .inr (.inr (.inr (.inr ⟨id, .inr rfl, rfl, fun _ => ⟨rfl, rfl⟩, rfl⟩)))
  all_goals try split at h
  all_goals first
    | cases h; done
    | (obtain rfl := Option.some.inj h
       exact .inl ⟨rfl, fun _ => rfl, by simp [Request.heading], by simp [Request.choosing]⟩)
    | (obtain ⟨w, -, rfl⟩ := Option.map_eq_some_iff.1 h
       exact .inl ⟨rfl, fun _ => rfl, by simp [Request.heading], by simp [Request.choosing]⟩)

/-! ### The loads -/

/-- Whoever heads for a tunnel is choosing. -/
theorem Request.choosing_of_heading {q : Request} {n : ℕ} (h : q.heading n = true) :
    q.choosing = true := by
  unfold heading at h
  split at h
  all_goals first
    | rfl
    | cases h

theorem heading_le_choosing (s : Assign) (n : ℕ) : heading s n ≤ choosing s :=
  List.countP_mono_left fun _ _ h => Request.choosing_of_heading h

/-- The pool and a new request change no load. -/
theorem serve_cases {s : Shared} {x : Incoming} {r : Shared × List Request}
    (h : serve poolSize s x = some r) :
    r.1.streams = s.streams ∧ ∀ p : Request → Bool, p .start = false → r.2.countP p = 0 := by
  cases x with
  | pool e =>
      obtain ⟨w, -, rfl⟩ := Option.map_eq_some_iff.1 h
      exact ⟨rfl, fun _ _ => rfl⟩
  | connect =>
      obtain rfl := Option.some.inj h
      exact ⟨rfl, fun p hp => by simp [hp]⟩

/-- The counter of a tunnel counts the streams on it. -/
theorem load_step (n : ℕ) (h : assign poolSize maxStreams s a = some s')
    (hg : s.shared.streams n = count32 (load s n)) : s'.shared.streams n = count32 (load s' n) := by
  refine gauge_step (p := Request.on n) (g := fun st => st.streams n) count32 h ?_ ?_ hg
  · intro x r _ hr
    obtain ⟨hstreams, hnew⟩ := serve_cases hr
    simp [hstreams, hnew (Request.on n) rfl]
  · intro i b q r _ _ hr
    obtain ⟨hst, hon, -⟩ | ⟨-, hst, hsame, -⟩ | ⟨id, rest, best, rfl, rfl, -⟩ | ⟨id, rfl, rfl⟩ |
      ⟨id, hq, hst, hgone, -⟩ := openStream_cases hr
    · rw [hst, hon n]
    · rw [hst, (hsame n).1]
    · rfl
    · by_cases hn : id = n
      · subst hn
        simp [Shared.addStream, Request.on]
      · simp [Shared.addStream, Request.on, hn, Function.update_of_ne (Ne.symm hn)]
    · have hon : q.on n = decide (id = n) := by
        rcases hq with rfl | rfl <;> rfl
      rw [hst, hon, (hgone n).1]
      by_cases hn : id = n
      · subst hn
        simp [Shared.subStream]
      · simp [Shared.subStream, hn, Function.update_of_ne (Ne.symm hn)]

/-- The counter of a tunnel counts its streams, which stay within the limit of the tunnel and the
requests that choose at a time. -/
structure Level (maxStreams : UInt32) (k : ℕ) (s : Assign) : Prop where
  choosing : choosing s ≤ k
  gauge : ∀ n, s.shared.streams n = count32 (load s n)
  bound : ∀ n, load s n + heading s n ≤ maxStreams.toNat + (k - 1)

/-- A load that fits the machine word is read as it is. -/
theorem Level.load_eq {k : ℕ} (hfits : maxStreams.toNat + (k - 1) < 2 ^ 32)
    (hl : Level maxStreams k s) (n : ℕ) : (s.shared.streams n).toNat = load s n := by
  rw [hl.gauge n]
  exact UInt32.toNat_ofNat_of_lt' (((Nat.le_add_right _ _).trans (hl.bound n)).trans_lt hfits)

theorem Level.step {k : ℕ} (hfits : maxStreams.toNat + (k - 1) < 2 ^ 32) (hl : Level maxStreams k s)
    (hk : AtMost k s a) (h : assign poolSize maxStreams s a = some s') : Level maxStreams k s' := by
  have hgauge : ∀ n, s'.shared.streams n = count32 (load s' n) := fun n => load_step n h (hl.gauge n)
  obtain ⟨x, r, rfl, hr, rfl⟩ | ⟨i, b, q, r, rfl, hq, hr, rfl⟩ := step_cases h
  · have hnew := (serve_cases hr).2
    refine ⟨?_, hgauge, fun n => ?_⟩
    · rw [Nextppp.Pool.choosing, List.countP_append, hnew Request.choosing rfl]
      exact hl.choosing
    · rw [load, heading, List.countP_append, List.countP_append, hnew (Request.on n) rfl,
        hnew (Request.heading n) rfl]
      exact hl.bound n
  · have hon : ∀ n, _ := fun n => countP_set (Request.on n) r.2 hq
    have hhead : ∀ n, _ := fun n => countP_set (Request.heading n) r.2 hq
    have hchoose := countP_set Request.choosing r.2 hq
    have hc := hl.choosing
    have hb := hl.bound
    simp only [load, heading, Nextppp.Pool.choosing] at hon hhead hchoose hc hb
    suffices hnew : (s.tasks.set i r.2).countP Request.choosing ≤ k ∧
        ∀ n, (s.tasks.set i r.2).countP (Request.on n) + (s.tasks.set i r.2).countP (Request.heading n)
          ≤ maxStreams.toNat + (k - 1) from ⟨hnew.1, hgauge, hnew.2⟩
    obtain ⟨-, hon', hhead', hch⟩ | ⟨rfl, -, hsame, hch⟩ | ⟨id, rest, best, rfl, rfl, hroom⟩ |
      ⟨id, rfl, rfl⟩ | ⟨id, -, -, hgone, hch⟩ := openStream_cases hr
    · have hch' := Bool.toNat_le_toNat hch
      refine ⟨by omega, fun n => ?_⟩
      have h₁ := hon n
      have h₂ := hhead n
      have h₃ := hb n
      have h₄ := Bool.toNat_le_toNat (hhead' n)
      rw [hon' n] at h₁
      omega
    · have hfree := hk rfl
      simp only [Nextppp.Pool.choosing] at hfree
      have hone := Bool.toNat_le r.2.choosing
      rw [hch, Bool.toNat_false] at hchoose
      refine ⟨by omega, fun n => ?_⟩
      have h₁ := hon n
      have h₂ := hhead n
      have h₃ := hb n
      rw [(hsame n).1] at h₁
      rw [(hsame n).2, Bool.toNat_false] at h₂
      omega
    · -- the load was below the limit, and whoever heads for the tunnel is choosing
      have hchoose' : (s.tasks.set i (.keying id rest best)).countP Request.choosing
          = s.tasks.countP Request.choosing := by
        simpa [Request.choosing] using hchoose
      refine ⟨hchoose'.trans_le hc, fun n => ?_⟩
      have h₁ := hon n
      have h₂ := hhead n
      have h₃ := hb n
      have hon' : Request.on n (.keying id rest best)
          = Request.on n (.picking (id :: rest) best) := rfl
      dsimp only at h₁ h₂ ⊢
      rw [hon'] at h₁
      by_cases hn : id = n
      · subst hn
        have hlt := UInt32.lt_iff_toNat_lt.1 hroom
        rw [hl.load_eq hfits id, load] at hlt
        have hpos : 0 < s.tasks.countP Request.choosing :=
          List.countP_pos_iff.2 ⟨_, List.mem_of_getElem? hq, rfl⟩
        have h₄ := heading_le_choosing ⟨s.shared, s.tasks.set i (.keying id rest best)⟩ id
        simp only [heading, Nextppp.Pool.choosing] at h₄
        omega
      · have hsame : Request.heading n (.keying id rest best)
            = Request.heading n (.picking (id :: rest) best) := by
          cases best <;> simp [Request.heading, hn]
        rw [hsame] at h₂
        omega
    · -- the request takes its place among the streams
      refine ⟨?_, fun n => ?_⟩
      · simp only [Request.choosing, Bool.toNat_true, Bool.toNat_false] at hchoose
        dsimp only
        omega
      · have h₁ := hon n
        have h₂ := hhead n
        have h₃ := hb n
        simp only [Request.on, Request.heading, Bool.toNat_false] at h₁ h₂
        dsimp only
        omega
    · rw [hch, Bool.toNat_false] at hchoose
      refine ⟨by omega, fun n => ?_⟩
      have h₁ := hon n
      have h₂ := hhead n
      have h₃ := hb n
      rw [(hgone n).1, Bool.toNat_false] at h₁
      rw [(hgone n).2, Bool.toNat_false] at h₂
      omega

theorem Level.reach {k : ℕ} (hfits : maxStreams.toNat + (k - 1) < 2 ^ 32)
    (h : Reach (assign poolSize maxStreams) (AtMost k) (unassigned poolSize) s) :
    Level maxStreams k s :=
  Reach.invariant (I := Level maxStreams k)
    ⟨Nat.zero_le _, fun _ => rfl, fun _ => Nat.zero_le _⟩ (fun hl hk hs => hl.step hfits hk hs) h

/-- **The limit of a tunnel.**  Where at most `k` requests choose a tunnel at a time, no tunnel carries
more than `k - 1` streams above its limit, and its counter is the number of its streams. -/
theorem load_within (poolSize maxStreams : UInt32) (k : ℕ) {s : Assign}
    (hfits : maxStreams.toNat + (k - 1) < 2 ^ 32)
    (h : Reach (assign poolSize maxStreams) (AtMost k) (unassigned poolSize) s) (id : ℕ) :
    load s id ≤ maxStreams.toNat + (k - 1) ∧ (s.shared.streams id).toNat = load s id := by
  have hl := Level.reach hfits h
  exact ⟨(Nat.le_add_right _ _).trans (hl.bound id), hl.load_eq hfits id⟩

/-- The pool gets its first tunnel. -/
def firstTunnel : List (Act Incoming RequestStep) :=
  [countRound, [.act (.main .spawnDial)], landed 0].flatten.map fun e => .main (.pool e)

/-- A request comes in and chooses the only tunnel. -/
def chooseOne (i : ℕ) : List (Act Incoming RequestStep) :=
  [.main .connect, .task i .pick, .task i .filter, .task i .key, .task i .endPick]

/-- Two requests that choose at the same time put two streams on a tunnel for one; a third request
finds the tunnel full and dials its own. -/
theorem load_within_two :
    ∃ s, Reach (assign 1 1) (AtMost 2) (unassigned 1) s ∧ load s 0 = 2 ∧
      s.tasks[2]? = some .dialing ∧
      load s 0 ≤ (1 : UInt32).toNat + (2 - 1) ∧ (s.shared.streams 0).toNat = load s 0 := by
  obtain ⟨s, he, hload, hthird⟩ : ∃ s, exec (assign 1 1) (AtMost 2) (unassigned 1)
      [firstTunnel, chooseOne 0, chooseOne 1, [.task 0 .register, .task 1 .register],
        [.main .connect, .task 2 .pick, .task 2 .filter, .task 2 .endPick, .task 2 .anyLive]].flatten
        = some s ∧ load s 0 = 2 ∧ s.tasks[2]? = some .dialing := ⟨_, rfl, rfl, rfl⟩
  have h : Reach (assign 1 1) (AtMost 2) (unassigned 1) s := Reach.refl.of_exec _ he
  exact ⟨s, h, hload, hthird, load_within 1 1 2 (by decide) h 0⟩

end Pool

end Nextppp

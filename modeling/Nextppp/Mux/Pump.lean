/-
**The two directions of a stream.**

`pump_stream` runs two tasks against one local socket, one towards the tunnel and one back.  A direction
that ends with EOF leaves its sibling running; any other end aborts it, and the abort races with what
the sibling does on its own.  What is reported is computed from the two ends, after the fact.

The model interleaves the rounds of the two tasks, the moment `select!` takes the handle of one of
them (when both are over it may take either), the moment an abort takes effect, and the final join.
The ghost field `first` remembers the direction that was first to end other than with EOF.

Main definitions:

* `Nextppp.StreamPump.pumpUp`, `Nextppp.StreamPump.pumpDown` — a round of either direction;
* `Nextppp.StreamPump.streamEnd` — what is made of the two ends;
* `Nextppp.StreamPump.step` — the tasks, interleaved.

Main results:

* `Nextppp.StreamPump.Inv.reach` — what holds in every state of every schedule;
* `Nextppp.StreamPump.cause_reported_iff` — when the report names the first failure.
-/

import Nextppp.Mux.Channel
import Nextppp.Common.Routine
import Nextppp.Lib.System

set_option relaxedAutoImplicit false
set_option autoImplicit false

namespace Nextppp

namespace StreamPump

/-! ### Ends -/

/-- How a proxied stream terminated. -/
inductive StreamEnd
  | graceful
  | closed (cause : String)
  | fault (e : String)
  deriving DecidableEq, Repr

/-- How one direction terminated. -/
inductive DirEnd
  | eof
  | closed (cause : String)
  | fault (e : String)
  deriving DecidableEq, Repr

/-- Whether the sibling direction may go on. -/
def DirEnd.graceful : DirEnd → Bool
  | .eof => true
  | _ => false

/-- The end of a direction as the end of the stream. -/
def DirEnd.toStreamEnd : DirEnd → StreamEnd
  | .eof => .graceful
  | .closed c => .closed c
  | .fault e => .fault e

/-- A system error ends a direction by a routine close or by a fault. -/
def classifyIoEnd (e : SysError) : DirEnd :=
  match routineCause e.kind with
  | some cause => .closed cause
  | none => .fault e.msg

/-- What a handle yields: the end the task returned, or that it was cancelled, or panicked. -/
inductive Join
  | returned (e : DirEnd)
  | cancelled
  | panicked
  deriving DecidableEq, Repr

/-- The end a handle stands for. -/
def joinDir : Join → DirEnd
  | .returned e => e
  | .cancelled => .closed "aborted"
  | .panicked => .fault "stream pump panicked"

/-- The end of the stream, from the ends of the direction towards the tunnel and of the other one. -/
def streamEnd : DirEnd → DirEnd → StreamEnd
  | .eof, .eof => .graceful
  | .fault e, _ => .fault e
  | _, .fault e => .fault e
  | .closed c, _ => .closed c
  | _, .closed c => .closed c

/-! ### Rounds -/

/-- What a round of a direction does: bytes pumped, frames queued, and the end, if it is one. -/
structure Progress where
  bytes : ℕ
  frames : List OutFrame
  ended : Option DirEnd

/-- A round of the direction towards the tunnel: what was read (nothing at the end of the stream), and
whether the tunnel took the frame. -/
structure UpRound where
  read : Except SysError (List UInt8)
  taken : Bool

/-- Chunks become `DATA`, the end of the stream `EOF`, a fault `CLOSE`. -/
def pumpUp (sid : StreamId) (r : UpRound) : Progress :=
  match r.read with
  | .ok [] =>
      if r.taken then ⟨0, [.bare .eof sid], some .eof⟩ else ⟨0, [], some (.closed "tunnel closed")⟩
  | .ok chunk =>
      if r.taken then ⟨chunk.length, [⟨.data, sid, chunk⟩], none⟩
      else ⟨0, [], some (.closed "tunnel closed")⟩
  | .error e => ⟨0, if r.taken then [.bare .close sid] else [], some (classifyIoEnd e)⟩

/-- A round of the direction towards the local socket: the event received (none when the sender is
gone), the outcome of the write, and whether the tunnel has room for a `CLOSE`. -/
structure DownRound where
  event : Option StreamEvent
  write : Except SysError Unit
  room : Bool

/-- Payloads are written out, an `EOF` shuts the local side down, a `CLOSE` ends the direction. -/
def pumpDown (sid : StreamId) (r : DownRound) : Progress :=
  match r.event with
  | none => ⟨0, [], some (.closed "tunnel closed")⟩
  | some (.data payload) =>
      match r.write with
      | .ok () => ⟨payload.length, [], none⟩
      | .error e => ⟨0, if r.room then [.bare .close sid] else [], some (classifyIoEnd e)⟩
  | some .eof => ⟨0, [], some .eof⟩
  | some .close => ⟨0, [], some (.closed "peer reset")⟩

/-! ### The schedule -/

/-- The two directions. -/
inductive Dir
  | up
  | down
  deriving DecidableEq, Repr

/-- The sibling. -/
def Dir.other : Dir → Dir
  | .up => .down
  | .down => .up

@[simp] theorem Dir.other_other (d : Dir) : d.other.other = d := by cases d <;> rfl

@[simp] theorem Dir.other_ne (d : Dir) : d.other ≠ d := by cases d <;> decide

theorem Dir.eq_or_eq_other (d d' : Dir) : d' = d ∨ d' = d.other := by
  cases d <;> cases d' <;> simp [Dir.other]

/-- A direction task. -/
inductive Task
  | running
  | over (j : Join)
  deriving DecidableEq, Repr

/-- Outcome of pumping one stream. -/
structure PumpOutcome where
  up : ℕ
  down : ℕ
  streamEnd : StreamEnd
  deriving DecidableEq, Repr

/-- Where `pump_stream` is: in the `select!`, waiting for the sibling of the direction it saw end, or
done. -/
inductive Main
  | selecting
  | joining (seen : Dir) (e : DirEnd)
  | done (o : PumpOutcome)
  deriving DecidableEq, Repr

/-- The tasks of a stream and what they share. -/
structure State where
  task : Dir → Task
  bytes : Dir → ℕ
  out : List OutFrame
  aborted : Option Dir
  main : Main
  first : Option Dir

/-- Both tasks are spawned. -/
def State.init : State where
  task _ := .running
  bytes _ := 0
  out := []
  aborted := none
  main := .selecting
  first := none

/-- A task is over on its own. -/
def State.finish (s : State) (d : Dir) (j : Join) : State :=
  { s with
    task := Function.update s.task d (.over j)
    first := if s.first = none ∧ (joinDir j).graceful = false then some d else s.first }

/-- A round of a task. -/
def State.progress (s : State) (d : Dir) (p : Progress) : State :=
  let s := { s with
    bytes := Function.update s.bytes d (s.bytes d + p.bytes)
    out := s.out ++ p.frames }
  match p.ended with
  | none => s
  | some e => s.finish d (.returned e)

/-- The ends in the order of the final match. -/
def ends (seen : Dir) (e sibling : DirEnd) : StreamEnd :=
  match seen with
  | .up => streamEnd e sibling
  | .down => streamEnd sibling e

/-- Steps of the tasks, of the abort, and of `pump_stream` itself. -/
inductive Act
  | up (r : UpRound)
  | down (r : DownRound)
  | panic (d : Dir)
  | cancel (d : Dir)
  | select (d : Dir)
  | join

/-- The interleaving semantics. -/
def step (sid : StreamId) (s : State) : Act → Option State
  | .up r => if s.task .up = .running then some (s.progress .up (pumpUp sid r)) else none
  | .down r => if s.task .down = .running then some (s.progress .down (pumpDown sid r)) else none
  | .panic d => if s.task d = .running then some (s.finish d .panicked) else none
  | .cancel d =>
      -- an abort takes effect while the task is still running
      if s.aborted = some d ∧ s.task d = .running then
        some { s with task := Function.update s.task d (.over .cancelled) }
      else none
  | .select d =>
      match s.main, s.task d with
      | .selecting, .over j =>
          some { s with
            main := .joining d (joinDir j)
            aborted := if (joinDir j).graceful then none else some d.other }
      | _, _ => none
  | .join =>
      match s.main with
      | .joining d e =>
          match s.task d.other with
          | .over j => some { s with
              main := .done ⟨s.bytes .up, s.bytes .down, ends d e (joinDir j)⟩ }
          | .running => none
      | _ => none

/-! ### What holds in every schedule -/

theorem graceful_iff (j : Join) : (joinDir j).graceful = true ↔ j = .returned .eof := by
  cases j with
  | returned e => cases e <;> simp [joinDir, DirEnd.graceful]
  | cancelled => simp [joinDir, DirEnd.graceful]
  | panicked => simp [joinDir, DirEnd.graceful]

/-- **What a step can do**: a round that goes on, a task that ends on its own, an abort that takes
effect, the `select!`, or the final join. -/
theorem step_cases {sid : StreamId} {s s' : State} {a : Act} (h : step sid s a = some s') :
    (s'.task = s.task ∧ s'.aborted = s.aborted ∧ s'.main = s.main ∧ s'.first = s.first) ∨
    (∃ d j, s.task d = .running ∧ j ≠ .cancelled ∧ s'.task = Function.update s.task d (.over j) ∧
      s'.aborted = s.aborted ∧ s'.main = s.main ∧
      s'.first = if s.first = none ∧ (joinDir j).graceful = false then some d else s.first) ∨
    (∃ d, s.aborted = some d ∧ s.task d = .running ∧
      s' = { s with task := Function.update s.task d (.over .cancelled) }) ∨
    (∃ d j, s.main = .selecting ∧ s.task d = .over j ∧
      s' = { s with
        main := .joining d (joinDir j)
        aborted := if (joinDir j).graceful then none else some d.other }) ∨
    ∃ d e j, s.main = .joining d e ∧ s.task d.other = .over j ∧
      s' = { s with main := .done ⟨s.bytes .up, s.bytes .down, ends d e (joinDir j)⟩ } := by
  -- a round of either direction goes on or ends the task
  have hround : ∀ d p, s.task d = .running → s.progress d p = s' →
      (s'.task = s.task ∧ s'.aborted = s.aborted ∧ s'.main = s.main ∧ s'.first = s.first) ∨
      ∃ d j, s.task d = .running ∧ j ≠ .cancelled ∧
        s'.task = Function.update s.task d (.over j) ∧ s'.aborted = s.aborted ∧ s'.main = s.main ∧
        s'.first = if s.first = none ∧ (joinDir j).graceful = false then some d else s.first := by
    rintro d ⟨bytes, frames, ended⟩ hrun rfl
    cases ended with
    | none => exact .inl ⟨rfl, rfl, rfl, rfl⟩
    | some e => exact .inr ⟨d, .returned e, hrun, by simp, rfl, rfl, rfl, rfl⟩
  cases a with
  | up r =>
      simp only [step] at h
      split at h
      · rename_i hrun
        exact (hround .up _ hrun (Option.some.inj h)).imp_right .inl
      · cases h
  | down r =>
      simp only [step] at h
      split at h
      · rename_i hrun
        exact (hround .down _ hrun (Option.some.inj h)).imp_right .inl
      · cases h
  | panic d =>
      simp only [step] at h
      split at h
      · rename_i hrun
        cases h
        exact .inr (.inl ⟨d, .panicked, hrun, by simp, rfl, rfl, rfl, rfl⟩)
      · cases h
  | cancel d =>
      simp only [step] at h
      split at h
      · rename_i hok
        cases h
        exact .inr (.inr (.inl ⟨d, hok.1, hok.2, rfl⟩))
      · cases h
  | select d =>
      simp only [step] at h
      split at h
      · rename_i j hmain htask
        cases h
        exact .inr (.inr (.inr (.inl ⟨d, j, hmain, htask, rfl⟩)))
      · cases h
  | join =>
      simp only [step] at h
      split at h
      · rename_i d e hmain
        split at h
        · rename_i j htask
          cases h
          exact .inr (.inr (.inr (.inr ⟨d, e, j, hmain, htask, rfl⟩)))
        · cases h
      · cases h

/-- What holds in every state of every schedule. -/
structure Inv (s : State) : Prop where
  /-- before the first failure every task runs or ended with EOF -/
  quiet : s.first = none → ∀ d, s.task d = .running ∨ s.task d = .over (.returned .eof)
  /-- the first to fail is over -/
  named : ∀ d, s.first = some d → ∃ j, s.task d = .over j ∧ (joinDir j).graceful = false
  /-- only the sibling of the first to fail is cancelled -/
  cancelled : ∀ d, s.task d = .over .cancelled → s.first = some d.other
  /-- a task is aborted because its sibling failed -/
  aborted : ∀ d, s.aborted = some d → ∃ j, s.task d.other = .over j ∧ (joinDir j).graceful = false
  joining : ∀ d e, s.main = .joining d e → ∃ j, s.task d = .over j ∧ e = joinDir j
  done : ∀ o, s.main = .done o → ∃ j k, s.task .up = .over j ∧ s.task .down = .over k ∧
    o.streamEnd = streamEnd (joinDir j) (joinDir k)

/-- A task that is over is not touched when another one moves. -/
theorem update_over {t : Dir → Task} {d d' : Dir} {j k : Join} (hrun : t d = .running)
    (hover : t d' = .over j) : Function.update t d (.over k) d' = .over j := by
  have hne : d' ≠ d := by
    rintro rfl
    rw [hrun] at hover
    cases hover
  rw [Function.update_of_ne hne, hover]

theorem Inv.init : Inv State.init where
  quiet _ _ := .inl rfl
  named _ h := by cases h
  cancelled _ h := by cases h
  aborted _ h := by cases h
  joining _ _ h := by cases h
  done _ h := by cases h

/-- A task that ends, on its own or because it was aborted, keeps what was over. -/
theorem Inv.over {s : State} (hs : Inv s) {d : Dir} (k : Join) (hrun : s.task d = .running) :
    (∀ d', s.first = some d' →
      ∃ j, Function.update s.task d (.over k) d' = .over j ∧ (joinDir j).graceful = false) ∧
    (∀ d', s.aborted = some d' →
      ∃ j, Function.update s.task d (.over k) d'.other = .over j ∧ (joinDir j).graceful = false) ∧
    (∀ d' e, s.main = .joining d' e →
      ∃ j, Function.update s.task d (.over k) d' = .over j ∧ e = joinDir j) ∧
    ∀ o, s.main = .done o → ∃ j l, Function.update s.task d (.over k) .up = .over j ∧
      Function.update s.task d (.over k) .down = .over l ∧
      o.streamEnd = streamEnd (joinDir j) (joinDir l) := by
  refine ⟨fun d' h => ?_, fun d' h => ?_, fun d' e h => ?_, fun o h => ?_⟩
  · obtain ⟨j, hj, hg⟩ := hs.named d' h
    exact ⟨j, update_over hrun hj, hg⟩
  · obtain ⟨j, hj, hg⟩ := hs.aborted d' h
    exact ⟨j, update_over hrun hj, hg⟩
  · obtain ⟨j, hj, he⟩ := hs.joining d' e h
    exact ⟨j, update_over hrun hj, he⟩
  · obtain ⟨j, l, hj, hl, ho⟩ := hs.done o h
    exact ⟨j, l, update_over hrun hj, update_over hrun hl, ho⟩

/-- Every step keeps the invariant. -/
theorem Inv.step {sid : StreamId} {s s' : State} {a : Act} (hs : Inv s)
    (h : step sid s a = some s') : Inv s' := by
  -- nothing failed yet, so nothing was aborted
  have hfirst : ∀ d, s.aborted = some d → s.first ≠ none := by
    intro d hd hnone
    obtain ⟨j, hj, hg⟩ := hs.aborted d hd
    rcases hs.quiet hnone d.other with hq | hq
    · rw [hq] at hj
      cases hj
    · rw [hq] at hj
      cases hj
      cases hg
  obtain ⟨ht, ha, hm, hf⟩ | ⟨d, j, hrun, hj, ht, ha, hm, hf⟩ | ⟨d, hab, hrun, rfl⟩ |
    ⟨d, j, hm, ht, rfl⟩ | ⟨d, e, j, hm, ht, rfl⟩ := step_cases h
  · -- a round that goes on
    exact ⟨by rw [hf, ht]; exact hs.quiet, by rw [hf, ht]; exact hs.named,
      by rw [hf, ht]; exact hs.cancelled, by rw [ha, ht]; exact hs.aborted,
      by rw [hm, ht]; exact hs.joining, by rw [hm, ht]; exact hs.done⟩
  · -- a task ends on its own
    obtain ⟨hnamed, haborted, hjoining, hdone⟩ := hs.over j hrun
    refine ⟨?_, ?_, ?_, by rw [ha, ht]; exact haborted, by rw [hm, ht]; exact hjoining,
      by rw [hm, ht]; exact hdone⟩
    · rw [hf, ht]
      intro hnone d'
      split at hnone
      · cases hnone
      · rename_i hcond
        have hg : (joinDir j).graceful = true := by
          rw [not_and, Bool.not_eq_false] at hcond
          exact hcond hnone
        rcases eq_or_ne d' d with rfl | hne
        · rw [Function.update_self, (graceful_iff j).1 hg]
          exact .inr rfl
        · rw [Function.update_of_ne hne]
          exact hs.quiet hnone d'
    · rw [hf, ht]
      intro d' hd'
      split at hd'
      · rename_i hcond
        cases hd'
        exact ⟨j, Function.update_self .., hcond.2⟩
      · exact hnamed d' hd'
    · rw [hf, ht]
      intro d' hd'
      rcases eq_or_ne d' d with rfl | hne
      · rw [Function.update_self] at hd'
        cases hd'
        exact absurd rfl hj
      · rw [Function.update_of_ne hne] at hd'
        have hsome := hs.cancelled d' hd'
        rw [hsome]
        exact if_neg (by simp)
  · -- an abort takes effect
    obtain ⟨hnamed, haborted, hjoining, hdone⟩ := hs.over .cancelled hrun
    refine ⟨fun hnone => absurd hnone (hfirst d hab), hnamed, ?_, haborted, hjoining, hdone⟩
    intro d' hd'
    rcases eq_or_ne d' d with rfl | hne
    · obtain ⟨x, hx⟩ := Option.ne_none_iff_exists'.1 (hfirst d' hab)
      obtain ⟨k, hk, -⟩ := hs.named x hx
      rcases Dir.eq_or_eq_other d' x with rfl | rfl
      · rw [hrun] at hk
        cases hk
      · exact hx
    · dsimp only at hd'
      rw [Function.update_of_ne hne] at hd'
      exact hs.cancelled d' hd'
  · -- the `select!` takes a handle
    refine ⟨hs.quiet, hs.named, hs.cancelled, ?_, ?_, ?_⟩
    · intro d' hd'
      dsimp only at hd'
      split at hd'
      · cases hd'
      · rename_i hg
        cases hd'
        rw [Dir.other_other]
        exact ⟨j, ht, by simpa using hg⟩
    · rintro d' e' ⟨⟩
      exact ⟨j, ht, rfl⟩
    · rintro o ⟨⟩
  · -- the sibling is joined
    obtain ⟨k, hk, rfl⟩ := hs.joining d e hm
    refine ⟨hs.quiet, hs.named, hs.cancelled, hs.aborted, ?_, ?_⟩
    · rintro d' e' ⟨⟩
    · rintro o ⟨⟩
      cases d with
      | up => exact ⟨k, j, hk, ht, rfl⟩
      | down => exact ⟨j, k, ht, hk, rfl⟩

/-- The states of every schedule. -/
def Reach (sid : StreamId) : State → Prop := Run.Reach (step sid) Run.always State.init

theorem Inv.reach {sid : StreamId} {s : State} (h : Reach sid s) : Inv s :=
  Run.Reach.invariant Inv.init (fun hs _ hstep => hs.step hstep) h

/-! ### The report -/

/-- The end of the sibling takes over the report: a fault the place of a close, and the direction
towards the tunnel the place of the other one. -/
def outranked : Dir → DirEnd → DirEnd → Prop
  | .up, .closed _, .fault _ => True
  | .down, .closed _, .fault _ => True
  | .down, .closed c, .closed c' => c' ≠ c
  | .down, .fault e, .fault e' => e' ≠ e
  | _, _, _ => False

/-- The report names a failure exactly when the sibling does not outrank it. -/
theorem ends_eq_iff (d : Dir) {e : DirEnd} (he : e.graceful = false) (sibling : DirEnd) :
    ends d e sibling = e.toStreamEnd ↔ ¬outranked d e sibling := by
  cases d <;> cases e <;> cases sibling <;>
    simp_all [ends, streamEnd, outranked, DirEnd.toStreamEnd, DirEnd.graceful]

theorem streamEnd_graceful {e e' : DirEnd} (h : streamEnd e e' = .graceful) : e = .eof ∧ e' = .eof := by
  cases e <;> cases e' <;> simp_all [streamEnd]

/-- The report of `pump_stream` says the real cause: graceful exactly when both directions ended with
EOF, and otherwise the end of the direction that was first to fail. -/
def ReportsCause (s : State) (o : PumpOutcome) : Prop :=
  (o.streamEnd = .graceful ↔ ∀ d, s.task d = .over (.returned .eof)) ∧
    ∀ d j, s.first = some d → s.task d = .over j → o.streamEnd = (joinDir j).toStreamEnd

/-- The first failure is not outranked by the end of its sibling. -/
def Unhidden (s : State) : Prop :=
  ∀ d j k, s.first = some d → s.task d = .over j → s.task d.other = .over k →
    ¬outranked d (joinDir j) (joinDir k)

/-- The report, from the end of either direction and of its sibling. -/
theorem Inv.report {s : State} (hs : Inv s) {o : PumpOutcome} (ho : s.main = .done o) (d : Dir) :
    ∃ j k, s.task d = .over j ∧ s.task d.other = .over k ∧
      o.streamEnd = ends d (joinDir j) (joinDir k) := by
  obtain ⟨j, k, hj, hk, hend⟩ := hs.done o ho
  cases d with
  | up => exact ⟨j, k, hj, hk, hend⟩
  | down => exact ⟨k, j, hk, hj, hend⟩

theorem joinDir_eq_eof {j : Join} (h : joinDir j = .eof) : j = .returned .eof :=
  (graceful_iff j).1 (by rw [h]; rfl)

/-- The report is graceful exactly when both directions ended with EOF, in every schedule. -/
theorem Inv.graceful_iff_eof {s : State} (hs : Inv s) {o : PumpOutcome} (ho : s.main = .done o) :
    o.streamEnd = .graceful ↔ ∀ d, s.task d = .over (.returned .eof) := by
  obtain ⟨j, k, hj, hk, hend⟩ := hs.done o ho
  rw [hend]
  constructor
  · intro h
    obtain ⟨hup, hdown⟩ := streamEnd_graceful h
    intro d
    cases d with
    | up => rw [hj, joinDir_eq_eof hup]
    | down => rw [hk, joinDir_eq_eof hdown]
  · intro h
    have hup := hj.symm.trans (h .up)
    have hdown := hk.symm.trans (h .down)
    cases hup
    cases hdown
    rfl

/-- In every schedule, the report says the real cause exactly when the first failure is not
outranked by the end of its sibling. -/
theorem cause_reported_iff {sid : StreamId} {s : State} (h : Reach sid s) {o : PumpOutcome}
    (ho : s.main = .done o) : ReportsCause s o ↔ Unhidden s := by
  have hs := Inv.reach h
  constructor
  · rintro ⟨-, hcause⟩ d j k hd hj hk
    obtain ⟨j', k', hj', hk', hend⟩ := hs.report ho d
    obtain ⟨i, hi, hg⟩ := hs.named d hd
    cases hj.symm.trans hj'
    cases hk.symm.trans hk'
    cases hj.symm.trans hi
    rw [← ends_eq_iff d hg, ← hend]
    exact hcause d j hd hj
  · intro hun
    refine ⟨hs.graceful_iff_eof ho, ?_⟩
    intro d j hd hj
    obtain ⟨j', k, hj', hk, hend⟩ := hs.report ho d
    obtain ⟨i, hi, hg⟩ := hs.named d hd
    cases hj.symm.trans hj'
    cases hj.symm.trans hi
    rw [hend, ends_eq_iff d hg]
    exact hun d j k hd hj hk

/-- The local side resets, and the abort reaches the other direction: the reset is reported. -/
theorem cause_reported_local_reset : ∃ s o, Reach 1 s ∧ s.main = .done o ∧
    o.streamEnd = .closed "connection reset" ∧ ReportsCause s o := by
  obtain ⟨s, he, hmain, hfirst, hup, hdown⟩ : ∃ s,
      Run.exec (step 1) Run.always State.init
        [.up ⟨.error ⟨.connectionReset, "reset by peer"⟩, true⟩, .select .up, .cancel .down, .join]
        = some s ∧
      s.main = .done ⟨0, 0, .closed "connection reset"⟩ ∧ s.first = some .up ∧
      s.task .up = .over (.returned (.closed "connection reset")) ∧
      s.task .down = .over .cancelled := ⟨_, rfl, rfl, rfl, rfl, rfl⟩
  have hreach : Reach 1 s := Run.Reach.of_exec _ .refl he
  refine ⟨s, _, hreach, hmain, rfl, (cause_reported_iff hreach hmain).2 ?_⟩
  intro d j k hd hj hk
  cases hfirst.symm.trans hd
  cases hup.symm.trans hj
  cases hdown.symm.trans hk
  exact id

/-- A `CLOSE` of the peer, or the end of the tunnel, drops the sender of the events while the local side
is idle: the abort reaches the direction that waits for local bytes, and the report says `aborted`
instead of `tunnel closed`. -/
theorem sender_gone_reported_aborted : ∃ s o, Reach 1 s ∧ s.main = .done o ∧ s.first = some .down ∧
    s.task .down = .over (.returned (.closed "tunnel closed")) ∧ o.streamEnd = .closed "aborted" ∧
    ¬ReportsCause s o := by
  obtain ⟨s, he, hmain, hfirst, hdown⟩ : ∃ s,
      Run.exec (step 1) Run.always State.init
        [.down ⟨none, .ok (), true⟩, .select .down, .cancel .up, .join] = some s ∧
      s.main = .done ⟨0, 0, .closed "aborted"⟩ ∧ s.first = some .down ∧
      s.task .down = .over (.returned (.closed "tunnel closed")) := ⟨_, rfl, rfl, rfl, rfl⟩
  refine ⟨s, _, Run.Reach.of_exec _ .refl he, hmain, hfirst, hdown, rfl, ?_⟩
  intro h
  exact absurd (h.2 .down _ hfirst hdown) (by decide)

end StreamPump

end Nextppp

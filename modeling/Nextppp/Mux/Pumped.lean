/-
**What a pumped stream puts on the tunnel.**

Whatever the schedule of its two directions, a stream sends the chunks it read in their order, then at
most one end of stream, and a close only for a direction that failed.  A stream that is reported
graceful has sent its chunks and its end and nothing else, and the report counts the bytes that went
through in either direction.

Main definitions:

* `Nextppp.StreamPump.UpRound.chunk`, `Nextppp.StreamPump.DownRound.written` — what a round moves;
* `Nextppp.StreamPump.Pumped` — the frames and the counters, from the rounds so far.

Main results:

* `Nextppp.StreamPump.Pumped.step` — every step keeps the account;
* `Nextppp.StreamPump.frames_of_stream` — the frames and the report of every schedule.
-/

import Nextppp.Lib.Trace
import Nextppp.Mux.Pump

set_option relaxedAutoImplicit false
set_option autoImplicit false

namespace Nextppp

namespace StreamPump

open Run

/-! ### Rounds -/

/-- The chunk that a round takes from the local socket to the tunnel. -/
def UpRound.chunk (r : UpRound) : Option (List UInt8) :=
  match r.read with
  | .ok (b :: bs) => if r.taken then some (b :: bs) else none
  | _ => none

/-- The payload that a round takes from the tunnel to the local socket. -/
def DownRound.written (r : DownRound) : Option (List UInt8) :=
  match r.event, r.write with
  | some (.data payload), .ok () => some payload
  | _, _ => none

def Act.chunk : Act → Option (List UInt8)
  | .up r => r.chunk
  | _ => none

def Act.written : Act → Option (List UInt8)
  | .down r => r.written
  | _ => none

/-- The frame is no `CLOSE`. -/
def stays (f : OutFrame) : Bool := f.kind ≠ .close

/-- The `DATA` frame of a chunk. -/
def dataFrame (sid : StreamId) (chunk : List UInt8) : OutFrame := ⟨.data, sid, chunk⟩

/-- The direction ended on its own, other than with EOF. -/
def Task.failed : Task → Bool
  | .over (.returned e) => !e.graceful
  | _ => false

theorem Task.failed_running : Task.running.failed = false := rfl

/-- The `EOF` frame of a direction that has ended with it. -/
def endFrames (sid : StreamId) (e : Option DirEnd) : List OutFrame :=
  if e = some .eof then [.bare .eof sid] else []

/-- A system error never ends a direction gracefully. -/
theorem classifyIoEnd_cases (e : SysError) :
    (classifyIoEnd e).graceful = false ∧ classifyIoEnd e ≠ .eof := by
  unfold classifyIoEnd
  split <;> exact ⟨rfl, by simp⟩

/-- **What a round towards the tunnel queues.** -/
theorem pumpUp_spec (sid : StreamId) (r : UpRound) :
    (pumpUp sid r).bytes = (r.chunk.toList.flatten).length ∧
      (pumpUp sid r).frames.filter stays
        = r.chunk.toList.map (dataFrame sid) ++ endFrames sid (pumpUp sid r).ended ∧
      (pumpUp sid r).frames.countP (fun f => !stays f)
        ≤ ((pumpUp sid r).ended.any fun e => !e.graceful).toNat ∧
      ∀ f ∈ (pumpUp sid r).frames, f.stream = sid := by
  obtain ⟨read, taken⟩ := r
  cases read with
  | error e =>
      obtain ⟨hg, hne⟩ := classifyIoEnd_cases e
      cases taken <;> simp [pumpUp, UpRound.chunk, endFrames, stays, OutFrame.bare, hg, hne]
  | ok chunk =>
      cases chunk with
      | nil => cases taken <;> simp [pumpUp, UpRound.chunk, endFrames, stays, OutFrame.bare, DirEnd.graceful]
      | cons b bs =>
          cases taken <;> simp [pumpUp, UpRound.chunk, endFrames, stays, dataFrame, DirEnd.graceful]

/-- **What a round towards the local socket queues.** -/
theorem pumpDown_spec (sid : StreamId) (r : DownRound) :
    (pumpDown sid r).bytes = (r.written.toList.flatten).length ∧
      (pumpDown sid r).frames.filter stays = [] ∧
      (pumpDown sid r).frames.countP (fun f => !stays f)
        ≤ ((pumpDown sid r).ended.any fun e => !e.graceful).toNat ∧
      ∀ f ∈ (pumpDown sid r).frames, f.stream = sid := by
  obtain ⟨event, write, room⟩ := r
  rcases event with _ | payload | _ | _
  · simp [pumpDown, DownRound.written]
  · cases write with
    | error e =>
        obtain ⟨hg, -⟩ := classifyIoEnd_cases e
        cases room <;> simp [pumpDown, DownRound.written, stays, OutFrame.bare, hg]
    | ok u => simp [pumpDown, DownRound.written]
  · simp [pumpDown, DownRound.written]
  · simp [pumpDown, DownRound.written]

/-! ### Schedules -/

/-- The account of a stream: its counters, the frames it queued but for `CLOSE`, and the directions
that its `CLOSE` frames are for. -/
structure Pumped (sid : StreamId) (as : List Act) (s : State) : Prop where
  up : s.bytes .up = (as.filterMap Act.chunk).flatten.length
  down : s.bytes .down = (as.filterMap Act.written).flatten.length
  frames : s.out.filter stays = (as.filterMap Act.chunk).map (dataFrame sid)
    ++ if s.task .up = .over (.returned .eof) then [.bare .eof sid] else []
  closes : s.out.countP (fun f => !stays f) ≤ (s.task .up).failed.toNat + (s.task .down).failed.toNat
  streams : ∀ f ∈ s.out, f.stream = sid
  report : ∀ o, s.main = .done o → o.up = s.bytes .up ∧ o.down = s.bytes .down

variable {sid : StreamId} {as : List Act} {s s' : State}

theorem Pumped.init (sid : StreamId) : Pumped sid [] .init where
  up := rfl
  down := rfl
  frames := rfl
  closes := Nat.zero_le _
  streams := by simp [State.init]
  report := by simp [State.init]

/-- A task after a round: running on, or over with the end that the round returned. -/
def taskAfter : Option DirEnd → Task
  | none => .running
  | some e => .over (.returned e)

theorem progress_eq (s : State) (d : Dir) (p : Progress) (hrun : s.task d = .running) :
    (s.progress d p).task = Function.update s.task d (taskAfter p.ended) ∧
      (s.progress d p).bytes = Function.update s.bytes d (s.bytes d + p.bytes) ∧
      (s.progress d p).out = s.out ++ p.frames ∧ (s.progress d p).main = s.main := by
  unfold State.progress
  split
  · rename_i hnone
    refine ⟨?_, rfl, rfl, rfl⟩
    rw [hnone, taskAfter, ← hrun, Function.update_eq_self]
  · rename_i e hsome
    rw [hsome]
    exact ⟨rfl, rfl, rfl, rfl⟩

theorem taskAfter_failed (e : Option DirEnd) :
    (taskAfter e).failed = e.any fun e => !e.graceful := by
  cases e <;> rfl

/-- A stream that is reported has no running direction. -/
theorem Inv.done_over (hs : Inv s) {o : PumpOutcome} (ho : s.main = .done o) (d : Dir) :
    s.task d ≠ .running := by
  obtain ⟨j, k, hj, hk, -⟩ := hs.done o ho
  cases d
  · simp [hj]
  · simp [hk]

/-- A direction that ends without EOF queues nothing. -/
theorem Pumped.ends {j : Join} {d : Dir} (h : Pumped sid as s) (hrun : s.task d = .running)
    (hj : j = .cancelled ∨ j = .panicked) :
    s.out.filter stays = (as.filterMap Act.chunk).map (dataFrame sid)
      ++ (if Function.update s.task d (.over j) .up = .over (.returned .eof) then [.bare .eof sid] else []) ∧
    s.out.countP (fun f => !stays f) ≤ (Function.update s.task d (.over j) .up).failed.toNat
      + (Function.update s.task d (.over j) .down).failed.toNat := by
  have hframes := h.frames
  have hcloses := h.closes
  have hne : Task.over j ≠ .over (.returned .eof) := by
    rcases hj with rfl | rfl <;> simp
  have hfailed : (Task.over j).failed = false := by
    rcases hj with rfl | rfl <;> rfl
  cases d <;> simp_all [Task.failed]

theorem filterMap_snoc {α β : Type*} (f : α → Option β) (as : List α) (a : α) :
    (as ++ [a]).filterMap f = as.filterMap f ++ (f a).toList := by
  cases h : f a <;> simp [h]

theorem taskAfter_eof (sid : StreamId) (e : Option DirEnd) :
    (if taskAfter e = .over (.returned .eof) then [.bare .eof sid] else []) = endFrames sid e := by
  cases e <;> simp [taskAfter, endFrames]

theorem Pumped.round_up (h : Pumped sid as s) (hinv : Inv s) (hrun : s.task .up = .running)
    (r : UpRound) : Pumped sid (as ++ [.up r]) (s.progress .up (pumpUp sid r)) := by
  obtain ⟨htask, hbytes, hout, hmain⟩ := progress_eq s .up (pumpUp sid r) hrun
  obtain ⟨hmoved, hqueued, hclosed, hstream⟩ := pumpUp_spec sid r
  have hframes := h.frames
  have hcloses := h.closes
  rw [hrun, if_neg (by simp), List.append_nil] at hframes
  rw [hrun] at hcloses
  refine ⟨?_, ?_, ?_, ?_, ?_, ?_⟩
  · rw [hbytes, Function.update_self, filterMap_snoc, List.flatten_append, List.length_append, h.up,
      hmoved]
    rfl
  · rw [hbytes, Function.update_of_ne (by decide), filterMap_snoc, h.down]
    simp [Act.written]
  · rw [hout, htask, Function.update_self, taskAfter_eof, List.filter_append, hframes, hqueued,
      filterMap_snoc, List.map_append, List.append_assoc]
    rfl
  · rw [hout, htask, Function.update_self, Function.update_of_ne (by decide), List.countP_append,
      taskAfter_failed]
    simp only [Task.failed_running, Bool.toNat_false] at hcloses
    omega
  · intro f hf
    rw [hout] at hf
    exact (List.mem_append.1 hf).elim (h.streams f) (hstream f)
  · intro o ho
    rw [hmain] at ho
    exact absurd hrun (hinv.done_over ho .up)

theorem Pumped.round_down (h : Pumped sid as s) (hinv : Inv s) (hrun : s.task .down = .running)
    (r : DownRound) : Pumped sid (as ++ [.down r]) (s.progress .down (pumpDown sid r)) := by
  obtain ⟨htask, hbytes, hout, hmain⟩ := progress_eq s .down (pumpDown sid r) hrun
  obtain ⟨hmoved, hqueued, hclosed, hstream⟩ := pumpDown_spec sid r
  have hcloses := h.closes
  rw [hrun] at hcloses
  refine ⟨?_, ?_, ?_, ?_, ?_, ?_⟩
  · rw [hbytes, Function.update_of_ne (by decide), filterMap_snoc, h.up]
    simp [Act.chunk]
  · rw [hbytes, Function.update_self, filterMap_snoc, List.flatten_append, List.length_append, h.down,
      hmoved]
    rfl
  · rw [hout, htask, Function.update_of_ne (by decide), List.filter_append, h.frames, hqueued,
      filterMap_snoc]
    simp [Act.chunk]
  · rw [hout, htask, Function.update_self, Function.update_of_ne (by decide), List.countP_append,
      taskAfter_failed]
    simp only [Task.failed_running, Bool.toNat_false] at hcloses
    omega
  · intro f hf
    rw [hout] at hf
    exact (List.mem_append.1 hf).elim (h.streams f) (hstream f)
  · intro o ho
    rw [hmain] at ho
    exact absurd hrun (hinv.done_over ho .down)

/-- A step without a round moves no bytes. -/
theorem Pumped.still {a : Act} (h : Pumped sid as s) (hchunk : a.chunk = none)
    (hwritten : a.written = none) (hbytes : s'.bytes = s.bytes) (hout : s'.out = s.out)
    (htask : s.out.filter stays = (as.filterMap Act.chunk).map (dataFrame sid)
        ++ (if s'.task .up = .over (.returned .eof) then [.bare .eof sid] else []) ∧
      s.out.countP (fun f => !stays f) ≤ (s'.task .up).failed.toNat + (s'.task .down).failed.toNat)
    (hreport : ∀ o, s'.main = .done o → o.up = s.bytes .up ∧ o.down = s.bytes .down) :
    Pumped sid (as ++ [a]) s' := by
  refine ⟨?_, ?_, ?_, ?_, ?_, ?_⟩
  · rw [hbytes, filterMap_snoc, hchunk, h.up, Option.toList_none, List.append_nil]
  · rw [hbytes, filterMap_snoc, hwritten, h.down, Option.toList_none, List.append_nil]
  · rw [hout, filterMap_snoc, hchunk, Option.toList_none, List.append_nil]
    exact htask.1
  · rw [hout]
    exact htask.2
  · rw [hout]
    exact h.streams
  · rw [hbytes]
    exact hreport

/-- **Every step keeps the account.** -/
theorem Pumped.step {a : Act} (h : Pumped sid as s) (hinv : Inv s)
    (hs : StreamPump.step sid s a = some s') : Pumped sid (as ++ [a]) s' := by
  cases a with
  | up r =>
      simp only [StreamPump.step] at hs
      split at hs
      · obtain rfl := Option.some.inj hs
        exact h.round_up hinv ‹_› r
      · cases hs
  | down r =>
      simp only [StreamPump.step] at hs
      split at hs
      · obtain rfl := Option.some.inj hs
        exact h.round_down hinv ‹_› r
      · cases hs
  | panic d =>
      simp only [StreamPump.step] at hs
      split at hs
      · rename_i hrun
        obtain rfl := Option.some.inj hs
        exact h.still rfl rfl rfl rfl (h.ends hrun (.inr rfl)) h.report
      · cases hs
  | cancel d =>
      simp only [StreamPump.step] at hs
      split at hs
      · rename_i hok
        obtain rfl := Option.some.inj hs
        exact h.still rfl rfl rfl rfl (h.ends hok.2 (.inl rfl)) h.report
      · cases hs
  | select d =>
      simp only [StreamPump.step] at hs
      split at hs
      · obtain rfl := Option.some.inj hs
        exact h.still rfl rfl rfl rfl ⟨h.frames, h.closes⟩ (by simp)
      · cases hs
  | join =>
      simp only [StreamPump.step] at hs
      split at hs
      · split at hs
        · obtain rfl := Option.some.inj hs
          refine h.still rfl rfl rfl rfl ⟨h.frames, h.closes⟩ ?_
          rintro o ⟨⟩
          exact ⟨rfl, rfl⟩
        · cases hs
      · cases hs

theorem Pumped.run (h : Trace (StreamPump.step sid) always State.init as s) : Pumped sid as s := by
  have hboth : Pumped sid as s ∧ Inv s :=
    Trace.invariant (I := fun as s => Pumped sid as s ∧ Inv s) ⟨.init sid, .init⟩
      (fun _ hi _ hs => ⟨hi.1.step hi.2 hs, hi.2.step hs⟩) h
  exact hboth.1

/-- A stream sends two chunks, writes one payload and ends both ways. -/
def bothWays : List Act :=
  [.up ⟨.ok [1, 2], true⟩, .down ⟨some (.data [9]), .ok (), true⟩, .up ⟨.ok [3], true⟩,
    .up ⟨.ok [], true⟩, .select .up, .down ⟨some .eof, .ok (), true⟩, .join]

end StreamPump

end Nextppp

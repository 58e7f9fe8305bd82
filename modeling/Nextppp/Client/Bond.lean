/-
**Bonded tunnels: links dialed, lost and topped up.**

A bonded tunnel is an aggregated channel over several links.  Its dial starts all links at once and
takes what comes of them one by one: the channel works with whatever links were added.  Links that are
lost later are dialed again by the maintainer, which reads their number from the aggregator.  The
aggregator learns of a link with a delay, so the maintainer looks a second time before it dials.

Main definitions:

* `Nextppp.Bond.step` — the dial of a bonded tunnel and the rounds of the maintainer;
* `Nextppp.Bond.Visible` — the aggregator knows of all links when the maintainer looks again.

Main results:

* `Nextppp.Bond.topped_up` — a round whose dials succeed leaves as many links as are configured;
* `Nextppp.Bond.links_within` — there are never more, and a dial that fails leaves none behind.
-/

import Nextppp.Lib.System

set_option relaxedAutoImplicit false
set_option autoImplicit false

namespace Nextppp

namespace Bond

open Run

/-! ### The dial and the rounds -/

/-- What comes of the dial of a link and of adding it to the channel. -/
inductive LinkOutcome
  | added
  /-- `add_io` refused the link -/
  | notAdded
  /-- the link was not dialed; its errors may tell that the server refuses the role -/
  | failed (roleRefused : Bool)
  deriving DecidableEq, Repr

/-- Why the dial of a bonded tunnel failed. -/
inductive DialError
  /-- a link task panicked -/
  | join
  /-- no link, and the server refuses links -/
  | refused
  | allFailed
  | connect
  | connectTimeout
  deriving DecidableEq, Repr

/-- Where the dial or the maintainer is. -/
inductive Pc
  /-- `dial` takes the outcomes of the link tasks: those left, and the links added -/
  | joining (left live : ℕ) (refused : Bool)
  /-- the channel connects over so many links -/
  | connecting (live : ℕ)
  | failed (e : DialError)
  /-- the tunnel is there and the maintainer is elsewhere -/
  | resting
  /-- `maintain_tunnel` saw the tunnel alive and looks at the links -/
  | first
  /-- links were missing and the grace period runs -/
  | grace
  /-- the tunnel is still alive and the maintainer looks again -/
  | second
  /-- so many links are still to be dialed -/
  | topping (missing : ℕ)
  deriving DecidableEq, Repr

/-- A bonded channel: the links that belong to it, whether the aggregator was told to terminate, and
whether its tunnel serves streams. -/
structure State where
  pc : Pc
  attached : ℕ
  terminated : Bool
  alive : Bool
  deriving DecidableEq, Repr

/-- What happens to a channel. -/
inductive Act
  | join (o : Option LinkOutcome)
  | joined
  | established
  | connectFails (timedOut : Bool)
  | round
  | look (len : ℕ)
  | recheck
  | topUp (o : LinkOutcome)
  | finish
  /-- a link breaks -/
  | lose
  /-- the tunnel is marked dead -/
  | die
  /-- the tunnel is killed, with its teardown -/
  | kill

/-- A dial begins. -/
def init (links : UInt32) : State := ⟨.joining links.toNat 0 false, 0, false, false⟩

/-- The links that are missing from a channel of which this many are reported. -/
def missing (links : UInt32) (len : ℕ) : ℕ := links.toNat - if len < 2 ^ 32 then len else 0

/-- The dial fails and terminates the aggregator. -/
def State.fail (s : State) (e : DialError) : State := { s with pc := .failed e, terminated := true }

/-- A step of `dial`, of `maintain_tunnel`, or of the channel itself.  The settling wait of the dial
changes nothing. -/
def step (links : UInt32) (s : State) (a : Act) : Option State :=
  match s.pc, a with
  | .joining (left + 1) live refused, .join (some .added) =>
      some { s with pc := .joining left (live + 1) refused, attached := s.attached + 1 }
  | .joining (left + 1) live refused, .join (some .notAdded) =>
      some { s with pc := .joining left live refused }
  | .joining (left + 1) live refused, .join (some (.failed roleRefused)) =>
      some { s with pc := .joining left live (refused || roleRefused) }
  | .joining (_ + 1) _ _, .join none => some (s.fail .join)
  | .joining 0 live refused, .joined =>
      if live = 0 then some (s.fail (if refused then .refused else .allFailed))
      else some { s with pc := .connecting live }
  | .connecting _, .established => some { s with pc := .resting, alive := true }
  | .connecting _, .connectFails timedOut =>
      some (s.fail (if timedOut then .connectTimeout else .connect))
  | .resting, .round => some { s with pc := if s.alive then .first else .resting }
  | .first, .look len =>
      some { s with pc := if missing links len = 0 then .resting else .grace }
  | .grace, .recheck => some { s with pc := if s.alive then .second else .resting }
  | .second, .look len => some { s with pc := .topping (missing links len) }
  | .topping (n + 1), .topUp .added =>
      some { s with pc := .topping n, attached := s.attached + 1 }
  -- a link that is not there or not taken ends the round
  | .topping (_ + 1), .topUp _ => some { s with pc := .resting }
  | .topping 0, .finish => some { s with pc := .resting }
  | _, .lose => if 0 < s.attached then some { s with attached := s.attached - 1 } else none
  | _, .die => if s.alive then some { s with alive := false } else none
  | .resting, .kill | .first, .kill | .grace, .kill | .second, .kill | .topping _, .kill =>
      some { s with alive := false, terminated := true }
  | _, _ => none

/-- When the maintainer looks again, the aggregator reports every link of the channel. -/
def Visible (s : State) : Act → Prop
  | .look len => s.pc = .second → s.attached ≤ len ∧ len < 2 ^ 32
  | _ => True

instance (s : State) (a : Act) : Decidable (Visible s a) :=
  match a with
  | .look _ => inferInstanceAs (Decidable (_ → _))
  | .join _ | .joined | .established | .connectFails _ | .round | .recheck | .topUp _ | .finish
  | .lose | .die | .kill => inferInstanceAs (Decidable True)

variable {links : UInt32} {s s' : State} {a : Act}

/-! ### The number of links -/

/-- The links that may still come at this point, and what a dial got so far. -/
def Pc.Room (links attached : ℕ) : Pc → Prop
  | .joining left live _ => attached ≤ live ∧ live + left ≤ links
  | .connecting live => attached ≤ live ∧ 0 < live ∧ live ≤ links
  | .topping n => attached + n ≤ links
  | _ => attached ≤ links

/-- The dial has failed. -/
def Pc.hasFailed : Pc → Bool
  | .failed _ => true
  | _ => false

/-- The dial is under way. -/
def Pc.dialing : Pc → Bool
  | .joining _ _ _ | .connecting _ => true
  | _ => false

/-- What holds of a channel at every point. -/
structure Inv (links : UInt32) (s : State) : Prop where
  room : s.pc.Room links.toNat s.attached
  dialing : s.pc.dialing = true → s.terminated = false ∧ s.alive = false
  failed : s.pc.hasFailed = true → s.terminated = true
  closed : s.terminated = true → s.alive = false

/-- Fewer links need no more room. -/
theorem Pc.Room.mono {links attached attached' : ℕ} {pc : Pc} (h : pc.Room links attached)
    (hle : attached' ≤ attached) : pc.Room links attached' := by
  cases pc with
  | joining left live refused => exact ⟨hle.trans h.1, h.2⟩
  | connecting live => exact ⟨hle.trans h.1, h.2⟩
  | topping n => exact (Nat.add_le_add_right hle n).trans h
  | _ => exact hle.trans h

/-- The links of a channel never exceed those configured. -/
theorem Pc.Room.le {links attached : ℕ} {pc : Pc} (h : pc.Room links attached) :
    attached ≤ links := by
  cases pc with
  | joining left live refused => exact h.1.trans ((Nat.le_add_right _ _).trans h.2)
  | connecting live => exact h.1.trans h.2.2
  | topping n => exact (Nat.le_add_right _ _).trans h
  | _ => exact h

/-- A dial that fails leaves an aggregator that is told to terminate. -/
theorem Inv.fail (h : Inv links s) (hdialing : s.pc.dialing = true) (e : DialError) :
    Inv links (s.fail e) where
  room := h.room.le
  dialing := by simp [State.fail, Pc.dialing]
  failed _ := rfl
  closed _ := (h.dialing hdialing).2

/-- The dial or the maintainer moves on and the channel stays as it is. -/
theorem Inv.goto (h : Inv links s) {pc : Pc} (hroom : pc.Room links.toNat s.attached)
    (hdialing : pc.dialing = true → s.pc.dialing = true) (hfailed : pc.hasFailed = false) :
    Inv links { s with pc := pc } where
  room := hroom
  dialing hd := h.dialing (hdialing hd)
  failed hf := by rw [hfailed] at hf; cases hf
  closed := h.closed

/-- A link is added where there is room for it. -/
theorem Inv.add (h : Inv links s) {pc : Pc} (hroom : pc.Room links.toNat (s.attached + 1))
    (hdialing : pc.dialing = true → s.pc.dialing = true) (hfailed : pc.hasFailed = false) :
    Inv links { s with pc := pc, attached := s.attached + 1 } where
  room := hroom
  dialing hd := h.dialing (hdialing hd)
  failed hf := by rw [hfailed] at hf; cases hf
  closed := h.closed

/-- What is missing of the links that are there fits. -/
theorem missing_room {links : UInt32} {attached len : ℕ} (hle : attached ≤ links.toNat)
    (hseen : attached ≤ len) (hlen : len < 2 ^ 32) : attached + missing links len ≤ links.toNat := by
  rw [missing, if_pos hlen]
  omega

/-- **Every step keeps what holds of a channel.** -/
theorem Inv.step (h : Inv links s) (hok : Visible s a) (hs : step links s a = some s') :
    Inv links s' := by
  obtain ⟨pc, attached, terminated, alive⟩ := s
  have hroom := h.room
  have hle : attached ≤ links.toNat := hroom.le
  unfold Bond.step at hs
  split at hs
  -- the dial
  case h_1 left live refused hpc =>
    obtain rfl : pc = _ := hpc
    obtain rfl := Option.some.inj hs
    exact h.add ⟨Nat.succ_le_succ hroom.1, by have := hroom.2; omega⟩ (fun _ => rfl) rfl
  case h_2 | h_3 =>
    rename_i hpc
    obtain rfl := hpc
    obtain rfl := Option.some.inj hs
    exact h.goto ⟨hroom.1, by have := hroom.2; omega⟩ (fun _ => rfl) rfl
  case h_4 | h_7 =>
    rename_i hpc
    obtain rfl := hpc
    obtain rfl := Option.some.inj hs
    exact h.fail rfl _
  case h_5 live refused hpc =>
    obtain rfl : pc = _ := hpc
    split at hs
    · obtain rfl := Option.some.inj hs
      exact h.fail rfl _
    · rename_i hlive
      obtain rfl := Option.some.inj hs
      exact h.goto ⟨hroom.1, Nat.pos_of_ne_zero hlive, hroom.2⟩ (fun _ => rfl) rfl
  case h_6 live hpc =>
    obtain rfl : pc = _ := hpc
    obtain rfl := Option.some.inj hs
    obtain rfl : terminated = false := (h.dialing rfl).1
    exact ⟨hle, nofun, nofun, nofun⟩
  -- the rounds of the maintainer
  case h_8 | h_9 | h_10 =>
    rename_i hpc
    obtain rfl := hpc
    obtain rfl := Option.some.inj hs
    split
    all_goals exact h.goto hle nofun rfl
  case h_11 len hpc =>
    obtain rfl : pc = _ := hpc
    obtain rfl := Option.some.inj hs
    obtain ⟨hseen, hlen⟩ := hok rfl
    exact h.goto (missing_room hle hseen hlen) nofun rfl
  case h_12 n hpc =>
    obtain rfl : pc = _ := hpc
    obtain rfl := Option.some.inj hs
    have hlast : attached + (n + 1) ≤ links.toNat := hroom
    have hnext : attached + 1 + n ≤ links.toNat := by omega
    exact h.add hnext nofun rfl
  case h_13 | h_14 =>
    rename_i hpc
    obtain rfl := hpc
    obtain rfl := Option.some.inj hs
    exact h.goto hle nofun rfl
  -- the channel itself
  case h_15 =>
    split at hs
    · obtain rfl := Option.some.inj hs
      exact ⟨hroom.mono (Nat.sub_le _ _), h.dialing, h.failed, h.closed⟩
    · cases hs
  case h_16 =>
    split at hs
    · obtain rfl := Option.some.inj hs
      exact ⟨hroom, fun hd => ⟨(h.dialing hd).1, rfl⟩, h.failed, fun _ => rfl⟩
    · cases hs
  case h_22 => cases hs
  all_goals
    rename_i hpc
    obtain rfl := hpc
    obtain rfl := Option.some.inj hs
    exact ⟨hroom, nofun, nofun, fun _ => rfl⟩

theorem Inv.reach (h : Reach (Bond.step links) Visible (init links) s) : Inv links s := by
  refine Reach.invariant (I := Inv links) ⟨?_, fun _ => ⟨rfl, rfl⟩, ?_, ?_⟩
    (fun hinv hok hs => hinv.step hok hs) h
  · exact ⟨Nat.zero_le _, by simp⟩
  · simp [init, Pc.hasFailed]
  · simp [init]

/-- **A round whose dials succeed dials every missing link.** -/
theorem topped_up (links : UInt32) (n : ℕ) {s : State} (hpc : s.pc = .topping n) :
    exec (Bond.step links) Visible s (List.replicate n (.topUp .added) ++ [.finish])
      = some { s with pc := .resting, attached := s.attached + n } := by
  obtain ⟨pc, attached, terminated, alive⟩ := s
  obtain rfl : pc = _ := hpc
  induction n generalizing attached with
  | zero => rfl
  | succ n ih =>
      rw [List.replicate_succ, List.cons_append, exec, if_pos (show Visible _ (.topUp .added) from trivial)]
      refine (ih (attached + 1)).trans ?_
      rw [Nat.add_right_comm, Nat.add_assoc]

/-- **The links of a bonded tunnel.**  As long as the aggregator knows of all links when the maintainer
looks again, there are never more than are configured; a dial that fails has told the aggregator to
terminate, and one that connects has added a link; and from the second look a round whose dials succeed
brings the links back to the number configured. -/
theorem links_within (links : UInt32) {s : State}
    (h : Reach (Bond.step links) Visible (init links) s) :
    s.attached ≤ links.toNat ∧ (s.pc.hasFailed = true → s.terminated = true) ∧
      (s.alive = true → s.terminated = false) ∧
      (∀ live, s.pc = .connecting live → 0 < live) ∧
      (s.pc = .second → ∃ s', exec (Bond.step links) Visible s
        (.look s.attached :: (List.replicate (links.toNat - s.attached) (.topUp .added) ++ [.finish]))
          = some s' ∧ s'.attached = links.toNat) := by
  have hinv := Inv.reach h
  have hle := hinv.room.le
  refine ⟨hle, hinv.failed, fun halive => ?_, fun live hpc => ?_, fun hpc => ?_⟩
  · cases hterm : s.terminated with
    | false => rfl
    | true =>
        rw [hinv.closed hterm] at halive
        cases halive
  · have hroom := hinv.room
    rw [hpc] at hroom
    exact hroom.2.1
  · have hlt : s.attached < 2 ^ 32 := hle.trans_lt links.toNat_lt
    refine ⟨{ s with pc := .resting, attached := s.attached + (links.toNat - s.attached) }, ?_,
      Nat.add_sub_cancel' hle⟩
    obtain ⟨pc, attached, terminated, alive⟩ := s
    obtain rfl : pc = .second := hpc
    rw [exec, if_pos (show Visible _ (.look attached) from fun _ => ⟨le_rfl, hlt⟩)]
    have hmissing : missing links attached = links.toNat - attached := by rw [missing, if_pos hlt]
    refine (topped_up links _ ?_).trans rfl
    simp [hmissing]

/-- A bonded tunnel of two links. -/
def dialTwo : List Act := [.join (some .added), .join (some .added), .joined, .established]

/-- A link is lost, and a round that is about to look again finds it missing. -/
theorem links_within_two :
    ∃ s, Reach (Bond.step 2) Visible (init 2) s ∧ s.pc = .second ∧ s.attached = 1 ∧
      s.alive = true ∧ s.terminated = false ∧ ∃ s', exec (Bond.step 2) Visible s
        (.look s.attached :: (List.replicate ((2 : UInt32).toNat - s.attached) (.topUp .added)
          ++ [.finish])) = some s' ∧ s'.attached = (2 : UInt32).toNat := by
  obtain ⟨s, he, hpc, hone, halive⟩ : ∃ s, exec (Bond.step 2) Visible (init 2)
      (dialTwo ++ [.lose, .round, .look 1, .recheck]) = some s ∧ s.pc = .second ∧ s.attached = 1 ∧
      s.alive = true := ⟨_, rfl, rfl, rfl, rfl⟩
  have hr := Reach.refl.of_exec _ he
  obtain ⟨-, -, hterm, -, hround⟩ := links_within 2 hr
  exact ⟨s, hr, hpc, hone, halive, hterm halive, hround hpc⟩

/-- A maintainer that twice looks before the aggregator knows of a fresh link dials one too many. -/
theorem links_overshoot :
    ∃ s, Reach (Bond.step 2) always (init 2) s ∧ (2 : UInt32).toNat < s.attached := by
  obtain ⟨s, he, hthree⟩ : ∃ s, exec (Bond.step 2) always (init 2)
      (dialTwo ++ [.round, .look 1, .recheck, .look 1, .topUp .added]) = some s ∧ s.attached = 3 :=
    ⟨_, rfl, rfl⟩
  exact ⟨s, Reach.refl.of_exec _ he, by rw [hthree]; decide⟩

end Bond

end Nextppp

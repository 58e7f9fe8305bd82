/-
**A party that is fed by its peer.**

A party works on the bytes delivered to it and waits when they do not suffice.  Its peer may deliver
any bytes, cut in any way, and need not follow any protocol.  A party is bounded when every step of its
work lowers a measure of the work left, when what it takes off its bytes is paid for by the number of
items it may still read, and when it only waits for an item of limited size.

Main definitions:

* `Fed.State`, `Fed.Act`, `Fed.step` — the party, the bytes it has not read, and how much it was fed;
* `Fed.Paid`, `Fed.Bounded` — the steps of a bounded party, and the party.

Main results:

* `Fed.Bounded.ops_le` — a bounded party takes no more steps than its measure allows;
* `Fed.Bounded.fed_lt` — a party that waits was fed less than all items it may read;
* `Fed.Bounded.ends` — a party that was fed as much comes to its end by its own steps.
-/

import Nextppp.Lib.System

set_option relaxedAutoImplicit false
set_option autoImplicit false

namespace Fed

open Run

variable {π β : Type*}

/-- A party, the bytes delivered to it and not read, the number of all bytes delivered, and the number
of steps it took. -/
structure State (π β : Type*) where
  party : π
  inbox : List β
  fed : ℕ
  ops : ℕ

/-- The peer delivers bytes, or the party takes a step. -/
inductive Act (β : Type*)
  | feed (bytes : List β)
  | work

/-- One step of a party that works as `work` says. -/
def step (work : π → List β → Option (π × List β)) (s : State π β) : Act β → Option (State π β)
  | .feed bytes =>
      some { s with inbox := s.inbox ++ bytes, fed := s.fed + bytes.length }
  | .work => (work s.party s.inbox).map fun r => ⟨r.1, r.2, s.fed, s.ops + 1⟩

/-- A party to which nothing was delivered. -/
def fresh (p : π) : State π β := ⟨p, [], 0, 0⟩

/-- The party is not interrupted by its peer. -/
def alone (_ : State π β) (a : Act β) : Prop := a = .work

/-! ### Bounded parties -/

variable {work : π → List β → Option (π × List β)} {Inv through : π → Prop} {left reads : π → ℕ}
  {limit : ℕ}

/-- A step of a bounded party: it lowers the measure of the work left, and unless the party is through
with its work the bytes that it takes are paid for by the items that it may still read. -/
structure Paid (Inv through : π → Prop) (left reads : π → ℕ) (limit : ℕ) (p : π) (io : List β) (p' : π)
    (rest : List β) : Prop where
  keeps : Inv p'
  lowers : left p' < left p
  pays : through p' ∨ io.length + limit * reads p' ≤ rest.length + limit * reads p

/-- The last step of a party is paid for. -/
theorem Paid.last {p p' : π} {io rest : List β} (hinv : Inv p') (hleft : left p' < left p)
    (h : through p') : Paid Inv through left reads limit p io p' rest :=
  ⟨hinv, hleft, .inl h⟩

/-- A step that takes no bytes is paid for. -/
theorem Paid.quiet {p p' : π} {io : List β} (hinv : Inv p') (hleft : left p' < left p)
    (hreads : reads p' = reads p) : Paid Inv through left reads limit p io p' io :=
  ⟨hinv, hleft, .inr (by rw [hreads])⟩

/-- A step that reads an item is paid for. -/
theorem Paid.read {p p' : π} {io rest : List β} (hinv : Inv p') (hleft : left p' < left p)
    (hle : io.length ≤ rest.length + limit) (hreads : reads p' + 1 ≤ reads p) :
    Paid Inv through left reads limit p io p' rest := by
  refine ⟨hinv, hleft, .inr ?_⟩
  have hmul := Nat.mul_le_mul_left limit hreads
  rw [Nat.mul_add, Nat.mul_one] at hmul
  omega

/-- A bounded party: its steps are paid for, it waits for part of an item only, and in the states
`through` it is through with its work. -/
structure Bounded (work : π → List β → Option (π × List β)) (Inv through : π → Prop)
    (left reads : π → ℕ) (limit : ℕ) : Prop where
  paid : ∀ {p io p' rest}, Inv p → work p io = some (p', rest) →
    Paid Inv through left reads limit p io p' rest
  waits : ∀ {p io}, Inv p → work p io = none → through p ∨ (io.length < limit ∧ 0 < reads p)
  stops : ∀ {p io}, through p → work p io = none

namespace Bounded

variable {p₀ : π} {s s' : State π β} {a : Act β}

/-- What holds along the runs of a bounded party. -/
structure Within (Inv through : π → Prop) (left reads : π → ℕ) (limit : ℕ) (p₀ : π) (s : State π β) :
    Prop where
  inv : Inv s.party
  ops : s.ops + left s.party ≤ left p₀
  fed : through s.party ∨ s.fed + limit * reads s.party ≤ s.inbox.length + limit * reads p₀

theorem Within.step (hb : Bounded work Inv through left reads limit)
    (h : Within Inv through left reads limit p₀ s) (hs : Fed.step work s a = some s') :
    Within Inv through left reads limit p₀ s' := by
  cases a with
  | feed bytes =>
      obtain rfl := Option.some.inj hs
      refine ⟨h.inv, h.ops, h.fed.imp_right fun hfed => ?_⟩
      rw [List.length_append]
      dsimp only
      omega
  | work =>
      obtain ⟨⟨p', rest⟩, hr, rfl⟩ := Option.map_eq_some_iff.1 hs
      have hpaid := hb.paid h.inv hr
      have hleft := hpaid.lowers
      have hops := h.ops
      refine ⟨hpaid.keeps, by dsimp only; omega, ?_⟩
      rcases hpaid.pays with hover | hreads
      · exact .inl hover
      · rcases h.fed with hover | hfed
        · -- a party that is through takes no step
          rw [hb.stops hover] at hr
          cases hr
        · exact .inr (by dsimp only; omega)

theorem Within.reach (hb : Bounded work Inv through left reads limit) (h₀ : Inv p₀)
    (h : Reach (Fed.step work) always (fresh p₀) s) : Within Inv through left reads limit p₀ s :=
  Reach.invariant (I := Within Inv through left reads limit p₀)
    ⟨h₀, by simp [fresh], .inr (by simp [fresh])⟩ (fun hw _ hs => hw.step hb hs) h

/-- The number of steps is bounded. -/
theorem ops_le (hb : Bounded work Inv through left reads limit) (h₀ : Inv p₀)
    (h : Reach (Fed.step work) always (fresh p₀) s) : s.ops ≤ left p₀ :=
  (Nat.le_add_right _ _).trans (Within.reach hb h₀ h).ops

/-- A party that waits and is not through was fed less than all it may read. -/
theorem Within.fed_lt (hb : Bounded work Inv through left reads limit)
    (h : Within Inv through left reads limit p₀ s) (hwait : work s.party s.inbox = none) :
    through s.party ∨ s.fed < limit * reads p₀ := by
  rcases hb.waits h.inv hwait with hover | ⟨hshort, hreads⟩
  · exact .inl hover
  · refine h.fed.imp_right fun hfed => ?_
    have hone : limit * 1 ≤ limit * reads s.party := Nat.mul_le_mul_left _ hreads
    omega

theorem fed_lt (hb : Bounded work Inv through left reads limit) (h₀ : Inv p₀)
    (h : Reach (Fed.step work) always (fresh p₀) s) (hwait : work s.party s.inbox = none) :
    through s.party ∨ s.fed < limit * reads p₀ :=
  (Within.reach hb h₀ h).fed_lt hb hwait

/-- Fed with all it may read, the party comes to its end by its own steps. -/
theorem ends (hb : Bounded work Inv through left reads limit) (h₀ : Inv p₀)
    (h : Reach (Fed.step work) always (fresh p₀) s) (hfed : limit * reads p₀ ≤ s.fed) :
    Inevitable (Fed.step work) alone (fun s => through s.party) s := by
  have hlive : ∀ {s : State π β}, Within Inv through left reads limit p₀ s ∧ limit * reads p₀ ≤ s.fed →
      through s.party ∨ ∃ a s', alone s a ∧ Fed.step work s a = some s' := by
    rintro s ⟨hw, hs⟩
    cases hr : work s.party s.inbox with
    | none => exact .inl ((hw.fed_lt hb hr).resolve_right (Nat.not_lt.2 hs))
    | some r => exact .inr ⟨.work, ⟨r.1, r.2, s.fed, s.ops + 1⟩, rfl, by simp [Fed.step, hr]⟩
  have hstep : ∀ {s : State π β} {a s'}, Within Inv through left reads limit p₀ s ∧
      limit * reads p₀ ≤ s.fed → alone s a → Fed.step work s a = some s' →
      (Within Inv through left reads limit p₀ s' ∧ limit * reads p₀ ≤ s'.fed) ∧
        left s'.party < left s.party := by
    rintro s a s' ⟨hw, hs⟩ rfl hs'
    have hw' := hw.step hb hs'
    obtain ⟨r, hr, rfl⟩ := Option.map_eq_some_iff.1 hs'
    exact ⟨⟨hw', hs⟩, (hb.paid hw.inv hr).lowers⟩
  exact Inevitable.of_rank Nat.lt_wfRel.wf (fun s => left s.party) hlive hstep
    ⟨Within.reach hb h₀ h, hfed⟩

end Bounded

end Fed

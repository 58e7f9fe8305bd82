/-
**Runs of an executable transition system.**

A system is a partial step function: an action in a state leads to the next state or is not enabled.
A state is reached by a run whose every step meets a condition on the state before it and the action
taken; with the trivial condition these are all runs.

Main definitions:

* `Run.Reach` — the states that runs reach;
* `Run.exec` — a run given by its actions;
* `Run.Inevitable` — every run of a kind of steps is finite and ends in a goal.

Main results:

* `Run.Reach.invariant` — what the first state satisfies and every step preserves holds in every
  state reached;
* `Run.Reach.of_exec` — executing a list of actions reaches its last state;
* `Run.Inevitable.of_rank` — a rank that every step of the kind lowers, and a step of the kind in
  every state that is not a goal, make the goal inevitable;
* `Run.Inevitable.mono` — what the goal implies is inevitable with it.
-/

import Mathlib

set_option relaxedAutoImplicit false
set_option autoImplicit false

namespace Run

variable {σ α : Type*}

/-- The states reached from `s₀` by runs whose steps all meet `ok`. -/
inductive Reach (step : σ → α → Option σ) (ok : σ → α → Prop) (s₀ : σ) : σ → Prop
  | refl : Reach step ok s₀ s₀
  | step {s s' : σ} (a : α) : Reach step ok s₀ s → ok s a → step s a = some s' →
      Reach step ok s₀ s'

/-- The condition that excludes nothing. -/
def always (_ : σ) (_ : α) : Prop := True

/-- A property of the first state that every step preserves holds in every state reached. -/
theorem Reach.invariant {step : σ → α → Option σ} {ok : σ → α → Prop} {s₀ s : σ} {I : σ → Prop}
    (hinit : I s₀)
    (hstep : ∀ {s a s'}, I s → ok s a → step s a = some s' → I s')
    (h : Reach step ok s₀ s) : I s := by
  induction h with
  | refl => exact hinit
  | step a _ hok hs ih => exact hstep ih hok hs

instance (s : σ) (a : α) : Decidable (always s a) := inferInstanceAs (Decidable True)

/-- Execute a list of actions, each of which has to meet `ok`. -/
def exec (step : σ → α → Option σ) (ok : σ → α → Prop) [∀ s a, Decidable (ok s a)] :
    σ → List α → Option σ
  | s, [] => some s
  | s, a :: as => if ok s a then (step s a).bind fun s' => exec step ok s' as else none

theorem Reach.of_exec {step : σ → α → Option σ} {ok : σ → α → Prop} [∀ s a, Decidable (ok s a)]
    {s₀ s s' : σ} (as : List α) (h : Reach step ok s₀ s) (he : exec step ok s as = some s') :
    Reach step ok s₀ s' := by
  induction as generalizing s with
  | nil =>
      obtain rfl : s = s' := by simpa [exec] using he
      exact h
  | cons a as ih =>
      rw [exec] at he
      split at he
      · rename_i hok
        obtain ⟨s₁, hs, hrest⟩ := Option.bind_eq_some_iff.1 he
        exact ih (h.step a hok hs) hrest
      · cases he

/-- From here every run of steps that meet `ok` is finite, and it can only end in a goal. -/
inductive Inevitable (step : σ → α → Option σ) (ok : σ → α → Prop) (goal : σ → Prop) : σ → Prop
  | now {s : σ} : goal s → Inevitable step ok goal s
  | later {s : σ} : (∃ a s', ok s a ∧ step s a = some s') →
      (∀ a s', ok s a → step s a = some s' → Inevitable step ok goal s') →
      Inevitable step ok goal s

/-- A goal is inevitable where an invariant holds under which no other state is stuck and every step
lowers a rank. -/
theorem Inevitable.of_rank {ι : Type*} {r : ι → ι → Prop} (hr : WellFounded r)
    {step : σ → α → Option σ} {ok : σ → α → Prop} {goal Inv : σ → Prop} (rank : σ → ι)
    (hlive : ∀ {s}, Inv s → goal s ∨ ∃ a s', ok s a ∧ step s a = some s')
    (hstep : ∀ {s a s'}, Inv s → ok s a → step s a = some s' →
      Inv s' ∧ r (rank s') (rank s))
    {s : σ} (h : Inv s) : Inevitable step ok goal s := by
  -- induction on the rank of the state
  have hacc : ∀ n, ∀ s, rank s = n → Inv s → Inevitable step ok goal s := by
    intro n
    induction n using hr.induction with
    | _ n ih =>
        intro s hrank hinv
        rcases hlive hinv with hgoal | hmove
        · exact Inevitable.now hgoal
        · refine Inevitable.later hmove ?_
          intro a s' hok hs
          obtain ⟨hinv', hlt⟩ := hstep hinv hok hs
          rw [hrank] at hlt
          exact ih (rank s') hlt s' rfl hinv'
  exact hacc (rank s) s rfl h

/-- What the goal implies is inevitable with it. -/
theorem Inevitable.mono {step : σ → α → Option σ} {ok : σ → α → Prop} {goal goal' : σ → Prop}
    (himp : ∀ s, goal s → goal' s) {s : σ} (h : Inevitable step ok goal s) :
    Inevitable step ok goal' s := by
  induction h with
  | now hgoal => exact Inevitable.now (himp _ hgoal)
  | later hmove _ ih => exact Inevitable.later hmove ih

end Run

/-
**Runs with their actions.**

`Run.Reach` forgets how a state was reached.  A statement about causes, that something holds only
because something else was done before, is one about the actions of the run.

Main definitions:

* `Run.Trace` — the runs from a state, with the list of their actions.

Main results:

* `Run.Trace.invariant` — the rule of invariants that may refer to the actions so far;
* `Run.Trace.of_exec` — executing a list of actions is a run with these actions.
-/

import Nextppp.Lib.System

set_option relaxedAutoImplicit false
set_option autoImplicit false

namespace Run

variable {σ α : Type*}

/-- The runs from `s₀` whose steps all meet `ok`: the actions, the oldest first, and the last state. -/
inductive Trace (step : σ → α → Option σ) (ok : σ → α → Prop) (s₀ : σ) : List α → σ → Prop
  | refl : Trace step ok s₀ [] s₀
  | step {as : List α} {s s' : σ} (a : α) : Trace step ok s₀ as s → ok s a → step s a = some s' →
      Trace step ok s₀ (as ++ [a]) s'

variable {step : σ → α → Option σ} {ok : σ → α → Prop} {s₀ s s' : σ} {as : List α}

/-- The last state of a run is reached. -/
theorem Trace.reach (h : Trace step ok s₀ as s) : Reach step ok s₀ s := by
  induction h with
  | refl => exact .refl
  | step a _ hok hs ih => exact ih.step a hok hs

/-- A property of the actions so far and the state that every step keeps. -/
theorem Trace.invariant {I : List α → σ → Prop} (hinit : I [] s₀)
    (hstep : ∀ {as s a s'}, Trace step ok s₀ as s → I as s → ok s a → step s a = some s' →
      I (as ++ [a]) s')
    (h : Trace step ok s₀ as s) : I as s := by
  induction h with
  | refl => exact hinit
  | step a htrace hok hs ih => exact hstep htrace ih hok hs

theorem Trace.of_exec [∀ s a, Decidable (ok s a)] (bs : List α) (h : Trace step ok s₀ as s)
    (he : exec step ok s bs = some s') : Trace step ok s₀ (as ++ bs) s' := by
  induction bs generalizing as s with
  | nil =>
      obtain rfl : s = s' := by simpa [exec] using he
      rwa [List.append_nil]
  | cons b bs ih =>
      rw [exec] at he
      split at he
      · rename_i hok
        obtain ⟨s₁, hs, hrest⟩ := Option.bind_eq_some_iff.1 he
        rw [List.append_cons]
        exact ih (h.step b hok hs) hrest
      · cases he

end Run

/-
**Tasks over a shared state.**

A main loop and any number of spawned tasks take atomic steps in any order.  The main loop may change
the shared state and spawn tasks; a task may change the shared state and its own.  Tasks are numbered
in the order of their spawning and never leave the list: one that is over stays there in a final
state.

Main definitions:

* `Tasks.System`, `Tasks.Act`, `Tasks.step` — the states, the actions and the interleaving semantics;
* `Tasks.count64`, `Tasks.count32` — the numbers as a 64-bit or a 32-bit gauge holds them.

Main results:

* `Tasks.step_cases` — what a step can do;
* `Tasks.reach_main`, `Tasks.reach_spawn`, `Tasks.reach_last` — how a run goes on;
* `Tasks.getElem?_append_cases`, `Tasks.getElem?_set_cases` — the tasks behind a step;
* `Tasks.each_step` — the rule of what every task satisfies on its own;
* `Tasks.countP_set` — how a count of tasks changes when one task moves;
* `Tasks.gauge_step` — the rule of gauges: a shared counter that every step changes by as much as the
  number of tasks of a kind keeps counting the tasks of that kind;
* `Tasks.account_step` — the same for a shared sum to which every task has a part.
-/

import Mathlib
import Nextppp.Lib.System

set_option relaxedAutoImplicit false
set_option autoImplicit false

namespace Tasks

variable {σ τ α β : Type*}

/-- A shared state and the tasks that work on it, in the order they were spawned. -/
structure System (σ τ : Type*) where
  shared : σ
  tasks : List τ
  deriving DecidableEq

/-- A step of the main loop, or of the task with a number. -/
inductive Act (α β : Type*)
  | main (a : α)
  | task (i : ℕ) (b : β)
  deriving DecidableEq

/-- The interleaving of a main loop, which may spawn tasks, and of its tasks. -/
def step (main : σ → α → Option (σ × List τ)) (work : ℕ → σ → τ → β → Option (σ × τ))
    (s : System σ τ) : Act α β → Option (System σ τ)
  | .main a => (main s.shared a).map fun r => ⟨r.1, s.tasks ++ r.2⟩
  | .task i b =>
      s.tasks[i]?.bind fun t => (work i s.shared t b).map fun r => ⟨r.1, s.tasks.set i r.2⟩

variable {main : σ → α → Option (σ × List τ)} {work : ℕ → σ → τ → β → Option (σ × τ)}
  {s s' : System σ τ}

/-- **What a step can do.** -/
theorem step_cases {a : Act α β} (h : step main work s a = some s') :
    (∃ x r, a = .main x ∧ main s.shared x = some r ∧ s' = ⟨r.1, s.tasks ++ r.2⟩) ∨
      ∃ i b t r, a = .task i b ∧ s.tasks[i]? = some t ∧ work i s.shared t b = some r ∧
        s' = ⟨r.1, s.tasks.set i r.2⟩ := by
  cases a with
  | main x =>
      obtain ⟨r, hr, hs⟩ := Option.map_eq_some_iff.1 h
      exact .inl ⟨x, r, rfl, hr, hs.symm⟩
  | task i b =>
      obtain ⟨t, ht, hw⟩ := Option.bind_eq_some_iff.1 h
      obtain ⟨r, hr, hs⟩ := Option.map_eq_some_iff.1 hw
      exact .inr ⟨i, b, t, r, rfl, ht, hr, hs.symm⟩

/-- A run goes on with a step of the main loop. -/
theorem reach_main {s₀ : System σ τ} {x y : σ} {l : List τ} {a : α}
    (h : Run.Reach (step main work) Run.always s₀ ⟨x, l⟩) (hr : main x a = some (y, [])) :
    Run.Reach (step main work) Run.always s₀ ⟨y, l⟩ :=
  h.step (.main a) trivial (by simp [step, hr])

/-- A run goes on with the spawn of a task. -/
theorem reach_spawn {s₀ : System σ τ} {x y : σ} {l : List τ} {a : α} {t : τ}
    (h : Run.Reach (step main work) Run.always s₀ ⟨x, l⟩) (hr : main x a = some (y, [t])) :
    Run.Reach (step main work) Run.always s₀ ⟨y, l ++ [t]⟩ :=
  h.step (.main a) trivial (by simp [step, hr])

/-- A run goes on with a step of the task that was spawned last. -/
theorem reach_last {s₀ : System σ τ} {x : σ} {l : List τ} {b : β} {t : τ} {r : σ × τ}
    (h : Run.Reach (step main work) Run.always s₀ ⟨x, l ++ [t]⟩)
    (hr : work l.length x t b = some r) :
    Run.Reach (step main work) Run.always s₀ ⟨r.1, l ++ [r.2]⟩ :=
  h.step (.task l.length b) trivial (by simp [step, hr])

/-- A task of the new list is an old one or was just spawned. -/
theorem getElem?_append_cases {l new : List τ} {i : ℕ} {t : τ} (h : (l ++ new)[i]? = some t) :
    l[i]? = some t ∨ t ∈ new := by
  by_cases hi : i < l.length
  · rw [List.getElem?_append_left hi] at h
    exact .inl h
  · rw [List.getElem?_append_right (Nat.le_of_not_lt hi)] at h
    exact .inr (List.mem_of_getElem? h)

/-- A task of the new list is the one that moved or was there before. -/
theorem getElem?_set_cases {l : List τ} {i j : ℕ} {t t' : τ} (h : (l.set i t')[j]? = some t) :
    (j = i ∧ t = t') ∨ (j ≠ i ∧ l[j]? = some t) := by
  by_cases hij : i = j
  · subst hij
    obtain ⟨hi, heq⟩ := List.getElem?_eq_some_iff.1 h
    exact .inl ⟨rfl, by simpa using heq.symm⟩
  · rw [List.getElem?_set_ne hij] at h
    exact .inr ⟨Ne.symm hij, h⟩

/-- What new tasks satisfy and every step of a task keeps is true of all tasks. -/
theorem each_step {I : τ → Prop} {a : Act α β} (h : step main work s a = some s')
    (hmain : ∀ {x r}, main s.shared x = some r → ∀ t ∈ r.2, I t)
    (hwork : ∀ {i b t r}, I t → work i s.shared t b = some r → I r.2)
    (hs : ∀ t ∈ s.tasks, I t) : ∀ t ∈ s'.tasks, I t := by
  intro t ht
  obtain ⟨x, r, -, hr, rfl⟩ | ⟨i, b, t₀, r, -, ht₀, hr, rfl⟩ := step_cases h
  · rcases List.mem_append.1 ht with hold | hnew
    · exact hs t hold
    · exact hmain hr t hnew
  · rcases List.mem_or_eq_of_mem_set ht with hold | rfl
    · exact hs t hold
    · exact hwork (hs t₀ (List.mem_of_getElem? ht₀)) hr

/-! ### Counting tasks -/

/-- Moving one task changes a count by that task's part alone. -/
theorem countP_set {l : List τ} {i : ℕ} {t : τ} (p : τ → Bool) (t' : τ) (h : l[i]? = some t) :
    (l.set i t').countP p + (p t).toNat = l.countP p + (p t').toNat := by
  obtain ⟨hi, rfl⟩ := List.getElem?_eq_some_iff.1 h
  have hpos : p l[i] = true → 0 < l.countP p := by
    intro hp
    exact List.countP_pos_iff.2 ⟨l[i], List.getElem_mem hi, hp⟩
  rw [List.countP_set hi]
  cases hp : p l[i] with
  | false => cases p t' <;> simp
  | true =>
      have := hpos hp
      cases p t' <;> simp <;> omega

/-- Counting in 64 bits. -/
def count64 : ℕ →+ UInt64 where
  toFun := UInt64.ofNat
  map_zero' := rfl
  map_add' := UInt64.ofNat_add

@[simp] theorem count64_apply (n : ℕ) : count64 n = UInt64.ofNat n := rfl

/-- Counting in 32 bits. -/
def count32 : ℕ →+ UInt32 where
  toFun := UInt32.ofNat
  map_zero' := rfl
  map_add' := UInt32.ofNat_add

@[simp] theorem count32_apply (n : ℕ) : count32 n = UInt32.ofNat n := rfl

/-- **The rule of gauges.** -/
theorem gauge_step {G : Type*} [AddCommGroup G] (c : ℕ →+ G) {p : τ → Bool} {g : σ → G}
    {a : Act α β} (h : step main work s a = some s')
    (hmain : ∀ {x r}, a = .main x → main s.shared x = some r →
      g r.1 = g s.shared + c (r.2.countP p))
    (hwork : ∀ {i b t r}, a = .task i b → s.tasks[i]? = some t → work i s.shared t b = some r →
      g r.1 + c (p t).toNat = g s.shared + c (p r.2).toNat)
    (hg : g s.shared = c (s.tasks.countP p)) : g s'.shared = c (s'.tasks.countP p) := by
  obtain ⟨x, r, ha, hr, rfl⟩ | ⟨i, b, t, r, ha, ht, hr, rfl⟩ := step_cases h
  · rw [List.countP_append, map_add, hmain ha hr, hg]
  · have hset : c ((s.tasks.set i r.2).countP p) + c (p t).toNat
        = c (s.tasks.countP p) + c (p r.2).toNat := by
      rw [← map_add, ← map_add, countP_set p r.2 ht]
    have hstep := hwork ha ht hr
    rw [hg, ← hset] at hstep
    exact add_right_cancel hstep

/-! ### Sums over tasks -/

/-- A count of tasks is a sum of their parts. -/
theorem sum_toNat (p : τ → Bool) (l : List τ) :
    (l.map fun t => (p t).toNat).sum = l.countP p := by
  induction l with
  | nil => rfl
  | cons t l ih =>
      rw [List.map_cons, List.sum_cons, ih, List.countP_cons, add_comm]
      cases p t <;> rfl

/-- Moving one task changes a sum by that task's part alone. -/
theorem sum_set {M : Type*} [AddCommMonoid M] {l : List τ} {i : ℕ} {t : τ} (f : τ → M) (t' : τ)
    (h : l[i]? = some t) : ((l.set i t').map f).sum + f t = (l.map f).sum + f t' := by
  induction l generalizing i with
  | nil => cases h
  | cons x l ih =>
      cases i with
      | zero =>
          obtain rfl : x = t := by simpa using h
          rw [List.set_cons_zero, List.map_cons, List.map_cons, List.sum_cons, List.sum_cons]
          abel
      | succ i =>
          have hrest := ih (by simpa using h)
          rw [List.set_cons_succ, List.map_cons, List.map_cons, List.sum_cons, List.sum_cons,
            add_assoc, hrest, add_assoc]

/-- A part of a sum moves: the value and the sum of the parts move along. -/
theorem part_moves {G : Type*} [AddCommGroup G] {x x' y y' p p' n : G} (hx : x' + p = x + p' + n)
    (hy : y' + p = y + p') : x' + y = x + y' + n := by
  have h : x' + y + p = x + y' + n + p := by
    calc
      x' + y + p = x' + p + y := add_right_comm x' y p
      _ = x + (y + p') + n := by rw [hx]; abel
      _ = x + y' + n + p := by rw [← hy]; abel
  exact add_right_cancel h

/-- **The rule of accounts**: a shared value stays the sum of the main loop's part and the parts of
the tasks. -/
theorem account_step {G : Type*} [AddCommGroup G] {f : τ → G} {g p : σ → G} {a : Act α β}
    (h : step main work s a = some s')
    (hmain : ∀ {x r}, a = .main x → main s.shared x = some r →
      g r.1 + p s.shared = g s.shared + p r.1 + (r.2.map f).sum)
    (hwork : ∀ {i b t r}, a = .task i b → s.tasks[i]? = some t → work i s.shared t b = some r →
      p r.1 = p s.shared ∧ g r.1 + f t = g s.shared + f r.2)
    (hg : g s.shared = p s.shared + (s.tasks.map f).sum) :
    g s'.shared = p s'.shared + (s'.tasks.map f).sum := by
  obtain ⟨x, r, ha, hr, rfl⟩ | ⟨i, b, t, r, ha, ht, hr, rfl⟩ := step_cases h
  · have hstep := hmain ha hr
    rw [hg] at hstep
    have h' : g r.1 + p s.shared
        = p r.1 + ((s.tasks.map f).sum + (r.2.map f).sum) + p s.shared := by
      rw [hstep]
      abel
    rw [List.map_append, List.sum_append]
    exact add_right_cancel h'
  · obtain ⟨hp, hstep⟩ := hwork ha ht hr
    rw [hg, add_assoc, ← sum_set f r.2 ht, ← add_assoc] at hstep
    rw [hp]
    exact add_right_cancel hstep

end Tasks

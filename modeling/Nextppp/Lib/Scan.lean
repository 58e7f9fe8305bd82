/-
**Loops with a carried value, done block by block.**

A loop that walks over a list, emits one element per step and carries a value along is the common
shape of codecs that look at their neighbour.  `Scan.run` is that loop.  A vector unit does the same
work a block at a time: `Scan.runBlocks` hands each full chunk to a kernel and leaves the tail to the
loop.

* `Scan.run_append` — the loop can be cut anywhere;
* `Scan.runBlocks_eq` — a kernel that agrees with the loop on full blocks computes the whole loop.

Inside a block a running sum is computed by doubling: adding to every lane the lane `w` places before
it turns sums of windows of `w` lanes into sums of windows of `2 * w` lanes.

* `Scan.window`, `Scan.window_double` — the windows and the doubling step;
* `Scan.window_full` — a window that reaches the first lane is the running sum.
-/

import Nextppp.Lib.Lists

set_option relaxedAutoImplicit false
set_option autoImplicit false

namespace Scan

open ListLib

/-! ### The loop and its blocks -/

section Loop

variable {α β σ : Type*}

/-- Walk over a list, emitting an element and updating the carried value at every step. -/
def run (step : σ → α → β × σ) : σ → List α → List β × σ
  | s, [] => ([], s)
  | s, a :: as =>
      let r := run step (step s a).2 as
      ((step s a).1 :: r.1, r.2)

/-- The loop can be cut anywhere. -/
theorem run_append (step : σ → α → β × σ) (s : σ) (l m : List α) :
    run step s (l ++ m) =
      ((run step s l).1 ++ (run step (run step s l).2 m).1, (run step (run step s l).2 m).2) := by
  induction l generalizing s with
  | nil => rfl
  | cons a l ih =>
      rw [List.cons_append, run, ih]
      rfl

@[simp] theorem run_length (step : σ → α → β × σ) (s : σ) (l : List α) :
    (run step s l).1.length = l.length := by
  induction l generalizing s with
  | nil => rfl
  | cons a l ih => simp [run, ih]

/-- Hand every block to a kernel, carrying the value from block to block. -/
def blocks (kernel : σ → List α → List β × σ) : σ → List (List α) → List β × σ
  | s, [] => ([], s)
  | s, c :: cs =>
      let r := blocks kernel (kernel s c).2 cs
      ((kernel s c).1 ++ r.1, r.2)

/-- The full blocks of `n` elements through the kernel, the tail through the loop. -/
def runBlocks (n : ℕ) (kernel : σ → List α → List β × σ) (step : σ → α → β × σ) (s : σ)
    (l : List α) : List β × σ :=
  let b := blocks kernel s (asChunks n l).1
  let t := run step b.2 (asChunks n l).2
  (b.1 ++ t.1, t.2)

/-- A kernel that agrees with the loop on full blocks computes the whole loop. -/
theorem runBlocks_eq {n : ℕ} (hn : 0 < n) {kernel : σ → List α → List β × σ}
    {step : σ → α → β × σ} (h : ∀ s c, c.length = n → kernel s c = run step s c) (s : σ)
    (l : List α) : runBlocks n kernel step s l = run step s l := by
  induction l using chunk_induction hn generalizing s with
  | short l hl => simp [runBlocks, asChunks_of_lt hl, blocks]
  | chunk c l hc ih =>
      rw [run_append, ← ih, ← h s c hc]
      simp only [runBlocks, asChunks_append hn hc, blocks, List.append_assoc]

end Loop

/-! ### Running sums by doubling -/

section Window

variable {α : Type*} [AddCommMonoid α]

/-- The sum of the `w` lanes that end at lane `i`, or of all lanes up to it. -/
def window (v : ℕ → α) (w i : ℕ) : α := ∑ j ∈ Finset.range (min w (i + 1)), v (i - j)

@[simp] theorem window_one (v : ℕ → α) (i : ℕ) : window v 1 i = v i := by
  simp [window]

/-- The doubling step: every window is joined to the one `w` lanes before it. -/
theorem window_double (v : ℕ → α) (w i : ℕ) :
    (window v w i + if i < w then 0 else window v w (i - w)) = window v (2 * w) i := by
  by_cases h : i < w
  · rw [if_pos h, add_zero, window, window, min_eq_right (by omega), min_eq_right (by omega)]
  · have hmin : min (2 * w) (i + 1) = w + min w (i - w + 1) := by omega
    rw [if_neg h, window, window, window, hmin, Finset.sum_range_add, min_eq_left (by omega)]
    congr 1
    refine Finset.sum_congr rfl fun j _ => ?_
    rw [Nat.sub_sub]

/-- A window that reaches the first lane is the running sum. -/
theorem window_full (v : ℕ → α) {w i : ℕ} (h : i < w) :
    window v w i = ∑ j ∈ Finset.range (i + 1), v j := by
  rw [window, min_eq_right (by omega), ← Finset.sum_range_reflect]
  refine Finset.sum_congr rfl fun j hj => ?_
  rw [Nat.add_sub_cancel, Nat.sub_sub_self (Nat.lt_succ_iff.1 (Finset.mem_range.1 hj))]

end Window

end Scan

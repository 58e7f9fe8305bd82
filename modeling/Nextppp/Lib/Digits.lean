/-
**Positional numerals, written by a `do … while` loop.**

A routine that prints a number in base `b` usually divides by `b` until nothing is left and emits
at least one digit.  `Numeral.digitsLoop` is that loop, low digit first, with a bound on the number
of rounds; `Numeral.value` reads a numeral back, high digit first, the way a parser accumulates it.

* `Numeral.value_digitsLoop` — reading back what was written;
* `Numeral.digitsLoop_lt`, `Numeral.digitsLoop_length_le`, `Numeral.digitsLoop_length_pos` — the
  digits are below the base, there are at most as many as the number needs, and at least one;
* `Numeral.digitsLoop_getLast?` — the leading digit is zero for the number zero only;
* `Numeral.value_replicate_zero_append` — leading zeros do not change the value;
* `Numeral.value_set_modEq_iff` — when a reduction hides that one digit was changed.
-/

import Mathlib

set_option relaxedAutoImplicit false
set_option autoImplicit false

namespace Numeral

/-! ### Writing -/

/-- The digits of `v` in base `b`, low digit first, in at most `fuel` rounds of a loop that emits
a digit before it tests whether anything is left. -/
def digitsLoop (b : ℕ) : ℕ → ℕ → List ℕ
  | 0, _ => []
  | fuel + 1, v => v % b :: if v / b = 0 then [] else digitsLoop b fuel (v / b)

theorem digitsLoop_succ (b fuel v : ℕ) :
    digitsLoop b (fuel + 1) v = v % b :: if v / b = 0 then [] else digitsLoop b fuel (v / b) := rfl

theorem digitsLoop_lt {b : ℕ} (hb : 0 < b) (fuel v : ℕ) : ∀ d ∈ digitsLoop b fuel v, d < b := by
  induction fuel generalizing v with
  | zero => simp [digitsLoop]
  | succ fuel ih =>
      intro d hd
      rw [digitsLoop_succ, List.mem_cons] at hd
      rcases hd with rfl | hd
      · exact Nat.mod_lt _ hb
      · split at hd
        · simp at hd
        · exact ih _ d hd

theorem digitsLoop_length_pos {fuel : ℕ} (hf : 0 < fuel) (b v : ℕ) :
    0 < (digitsLoop b fuel v).length := by
  cases fuel with
  | zero => omega
  | succ fuel => simp [digitsLoop_succ]

theorem digitsLoop_length_le_fuel (b fuel v : ℕ) : (digitsLoop b fuel v).length ≤ fuel := by
  induction fuel generalizing v with
  | zero => simp [digitsLoop]
  | succ fuel ih =>
      rw [digitsLoop_succ]
      split
      · simp
      · simpa using ih (v / b)

/-- A number below `b ^ k` takes at most `k` digits. -/
theorem digitsLoop_length_le {b k v : ℕ} (hk : 0 < k) (hv : v < b ^ k) (fuel : ℕ) :
    (digitsLoop b fuel v).length ≤ k := by
  induction fuel generalizing k v with
  | zero => simp [digitsLoop]
  | succ fuel ih =>
      rw [digitsLoop_succ]
      split
      · simp; omega
      · rename_i h
        obtain ⟨k, rfl⟩ : ∃ j, k = j + 1 := ⟨k - 1, by omega⟩
        have hdiv : v / b < b ^ k := Nat.div_lt_of_lt_mul (by rwa [pow_succ'] at hv)
        have hkpos : 0 < k := by
          rcases Nat.eq_zero_or_pos k with rfl | hk'
          · exact absurd (Nat.lt_one_iff.1 (by simpa using hdiv)) h
          · exact hk'
        simpa using ih hkpos hdiv

/-- The last digit written, which is the leading one, is zero for the number zero only. -/
theorem digitsLoop_getLast? {b fuel v : ℕ} (hv : v < b ^ fuel)
    (h : (digitsLoop b fuel v).getLast? = some 0) : v = 0 := by
  induction fuel generalizing v with
  | zero => simp [digitsLoop] at h
  | succ fuel ih =>
      have hdiv : v / b < b ^ fuel := Nat.div_lt_of_lt_mul (by rwa [pow_succ'] at hv)
      have hdm := Nat.div_add_mod v b
      rw [digitsLoop_succ] at h
      split at h
      · rename_i hz
        have hmod : v % b = 0 := by simpa using h
        rw [hz, hmod] at hdm
        simpa using hdm.symm
      · rename_i hz
        have hpos : 0 < fuel := by
          rcases Nat.eq_zero_or_pos fuel with rfl | hpos
          · exact absurd (Nat.lt_one_iff.1 (by simpa using hdiv)) hz
          · exact hpos
        have hne := List.ne_nil_of_length_pos (digitsLoop_length_pos hpos b (v / b))
        rw [List.getLast?_cons_of_ne_nil hne] at h
        exact absurd (ih hdiv h) hz

/-! ### Reading -/

/-- The value of a numeral, high digit first. -/
def value (b : ℕ) (l : List ℕ) : ℕ := l.foldl (fun a d => a * b + d) 0

@[simp] theorem value_nil (b : ℕ) : value b [] = 0 := rfl

theorem value_append_singleton (b : ℕ) (l : List ℕ) (d : ℕ) :
    value b (l ++ [d]) = value b l * b + d := by simp [value]

/-- Reading back the digits that were written gives the number, if there were rounds enough. -/
theorem value_digitsLoop {b : ℕ} {fuel v : ℕ} (hv : v < b ^ fuel) :
    value b (digitsLoop b fuel v).reverse = v := by
  induction fuel generalizing v with
  | zero => simp at hv; simp [digitsLoop, hv]
  | succ fuel ih =>
      rw [digitsLoop_succ, List.reverse_cons, value_append_singleton]
      have hdiv : v / b < b ^ fuel := Nat.div_lt_of_lt_mul (by rwa [pow_succ'] at hv)
      split
      · rename_i h
        have := Nat.div_add_mod v b
        rw [h, Nat.mul_zero] at this
        simpa using this
      · rw [ih hdiv, Nat.mul_comm]
        exact Nat.div_add_mod v b

/-- Leading zeros do not change the value. -/
theorem value_replicate_zero_append (b k : ℕ) (l : List ℕ) :
    value b (List.replicate k 0 ++ l) = value b l := by
  induction k with
  | zero => rfl
  | succ k ih => rw [List.replicate_succ, List.cons_append]; simpa [value] using ih

/-- A numeral of `k` digits below the base is below `b ^ k`. -/
theorem value_lt {b : ℕ} (l : List ℕ) (h : ∀ d ∈ l, d < b) : value b l < b ^ l.length := by
  induction l using List.reverseRecOn with
  | nil => simp
  | append_singleton l d ih =>
      have hl := ih fun x hx => h x (by simp [hx])
      have hd := h d (by simp)
      rw [value_append_singleton, List.length_append, List.length_singleton, pow_succ]
      calc value b l * b + d < value b l * b + b := by omega
        _ = (value b l + 1) * b := by ring
        _ ≤ b ^ l.length * b := Nat.mul_le_mul_right b hl

/-! ### Fixed-width numerals -/

/-- The low `k` digits of `v`, high digit first. -/
def fixedDigits (b : ℕ) : ℕ → ℕ → List ℕ
  | 0, _ => []
  | k + 1, v => fixedDigits b k (v / b) ++ [v % b]

@[simp] theorem fixedDigits_length (b k v : ℕ) : (fixedDigits b k v).length = k := by
  induction k generalizing v with
  | zero => rfl
  | succ k ih => simp [fixedDigits, ih]

theorem fixedDigits_lt {b : ℕ} (hb : 0 < b) (k v : ℕ) : ∀ d ∈ fixedDigits b k v, d < b := by
  induction k generalizing v with
  | zero => simp [fixedDigits]
  | succ k ih =>
      intro d hd
      rcases List.mem_append.1 hd with hd | hd
      · exact ih _ d hd
      · rw [List.mem_singleton.1 hd]
        exact Nat.mod_lt _ hb

theorem value_fixedDigits (b k v : ℕ) : value b (fixedDigits b k v) = v % b ^ k := by
  induction k generalizing v with
  | zero => simp [fixedDigits, Nat.mod_one]
  | succ k ih =>
      rw [fixedDigits, value_append_singleton, ih, pow_succ', Nat.mod_mul]
      ring

/-- The value of two numerals written one after the other. -/
theorem value_append (b : ℕ) (l m : List ℕ) :
    value b (l ++ m) = value b l * b ^ m.length + value b m := by
  induction m using List.reverseRecOn with
  | nil => simp
  | append_singleton m d ih =>
      rw [← List.append_assoc, value_append_singleton, value_append_singleton, ih,
        List.length_append, List.length_singleton, pow_succ]
      ring

/-- A changed digit moves the value by its distance, at the weight of its position. -/
theorem value_set (b : ℕ) (l : List ℕ) (k : ℕ) (hk : k < l.length) (d : ℕ) :
    value b (l.set k d) + l[k] * b ^ (l.length - 1 - k)
      = value b l + d * b ^ (l.length - 1 - k) := by
  have hlen : (l.drop (k + 1)).length = l.length - 1 - k := by
    rw [List.length_drop]
    omega
  have hsplit : ∀ x, value b (l.take k ++ [x] ++ l.drop (k + 1))
      = (value b (l.take k) * b + x) * b ^ (l.length - 1 - k) + value b (l.drop (k + 1)) := by
    intro x
    rw [value_append, value_append_singleton, hlen]
  have hset : l.set k d = l.take k ++ [d] ++ l.drop (k + 1) := by
    rw [List.set_eq_take_append_cons_drop, if_pos hk, List.append_assoc]
    rfl
  have hself : l = l.take k ++ [l[k]] ++ l.drop (k + 1) := by simp
  have hval := congrArg (value b) hself
  rw [hsplit] at hval
  rw [hset, hsplit, hval]
  ring

/-- A reduction modulo `m` does not see a digit change exactly when the digits agree modulo the part
of `m` that its weight leaves. -/
theorem value_set_modEq_iff {m : ℕ} (hm : 0 < m) (b : ℕ) (l : List ℕ) (k : ℕ) (hk : k < l.length)
    (d : ℕ) :
    value b (l.set k d) ≡ value b l [MOD m] ↔
      d ≡ l[k] [MOD m / m.gcd (b ^ (l.length - 1 - k))] := by
  have hset := value_set b l k hk d
  constructor
  · intro h
    refine Nat.ModEq.cancel_right_div_gcd hm (c := b ^ (l.length - 1 - k)) ?_
    exact h.symm.add_left_cancel (by rw [hset])
  · intro h
    have hdvd : m ∣ m / m.gcd (b ^ (l.length - 1 - k)) * b ^ (l.length - 1 - k) :=
      calc m = m / m.gcd (b ^ (l.length - 1 - k)) * m.gcd (b ^ (l.length - 1 - k)) :=
            (Nat.div_mul_cancel (m.gcd_dvd_left _)).symm
        _ ∣ _ := Nat.mul_dvd_mul_left _ (m.gcd_dvd_right _)
    have hmul := (h.mul_right' (b ^ (l.length - 1 - k))).of_dvd hdvd
    exact hmul.symm.add_right_cancel (by rw [hset])

end Numeral

/-
**Dialling the server: `dial` and `dial_sync` of `pool.rs`.**

A dial makes up to `connect_retries + 1` attempts, as long as a deadline for the whole phase has not
passed, and stops at the first success and at the first error that is not worth a retry.  The deadline
is computed from configuration values that nothing bounds, in fixed-width arithmetic: the number of
attempts in 32 bits, the budget as a duration, the deadline as an instant.  What an overflow does
depends on the build for the first (a panic with overflow checks, zero attempts without) and is a panic
for the others.

An environment says what the clock reads at every look and what comes of every attempt, given the
budget it gets.  Instants are counted in nanoseconds.

Main definitions:

* `Nextppp.Dial.ClientConfig.load`, `Nextppp.Dial.ClientRuntime.fromConfig` — the configuration;
* `Nextppp.Dial.deadline` — the deadline of a dial, or a panic;
* `Nextppp.Dial.dialOnce`, `Nextppp.Dial.dialSync` — an attempt, and the loop of attempts.

Main results:

* `Nextppp.Dial.dialSync_conforms` — what the loop does, for every deadline and every environment;
* `Nextppp.Dial.dial_budgeted_iff` — the configurations whose dials get the budget they ask for.
-/

import Nextppp.Common.Dns
import Nextppp.Common.Routine

set_option relaxedAutoImplicit false
set_option autoImplicit false

namespace Nextppp

namespace Dial

/-! ### The configuration -/

/-- The part of a client configuration that is validated or that a dial reads: the outcome of building
the obfuscation key, the links of the bond section if there is one, and the dial parameters. -/
structure ClientConfig where
  obfuscation : Except String Unit
  bondLinks : Option ℕ
  connectTimeout : UInt64
  connectRetries : UInt32

/-- The validation of a parsed configuration. -/
def ClientConfig.load (cfg : ClientConfig) : Except String ClientConfig :=
  match cfg.obfuscation with
  | .error e => .error e
  | .ok () => if cfg.bondLinks = some 0 then .error "bond.links must be >= 1" else .ok cfg

/-- The dial parameters of a runtime: a timeout in seconds and the extra attempts. -/
structure ClientRuntime where
  connectTimeout : UInt64
  connectRetries : UInt32

/-- The runtime parameters are those of the configuration. -/
def ClientRuntime.fromConfig (cfg : ClientConfig) : ClientRuntime :=
  ⟨cfg.connectTimeout, cfg.connectRetries⟩

/-! ### The deadline -/

/-- What depends on the build and the system: whether integer overflow is checked, and the instant that
is the first one a clock cannot represent. -/
structure Platform where
  overflowChecks : Bool
  instantEnd : ℕ

/-- `connect_retries + 1` in 32 bits. -/
def attemptCount (P : Platform) (retries : UInt32) : Option UInt32 :=
  if retries.toNat + 1 < 2 ^ 32 then some (retries + 1)
  else if P.overflowChecks then none
  else some (retries + 1)

/-- A duration of whole seconds times a number, which panics when the seconds do not fit. -/
def mulDuration (secs : UInt64) (n : UInt32) : Option ℕ :=
  if secs.toNat * n.toNat < 2 ^ 64 then some (secs.toNat * n.toNat) else none

/-- An instant plus a duration of whole seconds, which panics when no instant is that late. -/
def addInstant (P : Platform) (now secs : ℕ) : Option ℕ :=
  if now + secs * second < P.instantEnd then some (now + secs * second) else none

/-- The deadline of the whole dial phase; `none` is a panic. -/
def deadline (P : Platform) (rt : ClientRuntime) (now : ℕ) : Option ℕ := do
  let n ← attemptCount P rt.connectRetries
  let budget ← mulDuration rt.connectTimeout n
  addInstant P now budget

/-! ### The attempts -/

variable {α : Type}

/-- One attempt: what the clock reads when the loop looks at it and when the attempt does, and what
comes of connecting with a budget. -/
structure Attempt (α : Type) where
  check : ℕ
  start : ℕ
  outcome : ℕ → Except (List Cause) α

/-- The deadline passed. -/
def deadlineExceeded : List Cause := [.io .timedOut]

/-- One attempt: a full timeout, clamped to what is left of the phase. -/
def dialOnce (rt : ClientRuntime) (deadline : ℕ) (a : Attempt α) : Except (List Cause) α :=
  let remaining := deadline - a.start
  if remaining = 0 then .error deadlineExceeded
  else a.outcome (min remaining (rt.connectTimeout.toNat * second))

/-- What a dial did: how many attempts it made, when they connected, and what it returned. -/
structure Outcome (α : Type) where
  attempts : ℕ
  starts : List ℕ
  result : Except (List Cause) α

/-- The connect of an attempt, if it gets that far. -/
def connectAt (deadline : ℕ) (a : Attempt α) : List ℕ := if a.start < deadline then [a.start] else []

/-- The loop, after `attempt` failures and with `left` retries to go. -/
def dialLoop (rt : ClientRuntime) (deadline : ℕ) (env : ℕ → Attempt α) :
    (left attempt : ℕ) → Option (List Cause) → Outcome α
  | left, attempt, last =>
      if (env attempt).check < deadline then
        let starts := connectAt deadline (env attempt)
        match dialOnce rt deadline (env attempt) with
        | .ok v => ⟨attempt + 1, starts, .ok v⟩
        | .error e =>
            match left with
            | 0 => ⟨attempt + 1, starts, .error e⟩
            | left + 1 =>
                if retryable e then
                  let r := dialLoop rt deadline env left (attempt + 1) (some e)
                  { r with starts := starts ++ r.starts }
                else ⟨attempt + 1, starts, .error e⟩
      else
        ⟨attempt, [], .error (.context "dial deadline exceeded" ::
          last.getD [.context "dial deadline exceeded"])⟩

/-- The attempts of a dial. -/
def dialSync (rt : ClientRuntime) (deadline : ℕ) (env : ℕ → Attempt α) : Outcome α :=
  dialLoop rt deadline env rt.connectRetries.toNat 0 none

/-- A dial: the deadline, and the attempts under it; `none` is a panic. -/
def dial (P : Platform) (rt : ClientRuntime) (now : ℕ) (env : ℕ → Attempt α) :
    Option (Outcome α) :=
  (deadline P rt now).map fun d => dialSync rt d env

/-! ### What the loop does -/

/-- What is asked of the attempts under a deadline, from attempt `k` on. -/
structure Conforms (rt : ClientRuntime) (deadline : ℕ) (env : ℕ → Attempt α) (k : ℕ)
    (r : Outcome α) : Prop where
  from_first : k ≤ r.attempts
  /-- a loop that starts before the deadline makes an attempt -/
  starts_once : (env k).check < deadline → k < r.attempts
  at_most : r.attempts ≤ rt.connectRetries.toNat + 1
  /-- no attempt, and no connect, begins after the deadline -/
  in_time : ∀ i, k ≤ i → i < r.attempts → (env i).check < deadline
  connects_in_time : ∀ t ∈ r.starts, t < deadline
  /-- only an error worth a retry is followed by another attempt -/
  retried : ∀ i, k ≤ i → i + 1 < r.attempts →
    ∃ e, dialOnce rt deadline (env i) = .error e ∧ retryable e = true
  /-- the first success is returned -/
  success : ∀ i v, k ≤ i → i < r.attempts → dialOnce rt deadline (env i) = .ok v →
    r.attempts = i + 1 ∧ r.result = .ok v
  /-- and nothing else -/
  only_success : ∀ v, r.result = .ok v →
    k < r.attempts ∧ dialOnce rt deadline (env (r.attempts - 1)) = .ok v
  /-- an error that is not worth a retry ends the dial -/
  fatal : ∀ i e, k ≤ i → i < r.attempts → dialOnce rt deadline (env i) = .error e →
    retryable e = false → r.attempts = i + 1 ∧ r.result = .error e
  /-- it gives up only at the deadline, at such an error, or when the retries are used up -/
  gives_up : ∀ e, r.result = .error e →
    deadline ≤ (env r.attempts).check ∨
      (k < r.attempts ∧ dialOnce rt deadline (env (r.attempts - 1)) = .error e ∧
        (retryable e = false ∨ rt.connectRetries.toNat + 1 ≤ r.attempts))

section Loop

variable {rt : ClientRuntime} {deadline : ℕ} {env : ℕ → Attempt α} {k : ℕ}

/-- An attempt connects before the deadline or not at all. -/
theorem connectAt_lt (a : Attempt α) : ∀ t ∈ connectAt deadline a, t < deadline := by
  intro t ht
  rw [connectAt] at ht
  split at ht
  · rename_i h
    rw [List.mem_singleton.1 ht]
    exact h
  · cases ht

/-- The dial ends with attempt `k`. -/
theorem Conforms.stop (hk : k ≤ rt.connectRetries.toNat) (hcheck : (env k).check < deadline)
    (hend : ∀ e, dialOnce rt deadline (env k) = .error e →
      retryable e = false ∨ rt.connectRetries.toNat ≤ k) :
    Conforms rt deadline env k
      ⟨k + 1, connectAt deadline (env k), dialOnce rt deadline (env k)⟩ where
  from_first := Nat.le_succ k
  starts_once _ := Nat.lt_succ_self k
  at_most := Nat.succ_le_succ hk
  in_time i hki hi := by
    obtain rfl : i = k := Nat.le_antisymm (Nat.le_of_lt_succ hi) hki
    exact hcheck
  connects_in_time := connectAt_lt (env k)
  retried i hki hi := by dsimp only at hi; omega
  success i v hki hi hv := by
    obtain rfl : i = k := Nat.le_antisymm (Nat.le_of_lt_succ hi) hki
    exact ⟨rfl, hv⟩
  only_success v hv := ⟨Nat.lt_succ_self k, hv⟩
  fatal i e hki hi he _ := by
    obtain rfl : i = k := Nat.le_antisymm (Nat.le_of_lt_succ hi) hki
    exact ⟨rfl, he⟩
  gives_up e he :=
    .inr ⟨Nat.lt_succ_self k, he, (hend e he).imp_right fun h => Nat.succ_le_succ h⟩

/-- The deadline passes before attempt `k`. -/
theorem Conforms.late (hk : k ≤ rt.connectRetries.toNat) (hcheck : deadline ≤ (env k).check)
    (e : List Cause) : Conforms rt deadline env k ⟨k, [], .error e⟩ where
  from_first := le_rfl
  starts_once h := absurd h (not_lt.2 hcheck)
  at_most := Nat.le_succ_of_le hk
  in_time i hki hi := by dsimp only at hi; omega
  connects_in_time t ht := by cases ht
  retried i hki hi := by dsimp only at hi; omega
  success i v hki hi := by dsimp only at hi; omega
  only_success v hv := by cases hv
  fatal i e hki hi := by dsimp only at hi; omega
  gives_up _ _ := .inl hcheck

/-- Attempt `k` failed with an error worth a retry, and the dial goes on. -/
theorem Conforms.retry {r : Outcome α} {e : List Cause} (hr : Conforms rt deadline env (k + 1) r)
    (hcheck : (env k).check < deadline) (he : dialOnce rt deadline (env k) = .error e)
    (hretry : retryable e = true) :
    Conforms rt deadline env k { r with starts := connectAt deadline (env k) ++ r.starts } where
  from_first := (Nat.le_succ k).trans hr.from_first
  starts_once _ := hr.from_first
  at_most := hr.at_most
  in_time i hki hi := by
    rcases Nat.eq_or_lt_of_le hki with rfl | hlt
    · exact hcheck
    · exact hr.in_time i hlt hi
  connects_in_time t ht := by
    rcases List.mem_append.1 ht with ht | ht
    · exact connectAt_lt (env k) t ht
    · exact hr.connects_in_time t ht
  retried i hki hi := by
    rcases Nat.eq_or_lt_of_le hki with rfl | hlt
    · exact ⟨e, he, hretry⟩
    · exact hr.retried i hlt hi
  success i v hki hi hv := by
    rcases Nat.eq_or_lt_of_le hki with rfl | hlt
    · rw [he] at hv
      cases hv
    · exact hr.success i v hlt hi hv
  only_success v hv := ⟨hr.from_first, (hr.only_success v hv).2⟩
  fatal i e' hki hi he' hfatal := by
    rcases Nat.eq_or_lt_of_le hki with rfl | hlt
    · rw [he] at he'
      cases he'
      rw [hretry] at hfatal
      cases hfatal
    · exact hr.fatal i e' hlt hi he' hfatal
  gives_up e' he' := by
    rcases hr.gives_up e' he' with h | ⟨-, h⟩
    · exact .inl h
    · exact .inr ⟨hr.from_first, h⟩

/-- The loop does what is asked of it.  Induction on the retries that are left. -/
theorem dialLoop_conforms (left : ℕ) (hk : k + left = rt.connectRetries.toNat)
    (last : Option (List Cause)) :
    Conforms rt deadline env k (dialLoop rt deadline env left k last) := by
  induction left generalizing k last with
  | zero =>
      rw [dialLoop]
      split
      · rename_i hcheck
        have hstop : Conforms rt deadline env k
            ⟨k + 1, connectAt deadline (env k), dialOnce rt deadline (env k)⟩ :=
          .stop (by omega) hcheck fun _ _ => .inr (by omega)
        cases ho : dialOnce rt deadline (env k) with
        | ok v => rwa [ho] at hstop
        | error e => rwa [ho] at hstop
      · rename_i hcheck
        exact .late (by omega) (not_lt.1 hcheck) _
  | succ left ih =>
      have hstop : (env k).check < deadline →
          (∀ e, dialOnce rt deadline (env k) = .error e → retryable e = false) →
          Conforms rt deadline env k
            ⟨k + 1, connectAt deadline (env k), dialOnce rt deadline (env k)⟩ :=
        fun hcheck hfatal => .stop (by omega) hcheck fun e he => .inl (hfatal e he)
      rw [dialLoop]
      split
      · rename_i hcheck
        cases ho : dialOnce rt deadline (env k) with
        | ok v =>
            rw [ho] at hstop
            exact hstop hcheck fun e he => by cases he
        | error e =>
            dsimp only
            split
            · rename_i hretry
              exact (ih (by omega) (some e)).retry hcheck ho hretry
            · rename_i hretry
              rw [ho] at hstop
              refine hstop hcheck fun e' he' => ?_
              cases he'
              exact Bool.eq_false_of_not_eq_true hretry
      · rename_i hcheck
        exact .late (by omega) (not_lt.1 hcheck) _

end Loop

/-- What a dial does, for every deadline and every environment. -/
theorem dialSync_conforms (rt : ClientRuntime) (deadline : ℕ) (env : ℕ → Attempt α) :
    Conforms rt deadline env 0 (dialSync rt deadline env) :=
  dialLoop_conforms _ (Nat.zero_add _) none

/-! ### The budget -/

/-- The end of the phase that a dial begun at `now` asks for. -/
def phaseEnd (rt : ClientRuntime) (now : ℕ) : ℕ :=
  now + rt.connectTimeout.toNat * (rt.connectRetries.toNat + 1) * second

/-- The values whose arithmetic does not overflow: the number of attempts fits in 32 bits, the budget
in a duration, and the deadline in an instant. -/
def Fits (P : Platform) (rt : ClientRuntime) (now : ℕ) : Prop :=
  rt.connectRetries.toNat + 1 < 2 ^ 32 ∧
    rt.connectTimeout.toNat * (rt.connectRetries.toNat + 1) < 2 ^ 64 ∧
    phaseEnd rt now < P.instantEnd

/-- Without overflow the deadline is the end of the phase. -/
theorem deadline_of_fits {P : Platform} {rt : ClientRuntime} {now : ℕ} (h : Fits P rt now) :
    deadline P rt now = some (phaseEnd rt now) := by
  obtain ⟨hcount, hbudget, hinstant⟩ := h
  have hadd : (rt.connectRetries + 1).toNat = rt.connectRetries.toNat + 1 := by
    rw [UInt32.toNat_add]
    exact Nat.mod_eq_of_lt hcount
  have hcount' : attemptCount P rt.connectRetries = some (rt.connectRetries + 1) := if_pos hcount
  have hbudget' : mulDuration rt.connectTimeout (rt.connectRetries + 1) =
      some (rt.connectTimeout.toNat * (rt.connectRetries.toNat + 1)) := by
    rw [mulDuration, hadd, if_pos hbudget]
  rw [deadline, hcount', Option.bind_eq_bind, Option.bind_some, hbudget', Option.bind_eq_bind,
    Option.bind_some]
  exact if_pos hinstant

/-- A dial that gets its deadline, with a timeout, did not overflow: without overflow checks the
number of attempts wraps to zero, and with it the budget. -/
theorem fits_of_deadline {P : Platform} {rt : ClientRuntime} {now : ℕ}
    (hpos : 0 < rt.connectTimeout.toNat) (h : deadline P rt now = some (phaseEnd rt now)) :
    Fits P rt now := by
  obtain ⟨n, hn, hrest⟩ := Option.bind_eq_some_iff.1 h
  obtain ⟨budget, hbudget, hinstant⟩ := Option.bind_eq_some_iff.1 hrest
  have hn' : n = rt.connectRetries + 1 := by
    rw [attemptCount] at hn
    split at hn
    · exact (Option.some.inj hn).symm
    · split at hn
      · cases hn
      · exact (Option.some.inj hn).symm
  rw [mulDuration] at hbudget
  split at hbudget
  · rename_i hmul
    cases hbudget
    rw [addInstant] at hinstant
    split at hinstant
    · rename_i hlt
      have heq : n.toNat = rt.connectRetries.toNat + 1 := by
        have hsecs := Option.some.inj hinstant
        simp only [phaseEnd, Nat.add_left_cancel_iff] at hsecs
        have hmul := Nat.eq_of_mul_eq_mul_right (by decide : 0 < second) hsecs
        exact Nat.eq_of_mul_eq_mul_left hpos hmul
      refine ⟨?_, by rwa [← heq], by rwa [phaseEnd, ← heq]⟩
      rw [← heq]
      exact n.toNat_lt
    · cases hinstant
  · cases hbudget

/-- What is asked of the dials of a configuration: the deadline is the whole budget after now, the
attempts are made under it, and they conform. -/
def Budgeted (α : Type) (P : Platform) (rt : ClientRuntime) (now : ℕ) : Prop :=
  deadline P rt now = some (phaseEnd rt now) ∧ now < phaseEnd rt now ∧
    ∀ env : ℕ → Attempt α, dial P rt now env = some (dialSync rt (phaseEnd rt now) env) ∧
      Conforms rt (phaseEnd rt now) env 0 (dialSync rt (phaseEnd rt now) env)

/-- A configuration with a timeout gets the dials it asks for exactly when nothing overflows. -/
theorem dial_budgeted_iff (α : Type) (P : Platform) (cfg : ClientConfig) (now : ℕ)
    (hpos : 0 < cfg.connectTimeout) :
    Budgeted α P (.fromConfig cfg) now ↔ Fits P (.fromConfig cfg) now := by
  have hpos' : 0 < (ClientRuntime.fromConfig cfg).connectTimeout.toNat := hpos
  constructor
  · rintro ⟨hdeadline, -⟩
    exact fits_of_deadline hpos' hdeadline
  · intro hfits
    have hdeadline := deadline_of_fits hfits
    refine ⟨hdeadline, ?_, fun env => ⟨?_, dialSync_conforms _ _ _⟩⟩
    · have hbudget := Nat.mul_pos (Nat.mul_pos hpos' (Nat.succ_pos
        (ClientRuntime.fromConfig cfg).connectRetries.toNat)) (by decide : 0 < second)
      exact Nat.lt_add_of_pos_right hbudget
    · rw [dial, hdeadline]
      rfl

/-- The clocks of a system whose instants hold 63 bits of seconds. -/
def unixClock (overflowChecks : Bool) : Platform := ⟨overflowChecks, 2 ^ 63 * second⟩

/-- The defaults: ten seconds and one retry. -/
theorem dial_budgeted_default :
    Budgeted Unit (unixClock true) (.fromConfig ⟨.ok (), none, 10, 1⟩) 0 :=
  (dial_budgeted_iff Unit (unixClock true) ⟨.ok (), none, 10, 1⟩ 0 (by decide)).2
    ⟨by decide, by decide, by decide⟩

/-- A configuration that is accepted, with the most retries that can be written: the deadline panics,
or, without overflow checks, has passed when the dial begins, and no attempt is made.  With one retry
the budget panics from `2 ^ 63` seconds on. -/
theorem dial_overflows :
    ClientConfig.load ⟨.ok (), none, 10, 0xffffffff⟩ = .ok ⟨.ok (), none, 10, 0xffffffff⟩ ∧
      ¬Budgeted Unit (unixClock true) (.fromConfig ⟨.ok (), none, 10, 0xffffffff⟩) 0 ∧
      ¬Budgeted Unit (unixClock false) (.fromConfig ⟨.ok (), none, 10, 0xffffffff⟩) 0 ∧
      deadline (unixClock true) ⟨10, 0xffffffff⟩ 0 = none ∧
      (dial (unixClock false) ⟨10, 0xffffffff⟩ 0 fun _ => ⟨0, 0, fun _ => .ok ()⟩).map
        Outcome.attempts = some 0 ∧
      deadline (unixClock false) ⟨0x8000000000000000, 1⟩ 0 = none := by
  have hpanic : deadline (unixClock true) ⟨10, 0xffffffff⟩ 0 = none := by decide
  have hwrap : deadline (unixClock false) ⟨10, 0xffffffff⟩ 0 = some 0 := by decide
  refine ⟨rfl, ?_, ?_, hpanic, ?_, by decide⟩
  · rintro ⟨h, -⟩
    cases hpanic.symm.trans h
  · rintro ⟨h, hlt, -⟩
    have heq := Option.some.inj (hwrap.symm.trans h)
    rw [← heq] at hlt
    exact lt_irrefl 0 hlt
  · rw [dial, hwrap]
    rfl

end Dial

end Nextppp

/-
**The ids of sessions.**

The server numbers its sessions with a random base and a counter, and skips zero, which a handshake
would refuse.  Zero is skipped by taking one instead, and one is the next number where the base is
zero: there the first two sessions share an id.

Main definitions:

* `Nextppp.Gate.issued` — the ids of so many sessions.

Main results:

* `Nextppp.Gate.Issued.step` — the connections have the ids in their order;
* `Nextppp.Gate.session_ids` — no id is zero, and exactly when the ids are unique.
-/

import Nextppp.Server.Gate

set_option relaxedAutoImplicit false
set_option autoImplicit false

namespace Nextppp

namespace Gate

open Tasks Run

/-- The ids of the first `n` sessions. -/
def issued (base : UInt64) (n : ℕ) : List U128 :=
  (List.range n).map fun i => sessionId base (UInt64.ofNat i)

/-- An id as a number. -/
theorem sessionId_toNat (base n : UInt64) :
    (sessionId base n).toNat
      = if base.toNat + n.toNat = 0 then 1 else base.toNat + n.toNat := by
  have hb := base.toNat_lt
  have hn := n.toNat_lt
  have hsum : (BitVec.ofNat 128 base.toNat + BitVec.ofNat 128 n.toNat).toNat
      = base.toNat + n.toNat := by
    rw [BitVec.toNat_add, BitVec.toNat_ofNat, BitVec.toNat_ofNat]
    omega
  unfold sessionId
  by_cases hzero : base.toNat + n.toNat = 0
  · have hbv : BitVec.ofNat 128 base.toNat + BitVec.ofNat 128 n.toNat = 0 := by
      apply BitVec.eq_of_toNat_eq
      rw [hsum, hzero]
      rfl
    simp only [hbv, hzero, if_pos]
    rfl
  · have hbv : BitVec.ofNat 128 base.toNat + BitVec.ofNat 128 n.toNat ≠ 0 := by
      intro h
      rw [h] at hsum
      exact hzero hsum.symm
    simp only [hbv, hzero, if_false]
    exact hsum

theorem sessionId_ne_zero (base n : UInt64) : sessionId base n ≠ 0 := by
  intro h
  have hnat := sessionId_toNat base n
  rw [h] at hnat
  split at hnat
  · cases hnat
  · rename_i hne
    exact hne hnat.symm

/-- The ids of fewer than `2 ^ 64` sessions are unique, but for the first two over the base zero. -/
theorem issued_nodup_iff (base : UInt64) {n : ℕ} (hn : n ≤ 2 ^ 64) :
    (issued base n).Nodup ↔ base ≠ 0 ∨ n < 2 := by
  have hval : ∀ i, i < n → (sessionId base (UInt64.ofNat i)).toNat
      = if base.toNat + i = 0 then 1 else base.toNat + i := by
    intro i hi
    rw [sessionId_toNat, UInt64.toNat_ofNat_of_lt' (by show i < 2 ^ 64; omega)]
  constructor
  · intro h
    by_contra hnot
    rw [not_or, not_not] at hnot
    obtain ⟨rfl, hlen⟩ := hnot
    have htwo : [0, 1].Sublist (List.range n) := by
      exact List.range_sublist.2 (show 2 ≤ n by omega)
    have hsub := h.sublist (htwo.map fun i => sessionId 0 (UInt64.ofNat i))
    exact absurd hsub (by decide)
  · intro h
    refine (List.nodup_range).map_on ?_
    intro i hi j hj heq
    have hnat := congrArg BitVec.toNat heq
    rw [hval i (List.mem_range.1 hi), hval j (List.mem_range.1 hj)] at hnat
    rcases h with hbase | hlen
    · have hpos : base.toNat ≠ 0 := fun hz => hbase (UInt64.toNat_inj.1 hz)
      rw [if_neg (by omega), if_neg (by omega)] at hnat
      omega
    · have hi := List.mem_range.1 hi
      have hj := List.mem_range.1 hj
      omega

/-! ### Runs -/

variable {rt : ServerRuntime} {base : UInt64} {s s' : State} {a : Act AcceptStep ConnStep}

/-- The counter moves with a spawn only. -/
theorem acceptLoop_counter {st : Shared} {x : AcceptStep} {r : Shared × List Conn}
    (h : acceptLoop rt base st x = some r) :
    (r.1.counter = st.counter ∧ r.2 = []) ∨
      (r.1.counter = st.counter + 1 ∧ r.2 = [⟨sessionId base st.counter, .accepted⟩]) := by
  unfold acceptLoop at h
  split at h
  case h_4 =>
      obtain rfl := Option.some.inj h
      exact .inr ⟨rfl, rfl⟩
  case h_6 => cases h
  all_goals
    obtain rfl := Option.some.inj h
    refine .inl ⟨?_, rfl⟩
    first
    | rfl
    | (unfold pass; split <;> rfl)

/-- A connection keeps its id. -/
theorem handleConn_keeps {i : ℕ} {st : Shared} {c : Conn} {e : ConnStep} {r : Shared × Conn}
    (h : handleConn rt i st c e = some r) : r.1.counter = st.counter ∧ r.2.sid = c.sid := by
  unfold handleConn at h
  split at h
  all_goals first
    | (obtain rfl := Option.some.inj h; exact ⟨rfl, rfl⟩)
    | cases h

/-- The connections have the ids in the order of their admission. -/
structure Issued (base : UInt64) (s : State) : Prop where
  counter : s.shared.counter = count64 s.tasks.length
  ids : s.tasks.map Conn.sid = issued base s.tasks.length

theorem Issued.step (h : Issued base s) (hs : step rt base s a = some s') : Issued base s' := by
  obtain ⟨x, r, rfl, hr, rfl⟩ | ⟨i, b, c, r, rfl, hc, hr, rfl⟩ := step_cases hs
  · obtain ⟨hcount, hnew⟩ | ⟨hcount, hnew⟩ := acceptLoop_counter hr
    · exact ⟨by simpa [hnew, hcount] using h.counter, by simpa [hnew] using h.ids⟩
    · refine ⟨?_, ?_⟩
      · rw [hcount, hnew, List.length_append, map_add, h.counter]
        rfl
      · rw [hnew, List.map_append, h.ids, List.length_append, h.counter]
        simp [issued, List.range_succ]
  · obtain ⟨hcount, hsid⟩ := handleConn_keeps hr
    have hmap : (s.tasks.set i r.2).map Conn.sid = s.tasks.map Conn.sid := by
      obtain ⟨hi, rfl⟩ := List.getElem?_eq_some_iff.1 hc
      rw [List.map_set, hsid, ← List.getElem_map Conn.sid (h := by simpa using hi), List.set_getElem_self]
    exact ⟨by rw [hcount, List.length_set]; exact h.counter,
      by rw [hmap, List.length_set]; exact h.ids⟩

theorem Issued.reach (h : Reach (Gate.step rt base) always init s) : Issued base s :=
  Reach.invariant (I := Issued base) ⟨rfl, rfl⟩ (fun h _ hs => h.step hs) h

/-- **The ids of sessions.**  No connection ever has the id zero, which the handshake refuses.  Until the
counter wraps, the ids are unique exactly when the base is not zero or fewer than two connections were
admitted. -/
theorem session_ids (rt : ServerRuntime) (base : UInt64) {s : State}
    (h : Reach (Gate.step rt base) always init s) :
    (∀ c ∈ s.tasks, c.sid ≠ 0) ∧
      (s.tasks.length ≤ 2 ^ 64 →
        ((s.tasks.map Conn.sid).Nodup ↔ base ≠ 0 ∨ s.tasks.length < 2)) := by
  have hids := (Issued.reach h).ids
  refine ⟨fun c hc => ?_, fun hlen => ?_⟩
  · have hmem : c.sid ∈ issued base s.tasks.length := by
      rw [← hids]
      exact List.mem_map_of_mem hc
    obtain ⟨i, -, hi⟩ := List.mem_map.1 hmem
    rw [← hi]
    exact sessionId_ne_zero base _
  · rw [hids]
    exact issued_nodup_iff base hlen

/-- The loop admits a connection. -/
def admitOne : List (Act AcceptStep ConnStep) :=
  [.main .accept, .main .tunnelGate, .main .handshakeGate, .main .spawn]

/-- Two connections over the base five, and over the base zero. -/
theorem session_ids_two :
    (∃ s, Reach (Gate.step ⟨none, none, none, false⟩ 5) always init s ∧
      s.tasks.map Conn.sid = [5, 6] ∧ (s.tasks.map Conn.sid).Nodup) ∧
    ∃ s, Reach (Gate.step ⟨none, none, none, false⟩ 0) always init s ∧
      s.tasks.map Conn.sid = [1, 1] ∧ ¬(s.tasks.map Conn.sid).Nodup := by
  obtain ⟨s, hs, hlen, hids⟩ : ∃ s, exec (Gate.step ⟨none, none, none, false⟩ 5) always init
      (admitOne ++ admitOne) = some s ∧ s.tasks.length = 2 ∧ s.tasks.map Conn.sid = [5, 6] :=
    ⟨_, rfl, rfl, rfl⟩
  obtain ⟨t, ht, hlen', hids'⟩ : ∃ s, exec (Gate.step ⟨none, none, none, false⟩ 0) always init
      (admitOne ++ admitOne) = some s ∧ s.tasks.length = 2 ∧ s.tasks.map Conn.sid = [1, 1] :=
    ⟨_, rfl, rfl, rfl⟩
  have hr := Reach.refl.of_exec _ hs
  have hr' := Reach.refl.of_exec _ ht
  refine ⟨⟨s, hr, hids, ((session_ids _ 5 hr).2 (by rw [hlen]; decide)).2 (.inl (by decide))⟩,
    ⟨t, hr', hids', fun hnodup => ?_⟩⟩
  have hiff := (session_ids _ 0 hr').2 (by rw [hlen']; decide)
  rw [hlen'] at hiff
  exact absurd (hiff.1 hnodup) (by decide)

end Gate

end Nextppp

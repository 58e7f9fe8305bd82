/-
**Bounded caches whose entries expire.**

A cache is a finite map whose entries carry the time until which they are fresh.  It has a capacity,
and it makes room only by dropping what has expired: storing under a new key in a full cache drops the
expired entries first and gives up when that frees nothing.  An expired entry otherwise stays where it
is and can still be looked up.

Main definitions:

* `Ttl.Entry`, `Ttl.Cache` — the entries and the map;
* `Ttl.Cache.retain`, `Ttl.Cache.store` — dropping what has expired, and storing under a capacity;
* `Ttl.Cache.Room` — there is room for a key.

Main results:

* `Ttl.Cache.lookup_store_of_room`, `Ttl.Cache.store_of_full` — what is stored is found where there is
  room, and otherwise nothing changes;
* `Ttl.Cache.lookup_store_self` — under its own key nothing else is found than what is stored;
* `Ttl.Cache.lookup_store_ne` — other keys only lose entries that have expired, and only at capacity;
* `Ttl.Cache.size_store_le` — the capacity is never exceeded.
-/

import Mathlib

set_option relaxedAutoImplicit false
set_option autoImplicit false

namespace Ttl

/-- A cached result and the time until which it is fresh. -/
structure Entry (β : Type*) where
  result : β
  expires : ℕ
  deriving DecidableEq

/-- A cache of entries by key. -/
abbrev Cache (α β : Type*) := AList fun _ : α => Entry β

namespace Cache

variable {α β : Type*}

/-- The number of entries. -/
def size (c : Cache α β) : ℕ := c.entries.length

/-- The entries that are fresh at `now`. -/
def retain (now : ℕ) (c : Cache α β) : Cache α β :=
  ⟨c.entries.filter fun e => now < e.2.expires, c.nodupKeys.sublist List.filter_sublist⟩

theorem size_retain_le (now : ℕ) (c : Cache α β) : (c.retain now).size ≤ c.size :=
  List.length_filter_le _ _

variable [DecidableEq α]

/-- Store an entry; a full cache takes a new key only if dropping what has expired makes room. -/
def store (cap now : ℕ) (c : Cache α β) (k : α) (e : Entry β) : Cache α β :=
  if cap ≤ c.size ∧ k ∉ c then
    if cap ≤ (c.retain now).size then c.retain now else (c.retain now).insert k e
  else c.insert k e

variable {c : Cache α β} {k k' : α} {e : Entry β} {cap now : ℕ}

theorem mem_lookup_retain : e ∈ (c.retain now).lookup k ↔ e ∈ c.lookup k ∧ now < e.expires := by
  rw [AList.mem_lookup_iff, AList.mem_lookup_iff]
  simp [retain]

/-- An entry is retained as it is, or it has expired. -/
theorem lookup_retain_cases (now : ℕ) (c : Cache α β) (k : α) :
    (c.retain now).lookup k = c.lookup k ∨
      ((c.retain now).lookup k = none ∧ ∃ e, c.lookup k = some e ∧ e.expires ≤ now) := by
  cases hk : c.lookup k with
  | none =>
      left
      refine Option.eq_none_iff_forall_not_mem.2 fun e he => ?_
      rw [mem_lookup_retain, hk] at he
      simp at he
  | some e =>
      by_cases hfresh : now < e.expires
      · left
        exact mem_lookup_retain.2 ⟨hk, hfresh⟩
      · right
        refine ⟨Option.eq_none_iff_forall_not_mem.2 fun e' he' => ?_, e, rfl, Nat.le_of_not_lt hfresh⟩
        obtain ⟨hmem, hlt⟩ := mem_lookup_retain.1 he'
        rw [hk] at hmem
        obtain rfl : e = e' := by simpa using hmem
        exact hfresh hlt

theorem size_insert_le (c : Cache α β) (k : α) (e : Entry β) : size (c.insert k e) ≤ c.size + 1 := by
  rw [size, AList.entries_insert, List.length_cons]
  exact Nat.succ_le_succ (List.kerase_sublist k c.entries).length_le

theorem size_insert_of_mem (h : k ∈ c) (e : Entry β) : size (c.insert k e) = c.size := by
  have hpos : 0 < c.entries.length := by
    obtain ⟨v, hv⟩ := Option.isSome_iff_exists.1 (AList.lookup_isSome.2 h)
    exact List.length_pos_of_mem (AList.mem_lookup_iff.1 hv)
  have herase : (List.kerase k c.entries).length = c.entries.length - 1 := by
    have hkeys := congrArg List.length (List.keys_kerase (a := k) (l := c.entries))
    have hmem : k ∈ c.entries.keys := h
    rw [List.length_erase_of_mem hmem] at hkeys
    simpa [List.keys] using hkeys
  rw [size, AList.entries_insert, List.length_cons, herase, size]
  omega

/-- **The capacity is kept.** -/
theorem size_store_le (h : c.size ≤ cap) (now : ℕ) (k : α) (e : Entry β) :
    (c.store cap now k e).size ≤ cap := by
  unfold store
  split
  · split
    · exact (size_retain_le now c).trans h
    · exact (size_insert_le _ k e).trans (by omega)
  · rename_i hroom
    by_cases hk : k ∈ c
    · rw [size_insert_of_mem hk]
      exact h
    · have hlt : c.size < cap := by
        by_contra hfull
        exact hroom ⟨Nat.le_of_not_lt hfull, hk⟩
      exact (size_insert_le _ k e).trans hlt

/-- What is stored is found, unless the key is new and the cache is full. -/
theorem lookup_store_self (cap now : ℕ) (c : Cache α β) (k : α) (e : Entry β) :
    (c.store cap now k e).lookup k = some e ∨
      (cap ≤ c.size ∧ k ∉ c ∧ (c.store cap now k e).lookup k = none) := by
  unfold store
  split
  · rename_i hfull
    split
    · right
      refine ⟨hfull.1, hfull.2, ?_⟩
      obtain hsame | ⟨hnone, -⟩ := lookup_retain_cases now c k
      · rw [hsame, AList.lookup_eq_none]
        exact hfull.2
      · exact hnone
    · exact .inl (AList.lookup_insert _)
  · exact .inl (AList.lookup_insert _)

/-- Under a key that is there, what is stored is found. -/
theorem lookup_store_of_mem (h : k ∈ c) (e : Entry β) : (c.store cap now k e).lookup k = some e := by
  rw [store, if_neg fun hfull => hfull.2 h]
  exact AList.lookup_insert _

/-- There is room for the key: the cache is not full, or it has the key, or it has an entry to drop. -/
def Room (cap now : ℕ) (c : Cache α β) (k : α) : Prop :=
  c.size < cap ∨ k ∈ c ∨ ∃ k' e, c.lookup k' = some e ∧ e.expires ≤ now

/-- An expired entry is dropped, and makes room. -/
theorem size_retain_lt (h : c.lookup k' = some e) (hexpired : e.expires ≤ now) :
    (c.retain now).size < c.size := by
  refine List.length_filter_lt_length_iff_exists.2 ⟨⟨k', e⟩, AList.mem_lookup_iff.1 h, ?_⟩
  simpa using hexpired

/-- Where nothing has expired, nothing is dropped. -/
theorem retain_eq (h : ∀ k e, c.lookup k = some e → now < e.expires) : c.retain now = c := by
  refine AList.ext (List.filter_eq_self.2 ?_)
  rintro ⟨k, e⟩ he
  simpa using h k e (AList.mem_lookup_iff.2 he)

/-- With room, what is stored is found. -/
theorem lookup_store_of_room (hle : c.size ≤ cap) (h : c.Room cap now k) (e : Entry β) :
    (c.store cap now k e).lookup k = some e := by
  unfold store
  split
  · rename_i hfull
    rcases h with hroom | hmem | ⟨k', e', he', hexpired⟩
    · omega
    · exact absurd hmem hfull.2
    · rw [if_neg (Nat.not_le.2 ((size_retain_lt he' hexpired).trans_le hle))]
      exact AList.lookup_insert _
  · exact AList.lookup_insert _

/-- Without room, storing changes nothing. -/
theorem store_of_full (h : ¬ c.Room cap now k) (e : Entry β) : c.store cap now k e = c := by
  simp only [Room, not_or, not_exists, not_and, Nat.not_lt, Nat.not_le] at h
  obtain ⟨hfull, hk, hfresh⟩ := h
  rw [store, if_pos ⟨hfull, hk⟩, retain_eq hfresh, if_pos hfull]

/-- **Other keys** keep their entries, or lose one that has expired, at capacity. -/
theorem lookup_store_ne (h : k' ≠ k) (cap now : ℕ) (c : Cache α β) (e : Entry β) :
    (c.store cap now k e).lookup k' = c.lookup k' ∨
      ((c.store cap now k e).lookup k' = none ∧ cap ≤ c.size ∧
        ∃ e', c.lookup k' = some e' ∧ e'.expires ≤ now) := by
  unfold store
  split
  · rename_i hfull
    split
    · obtain hsame | ⟨hnone, hexpired⟩ := lookup_retain_cases now c k'
      · exact .inl hsame
      · exact .inr ⟨hnone, hfull.1, hexpired⟩
    · rw [AList.lookup_insert_ne h]
      obtain hsame | ⟨hnone, hexpired⟩ := lookup_retain_cases now c k'
      · exact .inl hsame
      · exact .inr ⟨hnone, hfull.1, hexpired⟩
  · exact .inl (AList.lookup_insert_ne h)

end Cache

end Ttl

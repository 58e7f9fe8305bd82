/-
**The DNS cache of `dns.rs`.**

A bounded map from domain names to resolutions.  Successes are kept for five minutes and failures for
half a minute; a fresh entry answers without a lookup, and on a failed lookup an expired success is
still served.  The system clock is read several times in one call, and every reading is an input of
the model, as is what the lookup answers.

Main definitions:

* `Nextppp.DnsCache`, `Nextppp.DnsCache.insert`, `Nextppp.DnsCache.resolveWith`;
* `Nextppp.Log` — a cache with the last addresses every domain was resolved to;
* `Nextppp.Stores`, `Nextppp.Specified` — what a call is to store, to answer and to leave;
* `Nextppp.DnsCache.RateLimited` — after a failed lookup, no lookup for half a minute.

Main results:

* `Nextppp.Log.run_specified` — every call of every sequence of calls meets its specification;
* `Nextppp.DnsCache.rateLimited_iff` — a failed lookup keeps later calls from looking up exactly when
  the domain had no success in the cache.
-/

import Nextppp.Lib.Ttl

set_option relaxedAutoImplicit false
set_option autoImplicit false

namespace Nextppp

/-! ### Results -/

/-- A second.  Instants and durations are counted in nanoseconds. -/
def second : ℕ := 1000000000

/-- Positive cache lifetime. -/
def positiveTtl : ℕ := 300 * second

/-- Negative cache lifetime. -/
def negativeTtl : ℕ := 30 * second

/-- Hard cap on cached domains. -/
def maxEntries : ℕ := 1024

/-- The kinds of system errors: those the source itself produces, and the codes of the system. -/
inductive ErrorKind
  | addrNotAvailable
  | timedOut
  | other
  | os (code : ℕ)
  deriving DecidableEq, Repr

/-- A system error. -/
structure IoError where
  kind : ErrorKind
  msg : String
  deriving DecidableEq, Repr

/-- An address. -/
inductive IpAddr
  | v4 (octets : Vector UInt8 4)
  | v6 (octets : Vector UInt8 16)
  deriving DecidableEq, Repr

/-- The bytes of a domain name. -/
abbrev Domain := List UInt8

/-- The outcome of a resolution. -/
abbrev Resolution := Except IoError (List IpAddr)

/-! ### The cache -/

/-- Cache from domain names to resolutions. -/
abbrev DnsCache := Ttl.Cache Domain Resolution

/-- One call of `resolve_with`: its arguments, and the readings of the clock in the order they are
taken: at the start, when the lookup is back, and the two of `insert`. -/
structure Query where
  domain : Domain
  timeout : ℕ
  lookup : Domain → ℕ → Resolution
  now : ℕ
  answered : ℕ
  evicted : ℕ
  stored : ℕ

/-- What a call answers, whether it invoked the lookup, the cache it leaves and its last reading of
the clock. -/
structure Outcome where
  answer : Resolution
  lookedUp : Bool
  cache : DnsCache
  finished : ℕ

/-- A cached result, rebuilt for a caller. -/
def cloneResult : Resolution → Resolution
  | .ok ips => .ok ips
  | .error e => .error ⟨e.kind, e.msg⟩

/-- The outcome of a lookup, where an empty list is a failure. -/
def nonEmpty : Resolution → Resolution
  | .ok ips => if ips.isEmpty then .error ⟨.addrNotAvailable, "no addresses resolved"⟩ else .ok ips
  | .error e => .error e

namespace DnsCache

/-- Store a result; the clock is read for the eviction and again for the expiry. -/
def insert (c : DnsCache) (domain : Domain) (result : Resolution) (ttl now stored : ℕ) :
    DnsCache :=
  c.store maxEntries now domain ⟨result, stored + ttl⟩

/-- The answer of a fresh entry. -/
def fresh (c : DnsCache) (domain : Domain) (now : ℕ) : Option Resolution :=
  (c.lookup domain).bind fun entry =>
    if now < entry.expires then some (cloneResult entry.result) else none

/-- The addresses of an entry that holds a success, fresh or not. -/
def stale (c : DnsCache) (domain : Domain) : Option (List IpAddr) :=
  (c.lookup domain).bind fun entry =>
    match entry.result with
    | .ok ips => some ips
    | .error _ => none

/-- `resolve_with`. -/
def resolveWith (c : DnsCache) (q : Query) : Outcome :=
  match c.fresh q.domain q.now with
  | some answer => ⟨answer, false, c, q.now⟩
  | none =>
      match nonEmpty (q.lookup q.domain q.timeout) with
      | .ok ips =>
          ⟨.ok ips, true, c.insert q.domain (.ok ips) positiveTtl q.evicted q.stored, q.stored⟩
      | .error e =>
          match c.stale q.domain with
          -- stale-while-error: nothing is recorded
          | some ips => ⟨.ok ips, true, c, q.answered⟩
          | none =>
              ⟨.error e, true, c.insert q.domain (.error e) negativeTtl q.evicted q.stored, q.stored⟩

/-! ### What one call does -/

variable {c : DnsCache} {q : Query}

theorem fresh_eq_none_iff {domain : Domain} {now : ℕ} :
    c.fresh domain now = none ↔ ∀ e, c.lookup domain = some e → e.expires ≤ now := by
  rw [fresh]
  cases c.lookup domain with
  | none => simp
  | some e =>
      rw [Option.bind_some]
      split
      · rename_i h
        simp [h]
      · rename_i h
        simpa using h

theorem fresh_of_lookup {domain : Domain} {now : ℕ} {e : Ttl.Entry Resolution}
    (h : c.lookup domain = some e) (hfresh : now < e.expires) :
    c.fresh domain now = some (cloneResult e.result) := by
  rw [fresh, h, Option.bind_some, if_pos hfresh]

theorem stale_eq_some_iff {domain : Domain} {ips : List IpAddr} :
    c.stale domain = some ips ↔ ∃ e, c.lookup domain = some e ∧ e.result = .ok ips := by
  rw [stale]
  cases c.lookup domain with
  | none => simp
  | some e =>
      rw [Option.bind_some]
      cases hr : e.result with
      | ok l => simp [hr]
      | error err => simp [hr]

theorem resolveWith_fresh {r : Resolution} (h : c.fresh q.domain q.now = some r) :
    c.resolveWith q = ⟨r, false, c, q.now⟩ := by
  rw [resolveWith, h]

theorem resolveWith_ok {ips : List IpAddr} (h : c.fresh q.domain q.now = none)
    (hok : nonEmpty (q.lookup q.domain q.timeout) = .ok ips) :
    c.resolveWith q =
      ⟨.ok ips, true, c.insert q.domain (.ok ips) positiveTtl q.evicted q.stored, q.stored⟩ := by
  rw [resolveWith, h]
  dsimp only
  rw [hok]

theorem resolveWith_stale {e : IoError} {ips : List IpAddr} (h : c.fresh q.domain q.now = none)
    (herr : nonEmpty (q.lookup q.domain q.timeout) = .error e)
    (hstale : c.stale q.domain = some ips) :
    c.resolveWith q = ⟨.ok ips, true, c, q.answered⟩ := by
  rw [resolveWith, h]
  dsimp only
  rw [herr]
  dsimp only
  rw [hstale]

theorem resolveWith_failed {e : IoError} (h : c.fresh q.domain q.now = none)
    (herr : nonEmpty (q.lookup q.domain q.timeout) = .error e)
    (hstale : c.stale q.domain = none) :
    c.resolveWith q =
      ⟨.error e, true, c.insert q.domain (.error e) negativeTtl q.evicted q.stored, q.stored⟩ := by
  rw [resolveWith, h]
  dsimp only
  rw [herr]
  dsimp only
  rw [hstale]

/-- **What a call does**: it is answered from the cache, or by a lookup that succeeded, or, after a
failed lookup, by an expired success or with the failure. -/
theorem resolveWith_cases (c : DnsCache) (q : Query) :
    (∃ r, c.fresh q.domain q.now = some r ∧ c.resolveWith q = ⟨r, false, c, q.now⟩) ∨
    (c.fresh q.domain q.now = none ∧ ∃ ips, nonEmpty (q.lookup q.domain q.timeout) = .ok ips ∧
      c.resolveWith q =
        ⟨.ok ips, true, c.insert q.domain (.ok ips) positiveTtl q.evicted q.stored, q.stored⟩) ∨
    (c.fresh q.domain q.now = none ∧ ∃ e, nonEmpty (q.lookup q.domain q.timeout) = .error e ∧
      ((∃ ips, c.stale q.domain = some ips ∧ c.resolveWith q = ⟨.ok ips, true, c, q.answered⟩) ∨
        (c.stale q.domain = none ∧ c.resolveWith q =
          ⟨.error e, true, c.insert q.domain (.error e) negativeTtl q.evicted q.stored,
            q.stored⟩))) := by
  cases hf : c.fresh q.domain q.now with
  | some r => exact .inl ⟨r, rfl, resolveWith_fresh hf⟩
  | none =>
      right
      cases hr : nonEmpty (q.lookup q.domain q.timeout) with
      | ok ips => exact .inl ⟨rfl, ips, rfl, resolveWith_ok hf hr⟩
      | error e =>
          right
          refine ⟨rfl, e, rfl, ?_⟩
          cases hs : c.stale q.domain with
          | some ips => exact .inl ⟨ips, rfl, resolveWith_stale hf hr hs⟩
          | none => exact .inr ⟨rfl, resolveWith_failed hf hr hs⟩

theorem lookedUp_iff (c : DnsCache) (q : Query) :
    (c.resolveWith q).lookedUp = true ↔ c.fresh q.domain q.now = none := by
  obtain ⟨r, hf, h⟩ | ⟨hf, ips, -, h⟩ | ⟨hf, e, -, ⟨ips, -, h⟩ | ⟨-, h⟩⟩ := resolveWith_cases c q
  · simp [h, hf]
  · simp [h, hf]
  · simp [h, hf]
  · simp [h, hf]

/-- Entries of other domains are only ever dropped, when they have expired and the cache is full. -/
theorem resolveWith_other (c : DnsCache) (q : Query) {d : Domain} (hd : d ≠ q.domain) :
    (c.resolveWith q).cache.lookup d = c.lookup d ∨
      ((c.resolveWith q).cache.lookup d = none ∧
        ∃ e, c.lookup d = some e ∧ e.expires ≤ q.evicted) := by
  have hstore : ∀ e : Ttl.Entry Resolution,
      (c.store maxEntries q.evicted q.domain e).lookup d = c.lookup d ∨
        ((c.store maxEntries q.evicted q.domain e).lookup d = none ∧
          ∃ e, c.lookup d = some e ∧ e.expires ≤ q.evicted) := by
    intro e
    obtain hsame | ⟨hnone, -, hexpired⟩ := Ttl.Cache.lookup_store_ne hd maxEntries q.evicted c e
    · exact .inl hsame
    · exact .inr ⟨hnone, hexpired⟩
  obtain ⟨r, -, h⟩ | ⟨-, ips, -, h⟩ | ⟨-, e, -, ⟨ips, -, h⟩ | ⟨-, h⟩⟩ := resolveWith_cases c q
  · rw [h]; exact .inl rfl
  · rw [h]; exact hstore _
  · rw [h]; exact .inl rfl
  · rw [h]; exact hstore _

theorem resolveWith_size (h : c.size ≤ maxEntries) (q : Query) :
    (c.resolveWith q).cache.size ≤ maxEntries := by
  obtain ⟨r, -, hr⟩ | ⟨-, ips, -, hr⟩ | ⟨-, e, -, ⟨ips, -, hr⟩ | ⟨-, hr⟩⟩ := resolveWith_cases c q
  · rw [hr]; exact h
  · rw [hr]; exact Ttl.Cache.size_store_le h _ _ _
  · rw [hr]; exact h
  · rw [hr]; exact Ttl.Cache.size_store_le h _ _ _

end DnsCache

/-! ### Sequences of calls -/

/-- A cache and, for every domain, the addresses its last successful lookup answered. -/
structure Log where
  cache : DnsCache
  resolved : Domain → Option (List IpAddr)

namespace Log

/-- A new cache. -/
def empty : Log := ⟨∅, fun _ => none⟩

/-- One call. -/
def call (l : Log) (q : Query) : Log where
  cache := (l.cache.resolveWith q).cache
  resolved :=
    if (l.cache.resolveWith q).lookedUp then
      match nonEmpty (q.lookup q.domain q.timeout) with
      | .ok ips => Function.update l.resolved q.domain (some ips)
      | .error _ => l.resolved
    else l.resolved

/-- A sequence of calls on a new cache. -/
def run (qs : List Query) : Log := qs.foldl call empty

/-- The cache is within its bound, and its successes are the last addresses of their domains. -/
structure Inv (l : Log) : Prop where
  bounded : l.cache.size ≤ maxEntries
  latest : ∀ d ips, l.cache.stale d = some ips → l.resolved d = some ips

theorem Inv.empty : Inv Log.empty where
  bounded := by decide
  latest := by
    intro d ips h
    obtain ⟨e, he, -⟩ := DnsCache.stale_eq_some_iff.1 h
    rw [Log.empty, AList.lookup_empty] at he
    cases he

/-- What a call leaves of another domain's success. -/
theorem stale_other {c : DnsCache} {q : Query} {d : Domain} (hd : d ≠ q.domain) {ips : List IpAddr}
    (h : (c.resolveWith q).cache.stale d = some ips) : c.stale d = some ips := by
  obtain ⟨e, he, hr⟩ := DnsCache.stale_eq_some_iff.1 h
  obtain hsame | ⟨hnone, -⟩ := c.resolveWith_other q hd
  · exact DnsCache.stale_eq_some_iff.2 ⟨e, hsame ▸ he, hr⟩
  · rw [hnone] at he
    cases he

/-- What storing a result leaves under its own domain. -/
theorem stale_insert {c : DnsCache} {d : Domain} {r : Resolution} {ttl now stored : ℕ}
    {ips : List IpAddr} (h : (c.insert d r ttl now stored).stale d = some ips) : r = .ok ips := by
  obtain ⟨e, he, hr⟩ := DnsCache.stale_eq_some_iff.1 h
  obtain hfound | ⟨-, -, hnone⟩ :=
    Ttl.Cache.lookup_store_self maxEntries now c d (⟨r, stored + ttl⟩ : Ttl.Entry Resolution)
  · rw [DnsCache.insert, hfound] at he
    obtain rfl : (⟨r, stored + ttl⟩ : Ttl.Entry Resolution) = e := by simpa using he
    exact hr
  · rw [DnsCache.insert, hnone] at he
    cases he

theorem Inv.call {l : Log} (h : l.Inv) (q : Query) : (l.call q).Inv := by
  refine ⟨DnsCache.resolveWith_size h.bounded q, ?_⟩
  intro d ips hstale
  rw [Log.call] at hstale
  dsimp only at hstale
  by_cases hd : d = q.domain
  · subst hd
    obtain ⟨r, -, hr⟩ | ⟨-, ips', hok, hr⟩ | ⟨-, e, herr, ⟨ips', hs, hr⟩ | ⟨hs, hr⟩⟩ :=
      DnsCache.resolveWith_cases l.cache q
    · rw [hr] at hstale
      simp only [Log.call, hr]
      exact h.latest _ _ hstale
    · rw [hr] at hstale
      obtain rfl : ips' = ips := by simpa using stale_insert hstale
      simp [Log.call, hr, hok]
    · rw [hr] at hstale
      simp only [Log.call, hr, herr]
      exact h.latest _ _ hstale
    · rw [hr] at hstale
      exact absurd (stale_insert hstale) (by simp)
  · -- another domain's success was there before, and its last addresses are untouched
    have hkeep : (l.call q).resolved d = l.resolved d := by
      simp only [Log.call]
      split
      · cases nonEmpty (q.lookup q.domain q.timeout) with
        | ok ips => exact Function.update_of_ne hd _ _
        | error e => rfl
      · rfl
    rw [hkeep]
    exact h.latest _ _ (stale_other hd hstale)

theorem run_inv (qs : List Query) : (run qs).Inv := by
  have hfold : ∀ (qs : List Query) (l : Log), l.Inv → (qs.foldl call l).Inv := by
    intro qs
    induction qs with
    | nil => exact fun _ h => h
    | cons q qs ih => exact fun l h => ih _ (h.call q)
  exact hfold qs empty Inv.empty

end Log

/-- A call stores `r` under its domain for the time `ttl`, and leaves the map as it is when there is no
room for the domain. -/
structure Stores (l : Log) (q : Query) (r : Resolution) (ttl : ℕ) : Prop where
  room : l.cache.Room 1024 q.evicted q.domain →
    (l.cache.resolveWith q).cache.lookup q.domain = some ⟨r, q.stored + ttl⟩
  full : ¬ l.cache.Room 1024 q.evicted q.domain → (l.cache.resolveWith q).cache = l.cache

/-- **The specification of a call** on a cache with a history. -/
structure Specified (l : Log) (q : Query) : Prop where
  /-- The lookup is spared exactly when there is a fresh entry. -/
  spared : (l.cache.resolveWith q).lookedUp = false ↔
    ∃ e, l.cache.lookup q.domain = some e ∧ q.now < e.expires
  /-- A fresh entry is the answer. -/
  hit : ∀ e, l.cache.lookup q.domain = some e → q.now < e.expires →
    (l.cache.resolveWith q).answer = e.result
  /-- A lookup that finds addresses is the answer. -/
  found : (l.cache.resolveWith q).lookedUp = true → ∀ ips, ips ≠ [] →
    q.lookup q.domain q.timeout = .ok ips → (l.cache.resolveWith q).answer = .ok ips
  /-- Otherwise a success still in the map answers with the last addresses of the domain. -/
  stale : (l.cache.resolveWith q).lookedUp = true →
    (∀ ips, q.lookup q.domain q.timeout = .ok ips → ips = []) →
    (∃ e ips, l.cache.lookup q.domain = some e ∧ e.result = .ok ips) →
    ∃ ips, l.resolved q.domain = some ips ∧ (l.cache.resolveWith q).answer = .ok ips
  /-- Otherwise the failure is the answer. -/
  failed : (l.cache.resolveWith q).lookedUp = true →
    (∀ e ips, l.cache.lookup q.domain = some e → e.result ≠ .ok ips) →
    (∀ err, q.lookup q.domain q.timeout = .error err →
      (l.cache.resolveWith q).answer = .error err) ∧
    (q.lookup q.domain q.timeout = .ok [] →
      ∃ msg, (l.cache.resolveWith q).answer = .error ⟨.addrNotAvailable, msg⟩)
  /-- A fresh entry, or a success that a failed lookup falls back to, stays as it is. -/
  kept : (l.cache.resolveWith q).lookedUp = false ∨
      ((∀ ips, q.lookup q.domain q.timeout = .ok ips → ips = []) ∧
        ∃ e ips, l.cache.lookup q.domain = some e ∧ e.result = .ok ips) →
    (l.cache.resolveWith q).cache = l.cache
  /-- Addresses that are found are stored for five minutes. -/
  storesFound : (l.cache.resolveWith q).lookedUp = true → ∀ ips, ips ≠ [] →
    q.lookup q.domain q.timeout = .ok ips → Stores l q (.ok ips) (300 * second)
  /-- A failure that is the answer is stored for half a minute. -/
  storesFailed : (l.cache.resolveWith q).lookedUp = true →
    (∀ e ips, l.cache.lookup q.domain = some e → e.result ≠ .ok ips) →
    ∀ err, (l.cache.resolveWith q).answer = .error err → Stores l q (.error err) (30 * second)
  /-- Other entries are dropped when they have expired, and not changed otherwise. -/
  others : ∀ d, d ≠ q.domain → (l.cache.resolveWith q).cache.lookup d = l.cache.lookup d ∨
    ((l.cache.resolveWith q).cache.lookup d = none ∧
      ∃ e, l.cache.lookup d = some e ∧ e.expires ≤ q.evicted)
  /-- The map is bounded before and after. -/
  bounded : l.cache.size ≤ 1024 ∧ (l.cache.resolveWith q).cache.size ≤ 1024

theorem cloneResult_eq (r : Resolution) : cloneResult r = r := by
  cases r <;> rfl

theorem nonEmpty_ok {ips : List IpAddr} (h : ips ≠ []) : nonEmpty (.ok ips) = .ok ips := by
  rw [nonEmpty, if_neg (by simpa using h)]

/-- What a call that inserts a result leaves under its domain. -/
theorem Log.Inv.stores {l : Log} (h : l.Inv) {q : Query} {answer r : Resolution} {ttl : ℕ}
    (hcall : l.cache.resolveWith q =
      ⟨answer, true, l.cache.insert q.domain r ttl q.evicted q.stored, q.stored⟩) :
    Stores l q r ttl where
  room := by
    intro hroom
    rw [hcall]
    exact Ttl.Cache.lookup_store_of_room h.bounded hroom _
  full := by
    intro hfull
    rw [hcall]
    exact Ttl.Cache.store_of_full hfull _

theorem Log.Inv.specified {l : Log} (h : l.Inv) (q : Query) : Specified l q := by
  have hnone : (l.cache.resolveWith q).lookedUp = true → l.cache.fresh q.domain q.now = none :=
    (l.cache.lookedUp_iff q).1
  -- a lookup without addresses is a failure
  have hfail : (∀ ips, q.lookup q.domain q.timeout = .ok ips → ips = []) →
      ∃ e, nonEmpty (q.lookup q.domain q.timeout) = .error e := by
    intro hno
    cases hr : q.lookup q.domain q.timeout with
    | error e => exact ⟨e, rfl⟩
    | ok ips =>
        rw [hno ips hr]
        exact ⟨_, rfl⟩
  have hstale : (∀ e ips, l.cache.lookup q.domain = some e → e.result ≠ .ok ips) →
      l.cache.stale q.domain = none := by
    intro hno
    refine Option.eq_none_iff_forall_not_mem.2 fun ips hips => ?_
    obtain ⟨e, he, hok⟩ := DnsCache.stale_eq_some_iff.1 hips
    exact hno e ips he hok
  refine {
    spared := ?_, hit := ?_, found := ?_, stale := ?_, failed := ?_, kept := ?_, storesFound := ?_
    storesFailed := ?_, others := fun d hd => l.cache.resolveWith_other q hd
    bounded := ⟨h.bounded, DnsCache.resolveWith_size h.bounded q⟩ }
  · rw [← Bool.not_eq_true, DnsCache.lookedUp_iff, DnsCache.fresh_eq_none_iff]
    push Not
    exact ⟨fun ⟨e, he⟩ => ⟨e, he⟩, fun ⟨e, he⟩ => ⟨e, he⟩⟩
  · intro e he hfresh
    rw [DnsCache.resolveWith_fresh (DnsCache.fresh_of_lookup he hfresh)]
    exact cloneResult_eq e.result
  · intro hlooked ips hne hr
    rw [DnsCache.resolveWith_ok (hnone hlooked) (by rw [hr]; exact nonEmpty_ok hne)]
  · rintro hlooked hno ⟨e, ips, he, hok⟩
    obtain ⟨err, herr⟩ := hfail hno
    have hs := DnsCache.stale_eq_some_iff.2 ⟨e, he, hok⟩
    refine ⟨ips, h.latest _ _ hs, ?_⟩
    rw [DnsCache.resolveWith_stale (hnone hlooked) herr hs]
  · intro hlooked hno
    refine ⟨fun err hr => ?_, fun hr => ?_⟩
    · rw [DnsCache.resolveWith_failed (hnone hlooked) (by rw [hr]; rfl) (hstale hno)]
    · exact ⟨_, by rw [DnsCache.resolveWith_failed (hnone hlooked) (by rw [hr]; rfl) (hstale hno)]⟩
  · rintro (hspared | ⟨hno, e, ips, he, hok⟩)
    · cases hf : l.cache.fresh q.domain q.now with
      | some r => rw [DnsCache.resolveWith_fresh hf]
      | none =>
          rw [(l.cache.lookedUp_iff q).2 hf] at hspared
          cases hspared
    · cases hf : l.cache.fresh q.domain q.now with
      | some r => rw [DnsCache.resolveWith_fresh hf]
      | none =>
          obtain ⟨err, herr⟩ := hfail hno
          rw [DnsCache.resolveWith_stale hf herr (DnsCache.stale_eq_some_iff.2 ⟨e, he, hok⟩)]
  · intro hlooked ips hne hr
    exact h.stores (DnsCache.resolveWith_ok (hnone hlooked) (by rw [hr]; exact nonEmpty_ok hne))
  · intro hlooked hno err hans
    obtain hf := hnone hlooked
    cases hr : nonEmpty (q.lookup q.domain q.timeout) with
    | ok ips =>
        rw [DnsCache.resolveWith_ok hf hr] at hans
        cases hans
    | error e =>
        have hcall := DnsCache.resolveWith_failed hf hr (hstale hno)
        rw [hcall] at hans
        obtain rfl : e = err := by simpa using hans
        exact h.stores hcall

/-- **The cache against its specification**: after every sequence of calls, whatever the domains, the
readings of the clock and the answers of the lookups were, every call meets its specification. -/
theorem Log.run_specified (qs : List Query) (q : Query) : Specified (Log.run qs) q :=
  (Log.run_inv qs).specified q

/-! ### Failing domains -/

namespace DnsCache

/-- A cache after a sequence of calls. -/
def after (c : DnsCache) (qs : List Query) : DnsCache :=
  qs.foldl (fun c q => (c.resolveWith q).cache) c

/-- Calls one after the other under a clock that never goes back: each starts no sooner than the
last reading of the one before, and takes its own readings in order. -/
def Timed : DnsCache → ℕ → List Query → Prop
  | _, _, [] => True
  | c, t, q :: qs => t ≤ q.now ∧ q.now ≤ q.answered ∧ q.answered ≤ q.evicted ∧
      q.evicted ≤ q.stored ∧ Timed (c.resolveWith q).cache (c.resolveWith q).finished qs

/-- After the call `q`, no later call for its domain that starts within the negative lifetime of the
return of its lookup looks up again. -/
def RateLimited (c : DnsCache) (q : Query) : Prop :=
  ∀ qs q', Timed (c.resolveWith q).cache (c.resolveWith q).finished (qs ++ [q']) →
    q'.domain = q.domain → q'.now < q.answered + negativeTtl →
    (((c.resolveWith q).cache.after qs).resolveWith q').lookedUp = false

/-- The last reading of a call is not before its first. -/
theorem now_le_finished {c : DnsCache} {q : Query} (hnow : q.now ≤ q.answered)
    (hans : q.answered ≤ q.evicted) (hev : q.evicted ≤ q.stored) :
    q.now ≤ (c.resolveWith q).finished := by
  obtain ⟨r, -, hr⟩ | ⟨-, ips, -, hr⟩ | ⟨-, e, -, ⟨ips, -, hr⟩ | ⟨-, hr⟩⟩ := resolveWith_cases c q
  · rw [hr]
  · rw [hr]; dsimp only; omega
  · rw [hr]; exact hnow
  · rw [hr]; dsimp only; omega

theorem Timed.le_last {c : DnsCache} {t : ℕ} {qs : List Query} {q' : Query}
    (h : Timed c t (qs ++ [q'])) : t ≤ q'.now := by
  induction qs generalizing c t with
  | nil => exact h.1
  | cons q qs ih =>
      obtain ⟨ht, hnow, hans, hev, hrest⟩ := h
      exact ht.trans ((now_le_finished hnow hans hev).trans (ih hrest))

/-- A call leaves an entry alone that is still fresh at the end of the call. -/
theorem resolveWith_keeps {c : DnsCache} {q : Query} (hnow : q.now ≤ q.answered)
    (hans : q.answered ≤ q.evicted) (hev : q.evicted ≤ q.stored) {d : Domain}
    {e : Ttl.Entry Resolution} (hd : c.lookup d = some e)
    (hfresh : (c.resolveWith q).finished < e.expires) :
    (c.resolveWith q).cache.lookup d = some e := by
  have hstart := (now_le_finished (c := c) hnow hans hev).trans_lt hfresh
  -- a call for the domain itself would find the entry fresh
  have hother : c.fresh q.domain q.now = none → d ≠ q.domain := by
    rintro hnone rfl
    exact absurd (fresh_eq_none_iff.1 hnone e hd) (Nat.not_le.2 hstart)
  have hkeep : (c.resolveWith q).finished = q.stored → d ≠ q.domain →
      (c.resolveWith q).cache.lookup d = some e := by
    intro hfin hne
    obtain hsame | ⟨-, e', he', hexpired⟩ := c.resolveWith_other q hne
    · exact hsame.trans hd
    · obtain rfl : e = e' := by simpa [hd] using he'
      omega
  obtain ⟨r, -, hr⟩ | ⟨hf, ips, -, hr⟩ | ⟨hf, err, -, ⟨ips, -, hr⟩ | ⟨-, hr⟩⟩ :=
    resolveWith_cases c q
  · rw [hr]; exact hd
  · exact hkeep (by rw [hr]) (hother hf)
  · rw [hr]; exact hd
  · exact hkeep (by rw [hr]) (hother hf)

/-- Through a whole sequence of calls an entry stays that is still fresh behind it. -/
theorem after_keeps {c : DnsCache} {t : ℕ} {qs : List Query} {q' : Query}
    (h : Timed c t (qs ++ [q'])) {d : Domain} {e : Ttl.Entry Resolution}
    (hd : c.lookup d = some e) (hfresh : q'.now < e.expires) : (c.after qs).lookup d = some e := by
  induction qs generalizing c t with
  | nil => exact hd
  | cons q qs ih =>
      obtain ⟨-, hnow, hans, hev, hrest⟩ := h
      exact ih hrest (resolveWith_keeps hnow hans hev hd (hrest.le_last.trans_lt hfresh))

/-- **Failing domains.**  On a cache with room, a call whose lookup failed keeps later calls for its
domain from looking up for half a minute exactly when the domain had no success in the cache, fresh or
expired. -/
theorem rateLimited_iff (c : DnsCache) (q : Query) (hroom : c.size < 1024)
    (hnow : q.now ≤ q.answered) (hans : q.answered ≤ q.evicted) (hev : q.evicted ≤ q.stored)
    (hlooked : (c.resolveWith q).lookedUp = true) {e : IoError}
    (hfail : nonEmpty (q.lookup q.domain q.timeout) = .error e) :
    RateLimited c q ↔ ∀ entry ips, c.lookup q.domain = some entry → entry.result ≠ .ok ips := by
  have hf := (c.lookedUp_iff q).1 hlooked
  constructor
  · -- an expired success is served and nothing recorded: the next call looks up
    intro hlimited entry ips hentry hok
    have hr := resolveWith_stale hf hfail (stale_eq_some_iff.2 ⟨entry, hentry, hok⟩)
    have hexpired := fresh_eq_none_iff.1 hf entry hentry
    have hnext := hlimited [] { q with now := q.answered, evicted := q.answered, stored := q.answered }
      (by rw [hr]; exact ⟨le_rfl, le_rfl, le_rfl, le_rfl, trivial⟩) rfl
      (Nat.lt_add_of_pos_right (by decide))
    rw [hr, ← Bool.not_eq_true, lookedUp_iff] at hnext
    refine hnext (fresh_eq_none_iff.2 fun entry' hentry' => ?_)
    obtain rfl : entry = entry' := by simpa [after, hentry] using hentry'
    exact hexpired.trans hnow
  · -- the failure is recorded and stays until it expires
    intro hno qs q' htimed hdomain hwithin
    have hstale : c.stale q.domain = none := by
      refine Option.eq_none_iff_forall_not_mem.2 fun ips hips => ?_
      obtain ⟨entry, hentry, hok⟩ := stale_eq_some_iff.1 hips
      exact hno entry ips hentry hok
    have hr := resolveWith_failed hf hfail hstale
    have hentry : (c.resolveWith q).cache.lookup q.domain
        = some ⟨.error e, q.stored + negativeTtl⟩ := by
      rw [hr]
      exact Ttl.Cache.lookup_store_of_room hroom.le (.inl hroom) _
    have hfresh : q'.now < q.stored + negativeTtl := by omega
    have hlast := after_keeps htimed hentry hfresh
    rw [← hdomain] at hlast
    rw [resolveWith_fresh (fresh_of_lookup hlast hfresh)]

/-- A call for a domain at a time, with the answer of its lookup. -/
def queryAt (t : ℕ) (r : Resolution) : Query := ⟨[100], 5 * second, fun _ _ => r, t, t, t, t⟩

/-- A domain that fails again when its failure has expired. -/
theorem rateLimited_expired :
    let c := ((∅ : DnsCache).resolveWith (queryAt 0 (.error ⟨.other, "boom"⟩))).cache
    let q := queryAt (30 * second) (.error ⟨.timedOut, "resolver dead"⟩)
    c.lookup q.domain = some ⟨.error ⟨.other, "boom"⟩, q.now⟩ ∧ RateLimited c q := by
  intro c q
  have hentry : c.lookup q.domain = some ⟨.error ⟨.other, "boom"⟩, q.now⟩ := by decide
  refine ⟨hentry, (rateLimited_iff c q (by decide) le_rfl le_rfl le_rfl (by decide) rfl).2 ?_⟩
  intro entry ips h
  rw [hentry] at h
  obtain rfl := Option.some.inj h
  simp

/-- A domain that was resolved, failed when the success had expired, and is looked up again at once,
on a cache with a single entry. -/
theorem not_rateLimited_stale :
    let c := ((∅ : DnsCache).resolveWith (queryAt 0 (.ok [.v4 #v[10, 0, 0, 9]]))).cache
    let q := queryAt (300 * second) (.error ⟨.timedOut, "resolver dead"⟩)
    c.size < 1024 ∧ (c.resolveWith q).lookedUp = true ∧
      nonEmpty (q.lookup q.domain q.timeout) = .error ⟨.timedOut, "resolver dead"⟩ ∧
      ¬ RateLimited c q := by
  intro c q
  refine ⟨by decide, by decide, rfl, fun h => ?_⟩
  have hnext := h [] (queryAt (300 * second) (.error ⟨.timedOut, "resolver dead"⟩))
    ⟨le_rfl, le_rfl, le_rfl, le_rfl, trivial⟩ rfl (by decide)
  exact absurd hnext (by decide)

end DnsCache

end Nextppp

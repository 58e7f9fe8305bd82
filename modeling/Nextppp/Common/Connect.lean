/-
**Outbound connects: `tcp_connect` of `pump.rs`.**

One deadline covers the resolution of the host and all attempts to connect: the resolver may wait for
as long as is left, and every address is tried with what is left then.  The clock is explicit: an
environment says how long every stretch between two readings takes, how the resolver behaves and what
the attempts do.

The resolver gets the whole budget.  When it uses it up, an expired cache entry still answers, and
nothing is left to try its addresses with.

Main definitions:

* `Nextppp.resolveSys` — the system resolver behind a bounded wait;
* `Nextppp.tcpConnect` — the result of a connect, and the addresses it tried;
* `Nextppp.ConnectEnv.elapsed` — the time until the first address is looked at.

Main results:

* `Nextppp.resolveSys_le` — the resolver takes at most the wait it is given;
* `Nextppp.tcpConnect_tries_iff` — a resolved address is tried exactly when the time until the first
  one is looked at is below the timeout, which it never is when the resolver used up its wait.
-/

import Nextppp.Common.Dns
import Nextppp.Mux.Addr

set_option relaxedAutoImplicit false
set_option autoImplicit false

namespace Nextppp

/-! ### The resolver -/

/-- What becomes of the helper thread that runs the system resolver. -/
inductive Resolver
  /-- it cannot be spawned -/
  | unspawned (e : IoError)
  /-- it reports after some time -/
  | reports (time : ℕ) (r : Resolution)
  /-- it dies after some time without a report -/
  | dies (time : ℕ)
  /-- it hangs -/
  | hangs

/-- The wait for the resolver ran out. -/
def resolveTimeout : IoError := ⟨.timedOut, "dns resolution timed out"⟩

/-- `resolve_sys`: the outcome, and how long it takes. -/
def resolveSys (b : Resolver) (timeout : ℕ) : Resolution × ℕ :=
  match b with
  | .unspawned e => (.error ⟨.other, e.msg⟩, 0)
  | .reports time r => if time < timeout then (r, time) else (.error resolveTimeout, timeout)
  | .dies time =>
      if time < timeout then (.error ⟨.other, "resolver thread died"⟩, time)
      else (.error resolveTimeout, timeout)
  | .hangs => (.error resolveTimeout, timeout)

/-- The resolver takes at most the wait it is given. -/
theorem resolveSys_le (b : Resolver) (timeout : ℕ) : (resolveSys b timeout).2 ≤ timeout := by
  cases b with
  | unspawned e => exact Nat.zero_le _
  | reports time r =>
      rw [resolveSys]
      split
      · rename_i h
        exact h.le
      · exact le_rfl
  | dies time =>
      rw [resolveSys]
      split
      · rename_i h
        exact h.le
      · exact le_rfl
  | hangs => exact le_rfl

/-! ### Connecting -/

/-- An address and a port. -/
structure SocketAddr where
  ip : IpAddr
  port : UInt16
  deriving DecidableEq

/-- What happens with one address: how long it takes until the clock is read for it, how long the
attempt takes, and its failure unless it succeeds. -/
structure Attempt where
  delay : ℕ
  takes : ℕ
  failure : Option IoError

/-- The environment of a connect: the first reading of the clock, how long it takes until the readings
that follow, how the resolver behaves, and the attempts. -/
structure ConnectEnv where
  start : ℕ
  untilBudget : ℕ
  untilNow : ℕ
  untilEvict : ℕ
  untilStore : ℕ
  resolver : Resolver
  attempts : Stream' Attempt

/-- The attempts, one address after the other: the addresses tried, and the connected one or the
error. -/
def connectLoop (deadline : ℕ) : List SocketAddr → ℕ → Stream' Attempt → IoError →
    List SocketAddr × Except IoError SocketAddr
  | [], _, _, last => ([], .error last)
  | addr :: addrs, clock, attempts, _ =>
      let now := clock + attempts.head.delay
      if deadline - now = 0 then ([], .error ⟨.timedOut, "connect deadline exceeded"⟩)
      else
        match attempts.head.failure with
        | none => ([addr], .ok addr)
        | some e =>
            let r := connectLoop deadline addrs (now + attempts.head.takes) attempts.tail e
            (addr :: r.1, r.2)

/-- The query of a connect: the resolver may take what is left of the timeout. -/
def ConnectEnv.query (env : ConnectEnv) (domain : Domain) (timeout : ℕ) : Query :=
  let deadline := env.start + timeout
  let asked := env.start + env.untilBudget
  let now := asked + env.untilNow
  let answered := now + (resolveSys env.resolver (deadline - asked)).2
  { domain := domain
    timeout := deadline - asked
    lookup := fun _ wait => (resolveSys env.resolver wait).1
    now := now
    answered := answered
    evicted := answered + env.untilEvict
    stored := answered + env.untilEvict + env.untilStore }

/-- An address from its octets. -/
def octetsAddr (n : ℕ) (octets : List UInt8) : Vector UInt8 n := Vector.ofFn fun i => octets.getD i 0

/-- `tcp_connect`: the addresses tried, the connected one or the error, and the cache. -/
def tcpConnect (host : Host) (port : UInt16) (timeout : ℕ) (dns : DnsCache) (env : ConnectEnv) :
    (List SocketAddr × Except IoError SocketAddr) × DnsCache :=
  let deadline := env.start + timeout
  let last : IoError := ⟨.addrNotAvailable, "no addresses resolved"⟩
  match host with
  | .ipv4 octets =>
      (connectLoop deadline [⟨.v4 (octetsAddr 4 octets), port⟩] env.start env.attempts last, dns)
  | .ipv6 octets =>
      (connectLoop deadline [⟨.v6 (octetsAddr 16 octets), port⟩] env.start env.attempts last, dns)
  | .domain domain =>
      let r := dns.resolveWith (env.query domain timeout)
      match r.answer with
      | .error e => (([], .error e), r.cache)
      | .ok ips =>
          (connectLoop deadline (ips.map fun ip => ⟨ip, port⟩) r.finished env.attempts last, r.cache)

/-! ### Whether a resolved address is tried -/

/-- The time that has passed when the first address is looked at: the stretches between the readings,
and what the resolver took if it was asked. -/
def ConnectEnv.elapsed (env : ConnectEnv) (dns : DnsCache) (domain : Domain) (timeout : ℕ) : ℕ :=
  let asked := env.untilBudget + env.untilNow
  let resolver := resolveSys env.resolver (timeout - env.untilBudget)
  let resolved :=
    if (dns.fresh domain (env.start + asked)).isSome then asked
    -- an expired entry that answers for a failed lookup is not stored again
    else if (nonEmpty resolver.1).isOk = false ∧ (dns.stale domain).isSome then asked + resolver.2
    else asked + resolver.2 + env.untilEvict + env.untilStore
  resolved + env.attempts.head.delay

theorem query_timeout (env : ConnectEnv) (domain : Domain) (timeout : ℕ) :
    (env.query domain timeout).timeout = timeout - env.untilBudget :=
  Nat.add_sub_add_left _ _ _

/-- The clock at the end of the resolution. -/
theorem finished_add (env : ConnectEnv) (dns : DnsCache) (domain : Domain) (timeout : ℕ) :
    (dns.resolveWith (env.query domain timeout)).finished + env.attempts.head.delay
      = env.start + env.elapsed dns domain timeout := by
  have hnow : (env.query domain timeout).now = env.start + (env.untilBudget + env.untilNow) :=
    Nat.add_assoc _ _ _
  have hanswered : (env.query domain timeout).answered
      = env.start + (env.untilBudget + env.untilNow
        + (resolveSys env.resolver (timeout - env.untilBudget)).2) := by
    have hwait := query_timeout env domain timeout
    simp only [ConnectEnv.query] at hwait ⊢
    rw [hwait]
    omega
  have hstored : (env.query domain timeout).stored
      = (env.query domain timeout).answered + env.untilEvict + env.untilStore := rfl
  have hlookup : (env.query domain timeout).lookup (env.query domain timeout).domain
      (env.query domain timeout).timeout
        = (resolveSys env.resolver (timeout - env.untilBudget)).1 := by
    rw [query_timeout]
    rfl
  have hdomain : (env.query domain timeout).domain = domain := rfl
  rw [ConnectEnv.elapsed, ← hnow, ← hlookup]
  obtain ⟨r, hf, hr⟩ | ⟨hf, ips, hok, hr⟩ | ⟨hf, e, herr, ⟨ips, hs, hr⟩ | ⟨hs, hr⟩⟩ :=
    DnsCache.resolveWith_cases dns (env.query domain timeout)
  · rw [hdomain] at hf
    rw [hr, hf, Option.isSome_some, if_pos rfl]
    dsimp only
    omega
  · rw [hdomain] at hf
    rw [hr, hf, hok, Option.isSome_none, if_neg (by simp), if_neg (by simp [Except.isOk, Except.toBool])]
    dsimp only
    omega
  · rw [hdomain] at hf hs
    rw [hr, hf, herr, hs, Option.isSome_none, if_neg (by simp),
      if_pos ⟨rfl, rfl⟩]
    dsimp only
    omega
  · rw [hdomain] at hf hs
    rw [hr, hf, herr, hs, Option.isSome_none, if_neg (by simp), if_neg (by simp)]
    dsimp only
    omega

/-- The first address is tried exactly when the deadline has not passed. -/
theorem connectLoop_tries (deadline clock : ℕ) (attempts : Stream' Attempt) (addr : SocketAddr)
    (addrs : List SocketAddr) (last : IoError) :
    if clock + attempts.head.delay < deadline then
      ∃ rest r, connectLoop deadline (addr :: addrs) clock attempts last = (addr :: rest, r)
    else
      ∃ e, connectLoop deadline (addr :: addrs) clock attempts last = ([], .error e) := by
  rw [connectLoop]
  dsimp only
  split
  · rename_i hleft
    rw [if_neg (by omega)]
    cases attempts.head.failure with
    | none => exact ⟨[], _, rfl⟩
    | some e => exact ⟨_, _, rfl⟩
  · rename_i hpast
    rw [if_pos (by omega)]
    exact ⟨_, rfl⟩

/-- **When a resolved address is tried.**  For every domain, port, timeout, cache and environment in
which the resolution answers with addresses: before an error is returned one of the addresses is tried
exactly when the time until the first one is looked at is below the timeout.  When the resolver is
asked and uses up the wait it was given, it is not. -/
theorem tcpConnect_tries_iff (domain : Domain) (port : UInt16) (timeout : ℕ) (dns : DnsCache)
    (env : ConnectEnv) (ips : List IpAddr) (hne : ips ≠ [])
    (hanswer : (dns.resolveWith (env.query domain timeout)).answer = .ok ips) :
    ((∀ e, (tcpConnect (.domain domain) port timeout dns env).1.2 = .error e →
        ∃ addr ∈ (tcpConnect (.domain domain) port timeout dns env).1.1,
          addr.ip ∈ ips ∧ addr.port = port) ↔
      env.elapsed dns domain timeout < timeout) ∧
    ((dns.resolveWith (env.query domain timeout)).lookedUp = true →
      (resolveSys env.resolver (timeout - env.untilBudget)).2 = timeout - env.untilBudget →
      timeout ≤ env.elapsed dns domain timeout) := by
  obtain ⟨ip, rest, rfl⟩ := List.exists_cons_of_ne_nil hne
  have hclock := finished_add env dns domain timeout
  constructor
  · have hloop := connectLoop_tries (env.start + timeout)
      (dns.resolveWith (env.query domain timeout)).finished env.attempts ⟨ip, port⟩
      (rest.map fun ip => ⟨ip, port⟩) ⟨.addrNotAvailable, "no addresses resolved"⟩
    rw [hclock] at hloop
    simp only [tcpConnect, hanswer, List.map_cons]
    split at hloop
    · rename_i hbelow
      obtain ⟨tried, r, hr⟩ := hloop
      rw [hr]
      refine ⟨fun _ => by omega, fun _ e _ => ?_⟩
      exact ⟨⟨ip, port⟩, by simp, by simp, rfl⟩
    · rename_i hpast
      obtain ⟨e, hr⟩ := hloop
      rw [hr]
      refine ⟨fun h => ?_, fun h => absurd h (by omega)⟩
      obtain ⟨addr, hmem, -⟩ := h e rfl
      simp at hmem
  · intro hlooked hused
    have hf := (dns.lookedUp_iff _).1 hlooked
    have hnow : (env.query domain timeout).now = env.start + (env.untilBudget + env.untilNow) :=
      Nat.add_assoc _ _ _
    have hmiss : dns.fresh domain (env.start + (env.untilBudget + env.untilNow)) = none := by
      rw [← hnow]
      exact hf
    rw [ConnectEnv.elapsed, hmiss, Option.isSome_none, if_neg (by simp), hused]
    split
    · omega
    · omega

/-- An environment in which nothing but the resolver takes time, and every attempt is refused. -/
def idleEnv (start : ℕ) (resolver : Resolver) : ConnectEnv where
  start := start
  untilBudget := 0
  untilNow := 0
  untilEvict := 0
  untilStore := 0
  resolver := resolver
  attempts := Stream'.const ⟨0, 0, some ⟨.os 111, "connection refused"⟩⟩

/-- A resolver that answers within a second. -/
theorem tcpConnect_tries_prompt :
    ∃ addr ∈ (tcpConnect (.domain [100]) 443 (5 * second) ∅
        (idleEnv 0 (.reports second (.ok [.v4 #v[10, 0, 0, 9]])))).1.1,
      addr.ip ∈ [IpAddr.v4 #v[10, 0, 0, 9]] ∧ addr.port = 443 := by
  have htries := (tcpConnect_tries_iff [100] 443 (5 * second) ∅
    (idleEnv 0 (.reports second (.ok [.v4 #v[10, 0, 0, 9]]))) [.v4 #v[10, 0, 0, 9]] (by simp)
    rfl).1.2 (by decide)
  exact htries ⟨.os 111, "connection refused"⟩ (by decide)

/-- A resolver that hangs, and an entry that expired when it was resolved five minutes ago: the entry
answers, and its address is not tried. -/
theorem stale_answer_untried :
    let dns := ((∅ : DnsCache).resolveWith
      (DnsCache.queryAt 0 (.ok [.v4 #v[10, 0, 0, 9]]))).cache
    let env := idleEnv (300 * second) .hangs
    (dns.resolveWith (env.query [100] (5 * second))).answer = .ok [.v4 #v[10, 0, 0, 9]] ∧
      ¬ ∀ e, (tcpConnect (.domain [100]) 443 (5 * second) dns env).1.2 = .error e →
        ∃ addr ∈ (tcpConnect (.domain [100]) 443 (5 * second) dns env).1.1,
          addr.ip ∈ [IpAddr.v4 #v[10, 0, 0, 9]] ∧ addr.port = 443 := by
  intro dns env
  have hrun : (tcpConnect (.domain [100]) 443 (5 * second) dns env).1
      = ([], .error ⟨.timedOut, "connect deadline exceeded"⟩) := by decide
  refine ⟨by decide, fun h => ?_⟩
  obtain ⟨addr, hmem, -⟩ := h ⟨.timedOut, "connect deadline exceeded"⟩ (by rw [hrun])
  rw [hrun] at hmem
  simp at hmem

end Nextppp

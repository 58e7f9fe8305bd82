/-
**What an accepted stream stands for.**

A call of `open` returns a stream when a `REPLY` with the status byte of success comes in for its id.
The reply is the only sign that the client has.  This module shows what it proves: before that, the
stream task that the server spawned for the very `OPEN` of this call has connected, to the address that
the call asked for.  A refused call, an answer for another id or an address out of another request never
turn into a stream.

Main definitions:

* `Nextppp.Peers.Asked`, `Nextppp.Peers.Granted` — a call asked for a target under an id, and the server
  has connected for the id;
* `Nextppp.Peers.Honest` — the invariant.

Main results:

* `Nextppp.Peers.accepted_connected` — a stream comes from a connection to the target of its call.
-/

import Nextppp.Lib.Trace
import Nextppp.Mux.Delivery
import Nextppp.Mux.Wire

set_option relaxedAutoImplicit false
set_option autoImplicit false

namespace Nextppp

open Tasks Run Gate

/-! ### The ends -/

/-- A frame without an event that is on its way was so before, or has just been pushed. -/
theorem Emits.mem_path {frames : OutFrame → Prop} {streams : StreamId → StreamEvent → Prop}
    {out out' : Channel OutFrame} {q q' : StreamId → List StreamEvent} {c : Carry}
    {x x' : Transit} (he : Emits frames streams out q c out' q') (hx : x.sent out c = some x')
    {f : OutFrame} (hev : frameEvent f = none) (hf : f ∈ x'.path out') :
    f ∈ x.path out ∨ frames f := by
  rcases he.path hx with ⟨_, _, hpath⟩ | ⟨f', hf', _, _, _, _, hpath⟩ |
    ⟨f', sid, e, _, hev', _, _, _, hpath⟩ | ⟨_, _, hpath⟩
  · rw [hpath] at hf
    exact .inl hf
  · rw [hpath, List.mem_append, List.mem_singleton] at hf
    rcases hf with hold | rfl
    · exact .inl hold
    · exact .inr hf'
  · rw [hpath, List.mem_append, List.mem_singleton] at hf
    rcases hf with hold | rfl
    · exact .inl hold
    · rw [hev] at hev'
      cases hev'
  · exact .inl (hpath.mem hf)

/-- A call keeps its id and its target. -/
theorem Tunnel.step_keeps {s s' : Tunnel.State} {x : Tunnel.Action} {i : ℕ} {c : Tunnel.Call}
    (hs : Tunnel.step s x = some s') (hc : s.tasks[i]? = some c) (hne : c.phase ≠ .called) :
    ∃ c', s'.tasks[i]? = some c' ∧ c'.phase ≠ .called ∧ c'.sid = c.sid ∧ c'.target = c.target := by
  have hlt := (List.getElem?_eq_some_iff.1 hc).1
  obtain ⟨a, r, _, _, rfl⟩ | ⟨j, e, d, r, _, hd, hr, rfl⟩ := step_cases hs
  · exact ⟨c, by rw [List.getElem?_append_left hlt]; exact hc, hne, rfl, rfl⟩
  · by_cases hij : j = i
    · subst hij
      obtain rfl : c = d := Option.some.inj (hc.symm.trans hd)
      obtain ⟨hne', hsid, _⟩ := Tunnel.callStep_forward hr
      exact ⟨r.2, List.getElem?_set_self hlt, hne', hsid hne, Tunnel.callStep_target hr⟩
    · exact ⟨c, by rw [List.getElem?_set_ne hij]; exact hc, hne, rfl, rfl⟩

namespace Demux

variable {rt : ServerRuntime} {s s' : State} {x : Action} {i : ℕ} {c : StreamTask} {d : Demux}

/-- The target of the task has answered, and its reply is still to be sent or the pumps run. -/
def Phase.connected : Phase → Bool
  | .replying | .pumping => true
  | _ => false

/-- A task keeps its id and its address, and is connected by the step that connects it. -/
theorem handleStream_connected {e : TaskStep} {r : Demux × StreamTask}
    (h : handleStream i d c e = some r) :
    r.2.sid = c.sid ∧ r.2.addr = c.addr ∧
      (r.2.phase.connected = true → c.phase.connected = true ∨ e = .connect true) := by
  unfold handleStream at h
  split at h
  case h_1 =>
      obtain rfl := Option.some.inj h
      exact ⟨rfl, rfl, fun _ => .inr rfl⟩
  case h_4 hp =>
      have hconn : c.phase.connected = true := by rw [hp]; rfl
      split at h
      · obtain rfl := Option.some.inj h
        exact ⟨rfl, rfl, fun _ => .inl hconn⟩
      · obtain ⟨-, ⟨⟩⟩ := Option.ite_none_right_eq_some.1 h
        exact ⟨rfl, rfl, fun _ => .inl hconn⟩
  case h_5 hp =>
      have hconn : c.phase.connected = true := by rw [hp]; rfl
      obtain ⟨p, _, rfl⟩ := Option.map_eq_some_iff.1 h
      exact ⟨rfl, rfl, fun _ => .inl hconn⟩
  case h_8 => cases h
  all_goals
    try split at h
    all_goals try split at h
    all_goals
      first
      | (obtain rfl := Option.some.inj h
         exact ⟨rfl, rfl, (fun hconn => by cases hconn)⟩)
      | cases h

/-- What the demux makes of an `OPEN`: it remembers its payload, and spawns a task for the address in
it. -/
theorem act_opening {a : Step} {r : Demux × List StreamTask} (h : act rt d a = some r) :
    (∀ sid payload, r.1.pc = .opening sid payload → d.pc = .opening sid payload ∨
      ∃ f, a = .recv f ∧ f.kind = .open ∧ f.stream = sid ∧ f.payload = payload) ∧
    ∀ w ∈ r.2, w.phase = .connecting ∧ ∃ payload, d.pc = .opening w.sid payload ∧
      ProxyAddr.decode payload = .ok w.addr := by
  cases a with
  | recv f =>
      obtain ⟨hpc, rfl⟩ : d.pc = .demuxing ∧ (d.onFrame rt f, []) = r := by simpa [act] using h
      refine ⟨?_, by simp⟩
      intro sid payload hopening
      unfold onFrame route checkOpen at hopening
      cases hk : f.kind with
      | «open» =>
          rw [hk] at hopening
          dsimp only at hopening
          split at hopening
          · cases hopening
          · split at hopening
            · cases hopening
            · cases hopening
              exact .inr ⟨f, rfl, hk, rfl, rfl⟩
      | data =>
          rw [hk] at hopening
          dsimp only at hopening
          split at hopening <;> cases hopening
      | eof =>
          rw [hk] at hopening
          dsimp only at hopening
          split at hopening <;> cases hopening
      | close =>
          rw [hk] at hopening
          exact .inl hopening
      | reply =>
          rw [hk] at hopening
          cases hopening
  | openInsert =>
      simp only [act] at h
      split at h
      · rename_i sid payload hpc
        split at h
        · obtain rfl := Option.some.inj h
          exact ⟨(fun _ _ hopening => by cases hopening), by simp⟩
        · rename_i addr haddr
          obtain rfl := Option.some.inj h
          refine ⟨(fun _ _ hopening => by cases hopening), ?_⟩
          intro w hw
          obtain rfl := List.mem_singleton.1 hw
          exact ⟨rfl, payload, hpc, haddr⟩
      · cases h
  | _ =>
      -- the other steps spawn nothing and open nothing
      simp only [act] at h
      try split at h
      all_goals try split at h
      all_goals try split at h
      all_goals
        first
        | (obtain rfl := Option.some.inj h
           exact ⟨(fun _ _ hopening => by first | exact .inl hopening | cases hopening), by simp⟩)
        | cases h

end Demux

namespace Peers

variable {rt : ServerRuntime} {s s' : Peers} {a : Step} {sid : StreamId} {as : List Step}

/-- A call has the id and asked for the target. -/
def Asked (s : Peers) (sid : StreamId) (target : List UInt8) : Prop :=
  ∃ (i : ℕ) (c : Tunnel.Call), s.client.tasks[i]? = some c ∧ c.phase ≠ .called ∧ c.sid = sid ∧
    c.target = target

/-- The stream task of a number has connected. -/
def Connected (as : List Step) (k : ℕ) : Prop := .server (.task k (.connect true)) ∈ as

/-- The server has connected for the id. -/
def Granted (as : List Step) (s : Peers) (sid : StreamId) : Prop :=
  ∃ (k : ℕ) (w : Demux.StreamTask), s.server.tasks[k]? = some w ∧ w.sid = sid ∧ Connected as k

/-- A call has its id, and the server has connected for it. -/
def Won (as : List Step) (s : Peers) (i : ℕ) : Prop :=
  ∃ c, s.client.tasks[i]? = some c ∧ c.phase ≠ .called ∧ Granted as s c.sid

/-- **Every target and every success goes back to its origin.** -/
structure Honest (as : List Step) (s : Peers) : Prop where
  asked : ∀ f ∈ s.upPath, f.kind = .open → s.Asked f.stream f.payload
  opening : ∀ sid payload, s.server.shared.pc = .opening sid payload → s.Asked sid payload
  tasks : ∀ w ∈ s.server.tasks, ∃ target, s.Asked w.sid target ∧
    ProxyAddr.decode target = .ok w.addr
  connected : ∀ (k : ℕ) (w : Demux.StreamTask), s.server.tasks[k]? = some w →
    w.phase.connected = true → Connected as k
  reply : ∀ f ∈ s.downPath, f.kind = .reply → f.payload.head? = some replyOk →
    Granted as s f.stream
  replying : ∀ i, s.client.shared.reader = .replying i true → Won as s i
  replied : ∀ i, s.client.shared.replies i = some true → Won as s i
  handle : ∀ (i : ℕ) (c : Tunnel.Call), s.client.tasks[i]? = some c → c.phase = .handle →
    Granted as s c.sid

theorem Honest.new (pool : Bool) : Honest [] (init pool) where
  asked _ h := by cases h
  opening _ _ h := by cases h
  tasks _ h := by cases h
  connected _ _ h := by cases h
  reply _ h := by cases h
  replying _ h := by cases h
  replied _ h := by cases h
  handle _ _ h := by cases h

/-! ### A step of the client -/

theorem Honest.client_step {x : Tunnel.Action} {c : Tunnel.State} {up down : Transit} {r : Answers}
    (h : Honest as s) (hreg : Tunnel.Registered s.client) (hc : Tunnel.step s.client x = some c)
    (hup : s.up.sent s.client.shared.out (Tunnel.carry x) = some up)
    (hdown : s.down.got (Tunnel.carry x) = some down) :
    Honest (as ++ [.client x]) { s with
      client := c
      up := up
      down := down
      clientHistory := s.clientHistory.client s.client x
      answers := r } := by
  have hemits := Tunnel.step_emits hc s.clientHistory
  have hasked : ∀ {sid target}, s.Asked sid target → ∃ (i : ℕ) (d : Tunnel.Call),
      c.tasks[i]? = some d ∧ d.phase ≠ .called ∧ d.sid = sid ∧ d.target = target := by
    rintro sid target ⟨i, d, hd, hne, rfl, rfl⟩
    obtain ⟨d', hd', hsame⟩ := Tunnel.step_keeps hc hd hne
    exact ⟨i, d', hd', hsame⟩
  have hgranted : ∀ {sid}, Granted as s sid → ∃ (k : ℕ) (w : Demux.StreamTask),
      s.server.tasks[k]? = some w ∧ w.sid = sid ∧ Connected (as ++ [.client x]) k := by
    rintro sid ⟨k, w, hw, hsid, hconn⟩
    exact ⟨k, w, hw, hsid, List.mem_append_left _ hconn⟩
  have hwon : ∀ {i}, Won as s i → ∃ d, c.tasks[i]? = some d ∧ d.phase ≠ .called ∧
      ∃ (k : ℕ) (w : Demux.StreamTask), s.server.tasks[k]? = some w ∧ w.sid = d.sid ∧
        Connected (as ++ [.client x]) k := by
    rintro i ⟨d, hd, hne, hgr⟩
    obtain ⟨d', hd', hne', hsid, _⟩ := Tunnel.step_keeps hc hd hne
    exact ⟨d', hd', hne', hsid ▸ hgranted hgr⟩
  refine ⟨?_, ?_, ?_, ?_, ?_, ?_, ?_, ?_⟩
  · intro f hf hkind
    rcases hemits.mem_path hup (by simp [frameEvent, hkind]) hf with hold | hclose |
      ⟨i, d, _, hd, hp, rfl⟩
    · exact hasked (h.asked f hold hkind)
    · rw [hclose] at hkind
      cases hkind
    · exact hasked ⟨i, d, hd, by simp [hp], rfl, rfl⟩
  · intro sid payload hpc
    exact hasked (h.opening sid payload hpc)
  · intro w hw
    obtain ⟨target, hask, haddr⟩ := h.tasks w hw
    exact ⟨target, hasked hask, haddr⟩
  · intro k w hw hp
    exact List.mem_append_left _ (h.connected k w hw hp)
  · intro f hf hkind hok
    exact hgranted (h.reply f (mem_got hdown _ hf) hkind hok)
  · intro i hi
    rcases Tunnel.step_reader hc hi with hold | ⟨f, rfl, hkind, hlookup, hok⟩
    · exact hwon (h.replying i hold)
    · obtain ⟨d, hd, hsid, hp⟩ := hreg.pending f.stream i hlookup
      have hne : d.phase ≠ .called := by
        intro heq
        rw [heq] at hp
        cases hp
      have hmem : f ∈ s.downPath := by
        unfold downPath
        rw [Transit.got_path hdown s.server.shared.out]
        exact List.mem_append_left _ List.mem_cons_self
      exact hwon ⟨d, hd, hne, hsid ▸ h.reply f hmem hkind (of_decide_eq_true hok.symm)⟩
  · intro i hi
    rcases Tunnel.step_replies hc hi with hold | hold
    · exact hwon (h.replied i hold)
    · exact hwon (h.replying i hold)
  · intro i d hd hp
    obtain ⟨y, q, _, hq, rfl⟩ | ⟨j, e, d', q, _, hd', hq, rfl⟩ := Tasks.step_cases hc
    · rcases getElem?_append_cases hd with hold | hmem
      · exact hgranted (h.handle i d hold hp)
      · rw [(Tunnel.act_cases hq).2 d hmem] at hp
        cases hp
    · rcases getElem?_set_cases hd with ⟨rfl, rfl⟩ | ⟨_, hold⟩
      · -- a stream comes from a reply
        obtain ⟨hsid, hhandle | hreplied⟩ := Tunnel.callStep_handle hq hp
        · rw [hsid]
          exact hgranted (h.handle i d' hd' hhandle)
        · obtain ⟨d'', hd'', _, hgr⟩ := h.replied i hreplied
          obtain rfl : d' = d'' := Option.some.inj (hd'.symm.trans hd'')
          rw [hsid]
          exact hgranted hgr
      · exact hgranted (h.handle i d hold hp)

/-! ### A step of the server -/

theorem Honest.server_step {x : Demux.Action} {d : Demux.State} {up down : Transit} {r : Answers}
    (h : Honest as s) (hd : Demux.step rt s.server x = some d)
    (hdown : s.down.sent s.server.shared.out (Demux.carry x) = some down)
    (hup : s.up.got (Demux.carry x) = some up) :
    Honest (as ++ [.server x]) { s with
      server := d
      up := up
      down := down
      serverHistory := s.serverHistory.server s.server x
      answers := r } := by
  have hemits := Demux.step_emits hd s.serverHistory
  have hgranted : ∀ {sid}, Granted as s sid → ∃ (k : ℕ) (w : Demux.StreamTask),
      d.tasks[k]? = some w ∧ w.sid = sid ∧ Connected (as ++ [.server x]) k := by
    rintro sid ⟨k, w, hw, hsid, hconn⟩
    obtain ⟨w', hw', hsid'⟩ := Demux.step_task hd hw
    exact ⟨k, w', hw', hsid'.trans hsid, List.mem_append_left _ hconn⟩
  have hwon : ∀ {i}, Won as s i → ∃ c, s.client.tasks[i]? = some c ∧ c.phase ≠ .called ∧
      ∃ (k : ℕ) (w : Demux.StreamTask), d.tasks[k]? = some w ∧ w.sid = c.sid ∧
        Connected (as ++ [.server x]) k := by
    rintro i ⟨c, hc, hne, hgr⟩
    exact ⟨c, hc, hne, hgranted hgr⟩
  refine ⟨fun f hf => h.asked f (mem_got hup _ hf), ?_, ?_, ?_, ?_,
    fun i hi => hwon (h.replying i hi), fun i hi => hwon (h.replied i hi),
    fun i c hc hp => hgranted (h.handle i c hc hp)⟩
  · intro sid payload hpc
    obtain ⟨y, q, rfl, hq, rfl⟩ | ⟨j, e, w, q, _, _, hq, rfl⟩ := Tasks.step_cases hd
    · rcases (Demux.act_opening hq).1 sid payload hpc with hold | ⟨f, rfl, hkind, rfl, rfl⟩
      · exact h.opening sid payload hold
      · refine h.asked f ?_ hkind
        unfold upPath
        rw [Transit.got_path hup s.client.shared.out]
        exact List.mem_append_left _ List.mem_cons_self
    · rw [(Demux.handleStream_cases hq).1] at hpc
      exact h.opening sid payload hpc
  · intro w hw
    obtain ⟨y, q, _, hq, rfl⟩ | ⟨j, e, v, q, _, hv, hq, rfl⟩ := Tasks.step_cases hd
    · rcases List.mem_append.1 hw with hold | hnew
      · exact h.tasks w hold
      · obtain ⟨_, payload, hpc, haddr⟩ := (Demux.act_opening hq).2 w hnew
        exact ⟨payload, h.opening w.sid payload hpc, haddr⟩
    · rcases List.mem_or_eq_of_mem_set hw with hold | rfl
      · exact h.tasks w hold
      · obtain ⟨hsid, haddr, _⟩ := Demux.handleStream_connected hq
        rw [hsid, haddr]
        exact h.tasks v (List.mem_of_getElem? hv)
  · intro k w hw hp
    obtain ⟨y, q, _, hq, rfl⟩ | ⟨j, e, v, q, rfl, hv, hq, rfl⟩ := Tasks.step_cases hd
    · rcases getElem?_append_cases hw with hold | hnew
      · exact List.mem_append_left _ (h.connected k w hold hp)
      · rw [((Demux.act_opening hq).2 w hnew).1] at hp
        cases hp
    · rcases getElem?_set_cases hw with ⟨rfl, rfl⟩ | ⟨_, hold⟩
      · rcases (Demux.handleStream_connected hq).2.2 hp with hconn | rfl
        · exact List.mem_append_left _ (h.connected k v hv hconn)
        · exact List.mem_append_right _ List.mem_cons_self
      · exact List.mem_append_left _ (h.connected k w hold hp)
  · intro f hf hkind hok
    rcases hemits.mem_path hdown (by simp [frameEvent, hkind]) hf with hold | hclose |
      ⟨i, c, _, hc, hsid, _, ⟨hp, _⟩ | ⟨_, hpayload⟩⟩
    · exact hgranted (h.reply f hold hkind hok)
    · rw [hclose] at hkind
      cases hkind
    · -- the task that replies is connected
      rw [hsid]
      exact hgranted ⟨i, c, hc, rfl, h.connected i c hc (by rw [hp]; rfl)⟩
    · rw [hpayload] at hok
      exact absurd hok (by decide)

/-! ### Runs -/

theorem Honest.step (h : Honest as s) (hreg : Tunnel.Registered s.client)
    (hs : Peers.step rt s a = some s') : Honest (as ++ [a]) s' := by
  have hgranted : ∀ {sid}, Granted as s sid → Granted (as ++ [a]) s sid := by
    rintro sid ⟨k, w, hw, hsid, hconn⟩
    exact ⟨k, w, hw, hsid, List.mem_append_left _ hconn⟩
  have hwon : ∀ {i}, Won as s i → Won (as ++ [a]) s i := by
    rintro i ⟨c, hc, hne, hgr⟩
    exact ⟨c, hc, hne, hgranted hgr⟩
  obtain ⟨x, c, up, down, rfl, _, hc, hup, hdown, rfl⟩ | ⟨x, d, up, down, rfl, hd, hdown, hup, rfl⟩ |
    ⟨n, rfl, rfl⟩ | ⟨n, rfl, rfl⟩ := step_cases hs
  · exact h.client_step hreg hc hup hdown
  · exact h.server_step hd hdown hup
  all_goals
    refine ⟨fun f hf => h.asked f ?_, h.opening, h.tasks,
      fun k w hw hp => List.mem_append_left _ (h.connected k w hw hp),
      fun f hf hkind hok => hgranted (h.reply f ?_ hkind hok),
      fun i hi => hwon (h.replying i hi), fun i hi => hwon (h.replied i hi),
      fun i c hc hp => hgranted (h.handle i c hc hp)⟩
    · simpa [upPath] using hf
    · simpa [downPath] using hf

/-- **An accepted stream is a connection to its target.**  In every run of a tunnel with fewer than
`2 ^ 32` calls, a call has returned a stream only after a stream task of the server connected, and this
task has the id of the call and the address that the target of the call encodes. -/
theorem accepted_connected (rt : ServerRuntime) (pool : Bool) {as : List Step} {s : Peers}
    (h : Trace (step rt) always (init pool) as s) (hopens : s.client.tasks.length < 2 ^ 32) {i : ℕ}
    {c : Tunnel.Call} (hc : s.client.tasks[i]? = some c) (hp : c.phase = .handle) :
    ∃ (k : ℕ) (w : Demux.StreamTask), s.server.tasks[k]? = some w ∧ w.sid = c.sid ∧
      ProxyAddr.decode c.target = .ok w.addr ∧ .server (.task k (.connect true)) ∈ as := by
  have hhonest : Honest as s := Trace.invariant (Honest.new pool)
    (fun htrace hI _ hs => hI.step (Tunnel.Registered.reach (reach_client htrace.reach)) hs) h
  obtain ⟨k, w, hw, hsid, hconn⟩ := hhonest.handle i c hc hp
  obtain ⟨target, ⟨j, d, hd, hne, hdsid, rfl⟩, haddr⟩ := hhonest.tasks w (List.mem_of_getElem? hw)
  -- the id stands for one call
  have hnum := numbered_reach id (reach_fresh h.reach hopens)
  obtain rfl := hnum.inj hd hc hne (by simp [hp]) (hdsid.trans hsid)
  obtain rfl : d = c := Option.some.inj (hd.symm.trans hc)
  exact ⟨k, w, hw, hsid, haddr, hconn⟩

/-- Two calls, the second of which is accepted. -/
theorem accepted_connected_second :
    ∃ as s c, Trace (step (limited 1)) always (init true) as s ∧ s.client.tasks[1]? = some c ∧
      c.phase = .handle ∧ ∃ (k : ℕ) (w : Demux.StreamTask), s.server.tasks[k]? = some w ∧
        w.sid = c.sid ∧ ProxyAddr.decode c.target = .ok w.addr ∧
        Step.server (.task k (.connect true)) ∈ as := by
  obtain ⟨s, c, he, hlen, hc, hp⟩ : ∃ s c, exec (step (limited 1)) always (init true)
      (openUp 0 1 ++ acceptStream 0 0 1 ++ openUp 1 2 ++ acceptStream 1 1 2) = some s ∧
      s.client.tasks.length < 2 ^ 32 ∧ s.client.tasks[1]? = some c ∧ c.phase = .handle :=
    ⟨_, _, rfl, by decide, rfl, rfl⟩
  have h := Trace.refl.of_exec _ he
  exact ⟨_, s, c, h, hc, hp, accepted_connected (limited 1) true h hlen hc hp⟩

end Peers

end Nextppp

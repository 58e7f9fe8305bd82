/-
**The end of a stream on both sides.**

When the client is done with a stream, the server has to take it out of its registry: because a `CLOSE`
is on its way or has arrived, because the stream task is over, or because the stream ended both ways
and its pumps are over.  A call that times out and a stream that is dropped send the `CLOSE` with
`try_send`.  When the outbound channel of the client is full at that moment the `CLOSE` is lost, and
with a target that stays silent the entry stays in the registry of the server.

Main definitions:

* `Nextppp.Peers.Live`, `Nextppp.Peers.Settled` — the tunnel works, and nothing is under way;
* `Nextppp.Peers.Roomy` — a `CLOSE` of a call finds room in the outbound channel, and the counter of
  ids does not wrap;
* `Nextppp.Peers.Accounted` — why a stream the client is done with does not stay at the server;
* `Nextppp.Peers.Teardown` — the invariant.

Main results:

* `Nextppp.Peers.no_stream_leaks` — in a live tunnel with nothing under way, every stream in the
  registry of the server belongs to a call that waits for its reply or to a stream of the client;
* `Nextppp.Peers.close_lost` — with a full channel it does not.
-/

import Nextppp.Mux.Delivery
import Nextppp.Client.Endings
import Nextppp.Server.Endings

set_option relaxedAutoImplicit false
set_option autoImplicit false

namespace Nextppp

open Tasks Run Gate

namespace Peers

variable {rt : ServerRuntime} {s s' : Peers} {a : Step} {sid : StreamId} {i : ℕ}

/-- The tunnel works: it is not marked dead, and the writers and demuxes of both ends run. -/
structure Live (s : Peers) : Prop where
  alive : s.client.shared.alive = true
  reader : s.client.shared.reader.hand ≠ .gone
  clientWriter : s.client.shared.out.receiver = true
  demux : s.server.shared.pc ≠ .done
  serverWriter : s.server.shared.out.receiver = true

/-- Nothing is under way: the outbound channels and the carrier are empty, both demuxes wait for a
frame, every event was taken, and neither a call nor a stream task is about to leave. -/
structure Settled (s : Peers) : Prop where
  up : s.upPath = []
  down : s.downPath = []
  reader : s.client.shared.reader = .demuxing
  demux : s.server.shared.pc = .demuxing
  clientEvents : ∀ k, (s.client.shared.events k).queue = []
  serverEvents : ∀ k, (s.server.shared.events k).queue = []
  calls : ∀ c ∈ s.client.tasks, c.phase.departing = false
  tasks : ∀ (k : ℕ) (w : Demux.StreamTask), s.server.tasks[k]? = some w → w.phase ≠ .leaving ∧
    ¬ (w.phase = .pumping ∧ w.up = false ∧ (s.server.shared.events k).receiver = false)

/-- The outbound channel of the client has room for the `CLOSE` of a call, and the counter of ids does
not wrap. -/
def roomy (s : Peers) : Step → Bool
  | .client (.task _ .close) => s.client.shared.out.queue.length < outboundBound
  | .client (.task _ .alloc) => s.client.shared.nextStream ≠ 0xFFFFFFFF
  | _ => true

/-- The steps that are `roomy`. -/
def Roomy (s : Peers) (a : Step) : Prop := roomy s a = true

instance (s : Peers) (a : Step) : Decidable (Roomy s a) :=
  inferInstanceAs (Decidable (roomy s a = true))

theorem Roomy.fresh (h : Roomy s a) : Fresh s a := by
  cases a with
  | client x =>
      rintro j _ rfl
      simpa [Roomy, roomy] using h
  | _ => exact trivial

/-! ### Why a stream does not stay -/

/-- The tunnel is dying. -/
def Dead (s : Peers) : Prop := s.client.shared.alive = false ∨ s.client.shared.out.receiver = false

/-- With the frames under way the id leaves the registry of the server. -/
def Cleared (s : Peers) (sid : StreamId) : Prop :=
  s.upPath.foldl (turn sid) (s.server.shared.present sid) = false

/-- The task of the id is over. -/
def Over (s : Peers) (sid : StreamId) : Prop :=
  ∃ w ∈ s.server.tasks, w.sid = sid ∧ w.phase.over = true

/-- The stream of a call ended both ways. -/
def BothEnds (s : Peers) (i : ℕ) (sid : StreamId) : Prop :=
  .eof ∈ s.clientHistory.took i ∧ .eof ∈ s.clientHistory.queued sid

/-- Why the stream of a call does not stay at the server. -/
def Accounted (s : Peers) (i : ℕ) (sid : StreamId) : Prop :=
  s.Dead ∨ s.Cleared sid ∨ s.Over sid ∨ s.BothEnds i sid

/-- The call has its id, and the task of the id is over. -/
def RefusedCall (s : Peers) (i : ℕ) : Prop :=
  ∃ c, s.client.tasks[i]? = some c ∧ c.phase ≠ .called ∧ s.Over c.sid

/-- **The end of a stream on both sides.** -/
structure Teardown (s : Peers) : Prop where
  waits : Tunnel.Waits s.client
  ended : Demux.Ended s.server s.serverHistory
  finished : ∀ w ∈ s.server.tasks, w.phase = .finished → s.Dead ∨ s.Cleared w.sid
  refusal : ∀ f ∈ s.downPath, f.kind = .reply → f.payload.head? ≠ some replyOk → s.Over f.stream
  refusing : ∀ i, s.client.shared.reader = .replying i false → s.RefusedCall i
  refused : ∀ i, s.client.shared.replies i = some false → s.RefusedCall i
  parted : ∀ (i : ℕ) (c : Tunnel.Call), s.client.tasks[i]? = some c → c.phase.parted = true →
    s.Accounted i c.sid

/-! ### A step of the client -/

/-- The client brings back no id of a call past its `OPEN`. -/
theorem Cleared.client_step {x : Tunnel.Action} {c : Tunnel.State} {up : Transit} (h : s.Cleared sid)
    (hnum : Tunnel.Numbered s.client) {d : Tunnel.Call} (hd : s.client.tasks[i]? = some d)
    (hsid : d.sid = sid) (hsent : d.phase.sent = true) (hc : Tunnel.step s.client x = some c)
    (hup : s.up.sent s.client.shared.out (Tunnel.carry x) = some up) :
    c.shared.out.receiver = false ∨
      (up.path c.shared.out).foldl (turn sid) (s.server.shared.present sid) = false := by
  have hpush : ∀ f : OutFrame, isOpen sid f = false →
      (s.upPath ++ [f]).foldl (turn sid) (s.server.shared.present sid) = false := by
    intro f hf
    rw [List.foldl_append, show s.upPath.foldl _ _ = false from h]
    exact turn_eq_false hf
  rcases (Tunnel.step_emits hc s.clientHistory).path hup with ⟨_, _, hpath⟩ |
    ⟨f, hf, _, _, _, _, hpath⟩ | ⟨f, sid', e, _, hev, _, _, _, hpath⟩ | ⟨hrecv, _⟩
  · refine .inr ?_
    rw [hpath]
    exact h
  · refine .inr ?_
    rw [hpath]
    refine hpush f ?_
    rcases hf with hclose | ⟨j, d', _, hd', hp, rfl⟩
    · simp [isOpen, hclose]
    · -- the call that sends its `OPEN` is another one
      have hne : d'.sid ≠ sid := by
        intro heq
        have hij := hnum.inj hd' hd (by simp [hp]) (Tunnel.Phase.sent_ne_called hsent)
          (heq.trans hsid.symm)
        subst hij
        obtain rfl : d = d' := Option.some.inj (hd.symm.trans hd')
        rw [hp] at hsent
        cases hsent
      simp [isOpen, hne]
  · refine .inr ?_
    rw [hpath]
    refine hpush f ?_
    unfold frameEvent at hev
    unfold isOpen
    split at hev <;> simp_all
  · exact .inl hrecv

section client

variable {x : Tunnel.Action} {c : Tunnel.State} {up down : Transit} {r : Answers}

/-- The state after a step of the client. -/
def afterClient (s : Peers) (x : Tunnel.Action) (c : Tunnel.State) (up down : Transit) (r : Answers) :
    Peers :=
  { s with
    client := c
    up := up
    down := down
    clientHistory := s.clientHistory.client s.client x
    answers := r }

theorem Dead.client_step (h : s.Dead) (hc : Tunnel.step s.client x = some c) :
    (s.afterClient x c up down r).Dead := by
  have hrecv := (Tunnel.step_emits hc s.clientHistory).receiver
  have halive := Tunnel.step_alive hc
  rcases h with h | h
  · refine .inl ?_
    rw [← Bool.not_eq_true] at h ⊢
    exact fun htrue => h (halive htrue)
  · refine .inr ?_
    rw [← Bool.not_eq_true] at h ⊢
    exact fun htrue => h (hrecv htrue)

/-- What accounts for a stream stays, for a call past its `OPEN`. -/
theorem Accounted.client_step (hnum : Tunnel.Numbered s.client) {d : Tunnel.Call}
    (hd : s.client.tasks[i]? = some d) (hsent : d.phase.sent = true)
    (hc : Tunnel.step s.client x = some c)
    (hup : s.up.sent s.client.shared.out (Tunnel.carry x) = some up) (h : s.Accounted i d.sid) :
    (s.afterClient x c up down r).Accounted i d.sid := by
  rcases h with hdead | hcleared | hover | ⟨htook, hqueued⟩
  · exact .inl (hdead.client_step hc)
  · rcases hcleared.client_step hnum hd rfl hsent hc hup with hrecv | hcleared
    · exact .inl (.inr hrecv)
    · exact .inr (.inl hcleared)
  · exact .inr (.inr (.inl hover))
  · obtain ⟨htook', hqueued'⟩ := s.clientHistory.client_grows s.client x
    exact .inr (.inr (.inr ⟨(htook' i).mem htook, (hqueued' d.sid).mem hqueued⟩))

/-- A call that parts with its stream leaves it accounted for. -/
theorem Teardown.parts {e : Tunnel.CallStep} {q : Tunnel × Tunnel.Call} {d : Tunnel.Call}
    (h : Teardown s) (hnum : Tunnel.Numbered s.client) (hok : Roomy s (.client (.task i e)))
    (hgraceful : s.graceful (.task i e) = true) (hd : s.client.tasks[i]? = some d)
    (hq : Tunnel.callStep i s.client.shared d e = some q)
    (hc : Tunnel.step s.client (.task i e) = some c) (hout : c.shared.out = q.1.out)
    (hup : s.up.sent s.client.shared.out (Tunnel.carry (.task i e)) = some up)
    (hp : q.2.phase.parted = true) : (s.afterClient (.task i e) c up down r).Accounted i d.sid := by
  rcases Tunnel.callStep_parted hq hp with hparted | hrecv | ⟨_, hreply⟩ | ⟨hwait, hgone⟩ |
    ⟨_, rfl⟩ | ⟨rfl, hcalled, htry⟩
  · exact (h.parted i d hd hparted).client_step hnum hd (Tunnel.Phase.sent_of_parted hparted) hc hup
  · exact .inl (Dead.client_step (.inr hrecv) hc)
  · obtain ⟨d', hd', _, hover⟩ := h.refused i hreply
    obtain rfl : d = d' := Option.some.inj (hd.symm.trans hd')
    exact .inr (.inr (.inl hover))
  · -- the waiter of an alive tunnel is not lost
    have hdead : s.client.shared.alive = false := by
      rw [← Bool.not_eq_true]
      intro halive
      have hkept := h.waits.waiter halive hd (by rw [hwait]; rfl)
      exact Bool.noConfusion (hgone.symm.trans hkept)
    exact .inl (Dead.client_step (.inl hdead) hc)
  · obtain ⟨htook, hqueued⟩ : .eof ∈ s.clientHistory.took i ∧ .eof ∈ s.clientHistory.queued d.sid := by
      simpa [graceful, hd] using hgraceful
    exact .inr (.inr (.inr ⟨htook, hqueued⟩))
  · -- the `CLOSE` fits
    by_cases hrecv : s.client.shared.out.receiver = true
    · have haccepts : s.client.shared.out.accepts outboundBound = true := by
        have hroom : s.client.shared.out.queue.length < outboundBound := by
          simpa [Roomy, roomy] using hok
        simp [Channel.accepts, hrecv, hroom]
      obtain rfl := Option.some.inj hup
      refine .inr (.inl ?_)
      have hpath : s.up.path c.shared.out = s.upPath ++ [.bare .close d.sid] := by
        rw [hout, htry, Channel.trySend, if_pos haccepts]
        exact (List.append_assoc _ _ _).symm
      unfold Cleared upPath afterClient
      dsimp only
      rw [hpath, List.foldl_append]
      exact turn_close _ _
    · exact .inl (Dead.client_step (.inr (by simpa using hrecv)) hc)

theorem Teardown.client_step (h : Teardown s) (hproto : Protocol s) (hnum : Tunnel.Numbered s.client)
    (hreg : Tunnel.Registered s.client) (hok : Roomy s (.client x)) (hgraceful : s.graceful x = true)
    (hc : Tunnel.step s.client x = some c)
    (hup : s.up.sent s.client.shared.out (Tunnel.carry x) = some up)
    (hdown : s.down.got (Tunnel.carry x) = some down) :
    Teardown (s.afterClient x c up down r) := by
  have hkeep : ∀ {i}, s.RefusedCall i → (s.afterClient x c up down r).RefusedCall i := by
    rintro i ⟨d, hd, hne, hover⟩
    obtain ⟨d', hd', hsame, _⟩ := Tunnel.step_call hc hd
    obtain ⟨hne', hsid⟩ := hsame hne
    exact ⟨d', hd', hne', hsid ▸ hover⟩
  refine ⟨h.waits.step hnum hc, h.ended, ?_, ?_, ?_, ?_, ?_⟩
  · intro w hw hp
    rcases h.finished w hw hp with hdead | hcleared
    · exact .inl (hdead.client_step hc)
    · have htask : s.HasTask w.sid := ⟨w, hw, rfl⟩
      obtain ⟨i, d, hd, hsid, hsent⟩ := hproto.sent w.sid htask.opens_pos
      rcases hcleared.client_step hnum hd hsid hsent hc hup with hrecv | hcleared
      · exact .inl (.inr hrecv)
      · exact .inr hcleared
  · intro f hf
    exact h.refusal f (mem_got hdown _ hf)
  · intro i hi
    rcases Tunnel.step_reader hc hi with hold | ⟨f, rfl, hkind, hlookup, hfalse⟩
    · exact hkeep (h.refusing i hold)
    · obtain ⟨d, hd, hsid, hp⟩ := hreg.pending f.stream i hlookup
      have hne : d.phase ≠ .called := by
        intro heq
        rw [heq] at hp
        cases hp
      have hmem : f ∈ s.downPath := by
        unfold downPath
        rw [Transit.got_path hdown s.server.shared.out]
        exact List.mem_append_left _ List.mem_cons_self
      have hover := h.refusal f hmem hkind (by simpa using hfalse)
      exact hkeep ⟨d, hd, hne, hsid ▸ hover⟩
  · intro i hi
    rcases Tunnel.step_replies hc hi with hold | hold
    · exact hkeep (h.refused i hold)
    · exact hkeep (h.refusing i hold)
  · intro i d hd hp
    obtain ⟨y, q, _, hq, rfl⟩ | ⟨j, e, d', q, rfl, hd', hq, rfl⟩ := Tasks.step_cases hc
    · rcases getElem?_append_cases hd with hold | hmem
      · exact (h.parted i d hold hp).client_step hnum hold (Tunnel.Phase.sent_of_parted hp) hc hup
      · rw [(Tunnel.act_cases hq).2 d hmem] at hp
        cases hp
    · rcases getElem?_set_cases hd with ⟨rfl, rfl⟩ | ⟨_, hold⟩
      · have hcalled : d'.phase ≠ .called := by
          intro heq
          rcases Tunnel.callStep_ids hq with ⟨rfl, _⟩ | ⟨_, hne, _⟩
          · simp only [Tunnel.callStep, heq, Option.some.injEq] at hq
            rw [← hq] at hp
            cases hp
          · exact hne heq
        rw [(Tunnel.callStep_forward hq).2.1 hcalled]
        exact h.parts hnum hok hgraceful hd' hq hc rfl hup hp
      · exact (h.parted i d hold hp).client_step hnum hold (Tunnel.Phase.sent_of_parted hp) hc hup

end client

/-! ### A step of the server -/

section server

variable {x : Demux.Action} {d : Demux.State} {up down : Transit} {r : Answers}

/-- The state after a step of the server. -/
def afterServer (s : Peers) (x : Demux.Action) (d : Demux.State) (up down : Transit) (r : Answers) :
    Peers :=
  { s with
    server := d
    up := up
    down := down
    serverHistory := s.serverHistory.server s.server x
    answers := r }

theorem Cleared.server_step (h : s.Cleared sid) (hd : Demux.step rt s.server x = some d)
    (hup : s.up.got (Demux.carry x) = some up) : (s.afterServer x d up down r).Cleared sid := by
  unfold Cleared upPath at h ⊢
  rw [Transit.got_path hup s.client.shared.out, List.foldl_append] at h
  rw [← Bool.not_eq_true] at h ⊢
  exact fun htrue => h (foldl_turn_mono _ (Demux.step_present hd sid) htrue)

theorem Accounted.server_step (h : s.Accounted i sid) (hd : Demux.step rt s.server x = some d)
    (hup : s.up.got (Demux.carry x) = some up) : (s.afterServer x d up down r).Accounted i sid := by
  rcases h with hdead | hcleared | hover | hboth
  · exact .inl hdead
  · exact .inr (.inl (hcleared.server_step hd hup))
  · exact .inr (.inr (.inl (Demux.step_over hd hover)))
  · exact .inr (.inr (.inr hboth))

/-- A task that takes its stream out of the registry clears its id: no second `OPEN` is under way. -/
theorem Protocol.cleared (h : Protocol s) {w : Demux.StreamTask} (hw : w ∈ s.server.tasks)
    (hpath : up.path s.client.shared.out = s.upPath) (hpc : d.shared.pc = s.server.shared.pc)
    (hregistry : w.sid ∉ d.shared.registry) : (s.afterServer x d up down r).Cleared w.sid := by
  have hpos : 0 < s.server.tasks.countP fun c => c.sid = w.sid :=
    List.countP_pos_iff.2 ⟨w, hw, by simp⟩
  have honce := h.once w.sid
  unfold opens at honce
  have hopens : d.shared.pc.opens w.sid = false := by
    rw [hpc]
    cases hb : s.server.shared.pc.opens w.sid with
    | false => rfl
    | true =>
        rw [hb] at honce
        simp only [Bool.toNat_true] at honce
        omega
  unfold Cleared
  have hpresent : d.shared.present w.sid = false := by simp [Demux.present, hregistry, hopens]
  show (up.path s.client.shared.out).foldl (turn w.sid) (d.shared.present w.sid) = false
  rw [hpresent, hpath]
  exact foldl_turn_false (by omega)

theorem Teardown.server_step (h : Teardown s) (hproto : Protocol s) (hlanes : Delivery s)
    (hd : Demux.step rt s.server x = some d)
    (hdown : s.down.sent s.server.shared.out (Demux.carry x) = some down)
    (hup : s.up.got (Demux.carry x) = some up) : Teardown (s.afterServer x d up down r) := by
  have hover : ∀ {sid}, s.Over sid → (s.afterServer x d up down r).Over sid := Demux.step_over hd
  have hcall : ∀ {i}, s.RefusedCall i → (s.afterServer x d up down r).RefusedCall i := by
    rintro i ⟨c, hc, hne, hw⟩
    exact ⟨c, hc, hne, hover hw⟩
  refine ⟨h.waits, ?_, ?_, ?_, ?_, ?_, ?_⟩
  · refine h.ended.step hd ?_ ?_
    · intro k l w v hw hv hsid
      exact hlanes.up.inj (upLane_owner hw) (hsid ▸ upLane_owner hv)
    · intro sid payload hpc
      by_contra hne
      exact hproto.no_task hpc (hproto.serverQueued sid hne)
  · intro w hw hp
    have hold : w ∈ s.server.tasks → s.Dead ∨ (s.afterServer x d up down r).Cleared w.sid :=
      fun hmem => (h.finished w hmem hp).imp_right fun hcleared => hcleared.server_step hd hup
    obtain ⟨y, q, _, hq, rfl⟩ | ⟨j, e, c, q, rfl, hc, hq, rfl⟩ := Tasks.step_cases hd
    · rcases List.mem_append.1 hw with hmem | hnew
      · exact hold hmem
      · rw [(Demux.act_spawns hq hnew).1] at hp
        cases hp
    · rcases List.mem_or_eq_of_mem_set hw with hmem | rfl
      · exact hold hmem
      · have hregistry := (Demux.handleStream_forward hq).2.2.2 hp
        have hsid := Demux.handleStream_sid hq
        have hpath : up.path s.client.shared.out = s.upPath := by
          obtain rfl := Option.some.inj hup
          rfl
        refine .inr ?_
        rw [hsid]
        refine hproto.cleared (List.mem_of_getElem? hc) hpath (Demux.handleStream_cases hq).1 ?_
        rw [hregistry, AList.mem_erase]
        exact fun hmem => hmem.1 rfl
  · intro f hf hkind hpayload
    have hold : f ∈ s.downPath → (s.afterServer x d up down r).Over f.stream :=
      fun hmem => hover (h.refusal f hmem hkind hpayload)
    change f ∈ down.path d.shared.out at hf
    rcases (Demux.step_emits hd s.serverHistory).path hdown with ⟨_, _, hpath⟩ |
      ⟨f', hf', _, _, _, _, hpath⟩ | ⟨f', sid, e, _, hev, _, _, _, hpath⟩ | ⟨_, _, hpath⟩
    · rw [hpath] at hf
      exact hold hf
    · rw [hpath, List.mem_append, List.mem_singleton] at hf
      rcases hf with hmem | rfl
      · exact hold hmem
      · rcases hf' with hclose | ⟨j, c, rfl, hc, hsid, _, ⟨_, hok⟩ | ⟨hp, _⟩⟩
        · rw [hclose] at hkind
          cases hkind
        · rw [hok] at hpayload
          exact absurd rfl hpayload
        · -- the task leaves with its refusal
          exact hsid ▸ Demux.refusing_over hd hc hp
    · rw [hpath, List.mem_append, List.mem_singleton] at hf
      rcases hf with hmem | rfl
      · exact hold hmem
      · simp [frameEvent, hkind] at hev
    · exact hold (hpath.mem hf)
  · intro i hi
    exact hcall (h.refusing i hi)
  · intro i hi
    exact hcall (h.refused i hi)
  · intro i c hc hp
    exact (h.parted i c hc hp).server_step hd hup

end server

theorem Teardown.flush {up down : Transit} (h : Teardown s)
    (hup : up.path s.client.shared.out = s.upPath)
    (hdown : down.path s.server.shared.out = s.downPath) :
    Teardown { s with up := up, down := down } := by
  have hcleared : ∀ {sid}, s.Cleared sid → Cleared { s with up := up, down := down } sid := by
    intro sid hsid
    unfold Cleared upPath
    dsimp only
    rw [hup]
    exact hsid
  refine { h with finished := ?_, refusal := ?_, parted := ?_ }
  · intro w hw hp
    exact (h.finished w hw hp).imp_right hcleared
  · intro f hf
    refine h.refusal f ?_
    rw [← hdown]
    exact hf
  · intro i c hc hp
    rcases h.parted i c hc hp with hdead | hsid | hrest
    · exact .inl hdead
    · exact .inr (.inl (hcleared hsid))
    · exact .inr (.inr hrest)

theorem Teardown.step (h : Teardown s) (hproto : Protocol s) (hlanes : Delivery s)
    (hnum : Tunnel.Numbered s.client) (hreg : Tunnel.Registered s.client) (hok : Roomy s a)
    (hs : step rt s a = some s') : Teardown s' := by
  obtain ⟨x, c, up, down, rfl, hgraceful, hc, hup, hdown, rfl⟩ |
    ⟨x, d, up, down, rfl, hd, hdown, hup, rfl⟩ | ⟨n, _, rfl⟩ | ⟨n, _, rfl⟩ := step_cases hs
  · exact h.client_step hproto hnum hreg hok hgraceful hc hup hdown
  · exact h.server_step hproto hlanes hd hdown hup
  · exact h.flush (Transit.flush_path ..) rfl
  · exact h.flush rfl (Transit.flush_path ..)

theorem Teardown.new (pool : Bool) : Teardown (init pool) where
  waits := Tunnel.Waits.new pool
  ended := ⟨(fun hi => by cases hi), (fun _ hmem => by cases hmem)⟩
  finished _ hw := by cases hw
  refusal _ hf := by cases hf
  refusing _ hi := by cases hi
  refused _ hi := by cases hi
  parted _ _ hi := by cases hi

/-- **The invariant holds in every run** whose steps are roomy. -/
theorem Teardown.reach {pool : Bool} (h : Reach (Peers.step rt) Roomy (init pool) s) : Teardown s := by
  induction h with
  | refl => exact Teardown.new pool
  | step a hreach hok hs ih =>
      exact ih.step (Protocol.reach Roomy.fresh hreach) (Delivery.reach Roomy.fresh hreach)
        (numbered_reach Roomy.fresh hreach) (Tunnel.Registered.reach (reach_client hreach)) hok hs

/-! ### No stream leaks -/

theorem Live.not_dead (h : Live s) : ¬ s.Dead := by
  rintro (hdead | hdead)
  · exact Bool.noConfusion (hdead.symm.trans h.alive)
  · exact Bool.noConfusion (hdead.symm.trans h.clientWriter)

theorem Cleared.gone (h : s.Cleared sid) (hsettled : Settled s) : sid ∉ s.server.shared.registry := by
  intro hmem
  unfold Cleared at h
  rw [hsettled.up] at h
  simp [Demux.present, hmem] at h

/-- A task that is over has taken its stream out of the registry. -/
theorem Teardown.over_gone (h : Teardown s) (hlive : Live s) (hsettled : Settled s)
    (hover : s.Over sid) : sid ∉ s.server.shared.registry := by
  obtain ⟨w, hw, rfl, hp⟩ := hover
  obtain ⟨k, hk⟩ := List.getElem?_of_mem hw
  have hfinished : w.phase = .finished := by
    have hleaving := (hsettled.tasks k w hk).1
    cases hphase : w.phase <;> simp_all [Demux.Phase.over]
  exact ((h.finished w hw hfinished).resolve_left hlive.not_dead).gone hsettled

/-- A stream that ended both ways does not stay: with nothing under way both its pumps are over. -/
theorem Teardown.bothEnds_gone (h : Teardown s) (hlanes : Delivery s) (hlive : Live s)
    (hsettled : Settled s) {c : Tunnel.Call} (hc : s.client.tasks[i]? = some c)
    (hcalled : c.phase ≠ .called) (hboth : s.BothEnds i c.sid) :
    c.sid ∉ s.server.shared.registry := by
  intro hmem
  obtain ⟨k, hk⟩ := Option.isSome_iff_exists.1 (AList.lookup_isSome.2 hmem)
  -- the task of the entry
  have howner : s.upLane.owner k = some c.sid := hlanes.up.listed hk
  obtain ⟨w, hw, hsid⟩ := Option.bind_eq_some_iff.1 howner
  obtain hsid : w.sid = c.sid := Option.some.inj hsid
  -- the client took the end of the stream, so `pump_up` of the task has queued it
  have hqueued : .eof ∈ s.serverHistory.queued w.sid := by
    rw [hsid]
    exact (hlanes.down.took_queued (downLane_owner hc hcalled)).mem hboth.1
  obtain ⟨hup, hreplied⟩ := h.ended.up hw hqueued
  -- the task got all that the client queued, so `pump_down` is over too
  have hdown : (s.server.shared.events k).receiver = false := by
    rw [← Bool.not_eq_true]
    intro hopen
    have hall : s.serverHistory.took k ++ (s.server.shared.events k).queue
        = s.clientHistory.queued c.sid :=
      hlanes.up.caught_up hlive.clientWriter hsettled.up
        (by simp [upLane, lane, Demux.inbox, hsettled.demux, DemuxPc.hand]) hk hopen
    rw [hsettled.serverEvents k, List.append_nil] at hall
    have hend := h.ended.down k (hall ▸ hboth.2)
    exact Bool.noConfusion (hopen.symm.trans hend)
  have hpumping := (hsettled.tasks k w hw).2
  have hover : w.phase.over = true := by
    cases hp : w.phase with
    | pumping => exact absurd ⟨hp, hup, hdown⟩ hpumping
    | leaving => rfl
    | finished => rfl
    | _ =>
        rw [hp] at hreplied
        cases hreplied
  exact h.over_gone hlive hsettled ⟨w, List.mem_of_getElem? hw, hsid, hover⟩ hmem

/-- **No stream leaks**, in every run in which a `CLOSE` of a call finds room in the outbound channel and
the counter of ids does not wrap: in a live tunnel with nothing under way, a stream in the registry of
the server belongs to a call that waits for its reply or to a stream of the client. -/
theorem no_stream_leaks (rt : ServerRuntime) (pool : Bool) {s : Peers}
    (h : Reach (step rt) Roomy (init pool) s) (hlive : Live s) (hsettled : Settled s) :
    ∀ sid ∈ s.server.shared.registry, ∃ (i : ℕ) (c : Tunnel.Call),
      s.client.tasks[i]? = some c ∧ c.sid = sid ∧ (c.phase = .awaiting ∨ c.phase = .handle) := by
  intro sid hmem
  have hinv := Teardown.reach h
  have hproto := Protocol.reach Roomy.fresh h
  have hlanes := Delivery.reach Roomy.fresh h
  obtain ⟨k, hk⟩ := Option.isSome_iff_exists.1 (AList.lookup_isSome.2 hmem)
  obtain ⟨w, hw, hsid⟩ := Option.bind_eq_some_iff.1 (hlanes.up.listed hk)
  have htask : s.HasTask sid := ⟨w, List.mem_of_getElem? hw, Option.some.inj hsid⟩
  obtain ⟨i, c, hc, rfl, hsent⟩ := hproto.sent sid htask.opens_pos
  refine ⟨i, c, hc, rfl, ?_⟩
  rcases Tunnel.Phase.sent_cases hsent with hp | hp | hp | hp
  · exact .inl hp
  · exact .inr hp
  · rw [hsettled.calls c (List.mem_of_getElem? hc)] at hp
    cases hp
  · exfalso
    have hcalled := Tunnel.Phase.sent_ne_called hsent
    rcases hinv.parted i c hc hp with hdead | hcleared | hover | hboth
    · exact hlive.not_dead hdead
    · exact hcleared.gone hsettled hmem
    · exact hinv.over_gone hlive hsettled hover hmem
    · exact hinv.bothEnds_gone hlanes hlive hsettled hc hcalled hboth hmem

/-- A stream is dropped without its end both ways. -/
def dropStream (i : ℕ) : List Step :=
  [.client (.task i (.drop false)), .client (.task i .unregister), .client (.task i .unregister),
    .client (.task i .unregister), .client (.task i .close), .client (.task i .endDrop)]

/-- Two streams, one of which is dropped and closed at the server. -/
theorem no_stream_leaks_two :
    ∃ s, Reach (step (limited 1)) Roomy (init true) s ∧ Live s ∧ Settled s ∧
      2 ∈ s.server.shared.registry ∧ 1 ∉ s.server.shared.registry ∧
      ∀ sid ∈ s.server.shared.registry, ∃ (i : ℕ) (c : Tunnel.Call),
        s.client.tasks[i]? = some c ∧ c.sid = sid ∧ (c.phase = .awaiting ∨ c.phase = .handle) := by
  obtain ⟨s, he, hevents, hserver, hlive, hrest⟩ : ∃ s, exec (step (limited 1)) Roomy (init true)
      (openUp 0 1 ++ acceptStream 0 0 1 ++ openUp 1 2 ++ acceptStream 1 1 2 ++ dropStream 0 ++ carryUp
        ++ [.server (.main (.recv (.bare .close 1)))]) = some s ∧
      s.client.shared.events = Function.update (fun _ => Channel.new) 0 ⟨[], false⟩ ∧
      s.server.shared.events = (fun _ => Channel.new) ∧ Live s ∧
      (s.upPath = [] ∧ s.downPath = [] ∧ s.client.shared.reader = .demuxing ∧
        s.server.shared.pc = .demuxing ∧ (∀ c ∈ s.client.tasks, c.phase.departing = false) ∧
        (∀ w ∈ s.server.tasks, w.phase = .pumping ∧ w.up = true) ∧
        2 ∈ s.server.shared.registry ∧ 1 ∉ s.server.shared.registry) :=
    ⟨_, rfl, rfl, rfl, ⟨rfl, (fun hgone => by cases hgone), rfl, by decide, rfl⟩, by decide⟩
  obtain ⟨hup, hdown, hreader, hdemux, hcalls, htasks, hmem, hnot⟩ := hrest
  have h := Reach.refl.of_exec _ he
  have hsettled : Settled s := by
    refine ⟨hup, hdown, hreader, hdemux, ?_, ?_, hcalls, ?_⟩
    · intro k
      rw [hevents]
      by_cases hk : k = 0
      · subst hk
        rfl
      · rw [Function.update_of_ne hk]
        rfl
    · intro k
      rw [hserver]
      rfl
    · intro k w hw
      obtain ⟨hp, hu⟩ := htasks w (List.mem_of_getElem? hw)
      simp [hp, hu]
  exact ⟨s, h, hlive, hsettled, hmem, hnot, no_stream_leaks (limited 1) true h hlive hsettled⟩

/-! ### A full channel -/

section full

variable {n m : ℕ} {p q : Tunnel.Phase} {pool : Bool}

/-- A chunk of the stream. -/
def chunk : OutFrame := ⟨.data, 1, [7]⟩

/-- A live tunnel of a pool with `n` chunks in its outbound channel. -/
structure Holds (n : ℕ) (t : Tunnel) : Prop where
  out : t.out = ⟨List.replicate n chunk, true⟩
  alive : t.alive = true
  reader : t.reader = .demuxing
  pool : t.pool = true
  events : ∀ k, (t.events k).queue = []

/-- One stream, which the server pumps; its call is in the phase `p`, and `n` chunks are queued. -/
structure Stalled (p : Tunnel.Phase) (n : ℕ) (s : Peers) : Prop where
  calls : s.client.tasks = [⟨1, target, p, true⟩]
  holds : Holds n s.client.shared
  up : s.up = .empty
  down : s.down = .empty
  task : ∃ addr, s.server.tasks = [⟨1, addr, .pumping, true⟩]
  registry : s.server.shared.registry.lookup 1 = some 0
  demux : s.server.shared.pc = .demuxing
  out : s.server.shared.out = Channel.new
  events : ∀ k, s.server.shared.events k = Channel.new

/-- The call moves on. -/
theorem Stalled.move (h : Stalled p n s) (hreach : Reach (step rt) always (init pool) s)
    {e : Tunnel.CallStep} {t : Tunnel} (he : e ≠ .drop true)
    (hc : Tunnel.callStep 0 s.client.shared ⟨1, target, p, true⟩ e = some (t, ⟨1, target, q, true⟩))
    (ht : Holds m t) : ∃ s', Reach (step rt) always (init pool) s' ∧ Stalled q m s' := by
  have hgraceful : s.graceful (.task 0 e) = true := by
    unfold graceful
    split
    · rename_i heq
      cases heq
      exact absurd rfl he
    · rfl
  have hstep : Tunnel.step s.client (.task 0 e) = some ⟨t, [⟨1, target, q, true⟩]⟩ := by
    simp [Tunnel.step, Tasks.step, h.calls, hc]
  refine ⟨s.afterClient (.task 0 e) ⟨t, [⟨1, target, q, true⟩]⟩ s.up s.down
    (s.answers.client s.client (.task 0 e)), hreach.step (.client (.task 0 e)) trivial ?_, ?_⟩
  · simp [step, hgraceful, hstep, Tunnel.carry, Transit.sent, Transit.got, afterClient]
  · exact { h with calls := rfl, holds := ht }

/-- The channel fills up. -/
theorem Stalled.fill (h : Stalled .handle 0 s) (hreach : Reach (step rt) always (init pool) s) :
    ∀ n ≤ outboundBound, ∃ s', Reach (step rt) always (init pool) s' ∧ Stalled .handle n s' := by
  intro n
  induction n with
  | zero => exact fun _ => ⟨s, hreach, h⟩
  | succ n ih =>
      intro hn
      obtain ⟨s', hreach', h'⟩ := ih (Nat.le_of_succ_le hn)
      have haccepts : s'.client.shared.out.accepts outboundBound = true := by
        simp [h'.holds.out, Channel.accepts]
        omega
      refine h'.move hreach' (e := .pump (.data [7]))
        (t := { s'.client.shared with out := s'.client.shared.out.push chunk }) (by simp) ?_ ?_
      · simp [Tunnel.callStep, pumpStream, haccepts, chunk]
      · refine { h'.holds with out := ?_ }
        simp [h'.holds.out, Channel.push, List.replicate_succ']

/-- The stream is dropped while the channel is full: its `CLOSE` is lost. -/
theorem Stalled.drop (h : Stalled .handle outboundBound s)
    (hreach : Reach (step rt) always (init pool) s) :
    ∃ s', Reach (step rt) always (init pool) s' ∧ Stalled .returned outboundBound s' := by
  obtain ⟨s, hreach, h⟩ := h.move hreach (e := .drop false) (q := .unregPending (.dropped false))
    (by simp) rfl h.holds
  obtain ⟨s, hreach, h⟩ := h.move hreach (e := .unregister) (q := .unregRegistry (.dropped false))
    (by simp) rfl { h.holds with }
  obtain ⟨s, hreach, h⟩ := h.move hreach (e := .unregister) (q := .unregSlot (.dropped false))
    (by simp) rfl { h.holds with }
  obtain ⟨s, hreach, h⟩ := h.move hreach (e := .unregister) (q := .closing (.dropped false))
    (by simp) rfl { h.holds with }
  have hfull : s.client.shared.out.accepts outboundBound = false := by
    simp [h.holds.out, Channel.accepts]
  obtain ⟨s, hreach, h⟩ := h.move hreach (e := .close) (t := s.client.shared) (q := .dropping) (by simp)
    (by simp [Tunnel.callStep, Tunnel.settle, Tunnel.Call.goto, Channel.trySend, hfull]) h.holds
  refine h.move hreach (e := .endDrop) (t := s.client.shared.settle 0 .returned) (by simp) ?_ ?_
  · simp [Tunnel.callStep, h.holds.pool, Tunnel.Call.goto]
  · refine { h.holds with events := ?_ }
    intro k
    by_cases hk : k = 0
    · subst hk
      simp [Tunnel.settle, Channel.close]
    · simp [Tunnel.settle, Function.update_of_ne hk, h.holds.events]

/-- A chunk reaches `pump_down` at the server. -/
theorem Stalled.deliver (h : Stalled p (n + 1) s) (hreach : Reach (step rt) always (init pool) s) :
    ∃ s', Reach (step rt) always (init pool) s' ∧ Stalled p n s' := by
  obtain ⟨addr, htask⟩ := h.task
  have hexec : ∃ s', exec (step rt) always s (carryUp ++ [.server (.main (.recv chunk)),
      .server (.main .routeSend), .server (.task 0 (.pump .recv))]) = some s' ∧ Stalled p n s' := by
    -- evaluate the five steps on what is known of the state
    simp only [carryUp, List.cons_append, List.nil_append, exec, always, if_true, step, graceful,
      Tunnel.step, Demux.step, Tasks.step, Tunnel.act, h.holds.out, List.replicate_succ, Tunnel.carry,
      Transit.sent, Transit.got, h.up, Transit.empty, writeBatch, Transit.flush, Demux.act]
    simp [Demux.onFrame, h.demux, chunk, Demux.carry, Demux.route, h.registry, h.events, Channel.new,
      Channel.accepts, streamBound, Channel.push, htask, Demux.handleStream, pumpStream]
    refine { h with
      holds := { h.holds with out := rfl }
      up := rfl
      task := ⟨addr, rfl⟩
      demux := rfl
      events := ?_ }
    intro k
    by_cases hk : k = 0
    · subst hk
      rfl
    · dsimp only
      rw [Function.update_of_ne hk]
      exact h.events k
  obtain ⟨s', he, h'⟩ := hexec
  exact ⟨s', hreach.of_exec _ he, h'⟩

/-- All chunks reach the server. -/
theorem Stalled.drain (h : Stalled p n s) (hreach : Reach (step rt) always (init pool) s) :
    ∃ s', Reach (step rt) always (init pool) s' ∧ Stalled p 0 s' := by
  induction n generalizing s with
  | zero => exact ⟨s, hreach, h⟩
  | succ n ih =>
      obtain ⟨s', hreach', h'⟩ := h.deliver hreach
      exact ih h' hreach'

/-- With an empty channel nothing is under way. -/
theorem Stalled.settled (h : Stalled .returned 0 s) : Live s ∧ Settled s := by
  obtain ⟨addr, htask⟩ := h.task
  refine ⟨⟨h.holds.alive, ?_, ?_, ?_, ?_⟩, ⟨?_, ?_, h.holds.reader, h.demux, h.holds.events, ?_, ?_, ?_⟩⟩
  · simp [h.holds.reader, ReaderPc.hand]
  · simp [h.holds.out]
  · simp [h.demux]
  · simp [h.out, Channel.new]
  · simp [upPath, Transit.path, h.up, Transit.empty, h.holds.out]
  · simp [downPath, Transit.path, h.down, Transit.empty, h.out, Channel.new]
  · intro k
    simp [h.events, Channel.new]
  · intro c hc
    rw [h.calls] at hc
    obtain rfl := List.mem_singleton.1 hc
    rfl
  · intro k w hw
    rw [htask] at hw
    obtain rfl := List.mem_singleton.1 (List.mem_of_getElem? hw)
    simp

/-- **A lost `CLOSE`**: a stream is dropped while its chunks fill the outbound channel.  The chunks then
reach the server, nothing is under way any more, and the stream is in the registry of the server
though the client has no call and no stream with its id. -/
theorem close_lost :
    ∃ s, Reach (step (limited 1)) always (init true) s ∧ Live s ∧ Settled s ∧
      1 ∈ s.server.shared.registry ∧
      ¬ ∃ (i : ℕ) (c : Tunnel.Call), s.client.tasks[i]? = some c ∧ c.sid = 1 ∧
        (c.phase = .awaiting ∨ c.phase = .handle) := by
  obtain ⟨s, he, h⟩ : ∃ s, exec (step (limited 1)) always (init true)
      (openUp 0 1 ++ acceptStream 0 0 1) = some s ∧ Stalled .handle 0 s :=
    ⟨_, rfl, ⟨rfl, ⟨rfl, rfl, rfl, rfl, fun _ => rfl⟩, rfl, rfl, ⟨_, rfl⟩, rfl, rfl, rfl, fun _ => rfl⟩⟩
  have hreach := Reach.refl.of_exec _ he
  obtain ⟨s, hreach, h⟩ := h.fill hreach outboundBound le_rfl
  obtain ⟨s, hreach, h⟩ := h.drop hreach
  obtain ⟨s, hreach, h⟩ := h.drain hreach
  have hmem : 1 ∈ s.server.shared.registry := AList.lookup_isSome.1 (by rw [h.registry]; rfl)
  refine ⟨s, hreach, h.settled.1, h.settled.2, hmem, ?_⟩
  rintro ⟨i, c, hc, _, hp⟩
  rw [h.calls] at hc
  obtain rfl := List.mem_singleton.1 (List.mem_of_getElem? hc)
  rcases hp with hp | hp <;> cases hp

end full

end Peers

end Nextppp

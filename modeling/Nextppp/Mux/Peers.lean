/-
**The two ends of a tunnel.**

A client tunnel and the demux of the server, each with its tasks, exchange frames over a carrier that
neither loses nor reorders.  The writer of an end takes frames from its outbound channel in batches
and writes them; the demux of the other end reads them in order.  Frames that a writer took and did
not write are lost when it ends.

The state also keeps a history: what the pumps queued and took, and which `OPEN`s were answered.  No
step of the program reads it.

Main definitions:

* `Nextppp.Transit` — one direction of the carrier;
* `Nextppp.History` — what the pumps and the demux of an end did so far;
* `Nextppp.Peers`, `Nextppp.Peers.step` — both ends and their interleaving.

Main results:

* `Nextppp.Peers.reach_client`, `Nextppp.Peers.reach_server` — a run of both ends is a run of each;
* `Nextppp.Peers.opens_answered` — while the server accepts every `OPEN`, an answer leaves no waiter.
-/

import Nextppp.Lib.Lane
import Nextppp.Client.Streams
import Nextppp.Server.Streams

set_option relaxedAutoImplicit false
set_option autoImplicit false

namespace Nextppp

open Tasks Run Gate

/-! ### The carrier -/

/-- One direction of the carrier: what the writer has taken, and what is written and not read yet. -/
structure Transit where
  batch : List OutFrame
  flight : List OutFrame
  deriving DecidableEq

/-- What a step of an end does to the carrier. -/
inductive Carry
  | none
  /-- the writer takes a frame -/
  | write
  /-- the writer ends -/
  | lose
  /-- the demux reads a frame -/
  | read (f : OutFrame)
  deriving DecidableEq

namespace Transit

def empty : Transit := ⟨[], []⟩

/-- The effect of a step on the direction that the end writes. -/
def sent (w : Transit) (out : Channel OutFrame) : Carry → Option Transit
  | .write =>
      if w.batch.length < writeBatch then some { w with batch := w.batch ++ out.queue.take 1 }
      else .none
  | .lose => some { w with batch := [] }
  | _ => some w

/-- The effect of a step on the direction that the end reads. -/
def got (w : Transit) : Carry → Option Transit
  | .read f => if w.flight.head? = some f then some { w with flight := w.flight.tail } else .none
  | _ => some w

/-- The carrier takes the first frames of the batch. -/
def flush (w : Transit) (n : ℕ) : Transit := ⟨w.batch.drop n, w.flight ++ w.batch.take n⟩

/-- The frames on their way, from the oldest one on. -/
def path (w : Transit) (out : Channel OutFrame) : List OutFrame := w.flight ++ w.batch ++ out.queue

@[simp] theorem flush_path (w : Transit) (n : ℕ) (out : Channel OutFrame) :
    (w.flush n).path out = w.path out := by
  simp [flush, path, List.append_assoc]

end Transit

/-- A step of the reader, the writer or a call of the client. -/
abbrev Tunnel.Action := Act Tunnel.Step Tunnel.CallStep

/-- A step of the demux, the writer or a stream task of the server. -/
abbrev Demux.Action := Act Demux.Step Demux.TaskStep

/-- What a step of the client does to the carrier. -/
def Tunnel.carry : Tunnel.Action → Carry
  | .main .write => .write
  | .main .writerEnds => .lose
  | .main (.recv f) => .read f
  | _ => .none

/-- What a step of the server does to the carrier. -/
def Demux.carry : Demux.Action → Carry
  | .main .write => .write
  | .main .writerEnds => .lose
  | .main (.recv f) => .read f
  | _ => .none

/-! ### The history -/

/-- The event a frame carries, and its stream. -/
def frameEvent (f : OutFrame) : Option (StreamId × StreamEvent) :=
  match f.kind with
  | .data => some (f.stream, .data f.payload)
  | .eof => some (f.stream, .eof)
  | _ => none

/-- What happened at one end. -/
structure History where
  /-- the events that `pump_up` queued for a stream -/
  queued : StreamId → List StreamEvent
  /-- the events that the demux got for a stream -/
  received : StreamId → List StreamEvent
  /-- the events that `pump_down` took from a channel -/
  took : ℕ → List StreamEvent

namespace History

def empty : History := ⟨fun _ => [], fun _ => [], fun _ => []⟩

/-- A step of the pumps of a stream with this channel. -/
def pump (h : History) (i : ℕ) (sid : StreamId) (events : Channel StreamEvent) :
    PumpStep → History
  | .data payload => { h with queued := Lane.add h.queued sid (.data payload) }
  | .eof => { h with queued := Lane.add h.queued sid .eof }
  | .recv =>
      match events.queue with
      | e :: _ => { h with took := Lane.add h.took i e }
      | [] => h
  | _ => h

/-- The demux reads a frame. -/
def recv (h : History) (f : OutFrame) : History :=
  match frameEvent f with
  | some (sid, e) => { h with received := Lane.add h.received sid e }
  | none => h

/-- A step of the client. -/
def client (h : History) (s : Tunnel.State) : Tunnel.Action → History
  | .main (.recv f) => h.recv f
  | .task i (.pump e) =>
      match s.tasks[i]? with
      | some c => h.pump i c.sid (s.shared.events i) e
      | none => h
  | _ => h

/-- A step of the server. -/
def server (h : History) (s : Demux.State) : Demux.Action → History
  | .main (.recv f) => h.recv f
  | .task i (.pump e) =>
      match s.tasks[i]? with
      | some c => h.pump i c.sid (s.shared.events i) e
      | none => h
  | _ => h

end History

/-- Which `OPEN`s were answered: the ids that `handle_open` refused last, and the ids whose answer the
demux of the client has processed. -/
structure Answers where
  refused : List StreamId
  processed : List StreamId

namespace Answers

/-- `handle_open` refuses or accepts the id. -/
def judge (r : Answers) (sid : StreamId) (ok : Bool) : Answers :=
  { r with refused := if ok then r.refused.filter (· ≠ sid) else sid :: r.refused }

/-- The checks of `handle_open` against the registry pass. -/
def admits (rt : ServerRuntime) (d : Demux) (sid : StreamId) : Bool :=
  sid ∉ d.registry ∧
    rt.maxStreamsPerConn.all fun cap => d.registry.entries.length < cap.toNat

/-- A step of the server. -/
def server (rt : ServerRuntime) (r : Answers) (d : Demux) : Demux.Action → Answers
  | .main (.recv f) =>
      if f.kind = .open ∧ admits rt d f.stream = false then r.judge f.stream false else r
  | .main .openInsert =>
      match d.pc with
      | .opening sid payload => r.judge sid (ProxyAddr.decode payload).isOk
      | _ => r
  | _ => r

/-- A step of the client: a `REPLY` answers an `OPEN`, and so does the `CLOSE` of an id that was
refused; a new `OPEN` under an id has no answer yet. -/
def client (r : Answers) (s : Tunnel.State) : Tunnel.Action → Answers
  | .main (.recv f) =>
      if f.kind = .reply ∨ (f.kind = .close ∧ f.stream ∈ r.refused) then
        { r with processed := f.stream :: r.processed }
      else r
  | .task i .insertPending =>
      match s.tasks[i]? with
      | some c => { r with processed := r.processed.filter (· ≠ c.sid) }
      | none => r
  | _ => r

end Answers

/-! ### Both ends -/

/-- Both ends of a tunnel and the carrier between them. -/
structure Peers where
  client : Tunnel.State
  server : Demux.State
  up : Transit
  down : Transit
  clientHistory : History
  serverHistory : History
  answers : Answers

namespace Peers

/-- A new tunnel. -/
def init (pool : Bool) : Peers where
  client := Tunnel.init pool
  server := Demux.init
  up := Transit.empty
  down := Transit.empty
  clientHistory := History.empty
  serverHistory := History.empty
  answers := ⟨[], []⟩

/-- A step of an end, or the carrier takes frames of a writer. -/
inductive Step
  | client (a : Tunnel.Action)
  | server (a : Demux.Action)
  | flushUp (n : ℕ)
  | flushDown (n : ℕ)
  deriving DecidableEq

/-- A stream is marked graceful only when `EOF` went both ways. -/
def graceful (s : Peers) : Tunnel.Action → Bool
  | .task i (.drop true) =>
      .eof ∈ s.clientHistory.took i ∧
        s.client.tasks[i]?.all fun c => .eof ∈ s.clientHistory.queued c.sid
  | _ => true

/-- One step. -/
def step (rt : ServerRuntime) (s : Peers) : Step → Option Peers
  | .client a =>
      if s.graceful a then
        (Tunnel.step s.client a).bind fun c =>
          (s.up.sent s.client.shared.out (Tunnel.carry a)).bind fun up =>
            (s.down.got (Tunnel.carry a)).map fun down =>
              { s with
                client := c
                up := up
                down := down
                clientHistory := s.clientHistory.client s.client a
                answers := s.answers.client s.client a }
      else none
  | .server a =>
      (Demux.step rt s.server a).bind fun d =>
        (s.down.sent s.server.shared.out (Demux.carry a)).bind fun down =>
          (s.up.got (Demux.carry a)).map fun up =>
            { s with
              server := d
              up := up
              down := down
              serverHistory := s.serverHistory.server s.server a
              answers := s.answers.server rt s.server.shared a }
  | .flushUp n => some { s with up := s.up.flush n }
  | .flushDown n => some { s with down := s.down.flush n }

variable {rt : ServerRuntime} {s s' : Peers} {a : Step}

/-- **What a step can do.** -/
theorem step_cases (h : step rt s a = some s') :
    (∃ x c up down, a = .client x ∧ s.graceful x = true ∧ Tunnel.step s.client x = some c ∧
        s.up.sent s.client.shared.out (Tunnel.carry x) = some up ∧
        s.down.got (Tunnel.carry x) = some down ∧
        s' = { s with
          client := c
          up := up
          down := down
          clientHistory := s.clientHistory.client s.client x
          answers := s.answers.client s.client x }) ∨
      (∃ x d up down, a = .server x ∧ Demux.step rt s.server x = some d ∧
        s.down.sent s.server.shared.out (Demux.carry x) = some down ∧
        s.up.got (Demux.carry x) = some up ∧
        s' = { s with
          server := d
          up := up
          down := down
          serverHistory := s.serverHistory.server s.server x
          answers := s.answers.server rt s.server.shared x }) ∨
      (∃ n, a = .flushUp n ∧ s' = { s with up := s.up.flush n }) ∨
      ∃ n, a = .flushDown n ∧ s' = { s with down := s.down.flush n } := by
  cases a with
  | client x =>
      obtain ⟨hgraceful, h⟩ := Option.ite_none_right_eq_some.1 h
      obtain ⟨c, hc, h⟩ := Option.bind_eq_some_iff.1 h
      obtain ⟨up, hup, h⟩ := Option.bind_eq_some_iff.1 h
      obtain ⟨down, hdown, rfl⟩ := Option.map_eq_some_iff.1 h
      exact .inl ⟨x, c, up, down, rfl, hgraceful, hc, hup, hdown, rfl⟩
  | server x =>
      obtain ⟨d, hd, h⟩ := Option.bind_eq_some_iff.1 h
      obtain ⟨down, hdown, h⟩ := Option.bind_eq_some_iff.1 h
      obtain ⟨up, hup, rfl⟩ := Option.map_eq_some_iff.1 h
      exact .inr (.inl ⟨x, d, up, down, rfl, hd, hdown, hup, rfl⟩)
  | flushUp n => exact .inr (.inr (.inl ⟨n, rfl, (Option.some.inj h).symm⟩))
  | flushDown n => exact .inr (.inr (.inr ⟨n, rfl, (Option.some.inj h).symm⟩))

variable {ok : Peers → Step → Prop} {pool : Bool}

/-- The client of a run makes a run. -/
theorem reach_client (h : Reach (step rt) ok (init pool) s) :
    Reach Tunnel.step always (Tunnel.init pool) s.client := by
  induction h with
  | refl => exact .refl
  | step a _ _ hs ih =>
      obtain ⟨x, c, up, down, _, _, hc, _, _, rfl⟩ | ⟨x, d, up, down, _, _, _, _, rfl⟩ | ⟨n, _, rfl⟩ |
        ⟨n, _, rfl⟩ := step_cases hs
      · exact ih.step x trivial hc
      · exact ih
      · exact ih
      · exact ih

/-- The server of a run makes a run. -/
theorem reach_server (h : Reach (step rt) ok (init pool) s) :
    Reach (Demux.step rt) always Demux.init s.server := by
  induction h with
  | refl => exact .refl
  | step a _ _ hs ih =>
      obtain ⟨x, c, up, down, _, _, _, _, _, rfl⟩ | ⟨x, d, up, down, _, hd, _, _, rfl⟩ | ⟨n, _, rfl⟩ |
        ⟨n, _, rfl⟩ := step_cases hs
      · exact ih
      · exact ih.step x trivial hd
      · exact ih
      · exact ih

/-! ### The answers to an `OPEN` -/

/-- `handle_open` does not refuse in this step: the id is not registered, the limit is not reached and
the address is well formed. -/
def accepting (rt : ServerRuntime) (s : Peers) : Step → Bool
  | .server (.main (.recv f)) => f.kind ≠ .open || Answers.admits rt s.server.shared f.stream
  | .server (.main .openInsert) =>
      match s.server.shared.pc with
      | .opening _ payload => (ProxyAddr.decode payload).isOk
      | _ => true
  | _ => true

/-- The steps in which `handle_open` does not refuse. -/
def Accepting (rt : ServerRuntime) (s : Peers) (a : Step) : Prop := accepting rt s a = true

instance (rt : ServerRuntime) (s : Peers) (a : Step) : Decidable (Accepting rt s a) :=
  inferInstanceAs (Decidable (accepting rt s a = true))

/-- Without a refusal the list of refused ids does not grow. -/
theorem refused_server {r : Answers} {x : Demux.Action} (hok : Accepting rt s (.server x))
    (hr : r.refused = []) : (r.server rt s.server.shared x).refused = [] := by
  unfold Answers.server
  split
  · rename_i f
    have hpass : ¬ (f.kind = .open ∧ Answers.admits rt s.server.shared f.stream = false) := by
      rintro ⟨hkind, hfalse⟩
      simp [Accepting, accepting, hkind, hfalse] at hok
    rw [if_neg hpass, hr]
  · split
    · rename_i sid payload hpc
      have hdecode : (ProxyAddr.decode payload).isOk = true := by
        simpa [Accepting, accepting, hpc] using hok
      simp [Answers.judge, hdecode, hr]
    · exact hr
  · exact hr

theorem processed_server (r : Answers) (x : Demux.Action) (d : Demux) :
    (r.server rt d x).processed = r.processed := by
  unfold Answers.server Answers.judge
  split
  · split <;> rfl
  · split <;> rfl
  · rfl

/-- What was processed before a step of the client that is not a new answer. -/
theorem processed_client {r : Answers} {x : Tunnel.Action} {t : Tunnel.State} {sid : StreamId}
    (h : sid ∈ (r.client t x).processed) :
    sid ∈ r.processed ∨ ∃ f, x = .main (.recv f) ∧ f.stream = sid ∧
      (f.kind = .reply ∨ (f.kind = .close ∧ sid ∈ r.refused)) := by
  unfold Answers.client at h
  split at h
  · rename_i f
    split at h
    · rename_i hanswer
      rcases List.mem_cons.1 h with rfl | hold
      · exact .inr ⟨f, rfl, rfl, hanswer⟩
      · exact .inl hold
    · exact .inl h
  · split at h
    · exact .inl (List.mem_filter.1 h).1
    · exact .inl h
  · exact .inl h

end Peers

namespace Tunnel

variable {s s' : State} {i : ℕ} {t : Tunnel} {c : Call} {e : CallStep} {r : Tunnel × Call}

theorem callStep_allocated (h : callStep i t c e = some r) (hp : c.phase = .allocated) :
    e = .insertPending := by
  unfold callStep at h
  rw [hp] at h
  split at h <;> simp_all

/-- A waiter that is there after a step was there before it, or a call has just put it there. -/
theorem step_pending {x : Action} (hs : step s x = some s') {sid : StreamId} {i : ℕ}
    (hi : s'.shared.pending.lookup sid = some i) :
    s.shared.pending.lookup sid = some i ∨
      ∃ c, x = .task i .insertPending ∧ s.tasks[i]? = some c ∧ c.sid = sid := by
  obtain ⟨a, r, _, hr, rfl⟩ | ⟨j, e, c, r, rfl, hc, hr, rfl⟩ := step_cases hs
  · exact .inl ((act_cases hr).1.pending sid i hi)
  rcases callStep_cases hr with ⟨_, _, rfl⟩ | ⟨hp, rfl⟩ | ⟨_, rfl⟩ | ⟨_, rfl⟩ | ⟨x, _, rfl⟩ |
    ⟨x, _, rfl⟩ | ⟨x, _, rfl⟩ | hq
  · exact .inl hi
  · by_cases hsid : sid = c.sid
    · subst hsid
      have hij : j = i := Option.some.inj ((AList.lookup_insert _).symm.trans hi)
      subst hij
      exact .inr ⟨c, by rw [callStep_allocated hr hp], hc, rfl⟩
    · exact .inl ((AList.lookup_insert_ne hsid).symm.trans hi)
  · exact .inl hi
  · exact .inl hi
  · exact .inl (Keeps.erase _ _ sid i hi)
  · exact .inl hi
  · have hset := Fades.settle (Fades.refl { s.shared with streams := s.shared.streams - 1 }) j x.next
    exact .inl (hset.pending sid i hi)
  · exact .inl (hq.fades.pending sid i hi)

/-- A `REPLY` takes the waiter of its stream. -/
theorem step_reply {f : OutFrame} (hs : step s (.main (.recv f)) = some s') (hf : f.kind = .reply) :
    s'.shared.pending.lookup f.stream = none := by
  obtain ⟨r, hr, rfl⟩ := Option.map_eq_some_iff.1 hs
  obtain ⟨_, rfl⟩ : s.shared.reader = .demuxing ∧ (s.shared.demux f, []) = r := by
    simpa [act] using hr
  unfold demux
  rw [hf]
  dsimp only
  split
  · exact AList.lookup_erase _ _
  · assumption

/-- Without its waiter in the map and with the reader elsewhere, a call does not time out. -/
theorem timeout_none (hlookup : t.pending.lookup c.sid = none) (hholds : t.reader.holds i = false) :
    callStep i t c .timeout = none := by
  unfold callStep
  split <;> simp_all [waiterGone]

end Tunnel

namespace Peers

variable {rt : ServerRuntime} {s s' : Peers} {a : Step}

/-- No waiter is left for an id whose answer was processed. -/
structure Resolved (s : Peers) : Prop where
  refused : s.answers.refused = []
  resolved : ∀ sid ∈ s.answers.processed, s.client.shared.pending.lookup sid = none

theorem Resolved.client_step {x : Tunnel.Action} {c : Tunnel.State} (h : Resolved s)
    (hc : Tunnel.step s.client x = some c) :
    ∀ sid ∈ (s.answers.client s.client x).processed, c.shared.pending.lookup sid = none := by
  intro sid hsid
  rw [Option.eq_none_iff_forall_ne_some]
  intro i hi
  rcases processed_client hsid with hold | ⟨f, rfl, rfl, hreply | ⟨_, hmem⟩⟩
  · rcases Tunnel.step_pending hc hi with hi | ⟨d, rfl, hd, rfl⟩
    · rw [h.resolved sid hold] at hi
      cases hi
    · -- a new waiter takes its id off the list
      simp [Answers.client, hd] at hsid
  · rw [Tunnel.step_reply hc hreply] at hi
    cases hi
  · rw [h.refused] at hmem
    cases hmem

theorem Resolved.step (h : Resolved s) (hok : Accepting rt s a) (hs : step rt s a = some s') :
    Resolved s' := by
  obtain ⟨x, c, up, down, rfl, _, hc, _, _, rfl⟩ | ⟨x, d, up, down, rfl, _, _, _, rfl⟩ | ⟨n, _, rfl⟩ |
    ⟨n, _, rfl⟩ := step_cases hs
  · refine ⟨?_, h.client_step hc⟩
    have hsame : (s.answers.client s.client x).refused = s.answers.refused := by
      unfold Answers.client
      split
      · split <;> rfl
      · split <;> rfl
      · rfl
    exact hsame.trans h.refused
  · refine ⟨refused_server hok h.refused, ?_⟩
    dsimp only
    rw [processed_server]
    exact h.resolved
  · exact ⟨h.refused, h.resolved⟩
  · exact ⟨h.refused, h.resolved⟩

/-- **An answer leaves no waiter**, in every run in which the server accepts every `OPEN`: once the
demux of the client has processed the answer for an id, no waiter for the id is in `pending`, and a
call that waits for it does not run into its timeout. -/
theorem opens_answered (rt : ServerRuntime) (pool : Bool) {s : Peers}
    (h : Reach (step rt) (Accepting rt) (init pool) s) {sid : StreamId}
    (hsid : sid ∈ s.answers.processed) :
    s.client.shared.pending.lookup sid = none ∧
      ∀ (i : ℕ) (c : Tunnel.Call), s.client.tasks[i]? = some c → c.sid = sid →
        s.client.shared.reader.holds i = false →
        Tunnel.callStep i s.client.shared c .timeout = none := by
  have hinv : Resolved s :=
    Reach.invariant ⟨rfl, fun _ hmem => by cases hmem⟩ (fun hinv hok hs => hinv.step hok hs) h
  have hlookup := hinv.resolved sid hsid
  refine ⟨hlookup, ?_⟩
  rintro i c _ rfl hholds
  exact Tunnel.timeout_none hlookup hholds

/-- The address of an `OPEN`. -/
def target : List UInt8 := [1, 10, 0, 0, 1, 1, 187]

/-- The next frame of the client reaches the carrier. -/
def carryUp : List Step := [.client (.main .write), .flushUp 1]

/-- The next frame of the server reaches the carrier. -/
def carryDown : List Step := [.server (.main .write), .flushDown 1]

/-- A call sends its `OPEN`, which arrives at the server. -/
def openUp (i : ℕ) (sid : StreamId) : List Step :=
  [.client (.main (.call target))] ++ (Tunnel.openUp i).map .client ++ carryUp
    ++ [.server (.main (.recv ⟨.open, sid, target⟩))]

/-- A stream task is spawned, connects and replies, and the reply arrives at the client. -/
def acceptStream (i k : ℕ) (sid : StreamId) : List Step :=
  [.server (.main .openInsert), .server (.task k (.connect true)), .server (.task k .send)]
    ++ carryDown ++ (Tunnel.replyTo i sid replyOk).map .client

/-- Two streams, both accepted. -/
theorem opens_answered_two :
    ∃ s, Reach (step (limited 1)) (Accepting (limited 1)) (init true) s ∧
      2 ∈ s.answers.processed ∧
      s.client.shared.pending.lookup 2 = none ∧
      ∀ (i : ℕ) (c : Tunnel.Call), s.client.tasks[i]? = some c → c.sid = 2 →
        s.client.shared.reader.holds i = false →
        Tunnel.callStep i s.client.shared c .timeout = none := by
  obtain ⟨s, he, hmem⟩ : ∃ s, exec (step (limited 1)) (Accepting (limited 1)) (init true)
      (openUp 0 1 ++ acceptStream 0 0 1 ++ openUp 1 2 ++ acceptStream 1 1 2) = some s ∧
      2 ∈ s.answers.processed := ⟨_, rfl, by decide⟩
  have h := Reach.refl.of_exec _ he
  exact ⟨s, h, hmem, opens_answered (limited 1) true h hmem⟩

/-- With a limit of one stream the second `OPEN` is answered with `CLOSE`.  The demux of the client
processes it, and the waiter is still there: the call can only time out. -/
theorem refusal_unanswered :
    ∃ s c, Reach (step { limited 1 with maxStreamsPerConn := some 1 }) always (init true) s ∧
      2 ∈ s.answers.processed ∧ s.client.shared.pending.lookup 2 = some 1 ∧
      s.client.tasks[1]? = some c ∧ c.sid = 2 ∧ s.client.shared.reader.holds 1 = false ∧
      (Tunnel.callStep 1 s.client.shared c .timeout).isSome = true := by
  obtain ⟨s, c, he, hrest⟩ : ∃ s c,
      exec (step { limited 1 with maxStreamsPerConn := some 1 }) always (init true)
        (openUp 0 1 ++ acceptStream 0 0 1 ++ openUp 1 2 ++ [.server (.main .bounce)] ++ carryDown
          ++ [.client (.main (.recv (.bare .close 2)))]) = some s ∧
      2 ∈ s.answers.processed ∧ s.client.shared.pending.lookup 2 = some 1 ∧
      s.client.tasks[1]? = some c ∧ c.sid = 2 ∧ s.client.shared.reader.holds 1 = false ∧
      (Tunnel.callStep 1 s.client.shared c .timeout).isSome = true :=
    ⟨_, _, rfl, by decide, rfl, rfl, rfl, rfl, rfl⟩
  exact ⟨s, c, Reach.refl.of_exec _ he, hrest⟩

end Peers

end Nextppp

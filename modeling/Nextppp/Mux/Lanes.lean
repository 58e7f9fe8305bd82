/-
**The two lanes of a tunnel.**

Seen from its streams, one direction of a tunnel is a lane: the pumps of one end put events on the
path, and the demux of the other end routes them to the pumps there.  `Nextppp/Client/Lane.lean` and
`Nextppp/Server/Lane.lean` say what a step of an end does to the lane it writes and to the lane it
reads, in the terms that this module provides.

Main definitions:

* `Nextppp.Inbox`, `Nextppp.lane` — the receiving end of a lane, and the lane;
* `Nextppp.Emits` — what a step of an end does to the lane it writes.

Main results:

* `Nextppp.Emits.steps` — what an end emits is a run of the lane it writes;
* `Nextppp.runs_pump` — a step of the pumps of a stream is a run of the lane they read.
-/

import Nextppp.Mux.Peers

set_option relaxedAutoImplicit false
set_option autoImplicit false

namespace Nextppp

open Tasks Run Gate

/-- The receiving end of a lane. -/
structure Inbox where
  /-- the stream of a channel -/
  owner : ℕ → Option StreamId
  table : StreamId → Option ℕ
  events : ℕ → Channel StreamEvent
  hand : Lane.Hand StreamId StreamEvent

/-- A lane, from what was queued and is under way to the end that reads it. -/
def lane (queued : StreamId → List StreamEvent) (path : List OutFrame) (whole : Bool) (h : History)
    (b : Inbox) : Lane.State StreamId StreamEvent OutFrame where
  queued := queued
  path := path
  whole := whole
  received := h.received
  owner := b.owner
  table := b.table
  queue := Channel.queue ∘ b.events
  opened := Channel.receiver ∘ b.events
  took := h.took
  hand := b.hand

/-- A run of a lane. -/
abbrev Runs := Relation.ReflTransGen (Lane.Step frameEvent)

variable {q q' : StreamId → List StreamEvent} {p p' : List OutFrame} {w : Bool} {h : History}
  {b : Inbox}

/-! ### The end that writes -/

/-- What a step of an end does to its outbound channel and to the events its pumps queued: it may push
a frame of some kind, or an event of a stream. -/
inductive Emits (frames : OutFrame → Prop) (streams : StreamId → StreamEvent → Prop)
    (out : Channel OutFrame) (q : StreamId → List StreamEvent) :
    Carry → Channel OutFrame → (StreamId → List StreamEvent) → Prop
  | quiet {c : Carry} : c ≠ .write → c ≠ .lose → Emits frames streams out q c out q
  | push (f : OutFrame) : frames f → frameEvent f = none → out.receiver = true →
      Emits frames streams out q .none (out.push f) q
  | send (f : OutFrame) (sid : StreamId) (e : StreamEvent) : streams sid e →
      frameEvent f = some (sid, e) → out.receiver = true →
      Emits frames streams out q .none (out.push f) (Lane.add q sid e)
  | write (f : OutFrame) (rest : List OutFrame) : out.queue = f :: rest →
      Emits frames streams out q .write { out with queue := rest } q
  | lose : Emits frames streams out q .lose out.close q

section Emits

variable {frames : OutFrame → Prop} {streams : StreamId → StreamEvent → Prop}
  {out out' : Channel OutFrame} {c : Carry}

/-- A `try_send` pushes the frame or does nothing. -/
theorem Emits.trySend {f : OutFrame} (hf : frames f) (hev : frameEvent f = none) :
    Emits frames streams out q .none (out.trySend outboundBound f) q := by
  unfold Channel.trySend
  split
  · rename_i haccepts
    exact .push f hf hev (Bool.and_eq_true_iff.1 haccepts).1
  · exact .quiet (by simp) (by simp)

/-- A writer that is over stays so. -/
theorem Emits.receiver (he : Emits frames streams out q c out' q') (h : out'.receiver = true) :
    out.receiver = true := by
  cases he with
  | quiet => exact h
  | push => exact h
  | send => exact h
  | write => exact h
  | lose => cases h

/-- The frames on their way after a step of the end that writes. -/
theorem Emits.path {x x' : Transit} (he : Emits frames streams out q c out' q')
    (hx : x.sent out c = some x') :
    (out'.receiver = out.receiver ∧ q' = q ∧ x'.path out' = x.path out) ∨
      (∃ f, frames f ∧ frameEvent f = none ∧ out.receiver = true ∧ out'.receiver = true ∧ q' = q ∧
        x'.path out' = x.path out ++ [f]) ∨
      (∃ f sid e, streams sid e ∧ frameEvent f = some (sid, e) ∧ out.receiver = true ∧
        out'.receiver = true ∧ q' = Lane.add q sid e ∧ x'.path out' = x.path out ++ [f]) ∨
      (out'.receiver = false ∧ q' = q ∧ x'.path out' <+: x.path out) := by
  cases he with
  | quiet hw hl =>
      have hsame : x' = x := by
        cases c with
        | none => exact (Option.some.inj hx).symm
        | read f => exact (Option.some.inj hx).symm
        | write => exact absurd rfl hw
        | lose => exact absurd rfl hl
      subst hsame
      exact .inl ⟨rfl, rfl, rfl⟩
  | push f hf hev hrecv =>
      obtain rfl := Option.some.inj hx
      exact .inr (.inl ⟨f, hf, hev, hrecv, hrecv, rfl, (List.append_assoc _ _ _).symm⟩)
  | send f sid e hs hev hrecv =>
      obtain rfl := Option.some.inj hx
      exact .inr (.inr (.inl ⟨f, sid, e, hs, hev, hrecv, hrecv, rfl, (List.append_assoc _ _ _).symm⟩))
  | write f rest hq =>
      obtain ⟨_, rfl⟩ := Option.ite_none_right_eq_some.1 hx |>.imp_right Option.some.inj
      refine .inl ⟨rfl, rfl, ?_⟩
      simp [Transit.path, hq]
  | lose =>
      obtain rfl := Option.some.inj hx
      refine .inr (.inr (.inr ⟨rfl, rfl, ?_⟩))
      simp [Transit.path, Channel.close, List.append_assoc]

/-- **What an end emits is a run of the lane it writes.** -/
theorem Emits.steps {x x' : Transit} (he : Emits frames streams out q c out' q')
    (hx : x.sent out c = some x') :
    Runs (lane q (x.path out) out.receiver h b) (lane q' (x'.path out') out'.receiver h b) := by
  rcases he.path hx with ⟨hrecv, rfl, hpath⟩ | ⟨f, _, hev, hrecv, hrecv', rfl, hpath⟩ |
    ⟨f, sid, e, _, hev, hrecv, hrecv', rfl, hpath⟩ | ⟨hrecv', rfl, hpath⟩
  · rw [hrecv, hpath]
  · rw [hrecv, hrecv', hpath]
    exact .single (.push _ f hev)
  · rw [hrecv, hrecv', hpath]
    exact .single (.send _ f sid e hev rfl)
  · rw [hrecv']
    exact .single (.cut _ _ hpath)

end Emits

/-! ### The end that reads -/

/-- The frame a step reads. -/
def Carry.frames : Carry → List OutFrame
  | .read f => [f]
  | _ => []

/-- What a step reads was the first frame under way. -/
theorem Transit.got_path {x x' : Transit} {c : Carry} (hx : x.got c = some x')
    (out : Channel OutFrame) : x.path out = c.frames ++ x'.path out := by
  unfold Transit.got at hx
  split at hx
  · obtain ⟨hhead, hx⟩ := Option.ite_none_right_eq_some.1 hx
    obtain rfl := Option.some.inj hx
    simp [Transit.path, Carry.frames, ← List.cons_append, List.cons_head?_tail hhead]
  · obtain rfl := Option.some.inj hx
    rename_i hne
    cases c with
    | read f => exact absurd rfl (hne f)
    | _ => rfl

theorem runs_same {b' : Inbox} (hb : b' = b) : Runs (lane q p w h b) (lane q p w h b') := by
  rw [hb]

theorem runs_pop {f : OutFrame} (hf : frameEvent f = none) :
    Runs (lane q (f :: p) w h b) (lane q p w (h.recv f) b) := by
  have hrecv : h.recv f = h := by simp [History.recv, hf]
  rw [hrecv]
  exact .single (.pop _ f p rfl hf)

theorem runs_route {f : OutFrame} {sid : StreamId} {e : StreamEvent} {k : ℕ}
    (hf : frameEvent f = some (sid, e)) (hb : b.hand = .idle) (hk : b.table sid = some k) :
    Runs (lane q (f :: p) w h b) (lane q p w (h.recv f) { b with hand := .routing k sid e }) := by
  have hrecv : h.recv f = { h with received := Lane.add h.received sid e } := by
    simp [History.recv, hf]
  rw [hrecv]
  exact .single (.route _ f p sid e k rfl hf hb hk)

theorem runs_bounce {f : OutFrame} {sid : StreamId} {e : StreamEvent}
    (hf : frameEvent f = some (sid, e)) (hb : b.hand = .idle) (hk : b.table sid = none) :
    Runs (lane q (f :: p) w h b) (lane q p w (h.recv f) b) := by
  have hrecv : h.recv f = { h with received := Lane.add h.received sid e } := by
    simp [History.recv, hf]
  rw [hrecv]
  exact .single (.bounce _ f p sid e rfl hf hb hk)

theorem runs_fail {k : ℕ} {sid : StreamId} {e : StreamEvent} (hb : b.hand = .routing k sid e) :
    Runs (lane q p w h b) (lane q p w h { b with hand := .failed sid }) :=
  .single (.fail _ k sid e hb)

theorem runs_unroute {sid : StreamId} (hb : b.hand = .failed sid) :
    Runs (lane q p w h b)
      (lane q p w h { b with table := Function.update b.table sid none, hand := .idle }) :=
  .single (.unroute _ sid hb)

theorem runs_stop : Runs (lane q p w h b) (lane q p w h { b with hand := .gone }) :=
  .single (.stop _)

theorem runs_forget {t : StreamId → Option ℕ} (ht : ∀ sid k, t sid = some k → b.table sid = some k) :
    Runs (lane q p w h b) (lane q p w h { b with table := t }) :=
  .single (.forget _ t ht)

theorem runs_assign {k : ℕ} {sid : StreamId} (hk : b.owner k = none)
    (hsid : ∀ k', b.owner k' ≠ some sid) :
    Runs (lane q p w h b)
      (lane q p w h { b with owner := Function.update b.owner k (some sid) }) :=
  .single (.assign _ k sid hk hsid)

theorem runs_list {k : ℕ} {sid : StreamId} (hk : b.owner k = some sid) (hsid : h.received sid = []) :
    Runs (lane q p w h b)
      (lane q p w h { b with table := Function.update b.table sid (some k) }) :=
  .single (.list _ sid k hk hsid)

theorem runs_deliver {k : ℕ} {sid : StreamId} {e : StreamEvent} (hb : b.hand = .routing k sid e)
    (hk : (b.events k).receiver = true) :
    Runs (lane q p w h b) (lane q p w h { b with
      events := Function.update b.events k ((b.events k).push e)
      hand := .idle }) := by
  have hstep : Lane.Step frameEvent (lane q p w h b) _ := .deliver _ k sid e hb hk
  have hopened : Function.update (Channel.receiver ∘ b.events) k true = Channel.receiver ∘ b.events := by
    rw [Function.update_eq_self_iff]
    exact hk.symm
  refine .single ?_
  convert hstep using 1
  simp only [lane, Function.comp_update, Channel.push, hk, hopened, Lane.add, Function.comp_apply]

theorem runs_shut (k : ℕ) :
    Runs (lane q p w h b)
      (lane q p w h { b with events := Function.update b.events k (b.events k).close }) := by
  have hstep : Lane.Step frameEvent (lane q p w h b) _ := .shut _ k
  refine .single ?_
  convert hstep using 1
  simp only [lane, Function.comp_update, Channel.close]

theorem runs_take {k : ℕ} {e : StreamEvent} {rest : List StreamEvent}
    (hk : (b.events k).queue = e :: rest) :
    Runs (lane q p w h b) (lane q p w { h with took := Lane.add h.took k e }
      { b with events := Function.update b.events k { b.events k with queue := rest } }) := by
  have hstep : Lane.Step frameEvent (lane q p w h b) _ := .take _ k e rest hk
  have hopened : Function.update (Channel.receiver ∘ b.events) k (b.events k).receiver
      = Channel.receiver ∘ b.events := Function.update_eq_self k _
  refine .single ?_
  convert hstep using 1
  simp only [lane, Function.comp_update, hopened]

/-- The pumps of a stream. -/
theorem runs_pump {k : ℕ} {sid : StreamId} {up : Bool} {out : Channel OutFrame} {e : PumpStep}
    {r : Pump} (hr : pumpStream sid ⟨up, out, b.events k⟩ e = some r) :
    Runs (lane q p w h b) (lane q p w (h.pump k sid (b.events k) e)
      { b with events := Function.update b.events k r.events }) := by
  have hsame : Function.update b.events k (b.events k) = b.events := Function.update_eq_self k _
  cases e with
  | data payload =>
      obtain ⟨_, ⟨⟩⟩ := Option.ite_none_right_eq_some.1 hr
      simp only [hsame]
      exact .refl
  | eof =>
      obtain ⟨_, ⟨⟩⟩ := Option.ite_none_right_eq_some.1 hr
      simp only [hsame]
      exact .refl
  | close towards =>
      cases towards with
      | true =>
          obtain ⟨_, ⟨⟩⟩ := Option.ite_none_right_eq_some.1 hr
          simp only [hsame]
          exact .refl
      | false =>
          obtain rfl := Option.some.inj hr
          exact runs_shut k
  | upEnds =>
      obtain rfl := Option.some.inj hr
      simp only [hsame]
      exact .refl
  | downEnds =>
      obtain rfl := Option.some.inj hr
      exact runs_shut k
  | recv =>
      cases hq : (b.events k).queue with
      | nil => simp [pumpStream, hq] at hr
      | cons e rest =>
          have htake := runs_take (q := q) (p := p) (w := w) (h := h) hq
          simp only [History.pump, hq]
          cases e with
          | data payload =>
              obtain rfl : _ = r := by simpa [pumpStream, hq] using hr
              exact htake
          | eof =>
              obtain rfl : _ = r := by simpa [pumpStream, hq] using hr
              refine htake.trans ?_
              convert runs_shut k using 2
              simp [Channel.close]
          | close =>
              obtain rfl : _ = r := by simpa [pumpStream, hq] using hr
              refine htake.trans ?_
              convert runs_shut k using 2
              simp [Channel.close]

theorem lookup_erase_eq (m : Table) (sid : StreamId) :
    (fun i => (m.erase sid).lookup i) = Function.update (fun i => m.lookup i) sid none := by
  funext i
  by_cases hi : i = sid
  · subst hi
    rw [Function.update_self, AList.lookup_erase]
  · rw [Function.update_of_ne hi, AList.lookup_erase_ne hi]

theorem lookup_insert_eq (m : Table) (sid : StreamId) (k : ℕ) :
    (fun i => (m.insert sid k).lookup i) = Function.update (fun i => m.lookup i) sid (some k) := by
  funext i
  by_cases hi : i = sid
  · subst hi
    rw [Function.update_self, AList.lookup_insert]
  · rw [Function.update_of_ne hi, AList.lookup_insert_ne hi]

/-- The streams of some tasks, after one of them moved on. -/
theorem owner_set {τ : Type*} {l : List τ} {i : ℕ} {c : τ} (own : τ → Option StreamId) (c' : τ)
    (hc : l[i]? = some c) :
    (fun k => (l.set i c')[k]?.bind own) = Function.update (fun k => l[k]?.bind own) i (own c') := by
  funext k
  by_cases hk : k = i
  · subst hk
    have hlt := (List.getElem?_eq_some_iff.1 hc).1
    rw [Function.update_self, List.getElem?_set_self hlt]
    rfl
  · rw [Function.update_of_ne hk, List.getElem?_set_ne (Ne.symm hk)]

theorem owner_set_same {τ : Type*} {l : List τ} {i : ℕ} {c : τ} (own : τ → Option StreamId) {c' : τ}
    (hc : l[i]? = some c) (hown : own c' = own c) :
    (fun k : ℕ => (l.set i c')[k]?.bind own) = fun k : ℕ => l[k]?.bind own := by
  rw [owner_set own c' hc, Function.update_eq_self_iff]
  simp [hc, hown]

/-- The demux reads a frame: nothing is queued. -/
@[simp] theorem History.recv_queued (h : History) (f : OutFrame) : (h.recv f).queued = h.queued := by
  unfold History.recv
  split <;> rfl

/-- What the pumps of a stream push and queue. -/
theorem Emits.pump {frames : OutFrame → Prop} {streams : StreamId → StreamEvent → Prop} {sid : StreamId}
    {k : ℕ} {up : Bool} {out : Channel OutFrame} {ch : Channel StreamEvent} {e : PumpStep} {r : Pump}
    (hr : pumpStream sid ⟨up, out, ch⟩ e = some r) (hclose : frames (.bare .close sid))
    (hstream : ∀ ev, streams sid ev) :
    Emits frames streams out h.queued .none r.out (h.pump k sid ch e).queued := by
  cases e with
  | data payload =>
      obtain ⟨⟨_, haccepts⟩, ⟨⟩⟩ := Option.ite_none_right_eq_some.1 hr
      exact .send _ sid _ (hstream _) rfl (Bool.and_eq_true_iff.1 haccepts).1
  | eof =>
      obtain ⟨⟨_, haccepts⟩, ⟨⟩⟩ := Option.ite_none_right_eq_some.1 hr
      exact .send _ sid _ (hstream _) rfl (Bool.and_eq_true_iff.1 haccepts).1
  | close towards =>
      cases towards with
      | true =>
          obtain ⟨_, ⟨⟩⟩ := Option.ite_none_right_eq_some.1 hr
          exact .trySend hclose rfl
      | false =>
          obtain rfl := Option.some.inj hr
          exact .trySend hclose rfl
  | upEnds =>
      obtain rfl := Option.some.inj hr
      exact .quiet (by simp) (by simp)
  | downEnds =>
      obtain rfl := Option.some.inj hr
      exact .quiet (by simp) (by simp)
  | recv =>
      have hqueued : (h.pump k sid ch .recv).queued = h.queued := by
        unfold History.pump
        dsimp only
        split <;> rfl
      have hout : r.out = out := by
        simp only [pumpStream] at hr
        split at hr
        · obtain rfl := Option.some.inj hr
          rfl
        · obtain rfl := Option.some.inj hr
          rfl
        · cases hr
      rw [hqueued, hout]
      exact .quiet (by simp) (by simp)

end Nextppp

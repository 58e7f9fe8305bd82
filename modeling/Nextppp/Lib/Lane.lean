/-
**A lane of a multiplexed carrier.**

Senders put events under the ids of streams on one path.  At its end a demux takes the frames in
order, looks up the channel of a stream in a table and hands the event over; a consumer takes the
events of its channel.  Entries of the table come and go, a channel may be shut, the demux may give up
on a channel that takes no event, and the far end of the path may be lost.

The lane is a transition system of its own: what the ends of a carrier do is described by its steps.

Main definitions:

* `Lane.State` — the path, the table, the channels and what was queued, received and taken so far;
* `Lane.Step` — what can happen on a lane;
* `Lane.Ok` — the invariant;
* `Lane.Sealed` — senders that stop behind a mark.

Main results:

* `Lane.Ok.step`, `Lane.Ok.steps` — the steps keep the invariant;
* `Lane.Ok.took_queued` — a consumer takes a first part of what was queued for its stream;
* `Lane.Ok.caught_up` — with nothing under way, a channel that is in the table got all of it;
* `Lane.StopLast.eq_of_isPrefix` — a consumer that took the mark took everything.
-/

import Mathlib

set_option relaxedAutoImplicit false
set_option autoImplicit false

namespace Lane

variable {ι ε φ : Type*}

/-- What the demux does with the event it took last. -/
inductive Hand (ι ε : Type*)
  | idle
  /-- waits until the channel takes the event -/
  | routing (k : ℕ) (i : ι) (e : ε)
  /-- has given up on the event -/
  | failed (i : ι)
  /-- takes no more frames -/
  | gone

/-- An event of the stream may be missing in its channel. -/
def Hand.Busy (i : ι) : Hand ι ε → Prop
  | .idle => False
  | .routing _ j _ => j = i
  | .failed j => j = i
  | .gone => True

/-- A lane. -/
structure State (ι ε φ : Type*) where
  /-- the events queued for a stream so far -/
  queued : ι → List ε
  path : List φ
  /-- no frame was lost -/
  whole : Bool
  /-- the events the demux took for a stream so far -/
  received : ι → List ε
  /-- the stream of a channel -/
  owner : ℕ → Option ι
  /-- the channel that takes the events of a stream -/
  table : ι → Option ℕ
  queue : ℕ → List ε
  opened : ℕ → Bool
  /-- the events the consumer took so far -/
  took : ℕ → List ε
  hand : Hand ι ε

variable [DecidableEq ι]

/-- Add an event to the history of a stream or a channel. -/
def add {κ : Type*} [DecidableEq κ] (h : κ → List ε) (k : κ) (e : ε) : κ → List ε :=
  Function.update h k (h k ++ [e])

section add

variable {κ : Type*} [DecidableEq κ] (h : κ → List ε) (k : κ) (e : ε)

@[simp] theorem add_self : add h k e k = h k ++ [e] := Function.update_self ..

theorem add_of_ne {j : κ} (hne : j ≠ k) : add h k e j = h j := Function.update_of_ne hne ..

end add

/-- A value of an updated function is the new one or was there before. -/
theorem update_cases {κ β : Type*} [DecidableEq κ] {f : κ → β} {a x : κ} {b c : β}
    (h : Function.update f a b x = c) : (x = a ∧ b = c) ∨ (x ≠ a ∧ f x = c) := by
  by_cases hx : x = a
  · subst hx
    rw [Function.update_self] at h
    exact .inl ⟨rfl, h⟩
  · rw [Function.update_of_ne hx] at h
    exact .inr ⟨hx, h⟩

section

variable (event : φ → Option (ι × ε))

/-- The events of a stream among some frames. -/
def eventsOf (i : ι) (fs : List φ) : List ε :=
  fs.filterMap fun f => (event f).bind fun p => if p.1 = i then some p.2 else none

/-- What can happen on a lane. -/
inductive Step : State ι ε φ → State ι ε φ → Prop
  | push (l : State ι ε φ) (f : φ) : event f = none → Step l { l with path := l.path ++ [f] }
  | send (l : State ι ε φ) (f : φ) (i : ι) (e : ε) : event f = some (i, e) → l.whole = true →
      Step l { l with path := l.path ++ [f], queued := add l.queued i e }
  /-- the far end of the path is lost -/
  | cut (l : State ι ε φ) (p : List φ) : p <+: l.path → Step l { l with path := p, whole := false }
  | pop (l : State ι ε φ) (f : φ) (rest : List φ) : l.path = f :: rest → event f = none →
      Step l { l with path := rest }
  | route (l : State ι ε φ) (f : φ) (rest : List φ) (i : ι) (e : ε) (k : ℕ) :
      l.path = f :: rest → event f = some (i, e) → l.hand = .idle → l.table i = some k →
      Step l { l with path := rest, received := add l.received i e, hand := .routing k i e }
  | bounce (l : State ι ε φ) (f : φ) (rest : List φ) (i : ι) (e : ε) :
      l.path = f :: rest → event f = some (i, e) → l.hand = .idle → l.table i = none →
      Step l { l with path := rest, received := add l.received i e }
  | deliver (l : State ι ε φ) (k : ℕ) (i : ι) (e : ε) : l.hand = .routing k i e →
      l.opened k = true → Step l { l with queue := add l.queue k e, hand := .idle }
  | fail (l : State ι ε φ) (k : ℕ) (i : ι) (e : ε) : l.hand = .routing k i e →
      Step l { l with hand := .failed i }
  | unroute (l : State ι ε φ) (i : ι) : l.hand = .failed i →
      Step l { l with table := Function.update l.table i none, hand := .idle }
  | stop (l : State ι ε φ) : Step l { l with hand := .gone }
  | forget (l : State ι ε φ) (t : ι → Option ℕ) : (∀ i k, t i = some k → l.table i = some k) →
      Step l { l with table := t }
  | assign (l : State ι ε φ) (k : ℕ) (i : ι) : l.owner k = none → (∀ k', l.owner k' ≠ some i) →
      Step l { l with owner := Function.update l.owner k (some i) }
  | list (l : State ι ε φ) (i : ι) (k : ℕ) : l.owner k = some i → l.received i = [] →
      Step l { l with table := Function.update l.table i (some k) }
  | take (l : State ι ε φ) (k : ℕ) (e : ε) (q : List ε) : l.queue k = e :: q →
      Step l { l with queue := Function.update l.queue k q, took := add l.took k e }
  | shut (l : State ι ε φ) (k : ℕ) :
      Step l { l with
        queue := Function.update l.queue k []
        opened := Function.update l.opened k false }

/-- **The invariant of a lane.**  What a stream gets is a first part of what was queued for it, and as
long as its channel is open and in the table nothing is missing in between. -/
structure Ok (l : State ι ε φ) : Prop where
  flow : ∀ i, l.received i ++ eventsOf event i l.path <+: l.queued i
  whole : l.whole = true → ∀ i, l.received i ++ eventsOf event i l.path = l.queued i
  inj : ∀ {k k' : ℕ} {i : ι}, l.owner k = some i → l.owner k' = some i → k = k'
  blank : ∀ {k : ℕ}, l.owner k = none → l.took k = [] ∧ l.queue k = []
  kept : ∀ {k : ℕ} {i : ι}, l.owner k = some i → l.took k ++ l.queue k <+: l.received i
  shut : ∀ {k : ℕ}, l.opened k = false → l.queue k = []
  listed : ∀ {i : ι} {k : ℕ}, l.table i = some k → l.owner k = some i
  exact : ∀ {i : ι} {k : ℕ}, l.table i = some k → l.opened k = true → ¬ l.hand.Busy i →
    l.took k ++ l.queue k = l.received i
  routing : ∀ {k : ℕ} {i : ι} {e : ε}, l.hand = .routing k i e →
    l.owner k = some i ∧ (l.opened k = true → l.took k ++ l.queue k ++ [e] = l.received i)

variable {event} {l l' : State ι ε φ}

/-! ### The events on the path -/

theorem eventsOf_append (i : ι) (fs gs : List φ) :
    eventsOf event i (fs ++ gs) = eventsOf event i fs ++ eventsOf event i gs :=
  List.filterMap_append

theorem eventsOf_none {f : φ} (h : event f = none) (i : ι) : eventsOf event i [f] = [] := by
  simp [eventsOf, h]

theorem eventsOf_self {f : φ} {i : ι} {e : ε} (h : event f = some (i, e)) :
    eventsOf event i [f] = [e] := by
  simp [eventsOf, h]

theorem eventsOf_other {f : φ} {i j : ι} {e : ε} (h : event f = some (i, e)) (hne : i ≠ j) :
    eventsOf event j [f] = [] := by
  simp [eventsOf, h, hne]

theorem eventsOf_cons (i : ι) (f : φ) (fs : List φ) :
    eventsOf event i (f :: fs) = eventsOf event i [f] ++ eventsOf event i fs := by
  rw [← eventsOf_append, List.singleton_append]

theorem eventsOf_isPrefix {p q : List φ} (h : p <+: q) (i : ι) :
    eventsOf event i p <+: eventsOf event i q := by
  obtain ⟨r, rfl⟩ := h
  rw [eventsOf_append]
  exact List.prefix_append _ _

/-- Receiving the first event of the path moves it from the path to what was received. -/
theorem received_path {f : φ} {i : ι} {e : ε} (h : event f = some (i, e)) (r : ι → List ε)
    (rest : List φ) (j : ι) :
    add r i e j ++ eventsOf event j rest = r j ++ eventsOf event j (f :: rest) := by
  rw [eventsOf_cons]
  by_cases hj : j = i
  · subst hj
    rw [eventsOf_self h, add_self, List.append_assoc]
  · rw [eventsOf_other h (Ne.symm hj), add_of_ne _ _ _ hj, List.nil_append]

/-! ### The steps keep the invariant -/

/-- A new frame without an event. -/
theorem Ok.push (h : Ok event l) {f : φ} (hf : event f = none) :
    Ok event { l with path := l.path ++ [f] } := by
  have hpath : ∀ i, eventsOf event i (l.path ++ [f]) = eventsOf event i l.path := by
    intro i
    rw [eventsOf_append, eventsOf_none hf, List.append_nil]
  refine { h with flow := ?_, whole := ?_ }
  · intro i
    dsimp only
    rw [hpath]
    exact h.flow i
  · intro hw i
    dsimp only
    rw [hpath]
    exact h.whole hw i

/-- A new event. -/
theorem Ok.send (h : Ok event l) {f : φ} {i : ι} {e : ε} (hf : event f = some (i, e))
    (hwhole : l.whole = true) :
    Ok event { l with path := l.path ++ [f], queued := add l.queued i e } := by
  have heq : ∀ j, l.received j ++ eventsOf event j (l.path ++ [f]) = add l.queued i e j := by
    intro j
    rw [eventsOf_append, ← List.append_assoc, h.whole hwhole j]
    by_cases hj : j = i
    · subst hj
      rw [eventsOf_self hf, add_self]
    · rw [eventsOf_other hf (Ne.symm hj), add_of_ne _ _ _ hj, List.append_nil]
  refine { h with flow := ?_, whole := fun _ j => heq j }
  intro j
  dsimp only
  rw [← heq j]

theorem Ok.cut (h : Ok event l) {p : List φ} (hp : p <+: l.path) :
    Ok event { l with path := p, whole := false } := by
  refine { h with flow := ?_, whole := fun hw => by cases hw }
  intro i
  have hpre : l.received i ++ eventsOf event i p <+: l.received i ++ eventsOf event i l.path :=
    (List.prefix_append_right_inj _).2 (eventsOf_isPrefix hp i)
  exact hpre.trans (h.flow i)

theorem Ok.pop (h : Ok event l) {f : φ} {rest : List φ} (hpath : l.path = f :: rest)
    (hf : event f = none) : Ok event { l with path := rest } := by
  have hrest : ∀ i, eventsOf event i rest = eventsOf event i l.path := by
    intro i
    rw [hpath, eventsOf_cons, eventsOf_none hf, List.nil_append]
  refine { h with flow := ?_, whole := ?_ }
  · intro i
    dsimp only
    rw [hrest]
    exact h.flow i
  · intro hw i
    dsimp only
    rw [hrest]
    exact h.whole hw i

/-- The demux takes an event off the path, whatever it does with it. -/
theorem Ok.receive (h : Ok event l) {f : φ} {rest : List φ} {i : ι} {e : ε} {d : Hand ι ε}
    (hpath : l.path = f :: rest) (hf : event f = some (i, e))
    (hexact : ∀ {j k}, l.table j = some k → l.opened k = true → ¬ d.Busy j →
      l.took k ++ l.queue k = add l.received i e j)
    (hrouting : ∀ {k j e'}, d = .routing k j e' → l.owner k = some j ∧
      (l.opened k = true → l.took k ++ l.queue k ++ [e'] = add l.received i e j)) :
    Ok event { l with path := rest, received := add l.received i e, hand := d } := by
  have heq : ∀ j, add l.received i e j ++ eventsOf event j rest
      = l.received j ++ eventsOf event j l.path := by
    intro j
    rw [hpath, received_path hf]
  have hgrow : ∀ j, l.received j <+: add l.received i e j := by
    intro j
    by_cases hj : j = i
    · subst hj
      rw [add_self]
      exact List.prefix_append _ _
    · rw [add_of_ne _ _ _ hj]
  refine { h with
    flow := ?_, whole := ?_, kept := ?_, exact := hexact, routing := hrouting }
  · intro j
    dsimp only
    rw [heq]
    exact h.flow j
  · intro hw j
    dsimp only
    rw [heq]
    exact h.whole hw j
  · intro k j hk
    exact (h.kept hk).trans (hgrow j)

theorem Ok.route (h : Ok event l) {f : φ} {rest : List φ} {i : ι} {e : ε} {k : ℕ}
    (hpath : l.path = f :: rest) (hf : event f = some (i, e)) (hidle : l.hand = .idle)
    (hk : l.table i = some k) :
    Ok event { l with path := rest, received := add l.received i e, hand := .routing k i e } := by
  have hfree : ∀ j, ¬ l.hand.Busy j := by
    intro j
    rw [hidle]
    exact id
  refine h.receive hpath hf ?_ ?_
  · intro j k' hj hopen hbusy
    have hne : j ≠ i := fun heq => hbusy heq.symm
    rw [add_of_ne _ _ _ hne]
    exact h.exact hj hopen (hfree j)
  · intro k' j e' heq
    cases heq
    refine ⟨h.listed hk, ?_⟩
    intro hopen
    rw [h.exact hk hopen (hfree i), add_self]

theorem Ok.bounce (h : Ok event l) {f : φ} {rest : List φ} {i : ι} {e : ε}
    (hpath : l.path = f :: rest) (hf : event f = some (i, e)) (hidle : l.hand = .idle)
    (hk : l.table i = none) :
    Ok event { l with path := rest, received := add l.received i e } := by
  refine h.receive hpath hf ?_ ?_
  · intro j k' hj hopen hbusy
    have hne : j ≠ i := by
      rintro rfl
      rw [hk] at hj
      cases hj
    rw [add_of_ne _ _ _ hne]
    exact h.exact hj hopen hbusy
  · intro k' j e' heq
    rw [hidle] at heq
    cases heq

theorem Ok.deliver (h : Ok event l) {k : ℕ} {i : ι} {e : ε} (hhand : l.hand = .routing k i e)
    (hopen : l.opened k = true) : Ok event { l with queue := add l.queue k e, hand := .idle } := by
  obtain ⟨howner, hin⟩ := h.routing hhand
  have heq : l.took k ++ add l.queue k e k = l.received i := by
    rw [add_self, ← List.append_assoc]
    exact hin hopen
  refine { h with blank := ?_, kept := ?_, shut := ?_, exact := ?_, routing := fun hr => by cases hr }
  · intro k' hk'
    have hne : k' ≠ k := by
      rintro rfl
      rw [howner] at hk'
      cases hk'
    dsimp only
    rw [add_of_ne _ _ _ hne]
    exact h.blank hk'
  · intro k' j hk'
    dsimp only
    by_cases hne : k' = k
    · subst hne
      obtain rfl : i = j := Option.some.inj (howner.symm.trans hk')
      rw [heq]
    · rw [add_of_ne _ _ _ hne]
      exact h.kept hk'
  · intro k' hk'
    have hne : k' ≠ k := by
      rintro rfl
      exact Bool.noConfusion (hk'.symm.trans hopen)
    dsimp only
    rw [add_of_ne _ _ _ hne]
    exact h.shut hk'
  · intro j k' hj hopen' _
    dsimp only
    by_cases hne : k' = k
    · subst hne
      obtain rfl : i = j := Option.some.inj (howner.symm.trans (h.listed hj))
      exact heq
    · -- another channel is in the table under another id
      have hij : i ≠ j := by
        rintro rfl
        exact hne (h.inj (h.listed hj) howner)
      rw [add_of_ne _ _ _ hne]
      refine h.exact hj hopen' ?_
      rw [hhand]
      exact hij

theorem Ok.fail (h : Ok event l) {k : ℕ} {i : ι} {e : ε} (hhand : l.hand = .routing k i e) :
    Ok event { l with hand := .failed i } := by
  refine { h with exact := ?_, routing := fun hr => by cases hr }
  intro j k' hj hopen hbusy
  refine h.exact hj hopen ?_
  rw [hhand]
  exact hbusy

/-- Entries of the table go. -/
theorem Ok.forget (h : Ok event l) {t : ι → Option ℕ}
    (ht : ∀ i k, t i = some k → l.table i = some k) : Ok event { l with table := t } := by
  refine { h with listed := ?_, exact := ?_ }
  · intro i k hi
    exact h.listed (ht i k hi)
  · intro i k hi
    exact h.exact (ht i k hi)

theorem Ok.unroute (h : Ok event l) {i : ι} (hhand : l.hand = .failed i) :
    Ok event { l with table := Function.update l.table i none, hand := .idle } := by
  have hsub : ∀ j k, Function.update l.table i none j = some k → j ≠ i ∧ l.table j = some k := by
    intro j k hj
    rcases update_cases hj with ⟨_, hnone⟩ | hold
    · cases hnone
    · exact hold
  refine { h.forget fun j k hj => (hsub j k hj).2 with
    exact := ?_
    routing := fun hr => by cases hr }
  intro j k hj hopen _
  obtain ⟨hne, hj⟩ := hsub j k hj
  refine h.exact hj hopen ?_
  rw [hhand]
  exact hne.symm

theorem Ok.stop (h : Ok event l) : Ok event { l with hand := .gone } :=
  { h with
    exact := fun _ _ hbusy => absurd trivial hbusy
    routing := fun hr => by cases hr }

/-- A channel is made for a stream that has none. -/
theorem Ok.assign (h : Ok event l) {k : ℕ} {i : ι} (hk : l.owner k = none)
    (hi : ∀ k', l.owner k' ≠ some i) :
    Ok event { l with owner := Function.update l.owner k (some i) } := by
  obtain ⟨htook, hqueue⟩ := h.blank hk
  have hold : ∀ {k' j}, l.owner k' = some j → Function.update l.owner k (some i) k' = some j := by
    intro k' j hj
    have hne : k' ≠ k := by
      rintro rfl
      rw [hk] at hj
      cases hj
    rw [Function.update_of_ne hne]
    exact hj
  refine { h with inj := ?_, blank := ?_, kept := ?_, listed := ?_, routing := ?_ }
  · intro k₁ k₂ j h₁ h₂
    rcases update_cases h₁ with ⟨rfl, ⟨⟩⟩ | ⟨_, g₁⟩
    · rcases update_cases h₂ with ⟨rfl, _⟩ | ⟨_, g₂⟩
      · rfl
      · exact absurd g₂ (hi k₂)
    · rcases update_cases h₂ with ⟨rfl, ⟨⟩⟩ | ⟨_, g₂⟩
      · exact absurd g₁ (hi k₁)
      · exact h.inj g₁ g₂
  · intro k' hk'
    rcases update_cases hk' with ⟨_, hsome⟩ | ⟨_, hk'⟩
    · cases hsome
    · exact h.blank hk'
  · intro k' j hk'
    rcases update_cases hk' with ⟨rfl, _⟩ | ⟨_, hk'⟩
    · dsimp only
      rw [htook, hqueue]
      exact List.nil_prefix
    · exact h.kept hk'
  · intro j k' hj
    exact hold (h.listed hj)
  · intro k' j e hr
    obtain ⟨howner, hin⟩ := h.routing hr
    exact ⟨hold howner, hin⟩

/-- The channel of a stream for which nothing was received enters the table. -/
theorem Ok.list (h : Ok event l) {i : ι} {k : ℕ} (hk : l.owner k = some i)
    (hi : l.received i = []) : Ok event { l with table := Function.update l.table i (some k) } := by
  have hempty : l.took k ++ l.queue k = l.received i := by
    have hpre := h.kept hk
    rw [hi] at hpre
    rw [List.prefix_nil.1 hpre, hi]
  refine { h with listed := ?_, exact := ?_ }
  · intro j k' hj
    rcases update_cases hj with ⟨rfl, ⟨⟩⟩ | ⟨_, hj⟩
    · exact hk
    · exact h.listed hj
  · intro j k' hj hopen hbusy
    rcases update_cases hj with ⟨rfl, ⟨⟩⟩ | ⟨_, hj⟩
    · exact hempty
    · exact h.exact hj hopen hbusy

/-- The consumer of a channel takes an event. -/
theorem Ok.take (h : Ok event l) {k : ℕ} {e : ε} {q : List ε} (hk : l.queue k = e :: q) :
    Ok event { l with queue := Function.update l.queue k q, took := add l.took k e } := by
  have hsame : ∀ k', add l.took k e k' ++ Function.update l.queue k q k'
      = l.took k' ++ l.queue k' := by
    intro k'
    by_cases hne : k' = k
    · subst hne
      rw [add_self, Function.update_self, hk, List.append_assoc, List.singleton_append]
    · rw [add_of_ne _ _ _ hne, Function.update_of_ne hne]
  refine { h with blank := ?_, kept := ?_, shut := ?_, exact := ?_, routing := ?_ }
  · intro k' hk'
    obtain ⟨htook, hqueue⟩ := h.blank hk'
    have hboth := hsame k'
    rw [htook, hqueue, List.append_nil] at hboth
    exact List.append_eq_nil_iff.1 hboth
  · intro k' i hk'
    dsimp only
    rw [hsame]
    exact h.kept hk'
  · intro k' hk'
    have hqueue := h.shut hk'
    have hne : k' ≠ k := by
      rintro rfl
      rw [hk] at hqueue
      cases hqueue
    dsimp only
    rw [Function.update_of_ne hne]
    exact hqueue
  · intro i k' hi hopen hbusy
    dsimp only
    rw [hsame]
    exact h.exact hi hopen hbusy
  · intro k' i e' hr
    dsimp only
    rw [hsame]
    exact h.routing hr

/-- A channel is shut, with what is queued on it. -/
theorem Ok.close (h : Ok event l) (k : ℕ) :
    Ok event { l with
      queue := Function.update l.queue k []
      opened := Function.update l.opened k false } := by
  have hopened : ∀ {k'}, Function.update l.opened k false k' = true → k' ≠ k ∧ l.opened k' = true := by
    intro k' hk'
    rcases update_cases hk' with ⟨_, hfalse⟩ | hold
    · cases hfalse
    · exact hold
  refine { h with blank := ?_, kept := ?_, shut := ?_, exact := ?_, routing := ?_ }
  · intro k' hk'
    obtain ⟨htook, hqueue⟩ := h.blank hk'
    refine ⟨htook, ?_⟩
    by_cases hne : k' = k
    · subst hne
      exact Function.update_self ..
    · exact (Function.update_of_ne hne ..).trans hqueue
  · intro k' i hk'
    dsimp only
    by_cases hne : k' = k
    · subst hne
      rw [Function.update_self, List.append_nil]
      exact (List.prefix_append _ _).trans (h.kept hk')
    · rw [Function.update_of_ne hne]
      exact h.kept hk'
  · intro k' hk'
    by_cases hne : k' = k
    · subst hne
      exact Function.update_self ..
    · dsimp only at hk' ⊢
      rw [Function.update_of_ne hne] at hk' ⊢
      exact h.shut hk'
  · intro i k' hi hopen hbusy
    obtain ⟨hne, hopen⟩ := hopened hopen
    dsimp only
    rw [Function.update_of_ne hne]
    exact h.exact hi hopen hbusy
  · intro k' i e hr
    obtain ⟨howner, hin⟩ := h.routing hr
    refine ⟨howner, ?_⟩
    intro hopen
    obtain ⟨hne, hopen⟩ := hopened hopen
    dsimp only
    rw [Function.update_of_ne hne]
    exact hin hopen

/-- **Every step keeps the invariant.** -/
theorem Ok.step (h : Ok event l) (hs : Step event l l') : Ok event l' := by
  cases hs with
  | push f hf => exact h.push hf
  | send f i e hf hw => exact h.send hf hw
  | cut p hp => exact h.cut hp
  | pop f rest hpath hf => exact h.pop hpath hf
  | route f rest i e k hpath hf hidle hk => exact h.route hpath hf hidle hk
  | bounce f rest i e hpath hf hidle hk => exact h.bounce hpath hf hidle hk
  | deliver k i e hhand hopen => exact h.deliver hhand hopen
  | fail k i e hhand => exact h.fail hhand
  | unroute i hhand => exact h.unroute hhand
  | stop => exact h.stop
  | forget t ht => exact h.forget ht
  | assign k i hk hi => exact h.assign hk hi
  | list i k hk hi => exact h.list hk hi
  | take k e q hk => exact h.take hk
  | shut k => exact h.close k

/-- Any number of steps keep the invariant. -/
theorem Ok.steps (h : Ok event l) (hs : Relation.ReflTransGen (Step event) l l') : Ok event l' := by
  induction hs with
  | refl => exact h
  | tail _ hs ih => exact ih.step hs

/-! ### What a stream gets -/

/-- **A consumer takes a first part of what was queued for its stream.** -/
theorem Ok.took_queued (h : Ok event l) {k : ℕ} {i : ι} (hk : l.owner k = some i) :
    l.took k <+: l.queued i := by
  have htook : l.took k <+: l.received i := (List.prefix_append _ _).trans (h.kept hk)
  have hreceived : l.received i <+: l.queued i := (List.prefix_append _ _).trans (h.flow i)
  exact htook.trans hreceived

/-- **With nothing under way**, an open channel in the table got all that was queued. -/
theorem Ok.caught_up (h : Ok event l) (hwhole : l.whole = true) (hpath : l.path = [])
    (hidle : l.hand = .idle) {i : ι} {k : ℕ} (hi : l.table i = some k) (hopen : l.opened k = true) :
    l.took k ++ l.queue k = l.queued i := by
  have hreceived : l.received i = l.queued i := by
    have hw := h.whole hwhole i
    rw [hpath] at hw
    exact (List.append_nil _).symm.trans hw
  rw [← hreceived]
  refine h.exact hi hopen ?_
  rw [hidle]
  exact id

end

/-! ### The mark behind which a stream ends -/

section

variable {stop e : ε} {l l' : List ε}

/-- The mark comes last, if it comes at all. -/
def StopLast (stop : ε) (l : List ε) : Prop := ∀ before after, l = before ++ stop :: after → after = []

theorem StopLast.nil (stop : ε) : StopLast stop [] := by
  intro before after h
  exact absurd h (by simp)

/-- Behind events without the mark anything may come. -/
theorem StopLast.snoc (h : stop ∉ l) (e : ε) : StopLast stop (l ++ [e]) := by
  intro before after heq
  rcases List.eq_nil_or_concat after with rfl | ⟨init, last, rfl⟩
  · rfl
  · refine absurd ?_ h
    rw [List.concat_eq_append, ← List.cons_append, ← List.append_assoc] at heq
    rw [(List.append_inj' heq rfl).1]
    simp

/-- **A consumer that took the mark took everything.** -/
theorem StopLast.eq_of_isPrefix (h : StopLast stop l) (hp : l' <+: l) (hmem : stop ∈ l') :
    l' = l := by
  obtain ⟨rest, rfl⟩ := hp
  obtain ⟨before, after, rfl⟩ := List.append_of_mem hmem
  have hnil : after ++ rest = [] := h before (after ++ rest) (by simp)
  rw [(List.append_eq_nil_iff.1 hnil).2, List.append_nil]

variable {q : ι → List ε} {r r' : ι → Prop}

/-- A sender that still runs has not sent the mark, and behind the mark nothing was sent. -/
structure Sealed (stop : ε) (queued : ι → List ε) (running : ι → Prop) : Prop where
  last : ∀ i, StopLast stop (queued i)
  running : ∀ i, running i → stop ∉ queued i

omit [DecidableEq ι] in
/-- Senders stop, and others start on streams for which nothing was sent. -/
theorem Sealed.keep (h : Sealed stop q r) (hr : ∀ i, r' i → r i ∨ q i = []) : Sealed stop q r' := by
  refine ⟨h.last, fun i hi => ?_⟩
  rcases hr i hi with hold | hnil
  · exact h.running i hold
  · rw [hnil]
    exact List.not_mem_nil

/-- A running sender sends an event, and stops with the mark. -/
theorem Sealed.add (h : Sealed stop q r) {i : ι} (hi : r i) (hr : ∀ j, r' j → r j)
    (hstop : e = stop → ¬ r' i) : Sealed stop (add q i e) r' := by
  have hnot := h.running i hi
  refine ⟨fun j => ?_, fun j hj => ?_⟩
  · by_cases hji : j = i
    · rw [hji, add_self]
      exact StopLast.snoc hnot e
    · rw [add_of_ne _ _ _ hji]
      exact h.last j
  · by_cases hji : j = i
    · rw [hji, add_self, List.mem_append, List.mem_singleton]
      rintro (hmem | heq)
      · exact hnot hmem
      · exact hstop heq.symm (hji ▸ hj)
    · rw [add_of_ne _ _ _ hji]
      exact h.running j (hr j hj)

end

end Lane

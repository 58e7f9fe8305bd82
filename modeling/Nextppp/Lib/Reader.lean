/-
**A reader of frames off a socket.**

A reader owns an incremental decoder and a buffer.  It polls the decoder; while the decoder asks for
more, it checks that the buffer has not grown beyond a cap and takes the next read of the socket.  A
read of no bytes is the end of the stream.

Fed with any reads, such a reader returns what the streaming decoder reads off their concatenation, as
`Incremental.Link` says for single polls.  How it ends is a matter of where the bytes end: at the
boundary of a frame or inside one.

Main definitions:

* `Incremental.next`, `Incremental.calls` — one call of the reader, and a number of successive calls;
* `Incremental.Framing` — what a decoder must promise about its buffer;
* `Incremental.Framed`, `Incremental.leftover` — streams of whole frames, and what a stream leaves.

Main results:

* `Incremental.next_spec` — a call of the reader does what the streaming decoder does;
* `Incremental.calls_framed` — a stream of whole frames is returned message by message;
* `Incremental.calls_cut` — of a stream that is cut off, the whole frames are returned, then the end;
* `Incremental.closes_idle_iff` — the reader closes at a frame boundary exactly when the stream does
  not end inside a frame.
-/

import Nextppp.Lib.Incremental

set_option relaxedAutoImplicit false
set_option autoImplicit false

namespace Incremental

variable {β σ τ μ ε : Type*}

/-! ### The reader -/

/-- What a call of a reader returns: a message, with the decoder, the buffer and the reads that are
left; the end of the stream; or an error. -/
inductive Next (β τ μ ε : Type*)
  | message (m : μ) (t : τ) (buf : List β) (reads : List (Except ε (List β)))
  | closed (t : τ) (buf : List β)
  | failed (e : ε)

/-- One call: poll, and while the decoder asks for more, check the cap and read. -/
def next (poll : τ → List β → Poll β τ μ ε) (cap : ℕ) (overflow : ε) :
    τ → List β → List (Except ε (List β)) → Next β τ μ ε
  | t, buf, [] =>
      match poll t buf with
      | .message m t' buf' => .message m t' buf' []
      | .failed e _ => .failed e
      | .more t' buf' => if cap < buf'.length then .failed overflow else .closed t' buf'
  | t, buf, read :: reads =>
      match poll t buf with
      | .message m t' buf' => .message m t' buf' (read :: reads)
      | .failed e _ => .failed e
      | .more t' buf' =>
          if cap < buf'.length then .failed overflow
          else
            match read with
            | .error e => .failed e
            | .ok [] => .closed t' buf'
            | .ok (b :: bs) => next poll cap overflow t' (buf' ++ b :: bs) reads

/-- The messages of a number of successive calls, and what they leave; nothing if one of the calls
returns no message. -/
def calls (poll : τ → List β → Poll β τ μ ε) (cap : ℕ) (overflow : ε) :
    ℕ → τ → List β → List (Except ε (List β)) →
      Option (List μ × τ × List β × List (Except ε (List β)))
  | 0, t, buf, reads => some ([], t, buf, reads)
  | n + 1, t, buf, reads =>
      match next poll cap overflow t buf reads with
      | .message m t' buf' reads' =>
          (calls poll cap overflow n t' buf' reads').map fun r => (m :: r.1, r.2)
      | _ => none

/-- What a decoder promises about its buffer: a poll that asks for more leaves it below the cap, and
leaves nothing behind exactly when there was nothing. -/
structure Framing {read : σ → List β → Read β σ μ ε} {poll : τ → List β → Poll β τ μ ε}
    (L : Link read poll) (cap : ℕ) where
  /-- The decoders that occur. -/
  Good : τ → Prop
  /-- Whether no frame has been begun inside the decoder. -/
  idle : τ → Bool
  good_fresh : ∀ s, Good (L.fresh s)
  idle_fresh : ∀ s, idle (L.fresh s) = true
  more : ∀ {t buf t' buf'}, L.Inv t → Good t → poll t buf = .more t' buf' →
    Good t' ∧ buf'.length < cap ∧ ((buf' = [] ∧ idle t' = true) ↔ (buf = [] ∧ idle t = true))

section Next

variable {read : σ → List β → Read β σ μ ε} {poll : τ → List β → Poll β τ μ ε} {cap : ℕ}
  {overflow : ε} {L : Link read poll}

/-- A call of the reader, told by what the streaming decoder does with the buffer and all the bytes
to come. -/
inductive NextSpec (F : Framing L cap) (overflow : ε) (t : τ) (buf : List β)
    (chunks : List (List β)) : Prop
  | message (m : μ) (s' : σ) (buf' : List β) (chunks' : List (List β))
      (resume : L.resume t (buf ++ chunks.flatten) = .message m s' (buf' ++ chunks'.flatten))
      (next : next poll cap overflow t buf (chunks.map .ok)
        = .message m (L.fresh s') buf' (chunks'.map .ok))
      (nonempty : ∀ c ∈ chunks', c ≠ [])
  | closed (t' : τ) (buf' : List β)
      (resume : L.resume t (buf ++ chunks.flatten) = .ended (L.core t'))
      (next : next poll cap overflow t buf (chunks.map .ok) = .closed t' buf')
      (boundary : (buf' = [] ∧ F.idle t' = true) ↔ (buf ++ chunks.flatten = [] ∧ F.idle t = true))
  | failed (e : ε) (s' : σ)
      (resume : L.resume t (buf ++ chunks.flatten) = .failed e s')
      (next : next poll cap overflow t buf (chunks.map .ok) = .failed e)

theorem next_spec (F : Framing L cap) (chunks : List (List β)) (hne : ∀ c ∈ chunks, c ≠ []) {t : τ}
    {buf : List β} (ht : L.Inv t) (hg : F.Good t) : NextSpec F overflow t buf chunks := by
  induction chunks generalizing t buf with
  | nil =>
      cases hp : poll t buf with
      | message m t' buf' =>
          obtain ⟨s', rfl, -, hres⟩ := L.poll_message ht hp
          refine .message m s' buf' [] (hres []) ?_ (by simp)
          simp only [List.map_nil, next, hp]
      | more t' buf' =>
          obtain ⟨-, hend, hres⟩ := L.poll_more ht hp
          obtain ⟨-, hcap, hiff⟩ := F.more ht hg hp
          refine .closed t' buf' ?_ ?_ ?_
          · rw [List.flatten_nil, hres, List.append_nil, hend]
          · simp only [List.map_nil, next, hp]
            rw [if_neg (by omega)]
          · rw [List.flatten_nil, List.append_nil]
            exact hiff
      | failed e t' =>
          refine .failed e (L.core t') (L.poll_failed ht hp _) ?_
          simp only [List.map_nil, next, hp]
  | cons c cs ih =>
      obtain ⟨b, bs, rfl⟩ : ∃ b bs, c = b :: bs := List.exists_cons_of_ne_nil (hne c (by simp))
      have hcs : ∀ c ∈ cs, c ≠ [] := fun c hc => hne c (List.mem_cons_of_mem _ hc)
      cases hp : poll t buf with
      | message m t' buf' =>
          obtain ⟨s', rfl, -, hres⟩ := L.poll_message ht hp
          refine .message m s' buf' ((b :: bs) :: cs) (hres _) ?_ hne
          simp only [List.map_cons, next, hp]
      | more t' buf' =>
          obtain ⟨hinv, -, hres⟩ := L.poll_more ht hp
          obtain ⟨hg', hcap, hiff⟩ := F.more ht hg hp
          -- the loop goes on with the bytes that were read
          have hstep : next poll cap overflow t buf (((b :: bs) :: cs).map .ok)
              = next poll cap overflow t' (buf' ++ b :: bs) (cs.map .ok) := by
            simp only [List.map_cons, next, hp]
            rw [if_neg (by omega)]
          have hbytes : L.resume t (buf ++ ((b :: bs) :: cs).flatten)
              = L.resume t' ((buf' ++ b :: bs) ++ cs.flatten) := by
            rw [hres, List.flatten_cons, List.append_assoc]
          rcases ih hcs hinv hg' with ⟨m, s', buf'', cs', h₁, h₂, h₃⟩ | ⟨t'', buf'', h₁, h₂, h₃⟩ |
            ⟨e, s', h₁, h₂⟩
          · exact .message m s' buf'' cs' (hbytes.trans h₁) (hstep.trans h₂) h₃
          · refine .closed t'' buf'' (hbytes.trans h₁) (hstep.trans h₂) ?_
            rw [h₃]
            simp
          · exact .failed e s' (hbytes.trans h₁) (hstep.trans h₂)
      | failed e t' =>
          refine .failed e (L.core t') (L.poll_failed ht hp _) ?_
          simp only [List.map_cons, next, hp]

/-! ### Whole frames -/

/-- The bytes are read, one after the other, as the messages. -/
inductive Framed (read : σ → List β → Read β σ μ ε) : σ → List β → List μ → σ → Prop
  | nil (s : σ) : Framed read s [] [] s
  | cons {s s₁ s' : σ} {w bytes : List β} {m : μ} {ms : List μ}
      (frame : ∀ rest, read s (w ++ rest) = .message m s₁ rest)
      (rest : Framed read s₁ bytes ms s') : Framed read s (w ++ bytes) (m :: ms) s'

/-- A stream of whole frames is returned message by message, and nothing is left of it. -/
theorem calls_framed (F : Framing L cap) {s s' : σ} {bytes : List β} {ms : List μ}
    (h : Framed read s bytes ms s') {buf : List β} {chunks : List (List β)}
    (hne : ∀ c ∈ chunks, c ≠ []) (hb : buf ++ chunks.flatten = bytes) :
    calls poll cap overflow ms.length (L.fresh s) buf (chunks.map .ok)
      = some (ms, L.fresh s', [], []) := by
  induction h generalizing buf chunks with
  | nil s =>
      obtain ⟨rfl, hflat⟩ := List.append_eq_nil_iff.1 hb
      have hnil : chunks = [] := by
        cases chunks with
        | nil => rfl
        | cons c cs =>
            rw [List.flatten_cons] at hflat
            exact absurd (List.append_eq_nil_iff.1 hflat).1 (hne c (by simp))
      rw [hnil]
      rfl
  | @cons s s₁ s' w bytes m ms frame _ ih =>
      have hres : L.resume (L.fresh s) (buf ++ chunks.flatten) = .message m s₁ bytes := by
        rw [hb, L.resume_fresh]
        exact frame bytes
      have hspec : NextSpec F overflow (L.fresh s) buf chunks :=
        next_spec F chunks hne (L.inv_fresh s) (F.good_fresh s)
      rcases hspec with
        ⟨m', s₂, buf', chunks', h₁, h₂, h₃⟩ | ⟨t', buf', h₁, -, -⟩ | ⟨e, s₂, h₁, -⟩
      · rw [h₁] at hres
        injection hres with hm hs hrest
        subst hm hs
        rw [List.length_cons, calls, h₂]
        dsimp only
        rw [ih h₃ hrest]
        rfl
      · rw [h₁] at hres
        cases hres
      · rw [h₁] at hres
        cases hres

/-- A part of a frame makes the streaming decoder wait. -/
theorem Link.wait (L : Link read poll) {s s₁ : σ} {u v : List β} {m : μ}
    (frame : ∀ rest, read s (u ++ v ++ rest) = .message m s₁ rest) (hv : v ≠ []) :
    ∃ s', read s u = .ended s' := by
  have hwhole : L.resume (L.fresh s) (u ++ v) = .message m s₁ [] := by
    have hframe := frame []
    rwa [List.append_nil, ← L.resume_fresh] at hframe
  cases hp : poll (L.fresh s) u with
  | message m' t' buf' =>
      -- a message out of the part would leave the rest of the frame behind
      obtain ⟨s', -, -, hres⟩ := L.poll_message (L.inv_fresh s) hp
      rw [hres] at hwhole
      injection hwhole with _ _ hrest
      exact absurd (List.append_eq_nil_iff.1 hrest).2 hv
  | more t' buf' =>
      obtain ⟨-, hend, hres⟩ := L.poll_more (L.inv_fresh s) hp
      refine ⟨L.core t', ?_⟩
      have hpart := hres []
      rwa [List.append_nil, List.append_nil, hend, L.resume_fresh] at hpart
  | failed e t' =>
      rw [L.poll_failed (L.inv_fresh s) hp] at hwhole
      cases hwhole

/-- Of a stream of whole frames that is cut off anywhere, the reader returns the frames that are
whole and then the end of the stream. -/
theorem calls_cut (F : Framing L cap) (overflow : ε) {s s' : σ} {bytes : List β} {ms : List μ}
    (h : Framed read s bytes ms s') {buf : List β} {chunks : List (List β)}
    (hne : ∀ c ∈ chunks, c ≠ []) (hcut : buf ++ chunks.flatten <+: bytes) :
    ∃ k t buf₁ reads t' buf₂, k ≤ ms.length ∧
      calls poll cap overflow k (L.fresh s) buf (chunks.map .ok)
        = some (ms.take k, t, buf₁, reads) ∧
      next poll cap overflow t buf₁ reads = .closed t' buf₂ ∧
      (buf ++ chunks.flatten = bytes → k = ms.length) := by
  induction h generalizing buf chunks with
  | nil s =>
      have hnil : buf ++ chunks.flatten = [] := List.prefix_nil.1 hcut
      have hspec : NextSpec F overflow (L.fresh s) buf chunks :=
        next_spec F chunks hne (L.inv_fresh s) (F.good_fresh s)
      rcases hspec with ⟨m, s₂, buf', chunks', h₁, -, -⟩ | ⟨t', buf', -, h₂, -⟩ | ⟨e, s₂, h₁, -⟩
      · rw [hnil, L.resume_fresh, L.read_nil] at h₁
        cases h₁
      · exact ⟨0, _, _, _, t', buf', Nat.zero_le _, rfl, h₂, fun _ => rfl⟩
      · rw [hnil, L.resume_fresh, L.read_nil] at h₁
        cases h₁
  | @cons s s₁ s' w bytes m ms frame _ ih =>
      have hspec : NextSpec F overflow (L.fresh s) buf chunks :=
        next_spec F chunks hne (L.inv_fresh s) (F.good_fresh s)
      by_cases hwhole : w <+: buf ++ chunks.flatten
      · obtain ⟨x, hx⟩ := hwhole
        have hrest : x <+: bytes := (List.prefix_append_right_inj w).1 (by rw [hx]; exact hcut)
        have hres : L.resume (L.fresh s) (buf ++ chunks.flatten) = .message m s₁ x := by
          rw [← hx, L.resume_fresh]
          exact frame x
        rcases hspec with ⟨m', s₂, buf', chunks', h₁, h₂, h₃⟩ | ⟨t', buf', h₁, -, -⟩ |
          ⟨e, s₂, h₁, -⟩
        · rw [h₁] at hres
          injection hres with hm hs hleft
          subst hm hs
          obtain ⟨k, t, buf₁, reads, t', buf₂, hk, hcalls, hclosed, hall⟩ :=
            ih h₃ (by rw [hleft]; exact hrest)
          refine ⟨k + 1, t, buf₁, reads, t', buf₂, by simpa using hk, ?_, hclosed, ?_⟩
          · rw [calls, h₂]
            dsimp only
            rw [hcalls]
            rfl
          · intro heq
            rw [← hx, List.append_cancel_left_eq] at heq
            rw [List.length_cons, hall (hleft.trans heq)]
        · rw [h₁] at hres
          cases hres
        · rw [h₁] at hres
          cases hres
      · -- the stream is cut off inside the first frame
        obtain ⟨v, hw⟩ : buf ++ chunks.flatten <+: w :=
          (List.prefix_or_prefix_of_prefix hcut (List.prefix_append w bytes)).resolve_right hwhole
        have hv : v ≠ [] := by
          rintro rfl
          rw [List.append_nil] at hw
          exact hwhole (by rw [hw])
        obtain ⟨s₂, hwait⟩ := L.wait (by rw [hw]; exact frame) hv
        rcases hspec with ⟨m', s₃, buf', chunks', h₁, -, -⟩ | ⟨t', buf', -, h₂, -⟩ | ⟨e, s₃, h₁, -⟩
        · rw [L.resume_fresh, hwait] at h₁
          cases h₁
        · refine ⟨0, _, _, _, t', buf', Nat.zero_le _, rfl, h₂, fun heq => absurd ?_ hwhole⟩
          rw [heq]
          exact List.prefix_append w bytes
        · rw [L.resume_fresh, hwait] at h₁
          cases h₁

/-! ### How a stream ends -/

/-- What is left of a stream where it ends, if no frame of it is bad. -/
def leftover (read : σ → List β → Read β σ μ ε) : ℕ → σ → List β → Option (List β)
  | 0, _, io => some io
  | fuel + 1, s, io =>
      match read s io with
      | .message _ s' rest => leftover read fuel s' rest
      | .ended _ => some io
      | .failed _ _ => none

/-- The reader returns the end of the stream only where no byte of a frame is left over. -/
def ClosesIdle (poll : τ → List β → Poll β τ μ ε) (cap : ℕ) (overflow : ε) (idle : τ → Bool) (t : τ)
    (buf : List β) (reads : List (Except ε (List β))) : Prop :=
  ∀ n ms t₁ buf₁ reads₁ t₂ buf₂, calls poll cap overflow n t buf reads = some (ms, t₁, buf₁, reads₁) →
    next poll cap overflow t₁ buf₁ reads₁ = .closed t₂ buf₂ → buf₂ = [] ∧ idle t₂ = true

theorem closesIdle_of_message {idle : τ → Bool} {t t' : τ} {buf buf' : List β} {m : μ}
    {reads reads' : List (Except ε (List β))}
    (h : next poll cap overflow t buf reads = .message m t' buf' reads') :
    ClosesIdle poll cap overflow idle t buf reads ↔
      ClosesIdle poll cap overflow idle t' buf' reads' := by
  constructor
  · intro hc n ms t₁ buf₁ reads₁ t₂ buf₂ hcalls hclosed
    refine hc (n + 1) (m :: ms) t₁ buf₁ reads₁ t₂ buf₂ ?_ hclosed
    rw [calls, h]
    dsimp only
    rw [hcalls]
    rfl
  · intro hc n ms t₁ buf₁ reads₁ t₂ buf₂ hcalls hclosed
    cases n with
    | zero =>
        rw [calls] at hcalls
        obtain ⟨-, rfl, rfl, rfl⟩ : _ ∧ t = t₁ ∧ buf = buf₁ ∧ reads = reads₁ := by
          simpa using hcalls
        rw [h] at hclosed
        cases hclosed
    | succ n =>
        rw [calls, h] at hcalls
        obtain ⟨⟨ms', rest⟩, hcalls, heq⟩ := Option.map_eq_some_iff.1 hcalls
        obtain ⟨-, rfl⟩ := Prod.mk.inj heq
        exact hc n ms' t₁ buf₁ reads₁ t₂ buf₂ hcalls hclosed

/-- The reader reports the end of the stream at a frame boundary exactly when the stream does not end
inside a frame. -/
theorem closes_idle_iff (F : Framing L cap) (fuel : ℕ) {s : σ} {buf : List β}
    {chunks : List (List β)} (hne : ∀ c ∈ chunks, c ≠ [])
    (hfuel : (buf ++ chunks.flatten).length < fuel) :
    ClosesIdle poll cap overflow F.idle (L.fresh s) buf (chunks.map .ok) ↔
      ∀ left, leftover read fuel s (buf ++ chunks.flatten) = some left → left = [] := by
  induction fuel generalizing s buf chunks with
  | zero => omega
  | succ fuel ih =>
      rw [leftover]
      have hspec : NextSpec F overflow (L.fresh s) buf chunks :=
        next_spec F chunks hne (L.inv_fresh s) (F.good_fresh s)
      rcases hspec with
        ⟨m, s', buf', chunks', h₁, h₂, h₃⟩ | ⟨t', buf', h₁, h₂, h₃⟩ | ⟨e, s', h₁, h₂⟩
      · rw [L.resume_fresh] at h₁
        have hlt := L.read_shrinks h₁
        rw [h₁, closesIdle_of_message h₂]
        exact ih h₃ (by omega)
      · rw [L.resume_fresh] at h₁
        rw [h₁]
        rw [F.idle_fresh] at h₃
        constructor
        · intro hc left hleft
          obtain rfl : buf ++ chunks.flatten = left := by simpa using hleft
          exact (h₃.1 (hc 0 [] _ _ _ t' buf' rfl h₂)).1
        · intro hleft n ms t₁ buf₁ reads₁ t₂ buf₂ hcalls hclosed
          cases n with
          | zero =>
              rw [calls] at hcalls
              obtain ⟨-, rfl, rfl, rfl⟩ : _ ∧ L.fresh s = t₁ ∧ buf = buf₁ ∧ _ = reads₁ := by
                simpa using hcalls
              rw [h₂] at hclosed
              obtain ⟨rfl, rfl⟩ : t' = t₂ ∧ buf' = buf₂ := by simpa using hclosed
              exact h₃.2 ⟨hleft _ rfl, rfl⟩
          | succ n =>
              rw [calls, h₂] at hcalls
              cases hcalls
      · rw [L.resume_fresh] at h₁
        rw [h₁]
        constructor
        · intro _ left hleft
          cases hleft
        · intro _ n ms t₁ buf₁ reads₁ t₂ buf₂ hcalls hclosed
          cases n with
          | zero =>
              rw [calls] at hcalls
              obtain ⟨-, rfl, rfl, rfl⟩ : _ ∧ L.fresh s = t₁ ∧ buf = buf₁ ∧ _ = reads₁ := by
                simpa using hcalls
              rw [h₂] at hclosed
              cases hclosed
          | succ n =>
              rw [calls, h₂] at hcalls
              cases hcalls

end Next

end Incremental

/-
**Routine closes.**

Both ends tell a routine teardown (a reset, a timeout, a handshake a probe did not finish) from a fault.
The classification starts from the kind of a system error and goes up to a whole chain of causes, as an
error collects contexts on its way.

Main definitions:

* `Nextppp.routineCause` — the routine kinds, with the text the log shows;
* `Nextppp.isCleanClose`, `Nextppp.retryable` — chains of causes that are routine, and those worth
  another dial.

Main result:

* `Nextppp.not_retryable_of_violation` — a chain with an error of the protocol stack that is not
  routine is not dialled again, unless a refused connection is among its causes.
-/

import Nextppp.Core.Basic

set_option relaxedAutoImplicit false
set_option autoImplicit false

namespace Nextppp

/-- The kinds of system errors that are told apart. -/
inductive SysKind
  | connectionReset
  | connectionAborted
  | connectionRefused
  | brokenPipe
  | unexpectedEof
  | timedOut
  | wouldBlock
  | interrupted
  | other (code : ℕ)
  deriving DecidableEq, Repr

/-- A system error: its kind, and how it prints. -/
structure SysError where
  kind : SysKind
  msg : String
  deriving DecidableEq, Repr

/-- The text of a routine teardown. -/
def routineCause : SysKind → Option String
  | .connectionReset => some "connection reset"
  | .connectionAborted => some "connection aborted"
  | .brokenPipe => some "broken pipe"
  | .unexpectedEof => some "eof"
  | .timedOut => some "timeout"
  | .wouldBlock => some "timeout"
  | .interrupted => some "interrupted"
  | _ => none

/-- Whether a system error is a routine teardown. -/
def isRoutineIo (kind : SysKind) : Bool := (routineCause kind).isSome

/-- One cause of a failure: a system error, an error of the protocol stack (one that wraps a system
error apart), or a context, which says nothing. -/
inductive Cause
  | io (kind : SysKind)
  | coreIo (kind : SysKind)
  | core (e : Error)
  | context (text : String)
  deriving DecidableEq, Repr

namespace Cause

/-- Whether an error of the protocol stack is a routine close. -/
def isRoutineCore (e : Error) : Bool :=
  e.isEof || match e with
    | .handshakeFailed _ => true
    | _ => false

/-- Whether the cause is one that is looked at. -/
def recognized : Cause → Bool
  | context _ => false
  | _ => true

/-- Whether the cause speaks for a routine close, or does not speak. -/
def clean : Cause → Bool
  | io kind => isRoutineIo kind
  | coreIo kind => isRoutineIo kind
  | core e => isRoutineCore e
  | context _ => true

end Cause

/-- Whether a chain of causes is a routine close: every recognized cause is, and there is one. -/
def isCleanClose (chain : List Cause) : Bool :=
  chain.any Cause.recognized && chain.all Cause.clean

/-- Whether a failed dial is worth another connection. -/
def retryable (chain : List Cause) : Bool :=
  isCleanClose chain || chain.any (· = .io .connectionRefused)

/-- A violation of the protocol, such as flags that do not match, is not dialled again. -/
theorem not_retryable_of_violation {chain : List Cause} {e : Error} (hmem : .core e ∈ chain)
    (he : Cause.isRoutineCore e = false) (hrefused : .io .connectionRefused ∉ chain) :
    retryable chain = false := by
  have hclean : chain.all Cause.clean = false := by
    rw [List.all_eq_false]
    exact ⟨.core e, hmem, by simpa [Cause.clean] using he⟩
  have hany : chain.any (· = .io .connectionRefused) = false := by
    rw [List.any_eq_false]
    intro c hc h
    exact hrefused (of_decide_eq_true h ▸ hc)
  rw [retryable, isCleanClose, hclean, hany, Bool.and_false, Bool.or_false]

example : retryable [.context "nextppp handshake", .core .flagsMismatch] = false := by decide

end Nextppp

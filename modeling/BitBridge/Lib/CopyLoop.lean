import BitBridge.Lib.Steps
import Mathlib.Data.List.Infix

/-!
# Copying a stream through one buffer

The abstract copy loop: read a chunk from the source, write it to the
destination, and only then read again.  A write may fail, which stops the loop.

* `exact_of_reaches`: **nothing is lost, repeated or reordered.**  What was
  received is what was delivered followed by the one chunk that is held.
-/

namespace CopyLoop

open Steps

variable {α : Type*}

inductive Phase (α : Type*)
  | idle
  | reading
  | writing (chunk : List α)
  | failed (chunk : List α)

def Phase.inFlight : Phase α → List α
  | .writing chunk => chunk
  | _ => []

/-- The chunk whose write failed. -/
def Phase.lost : Phase α → List α
  | .failed chunk => chunk
  | _ => []

structure State (α : Type*) where
  received : List α
  delivered : List α
  phase : Phase α

def init : State α := ⟨[], [], .idle⟩

inductive Event (α : Type*)
  | start
  | read (chunk : List α)
  | wrote
  | fail

def step (s : State α) : Event α → Option (State α)
  | .start =>
    match s.phase with
    | .idle => some { s with phase := .reading }
    | _ => none
  | .read chunk =>
    match s.phase with
    | .reading => some { s with received := s.received ++ chunk, phase := .writing chunk }
    | _ => none
  | .wrote =>
    match s.phase with
    | .writing chunk => some { s with delivered := s.delivered ++ chunk, phase := .reading }
    | _ => none
  | .fail =>
    match s.phase with
    | .writing chunk => some { s with phase := .failed chunk }
    | _ => none

/-- What was received is what was delivered, then the chunk that is held;
nothing was received by a loop that has not started. -/
structure Exact (s : State α) : Prop where
  received : s.received = s.delivered ++ (s.phase.inFlight ++ s.phase.lost)
  idle : s.phase = .idle → s.received = []

theorem Exact.step {s t : State α} {e : Event α} (h : Exact s) (hs : step s e = some t) :
    Exact t := by
  obtain ⟨received, delivered, phase⟩ := s
  obtain ⟨hr, hi⟩ := h
  cases e <;> cases phase <;> simp only [CopyLoop.step, Option.some.injEq, reduceCtorEq] at hs <;>
    subst hs <;> simp only [Phase.inFlight, Phase.lost, List.append_nil] at hr
  case start.idle => exact ⟨by simpa [Phase.inFlight, Phase.lost] using hr, fun h => nomatch h⟩
  case read.reading => exact ⟨by simp [Phase.inFlight, Phase.lost, hr], fun h => nomatch h⟩
  case wrote.writing => exact ⟨by simpa [Phase.inFlight, Phase.lost] using hr, fun h => nomatch h⟩
  case fail.writing => exact ⟨by simpa [Phase.inFlight, Phase.lost] using hr, fun h => nomatch h⟩

/-- **Nothing is lost, repeated or reordered.** -/
theorem exact_of_reaches {s : State α} (h : Reaches step init s) : Exact s :=
  h.invariant ⟨rfl, fun _ => rfl⟩ fun hi _ hs => hi.step hs

theorem Exact.prefix {s : State α} (h : Exact s) : s.delivered <+: s.received :=
  ⟨_, h.received.symm⟩

end CopyLoop

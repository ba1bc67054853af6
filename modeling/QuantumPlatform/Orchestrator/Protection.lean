import QuantumPlatform.Orchestrator.Breaker
import QuantumPlatform.Orchestrator.Execution

namespace QuantumPlatform.Orchestrator

open Process Python QuantumPlatform.Core

-- An experiment is run through execute_task, or directly through run_vqe.
inductive Experiment where
  | task (task : ExperimentTask)
  | vqe (shots maxIterations : Json) (molecule : MolecularHamiltonian)

def Experiment.run (env : Env) : Experiment → Program sig (Except Exc Unit)
  | .task requested => (executeTask env requested >>= fun _ => pure ()).run
  | .vqe shots maxIterations molecule =>
      (runVqe env shots maxIterations molecule >>= fun _ => pure ()).run

-- The circuit that an experiment comes to first, if it needs the backend at all.
-- Until then it only computes, and reads the clock for its own metrics.
def firstCircuit {α : Type} : Program sig α → Option Circuit
  | .ret _ => none
  | .call .monotonic next => firstCircuit (next (0 : ℚ))
  | .call (.submit circuit) _ => some circuit
  | .call _ _ => none

-- Events with the times at which they happen.
abbrev Timeline := List (ℚ × Event sig)

namespace Timeline

def Ordered (timeline : Timeline) : Prop := (timeline.map Prod.fst).Pairwise (· ≤ ·)

def isBackendCall (event : Event sig) : Bool := match event.1 with
  | .submit _ => true
  | .pollStatus _ => true
  | _ => false

def isReading (event : Event sig) : Bool := match event.1 with
  | .monotonic => true
  | _ => false

-- What a breaker that all waits share would be told.
def access (entry : ℚ × Event sig) : Option (ℚ × Access) := match entry.2 with
  | ⟨.pollStatus _, .error exc⟩ => if exc.isException then some (entry.1, .failure) else none
  | ⟨.fetchResult _, .ok _⟩ => some (entry.1, .success)
  | _ => none

def accesses (timeline : Timeline) : History := timeline.filterMap access

-- Such a breaker would be open.
def Opens (timeline : Timeline) (now : ℚ) : Prop :=
  timeline.accesses.Opens ({} : CircuitBreaker).failureThreshold ({} : CircuitBreaker).resetAfter now

-- Every status that is asked for is answered with an exception.
def KeepsRaising (timeline : Timeline) : Prop :=
  ∀ entry ∈ timeline, ∀ handle answer, entry.2 = ⟨.pollStatus handle, answer⟩ →
    ∃ exc : Exc, answer = .error exc ∧ exc.isException = true

-- No circuit is submitted and no status polled while the backend is to be spared.
def Spared (timeline : Timeline) : Prop :=
  ∀ before time event after, timeline = before ++ (time, event) :: after →
    isBackendCall event = true → ¬ Opens before time

-- The time at which an experiment is done preparing.
def ready (timeline : Timeline) : Option ℚ :=
  (timeline.find? fun entry => !isReading entry.2).map Prod.fst

end Timeline

-- The experiments of a sequence, each with what has happened in it. An experiment
-- may be cut off at any point.
abbrev Sequence := List (Experiment × Timeline)

namespace Sequence

def Ran (env : Env) (sequence : Sequence) : Prop :=
  ∀ entry ∈ sequence, ∃ rest, (entry.1.run env).Trace (entry.2.map Prod.snd) rest

def timeline (sequence : Sequence) : Timeline := sequence.flatMap Prod.snd

-- Whenever an experiment that needs the backend is done preparing, there have
-- not been enough failures in a row, or the reset period is over.
def Late (env : Env) (sequence : Sequence) : Prop :=
  ∀ before experiment events after time,
    sequence = before ++ (experiment, events) :: after →
    (firstCircuit (experiment.run env)).isSome = true → events.ready = some time →
    ¬ (timeline before).Opens time

-- An experiment that needed the backend and never got to it says why.
def Visible (env : Env) (sequence : Sequence) : Prop :=
  ∀ entry ∈ sequence, ∀ result,
    (entry.1.run env).Returns (entry.2.map Prod.snd) result →
    (firstCircuit (entry.1.run env)).isSome = true →
    (∀ happened ∈ entry.2, Timeline.isBackendCall happened.2 = false) →
    result = .error (backendUnavailableError env.settings.backendName)

end Sequence

-- What evaluate_energy counts as a trip of the circuit breaker.
def Waiting.tripped (waiting : Waiting) : Bool :=
  waiting.metrics.any fun metrics => metrics.circuitBreakerWasOpen

-- Where an experiment is: preparing its first circuit, waiting for it, or past
-- the only backend calls it makes.
inductive AttemptPhase where
  | preparing
  | submitted
  | settled
deriving DecidableEq

-- An experiment on a backend whose polls keep raising: one submit, and then one
-- poll at most.
def attempt (first : Option Circuit) : Monitor sig AttemptPhase where
  allowed phase op := match phase, op with
    | _, .fetchResult _ => False
    | .preparing, .monotonic => True
    | .preparing, .submit circuit => first = some circuit
    | .preparing, .pollStatus _ => False
    | .preparing, _ => first = none
    | .submitted, .submit _ => False
    | .submitted, _ => True
    | .settled, .submit _ => False
    | .settled, .pollStatus _ => False
    | .settled, _ => True
  admits _ op answer := match op, answer with
    | .pollStatus _, answer => ∃ exc : Exc, answer = Except.error exc ∧ exc.isException = true
    | _, _ => True
  next phase op answer := match phase, op, answer with
    | .preparing, .submit _, .ok _ => .submitted
    | .preparing, .submit _, .error _ => .settled
    | .submitted, .pollStatus _, _ => .settled
    | phase, _, _ => phase

-- An experiment without a circuit ends without a call, and one with a circuit
-- fails at it.
def Attempted {α : Type} (first : Option Circuit) (phase : AttemptPhase)
    (result : Except Exc α) : Prop :=
  match first with
  | none => phase = .preparing
  | some _ => phase ≠ .preparing ∧ ∃ exc, result = .error exc

def Attempts {α : Type} (program : Py sig α) : Prop :=
  ∃ first, (attempt first).Obeys (Attempted first) .preparing program.run

end QuantumPlatform.Orchestrator

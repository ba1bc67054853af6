import QuantumPlatform.Orchestrator.Breaker
import QuantumPlatform.Orchestrator.Polling.Theorems

namespace QuantumPlatform.Orchestrator

open Process Python QuantumPlatform.Core

inductive Source where
  | pollStatus
  | fetchResult
deriving DecidableEq, Repr

-- An exception that a call to the backend has raised.
structure Raise where
  source : Source
  exc : Exc

namespace Raise

-- While there are retries left, the loop sleeps and goes on after such an error.
def retried (raise : Raise) : Bool :=
  decide (raise.source = .fetchResult) && isTransient raise.exc

-- The except clauses that record a failure catch these.
def recorded (raise : Raise) : Bool :=
  match raise.source with
  | .pollStatus => raise.exc.isException
  | .fetchResult => isTransient raise.exc

end Raise

-- What was answered to one wait so far. `asked` says that the breaker needs no further
-- reading, `settled` that no reading to come is compared with the deadline, and
-- `escaping` is the exception raised last, until the loop goes on after it.
structure Ledger where
  asked : Bool := true
  started : Option ℚ := none
  latest : ℚ := 0
  settled : Bool := false
  polls : ℕ := 0
  raised : List Raise := []
  escaping : Option Raise := none
  abandoned : Bool := false
  answered : Bool := false

namespace Ledger

def before (breaker : CircuitBreaker) : Ledger := { asked := breaker.openedAt.isNone }

def read (timeout now : ℚ) (ledger : Ledger) : Ledger :=
  if ledger.asked then
    match ledger.started with
    | none => { ledger with started := some now, latest := now }
    | some start =>
        { ledger with
          latest := now,
          abandoned := ledger.abandoned || (!ledger.settled && decide (now - start > timeout)) }
  else { ledger with asked := true }

def polled (ledger : Ledger) : Ledger := { ledger with polls := ledger.polls + 1 }

def settle (ledger : Ledger) : Ledger := { ledger with settled := true }

def raise (source : Source) (exc : Exc) (ledger : Ledger) : Ledger :=
  { ledger with
    settled := true,
    raised := ledger.raised ++ [⟨source, exc⟩],
    escaping := some ⟨source, exc⟩ }

-- The transient errors of fetch_result.
def retries (ledger : Ledger) : ℕ := ledger.raised.countP Raise.retried

-- The transient errors of both calls.
def transients (ledger : Ledger) : ℕ := ledger.raised.countP fun raise => isTransient raise.exc

def elapsed (ledger : Ledger) : ℚ := ledger.latest - ledger.started.getD ledger.latest

-- A turn of the loop begins.
def turn (start latest : ℚ) (polls : ℕ) (raised : List Raise) : Ledger :=
  { started := some start, latest, polls, raised }

end Ledger

-- Nothing is demanded of the environment.
def bookkeeping (timeout : ℚ) : Monitor sig Ledger where
  allowed _ _ := True
  admits _ _ _ := True
  next ledger op answer := match op, answer with
    | .monotonic, now => ledger.read timeout now
    | .cancelled, true => { ledger.settle with abandoned := true }
    | .pollStatus _, .ok .cancelled => ledger.polled.settle
    | .pollStatus _, .ok _ => ledger.polled
    | .pollStatus _, .error exc => ledger.polled.raise .pollStatus exc
    | .fetchResult _, .ok _ => { ledger.settle with answered := true }
    | .fetchResult _, .error exc => ledger.raise .fetchResult exc
    | .cancel _, _ => ledger.settle
    | .sleep _, _ => { ledger with settled := false, escaping := none }
    | _, _ => ledger

-- How a wait that has started can end, and what the breaker has become then.
inductive WaitEnd (config : PollingConfig) (breaker : CircuitBreaker) (ledger : Ledger) :
    Except Exc ExperimentResult → CircuitBreaker → Prop where
  | returned (result : ExperimentResult) (answered : ledger.answered = true)
      (escaping : ledger.escaping = none)
      (retried : ∀ raise ∈ ledger.raised, raise.retried = true) :
      WaitEnd config breaker ledger (.ok result) breaker.recordSuccess
  | stopped (exc : Exc) (answered : ledger.answered = false) (escaping : ledger.escaping = none)
      (retried : ∀ raise ∈ ledger.raised, raise.retried = true) :
      WaitEnd config breaker ledger (.error exc) breaker
  | raised (earlier : List Raise) (raise : Raise) (later : CircuitBreaker)
      (answered : ledger.answered = false) (escaping : ledger.escaping = some raise)
      (split : ledger.raised = earlier ++ [raise])
      (retried : ∀ raise ∈ earlier, raise.retried = true)
      (budget : 0 ≤ config.maxRetriesOnTransientError →
        earlier.length ≤ config.maxRetriesOnTransientError)
      (exhausted : raise.retried = true → config.maxRetriesOnTransientError < earlier.length + 1)
      (kept : raise.recorded = false → later = breaker)
      (failed : raise.recorded = true →
        ∃ now, breaker.recordFailure.answered (clockAt now) = some later) :
      WaitEnd config breaker ledger (.error raise.exc) later

-- What fresh metrics say at a point where `count` turns have been begun.
structure Figures (ledger : Ledger) (count : ℕ) (metrics : PollingMetrics) : Prop where
  transientRetries : metrics.transientRetries = ledger.retries
  circuitBreakerWasOpen : metrics.circuitBreakerWasOpen = false
  pollCount : metrics.pollCount = count

def Tallied (given : Option PollingMetrics) (ledger : Ledger) (count : ℕ)
    (metrics : Option PollingMetrics) : Prop :=
  given = some {} → ∃ tally, metrics = some tally ∧ Figures ledger count tally

-- The turn in which a wait is given up is counted before it could poll.
structure Concluded (config : PollingConfig) (breaker : CircuitBreaker)
    (given : Option PollingMetrics) (start : ℚ) (ledger : Ledger)
    (outcome : Except Exc ExperimentResult × Waiting) : Prop where
  asked : ledger.asked = true
  started : ledger.started = some start
  settled : ledger.settled = true
  ended : WaitEnd config breaker ledger outcome.1 outcome.2.breaker
  tallied : Tallied given ledger (ledger.polls + if ledger.abandoned then 1 else 0)
    outcome.2.metrics

-- A whole call: the breaker lets nobody through, or a wait has been started.
inductive Waited (backendName : String) (config : PollingConfig) (breaker : CircuitBreaker)
    (given : Option PollingMetrics) : Ledger → Except Exc ExperimentResult × Waiting → Prop where
  | denied (now : ℚ) (closed : breaker.isOpen.answered (clockAt now) = some (true, breaker)) :
      Waited backendName config breaker given {}
        (.error (backendUnavailableError backendName), ⟨breaker, given.map fun metrics =>
          { metrics with circuitBreakerWasOpen := true }⟩)
  | begun (now start : ℚ) (through : CircuitBreaker) (ledger : Ledger)
      (outcome : Except Exc ExperimentResult × Waiting)
      (passed : breaker.isOpen.answered (clockAt now) = some (false, through))
      (concluded : Concluded config through given start ledger outcome)
      (timed : ∀ tally ∈ outcome.2.metrics, tally.waitTime = ledger.elapsed) :
      Waited backendName config breaker given ledger outcome

end QuantumPlatform.Orchestrator

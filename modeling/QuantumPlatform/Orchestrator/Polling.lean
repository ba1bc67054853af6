import QuantumPlatform.Orchestrator.Effect
import QuantumPlatform.Python.Floats

namespace QuantumPlatform.Orchestrator

open Process Python QuantumPlatform.Core

structure PollingConfig where
  initialInterval : ℚ := 1 / 4
  maxInterval : ℚ := 5
  backoffFactor : ℚ := 9 / 5
  timeout : ℚ := 30
  maxRetriesOnTransientError : Int := 3

structure CircuitBreaker where
  failureThreshold : Int := 5
  resetAfter : ℚ := 15
  consecutiveFailures : Int := 0
  openedAt : Option ℚ := none

namespace CircuitBreaker

def recordSuccess (breaker : CircuitBreaker) : CircuitBreaker :=
  { breaker with consecutiveFailures := 0, openedAt := none }

-- The clock is read only when the threshold is reached.
def recordFailure (breaker : CircuitBreaker) : Program sig CircuitBreaker := do
  let breaker := { breaker with consecutiveFailures := breaker.consecutiveFailures + 1 }
  if breaker.consecutiveFailures ≥ breaker.failureThreshold then
    let now ← monotonic
    return { breaker with openedAt := some now }
  else
    return breaker

-- Reading the property closes a breaker whose reset period is over.
def isOpen (breaker : CircuitBreaker) : Program sig (Bool × CircuitBreaker) :=
  match breaker.openedAt with
  | none => return (false, breaker)
  | some openedAt => do
      let now ← monotonic
      if now - openedAt ≥ breaker.resetAfter then
        return (false, { breaker with
          openedAt := none, consecutiveFailures := breaker.failureThreshold - 1 })
      else
        return (true, breaker)

end CircuitBreaker

structure PollingMetrics where
  transientRetries : Int := 0
  circuitBreakerWasOpen : Bool := false
  waitTime : ℚ := 0
  pollCount : Int := 0

-- The two objects wait_for_result mutates.
structure Waiting where
  breaker : CircuitBreaker := {}
  metrics : Option PollingMetrics := none

namespace Waiting

def polled (waiting : Waiting) : Waiting :=
  { waiting with metrics := waiting.metrics.map fun metrics =>
      { metrics with pollCount := metrics.pollCount + 1 } }

def retried (waiting : Waiting) (transientRetries : Int) : Waiting :=
  { waiting with metrics := waiting.metrics.map fun metrics =>
      { metrics with transientRetries := transientRetries } }

def failed (waiting : Waiting) : Program sig Waiting := do
  let breaker ← waiting.breaker.recordFailure
  return { waiting with breaker := breaker }

def succeeded (waiting : Waiting) : Waiting :=
  { waiting with breaker := waiting.breaker.recordSuccess }

end Waiting

def backendUnavailableError (backendName : String) : Exc :=
  ⟨.named "BackendUnavailableError", "circuit breaker open for backend=" ++ backendName⟩

def pollingTimeoutError (handle : JobHandle) (timeout : ℚ) : Exc :=
  ⟨.named "PollingTimeoutError",
    "job " ++ handle.jobId ++ " did not finish within " ++ floatText timeout ++ "s"⟩

-- `await backend.cancel(handle); raise exc`
def abandon (handle : JobHandle) (exc : Exc) : Program sig (Except Exc ExperimentResult) := do
  match ← call (.cancel handle) with
  | .ok _ => return .error exc
  | .error raised => return .error raised

-- A caller without a token gets a fresh one, which nobody cancels.
def cancelRequested (token : Bool) : Program sig Bool :=
  if token then call .cancelled else return false

-- The branches for COMPLETED and FAILED do the same: the result is returned
-- whatever its status, and only a transient error of the fetch is retried.
def collect (handle : JobHandle) (config : PollingConfig) (interval : ℚ)
    (transientRetries : Int) (waiting : Waiting)
    (again : ℚ → Int → Waiting → Program sig (Except Exc ExperimentResult × Waiting)) :
    Program sig (Except Exc ExperimentResult × Waiting) := do
  match ← call (.fetchResult handle) with
  | .ok result => return (.ok result, waiting.succeeded)
  | .error exc =>
      if isTransient exc then
        let retries := transientRetries + 1
        let waiting := waiting.retried retries
        if retries > config.maxRetriesOnTransientError then
          return (.error exc, ← waiting.failed)
        else
          call (.sleep interval)
          again (min (interval * config.backoffFactor) config.maxInterval) retries waiting
      else
        return (.error exc, waiting)

-- One turn of the loop, once the caller is known not to have cancelled; `again`
-- is the next turn.
def poll (handle : JobHandle) (config : PollingConfig) (start interval : ℚ)
    (transientRetries : Int) (waiting : Waiting)
    (again : ℚ → Int → Waiting → Program sig (Except Exc ExperimentResult × Waiting)) :
    Program sig (Except Exc ExperimentResult × Waiting) := do
  let now ← monotonic
  if now - start > config.timeout then
    return (← abandon handle (pollingTimeoutError handle config.timeout), waiting)
  else
    match ← call (.pollStatus handle) with
    | .error exc =>
        if exc.isException then
          return (.error exc, ← waiting.failed)
        else
          return (.error exc, waiting)
    | .ok .completed => collect handle config interval transientRetries waiting again
    | .ok .failed => collect handle config interval transientRetries waiting again
    | .ok .cancelled =>
        return (.error (Exc.cancelledError ("job " ++ handle.jobId ++ " was cancelled")), waiting)
    | .ok .queued | .ok .running =>
        call (.sleep interval)
        again (min (interval * config.backoffFactor) config.maxInterval) transientRetries waiting

def pollLoop (handle : JobHandle) (config : PollingConfig) (token : Bool) (start : ℚ) :
    Nat → ℚ → Int → Waiting → Program sig (Except Exc ExperimentResult × Waiting)
  | 0, _, _, _ => .call .hang fun answer => nomatch answer
  | fuel + 1, interval, transientRetries, before => do
      let waiting := before.polled
      if ← cancelRequested token then
        return (← abandon handle
          (Exc.cancelledError ("job " ++ handle.jobId ++ " cancelled by caller")), waiting)
      else
        poll handle config start interval transientRetries waiting
          (pollLoop handle config token start fuel)

-- The `finally` clause: the metrics get the time of the whole wait.
def timed (start : ℚ) (outcome : Except Exc ExperimentResult × Waiting) :
    Program sig (Except Exc ExperimentResult × Waiting) :=
  match outcome.2.metrics with
  | none => return outcome
  | some metrics => do
      let now ← monotonic
      return (outcome.1,
        { outcome.2 with metrics := some { metrics with waitTime := now - start } })

def waitForResult (fuel : Nat) (backendName : String) (handle : JobHandle)
    (config : PollingConfig) (breaker : CircuitBreaker) (token : Bool)
    (metrics : Option PollingMetrics) : Program sig (Except Exc ExperimentResult × Waiting) := do
  let (isOpen, breaker) ← breaker.isOpen
  if isOpen then
    return (.error (backendUnavailableError backendName),
      ⟨breaker, metrics.map fun metrics => { metrics with circuitBreakerWasOpen := true }⟩)
  let start ← monotonic
  timed start (← pollLoop handle config token start fuel config.initialInterval 0
    ⟨breaker, metrics⟩)

end QuantumPlatform.Orchestrator

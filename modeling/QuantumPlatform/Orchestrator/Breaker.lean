import QuantumPlatform.Orchestrator.Polling

namespace QuantumPlatform.Orchestrator

open Process

-- What callers do to a circuit breaker they share.
inductive Access where
  | success
  | failure
  | check
deriving DecidableEq, Repr

-- The accesses in order, each with the time at which it was made.
abbrev History := List (ℚ × Access)

namespace History

def Ordered (history : History) : Prop := (history.map Prod.fst).Pairwise (· ≤ ·)

-- The times of the failures recorded since the last success.
def failures : History → List ℚ :=
  List.foldl (fun failures entry => match entry.2 with
    | .success => []
    | .failure => failures ++ [entry.1]
    | .check => failures) []

variable (failureThreshold : Int) (resetAfter : ℚ) (history : History) (now : ℚ)

-- Enough failures in a row, the last of them a moment ago.
def Opens : Prop :=
  failureThreshold ≤ history.failures.length ∧
    ∃ last, history.failures.getLast? = some last ∧ now - last < resetAfter

-- Enough failures in a row, but the reset period after the last one is over.
def HalfOpens : Prop :=
  failureThreshold ≤ history.failures.length ∧
    ∃ last, history.failures.getLast? = some last ∧ resetAfter ≤ now - last

def unchecked (history : History) : History :=
  history.filter fun entry => decide (entry.2 ≠ .check)

end History

-- An environment that answers readings of the clock, all with the same time.
def clockAt (now : ℚ) : (op : Effect) → Option op.Ans
  | .monotonic => some now
  | _ => none

namespace CircuitBreaker

variable (breaker : CircuitBreaker)

def access (now : ℚ) : Access → Option CircuitBreaker
  | .success => some breaker.recordSuccess
  | .failure => breaker.recordFailure.answered (clockAt now)
  | .check => (breaker.isOpen.answered (clockAt now)).map Prod.snd

def replay (history : History) : Option CircuitBreaker :=
  history.foldlM (fun breaker entry => breaker.access entry.1 entry.2) breaker

-- What is_open answers at that time, after these accesses.
def asked (history : History) (now : ℚ) : Option Bool := do
  let later ← breaker.replay history
  let (isOpen, _) ← later.isOpen.answered (clockAt now)
  return isOpen

end CircuitBreaker

section callers

variable {Caller : Type}

-- The accesses of several callers of wait_for_result to one breaker.
abbrev Shared (Caller : Type) := List (Caller × ℚ × Access)

def Shared.history (accesses : Shared Caller) : History := accesses.map Prod.snd

-- The caller has recorded how its trial went.
def Recorded (caller : Caller) (accesses : Shared Caller) : Prop :=
  ∃ (now : ℚ) (access : Access), (caller, now, access) ∈ accesses ∧ access ≠ .check

variable (breaker : CircuitBreaker) (accesses : Shared Caller)

-- Once the reset period is over, nobody else is let through before the caller
-- who was has recorded the outcome of its trial.
def SingleTrial : Prop :=
  ∀ (before between after : Shared Caller) (trial other : Caller) (now later : ℚ),
    accesses = before ++ (trial, now, .check) :: between ++ (other, later, .check) :: after →
    trial ≠ other →
    before.history.HalfOpens breaker.failureThreshold breaker.resetAfter now →
    breaker.asked before.history now = some false →
    breaker.asked (before ++ (trial, now, .check) :: between).history later = some false →
    Recorded trial between

-- Nobody else asks before the caller of a trial has recorded its outcome,
-- unless new failures have opened the breaker again.
def TakesTurns : Prop :=
  ∀ (before between after : Shared Caller) (trial other : Caller) (now later : ℚ),
    accesses = before ++ (trial, now, .check) :: between ++ (other, later, .check) :: after →
    trial ≠ other →
    before.history.HalfOpens breaker.failureThreshold breaker.resetAfter now →
    ¬ (before ++ (trial, now, .check) :: between).history.Opens breaker.failureThreshold
      breaker.resetAfter later →
    Recorded trial between

end callers

end QuantumPlatform.Orchestrator

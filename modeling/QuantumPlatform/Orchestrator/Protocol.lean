import QuantumPlatform.Orchestrator.Clock
import Mathlib.Data.Rat.Floor
import Mathlib.Algebra.BigOperators.Group.List.Basic

namespace QuantumPlatform.Orchestrator

open Process Python QuantumPlatform.Core

section calls

def isPoll (event : Event sig) : Bool := match event.1 with
  | .pollStatus _ => true
  | _ => false

def isFetch (event : Event sig) : Bool := match event.1 with
  | .fetchResult _ => true
  | _ => false

def isCancel (event : Event sig) : Bool := match event.1 with
  | .cancel _ => true
  | _ => false

def Effect.isBackendCall : Effect → Bool
  | .submit _ => true
  | .pollStatus _ => true
  | .fetchResult _ => true
  | .cancel _ => true
  | _ => false

def sleepOf (event : Event sig) : Option ℚ := match event.1 with
  | .sleep seconds => some seconds
  | _ => none

variable (events : List (Event sig))

def polls : Nat := events.countP isPoll
def fetches : Nat := events.countP isFetch
def cancels : Nat := events.countP isCancel
def sleeps : List ℚ := events.filterMap sleepOf

-- A poll or a fetch raised the exception.
def Raised (exc : Exc) : Prop :=
  ∃ handle, ⟨.pollStatus handle, .error exc⟩ ∈ events ∨ ⟨.fetchResult handle, .error exc⟩ ∈ events

end calls

-- A clock that moves only while a coroutine sleeps, and then exactly as long.
def stopwatch : Monitor sig ℚ where
  allowed _ _ := True
  admits clock op answer := match op, answer with
    | .monotonic, now => clock = (now : ℚ)
    | _, _ => True
  next clock op _ := match op with
    | .sleep seconds => clock + seconds
    | _ => clock

-- How the callers of wait_for_result configure it.
structure PollingConfig.Valid (config : PollingConfig) : Prop where
  initial : 0 < config.initialInterval
  max : config.initialInterval ≤ config.maxInterval
  backoff : 1 ≤ config.backoffFactor
  timeout : 0 ≤ config.timeout
  retries : 0 ≤ config.maxRetriesOnTransientError

-- The pause after `turn` others.
def PollingConfig.pause (config : PollingConfig) (turn : Nat) : ℚ :=
  min (config.initialInterval * config.backoffFactor ^ turn) config.maxInterval

-- The turns that may start in time.
def PollingConfig.turns (config : PollingConfig) : Nat :=
  ⌊config.timeout / config.initialInterval⌋₊ + 1

def cancelledByCaller (handle : JobHandle) : Exc :=
  Exc.cancelledError ("job " ++ handle.jobId ++ " cancelled by caller")

section protocol

variable (config : PollingConfig) (handle : JobHandle) (events : List (Event sig))

-- The backend has just answered that the job is over.
def Finished (past : List (Event sig)) : Prop :=
  ∃ status, past.getLast? = some ⟨.pollStatus handle, .ok status⟩ ∧
    (status = .completed ∨ status = .failed)

-- Which calls a wait makes, how often and in which order.
structure CallProtocol : Prop where
  polls : polls events ≤ config.turns
  sleeps : sleeps events = (List.range (sleeps events).length).map config.pause
  fetched : ∀ before other answer after, events = before ++ ⟨.fetchResult other, answer⟩ :: after →
    other = handle ∧ Finished handle before
  fetches : (fetches events : Int) ≤ config.maxRetriesOnTransientError + 1
  cancels : cancels events ≤ 1
  quiet : ∀ before other answer after, events = before ++ ⟨.cancel other, answer⟩ :: after →
    ∀ event ∈ after, event.1.isBackendCall = false

-- The wait ended itself, with an exception that no backend call raised.
def TimedOut (result : Except Exc ExperimentResult) : Prop :=
  result = .error (pollingTimeoutError handle config.timeout) ∧
    ¬ Raised events (pollingTimeoutError handle config.timeout)

def CancelledByCaller (result : Except Exc ExperimentResult) : Prop :=
  result = .error (cancelledByCaller handle) ∧ ¬ Raised events (cancelledByCaller handle)

-- What a wait may do next.
def MayCall (fuel : Nat) (past : List (Event sig)) : Effect → Prop
  | .monotonic => True
  | .cancelled => cancels past = 0
  | .sleep seconds => cancels past = 0 ∧ seconds = config.pause (sleeps past).length
  | .pollStatus other => other = handle ∧ cancels past = 0 ∧ polls past < config.turns
  | .fetchResult other => other = handle ∧ cancels past = 0 ∧
      (fetches past : Int) ≤ config.maxRetriesOnTransientError ∧ Finished handle past
  | .cancel other => other = handle ∧ cancels past = 0
  | .hang => fuel ≤ config.turns
  | _ => False

-- Sleeping takes at least as long as asked for, and cancel does not raise.
def MayAnswer (clock : ℚ) (past : List (Event sig)) (op : Effect) (answer : op.Ans) : Prop :=
  clocked.admits (clocked.after clock past) op answer ∧
    match op, answer with
    | .cancel _, cancelled => cancelled = Except.ok ()
    | _, _ => True

def calling (fuel : Nat) (clock : ℚ) : Monitor sig (List (Event sig)) :=
  Monitor.recording (MayCall config handle fuel) (MayAnswer clock)

-- Before the turn number `turn` of the loop, counted from zero.
structure Turn (clock start : ℚ) (past : List (Event sig)) (turn : Nat) (retries : Int) :
    Prop where
  polls : Orchestrator.polls past = turn
  sleeps : Orchestrator.sleeps past = (List.range turn).map config.pause
  fetches : (Orchestrator.fetches past : Int) = retries
  retries : retries ≤ config.maxRetriesOnTransientError
  cancels : Orchestrator.cancels past = 0
  raised : ∀ exc, Raised past exc → isTransient exc = true
  time : start + turn * config.initialInterval ≤ clocked.after clock past
  bound : turn ≤ config.turns
  exact : stopwatch.Admits clock past →
    start = clock ∧ (Orchestrator.sleeps past).sum ≤ config.timeout + config.maxInterval

-- Where a wait has ended: it has cancelled the job exactly if it gave up itself.
def WaitEnded (clock : ℚ) (past : List (Event sig)) (result : Except Exc ExperimentResult) : Prop :=
  (0 < cancels past ↔ TimedOut config handle past result ∨ CancelledByCaller handle past result) ∧
    (stopwatch.Admits clock past → (sleeps past).sum ≤ config.timeout + config.maxInterval)

end protocol

end QuantumPlatform.Orchestrator

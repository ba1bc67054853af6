import QuantumPlatform.Orchestrator.Log

namespace QuantumPlatform.Orchestrator

open Process Python QuantumPlatform.Core

-- The job ended COMPLETED and returned counts.
def Delivered (result : ExperimentResult) : Prop :=
  result.status = .completed ∧ result.counts ≠ none

-- How the backends here end a job: a FAILED result comes without counts.
def Ended (result : ExperimentResult) : Prop :=
  result.status = .completed ∨ result.status = .failed ∧ result.counts = none

-- Only evaluate_energy asserts that a result has counts.
def assertsCounts (message : Message) : Bool :=
  match ExperimentTask.fromJson message.body with
  | .ok task => task.algorithm.isStr "vqe"
  | .error _ => false

namespace Log

-- Every job was delivered, or it came without counts to a task that asserts them.
def Complete (asserts : Bool) (log : Log) : Prop :=
  ∀ entry ∈ log.fetched, Delivered entry.2 ∨ asserts = true ∧ entry.2.counts = none

-- A terminal failure of the backend becomes a failure of the experiment.
structure FailuresReported (log : Log) : Prop where
  failed : (∃ entry ∈ log.fetched, entry.2.status = .failed) →
    ∀ resultMessage ∈ log.reported, resultMessage.status = .str "failed"
  completed : (∃ resultMessage ∈ log.reported, resultMessage.status = .str "completed") →
    ∀ handle ∈ log.submitted, ∃ result, (handle, result) ∈ log.fetched ∧ Delivered result

def Covered (log : Log) : Prop :=
  ∀ handle ∈ log.submitted, ∃ result, (handle, result) ∈ log.fetched

def Counted (log : Log) : Prop := ∀ entry ∈ log.fetched, entry.2.counts ≠ none

-- At most one job was run, and its result fetched.
def Single (log : Log) : Prop :=
  log.submitted = [] ∧ log.fetched = [] ∨
    ∃ handle result, log.submitted = [handle] ∧ log.fetched = [(handle, result)]

-- No job was run yet.
def Idle (log : Log) : Prop := log.submitted = [] ∧ log.fetched = []

-- The log when execute_task ends.
def Executed (asserts : Bool) (log : Log) : Except Exc Json → Prop
  | .ok _ => log.reported = [] ∧ if asserts then log.Covered ∧ log.Counted else log.Single
  | .error exc => log.reported = [] ∧ (log.Counted ∨ asserts = true ∧ exc.isException = true)

-- What the reports of a finished run say about its jobs.
structure Judged (asserts : Bool) (log : Log) : Prop where
  sound : log.Complete asserts → log.FailuresReported
  told : log.Complete asserts → (∃ entry ∈ log.fetched, entry.2.status = .failed) →
    ∃ resultMessage, log.reported = [resultMessage] ∧ resultMessage.status = .str "failed"
  precise : (∀ entry ∈ log.fetched, Ended entry.2) → log.FailuresReported → log.Complete asserts

end Log

-- Whatever a run does next, its reports are sound so far.
def judging (asserts : Bool) : Monitor sig Log where
  allowed log _ := log.Complete asserts → log.FailuresReported
  admits _ _ _ := True
  next log op answer := log.after op answer

end QuantumPlatform.Orchestrator

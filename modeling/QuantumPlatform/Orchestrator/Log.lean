import QuantumPlatform.Orchestrator.Worker

namespace QuantumPlatform.Orchestrator

open Process Python QuantumPlatform.Core

-- What a run has done, in order: the jobs, the results fetched for them, what
-- was reported and saved. `escaped` says that the backend, Kafka or the
-- calibration store raised what is no Exception, and `broken` that a call of
-- the broker or the lookup of the calibration state raised anything.
structure Log where
  submitted : List JobHandle := []
  fetched : List (JobHandle × ExperimentResult) := []
  cancelled : Bool := false
  escaped : Bool := false
  broken : Bool := false
  reported : List ExperimentResultMessage := []
  acks : Nat := 0
  waits : Nat := 0
  saved : List (Option (JobHandle × ExperimentResult) × CalibrationResult) := []

namespace Log

def raised (log : Log) (exc : Exc) : Log :=
  if exc.isException then log else { log with escaped := true }

def raisedBy (log : Log) : Outcome → Log
  | .returned => log
  | .raised exc _ => log.raised exc

def brokenBy (log : Log) : Outcome → Log
  | .returned => log
  | .raised _ _ => { log with broken := true }

def report (log : Log) (queue : String) (message : Message) : Log :=
  if queue = RESULTS_QUEUE_NAME then
    match ExperimentResultMessage.fromJson message.body with
    | .ok resultMessage => { log with reported := log.reported ++ [resultMessage] }
    | .error _ => log
  else log

section frame

variable (log : Log) (exc : Exc) (outcome : Outcome) (queue : String) (message : Message)

-- An exception shows in `escaped` only, a failing broker in `broken` only.
@[simp] theorem raised_submitted : (log.raised exc).submitted = log.submitted := by
  unfold raised; split_ifs <;> rfl

@[simp] theorem raised_fetched : (log.raised exc).fetched = log.fetched := by
  unfold raised; split_ifs <;> rfl

@[simp] theorem raised_reported : (log.raised exc).reported = log.reported := by
  unfold raised; split_ifs <;> rfl

@[simp] theorem raised_broken : (log.raised exc).broken = log.broken := by
  unfold raised; split_ifs <;> rfl

@[simp] theorem raised_acks : (log.raised exc).acks = log.acks := by
  unfold raised; split_ifs <;> rfl

@[simp] theorem raised_waits : (log.raised exc).waits = log.waits := by
  unfold raised; split_ifs <;> rfl

@[simp] theorem raised_saved : (log.raised exc).saved = log.saved := by
  unfold raised; split_ifs <;> rfl

@[simp] theorem raisedBy_submitted : (log.raisedBy outcome).submitted = log.submitted := by
  cases outcome
  · rfl
  · exact raised_submitted log _

@[simp] theorem raisedBy_reported : (log.raisedBy outcome).reported = log.reported := by
  cases outcome
  · rfl
  · exact raised_reported log _

@[simp] theorem raisedBy_fetched : (log.raisedBy outcome).fetched = log.fetched := by
  cases outcome
  · rfl
  · exact raised_fetched log _

@[simp] theorem raisedBy_saved : (log.raisedBy outcome).saved = log.saved := by
  cases outcome
  · rfl
  · exact raised_saved log _

@[simp] theorem brokenBy_submitted : (log.brokenBy outcome).submitted = log.submitted := by
  cases outcome <;> rfl

@[simp] theorem brokenBy_reported : (log.brokenBy outcome).reported = log.reported := by
  cases outcome <;> rfl

@[simp] theorem brokenBy_fetched : (log.brokenBy outcome).fetched = log.fetched := by
  cases outcome <;> rfl

@[simp] theorem brokenBy_saved : (log.brokenBy outcome).saved = log.saved := by
  cases outcome <;> rfl

@[simp] theorem report_submitted : (log.report queue message).submitted = log.submitted := by
  unfold report
  split_ifs
  · split <;> rfl
  · rfl

@[simp] theorem report_fetched : (log.report queue message).fetched = log.fetched := by
  unfold report
  split_ifs
  · split <;> rfl
  · rfl

@[simp] theorem report_saved : (log.report queue message).saved = log.saved := by
  unfold report
  split_ifs
  · split <;> rfl
  · rfl

end frame

def after (log : Log) : (op : Effect) → op.Ans → Log
  | .submit _, answer => match answer with
      | .ok handle => { log with submitted := log.submitted ++ [handle] }
      | .error exc => log.raised exc
  | .pollStatus _, answer => match answer with
      | .ok .cancelled => { log with cancelled := true }
      | .ok _ => log
      | .error exc => log.raised exc
  | .fetchResult handle, answer => match answer with
      | .ok result => { log with fetched := log.fetched ++ [(handle, result)] }
      | .error exc => log.raised exc
  | .cancel _, answer => match answer with
      | .ok _ => log
      | .error exc => log.raised exc
  | .kafkaSend _ _, outcome => log.raisedBy outcome
  | .calibrationSave result, outcome =>
      { log with saved := log.saved ++ [(log.fetched.getLast?, result)] }.raisedBy outcome
  | .calibrationGet _, answer => match answer with
      | .ok _ => log
      | .error _ => { log with broken := true }
  | .publish queue message, outcome => (log.report queue message).brokenBy outcome
  | .declareQueue _, outcome => log.brokenBy outcome
  | .ack, outcome => { log with acks := log.acks + 1 }.brokenBy outcome
  | .triggerWait _, _ => { log with waits := log.waits + 1 }
  | _, _ => log

-- No job was cancelled and nothing escaped.
def Calm (log : Log) : Prop := log.cancelled = false ∧ log.escaped = false

-- The log after a wait for `handle` that ended with `outcome`.
def Waited (log : Log) (handle : JobHandle) (later : Log) :
    Except Exc ExperimentResult → Prop
  | .ok result => later = { log with fetched := log.fetched ++ [(handle, result)] }
  | .error exc =>
      exc.isException = true ∧ later = log ∨
        exc.isException = false ∧
          (later = { log with cancelled := true } ∨ later = { log with escaped := true })

end Log

def logging : Monitor sig Log where
  allowed _ _ := True
  admits _ _ _ := True
  next log op answer := log.after op answer

-- The log of a whole run.
def logOf (events : List (Event sig)) : Log := logging.after {} events

end QuantumPlatform.Orchestrator

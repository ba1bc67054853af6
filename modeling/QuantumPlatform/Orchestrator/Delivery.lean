import QuantumPlatform.Orchestrator.Worker

namespace QuantumPlatform.Orchestrator

open Process Python QuantumPlatform.Core

-- How far the handling of one delivery has come. `handed` says that another
-- copy or a terminal result has taken over, `retried` that it was a retry copy.
structure Progress where
  entered : Bool := false
  slept : Option ℚ := none
  handed : Bool := false
  retried : Bool := false
  acked : Bool := false

def isTerminalResult (message : Message) : Bool :=
  match ExperimentResultMessage.fromJson message.body with
  | .ok resultMessage => resultMessage.terminal
  | .error _ => false

-- A stored publish takes the responsibility off the delivery, unless it is a
-- result that is not terminal.
def handsOver (queue : String) (message : Message) : Bool :=
  queue ≠ RESULTS_QUEUE_NAME || isTerminalResult message

namespace Progress

def after (progress : Progress) : (op : Effect) → op.Ans → Progress
  | .handleMessage, _ => { progress with entered := true, slept := none }
  | .sleep seconds, _ => { progress with slept := some seconds }
  | .publish queue message, outcome =>
      { progress with
        slept := none,
        handed := progress.handed || (Outcome.stored outcome && handsOver queue message),
        retried := progress.retried || (Outcome.stored outcome && queue = TASK_QUEUE_NAME) }
  | .ack, outcome => { progress with slept := none, acked := progress.acked || outcome.stored }
  | _, _ => { progress with slept := none }

end Progress

variable (settings : Settings) (incoming : IncomingMessage)

-- The publishes that handling a delivery may make, each with what has to be
-- the case for it.
inductive Publishes (progress : Progress) : String → Message → Prop where
  | retry (redelivered : incoming.redelivered = true)
      (below : getRetryCount incoming.toMessage < MAX_RETRIES)
      (slept : progress.slept =
        some (computeBackoffDelay (getRetryCount incoming.toMessage + 1))) :
      Publishes progress TASK_QUEUE_NAME (retryCopy incoming.toMessage)
  | wait (entered : progress.entered = true) (task : ExperimentTask)
      (parsed : ExperimentTask.fromJson incoming.body = .ok task)
      (below : waitCount incoming.toMessage < settings.calibrationMaxWaitAttempts) :
      Publishes progress WAIT_QUEUE_NAME
        (waitCopy incoming.toMessage settings.calibrationWaitDelay)
  | exhausted (redelivered : incoming.redelivered = true)
      (spent : MAX_RETRIES ≤ getRetryCount incoming.toMessage) :
      Publishes progress DEAD_LETTER_QUEUE_NAME (deadLetterCopy incoming.toMessage)
  | malformed (entered : progress.entered = true) (exc : Exc)
      (unparsed : ExperimentTask.fromJson incoming.body = .error exc) :
      Publishes progress DEAD_LETTER_QUEUE_NAME (deadLetterCopy incoming.toMessage)
  | result (entered : progress.entered = true) (task : ExperimentTask)
      (parsed : ExperimentTask.fromJson incoming.body = .ok task)
      (resultMessage : ExperimentResultMessage)
      (named : resultMessage.experimentId = task.experimentId)
      (known : resultMessage.terminal = true ∨
        resultMessage.status = .str "waiting_for_calibration") :
      Publishes progress RESULTS_QUEUE_NAME { body := resultMessage.toJson }

-- Which calls the handling of a delivery may make: it computes only after
-- entering handle_message, which a redelivered message never does, it
-- publishes while it is responsible, and acks when it no longer is.
def Progress.Allowed (progress : Progress) : Effect → Prop
  | .handleMessage => incoming.redelivered = false ∧ progress.entered = false ∧
      progress.handed = false
  | .publish queue message =>
      progress.handed = false ∧ progress.acked = false ∧
        Publishes settings incoming progress queue message
  | .ack => progress.handed = true ∧ progress.acked = false
  | .declareQueue _ => True
  | .sleep seconds => progress.entered = true ∨
      seconds = computeBackoffDelay (getRetryCount incoming.toMessage + 1)
  | .calibrationSave _ => False
  | .triggerClear => False
  | .triggerWait _ => False
  | _ => progress.entered = true

def delivery : Monitor sig Progress where
  allowed progress op := progress.Allowed settings incoming op
  admits _ _ _ := True
  next progress op answer := progress.after op answer

-- A delivery that ends normally has been acknowledged.
def Done (progress : Progress) (result : Except Exc Unit) : Prop :=
  result = .ok () → progress.acked = true

end QuantumPlatform.Orchestrator

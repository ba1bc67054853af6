import QuantumPlatform.Orchestrator.Log
import QuantumPlatform.Orchestrator.Clock

namespace QuantumPlatform.Orchestrator

open Process Python QuantumPlatform.Core

namespace Log

-- No job was cancelled, nothing escaped, and the broker and the lookup of the
-- calibration state answered.
def Quiet (log : Log) : Prop := log.Calm ∧ log.broken = false

-- The task was reported once, unless no job was submitted for it.
def Reported (message : Message) (log : Log) : Prop :=
  log.submitted ≠ [] → ∃ (task : ExperimentTask) (resultMessage : ExperimentResultMessage),
    ExperimentTask.fromJson message.body = .ok task ∧ log.reported = [resultMessage] ∧
    resultMessage.experimentId = task.experimentId ∧ resultMessage.terminal = true

-- handle_message has contained whatever the backend did: it returned, the
-- delivery is acknowledged once, and the experiment reported once, as failed if
-- its job was cancelled.
structure Contained (message : Message) (log : Log) (result : Except Exc Unit) : Prop where
  returned : result = .ok ()
  acked : log.acks = 1
  reported : log.Reported message
  failed : log.cancelled = true →
    ∃ resultMessage, log.reported = [resultMessage] ∧ resultMessage.status = .str "failed"

-- The loop has gone through all its cycles, each up to its wait.
structure Survived (cycles : Nat) (log : Log) (result : Except Exc Unit) : Prop where
  returned : result = .ok ()
  waited : log.waits = cycles

-- What an exception tells about the log: an Exception leaves it as it should
-- be, and nothing else does.
def Tells (good : Log → Prop) (log : Log) (exc : Exc) : Prop :=
  good log ↔ exc.isException = true

-- A run that has not reported yet.
def Silent (log : Log) : Prop := log.acks = 0 ∧ log.reported = []

-- The log when handle_message ends.
def Handled (message : Message) (log : Log) : Except Exc Unit → Prop
  | .ok _ => log.Quiet ∧ log.acks = 1 ∧ log.Reported message
  | .error _ => ¬ log.Quiet

end Log

end QuantumPlatform.Orchestrator

import QuantumPlatform.Python.Json
import QuantumPlatform.Python.Dict

namespace QuantumPlatform

open Python

def TASK_QUEUE_NAME : String := "experiments"
def RESULTS_QUEUE_NAME : String := "experiment-results"

-- The dataclasses do not check their fields, so a decoded field is any JSON value.
structure ExperimentTask where
  experimentId : Json
  algorithm : Json
  params : Json

structure ExperimentResultMessage where
  experimentId : Json
  status : Json
  result : Json := .null
  error : Json := .null

namespace ExperimentTask

def toJson (task : ExperimentTask) : Body :=
  .json (.obj [("experiment_id", task.experimentId), ("algorithm", task.algorithm),
    ("params", task.params)])

def fromJson (body : Body) : Except Exc ExperimentTask := do
  let payload ← loads body
  let fields ← keywords ["experiment_id", "algorithm", "params"] [] payload
  return ⟨argument fields "experiment_id" .null, argument fields "algorithm" .null,
    argument fields "params" .null⟩

theorem fromJson_toJson (task : ExperimentTask) : fromJson task.toJson = .ok task := rfl

end ExperimentTask

namespace ExperimentResultMessage

def toJson (message : ExperimentResultMessage) : Body :=
  .json (.obj [("experiment_id", message.experimentId), ("status", message.status),
    ("result", message.result), ("error", message.error)])

def fromJson (body : Body) : Except Exc ExperimentResultMessage := do
  let payload ← loads body
  let fields ← keywords ["experiment_id", "status"] ["result", "error"] payload
  return ⟨argument fields "experiment_id" .null, argument fields "status" .null,
    argument fields "result" .null, argument fields "error" .null⟩

theorem fromJson_toJson (message : ExperimentResultMessage) :
    fromJson message.toJson = .ok message := rfl

def terminal (message : ExperimentResultMessage) : Bool :=
  message.status.isStr "completed" || message.status.isStr "failed"

end ExperimentResultMessage

-- A message on the wire: its body and its headers. The counters the services
-- keep there are integers.
structure Message where
  body : Body
  headers : Dict String Int := ∅
  expiration : Option ℚ := none

end QuantumPlatform

import QuantumPlatform.Api.Schemas

namespace QuantumPlatform.Api

open Process Python

def COMPLETED_EXPERIMENTS_TOPIC : String := "experiment-completed"

-- What the handlers of the API wait for.
inductive Effect where
  | uuid4
  | utcnow
  | storeGet (experimentId : Json)
  | storeSave (experiment : ExperimentResponse)
  | publishTask (queue : String) (body : Body)
  | kafkaSend (topic : String) (payload : ExperimentResponse) (key : String)
  | ack
  | reject

def Effect.Ans : Effect → Type
  | .uuid4 => String
  | .utcnow => DateTime
  | .storeGet _ => Except Exc (Option ExperimentResponse)
  | .storeSave _ => Outcome
  | .publishTask _ _ => Outcome
  | .kafkaSend _ _ _ => Outcome
  | .ack => Unit
  | .reject => Unit

abbrev sig : Signature := ⟨Effect, Effect.Ans⟩

def await (op : Effect) : Py sig op.Ans := @Py.await sig op

def storeGet (experimentId : Json) : Py sig (Option ExperimentResponse) := do
  Py.ofExcept (← await (.storeGet experimentId))

def storeSave (experiment : ExperimentResponse) : Py sig Unit := do
  Py.ofOutcome (← await (.storeSave experiment))

def publishTask (task : ExperimentTask) : Py sig Unit := do
  Py.ofOutcome (← await (.publishTask TASK_QUEUE_NAME task.toJson))

def publishCompletedExperiment (payload : ExperimentResponse) : Py sig Unit := do
  Py.ofOutcome (← await (.kafkaSend COMPLETED_EXPERIMENTS_TOPIC payload payload.id))

def submitExperiment (request : ExperimentRequest) : Py sig ExperimentResponse := do
  let experimentId ← await .uuid4
  let submittedAt ← await .utcnow
  let parameters := request.modelDump
  let response : ExperimentResponse :=
    { id := experimentId, algorithm := request.algorithm, status := .queued,
      submittedAt := submittedAt, parameters := parameters }
  storeSave response
  let task : ExperimentTask := ⟨.str experimentId, .str request.algorithm.value, parameters⟩
  Py.exceptException
    (do
      publishTask task
      return response)
    fun exc => do
      let completedAt ← await .utcnow
      let failed : ExperimentResponse :=
        { response with
          status := .failed, completedAt := some completedAt,
          error := .str ("failed to enqueue: " ++ exc.message) }
      storeSave failed
      return failed

-- `result_msg.status in status_by_message` hashes the status.
def statusByMessage (status : Json) : Except Exc (Option ExperimentStatus) :=
  if status.hashable then
    if status.isStr "waiting_for_calibration" then .ok (some .waitingForCalibration)
    else if status.isStr "completed" then .ok (some .completed)
    else if status.isStr "failed" then .ok (some .failed)
    else .ok none
  else .error (Exc.typeError "unhashable type")

def applyResultMessage (resultMsg : ExperimentResultMessage) :
    Py sig (Option ExperimentResponse) := do
  match ← storeGet resultMsg.experimentId with
  | none => return none
  | some existing =>
      match ← Py.ofExcept (statusByMessage resultMsg.status) with
      | none => return none
      | some status =>
          let completedAt ←
            if resultMsg.terminal then some <$> await .utcnow else pure none
          let updated : ExperimentResponse :=
            { existing with
              status := status, completedAt := completedAt,
              result := if resultMsg.terminal then resultMsg.result else existing.result,
              error := resultMsg.error }
          storeSave updated
          return some updated

-- What consume_results does with one message, inside `async with message.process()`.
def consumeMessage (body : Body) : Py sig Unit := do
  let resultMsg ← Py.ofExcept (ExperimentResultMessage.fromJson body)
  match ← applyResultMessage resultMsg with
  | some updated =>
      if resultMsg.terminal then publishCompletedExperiment updated
  | none => pure ()

-- `async with message.process()`: acks on normal exit; on an exception it
-- rejects without requeue and raises again.
def process (body : Py sig Unit) : Py sig Unit :=
  ExceptT.mk (body.run.bind fun
    | .ok _ => .call .ack fun _ => .ret (.ok ())
    | .error exc => .call .reject fun _ => .ret (.error exc))

end QuantumPlatform.Api

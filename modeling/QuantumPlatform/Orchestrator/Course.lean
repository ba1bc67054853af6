import QuantumPlatform.Orchestrator.Worker

namespace QuantumPlatform.Orchestrator

open Process Python QuantumPlatform.Core

-- What a worker can come to with a message: the redelivery was dealt with, the
-- body is no task, the task is rejected, has waited too often, has to wait, or
-- goes to execute_task.
inductive Course where
  | skipped
  | malformed
  | rejected (task : ExperimentTask) (observation : Option CalibrationObservation)
  | exhausted (task : ExperimentTask)
  | waiting (task : ExperimentTask)
  | executed (task : ExperimentTask)

section choose

variable (env : Env)

-- handle_message up to there, and what it does from there on.
def courseOfTask (message : Message) (task : ExperimentTask) : Py sig Course := do
  if task.algorithm.isStr "vqe" then
    let observation ← calibrationGet env.settings.backendName
    match ← (policy env).evaluateNow observation with
    | .reject => return .rejected task observation
    | .wait =>
        if waitCount message ≥ env.settings.calibrationMaxWaitAttempts then return .exhausted task
        else return .waiting task
    | .allow => return .executed task
  else
    return .executed task

def courseOfMessage (message : Message) : Py sig Course := do
  await .handleMessage
  match ExperimentTask.fromJson message.body with
  | .error _ => return .malformed
  | .ok task => courseOfTask env message task

def chooseCourse (incoming : IncomingMessage) : Py sig Course := do
  let shouldProcess ← handleRedelivery incoming TASK_QUEUE_NAME
  if !shouldProcess then return .skipped
  else courseOfMessage env incoming.toMessage

def Course.follow (message : Message) : Course → Py sig Unit
  | .skipped => ack
  | .malformed => do
      sendToDeadLetterQueue message
      ack
  | .rejected task observation => do
      publishResultMessage (failedResult task (← Py.ofExcept (rejectionError observation)))
      ack
  | .exhausted task => do
      publishResultMessage
        (failedResult task "calibration did not become fresh within the wait policy")
      ack
  | .waiting task => do
      await .triggerSet
      publishResultMessage (waitingResult task)
      reschedule message env.settings.calibrationWaitDelay
      ack
  | .executed task => runAndReport env task

end choose

section reading

variable (settings : Settings)

-- A fresh snapshot of the backend: its age is at most the freshness interval.
inductive ReadFresh (observation : CalibrationObservation) : List (Event sig) → Prop where
  | fresh (now : Int) (recent : now - observation.observedAt ≤ settings.calibrationFreshness) :
      ReadFresh observation
        [⟨.handleMessage, ()⟩, ⟨.calibrationGet settings.backendName, .ok (some observation)⟩,
          ⟨.utcnow, now⟩]

-- No snapshot of the backend, or one that is too old.
inductive ReadUnfit : List (Event sig) → Prop where
  | missing : ReadUnfit
      [⟨.handleMessage, ()⟩, ⟨.calibrationGet settings.backendName, .ok none⟩]
  | stale (observation : CalibrationObservation) (now : Int)
      (old : settings.calibrationFreshness < now - observation.observedAt) : ReadUnfit
        [⟨.handleMessage, ()⟩, ⟨.calibrationGet settings.backendName, .ok (some observation)⟩,
          ⟨.utcnow, now⟩]

def IsVqe (body : Body) (task : ExperimentTask) : Prop :=
  ExperimentTask.fromJson body = .ok task ∧ task.algorithm.isStr "vqe" = true

-- What has happened before a worker takes a course.
def Course.Justified (message : Message) (before : List (Event sig)) : Course → Prop
  | .skipped => True
  | .malformed => True
  | .rejected task observation => IsVqe message.body task ∧ ∃ snapshot,
      observation = some snapshot ∧ ReadFresh settings snapshot before ∧
      settings.calibrationRejectErrorRate ≤ snapshot.errorRate
  | .exhausted task => IsVqe message.body task ∧ ReadUnfit settings before ∧
      settings.calibrationMaxWaitAttempts ≤ waitCount message
  | .waiting task => IsVqe message.body task ∧ ReadUnfit settings before ∧
      waitCount message < settings.calibrationMaxWaitAttempts
  | .executed task => ExperimentTask.fromJson message.body = .ok task ∧
      (task.algorithm.isStr "vqe" = true → ∃ snapshot, ReadFresh settings snapshot before ∧
        snapshot.errorRate < settings.calibrationRejectErrorRate)

end reading

end QuantumPlatform.Orchestrator

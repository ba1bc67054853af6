import QuantumPlatform.Orchestrator.Calibration

namespace QuantumPlatform.Orchestrator

open Process Python QuantumPlatform.Core

-- A message as the broker delivers it.
structure IncomingMessage extends Message where
  redelivered : Bool := false

section retry_policy

def MAX_RETRIES : Int := 3
def BASE_DELAY_S : ℚ := 2
def BACKOFF_FACTOR : ℚ := 2
def DEAD_LETTER_QUEUE_NAME : String := "experiments.dlq"
def RETRY_COUNT_HEADER : String := "x-retry-count"

def getRetryCount (message : Message) : Int := message.headers.get RETRY_COUNT_HEADER 0

def computeBackoffDelay (retryCount : Int) : ℚ := BASE_DELAY_S * BACKOFF_FACTOR ^ (retryCount - 1)

-- The copy that schedule_retry publishes.
def retryCopy (message : Message) : Message :=
  { body := message.body,
    headers := message.headers.set RETRY_COUNT_HEADER (getRetryCount message + 1) }

def scheduleRetry (message : Message) (taskQueueName : String) : Py sig Unit := do
  let retryCount := getRetryCount message + 1
  await (.sleep (computeBackoffDelay retryCount))
  publish taskQueueName (retryCopy message)

def deadLetterCopy (message : Message) : Message :=
  { body := message.body, headers := message.headers }

def sendToDeadLetterQueue (message : Message) : Py sig Unit := do
  declareQueue DEAD_LETTER_QUEUE_NAME
  publish DEAD_LETTER_QUEUE_NAME (deadLetterCopy message)

def handleRedelivery (message : IncomingMessage) (taskQueueName : String) : Py sig Bool :=
  if !message.redelivered then pure true
  else do
    let retryCount := getRetryCount message.toMessage
    if retryCount ≥ MAX_RETRIES then
      sendToDeadLetterQueue message.toMessage
      return false
    else
      scheduleRetry message.toMessage taskQueueName
      return false

end retry_policy

section calibration_wait

def WAIT_QUEUE_NAME : String := "experiments.waiting-for-calibration"
def WAIT_COUNT_HEADER : String := "x-calibration-wait-count"

def waitCount (message : Message) : Int := message.headers.get WAIT_COUNT_HEADER 0

-- The copy that reschedule publishes, to expire after the delay.
def waitCopy (message : Message) (delay : ℚ) : Message :=
  { body := message.body,
    headers := message.headers.set WAIT_COUNT_HEADER (waitCount message + 1),
    expiration := some delay }

def reschedule (message : Message) (delay : ℚ) : Py sig Unit :=
  publish WAIT_QUEUE_NAME (waitCopy message delay)

end calibration_wait

def calibrationGet (backendName : String) : Py sig (Option CalibrationObservation) := do
  Py.ofExcept (← await (.calibrationGet backendName))

def publishResultMessage (resultMessage : ExperimentResultMessage) : Py sig Unit :=
  publish RESULTS_QUEUE_NAME { body := resultMessage.toJson }

-- The format spec .4f.
def fixed4 (value : ℚ) : String :=
  let scaled := (roundHalfEven (value * 10000)).natAbs
  let fraction := toString (scaled % 10000)
  (if value < 0 then "-" else "") ++ toString (scaled / 10000) ++ "." ++
    String.ofList (List.replicate (4 - fraction.length) '0') ++ fraction

variable (env : Env)

def policy : CalibrationPolicy :=
  ⟨env.settings.calibrationFreshness, env.settings.calibrationRejectErrorRate⟩

-- Formatting None would raise; the policy never rejects without an observation.
def rejectionError : Option CalibrationObservation → Except Exc String
  | some observation => .ok ("backend calibration rejected execution: bell parity error_rate=" ++
      fixed4 observation.errorRate)
  | none => .error (Exc.typeError "unsupported format string passed to NoneType.__format__")

def failedResult (task : ExperimentTask) (error : String) : ExperimentResultMessage :=
  { experimentId := task.experimentId, status := .str "failed", error := .str error }

def completedResult (task : ExperimentTask) (result : Json) : ExperimentResultMessage :=
  { experimentId := task.experimentId, status := .str "completed", result := result }

def waitingResult (task : ExperimentTask) : ExperimentResultMessage :=
  { experimentId := task.experimentId, status := .str "waiting_for_calibration" }

-- From `calibration_trigger.set()` on: the task goes to the wait queue.
def waitForCalibration (message : Message) (task : ExperimentTask) : Py sig Unit := do
  if waitCount message ≥ env.settings.calibrationMaxWaitAttempts then
    publishResultMessage
      (failedResult task "calibration did not become fresh within the wait policy")
    ack
  else
    await .triggerSet
    publishResultMessage (waitingResult task)
    reschedule message env.settings.calibrationWaitDelay
    ack

def runAndReport (task : ExperimentTask) : Py sig Unit := do
  let resultMessage ← Py.exceptException
    (do
      let result ← executeTask env task
      return completedResult task result)
    fun exc => return failedResult task exc.message
  publishResultMessage resultMessage
  ack

def handleTask (message : Message) (task : ExperimentTask) : Py sig Unit := do
  if task.algorithm.isStr "vqe" then
    let observation ← calibrationGet env.settings.backendName
    match ← (policy env).evaluateNow observation with
    | .reject =>
        publishResultMessage (failedResult task (← Py.ofExcept (rejectionError observation)))
        ack
    | .wait => waitForCalibration env message task
    | .allow => runAndReport env task
  else
    runAndReport env task

def handleMessage (message : Message) : Py sig Unit := do
  await .handleMessage
  match ExperimentTask.fromJson message.body with
  | .error _ =>
      sendToDeadLetterQueue message
      ack
  | .ok task => handleTask env message task

-- What the loop of main does with one message.
def consume (message : IncomingMessage) : Py sig Unit := do
  let shouldProcess ← handleRedelivery message TASK_QUEUE_NAME
  if !shouldProcess then ack
  else handleMessage env message.toMessage

end QuantumPlatform.Orchestrator

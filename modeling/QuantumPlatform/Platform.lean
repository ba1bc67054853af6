import QuantumPlatform.Api.Records
import QuantumPlatform.Broker

namespace QuantumPlatform

open Process Python Orchestrator

-- A running call of submit_experiment. `opened` is the id of the record it has
-- saved as queued, until a publish of the task is stored or the record is failed.
structure Call where
  opened : Option String := none
  rest : Api.Submission

-- What submit_experiment does to its record, in order. The store is the one in
-- memory, so its saves return; the publish may raise an Exception, and then the
-- message may be stored all the same.
def submission : Monitor Api.sig (Option String) where
  allowed
    | _, .uuid4 => True
    | _, .utcnow => True
    | opened, .storeSave experiment =>
        experiment.status = .queued ∧ opened = none ∨
          experiment.status.terminal = true ∧ (opened = none ∨ opened = some experiment.id)
    | opened, .publishTask queue body =>
        queue = TASK_QUEUE_NAME ∧ ∃ experimentId task, opened = some experimentId ∧
          body = ExperimentTask.toJson task ∧ task.experimentId = .str experimentId
    | _, _ => False
  admits
    | _, .storeSave _, outcome => outcome = Outcome.returned
    | _, .publishTask _ _, outcome => ∀ exc stored, outcome = Outcome.raised exc stored →
        exc.isException = true
    | _, _, _ => True
  next
    | _, .storeSave experiment, _ =>
        if experiment.status = .queued then some experiment.id else none
    | opened, .publishTask _ _, outcome => if Outcome.stored outcome then none else opened
    | opened, _, _ => opened

-- The API with its store, the running calls of submit_experiment and the
-- results it has consumed, and the broker with the workers.
structure Platform where
  store : Api.InMemoryExperimentStore := ∅
  calls : Multiset Call := 0
  consumed : Nat := 0
  broker : Broker := {}

namespace Platform

def brokerAfter (broker : Broker) : (op : Api.Effect) → op.Ans → Broker
  | .publishTask _ body, outcome =>
      if Outcome.stored outcome then broker.publish body else broker
  | _, _ => broker

inductive Label where
  | submit (request : Api.ExperimentRequest)
  | call (op : Api.Effect) (answer : op.Ans)
  | respond
  | consume (resultMsg : ExperimentResultMessage) (now : Api.DateTime)
  | broker (label : Broker.Label)

-- The results queue is first in, first out, and a result message is applied
-- when it is consumed. Everything else interleaves freely.
inductive Step (settings : Settings) (externals : Externals) :
    Platform → Label → Platform → Prop where
  | submit (platform : Platform) (request : Api.ExperimentRequest) :
      Step settings externals platform (.submit request)
        { platform with calls := ⟨none, (Api.submitExperiment request).run⟩ ::ₘ platform.calls }
  | call (platform : Platform) (opened : Option String) (op : Api.Effect)
      (next : op.Ans → Api.Submission) (answer : op.Ans) (others : Multiset Call)
      (running : platform.calls = ⟨opened, .call op next⟩ ::ₘ others)
      (admits : submission.admits opened op answer) :
      Step settings externals platform (.call op answer)
        { platform with
          store := platform.store.after op answer,
          calls := ⟨submission.next opened op answer, next answer⟩ ::ₘ others,
          broker := brokerAfter platform.broker op answer }
  | respond (platform : Platform) (opened : Option String)
      (result : Except Exc Api.ExperimentResponse) (others : Multiset Call)
      (running : platform.calls = ⟨opened, .ret result⟩ ::ₘ others) :
      Step settings externals platform .respond { platform with calls := others }
  | consume (platform : Platform) (body : Body) (resultMsg : ExperimentResultMessage)
      (now : Api.DateTime) (waiting : platform.broker.results[platform.consumed]? = some body)
      (decoded : ExperimentResultMessage.fromJson body = .ok resultMsg) :
      Step settings externals platform (.consume resultMsg now)
        { platform with
          store := platform.store.apply resultMsg now, consumed := platform.consumed + 1 }
  | broker (platform : Platform) (label : Broker.Label) (next : Broker)
      (internal : ∀ body, label ≠ .publish body)
      (last : Broker.Step settings externals platform.broker label next) :
      Step settings externals platform (.broker label) { platform with broker := next }

-- The results the API has not consumed yet.
def waiting (platform : Platform) : List Body :=
  platform.broker.results.drop platform.consumed

-- An experiment that is not over: a copy of its task is somewhere, or a
-- terminal result is on its way, or its call of submit_experiment still runs.
def Accounted (platform : Platform) (experimentId : String) : Prop :=
  ∀ experiment, platform.store.get experimentId = some experiment →
    experiment.status.terminal = false →
    (∃ (copy : Copy) (task : ExperimentTask),
      (copy ∈ platform.broker.taskQueue ∨ copy ∈ platform.broker.waitQueue ∨
        ∃ delivery ∈ platform.broker.inFlight,
          delivery.copy = copy ∧ delivery.progress.acked = false) ∧
      ExperimentTask.fromJson copy.message.body = .ok task ∧
      task.experimentId = .str experimentId) ∨
    (∃ resultMsg : ExperimentResultMessage, resultMsg.toJson ∈ platform.waiting ∧
      resultMsg.experimentId = .str experimentId ∧ resultMsg.terminal = true) ∨
    ∃ call ∈ platform.calls, call.opened = some experimentId

-- No worker is given a well-formed task that has used up its retries.
def Label.Unspent : Label → Prop
  | .broker (.deliver copy) => copy.redelivered = true →
      MAX_RETRIES ≤ getRetryCount copy.message →
      ∀ task, ExperimentTask.fromJson copy.message.body ≠ .ok task
  | _ => True

end Platform

end QuantumPlatform

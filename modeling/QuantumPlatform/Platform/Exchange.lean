import QuantumPlatform.Api.Records
import QuantumPlatform.Platform

namespace QuantumPlatform

open Process Python Orchestrator

open Api (SubmitPhase submitting Submitting Applying)

-- The id in a task or in a result is that of a stored record.
def Api.InMemoryExperimentStore.Known (store : Api.InMemoryExperimentStore) (key : Json) : Prop :=
  ∃ experimentId experiment, key = .str experimentId ∧ store.get experimentId = some experiment

-- What apply_result_message does with the store, once it has read a record or not.
-- A stray message names an id that was not found, or an unknown status.
def applying (resultMsg : ExperimentResultMessage) (stray : Bool) :
    Monitor Api.sig (Option Api.ExperimentResponse) where
  allowed
    | _, .utcnow => True
    | none, .storeGet key => key = resultMsg.experimentId
    | some existing, .storeSave experiment =>
        stray = false ∧ experiment.identity = existing.identity ∧ experiment.Consistent
    | _, _ => False
  admits
    | _, .storeGet _, answer => ∀ existing, answer = Except.ok (some existing) →
        stray = true → Api.recognised resultMsg.status = none
    | _, _, _ => True
  next := Api.readAfter

-- The store with everything that rewrites its records, and the broker with the workers.
structure Exchange extends Api.Records where
  broker : Broker := {}

namespace Exchange

-- When it is looked up, the id is not in the store, or the status is none that
-- apply_result_message knows.
def Unknown (exchange : Exchange) (resultMsg : ExperimentResultMessage) : Api.Effect → Prop
  | .storeGet key => Api.recognised resultMsg.status = none ∨
      ∀ existing, exchange.store.lookup key ≠ .ok (some existing)
  | _ => True

inductive Label where
  | submit (request : Api.ExperimentRequest)
  | perform (op : Api.Effect) (answer : op.Ans)
  | respond
  | receive (resultMsg : ExperimentResultMessage) (stray : Bool)
  | apply (resultMsg : ExperimentResultMessage) (stray : Bool) (op : Api.Effect) (answer : op.Ans)
  | applied
  | broker (label : Broker.Label)

-- Any number of calls, suspended at every await. A result message may be applied
-- whenever the worker has published it, as often as one likes.
inductive Step (settings : Settings) (externals : Externals) :
    Exchange → Label → Exchange → Prop where
  | submit (exchange : Exchange) (request : Api.ExperimentRequest) :
      Step settings externals exchange (.submit request)
        { exchange with
          submissions :=
            { rest := (Api.submitExperiment request).run } ::ₘ exchange.submissions }
  | perform (exchange : Exchange) (phase : SubmitPhase) (op : Api.Effect)
      (next : op.Ans → Api.Submission) (answer : op.Ans) (others : Multiset Submitting)
      (running : exchange.submissions = ⟨phase, .call op next⟩ ::ₘ others)
      (answers : exchange.Answers op answer) :
      Step settings externals exchange (.perform op answer)
        { exchange with
          store := exchange.store.after op answer,
          issued := exchange.issuedAfter op answer,
          submissions := ⟨submitting.next phase op answer, next answer⟩ ::ₘ others,
          broker := Platform.brokerAfter exchange.broker op answer }
  | respond (exchange : Exchange) (phase : SubmitPhase) (result : Except Exc Api.ExperimentResponse)
      (others : Multiset Submitting)
      (running : exchange.submissions = ⟨phase, .ret result⟩ ::ₘ others) :
      Step settings externals exchange .respond { exchange with submissions := others }
  | receive (exchange : Exchange) (body : Body) (resultMsg : ExperimentResultMessage)
      (reported : body ∈ exchange.broker.results)
      (decoded : ExperimentResultMessage.fromJson body = .ok resultMsg) :
      Step settings externals exchange (.receive resultMsg false)
        { exchange with
          applications :=
            ⟨resultMsg, false, none, (Api.applyResultMessage resultMsg).run⟩ ::ₘ
              exchange.applications }
  | stray (exchange : Exchange) (resultMsg : ExperimentResultMessage) :
      Step settings externals exchange (.receive resultMsg true)
        { exchange with
          applications :=
            ⟨resultMsg, true, none, (Api.applyResultMessage resultMsg).run⟩ ::ₘ
              exchange.applications }
  | apply (exchange : Exchange) (resultMsg : ExperimentResultMessage) (stray : Bool)
      (existing : Option Api.ExperimentResponse) (op : Api.Effect)
      (next : op.Ans → Program Api.sig (Except Exc (Option Api.ExperimentResponse)))
      (answer : op.Ans) (others : Multiset Applying)
      (running : exchange.applications = ⟨resultMsg, stray, existing, .call op next⟩ ::ₘ others)
      (answers : exchange.Answers op answer)
      (unknown : stray = true → exchange.Unknown resultMsg op) :
      Step settings externals exchange (.apply resultMsg stray op answer)
        { exchange with
          store := exchange.store.after op answer,
          applications :=
            ⟨resultMsg, stray, (applying resultMsg stray).next existing op answer, next answer⟩ ::ₘ
              others }
  | applied (exchange : Exchange) (resultMsg : ExperimentResultMessage) (stray : Bool)
      (existing : Option Api.ExperimentResponse)
      (result : Except Exc (Option Api.ExperimentResponse)) (others : Multiset Applying)
      (running : exchange.applications = ⟨resultMsg, stray, existing, .ret result⟩ ::ₘ others) :
      Step settings externals exchange .applied { exchange with applications := others }
  | broker (exchange : Exchange) (label : Broker.Label) (next : Broker)
      (internal : ∀ body, label ≠ .publish body)
      (last : Broker.Step settings externals exchange.broker label next) :
      Step settings externals exchange (.broker label) { exchange with broker := next }

-- What a step is to the records, if it is one of theirs.
def Label.records : Label → Option Api.Records.Label
  | .submit request => some (.submit request)
  | .perform op answer => some (.perform op answer)
  | .respond => some .respond
  | .receive resultMsg _ => some (.receive resultMsg)
  | .apply resultMsg _ op answer => some (.apply resultMsg op answer)
  | .applied => some .applied
  | .broker _ => none

def SparingStep (settings : Settings) (externals : Externals) (exchange : Exchange) (label : Label)
    (next : Exchange) : Prop :=
  Step settings externals exchange label next ∧ ∀ own ∈ label.records, exchange.toRecords.Spares own

-- Whatever happens, the records are consistent, and every task and every result
-- is about one of them.
structure Recorded (exchange : Exchange) : Prop where
  consistent : ∀ experimentId experiment, exchange.store.get experimentId = some experiment →
    experiment.id = experimentId ∧ experiment.Consistent
  tasks : ∀ copy, exchange.broker.Has copy → ∃ task,
    ExperimentTask.fromJson copy.message.body = .ok task ∧ exchange.store.Known task.experimentId
  results : ∀ body ∈ exchange.broker.results, ∃ resultMsg,
    ExperimentResultMessage.fromJson body = .ok resultMsg ∧
    exchange.store.Known resultMsg.experimentId
  received : ∀ application ∈ exchange.applications, application.stray = false →
    exchange.store.Known application.resultMsg.experimentId

abbrev Transition := Exchange × Label × Exchange

-- A stray message changes nothing, and any other message only the record it is
-- about.
def Local (transition : Transition) : Prop := match transition.2.1 with
  | .apply resultMsg stray _ _ =>
      if stray then transition.2.2.store = transition.1.store
      else ∀ experimentId, resultMsg.experimentId ≠ .str experimentId →
        transition.2.2.store.get experimentId = transition.1.store.get experimentId
  | .perform _ _ => True
  | _ => transition.2.2.store = transition.1.store

-- The step at which a record comes into the store.
def Opens (transition : Transition) (first : Api.ExperimentResponse) : Prop :=
  transition.1.store.get first.id = none ∧ transition.2.2.store.get first.id = some first

end Exchange

end QuantumPlatform

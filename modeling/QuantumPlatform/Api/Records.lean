import QuantumPlatform.Api.Service
import QuantumPlatform.Process.Run
import Mathlib.Data.Multiset.AddSub

namespace QuantumPlatform.Api

open Process Python

-- The store, the clock and the completion topic as one handler sees them when
-- no call to them fails.
structure World where
  store : InMemoryExperimentStore
  now : DateTime
  completed : List ExperimentResponse := []

def World.answer : (op : Effect) → World → op.Ans × World
  | .uuid4, world => ("", world)
  | .utcnow, world => (world.now, world)
  | .storeGet experimentId, world => (world.store.lookup experimentId, world)
  | .storeSave experiment, world =>
      (.returned, { world with store := world.store.save experiment })
  | .publishTask _ _, world => (.returned, world)
  | .kafkaSend _ payload _, world =>
      (.returned, { world with completed := world.completed ++ [payload] })
  | .ack, world => ((), world)
  | .reject, world => ((), world)

-- The status a result message names, if status_by_message has it.
def recognised (status : Json) : Option ExperimentStatus :=
  match statusByMessage status with
  | .ok found => found
  | .error _ => none

-- The record apply_result_message builds from the stored one.
def ExperimentResponse.update (existing : ExperimentResponse) (status : ExperimentStatus)
    (resultMsg : ExperimentResultMessage) (now : DateTime) : ExperimentResponse :=
  { existing with
    status := status
    completedAt := if resultMsg.terminal then some now else none
    result := if resultMsg.terminal then resultMsg.result else existing.result
    error := resultMsg.error }

-- One whole call of apply_result_message at a given reading of the clock.
def InMemoryExperimentStore.apply (store : InMemoryExperimentStore)
    (resultMsg : ExperimentResultMessage) (now : DateTime) : InMemoryExperimentStore :=
  ((applyResultMessage resultMsg).run.exec World.answer { store, now : World }).2.store

def InMemoryExperimentStore.after (store : InMemoryExperimentStore) :
    (op : Effect) → op.Ans → InMemoryExperimentStore
  | .storeSave experiment, outcome => if outcome.stored then store.save experiment else store
  | _, _ => store

-- completed_at is set exactly in the terminal records, and error in the failed ones.
structure ExperimentResponse.Consistent (experiment : ExperimentResponse) : Prop where
  completedAt : experiment.completedAt.isSome = experiment.status.terminal
  error : experiment.error ≠ .null ↔ experiment.status = .failed

-- What no later save of a record may change.
def ExperimentResponse.identity (experiment : ExperimentResponse) :
    String × Algorithm × DateTime × Json :=
  (experiment.id, experiment.algorithm, experiment.submittedAt, experiment.parameters)

-- Every record is still there, with the same identity.
def InMemoryExperimentStore.Extends (store later : InMemoryExperimentStore) : Prop :=
  ∀ experimentId old, store.get experimentId = some old →
    ∃ new, later.get experimentId = some new ∧ new.identity = old.identity

-- What a terminal record must never change again.
def ExperimentResponse.outcome (experiment : ExperimentResponse) :
    ExperimentStatus × Json × Json × Option DateTime :=
  (experiment.status, experiment.result, experiment.error, experiment.completedAt)

def InMemoryExperimentStore.Keeps (before after : InMemoryExperimentStore) : Prop :=
  ∀ experimentId old, before.get experimentId = some old → old.status.terminal = true →
    ∃ new, after.get experimentId = some new ∧ new.outcome = old.outcome

-- A running call of submit_experiment is what is left of its coroutine.
abbrev Submission := Program sig (Except Exc ExperimentResponse)

-- Where a call of submit_experiment is: it has no id yet, or one that it has not
-- saved a record for, or it has saved this record.
inductive SubmitPhase where
  | started
  | issued (experimentId : String)
  | opened (record : ExperimentResponse)

-- What submit_experiment does with the store and the task queue, whatever fails.
def submitting : Monitor sig SubmitPhase where
  allowed
    | .started, .uuid4 => True
    | _, .utcnow => True
    | .issued experimentId, .storeSave experiment =>
        experiment.id = experimentId ∧ experiment.Consistent
    | .opened record, .storeSave experiment =>
        experiment.identity = record.identity ∧ experiment.Consistent ∧
          experiment.status = .failed
    | .opened record, .publishTask _ body =>
        ∃ task, ExperimentTask.fromJson body = .ok task ∧ task.experimentId = .str record.id
    | _, _ => False
  admits _ _ _ := True
  next
    | .started, .uuid4, experimentId => .issued experimentId
    | .issued experimentId, .storeSave experiment, outcome =>
        if Outcome.stored outcome then .opened experiment else .issued experimentId
    | phase, _, _ => phase

-- The record that a call of apply_result_message has read.
def readAfter : Option ExperimentResponse → (op : Effect) → op.Ans → Option ExperimentResponse
  | _, .storeGet _, .ok (some existing) => some existing
  | existing, _, _ => existing

-- What apply_result_message does with the store for any message: it saves the record that it
-- has read, with the status that the message names.
def updating (resultMsg : ExperimentResultMessage) : Monitor sig (Option ExperimentResponse) where
  allowed
    | _, .utcnow => True
    | none, .storeGet key => key = resultMsg.experimentId
    | some existing, .storeSave experiment =>
        experiment.identity = existing.identity ∧
          recognised resultMsg.status = some experiment.status
    | _, _ => False
  admits _ _ _ := True
  next := readAfter

-- A running call of submit_experiment.
structure Submitting where
  phase : SubmitPhase := .started
  rest : Submission

def Submitting.pending (call : Submitting) : Option String := match call.phase with
  | .issued experimentId => some experimentId
  | _ => none

-- A running call of apply_result_message: the message it was given, and the record it has
-- read. A stray message is one that no worker has published.
structure Applying where
  resultMsg : ExperimentResultMessage
  stray : Bool
  existing : Option ExperimentResponse := none
  rest : Program sig (Except Exc (Option ExperimentResponse))

-- The store with everything that rewrites its records. `issued` are the ids that uuid4 has
-- given out.
structure Records where
  store : InMemoryExperimentStore := ∅
  issued : List String := []
  submissions : Multiset Submitting := 0
  applications : Multiset Applying := 0

namespace Records

-- uuid4 never repeats an id, and a read that does not fail gives what is stored.
def Answers (records : Records) : (op : Effect) → op.Ans → Prop
  | .uuid4, experimentId => experimentId ∉ records.issued
  | .storeGet key, answer => answer = records.store.lookup key ∨ ∃ exc, answer = Except.error exc
  | _, _ => True

def issuedAfter (records : Records) : (op : Effect) → op.Ans → List String
  | .uuid4, experimentId => experimentId :: records.issued
  | _, _ => records.issued

inductive Label where
  | submit (request : ExperimentRequest)
  | perform (op : Effect) (answer : op.Ans)
  | respond
  | receive (resultMsg : ExperimentResultMessage)
  | apply (resultMsg : ExperimentResultMessage) (op : Effect) (answer : op.Ans)
  | applied

-- Any number of calls of submit_experiment and of apply_result_message, on any messages in
-- any order, suspended at every await.
inductive Step : Records → Label → Records → Prop where
  | submit (records : Records) (request : ExperimentRequest) :
      Step records (.submit request)
        { records with
          submissions := { rest := (submitExperiment request).run } ::ₘ records.submissions }
  | perform (records : Records) (phase : SubmitPhase) (op : Effect) (next : op.Ans → Submission)
      (answer : op.Ans) (others : Multiset Submitting)
      (running : records.submissions = ⟨phase, .call op next⟩ ::ₘ others)
      (answers : records.Answers op answer) :
      Step records (.perform op answer)
        { records with
          store := records.store.after op answer,
          issued := records.issuedAfter op answer,
          submissions := ⟨submitting.next phase op answer, next answer⟩ ::ₘ others }
  | respond (records : Records) (phase : SubmitPhase) (result : Except Exc ExperimentResponse)
      (others : Multiset Submitting)
      (running : records.submissions = ⟨phase, .ret result⟩ ::ₘ others) :
      Step records .respond { records with submissions := others }
  | receive (records : Records) (resultMsg : ExperimentResultMessage) (stray : Bool) :
      Step records (.receive resultMsg)
        { records with
          applications :=
            ⟨resultMsg, stray, none, (applyResultMessage resultMsg).run⟩ ::ₘ
              records.applications }
  | apply (records : Records) (resultMsg : ExperimentResultMessage) (stray : Bool)
      (existing : Option ExperimentResponse) (op : Effect)
      (next : op.Ans → Program sig (Except Exc (Option ExperimentResponse)))
      (answer : op.Ans) (others : Multiset Applying)
      (running : records.applications = ⟨resultMsg, stray, existing, .call op next⟩ ::ₘ others)
      (answers : records.Answers op answer) :
      Step records (.apply resultMsg op answer)
        { records with
          store := records.store.after op answer,
          applications := ⟨resultMsg, stray, readAfter existing op answer, next answer⟩ ::ₘ others }
  | applied (records : Records) (resultMsg : ExperimentResultMessage) (stray : Bool)
      (existing : Option ExperimentResponse) (result : Except Exc (Option ExperimentResponse))
      (others : Multiset Applying)
      (running : records.applications = ⟨resultMsg, stray, existing, .ret result⟩ ::ₘ others) :
      Step records .applied { records with applications := others }

def Reachable (records : Records) : Prop :=
  ∃ labels, Run Step {} labels records

-- The experiment has no record yet, or one that is not terminal.
def Unfinished (records : Records) (experimentId : String) : Prop :=
  ∀ old, records.store.get experimentId = some old → old.status.terminal = false

-- The two writes that may hit a finished experiment do not: the FAILED save of submit_experiment,
-- after its task could not be queued, and the save of apply_result_message. The QUEUED save, every
-- other operation and every save that fails may come at any time.
def Spares (records : Records) : Label → Prop
  | .perform (.storeSave experiment) outcome => experiment.status = .failed →
      Outcome.stored outcome = true → records.Unfinished experiment.id
  | .apply resultMsg (.storeSave _) outcome => Outcome.stored outcome = true →
      ∀ experimentId, resultMsg.experimentId = .str experimentId → records.Unfinished experimentId
  | _ => True

def SparingStep (records : Records) (label : Label) (next : Records) : Prop :=
  Step records label next ∧ records.Spares label

end Records

end QuantumPlatform.Api

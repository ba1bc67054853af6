import QuantumPlatform.Core.Backend
import QuantumPlatform.Process.Run
import Mathlib.Data.List.Dedup

namespace QuantumPlatform.Core

open Process Python

-- A circuit as its annotations declare it: `shots` is an int.
structure TypedCircuit extends Circuit where
  shotCount : Int
  shots_eq : shots = .int shotCount

structure JobResult extends ExperimentResult where
  metadata : List (String × Json) := []

def JobResult.retryable (result : JobResult) : Bool :=
  match findField result.metadata "retryable" with
  | some (.bool value) => value
  | _ => false

structure JobRecord where
  circuit : TypedCircuit
  status : JobStatus
  result : Option JobResult := none

-- What the backends of the repository differ in. `_run_job` runs in the
-- background: `Await` are the points where it may be suspended, and `resume` is
-- what it does from there to the next one, or to its end.
structure JobBackend where
  name : String
  Await : Type
  Answer : Await → Type
  scheduled : Await
  resume : String → (point : Await) → Answer point → JobRecord → JobRecord × Option Await
  fetchResult : String → JobRecord → Except Exc ExperimentResult
  cancel : JobRecord → JobRecord

def JobStatus.name : JobStatus → String
  | .queued => "QUEUED"
  | .running => "RUNNING"
  | .completed => "COMPLETED"
  | .failed => "FAILED"
  | .cancelled => "CANCELLED"

def notFinishedYet (jobId : String) (status : JobStatus) : Exc :=
  Exc.runtimeError ("job " ++ jobId ++ " not finished yet (status=JobStatus." ++ status.name ++ ")")

-- `assert record.result is not None`, and then what the backend does with it.
def JobRecord.fetch (record : JobRecord) (jobId : String)
    (found : JobResult → Except Exc ExperimentResult) : Except Exc ExperimentResult :=
  if record.status ≠ .completed ∧ record.status ≠ .failed then
    .error (notFinishedYet jobId record.status)
  else
    match record.result with
    | none => .error (Exc.assertionError "")
    | some result => found result

section aer

-- Before its first step, and while the executor runs the simulation.
inductive AerBackend.Await where
  | scheduled
  | simulating
deriving DecidableEq

variable (method : String) (excRepr : Exc → String)

namespace AerBackend

def name : String := "aer-simulator"

def Answer : Await → Type
  | .scheduled => Unit
  | .simulating => Except Exc (Dict String Int)

-- The status is not looked at again, neither at the start nor after the simulation.
def runJob (jobId : String) :
    (point : Await) → Answer point → JobRecord → JobRecord × Option Await
  | .scheduled, _, record => ({ record with status := .running }, some .simulating)
  | .simulating, .ok counts, record =>
      let metadata := [("backend", .str name), ("shots", record.circuit.shots),
        ("method", .str method)]
      ({ record with
        status := .completed,
        result := some ⟨⟨jobId, .completed, some counts, none⟩, metadata⟩ }, none)
  | .simulating, .error exc, record =>
      if exc.isException then
        let error := "simulation error: " ++ excRepr exc
        ({ record with
          status := .failed, result := some ⟨⟨jobId, .failed, none, some error⟩, []⟩ }, none)
      else (record, none)

def fetchResult (jobId : String) (record : JobRecord) : Except Exc ExperimentResult :=
  record.fetch jobId fun result => .ok result.toExperimentResult

def cancel (record : JobRecord) : JobRecord :=
  if record.status = .queued then { record with status := .cancelled } else record

end AerBackend

def aerBackend : JobBackend where
  name := AerBackend.name
  Await := AerBackend.Await
  Answer := AerBackend.Answer
  scheduled := .scheduled
  resume := AerBackend.runJob method excRepr
  fetchResult := AerBackend.fetchResult
  cancel := AerBackend.cancel

end aer

section mock_hw

-- Before its first step, and during the two sleeps.
inductive MockHardwareBackend.Await where
  | scheduled
  | queueing
  | running
deriving DecidableEq

variable (hardFailureRate transientFailureRate : ℚ)

namespace MockHardwareBackend

def name : String := "mock-hw"

-- What the random generator yields once the second sleep is over: the roll and
-- the bits of the four outcomes.
def Answer : Await → Type
  | .scheduled => Unit
  | .queueing => Unit
  | .running => ℚ × (Fin 4 → Nat)

-- `format(value, f"0{n}b")`
def formatBits (numQubits value : Nat) : String :=
  let digits := Nat.toDigits 2 value
  String.ofList (List.replicate (numQubits - digits.length) '0' ++ digits)

def fakeOutcomes (numQubits : Nat) (bits : Fin 4 → Nat) : List String :=
  let drawn := (List.ofFn bits).map fun bits => formatBits numQubits (bits % 2 ^ numQubits)
  drawn.dedup.mergeSort fun first second => decide (first ≤ second)

-- The shots are shared out evenly, the rest goes to the later outcomes.
def shareShots : List String → Int → Dict String Int → Dict String Int
  | [], _, counts => counts
  | outcome :: rest, shotsLeft, counts =>
      let share := shotsLeft / (rest.length + 1)
      shareShots rest (shotsLeft - share) (counts.set outcome share)

def fakeCounts (circuit : TypedCircuit) (bits : Fin 4 → Nat) : Dict String Int :=
  shareShots (fakeOutcomes circuit.numQubits bits) circuit.shotCount ∅

def rolled (jobId : String) (circuit : TypedCircuit) (roll : ℚ) (bits : Fin 4 → Nat) : JobResult :=
  if roll < hardFailureRate then
    ⟨⟨jobId, .failed, none, some "hardware fault: qubit readout error (non-retryable)"⟩, []⟩
  else if roll < hardFailureRate + transientFailureRate then
    ⟨⟨jobId, .failed, none, some "transient: calibration cycle in progress"⟩,
      [("retryable", .bool true)]⟩
  else
    ⟨⟨jobId, .completed, some (fakeCounts circuit bits), none⟩,
      [("backend", .str name), ("shots", circuit.shots)]⟩

-- After each sleep a job that was cancelled is left alone.
def runJob (jobId : String) :
    (point : Await) → Answer point → JobRecord → JobRecord × Option Await
  | .scheduled, _, record => (record, some .queueing)
  | .queueing, _, record =>
      if record.status = .cancelled then (record, none)
      else ({ record with status := .running }, some .running)
  | .running, (roll, bits), record =>
      if record.status = .cancelled then (record, none)
      else
        let result := rolled hardFailureRate transientFailureRate jobId record.circuit roll bits
        ({ record with status := result.status, result := some result }, none)

def fetchResult (jobId : String) (record : JobRecord) : Except Exc ExperimentResult :=
  record.fetch jobId fun result =>
    if result.status = .failed ∧ result.retryable then
      .error (transientBackendError (result.error.getD "None"))
    else .ok result.toExperimentResult

def cancel (record : JobRecord) : JobRecord :=
  if record.status = .queued ∨ record.status = .running then { record with status := .cancelled }
  else record

end MockHardwareBackend

def mockHardwareBackend : JobBackend where
  name := MockHardwareBackend.name
  Await := MockHardwareBackend.Await
  Answer := MockHardwareBackend.Answer
  scheduled := .scheduled
  resume := MockHardwareBackend.runJob hardFailureRate transientFailureRate
  fetchResult := MockHardwareBackend.fetchResult
  cancel := MockHardwareBackend.cancel

end mock_hw

section jobs

variable (backend : JobBackend)

-- A record of `_jobs`, and where the background task of its job is suspended.
-- A task that has ended is nowhere.
structure Job where
  record : JobRecord
  task : Option backend.Await

abbrev Jobs := Dict String (Job backend)

variable {backend}

def unknownJob (jobId : String) : Exc := Exc.keyError ("'unknown job_id=" ++ jobId ++ "'")

def Job.submitted (circuit : TypedCircuit) : Job backend :=
  ⟨⟨circuit, .queued, none⟩, some backend.scheduled⟩

-- The background task runs on from `point`.
def Job.resume (job : Job backend) (jobId : String) (point : backend.Await)
    (answer : backend.Answer point) : Job backend :=
  let (record, task) := backend.resume jobId point answer job.record
  ⟨record, task⟩

def Job.cancel (job : Job backend) : Job backend :=
  { job with record := backend.cancel job.record }

namespace Jobs

variable (jobs : Jobs backend) (jobId : String)

def pollStatus : Except Exc JobStatus :=
  match jobs.get? jobId with
  | none => .error (unknownJob jobId)
  | some job => .ok job.record.status

def fetchResult : Except Exc ExperimentResult :=
  match jobs.get? jobId with
  | none => .error (unknownJob jobId)
  | some job => backend.fetchResult jobId job.record

def cancel : Jobs backend :=
  match jobs.get? jobId with
  | none => jobs
  | some job => jobs.set jobId job.cancel

inductive Label where
  | submit (jobId : String)
  | resume (jobId : String)
  | pollStatus (jobId : String) (answer : Except Exc JobStatus)
  | fetchResult (jobId : String) (answer : Except Exc ExperimentResult)
  | cancel (jobId : String)

-- The coroutines of a backend take turns at their awaits; between two of them
-- nothing else runs. A new job id is a fresh uuid.
inductive Step : Jobs backend → Label → Jobs backend → Prop where
  | submit (jobs : Jobs backend) (jobId : String) (circuit : TypedCircuit)
      (hfresh : jobs.get? jobId = none) :
      Step jobs (.submit jobId) (jobs.set jobId (.submitted circuit))
  | resume (jobs : Jobs backend) (jobId : String) (job : Job backend) (point : backend.Await)
      (answer : backend.Answer point) (hjob : jobs.get? jobId = some job)
      (htask : job.task = some point) :
      Step jobs (.resume jobId) (jobs.set jobId (job.resume jobId point answer))
  | pollStatus (jobs : Jobs backend) (jobId : String) :
      Step jobs (.pollStatus jobId (jobs.pollStatus jobId)) jobs
  | fetchResult (jobs : Jobs backend) (jobId : String) :
      Step jobs (.fetchResult jobId (jobs.fetchResult jobId)) jobs
  | cancel (jobs : Jobs backend) (jobId : String) :
      Step jobs (.cancel jobId) (jobs.cancel jobId)

end Jobs

-- How the status of a job may go on.
inductive JobStatus.Moves : JobStatus → JobStatus → Prop where
  | stay (status : JobStatus) : Moves status status
  | start : Moves .queued .running
  | complete : Moves .running .completed
  | fail : Moves .running .failed
  | cancelQueued : Moves .queued .cancelled
  | cancelRunning : Moves .running .cancelled

def JobStatus.Over (status : JobStatus) : Prop :=
  status = .completed ∨ status = .failed ∨ status = .cancelled

-- A transition of a backend: the jobs before and after it, and what happened.
abbrev Transition (backend : JobBackend) := Jobs backend × Jobs.Label × Jobs backend

-- What every job must do in a transition: it stays known, its status moves on
-- lawfully, and never again once it is over.
structure Job.Follows (job next : Job backend) : Prop where
  moves : job.record.status.Moves next.record.status
  final : job.record.status.Over → next.record.status = job.record.status

-- A job that has come to its end has a result, and fetching does not trip over
-- the assertion.
structure Job.Answerable (jobId : String) (job : Job backend) : Prop where
  result : job.record.status = .completed ∨ job.record.status = .failed →
    job.record.result.isSome = true
  fetch : ∀ exc, backend.fetchResult jobId job.record = .error exc → exc.cls ≠ .assertionError

structure Lifecycle (transitions : List (Transition backend)) : Prop where
  follows : ∀ transition ∈ transitions, ∀ jobId job, transition.1.get? jobId = some job →
    ∃ next, transition.2.2.get? jobId = some next ∧ job.Follows next
  answerable : ∀ transition ∈ transitions, ∀ jobId job, transition.2.2.get? jobId = some job →
    job.Answerable jobId

-- The background task of a job makes its first step although the job has been
-- cancelled by then.
def StartsCancelled (transition : Transition backend) : Prop :=
  ∃ jobId job, transition.2.1 = .resume jobId ∧ transition.1.get? jobId = some job ∧
    job.task = some backend.scheduled ∧ job.record.status = .cancelled

end jobs

end QuantumPlatform.Core

import QuantumPlatform.Tasks

namespace QuantumPlatform.Api

open Python

inductive Algorithm where
  | grover
  | satGrover
  | qpe
  | vqe
deriving DecidableEq, Repr

def Algorithm.value : Algorithm → String
  | .grover => "grover"
  | .satGrover => "sat_grover"
  | .qpe => "qpe"
  | .vqe => "vqe"

structure GroverRequest where
  markedStates : List String
  shots : Int := 1024
  markedStates_nonempty : markedStates ≠ []
  shots_bounds : 0 < shots ∧ shots ≤ 100000

structure SatGroverRequest where
  variableNames : List String
  expression : String
  shots : Int := 1024
  variableNames_bounds : 1 ≤ variableNames.length ∧ variableNames.length ≤ 8
  shots_bounds : 0 < shots ∧ shots ≤ 100000

structure QPERequest where
  phi : ℚ
  numCountingQubits : Int := 3
  shots : Int := 1024
  phi_bounds : 0 ≤ phi ∧ phi < 1
  numCountingQubits_bounds : 1 ≤ numCountingQubits ∧ numCountingQubits ≤ 10
  shots_bounds : 0 < shots ∧ shots ≤ 100000

structure VQERequest where
  molecule : String := "h2"
  shots : Int := 8192
  maxIterations : Int := 80
  molecule_known : molecule ∈ ["h2", "lih", "beh2"]
  shots_bounds : 0 < shots ∧ shots ≤ 100000
  maxIterations_bounds : 0 < maxIterations ∧ maxIterations ≤ 1000

inductive ExperimentRequest where
  | grover (request : GroverRequest)
  | satGrover (request : SatGroverRequest)
  | qpe (request : QPERequest)
  | vqe (request : VQERequest)

namespace ExperimentRequest

def algorithm : ExperimentRequest → Algorithm
  | .grover _ => .grover
  | .satGrover _ => .satGrover
  | .qpe _ => .qpe
  | .vqe _ => .vqe

-- request.model_dump(exclude={"algorithm"})
def modelDump : ExperimentRequest → Json
  | .grover request =>
      .obj [("marked_states", .arr (request.markedStates.map .str)), ("shots", .int request.shots)]
  | .satGrover request =>
      .obj [("variables", .arr (request.variableNames.map .str)),
        ("expression", .str request.expression), ("shots", .int request.shots)]
  | .qpe request =>
      .obj [("phi", .float request.phi), ("num_counting_qubits", .int request.numCountingQubits),
        ("shots", .int request.shots)]
  | .vqe request =>
      .obj [("molecule", .str request.molecule), ("shots", .int request.shots),
        ("max_iterations", .int request.maxIterations)]

end ExperimentRequest

inductive ExperimentStatus where
  | queued
  | waitingForCalibration
  | completed
  | failed
deriving DecidableEq, Repr

def ExperimentStatus.value : ExperimentStatus → String
  | .queued => "queued"
  | .waitingForCalibration => "waiting_for_calibration"
  | .completed => "completed"
  | .failed => "failed"

def ExperimentStatus.terminal : ExperimentStatus → Bool
  | .completed => true
  | .failed => true
  | _ => false

-- Microseconds since the epoch, UTC.
abbrev DateTime := Int

-- `result` and `error` are JSON values, `null` for None: model_copy(update=...)
-- stores what the result message carried without validating it.
structure ExperimentResponse where
  id : String
  algorithm : Algorithm
  status : ExperimentStatus
  submittedAt : DateTime
  parameters : Json := .null
  completedAt : Option DateTime := none
  result : Json := .null
  error : Json := .null

-- Every record is stored under its own id.
structure InMemoryExperimentStore where
  data : Dict String ExperimentResponse
  keyed : ∀ experimentId experiment, data.get? experimentId = some experiment →
    experiment.id = experimentId

namespace InMemoryExperimentStore

instance : EmptyCollection InMemoryExperimentStore :=
  ⟨∅, by simp⟩

theorem set_keyed (store : InMemoryExperimentStore) (experiment : ExperimentResponse)
    (experimentId : String) (found : ExperimentResponse)
    (hget : (store.data.set experiment.id experiment).get? experimentId = some found) :
    found.id = experimentId := by
  rw [Dict.get?_set] at hget
  split_ifs at hget with hid
  · rw [Option.some_inj] at hget
    rw [← hget, hid]
  · exact store.keyed experimentId found hget

def save (store : InMemoryExperimentStore) (experiment : ExperimentResponse) :
    InMemoryExperimentStore :=
  ⟨store.data.set experiment.id experiment, store.set_keyed experiment⟩

def get (store : InMemoryExperimentStore) (experimentId : String) : Option ExperimentResponse :=
  store.data.get? experimentId

-- The id in a result message is any JSON value: one that is not a string is
-- never a key, and one that cannot be hashed makes the lookup raise.
def lookup (store : InMemoryExperimentStore) : Json → Except Exc (Option ExperimentResponse)
  | .str experimentId => .ok (store.get experimentId)
  | experimentId =>
      if experimentId.hashable then .ok none else .error (Exc.typeError "unhashable type")

@[simp] theorem get_save_self (store : InMemoryExperimentStore) (experiment : ExperimentResponse) :
    (store.save experiment).get experiment.id = some experiment :=
  store.data.get?_set_self experiment.id experiment

theorem get_save_of_ne (store : InMemoryExperimentStore) (experiment : ExperimentResponse)
    (experimentId : String) (hne : experimentId ≠ experiment.id) :
    (store.save experiment).get experimentId = store.get experimentId :=
  store.data.get?_set_of_ne experiment.id experimentId experiment hne

theorem get_save (store : InMemoryExperimentStore) (experiment : ExperimentResponse)
    (experimentId : String) : (store.save experiment).get experimentId =
      if experimentId = experiment.id then some experiment else store.get experimentId :=
  store.data.get?_set experiment.id experimentId experiment

end InMemoryExperimentStore

end QuantumPlatform.Api

import QuantumPlatform.Orchestrator.Probe
import QuantumPlatform.Process.Run

namespace QuantumPlatform.Orchestrator

open Process Python QuantumPlatform.Core

-- The table backend_calibration_state: one row for each backend.
structure CalibrationStateStore where
  rows : Dict String CalibrationResult := ∅

namespace CalibrationStateStore

-- INSERT .. ON CONFLICT (backend_name) DO UPDATE, without a condition.
def save (store : CalibrationStateStore) (result : CalibrationResult) : CalibrationStateStore :=
  ⟨store.rows.set result.backendName result⟩

def get (store : CalibrationStateStore) (backendName : String) : Option CalibrationObservation :=
  (store.rows.get? backendName).map CalibrationResult.observation

end CalibrationStateStore

-- The workers, each with a calibration loop of its own, and the database that they share.
structure Workers (Worker : Type) where
  store : CalibrationStateStore
  loops : Worker → Program sig (Except Exc Unit)

namespace Workers

variable {Worker : Type}

-- An operation of one worker's loop, and its answer.
abbrev Label (Worker : Type) := Worker × Event sig

def storeAfter (store : CalibrationStateStore) : (op : Effect) → op.Ans → CalibrationStateStore
  | .calibrationSave result, outcome => if outcome.stored then store.save result else store
  | _, _ => store

section steps

variable [DecidableEq Worker]

-- A worker's clock reads what it reads: it may be behind another worker's, and be set back.
inductive Step : Workers Worker → Label Worker → Workers Worker → Prop where
  | perform (workers : Workers Worker) (worker : Worker) (op : Effect)
      (next : op.Ans → Program sig (Except Exc Unit)) (answer : op.Ans)
      (hloop : workers.loops worker = .call op next) :
      Step workers (worker, ⟨op, answer⟩)
        ⟨storeAfter workers.store op answer,
          Function.update workers.loops worker (next answer)⟩

-- Every worker is started with an environment of its own.
def start (envs : Worker → Env) (cycles : Worker → Nat) : Workers Worker :=
  ⟨{}, fun worker => (runCalibrationLoop (envs worker) (cycles worker)).run⟩

end steps

-- What a step stored in the table.
def stored : Label Worker → Option CalibrationResult
  | (_, ⟨.calibrationSave result, outcome⟩) => if outcome.stored then some result else none
  | _ => none

def saves (labels : List (Label Worker)) : List CalibrationResult := labels.filterMap stored

abbrev Transition (Worker : Type) := Workers Worker × Label Worker × Workers Worker

def labels (transitions : List (Transition Worker)) : List (Label Worker) :=
  transitions.map fun transition => transition.2.1

-- The row is the greatest of the observations saved so far.
def Greatest (saved : List CalibrationResult) : Option CalibrationResult → Prop
  | none => saved = []
  | some row => row ∈ saved ∧ ∀ other ∈ saved, other.timestamp ≤ row.timestamp

-- After every prefix of the run the row of the backend is the latest probe, and
-- no step takes the row back.
structure Latest (backendName : String) (transitions : List (Transition Worker)) : Prop where
  greatest : ∀ before transition after, transitions = before ++ transition :: after →
    Greatest (saves (labels (before ++ [transition])))
      (transition.2.2.store.rows.get? backendName)
  forward : ∀ transition ∈ transitions, ∀ row,
    transition.1.store.rows.get? backendName = some row →
      ∃ later, transition.2.2.store.rows.get? backendName = some later ∧
        row.timestamp ≤ later.timestamp

-- A stored probe: its worker read the time after `before`, and its save landed after `between`.
def Landed (labels before between : List (Label Worker)) (result : CalibrationResult) : Prop :=
  ∃ (worker : Worker) (outcome : Outcome) (after : List (Label Worker)),
    labels = before ++ (worker, ⟨.utcnow, result.timestamp⟩) :: between ++
      (worker, ⟨.calibrationSave result, outcome⟩) :: after ∧
    outcome.stored = true ∧ ∀ label ∈ between, label.1 ≠ worker

-- The worker's clock is behind: it reads less than a time that has been stored already.
def Behind (labels : List (Label Worker)) : Prop :=
  ∃ before between result, Landed labels before between result ∧
    ∃ newer ∈ saves before, result.timestamp < newer.timestamp

-- After a worker has read the time of its probe, and before it has saved it,
-- another worker saves a probe with a later time.
def Overtaken (labels : List (Label Worker)) : Prop :=
  ∃ before between result, Landed labels before between result ∧
    ∃ newer ∈ saves between, result.timestamp < newer.timestamp

-- What a worker's clock reads at a step.
def reading : Label Worker → Option Int
  | (_, ⟨.utcnow, now⟩) => some now
  | _ => none

def readings (labels : List (Label Worker)) : List Int := labels.filterMap reading

-- The readings are those of one clock that does not go back.
def OneClock (labels : List (Label Worker)) : Prop := (readings labels).Pairwise (· ≤ ·)

end Workers

-- The time that a loop has read with its last operation.
def stamping (backendName : String) : Monitor sig (Option Int) where
  allowed pending op := match op with
    | .calibrationSave result =>
        pending = some result.timestamp ∧ result.backendName = backendName
    | _ => True
  admits _ _ _ := True
  next _ op answer := match op, answer with
    | .utcnow, now => some now
    | _, _ => none

end QuantumPlatform.Orchestrator

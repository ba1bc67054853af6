import QuantumPlatform.Core.Backend
import QuantumPlatform.Tasks

namespace QuantumPlatform.Orchestrator

open Process Python QuantumPlatform.Core

-- A row of backend_calibration_state, as the policy reads it.
structure CalibrationObservation where
  backendName : String
  observedAt : Int
  errorRate : ℚ
  shots : Int

-- The instant is in microseconds; the source carries it as an ISO string.
structure CalibrationResult where
  timestamp : Int
  backendName : String
  shots : Int
  errorRate : ℚ
  counts : Dict String Int

-- What the coroutines of the worker process wait for. `handleMessage` is not a
-- call: it marks that handle_message was entered. `hang` stands for a loop
-- that is cut off, and nothing answers it.
inductive Effect where
  | publish (queue : String) (message : Message)
  | declareQueue (name : String)
  | ack
  | sleep (seconds : ℚ)
  | utcnow
  | monotonic
  | cancelled
  | submit (circuit : Circuit)
  | pollStatus (handle : JobHandle)
  | fetchResult (handle : JobHandle)
  | cancel (handle : JobHandle)
  | calibrationGet (backendName : String)
  | calibrationSave (result : CalibrationResult)
  | triggerSet
  | triggerClear
  | triggerWait (timeout : ℚ)
  | kafkaSend (topic : String) (payload : Json)
  | handleMessage
  | hang

-- The answer to `triggerWait` tells whether the event was set in time.
def Effect.Ans : Effect → Type
  | .publish _ _ => Outcome
  | .declareQueue _ => Outcome
  | .ack => Outcome
  | .sleep _ => Unit
  | .utcnow => Int
  | .monotonic => ℚ
  | .cancelled => Bool
  | .submit _ => Except Exc JobHandle
  | .pollStatus _ => Except Exc JobStatus
  | .fetchResult _ => Except Exc ExperimentResult
  | .cancel _ => Except Exc Unit
  | .calibrationGet _ => Except Exc (Option CalibrationObservation)
  | .calibrationSave _ => Outcome
  | .triggerSet => Unit
  | .triggerClear => Unit
  | .triggerWait _ => Bool
  | .kafkaSend _ _ => Outcome
  | .handleMessage => Unit
  | .hang => Empty

abbrev sig : Signature := ⟨Effect, Effect.Ans⟩

def call (op : Effect) : Program sig op.Ans := @Program.perform sig op

def monotonic : Program sig ℚ := call .monotonic

def await (op : Effect) : Py sig op.Ans := @Py.await sig op

def publish (queue : String) (message : Message) : Py sig Unit := do
  Py.ofOutcome (← await (.publish queue message))

def declareQueue (name : String) : Py sig Unit := do
  Py.ofOutcome (← await (.declareQueue name))

def ack : Py sig Unit := do
  Py.ofOutcome (← await .ack)

def submit (circuit : Circuit) : Py sig JobHandle := do
  Py.ofExcept (← await (.submit circuit))

def kafkaSend (topic : String) (payload : Json) : Py sig Unit := do
  Py.ofOutcome (← await (.kafkaSend topic payload))

-- How SciPy's minimize goes on: it asks for the cost at some parameters, or it
-- ends with the best point found, or it raises.
inductive Optimizer where
  | evaluate (params : List ℚ) (next : ℚ → Optimizer)
  | finished (x : List ℚ) (value : ℚ)
  | failed (exc : Ordinary)

-- Code of other packages. What it raises are subclasses of Exception.
structure Externals where
  evalBooleanExpression : String → Dict String Bool → Except Ordinary Bool
  phaseOracleGate : String → List String → Except Ordinary Unit
  generateMolecule : String → Except Ordinary MolecularHamiltonian
  minimize : Json → List ℚ → Optimizer

-- The optional packages are not installed: every call raises ImportError.
instance : Inhabited Externals where
  default :=
    let missing : Ordinary := ⟨⟨.named "ImportError", "No module named 'qiskit_nature'"⟩, rfl⟩
    { evalBooleanExpression := fun _ _ => .error missing,
      phaseOracleGate := fun _ _ => .error missing,
      generateMolecule := fun _ => .error missing,
      minimize := fun _ _ => .failed missing }

-- The environment variables of the worker and the properties of its backend.
-- Durations are in seconds, `freshness` in microseconds.
structure Settings where
  backendName : String := "aer-simulator"
  pollingInitialInterval : ℚ := 1 / 100
  pollingMaxInterval : ℚ := 1 / 10
  calibrationInterval : ℚ := 300
  calibrationFreshness : Int := 600000000
  calibrationRejectErrorRate : ℚ := 1 / 10
  calibrationWaitDelay : ℚ := 5
  calibrationMaxWaitAttempts : Int := 12
  calibrationDemoErrorRate : ℚ := 0

-- `fuel` bounds the iterations of one polling loop.
structure Env where
  settings : Settings
  externals : Externals
  fuel : Nat

def ofOrdinary {α : Type} : Except Ordinary α → Except Exc α
  | .ok value => .ok value
  | .error exc => .error exc

end QuantumPlatform.Orchestrator

import QuantumPlatform.Orchestrator.Execution

namespace QuantumPlatform.Orchestrator

open Process Python QuantumPlatform.Core

section policy

inductive CalibrationDecision where
  | allow
  | wait
  | reject
deriving DecidableEq, Repr

structure CalibrationPolicy where
  freshness : Int := 600000000
  rejectErrorRate : ℚ := 1 / 10

namespace CalibrationPolicy

def evaluate (policy : CalibrationPolicy) (observation : Option CalibrationObservation)
    (now : Int) : CalibrationDecision :=
  match observation with
  | none => .wait
  | some observation =>
      if now - observation.observedAt > policy.freshness then .wait
      else if observation.errorRate ≥ policy.rejectErrorRate then .reject
      else .allow

-- Without `now` the clock is read, if there is an observation to compare with.
def evaluateNow (policy : CalibrationPolicy) :
    Option CalibrationObservation → Py sig CalibrationDecision
  | none => pure (policy.evaluate none 0)
  | some observation => do
      let now ← await .utcnow
      return policy.evaluate (some observation) now

end CalibrationPolicy

end policy

section cycle

def CALIBRATION_TOPIC : String := "calibration-results"
def DEFAULT_SHOTS : Int := 1024

-- Python's round: ties go to the even neighbour.
def roundHalfEven (value : ℚ) : Int :=
  let floor := ⌊value⌋
  if value - floor < 1 / 2 then floor
  else if value - floor > 1 / 2 then floor + 1
  else if floor % 2 = 0 then floor else floor + 1

-- Moves up to `remaining` observations from one outcome to another.
def moveParity (source destination : String) (state : Dict String Int × Int) :
    Dict String Int × Int :=
  let (adjusted, remaining) := state
  let moved := min (adjusted.get source 0) remaining
  let adjusted := adjusted.set source (adjusted.get source 0 - moved)
  (adjusted.set destination (adjusted.get destination 0 + moved), remaining - moved)

def injectDemoParityErrors (counts : Dict String Int) (requestedErrorRate : ℚ) :
    Except Exc (Dict String Int) :=
  if 0 ≤ requestedErrorRate ∧ requestedErrorRate ≤ 1 then
    let total := counts.values.sum
    let target := roundHalfEven (total * requestedErrorRate)
    let current := counts.get "01" 0 + counts.get "10" 0
    let remaining := max 0 (target - current)
    .ok (moveParity "11" "10" (moveParity "00" "01" (counts, remaining))).1
  else .error (Exc.valueError "CALIBRATION_DEMO_ERROR_RATE must be between 0 and 1")

variable (env : Env)

-- `result.counts or {}`, with the demo errors when they are switched on.
def probeCounts (demoErrorRate : ℚ) (result : ExperimentResult) :
    Except Exc (Dict String Int) :=
  let counts := result.counts.getD ∅
  if demoErrorRate ≠ 0 then injectDemoParityErrors counts demoErrorRate else .ok counts

-- `sum(counts.values()) or 1`
def probeTotal (counts : Dict String Int) : Int :=
  if counts.values.sum = 0 then 1 else counts.values.sum

def runCalibration : Py sig CalibrationResult := do
  let handle ← submit ⟨"calibration-bell", 2, buildBellCircuit, .int DEFAULT_SHOTS⟩
  let result ← waitOnce env handle executionConfig
  let counts ← Py.ofExcept (probeCounts env.settings.calibrationDemoErrorRate result)
  let inconsistent := counts.get "01" 0 + counts.get "10" 0
  let timestamp ← await .utcnow
  return ⟨timestamp, env.settings.backendName, DEFAULT_SHOTS,
    (inconsistent : ℚ) / probeTotal counts, counts⟩

def calibrationSave (result : CalibrationResult) : Py sig Unit := do
  Py.ofOutcome (← await (.calibrationSave result))

def CalibrationResult.asdict (result : CalibrationResult) : Json :=
  .obj [("timestamp", .int result.timestamp), ("backend_name", .str result.backendName),
    ("shots", .int result.shots), ("error_rate", .float result.errorRate),
    ("counts", countsJson (some result.counts))]

def publishCalibrationResult (result : CalibrationResult) : Py sig Unit :=
  kafkaSend CALIBRATION_TOPIC result.asdict

-- One turn of the loop: the probe, and the wait for the trigger or the interval.
def calibrationCycle : Py sig Unit := do
  await .triggerClear
  Py.exceptException
    (do
      let result ← runCalibration env
      calibrationSave result
      publishCalibrationResult result)
    fun _ => pure ()
  let _ ← await (.triggerWait env.settings.calibrationInterval)

-- The first turns of the endless loop.
def runCalibrationLoop : Nat → Py sig Unit
  | 0 => pure ()
  | cycles + 1 => do
      calibrationCycle env
      runCalibrationLoop cycles

end cycle

end QuantumPlatform.Orchestrator

import QuantumPlatform.Orchestrator.Polling

namespace QuantumPlatform.Orchestrator

open Process Python QuantumPlatform.Core

variable (env : Env)

def executionConfig : PollingConfig := { timeout := 30 }

-- One wait with a fresh breaker and no metrics, for a job that is run once.
def waitOnce (handle : JobHandle) (config : PollingConfig) : Py sig ExperimentResult := do
  let outcome ← Py.lift
    (waitForResult env.fuel env.settings.backendName handle config {} false none)
  Py.ofExcept outcome.1

def countsJson : Option (Dict String Int) → Json
  | none => .null
  | some counts => .obj (counts.items.map fun entry => (entry.1, .int entry.2))

def runGrover (markedStates : List String) (shots : Json) : Py sig Json := do
  let numQubits ← Py.ofExcept (match markedStates with
    | [] => .error (Exc.indexError "list index out of range")
    | first :: _ => .ok first.length)
  let problem ← Py.ofExcept (GroverProblem.new numQubits markedStates)
  let iterations ←
    Py.ofExcept (optimalIterations problem.numQubits problem.markedStates.length)
  let qc ← Py.ofExcept (buildGroverCircuit problem iterations)
  let handle ← submit ⟨"grover", numQubits, qc, shots⟩
  let result ← waitOnce env handle executionConfig
  return .obj [("marked_states", .arr (markedStates.map .str)), ("iterations", .int iterations),
    ("counts", countsJson result.counts)]

def runSatGrover (variableNames : List String) (expression : String) (shots : Json) :
    Py sig Json := do
  let problem : BooleanSearchProblem := ⟨variableNames, expression⟩
  let solutions ← Py.ofExcept (problem.countSolutions fun text assignment =>
    ofOrdinary (env.externals.evalBooleanExpression text assignment))
  let iterations ← Py.ofExcept
    (if solutions = [] then .ok 0 else optimalIterations problem.numQubits solutions.length)
  if iterations = 0 then
    return .obj [("expression", .str expression), ("solutions", .arr (solutions.map .str)),
      ("counts", .null),
      ("note", .str "no satisfying assignment exists -- nothing to search for")]
  else
    let qc ← Py.ofExcept (buildSatGroverCircuit problem iterations fun text order =>
      ofOrdinary (env.externals.phaseOracleGate text order))
    let handle ← submit ⟨"sat-grover", problem.numQubits, qc, shots⟩
    let result ← waitOnce env handle executionConfig
    let sorted := solutions.mergeSort fun first second => decide (first ≤ second)
    return .obj [("expression", .str expression), ("solutions", .arr (sorted.map .str)),
      ("iterations", .int iterations), ("counts", countsJson result.counts)]

-- int(bitstring, 2)
def binaryValue (bitstring : String) : Except Exc Nat :=
  if bitstring ≠ "" ∧ bitstring.toList.all isBit then
    .ok (bitstring.toList.foldl (fun value char => 2 * value + if char = '1' then 1 else 0) 0)
  else .error (Exc.valueError ("invalid literal for int() with base 2: '" ++ bitstring ++ "'"))

-- Each counted bitstring with its count and the phase it stands for.
def countsWithEstimates (numCountingQubits : Nat) : List (String × Int) →
    Except Exc (List (String × Json))
  | [] => .ok []
  | (bitstring, count) :: rest => do
      let value ← binaryValue bitstring
      let entry : Json := .obj [("count", .int count),
        ("phi_estimate", .float ((value : ℚ) / 2 ^ numCountingQubits))]
      return (bitstring, entry) :: (← countsWithEstimates numCountingQubits rest)

def runQpe (phi : ℚ) (numCountingQubits : Nat) (shots : Json) : Py sig Json := do
  let theta := 2 * mathPi * phi
  let qc := buildQpeCircuit mathPi ⟨theta⟩ numCountingQubits
  let handle ← submit ⟨"qpe", qc.numQubits, qc, shots⟩
  let result ← waitOnce env handle executionConfig
  let results ← Py.ofExcept (match result.counts with
    | none => .ok .null
    | some counts =>
        if counts.items = [] then .ok .null
        else Json.obj <$> countsWithEstimates numCountingQubits counts.items)
  return .obj [("true_phi", .float phi), ("resolution", .float (1 / 2 ^ numCountingQubits)),
    ("results", results)]

section vqe

structure VQEIterationMetrics where
  quantumTime : ℚ := 0
  retryCount : Int := 0
  circuitBreakerTrips : Int := 0

structure VQEIterationLog where
  iteration : Nat
  params : List ℚ
  energy : ℚ
  quantumTime : ℚ
  classicalTime : ℚ
  retryCount : Int
  circuitBreakerTrips : Int

def VQEIterationMetrics.folded (metrics : VQEIterationMetrics) (term : PollingMetrics) :
    VQEIterationMetrics :=
  { quantumTime := metrics.quantumTime + term.waitTime,
    retryCount := metrics.retryCount + term.transientRetries,
    circuitBreakerTrips :=
      metrics.circuitBreakerTrips + if term.circuitBreakerWasOpen then 1 else 0 }

def termName (term : PauliTerm) : String :=
  "vqe-term-" ++ String.join (term.qubits.items.map fun entry =>
    toString entry.1 ++ entry.2.name)

-- The loop of evaluate_energy: one circuit for each term that is not the identity.
def evaluateTerms (params : List ℚ) (shots : Json) (molecule : MolecularHamiltonian) :
    List PauliTerm → ℚ → VQEIterationMetrics → Py sig (ℚ × VQEIterationMetrics)
  | [], total, metrics => pure (total, metrics)
  | term :: rest, total, metrics =>
      if term.qubits.items = [] then
        evaluateTerms params shots molecule rest (total + term.coefficient) metrics
      else do
        let qc ← Py.ofExcept (buildMeasurementCircuit params term molecule)
        let handle ← submit ⟨termName term, molecule.numQubits, qc, shots⟩
        let config : PollingConfig :=
          { initialInterval := env.settings.pollingInitialInterval,
            maxInterval := env.settings.pollingMaxInterval }
        let outcome ← Py.lift (waitForResult env.fuel env.settings.backendName handle config {}
          false (some {}))
        let result ← Py.ofExcept outcome.1
        let metrics := metrics.folded (outcome.2.metrics.getD {})
        let counts ← Py.ofExcept (match result.counts with
          | none => .error (Exc.assertionError "")
          | some counts => .ok counts)
        let expectation ← Py.ofExcept (pauliExpectationFromCounts counts term)
        evaluateTerms params shots molecule rest (total + term.coefficient * expectation) metrics

def evaluateEnergy (params : List ℚ) (shots : Json) (molecule : MolecularHamiltonian) :
    Py sig (ℚ × VQEIterationMetrics) :=
  evaluateTerms env params shots molecule molecule.terms 0 {}

structure VQEResult where
  optimalParams : List ℚ
  electronicEnergy : ℚ
  totalEnergy : ℚ
  history : List VQEIterationLog

-- The optimizer calls `cost`, which is one evaluate_energy and one history entry.
def minimizeCost (shots : Json) (molecule : MolecularHamiltonian) :
    Optimizer → List VQEIterationLog → Py sig VQEResult
  | .finished x value, history =>
      pure ⟨x, value, value + molecule.totalEnergyOffset, history⟩
  | .failed exc, _ => Py.raise exc
  | .evaluate params next, history => do
      let start ← Py.lift monotonic
      let (energy, metrics) ← evaluateEnergy env params shots molecule
      let stop ← Py.lift monotonic
      let log : VQEIterationLog :=
        { iteration := history.length + 1, params := params, energy := energy,
          quantumTime := metrics.quantumTime,
          classicalTime := max 0 (stop - start - metrics.quantumTime),
          retryCount := metrics.retryCount, circuitBreakerTrips := metrics.circuitBreakerTrips }
      minimizeCost shots molecule (next energy) (history ++ [log])

def runVqe (shots : Json) (maxIterations : Json) (molecule : MolecularHamiltonian) :
    Py sig VQEResult :=
  let params0 := List.replicate (parameterCount molecule.numQubits) 0
  minimizeCost env shots molecule (env.externals.minimize maxIterations params0) []

def floats (values : List ℚ) : Json := .arr (values.map .float)

def VQEIterationLog.asdict (log : VQEIterationLog) : List (String × Json) :=
  [("iteration", .int log.iteration), ("params", floats log.params),
    ("energy", .float log.energy), ("quantum_time_s", .float log.quantumTime),
    ("classical_time_s", .float log.classicalTime), ("retry_count", .int log.retryCount),
    ("circuit_breaker_trips", .int log.circuitBreakerTrips)]

-- The molecule is any JSON value; only three strings name one.
def findMolecule (name : Json) : Except Exc MolecularHamiltonian :=
  match name with
  | .str text => getMolecule (fun known => ofOrdinary (env.externals.generateMolecule known)) text
  | _ => .error (Exc.valueError "unknown molecule; expected one of: h2, lih, beh2")

def runVqeSync (shots maxIterations moleculeName : Json) : Py sig (Json × List VQEIterationLog) := do
  let molecule ← Py.ofExcept (findMolecule env moleculeName)
  let result ← runVqe env shots maxIterations molecule
  let reference : Json := match molecule.referenceGroundEnergy with
    | none => .null
    | some energy => .float energy
  return (.obj [("molecule", .str molecule.name), ("num_qubits", .int molecule.numQubits),
    ("geometry", .str molecule.geometry), ("mapping", .str molecule.mapping),
    ("optimal_params", floats result.optimalParams),
    ("active_space_energy", .float result.electronicEnergy),
    ("electronic_energy", .float (result.electronicEnergy + molecule.inactiveEnergy)),
    ("nuclear_repulsion", .float molecule.nuclearRepulsion),
    ("inactive_energy", .float molecule.inactiveEnergy),
    ("energy_offset", .float molecule.totalEnergyOffset),
    ("total_energy", .float result.totalEnergy),
    ("reference_ground_energy", reference), ("iterations_run", .int result.history.length),
    ("history", .arr (result.history.map fun log => .obj log.asdict))], result.history)

def VQE_METRICS_TOPIC : String := "vqe-iteration-metrics"

-- The first entry that cannot be sent ends the loop, without an error.
def publishVqeHistory (experimentId : Json) (history : List VQEIterationLog) : Py sig Unit := do
  let timestamp ← await .utcnow
  send timestamp history
where
  send (timestamp : Int) : List VQEIterationLog → Py sig Unit
    | [] => pure ()
    | log :: rest => do
        let sent ← Py.exceptException
          (do
            kafkaSend VQE_METRICS_TOPIC (.obj (("experiment_id", experimentId) ::
              log.asdict ++ [("timestamp", .int timestamp)]))
            return true)
          fun _ => return false
        if sent then send timestamp rest else pure ()

end vqe

section params

def attributeError (message : String) : Exc := ⟨.named "AttributeError", message⟩

-- `params[name]`
def require (params : Json) (name : String) : Except Exc Json :=
  match params with
  | .obj fields =>
      match findField fields name with
      | some value => .ok value
      | none => .error (Exc.keyError ("'" ++ name ++ "'"))
  | _ => .error (Exc.typeError "parameters are not a mapping")

-- `params.get(name, fallback)`
def paramOr (params : Json) (name : String) (fallback : Json) : Except Exc Json :=
  match params with
  | .obj fields => .ok (argument fields name fallback)
  | _ => .error (attributeError "object has no attribute 'get'")

def asStr : Json → Except Exc String
  | .str text => .ok text
  | _ => .error (Exc.typeError "not a string")

def asStrings : Json → Except Exc (List String)
  | .arr items => items.mapM asStr
  | _ => .error (Exc.typeError "not a list of strings")

def asFloat : Json → Except Exc ℚ
  | .float value => .ok value
  | .int value => .ok value
  | _ => .error (Exc.typeError "not a number")

def asCount : Json → Except Exc Nat
  | .int value =>
      if 0 ≤ value then .ok value.toNat
      else .error (circuitError "number of qubits must be non-negative")
  | _ => .error (Exc.typeError "'float' object cannot be interpreted as an integer")

def unknownAlgorithm : Json → Exc
  | .str text => Exc.valueError ("unknown algorithm '" ++ text ++ "'")
  | _ => Exc.valueError "unknown algorithm"

end params

def executeTask (task : ExperimentTask) : Py sig Json := do
  let params := task.params
  if task.algorithm.isStr "grover" then
    let markedStates ← Py.ofExcept (require params "marked_states" >>= asStrings)
    let shots ← Py.ofExcept (paramOr params "shots" (.int 1024))
    runGrover env markedStates shots
  else if task.algorithm.isStr "sat_grover" then
    let variableNames ← Py.ofExcept (require params "variables" >>= asStrings)
    let expression ← Py.ofExcept (require params "expression" >>= asStr)
    let shots ← Py.ofExcept (paramOr params "shots" (.int 1024))
    runSatGrover env variableNames expression shots
  else if task.algorithm.isStr "qpe" then
    let phi ← Py.ofExcept (require params "phi" >>= asFloat)
    let numCountingQubits ←
      Py.ofExcept (paramOr params "num_counting_qubits" (.int 3) >>= asCount)
    let shots ← Py.ofExcept (paramOr params "shots" (.int 1024))
    runQpe env phi numCountingQubits shots
  else if task.algorithm.isStr "vqe" then
    let shots ← Py.ofExcept (paramOr params "shots" (.int 8192))
    let maxIterations ← Py.ofExcept (paramOr params "max_iterations" (.int 80))
    let moleculeName ← Py.ofExcept (paramOr params "molecule" (.str "h2"))
    let (result, history) ← runVqeSync env shots maxIterations moleculeName
    publishVqeHistory task.experimentId history
    return result
  else
    Py.raise (unknownAlgorithm task.algorithm)

end QuantumPlatform.Orchestrator

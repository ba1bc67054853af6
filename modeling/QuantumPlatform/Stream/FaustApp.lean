import QuantumPlatform.Process.Windows
import QuantumPlatform.Python.Dict
import QuantumPlatform.Python.Objects
import QuantumPlatform.Stream.Alerting
import QuantumPlatform.Stream.Drift
import Mathlib.Algebra.Order.Floor.Ring

namespace QuantumPlatform.Stream

open Process Python

def WINDOW_SIZE_S : Nat := 60

variable {𝕂 : Type} [Field 𝕂] [LinearOrder 𝕂] [FloorRing 𝕂]

-- The tumbling window that contains a time.
def tumbling (time : 𝕂) : Int := ⌊time / WINDOW_SIZE_S⌋

section calibration

def DRIFT_ZSCORE_THRESHOLD : Nat := 3
def DRIFT_BREACH_STREAK : Nat := 2
def DRIFT_RECOVERY_STREAK : Nat := 2

structure CalibrationEvent (𝕂 : Type) where
  backendName : String
  errorRate : 𝕂

structure AlertEvent (𝕂 : Type) where
  backendName : String
  level : String
  windowAvg : 𝕂
  threshold : 𝕂

structure AlertStateRecord where
  level : String := AlertLevel.OK.value
  consecutiveBreaches : Nat := 0
  consecutiveOk : Nat := 0

structure DriftAlertEvent (𝕂 : Type) where
  backendName : String
  level : String
  zscore : 𝕂
  errorRate : 𝕂
  baselineMean : 𝕂
  baselineStddev : 𝕂

namespace AlertStateRecord

def toState (record : AlertStateRecord) : Except Exc AlertState := do
  let level ← AlertLevel.ofValue record.level
  return ⟨level, record.consecutiveBreaches, record.consecutiveOk⟩

def ofState (state : AlertState) : AlertStateRecord :=
  ⟨state.level.value, state.consecutiveBreaches, state.consecutiveOk⟩

end AlertStateRecord

-- A message of the topic, and what the wall clock says at the two `.now()`.
structure CalibrationDelivery (𝕂 : Type) where
  event : CalibrationEvent 𝕂
  timestamp : 𝕂
  totalReadAt : 𝕂
  countReadAt : 𝕂

structure CalibrationTables (𝕂 : Type) [Zero 𝕂] where
  errorRateSum : WindowTable String Int 𝕂 := fun _ _ => 0
  sampleCount : WindowTable String Int Nat := fun _ _ => 0
  alertState : Dict String AlertStateRecord := ∅
  baselineStats : Dict String (WelfordStats 𝕂) := ∅
  driftAlertState : Dict String AlertStateRecord := ∅

-- What one event leaves behind outside the tables: the average in the log line, and
-- the events of the two derived topics.
structure CalibrationOutput (𝕂 : Type) where
  windowAvg : 𝕂
  alert : Option (AlertEvent 𝕂)
  driftAlert : Option (DriftAlertEvent 𝕂)

namespace CalibrationTables

-- `table[key] += value` on the two windowed tables: the window of the message.
def accumulate (tables : CalibrationTables 𝕂) (delivery : CalibrationDelivery 𝕂) :
    CalibrationTables 𝕂 :=
  let backend := delivery.event.backendName
  let window := tumbling delivery.timestamp
  { tables with
    errorRateSum := tables.errorRateSum.assign backend window
      (tables.errorRateSum backend window + delivery.event.errorRate),
    sampleCount := tables.sampleCount.assign backend window
      (tables.sampleCount backend window + 1) }

-- `.now()` on both: the window of the wall clock.
def windowAvg (tables : CalibrationTables 𝕂) (delivery : CalibrationDelivery 𝕂) : 𝕂 :=
  let backend := delivery.event.backendName
  let total := tables.errorRateSum backend (tumbling delivery.totalReadAt)
  let count := tables.sampleCount backend (tumbling delivery.countReadAt)
  if count ≠ 0 then total / count else 0

def flatAlert (tables : CalibrationTables 𝕂) (backendName : String) (average : 𝕂) :
    Except Exc (CalibrationTables 𝕂 × Option (AlertEvent 𝕂)) := do
  let prevState ← (tables.alertState.get backendName {}).toState
  let (newState, transition) := step defaultHysteresis backendName prevState average
  return ({ tables with
      alertState := tables.alertState.set backendName (.ofState newState) },
    transition.map fun transition =>
      ⟨transition.backendName, transition.level.value, transition.value, transition.threshold⟩)

def driftHysteresis : Hysteresis 𝕂 :=
  ⟨DRIFT_ZSCORE_THRESHOLD, DRIFT_BREACH_STREAK, DRIFT_RECOVERY_STREAK⟩

-- The z-score is against the baseline without the sample itself.
def driftAlert (root : 𝕂 → 𝕂) (tables : CalibrationTables 𝕂) (event : CalibrationEvent 𝕂) :
    Except Exc (CalibrationTables 𝕂 × Option (DriftAlertEvent 𝕂)) := do
  let backend := event.backendName
  let prevWelford := tables.baselineStats.get backend {}
  let newWelford := prevWelford.update event.errorRate
  let tables := { tables with baselineStats := tables.baselineStats.set backend newWelford }
  match prevWelford.zscore root event.errorRate with
  | none => return (tables, none)
  | some z =>
      let prevState ← (tables.driftAlertState.get backend {}).toState
      let (newState, transition) := step driftHysteresis backend prevState |z|
      return ({ tables with
          driftAlertState := tables.driftAlertState.set backend (.ofState newState) },
        transition.map fun transition =>
          ⟨backend, transition.level.value, z, event.errorRate, newWelford.mean,
            newWelford.stddev root⟩)

end CalibrationTables

def processCalibrationEvent (root : 𝕂 → 𝕂) (tables : CalibrationTables 𝕂)
    (delivery : CalibrationDelivery 𝕂) :
    Except Exc (CalibrationTables 𝕂 × CalibrationOutput 𝕂) := do
  let tables := tables.accumulate delivery
  let windowAvg := tables.windowAvg delivery
  let (tables, alert) ← tables.flatAlert delivery.event.backendName windowAvg
  let (tables, driftAlert) ← tables.driftAlert root delivery.event
  return (tables, ⟨windowAvg, alert, driftAlert⟩)

-- The agent's loop over the stream, with what each event led to.
def processCalibrationEvents (root : 𝕂 → 𝕂) (deliveries : List (CalibrationDelivery 𝕂)) :
    Except Exc (CalibrationTables 𝕂 × List (CalibrationDelivery 𝕂 × CalibrationOutput 𝕂)) :=
  deliveries.foldlM (fun (tables, history) delivery => do
    let (tables, output) ← processCalibrationEvent root tables delivery
    return (tables, history ++ [(delivery, output)])) ({}, [])

end calibration

section vqe

structure VQEIterationMetricsEvent (𝕂 : Type) where
  experimentId : String
  energy : 𝕂
  quantumTimeS : 𝕂
  classicalTimeS : 𝕂
  retryCount : Int
  circuitBreakerTrips : Int

structure VQEWindowState (𝕂 : Type) [Zero 𝕂] where
  iterationCount : Nat := 0
  energySum : 𝕂 := 0
  bestEnergy : 𝕂 := 0
  quantumTimeSum : 𝕂 := 0
  classicalTimeSum : 𝕂 := 0
  retryCount : Int := 0
  circuitBreakerTrips : Int := 0

structure VQEWindowMetricsEvent (𝕂 : Type) where
  timestamp : 𝕂
  experimentId : String
  windowSizeS : Nat
  iterationCount : Nat
  avgEnergy : 𝕂
  bestEnergy : 𝕂
  avgQuantumTimeS : 𝕂
  avgClassicalTimeS : 𝕂
  quantumClassicalRatio : 𝕂
  retryCount : Int
  circuitBreakerTrips : Int

-- A message of the topic, what the wall clock says at `.now()`, and what it says
-- when the derived event is stamped.
structure VQEDelivery (𝕂 : Type) where
  event : VQEIterationMetricsEvent 𝕂
  timestamp : 𝕂
  readAt : 𝕂
  stampedAt : 𝕂

omit [FloorRing 𝕂] in
def VQEWindowState.add (state : VQEWindowState 𝕂) (event : VQEIterationMetricsEvent 𝕂) :
    VQEWindowState 𝕂 where
  iterationCount := state.iterationCount + 1
  energySum := state.energySum + event.energy
  quantumTimeSum := state.quantumTimeSum + event.quantumTimeS
  classicalTimeSum := state.classicalTimeSum + event.classicalTimeS
  retryCount := state.retryCount + event.retryCount
  circuitBreakerTrips := state.circuitBreakerTrips + event.circuitBreakerTrips
  -- the count after this event, so the first one sets the minimum
  bestEnergy :=
    if state.iterationCount + 1 = 1 then event.energy else min state.bestEnergy event.energy

def VQEWindowState.metric (state : VQEWindowState 𝕂) (experimentId : String) (stampedAt : 𝕂) :
    VQEWindowMetricsEvent 𝕂 :=
  let count : 𝕂 := state.iterationCount
  let avgQuantum := state.quantumTimeSum / count
  let avgClassical := state.classicalTimeSum / count
  { timestamp := stampedAt,
    experimentId := experimentId,
    windowSizeS := WINDOW_SIZE_S,
    iterationCount := state.iterationCount,
    avgEnergy := state.energySum / count,
    bestEnergy := state.bestEnergy,
    avgQuantumTimeS := avgQuantum,
    avgClassicalTimeS := avgClassical,
    quantumClassicalRatio := if 0 < avgClassical then avgQuantum / avgClassical else 0,
    retryCount := state.retryCount,
    circuitBreakerTrips := state.circuitBreakerTrips }

-- The entries of the table refer to records that the agent changes in place.
structure VQEWindowTable (𝕂 : Type) [Zero 𝕂] where
  records : Objects (VQEWindowState 𝕂) := ⟨0, fun _ => {}⟩
  entries : WindowTable String Int (Option Ref) := fun _ _ => none

namespace VQEWindowTable

-- `.now()`: the record that the wall clock's window refers to. Without one it is a new record,
-- which no window refers to yet.
def now (table : VQEWindowTable 𝕂) (experimentId : String) (readAt : 𝕂) :
    VQEWindowTable 𝕂 × Ref :=
  match table.entries experimentId (tumbling readAt) with
  | some state => (table, state)
  | none =>
      let (records, state) := table.records.make {}
      ({ table with records }, state)

-- The record itself is updated, for all that refer to it.
def update (table : VQEWindowTable 𝕂) (state : Ref) (event : VQEIterationMetricsEvent 𝕂) :
    VQEWindowTable 𝕂 :=
  { table with records := table.records.mutate state fun record => record.add event }

-- `vqe_window_state[experiment_id] = state`: the window of the message refers to it as well.
def assign (table : VQEWindowTable 𝕂) (experimentId : String) (timestamp : 𝕂) (state : Ref) :
    VQEWindowTable 𝕂 :=
  { table with entries := table.entries.assign experimentId (tumbling timestamp) (some state) }

-- What is stored for a window of an experiment.
def stored (table : VQEWindowTable 𝕂) (experimentId : String) (window : Int) : VQEWindowState 𝕂 :=
  ((table.entries experimentId window).map table.records.read).getD {}

end VQEWindowTable

def processVqeIteration (vqeWindowState : VQEWindowTable 𝕂) (delivery : VQEDelivery 𝕂) :
    VQEWindowTable 𝕂 × VQEWindowMetricsEvent 𝕂 :=
  let experimentId := delivery.event.experimentId
  let (vqeWindowState, state) := vqeWindowState.now experimentId delivery.readAt
  let vqeWindowState := vqeWindowState.update state delivery.event
  (vqeWindowState.assign experimentId delivery.timestamp state,
    (vqeWindowState.records.read state).metric experimentId delivery.stampedAt)

-- The table after the first events of the stream.
def vqeWindowStates (deliveries : List (VQEDelivery 𝕂)) : VQEWindowTable 𝕂 :=
  deliveries.foldl (fun table delivery => (processVqeIteration table delivery).1) {}

end vqe

end QuantumPlatform.Stream

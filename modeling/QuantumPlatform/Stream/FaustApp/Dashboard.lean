import QuantumPlatform.Python.Deque
import QuantumPlatform.Stream.FaustApp

namespace QuantumPlatform.Stream

open Process Python

def RECENT_EVENTS_MAXLEN : Nat := 50

variable {𝕂 : Type} [Field 𝕂] [LinearOrder 𝕂] [FloorRing 𝕂]

-- An entry of the feed: the keywords of the call come after the four fields.
structure DashboardEvent (𝕂 : Type) where
  kind : String
  backendName : String
  level : String
  timestamp : 𝕂
  extra : List (String × 𝕂)

abbrev RecentEvents (𝕂 : Type) : Type := Deque (DashboardEvent 𝕂) RECENT_EVENTS_MAXLEN

omit [Field 𝕂] [LinearOrder 𝕂] [FloorRing 𝕂] in
def recordEvent (recentEvents : RecentEvents 𝕂) (kind backendName level : String) (now : 𝕂)
    (extra : List (String × 𝕂)) : RecentEvents 𝕂 :=
  recentEvents.appendleft ⟨kind, backendName, level, now, extra⟩

-- What the worker process holds in memory, and what it has handed to the derived topics.
structure FaustWorker (𝕂 : Type) [Zero 𝕂] where
  tables : CalibrationTables 𝕂 := {}
  recentEvents : RecentEvents 𝕂 := ∅
  alertsTopic : List (AlertEvent 𝕂) := []
  driftAlertsTopic : List (DriftAlertEvent 𝕂) := []

-- A message of the topic, and what the wall clock says when a transition is recorded.
structure CalibrationArrival (𝕂 : Type) where
  delivery : CalibrationDelivery 𝕂
  alertStampedAt : 𝕂
  driftStampedAt : 𝕂

namespace FaustWorker

omit [LinearOrder 𝕂] [FloorRing 𝕂] in
def announceAlert (worker : FaustWorker 𝕂) (now : 𝕂) (event : AlertEvent 𝕂) : FaustWorker 𝕂 :=
  { worker with
    recentEvents := recordEvent worker.recentEvents "alert" event.backendName event.level now
      [("window_avg", event.windowAvg), ("threshold", event.threshold)],
    alertsTopic := worker.alertsTopic ++ [event] }

omit [LinearOrder 𝕂] [FloorRing 𝕂] in
def announceDrift (worker : FaustWorker 𝕂) (now : 𝕂) (event : DriftAlertEvent 𝕂) :
    FaustWorker 𝕂 :=
  { worker with
    recentEvents := recordEvent worker.recentEvents "drift" event.backendName event.level now
      [("zscore", event.zscore), ("error_rate", event.errorRate),
        ("baseline_mean", event.baselineMean), ("baseline_stddev", event.baselineStddev)],
    driftAlertsTopic := worker.driftAlertsTopic ++ [event] }

-- One event up to the `await` of its alert, where the web server may get its turn.
def flatPath (worker : FaustWorker 𝕂) (arrival : CalibrationArrival 𝕂) :
    Except Exc (FaustWorker 𝕂) := do
  let tables := worker.tables.accumulate arrival.delivery
  let windowAvg := tables.windowAvg arrival.delivery
  let (tables, alert) ← tables.flatAlert arrival.delivery.event.backendName windowAvg
  return alert.elim { worker with tables }
    ({ worker with tables }.announceAlert arrival.alertStampedAt)

omit [FloorRing 𝕂] in
-- The rest of the event.
def driftPath (root : 𝕂 → 𝕂) (worker : FaustWorker 𝕂) (arrival : CalibrationArrival 𝕂) :
    Except Exc (FaustWorker 𝕂) := do
  let (tables, driftAlert) ← worker.tables.driftAlert root arrival.delivery.event
  return driftAlert.elim { worker with tables }
    ({ worker with tables }.announceDrift arrival.driftStampedAt)

def process (root : 𝕂 → 𝕂) (worker : FaustWorker 𝕂) (arrival : CalibrationArrival 𝕂) :
    Except Exc (FaustWorker 𝕂) := do
  let worker ← worker.flatPath arrival
  worker.driftPath root arrival

-- The worker as a request finds it: between two events, or in the middle of one.
def found (root : 𝕂 → 𝕂) (arrivals : List (CalibrationArrival 𝕂))
    (halfway : Option (CalibrationArrival 𝕂)) : Except Exc (FaustWorker 𝕂) := do
  let worker ← arrivals.foldlM (process root) {}
  halfway.elim (return worker) worker.flatPath

end FaustWorker

structure BackendState (𝕂 : Type) where
  backendName : String
  windowAvg : 𝕂
  windowSampleCount : Nat
  alertLevel : String
  alertConsecutiveBreaches : Nat
  alertConsecutiveOk : Nat
  baselineMean : 𝕂
  baselineStddev : 𝕂
  baselineCount : Nat
  driftLevel : String
  driftConsecutiveBreaches : Nat
  driftConsecutiveOk : Nat

structure DashboardState (𝕂 : Type) where
  backends : List (BackendState 𝕂)
  recentEvents : List (DashboardEvent 𝕂)
  alertThreshold : 𝕂
  driftZscoreThreshold : 𝕂

-- What the wall clock says at the two `.now()` for a backend.
structure PageReads (𝕂 : Type) where
  countReadAt : 𝕂
  totalReadAt : 𝕂

def backendState (root : 𝕂 → 𝕂) (tables : CalibrationTables 𝕂) (reads : PageReads 𝕂)
    (backendName : String) (alertRecord : AlertStateRecord) : BackendState 𝕂 :=
  let baseline := tables.baselineStats.get backendName {}
  let driftRecord := tables.driftAlertState.get backendName {}
  let count := tables.sampleCount backendName (tumbling reads.countReadAt)
  let total := tables.errorRateSum backendName (tumbling reads.totalReadAt)
  { backendName := backendName,
    windowAvg := if count ≠ 0 then total / count else 0,
    windowSampleCount := count,
    alertLevel := alertRecord.level,
    alertConsecutiveBreaches := alertRecord.consecutiveBreaches,
    alertConsecutiveOk := alertRecord.consecutiveOk,
    baselineMean := baseline.mean,
    baselineStddev := baseline.stddev root,
    baselineCount := baseline.count,
    driftLevel := driftRecord.level,
    driftConsecutiveBreaches := driftRecord.consecutiveBreaches,
    driftConsecutiveOk := driftRecord.consecutiveOk }

-- `GET /api/state`.
def getState (root : 𝕂 → 𝕂) (worker : FaustWorker 𝕂) (clock : String → PageReads 𝕂) :
    DashboardState 𝕂 where
  backends := worker.tables.alertState.items.map fun entry =>
    backendState root worker.tables (clock entry.1) entry.1 entry.2
  recentEvents := worker.recentEvents.items
  alertThreshold := (defaultHysteresis : Hysteresis 𝕂).threshold
  driftZscoreThreshold := DRIFT_ZSCORE_THRESHOLD

end QuantumPlatform.Stream

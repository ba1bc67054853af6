import QuantumPlatform.Process.Keyed
import QuantumPlatform.Python.DefaultDict
import QuantumPlatform.Python.Deque
import QuantumPlatform.Python.Finally
import QuantumPlatform.Python.Json
import Mathlib.Algebra.Field.Rat

namespace QuantumPlatform.Stream.Consumer

open Process Python

section sink

-- An argument of a statement: a value of the payload, or the text json.dumps makes of it.
inductive Argument where
  | value (value : Json)
  | dumped (value : Json)

inductive Hypertable where
  | calibrationEvents
  | vqeIterationMetrics
  | vqeWindowMetrics
deriving DecidableEq

-- One INSERT: the `time` column, in microseconds, and the other ones in their order.
structure Insert where
  table : Hypertable
  time : Int
  arguments : List Argument

structure Message where
  topic : String
  value : Body

-- What goes by the name of a key in a dict: 1, 1.0 and True are one key.
inductive Key where
  | none
  | number (value : ℚ)
  | text (value : String)
deriving DecidableEq

-- What the consumer waits for, and the ALERT line of its log. `hang` stands for a loop that
-- is cut off.
inductive Effect where
  | createPool
  | start
  | next
  | warning (backendName : Key) (rollingAvg : ℚ)
  | execute (insert : Insert)
  | stop
  | close
  | hang

-- `next` answers with a message, or the iteration is over, or it raises.
def Effect.Ans : Effect → Type
  | .createPool => Outcome
  | .start => Outcome
  | .next => Except Exc (Option Message)
  | .warning _ _ => Unit
  | .execute _ => Outcome
  | .stop => Outcome
  | .close => Outcome
  | .hang => Empty

abbrev sig : Signature := ⟨Effect, Effect.Ans⟩

-- How `datetime.fromisoformat` reads a string.
structure Env where
  fromisoformat : String → Except Ordinary Int

-- `payload[name]`
def subscript (payload : Json) (name : String) : Except Exc Json :=
  match payload with
  | .obj fields =>
      match findField fields name with
      | some value => .ok value
      | none => .error (Exc.keyError ("'" ++ name ++ "'"))
  | _ => .error (Exc.typeError "the payload has no string keys")

variable (env : Env)

def fromisoformat : Json → Except Exc Int
  | .str text =>
      match env.fromisoformat text with
      | .ok time => .ok time
      | .error exc => .error exc
  | _ => .error (Exc.typeError "fromisoformat: argument must be str")

structure Column where
  name : String
  dumped : Bool := false

def Column.argument (column : Column) (payload : Json) : Except Exc Argument := do
  let value ← subscript payload column.name
  return if column.dumped then .dumped value else .value value

-- The statement that a payload asks for.
def insertion (table : Hypertable) (columns : List Column) (payload : Json) :
    Except Exc Insert := do
  let timestamp ← subscript payload "timestamp" >>= fromisoformat env
  let arguments ← columns.mapM fun column => column.argument payload
  return ⟨table, timestamp, arguments⟩

def execute (insert : Except Exc Insert) : Py sig Unit := do
  let insert ← Py.ofExcept insert
  Py.ofOutcome (← @Py.await sig (.execute insert))

def calibrationColumns : List Column := [⟨"backend_name", false⟩, ⟨"error_rate", false⟩, ⟨"shots", false⟩]

def vqeIterationColumns : List Column :=
  [⟨"experiment_id", false⟩, ⟨"iteration", false⟩, ⟨"params", true⟩, ⟨"energy", false⟩,
    ⟨"quantum_time_s", false⟩, ⟨"classical_time_s", false⟩, ⟨"retry_count", false⟩,
    ⟨"circuit_breaker_trips", false⟩]

def vqeWindowColumns : List Column :=
  [⟨"experiment_id", false⟩, ⟨"window_size_s", false⟩, ⟨"iteration_count", false⟩,
    ⟨"avg_energy", false⟩, ⟨"best_energy", false⟩, ⟨"avg_quantum_time_s", false⟩,
    ⟨"avg_classical_time_s", false⟩, ⟨"quantum_classical_ratio", false⟩, ⟨"retry_count", false⟩,
    ⟨"circuit_breaker_trips", false⟩]

def insertCalibrationEvent (payload : Json) : Py sig Unit :=
  execute (insertion env .calibrationEvents calibrationColumns payload)

def insertVqeIterationMetric (payload : Json) : Py sig Unit :=
  execute (insertion env .vqeIterationMetrics vqeIterationColumns payload)

def insertVqeWindowMetric (payload : Json) : Py sig Unit :=
  execute (insertion env .vqeWindowMetrics vqeWindowColumns payload)

end sink

section rolling

def DEFAULT_WINDOW_SIZE : Nat := 10

-- The `_samples` of a RollingErrorRate, under any keys that a dict takes.
abbrev Samples := Dict Key (Deque ℚ DEFAULT_WINDOW_SIZE)

-- `_samples[backend_name]`
def key : Json → Except Exc Key
  | .null => .ok .none
  | .bool value => .ok (.number (if value then 1 else 0))
  | .int value => .ok (.number value)
  | .float value => .ok (.number value)
  | .str text => .ok (.text text)
  | _ => .error (Exc.typeError "unhashable type")

-- What `sum` makes of a sample.
def number : Json → Except Exc ℚ
  | .bool value => .ok (if value then 1 else 0)
  | .int value => .ok value
  | .float value => .ok value
  | _ => .error (Exc.typeError "unsupported operand type(s) for +")

-- A window that has got something else than a number is lost with the loop.
def addSample (samples : Samples) (backendName errorRate : Json) :
    Except Exc (Samples × Key × ℚ) := do
  let backend ← key backendName
  let errorRate ← number errorRate
  let window := ((samples.touch backend ∅).get backend ∅).append errorRate
  if window.items.length = 0 then .error ⟨.named "ZeroDivisionError", "division by zero"⟩
  else .ok ((samples.touch backend ∅).set backend window, backend,
    window.items.sum / window.items.length)

end rolling

section loop

def CALIBRATION_TOPIC : String := "calibration-results"
def VQE_METRICS_TOPIC : String := "vqe-iteration-metrics"
def VQE_WINDOW_METRICS_TOPIC : String := "vqe-window-metrics"
def ALERT_THRESHOLD : ℚ := 5 / 100

-- The fields that the log lines read, in their order.
def loggedIteration : List String :=
  ["experiment_id", "iteration", "energy", "quantum_time_s", "classical_time_s", "retry_count",
    "circuit_breaker_trips"]

def loggedWindow : List String :=
  ["experiment_id", "window_size_s", "iteration_count", "avg_energy", "best_energy",
    "avg_quantum_time_s", "avg_classical_time_s", "quantum_classical_ratio", "retry_count",
    "circuit_breaker_trips"]

variable (env : Env)

-- The body of the loop. The inserts are inside of a `try`, everything else is not.
def consumeMessage (samples : Samples) (message : Message) : Py sig Samples := do
  let payload ← Py.ofExcept (loads message.value)
  if message.topic = VQE_METRICS_TOPIC then
    let _ ← Py.ofExcept (loggedIteration.mapM (subscript payload))
    Py.exceptException (insertVqeIterationMetric env payload) fun _ => pure ()
    return samples
  else if message.topic = VQE_WINDOW_METRICS_TOPIC then
    let _ ← Py.ofExcept (loggedWindow.mapM (subscript payload))
    Py.exceptException (insertVqeWindowMetric env payload) fun _ => pure ()
    return samples
  else
    let backendName ← Py.ofExcept (subscript payload "backend_name")
    let errorRate ← Py.ofExcept (subscript payload "error_rate")
    let (samples, backend, rollingAvg) ← Py.ofExcept (addSample samples backendName errorRate)
    if ALERT_THRESHOLD < rollingAvg then
      @Py.await sig (.warning backend rollingAvg)
    Py.exceptException (insertCalibrationEvent env payload) fun _ => pure ()
    return samples

-- `async for message in consumer`, for so many messages.
def consumeMessages : Nat → Samples → Py sig Unit
  | 0, _ => do
      let never ← @Py.await sig .hang
      never.elim
  | fuel + 1, samples => do
      match ← Py.ofExcept (← @Py.await sig .next) with
      | none => pure ()
      | some message =>
          let samples ← consumeMessage env samples message
          consumeMessages fuel samples

def shutdown : Py sig Unit := do
  Py.ofOutcome (← @Py.await sig .stop)
  Py.ofOutcome (← @Py.await sig .close)

def consumeCalibrationResults (fuel : Nat) : Py sig Unit := do
  Py.ofOutcome (← @Py.await sig .createPool)
  Py.ofOutcome (← @Py.await sig .start)
  Py.withFinally (consumeMessages env fuel ∅) shutdown

end loop

section observation

-- What a run shows: the ALERT lines of the log, and the statements for the hypertables.
inductive Emission where
  | alert (backendName : Key) (rollingAvg : ℚ)
  | insert (insert : Insert)

def emission : Event sig → Option Emission
  | ⟨.warning backendName rollingAvg, _⟩ => some (.alert backendName rollingAvg)
  | ⟨.execute insert, _⟩ => some (.insert insert)
  | _ => none

def emissions (events : List (Event sig)) : List Emission := events.filterMap emission

-- The message that a call of the iterator has handed out.
def handing : Event sig → Option Message
  | ⟨.next, .ok message⟩ => message
  | _ => none

def handed (events : List (Event sig)) : List Message := events.filterMap handing

end observation

section purpose

variable (env : Env)

namespace Message

-- What is read of a message outside of the `try`s: of a calibration result, its backend and
-- its error rate.
def reads (message : Message) : Except Exc (Option (Key × ℚ)) := do
  let payload ← loads message.value
  if message.topic = VQE_METRICS_TOPIC then
    let _ ← loggedIteration.mapM (subscript payload)
    return none
  else if message.topic = VQE_WINDOW_METRICS_TOPIC then
    let _ ← loggedWindow.mapM (subscript payload)
    return none
  else
    let backendName ← subscript payload "backend_name"
    let errorRate ← subscript payload "error_rate"
    let backend ← key backendName
    return some (backend, ← number errorRate)

-- The row that a message asks for.
def row (message : Message) : Except Exc Insert := do
  let payload ← loads message.value
  if message.topic = VQE_METRICS_TOPIC then
    insertion env .vqeIterationMetrics vqeIterationColumns payload
  else if message.topic = VQE_WINDOW_METRICS_TOPIC then
    insertion env .vqeWindowMetrics vqeWindowColumns payload
  else insertion env .calibrationEvents calibrationColumns payload

-- The error rate that a message has for a backend.
def sample (backend : Key) (message : Message) : Option ℚ :=
  match message.reads with
  | .ok (some (name, errorRate)) => if name = backend then some errorRate else none
  | _ => none

end Message

-- The last error rates of a backend.
def window (backend : Key) (messages : List Message) : List ℚ :=
  (Keyed.ownOf Message.sample backend messages).rtake DEFAULT_WINDOW_SIZE

def rollingAverage (backend : Key) (messages : List Message) : ℚ :=
  (window backend messages).sum / (window backend messages).length

def alerts (backend : Key) (messages : List Message) : List Emission :=
  let average := rollingAverage backend messages
  if ALERT_THRESHOLD < average then [.alert backend average] else []

def inserts (message : Message) : List Emission :=
  match message.row env with
  | .ok insert => [.insert insert]
  | .error _ => []

-- What a message leads to after the ones before it.
def expectedOf (seen : List Message) (message : Message) : List Emission :=
  match message.reads with
  | .error _ => []
  | .ok none => inserts env message
  | .ok (some (backend, _)) => alerts backend (seen ++ [message]) ++ inserts env message

-- What a series of messages leads to.
def expected (seen : List Message) : List Message → List Emission
  | [] => []
  | message :: rest => expectedOf env seen message ++ expected (seen ++ [message]) rest

end purpose

end QuantumPlatform.Stream.Consumer

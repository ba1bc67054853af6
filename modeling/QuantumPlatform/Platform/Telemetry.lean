import QuantumPlatform.Orchestrator.Execution
import QuantumPlatform.Process.Run
import QuantumPlatform.Stream.Consumer

namespace QuantumPlatform.Telemetry

open Process Python Stream.Consumer

-- A call of publish_vqe_history by one of the orchestrators.
structure Publication where
  experimentId : Json
  history : List Orchestrator.VQEIterationLog
  rest : Program Orchestrator.sig (Except Exc Unit)

-- The calls so far, the log of the topic, each record with the number of the call that sent
-- it, and the consumer: its place in the log, its answered awaits and what it has left to do.
structure Pipeline where
  publications : List Publication := []
  log : List (Nat × Json) := []
  position : Nat := 0
  events : List (Event sig) := []
  consumer : Program sig (Except Exc Unit)

-- The orchestrator writes its timestamp, microseconds in the model of it, as an ISO string.
def wire (isoformat : Int → String) : Json → Json
  | .obj fields => .obj (fields.map fun field => match field with
      | ("timestamp", .int time) => ("timestamp", .str (isoformat time))
      | other => other)
  | other => other

def message (isoformat : Int → String) (payload : Json) : Stream.Consumer.Message :=
  ⟨VQE_METRICS_TOPIC, .json (wire isoformat payload)⟩

-- A record that is stored in the topic.
def record (publication : Nat) : (op : Orchestrator.Effect) → op.Ans → List (Nat × Json)
  | .kafkaSend topic payload, outcome =>
      if topic = Orchestrator.VQE_METRICS_TOPIC ∧ Outcome.stored outcome = true then
        [(publication, payload)]
      else []
  | _, _ => []

-- The messages of the topic that have been handed to the consumer.
def taken (events : List (Event sig)) : List Stream.Consumer.Message :=
  (handed events).filter fun message => decide (message.topic = VQE_METRICS_TOPIC)

inductive Label where
  | publish (experimentId : Json) (history : List Orchestrator.VQEIterationLog)
  | perform (publication : Nat) (event : Event Orchestrator.sig)
  | seek (position : Nat)
  | consume (event : Event sig)

-- Orchestrators and the consumer in any order. The consumer starts at some place of the log and
-- is given its records one by one; the messages of its other topics may come in between.
inductive Step (isoformat : Int → String) (pipeline : Pipeline) : Label → Pipeline → Prop where
  | publish (experimentId : Json) (history : List Orchestrator.VQEIterationLog) :
      Step isoformat pipeline (.publish experimentId history)
        { pipeline with
          publications := pipeline.publications ++ [⟨experimentId, history,
            (Orchestrator.publishVqeHistory experimentId history).run⟩] }
  | perform {publication : Nat} {experimentId : Json}
      {history : List Orchestrator.VQEIterationLog} {op : Orchestrator.Effect}
      {next : op.Ans → Program Orchestrator.sig (Except Exc Unit)} (answer : op.Ans)
      (running : pipeline.publications[publication]? = some ⟨experimentId, history, .call op next⟩) :
      Step isoformat pipeline (.perform publication ⟨op, answer⟩)
        { pipeline with
          publications := pipeline.publications.set publication
            ⟨experimentId, history, next answer⟩,
          log := pipeline.log ++ record publication op answer }
  | seek {position : Nat} (started : taken pipeline.events = [])
      (bounded : position ≤ pipeline.log.length) :
      Step isoformat pipeline (.seek position) { pipeline with position := position }
  | consume {op : Effect} {next : op.Ans → Program sig (Except Exc Unit)} (answer : op.Ans)
      (running : pipeline.consumer = .call op next)
      (read : ∀ handing ∈ taken [⟨op, answer⟩], ∃ entry,
        pipeline.log[pipeline.position]? = some entry ∧ handing = message isoformat entry.2) :
      Step isoformat pipeline (.consume ⟨op, answer⟩)
        { pipeline with
          position := pipeline.position + (taken [⟨op, answer⟩]).length,
          events := pipeline.events ++ [⟨op, answer⟩],
          consumer := next answer }

-- The statement of an iteration.
def iterationRow (experimentId : Json) (time : Int) (log : Orchestrator.VQEIterationLog) : Insert :=
  ⟨.vqeIterationMetrics, time,
    [.value experimentId, .value (.int log.iteration), .dumped (Orchestrator.floats log.params),
      .value (.float log.energy), .value (.float log.quantumTime), .value (.float log.classicalTime),
      .value (.int log.retryCount), .value (.int log.circuitBreakerTrips)]⟩

-- The row of vqe_iteration_metrics that an answered statement has stored.
def rowOf : Event sig → Option Insert
  | ⟨.execute insert, outcome⟩ =>
      if insert.table = .vqeIterationMetrics ∧ Outcome.stored outcome = true then some insert
      else none
  | _ => none

-- The rows of the table, in the order they were stored.
def rows (events : List (Event sig)) : List Insert := events.filterMap rowOf

end QuantumPlatform.Telemetry

import QuantumPlatform.Api.Records.Theorems

namespace QuantumPlatform.Api

open Process Python

-- The saves and the events that went through, each with the message that was
-- being handled.
structure Logs where
  applied : List (Nat × ExperimentResponse) := []
  announced : List (Nat × ExperimentResponse) := []

-- The results consumer, the queue it reads and the store it writes. A message
-- is named by its position in `messages`.
structure Consumer where
  store : InMemoryExperimentStore
  messages : List ExperimentResultMessage := []
  queue : List Nat := []
  unacked : List Nat := []
  handling : Option (Nat × Program sig (Except Exc Unit)) := none
  running : Bool := true
  logs : Logs := {}

-- The record the message asks for.
def ExperimentResponse.Reflects (experiment : ExperimentResponse)
    (resultMsg : ExperimentResultMessage) : Prop :=
  resultMsg.experimentId = .str experiment.id ∧
    recognised resultMsg.status = some experiment.status ∧ experiment.error = resultMsg.error ∧
    (resultMsg.terminal = true →
      experiment.result = resultMsg.result ∧ experiment.completedAt.isSome = true)

namespace Logs

-- The message has been applied and, when terminal, announced.
def Handled (logs : Logs) (index : Nat) (resultMsg : ExperimentResultMessage) : Prop :=
  ∃ experiment, (index, experiment) ∈ logs.applied ∧ experiment.Reflects resultMsg ∧
    (resultMsg.terminal = true → (index, experiment) ∈ logs.announced)

def after (logs : Logs) (index : Nat) : (op : Effect) → op.Ans → Logs
  | .storeSave experiment, outcome =>
      if outcome.stored then { logs with applied := (index, experiment) :: logs.applied } else logs
  | .kafkaSend _ payload _, outcome =>
      if outcome.stored then { logs with announced := (index, payload) :: logs.announced } else logs
  | _, _ => logs

end Logs

namespace Consumer

def Safe (consumer : Consumer) (index : Nat) (resultMsg : ExperimentResultMessage) : Prop :=
  index ∈ consumer.queue ∨ index ∈ consumer.unacked ∨ consumer.logs.Handled index resultMsg

-- A well-formed message for a known experiment with a recognised status.
def Valid (consumer : Consumer) (resultMsg : ExperimentResultMessage) : Prop :=
  (∃ experimentId experiment, resultMsg.experimentId = .str experimentId ∧
    consumer.store.get experimentId = some experiment) ∧
  (recognised resultMsg.status).isSome = true

-- A read answers from the store or raises; the other calls may do either.
def Answers (consumer : Consumer) : (op : Effect) → op.Ans → Prop
  | .storeGet key, answer => answer = consumer.store.lookup key ∨ ∃ exc, answer = .error exc
  | _, _ => True

-- Acknowledged or rejected without requeue, the broker forgets the message.
def unackedAfter (consumer : Consumer) (index : Nat) : Effect → List Nat
  | .ack => consumer.unacked.erase index
  | .reject => consumer.unacked.erase index
  | _ => consumer.unacked

inductive Label where
  | arrive (resultMsg : ExperimentResultMessage)
  | save (experiment : ExperimentResponse)
  | deliver
  | perform (op : Effect) (answer : op.Ans)
  | finish
  | restart

-- `save` is any other handler writing a record. An exception that leaves
-- consume_results ends it; only a restart of the service brings it back, and
-- the broker then queues again what was not acknowledged.
inductive Step : Consumer → Label → Consumer → Prop where
  | arrive (consumer : Consumer) (resultMsg : ExperimentResultMessage)
      (valid : consumer.Valid resultMsg) :
      Step consumer (.arrive resultMsg)
        { consumer with
          messages := consumer.messages ++ [resultMsg],
          queue := consumer.queue ++ [consumer.messages.length] }
  | save (consumer : Consumer) (experiment : ExperimentResponse) :
      Step consumer (.save experiment) { consumer with store := consumer.store.save experiment }
  | deliver (consumer : Consumer) (index : Nat) (rest : List Nat)
      (resultMsg : ExperimentResultMessage) (running : consumer.running = true)
      (idle : consumer.handling = none) (waiting : consumer.queue = index :: rest)
      (found : consumer.messages[index]? = some resultMsg) :
      Step consumer .deliver
        { consumer with
          queue := rest, unacked := index :: consumer.unacked,
          handling := some (index, (process (consumeMessage resultMsg.toJson)).run) }
  | perform (consumer : Consumer) (index : Nat) (op : Effect)
      (next : op.Ans → Program sig (Except Exc Unit)) (answer : op.Ans)
      (handling : consumer.handling = some (index, .call op next))
      (answers : consumer.Answers op answer) :
      Step consumer (.perform op answer)
        { consumer with
          store := consumer.store.after op answer,
          unacked := consumer.unackedAfter index op,
          handling := some (index, next answer),
          logs := consumer.logs.after index op answer }
  | finish (consumer : Consumer) (index : Nat) (result : Except Exc Unit)
      (handling : consumer.handling = some (index, .ret result)) :
      Step consumer .finish { consumer with handling := none, running := result.isOk }
  | restart (consumer : Consumer) :
      Step consumer .restart
        { consumer with
          queue := consumer.unacked ++ consumer.queue, unacked := [], handling := none,
          running := true }

-- The call does not raise, or it raises when the message has nothing more to
-- lose: the event is out, or the record of a message without an event is saved.
def Harmless : Label → Prop
  | .perform (.storeGet _) answer => ∃ found, answer = Except.ok found
  | .perform (.storeSave experiment) outcome => outcome = Outcome.returned ∨
      Outcome.stored outcome = true ∧ experiment.status.terminal = false
  | .perform (.kafkaSend _ _ _) outcome => Outcome.stored outcome = true
  | _ => True

end Consumer

def World.clockAt (world : World) (now : DateTime) : World := { world with now := now }

-- The loop against a healthy store, clock and topic, with one reading of the
-- clock for each message.
def World.consumeResults (world : World) : List (Body × DateTime) → Except Exc Unit × World
  | [] => (.ok (), world)
  | (body, now) :: rest =>
      match (process (consumeMessage body)).run.exec World.answer (world.clockAt now) with
      | (.ok _, later) => later.consumeResults rest
      | (.error exc, later) => (.error exc, later)

-- The body is a result for an experiment in the store, with a status the
-- consumer knows.
def InMemoryExperimentStore.wellFormed (store : InMemoryExperimentStore) (body : Body) : Bool :=
  match ExperimentResultMessage.fromJson body with
  | .error _ => false
  | .ok resultMsg =>
      match store.lookup resultMsg.experimentId with
      | .ok (some _) => (recognised resultMsg.status).isSome
      | _ => false

-- Decoding the body, looking up its id or looking up the status it carries
-- for a known id raises.
def InMemoryExperimentStore.raises (store : InMemoryExperimentStore) (body : Body) : Bool :=
  match ExperimentResultMessage.fromJson body with
  | .error _ => true
  | .ok resultMsg =>
      match store.lookup resultMsg.experimentId with
      | .error _ => true
      | .ok none => false
      | .ok (some _) => !resultMsg.status.hashable

-- The loop gets past every message, and leaves what it would have left on the
-- well-formed messages alone.
def World.Survives (world : World) (messages : List (Body × DateTime)) : Prop :=
  (world.consumeResults messages).1 = .ok () ∧
    (world.consumeResults messages).2.store =
      (world.consumeResults
        (messages.filter fun message => world.store.wellFormed message.1)).2.store ∧
    (world.consumeResults messages).2.completed =
      (world.consumeResults
        (messages.filter fun message => world.store.wellFormed message.1)).2.completed

end QuantumPlatform.Api

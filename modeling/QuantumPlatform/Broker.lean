import QuantumPlatform.Orchestrator.Delivery
import QuantumPlatform.Process.Run
import Mathlib.Data.Multiset.AddSub

namespace QuantumPlatform

open Process Python Orchestrator

-- A message in a queue. `origin` is the position of the published task that it
-- is a copy of.
structure Copy where
  message : Message
  redelivered : Bool := false
  origin : Nat

def Copy.incoming (copy : Copy) : IncomingMessage :=
  { copy.message with redelivered := copy.redelivered }

-- A copy at a worker, and what the worker has left to do for it.
structure Delivery where
  copy : Copy
  progress : Progress := {}
  rest : Program sig (Except Exc Unit)

-- The durable queues and the workers. A queue is a multiset: with several
-- workers and requeued messages any order of delivery is possible. The results
-- queue is kept as the list of all results ever stored in it.
structure Broker where
  published : List Body := []
  taskQueue : Multiset Copy := 0
  waitQueue : Multiset Copy := 0
  deadLetters : Multiset Copy := 0
  results : List Body := []
  inFlight : Multiset Delivery := 0

namespace Broker

-- What a stored publish for a copy of `origin` adds.
def store (broker : Broker) (origin : Nat) (queue : String) (message : Message) : Broker :=
  if queue = TASK_QUEUE_NAME then
    { broker with taskQueue := ⟨message, false, origin⟩ ::ₘ broker.taskQueue }
  else if queue = WAIT_QUEUE_NAME then
    { broker with waitQueue := ⟨message, false, origin⟩ ::ₘ broker.waitQueue }
  else if queue = DEAD_LETTER_QUEUE_NAME then
    { broker with deadLetters := ⟨message, false, origin⟩ ::ₘ broker.deadLetters }
  else if queue = RESULTS_QUEUE_NAME then
    { broker with results := broker.results ++ [message.body] }
  else broker

def after (broker : Broker) (origin : Nat) : (op : Effect) → op.Ans → Broker
  | .publish queue message, outcome =>
      if Outcome.stored outcome then broker.store origin queue message else broker
  | _, _ => broker

def publish (broker : Broker) (body : Body) : Broker :=
  { broker with
    published := broker.published ++ [body],
    taskQueue := ⟨{ body := body }, false, broker.published.length⟩ ::ₘ broker.taskQueue }

-- A worker is gone: what it had not acknowledged is queued again.
def requeue (broker : Broker) (delivery : Delivery) : Broker :=
  if delivery.progress.acked then broker
  else { broker with
    taskQueue := { delivery.copy with redelivered := true } ::ₘ broker.taskQueue }

inductive Label where
  | publish (body : Body)
  | deliver (copy : Copy)
  | perform (copy : Copy) (progress : Progress) (op : Effect) (answer : op.Ans)
  | finish (copy : Copy)
  | crash (delivery : Delivery)
  | expire (copy : Copy)

-- Any number of workers; each may crash whenever it waits for an answer or an
-- exception has left its loop. The fuel of a delivery is arbitrary. An expired
-- message goes back to the task queue as the wait queue's arguments say.
inductive Step (settings : Settings) (externals : Externals) : Broker → Label → Broker → Prop where
  | publish (broker : Broker) (body : Body) :
      Step settings externals broker (.publish body) (broker.publish body)
  | deliver (broker : Broker) (copy : Copy) (others : Multiset Copy) (fuel : Nat)
      (queued : broker.taskQueue = copy ::ₘ others) :
      Step settings externals broker (.deliver copy)
        { broker with
          taskQueue := others,
          inFlight := ⟨copy, {}, (consume ⟨settings, externals, fuel⟩ copy.incoming).run⟩ ::ₘ
            broker.inFlight }
  | perform (broker : Broker) (copy : Copy) (progress : Progress) (op : Effect)
      (next : op.Ans → Program sig (Except Exc Unit)) (answer : op.Ans)
      (others : Multiset Delivery)
      (running : broker.inFlight = ⟨copy, progress, .call op next⟩ ::ₘ others) :
      Step settings externals broker (.perform copy progress op answer)
        { broker.after copy.origin op answer with
          inFlight := ⟨copy, progress.after op answer, next answer⟩ ::ₘ others }
  | finish (broker : Broker) (copy : Copy) (progress : Progress) (others : Multiset Delivery)
      (running : broker.inFlight = ⟨copy, progress, .ret (.ok ())⟩ ::ₘ others) :
      Step settings externals broker (.finish copy) { broker with inFlight := others }
  | crash (broker : Broker) (delivery : Delivery) (others : Multiset Delivery)
      (running : broker.inFlight = delivery ::ₘ others) :
      Step settings externals broker (.crash delivery)
        ({ broker with inFlight := others }.requeue delivery)
  | expire (broker : Broker) (copy : Copy) (others : Multiset Copy)
      (waiting : broker.waitQueue = copy ::ₘ others) :
      Step settings externals broker (.expire copy)
        { broker with
          waitQueue := others,
          taskQueue := ⟨{ copy.message with expiration := none }, false, copy.origin⟩ ::ₘ
            broker.taskQueue }

section origin

variable (origin : Nat)

def share (copy : Copy) (amount : Nat) : Nat := if copy.origin = origin then amount else 0

def entry : Label → Nat
  | .perform copy _ .handleMessage _ => share origin copy 1
  | _ => 0

-- How many deliveries of copies of that task reached handle_message.
def entries (labels : List Label) : Nat := (labels.map (entry origin)).sum

end origin

-- No worker is lost between the retry copy of a delivery and its ack.
def Label.Clean : Label → Prop
  | .crash delivery => delivery.progress.retried = true → delivery.progress.acked = true
  | _ => True

-- Every message copy that is somewhere: in a queue or at a worker.
def Has (broker : Broker) (copy : Copy) : Prop :=
  copy ∈ broker.taskQueue ∨ copy ∈ broker.waitQueue ∨ copy ∈ broker.deadLetters ∨
    ∃ delivery ∈ broker.inFlight, delivery.copy = copy

-- A copy somebody still has to work on: it is queued, waits, or is at a worker
-- that nothing has taken over from yet.
def Pending (broker : Broker) (copy : Copy) : Prop :=
  copy ∈ broker.taskQueue ∨ copy ∈ broker.waitQueue ∨
    ∃ delivery ∈ broker.inFlight, delivery.copy = copy ∧ delivery.progress.handed = false

-- A terminal result for the experiment that the body names has been published.
def Settled (broker : Broker) (body : Body) : Prop :=
  ∃ (task : ExperimentTask) (resultMessage : ExperimentResultMessage),
    ExperimentTask.fromJson body = .ok task ∧
    resultMessage.toJson ∈ broker.results ∧ resultMessage.terminal = true ∧
    resultMessage.experimentId = task.experimentId

end Broker

-- The worker does not run this delivery: it is a dead letter.
def Copy.Rejected (copy : Copy) : Prop :=
  copy.redelivered = true ∧ MAX_RETRIES ≤ getRetryCount copy.message ∨
    ∃ exc, ExperimentTask.fromJson copy.message.body = .error exc

-- How one copy of a task comes from another.
inductive Copy.Derives (settings : Settings) (copy : Copy) : Copy → Prop where
  | requeued : Derives settings copy { copy with redelivered := true }
  | expired : Derives settings copy
      ⟨{ copy.message with expiration := none }, false, copy.origin⟩
  | retried (below : getRetryCount copy.message < MAX_RETRIES) :
      Derives settings copy ⟨retryCopy copy.message, false, copy.origin⟩
  | rescheduled (below : waitCount copy.message < settings.calibrationMaxWaitAttempts) :
      Derives settings copy
        ⟨waitCopy copy.message settings.calibrationWaitDelay, false, copy.origin⟩
  | rejected : Derives settings copy ⟨deadLetterCopy copy.message, false, copy.origin⟩

-- The copy is one of a published task, and both of its counters are in range.
structure Copy.Counted (settings : Settings) (published : List Body) (copy : Copy) : Prop where
  body : published[copy.origin]? = some copy.message.body
  retries : 0 ≤ getRetryCount copy.message ∧ getRetryCount copy.message ≤ MAX_RETRIES
  waits : 0 ≤ waitCount copy.message ∧
    waitCount copy.message ≤ settings.calibrationMaxWaitAttempts

-- The calls that parse or run a task: the retry path makes none of them.
def Processes : Effect → Prop
  | .publish queue _ => queue ≠ TASK_QUEUE_NAME ∧ queue ≠ DEAD_LETTER_QUEUE_NAME
  | .declareQueue _ => False
  | .ack => False
  | .sleep _ => False
  | _ => True

-- A retry copy and a wait copy each raise one counter, the first of them after
-- its backoff, and a redelivered message is never processed.
def Broker.Label.Faithful : Broker.Label → Prop
  | .perform copy progress op _ =>
      (∀ message, op = .publish TASK_QUEUE_NAME message →
        message.body = copy.message.body ∧
        getRetryCount message = getRetryCount copy.message + 1 ∧
        waitCount message = waitCount copy.message ∧
        progress.slept = some (2 * 2 ^ (getRetryCount message - 1))) ∧
      (∀ message, op = .publish WAIT_QUEUE_NAME message →
        message.body = copy.message.body ∧
        waitCount message = waitCount copy.message + 1 ∧
        getRetryCount message = getRetryCount copy.message) ∧
      (copy.redelivered = true → progress.entered = false ∧ ¬ Processes op)
  | _ => True

-- What the worker relies on about a delivery it holds.
structure Delivery.Sound (settings : Settings) (delivery : Delivery) : Prop where
  obeys : (Orchestrator.delivery settings delivery.copy.incoming).Obeys Done delivery.progress
    delivery.rest
  fresh : delivery.progress.entered = true → delivery.copy.redelivered = false
  handed : delivery.progress.acked = true → delivery.progress.handed = true
  retried : delivery.progress.retried = true → delivery.progress.handed = true

end QuantumPlatform

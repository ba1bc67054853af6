import QuantumPlatform.Broker.Script
import Mathlib.Data.Multiset.Count
import Mathlib.Logic.Relation

namespace QuantumPlatform

open Process Python Orchestrator

-- What can become of one published body, whoever handles it: it is queued or at
-- a worker, which may have sent a notice that the task has to wait; and it ends
-- with a result or as a dead letter.
inductive Life where
  | queued (notices : List ExperimentResultMessage)
  | working (notices : List ExperimentResultMessage)
  | noticed (notices : List ExperimentResultMessage) (notice : ExperimentResultMessage)
  | settled (notices : List ExperimentResultMessage) (final : ExperimentResultMessage)
  | dead (notices : List ExperimentResultMessage) (letter : Message)

namespace Life

def notices : Life → List ExperimentResultMessage
  | .queued notices => notices
  | .working notices => notices
  | .noticed notices notice => notices ++ [notice]
  | .settled notices _ => notices
  | .dead notices _ => notices

def finals : Life → List ExperimentResultMessage
  | .settled _ final => [final]
  | _ => []

def letters : Life → List Message
  | .dead _ letter => [letter]
  | _ => []

def waits : Life → Nat
  | .noticed notices _ => notices.length
  | life => life.notices.length

def live : Life → Nat
  | .queued _ => 1
  | _ => 0

def held : Life → Nat
  | .working _ => 1
  | .noticed _ _ => 1
  | _ => 0

inductive Step (settings : Settings) (body : Body) : Life → Life → Prop where
  | delivered (notices : List ExperimentResultMessage) :
      Step settings body (.queued notices) (.working notices)
  | noticed (notices : List ExperimentResultMessage) (task : ExperimentTask)
      (parsed : ExperimentTask.fromJson body = .ok task)
      (below : (notices.length : Int) < settings.calibrationMaxWaitAttempts) :
      Step settings body (.working notices) (.noticed notices (waitingResult task))
  | rescheduled (notices : List ExperimentResultMessage) (notice : ExperimentResultMessage) :
      Step settings body (.noticed notices notice) (.queued (notices ++ [notice]))
  | settled (notices : List ExperimentResultMessage) (task : ExperimentTask)
      (parsed : ExperimentTask.fromJson body = .ok task) (final : ExperimentResultMessage)
      (reports : Reports task final) (terminal : final.terminal = true) :
      Step settings body (.working notices) (.settled notices final)
  | discarded (notices : List ExperimentResultMessage) (exc : Exc)
      (unparsed : ExperimentTask.fromJson body = .error exc) (letter : Message)
      (same : letter.body = body) :
      Step settings body (.working notices) (.dead notices letter)

def Reachable (settings : Settings) (body : Body) (life : Life) : Prop :=
  Relation.ReflTransGen (Step settings body) (.queued []) life

structure Sane (settings : Settings) (body : Body) (life : Life) : Prop where
  notices : ∀ notice ∈ life.notices, ∃ task,
    ExperimentTask.fromJson body = .ok task ∧ notice = waitingResult task
  bounded : life.notices.length ≤ settings.calibrationMaxWaitAttempts.toNat
  finals : ∀ final ∈ life.finals, ∃ task,
    ExperimentTask.fromJson body = .ok task ∧ Reports task final ∧ final.terminal = true
  letters : ∀ letter ∈ life.letters, letter.body = body ∧
    ∃ exc, ExperimentTask.fromJson body = .error exc

end Life

-- What a delivery has done, and that it has acknowledged its message once it is over.
structure Delivery.Acknowledged (settings : Settings) (externals : Externals)
    (delivery : Delivery) (fuel : Nat) (events : List (Event sig)) : Prop where
  trace : (consume ⟨settings, externals, fuel⟩ delivery.copy.incoming).run.Trace events
    delivery.rest
  running : ∀ op next, delivery.rest = .call op next → ∀ event ∈ events, event.1 ≠ .ack
  ended : ∀ result, delivery.rest = .ret result → AckedOnce events

-- A delivery that has come this far without a failure of the broker or the database.
structure Delivery.Follows (settings : Settings) (externals : Externals) (delivery : Delivery)
    (phase : Script) : Prop where
  fresh : delivery.copy.redelivered = false
  handed : delivery.progress.handed = phase.taken
  trace : ∃ fuel events,
    (consume ⟨settings, externals, fuel⟩ delivery.copy.incoming).run.Trace events delivery.rest ∧
    (script settings delivery.copy.message).Admits .working events ∧
    (script settings delivery.copy.message).after .working events = phase

namespace Broker

-- No worker crashes, and the broker and the database do what they are asked.
def Label.Smooth : Label → Prop
  | .crash _ => False
  | .perform _ _ op answer => Succeeds op answer
  | _ => True

-- No task has raised what is no Exception, which is what ends a worker's loop.
def Contained (broker : Broker) : Prop :=
  ∀ delivery ∈ broker.inFlight, ∀ exc, delivery.rest = .ret (.error exc) →
    exc.isException = true

section origin

variable (origin : Nat)

-- What the deliveries of that task have put into a queue, in order.
def sends (queue : String) : Label → List Message
  | .perform copy _ (.publish target message) outcome =>
      if copy.origin = origin ∧ target = queue ∧ Outcome.stored outcome = true then [message]
      else []
  | _ => []

def sent (queue : String) (labels : List Label) : List Message := labels.flatMap (sends origin queue)

-- The copies that are there to be handled.
def live (broker : Broker) : Nat :=
  broker.taskQueue.countP (fun copy => copy.origin = origin) +
    broker.waitQueue.countP (fun copy => copy.origin = origin)

-- The copies at workers that nothing has taken over from yet.
def holding (broker : Broker) : Nat :=
  broker.inFlight.countP fun delivery =>
    delivery.copy.origin = origin ∧ delivery.progress.handed = false

-- No worker is in the middle of handling the task.
def Idle (broker : Broker) : Prop :=
  ∀ delivery ∈ broker.inFlight, delivery.copy.origin ≠ origin

-- A body that is no task becomes one dead letter, and nothing else.
structure Discards (body : Body) (labels : List Label) (broker : Broker) : Prop where
  results : sent origin RESULTS_QUEUE_NAME labels = []
  letters : (sent origin DEAD_LETTER_QUEUE_NAME labels).length ≤ 1
  bodies : ∀ letter ∈ sent origin DEAD_LETTER_QUEUE_NAME labels, letter.body = body
  idle : broker.Idle origin →
    broker.live origin + (sent origin DEAD_LETTER_QUEUE_NAME labels).length = 1

-- A task gets some notices, one for each reschedule, and then its one result.
structure Settles (settings : Settings) (task : ExperimentTask) (labels : List Label)
    (broker : Broker) (notices : Nat) (finals : List ExperimentResultMessage) : Prop where
  results : sent origin RESULTS_QUEUE_NAME labels =
    (List.replicate notices (waitingResult task) ++ finals).map fun resultMessage =>
      { body := resultMessage.toJson }
  bounded : notices ≤ settings.calibrationMaxWaitAttempts.toNat
  reschedules : (sent origin WAIT_QUEUE_NAME labels).length ≤ notices
  single : finals.length ≤ 1 ∧ ∀ final ∈ finals, Reports task final ∧ final.terminal = true
  letters : sent origin DEAD_LETTER_QUEUE_NAME labels = []
  idle : broker.Idle origin → (sent origin WAIT_QUEUE_NAME labels).length = notices ∧
    broker.live origin + finals.length = 1

end origin

-- The broker and what has happened so far are those of this life of the task.
structure Stage (settings : Settings) (externals : Externals) (origin : Nat) (body : Body)
    (life : Life) (labels : List Label) (broker : Broker) : Prop where
  reachable : life.Reachable settings body
  live : broker.live origin = life.live
  held : broker.holding origin = life.held
  results : sent origin RESULTS_QUEUE_NAME labels =
    (life.notices ++ life.finals).map fun resultMessage => { body := resultMessage.toJson }
  waits : (sent origin WAIT_QUEUE_NAME labels).length = life.waits
  letters : sent origin DEAD_LETTER_QUEUE_NAME labels = life.letters
  copies : ∀ copy, copy ∈ broker.taskQueue ∨ copy ∈ broker.waitQueue → copy.origin = origin →
    copy.message.body = body ∧
    ∃ notices, life = .queued notices ∧ waitCount copy.message = notices.length
  holders : ∀ delivery ∈ broker.inFlight, delivery.copy.origin = origin →
    delivery.progress.handed = false →
    delivery.copy.message.body = body ∧
    ∃ notices, waitCount delivery.copy.message = notices.length ∧
      (delivery.Follows settings externals .working ∧ life = .working notices ∨
        delivery.Follows settings externals .noticed ∧ ∃ notice, life = .noticed notices notice)

-- What holds of a broker and its past as long as nothing fails.
structure Lived (settings : Settings) (externals : Externals) (labels : List Label)
    (broker : Broker) : Prop where
  sound : broker.Sound settings
  origins : ∀ copy, broker.Has copy → copy.origin < broker.published.length
  fresh : ∀ copy, copy ∈ broker.taskQueue ∨ copy ∈ broker.waitQueue → copy.redelivered = false
  follows : ∀ delivery ∈ broker.inFlight, ∃ phase, delivery.Follows settings externals phase
  unsent : ∀ origin queue, broker.published.length ≤ origin → sent origin queue labels = []
  lives : ∀ origin body, broker.published[origin]? = some body →
    ∃ life, Stage settings externals origin body life labels broker

end Broker

end QuantumPlatform

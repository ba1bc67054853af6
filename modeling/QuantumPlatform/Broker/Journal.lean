import QuantumPlatform.Broker
import QuantumPlatform.Orchestrator.Course
import Mathlib.Data.Multiset.MapFold

namespace QuantumPlatform

open Process Python Orchestrator

-- A delivery that put the next copy of its message into a queue, and what it
-- had done by then.
structure Visit where
  copy : Copy
  queue : String
  events : List (Event sig)

def Visit.rescheduled (visit : Visit) : Bool := visit.queue = WAIT_QUEUE_NAME

-- A copy with the deliveries that it descends through, first to last.
structure Descendant where
  copy : Copy
  visits : List Visit := []

namespace Descendant

def reschedules (source : Descendant) : List Visit := source.visits.filter Visit.rescheduled

def child (source : Descendant) (events : List (Event sig)) (queue : String) (message : Message) :
    Descendant :=
  ⟨⟨message, false, source.copy.origin⟩, source.visits ++ [⟨source.copy, queue, events⟩]⟩

def redelivered (source : Descendant) : Descendant :=
  { source with copy := { source.copy with redelivered := true } }

def expired (source : Descendant) : Descendant :=
  { source with
    copy := ⟨{ source.copy.message with expiration := none }, false, source.copy.origin⟩ }

end Descendant

-- A delivery with its past.
structure Handling where
  source : Descendant
  fuel : Nat
  events : List (Event sig) := []
  progress : Progress := {}
  rest : Program sig (Except Exc Unit)

def Handling.delivery (handling : Handling) : Delivery :=
  ⟨handling.source.copy, handling.progress, handling.rest⟩

-- The broker, and where each of its copies comes from.
structure Journal where
  published : List Body := []
  taskQueue : Multiset Descendant := 0
  waitQueue : Multiset Descendant := 0
  deadLetters : Multiset Descendant := 0
  results : List Body := []
  inFlight : Multiset Handling := 0

namespace Journal

def broker (journal : Journal) : Broker where
  published := journal.published
  taskQueue := journal.taskQueue.map Descendant.copy
  waitQueue := journal.waitQueue.map Descendant.copy
  deadLetters := journal.deadLetters.map Descendant.copy
  results := journal.results
  inFlight := journal.inFlight.map Handling.delivery

def store (journal : Journal) (source : Descendant) (events : List (Event sig)) (queue : String)
    (message : Message) : Journal :=
  if queue = TASK_QUEUE_NAME then
    { journal with taskQueue := source.child events queue message ::ₘ journal.taskQueue }
  else if queue = WAIT_QUEUE_NAME then
    { journal with waitQueue := source.child events queue message ::ₘ journal.waitQueue }
  else if queue = DEAD_LETTER_QUEUE_NAME then
    { journal with deadLetters := source.child events queue message ::ₘ journal.deadLetters }
  else if queue = RESULTS_QUEUE_NAME then
    { journal with results := journal.results ++ [message.body] }
  else journal

def after (journal : Journal) (source : Descendant) (events : List (Event sig)) :
    (op : Effect) → op.Ans → Journal
  | .publish queue message, outcome =>
      if Outcome.stored outcome then journal.store source events queue message else journal
  | _, _ => journal

def publish (journal : Journal) (body : Body) : Journal :=
  { journal with
    published := journal.published ++ [body],
    taskQueue := ⟨⟨{ body := body }, false, journal.published.length⟩, []⟩ ::ₘ journal.taskQueue }

def requeue (journal : Journal) (handling : Handling) : Journal :=
  if handling.progress.acked then journal
  else { journal with taskQueue := handling.source.redelivered ::ₘ journal.taskQueue }

-- The steps of the broker, with a record of them.
inductive Step (settings : Settings) (externals : Externals) :
    Journal → Broker.Label → Journal → Prop where
  | publish (journal : Journal) (body : Body) :
      Step settings externals journal (.publish body) (journal.publish body)
  | deliver (journal : Journal) (source : Descendant) (others : Multiset Descendant) (fuel : Nat)
      (queued : journal.taskQueue = source ::ₘ others) :
      Step settings externals journal (.deliver source.copy)
        { journal with
          taskQueue := others,
          inFlight := ⟨source, fuel, [], {},
            (consume ⟨settings, externals, fuel⟩ source.copy.incoming).run⟩ ::ₘ journal.inFlight }
  | perform (journal : Journal) (source : Descendant) (fuel : Nat) (events : List (Event sig))
      (progress : Progress) (op : Effect) (next : op.Ans → Program sig (Except Exc Unit))
      (answer : op.Ans) (others : Multiset Handling)
      (running : journal.inFlight = ⟨source, fuel, events, progress, .call op next⟩ ::ₘ others) :
      Step settings externals journal (.perform source.copy progress op answer)
        { journal.after source (events ++ [⟨op, answer⟩]) op answer with
          inFlight := ⟨source, fuel, events ++ [⟨op, answer⟩], progress.after op answer,
            next answer⟩ ::ₘ others }
  | finish (journal : Journal) (source : Descendant) (fuel : Nat) (events : List (Event sig))
      (progress : Progress) (others : Multiset Handling)
      (running : journal.inFlight = ⟨source, fuel, events, progress, .ret (.ok ())⟩ ::ₘ others) :
      Step settings externals journal (.finish source.copy) { journal with inFlight := others }
  | crash (journal : Journal) (handling : Handling) (others : Multiset Handling)
      (running : journal.inFlight = handling ::ₘ others) :
      Step settings externals journal (.crash handling.delivery)
        ({ journal with inFlight := others }.requeue handling)
  | expire (journal : Journal) (source : Descendant) (others : Multiset Descendant)
      (waiting : journal.waitQueue = source ::ₘ others) :
      Step settings externals journal (.expire source.copy)
        { journal with waitQueue := others, taskQueue := source.expired ::ₘ journal.taskQueue }

end Journal

-- The message was rescheduled as often as it may be, each time because of what
-- the delivery had read.
structure Descendant.Exhausted (settings : Settings) (source : Descendant) : Prop where
  often : source.reschedules.length = settings.calibrationMaxWaitAttempts.toNat
  unfit : ∀ visit ∈ source.reschedules, ∃ before, before <+: visit.events ∧
    ReadUnfit settings before

section course

variable (settings : Settings) (externals : Externals) (handling : Handling)

def Handling.env : Env := ⟨settings, externals, handling.fuel⟩

def Handling.choice : Program sig (Except Exc Course) :=
  (chooseCourse (handling.env settings externals) handling.source.copy.incoming).run

-- The delivery has come to this course, after what it had done before.
def Handling.Takes (before : List (Event sig)) (course : Course) : Prop :=
  before <+: handling.events ∧ (handling.choice settings externals).Returns before (.ok course)

-- A delivery chooses a course, unless that raises, and follows it from there on,
-- and there are reasons for the course that it takes.
structure Handling.Gated : Prop where
  follows :
    (∃ op next, (handling.choice settings externals).Trace handling.events (.call op next)) ∨
    (∃ exc, (handling.choice settings externals).Returns handling.events (.error exc)) ∨
    ∃ before course after, handling.events = before ++ after ∧
      (handling.choice settings externals).Returns before (.ok course) ∧
      (course.follow (handling.env settings externals) handling.source.copy.message).run.Trace
        after handling.rest
  justified : ∀ before course, handling.Takes settings externals before course →
    course.Justified settings handling.source.copy.message before
  exhausted : ∀ before task, handling.Takes settings externals before (.exhausted task) →
    handling.source.Exhausted settings

end course

end QuantumPlatform

import QuantumPlatform.Broker.Journal
import QuantumPlatform.Broker.Headers
import QuantumPlatform.Orchestrator.Course.Theorems

namespace QuantumPlatform

open Process Python Orchestrator

namespace Journal

variable {settings : Settings} {externals : Externals} {journal next : Journal}
  {broker later : Broker} {label : Broker.Label} {labels : List Broker.Label}

theorem broker_store (source : Descendant) (events : List (Event sig)) (queue : String)
    (message : Message) :
    (journal.store source events queue message).broker =
      journal.broker.store source.copy.origin queue message := by
  unfold store Broker.store
  split_ifs
  · simp only [broker, Multiset.map_cons, Descendant.child]
  · simp only [broker, Multiset.map_cons, Descendant.child]
  · simp only [broker, Multiset.map_cons, Descendant.child]
  · rfl
  · rfl

theorem broker_after (source : Descendant) (events : List (Event sig)) (op : Effect)
    (answer : op.Ans) :
    (journal.after source events op answer).broker =
      journal.broker.after source.copy.origin op answer := by
  cases op with
  | publish queue message =>
      simp only [after, Broker.after]
      split_ifs
      · exact broker_store source events queue message
      · rfl
  | _ => rfl

theorem broker_requeue (handling : Handling) :
    (journal.requeue handling).broker = journal.broker.requeue handling.delivery := by
  unfold requeue Broker.requeue Handling.delivery
  split_ifs
  · rfl
  · simp only [broker, Multiset.map_cons, Descendant.redelivered]

-- Without the record it is a step of the broker.
theorem Step.erase (last : Step settings externals journal label next) :
    Broker.Step settings externals journal.broker label next.broker := by
  cases last with
  | publish body =>
      have hpublished : (journal.publish body).broker = journal.broker.publish body := by
        simp only [Journal.publish, Broker.publish, broker, Multiset.map_cons]
      rw [hpublished]
      exact .publish _ _
  | deliver source others fuel queued =>
      have hqueued : journal.broker.taskQueue = source.copy ::ₘ others.map Descendant.copy := by
        simp only [broker, queued, Multiset.map_cons]
      have hstep : Broker.Step settings externals journal.broker _ _ :=
        .deliver _ _ _ fuel hqueued
      simpa only [broker, Multiset.map_cons, Handling.delivery] using hstep
  | perform source fuel events progress op rest answer others running =>
      have hrunning : journal.broker.inFlight =
          ⟨source.copy, progress, .call op rest⟩ ::ₘ others.map Handling.delivery := by
        simp only [broker, running, Multiset.map_cons, Handling.delivery]
      have hstep : Broker.Step settings externals journal.broker _ _ :=
        .perform _ _ _ op rest answer _ hrunning
      rw [← broker_after source (events ++ [⟨op, answer⟩])] at hstep
      simpa only [broker, Multiset.map_cons, Handling.delivery] using hstep
  | finish source fuel events progress others running =>
      have hrunning : journal.broker.inFlight =
          ⟨source.copy, progress, .ret (.ok ())⟩ ::ₘ others.map Handling.delivery := by
        simp only [broker, running, Multiset.map_cons, Handling.delivery]
      exact .finish _ _ _ _ hrunning
  | crash handling others running =>
      have hrunning : journal.broker.inFlight =
          handling.delivery ::ₘ others.map Handling.delivery := by
        simp only [broker, running, Multiset.map_cons]
      rw [broker_requeue]
      exact .crash _ _ _ hrunning
  | expire source others waiting =>
      have hwaiting : journal.broker.waitQueue = source.copy ::ₘ others.map Descendant.copy := by
        simp only [broker, waiting, Multiset.map_cons]
      have hstep : Broker.Step settings externals journal.broker _ _ :=
        .expire _ _ _ hwaiting
      simpa only [broker, Multiset.map_cons, Descendant.expired] using hstep

theorem exists_of_map {α β : Type} {f : α → β} {all : Multiset α} {first : β} {rest : Multiset β}
    (h : all.map f = first ::ₘ rest) :
    ∃ head others, all = head ::ₘ others ∧ f head = first ∧ others.map f = rest := by
  classical
  obtain ⟨head, hmem, hhead, hrest⟩ := (Multiset.map_eq_cons f all rest first).mpr h
  exact ⟨head, all.erase head, (Multiset.cons_erase hmem).symm, hhead, hrest⟩

-- Every step of the broker can be recorded.
theorem Step.lift (last : Broker.Step settings externals broker label later)
    (hbroker : journal.broker = broker) :
    ∃ next, Step settings externals journal label next ∧ next.broker = later := by
  subst hbroker
  cases last with
  | publish body =>
      refine ⟨_, .publish journal body, ?_⟩
      simp only [Journal.publish, Broker.publish, broker, Multiset.map_cons]
  | deliver copy others fuel queued =>
      obtain ⟨source, sources, hsource, rfl, rfl⟩ := exists_of_map queued
      refine ⟨_, .deliver journal source sources fuel hsource, ?_⟩
      simp only [broker, Multiset.map_cons, Handling.delivery]
  | perform copy progress op rest answer others running =>
      obtain ⟨handling, handlings, hhandling, hdelivery, rfl⟩ := exists_of_map running
      obtain ⟨source, fuel, events, _, _⟩ := handling
      cases hdelivery
      refine ⟨_, .perform journal source fuel events _ op rest answer handlings hhandling, ?_⟩
      rw [← broker_after source (events ++ [⟨op, answer⟩])]
      simp only [broker, Multiset.map_cons, Handling.delivery]
  | finish copy progress others running =>
      obtain ⟨handling, handlings, hhandling, hdelivery, rfl⟩ := exists_of_map running
      obtain ⟨source, fuel, events, _, _⟩ := handling
      cases hdelivery
      exact ⟨_, .finish journal source fuel events _ handlings hhandling, rfl⟩
  | crash delivery others running =>
      obtain ⟨handling, handlings, hhandling, rfl, rfl⟩ := exists_of_map running
      exact ⟨_, .crash journal handling handlings hhandling, broker_requeue handling⟩
  | expire copy others waiting =>
      obtain ⟨source, sources, hsource, rfl, rfl⟩ := exists_of_map waiting
      refine ⟨_, .expire journal source sources hsource, ?_⟩
      simp only [broker, Multiset.map_cons, Descendant.expired]

-- The records of runs are those of runs of the broker, and every run has one.
theorem run_erase (run : Run (Step settings externals) {} labels journal) :
    Run (Broker.Step settings externals) {} labels journal.broker := by
  induction run with
  | start => exact .start
  | step _ last ih => exact ih.step last.erase

theorem run_lift (run : Run (Broker.Step settings externals) {} labels broker) :
    ∃ journal, Run (Step settings externals) {} labels journal ∧ journal.broker = broker := by
  induction run with
  | start => exact ⟨{}, .start, rfl⟩
  | step _ last ih =>
      obtain ⟨journal, hrun, hbroker⟩ := ih
      obtain ⟨next, hstep, hnext⟩ := Step.lift last hbroker
      exact ⟨next, hrun.step hstep, hnext⟩

end Journal

-- The header counts the reschedules, and each of them had its reason.
structure Descendant.Recorded (settings : Settings) (source : Descendant) : Prop where
  counted : waitCount source.copy.message = source.reschedules.length
  bounded : source.reschedules.length ≤ settings.calibrationMaxWaitAttempts.toNat
  unfit : ∀ visit ∈ source.reschedules, ∃ before, before <+: visit.events ∧
    ReadUnfit settings before

namespace Descendant

variable {settings : Settings} {source : Descendant} {events : List (Event sig)} {queue : String}
  {message : Message}

theorem Recorded.published (settings : Settings) (body : Body) (origin : Nat) :
    Recorded settings ⟨⟨{ body := body }, false, origin⟩, []⟩ where
  counted := rfl
  bounded := Nat.zero_le _
  unfit _ hmem := absurd hmem List.not_mem_nil

-- Neither a crash nor an expiry touches the header.
theorem Recorded.redelivered (hrecorded : source.Recorded settings) :
    source.redelivered.Recorded settings :=
  ⟨hrecorded.counted, hrecorded.bounded, hrecorded.unfit⟩

theorem Recorded.expired (hrecorded : source.Recorded settings) :
    source.expired.Recorded settings :=
  ⟨hrecorded.counted, hrecorded.bounded, hrecorded.unfit⟩

theorem Recorded.exhausted (hrecorded : source.Recorded settings)
    (hspent : settings.calibrationMaxWaitAttempts ≤ waitCount source.copy.message) :
    source.Exhausted settings where
  often := by
    have hcounted := hrecorded.counted
    have hbounded := hrecorded.bounded
    omega
  unfit := hrecorded.unfit

theorem reschedules_child : (source.child events queue message).reschedules =
    source.reschedules ++ if queue = WAIT_QUEUE_NAME then [⟨source.copy, queue, events⟩] else [] := by
  unfold reschedules child
  rw [List.filter_append]
  congr 1
  by_cases hqueue : queue = WAIT_QUEUE_NAME
  · rw [if_pos hqueue]
    exact List.filter_cons_of_pos (decide_eq_true hqueue)
  · rw [if_neg hqueue]
    exact List.filter_cons_of_neg (by simpa [Visit.rescheduled] using hqueue)

theorem Recorded.child_other (hrecorded : source.Recorded settings)
    (hqueue : queue ≠ WAIT_QUEUE_NAME)
    (hcount : waitCount message = waitCount source.copy.message) :
    (source.child events queue message).Recorded settings := by
  have hsame : (source.child events queue message).reschedules = source.reschedules := by
    rw [reschedules_child, if_neg hqueue, List.append_nil]
  refine ⟨?_, ?_, ?_⟩
  · rw [hsame]
    exact hcount.trans hrecorded.counted
  · rw [hsame]
    exact hrecorded.bounded
  · rw [hsame]
    exact hrecorded.unfit

theorem Recorded.child_rescheduled (hrecorded : source.Recorded settings)
    (hcount : waitCount message = waitCount source.copy.message + 1)
    (hbelow : waitCount source.copy.message < settings.calibrationMaxWaitAttempts)
    {before : List (Event sig)} (hbefore : before <+: events) (hunfit : ReadUnfit settings before) :
    (source.child events WAIT_QUEUE_NAME message).Recorded settings := by
  have hmore : (source.child events WAIT_QUEUE_NAME message).reschedules =
      source.reschedules ++ [⟨source.copy, WAIT_QUEUE_NAME, events⟩] := by
    rw [reschedules_child, if_pos rfl]
  have hcounted := hrecorded.counted
  refine ⟨?_, ?_, ?_⟩
  · rw [hmore, List.length_append, List.length_singleton]
    change waitCount message = _
    rw [hcount, hcounted]
    rfl
  · rw [hmore, List.length_append, List.length_singleton]
    omega
  · intro visit hmem
    rw [hmore] at hmem
    rcases List.mem_append.mp hmem with hold | hnew
    · exact hrecorded.unfit visit hold
    · rw [List.mem_singleton.mp hnew]
      exact ⟨before, hbefore, hunfit⟩

end Descendant

structure Handling.Recorded (settings : Settings) (externals : Externals) (handling : Handling) :
    Prop where
  source : handling.source.Recorded settings
  trace : (consume ⟨settings, externals, handling.fuel⟩ handling.source.copy.incoming).run.Trace
    handling.events handling.rest

-- What a record says about a run.
structure Journal.Sound (settings : Settings) (externals : Externals) (journal : Journal) :
    Prop where
  workers : journal.broker.Sound settings
  queued : ∀ source, source ∈ journal.taskQueue ∨ source ∈ journal.waitQueue →
    source.Recorded settings
  handled : ∀ handling ∈ journal.inFlight, handling.Recorded settings externals

namespace Journal

variable {settings : Settings} {externals : Externals} {journal next : Journal}
  {broker : Broker} {label : Broker.Label} {labels : List Broker.Label}

theorem mem_store {source other : Descendant} {events : List (Event sig)} {queue : String}
    {message : Message} (hmem : other ∈ (journal.store source events queue message).taskQueue ∨
      other ∈ (journal.store source events queue message).waitQueue) :
    (other ∈ journal.taskQueue ∨ other ∈ journal.waitQueue) ∨
      other = source.child events queue message ∧
        (queue = TASK_QUEUE_NAME ∨ queue = WAIT_QUEUE_NAME) := by
  unfold store at hmem
  split_ifs at hmem with htask hwait
  · rcases hmem with hmem | hold
    · rcases Multiset.mem_cons.mp hmem with hnew | hold
      · exact .inr ⟨hnew, .inl htask⟩
      · exact .inl (.inl hold)
    · exact .inl (.inr hold)
  · rcases hmem with hold | hmem
    · exact .inl (.inl hold)
    · rcases Multiset.mem_cons.mp hmem with hnew | hold
      · exact .inr ⟨hnew, .inr hwait⟩
      · exact .inl (.inr hold)
  · exact .inl hmem
  · exact .inl hmem
  · exact .inl hmem

-- A call of a worker queues nothing but the next copy of its message.
theorem mem_after {source other : Descendant} {events : List (Event sig)} {op : Effect}
    {answer : op.Ans} (hmem : other ∈ (journal.after source events op answer).taskQueue ∨
      other ∈ (journal.after source events op answer).waitQueue) :
    (other ∈ journal.taskQueue ∨ other ∈ journal.waitQueue) ∨
      ∃ queue message, op = .publish queue message ∧ other = source.child events queue message ∧
        (queue = TASK_QUEUE_NAME ∨ queue = WAIT_QUEUE_NAME) := by
  cases op with
  | publish queue message =>
      simp only [after] at hmem
      split_ifs at hmem
      · rcases mem_store hmem with hold | ⟨hnew, hqueue⟩
        · exact .inl hold
        · exact .inr ⟨queue, message, rfl, hnew, hqueue⟩
      · exact .inl hmem
  | _ => exact .inl hmem

theorem recorded_child {source : Descendant} {fuel : Nat} {events : List (Event sig)}
    {progress : Progress} {queue : String} {message : Message} {answer : Outcome}
    {rest : Outcome → Program sig (Except Exc Unit)}
    (hrecorded : Handling.Recorded settings externals
      ⟨source, fuel, events, progress, .call (.publish queue message) rest⟩)
    (hsound : Delivery.Sound settings ⟨source.copy, progress, .call (.publish queue message) rest⟩)
    (hqueue : queue = TASK_QUEUE_NAME ∨ queue = WAIT_QUEUE_NAME) :
    (source.child (events ++ [⟨.publish queue message, answer⟩]) queue message).Recorded settings := by
  have hpublishes : Publishes settings source.copy.incoming progress queue message :=
    hsound.allowed.2.2
  cases hpublishes with
  | retry redelivered below slept =>
      exact hrecorded.source.child_other (by decide) (waitCount_retryCopy _)
  | wait entered task parsed below =>
      obtain ⟨before, waited, hbefore, hreturns⟩ := waiting_of_reschedules hrecorded.trace
      obtain ⟨-, hunfit, -⟩ := justified_of_returns hreturns
      exact hrecorded.source.child_rescheduled (waitCount_waitCopy _ _) below
        (hbefore.trans (List.prefix_append _ _)) hunfit
  | exhausted redelivered spent => exact absurd hqueue (by decide)
  | malformed entered exc unparsed => exact absurd hqueue (by decide)
  | result entered task parsed resultMessage named known => exact absurd hqueue (by decide)

theorem Step.queued (last : Step settings externals journal label next)
    (hsound : journal.Sound settings externals) :
    ∀ source, source ∈ next.taskQueue ∨ source ∈ next.waitQueue → source.Recorded settings := by
  obtain ⟨hworkers, hqueued, hhandled⟩ := hsound
  intro other hmem
  cases last with
  | publish body =>
      rcases hmem with hmem | hold
      · rcases Multiset.mem_cons.mp hmem with rfl | hold
        · exact .published settings body _
        · exact hqueued other (.inl hold)
      · exact hqueued other (.inr hold)
  | deliver source others fuel queued =>
      rcases hmem with hold | hold
      · exact hqueued other (.inl (others_mem queued hold))
      · exact hqueued other (.inr hold)
  | perform source fuel events progress op rest answer others running =>
      rcases mem_after hmem with hold | ⟨queue, message, rfl, rfl, hqueue⟩
      · exact hqueued other hold
      · have hrunning : (⟨source, fuel, events, progress, .call (.publish queue message) rest⟩ :
            Handling) ∈ journal.inFlight := head_mem running
        exact recorded_child (hhandled _ hrunning)
          (hworkers _ (Multiset.mem_map_of_mem _ hrunning)) hqueue
  | finish source fuel events progress others running => exact hqueued other hmem
  | crash handling others running =>
      unfold requeue at hmem
      split_ifs at hmem
      · exact hqueued other hmem
      · rcases hmem with hmem | hold
        · rcases Multiset.mem_cons.mp hmem with rfl | hold
          · have hhandling := hhandled handling (head_mem running)
            exact hhandling.source.redelivered
          · exact hqueued other (.inl hold)
        · exact hqueued other (.inr hold)
  | expire source others waiting =>
      rcases hmem with hmem | hold
      · rcases Multiset.mem_cons.mp hmem with rfl | hold
        · exact (hqueued source (.inr (head_mem waiting))).expired
        · exact hqueued other (.inl hold)
      · exact hqueued other (.inr (others_mem waiting hold))

theorem Step.handled (last : Step settings externals journal label next)
    (hsound : journal.Sound settings externals) :
    ∀ handling ∈ next.inFlight, handling.Recorded settings externals := by
  obtain ⟨-, hqueued, hhandled⟩ := hsound
  intro other hmem
  cases last with
  | publish body => exact hhandled other hmem
  | deliver source others fuel queued =>
      rcases Multiset.mem_cons.mp hmem with rfl | hold
      · refine ⟨hqueued source (.inl ?_), .stop _⟩
        exact head_mem queued
      · exact hhandled other hold
  | perform source fuel events progress op rest answer others running =>
      rcases Multiset.mem_cons.mp hmem with rfl | hold
      · have hrunning := hhandled ⟨source, fuel, events, progress, .call op rest⟩
          (head_mem running)
        exact ⟨hrunning.source,
          hrunning.trace.append (@Program.Trace.step sig _ op rest answer _ _ (.stop _))⟩
      · exact hhandled other (others_mem running hold)
  | finish source fuel events progress others running =>
      exact hhandled other (others_mem running hmem)
  | crash handling others running =>
      have hsame : (requeue { journal with inFlight := others } handling).inFlight = others := by
        unfold requeue
        split_ifs <;> rfl
      rw [hsame] at hmem
      exact hhandled other (others_mem running hmem)
  | expire source others waiting => exact hhandled other hmem

theorem Step.sound (last : Step settings externals journal label next)
    (hsound : journal.Sound settings externals) : next.Sound settings externals :=
  ⟨last.erase.sound hsound.workers, last.queued hsound, last.handled hsound⟩

theorem sound_empty (settings : Settings) (externals : Externals) :
    Journal.Sound settings externals {} where
  workers := Broker.sound_empty settings
  queued source hmem := by
    rcases hmem with htask | hwait
    · exact absurd htask (Multiset.notMem_zero _)
    · exact absurd hwait (Multiset.notMem_zero _)
  handled handling hmem := absurd hmem (Multiset.notMem_zero _)

theorem run_sound (run : Run (Step settings externals) {} labels journal) :
    journal.Sound settings externals := by
  induction run with
  | start => exact sound_empty settings externals
  | step _ last ih => exact last.sound ih

end Journal

-- A course is taken for what was read, and the last one for what was read in
-- every delivery before it that waited.
theorem Handling.Recorded.gated {settings : Settings} {externals : Externals} {handling : Handling}
    (hrecorded : handling.Recorded settings externals) : handling.Gated settings externals where
  follows := by
    have htrace := hrecorded.trace
    rw [consume_course] at htrace
    rcases Py.trace_of_bind htrace with ⟨op, left, later, hchoosing, -⟩ | ⟨exc, hraised, -⟩ |
      ⟨before, course, after, hevents, hbefore, hafter⟩
    · exact .inl ⟨op, left, hchoosing⟩
    · exact .inr (.inl ⟨exc, hraised⟩)
    · exact .inr (.inr ⟨before, course, after, hevents, hbefore, hafter⟩)
  justified _ _ htakes := justified_of_returns htakes.2
  exhausted _ _ htakes := by
    obtain ⟨-, -, hspent⟩ := justified_of_returns htakes.2
    exact hrecorded.source.exhausted hspent

namespace Broker

-- Every run of the broker can be recorded, and in every record of it a task
-- gets past the gate, or is turned away, only for its reasons.
theorem run_gated {settings : Settings} {externals : Externals} {broker : Broker}
    {labels : List Broker.Label} (run : Run (Broker.Step settings externals) {} labels broker) :
    (∃ journal, Run (Journal.Step settings externals) {} labels journal ∧
      journal.broker = broker) ∧
    ∀ journal, Run (Journal.Step settings externals) {} labels journal → journal.broker = broker →
      ∀ handling ∈ journal.inFlight, handling.Gated settings externals :=
  ⟨Journal.run_lift run, fun _ recorded _ handling hmem =>
    ((Journal.run_sound recorded).handled handling hmem).gated⟩

-- A task that waits once, and whose backend has no snapshot at the last attempt
-- either.
theorem run_gated_exhausted : ∃ labels broker,
    Run (Step { calibrationMaxWaitAttempts := 1 } default) {} labels broker ∧
    broker.inFlight.card = 1 ∧
    (∃ journal, Run (Journal.Step { calibrationMaxWaitAttempts := 1 } default) {} labels journal ∧
      journal.broker = broker) ∧
    ∀ journal, Run (Journal.Step { calibrationMaxWaitAttempts := 1 } default) {} labels journal →
      journal.broker = broker → ∀ handling ∈ journal.inFlight,
        handling.Gated { calibrationMaxWaitAttempts := 1 } default := by
  have hpublished : Run (Step { calibrationMaxWaitAttempts := 1 } default) {} _ _ :=
    .single (.publish {} (ExperimentTask.toJson ⟨.str "e1", .str "vqe", .obj []⟩))
  have hdelivered := hpublished.step (.deliver _ ⟨{ body := _ }, false, 0⟩ 0 0 rfl)
  have hentered := hdelivered.step (.perform _ _ _ .handleMessage _ () 0 rfl)
  have hread := hentered.step (.perform _ _ _ (.calibrationGet _) _ (.ok none) 0 rfl)
  have hrequested := hread.step (.perform _ _ _ .triggerSet _ () 0 rfl)
  have hnoticed := hrequested.step (.perform _ _ _ (.publish _ _) _ Outcome.returned 0 rfl)
  have hcopied := hnoticed.step (.perform _ _ _ (.publish _ _) _ Outcome.returned 0 rfl)
  have hacked := hcopied.step (.perform _ _ _ .ack _ Outcome.returned 0 rfl)
  have hfinished := hacked.step (.finish _ _ _ 0 rfl)
  have hexpired := hfinished.step (.expire _ _ 0 rfl)
  have hagain := hexpired.step (.deliver _ _ 0 0 rfl)
  have hreentered := hagain.step (.perform _ _ _ .handleMessage _ () 0 rfl)
  have hreread := hreentered.step (.perform _ _ _ (.calibrationGet _) _ (.ok none) 0 rfl)
  have hgated := run_gated hreread
  exact ⟨_, _, hreread, rfl, hgated⟩

end Broker

end QuantumPlatform

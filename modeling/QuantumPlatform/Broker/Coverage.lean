import QuantumPlatform.Broker.Theorems
import QuantumPlatform.Broker.Schedules

namespace QuantumPlatform

open Process Python Orchestrator

variable {settings : Settings} {externals : Externals}

-- Only a stored publish takes the responsibility off a delivery.
theorem handed_after {progress : Progress} {op : Effect} {answer : op.Ans}
    (hbefore : progress.handed = false) (hafter : (progress.after op answer).handed = true) :
    ∃ queue message, op = .publish queue message ∧ handsOver queue message = true ∧
      ∀ (broker : Broker) (origin : Nat),
        broker.after origin op answer = broker.store origin queue message := by
  cases op with
  | publish queue message =>
      simp only [Progress.after, hbefore, Bool.false_or, Bool.and_eq_true] at hafter
      refine ⟨queue, message, rfl, hafter.2, fun broker origin => ?_⟩
      simp only [Broker.after]
      rw [if_pos hafter.1]
  | _ =>
      have hsame : progress.handed = true := hafter
      rw [hbefore] at hsame
      cases hsame

namespace Broker

-- Nothing is taken out of the queues.
structure Grows (broker later : Broker) : Prop where
  taskQueue : broker.taskQueue ⊆ later.taskQueue
  waitQueue : broker.waitQueue ⊆ later.waitQueue
  deadLetters : broker.deadLetters ⊆ later.deadLetters
  results : broker.results ⊆ later.results

theorem Grows.refl (broker : Broker) : broker.Grows broker :=
  ⟨fun _ h => h, fun _ h => h, fun _ h => h, fun _ h => h⟩

theorem grows_store (broker : Broker) (origin : Nat) (queue : String) (message : Message) :
    broker.Grows (broker.store origin queue message) := by
  have hrefl := Grows.refl broker
  unfold store
  split_ifs
  · exact { hrefl with taskQueue := Multiset.subset_cons _ _ }
  · exact { hrefl with waitQueue := Multiset.subset_cons _ _ }
  · exact { hrefl with deadLetters := Multiset.subset_cons _ _ }
  · exact { hrefl with results := List.subset_append_left _ _ }
  · exact hrefl

theorem grows_after (broker : Broker) (origin : Nat) (op : Effect) (answer : op.Ans) :
    broker.Grows (broker.after origin op answer) := by
  rcases broker.after_eq origin op answer with hsame | ⟨queue, message, rfl, hstore⟩
  · rw [hsame]
    exact Grows.refl broker
  · rw [hstore]
    exact grows_store broker origin queue message

theorem grows_requeue (broker : Broker) (delivery : Delivery) :
    broker.Grows (broker.requeue delivery) := by
  have hrefl := Grows.refl broker
  unfold requeue
  split_ifs
  · exact hrefl
  · exact { hrefl with taskQueue := Multiset.subset_cons _ _ }

theorem Settled.mono {broker later : Broker} {body : Body} (hsettled : broker.Settled body)
    (hresults : broker.results ⊆ later.results) : later.Settled body := by
  obtain ⟨task, resultMessage, hparsed, hmem, hrest⟩ := hsettled
  exact ⟨task, resultMessage, hparsed, hresults hmem, hrest⟩

-- Another copy of the same task.
def SameTask (first second : Copy) : Prop :=
  first.origin = second.origin ∧ first.message.body = second.message.body

variable {broker later : Broker} {label : Label} {labels : List Label} {copy : Copy}

-- Where the task of a copy is after a step: another copy is pending, or a dead
-- letter, or the step published a terminal result.
inductive Over (broker later : Broker) (copy : Copy) : Prop where
  | pending (other : Copy) (pending : later.Pending other) (same : SameTask other copy)
  | dead (other : Copy) (dead : other ∈ later.deadLetters) (same : SameTask other copy)
      (delivery : Delivery) (running : delivery ∈ broker.inFlight)
      (given : delivery.copy = copy) (rejected : copy.Rejected)
  | settled (task : ExperimentTask) (parsed : ExperimentTask.fromJson copy.message.body = .ok task)
      (resultMessage : ExperimentResultMessage)
      (published : later.results = broker.results ++ [resultMessage.toJson])
      (terminal : resultMessage.terminal = true)
      (named : resultMessage.experimentId = task.experimentId)

theorem over_of_publishes {delivery : Delivery} (running : delivery ∈ broker.inFlight)
    {queue : String} {message : Message}
    (hpublishes : Publishes settings delivery.copy.incoming delivery.progress queue message)
    (hover : handsOver queue message = true) (deliveries : Multiset Delivery) :
    broker.Over { broker.store delivery.copy.origin queue message with inFlight := deliveries }
      delivery.copy := by
  cases hpublishes with
  | retry redelivered below slept =>
      exact .pending _ (.inl (Multiset.mem_cons_self _ _)) ⟨rfl, rfl⟩
  | wait entered task parsed below =>
      exact .pending _ (.inr (.inl (Multiset.mem_cons_self _ _))) ⟨rfl, rfl⟩
  | exhausted redelivered spent =>
      exact .dead _ (Multiset.mem_cons_self _ _) ⟨rfl, rfl⟩ delivery running rfl
        (.inl ⟨redelivered, spent⟩)
  | malformed entered exc unparsed =>
      exact .dead _ (Multiset.mem_cons_self _ _) ⟨rfl, rfl⟩ delivery running rfl
        (.inr ⟨exc, unparsed⟩)
  | result entered task parsed resultMessage named known =>
      have hterminal : resultMessage.terminal = true := by
        simpa [handsOver, isTerminalResult_toJson] using hover
      exact .settled task parsed resultMessage rfl hterminal named

theorem Pending.self (hpending : later.Pending copy) : broker.Over later copy :=
  .pending copy hpending ⟨rfl, rfl⟩

-- A delivery that performs an operation stays responsible, or hands the task over with it.
theorem over_performed {progress : Progress} {op : Effect}
    {next : op.Ans → Program sig (Except Exc Unit)} {others : Multiset Delivery}
    (hsound : broker.Sound settings)
    (running : broker.inFlight = ⟨copy, progress, .call op next⟩ ::ₘ others)
    (hhanded : progress.handed = false) (answer : op.Ans) :
    broker.Over { broker.after copy.origin op answer with
      inFlight := ⟨copy, progress.after op answer, next answer⟩ ::ₘ others } copy := by
  by_cases hafter : (progress.after op answer).handed = true
  · obtain ⟨queue, message, rfl, hover, hstore⟩ := handed_after hhanded hafter
    have hallowed := (hsound.delivery running).allowed
    have hmem : ⟨copy, progress, .call (.publish queue message) next⟩ ∈ broker.inFlight :=
      head_mem running
    rw [hstore]
    exact over_of_publishes hmem hallowed.2.2 hover _
  · refine Pending.self (.inr (.inr ⟨_, Multiset.mem_cons_self _ _, rfl, ?_⟩))
    simpa using hafter

-- A delivery that is still responsible was not acknowledged, so its message comes again.
theorem over_crashed {crashed : Delivery} {others : Multiset Delivery}
    (hsound : broker.Sound settings) (running : broker.inFlight = crashed ::ₘ others)
    (hhanded : crashed.progress.handed = false) :
    broker.Over ({ broker with inFlight := others }.requeue crashed) crashed.copy := by
  have hunacked := (hsound.delivery running).unacked hhanded
  unfold requeue
  rw [if_neg (by rw [hunacked]; exact Bool.false_ne_true)]
  exact .pending _ (.inl (Multiset.mem_cons_self _ _)) ⟨rfl, rfl⟩

-- A step leaves a pending copy pending, or its delivery hands it over.
theorem Step.over (last : Step settings externals broker label later)
    (hsound : broker.Sound settings) (hpending : broker.Pending copy) : broker.Over later copy := by
  cases last with
  | publish body =>
      have hlater : (broker.publish body).Pending copy := by
        rcases hpending with hmem | hrest
        · exact .inl (Multiset.mem_cons_of_mem hmem)
        · exact .inr hrest
      exact hlater.self
  | deliver delivered others fuel queued =>
      rcases hpending with hmem | hmem | ⟨delivery, hmem, hrest⟩
      · rw [queued] at hmem
        rcases Multiset.mem_cons.mp hmem with rfl | hold
        · exact Pending.self (.inr (.inr ⟨_, Multiset.mem_cons_self _ _, rfl, rfl⟩))
        · exact Pending.self (.inl hold)
      · exact Pending.self (.inr (.inl hmem))
      · exact Pending.self (.inr (.inr ⟨delivery, Multiset.mem_cons_of_mem hmem, hrest⟩))
  | perform parent progress op next answer others running =>
      have hgrows := grows_after broker parent.origin op answer
      rcases hpending with hmem | hmem | ⟨delivery, hmem, hcopy, hhanded⟩
      · exact Pending.self (.inl (hgrows.taskQueue hmem))
      · exact Pending.self (.inr (.inl (hgrows.waitQueue hmem)))
      · rw [running] at hmem
        rcases Multiset.mem_cons.mp hmem with rfl | hold
        · obtain rfl : parent = copy := hcopy
          exact over_performed hsound running hhanded answer
        · exact Pending.self (.inr (.inr ⟨delivery, Multiset.mem_cons_of_mem hold, hcopy, hhanded⟩))
  | finish finished progress others running =>
      rcases hpending with hmem | hmem | ⟨delivery, hmem, hcopy, hhanded⟩
      · exact Pending.self (.inl hmem)
      · exact Pending.self (.inr (.inl hmem))
      · rw [running] at hmem
        rcases Multiset.mem_cons.mp hmem with rfl | hold
        · have hsoundDelivery := hsound.delivery running
          have htaken := hsoundDelivery.handed hsoundDelivery.finished
          rw [hhanded] at htaken
          cases htaken
        · exact Pending.self (.inr (.inr ⟨delivery, hold, hcopy, hhanded⟩))
  | crash crashed others running =>
      have hgrows := grows_requeue { broker with inFlight := others } crashed
      rcases hpending with hmem | hmem | ⟨delivery, hmem, rfl, hhanded⟩
      · exact Pending.self (.inl (hgrows.taskQueue hmem))
      · exact Pending.self (.inr (.inl (hgrows.waitQueue hmem)))
      · rw [running] at hmem
        rcases Multiset.mem_cons.mp hmem with rfl | hold
        · exact over_crashed hsound running hhanded
        · refine Pending.self (.inr (.inr ⟨delivery, ?_, rfl, hhanded⟩))
          rw [requeue_inFlight]
          exact hold
  | expire expired others waiting =>
      rcases hpending with hmem | hmem | hrest
      · exact Pending.self (.inl (Multiset.mem_cons_of_mem hmem))
      · rw [waiting] at hmem
        rcases Multiset.mem_cons.mp hmem with rfl | hold
        · exact .pending _ (.inl (Multiset.mem_cons_self _ _)) ⟨rfl, rfl⟩
        · exact Pending.self (.inr (.inl hold))
      · exact Pending.self (.inr (.inr hrest))

-- A step adds at most one result, and one that is not terminal comes from a
-- delivery that stays responsible for its task.
theorem Step.results (last : Step settings externals broker label later)
    (hsound : broker.Sound settings) :
    later.results = broker.results ∨
      ∃ (copy : Copy) (task : ExperimentTask) (resultMessage : ExperimentResultMessage),
      ExperimentTask.fromJson copy.message.body = .ok task ∧
      later.results = broker.results ++ [resultMessage.toJson] ∧
      resultMessage.experimentId = task.experimentId ∧
      (resultMessage.terminal = true ∨ later.Pending copy) := by
  cases last with
  | perform copy progress op next answer others running =>
      rcases broker.after_eq copy.origin op answer with hsame | ⟨queue, message, rfl, hstore⟩
      · rw [hsame]
        exact .inl rfl
      · obtain ⟨hhanded, -, hpublishes⟩ := (hsound.delivery running).allowed
        rw [hstore]
        cases hpublishes with
        | result entered task parsed resultMessage named known =>
            refine .inr ⟨copy, task, resultMessage, parsed, rfl, named, ?_⟩
            by_cases hterminal : resultMessage.terminal = true
            · exact .inl hterminal
            · refine .inr (.inr (.inr ⟨_, Multiset.mem_cons_self _ _, rfl, ?_⟩))
              have hstays : handsOver RESULTS_QUEUE_NAME { body := resultMessage.toJson } = false := by
                simpa [handsOver, isTerminalResult_toJson] using hterminal
              simp only [Progress.after, hhanded, hstays, Bool.and_false, Bool.or_false]
        | retry | wait | exhausted | malformed => exact .inl rfl
  | crash delivery others running =>
      unfold requeue
      split_ifs <;> exact .inl rfl
  | publish | deliver | finish | expire => exact .inl rfl

theorem Step.deadLetters (last : Step settings externals broker label later) :
    broker.deadLetters ⊆ later.deadLetters ∧ broker.results ⊆ later.results := by
  cases last with
  | perform parent progress op next answer others running =>
      have hgrows := grows_after broker parent.origin op answer
      exact ⟨hgrows.deadLetters, hgrows.results⟩
  | crash delivery others running =>
      have hgrows := grows_requeue { broker with inFlight := others } delivery
      exact ⟨hgrows.deadLetters, hgrows.results⟩
  | publish | deliver | finish | expire => exact ⟨fun _ h => h, fun _ h => h⟩

-- The task published at `origin` is not lost.
def Covered (broker : Broker) (origin : Nat) (body : Body) : Prop :=
  (∃ copy, (broker.Pending copy ∨ copy ∈ broker.deadLetters) ∧ copy.origin = origin ∧
    copy.message.body = body) ∨ broker.Settled body

theorem Over.covered (hover : broker.Over later copy) :
    later.Covered copy.origin copy.message.body := by
  cases hover with
  | pending other pending same => exact .inl ⟨other, .inl pending, same.1, same.2⟩
  | dead other dead same => exact .inl ⟨other, .inr dead, same.1, same.2⟩
  | settled task parsed resultMessage published terminal named =>
      have hmem : resultMessage.toJson ∈ later.results := by
        rw [published]
        exact List.mem_append_right _ (List.mem_singleton_self _)
      exact .inr ⟨task, resultMessage, parsed, hmem, terminal, named⟩

theorem Step.covered (last : Step settings externals broker label later)
    (hsound : broker.Sound settings)
    (hcovered : ∀ origin body, broker.published[origin]? = some body → broker.Covered origin body)
    (origin : Nat) (body : Body) (hpublished : later.published[origin]? = some body) :
    later.Covered origin body := by
  obtain ⟨hdead, hresults⟩ := last.deadLetters
  have hkeep : broker.Covered origin body → later.Covered origin body := by
    intro hold
    rcases hold with ⟨copy, hpending | hmem, rfl, rfl⟩ | hsettled
    · exact (last.over hsound hpending).covered
    · exact .inl ⟨copy, .inr (hdead hmem), rfl, rfl⟩
    · exact .inr (hsettled.mono hresults)
  rcases last.published with hsame | ⟨added, rfl, happend⟩
  · rw [hsame] at hpublished
    exact hkeep (hcovered origin body hpublished)
  · rw [happend] at hpublished
    by_cases hlt : origin < broker.published.length
    · rw [List.getElem?_append_left hlt] at hpublished
      exact hkeep (hcovered origin body hpublished)
    · obtain ⟨hbound, -⟩ := List.getElem?_eq_some_iff.mp hpublished
      have hlast : origin = broker.published.length := by
        simp only [List.length_append, List.length_singleton] at hbound
        omega
      obtain rfl : added = body := by simpa [hlast] using hpublished
      cases last
      exact .inl ⟨_, .inl (.inl (Multiset.mem_cons_self _ _)), hlast.symm, rfl⟩

-- A published body is queued, waits, is a dead letter or unacknowledged at a
-- worker, unless a terminal result for its experiment has been published.
theorem body_never_lost (run : Run (Step settings externals) {} labels broker) (origin : Nat)
    (body : Body) (hpublished : broker.published[origin]? = some body) :
    (∃ copy, copy.origin = origin ∧ copy.message.body = body ∧
      (copy ∈ broker.taskQueue ∨ copy ∈ broker.waitQueue ∨ copy ∈ broker.deadLetters ∨
        ∃ delivery ∈ broker.inFlight, delivery.copy = copy ∧ delivery.progress.acked = false)) ∨
      broker.Settled body := by
  have hkeep : ∀ (state : Broker) (label : Label) (next : Broker),
      (state.Sound settings ∧ ∀ origin body, state.published[origin]? = some body →
        state.Covered origin body) → True → Step settings externals state label next →
      (next.Sound settings ∧ ∀ origin body, next.published[origin]? = some body →
        next.Covered origin body) :=
    fun _ _ _ ⟨hsound, hcovered⟩ _ last => ⟨last.sound hsound, last.covered hsound hcovered⟩
  obtain ⟨hsound, hcovered⟩ := run.invariant hkeep (fun _ _ => trivial)
    ⟨sound_empty settings, fun origin body h => by simp at h⟩
  rcases hcovered origin body hpublished with ⟨copy, hplace, hcarries⟩ | hsettled
  · refine .inl ⟨copy, hcarries.1, hcarries.2, ?_⟩
    rcases hplace with (hmem | hmem | ⟨delivery, hmem, hcopy, hhanded⟩) | hdead
    · exact .inl hmem
    · exact .inr (.inl hmem)
    · have hunacked := (hsound delivery hmem).unacked hhanded
      exact .inr (.inr (.inr ⟨delivery, hmem, hcopy, hunacked⟩))
    · exact .inr (.inr (.inl hdead))
  · exact .inr hsettled

-- A malformed body whose worker dies again and again.
theorem body_never_lost_malformed : ∃ labels broker,
    Run (Step {} default) {} labels broker ∧ broker.published = [.json .null] ∧
    ((∃ copy, copy.origin = 0 ∧ copy.message.body = .json .null ∧
      (copy ∈ broker.taskQueue ∨ copy ∈ broker.waitQueue ∨ copy ∈ broker.deadLetters ∨
        ∃ delivery ∈ broker.inFlight,
          delivery.copy = copy ∧ delivery.progress.acked = false)) ∨
      broker.Settled (.json .null)) := by
  have hpublished := @leads_published {} default {} 0 (.json .null)
  obtain ⟨letter, -, hletter⟩ := @leads_dead {} default (Broker.publish {} (.json .null)) 0
    { body := .json .null } 0 rfl
  obtain ⟨labels, run, -⟩ := hpublished.trans hletter
  exact ⟨labels, _, run, rfl, body_never_lost run 0 (.json .null) rfl⟩

end Broker

end QuantumPlatform

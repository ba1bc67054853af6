import QuantumPlatform.Broker.Theorems

namespace QuantumPlatform

open Process Python Orchestrator

-- What a worker tells about a task.
inductive Reports (task : ExperimentTask) : ExperimentResultMessage → Prop where
  | completed (result : Json) : Reports task (completedResult task result)
  | failed (error : String) : Reports task (failedResult task error)
  | waiting : Reports task (waitingResult task)

-- A call that leaves the results queue alone, or reports on the task in the body.
def Reporting (body : Body) : Effect → Prop
  | .publish queue message => queue = RESULTS_QUEUE_NAME → ∃ task resultMessage,
      ExperimentTask.fromJson body = .ok task ∧ Reports task resultMessage ∧
      message = { body := resultMessage.toJson }
  | _ => True

section worker

variable {body : Body} {task : ExperimentTask}

theorem publish_ack_reporting {queue : String} {message : Message}
    (hpublish : Reporting body (.publish queue message)) :
    (Monitor.stateless (Reporting body)).Obeys (fun _ _ => True) ()
      (publish queue message >>= fun _ => ack).run := by
  refine ⟨hpublish, fun outcome _ => ?_⟩
  cases outcome with
  | returned =>
      refine ⟨trivial, fun acked _ => ?_⟩
      cases acked <;> trivial
  | raised exc stored => trivial

theorem deadLetter_ack_reporting (message : Message) :
    (Monitor.stateless (Reporting body)).Obeys (fun _ _ => True) ()
      (sendToDeadLetterQueue message >>= fun _ => ack).run := by
  refine ⟨trivial, fun outcome _ => ?_⟩
  cases outcome with
  | returned =>
      exact publish_ack_reporting fun hqueue => absurd hqueue (by decide)
  | raised exc stored => trivial

theorem report_reporting (hparsed : ExperimentTask.fromJson body = .ok task)
    {resultMessage : ExperimentResultMessage} (hreports : Reports task resultMessage) :
    (Monitor.stateless (Reporting body)).Obeys (fun _ _ => True) ()
      (publishResultMessage resultMessage >>= fun _ => ack).run :=
  publish_ack_reporting fun _ => ⟨task, resultMessage, hparsed, hreports, rfl⟩

theorem reporting_of_computing {op : Effect} (hop : op.Computing) : Reporting body op := by
  cases op <;> trivial

theorem runAndReport_reporting (env : Env) (hparsed : ExperimentTask.fromJson body = .ok task) :
    (Monitor.stateless (Reporting body)).Obeys (fun _ _ => True) ()
      (runAndReport env task).run := by
  have hexecute : (Monitor.stateless (Reporting body)).Obeys (fun _ _ => True) ()
      (executeTask env task).run :=
    executeTask_computing (fun _ hop _ _ => ⟨reporting_of_computing hop, fun _ => trivial⟩) env task
      trivial
  refine runAndReport_rule hexecute ?_ ?_ fun _ _ _ _ => trivial
  · exact fun _ value _ => report_reporting hparsed (.completed value)
  · exact fun _ exc _ _ => report_reporting hparsed (.failed exc.message)

theorem waitForCalibration_reporting (env : Env) (message : Message)
    (hparsed : ExperimentTask.fromJson body = .ok task) :
    (Monitor.stateless (Reporting body)).Obeys (fun _ _ => True) ()
      (waitForCalibration env message task).run := by
  unfold waitForCalibration
  split_ifs
  · exact report_reporting hparsed (.failed _)
  · refine ⟨trivial, fun _ _ => ?_⟩
    refine ⟨fun _ => ⟨task, waitingResult task, hparsed, .waiting, rfl⟩, fun outcome _ => ?_⟩
    cases outcome with
    | returned => exact publish_ack_reporting fun hqueue => absurd hqueue (by decide)
    | raised exc stored => trivial

theorem handleTask_reporting (env : Env) (message : Message)
    (hparsed : ExperimentTask.fromJson body = .ok task) :
    (Monitor.stateless (Reporting body)).Obeys (fun _ _ => True) ()
      (handleTask env message task).run := by
  refine @handleTask_rule _ _ _ _ _ _ (fun _ => True) _ ?_ ?_ ?_ ?_ ?_ trivial
  · intro _ _
    refine ⟨trivial, fun answer _ => ?_⟩
    cases answer <;> trivial
  · exact fun _ _ => ⟨trivial, fun _ _ => trivial⟩
  · exact fun _ error _ => report_reporting hparsed (.failed error)
  · exact fun _ _ => waitForCalibration_reporting env message hparsed
  · exact fun _ _ => runAndReport_reporting env hparsed

-- Whatever a worker is given, its results are reports on the task it was given.
theorem consume_reporting (env : Env) (incoming : IncomingMessage) :
    (consume env incoming).run.Only (Reporting incoming.body) := by
  have hobeys : (Monitor.stateless (Reporting incoming.body)).Obeys (fun _ _ => True) ()
      (consume env incoming).run := by
    cases hredelivered : incoming.redelivered with
    | true =>
        rw [consume_redelivered env hredelivered]
        split_ifs
        · exact deadLetter_ack_reporting _
        · exact ⟨trivial, fun _ _ =>
            publish_ack_reporting fun hqueue => absurd hqueue (by decide)⟩
    | false =>
        unfold consume handleRedelivery
        rw [hredelivered]
        refine ⟨trivial, fun _ _ => ?_⟩
        cases hparsed : ExperimentTask.fromJson incoming.body with
        | ok task => exact handleTask_reporting env incoming.toMessage hparsed
        | error exc => exact deadLetter_ack_reporting _
  exact hobeys.only

end worker

namespace Broker

variable {settings : Settings} {externals : Externals} {broker later : Broker} {label : Label}

-- Everything in the queues goes back to what was published, and the results are
-- reports on it.
structure Reported (broker : Broker) : Prop where
  copies : ∀ copy, broker.Has copy → copy.message.body ∈ broker.published
  deliveries : ∀ delivery ∈ broker.inFlight,
    delivery.rest.Only (Reporting delivery.copy.message.body)
  results : ∀ result ∈ broker.results, ∃ body ∈ broker.published, ∃ task resultMessage,
    ExperimentTask.fromJson body = .ok task ∧ Reports task resultMessage ∧
    result = resultMessage.toJson

theorem reported_empty : Broker.Reported {} where
  copies copy hhas := absurd hhas (not_has_empty copy)
  deliveries _ hmem := absurd hmem (Multiset.notMem_zero _)
  results _ hmem := absurd hmem List.not_mem_nil

theorem Step.published_subset (last : Step settings externals broker label later) :
    broker.published ⊆ later.published := by
  rcases last.published with hsame | ⟨body, -, happend⟩
  · rw [hsame]
    exact List.Subset.refl _
  · rw [happend]
    exact List.subset_append_left _ _

theorem Step.copies_published (last : Step settings externals broker label later)
    (hsound : broker.Sound settings)
    (hcopies : ∀ copy, broker.Has copy → copy.message.body ∈ broker.published) (copy : Copy)
    (hhas : later.Has copy) : copy.message.body ∈ later.published := by
  rcases last.has hsound hhas with hold | ⟨body, rfl, rfl⟩ | ⟨parent, hparent, hderives⟩
  · exact last.published_subset (hcopies copy hold)
  · cases last
    exact List.mem_append_right _ (List.mem_singleton_self _)
  · have hbody : copy.message.body = parent.message.body := by
      cases hderives <;> rfl
    rw [hbody]
    exact last.published_subset (hcopies parent hparent)

theorem Step.deliveries_reporting (last : Step settings externals broker label later)
    (hdeliveries : ∀ delivery ∈ broker.inFlight,
      delivery.rest.Only (Reporting delivery.copy.message.body)) :
    ∀ delivery ∈ later.inFlight, delivery.rest.Only (Reporting delivery.copy.message.body) := by
  intro delivery hmem
  cases last with
  | publish body => exact hdeliveries delivery hmem
  | deliver copy others fuel queued =>
      rcases Multiset.mem_cons.mp hmem with rfl | hold
      · exact consume_reporting _ copy.incoming
      · exact hdeliveries delivery hold
  | perform copy progress op next answer others running =>
      rcases Multiset.mem_cons.mp hmem with rfl | hold
      · have honly := hdeliveries ⟨copy, progress, .call op next⟩
          (head_mem running)
        exact honly.2 answer
      · exact hdeliveries delivery (others_mem running hold)
  | finish copy progress others running =>
      exact hdeliveries delivery (others_mem running hmem)
  | crash crashed others running =>
      rw [requeue_inFlight] at hmem
      exact hdeliveries delivery (others_mem running hmem)
  | expire copy others waiting => exact hdeliveries delivery hmem

theorem results_store {origin : Nat} {queue : String} {message : Message} {result : Body}
    (hmem : result ∈ (broker.store origin queue message).results) :
    result ∈ broker.results ∨ queue = RESULTS_QUEUE_NAME ∧ result = message.body := by
  unfold store at hmem
  split_ifs at hmem with htask hwait hdead hresults
  · exact .inl hmem
  · exact .inl hmem
  · exact .inl hmem
  · rcases List.mem_append.mp hmem with hold | hnew
    · exact .inl hold
    · exact .inr ⟨hresults, List.mem_singleton.mp hnew⟩
  · exact .inl hmem

theorem Step.reported (last : Step settings externals broker label later)
    (hsound : broker.Sound settings) (hreported : broker.Reported) : later.Reported where
  copies := last.copies_published hsound hreported.copies
  deliveries := last.deliveries_reporting hreported.deliveries
  results result hmem := by
    have hkeep : result ∈ broker.results → ∃ body ∈ later.published, ∃ task resultMessage,
        ExperimentTask.fromJson body = .ok task ∧ Reports task resultMessage ∧
        result = resultMessage.toJson := by
      intro hold
      obtain ⟨body, hbody, hreport⟩ := hreported.results result hold
      exact ⟨body, last.published_subset hbody, hreport⟩
    cases last with
    | perform copy progress op next answer others running =>
        rcases broker.after_eq copy.origin op answer with hsame | ⟨queue, message, rfl, hstore⟩
        · rw [hsame] at hmem
          exact hkeep hmem
        · rw [hstore] at hmem
          rcases results_store hmem with hold | ⟨hqueue, rfl⟩
          · exact hkeep hold
          · have honly := hreported.deliveries ⟨copy, progress, .call (.publish queue message) next⟩
              (head_mem running)
            obtain ⟨task, resultMessage, hparsed, hreports, rfl⟩ := honly.1 hqueue
            refine ⟨copy.message.body, ?_, task, resultMessage, hparsed, hreports, rfl⟩
            change _ ∈ (broker.after copy.origin _ answer).published
            rw [after_published]
            exact hreported.copies copy (has_inFlight running)
    | crash delivery others running =>
        unfold requeue at hmem
        split_ifs at hmem
        · exact hkeep hmem
        · exact hkeep hmem
    | publish | deliver | finish | expire => exact hkeep hmem

end Broker

end QuantumPlatform

import QuantumPlatform.Broker.Reports
import QuantumPlatform.Orchestrator.Course.Theorems

namespace QuantumPlatform

open Process Python Orchestrator

-- A report on the task, and if it says that the task was completed, then running the task on
-- these events returned its result.
def Tells (env : Env) (events : List (Event sig)) (task : ExperimentTask)
    (resultMessage : ExperimentResultMessage) : Prop :=
  Reports task resultMessage ∧ (resultMessage.status = .str "completed" →
    ∃ run, run.Sublist events ∧ (executeTask env task).run.Returns run (.ok resultMessage.result))

theorem Tells.mono {env : Env} {events more : List (Event sig)} {task : ExperimentTask}
    {resultMessage : ExperimentResultMessage} (h : Tells env events task resultMessage)
    (hmore : events.Sublist more) : Tells env more task resultMessage := by
  refine ⟨h.1, fun hstatus => ?_⟩
  obtain ⟨run, hrun, hreturns⟩ := h.2 hstatus
  exact ⟨run, hrun.trans hmore, hreturns⟩

-- The results that a delivery publishes tell about the task in its body.
def Telling (env : Env) (body : Body) (past : List (Event sig)) : Effect → Prop
  | .publish queue message => queue = RESULTS_QUEUE_NAME → ∃ task resultMessage,
      ExperimentTask.fromJson body = .ok task ∧ Tells env past task resultMessage ∧
      message = { body := resultMessage.toJson }
  | _ => True

def telling (env : Env) (body : Body) : Monitor sig (List (Event sig)) :=
  .recording (Telling env body) fun _ _ _ => True

-- A call that publishes no result.
def Effect.Unreported (op : Effect) : Prop := ∀ message, op ≠ .publish RESULTS_QUEUE_NAME message

section worker

variable {env : Env} {body : Body} {task : ExperimentTask} {past : List (Event sig)}

theorem telling_unreported (past : List (Event sig)) (op : Effect) (hop : Effect.Unreported op) :
    Telling env body past op := by
  cases op with
  | publish queue message => exact fun hqueue => absurd (hqueue ▸ rfl) (hop message)
  | _ => trivial

theorem unreported_of_ne {queue : String} (hqueue : queue ≠ RESULTS_QUEUE_NAME)
    (message : Message) : Effect.Unreported (.publish queue message) :=
  fun _ hop => hqueue (Effect.publish.inj hop).1

theorem unreported_of_computing {op : Effect} (hop : op.Computing) : Effect.Unreported op := by
  rintro message rfl
  exact hop

theorem telling_only {α : Type} {program : Program sig α}
    (honly : program.Only Effect.Unreported) :
    (telling env body).Obeys (fun _ _ => True) past program :=
  (Monitor.recording_returns telling_unreported honly past).mono fun _ _ _ => trivial

theorem report_tells (hparsed : ExperimentTask.fromJson body = .ok task)
    {resultMessage : ExperimentResultMessage} (htells : Tells env past task resultMessage) :
    (telling env body).Obeys (fun _ _ => True) past
      (publishResultMessage resultMessage >>= fun _ => ack).run := by
  refine ⟨fun _ => ⟨task, resultMessage, hparsed, htells, rfl⟩, fun outcome _ => ?_⟩
  cases outcome with
  | returned => exact telling_only (ack_only nofun)
  | raised exc stored => trivial

theorem tells_failed (error : String) : Tells env past task (failedResult task error) :=
  ⟨.failed error, fun hstatus => absurd (Json.str.inj hstatus) (by decide)⟩

theorem runAndReport_tells (hparsed : ExperimentTask.fromJson body = .ok task) :
    (telling env body).Obeys (fun _ _ => True) past (runAndReport env task).run := by
  have hexecute : (executeTask env task).run.Only Effect.Unreported :=
    (executeTask_only env task).mono fun _ => unreported_of_computing
  refine runAndReport_rule (Monitor.recording_returns telling_unreported hexecute past) ?_ ?_
    fun _ _ _ _ => trivial
  · rintro _ value ⟨run, rfl, hreturns⟩
    exact report_tells hparsed ⟨.completed value, fun _ =>
      ⟨run, List.sublist_append_right past run, hreturns⟩⟩
  · exact fun _ exc _ _ => report_tells hparsed (tells_failed exc.message)

theorem waitForCalibration_tells (message : Message)
    (hparsed : ExperimentTask.fromJson body = .ok task) :
    (telling env body).Obeys (fun _ _ => True) past
      (waitForCalibration env message task).run := by
  unfold waitForCalibration
  split_ifs
  · exact report_tells hparsed (tells_failed _)
  · refine ⟨trivial, fun _ _ => ?_⟩
    refine ⟨fun _ => ⟨task, waitingResult task, hparsed, ⟨.waiting, fun hstatus =>
      absurd (Json.str.inj hstatus) (by decide)⟩, rfl⟩, fun outcome _ => ?_⟩
    cases outcome with
    | returned => exact telling_only (publish_ack_only (unreported_of_ne (by decide) _) nofun)
    | raised exc stored => trivial

theorem handleTask_tells (message : Message)
    (hparsed : ExperimentTask.fromJson body = .ok task) :
    (telling env body).Obeys (fun _ _ => True) past (handleTask env message task).run := by
  refine @handleTask_rule _ _ _ _ _ _ (fun _ => True) _ ?_ ?_ ?_ ?_ ?_ trivial
  · intro _ _
    refine ⟨trivial, fun answer _ => ?_⟩
    cases answer <;> trivial
  · exact fun _ _ => ⟨trivial, fun _ _ => trivial⟩
  · exact fun _ error _ => report_tells hparsed (tells_failed error)
  · exact fun _ _ => waitForCalibration_tells message hparsed
  · exact fun _ _ => runAndReport_tells hparsed

theorem deadLetter_ack_tells (message : Message) :
    (telling env body).Obeys (fun _ _ => True) past
      (sendToDeadLetterQueue message >>= fun _ => ack).run :=
  telling_only (Py.only_bind (deadLetter_only nofun (unreported_of_ne (by decide) _)) fun _ =>
    ack_only nofun)

theorem consume_tells (env : Env) (incoming : IncomingMessage) :
    (telling env incoming.body).Obeys (fun _ _ => True) [] (consume env incoming).run := by
  cases hredelivered : incoming.redelivered with
  | true =>
      rw [consume_redelivered env hredelivered]
      split_ifs
      · exact deadLetter_ack_tells _
      · refine ⟨trivial, fun _ _ => ?_⟩
        exact telling_only (publish_ack_only (unreported_of_ne (by decide) _) nofun)
  | false =>
      unfold consume handleRedelivery
      rw [hredelivered]
      refine ⟨trivial, fun _ _ => ?_⟩
      cases hparsed : ExperimentTask.fromJson incoming.body with
      | ok task => exact handleTask_tells incoming.toMessage hparsed
      | error exc => exact deadLetter_ack_tells _

end worker

namespace Broker

variable {settings : Settings} {externals : Externals} {broker later : Broker} {label : Label}
  {labels : List Label}

-- What was done for a published task, in any of its deliveries.
def workFor (origin : ℕ) : Label → Option (Event sig)
  | .perform copy _ op answer => if copy.origin = origin then some ⟨op, answer⟩ else none
  | _ => none

def work (origin : ℕ) (labels : List Label) : List (Event sig) :=
  labels.filterMap (workFor origin)

-- What is known of the workers and their results after these steps: every copy is one of its
-- published task, a delivery has done what was done for its task, and a result tells
-- about what was done for its task.
structure Known (settings : Settings) (externals : Externals) (labels : List Label)
    (broker : Broker) : Prop where
  placed : ∀ copy, broker.Has copy → broker.published[copy.origin]? = some copy.message.body
  working : ∀ delivery ∈ broker.inFlight, ∃ fuel past,
    past.Sublist (work delivery.copy.origin labels) ∧
    (telling ⟨settings, externals, fuel⟩ delivery.copy.message.body).Obeys (fun _ _ => True) past
      delivery.rest
  results : ∀ result ∈ broker.results, ∃ origin body task resultMessage fuel,
    broker.published[origin]? = some body ∧ ExperimentTask.fromJson body = .ok task ∧
    Tells ⟨settings, externals, fuel⟩ (work origin labels) task resultMessage ∧
    result = resultMessage.toJson

theorem known_empty : Known settings externals [] {} where
  placed copy hhas := absurd hhas (not_has_empty copy)
  working _ hmem := absurd hmem (Multiset.notMem_zero _)
  results _ hmem := absurd hmem List.not_mem_nil

theorem work_sublist (origin : ℕ) (labels : List Label) (label : Label) :
    (work origin labels).Sublist (work origin (labels ++ [label])) := by
  unfold work
  rw [List.filterMap_append]
  exact List.sublist_append_left _ _

theorem Step.published_get (last : Step settings externals broker label later) {origin : ℕ}
    {body : Body} (hget : broker.published[origin]? = some body) :
    later.published[origin]? = some body := by
  rcases last.published with hsame | ⟨other, -, happend⟩
  · rw [hsame, hget]
  · rw [happend, List.getElem?_append_left (List.getElem?_eq_some_iff.mp hget).1, hget]

theorem Step.placed (last : Step settings externals broker label later)
    (hsound : broker.Sound settings)
    (hplaced : ∀ copy, broker.Has copy → broker.published[copy.origin]? = some copy.message.body)
    (copy : Copy) (hhas : later.Has copy) :
    later.published[copy.origin]? = some copy.message.body := by
  rcases last.has hsound hhas with hold | ⟨body, rfl, rfl⟩ | ⟨parent, hparent, hderives⟩
  · exact last.published_get (hplaced copy hold)
  · cases last
    exact List.getElem?_concat_length
  · have hsame : copy.origin = parent.origin ∧ copy.message.body = parent.message.body := by
      cases hderives <;> exact ⟨rfl, rfl⟩
    rw [hsame.1, hsame.2]
    exact last.published_get (hplaced parent hparent)

theorem Step.working (last : Step settings externals broker label later)
    (hknown : broker.Known settings externals labels) :
    ∀ delivery ∈ later.inFlight, ∃ fuel past,
      past.Sublist (work delivery.copy.origin (labels ++ [label])) ∧
      (telling ⟨settings, externals, fuel⟩ delivery.copy.message.body).Obeys (fun _ _ => True) past
        delivery.rest := by
  have hkeep : ∀ delivery ∈ broker.inFlight, ∃ fuel past,
      past.Sublist (work delivery.copy.origin (labels ++ [label])) ∧
      (telling ⟨settings, externals, fuel⟩ delivery.copy.message.body).Obeys (fun _ _ => True) past
        delivery.rest := by
    intro delivery hmem
    obtain ⟨fuel, past, hpast, hobeys⟩ := hknown.working delivery hmem
    exact ⟨fuel, past, hpast.trans (work_sublist _ _ _), hobeys⟩
  intro delivery hmem
  cases last with
  | publish body => exact hkeep delivery hmem
  | deliver copy others fuel queued =>
      rcases Multiset.mem_cons.mp hmem with rfl | hold
      · exact ⟨fuel, [], List.nil_sublist _, consume_tells _ copy.incoming⟩
      · exact hkeep delivery hold
  | perform copy progress op next answer others running =>
      rcases Multiset.mem_cons.mp hmem with rfl | hold
      · obtain ⟨fuel, past, hpast, hobeys⟩ := hknown.working ⟨copy, progress, .call op next⟩
          (head_mem running)
        refine ⟨fuel, past ++ [⟨op, answer⟩], ?_, hobeys.2 answer trivial⟩
        have hdone : work copy.origin (labels ++ [.perform copy progress op answer]) =
            work copy.origin labels ++ [⟨op, answer⟩] := by
          simp [work, workFor]
        rw [hdone]
        exact hpast.append_right _
      · exact hkeep delivery (others_mem running hold)
  | finish copy progress others running => exact hkeep delivery (others_mem running hmem)
  | crash crashed others running =>
      rw [requeue_inFlight] at hmem
      exact hkeep delivery (others_mem running hmem)
  | expire copy others waiting => exact hkeep delivery hmem

theorem Step.known (last : Step settings externals broker label later)
    (hsound : broker.Sound settings) (hknown : broker.Known settings externals labels) :
    later.Known settings externals (labels ++ [label]) where
  placed := last.placed hsound hknown.placed
  working := last.working hknown
  results result hmem := by
    have hkeep : result ∈ broker.results → ∃ origin body task resultMessage fuel,
        later.published[origin]? = some body ∧ ExperimentTask.fromJson body = .ok task ∧
        Tells ⟨settings, externals, fuel⟩ (work origin (labels ++ [label])) task resultMessage ∧
        result = resultMessage.toJson := by
      intro hold
      obtain ⟨origin, body, task, resultMessage, fuel, hbody, hparsed, htells, hresult⟩ :=
        hknown.results result hold
      exact ⟨origin, body, task, resultMessage, fuel, last.published_get hbody, hparsed,
        htells.mono (work_sublist _ _ _), hresult⟩
    cases last with
    | perform copy progress op next answer others running =>
        rcases broker.after_eq copy.origin op answer with hsame | ⟨queue, message, rfl, hstore⟩
        · rw [hsame] at hmem
          exact hkeep hmem
        · rw [hstore] at hmem
          rcases results_store hmem with hold | ⟨hqueue, rfl⟩
          · exact hkeep hold
          · obtain ⟨fuel, past, hpast, hobeys⟩ := hknown.working
              ⟨copy, progress, .call (.publish queue message) next⟩ (head_mem running)
            obtain ⟨task, resultMessage, hparsed, htells, rfl⟩ := hobeys.1 hqueue
            refine ⟨copy.origin, copy.message.body, task, resultMessage, fuel, ?_, hparsed,
              htells.mono (hpast.trans (work_sublist _ _ _)), rfl⟩
            change (broker.after copy.origin _ answer).published[copy.origin]? = _
            rw [after_published]
            exact hknown.placed copy (has_inFlight running)
    | crash delivery others running =>
        unfold requeue at hmem
        split_ifs at hmem
        · exact hkeep hmem
        · exact hkeep hmem
    | publish | deliver | finish | expire => exact hkeep hmem

theorem run_known (run : Run (Step settings externals) {} labels broker) :
    broker.Sound settings ∧ broker.Known settings externals labels := by
  induction run with
  | start => exact ⟨sound_empty settings, known_empty⟩
  | step _ last ih => exact ⟨last.sound ih.1, last.known ih.1 ih.2⟩

end Broker

end QuantumPlatform

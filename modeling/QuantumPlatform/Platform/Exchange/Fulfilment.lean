import QuantumPlatform.Broker.Provenance
import QuantumPlatform.Orchestrator.Failures.Theorems
import QuantumPlatform.Platform.Exchange.Theorems
import QuantumPlatform.Platform.Fulfilment

namespace QuantumPlatform

open Process Python Orchestrator
open Api (SubmitPhase submitting Submitting Applying)

namespace Api

-- The record was made for this request.
def ExperimentResponse.Requests (experiment : ExperimentResponse) (request : ExperimentRequest) :
    Prop :=
  experiment.algorithm = request.algorithm ∧ experiment.parameters = request.modelDump

def ExperimentResponse.task (experiment : ExperimentResponse) : ExperimentTask :=
  ⟨.str experiment.id, .str experiment.algorithm.value, experiment.parameters⟩

variable {experiment other : ExperimentResponse} {request : ExperimentRequest}

theorem ExperimentResponse.Requests.task_eq (h : experiment.Requests request) :
    experiment.task = request.task (.str experiment.id) := by
  unfold ExperimentResponse.task ExperimentRequest.task
  rw [h.1, h.2]

theorem ExperimentResponse.identity_parts (h : other.identity = experiment.identity) :
    other.id = experiment.id ∧ other.algorithm = experiment.algorithm ∧
      other.parameters = experiment.parameters :=
  ⟨congrArg Prod.fst h, congrArg (fun parts => parts.2.1) h,
    congrArg (fun parts => parts.2.2.2) h⟩

theorem ExperimentResponse.Requests.of_identity (h : experiment.Requests request)
    (hidentity : other.identity = experiment.identity) : other.Requests request := by
  obtain ⟨-, halgorithm, hparameters⟩ := identity_parts hidentity
  exact ⟨halgorithm.trans h.1, hparameters.trans h.2⟩

theorem ExperimentResponse.task_of_identity (hidentity : other.identity = experiment.identity) :
    other.task = experiment.task := by
  obtain ⟨hid, halgorithm, hparameters⟩ := identity_parts hidentity
  unfold ExperimentResponse.task
  rw [hid, halgorithm, hparameters]

end Api

-- What a call of submit_experiment saves was made for the request, and is not completed; what
-- it publishes is the task of the record that it has saved.
def posting : Monitor Api.sig SubmitPhase where
  allowed
    | _, .storeSave experiment =>
        (∃ request, experiment.Requests request) ∧ experiment.status ≠ .completed
    | .opened record, .publishTask _ body => ExperimentTask.fromJson body = .ok record.task
    | _, _ => True
  admits _ _ _ := True
  next := submitting.next

-- A record is completed only by a message that says so, and with its result.
def completing (resultMsg : ExperimentResultMessage) (stray : Bool) :
    Monitor Api.sig (Option Api.ExperimentResponse) where
  allowed
    | _, .storeSave experiment => experiment.status = .completed →
        resultMsg.status = .str "completed" ∧ experiment.result = resultMsg.result
    | _, _ => True
  admits _ _ _ := True
  next := (applying resultMsg stray).next

section calls

theorem submitExperiment_posting (request : Api.ExperimentRequest) :
    posting.Obeys (fun _ _ => True) .started (Api.submitExperiment request).run := by
  refine ⟨trivial, fun (experimentId : String) _ => ⟨trivial, fun (submittedAt : Int) _ => ?_⟩⟩
  refine ⟨⟨⟨request, rfl, rfl⟩, nofun⟩, fun saved _ => ?_⟩
  cases saved with
  | raised exc stored => trivial
  | returned =>
      refine ⟨rfl, fun outcome _ => ?_⟩
      cases outcome with
      | returned => trivial
      | raised exc stored =>
          change posting.Obeys _ _ (if exc.isException then _ else _)
          split_ifs
          · refine ⟨trivial, fun (completedAt : Int) _ => ⟨⟨⟨request, rfl, rfl⟩, nofun⟩, ?_⟩⟩
            intro failed _
            cases failed <;> trivial
          · trivial

theorem completed_of_recognised {status : Json}
    (h : Api.statusByMessage status = .ok (some .completed)) : status = .str "completed" := by
  have hcompleted : status.isStr "completed" = true := by
    by_contra hother
    unfold Api.statusByMessage at h
    rw [if_neg hother] at h
    split_ifs at h <;> cases h
  cases status with
  | str text => exact congrArg Json.str (of_decide_eq_true hcompleted)
  | _ => cases hcompleted

theorem applyResultMessage_completing (resultMsg : ExperimentResultMessage) (stray : Bool) :
    (completing resultMsg stray).Obeys (fun _ _ => True) none
      (Api.applyResultMessage resultMsg).run := by
  refine Api.obeys_applyResultMessage trivial (fun _ => trivial) ?_
  rintro existing status now - hstatus rfl
  have hcompleted := completed_of_recognised hstatus
  have hterminal : resultMsg.terminal = true := by
    unfold ExperimentResultMessage.terminal
    rw [hcompleted]
    rfl
  exact ⟨hcompleted, if_pos hterminal⟩

end calls

namespace Exchange

def internal : Label → Option Broker.Label
  | .broker label => some label
  | _ => none

-- What the workers did for a published task.
def work (origin : ℕ) (labels : List Label) : List (Event sig) :=
  Broker.work origin (labels.filterMap internal)

-- A run of execute_task, among what the workers did for this task, has returned the result for
-- this request.
def Executed (settings : Settings) (externals : Externals) (labels : List Label) (origin : ℕ)
    (task : ExperimentTask) (request : Api.ExperimentRequest) (result : Json) : Prop :=
  ∃ fuel events, events.Sublist (work origin labels) ∧
    (executeTask ⟨settings, externals, fuel⟩ task).run.Returns events (.ok result) ∧
    Fulfils externals events request result

theorem Executed.mono {settings : Settings} {externals : Externals} {labels more : List Label}
    {origin : ℕ} {task : ExperimentTask} {request : Api.ExperimentRequest} {result : Json}
    (h : Executed settings externals labels origin task request result)
    (hmore : (work origin labels).Sublist (work origin more)) :
    Executed settings externals more origin task request result := by
  obtain ⟨fuel, events, hevents, hreturns, hfulfils⟩ := h
  exact ⟨fuel, events, hevents.trans hmore, hreturns, hfulfils⟩

-- The result was returned for the request that the experiment was submitted with: its task
-- was published, and its numbers are from what the workers did for this task.
def Fulfilled (settings : Settings) (externals : Externals) (labels : List Label)
    (exchange : Exchange) (experimentId : String) (result : Json) : Prop :=
  ∃ record request origin body, exchange.store.get experimentId = some record ∧
    record.Requests request ∧ exchange.broker.published[origin]? = some body ∧
    ExperimentTask.fromJson body = .ok record.task ∧
    Executed settings externals labels origin record.task request result

-- Whatever has been submitted, worked on, reported and applied so far.
structure Fulfilling (settings : Settings) (externals : Externals) (labels : List Label)
    (exchange : Exchange) : Prop where
  requested : ∀ experimentId record, exchange.store.get experimentId = some record →
    ∃ request, record.Requests request
  published : ∀ body ∈ exchange.broker.published, ∃ experimentId record,
    exchange.store.get experimentId = some record ∧ ExperimentTask.fromJson body = .ok record.task
  posts : ∀ call ∈ exchange.submissions, posting.Obeys (fun _ _ => True) call.phase call.rest
  completes : ∀ application ∈ exchange.applications,
    (completing application.resultMsg application.stray).Obeys (fun _ _ => True)
      application.existing application.rest
  received : ∀ application ∈ exchange.applications, application.stray = false →
    application.resultMsg.status = .str "completed" →
    ∀ experimentId, application.resultMsg.experimentId = .str experimentId →
      exchange.Fulfilled settings externals labels experimentId application.resultMsg.result
  completed : ∀ experimentId record, exchange.store.get experimentId = some record →
    record.status = .completed →
      exchange.Fulfilled settings externals labels experimentId record.result

variable {settings : Settings} {externals : Externals} {exchange next : Exchange} {label : Label}
  {labels : List Label} {experimentId : String} {result : Json}

theorem fulfilling_empty (settings : Settings) (externals : Externals) :
    Fulfilling settings externals [] {} := by
  have hnone : ∀ experimentId record,
      Api.InMemoryExperimentStore.get (∅ : Api.InMemoryExperimentStore) experimentId ≠
        some record := by
    intro experimentId record hget
    change (∅ : Dict String Api.ExperimentResponse).get? experimentId = some record at hget
    rw [Dict.get?_empty] at hget
    cases hget
  exact
    { requested := fun experimentId record hget => absurd hget (hnone experimentId record)
      published := fun _ hmem => absurd hmem List.not_mem_nil
      posts := fun _ hmem => absurd hmem (Multiset.notMem_zero _)
      completes := fun _ hmem => absurd hmem (Multiset.notMem_zero _)
      received := fun _ hmem => absurd hmem (Multiset.notMem_zero _)
      completed := fun experimentId record hget => absurd hget (hnone experimentId record) }

theorem work_sublist (origin : ℕ) (labels : List Label) (label : Label) :
    (work origin labels).Sublist (work origin (labels ++ [label])) := by
  unfold work Broker.work
  rw [List.filterMap_append, List.filterMap_append]
  exact List.sublist_append_left _ _

-- What was fulfilled stays so, however the exchange goes on.
theorem Fulfilled.mono {more : List Label} (h : exchange.Fulfilled settings externals labels experimentId result)
    (hextends : exchange.store.Extends next.store)
    (hpublished : ∀ (origin : ℕ) body, exchange.broker.published[origin]? = some body →
      next.broker.published[origin]? = some body)
    (hmore : ∀ origin, (work origin labels).Sublist (work origin more)) :
    next.Fulfilled settings externals more experimentId result := by
  obtain ⟨record, request, origin, body, hget, hrequests, hbody, hparsed, hexecuted⟩ := h
  obtain ⟨later, hlater, hidentity⟩ := hextends experimentId record hget
  refine ⟨later, request, origin, body, hlater, hrequests.of_identity hidentity,
    hpublished origin body hbody, ?_⟩
  rw [Api.ExperimentResponse.task_of_identity hidentity]
  exact ⟨hparsed, hexecuted.mono (hmore origin)⟩

-- The steps of the broker, as steps of the broker alone.
theorem broker_run (run : Run (Step settings externals) {} labels exchange) :
    ∃ steps, Run (Broker.Step settings externals) {} steps exchange.broker ∧
      ∀ origin, Broker.work origin steps = work origin labels := by
  induction run with
  | start => exact ⟨[], .start, fun _ => rfl⟩
  | @step labels state next label run last ih =>
      obtain ⟨steps, hsteps, hwork⟩ := ih
      have hquiet : internal label = none → ∀ origin,
          Broker.work origin steps = work origin (labels ++ [label]) := by
        intro hnone origin
        rw [hwork, work, work, List.filterMap_append]
        simp [hnone, Broker.work]
      cases last with
      | perform phase op rest answer others running answers =>
          cases op with
          | publishTask queue body =>
              simp only [Platform.brokerAfter]
              split_ifs
              · refine ⟨steps ++ [.publish body], hsteps.step (.publish _ body), fun origin => ?_⟩
                rw [← hquiet rfl]
                simp [Broker.work, Broker.workFor]
              · exact ⟨steps, hsteps, hquiet rfl⟩
          | _ => exact ⟨steps, hsteps, hquiet rfl⟩
      | broker label later internal last =>
          refine ⟨steps ++ [label], hsteps.step last, fun origin => ?_⟩
          unfold work
          rw [List.filterMap_append, Broker.work, Broker.work, List.filterMap_append,
            List.filterMap_append]
          exact congrArg₂ _ (hwork origin) rfl
      | submit | respond | receive | stray | apply | applied => exact ⟨steps, hsteps, hquiet rfl⟩

-- A completed result in the queue was returned for the request of its experiment.
theorem Fulfilling.told (hfulfilling : exchange.Fulfilling settings externals labels)
    {steps : List Broker.Label} (hknown : exchange.broker.Known settings externals steps)
    (hwork : ∀ origin, Broker.work origin steps = work origin labels)
    {resultMsg : ExperimentResultMessage} (hmem : resultMsg.toJson ∈ exchange.broker.results)
    (hcompleted : resultMsg.status = .str "completed")
    (hnamed : resultMsg.experimentId = .str experimentId) :
    exchange.Fulfilled settings externals labels experimentId resultMsg.result := by
  obtain ⟨origin, body, task, found, fuel, hbody, hparsed, ⟨hreports, hran⟩, hsame⟩ :=
    hknown.results _ hmem
  obtain rfl : resultMsg = found := by
    have hdecoded := congrArg ExperimentResultMessage.fromJson hsame
    rw [ExperimentResultMessage.fromJson_toJson, ExperimentResultMessage.fromJson_toJson] at hdecoded
    exact Except.ok.inj hdecoded
  obtain ⟨storedId, record, hget, htask⟩ :=
    hfulfilling.published body (List.mem_of_getElem? hbody)
  obtain rfl : task = record.task := Except.ok.inj (hparsed.symm.trans htask)
  obtain ⟨request, hrequests⟩ := hfulfilling.requested storedId record hget
  have hid : experimentId = storedId := by
    have hreported : resultMsg.experimentId = .str record.id := by
      cases hreports <;> rfl
    rw [hnamed] at hreported
    rw [Json.str.inj hreported]
    exact exchange.store.keyed storedId record hget
  subst hid
  obtain ⟨events, hevents, hreturns⟩ := hran hcompleted
  rw [hwork] at hevents
  have hfulfils := hreturns
  rw [hrequests.task_eq] at hfulfils
  exact ⟨record, request, origin, body, hget, hrequests, hbody, hparsed, fuel, events, hevents,
    hreturns, executeTask_fulfils hfulfils⟩

theorem Step.published_get (last : Step settings externals exchange label next) {origin : ℕ}
    {body : Body} (hget : exchange.broker.published[origin]? = some body) :
    next.broker.published[origin]? = some body := by
  cases last with
  | perform phase op rest answer others running answers =>
      cases op with
      | publishTask queue published =>
          simp only [Platform.brokerAfter]
          split_ifs
          · change (exchange.broker.published ++ [published])[origin]? = some body
            rw [List.getElem?_append_left (List.getElem?_eq_some_iff.mp hget).1, hget]
          · exact hget
      | _ => exact hget
  | broker label later internal last => exact last.published_get hget
  | submit | respond | receive | stray | apply | applied => exact hget

theorem Step.fulfilled (last : Step settings externals exchange label next)
    (hsound : exchange.Sound settings)
    (h : exchange.Fulfilled settings externals labels experimentId result) :
    next.Fulfilled settings externals (labels ++ [label]) experimentId result :=
  h.mono (last.extends hsound) (fun _ _ hget => last.published_get hget) fun _ =>
    work_sublist _ _ _

-- A record in the store was there before, or it is what a call of submit_experiment or of
-- apply_result_message has just saved.
theorem Step.stored (last : Step settings externals exchange label next)
    (hsound : exchange.Sound settings) (hfulfilling : exchange.Fulfilling settings externals labels)
    {record : Api.ExperimentResponse} (hget : next.store.get experimentId = some record) :
    exchange.store.get experimentId = some record ∨
      (∃ request, record.Requests request) ∧ (record.status = .completed →
        exchange.Fulfilled settings externals labels experimentId record.result) := by
  cases last with
  | perform phase op rest answer others running answers =>
      cases op with
      | storeSave experiment =>
          simp only [Api.InMemoryExperimentStore.after] at hget
          split_ifs at hget
          · rcases Api.InMemoryExperimentStore.get_save_eq hget with rfl | hold
            · have hallowed := (hfulfilling.posts _ (head_mem running)).1
              cases phase <;> exact .inr ⟨hallowed.1, fun hstatus => absurd hstatus hallowed.2⟩
            · exact .inl hold
          · exact .inl hget
      | _ => exact .inl hget
  | apply resultMsg stray existing op rest answer others running answers unknown =>
      cases op with
      | storeSave experiment =>
          simp only [Api.InMemoryExperimentStore.after] at hget
          split_ifs at hget
          · rcases Api.InMemoryExperimentStore.get_save_eq hget with rfl | hold
            · have happlies := hsound.applies _ (head_mem running)
              have hcompletes := (hfulfilling.completes _ (head_mem running)).1
              cases existing with
              | none => exact happlies.obeys.1.elim
              | some existing =>
                  obtain ⟨hfresh, hidentity, -⟩ := happlies.obeys.1
                  obtain ⟨hkey, old, hold, hsame⟩ :=
                    (hsound.records.updates _ (head_mem running)).read existing rfl
                  obtain ⟨request, hrequests⟩ := hfulfilling.requested _ old hold
                  have hid : record.id = existing.id :=
                    Api.ExperimentResponse.identity_id hidentity
                  have hnamed : record.id = experimentId :=
                    (exchange.store.save record).keyed experimentId record hget
                  refine .inr ⟨⟨request, hrequests.of_identity (hidentity.trans hsame.symm)⟩, ?_⟩
                  intro hstatus
                  obtain ⟨hcompleted, hresult⟩ := hcompletes hstatus
                  rw [hresult, ← hnamed, hid]
                  exact hfulfilling.received _ (head_mem running) hfresh hcompleted _ hkey
            · exact .inl hold
          · exact .inl hget
      | _ => exact .inl hget
  | submit | respond | receive | stray | applied | broker => exact .inl hget

theorem Step.posted (last : Step settings externals exchange label next)
    (hsound : exchange.Sound settings) (hfulfilling : exchange.Fulfilling settings externals labels) :
    ∀ body ∈ next.broker.published, ∃ experimentId record,
      next.store.get experimentId = some record ∧
      ExperimentTask.fromJson body = .ok record.task := by
  have hkeep : ∀ body ∈ exchange.broker.published, ∃ experimentId record,
      next.store.get experimentId = some record ∧
      ExperimentTask.fromJson body = .ok record.task := by
    intro body hmem
    obtain ⟨experimentId, record, hget, hparsed⟩ := hfulfilling.published body hmem
    obtain ⟨later, hlater, hidentity⟩ := last.extends hsound experimentId record hget
    refine ⟨experimentId, later, hlater, ?_⟩
    rw [Api.ExperimentResponse.task_of_identity hidentity]
    exact hparsed
  intro body hmem
  cases last with
  | perform phase op rest answer others running answers =>
      cases op with
      | publishTask queue published =>
          simp only [Platform.brokerAfter] at hmem
          split_ifs at hmem
          · rcases List.mem_append.mp hmem with hold | hnew
            · exact hkeep body hold
            · obtain rfl := List.mem_singleton.mp hnew
              have hcall := hsound.records.submits _ (head_mem running)
              have hparsed := (hfulfilling.posts _ (head_mem running)).1
              cases phase with
              | started => exact hcall.obeys.1.elim
              | issued experimentId => exact hcall.obeys.1.elim
              | opened record =>
                  obtain ⟨experiment, hget, hidentity⟩ := hcall.opened record rfl
                  refine ⟨record.id, experiment, hget, ?_⟩
                  rw [Api.ExperimentResponse.task_of_identity hidentity]
                  exact hparsed
          · exact hkeep body hmem
      | _ => exact hkeep body hmem
  | broker label later internal last =>
      rcases last.published with hsame | ⟨other, hlabel, -⟩
      · rw [hsame] at hmem
        exact hkeep body hmem
      · exact absurd hlabel (internal other)
  | submit | respond | receive | stray | apply | applied => exact hkeep body hmem

theorem Step.fulfilling (last : Step settings externals exchange label next)
    (hsound : exchange.Sound settings) (hfulfilling : exchange.Fulfilling settings externals labels)
    {steps : List Broker.Label} (hknown : exchange.broker.Known settings externals steps)
    (hwork : ∀ origin, Broker.work origin steps = work origin labels) :
    next.Fulfilling settings externals (labels ++ [label]) where
  requested experimentId record hget := by
    rcases last.stored hsound hfulfilling hget with hold | ⟨hrequests, -⟩
    · exact hfulfilling.requested experimentId record hold
    · exact hrequests
  published := last.posted hsound hfulfilling
  posts call hmem := by
    cases last with
    | submit request =>
        rcases Multiset.mem_cons.mp hmem with rfl | hold
        · exact submitExperiment_posting request
        · exact hfulfilling.posts call hold
    | perform phase op rest answer others running answers =>
        rcases Multiset.mem_cons.mp hmem with rfl | hold
        · exact (hfulfilling.posts _ (head_mem running)).2 answer trivial
        · exact hfulfilling.posts call (others_mem running hold)
    | respond phase result others running =>
        exact hfulfilling.posts call (others_mem running hmem)
    | receive | stray | apply | applied | broker => exact hfulfilling.posts call hmem
  completes application hmem := by
    cases last with
    | receive body resultMsg reported decoded =>
        rcases Multiset.mem_cons.mp hmem with rfl | hold
        · exact applyResultMessage_completing resultMsg false
        · exact hfulfilling.completes application hold
    | stray resultMsg =>
        rcases Multiset.mem_cons.mp hmem with rfl | hold
        · exact applyResultMessage_completing resultMsg true
        · exact hfulfilling.completes application hold
    | apply resultMsg stray existing op rest answer others running answers unknown =>
        rcases Multiset.mem_cons.mp hmem with rfl | hold
        · exact (hfulfilling.completes _ (head_mem running)).2 answer trivial
        · exact hfulfilling.completes application (others_mem running hold)
    | applied resultMsg stray existing result others running =>
        exact hfulfilling.completes application (others_mem running hmem)
    | submit | perform | respond | broker => exact hfulfilling.completes application hmem
  received application hmem hstray hcompleted experimentId hnamed := by
    have hstep := last
    refine hstep.fulfilled hsound ?_
    cases last with
    | receive body resultMsg reported decoded =>
        rcases Multiset.mem_cons.mp hmem with rfl | hold
        · obtain ⟨found, rfl⟩ : ∃ found, body = ExperimentResultMessage.toJson found := by
            obtain ⟨-, -, -, found, -, -, -, -, hsame⟩ := hknown.results body reported
            exact ⟨found, hsame⟩
          obtain rfl := Except.ok.inj ((ExperimentResultMessage.fromJson_toJson found).symm.trans
            decoded)
          exact hfulfilling.told hknown hwork reported hcompleted hnamed
        · exact hfulfilling.received application hold hstray hcompleted experimentId hnamed
    | stray resultMsg =>
        rcases Multiset.mem_cons.mp hmem with rfl | hold
        · cases hstray
        · exact hfulfilling.received application hold hstray hcompleted experimentId hnamed
    | apply resultMsg stray existing op rest answer others running answers unknown =>
        rcases Multiset.mem_cons.mp hmem with rfl | hold
        · exact hfulfilling.received _ (head_mem running) hstray hcompleted experimentId hnamed
        · exact hfulfilling.received application (others_mem running hold) hstray hcompleted
            experimentId hnamed
    | applied resultMsg stray existing result others running =>
        exact hfulfilling.received application (others_mem running hmem) hstray hcompleted
          experimentId hnamed
    | submit | perform | respond | broker =>
        exact hfulfilling.received application hmem hstray hcompleted experimentId hnamed
  completed experimentId record hget hstatus := by
    refine last.fulfilled hsound ?_
    rcases last.stored hsound hfulfilling hget with hold | ⟨-, hfulfilled⟩
    · exact hfulfilling.completed experimentId record hold hstatus
    · exact hfulfilled hstatus

theorem run_fulfilling (run : Run (Step settings externals) {} labels exchange) :
    exchange.Sound settings ∧ exchange.Fulfilling settings externals labels := by
  induction run with
  | start => exact ⟨sound_empty settings, fulfilling_empty settings externals⟩
  | step run last ih =>
      obtain ⟨hsound, hfulfilling⟩ := ih
      obtain ⟨steps, hsteps, hwork⟩ := broker_run run
      exact ⟨last.sound hsound,
        last.fulfilling hsound hfulfilling (Broker.run_known hsteps).2 hwork⟩

-- Whatever crashes, is repeated or overtaken: a completed experiment has the result that
-- execute_task returned for its own task, with the numbers that the backend counted for it.
theorem run_fulfilled (run : Run (Step settings externals) {} labels exchange)
    {record : Api.ExperimentResponse} (hget : exchange.store.get experimentId = some record)
    (hcompleted : record.status = .completed) :
    ∃ request origin body fuel events, record.Requests request ∧
      exchange.broker.published[origin]? = some body ∧
      ExperimentTask.fromJson body = .ok record.task ∧
      events.Sublist (work origin labels) ∧
      (executeTask ⟨settings, externals, fuel⟩ record.task).run.Returns events
        (.ok record.result) ∧
      Fulfils externals events request record.result := by
  obtain ⟨found, request, origin, body, hfound, hrequests, hbody, hparsed, fuel, events, hevents,
    hreturns, hfulfils⟩ := (run_fulfilling run).2.completed experimentId record hget hcompleted
  obtain rfl : found = record := Option.some.inj (hfound.symm.trans hget)
  exact ⟨request, origin, body, fuel, events, hrequests, hbody, hparsed, hevents, hreturns,
    hfulfils⟩

section example_run

open QuantumPlatform.Core

theorem after_inFlight (broker : Broker) (inFlight : Multiset Delivery) (origin : ℕ) (op : Effect)
    (answer : op.Ans) : Broker.after { broker with inFlight := inFlight } origin op answer =
      { broker.after origin op answer with inFlight := inFlight } := by
  cases op with
  | publish queue message =>
      simp only [Broker.after, Broker.store]
      split_ifs <;> rfl
  | _ => rfl

-- What the calls of a worker leave in the queues.
def afterAll (origin : ℕ) (events : List (Event sig)) (broker : Broker) : Broker :=
  events.foldl (fun broker event => broker.after origin event.1 event.2) broker

theorem afterAll_inFlight (origin : ℕ) (events : List (Event sig)) (broker : Broker)
    (inFlight : Multiset Delivery) : afterAll origin events { broker with inFlight := inFlight } =
      { afterAll origin events broker with inFlight := inFlight } := by
  induction events generalizing broker with
  | nil => rfl
  | cons event events ih =>
      change afterAll origin events (Broker.after { broker with inFlight := inFlight } origin _ _) = _
      rw [after_inFlight, ih]
      rfl

-- A worker goes on with its delivery, and everybody else waits.
theorem run_worked (run : Run (Step settings externals) {} labels exchange)
    {program rest : Program sig (Except Exc Unit)} {events : List (Event sig)}
    (trace : program.Trace events rest) {copy : Copy} {progress : Progress}
    {others : Multiset Delivery}
    (running : exchange.broker.inFlight = ⟨copy, progress, program⟩ ::ₘ others) :
    ∃ more done, Run (Step settings externals) {} more
      { exchange with broker := { afterAll copy.origin events exchange.broker with
          inFlight := ⟨copy, done, rest⟩ ::ₘ others } } := by
  induction trace generalizing labels exchange progress with
  | stop program =>
      refine ⟨labels, progress, ?_⟩
      rw [← running]
      exact run
  | @step op next answer events rest tail ih =>
      obtain ⟨more, done, hrun⟩ := ih (run.step (.broker exchange _ _ (by simp)
        (.perform _ copy progress op next answer others running))) rfl
      rw [afterAll_inFlight] at hrun
      exact ⟨more, done, hrun⟩

-- The third of eight phases, counted four times.
def counted : ExperimentResult := ⟨"1", .completed, some ⟨[("010", 4)], by simp⟩, none⟩

-- A worker has the counts of its job, and reports them.
theorem run_fulfilled_counted : ∃ labels exchange record results,
    Run (Step {} default) {} labels exchange ∧ exchange.store.get "e1" = some record ∧
    record.status = .completed ∧ estimates 3 counted.counts = .ok results ∧
    record.result = Indexer.qpeResult (1 / 4) 3 results ∧
    ∃ request origin body fuel events, record.Requests request ∧
      exchange.broker.published[origin]? = some body ∧
      ExperimentTask.fromJson body = .ok record.task ∧
      events.Sublist (work origin labels) ∧
      (executeTask ⟨{}, default, fuel⟩ record.task).run.Returns events (.ok record.result) ∧
      Fulfils default events request record.result := by
  let request : Api.QPERequest :=
    ⟨1 / 4, 3, 1024, by norm_num, by decide, by decide⟩
  let task := (Api.ExperimentRequest.qpe request).task (.str "e1")
  have hqpe : ∃ results, estimates 3 counted.counts = .ok results ∧
      (executeTask ⟨{}, default, 1⟩ task).run.Returns
        [⟨.submit ⟨"qpe", 4, buildQpeCircuit mathPi ⟨2 * mathPi * (1 / 4)⟩ 3, .int 1024⟩,
            .ok ⟨"1", "aer-simulator"⟩⟩, ⟨.monotonic, (0 : ℚ)⟩, ⟨.monotonic, (0 : ℚ)⟩,
          ⟨.pollStatus ⟨"1", "aer-simulator"⟩, .ok .completed⟩,
          ⟨.fetchResult ⟨"1", "aer-simulator"⟩, .ok counted⟩]
        (.ok (Indexer.qpeResult (1 / 4) 3 results)) := by
    refine ⟨_, rfl, ?_⟩
    rw [executeTask_qpe]
    exact .step _ _ _ (Py.returns_then
      (waitOnce_fetches ⟨"1", "aer-simulator"⟩ _ Nat.one_pos counted (.inl rfl)) (.stop _))
  obtain ⟨results, hresults, hreturns⟩ := hqpe
  have hhandled := handleMessage_returns ⟨{}, default, 1⟩ { body := task.toJson } task
    (ExperimentTask.fromJson_toJson task) rfl hreturns
  have hsubmit : Run (Step {} default) {} _ _ := .single (.submit {} (.qpe request))
  have hid := hsubmit.step (.perform _ _ .uuid4 _ "e1" 0 rfl List.not_mem_nil)
  have hnow := hid.step (.perform _ _ .utcnow _ (0 : Int) 0 rfl trivial)
  have hsave := hnow.step (.perform _ _ (.storeSave _) _ Outcome.returned 0 rfl trivial)
  have hpublish := hsave.step (.perform _ _ (.publishTask _ _) _ Outcome.returned 0 rfl trivial)
  have hdeliver := hpublish.step (.broker _ _ _ (by simp)
    (.deliver _ ⟨{ body := task.toJson }, false, 0⟩ 0 1 rfl))
  obtain ⟨labels, done, hreported⟩ := @run_worked {} default _ _ hdeliver _ _ _ hhandled
    ⟨{ body := task.toJson }, false, 0⟩ {} 0 rfl
  have hreceive := hreported.step (.receive _ _ _ (List.mem_singleton_self _)
    (ExperimentResultMessage.fromJson_toJson _))
  have hread := hreceive.step (.apply _ _ false none (.storeGet _) _ _ 0 rfl (.inl rfl) (by simp))
  have hclock := hread.step (.apply _ _ false _ .utcnow _ (1 : Int) 0 rfl trivial (by simp))
  have hdone := hclock.step
    (.apply _ _ false _ (.storeSave _) _ Outcome.returned 0 rfl trivial (by simp))
  exact ⟨_, _, _, results, hdone, rfl, rfl, hresults, rfl,
    @run_fulfilled _ _ _ _ "e1" hdone _ rfl rfl⟩

end example_run

end Exchange

end QuantumPlatform

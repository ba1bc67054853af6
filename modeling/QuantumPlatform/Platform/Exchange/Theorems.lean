import QuantumPlatform.Platform.Exchange
import QuantumPlatform.Api.Records.Theorems
import QuantumPlatform.Broker.Reports

namespace QuantumPlatform

open Process Python Orchestrator
open Api (SubmitPhase submitting Submitting Applying)

namespace Api

theorem InMemoryExperimentStore.Known.mono {store later : InMemoryExperimentStore} {key : Json}
    (hknown : store.Known key) (hextends : store.Extends later) : later.Known key := by
  obtain ⟨experimentId, experiment, hkey, hget⟩ := hknown
  obtain ⟨new, hnew, -⟩ := hextends experimentId experiment hget
  exact ⟨experimentId, new, hkey, hnew⟩

-- Applying what a worker reports gives a consistent record, whatever was there.
theorem consistent_update {task : ExperimentTask} {resultMsg : ExperimentResultMessage}
    {status : ExperimentStatus} (existing : ExperimentResponse) (now : DateTime)
    (hreports : Reports task resultMsg) (hstatus : recognised resultMsg.status = some status) :
    (existing.update status resultMsg now).Consistent := by
  cases hreports with
  | completed result =>
      obtain rfl : ExperimentStatus.completed = status := Option.some.inj hstatus
      exact ⟨rfl, iff_of_false (fun hset => hset rfl) nofun⟩
  | failed error =>
      obtain rfl : ExperimentStatus.failed = status := Option.some.inj hstatus
      exact ⟨rfl, iff_of_true nofun rfl⟩
  | waiting =>
      obtain rfl : ExperimentStatus.waitingForCalibration = status := Option.some.inj hstatus
      exact ⟨rfl, iff_of_false (fun hset => hset rfl) nofun⟩

end Api

-- A record is saved only for a message that a worker has reported, and only over
-- the record that was read.
theorem applyResultMessage_applying (resultMsg : ExperimentResultMessage) (stray : Bool)
    (hreports : stray = false → ∃ task, Reports task resultMsg) :
    (applying resultMsg stray).Obeys (fun _ _ => True) none
      (Api.applyResultMessage resultMsg).run := by
  refine Api.obeys_applyResultMessage rfl (fun _ => trivial) ?_
  intro existing status now hadmits hstatus
  have hrecognised := Api.statusByMessage_ok _ _ hstatus
  have hfresh : stray = false := by
    by_contra hstray
    rw [hadmits existing rfl (by simpa using hstray)] at hrecognised
    cases hrecognised
  obtain ⟨task, hreported⟩ := hreports hfresh
  exact ⟨hfresh, rfl, Api.consistent_update existing now hreported hrecognised⟩

namespace Exchange

-- What is known of a running call of apply_result_message, besides what is known of any.
structure Applies (store : Api.InMemoryExperimentStore) (application : Applying) : Prop where
  obeys : (applying application.resultMsg application.stray).Obeys (fun _ _ => True)
    application.existing application.rest
  known : application.stray = false → store.Known application.resultMsg.experimentId

structure Sound (settings : Settings) (exchange : Exchange) : Prop where
  records : exchange.toRecords.Sound
  broker : exchange.broker.Sound settings
  reported : exchange.broker.Reported
  published : ∀ body ∈ exchange.broker.published, ∃ task,
    ExperimentTask.fromJson body = .ok task ∧ exchange.store.Known task.experimentId
  consistent : ∀ experimentId experiment, exchange.store.get experimentId = some experiment →
    experiment.Consistent
  applies : ∀ application ∈ exchange.applications, Applies exchange.store application

variable {settings : Settings} {externals : Externals} {exchange next : Exchange} {label : Label}
  {store later : Api.InMemoryExperimentStore}

theorem Applies.mono {application : Applying} (h : Applies store application)
    (hextends : store.Extends later) : Applies later application where
  obeys := h.obeys
  known hstray := (h.known hstray).mono hextends

-- The records take a step of their own, or the broker takes one and they stay as they are.
theorem Step.records (last : Step settings externals exchange label next) :
    (∃ own ∈ label.records, Api.Records.Step exchange.toRecords own next.toRecords) ∨
      next.toRecords = exchange.toRecords := by
  cases last with
  | submit request => exact .inl ⟨_, rfl, .submit exchange.toRecords request⟩
  | perform phase op rest answer others running answers =>
      exact .inl ⟨_, rfl, .perform exchange.toRecords phase op rest answer others running answers⟩
  | respond phase result others running =>
      exact .inl ⟨_, rfl, .respond exchange.toRecords phase result others running⟩
  | receive body resultMsg reported decoded =>
      exact .inl ⟨_, rfl, .receive exchange.toRecords resultMsg false⟩
  | stray resultMsg => exact .inl ⟨_, rfl, .receive exchange.toRecords resultMsg true⟩
  | apply resultMsg stray existing op rest answer others running answers unknown =>
      exact .inl ⟨_, rfl, .apply exchange.toRecords resultMsg stray existing op rest answer others
        running answers⟩
  | applied resultMsg stray existing result others running =>
      exact .inl ⟨_, rfl, .applied exchange.toRecords resultMsg stray existing result others running⟩
  | broker => exact .inr rfl

theorem Sound.recorded (hsound : exchange.Sound settings) : exchange.Recorded where
  consistent experimentId experiment hget :=
    ⟨exchange.store.keyed experimentId experiment hget,
      hsound.consistent experimentId experiment hget⟩
  tasks copy hhas := hsound.published _ (hsound.reported.copies copy hhas)
  results body hmem := by
    obtain ⟨source, hsource, task, resultMsg, hparsed, hreports, rfl⟩ :=
      hsound.reported.results body hmem
    obtain ⟨other, hother, hknown⟩ := hsound.published source hsource
    obtain rfl : task = other := Except.ok.inj (hparsed.symm.trans hother)
    refine ⟨resultMsg, ExperimentResultMessage.fromJson_toJson resultMsg, ?_⟩
    have hnamed : resultMsg.experimentId = task.experimentId := by
      cases hreports <;> rfl
    rw [hnamed]
    exact hknown
  received application hmem hstray := (hsound.applies application hmem).known hstray

theorem sound_empty (settings : Settings) : Sound settings {} where
  records := Api.Records.sound_empty
  broker := Broker.sound_empty settings
  reported := Broker.reported_empty
  published _ hmem := absurd hmem List.not_mem_nil
  consistent experimentId experiment hget := by
    change (∅ : Dict String Api.ExperimentResponse).get? experimentId = some experiment at hget
    rw [Dict.get?_empty] at hget
    cases hget
  applies _ hmem := absurd hmem (Multiset.notMem_zero _)

theorem Step.extends (last : Step settings externals exchange label next)
    (hsound : exchange.Sound settings) : exchange.store.Extends next.store := by
  rcases last.records with ⟨_, -, hstep⟩ | hsame
  · exact hstep.extends hsound.records
  · exact congrArg (fun records => records.store) hsame ▸ .refl _

section perform

variable {phase : SubmitPhase} {op : Api.Effect} {rest : op.Ans → Api.Submission}
  {others : Multiset Submitting} (answer : op.Ans)

-- A task that comes into the queue is about a record in the store.
theorem Sound.perform_publishes (hsound : exchange.Sound settings)
    (running : exchange.submissions = ⟨phase, .call op rest⟩ ::ₘ others) :
    Platform.brokerAfter exchange.broker op answer = exchange.broker ∨ ∃ body task,
      Platform.brokerAfter exchange.broker op answer = exchange.broker.publish body ∧
      ExperimentTask.fromJson body = .ok task ∧ exchange.store.Known task.experimentId := by
  have hcall := hsound.records.submits ⟨phase, .call op rest⟩ (head_mem running)
  have hallowed := hcall.obeys.1
  cases op with
  | publishTask queue body =>
      simp only [Platform.brokerAfter]
      split_ifs
      · cases phase with
        | started => exact hallowed.elim
        | issued experimentId => exact hallowed.elim
        | opened record =>
            obtain ⟨task, hparsed, hnamed⟩ := hallowed
            obtain ⟨experiment, hget, -⟩ := hcall.opened record rfl
            exact .inr ⟨body, task, rfl, hparsed, record.id, experiment, hnamed, hget⟩
      · exact .inl rfl
  | _ => exact .inl rfl

theorem Sound.perform (hsound : exchange.Sound settings)
    (running : exchange.submissions = ⟨phase, .call op rest⟩ ::ₘ others)
    (answers : exchange.Answers op answer) :
    Sound settings { exchange with
      store := exchange.store.after op answer,
      issued := exchange.issuedAfter op answer,
      submissions := ⟨submitting.next phase op answer, rest answer⟩ ::ₘ others,
      broker := Platform.brokerAfter exchange.broker op answer } := by
  have hextends := hsound.records.perform_extends answer running
  have hpublished : ∀ body ∈ exchange.broker.published, ∃ task,
      ExperimentTask.fromJson body = .ok task ∧
      (exchange.store.after op answer).Known task.experimentId := by
    intro body hmem
    obtain ⟨task, hparsed, hknown⟩ := hsound.published body hmem
    exact ⟨task, hparsed, hknown.mono hextends⟩
  have hbroker : (Platform.brokerAfter exchange.broker op answer).Sound settings ∧
      (Platform.brokerAfter exchange.broker op answer).Reported ∧
      ∀ body ∈ (Platform.brokerAfter exchange.broker op answer).published, ∃ task,
        ExperimentTask.fromJson body = .ok task ∧
        (exchange.store.after op answer).Known task.experimentId := by
    rcases hsound.perform_publishes answer running with hsame | ⟨body, task, hnew, hparsed, hknown⟩
    · rw [hsame]
      exact ⟨hsound.broker, hsound.reported, hpublished⟩
    · rw [hnew]
      have hstep : Broker.Step settings default exchange.broker (.publish body) _ :=
        .publish exchange.broker body
      refine ⟨hstep.sound hsound.broker, hstep.reported hsound.broker hsound.reported, ?_⟩
      intro other hmem
      rcases List.mem_append.mp hmem with hold | hlast
      · exact hpublished other hold
      · rw [List.mem_singleton.mp hlast]
        exact ⟨task, hparsed, hknown.mono hextends⟩
  refine ⟨hsound.records.perform answer running answers, hbroker.1, hbroker.2.1, hbroker.2.2,
    fun experimentId experiment hget => ?_,
    fun application hmem => (hsound.applies application hmem).mono hextends⟩
  rcases hsound.records.perform_saves answer running with hsame | ⟨saved, -, hsave, hconsistent, -⟩
  · rw [hsame] at hget
    exact hsound.consistent experimentId experiment hget
  · rw [hsave] at hget
    rcases Api.InMemoryExperimentStore.get_save_eq hget with rfl | hold
    · exact hconsistent
    · exact hsound.consistent experimentId experiment hold

end perform

section apply

variable {resultMsg : ExperimentResultMessage} {stray : Bool}
  {existing : Option Api.ExperimentResponse} {op : Api.Effect}
  {rest : op.Ans → Program Api.sig (Except Exc (Option Api.ExperimentResponse))}
  {others : Multiset Applying} (answer : op.Ans)

-- What a call for a reported message saves is consistent, and a stray one saves nothing.
theorem Sound.apply_saves (hsound : exchange.Sound settings)
    (running : exchange.applications = ⟨resultMsg, stray, existing, .call op rest⟩ ::ₘ others) :
    exchange.store.after op answer = exchange.store ∨ ∃ experiment,
      exchange.store.after op answer = exchange.store.save experiment ∧ stray = false ∧
      experiment.Consistent ∧ resultMsg.experimentId = .str experiment.id := by
  rcases hsound.records.apply_saves answer running with hsame | ⟨experiment, rfl, hsave, hkey, -⟩
  · exact .inl hsame
  · have hallowed := (hsound.applies _ (head_mem running)).obeys.1
    cases existing with
    | none => exact hallowed.elim
    | some existing => exact .inr ⟨experiment, hsave, hallowed.1, hallowed.2.2, hkey⟩

-- A stray message that finds a record has an unknown status.
theorem Sound.apply_obeys (hsound : exchange.Sound settings)
    (running : exchange.applications = ⟨resultMsg, stray, existing, .call op rest⟩ ::ₘ others)
    (answers : exchange.Answers op answer)
    (unknown : stray = true → exchange.Unknown resultMsg op) :
    Applies (exchange.store.after op answer)
      ⟨resultMsg, stray, (applying resultMsg stray).next existing op answer, rest answer⟩ := by
  have happlies := hsound.applies ⟨resultMsg, stray, existing, .call op rest⟩ (head_mem running)
  refine ⟨happlies.obeys.2 answer ?_,
    (happlies.mono (hsound.records.apply_extends answer running)).known⟩
  cases op with
  | storeGet key =>
      rintro found rfl hstray
      rcases unknown hstray with hstatus | hmissing
      · exact hstatus
      · rcases answers with hlookup | ⟨exc, hfailed⟩
        · exact absurd hlookup.symm (hmissing found)
        · cases hfailed
  | _ => trivial

theorem Sound.apply (hsound : exchange.Sound settings)
    (running : exchange.applications = ⟨resultMsg, stray, existing, .call op rest⟩ ::ₘ others)
    (answers : exchange.Answers op answer)
    (unknown : stray = true → exchange.Unknown resultMsg op) :
    Sound settings { exchange with
      store := exchange.store.after op answer,
      applications :=
        ⟨resultMsg, stray, (applying resultMsg stray).next existing op answer, rest answer⟩ ::ₘ
          others } := by
  have hextends := hsound.records.apply_extends answer running
  refine ⟨hsound.records.apply answer running answers, hsound.broker, hsound.reported,
    fun body hmem => ?_, fun experimentId experiment hget => ?_, fun application hmem => ?_⟩
  · obtain ⟨task, hparsed, hknown⟩ := hsound.published body hmem
    exact ⟨task, hparsed, hknown.mono hextends⟩
  · rcases hsound.apply_saves answer running with hsame | ⟨saved, hsave, -, hconsistent, -⟩
    · rw [hsame] at hget
      exact hsound.consistent experimentId experiment hget
    · rw [hsave] at hget
      rcases Api.InMemoryExperimentStore.get_save_eq hget with rfl | hold
      · exact hconsistent
      · exact hsound.consistent experimentId experiment hold
  · rcases Multiset.mem_cons.mp hmem with rfl | hold
    · exact hsound.apply_obeys answer running answers unknown
    · exact (hsound.applies application (others_mem running hold)).mono hextends

end apply

theorem Sound.broker_step (hsound : exchange.Sound settings) {label : Broker.Label}
    {later : Broker} (internal : ∀ body, label ≠ .publish body)
    (last : Broker.Step settings externals exchange.broker label later) :
    Sound settings { exchange with broker := later } := by
  have hpublished : later.published = exchange.broker.published := by
    rcases last.published with hsame | ⟨body, hlabel, -⟩
    · exact hsame
    · exact absurd hlabel (internal body)
  refine ⟨hsound.records, last.sound hsound.broker, last.reported hsound.broker hsound.reported, ?_,
    hsound.consistent, hsound.applies⟩
  change ∀ body ∈ later.published, _
  rw [hpublished]
  exact hsound.published

-- Calls of submit_experiment come and go without touching anything else.
theorem Sound.with_submissions (hsound : exchange.Sound settings) {submissions : Multiset Submitting}
    (hrecords : Api.Records.Sound { exchange.toRecords with submissions := submissions }) :
    Sound settings { exchange with submissions := submissions } :=
  ⟨hrecords, hsound.broker, hsound.reported, hsound.published, hsound.consistent, hsound.applies⟩

theorem Sound.with_applications (hsound : exchange.Sound settings)
    {applications : Multiset Applying}
    (hrecords : Api.Records.Sound { exchange.toRecords with applications := applications })
    (happlications : ∀ application ∈ applications, Applies exchange.store application) :
    Sound settings { exchange with applications := applications } :=
  ⟨hrecords, hsound.broker, hsound.reported, hsound.published, hsound.consistent, happlications⟩

theorem Step.sound (last : Step settings externals exchange label next)
    (hsound : exchange.Sound settings) : next.Sound settings := by
  have hrecords : next.toRecords.Sound := by
    rcases last.records with ⟨_, -, hstep⟩ | hsame
    · exact hstep.sound hsound.records
    · exact hsame ▸ hsound.records
  cases last with
  | submit request => exact hsound.with_submissions hrecords
  | perform phase op rest answer others running answers =>
      exact hsound.perform answer running answers
  | respond phase result others running => exact hsound.with_submissions hrecords
  | receive body resultMsg reported decoded =>
      refine hsound.with_applications hrecords fun application hmem => ?_
      rcases Multiset.mem_cons.mp hmem with rfl | hold
      · obtain ⟨source, -, task, found, -, hreports, rfl⟩ := hsound.reported.results body reported
        obtain rfl := Except.ok.inj ((ExperimentResultMessage.fromJson_toJson found).symm.trans
          decoded)
        obtain ⟨other, hdecoded, hknown⟩ := hsound.recorded.results _ reported
        obtain rfl := Except.ok.inj (decoded.symm.trans hdecoded)
        exact ⟨applyResultMessage_applying found false fun _ => ⟨task, hreports⟩, fun _ => hknown⟩
      · exact hsound.applies application hold
  | stray resultMsg =>
      refine hsound.with_applications hrecords fun application hmem => ?_
      rcases Multiset.mem_cons.mp hmem with rfl | hold
      · exact ⟨applyResultMessage_applying resultMsg true nofun, nofun⟩
      · exact hsound.applies application hold
  | apply resultMsg stray existing op rest answer others running answers unknown =>
      exact hsound.apply answer running answers unknown
  | applied resultMsg stray existing result others running =>
      refine hsound.with_applications hrecords fun application hmem => ?_
      exact hsound.applies application (others_mem running hmem)
  | broker label later internal last => exact hsound.broker_step internal last

-- With a broker and its workers too, a terminal record stays as it is along every run that spares
-- the terminal records.
theorem keeps_of_run {labels : List Label}
    (run : Run (SparingStep settings externals) exchange labels next)
    (hsound : exchange.toRecords.Sound) :
    next.toRecords.Sound ∧ exchange.store.Keeps next.store := by
  induction run with
  | start => exact ⟨hsound, .refl _⟩
  | step _ last ih =>
      rcases last.1.records with ⟨own, hown, hstep⟩ | hsame
      · exact ⟨hstep.sound ih.1, ih.2.trans (hstep.keeps ih.1 (last.2 own hown))⟩
      · rw [hsame]
        exact ih

theorem Step.local (last : Step settings externals exchange label next)
    (hsound : exchange.Sound settings) : Local (exchange, label, next) := by
  cases last with
  | apply resultMsg stray existing op rest answer others running answers unknown =>
      change if stray = true then _ else _
      rcases hsound.apply_saves answer running with hsame |
        ⟨experiment, hsave, hfresh, -, hkey⟩
      · split_ifs
        · exact hsame
        · exact fun experimentId _ => congrArg (fun store => store.get experimentId) hsame
      · rw [if_neg (by rw [hfresh]; exact Bool.false_ne_true)]
        intro experimentId hother
        change (exchange.store.after op answer).get experimentId = _
        rw [hsave]
        refine Api.InMemoryExperimentStore.get_save_of_ne _ _ _ fun hid => hother ?_
        rw [hid]
        exact hkey
  | perform => trivial
  | submit | respond | receive | stray | applied | broker => rfl

-- Every reachable store, and every step that a result message makes.
theorem run_recorded {transitions : List Transition}
    (run : Run (Traced (Step settings externals)) {} transitions exchange) :
    exchange.Recorded ∧
    (∀ transition ∈ transitions, ∀ first, Opens transition first →
      ∃ experiment, exchange.store.get first.id = some experiment ∧
        experiment.identity = first.identity) ∧
    ∀ transition ∈ transitions, Local transition := by
  have hrun : exchange.Sound settings ∧
      (∀ transition ∈ transitions, transition.2.2.store.Extends exchange.store) ∧
      ∀ transition ∈ transitions, Local transition := by
    induction run with
    | start => exact ⟨sound_empty settings, by simp, by simp⟩
    | @step transitions state next transition run last ih =>
        obtain ⟨hsound, hextends, hlocal⟩ := ih
        obtain ⟨before, label, after⟩ := transition
        obtain ⟨rfl, rfl, hstep⟩ := last
        have hgrows := hstep.extends hsound
        refine ⟨hstep.sound hsound, fun transition hmem => ?_, fun transition hmem => ?_⟩
        · rcases List.mem_append.mp hmem with hold | hnew
          · exact (hextends transition hold).trans hgrows
          · rw [List.mem_singleton.mp hnew]
            exact .refl _
        · rcases List.mem_append.mp hmem with hold | hnew
          · exact hlocal transition hold
          · rw [List.mem_singleton.mp hnew]
            exact hstep.local hsound
  obtain ⟨hsound, hextends, hlocal⟩ := hrun
  exact ⟨hsound.recorded, fun transition hmem first hopens =>
    hextends transition hmem first.id first hopens.2, hlocal⟩

-- Python's eval, on expressions that nothing satisfies.
def neverTrue : Externals :=
  { (default : Externals) with evalBooleanExpression := fun _ _ => .ok false }

-- A worker's result for e1 is applied, while the task of e2 cannot be queued and a result comes
-- for an experiment that nobody knows.
theorem run_recorded_turns : ∃ transitions exchange,
    Run (Traced (Step {} neverTrue)) {} transitions exchange ∧
    (exchange.store.get "e1").map (fun experiment => experiment.status) = some .completed ∧
    (exchange.store.get "e2").map (fun experiment => experiment.status) = some .failed ∧
    exchange.Recorded ∧
    (∀ transition ∈ transitions, ∀ first, Opens transition first →
      ∃ experiment, exchange.store.get first.id = some experiment ∧
        experiment.identity = first.identity) ∧
    ∀ transition ∈ transitions, Local transition := by
  let request : Api.ExperimentRequest := .satGrover
    { variableNames := ["x"], expression := "x & ~x", variableNames_bounds := by decide,
      shots_bounds := by decide }
  let other : Api.ExperimentRequest := .grover ⟨["11"], 1024, by decide, by decide⟩
  let refused : Outcome := .raised (Exc.runtimeError "connection refused") false
  let unknown : ExperimentResultMessage := { experimentId := .str "e3", status := .str "failed" }
  have hsubmit : Run (Step {} neverTrue) {} _ _ := .single (.submit {} request)
  have hid := hsubmit.step (.perform _ _ .uuid4 _ "e1" 0 rfl List.not_mem_nil)
  have hnow := hid.step (.perform _ _ .utcnow _ (0 : Int) 0 rfl trivial)
  have hsave := hnow.step (.perform _ _ (.storeSave _) _ Outcome.returned 0 rfl trivial)
  have hpublish := hsave.step (.perform _ _ (.publishTask _ _) _ Outcome.returned 0 rfl trivial)
  have hrespond := hpublish.step (.respond _ _ _ 0 rfl)
  have hdeliver := hrespond.step (.broker _ _ _ (by simp)
    (.deliver _ ⟨{ body := _ }, false, 0⟩ 0 0 rfl))
  have henter := hdeliver.step (.broker _ _ _ (by simp) (.perform _ _ _ .handleMessage _ () 0 rfl))
  have hother := henter.step (.submit _ other)
  have hotherId := hother.step
    (.perform _ _ .uuid4 _ "e2" 0 rfl (show "e2" ∉ ["e1"] by decide))
  have hotherNow := hotherId.step (.perform _ _ .utcnow _ (1 : Int) 0 rfl trivial)
  have hotherSave := hotherNow.step (.perform _ _ (.storeSave _) _ Outcome.returned 0 rfl trivial)
  have hstray := hotherSave.step (.stray _ unknown)
  have hmissing := hstray.step (.apply _ unknown true none (.storeGet (.str "e3")) _ (.ok none) 0 rfl
    (.inl rfl) fun _ => .inr nofun)
  have hignored := hmissing.step (.applied _ unknown true _ _ 0 rfl)
  have hreport := hignored.step (.broker _ _ _ (by simp)
    (.perform _ _ _ (.publish _ _) _ Outcome.returned 0 rfl))
  have hreceive := hreport.step (.receive _ _ _ (List.mem_singleton_self _) rfl)
  have hread := hreceive.step (.apply _ _ false none (.storeGet _) _ _ 0 rfl (.inl rfl) (by simp))
  have hrefused := hread.step (.perform _ _ (.publishTask _ _) _ refused 0 rfl trivial)
  have hclock := hrefused.step (.apply _ _ false _ .utcnow _ (2 : Int) 0 rfl trivial (by simp))
  have hlater := hclock.step (.perform _ _ .utcnow _ (3 : Int) 0 rfl trivial)
  have hdone := hlater.step
    (.apply _ _ false _ (.storeSave _) _ Outcome.returned 0 rfl trivial (by simp))
  have hfailed := hdone.step (.perform _ _ (.storeSave _) _ Outcome.returned 0 rfl trivial)
  obtain ⟨transitions, run, -⟩ := hfailed.traced
  exact ⟨transitions, _, run, rfl, rfl, run_recorded run⟩

end Exchange

end QuantumPlatform

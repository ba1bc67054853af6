import QuantumPlatform.Core.Jobs

namespace QuantumPlatform.Core

open Process Python

namespace JobStatus.Moves

variable {status next : JobStatus}

theorem final (h : status.Moves next) (hover : status.Over) : next = status := by
  rcases hover with rfl | rfl | rfl <;> cases h <;> rfl

end JobStatus.Moves

section discipline

variable {backend : JobBackend}

theorem Job.Follows.of_moves {job next : Job backend}
    (h : job.record.status.Moves next.record.status) : job.Follows next :=
  ⟨h, h.final⟩

theorem Job.Follows.refl (job : Job backend) : job.Follows job := .of_moves (.stay _)

-- What has to be known of a backend: an invariant of its jobs that says they can
-- be answered, and that every step keeps while it moves the status lawfully. Its
-- background tasks may only be trusted with the jobs in `careful`.
structure JobBackend.Disciplined (backend : JobBackend) (inv careful : Job backend → Prop) :
    Prop where
  submitted : ∀ circuit, inv (.submitted circuit)
  resumed : ∀ job jobId point answer, inv job → careful job → job.task = some point →
    inv (job.resume jobId point answer) ∧
      job.record.status.Moves (job.resume jobId point answer).record.status
  cancelled : ∀ job, inv job → inv job.cancel ∧ job.record.status.Moves job.cancel.record.status
  answerable : ∀ job jobId, inv job → job.Answerable jobId

variable {inv careful : Job backend → Prop} {jobs later : Jobs backend} {label : Jobs.Label}

-- The background task that a transition runs may be trusted with its job.
def Jobs.Careful (careful : Job backend → Prop) (transition : Transition backend) : Prop :=
  ∀ jobId job, transition.2.1 = .resume jobId → transition.1.get? jobId = some job → careful job

-- Only the job that a step is about changes.
theorem Jobs.follows_set {jobId : String} {job next : Job backend}
    (hjob : jobs.get? jobId = some job) (hfollows : job.Follows next) :
    ∀ other found, jobs.get? other = some found →
      ∃ kept, (jobs.set jobId next).get? other = some kept ∧ found.Follows kept := by
  intro other found hfound
  rw [Dict.get?_set]
  split_ifs with hother
  · subst hother
    obtain rfl := Option.some.inj (hjob.symm.trans hfound)
    exact ⟨next, rfl, hfollows⟩
  · exact ⟨found, hfound, .refl found⟩

theorem Jobs.inv_set {jobId : String} {next : Job backend}
    (hinv : ∀ other found, jobs.get? other = some found → inv found) (hnext : inv next) :
    ∀ other found, (jobs.set jobId next).get? other = some found → inv found := by
  intro other found hfound
  rw [Dict.get?_set] at hfound
  split_ifs at hfound
  · exact Option.some.inj hfound ▸ hnext
  · exact hinv other found hfound

theorem JobBackend.Disciplined.step (h : backend.Disciplined inv careful)
    (hstep : Jobs.Step jobs label later) (hcareful : Jobs.Careful careful (jobs, label, later))
    (hinv : ∀ jobId job, jobs.get? jobId = some job → inv job) :
    (∀ jobId job, later.get? jobId = some job → inv job) ∧
      ∀ jobId job, jobs.get? jobId = some job →
        ∃ next, later.get? jobId = some next ∧ job.Follows next := by
  have hsame : ∀ jobId job, jobs.get? jobId = some job →
      ∃ next, jobs.get? jobId = some next ∧ job.Follows next :=
    fun _ job hjob => ⟨job, hjob, .refl job⟩
  cases hstep with
  | submit jobId circuit hfresh =>
      refine ⟨Jobs.inv_set hinv (h.submitted circuit), fun other job hjob => ?_⟩
      have hother : other ≠ jobId := by
        rintro rfl
        rw [hfresh] at hjob
        cases hjob
      exact ⟨job, by rw [Dict.get?_set_of_ne _ _ _ _ hother, hjob], .refl job⟩
  | resume jobId job point answer hjob htask =>
      obtain ⟨hnext, hmoves⟩ := h.resumed job jobId point answer (hinv jobId job hjob)
        (hcareful jobId job rfl hjob) htask
      exact ⟨Jobs.inv_set hinv hnext, Jobs.follows_set hjob (.of_moves hmoves)⟩
  | pollStatus jobId => exact ⟨hinv, hsame⟩
  | fetchResult jobId => exact ⟨hinv, hsame⟩
  | cancel jobId =>
      unfold Jobs.cancel
      cases hjob : jobs.get? jobId with
      | none => exact ⟨hinv, hsame⟩
      | some job =>
          obtain ⟨hnext, hmoves⟩ := h.cancelled job (hinv jobId job hjob)
          exact ⟨Jobs.inv_set hinv hnext, Jobs.follows_set hjob (.of_moves hmoves)⟩

-- Whatever happens to the jobs of a backend, while its background tasks are only
-- run on jobs they may be trusted with.
theorem JobBackend.Disciplined.lifecycle (h : backend.Disciplined inv careful)
    {transitions : List (Transition backend)}
    (run : Run (Traced Jobs.Step) (∅ : Jobs backend) transitions jobs)
    (hcareful : ∀ transition ∈ transitions, Jobs.Careful careful transition) :
    Lifecycle transitions := by
  have hkeeps : ∀ (state : Jobs backend) (transition : Transition backend) (next : Jobs backend),
      (∀ jobId job, state.get? jobId = some job → inv job) →
      Jobs.Careful careful transition → Traced Jobs.Step state transition next →
      ∀ jobId job, next.get? jobId = some job → inv job := by
    rintro _ ⟨before, label, after⟩ _ hinv htransition ⟨rfl, rfl, hstep⟩
    exact (h.step hstep htransition hinv).1
  have hlawful : ∀ (state : Jobs backend) (transition : Transition backend) (next : Jobs backend),
      (∀ jobId job, state.get? jobId = some job → inv job) →
      Traced Jobs.Step state transition next → Jobs.Careful careful transition →
      Lifecycle [transition] := by
    rintro _ ⟨before, label, after⟩ _ hinv ⟨rfl, rfl, hstep⟩ htransition
    obtain ⟨hnext, hfollows⟩ := h.step hstep htransition hinv
    refine ⟨fun transition hmem => ?_, fun transition hmem => ?_⟩
    · obtain rfl := List.mem_singleton.mp hmem
      exact hfollows
    · obtain rfl := List.mem_singleton.mp hmem
      exact fun jobId job hjob => h.answerable job jobId (hnext jobId job hjob)
  have heach := Run.steps hkeeps hlawful run hcareful fun jobId job hjob => by
    rw [Dict.get?_empty] at hjob
    cases hjob
  refine ⟨fun transition hmem => ?_, fun transition hmem => ?_⟩
  · exact (heach transition hmem (hcareful transition hmem)).follows _ (List.mem_singleton_self _)
  · exact (heach transition hmem (hcareful transition hmem)).answerable _
      (List.mem_singleton_self _)

end discipline

theorem JobRecord.fetch_error {record : JobRecord} {jobId : String}
    {found : JobResult → Except Exc ExperimentResult} {exc : Exc}
    (hresult : record.status = .completed ∨ record.status = .failed →
      record.result.isSome = true)
    (hfound : ∀ result, found result = .error exc → exc.cls ≠ .assertionError)
    (h : record.fetch jobId found = .error exc) : exc.cls ≠ .assertionError := by
  unfold JobRecord.fetch at h
  split_ifs at h with hover
  · rw [← Except.error.inj h]
    exact nofun
  · have hsome : record.result.isSome = true := hresult (by tauto)
    obtain ⟨result, hsaved⟩ := Option.isSome_iff_exists.mp hsome
    rw [hsaved] at h
    exact hfound result h

theorem unfinished {status : JobStatus} {result : Option JobResult}
    (h : status = .queued ∨ status = .running ∨ status = .cancelled) :
    status = .completed ∨ status = .failed → result.isSome = true := by
  rcases h with rfl | rfl | rfl <;> simp

section aer

variable {method : String} {excRepr : Exc → String}

-- Where the background task of an Aer job can be, given the status of the job.
structure AerBackend.Consistent (job : Job (aerBackend method excRepr)) : Prop where
  result : job.record.status = .completed ∨ job.record.status = .failed →
    job.record.result.isSome = true
  place : match job.task with
    | some .scheduled => job.record.status = .queued ∨ job.record.status = .cancelled
    | some .simulating => job.record.status = .running
    | none => job.record.status ≠ .queued

-- The first step of a background task finds its job still queued.
def AerBackend.Punctual (job : Job (aerBackend method excRepr)) : Prop :=
  ¬ (job.task = some .scheduled ∧ job.record.status = .cancelled)

theorem aerBackend_resumed (job : Job (aerBackend method excRepr)) (jobId : String)
    (point : AerBackend.Await) (answer : AerBackend.Answer point)
    (hjob : AerBackend.Consistent job) (hpunctual : AerBackend.Punctual job)
    (htask : job.task = some point) :
    AerBackend.Consistent (job.resume jobId point answer) ∧
      job.record.status.Moves (job.resume jobId point answer).record.status := by
  obtain ⟨⟨circuit, status, result⟩, task⟩ := job
  obtain ⟨hresult, hplace⟩ := hjob
  obtain rfl : task = some point := htask
  cases point with
  | scheduled =>
      obtain rfl : status = .queued := hplace.resolve_right fun h => hpunctual ⟨rfl, h⟩
      exact ⟨⟨unfinished (.inr (.inl rfl)), rfl⟩, .start⟩
  | simulating =>
      obtain rfl : status = .running := hplace
      rcases answer with exc | counts
      · by_cases hexc : exc.isException = true
        · simp only [Job.resume, aerBackend, AerBackend.runJob, if_pos hexc]
          exact ⟨⟨fun _ => rfl, nofun⟩, .fail⟩
        · simp only [Job.resume, aerBackend, AerBackend.runJob, if_neg hexc]
          exact ⟨⟨hresult, nofun⟩, .stay _⟩
      · exact ⟨⟨fun _ => rfl, nofun⟩, .complete⟩

theorem aerBackend_cancelled (job : Job (aerBackend method excRepr))
    (hjob : AerBackend.Consistent job) :
    AerBackend.Consistent job.cancel ∧ job.record.status.Moves job.cancel.record.status := by
  obtain ⟨⟨circuit, status, result⟩, task⟩ := job
  obtain ⟨hresult, hplace⟩ := hjob
  by_cases hqueued : status = .queued
  · subst hqueued
    refine ⟨⟨unfinished (.inr (.inr rfl)), ?_⟩, .cancelQueued⟩
    match task with
    | some .scheduled => exact .inr rfl
    | some .simulating => exact nomatch (hplace : JobStatus.queued = .running)
    | none => exact nofun
  · simp only [Job.cancel, aerBackend, AerBackend.cancel, if_neg hqueued]
    exact ⟨⟨hresult, hplace⟩, .stay _⟩

theorem aerBackend_disciplined :
    (aerBackend method excRepr).Disciplined AerBackend.Consistent AerBackend.Punctual where
  submitted circuit := ⟨unfinished (.inl rfl), .inl rfl⟩
  resumed := aerBackend_resumed
  cancelled := aerBackend_cancelled
  answerable job jobId hjob :=
    ⟨hjob.result, fun _ h => JobRecord.fetch_error hjob.result (fun _ h => by cases h) h⟩

end aer

section mock_hw

variable {hardFailureRate transientFailureRate : ℚ}

-- Where the background task of a simulated hardware job can be.
structure MockHardwareBackend.Consistent
    (job : Job (mockHardwareBackend hardFailureRate transientFailureRate)) : Prop where
  result : job.record.status = .completed ∨ job.record.status = .failed →
    job.record.result.isSome = true
  place : match job.task with
    | some .running => job.record.status = .running ∨ job.record.status = .cancelled
    | some _ => job.record.status = .queued ∨ job.record.status = .cancelled
    | none => job.record.status.Over

theorem rolled_over (jobId : String) (circuit : TypedCircuit) (roll : ℚ) (bits : Fin 4 → Nat) :
    (MockHardwareBackend.rolled hardFailureRate transientFailureRate jobId circuit roll
        bits).status = .completed ∨
      (MockHardwareBackend.rolled hardFailureRate transientFailureRate jobId circuit roll
        bits).status = .failed := by
  unfold MockHardwareBackend.rolled
  split_ifs
  · exact .inr rfl
  · exact .inr rfl
  · exact .inl rfl

theorem mockHardwareBackend_resumed
    (job : Job (mockHardwareBackend hardFailureRate transientFailureRate)) (jobId : String)
    (point : MockHardwareBackend.Await) (answer : MockHardwareBackend.Answer point)
    (hjob : MockHardwareBackend.Consistent job) (htask : job.task = some point) :
    MockHardwareBackend.Consistent (job.resume jobId point answer) ∧
      job.record.status.Moves (job.resume jobId point answer).record.status := by
  obtain ⟨⟨circuit, status, result⟩, task⟩ := job
  obtain ⟨hresult, hplace⟩ := hjob
  obtain rfl : task = some point := htask
  cases point with
  | scheduled => exact ⟨⟨hresult, hplace⟩, .stay _⟩
  | queueing =>
      rcases hplace with hstatus | hstatus
      · obtain rfl : status = .queued := hstatus
        exact ⟨⟨unfinished (.inr (.inl rfl)), .inl rfl⟩, .start⟩
      · obtain rfl : status = .cancelled := hstatus
        exact ⟨⟨hresult, .inr (.inr rfl)⟩, .stay _⟩
  | running =>
      obtain ⟨roll, bits⟩ := answer
      rcases hplace with hstatus | hstatus
      · obtain rfl : status = .running := hstatus
        have hrolled := @rolled_over hardFailureRate transientFailureRate jobId circuit roll bits
        refine ⟨⟨fun _ => rfl, hrolled.imp_right .inl⟩, ?_⟩
        change JobStatus.Moves .running (MockHardwareBackend.rolled _ _ _ _ _ _).status
        rcases hrolled with h | h
        · rw [h]
          exact .complete
        · rw [h]
          exact .fail
      · obtain rfl : status = .cancelled := hstatus
        exact ⟨⟨hresult, .inr (.inr rfl)⟩, .stay _⟩

theorem mockHardwareBackend_cancelled
    (job : Job (mockHardwareBackend hardFailureRate transientFailureRate))
    (hjob : MockHardwareBackend.Consistent job) :
    MockHardwareBackend.Consistent job.cancel ∧
      job.record.status.Moves job.cancel.record.status := by
  obtain ⟨⟨circuit, status, result⟩, task⟩ := job
  obtain ⟨hresult, hplace⟩ := hjob
  have hcancelled : MockHardwareBackend.Consistent
      (⟨⟨circuit, .cancelled, result⟩, task⟩ :
        Job (mockHardwareBackend hardFailureRate transientFailureRate)) := by
    refine ⟨unfinished (.inr (.inr rfl)), ?_⟩
    match task with
    | some .scheduled => exact .inr rfl
    | some .queueing => exact .inr rfl
    | some .running => exact .inr rfl
    | none => exact .inr (.inr rfl)
  by_cases hlive : status = .queued ∨ status = .running
  · simp only [Job.cancel, mockHardwareBackend, MockHardwareBackend.cancel, if_pos hlive]
    refine ⟨hcancelled, ?_⟩
    rcases hlive with rfl | rfl
    · exact .cancelQueued
    · exact .cancelRunning
  · simp only [Job.cancel, mockHardwareBackend, MockHardwareBackend.cancel, if_neg hlive]
    exact ⟨⟨hresult, hplace⟩, .stay _⟩

theorem mockHardwareBackend_disciplined :
    (mockHardwareBackend hardFailureRate transientFailureRate).Disciplined
      MockHardwareBackend.Consistent fun _ => True where
  submitted circuit := ⟨unfinished (.inl rfl), .inl rfl⟩
  resumed job jobId point answer hjob _ htask :=
    mockHardwareBackend_resumed job jobId point answer hjob htask
  cancelled := mockHardwareBackend_cancelled
  answerable job jobId hjob := by
    refine ⟨hjob.result, fun _ h => JobRecord.fetch_error hjob.result (fun result h => ?_) h⟩
    split_ifs at h
    rw [← Except.error.inj h]
    exact nofun

end mock_hw

section lifecycle

variable {method : String} {excRepr : Exc → String}

-- A transition that starts a cancelled job brings it back to life.
theorem not_follows_of_startsCancelled {transition : Transition (aerBackend method excRepr)}
    (hstep : Jobs.Step transition.1 transition.2.1 transition.2.2)
    (hstarts : StartsCancelled transition) :
    ∃ jobId job, transition.1.get? jobId = some job ∧
      ∀ next, transition.2.2.get? jobId = some next → ¬ job.Follows next := by
  obtain ⟨jobs, label, later⟩ := transition
  obtain ⟨jobId, job, rfl, hjob, htask, hcancelled⟩ := hstarts
  refine ⟨jobId, job, hjob, fun next hnext hfollows => ?_⟩
  change Jobs.Step jobs (.resume jobId) later at hstep
  cases hstep with
  | resume jobId found point answer hfound hpoint =>
      obtain rfl := Option.some.inj (hfound.symm.trans hjob)
      obtain rfl : point = AerBackend.Await.scheduled :=
        Option.some.inj (hpoint.symm.trans htask)
      rw [Dict.get?_set_self] at hnext
      have hrunning : next.record.status = .running := by
        rw [← Option.some.inj hnext]
        rfl
      have hkept := hfollows.final (.inr (.inr hcancelled))
      rw [hrunning, hcancelled] at hkept
      cases hkept

theorem lifecycle_punctual {transitions : List (Transition (aerBackend method excRepr))}
    {jobs : Jobs (aerBackend method excRepr)} (run : Run (Traced Jobs.Step) ∅ transitions jobs)
    (hlifecycle : Lifecycle transitions) :
    ∀ transition ∈ transitions, ¬ StartsCancelled transition := by
  intro transition hmem hstarts
  obtain ⟨jobId, job, hjob, hbroken⟩ :=
    not_follows_of_startsCancelled (run.traced_step transition hmem) hstarts
  obtain ⟨next, hnext, hfollows⟩ := hlifecycle.follows transition hmem jobId job hjob
  exact hbroken next hnext hfollows

variable (method excRepr) (hardFailureRate transientFailureRate : ℚ)

-- A simulated hardware job always keeps to its lifecycle. An Aer job does unless
-- it is cancelled before the first step of its background task, and that step
-- comes nevertheless.
theorem backends_lifecycle :
    (∀ (transitions : List (Transition (aerBackend method excRepr))) jobs,
      Run (Traced Jobs.Step) ∅ transitions jobs →
      (Lifecycle transitions ↔ ∀ transition ∈ transitions, ¬ StartsCancelled transition)) ∧
    ∀ (transitions : List (Transition (mockHardwareBackend hardFailureRate
        transientFailureRate))) jobs,
      Run (Traced Jobs.Step) ∅ transitions jobs → Lifecycle transitions := by
  refine ⟨fun transitions jobs run => ⟨lifecycle_punctual run, fun hpunctual => ?_⟩,
    fun transitions jobs run => ?_⟩
  · exact aerBackend_disciplined.lifecycle run fun transition hmem jobId job hlabel hjob h =>
      hpunctual transition hmem ⟨jobId, job, hlabel, hjob, h⟩
  · exact mockHardwareBackend_disciplined.lifecycle run fun _ _ _ _ _ _ => trivial

-- A circuit of one shot on one qubit.
def oneShot : TypedCircuit := ⟨⟨"one-shot", 1, ⟨"", 1, [.measureAll]⟩, .int 1⟩, 1, rfl⟩

-- A job that is cancelled while the backend has not begun with it.
theorem run_startsCancelled : ∃ transitions jobs,
    Run (Traced Jobs.Step) (∅ : Jobs (aerBackend "automatic" Exc.message)) transitions jobs ∧
    transitions.map (fun transition => transition.2.1) =
      [.submit "job", .cancel "job", .resume "job"] ∧
    ∃ transition ∈ transitions, StartsCancelled transition := by
  have hsubmitted : Run (Traced Jobs.Step) (∅ : Jobs (aerBackend "automatic" Exc.message)) _ _ :=
    .single (.of_step (.submit ∅ "job" oneShot rfl))
  have hcancelled : Run (Traced Jobs.Step) (∅ : Jobs (aerBackend "automatic" Exc.message)) _ _ :=
    hsubmitted.step (.of_step (.cancel _ "job"))
  have hstarted : Run (Traced Jobs.Step) (∅ : Jobs (aerBackend "automatic" Exc.message)) _ _ :=
    hcancelled.step (.of_step (.resume _ "job" _ AerBackend.Await.scheduled () rfl rfl))
  refine ⟨_, _, hstarted, rfl, _, List.mem_append_right _ (List.mem_singleton_self _), ?_⟩
  exact ⟨"job", _, rfl, rfl, rfl, rfl⟩

-- The claimed lifecycle fails there.
theorem not_backends_lifecycle :
    ¬ ∀ (transitions : List (Transition (aerBackend "automatic" Exc.message))) jobs,
      Run (Traced Jobs.Step) ∅ transitions jobs → Lifecycle transitions := by
  intro hlifecycle
  obtain ⟨transitions, jobs, run, -, transition, hmem, hstarts⟩ := run_startsCancelled
  exact lifecycle_punctual run (hlifecycle transitions jobs run) transition hmem hstarts

-- A simulated hardware job that is cancelled while it runs, and an Aer job that is
-- cancelled when its simulation has begun.
theorem backends_lifecycle_cancelled :
    (∃ transitions jobs,
      Run (Traced Jobs.Step) (∅ : Jobs (aerBackend "automatic" Exc.message)) transitions jobs ∧
      transitions.map (fun transition => transition.2.1) =
        [.submit "job", .resume "job", .cancel "job", .resume "job"] ∧
      Lifecycle transitions) ∧
    ∃ transitions jobs,
      Run (Traced Jobs.Step) (∅ : Jobs (mockHardwareBackend 0 0)) transitions jobs ∧
      transitions.map (fun transition => transition.2.1) =
        [.submit "job", .resume "job", .resume "job", .cancel "job", .resume "job"] ∧
      Lifecycle transitions := by
  constructor
  · have hsubmitted : Run (Traced Jobs.Step) (∅ : Jobs (aerBackend "automatic" Exc.message)) _ _ :=
      .single (.of_step (.submit ∅ "job" oneShot rfl))
    have hstarted : Run (Traced Jobs.Step) (∅ : Jobs (aerBackend "automatic" Exc.message)) _ _ :=
      hsubmitted.step (.of_step (.resume _ "job" _ AerBackend.Await.scheduled () rfl rfl))
    have hcancelled : Run (Traced Jobs.Step) (∅ : Jobs (aerBackend "automatic" Exc.message)) _ _ :=
      hstarted.step (.of_step (.cancel _ "job"))
    have hsimulated : Run (Traced Jobs.Step) (∅ : Jobs (aerBackend "automatic" Exc.message)) _ _ :=
      hcancelled.step (.of_step (.resume _ "job" _ AerBackend.Await.simulating
        (Except.ok (Dict.ofList [("0", 1)])) rfl rfl))
    refine ⟨_, _, hsimulated, rfl, ((backends_lifecycle _ _ 0 0).1 _ _ hsimulated).mpr ?_⟩
    rintro transition hmem ⟨jobId, job, hlabel, hjob, htask, hcancelled⟩
    simp only [List.nil_append, List.cons_append, List.mem_cons, List.not_mem_nil, or_false]
      at hmem
    rcases hmem with rfl | rfl | rfl | rfl
    · cases hlabel
    · cases hlabel
      cases hjob
      cases hcancelled
    · cases hlabel
    · cases hlabel
      cases hjob
      cases htask
  · have hsubmitted : Run (Traced Jobs.Step) (∅ : Jobs (mockHardwareBackend 0 0)) _ _ :=
      .single (.of_step (.submit ∅ "job" oneShot rfl))
    have hqueued : Run (Traced Jobs.Step) (∅ : Jobs (mockHardwareBackend 0 0)) _ _ :=
      hsubmitted.step (.of_step (.resume _ "job" _ MockHardwareBackend.Await.scheduled () rfl rfl))
    have hrunning : Run (Traced Jobs.Step) (∅ : Jobs (mockHardwareBackend 0 0)) _ _ :=
      hqueued.step (.of_step (.resume _ "job" _ MockHardwareBackend.Await.queueing () rfl rfl))
    have hcancelled : Run (Traced Jobs.Step) (∅ : Jobs (mockHardwareBackend 0 0)) _ _ :=
      hrunning.step (.of_step (.cancel _ "job"))
    have hended : Run (Traced Jobs.Step) (∅ : Jobs (mockHardwareBackend 0 0)) _ _ :=
      hcancelled.step (.of_step (.resume _ "job" _ MockHardwareBackend.Await.running
        (1 / 2, fun _ => 0) rfl rfl))
    exact ⟨_, _, hended, rfl, (backends_lifecycle "" Exc.message _ _).2 _ _ hended⟩

end lifecycle

end QuantumPlatform.Core

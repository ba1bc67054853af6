import QuantumPlatform.Orchestrator.Failures
import QuantumPlatform.Orchestrator.Log.Theorems
import QuantumPlatform.Orchestrator.Worker.Lemmas

namespace QuantumPlatform.Orchestrator

open Process Python QuantumPlatform.Core

variable {asserts : Bool} {log later : Log}

section verdicts

theorem Log.failuresReported_of_silent (hreported : log.reported = []) : log.FailuresReported := by
  constructor
  · intro _ resultMessage hmem
    rw [hreported] at hmem
    cases hmem
  · rintro ⟨resultMessage, hmem, -⟩
    rw [hreported] at hmem
    cases hmem

theorem Log.Idle.judged (hidle : log.Idle) : log.Judged asserts := by
  have hnone : ∀ {prop : JobHandle × ExperimentResult → Prop},
      ¬ ∃ entry ∈ log.fetched, prop entry := by
    rintro _ ⟨entry, hmem, -⟩
    rw [hidle.2] at hmem
    cases hmem
  refine ⟨fun _ => ⟨fun hfailed => absurd hfailed hnone, fun _ handle hmem => ?_⟩,
    fun _ hfailed => absurd hfailed hnone, fun _ _ entry hmem => ?_⟩
  · rw [hidle.1] at hmem
    cases hmem
  · exact absurd ⟨entry, hmem, rfl⟩ (@hnone (· = entry))

theorem Log.Single.covered (hsingle : log.Single) : log.Covered := by
  intro handle hmem
  rcases hsingle with ⟨hnone, -⟩ | ⟨only, result, hsubmitted, hfetched⟩
  · rw [hnone] at hmem
    cases hmem
  · rw [hsubmitted] at hmem
    rw [List.mem_singleton.mp hmem, hfetched]
    exact ⟨result, List.mem_singleton_self _⟩

-- What counts has counted: no delivery is excused.
theorem Log.Counted.delivered (hcounted : log.Counted) (hcomplete : log.Complete asserts) :
    ∀ entry ∈ log.fetched, Delivered entry.2 := by
  intro entry hmem
  rcases hcomplete entry hmem with hdelivered | ⟨-, hnone⟩
  · exact hdelivered
  · exact absurd hnone (hcounted entry hmem)

theorem Log.Counted.complete (hcounted : log.Counted)
    (hended : ∀ entry ∈ log.fetched, Ended entry.2) : log.Complete asserts := by
  intro entry hmem
  rcases hended entry hmem with hcompleted | ⟨-, hnone⟩
  · exact .inl ⟨hcompleted, hcounted entry hmem⟩
  · exact absurd hnone (hcounted entry hmem)

-- A task that asserts counts excuses every result without them.
theorem Log.complete_of_asserts (hended : ∀ entry ∈ log.fetched, Ended entry.2) :
    log.Complete true := by
  intro entry hmem
  by_cases hnone : entry.2.counts = none
  · exact .inr ⟨rfl, hnone⟩
  · rcases hended entry hmem with hcompleted | ⟨-, hcounts⟩
    · exact .inl ⟨hcompleted, hnone⟩
    · exact absurd hcounts hnone

theorem no_failure (hdelivered : ∀ entry ∈ log.fetched, Delivered entry.2) :
    ¬ ∃ entry ∈ log.fetched, entry.2.status = .failed := by
  rintro ⟨entry, hmem, hfailed⟩
  have hcompleted := (hdelivered entry hmem).1
  rw [hfailed] at hcompleted
  cases hcompleted

theorem Log.Covered.failuresReported (hcovered : log.Covered)
    (hdelivered : ∀ entry ∈ log.fetched, Delivered entry.2) : log.FailuresReported := by
  refine ⟨fun hfailed => absurd hfailed (no_failure hdelivered), fun _ handle hmem => ?_⟩
  obtain ⟨result, hfetched⟩ := hcovered handle hmem
  exact ⟨result, hfetched, hdelivered _ hfetched⟩

-- The three ends of execute_task in handle_message: a completed result, a
-- failed one, and none at all.
theorem Log.judged_completed {value : Json} {resultMessage : ExperimentResultMessage}
    (hexecuted : log.Executed asserts (.ok value))
    (hstatus : resultMessage.status = .str "completed") :
    ({ log with reported := log.reported ++ [resultMessage] } : Log).Judged asserts := by
  obtain ⟨-, hjobs⟩ := hexecuted
  have hall : log.Complete asserts →
      log.Covered ∧ ∀ entry ∈ log.fetched, Delivered entry.2 := by
    intro hcomplete
    cases asserts with
    | true => exact ⟨hjobs.1, hjobs.2.delivered hcomplete⟩
    | false =>
        refine ⟨Log.Single.covered hjobs, fun entry hmem => ?_⟩
        exact (hcomplete entry hmem).resolve_right fun hexcused => by cases hexcused.1
  refine ⟨fun hcomplete => ?_, fun hcomplete hfailed => ?_, fun hended hreported => ?_⟩
  · obtain ⟨hcovered, hdelivered⟩ := hall hcomplete
    exact Log.Covered.failuresReported hcovered hdelivered
  · exact absurd hfailed (no_failure (hall hcomplete).2)
  · cases asserts with
    | true => exact Log.complete_of_asserts hended
    | false =>
        intro entry hmem
        have hmem : entry ∈ log.fetched := hmem
        have hdelivered := hreported.completed
          ⟨resultMessage, List.mem_append_right _ (List.mem_singleton_self _), hstatus⟩
        rcases (hjobs : log.Single) with ⟨-, hnone⟩ | ⟨handle, result, hsubmitted, hfetched⟩
        · rw [hnone] at hmem
          cases hmem
        · rw [hfetched] at hmem
          obtain rfl := List.mem_singleton.mp hmem
          obtain ⟨fetched, hfound, hdone⟩ := hdelivered handle (by
            change handle ∈ log.submitted
            rw [hsubmitted]
            exact List.mem_singleton_self _)
          have hfound : (handle, fetched) ∈ log.fetched := hfound
          rw [hfetched, List.mem_singleton] at hfound
          cases hfound
          exact .inl hdone

theorem Log.judged_failed {exc : Exc} {resultMessage : ExperimentResultMessage}
    (hexecuted : log.Executed asserts (.error exc))
    (hstatus : resultMessage.status = .str "failed") :
    ({ log with reported := log.reported ++ [resultMessage] } : Log).Judged asserts := by
  obtain ⟨hsilent, hjobs⟩ := hexecuted
  have hreported : log.reported ++ [resultMessage] = [resultMessage] := by
    rw [hsilent, List.nil_append]
  refine ⟨fun _ => ⟨fun _ message hmem => ?_, ?_⟩, fun _ _ => ⟨resultMessage, hreported, hstatus⟩,
    fun hended _ => ?_⟩
  · change message ∈ log.reported ++ [resultMessage] at hmem
    rw [hreported] at hmem
    rw [List.mem_singleton.mp hmem, hstatus]
  · rintro ⟨message, hmem, hcompleted⟩
    change message ∈ log.reported ++ [resultMessage] at hmem
    rw [hreported] at hmem
    rw [List.mem_singleton.mp hmem, hstatus] at hcompleted
    exact absurd (Json.str.inj hcompleted) (by decide)
  · rcases hjobs with hcounted | ⟨rfl, -⟩
    · exact Log.Counted.complete hcounted hended
    · exact Log.complete_of_asserts hended

theorem Log.judged_silent {exc : Exc} (hexecuted : log.Executed asserts (.error exc))
    (hexc : exc.isException = false) : log.Judged asserts := by
  obtain ⟨hsilent, hjobs⟩ := hexecuted
  have hcounted : log.Counted := by
    refine hjobs.resolve_right fun hraised => ?_
    rw [hexc] at hraised
    cases hraised.2
  refine ⟨fun _ => Log.failuresReported_of_silent hsilent, fun hcomplete hfailed => ?_,
    fun hended _ => hcounted.complete hended⟩
  exact absurd hfailed (no_failure (hcounted.delivered hcomplete))

theorem Log.FailuresReported.of_same (hsound : log.FailuresReported)
    (hsubmitted : later.submitted = log.submitted) (hfetched : later.fetched = log.fetched)
    (hreported : later.reported = log.reported) : later.FailuresReported := by
  constructor
  · rw [hfetched, hreported]
    exact hsound.failed
  · rw [hreported, hsubmitted, hfetched]
    exact hsound.completed

-- The verdict looks at the jobs and the reports only.
theorem Log.Judged.of_same (hjudged : log.Judged asserts)
    (hsubmitted : later.submitted = log.submitted) (hfetched : later.fetched = log.fetched)
    (hreported : later.reported = log.reported) : later.Judged asserts := by
  have hcomplete : later.Complete asserts ↔ log.Complete asserts := by
    unfold Log.Complete
    rw [hfetched]
  refine ⟨fun h => ?_, fun h => ?_, fun hended hsound => ?_⟩
  · exact (hjudged.sound (hcomplete.mp h)).of_same hsubmitted hfetched hreported
  · rw [hfetched, hreported]
    exact hjudged.told (hcomplete.mp h)
  · rw [hfetched] at hended
    exact hcomplete.mpr (hjudged.precise hended
      (hsound.of_same hsubmitted.symm hfetched.symm hreported.symm))

end verdicts

section computing

-- Computing reports nothing.
theorem Log.reported_after (op : Effect) (hop : op.Computing) (answer : op.Ans) :
    (log.after op answer).reported = log.reported := by
  cases op with
  | submit circuit => cases answer <;> simp [Log.after]
  | pollStatus handle =>
      rcases answer with exc | status
      · simp [Log.after]
      · cases status <;> simp [Log.after]
  | fetchResult handle => cases answer <;> simp [Log.after]
  | cancel handle => cases answer <;> simp [Log.after]
  | kafkaSend topic payload => exact Log.raisedBy_reported log answer
  | publish queue message => cases hop
  | declareQueue name => cases hop
  | ack => cases hop
  | calibrationGet name => cases hop
  | calibrationSave result => cases hop
  | _ => rfl

theorem judging_allowed (hreported : log.reported = []) (op : Effect) :
    (judging asserts).allowed log op :=
  fun _ => Log.failuresReported_of_silent hreported

theorem judging_computing {α : Type} {post : Log → α → Prop} {program : Program sig α}
    (hlogs : logging.Obeys post log program) (honly : program.Only Effect.Computing)
    (hreported : log.reported = []) :
    (judging asserts).Obeys (fun later value => post later value ∧ later.reported = []) log
      program := by
  refine hlogs.meet ?_ (fun _ _ _ _ => trivial) fun _ _ _ => rfl
  refine Monitor.Obeys.of_only (fun _ op hcurrent _ => judging_allowed hcurrent op) ?_ honly
    hreported
  intro current op hcurrent hop answer
  exact (Log.reported_after op hop answer).trans hcurrent

-- A wait that raises runs no job.
theorem Log.Waited.same {handle : JobHandle} {exc : Exc}
    (hwaited : log.Waited handle later (.error exc)) :
    later.submitted = log.submitted ∧ later.fetched = log.fetched := by
  rcases hwaited with ⟨-, rfl⟩ | ⟨-, rfl | rfl⟩
  · exact ⟨rfl, rfl⟩
  · exact ⟨rfl, rfl⟩
  · exact ⟨rfl, rfl⟩

end computing

section vqe

variable (env : Env)

-- A VQE run, between its jobs.
def Log.Accounted (log : Log) : Prop := log.reported = [] ∧ log.Covered ∧ log.Counted

-- A VQE run, while it waits for one.
def Log.Awaiting (log : Log) (handle : JobHandle) : Prop :=
  log.reported = [] ∧ log.Counted ∧
    ∀ other ∈ log.submitted, other = handle ∨ ∃ result, (other, result) ∈ log.fetched

theorem Log.Awaiting.fetched {handle : JobHandle} (hawaiting : log.Awaiting handle)
    (result : ExperimentResult) (hcounts : result.counts ≠ none) :
    Log.Accounted { log with fetched := log.fetched ++ [(handle, result)] } := by
  obtain ⟨hreported, hcounted, hcovered⟩ := hawaiting
  refine ⟨hreported, fun other hmem => ?_, fun entry hmem => ?_⟩
  · rcases hcovered other hmem with rfl | ⟨found, hfound⟩
    · exact ⟨result, List.mem_append_right _ (List.mem_singleton_self _)⟩
    · exact ⟨found, List.mem_append_left _ hfound⟩
  · rcases List.mem_append.mp hmem with hold | hnew
    · exact hcounted entry hold
    · rw [List.mem_singleton.mp hnew]
      exact hcounts

theorem keeping_accounted : Keeping (judging true) Log.Accounted Log.Awaiting
    (fun log exc => log.reported = [] ∧ (log.Counted ∨ exc.isException = true)) env := by
  refine ⟨fun log exc haccounted _ => ⟨haccounted.1, .inl haccounted.2.2⟩, ?_, ?_, ?_, ?_, ?_⟩
  · intro log circuit haccounted
    obtain ⟨hreported, hcovered, hcounted⟩ := haccounted
    refine ⟨judging_allowed hreported _, fun answer _ => ?_⟩
    cases answer with
    | ok handle =>
        refine ⟨hreported, hcounted, fun other hmem => ?_⟩
        rcases List.mem_append.mp hmem with hold | hnew
        · exact .inr (hcovered other hold)
        · exact .inl (List.mem_singleton.mp hnew)
    | error exc =>
        refine ⟨(Log.raised_reported log exc).trans hreported, .inl fun entry hmem => ?_⟩
        exact hcounted entry (Log.raised_fetched log exc ▸ hmem)
  · intro log topic payload haccounted
    refine ⟨judging_allowed haccounted.1 _, fun (outcome : Outcome) _ => ?_⟩
    have hlater : Log.Accounted (log.raisedBy outcome) := by
      obtain ⟨hreported, hcovered, hcounted⟩ := haccounted
      unfold Log.Accounted Log.Covered Log.Counted
      rw [Log.raisedBy_reported, Log.raisedBy_submitted, Log.raisedBy_fetched]
      exact ⟨hreported, hcovered, hcounted⟩
    cases outcome with
    | returned => exact hlater
    | raised exc stored =>
        change if exc.isException then _ else _
        split_ifs
        · exact hlater
        · exact ⟨hlater.1, .inl hlater.2.2⟩
  · intro log haccounted
    exact ⟨judging_allowed haccounted.1 _, fun _ _ => haccounted⟩
  · intro log haccounted
    exact ⟨judging_allowed haccounted.1 _, fun _ _ => haccounted⟩
  · intro log handle hawaiting
    refine (judging_computing (waitForResult_logs handle _ _ _ _) (waitForResult_only _ _ _ _ _ _ _)
      hawaiting.1).mono fun later outcome hlater => ?_
    obtain ⟨result, waiting⟩ := outcome
    obtain ⟨hwaited, hreported⟩ := hlater
    cases result with
    | ok result =>
        obtain rfl : later = _ := hwaited
        simp only
        split
        · exact ⟨hreported, .inr rfl⟩
        · exact hawaiting.fetched result (by simp [*])
    | error exc =>
        refine ⟨hreported, .inl fun entry hmem => ?_⟩
        rw [hwaited.same.2] at hmem
        exact hawaiting.2.1 entry hmem

theorem executeTask_vqe_judged (task : ExperimentTask) (hvqe : task.algorithm.isStr "vqe" = true)
    (hidle : log.Idle) (hreported : log.reported = []) :
    (judging true).Obeys (Log.Executed true) log (executeTask env task).run := by
  have hstart : log.Accounted := by
    refine ⟨hreported, fun handle hmem => ?_, fun entry hmem => ?_⟩
    · rw [hidle.1] at hmem
      cases hmem
    · rw [hidle.2] at hmem
      cases hmem
  refine ((keeping_accounted env).executeTask_vqe task hvqe log hstart).mono
    fun later result hlater => ?_
  cases result with
  | ok value => exact hlater
  | error exc => exact ⟨hlater.1, hlater.2.imp_right fun hexc => ⟨rfl, hexc⟩⟩

end vqe

section single

variable (env : Env) (hidle : log.Idle) (hreported : log.reported = [])

include hidle

theorem Log.Idle.counted : log.Counted := by
  intro entry hmem
  rw [hidle.2] at hmem
  cases hmem

include hreported

theorem executed_error (exc : Exc) : log.Executed false (.error exc) :=
  ⟨hreported, .inl hidle.counted⟩

theorem ofExcept_judged {α : Type} {result : Except Exc α} {f : α → Py sig Json}
    (hf : ∀ value, (judging false).Obeys (Log.Executed false) log (f value).run) :
    (judging false).Obeys (Log.Executed false) log (Py.ofExcept result >>= f).run := by
  cases result with
  | ok value => exact hf value
  | error exc => exact executed_error hidle hreported exc

-- One job, and then nothing that fails on a result without counts.
theorem job_judged (circuit : Circuit) {g : ExperimentResult → Py sig Json}
    (hg : ∀ result : ExperimentResult, (∃ value, g result = pure value) ∨
      result.counts ≠ none ∧ ∃ exc, g result = Py.raise exc) :
    (judging false).Obeys (Log.Executed false) log
      (submit circuit >>= fun handle => waitOnce env handle executionConfig >>= g).run := by
  refine ⟨judging_allowed hreported _, fun answer _ => ?_⟩
  cases answer with
  | error exc =>
      refine ⟨(Log.raised_reported log exc).trans hreported, .inl fun entry hmem => ?_⟩
      exact hidle.counted entry (Log.raised_fetched log exc ▸ hmem)
  | ok handle =>
      have hsubmitted : log.submitted ++ [handle] = [handle] := by
        rw [hidle.1, List.nil_append]
      have hwait := @judging_computing false { log with submitted := log.submitted ++ [handle] } _ _ _
        (waitOnce_logs env executionConfig) (waitOnce_only env handle executionConfig) hreported
      refine Py.obeys_bind hwait ?_ ?_
      · rintro later result ⟨hlater, hsilent⟩
        obtain rfl : later = _ := hlater
        have hfetched : log.fetched ++ [(handle, result)] = [(handle, result)] := by
          rw [hidle.2, List.nil_append]
        rcases hg result with ⟨value, hvalue⟩ | ⟨hcounts, exc, hexc⟩
        · rw [hvalue]
          exact ⟨hreported, .inr ⟨handle, result, hsubmitted, hfetched⟩⟩
        · rw [hexc]
          refine ⟨hreported, .inl fun entry hmem => ?_⟩
          change entry ∈ log.fetched ++ [(handle, result)] at hmem
          rw [hfetched] at hmem
          rw [List.mem_singleton.mp hmem]
          exact hcounts
      · rintro later exc ⟨hlater, hsilent⟩
        refine ⟨hsilent, .inl fun entry hmem => ?_⟩
        rw [hlater.same.2] at hmem
        exact hidle.counted entry hmem

theorem runGrover_judged (markedStates : List String) (shots : Json) :
    (judging false).Obeys (Log.Executed false) log (runGrover env markedStates shots).run := by
  unfold runGrover
  refine ofExcept_judged hidle hreported fun numQubits => ?_
  refine ofExcept_judged hidle hreported fun problem => ?_
  refine ofExcept_judged hidle hreported fun iterations => ?_
  refine ofExcept_judged hidle hreported fun qc => ?_
  exact job_judged env hidle hreported _ fun result => .inl ⟨_, rfl⟩

theorem runSatGrover_judged (variableNames : List String) (expression : String) (shots : Json) :
    (judging false).Obeys (Log.Executed false) log
      (runSatGrover env variableNames expression shots).run := by
  unfold runSatGrover
  refine ofExcept_judged hidle hreported fun solutions => ?_
  refine ofExcept_judged hidle hreported fun iterations => ?_
  split_ifs
  · exact ⟨hreported, .inl hidle⟩
  · refine ofExcept_judged hidle hreported fun qc => ?_
    exact job_judged env hidle hreported _ fun result => .inl ⟨_, rfl⟩

-- Only counts that are there can fail to be phase estimates.
theorem runQpe_judged (phi : ℚ) (numCountingQubits : Nat) (shots : Json) :
    (judging false).Obeys (Log.Executed false) log (runQpe env phi numCountingQubits shots).run := by
  unfold runQpe
  refine job_judged env hidle hreported _ fun result => ?_
  cases hcounts : result.counts with
  | none => exact .inl ⟨_, rfl⟩
  | some counts =>
      simp only
      split_ifs
      · exact .inl ⟨_, rfl⟩
      · cases countsWithEstimates numCountingQubits counts.items with
        | ok results => exact .inl ⟨_, rfl⟩
        | error exc => exact .inr ⟨Option.some_ne_none counts, exc, rfl⟩

-- Without VQE a task runs one job at most, and ends normally without counts.
theorem executeTask_single_judged (task : ExperimentTask)
    (hother : task.algorithm.isStr "vqe" = false) :
    (judging false).Obeys (Log.Executed false) log (executeTask env task).run := by
  unfold executeTask
  simp only [hother, Bool.false_eq_true, if_false]
  split_ifs
  · refine ofExcept_judged hidle hreported fun markedStates => ?_
    refine ofExcept_judged hidle hreported fun shots => ?_
    exact runGrover_judged env hidle hreported markedStates shots
  · refine ofExcept_judged hidle hreported fun variableNames => ?_
    refine ofExcept_judged hidle hreported fun expression => ?_
    refine ofExcept_judged hidle hreported fun shots => ?_
    exact runSatGrover_judged env hidle hreported variableNames expression shots
  · refine ofExcept_judged hidle hreported fun phi => ?_
    refine ofExcept_judged hidle hreported fun numCountingQubits => ?_
    refine ofExcept_judged hidle hreported fun shots => ?_
    exact runQpe_judged env hidle hreported phi numCountingQubits shots
  · exact executed_error hidle hreported _

theorem executeTask_judged (task : ExperimentTask) :
    (judging (task.algorithm.isStr "vqe")).Obeys
      (Log.Executed (task.algorithm.isStr "vqe")) log (executeTask env task).run := by
  cases halgorithm : task.algorithm.isStr "vqe" with
  | true => exact executeTask_vqe_judged env task halgorithm hidle hreported
  | false => exact executeTask_single_judged env hidle hreported task halgorithm

end single

section messaging

theorem Log.Idle.after (hidle : log.Idle) (op : Effect) (hop : op.Messaging) (answer : op.Ans) :
    (log.after op answer).Idle := by
  have hbroken : ∀ (current : Log) (outcome : Outcome), current.Idle →
      (current.brokenBy outcome).Idle := by
    intro current outcome hcurrent
    rw [Log.Idle, Log.brokenBy_submitted, Log.brokenBy_fetched]
    exact hcurrent
  cases op with
  | publish queue message =>
      refine hbroken _ answer ?_
      rw [Log.Idle, Log.report_submitted, Log.report_fetched]
      exact hidle
  | declareQueue name => exact hbroken log answer hidle
  | ack => exact hbroken _ answer hidle
  | calibrationGet name => cases answer <;> exact hidle
  | handleMessage => exact hidle
  | utcnow => exact hidle
  | triggerSet => exact hidle
  | _ => cases hop

theorem messaging_judged {program : Program sig (Except Exc Unit)} (hidle : log.Idle)
    (honly : program.Only Effect.Messaging) :
    (judging asserts).Obeys (fun later _ => later.Judged asserts) log program := by
  refine (Monitor.Obeys.of_only ?_ ?_ honly hidle).mono fun later _ hlater => hlater.judged
  · intro current op hcurrent _
    exact hcurrent.judged.sound
  · intro current op hcurrent hop answer
    exact hcurrent.after op hop answer

end messaging

section reporting

variable (env : Env) (task : ExperimentTask)

theorem ack_judged (hjudged : log.Judged asserts) :
    (judging asserts).Obeys (fun later _ => later.Judged asserts) log ack.run := by
  refine ⟨hjudged.sound, fun (outcome : Outcome) _ => ?_⟩
  have hlater : (log.after .ack outcome).Judged asserts :=
    hjudged.of_same (Log.brokenBy_submitted _ outcome) (Log.brokenBy_fetched _ outcome)
      (Log.brokenBy_reported _ outcome)
  cases outcome with
  | returned => exact hlater
  | raised exc stored => exact hlater

theorem report_judged {resultMessage : ExperimentResultMessage} (hreported : log.reported = [])
    (hjudged : ({ log with reported := log.reported ++ [resultMessage] } : Log).Judged asserts) :
    (judging asserts).Obeys (fun later _ => later.Judged asserts) log
      (publishResultMessage resultMessage >>= fun _ => ack).run := by
  refine ⟨judging_allowed hreported _, fun (outcome : Outcome) _ => ?_⟩
  have hlater : ((log.report RESULTS_QUEUE_NAME { body := resultMessage.toJson }).brokenBy
      outcome).Judged asserts :=
    hjudged.of_same (Log.brokenBy_submitted _ _) (Log.brokenBy_fetched _ _)
      (Log.brokenBy_reported _ _)
  cases outcome with
  | raised exc stored => exact hlater
  | returned => exact ack_judged hlater

theorem runAndReport_judged (hidle : log.Idle) (hreported : log.reported = []) :
    (judging (task.algorithm.isStr "vqe")).Obeys
      (fun later _ => later.Judged (task.algorithm.isStr "vqe")) log
      (runAndReport env task).run := by
  refine runAndReport_rule (executeTask_judged env hidle hreported task) ?_ ?_ ?_
  · intro later value hlater
    exact report_judged hlater.1 (Log.judged_completed hlater rfl)
  · intro later exc hlater _
    exact report_judged hlater.1 (Log.judged_failed hlater rfl)
  · intro later exc hlater hexc
    exact Log.judged_silent hlater hexc

theorem handleTask_judged (message : Message) (hidle : log.Idle) (hreported : log.reported = []) :
    (judging (task.algorithm.isStr "vqe")).Obeys
      (fun later _ => later.Judged (task.algorithm.isStr "vqe")) log
      (handleTask env message task).run := by
  refine @handleTask_rule _ _ _ _ _ _ (fun current => current.Idle ∧ current.reported = []) _
    ?_ ?_ ?_ ?_ ?_ ⟨hidle, hreported⟩
  · rintro current ⟨hcurrent, hsilent⟩
    refine ⟨hcurrent.judged.sound, fun answer _ => ?_⟩
    cases answer with
    | ok observation => exact ⟨hcurrent, hsilent⟩
    | error exc =>
        exact (hcurrent.after (.calibrationGet env.settings.backendName) trivial
          (.error exc)).judged
  · rintro current ⟨hcurrent, hsilent⟩
    exact ⟨hcurrent.judged.sound, fun _ _ => ⟨hcurrent, hsilent⟩⟩
  · rintro current error ⟨hcurrent, -⟩
    exact messaging_judged hcurrent (publish_ack_only trivial trivial)
  · rintro current ⟨hcurrent, -⟩
    exact messaging_judged hcurrent (waitForCalibration_only env message task)
  · rintro current ⟨hcurrent, hsilent⟩
    exact runAndReport_judged env task hcurrent hsilent

theorem handleMessage_judged (message : Message) :
    (judging (assertsCounts message)).Obeys
      (fun later _ => later.Judged (assertsCounts message)) {} (handleMessage env message).run := by
  have hidle : Log.Idle {} := ⟨rfl, rfl⟩
  refine ⟨hidle.judged.sound, fun _ _ => ?_⟩
  unfold assertsCounts
  cases ExperimentTask.fromJson message.body with
  | ok task => exact handleTask_judged env task message hidle rfl
  | error exc => exact messaging_judged hidle (deadLetter_ack_only message)

-- At every point of every run of handle_message, the reports do justice to the
-- jobs if each was delivered or came without counts to VQE. A run that got to
-- its end has then reported a failed job as a failed experiment, and for
-- backends that end a job as they should the reports are right only then.
theorem handleMessage_failuresReported (message : Message) (events : List (Event sig))
    (rest : Program sig (Except Exc Unit))
    (htrace : (handleMessage env message).run.Trace events rest) :
    ((logOf events).Complete (assertsCounts message) → (logOf events).FailuresReported) ∧
    ∀ result, rest = .ret result →
      ((logOf events).Complete (assertsCounts message) →
        (∃ entry ∈ (logOf events).fetched, entry.2.status = .failed) →
        ∃ resultMessage, (logOf events).reported = [resultMessage] ∧
          resultMessage.status = .str "failed") ∧
      ((∀ entry ∈ (logOf events).fetched, Ended entry.2) →
        ((logOf events).FailuresReported ↔
          (logOf events).Complete (assertsCounts message))) := by
  have hjudged := handleMessage_judged env message
  have hadmits : (judging (assertsCounts message)).Admits {} events :=
    Monitor.admits_all (fun _ _ _ => trivial) _ _
  have hafter : (judging (assertsCounts message)).after {} events = logOf events :=
    @Monitor.after_eq _ _ logging (judging _) (fun _ _ _ => rfl) {} events
  have hsafe := hjudged.safe htrace hadmits (fun _ _ hallowed => hallowed)
    fun _ _ hlater => hlater.sound
  rw [hafter] at hsafe
  refine ⟨hsafe, ?_⟩
  rintro result rfl
  have hend := (hjudged.trace htrace hadmits).2
  rw [hafter] at hend
  exact ⟨hend.told, fun hended => ⟨hend.precise hended, hend.sound⟩⟩

end reporting

section example_run

variable (env : Env)

theorem job_returns (hfuel : 0 < env.fuel) (circuit : Circuit) (handle : JobHandle)
    (result : ExperimentResult)
    (hended : result.status = .completed ∨ result.status = .failed)
    {g : ExperimentResult → Py sig Json} (hg : ∃ value, g result = pure value) :
    ∃ value, (submit circuit >>= fun handle =>
      waitOnce env handle executionConfig >>= g).run.Returns
      [⟨.submit circuit, .ok handle⟩, ⟨.monotonic, (0 : ℚ)⟩, ⟨.monotonic, (0 : ℚ)⟩,
        ⟨.pollStatus handle, .ok result.status⟩, ⟨.fetchResult handle, .ok result⟩]
      (.ok value) := by
  obtain ⟨value, hvalue⟩ := hg
  refine ⟨value, .step _ _ _ (Py.returns_then (waitOnce_fetches handle env hfuel result hended) ?_)⟩
  rw [hvalue]
  exact .stop _

-- A task that ends normally is reported as completed.
theorem handleMessage_returns (message : Message) (task : ExperimentTask)
    (hparsed : ExperimentTask.fromJson message.body = .ok task)
    (hother : task.algorithm.isStr "vqe" = false) {events : List (Event sig)} {value : Json}
    (hexecute : (executeTask env task).run.Returns events (.ok value)) :
    (handleMessage env message).run.Returns
      (⟨.handleMessage, ()⟩ :: (events ++
        [⟨.publish RESULTS_QUEUE_NAME { body := (completedResult task value).toJson }, .returned⟩,
          ⟨.ack, .returned⟩])) (.ok ()) := by
  have hcomplete : (executeTask env task >>= fun result =>
      (pure (completedResult task result) : Py sig _)).run.Returns (events ++ [])
      (.ok (completedResult task value)) := Py.returns_then hexecute (.stop _)
  rw [List.append_nil] at hcomplete
  have hreport : (publishResultMessage (completedResult task value) >>= fun _ => ack).run.Returns
      [⟨.publish RESULTS_QUEUE_NAME { body := (completedResult task value).toJson }, .returned⟩,
        ⟨.ack, .returned⟩] (.ok ()) := .step _ _ _ (.step _ _ _ (.stop _))
  unfold handleMessage
  refine @Program.Trace.step sig _ .handleMessage _ () _ _ ?_
  rw [hparsed]
  simp only [handleTask, hother, Bool.false_eq_true, if_false]
  exact Py.returns_then (Py.returns_uncaught hcomplete fun _ h => by cases h) hreport

def qpeTask : ExperimentTask := ⟨.str "e1", .str "qpe", .obj [("phi", .float (1 / 4))]⟩

-- The task ends normally whether its one job failed or not, if whatever counts
-- there are can be read.
theorem qpe_reported (hfuel : 0 < env.fuel) (handle : JobHandle) (result : ExperimentResult)
    (hended : result.status = .completed ∨ result.status = .failed)
    (hread : ∀ counts, result.counts = some counts →
      ∃ results, countsWithEstimates 3 counts.items = .ok results) :
    ∃ events value, (handleMessage env { body := qpeTask.toJson }).run.Returns events (.ok ()) ∧
      logOf events =
        { submitted := [handle], fetched := [(handle, result)],
          reported := [completedResult qpeTask value], acks := 1 } := by
  obtain ⟨value, hrun⟩ : ∃ value, (runQpe env (1 / 4) 3 (.int 1024)).run.Returns
      [⟨.submit ⟨"qpe", 4, buildQpeCircuit mathPi ⟨2 * mathPi * (1 / 4)⟩ 3, .int 1024⟩, .ok handle⟩,
        ⟨.monotonic, (0 : ℚ)⟩, ⟨.monotonic, (0 : ℚ)⟩, ⟨.pollStatus handle, .ok result.status⟩,
        ⟨.fetchResult handle, .ok result⟩] (.ok value) := by
    refine job_returns env hfuel _ handle result hended ?_
    cases hcounts : result.counts with
    | none => exact ⟨_, rfl⟩
    | some counts =>
        obtain ⟨results, hok⟩ := hread counts hcounts
        by_cases hempty : counts.items = []
        · simp only [if_pos hempty]
          exact ⟨_, rfl⟩
        · simp only [if_neg hempty, hok]
          exact ⟨_, rfl⟩
  have hreturns := handleMessage_returns env { body := qpeTask.toJson } qpeTask
    (ExperimentTask.fromJson_toJson qpeTask) rfl hrun
  refine ⟨_, value, hreturns, ?_⟩
  rcases hended with hstatus | hstatus
  · rw [hstatus]
    rfl
  · rw [hstatus]
    rfl

end example_run

-- A job that counted four shots.
theorem handleMessage_failuresReported_counted : ∃ events,
    (handleMessage ⟨{}, default, 1⟩ { body := qpeTask.toJson }).run.Returns events (.ok ()) ∧
    (logOf events).fetched ≠ [] ∧ (logOf events).FailuresReported := by
  obtain ⟨events, value, hreturns, hlog⟩ := qpe_reported ⟨{}, default, 1⟩ Nat.one_pos
    ⟨"1", "aer-simulator"⟩ ⟨"1", .completed, some ⟨[("010", 4)], by simp⟩, none⟩ (.inl rfl) (by
      rintro counts hcounts
      rw [← Option.some.inj hcounts]
      exact ⟨_, rfl⟩)
  refine ⟨events, hreturns, by rw [hlog]; exact List.cons_ne_nil _ _, ?_⟩
  refine (handleMessage_failuresReported _ _ _ _ hreturns).1 fun entry hmem => ?_
  rw [hlog] at hmem
  rw [List.mem_singleton.mp hmem]
  exact .inl ⟨rfl, Option.some_ne_none _⟩

-- The one job of a task fails, and the experiment is reported as completed.
theorem handleMessage_failure_completed : ∃ events handle value,
    (handleMessage ⟨{}, default, 1⟩ { body := qpeTask.toJson }).run.Returns events (.ok ()) ∧
    (logOf events).fetched = [(handle, ⟨"1", .failed, none, some "simulation error"⟩)] ∧
    (logOf events).reported = [completedResult qpeTask value] ∧
    ¬ (logOf events).FailuresReported := by
  obtain ⟨events, value, hreturns, hlog⟩ := qpe_reported ⟨{}, default, 1⟩ Nat.one_pos
    ⟨"1", "aer-simulator"⟩ ⟨"1", .failed, none, some "simulation error"⟩ (.inr rfl)
    (fun counts h => by cases h)
  refine ⟨events, _, value, hreturns, by rw [hlog], by rw [hlog], fun hright => ?_⟩
  rw [hlog] at hright
  have hfailed := hright.failed ⟨_, List.mem_singleton_self _, rfl⟩
    (completedResult qpeTask value) (List.mem_singleton_self _)
  exact absurd (Json.str.inj hfailed) (by decide)

end QuantumPlatform.Orchestrator

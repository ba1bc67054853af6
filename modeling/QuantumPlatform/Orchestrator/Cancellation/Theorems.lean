import QuantumPlatform.Orchestrator.Cancellation
import QuantumPlatform.Orchestrator.Clock.Theorems
import QuantumPlatform.Orchestrator.Failures.Theorems
import QuantumPlatform.Orchestrator.Probe.Theorems

namespace QuantumPlatform.Orchestrator

open Process Python QuantumPlatform.Core

variable {log later : Log} {message : Message}

section exceptions

theorem Log.not_calm_of_cancelled (h : log.cancelled = true) : ¬ log.Calm := by
  intro hcalm
  rw [hcalm.1] at h
  cases h

theorem Log.not_calm_of_escaped (h : log.escaped = true) : ¬ log.Calm := by
  intro hcalm
  rw [hcalm.2] at h
  cases h

-- What a raised exception leaves is calm if it is an Exception, and only then.
theorem Log.Calm.raised (hcalm : log.Calm) (exc : Exc) : (log.raised exc).Tells Log.Calm exc := by
  unfold Log.raised Log.Tells
  by_cases hexc : exc.isException = true
  · rw [if_pos hexc]
    exact ⟨fun _ => hexc, fun _ => hcalm⟩
  · rw [if_neg hexc]
    exact ⟨fun h => absurd h (Log.not_calm_of_escaped rfl), fun h => absurd h hexc⟩

theorem Log.Calm.waited {handle : JobHandle} {exc : Exc} (hcalm : log.Calm)
    (hwaited : log.Waited handle later (.error exc)) : later.Tells Log.Calm exc := by
  rcases hwaited with ⟨hexc, rfl⟩ | ⟨hexc, hlater⟩
  · exact ⟨fun _ => hexc, fun _ => hcalm⟩
  · have hraised : ¬ exc.isException = true := by
      rw [hexc]
      exact Bool.false_ne_true
    refine ⟨fun h => ?_, fun h => absurd h hraised⟩
    rcases hlater with rfl | rfl
    · exact absurd h (Log.not_calm_of_cancelled rfl)
    · exact absurd h (Log.not_calm_of_escaped rfl)

end exceptions

section handling

-- Running a task: the log is as it should be, and nothing is reported yet.
def Log.Working (log : Log) : Prop := log.Quiet ∧ log.Silent

-- What has been raised does not show in the other fields.
def Log.Raised (log : Log) (exc : Exc) : Prop :=
  log.broken = false ∧ log.Silent ∧ log.Tells Log.Calm exc

theorem Log.Working.submitted (hworking : log.Working) (handle : JobHandle) :
    Log.Working { log with submitted := log.submitted ++ [handle] } := hworking

theorem Log.Working.raised (hworking : log.Working) (exc : Exc) :
    (log.raised exc).Raised exc := by
  obtain ⟨⟨hcalm, hbroken⟩, hsilent⟩ := hworking
  refine ⟨?_, ?_, hcalm.raised exc⟩
  · rw [Log.raised_broken]
    exact hbroken
  · rw [Log.Silent, Log.raised_acks, Log.raised_reported]
    exact hsilent

theorem Log.Working.waited {handle : JobHandle} (hworking : log.Working)
    {result : Except Exc ExperimentResult} (hwaited : log.Waited handle later result) :
    Kept Log.Working Log.Raised later result := by
  obtain ⟨⟨hcalm, hbroken⟩, hsilent⟩ := hworking
  cases result with
  | ok result =>
      obtain rfl : later = _ := hwaited
      exact ⟨⟨hcalm, hbroken⟩, hsilent⟩
  | error exc =>
      refine ⟨?_, ?_, hcalm.waited hwaited⟩
      · rcases hwaited with ⟨-, rfl⟩ | ⟨-, rfl | rfl⟩ <;> exact hbroken
      · rcases hwaited with ⟨-, rfl⟩ | ⟨-, rfl | rfl⟩ <;> exact hsilent

theorem Log.Working.ordinary (hworking : log.Working) (exc : Exc) (hexc : exc.isException = true) :
    log.Raised exc :=
  ⟨hworking.1.2, hworking.2, fun _ => hexc, fun _ => hworking.1.1⟩

theorem keeping_quiet (env : Env) :
    KeepingOnce logging Log.Working (fun log _ => log.Working) Log.Raised env := by
  refine ⟨⟨fun log exc hworking hexc => hworking.ordinary exc hexc, ?_, ?_, ?_, ?_, ?_⟩, ?_⟩
  · intro log circuit hworking
    refine ⟨trivial, fun answer _ => ?_⟩
    cases answer with
    | ok handle => exact hworking.submitted handle
    | error exc => exact hworking.raised exc
  · intro log topic payload hworking
    refine ⟨trivial, fun outcome _ => ?_⟩
    cases outcome with
    | returned => exact hworking
    | raised exc stored =>
        change if exc.isException then (log.raised exc).Working else (log.raised exc).Raised exc
        by_cases hexc : exc.isException = true
        · rw [if_pos hexc, Log.raised, if_pos hexc]
          exact hworking
        · rw [if_neg hexc]
          exact hworking.raised exc
  · intro log hworking
    exact ⟨trivial, fun _ _ => hworking⟩
  · intro log hworking
    exact ⟨trivial, fun _ _ => hworking⟩
  · intro log handle hworking
    refine (waitForResult_logs handle _ _ _ _).mono fun later outcome hwaited => ?_
    have hlater := hworking.waited hwaited
    obtain ⟨result, waiting⟩ := outcome
    cases result with
    | error exc => exact hlater
    | ok result =>
        simp only
        split
        · exact hlater.ordinary _ rfl
        · exact hlater
  · intro log handle hworking
    exact (waitOnce_logs env executionConfig).mono fun later result hwaited =>
      hworking.waited hwaited

theorem not_quiet_of_broken (h : log.broken = true) : ¬ log.Quiet := by
  intro hquiet
  rw [hquiet.2] at h
  cases h

theorem ack_handled (hquiet : log.Quiet) (hacks : log.acks = 0)
    (hreported : log.Reported message) :
    logging.Obeys (Log.Handled message) log ack.run := by
  refine ⟨trivial, fun outcome _ => ?_⟩
  cases outcome with
  | returned =>
      refine ⟨hquiet, ?_, hreported⟩
      change log.acks + 1 = 1
      omega
  | raised exc stored => exact not_quiet_of_broken rfl

-- Publishing adds to the reports at most.
theorem publish_handled {queue : String} {copy : Message} {rest : Py sig Unit}
    (hrest : logging.Obeys (Log.Handled message) (log.report queue copy) rest.run) :
    logging.Obeys (Log.Handled message) log (publish queue copy >>= fun _ => rest).run := by
  refine ⟨trivial, fun outcome _ => ?_⟩
  cases outcome with
  | returned => exact hrest
  | raised exc stored => exact not_quiet_of_broken rfl

-- Nothing was submitted, so there need not be a report.
def Log.Unstarted (log : Log) : Prop := log.Working ∧ log.submitted = []

theorem Log.report_quiet {queue : String} {copy : Message} (hquiet : log.Quiet) :
    (log.report queue copy).Quiet := by
  unfold Log.report
  split_ifs
  · split
    · exact hquiet
    · exact hquiet
  · exact hquiet

theorem Log.report_acks {queue : String} {copy : Message} :
    (log.report queue copy).acks = log.acks := by
  unfold Log.report
  split_ifs
  · split <;> rfl
  · rfl

theorem Log.reported_of_unsubmitted (hnone : log.submitted = []) : log.Reported message :=
  fun hsome => absurd hnone hsome

theorem publish_ack_unstarted {queue : String} {copy : Message} (hquiet : log.Quiet)
    (hacks : log.acks = 0) (hnone : log.submitted = []) :
    logging.Obeys (Log.Handled message) log (publish queue copy >>= fun _ => ack).run := by
  refine publish_handled (ack_handled (Log.report_quiet hquiet) ?_ ?_)
  · rw [Log.report_acks]
    exact hacks
  · refine Log.reported_of_unsubmitted ?_
    rw [Log.report_submitted]
    exact hnone

theorem deadLetter_handled (hquiet : log.Quiet) (hacks : log.acks = 0)
    (hnone : log.submitted = []) (copy : Message) :
    logging.Obeys (Log.Handled message) log
      (sendToDeadLetterQueue copy >>= fun _ => ack).run := by
  refine ⟨trivial, fun outcome _ => ?_⟩
  cases outcome with
  | returned => exact publish_ack_unstarted hquiet hacks hnone
  | raised exc stored => exact not_quiet_of_broken rfl

variable (env : Env) (task : ExperimentTask)

theorem waitForCalibration_handled (hquiet : log.Quiet) (hacks : log.acks = 0)
    (hnone : log.submitted = []) (copy : Message) :
    logging.Obeys (Log.Handled message) log (waitForCalibration env copy task).run := by
  unfold waitForCalibration
  split_ifs
  · exact publish_ack_unstarted hquiet hacks hnone
  · refine ⟨trivial, fun _ _ => publish_handled ?_⟩
    refine publish_ack_unstarted (Log.report_quiet hquiet) ?_ ?_
    · rw [Log.report_acks]
      exact hacks
    · rw [Log.report_submitted]
      exact hnone

variable (hparsed : ExperimentTask.fromJson message.body = .ok task)

include hparsed

-- A result that names the experiment, and then the ack.
theorem report_handled (hquiet : log.Quiet) (hsilent : log.Silent)
    (resultMessage : ExperimentResultMessage)
    (hnamed : resultMessage.experimentId = task.experimentId)
    (hterminal : resultMessage.terminal = true) :
    logging.Obeys (Log.Handled message) log
      (publishResultMessage resultMessage >>= fun _ => ack).run := by
  have hreports : log.reported ++ [resultMessage] = [resultMessage] := by
    rw [hsilent.2, List.nil_append]
  exact publish_handled (ack_handled hquiet hsilent.1 fun _ =>
    ⟨task, resultMessage, hparsed, hreports, hnamed, hterminal⟩)

theorem runAndReport_handled (hworking : log.Working) :
    logging.Obeys (Log.Handled message) log (runAndReport env task).run := by
  refine runAndReport_rule ((keeping_quiet env).executeTask task log hworking) ?_ ?_ ?_
  · intro later value hlater
    exact report_handled task hparsed hlater.1 hlater.2 _ rfl rfl
  · rintro later exc ⟨hbroken, hsilent, htells⟩ hexc
    exact report_handled task hparsed ⟨htells.mpr hexc, hbroken⟩ hsilent _ rfl rfl
  · rintro later exc ⟨hbroken, hsilent, htells⟩ hexc hquiet
    have hraised := htells.mp hquiet.1
    rw [hexc] at hraised
    cases hraised

theorem handleTask_handled (hunstarted : log.Unstarted) :
    logging.Obeys (Log.Handled message) log (handleTask env message task).run := by
  refine @handleTask_rule _ _ _ _ _ _ Log.Unstarted _ ?_ ?_ ?_ ?_ ?_ hunstarted
  · intro current hcurrent
    refine ⟨trivial, fun answer _ => ?_⟩
    cases answer with
    | ok observation => exact hcurrent
    | error exc => exact not_quiet_of_broken rfl
  · intro current hcurrent
    exact ⟨trivial, fun _ _ => hcurrent⟩
  · rintro current error ⟨⟨hquiet, hsilent⟩, -⟩
    exact report_handled task hparsed hquiet hsilent _ rfl rfl
  · rintro current ⟨⟨hquiet, hsilent⟩, hnone⟩
    exact waitForCalibration_handled env task hquiet hsilent.1 hnone message
  · rintro current ⟨hworking, -⟩
    exact runAndReport_handled env task hparsed hworking

omit hparsed in
theorem handleMessage_handled (message : Message) :
    logging.Obeys (Log.Handled message) {} (handleMessage env message).run := by
  have hquiet : Log.Quiet {} := ⟨⟨rfl, rfl⟩, rfl⟩
  refine ⟨trivial, fun _ _ => ?_⟩
  cases hparsed : ExperimentTask.fromJson message.body with
  | error exc => exact deadLetter_handled hquiet rfl rfl message
  | ok task => exact handleTask_handled env task hparsed ⟨⟨hquiet, rfl, rfl⟩, rfl⟩

-- What the end of handle_message tells about the run.
omit hparsed in
theorem Log.Handled.contained_iff {result : Except Exc Unit} (hhandled : log.Handled message result) :
    log.Contained message result ↔ log.Quiet := by
  cases result with
  | error exc =>
      constructor
      · intro hcontained
        cases hcontained.returned
      · intro hquiet
        exact absurd hquiet hhandled
  | ok value =>
      obtain ⟨hquiet, hacks, hreported⟩ := hhandled
      refine ⟨fun _ => hquiet, fun _ => ⟨rfl, hacks, hreported, fun hcancelled => ?_⟩⟩
      exact absurd hquiet.1 (Log.not_calm_of_cancelled hcancelled)

end handling

section surviving

variable (env : Env)

-- Inside the try block of the loop: what was raised tells whether all is calm.
def Log.Tried (waits : Nat) (log : Log) : Except Exc Unit → Prop
  | .ok _ => log.waits = waits ∧ log.Calm
  | .error exc => log.waits = waits ∧ log.Tells Log.Calm exc

-- After a number of waits: the loop goes on, and all is calm, or it does not.
def Log.Going (waits : Nat) (log : Log) : Except Exc Unit → Prop
  | .ok _ => log.waits = waits ∧ log.Calm
  | .error _ => ¬ log.Calm

theorem Log.Waited.waits {handle : JobHandle} {result : Except Exc ExperimentResult}
    (hwaited : log.Waited handle later result) : later.waits = log.waits := by
  cases result with
  | ok result =>
      obtain rfl : later = _ := hwaited
      rfl
  | error exc => rcases hwaited with ⟨-, rfl⟩ | ⟨-, rfl | rfl⟩ <;> rfl

theorem probeCounts_onlyExceptions (rate : ℚ) (probe : ExperimentResult) :
    OnlyExceptions (probeCounts rate probe) := by
  unfold probeCounts injectDemoParityErrors
  simp only
  split_ifs
  · exact .ok _
  · exact .error _ rfl
  · exact .ok _

theorem runCalibration_tells (hcalm : log.Calm) :
    logging.Obeys (fun later result => later.waits = log.waits ∧ match result with
      | .ok _ => later.Calm
      | .error exc => later.Tells Log.Calm exc) log (runCalibration env).run := by
  refine ⟨trivial, fun answer _ => ?_⟩
  cases answer with
  | error exc => exact ⟨Log.raised_waits log exc, hcalm.raised exc⟩
  | ok handle =>
      refine Py.obeys_bind (waitOnce_logs env executionConfig) ?_ ?_
      · intro later probe hwaited
        obtain rfl : later = _ := hwaited
        cases hcounts : probeCounts env.settings.calibrationDemoErrorRate probe with
        | error exc =>
            exact ⟨rfl, fun _ => probeCounts_onlyExceptions _ probe exc hcounts, fun _ => hcalm⟩
        | ok counts => exact ⟨trivial, fun _ _ => ⟨rfl, hcalm⟩⟩
      · intro later exc hwaited
        have hsubmitted : Log.Calm { log with submitted := log.submitted ++ [handle] } := hcalm
        exact ⟨hwaited.waits, hsubmitted.waited hwaited⟩

theorem saveAndPublish_tells (hcalm : log.Calm) :
    logging.Obeys (Log.Tried log.waits) log
      (do
        let result ← runCalibration env
        calibrationSave result
        publishCalibrationResult result : Py sig Unit).run := by
  refine Py.obeys_bind (runCalibration_tells env hcalm) ?_ fun later exc hlater => hlater
  rintro later row ⟨hwaits, hlater⟩
  have hraised : ∀ (current : Log) (exc : Exc), current.waits = log.waits → current.Calm →
      Log.Tried log.waits (current.raised exc) (.error exc) := by
    intro current exc hcurrent hcurrentCalm
    exact ⟨(Log.raised_waits current exc).trans hcurrent, hcurrentCalm.raised exc⟩
  refine ⟨trivial, fun outcome _ => ?_⟩
  cases outcome with
  | raised exc stored => exact hraised _ exc hwaits hlater
  | returned =>
      refine ⟨trivial, fun sent _ => ?_⟩
      cases sent with
      | returned => exact ⟨hwaits, hlater⟩
      | raised exc stored => exact hraised _ exc hwaits hlater

-- The loop survives every Exception, and nothing else.
theorem calibrationCycle_going (hcalm : log.Calm) :
    logging.Obeys (Log.Going (log.waits + 1)) log (calibrationCycle env).run := by
  have hcaught : logging.Obeys (Log.Going log.waits) log
      (Py.exceptException
        (do
          let result ← runCalibration env
          calibrationSave result
          publishCalibrationResult result)
        fun _ => pure () : Py sig Unit).run := by
    refine Py.obeys_exceptException (saveAndPublish_tells env hcalm)
      (fun later value hlater => hlater) ?_ ?_
    · rintro later exc ⟨hwaits, htells⟩ hexc
      exact ⟨hwaits, htells.mpr hexc⟩
    · rintro later exc ⟨hwaits, htells⟩ hexc hlater
      have hraised := htells.mp hlater
      rw [hexc] at hraised
      cases hraised
  refine ⟨trivial, fun _ _ => ?_⟩
  refine Py.obeys_bind hcaught ?_ fun later exc hlater => hlater
  rintro later value ⟨hwaits, hlater⟩
  refine ⟨trivial, fun _ _ => ⟨?_, hlater⟩⟩
  change later.waits + 1 = log.waits + 1
  rw [hwaits]

theorem runCalibrationLoop_going (cycles : Nat) (hcalm : log.Calm) :
    logging.Obeys (Log.Going (log.waits + cycles)) log (runCalibrationLoop env cycles).run := by
  induction cycles generalizing log with
  | zero => exact ⟨rfl, hcalm⟩
  | succ cycles ih =>
      refine Py.obeys_bind (calibrationCycle_going env hcalm) ?_ fun later exc hlater => hlater
      rintro later value ⟨hwaits, hlater⟩
      have hrest := ih hlater
      have hcount : later.waits + cycles = log.waits + (cycles + 1) := by omega
      rw [hcount] at hrest
      exact hrest

theorem Log.Going.survived_iff {cycles : Nat} {result : Except Exc Unit}
    (hgoing : log.Going cycles result) : log.Survived cycles result ↔ log.Calm := by
  cases result with
  | error exc =>
      constructor
      · intro hsurvived
        cases hsurvived.returned
      · intro hcalm
        exact absurd hcalm hgoing
  | ok value => exact ⟨fun _ => hgoing.2, fun _ => ⟨rfl, hgoing.1⟩⟩

end surviving

section runs

-- The two loops contain what the backend does if and only if no job was
-- cancelled and nothing escaped; handle_message also needs its broker. Given
-- a patient polling loop no run of either is cut off before its end.
theorem backend_contained (env : Env) (message : Message) (cycles : Nat) :
    (∀ events result, (handleMessage env message).run.Returns events result →
      ((logOf events).Contained message result ↔ (logOf events).Quiet)) ∧
    (∀ events result, (runCalibrationLoop env cycles).run.Returns events result →
      ((logOf events).Survived cycles result ↔ (logOf events).Calm)) ∧
    ∀ pause clock, Patient env pause →
      (∀ events rest, (handleMessage env message).run.Trace events rest →
        clocked.Admits clock events →
        (∀ next, rest ≠ .call .hang next) ∧ ∃ more result, rest.Returns more result) ∧
      ∀ events rest, (runCalibrationLoop env cycles).run.Trace events rest →
        clocked.Admits clock events →
        (∀ next, rest ≠ .call .hang next) ∧ ∃ more result, rest.Returns more result := by
  have hall : ∀ events, logging.Admits {} events :=
    Monitor.admits_all (fun _ _ _ => trivial) _
  refine ⟨fun events result hreturns => ?_, fun events result hreturns => ?_,
    fun pause clock hpatient => ⟨fun events rest htrace hadmits => ?_,
      fun events rest htrace hadmits => ?_⟩⟩
  · have hend := ((handleMessage_handled env message).trace hreturns (hall events)).2
    exact Log.Handled.contained_iff hend
  · have hcalm : Log.Calm {} := ⟨rfl, rfl⟩
    have hend := ((runCalibrationLoop_going env cycles hcalm).trace hreturns
      (hall events)).2
    change Log.Going (0 + cycles) (logOf events) result at hend
    rw [Nat.zero_add] at hend
    exact hend.survived_iff
  · exact runs_on (handleMessage_clocked hpatient message clock) htrace hadmits
  · exact runs_on (runCalibrationLoop_clocked hpatient cycles clock) htrace hadmits

-- A worker whose backend counts, and whose loops may turn often enough.
theorem backend_contained_counted :
    (∃ events, (handleMessage ⟨{}, default, 4000⟩ { body := qpeTask.toJson }).run.Returns events
        (.ok ()) ∧ (logOf events).submitted ≠ [] ∧
      (logOf events).Contained { body := qpeTask.toJson } (.ok ())) ∧
    (∃ events, (runCalibrationLoop ⟨{}, default, 4000⟩ 1).run.Returns events (.ok ()) ∧
      (logOf events).Survived 1 (.ok ())) ∧
    ∃ more result, (handleMessage ⟨{}, default, 4000⟩ { body := qpeTask.toJson }).run.Returns more
      result := by
  have hcontained := backend_contained ⟨{}, default, 4000⟩ { body := qpeTask.toJson } 1
  have hpatient : Patient ⟨{}, default, 4000⟩ (1 / 100) := by
    refine ⟨by norm_num, by norm_num, by norm_num, ?_, ?_⟩
    · change (1 / 100 : ℚ) ≤ 1 / 4
      norm_num
    · change (30 : ℚ) < ((4000 : ℕ) - 1) * (1 / 100)
      norm_num
  obtain ⟨events, value, hreturns, hlog⟩ := qpe_reported ⟨{}, default, 4000⟩ (by decide)
    ⟨"1", "aer-simulator"⟩ ⟨"1", .completed, some ⟨[("010", 4)], by simp⟩, none⟩ (.inl rfl) (by
      rintro counts hcounts
      rw [← Option.some.inj hcounts]
      exact ⟨_, rfl⟩)
  obtain ⟨cycle, row, hcycle, -, hcycleLog⟩ := calibration_saves_probe ⟨{}, default, 4000⟩
    (by decide) ⟨"1", "aer-simulator"⟩
    ⟨"1", .completed, some ⟨[("00", 2)], by simp⟩, none⟩ (.inl rfl) (probeCounts_zero _) 0
  refine ⟨⟨events, hreturns, ?_, ?_⟩, ⟨cycle, hcycle, ?_⟩, ?_⟩
  · rw [hlog]
    exact List.cons_ne_nil _ _
  · refine (hcontained.1 _ _ hreturns).mpr ?_
    rw [hlog]
    exact ⟨⟨rfl, rfl⟩, rfl⟩
  · refine (hcontained.2.1 _ _ hcycle).mpr ?_
    rw [hcycleLog]
    exact ⟨rfl, rfl⟩
  · exact ((hcontained.2.2 _ 0 hpatient).1 [] _ (.stop _) trivial).2

section example_run

variable (env : Env) (hfuel : 0 < env.fuel) (handle : JobHandle)

include hfuel

theorem handleMessage_cancelled : ∃ events,
    (handleMessage env { body := qpeTask.toJson }).run.Returns events
      (.error (Exc.cancelledError ("job " ++ handle.jobId ++ " was cancelled"))) ∧
    logOf events = { submitted := [handle], cancelled := true } := by
  have hexecute : (runQpe env (1 / 4) 3 (.int 1024)).run.Returns
      [⟨.submit ⟨"qpe", 4, buildQpeCircuit mathPi ⟨2 * mathPi * (1 / 4)⟩ 3, .int 1024⟩, .ok handle⟩,
        ⟨.monotonic, (0 : ℚ)⟩, ⟨.monotonic, (0 : ℚ)⟩, ⟨.pollStatus handle, .ok .cancelled⟩]
      (.error (Exc.cancelledError ("job " ++ handle.jobId ++ " was cancelled"))) :=
    .step _ _ _ (Py.returns_raised (waitOnce_cancelled handle env hfuel))
  have hraised : (executeTask env qpeTask >>= fun result =>
      (pure (completedResult qpeTask result) : Py sig _)).run.Returns _ (.error _) :=
    Py.returns_raised hexecute
  have huncaught : ∀ exc, (.error (Exc.cancelledError ("job " ++ handle.jobId ++
      " was cancelled")) : Except Exc ExperimentResultMessage) = .error exc →
      exc.isException = false := by
    intro exc h
    rw [← Except.error.inj h]
    rfl
  have hreport : (runAndReport env qpeTask).run.Returns _ (.error _) :=
    Py.returns_raised (Py.returns_uncaught hraised huncaught)
  exact ⟨⟨.handleMessage, ()⟩ :: _, .step _ _ _ hreport, rfl⟩

theorem runCalibrationLoop_cancelled : ∃ events,
    (runCalibrationLoop env 1).run.Returns events
      (.error (Exc.cancelledError ("job " ++ handle.jobId ++ " was cancelled"))) ∧
    logOf events = { submitted := [handle], cancelled := true } := by
  have hprobe : (runCalibration env).run.Returns
      [⟨.submit ⟨"calibration-bell", 2, buildBellCircuit, .int DEFAULT_SHOTS⟩, .ok handle⟩,
        ⟨.monotonic, (0 : ℚ)⟩, ⟨.monotonic, (0 : ℚ)⟩, ⟨.pollStatus handle, .ok .cancelled⟩]
      (.error (Exc.cancelledError ("job " ++ handle.jobId ++ " was cancelled"))) :=
    .step _ _ _ (Py.returns_raised (waitOnce_cancelled handle env hfuel))
  have hraised : (runCalibration env >>= fun result => calibrationSave result >>= fun _ =>
      publishCalibrationResult result).run.Returns _ (.error _) := Py.returns_raised hprobe
  have huncaught : ∀ exc, (.error (Exc.cancelledError ("job " ++ handle.jobId ++
      " was cancelled")) : Except Exc Unit) = .error exc → exc.isException = false := by
    intro exc h
    rw [← Except.error.inj h]
    rfl
  have hcycle : (calibrationCycle env).run.Returns _ (.error _) :=
    Py.returns_await () (Py.returns_raised (Py.returns_uncaught hraised huncaught))
  exact ⟨_, Py.returns_raised hcycle, rfl⟩

end example_run

-- One poll that answers CANCELLED ends handle_message before it reports and
-- acks, and the calibration loop before its wait.
theorem backend_not_contained :
    (∃ events exc, (handleMessage ⟨{}, default, 1⟩ { body := qpeTask.toJson }).run.Returns events
        (.error exc) ∧
      (logOf events).cancelled = true ∧ (logOf events).reported = [] ∧ (logOf events).acks = 0 ∧
      ¬ (logOf events).Contained { body := qpeTask.toJson } (.error exc)) ∧
    ∃ events exc, (runCalibrationLoop ⟨{}, default, 1⟩ 1).run.Returns events (.error exc) ∧
      (logOf events).cancelled = true ∧ (logOf events).waits = 0 ∧
      ¬ (logOf events).Survived 1 (.error exc) := by
  obtain ⟨handled, hhandled, hlog⟩ :=
    handleMessage_cancelled ⟨{}, default, 1⟩ Nat.one_pos ⟨"1", "aer-simulator"⟩
  obtain ⟨cycle, hcycle, hcycleLog⟩ :=
    runCalibrationLoop_cancelled ⟨{}, default, 1⟩ Nat.one_pos ⟨"1", "aer-simulator"⟩
  refine ⟨⟨handled, _, hhandled, ?_, ?_, ?_, ?_⟩, ⟨cycle, _, hcycle, ?_, ?_, ?_⟩⟩
  · rw [hlog]
  · rw [hlog]
  · rw [hlog]
  · intro hcontained
    cases hcontained.returned
  · rw [hcycleLog]
  · rw [hcycleLog]
  · intro hsurvived
    cases hsurvived.returned

end runs

end QuantumPlatform.Orchestrator

import QuantumPlatform.Orchestrator.Clock
import QuantumPlatform.Orchestrator.Execution.Lemmas
import QuantumPlatform.Orchestrator.Polling.Theorems
import QuantumPlatform.Orchestrator.Worker.Lemmas
import Mathlib.Tactic.Linarith

namespace QuantumPlatform.Orchestrator

open Process Python QuantumPlatform.Core

section waiting

variable {clock start interval pause : ℚ} (handle : JobHandle) (config : PollingConfig)
  (transientRetries : Int) (waiting : Waiting)
  {again : ℚ → Int → Waiting → Program sig (Except Exc ExperimentResult × Waiting)}

theorem failed_clocked {α : Type} (f : Waiting → Program sig α)
    (hf : ∀ later later', clocked.Obeys (fun _ _ => True) later' (f later)) :
    clocked.Obeys (fun _ _ => True) clock (waiting.failed.bind f) :=
  failed_obeys waiting f trivial (fun later => hf later clock) fun _ later => hf later _

theorem abandon_clocked (exc : Exc) :
    clocked.Obeys (fun _ _ => True) clock (abandon handle exc) := by
  refine ⟨trivial, fun answer _ => ?_⟩
  cases answer <;> trivial

variable (hmax : pause ≤ config.maxInterval) (hbackoff : 1 ≤ config.backoffFactor)
  (hpositive : 0 < pause) (hinterval : pause ≤ interval)

include hmax hbackoff hpositive hinterval

-- The next pause is not shorter than `pause` either.
theorem pause_le_next :
    pause ≤ min (interval * config.backoffFactor) config.maxInterval := by
  have hnonneg : 0 ≤ interval := by linarith
  have hgrows : interval * 1 ≤ interval * config.backoffFactor :=
    mul_le_mul_of_nonneg_left hbackoff hnonneg
  rw [mul_one] at hgrows
  exact le_min (hinterval.trans hgrows) hmax

-- The loop goes on after a pause only.
theorem collect_clocked (hagain : ∀ later interval retries waiting, clock + pause ≤ later →
      pause ≤ interval → clocked.Obeys (fun _ _ => True) later (again interval retries waiting)) :
    clocked.Obeys (fun _ _ => True) clock
      (collect handle config interval transientRetries waiting again) := by
  have hnext := pause_le_next config hmax hbackoff hpositive hinterval
  have hslept : clock + pause ≤ clock + interval := by linarith
  rw [collect_eq]
  refine ⟨trivial, fun answer _ => ?_⟩
  cases answer with
  | ok result => trivial
  | error exc =>
      simp only
      split_ifs
      · exact failed_clocked _ _ fun _ _ => trivial
      · exact ⟨trivial, fun _ _ => hagain _ _ _ _ hslept hnext⟩
      · trivial

theorem poll_clocked (hagain : ∀ now later interval retries waiting, clock ≤ now →
      now - start ≤ config.timeout → now + pause ≤ later → pause ≤ interval →
      clocked.Obeys (fun _ _ => True) later (again interval retries waiting)) :
    clocked.Obeys (fun _ _ => True) clock
      (poll handle config start interval transientRetries waiting again) := by
  have hnext := pause_le_next config hmax hbackoff hpositive hinterval
  rw [poll_eq]
  refine ⟨trivial, fun (now : ℚ) hnow => ?_⟩
  have hnow : clock ≤ now := hnow
  beta_reduce
  split_ifs with hlate
  · exact (abandon_clocked handle _).bind fun _ _ _ => trivial
  · have hintime : now - start ≤ config.timeout := not_lt.mp hlate
    have hslept : now + pause ≤ now + interval := by linarith
    refine ⟨trivial, fun answer _ => ?_⟩
    rcases answer with exc | status
    · simp only
      split_ifs
      · exact failed_clocked _ _ fun _ _ => trivial
      · trivial
    · have hcollect := @collect_clocked now interval pause handle config transientRetries waiting
        again hmax hbackoff hpositive hinterval fun later interval retries waiting hlater =>
          hagain now later interval retries waiting hnow hintime hlater
      cases status with
      | completed => exact hcollect
      | failed => exact hcollect
      | cancelled => trivial
      | queued =>
          exact ⟨trivial, fun _ _ => hagain now _ _ _ _ hnow hintime hslept hnext⟩
      | running =>
          exact ⟨trivial, fun _ _ => hagain now _ _ _ _ hnow hintime hslept hnext⟩

-- The turns that are left outlast the timeout, so a turn without fuel comes
-- too late to be taken.
theorem pollLoop_clocked (fuel : Nat)
    (hfuel : config.timeout < clock - start + (fuel - 1) * pause)
    (hsome : 0 < fuel) :
    clocked.Obeys (fun _ _ => True) clock
      (pollLoop handle config false start fuel interval transientRetries waiting) := by
  induction fuel generalizing clock interval transientRetries waiting with
  | zero => exact absurd hsome (lt_irrefl 0)
  | succ fuel ih =>
      refine poll_clocked handle config transientRetries waiting.polled hmax hbackoff hpositive
        hinterval ?_
      intro now later interval retries waiting hnow hintime hlater hpause
      have hturns : config.timeout < clock - start + fuel * pause := by
        have hcast : ((fuel + 1 : ℕ) : ℚ) - 1 = fuel := by
          rw [Nat.cast_add, Nat.cast_one, add_sub_cancel_right]
        rw [hcast] at hfuel
        exact hfuel
      have hleft : config.timeout < later - start + (fuel - 1) * pause := by
        have hexpand : ((fuel : ℚ) - 1) * pause = fuel * pause - pause := by
          rw [sub_mul, one_mul]
        rw [hexpand]
        linarith
      have hagain : 0 < fuel := by
        by_contra hnone
        have hzero : fuel = 0 := by omega
        rw [hzero, Nat.cast_zero, zero_mul, add_zero] at hturns
        linarith
      exact ih retries waiting hpause hleft hagain

omit hinterval in
theorem waitForResult_clocked (fuel : Nat) (backendName : String) (metrics : Option PollingMetrics)
    (hinitial : pause ≤ config.initialInterval) (htimeout : 0 ≤ config.timeout)
    (hfuel : config.timeout < (fuel - 1) * pause) :
    clocked.Obeys (fun _ _ => True) clock
      (waitForResult fuel backendName handle config {} false metrics) := by
  have hsome : 0 < fuel := by
    by_contra hnone
    have hzero : fuel = 0 := by omega
    rw [hzero, Nat.cast_zero, zero_sub, neg_mul, one_mul] at hfuel
    linarith
  refine ⟨trivial, fun (started : ℚ) _ => ?_⟩
  have hloop := @pollLoop_clocked started started config.initialInterval pause handle config 0
    ⟨{}, metrics⟩ hmax hbackoff hpositive hinitial fuel (by rw [sub_self, zero_add]; exact hfuel) hsome
  refine hloop.bind fun later outcome _ => ?_
  unfold timed
  cases outcome.2.metrics with
  | none => trivial
  | some metrics => exact ⟨trivial, fun _ _ => trivial⟩

end waiting

section running

variable {env : Env} {pause : ℚ} (hpatient : Patient env pause)

include hpatient

theorem keeping_clocked : KeepingOnce clocked (fun _ => True) (fun _ _ => True)
    (fun _ _ => True) env := by
  have hbackoff : (1 : ℚ) ≤ 9 / 5 := by norm_num
  have htimeout : (0 : ℚ) ≤ 30 := by norm_num
  refine ⟨⟨fun _ _ _ _ => trivial, ?_, ?_, ?_, ?_, ?_⟩, ?_⟩
  · intro clock circuit _
    refine ⟨trivial, fun answer _ => ?_⟩
    cases answer <;> trivial
  · intro clock topic payload _
    refine ⟨trivial, fun outcome _ => ?_⟩
    cases outcome with
    | returned => trivial
    | raised exc stored =>
        change if exc.isException then True else True
        split_ifs
  · intro clock _
    exact ⟨trivial, fun _ _ => trivial⟩
  · intro clock _
    exact ⟨trivial, fun _ _ => trivial⟩
  · intro clock handle _
    refine (waitForResult_clocked handle
      { initialInterval := env.settings.pollingInitialInterval,
        maxInterval := env.settings.pollingMaxInterval }
      hpatient.max hbackoff hpatient.positive _ _ _ hpatient.initial htimeout
      hpatient.outlast).mono fun later outcome _ => ?_
    obtain ⟨result, waiting⟩ := outcome
    cases result with
    | error exc => trivial
    | ok result =>
        simp only
        split <;> trivial
  · intro clock handle _
    have hmax : pause ≤ executionConfig.maxInterval := by
      refine hpatient.once.trans ?_
      change (1 / 4 : ℚ) ≤ 5
      norm_num
    rw [waitOnce, Py.run_lift_bind]
    refine (waitForResult_clocked handle _ hmax hbackoff hpatient.positive _ _ _
      hpatient.once htimeout hpatient.outlast).bind fun later outcome _ => ?_
    obtain ⟨result, waiting⟩ := outcome
    cases result <;> trivial

theorem executeTask_clocked (task : ExperimentTask) (clock : ℚ) :
    clocked.Obeys (fun _ _ => True) clock (executeTask env task).run :=
  ((keeping_clocked hpatient).executeTask task clock trivial).mono fun _ _ _ => trivial

omit hpatient in
theorem messaging_clocked (clock : ℚ) {program : Program sig (Except Exc Unit)}
    (honly : program.Only Effect.Messaging) : clocked.Obeys (fun _ _ => True) clock program := by
  refine Monitor.Obeys.of_only ?_ (fun _ _ _ _ _ => trivial) honly trivial
  intro current op _ hop
  cases op <;> trivial

theorem handleMessage_clocked (message : Message) (clock : ℚ) :
    clocked.Obeys (fun _ _ => True) clock (handleMessage env message).run := by
  refine ⟨trivial, fun _ _ => ?_⟩
  cases ExperimentTask.fromJson message.body with
  | error exc => exact messaging_clocked _ (deadLetter_ack_only message)
  | ok task =>
      refine @handleTask_rule _ _ _ _ _ _ (fun _ => True) _ ?_ ?_ ?_ ?_ ?_ trivial
      · intro current _
        refine ⟨trivial, fun answer _ => ?_⟩
        cases answer <;> trivial
      · intro current _
        exact ⟨trivial, fun _ _ => trivial⟩
      · intro current error _
        exact messaging_clocked _ (publish_ack_only trivial trivial)
      · intro current _
        exact messaging_clocked _ (waitForCalibration_only env message task)
      · intro current _
        exact runAndReport_rule (executeTask_clocked hpatient task current)
          (fun _ _ _ => messaging_clocked _ (publish_ack_only trivial trivial))
          (fun _ _ _ _ => messaging_clocked _ (publish_ack_only trivial trivial)) fun _ _ _ _ => trivial

theorem calibrationCycle_clocked (clock : ℚ) :
    clocked.Obeys (fun _ _ => True) clock (calibrationCycle env).run := by
  have hkeeping := keeping_clocked hpatient
  have hprobe : clocked.Obeys (Kept (fun _ => True) fun _ _ => True) clock
      (runCalibration env).run := by
    refine hkeeping.submitted _ trivial fun later handle _ => ?_
    refine Kept.bind (hkeeping.waitOnce later handle trivial) fun last result _ => ?_
    refine Kept.ofExcept ?_ fun counts _ => ⟨trivial, fun _ _ => trivial⟩
    cases probeCounts env.settings.calibrationDemoErrorRate result <;> trivial
  have hsaves : ∀ later row, clocked.Obeys (Kept (fun _ => True) fun _ _ => True) later
      (calibrationSave row >>= fun _ => publishCalibrationResult row).run := by
    intro later row
    refine ⟨trivial, fun outcome _ => ?_⟩
    cases outcome with
    | raised exc stored => trivial
    | returned =>
        refine ⟨trivial, fun sent _ => ?_⟩
        cases sent <;> trivial
  refine ⟨trivial, fun _ _ => ?_⟩
  refine @Py.obeys_bind _ _ _ _ _ (fun _ _ => True) _ _ _ _ ?_
    (fun _ _ _ => ⟨trivial, fun _ _ => trivial⟩) fun _ _ _ => trivial
  exact Py.obeys_exceptException (Kept.bind hprobe fun later row _ => hsaves later row)
    (fun _ _ _ => trivial) (fun _ _ _ _ => trivial) fun _ _ _ _ => trivial

theorem runCalibrationLoop_clocked (cycles : Nat) (clock : ℚ) :
    clocked.Obeys (fun _ _ => True) clock (runCalibrationLoop env cycles).run := by
  induction cycles generalizing clock with
  | zero => trivial
  | succ cycles ih =>
      exact Py.obeys_bind (calibrationCycle_clocked hpatient clock) (fun later _ _ => ih later)
        fun _ _ _ => trivial

end running

section ends

variable {α : Type} {program rest : Program sig α} {events : List (Event sig)} {clock : ℚ}

-- A run is never cut off, and from each of its points it can get to its end.
theorem runs_on (h : clocked.Obeys (fun _ _ => True) clock program)
    (htrace : program.Trace events rest) (hadmits : clocked.Admits clock events) :
    (∀ next, rest ≠ .call .hang next) ∧ ∃ more value, rest.Returns more value := by
  have hrest := (h.trace htrace hadmits).2
  constructor
  · rintro next rfl
    exact hrest.1
  · have hanswer : ∀ (now : ℚ) (op : Effect), clocked.allowed now op →
        ∃ answer, clocked.admits now op answer := by
      intro now op hallowed
      cases op with
      | publish queue message => exact ⟨.returned, trivial⟩
      | declareQueue name => exact ⟨.returned, trivial⟩
      | ack => exact ⟨.returned, trivial⟩
      | sleep seconds => exact ⟨(), trivial⟩
      | utcnow => exact ⟨(0 : Int), trivial⟩
      | monotonic => exact ⟨now, le_refl now⟩
      | cancelled => exact ⟨false, trivial⟩
      | submit circuit => exact ⟨.error (Exc.runtimeError ""), trivial⟩
      | pollStatus handle => exact ⟨.error (Exc.runtimeError ""), trivial⟩
      | fetchResult handle => exact ⟨.error (Exc.runtimeError ""), trivial⟩
      | cancel handle => exact ⟨.ok (), trivial⟩
      | calibrationGet name => exact ⟨.ok none, trivial⟩
      | calibrationSave result => exact ⟨.returned, trivial⟩
      | triggerSet => exact ⟨(), trivial⟩
      | triggerClear => exact ⟨(), trivial⟩
      | triggerWait timeout => exact ⟨true, trivial⟩
      | kafkaSend topic payload => exact ⟨.returned, trivial⟩
      | handleMessage => exact ⟨(), trivial⟩
      | hang => exact absurd hallowed id
    obtain ⟨more, value, hreturns, -⟩ := Monitor.Obeys.completes hanswer hrest
    exact ⟨more, value, hreturns⟩

end ends

end QuantumPlatform.Orchestrator

import QuantumPlatform.Orchestrator.Log
import QuantumPlatform.Orchestrator.Polling.Theorems
import QuantumPlatform.Orchestrator.Execution.Lemmas

namespace QuantumPlatform.Orchestrator

open Process Python QuantumPlatform.Core

variable {log : Log} {handle : JobHandle}

theorem Log.waited_raised (exc : Exc) : log.Waited handle (log.raised exc) (.error exc) := by
  unfold Log.raised
  split_ifs with hexc
  · exact .inl ⟨hexc, rfl⟩
  · exact .inr ⟨by simpa using hexc, .inr rfl⟩

section waiting

variable (handle) (config : PollingConfig) (start interval : ℚ) (transientRetries : Int)
  (waiting : Waiting)
  (again : ℚ → Int → Waiting → Program sig (Except Exc ExperimentResult × Waiting))

-- The clock does not show in the log.
theorem failed_logs {α : Type} {post : Log → α → Prop} (f : Waiting → Program sig α)
    (hf : ∀ later, logging.Obeys post log (f later)) :
    logging.Obeys post log (waiting.failed.bind f) :=
  failed_obeys waiting f trivial hf fun _ => hf

theorem abandon_logs (exc : Exc) (hexc : exc.isException = true) :
    logging.Obeys (fun later outcome => log.Waited handle later outcome) log
      (abandon handle exc) := by
  refine ⟨trivial, fun answer _ => ?_⟩
  cases answer with
  | ok _ => exact .inl ⟨hexc, rfl⟩
  | error raised => exact @Log.waited_raised log handle raised

theorem collect_logs
    (hagain : ∀ interval retries waiting, logging.Obeys
      (fun later outcome => log.Waited handle later outcome.1) log (again interval retries waiting)) :
    logging.Obeys (fun later outcome => log.Waited handle later outcome.1) log
      (collect handle config interval transientRetries waiting again) := by
  rw [collect_eq]
  refine ⟨trivial, fun answer _ => ?_⟩
  cases answer with
  | ok result => exact rfl
  | error exc =>
      have hraised : log.Waited handle (log.raised exc) (.error exc) := Log.waited_raised exc
      simp only
      split_ifs with htransient
      · exact failed_logs _ _ fun later => hraised
      · have hexc : exc.isException = true := isException_of_transient htransient
        have hsame : log.after (.fetchResult handle) (.error exc) = log := if_pos hexc
        refine ⟨trivial, fun _ _ => ?_⟩
        change logging.Obeys _ (log.after (.fetchResult handle) (.error exc)) _
        rw [hsame]
        exact hagain _ _ _
      · exact hraised

theorem poll_logs
    (hagain : ∀ interval retries waiting, logging.Obeys
      (fun later outcome => log.Waited handle later outcome.1) log (again interval retries waiting)) :
    logging.Obeys (fun later outcome => log.Waited handle later outcome.1) log
      (poll handle config start interval transientRetries waiting again) := by
  rw [poll_eq]
  refine ⟨trivial, fun (now : ℚ) _ => ?_⟩
  beta_reduce
  split_ifs
  · exact (abandon_logs handle _ rfl).bind fun later outcome houtcome => houtcome
  · refine ⟨trivial, fun answer _ => ?_⟩
    rcases answer with exc | status
    · have hraised : log.Waited handle (log.raised exc) (.error exc) := Log.waited_raised exc
      simp only
      split_ifs with hexc
      · exact failed_logs _ _ fun later => hraised
      · exact hraised
    · have hcollect := collect_logs handle config interval transientRetries waiting again hagain
      cases status with
      | completed => exact hcollect
      | failed => exact hcollect
      | cancelled => exact .inr ⟨rfl, .inl rfl⟩
      | queued => exact ⟨trivial, fun _ _ => hagain _ _ _⟩
      | running => exact ⟨trivial, fun _ _ => hagain _ _ _⟩

theorem pollLoop_logs (fuel : Nat) :
    logging.Obeys (fun later outcome => log.Waited handle later outcome.1) log
      (pollLoop handle config false start fuel interval transientRetries waiting) := by
  induction fuel generalizing interval transientRetries waiting with
  | zero => exact ⟨trivial, fun answer => nomatch answer⟩
  | succ fuel ih => exact poll_logs handle config start interval transientRetries waiting.polled _ ih

-- What waiting for a job leaves in the log.
theorem waitForResult_logs (fuel : Nat) (backendName : String) (metrics : Option PollingMetrics) :
    logging.Obeys (fun later outcome => log.Waited handle later outcome.1) log
      (waitForResult fuel backendName handle config {} false metrics) := by
  refine ⟨trivial, fun (start : ℚ) _ => ?_⟩
  refine (pollLoop_logs handle config start _ 0 _ fuel).bind fun later outcome houtcome => ?_
  unfold timed
  cases outcome.2.metrics with
  | none => exact houtcome
  | some metrics => exact ⟨trivial, fun _ _ => houtcome⟩

end waiting

theorem waitOnce_logs (env : Env) (config : PollingConfig) :
    logging.Obeys (fun later result => log.Waited handle later result) log
      (waitOnce env handle config).run := by
  rw [waitOnce, Py.run_lift_bind]
  refine (waitForResult_logs handle config _ _ _).bind fun later outcome houtcome => ?_
  obtain ⟨result, waiting⟩ := outcome
  cases result with
  | ok result => exact houtcome
  | error exc => exact houtcome

theorem waitOnce_watches (env : Env) (handle : JobHandle) (config : PollingConfig) :
    (waitOnce env handle config).run.Only Effect.Watching := by
  rw [waitOnce, Py.run_lift_bind]
  refine (waitForResult_watches _ _ _ _ _ _ _).bind fun outcome => ?_
  obtain ⟨result, waiting⟩ := outcome
  cases result <;> trivial

theorem waitOnce_only (env : Env) (handle : JobHandle) (config : PollingConfig) :
    (waitOnce env handle config).run.Only Effect.Computing :=
  (waitOnce_watches env handle config).mono fun _ => Effect.Watching.computing

section first_poll

variable (env : Env) (handle)

theorem waitOnce_first {events : List (Event sig)} {fuel : Nat}
    {outcome : Except Exc ExperimentResult × Waiting} (hfuel : env.fuel = fuel + 1)
    (hpoll : (poll handle executionConfig 0 executionConfig.initialInterval 0 (Waiting.polled {})
      (pollLoop handle executionConfig false 0 fuel)).Returns events outcome)
    (hmetrics : outcome.2.metrics = none) :
    (waitOnce env handle executionConfig).run.Returns (⟨.monotonic, (0 : ℚ)⟩ :: events)
      outcome.1 := by
  rw [waitOnce, Py.run_lift_bind, hfuel]
  refine (Program.returns_bind _ _ _ _).mpr ⟨_, outcome, [], (List.append_nil _).symm,
    waitForResult_first _ hpoll hmetrics, ?_⟩
  obtain ⟨result, waiting⟩ := outcome
  cases result <;> exact .stop _

variable (hfuel : 0 < env.fuel)

include hfuel

-- The shortest waits: the first poll finds the job ended, or cancelled.
theorem waitOnce_fetches (result : ExperimentResult)
    (hended : result.status = .completed ∨ result.status = .failed) :
    (waitOnce env handle executionConfig).run.Returns
      [⟨.monotonic, (0 : ℚ)⟩, ⟨.monotonic, (0 : ℚ)⟩, ⟨.pollStatus handle, .ok result.status⟩,
        ⟨.fetchResult handle, .ok result⟩] (.ok result) := by
  have htimeout : 0 ≤ executionConfig.timeout := by
    unfold executionConfig
    norm_num
  exact waitOnce_first handle env (Nat.sub_add_cancel hfuel).symm
    (poll_fetches handle _ _ _ _ htimeout result hended) rfl

theorem waitOnce_cancelled :
    (waitOnce env handle executionConfig).run.Returns
      [⟨.monotonic, (0 : ℚ)⟩, ⟨.monotonic, (0 : ℚ)⟩, ⟨.pollStatus handle, .ok .cancelled⟩]
      (.error (Exc.cancelledError ("job " ++ handle.jobId ++ " was cancelled"))) := by
  have htimeout : 0 ≤ executionConfig.timeout := by
    unfold executionConfig
    norm_num
  exact waitOnce_first handle env (Nat.sub_add_cancel hfuel).symm
    (poll_cancelled handle _ _ _ _ htimeout) rfl

end first_poll

end QuantumPlatform.Orchestrator

import QuantumPlatform.Orchestrator.Polling

namespace QuantumPlatform.Orchestrator

open Process Python QuantumPlatform.Core

theorem isException_of_transient {exc : Exc} (htransient : isTransient exc = true) :
    exc.isException = true := by
  unfold isTransient at htransient
  unfold Exc.isException
  rw [of_decide_eq_true htransient]
  rfl

variable (handle : JobHandle) (config : PollingConfig) (start interval : ℚ)
  (transientRetries : Int) (waiting : Waiting)
  (again : ℚ → Int → Waiting → Program sig (Except Exc ExperimentResult × Waiting))

section equations

theorem collect_eq :
    collect handle config interval transientRetries waiting again =
      .call (.fetchResult handle) fun
        | .ok result => .ret (.ok result, waiting.succeeded)
        | .error exc =>
            if isTransient exc then
              if transientRetries + 1 > config.maxRetriesOnTransientError then
                (waiting.retried (transientRetries + 1)).failed.bind fun later =>
                  .ret (.error exc, later)
              else
                .call (.sleep interval) fun _ =>
                  again (min (interval * config.backoffFactor) config.maxInterval)
                    (transientRetries + 1) (waiting.retried (transientRetries + 1))
            else .ret (.error exc, waiting) := rfl

theorem poll_eq :
    poll handle config start interval transientRetries waiting again =
      .call .monotonic fun (now : ℚ) =>
        if now - start > config.timeout then
          (abandon handle (pollingTimeoutError handle config.timeout)).bind fun outcome =>
            .ret (outcome, waiting)
        else
          .call (.pollStatus handle) fun
            | .error exc =>
                if exc.isException then
                  waiting.failed.bind fun later => .ret (.error exc, later)
                else .ret (.error exc, waiting)
            | .ok .completed => collect handle config interval transientRetries waiting again
            | .ok .failed => collect handle config interval transientRetries waiting again
            | .ok .cancelled => .ret
                (.error (Exc.cancelledError ("job " ++ handle.jobId ++ " was cancelled")), waiting)
            | .ok .queued => .call (.sleep interval) fun _ =>
                again (min (interval * config.backoffFactor) config.maxInterval) transientRetries
                  waiting
            | .ok .running => .call (.sleep interval) fun _ =>
                again (min (interval * config.backoffFactor) config.maxInterval) transientRetries
                  waiting := rfl

end equations

-- The calls that waiting for a job makes: clocks, the token and the backend.
def Effect.Watching : Effect → Prop
  | .sleep _ => True
  | .monotonic => True
  | .cancelled => True
  | .pollStatus _ => True
  | .fetchResult _ => True
  | .cancel _ => True
  | .hang => True
  | _ => False

-- The calls that running a task may make: clocks, the backend and the telemetry.
def Effect.Computing : Effect → Prop
  | .sleep _ => True
  | .utcnow => True
  | .monotonic => True
  | .cancelled => True
  | .submit _ => True
  | .pollStatus _ => True
  | .fetchResult _ => True
  | .cancel _ => True
  | .kafkaSend _ _ => True
  | .hang => True
  | _ => False

-- Recording a failure reads the clock or does not.
theorem failed_obeys {State α : Type} {monitor : Monitor sig State} {post : State → α → Prop}
    {state : State} (waiting : Waiting) (f : Waiting → Program sig α)
    (hclock : monitor.allowed state .monotonic)
    (hunread : ∀ later, monitor.Obeys post state (f later))
    (hread : ∀ (now : ℚ) later, monitor.Obeys post (monitor.next state .monotonic now) (f later)) :
    monitor.Obeys post state (waiting.failed.bind f) := by
  unfold Waiting.failed CircuitBreaker.recordFailure
  simp only [ge_iff_le]
  split_ifs
  · exact ⟨hclock, fun now _ => hread now _⟩
  · exact hunread _

section only

theorem recordFailure_watches (breaker : CircuitBreaker) :
    breaker.recordFailure.Only Effect.Watching := by
  unfold CircuitBreaker.recordFailure
  simp only [ge_iff_le]
  split
  · exact ⟨trivial, fun _ => trivial⟩
  · trivial

theorem failed_watches (waiting : Waiting) : waiting.failed.Only Effect.Watching :=
  (recordFailure_watches waiting.breaker).bind fun _ => trivial

theorem abandon_watches (handle : JobHandle) (exc : Exc) :
    (abandon handle exc).Only Effect.Watching := by
  refine ⟨trivial, fun answer => ?_⟩
  cases answer <;> trivial

theorem collect_watches
    (hagain : ∀ interval retries waiting, (again interval retries waiting).Only Effect.Watching) :
    (collect handle config interval transientRetries waiting again).Only Effect.Watching := by
  rw [collect_eq]
  refine ⟨trivial, fun answer => ?_⟩
  cases answer with
  | ok result => trivial
  | error exc =>
      simp only
      split_ifs
      · exact (failed_watches _).bind fun _ => trivial
      · exact ⟨trivial, fun _ => hagain _ _ _⟩
      · trivial

theorem poll_watches
    (hagain : ∀ interval retries waiting, (again interval retries waiting).Only Effect.Watching) :
    (poll handle config start interval transientRetries waiting again).Only Effect.Watching := by
  rw [poll_eq]
  refine ⟨trivial, fun (now : ℚ) => ?_⟩
  beta_reduce
  split_ifs
  · exact (abandon_watches handle _).bind fun _ => trivial
  · refine ⟨trivial, fun answer => ?_⟩
    rcases answer with exc | status
    · simp only
      split_ifs
      · exact (failed_watches _).bind fun _ => trivial
      · trivial
    · cases status with
      | completed => exact collect_watches handle config interval transientRetries waiting again hagain
      | failed => exact collect_watches handle config interval transientRetries waiting again hagain
      | cancelled => trivial
      | queued => exact ⟨trivial, fun _ => hagain _ _ _⟩
      | running => exact ⟨trivial, fun _ => hagain _ _ _⟩

theorem pollLoop_watches (token : Bool) (fuel : Nat) :
    (pollLoop handle config token start fuel interval transientRetries waiting).Only
      Effect.Watching := by
  induction fuel generalizing interval transientRetries waiting with
  | zero => exact ⟨trivial, fun answer => nomatch answer⟩
  | succ fuel ih =>
      have hpoll := poll_watches handle config start interval transientRetries waiting.polled _ ih
      cases token with
      | false => exact hpoll
      | true =>
          refine ⟨trivial, fun requested => ?_⟩
          cases requested with
          | true => exact (abandon_watches handle _).bind fun _ => trivial
          | false => exact hpoll

theorem waitForResult_watches (fuel : Nat) (backendName : String) (handle : JobHandle)
    (config : PollingConfig) (breaker : CircuitBreaker) (token : Bool)
    (metrics : Option PollingMetrics) :
    (waitForResult fuel backendName handle config breaker token metrics).Only
      Effect.Watching := by
  have htimed : ∀ start outcome, (timed start outcome).Only Effect.Watching := by
    intro start outcome
    unfold timed
    cases outcome.2.metrics with
    | none => trivial
    | some metrics => exact ⟨trivial, fun _ => trivial⟩
  have hopen : breaker.isOpen.Only Effect.Watching := by
    unfold CircuitBreaker.isOpen
    cases breaker.openedAt with
    | none => trivial
    | some openedAt =>
        refine ⟨trivial, fun (now : ℚ) => ?_⟩
        change Program.Only _
          (if now - openedAt ≥ breaker.resetAfter then .ret _ else .ret (true, breaker))
        split_ifs
        · trivial
        · trivial
  refine hopen.bind fun answer => ?_
  obtain ⟨isOpen, breaker⟩ := answer
  cases isOpen with
  | true => trivial
  | false =>
      refine ⟨trivial, fun start => ?_⟩
      exact (pollLoop_watches handle config start _ 0 _ token fuel).bind fun outcome =>
        htimed start outcome

theorem Effect.Watching.computing {op : Effect} (h : op.Watching) : op.Computing := by
  cases op <;> trivial

theorem waitForResult_only (fuel : Nat) (backendName : String) (handle : JobHandle)
    (config : PollingConfig) (breaker : CircuitBreaker) (token : Bool)
    (metrics : Option PollingMetrics) :
    (waitForResult fuel backendName handle config breaker token metrics).Only
      Effect.Computing :=
  (waitForResult_watches fuel backendName handle config breaker token metrics).mono
    fun _ => Effect.Watching.computing

end only

-- Waits without a token or metrics that end at the first poll.
section first_poll

variable {handle config}

theorem waitForResult_first {events : List (Event sig)}
    {outcome : Except Exc ExperimentResult × Waiting} {fuel : Nat} (backendName : String)
    (hpoll : (poll handle config 0 config.initialInterval 0 (Waiting.polled {})
      (pollLoop handle config false 0 fuel)).Returns events outcome)
    (hmetrics : outcome.2.metrics = none) :
    (waitForResult (fuel + 1) backendName handle config {} false none).Returns
      (⟨.monotonic, (0 : ℚ)⟩ :: events) outcome := by
  refine @Program.Trace.step sig _ .monotonic _ (0 : ℚ) _ _ ?_
  have htimed : (timed 0 outcome).Returns [] outcome := by
    unfold timed
    rw [hmetrics]
    exact .stop _
  exact (Program.returns_bind (pollLoop handle config false 0 (fuel + 1) _ 0 _) (timed 0) _ _).mpr
    ⟨events, outcome, [], by simp, hpoll, htimed⟩

variable (handle) (htimeout : 0 ≤ config.timeout)

include htimeout

theorem poll_collects {status : JobStatus} (hended : status = .completed ∨ status = .failed)
    {events : List (Event sig)} {outcome : Except Exc ExperimentResult × Waiting}
    (hcollect : (collect handle config interval transientRetries waiting again).Returns events
      outcome) :
    (poll handle config 0 interval transientRetries waiting again).Returns
      (⟨.monotonic, (0 : ℚ)⟩ :: ⟨.pollStatus handle, .ok status⟩ :: events) outcome := by
  rw [poll_eq]
  refine @Program.Trace.step sig _ .monotonic _ (0 : ℚ) _ _ ?_
  rw [if_neg (by rw [sub_self]; exact not_lt_of_ge htimeout)]
  refine .step _ _ _ ?_
  rcases hended with rfl | rfl
  · exact hcollect
  · exact hcollect

-- A job that has ended is fetched, whatever its result says.
theorem poll_fetches (result : ExperimentResult)
    (hended : result.status = .completed ∨ result.status = .failed) :
    (poll handle config 0 interval transientRetries waiting again).Returns
      [⟨.monotonic, (0 : ℚ)⟩, ⟨.pollStatus handle, .ok result.status⟩,
        ⟨.fetchResult handle, .ok result⟩] (.ok result, waiting.succeeded) :=
  poll_collects _ _ _ _ _ htimeout hended (.step _ _ _ (.stop _))

-- The breaker stays closed after this failure.
theorem poll_raises {exc : Exc} (hexc : exc.isException = true)
    (hclosed : waiting.breaker.consecutiveFailures + 1 < waiting.breaker.failureThreshold) :
    (poll handle config 0 interval transientRetries waiting again).Returns
      [⟨.monotonic, (0 : ℚ)⟩, ⟨.pollStatus handle, .error exc⟩]
      (.error exc, { waiting with breaker := { waiting.breaker with
        consecutiveFailures := waiting.breaker.consecutiveFailures + 1 } }) := by
  rw [poll_eq]
  refine @Program.Trace.step sig _ .monotonic _ (0 : ℚ) _ _ ?_
  rw [if_neg (by rw [sub_self]; exact not_lt_of_ge htimeout)]
  refine .step _ _ _ ?_
  simp only [if_pos hexc, Waiting.failed, CircuitBreaker.recordFailure, ge_iff_le,
    if_neg (not_le.mpr hclosed)]
  exact .stop _

theorem poll_cancelled :
    (poll handle config 0 interval transientRetries waiting again).Returns
      [⟨.monotonic, (0 : ℚ)⟩, ⟨.pollStatus handle, .ok .cancelled⟩]
      (.error (Exc.cancelledError ("job " ++ handle.jobId ++ " was cancelled")), waiting) := by
  rw [poll_eq]
  refine @Program.Trace.step sig _ .monotonic _ (0 : ℚ) _ _ ?_
  rw [if_neg (by rw [sub_self]; exact not_lt_of_ge htimeout)]
  exact .step _ _ _ (.stop _)

end first_poll

end QuantumPlatform.Orchestrator

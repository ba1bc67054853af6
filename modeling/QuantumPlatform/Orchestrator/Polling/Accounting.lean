import QuantumPlatform.Orchestrator.Polling.Ledger.Theorems

namespace QuantumPlatform.Orchestrator

open Process Python QuantumPlatform.Core

section accounting

variable {breaker through later : CircuitBreaker} {now : ℚ}

theorem replay_cons (history : History) (access : Access) :
    breaker.replay ((now, access) :: history) =
      (breaker.access now access).bind fun later => later.replay history := by
  unfold CircuitBreaker.replay
  rw [List.foldlM_cons]
  rfl

-- Who is let through finds a breaker that has not been opened again.
theorem isOpen_through (h : breaker.isOpen.answered (clockAt now) = some (false, through)) :
    through.openedAt = none ∧ (breaker.openedAt = none → through = breaker) := by
  cases hopened : breaker.openedAt with
  | none =>
      rw [isOpen_none hopened] at h
      obtain rfl : breaker = through := (Prod.mk.inj (Option.some.inj h)).2
      exact ⟨hopened, fun _ => rfl⟩
  | some openedAt =>
      rw [isOpen_some hopened] at h
      have hanswer := Option.some.inj h
      by_cases helapsed : now - openedAt ≥ breaker.resetAfter
      · rw [if_pos helapsed] at hanswer
        obtain rfl := (Prod.mk.inj hanswer).2
        exact ⟨rfl, fun h => nomatch h⟩
      · rw [if_neg helapsed] at hanswer
        exact absurd (Prod.mk.inj hanswer).1.symm Bool.false_ne_true

-- A recorded failure can be told from no record: it is counted, and it does not close
-- a breaker.
theorem recordFailure_counts (h : breaker.recordFailure.answered (clockAt now) = some later) :
    later.consecutiveFailures = breaker.consecutiveFailures + 1 ∧
      (breaker.failureThreshold ≤ breaker.consecutiveFailures + 1 ∨ breaker.openedAt ≠ none →
        later.openedAt ≠ none) := by
  unfold CircuitBreaker.recordFailure at h
  simp only [ge_iff_le] at h
  by_cases hreached : breaker.failureThreshold ≤ breaker.consecutiveFailures + 1
  · rw [if_pos hreached] at h
    obtain rfl := Option.some.inj h
    exact ⟨rfl, fun _ => Option.some_ne_none now⟩
  · rw [if_neg hreached] at h
    obtain rfl := Option.some.inj h
    exact ⟨rfl, fun hopened => hopened.resolve_left hreached⟩

theorem not_failed (hthrough : breaker.isOpen.answered (clockAt now) = some (false, through))
    {records : History} {later : ℚ} (hrecords : records.map Prod.snd = [.failure]) :
    breaker.replay ((later, .check) :: records) ≠ some through := by
  intro hreplay
  obtain ⟨⟨time, access⟩, rfl, rfl⟩ : ∃ entry, records = [entry] ∧ entry.2 = .failure := by
    simpa [List.map_eq_singleton_iff] using hrecords
  obtain ⟨hclosed, hsame⟩ := isOpen_through hthrough
  rw [replay_cons] at hreplay
  obtain ⟨checked, hchecked, hfailed⟩ := Option.bind_eq_some_iff.mp hreplay
  rw [replay_cons] at hfailed
  obtain ⟨failed, hfailure, hlast⟩ := Option.bind_eq_some_iff.mp hfailed
  obtain rfl : failed = through := Option.some.inj hlast
  obtain ⟨hcount, hopened⟩ := recordFailure_counts hfailure
  obtain ⟨⟨isOpen, other⟩, hasked, rfl⟩ := Option.map_eq_some_iff.mp hchecked
  cases hbefore : breaker.openedAt with
  | none =>
      obtain rfl := hsame hbefore
      rw [isOpen_none hbefore] at hasked
      obtain ⟨-, rfl⟩ := Prod.mk.inj (Option.some.inj hasked)
      simp only at hcount
      omega
  | some openedAt =>
      rw [isOpen_some hbefore] at hasked
      have hanswer := Option.some.inj hasked
      by_cases helapsed : later - openedAt ≥ breaker.resetAfter
      · rw [if_pos helapsed] at hanswer
        obtain ⟨-, rfl⟩ := Prod.mk.inj hanswer
        exact hopened (.inl (by simp)) hclosed
      · rw [if_neg helapsed] at hanswer
        obtain ⟨-, rfl⟩ := Prod.mk.inj hanswer
        exact hopened (.inr (by simp [hbefore])) hclosed

theorem Raise.recorded_of_retried {raise : Raise} (h : raise.retried = true) :
    raise.recorded = true := by
  unfold Raise.retried at h
  obtain ⟨hsource, htransient⟩ := Bool.and_eq_true_iff.mp h
  unfold Raise.recorded
  rw [of_decide_eq_true hsource]
  exact htransient

end accounting

-- What one wait should do to its breaker: ask it, and then record at most one outcome.
def Accounts (breaker : CircuitBreaker) (ledger : Ledger)
    (outcome : Except Exc ExperimentResult × Waiting) : Prop :=
  ∃ (now : ℚ) (records : History),
    breaker.replay ((now, .check) :: records) = some outcome.2.breaker ∧
      records.map Prod.snd = match outcome.1, ledger.escaping with
        | .ok _, _ => [.success]
        | .error _, some _ => [.failure]
        | .error _, none => []

-- The books are right exactly when no exception of the backend slips past the except
-- clauses that record a failure. What escapes the loop is what the wait raises.
theorem breaker_accounting (fuel : ℕ) (backendName : String) (handle : JobHandle)
    (config : PollingConfig) (breaker : CircuitBreaker) (token : Bool)
    (metrics : Option PollingMetrics) (events : List (Event sig))
    (outcome : Except Exc ExperimentResult × Waiting)
    (hreturns : (waitForResult fuel backendName handle config breaker token metrics).Returns
      events outcome) :
    let ledger := (bookkeeping config.timeout).after (.before breaker) events
    (∀ raise ∈ ledger.escaping, outcome.1 = .error raise.exc) ∧
      (Accounts breaker ledger outcome ↔ ∀ raise ∈ ledger.raised, raise.recorded = true) := by
  intro ledger
  have hwaited : Waited backendName config breaker metrics ledger outcome :=
    ((waitForResult_books handle fuel backendName token).trace hreturns
      (Monitor.admits_all (fun _ _ _ => trivial) _ _)).2
  generalize ledger = final at hwaited
  cases hwaited with
  | denied now closed =>
      refine ⟨fun raise h => (nomatch h), iff_of_true ⟨now, [], ?_, rfl⟩ fun raise h => (nomatch h)⟩
      rw [replay_cons, CircuitBreaker.access, closed]
      rfl
  | begun now start through _ _ passed concluded timed =>
      have hreplay : ∀ records, breaker.replay ((now, .check) :: records) =
          through.replay records := by
        intro records
        rw [replay_cons, CircuitBreaker.access, passed]
        rfl
      obtain ⟨result, final, counted⟩ := outcome
      obtain ⟨-, -, -, hended, -⟩ := concluded
      simp only at hended
      cases hended with
      | returned value answered escaping retried =>
          refine ⟨by simp [escaping], iff_of_true ⟨now, [(0, .success)], ?_, rfl⟩ fun raise h =>
            Raise.recorded_of_retried (retried raise h)⟩
          rw [hreplay, replay_cons]
          rfl
      | stopped exc answered escaping retried =>
          refine ⟨by simp [escaping], iff_of_true ⟨now, [], ?_, by simp [escaping]⟩ fun raise h =>
            Raise.recorded_of_retried (retried raise h)⟩
          rw [hreplay]
          rfl
      | raised earlier raise later answered escaping split retried budget exhausted kept failed =>
          refine ⟨by simp [escaping], ?_⟩
          rw [split]
          by_cases hrecorded : raise.recorded = true
          · obtain ⟨time, hfailure⟩ := failed hrecorded
            refine iff_of_true ⟨now, [(time, .failure)], ?_, by simp [escaping]⟩ ?_
            · rw [hreplay, replay_cons, CircuitBreaker.access, hfailure]
              rfl
            · intro other hmem
              rcases List.mem_append.mp hmem with hmem | hmem
              · exact Raise.recorded_of_retried (retried other hmem)
              · obtain rfl := List.mem_singleton.mp hmem
                exact hrecorded
          · have hkept := kept (by simpa using hrecorded)
            refine iff_of_false ?_ fun hall => hrecorded (hall raise (by simp))
            rintro ⟨time, records, hlater, hrecords⟩
            rw [escaping] at hrecords
            exact not_failed passed hrecords (hlater.trans (congrArg some hkept))

-- A first poll that fails is recorded, whether the error is transient or not.
theorem breaker_accounting_poll :
    ∃ (ledger : Ledger) (outcome : Except Exc ExperimentResult × Waiting),
      ledger.escaping = some ⟨.pollStatus, transientBackendError "busy"⟩ ∧
        Accounts {} ledger outcome := by
  have hpoll : (waitForResult 1 "qpu" ⟨"job", "qpu"⟩ {} {} false none).Returns
      [⟨.monotonic, (0 : ℚ)⟩, ⟨.monotonic, (0 : ℚ)⟩,
        ⟨.pollStatus ⟨"job", "qpu"⟩, .error (transientBackendError "busy")⟩]
      (.error (transientBackendError "busy"), ⟨{ consecutiveFailures := 1 }, none⟩) := by
    refine waitForResult_first "qpu" ?_ rfl
    exact poll_raises _ _ _ _ _ (by norm_num) rfl (by decide)
  refine ⟨_, _, ?_, (breaker_accounting _ _ _ _ _ _ _ _ _ hpoll).2.mpr ?_⟩
  · rfl
  · intro raise hmem
    obtain rfl := List.mem_singleton.mp hmem
    rfl

-- The job is done at the first poll, and fetching its result raises a RuntimeError.
theorem not_breaker_accounting :
    ¬ ∀ (fuel : ℕ) (backendName : String) (handle : JobHandle) (config : PollingConfig)
      (breaker : CircuitBreaker) (token : Bool) (metrics : Option PollingMetrics)
      (events : List (Event sig)) (outcome : Except Exc ExperimentResult × Waiting),
      (waitForResult fuel backendName handle config breaker token metrics).Returns events outcome →
        Accounts breaker ((bookkeeping config.timeout).after (.before breaker) events) outcome := by
  intro haccounts
  have hfetch : (waitForResult 1 "qpu" ⟨"job", "qpu"⟩ {} {} false none).Returns
      [⟨.monotonic, (0 : ℚ)⟩, ⟨.monotonic, (0 : ℚ)⟩, ⟨.pollStatus ⟨"job", "qpu"⟩, .ok .completed⟩,
        ⟨.fetchResult ⟨"job", "qpu"⟩, .error (Exc.runtimeError "bad counts")⟩]
      (.error (Exc.runtimeError "bad counts"), {}) := by
    refine waitForResult_first "qpu" (poll_collects _ _ _ _ _ (by norm_num) (.inl rfl) ?_) rfl
    rw [collect_eq]
    exact .step _ _ _ (.stop _)
  obtain ⟨now, records, hreplay, hrecords⟩ := haccounts _ _ _ _ _ _ _ _ _ hfetch
  have hthrough : ({} : CircuitBreaker).isOpen.answered (clockAt now) = some (false, {}) := rfl
  exact not_failed hthrough hrecords hreplay

end QuantumPlatform.Orchestrator

import QuantumPlatform.Orchestrator.Polling.Ledger

namespace QuantumPlatform.Orchestrator

open Process Python QuantumPlatform.Core

namespace Ledger

variable {timeout now start : ℚ} {ledger : Ledger}

theorem read_settled (hasked : ledger.asked = true) (hstarted : ledger.started = some start)
    (hsettled : ledger.settled = true) :
    ledger.read timeout now = { ledger with latest := now } := by
  simp [read, hasked, hstarted, hsettled]

theorem read_turn (start latest : ℚ) (polls : ℕ) (raised : List Raise) :
    (turn start latest polls raised).read timeout now =
      { turn start now polls raised with abandoned := decide (now - start > timeout) } := by
  simp [read, turn]

theorem retries_eq_length (h : ∀ raise ∈ ledger.raised, raise.retried = true) :
    ledger.retries = ledger.raised.length :=
  List.countP_eq_length.mpr h

end Ledger

theorem Tallied.congr {given : Option PollingMetrics} {ledger other : Ledger} {count total : ℕ}
    {metrics : Option PollingMetrics} (h : Tallied given ledger count metrics)
    (hraised : other.raised = ledger.raised) (htotal : total = count) :
    Tallied given other total metrics := by
  intro hgiven
  obtain ⟨tally, hsome, figures⟩ := h hgiven
  refine ⟨tally, hsome, ?_, figures.circuitBreakerWasOpen, ?_⟩
  · rw [figures.transientRetries, Ledger.retries, Ledger.retries, hraised]
  · rw [figures.pollCount, htotal]

-- A last look at the clock does not change how the wait has ended.
theorem WaitEnd.read {config : PollingConfig} {breaker later : CircuitBreaker} {ledger : Ledger}
    {result : Except Exc ExperimentResult} (h : WaitEnd config breaker ledger result later)
    (now : ℚ) : WaitEnd config breaker { ledger with latest := now } result later := by
  cases h with
  | returned result answered escaping retried => exact .returned result answered escaping retried
  | stopped exc answered escaping retried => exact .stopped exc answered escaping retried
  | raised earlier raise later answered escaping split retried budget exhausted kept failed =>
      exact .raised earlier raise later answered escaping split retried budget exhausted kept failed

section bookkeeping

variable (handle : JobHandle) (interval : ℚ) {config : PollingConfig} {start latest : ℚ}
  {waiting : Waiting} {given : Option PollingMetrics} {breaker : CircuitBreaker} {polls : ℕ}
  {raised : List Raise}

-- Recording a failure reads the clock or does not, and changes nothing but the breaker.
theorem failed_books {timeout : ℚ} {ledger : Ledger} (hasked : ledger.asked = true)
    (hstarted : ledger.started = some start) (hsettled : ledger.settled = true) :
    (bookkeeping timeout).Obeys
      (fun current later => (∃ now, current = { ledger with latest := now }) ∧
        later.metrics = waiting.metrics ∧
        ∃ now, waiting.breaker.recordFailure.answered (clockAt now) = some later.breaker)
      ledger waiting.failed := by
  have hrecord : (bookkeeping timeout).Obeys
      (fun current later => (∃ now, current = { ledger with latest := now }) ∧
        ∃ now, waiting.breaker.recordFailure.answered (clockAt now) = some later)
      ledger waiting.breaker.recordFailure := by
    unfold CircuitBreaker.recordFailure
    simp only [ge_iff_le]
    split_ifs
    · refine ⟨trivial, fun (now : ℚ) _ => ⟨⟨now, ?_⟩, now, rfl⟩⟩
      exact Ledger.read_settled hasked hstarted hsettled
    · exact ⟨⟨ledger.latest, rfl⟩, 0, rfl⟩
  unfold Waiting.failed
  refine hrecord.bind ?_
  rintro current later ⟨hcurrent, hlater⟩
  exact ⟨hcurrent, rfl, hlater⟩

-- The next turn of a wait, whatever has happened in the turns before it.
def Books (config : PollingConfig) (breaker : CircuitBreaker) (given : Option PollingMetrics)
    (start : ℚ)
    (again : ℚ → Int → Waiting → Program sig (Except Exc ExperimentResult × Waiting)) : Prop :=
  ∀ (latest interval : ℚ) (polls : ℕ) (raised : List Raise) (waiting : Waiting),
    (∀ raise ∈ raised, raise.retried = true) →
    (0 ≤ config.maxRetriesOnTransientError → raised.length ≤ config.maxRetriesOnTransientError) →
    waiting.breaker = breaker →
    Tallied given (Ledger.turn start latest polls raised) polls waiting.metrics →
    (bookkeeping config.timeout).Obeys (Concluded config breaker given start)
      (Ledger.turn start latest polls raised) (again interval raised.length waiting)

theorem retried_append (hretried : ∀ raise ∈ raised, raise.retried = true) {exc : Exc}
    (htransient : isTransient exc = true) :
    ∀ raise ∈ raised ++ [⟨.fetchResult, exc⟩], raise.retried = true := by
  intro raise hmem
  rcases List.mem_append.mp hmem with hmem | hmem
  · exact hretried raise hmem
  · obtain rfl := List.mem_singleton.mp hmem
    simp [Raise.retried, htransient]

-- The status was terminal: one call has been made in this turn.
theorem collect_books
    {again : ℚ → Int → Waiting → Program sig (Except Exc ExperimentResult × Waiting)}
    (hagain : Books config waiting.breaker given start again)
    (hretried : ∀ raise ∈ raised, raise.retried = true)
    (hbudget : 0 ≤ config.maxRetriesOnTransientError →
      raised.length ≤ config.maxRetriesOnTransientError)
    (htallied : Tallied given (Ledger.turn start latest (polls + 1) raised) (polls + 1)
      waiting.metrics) :
    (bookkeeping config.timeout).Obeys (Concluded config waiting.breaker given start)
      (Ledger.turn start latest (polls + 1) raised)
      (collect handle config interval raised.length waiting again) := by
  rw [collect_eq]
  refine ⟨trivial, fun answer _ => ?_⟩
  cases answer with
  | ok result =>
      exact ⟨rfl, rfl, rfl, .returned result rfl rfl hretried, htallied.congr rfl rfl⟩
  | error exc =>
      by_cases htransient : isTransient exc = true
      · have hlength : (raised.length : Int) + 1 =
            (raised ++ [Raise.mk .fetchResult exc]).length := by simp
        have hall := retried_append hretried htransient
        have hcounted : ∀ ledger : Ledger, ledger.raised = raised ++ [⟨.fetchResult, exc⟩] →
            Tallied given ledger (polls + 1) (waiting.retried (raised.length + 1)).metrics := by
          intro ledger hledger hgiven
          obtain ⟨tally, hsome, figures⟩ := htallied hgiven
          refine ⟨{ tally with transientRetries := raised.length + 1 }, ?_, ?_, ?_, ?_⟩
          · simp [Waiting.retried, hsome]
          · rw [Ledger.retries_eq_length (hledger ▸ hall), hledger]
            exact hlength
          · exact figures.circuitBreakerWasOpen
          · exact figures.pollCount
        simp only [if_pos htransient]
        split_ifs with hspent
        · refine (@failed_books start _ _ _ rfl rfl rfl).bind ?_
          rintro ledger later ⟨⟨now, rfl⟩, hmetrics, hfailed⟩
          refine ⟨rfl, rfl, rfl, ?_, ?_⟩
          · exact .raised raised ⟨.fetchResult, exc⟩ later.breaker rfl rfl rfl hretried hbudget
              (fun _ => hspent) (fun h => by simp [Raise.recorded, htransient] at h)
              fun _ => hfailed
          · rw [hmetrics]
            exact hcounted _ rfl
        · refine ⟨trivial, fun _ _ => ?_⟩
          have hnext := hagain latest (min (interval * config.backoffFactor) config.maxInterval)
            (polls + 1) (raised ++ [⟨.fetchResult, exc⟩]) (waiting.retried (raised.length + 1)) hall
            (fun _ => by omega) rfl (hcounted _ rfl)
          rwa [← hlength] at hnext
      · simp only [if_neg htransient]
        refine ⟨rfl, rfl, rfl, ?_, ?_⟩
        · exact .raised raised ⟨.fetchResult, exc⟩ waiting.breaker rfl rfl rfl hretried hbudget
            (fun h => by simp [Raise.retried, htransient] at h) (fun _ => rfl)
            fun h => absurd h htransient
        · intro hgiven
          obtain ⟨tally, hsome, figures⟩ := htallied hgiven
          refine ⟨tally, hsome, ?_, figures.circuitBreakerWasOpen, figures.pollCount⟩
          rw [figures.transientRetries]
          simp [Ledger.retries, bookkeeping, Ledger.raise, Ledger.turn, Raise.retried, htransient]

-- Giving up a wait cancels the job; the exception may be one that this raised.
theorem abandon_books {exc : Exc} {timeout : ℚ} (settled : Bool)
    (hretried : ∀ raise ∈ raised, raise.retried = true)
    (htallied : Tallied given (Ledger.turn start latest polls raised) (polls + 1)
      waiting.metrics) :
    (bookkeeping timeout).Obeys (Concluded config waiting.breaker given start)
      { Ledger.turn start latest polls raised with settled, abandoned := true }
      ((abandon handle exc).bind fun outcome => .ret (outcome, waiting)) := by
  have hsettled : ∀ thrown : Exc, Concluded config waiting.breaker given start
      { Ledger.turn start latest polls raised with settled := true, abandoned := true }
      (.error thrown, waiting) := fun thrown =>
    ⟨rfl, rfl, rfl, .stopped thrown rfl rfl hretried, htallied.congr rfl rfl⟩
  refine ⟨trivial, fun answer _ => ?_⟩
  cases answer with
  | ok _ => exact hsettled exc
  | error thrown => exact hsettled thrown

theorem poll_books
    {again : ℚ → Int → Waiting → Program sig (Except Exc ExperimentResult × Waiting)}
    (hagain : Books config waiting.breaker given start again)
    (hretried : ∀ raise ∈ raised, raise.retried = true)
    (hbudget : 0 ≤ config.maxRetriesOnTransientError →
      raised.length ≤ config.maxRetriesOnTransientError)
    (htallied : Tallied given (Ledger.turn start latest polls raised) (polls + 1)
      waiting.metrics) :
    (bookkeeping config.timeout).Obeys (Concluded config waiting.breaker given start)
      (Ledger.turn start latest polls raised)
      (poll handle config start interval raised.length waiting again) := by
  rw [poll_eq]
  refine ⟨trivial, fun (now : ℚ) _ => ?_⟩
  have hread : (bookkeeping config.timeout).next (Ledger.turn start latest polls raised)
      .monotonic now = { Ledger.turn start now polls raised with
        abandoned := decide (now - start > config.timeout) } := Ledger.read_turn start latest polls raised
  rw [hread]
  by_cases hlate : now - start > config.timeout
  · simp only [hlate, decide_true]
    exact abandon_books handle false hretried (htallied.congr rfl rfl)
  · have hturn : ({ Ledger.turn start now polls raised with
        abandoned := decide (now - start > config.timeout) } : Ledger) =
        Ledger.turn start now polls raised := by
      rw [decide_eq_false hlate]
      rfl
    have hpolled : Tallied given (Ledger.turn start now (polls + 1) raised) (polls + 1)
        waiting.metrics := htallied.congr rfl rfl
    have hcollect := collect_books handle interval hagain hretried hbudget hpolled
    simp only [if_neg hlate]
    rw [hturn]
    refine ⟨trivial, fun answer _ => ?_⟩
    rcases answer with exc | status
    · have hraised : (Raise.mk .pollStatus exc).retried = false := rfl
      have hcounted : ∀ ledger : Ledger, ledger.raised = raised ++ [⟨.pollStatus, exc⟩] →
          Tallied given ledger (polls + 1) waiting.metrics := by
        intro ledger hledger hgiven
        obtain ⟨tally, hsome, figures⟩ := hpolled hgiven
        refine ⟨tally, hsome, ?_, figures.circuitBreakerWasOpen, figures.pollCount⟩
        rw [figures.transientRetries]
        simp [Ledger.retries, Ledger.turn, hledger, hraised]
      by_cases hexception : exc.isException = true
      · simp only [if_pos hexception]
        refine (@failed_books start _ _ _ rfl rfl rfl).bind ?_
        rintro ledger later ⟨⟨now, rfl⟩, hmetrics, hfailed⟩
        refine ⟨rfl, rfl, rfl, ?_, ?_⟩
        · exact .raised raised ⟨.pollStatus, exc⟩ later.breaker rfl rfl rfl hretried hbudget
            (fun h => by simp [hraised] at h) (fun h => by simp [Raise.recorded, hexception] at h)
            fun _ => hfailed
        · rw [hmetrics]
          exact hcounted _ rfl
      · simp only [if_neg hexception]
        refine ⟨rfl, rfl, rfl, ?_, hcounted _ rfl⟩
        exact .raised raised ⟨.pollStatus, exc⟩ waiting.breaker rfl rfl rfl hretried hbudget
          (fun h => by simp [hraised] at h) (fun _ => rfl) fun h => absurd h hexception
    · have hpending : ∀ current, current = Ledger.turn start now (polls + 1) raised →
          (bookkeeping config.timeout).Obeys (Concluded config waiting.breaker given start) current
            (.call (.sleep interval) fun _ =>
              again (min (interval * config.backoffFactor) config.maxInterval) raised.length
                waiting) := by
        rintro current rfl
        exact ⟨trivial, fun _ _ => hagain _ _ _ raised waiting hretried hbudget rfl hpolled⟩
      cases status with
      | completed => exact hcollect
      | failed => exact hcollect
      | cancelled =>
          exact ⟨rfl, rfl, rfl, .stopped _ rfl rfl hretried, hpolled.congr rfl rfl⟩
      | queued => exact hpending _ rfl
      | running => exact hpending _ rfl

theorem pollLoop_token (retries : Int) (fuel : ℕ) :
    pollLoop handle config true start (fuel + 1) interval retries waiting =
      .call .cancelled fun (requested : Bool) =>
        if requested then
          (abandon handle (Exc.cancelledError ("job " ++ handle.jobId ++ " cancelled by caller"))).bind
            fun outcome => .ret (outcome, waiting.polled)
        else
          poll handle config start interval retries waiting.polled
            (pollLoop handle config true start fuel) := rfl

theorem pollLoop_books (token : Bool) (fuel : ℕ) :
    Books config breaker given start (pollLoop handle config token start fuel) := by
  induction fuel with
  | zero => exact fun _ _ _ _ _ _ _ _ _ => ⟨trivial, fun answer => nomatch answer⟩
  | succ fuel ih =>
      rintro latest interval polls raised waiting hretried hbudget rfl htallied
      have hpolled : Tallied given (Ledger.turn start latest polls raised) (polls + 1)
          waiting.polled.metrics := by
        intro hgiven
        obtain ⟨tally, hsome, figures⟩ := htallied hgiven
        refine ⟨{ tally with pollCount := tally.pollCount + 1 }, ?_, figures.transientRetries,
          figures.circuitBreakerWasOpen, ?_⟩
        · simp [Waiting.polled, hsome]
        · rw [figures.pollCount]
          push_cast
          rfl
      have hagain : Books config waiting.polled.breaker given start
          (pollLoop handle config token start fuel) := ih
      have hpoll := poll_books handle interval hagain hretried hbudget hpolled
      cases token with
      | false => exact hpoll
      | true =>
          rw [pollLoop_token]
          refine ⟨trivial, fun requested _ => ?_⟩
          cases requested with
          | true =>
              exact abandon_books handle true hretried hpolled
          | false => exact hpoll

-- The time of the wait is measured after everything else.
theorem timed_books {timeout : ℚ} {ledger : Ledger}
    {outcome : Except Exc ExperimentResult × Waiting}
    (h : Concluded config breaker given start ledger outcome) :
    (bookkeeping timeout).Obeys
      (fun current result => Concluded config breaker given start current result ∧
        ∀ tally ∈ result.2.metrics, tally.waitTime = current.elapsed)
      ledger (timed start outcome) := by
  unfold timed
  cases hmetrics : outcome.2.metrics with
  | none =>
      refine ⟨h, fun tally hmem => ?_⟩
      rw [hmetrics] at hmem
      cases hmem
  | some metrics =>
      refine ⟨trivial, fun (now : ℚ) _ => ?_⟩
      have hread : (bookkeeping timeout).next ledger .monotonic now = { ledger with latest := now } :=
        Ledger.read_settled h.asked h.started h.settled
      rw [hread]
      refine ⟨⟨h.asked, h.started, h.settled, ?_, ?_⟩, ?_⟩
      · exact h.ended.read now
      · intro hgiven
        obtain ⟨tally, hsome, figures⟩ := h.tallied hgiven
        obtain rfl : metrics = tally := Option.some.inj (hmetrics.symm.trans hsome)
        exact ⟨_, rfl, figures.transientRetries, figures.circuitBreakerWasOpen, figures.pollCount⟩
      · intro tally hmem
        obtain rfl := Option.some.inj hmem
        simp [Ledger.elapsed, h.started]

-- A breaker that has not been opened answers without a look at the clock.
theorem isOpen_none (h : breaker.openedAt = none) : breaker.isOpen = .ret (false, breaker) := by
  unfold CircuitBreaker.isOpen
  rw [h]
  rfl

theorem isOpen_some {openedAt : ℚ} (h : breaker.openedAt = some openedAt) :
    breaker.isOpen = .call .monotonic fun (now : ℚ) =>
      .ret (if now - openedAt ≥ breaker.resetAfter then
        (false, { breaker with
          openedAt := none, consecutiveFailures := breaker.failureThreshold - 1 })
      else (true, breaker)) := by
  unfold CircuitBreaker.isOpen
  rw [h]
  refine congrArg (@Program.call sig _ .monotonic) (funext fun (now : ℚ) => ?_)
  change (if now - openedAt ≥ breaker.resetAfter then .ret _ else .ret _ : Program sig _) = _
  split_ifs
  · rfl
  · rfl

theorem isOpen_books (timeout : ℚ) (breaker : CircuitBreaker) :
    (bookkeeping timeout).Obeys
      (fun ledger answer => ledger = {} ∧ (answer.1 = true → answer.2 = breaker) ∧
        ∃ now, breaker.isOpen.answered (clockAt now) = some answer)
      (.before breaker) breaker.isOpen := by
  cases hopened : breaker.openedAt with
  | none =>
      have hbefore : Ledger.before breaker = {} := by simp [Ledger.before, hopened]
      rw [isOpen_none hopened, hbefore]
      exact ⟨rfl, fun h => absurd h Bool.false_ne_true, 0, rfl⟩
  | some openedAt =>
      have hbefore : Ledger.before breaker = { asked := false } := by simp [Ledger.before, hopened]
      rw [isOpen_some hopened, hbefore]
      refine ⟨trivial, fun (now : ℚ) _ => ⟨rfl, ?_, now, rfl⟩⟩
      by_cases helapsed : now - openedAt ≥ breaker.resetAfter
      · rw [if_pos helapsed]
        exact fun h => absurd h Bool.false_ne_true
      · rw [if_neg helapsed]
        exact fun _ => rfl

theorem waitForResult_books (fuel : ℕ) (backendName : String) (token : Bool) :
    (bookkeeping config.timeout).Obeys (Waited backendName config breaker given)
      (.before breaker) (waitForResult fuel backendName handle config breaker token given) := by
  refine (isOpen_books config.timeout breaker).bind ?_
  rintro ledger ⟨isOpen, through⟩ ⟨rfl, hdenied, now, hanswer⟩
  cases isOpen with
  | true =>
      obtain rfl : through = breaker := hdenied rfl
      exact .denied now hanswer
  | false =>
      refine ⟨trivial, fun (start : ℚ) _ => ?_⟩
      have hfresh : Tallied given (Ledger.turn start start 0 []) 0 given := by
        rintro rfl
        exact ⟨{}, rfl, rfl, rfl, rfl⟩
      have hloop := @pollLoop_books handle config start given through token fuel start
        config.initialInterval 0 [] ⟨through, given⟩ (by simp) (fun h => h) rfl hfresh
      refine hloop.bind fun current outcome hconcluded => ?_
      refine (timed_books hconcluded).mono ?_
      rintro current result ⟨hconcluded, htimed⟩
      exact .begun now start through current result hanswer hconcluded htimed

end bookkeeping

end QuantumPlatform.Orchestrator

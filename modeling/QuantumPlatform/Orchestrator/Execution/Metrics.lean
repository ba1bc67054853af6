import QuantumPlatform.Orchestrator.Execution.Counts
import QuantumPlatform.Orchestrator.Polling.Ledger.Theorems
import QuantumPlatform.Process.Episodes

namespace QuantumPlatform.Orchestrator

open Process Python QuantumPlatform.Core

section metered

variable (env : Env) (params : List ℚ) (shots : Json) (pollingConfig : Option PollingConfig)
  (molecule : MolecularHamiltonian)

def effectivePollingConfig : PollingConfig :=
  pollingConfig.getD
    { initialInterval := env.settings.pollingInitialInterval,
      maxInterval := env.settings.pollingMaxInterval }

def termExpectation (result : ExperimentResult) (term : PauliTerm) : Except Exc ℚ :=
  match result.counts with
  | none => .error (Exc.assertionError "")
  | some counts => pauliExpectationFromCounts counts term

-- The loop of evaluate_energy with the metrics object as its caller sees it afterwards,
-- also when the loop raises.
def evaluateTermsMetered : List PauliTerm → ℚ → VQEIterationMetrics →
    Program sig (Except Exc ℚ × VQEIterationMetrics)
  | [], total, metrics => return (.ok total, metrics)
  | term :: rest, total, metrics =>
      if term.qubits.items = [] then
        evaluateTermsMetered rest (total + term.coefficient) metrics
      else
        match buildMeasurementCircuit params term molecule with
        | .error exc => return (.error exc, metrics)
        | .ok qc => do
            match ← call (.submit ⟨termName term, molecule.numQubits, qc, shots⟩) with
            | .error exc => return (.error exc, metrics)
            | .ok handle =>
                let outcome ← waitForResult env.fuel env.settings.backendName handle
                  (effectivePollingConfig env pollingConfig) {} false (some {})
                match outcome.1 with
                | .error exc => return (.error exc, metrics)
                | .ok result =>
                    let metrics := metrics.folded (outcome.2.metrics.getD {})
                    match termExpectation result term with
                    | .error exc => return (.error exc, metrics)
                    | .ok expectation =>
                        evaluateTermsMetered rest (total + term.coefficient * expectation) metrics

def evaluateEnergyMetered : Program sig (Except Exc ℚ × VQEIterationMetrics) :=
  evaluateTermsMetered env params shots pollingConfig molecule molecule.terms 0 {}

-- What evaluate_energy hands on when it does not raise.
def handedOn (outcome : Except Exc ℚ × VQEIterationMetrics) : Except Exc (ℚ × VQEIterationMetrics) :=
  outcome.1.map fun total => (total, outcome.2)

theorem evaluateTerms_metered (terms : List PauliTerm) (total : ℚ) (metrics : VQEIterationMetrics) :
    (evaluateTerms env params shots molecule terms total metrics).run =
      (evaluateTermsMetered env params shots none molecule terms total metrics).bind fun outcome =>
        .ret (handedOn outcome) := by
  induction terms generalizing total metrics with
  | nil => rfl
  | cons term rest ih =>
      unfold evaluateTerms evaluateTermsMetered
      by_cases hidentity : term.qubits.items = []
      · simp only [if_pos hidentity]
        exact ih _ _
      · simp only [if_neg hidentity]
        cases buildMeasurementCircuit params term molecule with
        | error exc => rfl
        | ok qc =>
            rw [Py.ofExcept_ok, pure_bind, Py.run_bind]
            refine congrArg (@Program.call sig _ (.submit _)) (funext fun answer => ?_)
            cases answer with
            | error exc => rfl
            | ok handle =>
                have hassoc := @Program.bind_assoc sig _ (Except Exc ℚ × VQEIterationMetrics)
                  (Except Exc (ℚ × VQEIterationMetrics)) (waitForResult env.fuel
                    env.settings.backendName handle (effectivePollingConfig env none) {} false (some {}))
                refine (Py.run_lift_bind _ _).trans (Eq.trans ?_ (hassoc _ _).symm)
                refine congrArg (Program.bind _) (funext fun outcome => ?_)
                cases hresult : outcome.1 with
                | error exc => rfl
                | ok result =>
                    rw [Py.ofExcept_ok, pure_bind]
                    simp only [termExpectation]
                    cases result.counts with
                    | none => rfl
                    | some counts =>
                        rw [Py.ofExcept_ok, pure_bind]
                        simp only
                        cases pauliExpectationFromCounts counts term with
                        | error exc => rfl
                        | ok expectation => exact ih _ _

end metered

section sums

def beginsWait : (op : Effect) → op.Ans → Bool
  | .submit _, .ok _ => true
  | _, _ => false

-- One ledger for each wait of an evaluation, in their order.
def metering (timeout : ℚ) : Monitor sig (List Ledger) :=
  (bookkeeping timeout).episodes {} beginsWait

-- The metrics are the sums over these waits.
structure Sums (waits : List Ledger) (metrics : VQEIterationMetrics) : Prop where
  quantumTime : metrics.quantumTime = (waits.map Ledger.elapsed).sum
  retryCount : metrics.retryCount = (waits.map Ledger.retries).sum
  circuitBreakerTrips :
    metrics.circuitBreakerTrips = waits.countP fun wait => wait.started.isNone

-- A wait that has ended without a result did not take time, nor was there an error to retry.
def Negligible (wait : Ledger) : Prop := wait.elapsed = 0 ∧ wait.retries = 0

variable {waits : List Ledger} {wait : Ledger} {metrics : VQEIterationMetrics}

theorem Sums.append (h : Sums waits metrics) (hstarted : wait.started ≠ none)
    {tally : PollingMetrics} (hretries : tally.transientRetries = wait.retries)
    (hopen : tally.circuitBreakerWasOpen = false) (htime : tally.waitTime = wait.elapsed) :
    Sums (waits ++ [wait]) (metrics.folded tally) where
  quantumTime := by
    simp [VQEIterationMetrics.folded, h.quantumTime, htime]
  retryCount := by
    simp [VQEIterationMetrics.folded, h.retryCount, hretries]
  circuitBreakerTrips := by
    have hbegun : wait.started.isNone = false := by
      rwa [Option.isNone_eq_false_iff, Option.isSome_iff_ne_none]
    simp [VQEIterationMetrics.folded, h.circuitBreakerTrips, hopen, hbegun, List.countP_append]

-- Metrics that leave out one more wait are the sums only if it is negligible.
theorem Sums.append_iff (h : Sums waits metrics) (hstarted : wait.started ≠ none) :
    Sums (waits ++ [wait]) metrics ↔ Negligible wait := by
  have hbegun : wait.started.isNone = false := by
    rwa [Option.isNone_eq_false_iff, Option.isSome_iff_ne_none]
  constructor
  · intro hall
    have htime := h.quantumTime.symm.trans hall.quantumTime
    have hretries := h.retryCount.symm.trans hall.retryCount
    rw [List.map_append, List.sum_append] at htime hretries
    simp only [List.map_cons, List.map_nil, List.sum_singleton] at htime hretries
    refine ⟨by linarith, ?_⟩
    push_cast at hretries
    omega
  · rintro ⟨htime, hretries⟩
    refine ⟨?_, ?_, ?_⟩
    · simp [h.quantumTime, htime]
    · simp [h.retryCount, hretries]
    · simp [h.circuitBreakerTrips, hbegun, List.countP_append]

end sums

section metering

variable {env : Env} {params : List ℚ} {shots : Json} {pollingConfig : Option PollingConfig}
  {molecule : MolecularHamiltonian}

-- How a wait with fresh metrics and a fresh breaker has ended.
structure TermWait (wait : Ledger) (outcome : Except Exc ExperimentResult × Waiting) : Prop where
  started : wait.started ≠ none
  answered : wait.answered = true ↔ ∃ result, outcome.1 = .ok result
  tally : ∃ tally, outcome.2.metrics = some tally ∧ tally.transientRetries = wait.retries ∧
    tally.circuitBreakerWasOpen = false ∧ tally.waitTime = wait.elapsed

theorem TermWait.unanswered {wait : Ledger} {exc : Exc} {waiting : Waiting}
    (h : TermWait wait (.error exc, waiting)) : wait.answered = false := by
  rw [Bool.eq_false_iff]
  intro hanswered
  obtain ⟨value, hvalue⟩ := h.answered.mp hanswered
  cases hvalue

theorem TermWait.sums {wait : Ledger} {outcome : Except Exc ExperimentResult × Waiting}
    (h : TermWait wait outcome) {waits : List Ledger} {metrics : VQEIterationMetrics}
    (hsums : Sums waits metrics) :
    Sums (waits ++ [wait]) (metrics.folded (outcome.2.metrics.getD {})) := by
  obtain ⟨tally, hsome, hretries, hopen, htime⟩ := h.tally
  rw [hsome]
  exact hsums.append h.started hretries hopen htime

theorem WaitEnd.answered_iff {config : PollingConfig} {breaker later : CircuitBreaker}
    {ledger : Ledger} {result : Except Exc ExperimentResult}
    (h : WaitEnd config breaker ledger result later) :
    ledger.answered = true ↔ ∃ value, result = .ok value := by
  cases h with
  | returned value answered escaping retried => exact iff_of_true answered ⟨value, rfl⟩
  | stopped exc answered escaping retried =>
      exact iff_of_false (by simp [answered]) fun ⟨value, h⟩ => nomatch h
  | raised earlier raise later answered escaping split retried budget exhausted kept failed =>
      exact iff_of_false (by simp [answered]) fun ⟨value, h⟩ => nomatch h

theorem Waited.termWait {backendName : String} {config : PollingConfig} {ledger : Ledger}
    {outcome : Except Exc ExperimentResult × Waiting}
    (h : Waited backendName config {} (some {}) ledger outcome) : TermWait ledger outcome := by
  cases h with
  | denied now closed => cases closed
  | begun now start through _ _ passed concluded timed =>
      obtain ⟨tally, hsome, figures⟩ := concluded.tallied rfl
      refine ⟨?_, concluded.ended.answered_iff, tally, hsome, figures.transientRetries,
        figures.circuitBreakerWasOpen, timed tally hsome⟩
      rw [concluded.started]
      exact Option.some_ne_none start

theorem waitForResult_measured (handle : JobHandle) (past : List Ledger) :
    (metering (effectivePollingConfig env pollingConfig).timeout).Obeys
      (fun waits outcome => ∃ last, waits = past ++ [last] ∧ TermWait last outcome)
      (past ++ [({} : Ledger)]) (waitForResult env.fuel env.settings.backendName handle
        (effectivePollingConfig env pollingConfig) {} false (some {})) := by
  have hbooks := @waitForResult_books handle (effectivePollingConfig env pollingConfig) (some {}) {}
    env.fuel env.settings.backendName false
  have honly := (waitForResult_watches env.fuel env.settings.backendName handle
    (effectivePollingConfig env pollingConfig) {} false (some {})).mono fun op hop =>
      show ∀ answer, beginsWait op answer = false by
        cases op <;> first | exact fun _ => rfl | exact hop.elim
  refine (hbooks.episodes honly past).mono ?_
  rintro waits outcome ⟨last, hwaits, hwaited⟩
  exact ⟨last, hwaits, hwaited.termWait⟩

-- All waits were answered but the last one, if it raised; that one is not in the metrics.
def Metered (waits : List Ledger) (outcome : Except Exc ℚ × VQEIterationMetrics) : Prop :=
  ∃ past, Sums past outcome.2 ∧ (∀ wait ∈ past, wait.answered = true) ∧
    (waits = past ∨
      ∃ last, waits = past ++ [last] ∧ last.answered = false ∧ last.started ≠ none)

theorem evaluateTermsMetered_obeys (terms : List PauliTerm) (total : ℚ)
    {metrics : VQEIterationMetrics} {past : List Ledger} (hsums : Sums past metrics)
    (hanswered : ∀ wait ∈ past, wait.answered = true) :
    (metering (effectivePollingConfig env pollingConfig).timeout).Obeys Metered past
      (evaluateTermsMetered env params shots pollingConfig molecule terms total metrics) := by
  induction terms generalizing total metrics past with
  | nil => exact ⟨past, hsums, hanswered, .inl rfl⟩
  | cons term rest ih =>
      unfold evaluateTermsMetered
      by_cases hidentity : term.qubits.items = []
      · rw [if_pos hidentity]
        exact ih _ hsums hanswered
      · rw [if_neg hidentity]
        cases buildMeasurementCircuit params term molecule with
        | error exc => exact ⟨past, hsums, hanswered, .inl rfl⟩
        | ok qc =>
            refine ⟨fun last _ _ => trivial, fun answer _ => ?_⟩
            cases answer with
            | error exc =>
                have hsame : (metering (effectivePollingConfig env pollingConfig).timeout).next past
                    (.submit ⟨termName term, molecule.numQubits, qc, shots⟩) (.error exc) = past :=
                  Monitor.episodes_ignores rfl (fun _ => rfl) past
                rw [hsame]
                exact ⟨past, hsums, hanswered, .inl rfl⟩
            | ok handle =>
                refine (waitForResult_measured handle past).bind ?_
                rintro waits ⟨result, waiting⟩ ⟨last, rfl, hmeasured⟩
                cases result with
                | error exc =>
                    exact ⟨past, hsums, hanswered,
                      .inr ⟨last, rfl, hmeasured.unanswered, hmeasured.started⟩⟩
                | ok result =>
                    have hfolded := hmeasured.sums hsums
                    have hall : ∀ wait ∈ past ++ [last], wait.answered = true := by
                      intro wait hmem
                      rcases List.mem_append.mp hmem with hmem | hmem
                      · exact hanswered wait hmem
                      · obtain rfl := List.mem_singleton.mp hmem
                        exact hmeasured.answered.mpr ⟨result, rfl⟩
                    simp only
                    cases termExpectation result term with
                    | error exc => exact ⟨_, hfolded, hall, .inl rfl⟩
                    | ok expectation => exact ih _ hfolded hall

end metering

-- The figures of one wait with fresh metrics that say what happened, and its poll count.
structure WaitFigures (backendName : String) (ledger : Ledger)
    (outcome : Except Exc ExperimentResult × Waiting) (tally : PollingMetrics) : Prop where
  given : outcome.2.metrics = some tally
  transientRetries : tally.transientRetries = ledger.retries
  circuitBreakerWasOpen : tally.circuitBreakerWasOpen = true ↔
    ledger.started = none ∧ outcome.1 = .error (backendUnavailableError backendName)
  waitTime : tally.waitTime = ledger.elapsed

theorem Waited.figures {backendName : String} {config : PollingConfig} {breaker : CircuitBreaker}
    {ledger : Ledger} {outcome : Except Exc ExperimentResult × Waiting}
    (h : Waited backendName config breaker (some {}) ledger outcome) :
    ∃ tally, WaitFigures backendName ledger outcome tally ∧
      (tally.pollCount = ledger.polls ↔ ledger.abandoned = false) := by
  cases h with
  | denied now closed =>
      have helapsed : ({} : Ledger).elapsed = 0 := sub_self 0
      exact ⟨_, ⟨rfl, rfl, iff_of_true rfl ⟨rfl, rfl⟩, helapsed.symm⟩, iff_of_true rfl rfl⟩
  | begun now start through _ _ passed concluded timed =>
      obtain ⟨tally, hsome, figures⟩ := concluded.tallied rfl
      refine ⟨tally, ⟨hsome, figures.transientRetries, ?_, timed tally hsome⟩, ?_⟩
      · rw [figures.circuitBreakerWasOpen, concluded.started]
        exact iff_of_false Bool.false_ne_true fun h => nomatch h.1
      · rw [figures.pollCount]
        cases ledger.abandoned with
        | true => exact iff_of_false (by simp) fun h => nomatch h
        | false => exact iff_of_true (by simp) rfl

section interrupted

def offline : Exc := Exc.runtimeError "backend offline"

-- The first poll of a wait raises; the time is read again at `late`.
def offlineRun (handle : JobHandle) (late : ℚ) : List (Event sig) :=
  [⟨.monotonic, (0 : ℚ)⟩, ⟨.monotonic, (0 : ℚ)⟩, ⟨.pollStatus handle, .error offline⟩,
    ⟨.monotonic, late⟩]

theorem waitForResult_offline (fuel : ℕ) (backendName : String) (handle : JobHandle)
    {config : PollingConfig} (htimeout : 0 ≤ config.timeout) (late : ℚ) :
    (waitForResult (fuel + 1) backendName handle config {} false (some {})).Returns
      (offlineRun handle late)
      (.error offline, ⟨({ consecutiveFailures := 1 } : CircuitBreaker), some
        { waitTime := late - 0, pollCount := 1 }⟩) := by
  refine @Program.Trace.step sig _ .monotonic _ (0 : ℚ) _ _ ?_
  have hpoll : (poll handle config 0 config.initialInterval 0 ⟨{}, some { pollCount := 1 }⟩
      (pollLoop handle config false 0 fuel)).Returns
      [⟨.monotonic, (0 : ℚ)⟩, ⟨.pollStatus handle, .error offline⟩]
      (.error offline, ⟨({ consecutiveFailures := 1 } : CircuitBreaker), some { pollCount := 1 }⟩) := by
    exact poll_raises _ _ _ _ _ htimeout rfl (by decide)
  refine (Program.returns_bind (pollLoop handle config false 0 (fuel + 1) _ 0 _) (timed 0) _ _).mpr
    ⟨_, _, [⟨.monotonic, late⟩], rfl, hpoll, ?_⟩
  exact @Program.Trace.step sig _ .monotonic _ late _ _ (.stop _)

theorem evaluateEnergy_offline (late : ℚ) :
    ∃ circuit, (evaluateEnergyMetered ⟨{}, default, 1⟩ [0, 0, 0, 0] (.int 1) none H2).Returns
      (⟨.submit circuit, .ok ⟨"job", "qpu"⟩⟩ :: offlineRun ⟨"job", "qpu"⟩ late)
      (.error offline, {}) := by
  let term : PauliTerm := ⟨3435 / 10000, Dict.ofList [(0, .Z)]⟩
  obtain ⟨qc, hqc⟩ := @buildMeasurementCircuit_ok [0, 0, 0, 0] H2 term rfl rfl
  refine ⟨⟨termName term, 2, qc, .int 1⟩, ?_⟩
  have hterms : H2.terms = ⟨-4804 / 10000, ∅⟩ :: term :: H2.terms.drop 2 := rfl
  have hidentity : (∅ : Dict ℕ Pauli).items = [] := rfl
  have hmeasured : term.qubits.items ≠ [] := by decide
  unfold evaluateEnergyMetered
  rw [hterms, evaluateTermsMetered, if_pos hidentity, evaluateTermsMetered, if_neg hmeasured, hqc]
  refine .step _ _ _ ?_
  let config := effectivePollingConfig ⟨{}, default, 1⟩ none
  have hwait := @waitForResult_offline 0 "aer-simulator" ⟨"job", "qpu"⟩ config
    (by norm_num [config, effectivePollingConfig]) late
  exact (Program.returns_bind (waitForResult 1 "aer-simulator" ⟨"job", "qpu"⟩ config {} false
    (some {})) _ _ _).mpr ⟨_, _, [], (List.append_nil _).symm, hwait, .stop _⟩

end interrupted

-- Each wait counts its polls rightly unless it is given up, and all else always. The metrics
-- of an evaluation are the sums over its waits unless one of them, which is the last,
-- raises when it has taken time or seen an error.
theorem instrumentation_exact_iff (env : Env) :
    (∀ (handle : JobHandle) (config : PollingConfig) (breaker : CircuitBreaker) (token : Bool)
      (events : List (Event sig)) (outcome : Except Exc ExperimentResult × Waiting),
      (waitForResult env.fuel env.settings.backendName handle config breaker token
        (some {})).Returns events outcome →
      let ledger := (bookkeeping config.timeout).after (.before breaker) events
      ∃ tally, WaitFigures env.settings.backendName ledger outcome tally ∧
        (tally.pollCount = ledger.polls ↔ ledger.abandoned = false)) ∧
    ∀ (params : List ℚ) (shots : Json) (pollingConfig : Option PollingConfig)
      (molecule : MolecularHamiltonian) (events : List (Event sig))
      (outcome : Except Exc ℚ × VQEIterationMetrics),
      (evaluateEnergyMetered env params shots pollingConfig molecule).Returns events outcome →
      let waits := (metering (effectivePollingConfig env pollingConfig).timeout).after [] events
      Sums waits outcome.2 ↔ ∀ wait ∈ waits, wait.answered = true ∨ Negligible wait := by
  constructor
  · intro handle config breaker token events outcome hreturns
    have hbooks := @waitForResult_books handle config (some {}) breaker env.fuel
      env.settings.backendName token
    exact (hbooks.trace hreturns (Monitor.admits_all (fun _ _ _ => trivial) _ _)).2.figures
  · intro params shots pollingConfig molecule events outcome hreturns waits
    have hzero : Sums [] {} := ⟨rfl, rfl, rfl⟩
    have hobeys := @evaluateTermsMetered_obeys env params shots pollingConfig molecule
      molecule.terms 0 {} [] hzero (by simp)
    obtain ⟨past, hsums, hanswered, hpast⟩ := (hobeys.trace hreturns
      (Monitor.admits_all (fun _ _ _ _ _ _ => trivial) _ _)).2
    change waits = past ∨ ∃ last, waits = past ++ [last] ∧ _ at hpast
    rcases hpast with hpast | ⟨last, hlast, hunanswered, hstarted⟩
    · rw [hpast]
      exact iff_of_true hsums fun wait hmem => .inl (hanswered wait hmem)
    · rw [hlast, hsums.append_iff hstarted]
      constructor
      · intro hnegligible wait hmem
        rcases List.mem_append.mp hmem with hmem | hmem
        · exact .inl (hanswered wait hmem)
        · obtain rfl := List.mem_singleton.mp hmem
          exact .inr hnegligible
      · intro hall
        rcases hall last (by simp) with h | h
        · rw [hunanswered] at h
          cases h
        · exact h

-- The wait takes no time, and the metrics are right about it.
theorem instrumentation_exact_offline :
    (∃ tally, tally.pollCount = 1 ∧ WaitFigures "aer-simulator"
      ((bookkeeping 30).after {} (offlineRun ⟨"job", "qpu"⟩ 2))
      (.error offline, ⟨({ consecutiveFailures := 1 } : CircuitBreaker), some tally⟩) tally) ∧
    ∃ circuit, Sums ((metering 30).after []
      (⟨.submit circuit, .ok ⟨"job", "qpu"⟩⟩ :: offlineRun ⟨"job", "qpu"⟩ 0)) {} := by
  obtain ⟨hwaits, hevaluations⟩ := instrumentation_exact_iff ⟨{}, default, 1⟩
  constructor
  · obtain ⟨tally, hfigures, hpolls⟩ := hwaits ⟨"job", "qpu"⟩ {} {} false _ _
      (waitForResult_offline 0 "aer-simulator" ⟨"job", "qpu"⟩ (by norm_num) 2)
    obtain rfl := Option.some.inj hfigures.given
    exact ⟨_, rfl, hfigures⟩
  · obtain ⟨circuit, hreturns⟩ := evaluateEnergy_offline 0
    refine ⟨circuit, (hevaluations _ _ _ _ _ _ hreturns).mpr fun wait hmem => .inr ?_⟩
    obtain rfl := List.mem_singleton.mp hmem
    exact ⟨by decide +kernel, rfl⟩

-- A wait that finds its deadline passed counts a poll that it has not made, and an
-- evaluation whose only wait ends with an error after two seconds reports none of them.
theorem not_instrumentation_exact :
    ¬ (∀ (fuel : ℕ) (backendName : String) (handle : JobHandle) (config : PollingConfig)
      (breaker : CircuitBreaker) (token : Bool) (events : List (Event sig))
      (outcome : Except Exc ExperimentResult × Waiting),
      (waitForResult fuel backendName handle config breaker token (some {})).Returns events
        outcome →
      ∀ tally ∈ outcome.2.metrics, tally.pollCount =
        ((bookkeeping config.timeout).after (.before breaker) events).polls) ∧
    ¬ ∀ (env : Env) (params : List ℚ) (shots : Json) (pollingConfig : Option PollingConfig)
      (molecule : MolecularHamiltonian) (events : List (Event sig))
      (outcome : Except Exc ℚ × VQEIterationMetrics),
      (evaluateEnergyMetered env params shots pollingConfig molecule).Returns events outcome →
      Sums ((metering (effectivePollingConfig env pollingConfig).timeout).after [] events)
        outcome.2 := by
  constructor
  · intro hclaim
    have hlate : (waitForResult 1 "qpu" ⟨"job", "qpu"⟩ {} {} false (some {})).Returns
        [⟨.monotonic, (0 : ℚ)⟩, ⟨.monotonic, (31 : ℚ)⟩, ⟨.cancel ⟨"job", "qpu"⟩, .ok ()⟩,
          ⟨.monotonic, (31 : ℚ)⟩]
        (.error (pollingTimeoutError ⟨"job", "qpu"⟩ 30), ⟨{}, some
          { waitTime := 31 - 0, pollCount := 1 }⟩) := by
      refine @Program.Trace.step sig _ .monotonic _ (0 : ℚ) _ _ ?_
      have hpoll : (poll ⟨"job", "qpu"⟩ {} 0 (1 / 4) 0 ⟨{}, some { pollCount := 1 }⟩
          (pollLoop ⟨"job", "qpu"⟩ {} false 0 0)).Returns
          [⟨.monotonic, (31 : ℚ)⟩, ⟨.cancel ⟨"job", "qpu"⟩, .ok ()⟩]
          (.error (pollingTimeoutError ⟨"job", "qpu"⟩ 30), ⟨{}, some { pollCount := 1 }⟩) := by
        rw [poll_eq]
        refine @Program.Trace.step sig _ .monotonic _ (31 : ℚ) _ _ ?_
        rw [if_pos (by norm_num)]
        exact .step _ _ _ (.stop _)
      refine (Program.returns_bind (pollLoop ⟨"job", "qpu"⟩ {} false 0 1 _ 0 _) (timed 0) _ _).mpr
        ⟨_, _, [⟨.monotonic, (31 : ℚ)⟩], rfl, hpoll, ?_⟩
      exact @Program.Trace.step sig _ .monotonic _ (31 : ℚ) _ _ (.stop _)
    have hcount := hclaim _ _ _ _ _ _ _ _ hlate _ rfl
    cases hcount
  · intro hclaim
    obtain ⟨circuit, hreturns⟩ := evaluateEnergy_offline 2
    have htime := (hclaim _ _ _ _ _ _ _ hreturns).quantumTime
    have helapsed : (0 : ℚ) = 2 - 0 + 0 := htime
    norm_num at helapsed

end QuantumPlatform.Orchestrator

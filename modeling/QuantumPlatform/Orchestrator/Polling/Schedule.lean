import QuantumPlatform.Orchestrator.Polling.Ledger.Theorems
import QuantumPlatform.Process.Backoff

namespace QuantumPlatform.Orchestrator

open Process Python QuantumPlatform.Core

-- The sleeps between the polls of a wait.
def PollingConfig.backoff (config : PollingConfig) : Backoff ℚ :=
  ⟨config.initialInterval, config.backoffFactor, config.maxInterval⟩

structure Clocked where
  clock : ℚ
  abandoned : Bool := false

-- A backend whose calls take no time, and a job that is done at `finish`. Sleeps are
-- exact and nobody cancels; a wait has to come to an end.
def punctual (finish : ℚ) (result : ExperimentResult) : Monitor sig Clocked where
  allowed _ op := match op with
    | .sleep _ => True
    | .monotonic => True
    | .cancelled => True
    | .pollStatus _ => True
    | .fetchResult _ => True
    | .cancel _ => True
    | _ => False
  admits state op answer := match op, answer with
    | .monotonic, now => now = state.clock
    | .cancelled, requested => requested = false
    | .pollStatus _, answer => ∃ status, answer = .ok status ∧
        if finish ≤ state.clock then status = .completed else status = .queued ∨ status = .running
    | .fetchResult _, answer => answer = .ok result
    | _, _ => True
  next state op _ := match op with
    | .sleep seconds => { state with clock := state.clock + seconds }
    | .cancel _ => { state with abandoned := true }
    | _ => state

-- The wait has returned the result if a poll was made in time; else it has given up.
def Punctually (config : PollingConfig) (duration : ℚ) (result : ExperimentResult)
    (state : Clocked) (outcome : Except Exc ExperimentResult × Waiting) : Prop :=
  (config.backoff.Attempts duration config.timeout ∧ outcome.1 = .ok result ∧
      state.abandoned = false) ∨
    (¬ config.backoff.Attempts duration config.timeout ∧ (∃ exc, outcome.1 = .error exc) ∧
      state.abandoned = true)

section punctual

variable (handle : JobHandle) {config : PollingConfig} {start duration : ℚ}
  {result : ExperimentResult}

-- The next turn, the `k`-th of the wait, unless the job was found done before it.
def Turns (config : PollingConfig) (start duration : ℚ) (result : ExperimentResult) (k : ℕ)
    (again : ℚ → Int → Waiting → Program sig (Except Exc ExperimentResult × Waiting)) : Prop :=
  (∀ j < k, config.backoff.instant j < duration) → ∀ retries waiting,
    (punctual (start + duration) result).Obeys (Punctually config duration result)
      ⟨start + config.backoff.instant k, false⟩ (again (config.backoff.delay k) retries waiting)

theorem poll_punctual (hgrowing : config.backoff.Growing) {k : ℕ}
    {again : ℚ → Int → Waiting → Program sig (Except Exc ExperimentResult × Waiting)}
    (hagain : config.backoff.instant k ≤ config.timeout →
      Turns config start duration result (k + 1) again)
    (hearly : ∀ j < k, config.backoff.instant j < duration) (retries : Int) (waiting : Waiting) :
    (punctual (start + duration) result).Obeys (Punctually config duration result)
      ⟨start + config.backoff.instant k, false⟩
      (poll handle config start (config.backoff.delay k) retries waiting again) := by
  rw [poll_eq]
  refine ⟨trivial, fun (now : ℚ) hnow => ?_⟩
  obtain rfl : now = start + config.backoff.instant k := hnow
  simp only [add_sub_cancel_left]
  by_cases hlate : config.backoff.instant k > config.timeout
  · have hmissed := hgrowing.not_attempts hearly hlate
    simp only [if_pos hlate]
    refine ⟨trivial, fun answer _ => ?_⟩
    cases answer with
    | ok _ => exact .inr ⟨hmissed, ⟨_, rfl⟩, rfl⟩
    | error raised => exact .inr ⟨hmissed, ⟨raised, rfl⟩, rfl⟩
  · have hintime : config.backoff.instant k ≤ config.timeout := not_lt.mp hlate
    simp only [if_neg hlate]
    refine ⟨trivial, fun answer hadmits => ?_⟩
    obtain ⟨status, rfl, hstatus⟩ := hadmits
    have hsleep : ¬ start + duration ≤ start + config.backoff.instant k →
        ∀ current, current = Clocked.mk (start + config.backoff.instant k) false →
        (punctual (start + duration) result).Obeys (Punctually config duration result) current
          (.call (.sleep (config.backoff.delay k)) fun _ =>
            again (min (config.backoff.delay k * config.backoffFactor) config.maxInterval) retries
              waiting) := by
      rintro hpending _ rfl
      refine ⟨trivial, fun _ _ => ?_⟩
      have hnext : ∀ j < k + 1, config.backoff.instant j < duration := by
        intro j hj
        rcases Nat.lt_succ_iff_lt_or_eq.mp hj with hj | rfl
        · exact hearly j hj
        · linarith
      have hturn := hagain hintime hnext retries waiting
      rw [Backoff.instant, ← add_assoc] at hturn
      exact hturn
    split_ifs at hstatus with hdone
    · obtain rfl := hstatus
      refine ⟨trivial, fun answer hanswer => ?_⟩
      obtain rfl : answer = .ok result := hanswer
      exact .inl ⟨⟨k, le_of_add_le_add_left hdone, hintime⟩, rfl, rfl⟩
    · rcases hstatus with rfl | rfl
      · exact hsleep hdone _ rfl
      · exact hsleep hdone _ rfl

theorem pollLoop_punctual (hgrowing : config.backoff.Growing) (token : Bool) {last : ℕ}
    (hlast : config.timeout < config.backoff.instant last) {fuel k : ℕ} (hfuel : last < k + fuel)
    (hk : k ≤ last) :
    Turns config start duration result k (pollLoop handle config token start fuel) := by
  induction fuel generalizing k with
  | zero => omega
  | succ fuel ih =>
      intro hearly retries waiting
      have hagain : config.backoff.instant k ≤ config.timeout →
          Turns config start duration result (k + 1) (pollLoop handle config token start fuel) := by
        intro hintime
        have hlt : k < last := hgrowing.instant_strictMono.lt_iff_lt.mp (hintime.trans_lt hlast)
        exact ih (by omega) hlt
      have hpoll := poll_punctual handle hgrowing hagain hearly retries waiting.polled
      cases token with
      | false => exact hpoll
      | true =>
          refine ⟨trivial, fun requested hrequested => ?_⟩
          obtain rfl : requested = false := hrequested
          exact hpoll

theorem waitForResult_punctual (hgrowing : config.backoff.Growing) (token : Bool) {last fuel : ℕ}
    (hlast : config.timeout < config.backoff.instant last) (hfuel : last < fuel)
    (backendName : String) {breaker : CircuitBreaker}
    (hclosed : ∀ openedAt ∈ breaker.openedAt, breaker.resetAfter ≤ start - openedAt)
    (metrics : Option PollingMetrics) :
    (punctual (start + duration) result).Obeys (Punctually config duration result) ⟨start, false⟩
      (waitForResult fuel backendName handle config breaker token metrics) := by
  have hopen : (punctual (start + duration) result).Obeys
      (fun state answer => state = ⟨start, false⟩ ∧ answer.1 = false) ⟨start, false⟩
      breaker.isOpen := by
    cases hopened : breaker.openedAt with
    | none =>
        rw [isOpen_none hopened]
        exact ⟨rfl, rfl⟩
    | some openedAt =>
        rw [isOpen_some hopened]
        refine ⟨trivial, fun (now : ℚ) hnow => ?_⟩
        obtain rfl : now = start := hnow
        simp only [ge_iff_le, if_pos (hclosed openedAt hopened)]
        exact ⟨rfl, rfl⟩
  refine hopen.bind ?_
  rintro state ⟨isOpen, through⟩ ⟨rfl, hthrough⟩
  obtain rfl : isOpen = false := hthrough
  refine ⟨trivial, fun (now : ℚ) hnow => ?_⟩
  obtain rfl : now = start := hnow
  have hloop := @pollLoop_punctual handle config now duration result hgrowing token last hlast fuel 0
    (by omega) (Nat.zero_le last) (by simp) 0 ⟨through, metrics⟩
  rw [Backoff.instant, add_zero] at hloop
  refine hloop.bind fun final outcome hfinal => ?_
  unfold timed
  cases outcome.2.metrics with
  | none => exact hfinal
  | some metrics => exact ⟨trivial, fun _ _ => hfinal⟩

-- Such a backend answers whatever is asked in a wait.
theorem exists_punctual {finish : ℚ} (state : Clocked) {op : Effect}
    (hallowed : (punctual finish result).allowed state op) :
    ∃ answer, (punctual finish result).admits state op answer := by
  cases op with
  | sleep seconds => exact ⟨(), trivial⟩
  | monotonic => exact ⟨state.clock, rfl⟩
  | cancelled => exact ⟨false, rfl⟩
  | pollStatus handle =>
      by_cases hdone : finish ≤ state.clock
      · exact ⟨.ok .completed, .completed, rfl, by rw [if_pos hdone]⟩
      · exact ⟨.ok .running, .running, rfl, by rw [if_neg hdone]; exact .inr rfl⟩
  | fetchResult handle => exact ⟨.ok result, rfl⟩
  | cancel handle => exact ⟨.ok (), trivial⟩
  | _ => exact hallowed.elim

end punctual

-- A job that is done in time is handed back, and only a job that is not is given up,
-- exactly if some poll is made between its end and the deadline.
theorem completed_in_time_iff (backendName : String) (handle : JobHandle) (config : PollingConfig)
    (token : Bool) (metrics : Option PollingMetrics) (hinitial : 0 < config.initialInterval)
    (hcap : config.initialInterval ≤ config.maxInterval) (hfactor : 1 ≤ config.backoffFactor) :
    ∃ turns, ∀ fuel ≥ turns, ∀ (breaker : CircuitBreaker) (start duration : ℚ)
      (result : ExperimentResult),
      (∀ openedAt ∈ breaker.openedAt, breaker.resetAfter ≤ start - openedAt) →
      ∀ events rest,
      (waitForResult fuel backendName handle config breaker token metrics).Trace events rest →
      (punctual (start + duration) result).Admits ⟨start, false⟩ events →
      (∃ op next answer, rest = .call op next ∧
        (punctual (start + duration) result).admits
          ((punctual (start + duration) result).after ⟨start, false⟩ events) op answer) ∨
      ∃ outcome, rest = .ret outcome ∧
        (((duration ≤ config.timeout → outcome.1 = .ok result) ∧
            (((punctual (start + duration) result).after ⟨start, false⟩ events).abandoned = true →
              config.timeout < duration)) ↔
          (duration ≤ config.timeout → config.backoff.Attempts duration config.timeout)) := by
  have hgrowing : config.backoff.Growing := ⟨hinitial, hcap, hfactor⟩
  obtain ⟨last, hlast⟩ := hgrowing.exists_instant_gt config.timeout
  refine ⟨last + 1, fun fuel hfuel breaker start duration result hclosed events rest htrace
    hadmits => ?_⟩
  have hobeys : (punctual (start + duration) result).Obeys (Punctually config duration result)
      ⟨start, false⟩ (waitForResult fuel backendName handle config breaker token metrics) :=
    waitForResult_punctual handle hgrowing token hlast hfuel backendName hclosed metrics
  have hrest := (hobeys.trace htrace hadmits).2
  cases rest with
  | call op next =>
      obtain ⟨answer, hanswer⟩ := exists_punctual _ hrest.1
      exact .inl ⟨op, next, answer, rfl, hanswer⟩
  | ret outcome =>
      refine .inr ⟨outcome, rfl, ?_⟩
      rcases hrest with ⟨hattempts, hresult, hkept⟩ | ⟨hmissed, ⟨exc, herror⟩, habandoned⟩
      · refine iff_of_true ⟨fun _ => hresult, fun h => ?_⟩ fun _ => hattempts
        rw [hkept] at h
        cases h
      · rw [habandoned, herror]
        constructor
        · rintro ⟨-, hlate⟩ hintime
          exact absurd (hlate rfl) (not_lt.mpr hintime)
        · intro hattempts
          have hlate : config.timeout < duration := by
            by_contra hintime
            exact hmissed (hattempts (not_lt.mp hintime))
          exact ⟨fun hintime => absurd hlate (not_lt.mpr hintime), fun _ => hlate⟩

-- With the default configuration, a job that is done after 20 s is handed back: its ninth poll
-- comes at 20.3 s.
theorem completed_in_time_iff_default : ∃ fuel events outcome,
    (waitForResult fuel "qpu" ⟨"job", "qpu"⟩ {} {} false none).Returns events outcome ∧
    (punctual (0 + 20) ⟨"job", .completed, none, none⟩).Admits ⟨0, false⟩ events ∧
    outcome.1 = .ok ⟨"job", .completed, none, none⟩ := by
  let result : ExperimentResult := ⟨"job", .completed, none, none⟩
  have hgrowing : ({} : PollingConfig).backoff.Growing := ⟨by norm_num [PollingConfig.backoff],
    by norm_num [PollingConfig.backoff], by norm_num [PollingConfig.backoff]⟩
  have hninth : ({} : PollingConfig).backoff.instant 8 = 507908 / 25000 := by
    norm_num [Backoff.instant, Backoff.delay, PollingConfig.backoff]
  have hattempts : ({} : PollingConfig).backoff.Attempts 20 30 := by
    refine ⟨8, ?_⟩
    rw [hninth]
    norm_num
  obtain ⟨turns, hturns⟩ := completed_in_time_iff "qpu" ⟨"job", "qpu"⟩ {} false none (by norm_num)
    (by norm_num) (by norm_num)
  obtain ⟨last, hlast⟩ := hgrowing.exists_instant_gt 30
  have hobeys := @waitForResult_punctual ⟨"job", "qpu"⟩ {} 0 20 result hgrowing false last
    (max turns (last + 1)) hlast (by omega) "qpu" {} (fun openedAt h => by cases h) none
  obtain ⟨events, outcome, hreturns, hadmits⟩ :=
    hobeys.completes fun state op => exists_punctual state
  refine ⟨_, events, outcome, hreturns, hadmits, ?_⟩
  rcases hturns _ (le_max_left turns (last + 1)) {} 0 20 result (fun openedAt h => by cases h)
    events _ hreturns hadmits with ⟨op, next, answer, hcall, -⟩ | ⟨ended, hret, hiff⟩
  · cases hcall
  · cases hret
    exact (hiff.mpr fun _ => hattempts).1 (by norm_num)

-- Polls at 0, 4 and 8 s, a deadline of 5 s, and a job that is done after 4.5 s.
theorem not_completed_in_time :
    ¬ ∀ (fuel : ℕ) (backendName : String) (handle : JobHandle) (config : PollingConfig)
      (breaker : CircuitBreaker) (token : Bool) (metrics : Option PollingMetrics)
      (start duration : ℚ) (result : ExperimentResult),
      0 < config.initialInterval → config.initialInterval ≤ config.maxInterval →
      1 ≤ config.backoffFactor → 0 < config.timeout → breaker.openedAt = none →
      ∀ events outcome,
      (waitForResult fuel backendName handle config breaker token metrics).Returns events outcome →
      (punctual (start + duration) result).Admits ⟨start, false⟩ events →
      duration ≤ config.timeout → outcome.1 = .ok result := by
  intro hclaim
  let config : PollingConfig :=
    { initialInterval := 4, maxInterval := 4, backoffFactor := 1, timeout := 5 }
  have hgrowing : config.backoff.Growing := ⟨by norm_num [config, PollingConfig.backoff],
    by norm_num [config, PollingConfig.backoff], by norm_num [config, PollingConfig.backoff]⟩
  have hsecond : config.backoff.instant 1 = 4 := by
    norm_num [Backoff.instant, Backoff.delay, config, PollingConfig.backoff]
  have hthird : config.backoff.instant 2 = 8 := by
    norm_num [Backoff.instant, Backoff.delay, config, PollingConfig.backoff]
  have hlate : config.timeout < config.backoff.instant 2 := by
    rw [hthird]
    norm_num [config]
  have hmissed : ¬ config.backoff.Attempts (9 / 2) config.timeout := by
    refine hgrowing.not_attempts (fun j hj => ?_) hlate
    obtain rfl | rfl : j = 0 ∨ j = 1 := by omega
    · norm_num [Backoff.instant]
    · rw [hsecond]
      norm_num
  have hobeys := @waitForResult_punctual ⟨"job", "qpu"⟩ config 0 (9 / 2)
    ⟨"job", .completed, none, none⟩ hgrowing false 2 3 hlate (by omega) "qpu" {}
    (fun openedAt h => by cases h) none
  obtain ⟨events, outcome, hreturns, hadmits⟩ :=
    hobeys.completes fun state op => exists_punctual state
  have hresult := hclaim 3 "qpu" ⟨"job", "qpu"⟩ config {} false none 0 (9 / 2) _ (by norm_num [config])
    (by norm_num [config]) (by norm_num [config]) (by norm_num [config]) rfl events outcome hreturns
    hadmits (by norm_num [config])
  rcases (hobeys.trace hreturns hadmits).2 with ⟨hattempts, -⟩ | ⟨-, ⟨exc, herror⟩, -⟩
  · exact hmissed hattempts
  · rw [herror] at hresult
    cases hresult

end QuantumPlatform.Orchestrator

import QuantumPlatform.Orchestrator.Polling.Schedule

namespace QuantumPlatform.Orchestrator

open Process Python QuantumPlatform.Core

-- What the backend answers in each turn of a wait.
structure BackendScript where
  poll : ℕ → Except Exc JobStatus
  fetch : ℕ → Except Exc ExperimentResult

namespace BackendScript

variable (script : BackendScript)

-- The exception that one of the two calls raises in this turn.
def failure (k : ℕ) : Option Raise :=
  match script.poll k, script.fetch k with
  | .error exc, _ => some ⟨.pollStatus, exc⟩
  | .ok .completed, .error exc => some ⟨.fetchResult, exc⟩
  | .ok .failed, .error exc => some ⟨.fetchResult, exc⟩
  | _, _ => none

def failures (k : ℕ) : ℕ := (List.range k).countP fun j => (script.failure j).isSome

-- The job is found completed in turn `m`, and its result can be fetched. Before that it is
-- pending, or a transient error hides how it is; the retries are enough for these errors.
structure Reaches (config : PollingConfig) (m : ℕ) (result : ExperimentResult) : Prop where
  pending : ∀ k < m, script.poll k = .ok .queued ∨ script.poll k = .ok .running ∨
    ∃ raise, script.failure k = some raise ∧ isTransient raise.exc = true
  completed : script.poll m = .ok .completed
  fetched : script.fetch m = .ok result
  budget : script.failures m ≤ config.maxRetriesOnTransientError

-- No turn before the `m`-th raises an exception while it polls.
def PollsUnharmed (m : ℕ) : Prop := ∀ k < m, ∀ exc, script.poll k ≠ .error exc

variable {script}

theorem failures_succ (k : ℕ) :
    script.failures (k + 1) = script.failures k + if (script.failure k).isSome then 1 else 0 := by
  simp [failures, List.range_succ, List.countP_append, List.countP_cons]

theorem failures_mono : Monotone script.failures := by
  apply monotone_nat_of_le_succ
  intro k
  rw [failures_succ]
  exact Nat.le_add_right _ _

-- Either the poll raised it, or the status was terminal and fetching the result did.
theorem failure_cases {k : ℕ} {raise : Raise} (h : script.failure k = some raise) :
    script.poll k = .error raise.exc ∨
      ∃ status, (status = .completed ∨ status = .failed) ∧ script.poll k = .ok status ∧
        script.fetch k = .error raise.exc := by
  unfold failure at h
  split at h
  · next _ exc hpoll =>
      obtain rfl := Option.some.inj h
      exact .inl hpoll
  · next exc hpoll hfetch =>
      obtain rfl := Option.some.inj h
      exact .inr ⟨.completed, .inl rfl, hpoll, hfetch⟩
  · next exc hpoll hfetch =>
      obtain rfl := Option.some.inj h
      exact .inr ⟨.failed, .inr rfl, hpoll, hfetch⟩
  · cases h

theorem PollsUnharmed.succ {k : ℕ} (h : script.PollsUnharmed k) {status : JobStatus}
    (hpoll : script.poll k = .ok status) : script.PollsUnharmed (k + 1) := by
  intro j hj exc hexc
  rcases Nat.lt_succ_iff_lt_or_eq.mp hj with hj | rfl
  · exact h j hj exc hexc
  · rw [hpoll] at hexc
    cases hexc

end BackendScript

-- How far the wait has come in the script. `opened` is the instant that the breaker still
-- has to be asked about, and `ended` says that the deadline does not matter any more.
structure Playing where
  opened : Option ℚ
  started : Option ℚ := none
  turn : ℕ := 0
  slept : List ℚ := []
  ended : Bool := false

-- A backend that follows the script, a breaker found closed, nobody who cancels, and a
-- deadline that does not pass before the wait has ended.
def playing (script : BackendScript) (resetAfter timeout : ℚ) : Monitor sig Playing where
  allowed _ op := match op with
    | .sleep _ => True
    | .monotonic => True
    | .cancelled => True
    | .pollStatus _ => True
    | .fetchResult _ => True
    | _ => False
  admits state op answer := match op, answer with
    | .monotonic, now => match state.opened with
        | some openedAt => resetAfter + openedAt ≤ (now : ℚ)
        | none => state.ended = false → ∀ start ∈ state.started, start + timeout ≥ (now : ℚ)
    | .cancelled, requested => requested = false
    | .pollStatus _, answer => answer = script.poll state.turn
    | .fetchResult _, answer => answer = script.fetch state.turn
    | _, _ => True
  next state op answer := match op, answer with
    | .monotonic, now =>
        if state.opened.isSome then { state with opened := none }
        else { state with started := some (state.started.getD now) }
    | .pollStatus _, .error _ => { state with ended := true }
    | .fetchResult _, .ok _ => { state with ended := true }
    | .sleep seconds, _ =>
        { state with turn := state.turn + 1, slept := state.slept ++ [seconds] }
    | _, _ => state

-- The result was returned after as many delays as there were turns before it.
def ReturnsAfter (config : PollingConfig) (m : ℕ) (result : ExperimentResult) (state : Playing)
    (outcome : Except Exc ExperimentResult × Waiting) : Prop :=
  outcome.1 = .ok result ∧ state.slept = (List.range m).map config.backoff.delay

def Replayed (script : BackendScript) (config : PollingConfig) (m : ℕ) (result : ExperimentResult)
    (state : Playing) (outcome : Except Exc ExperimentResult × Waiting) : Prop :=
  (script.PollsUnharmed m ∧ ReturnsAfter config m result state outcome) ∨
    (¬ script.PollsUnharmed m ∧ ∃ exc, outcome.1 = .error exc)

section playing

variable (handle : JobHandle) {config : PollingConfig} {script : BackendScript} {m : ℕ}
  {result : ExperimentResult} {start resetAfter : ℚ}

-- The wait is in its `k`-th turn, and no poll has failed before.
def Plays (script : BackendScript) (config : PollingConfig) (m : ℕ) (result : ExperimentResult)
    (start resetAfter : ℚ) (k : ℕ)
    (again : ℚ → Int → Waiting → Program sig (Except Exc ExperimentResult × Waiting)) : Prop :=
  script.PollsUnharmed k → ∀ waiting,
    (playing script resetAfter config.timeout).Obeys (Replayed script config m result)
      { opened := none, started := some start, turn := k,
        slept := (List.range k).map config.backoff.delay }
      (again (config.backoff.delay k) (script.failures k) waiting)

theorem sleep_plays {k retries : ℕ} {waiting : Waiting}
    {again : ℚ → Int → Waiting → Program sig (Except Exc ExperimentResult × Waiting)}
    (hagain : Plays script config m result start resetAfter (k + 1) again)
    (hunharmed : script.PollsUnharmed (k + 1)) (hretries : script.failures (k + 1) = retries) :
    (playing script resetAfter config.timeout).Obeys (Replayed script config m result)
      { opened := none, started := some start, turn := k,
        slept := (List.range k).map config.backoff.delay }
      (.call (.sleep (config.backoff.delay k)) fun _ =>
        again (min (config.backoff.delay k * config.backoffFactor) config.maxInterval) retries
          waiting) := by
  refine ⟨trivial, fun _ _ => ?_⟩
  have hnext := hagain hunharmed waiting
  rw [hretries, List.range_succ, List.map_append] at hnext
  exact hnext

-- The status was terminal before the end of the script, so that fetching the result fails.
theorem collect_plays (hreaches : script.Reaches config m result) {k : ℕ} (hk : k < m) {exc : Exc}
    (hfetch : script.fetch k = .error exc) (htransient : isTransient exc = true)
    (hfailures : script.failures (k + 1) = script.failures k + 1)
    {again : ℚ → Int → Waiting → Program sig (Except Exc ExperimentResult × Waiting)}
    (hagain : Plays script config m result start resetAfter (k + 1) again)
    (hunharmed : script.PollsUnharmed (k + 1)) (waiting : Waiting) :
    (playing script resetAfter config.timeout).Obeys (Replayed script config m result)
      { opened := none, started := some start, turn := k,
        slept := (List.range k).map config.backoff.delay }
      (collect handle config (config.backoff.delay k) (script.failures k) waiting again) := by
  have hbudget : ¬ (script.failures k : Int) + 1 > config.maxRetriesOnTransientError := by
    have hmono : script.failures (k + 1) ≤ script.failures m := BackendScript.failures_mono hk
    have htotal := hreaches.budget
    omega
  rw [collect_eq]
  refine ⟨trivial, fun answer hanswer => ?_⟩
  obtain rfl : answer = .error exc := Eq.trans hanswer hfetch
  simp only [if_pos htransient, if_neg hbudget]
  exact_mod_cast sleep_plays hagain hunharmed hfailures

theorem poll_plays (hreaches : script.Reaches config m result) {k : ℕ} (hk : k ≤ m)
    {again : ℚ → Int → Waiting → Program sig (Except Exc ExperimentResult × Waiting)}
    (hagain : k < m → Plays script config m result start resetAfter (k + 1) again)
    (hunharmed : script.PollsUnharmed k) (waiting : Waiting) :
    (playing script resetAfter config.timeout).Obeys (Replayed script config m result)
      { opened := none, started := some start, turn := k,
        slept := (List.range k).map config.backoff.delay }
      (poll handle config start (config.backoff.delay k) (script.failures k) waiting again) := by
  rw [poll_eq]
  refine ⟨trivial, fun (now : ℚ) hnow => ?_⟩
  have hintime : ¬ now - start > config.timeout := by
    have hwithin : now ≤ start + config.timeout := hnow rfl start rfl
    linarith
  simp only [if_neg hintime]
  refine ⟨trivial, fun answer hanswer => ?_⟩
  obtain rfl : answer = script.poll k := hanswer
  rcases Nat.lt_or_eq_of_le hk with hk | rfl
  · have hsleeps : ∀ status, script.poll k = .ok status → script.failure k = none →
        (playing script resetAfter config.timeout).Obeys (Replayed script config m result)
          { opened := none, started := some start, turn := k,
            slept := (List.range k).map config.backoff.delay }
          (.call (.sleep (config.backoff.delay k)) fun _ =>
            again (min (config.backoff.delay k * config.backoffFactor) config.maxInterval)
              (script.failures k) waiting) := by
      intro status hpoll hnone
      apply sleep_plays (hagain hk) (hunharmed.succ hpoll)
      rw [BackendScript.failures_succ, hnone]
      rfl
    have hfetches : ∀ status raise, script.poll k = .ok status →
        script.fetch k = .error raise.exc → script.failure k = some raise →
        isTransient raise.exc = true →
        (playing script resetAfter config.timeout).Obeys (Replayed script config m result)
          { opened := none, started := some start, turn := k,
            slept := (List.range k).map config.backoff.delay }
          (collect handle config (config.backoff.delay k) (script.failures k) waiting again) := by
      intro status raise hpoll hfetch hsome htransient
      refine collect_plays handle hreaches hk hfetch htransient ?_ (hagain hk)
        (hunharmed.succ hpoll) waiting
      rw [BackendScript.failures_succ, hsome]
      rfl
    rcases hreaches.pending k hk with hpoll | hpoll | ⟨raise, hraise, htransient⟩
    · rw [hpoll]
      exact hsleeps _ hpoll (by simp [BackendScript.failure, hpoll])
    · rw [hpoll]
      exact hsleeps _ hpoll (by simp [BackendScript.failure, hpoll])
    · rcases BackendScript.failure_cases hraise with hpoll | ⟨status, hterminal, hpoll, hfetch⟩
      · have hharmed : ¬ script.PollsUnharmed m := fun h => h k hk raise.exc hpoll
        rw [hpoll]
        simp only [if_pos (isException_of_transient htransient)]
        have hraised : ∀ state later, Replayed script config m result state
            (.error raise.exc, later) := fun _ _ => .inr ⟨hharmed, raise.exc, rfl⟩
        exact failed_obeys waiting _ trivial (hraised _) fun _ => hraised _
      · have hcollect := hfetches status raise hpoll hfetch hraise htransient
        rw [hpoll]
        rcases hterminal with rfl | rfl
        · exact hcollect
        · exact hcollect
  · rw [hreaches.completed]
    refine ⟨trivial, fun answer hanswer => ?_⟩
    obtain rfl : answer = .ok result := Eq.trans hanswer hreaches.fetched
    exact .inl ⟨hunharmed, rfl, rfl⟩

theorem pollLoop_plays (hreaches : script.Reaches config m result) (token : Bool) {fuel k : ℕ}
    (hfuel : m < k + fuel) (hk : k ≤ m) :
    Plays script config m result start resetAfter k (pollLoop handle config token start fuel) := by
  induction fuel generalizing k with
  | zero => omega
  | succ fuel ih =>
      intro hunharmed waiting
      have hagain : k < m → Plays script config m result start resetAfter (k + 1)
          (pollLoop handle config token start fuel) := fun hlt => ih (by omega) hlt
      have hpoll := poll_plays handle hreaches hk hagain hunharmed waiting.polled
      cases token with
      | false => exact hpoll
      | true =>
          refine ⟨trivial, fun requested hrequested => ?_⟩
          obtain rfl : requested = false := hrequested
          exact hpoll

theorem waitForResult_plays (hreaches : script.Reaches config m result) (token : Bool) {fuel : ℕ}
    (hfuel : m < fuel) (backendName : String) (breaker : CircuitBreaker)
    (metrics : Option PollingMetrics) :
    (playing script breaker.resetAfter config.timeout).Obeys (Replayed script config m result)
      { opened := breaker.openedAt }
      (waitForResult fuel backendName handle config breaker token metrics) := by
  have hopen : (playing script breaker.resetAfter config.timeout).Obeys
      (fun state answer => state = { opened := none } ∧ answer.1 = false)
      { opened := breaker.openedAt } breaker.isOpen := by
    cases hopened : breaker.openedAt with
    | none =>
        rw [isOpen_none hopened]
        exact ⟨rfl, rfl⟩
    | some openedAt =>
        rw [isOpen_some hopened]
        refine ⟨trivial, fun (now : ℚ) hnow => ?_⟩
        have helapsed : breaker.resetAfter + openedAt ≤ now := hnow
        simp only [ge_iff_le, if_pos (le_sub_iff_add_le.mpr helapsed)]
        exact ⟨rfl, rfl⟩
  refine hopen.bind ?_
  rintro state ⟨isOpen, through⟩ ⟨rfl, hthrough⟩
  obtain rfl : isOpen = false := hthrough
  refine ⟨trivial, fun (start : ℚ) _ => ?_⟩
  have hloop := @pollLoop_plays handle config script m result start breaker.resetAfter hreaches token
    fuel 0 (by omega) (Nat.zero_le m) (fun j hj => absurd hj (Nat.not_lt_zero j)) ⟨through, metrics⟩
  refine hloop.bind fun state outcome hreplayed => ?_
  unfold timed
  cases outcome.2.metrics with
  | none => exact hreplayed
  | some metrics =>
      refine ⟨trivial, fun (now : ℚ) _ => ?_⟩
      have hslept : ((playing script breaker.resetAfter config.timeout).next state .monotonic now).slept =
          state.slept := by
        simp only [playing]
        split_ifs
        · rfl
        · rfl
      rcases hreplayed with ⟨hunharmed, hresult, hdelays⟩ | hharmed
      · exact .inl ⟨hunharmed, hresult, hslept.trans hdelays⟩
      · exact .inr hharmed

theorem exists_playing {timeout : ℚ} (state : Playing) {op : Effect}
    (hallowed : (playing script resetAfter timeout).allowed state op) :
    ∃ answer, (playing script resetAfter timeout).admits state op answer := by
  cases op with
  | sleep seconds => exact ⟨(), trivial⟩
  | monotonic =>
      cases hopened : state.opened with
      | some openedAt =>
          refine ⟨resetAfter + openedAt, ?_⟩
          simp only [playing, hopened]
          exact le_refl _
      | none =>
          refine ⟨state.started.getD 0 + timeout, ?_⟩
          simp only [playing, hopened]
          intro _ start hstart
          rw [Option.mem_def.mp hstart]
          exact le_refl _
  | cancelled => exact ⟨false, rfl⟩
  | pollStatus handle => exact ⟨_, rfl⟩
  | fetchResult handle => exact ⟨_, rfl⟩
  | _ => exact hallowed.elim

end playing

section exhausted

variable {ledger : Ledger} {config : PollingConfig} {breaker later : CircuitBreaker}
  {result : Except Exc ExperimentResult}

-- A transient error that escapes was the first one too many, unless a poll raised it.
def Exhausts (config : PollingConfig) (ledger : Ledger) : Prop :=
  ∀ raise ∈ ledger.escaping, isTransient raise.exc = true →
    (ledger.transients : Int) = config.maxRetriesOnTransientError + 1

def PollsLate (config : PollingConfig) (ledger : Ledger) : Prop :=
  ∀ raise ∈ ledger.raised, raise.source = .pollStatus → isTransient raise.exc = true →
    config.maxRetriesOnTransientError < ledger.transients

theorem Raise.retried_iff {raise : Raise} :
    raise.retried = true ↔ raise.source = .fetchResult ∧ isTransient raise.exc = true := by
  simp [Raise.retried]

theorem pollsLate_of_retried (h : ∀ raise ∈ ledger.raised, raise.retried = true) :
    PollsLate config ledger := by
  intro raise hmem hpoll _
  have hfetch := (Raise.retried_iff.mp (h raise hmem)).1
  rw [hpoll] at hfetch
  cases hfetch

theorem WaitEnd.exhausts_iff (hmax : 0 ≤ config.maxRetriesOnTransientError)
    (h : WaitEnd config breaker ledger result later) :
    Exhausts config ledger ↔ PollsLate config ledger := by
  have hquiet : ledger.escaping = none → Exhausts config ledger := by
    intro hnone raise hmem
    rw [hnone] at hmem
    cases hmem
  cases h with
  | returned result answered escaping retried =>
      exact iff_of_true (hquiet escaping) (pollsLate_of_retried retried)
  | stopped exc answered escaping retried =>
      exact iff_of_true (hquiet escaping) (pollsLate_of_retried retried)
  | raised earlier raise later answered escaping split retried budget exhausted kept failed =>
      have hearlier : earlier.countP (fun raise => isTransient raise.exc) = earlier.length :=
        List.countP_eq_length.mpr fun raise hmem => (Raise.retried_iff.mp (retried raise hmem)).2
      have htotal : isTransient raise.exc = true → ledger.transients = earlier.length + 1 := by
        intro htransient
        simp [Ledger.transients, split, hearlier, htransient]
      have hbudget := budget hmax
      constructor
      · intro hexhausts other hmem hpoll htransient
        rw [split] at hmem
        rcases List.mem_append.mp hmem with hmem | hmem
        · have hfetch := (Raise.retried_iff.mp (retried other hmem)).1
          rw [hpoll] at hfetch
          cases hfetch
        · obtain rfl := List.mem_singleton.mp hmem
          have hlast := hexhausts other escaping htransient
          omega
      · intro hlate other hmem htransient
        obtain rfl : raise = other := Option.some.inj (escaping.symm.trans hmem)
        have hcount := htotal htransient
        cases hsource : raise.source with
        | pollStatus =>
            have hpast := hlate raise (by simp [split]) hsource htransient
            omega
        | fetchResult =>
            have hpast := exhausted (Raise.retried_iff.mpr ⟨hsource, htransient⟩)
            omega

end exhausted

section scripts

def finishedResult : ExperimentResult := ⟨"job", .completed, none, none⟩

-- The job is completed from the start, and the first fetch fails.
def fetchFails : BackendScript where
  poll _ := .ok .completed
  fetch k := if k = 0 then .error (transientBackendError "busy") else .ok finishedResult

theorem fetchFails_reaches : fetchFails.Reaches {} 1 finishedResult where
  pending k hk := by
    obtain rfl : k = 0 := by omega
    exact .inr (.inr ⟨_, rfl, rfl⟩)
  completed := rfl
  fetched := rfl
  budget := by decide

def fetchFailsRun : List (Event sig) :=
  [⟨.monotonic, (0 : ℚ)⟩, ⟨.monotonic, (0 : ℚ)⟩, ⟨.pollStatus ⟨"job", "qpu"⟩, .ok .completed⟩,
    ⟨.fetchResult ⟨"job", "qpu"⟩, .error (transientBackendError "busy")⟩, ⟨.sleep (1 / 4), ()⟩,
    ⟨.monotonic, (0 : ℚ)⟩, ⟨.pollStatus ⟨"job", "qpu"⟩, .ok .completed⟩,
    ⟨.fetchResult ⟨"job", "qpu"⟩, .ok finishedResult⟩]

-- The job is completed, but the first poll fails.
def pollFails : BackendScript where
  poll k := if k = 0 then .error (transientBackendError "busy") else .ok .completed
  fetch _ := .ok finishedResult

end scripts

-- Transient errors are retried, with the delays of the backoff, exactly as long as no poll
-- raises one; and a poll is also all that lets one escape before the retries are used up.
theorem transient_errors_retried_iff (backendName : String) (handle : JobHandle)
    (config : PollingConfig) (token : Bool) (metrics : Option PollingMetrics) :
    (∀ (script : BackendScript) (m : ℕ) (result : ExperimentResult),
      script.Reaches config m result → ∀ fuel > m, ∀ (breaker : CircuitBreaker) events rest,
      (waitForResult fuel backendName handle config breaker token metrics).Trace events rest →
      (playing script breaker.resetAfter config.timeout).Admits { opened := breaker.openedAt }
        events →
      (∃ op next answer, rest = .call op next ∧
        (playing script breaker.resetAfter config.timeout).admits
          ((playing script breaker.resetAfter config.timeout).after { opened := breaker.openedAt }
            events) op answer) ∨
      ∃ outcome, rest = .ret outcome ∧
        (ReturnsAfter config m result
            ((playing script breaker.resetAfter config.timeout).after
              { opened := breaker.openedAt } events) outcome ↔
          script.PollsUnharmed m)) ∧
    (0 ≤ config.maxRetriesOnTransientError → ∀ (fuel : ℕ) (breaker : CircuitBreaker) events outcome,
      (waitForResult fuel backendName handle config breaker token metrics).Returns events outcome →
      (Exhausts config ((bookkeeping config.timeout).after (.before breaker) events) ↔
        PollsLate config ((bookkeeping config.timeout).after (.before breaker) events))) := by
  constructor
  · intro script m result hreaches fuel hfuel breaker events rest htrace hadmits
    have hobeys := waitForResult_plays handle hreaches token hfuel backendName breaker metrics
    have hrest := (hobeys.trace htrace hadmits).2
    cases rest with
    | call op next =>
        obtain ⟨answer, hanswer⟩ := exists_playing _ hrest.1
        exact .inl ⟨op, next, answer, rfl, hanswer⟩
    | ret outcome =>
        refine .inr ⟨outcome, rfl, ?_⟩
        rcases hrest with ⟨hunharmed, hreturns⟩ | ⟨hharmed, exc, herror⟩
        · exact iff_of_true hreturns hunharmed
        · refine iff_of_false (fun hreturns => ?_) hharmed
          have hok := hreturns.1
          rw [herror] at hok
          cases hok
  · intro hmax fuel breaker events outcome hreturns
    have hbooks := @waitForResult_books handle config metrics breaker fuel backendName token
    have hwaited := (hbooks.trace hreturns (Monitor.admits_all (fun _ _ _ => trivial) _ _)).2
    generalize (bookkeeping config.timeout).after (.before breaker) events = ledger at hwaited
    cases hwaited with
    | denied now closed =>
        exact iff_of_true (fun raise h => nomatch h) fun raise h => nomatch h
    | begun now start through _ _ passed concluded timed => exact concluded.ended.exhausts_iff hmax

theorem transient_errors_retried_fetch :
    (waitForResult 2 "qpu" ⟨"job", "qpu"⟩ {} {} false none).Returns fetchFailsRun
        (.ok finishedResult, {}) ∧
      ReturnsAfter {} 1 finishedResult
        ((playing fetchFails 15 30).after { opened := none } fetchFailsRun)
        (.ok finishedResult, {}) ∧
      Exhausts {} ((bookkeeping 30).after {} fetchFailsRun) := by
  have hretry : (poll ⟨"job", "qpu"⟩ {} 0 (1 / 4) 0 (Waiting.polled {})
      (pollLoop ⟨"job", "qpu"⟩ {} false 0 1)).Returns fetchFailsRun.tail (.ok finishedResult, {}) := by
    refine poll_collects _ _ _ _ _ (by norm_num) (.inl rfl) ?_
    rw [collect_eq]
    refine .step _ _ _ ?_
    have htransient : isTransient (transientBackendError "busy") = true := rfl
    have hbudget : ¬ (0 + 1 > ({} : PollingConfig).maxRetriesOnTransientError) := by decide
    simp only [if_pos htransient, if_neg hbudget]
    refine @Program.Trace.step sig _ (.sleep (1 / 4)) _ () _ _ ?_
    exact poll_fetches _ _ _ _ _ (by norm_num) finishedResult (.inl rfl)
  have hrun : (waitForResult 2 "qpu" ⟨"job", "qpu"⟩ {} {} false none).Returns fetchFailsRun
      (.ok finishedResult, {}) := waitForResult_first "qpu" hretry rfl
  obtain ⟨hretried, hexhausts⟩ := transient_errors_retried_iff "qpu" ⟨"job", "qpu"⟩ {} false none
  refine ⟨hrun, ?_, (hexhausts (by decide) 2 {} _ _ hrun).mpr ?_⟩
  · have hadmits : (playing fetchFails 15 30).Admits { opened := none } fetchFailsRun := by
      refine ⟨fun _ start h => (nomatch h), fun _ start h => ?_, rfl, rfl, trivial,
        fun _ start h => ?_, rfl, rfl, trivial⟩
      · obtain rfl : (0 : ℚ) = start := Option.some.inj h
        norm_num
      · obtain rfl : (0 : ℚ) = start := Option.some.inj h
        norm_num
    rcases hretried fetchFails 1 finishedResult fetchFails_reaches 2 Nat.one_lt_two {} _ _ hrun
      hadmits with ⟨op, next, answer, hcall, -⟩ | ⟨outcome, hret, hiff⟩
    · cases hcall
    · cases hret
      exact hiff.mpr fun k _ exc h => nomatch h
  · intro raise hmem hpoll
    obtain rfl : raise = ⟨.fetchResult, transientBackendError "busy"⟩ := List.mem_singleton.mp hmem
    cases hpoll

theorem not_transient_errors_retried :
    ¬ ∀ (backendName : String) (handle : JobHandle) (config : PollingConfig) (token : Bool)
      (metrics : Option PollingMetrics) (script : BackendScript) (m : ℕ) (result : ExperimentResult),
      script.Reaches config m result → ∀ fuel > m, ∀ (breaker : CircuitBreaker) events outcome,
      (waitForResult fuel backendName handle config breaker token metrics).Returns events outcome →
      (playing script breaker.resetAfter config.timeout).Admits { opened := breaker.openedAt }
        events → outcome.1 = .ok result := by
  intro hclaim
  have hreaches : pollFails.Reaches {} 1 finishedResult := by
    refine ⟨fun k hk => ?_, rfl, rfl, by decide⟩
    obtain rfl : k = 0 := by omega
    exact .inr (.inr ⟨_, rfl, rfl⟩)
  have hobeys := waitForResult_plays ⟨"job", "qpu"⟩ hreaches false Nat.one_lt_two "qpu" {} none
  obtain ⟨events, outcome, hreturns, hadmits⟩ :=
    hobeys.completes fun state op => exists_playing state
  have hresult := hclaim _ _ _ _ _ _ _ _ hreaches 2 Nat.one_lt_two _ _ _ hreturns hadmits
  rcases (hobeys.trace hreturns hadmits).2 with ⟨hunharmed, -⟩ | ⟨-, exc, herror⟩
  · exact hunharmed 0 Nat.zero_lt_one _ rfl
  · rw [herror] at hresult
    cases hresult

end QuantumPlatform.Orchestrator

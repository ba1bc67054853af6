import QuantumPlatform.Orchestrator.Protection
import QuantumPlatform.Orchestrator.Log.Theorems
import QuantumPlatform.Orchestrator.Execution.Lemmas

namespace QuantumPlatform.Orchestrator

open Process Python QuantumPlatform.Core

-- The calls that reporting the iterations makes.
def Effect.Telemetry : Effect → Prop
  | .utcnow => True
  | .kafkaSend _ _ => True
  | _ => False

-- A wait whose breaker is new goes on to the loop, which does not look at the
-- breaker again.
section tripped

variable (handle : JobHandle) (config : PollingConfig) (start interval : ℚ)
  (transientRetries : Int) (waiting : Waiting)

theorem tripped_retried : (waiting.retried transientRetries).tripped = waiting.tripped := by
  unfold Waiting.tripped Waiting.retried
  cases waiting.metrics <;> rfl

theorem tripped_polled : waiting.polled.tripped = waiting.tripped := by
  unfold Waiting.tripped Waiting.polled
  cases waiting.metrics <;> rfl

theorem failed_tripped : waiting.failed.Ends fun later => later.tripped = waiting.tripped := by
  unfold Waiting.failed CircuitBreaker.recordFailure
  simp only [ge_iff_le]
  split_ifs
  · exact fun _ => rfl
  · exact rfl

theorem abandon_tripped (exc : Exc) :
    ((abandon handle exc).bind fun outcome => .ret (outcome, waiting)).Ends
      fun outcome => outcome.2.tripped = waiting.tripped := by
  refine fun answer => ?_
  cases answer <;> rfl

variable {again : ℚ → Int → Waiting → Program sig (Except Exc ExperimentResult × Waiting)}

theorem collect_tripped
    (hagain : ∀ interval retries waiting,
      (again interval retries waiting).Ends fun outcome => outcome.2.tripped = waiting.tripped) :
    (collect handle config interval transientRetries waiting again).Ends
      fun outcome => outcome.2.tripped = waiting.tripped := by
  rw [collect_eq]
  refine fun answer => ?_
  cases answer with
  | ok result => rfl
  | error exc =>
      have hretried := tripped_retried (transientRetries + 1) waiting
      simp only
      split_ifs
      · exact (failed_tripped _).bind fun later hlater => hlater.trans hretried
      · rw [← hretried]
        exact fun _ => hagain _ _ _
      · rfl

theorem poll_tripped
    (hagain : ∀ interval retries waiting,
      (again interval retries waiting).Ends fun outcome => outcome.2.tripped = waiting.tripped) :
    (poll handle config start interval transientRetries waiting again).Ends
      fun outcome => outcome.2.tripped = waiting.tripped := by
  rw [poll_eq]
  refine fun (now : ℚ) => ?_
  beta_reduce
  split_ifs
  · exact abandon_tripped handle waiting _
  · refine fun answer => ?_
    rcases answer with exc | status
    · simp only
      split_ifs
      · exact (failed_tripped waiting).bind fun later hlater => hlater
      · rfl
    · cases status with
      | completed => exact collect_tripped handle config interval transientRetries waiting hagain
      | failed => exact collect_tripped handle config interval transientRetries waiting hagain
      | cancelled => rfl
      | queued => exact fun _ => hagain _ _ _
      | running => exact fun _ => hagain _ _ _

theorem pollLoop_tripped (token : Bool) (fuel : Nat) :
    (pollLoop handle config token start fuel interval transientRetries waiting).Ends
      fun outcome => outcome.2.tripped = waiting.tripped := by
  induction fuel generalizing interval transientRetries waiting with
  | zero => exact fun answer => nomatch answer
  | succ fuel ih =>
      have hpoll := poll_tripped handle config start interval transientRetries waiting.polled ih
      rw [tripped_polled] at hpoll
      have habandoned := abandon_tripped handle waiting.polled
      rw [tripped_polled] at habandoned
      cases token with
      | false => exact hpoll
      | true =>
          refine fun requested => ?_
          cases requested with
          | true => exact habandoned _
          | false => exact hpoll

theorem waitForResult_tripped (fuel : Nat) (backendName : String) (token : Bool)
    (metrics : Option PollingMetrics) :
    (waitForResult fuel backendName handle config {} token metrics).Ends
      fun outcome => outcome.2.tripped = Waiting.tripped ⟨{}, metrics⟩ := by
  refine fun (start : ℚ) => ?_
  refine (pollLoop_tripped handle config start _ 0 _ token fuel).bind fun outcome houtcome => ?_
  rw [← houtcome]
  unfold timed Waiting.tripped
  cases hmetrics : outcome.2.metrics with
  | none => exact congrArg _ hmetrics
  | some metrics => exact fun _ => rfl

end tripped

section attempts

variable {first : Option Circuit} {α β : Type}

-- The clock is all that recording a failure needs.
theorem failed_attempts {post : AttemptPhase → α → Prop} (waiting : Waiting)
    (f : Waiting → Program sig α) (hf : ∀ later, (attempt first).Obeys post .settled (f later)) :
    (attempt first).Obeys post .settled (waiting.failed.bind f) :=
  failed_obeys waiting f trivial hf fun _ => hf

-- The first poll raises, unless the wait times out before it.
theorem waitForResult_attempts (fuel : Nat) (backendName : String) (handle : JobHandle)
    (config : PollingConfig) (metrics : Option PollingMetrics) :
    (attempt first).Obeys
      (fun phase outcome => phase ≠ .preparing ∧ ∃ exc, outcome.1 = .error exc) .submitted
      (waitForResult fuel backendName handle config {} false metrics) := by
  refine ⟨trivial, fun (start : ℚ) _ => ?_⟩
  have htimed : ∀ (phase : AttemptPhase) (outcome : Except Exc ExperimentResult × Waiting),
      phase ≠ .preparing → (∃ exc, outcome.1 = .error exc) →
      (attempt first).Obeys
        (fun phase outcome => phase ≠ .preparing ∧ ∃ exc, outcome.1 = .error exc) phase
        (timed start outcome) := by
    intro phase outcome hphase hraised
    unfold timed
    cases outcome.2.metrics with
    | none => exact ⟨hphase, hraised⟩
    | some metrics =>
        cases phase with
        | preparing => exact absurd rfl hphase
        | submitted => exact ⟨trivial, fun _ _ => ⟨nofun, hraised⟩⟩
        | settled => exact ⟨trivial, fun _ _ => ⟨nofun, hraised⟩⟩
  cases fuel with
  | zero => exact ⟨trivial, fun answer => nomatch answer⟩
  | succ fuel =>
      change (attempt first).Obeys _ .submitted ((poll handle config start config.initialInterval 0
        (Waiting.polled ⟨{}, metrics⟩) (pollLoop handle config false start fuel)).bind (timed start))
      rw [poll_eq]
      refine ⟨trivial, fun (now : ℚ) _ => ?_⟩
      beta_reduce
      split_ifs
      · refine ⟨trivial, fun answer _ => ?_⟩
        cases answer with
        | ok _ => exact htimed .submitted _ nofun ⟨_, rfl⟩
        | error exc => exact htimed .submitted _ nofun ⟨_, rfl⟩
      · refine ⟨trivial, fun answer hanswer => ?_⟩
        obtain ⟨exc, rfl, hexc⟩ := hanswer
        simp only [if_pos hexc]
        rw [Program.bind_assoc]
        exact failed_attempts _ _ fun later => htimed .settled _ nofun ⟨_, rfl⟩

theorem attempts_ofExcept {result : Except Exc α} {f : α → Py sig β}
    (hf : ∀ value, result = .ok value → Attempts (f value)) :
    Attempts (Py.ofExcept result >>= f) := by
  cases result with
  | error exc => exact ⟨none, rfl⟩
  | ok value => exact hf value rfl

theorem attempts_submit (circuit : Circuit) {f : JobHandle → Py sig α}
    (hf : ∀ handle, (attempt (some circuit)).Obeys (Attempted (some circuit)) .submitted
      (f handle).run) :
    Attempts (submit circuit >>= f) := by
  refine ⟨some circuit, rfl, fun answer _ => ?_⟩
  cases answer with
  | error exc => exact ⟨nofun, exc, rfl⟩
  | ok handle => exact hf handle

-- Nothing that follows the wait for the first circuit is reached.
theorem attempted_lift {wait : Program sig (Except Exc ExperimentResult × Waiting)}
    {f : Except Exc ExperimentResult × Waiting → Py sig α} {circuit : Circuit}
    (hwait : (attempt (some circuit)).Obeys
      (fun phase outcome => phase ≠ .preparing ∧ ∃ exc, outcome.1 = .error exc) .submitted wait)
    (hf : ∀ exc waiting, (f (.error exc, waiting)).run = .ret (.error exc)) :
    (attempt (some circuit)).Obeys (Attempted (some circuit)) .submitted
      (Py.lift wait >>= f).run := by
  rw [Py.run_lift_bind]
  refine hwait.bind fun phase outcome hraised => ?_
  obtain ⟨result, waiting⟩ := outcome
  obtain ⟨hphase, exc, rfl⟩ := hraised
  rw [hf]
  exact ⟨hphase, exc, rfl⟩

variable (env : Env)

theorem waitOnce_attempts (handle : JobHandle) {f : ExperimentResult → Py sig α}
    {circuit : Circuit} :
    (attempt (some circuit)).Obeys (Attempted (some circuit)) .submitted
      (waitOnce env handle executionConfig >>= f).run := by
  have hwait : (attempt (some circuit)).Obeys (Attempted (some circuit)) .submitted
      (waitOnce env handle executionConfig).run :=
    attempted_lift (waitForResult_attempts _ _ _ _ _) fun _ _ => rfl
  refine Py.obeys_bind hwait ?_ fun phase exc hraised => ⟨hraised.1, exc, rfl⟩
  rintro phase result ⟨-, exc, h⟩
  cases h

theorem runGrover_attempts (markedStates : List String) (shots : Json) :
    Attempts (runGrover env markedStates shots) := by
  unfold runGrover
  refine attempts_ofExcept fun numQubits _ => ?_
  refine attempts_ofExcept fun problem _ => ?_
  refine attempts_ofExcept fun iterations _ => ?_
  refine attempts_ofExcept fun qc _ => ?_
  exact attempts_submit _ fun handle => waitOnce_attempts env handle

theorem runSatGrover_attempts (variableNames : List String) (expression : String) (shots : Json) :
    Attempts (runSatGrover env variableNames expression shots) := by
  unfold runSatGrover
  refine attempts_ofExcept fun solutions _ => ?_
  refine attempts_ofExcept fun iterations _ => ?_
  split_ifs
  · exact ⟨none, rfl⟩
  · refine attempts_ofExcept fun qc _ => ?_
    exact attempts_submit _ fun handle => waitOnce_attempts env handle

theorem runQpe_attempts (phi : ℚ) (numCountingQubits : Nat) (shots : Json) :
    Attempts (runQpe env phi numCountingQubits shots) := by
  unfold runQpe
  exact attempts_submit _ fun handle => waitOnce_attempts env handle

-- An energy needs no circuit, or it fails at the first one.
theorem evaluateTerms_attempts (params : List ℚ) (shots : Json) (molecule : MolecularHamiltonian)
    (terms : List PauliTerm) (total : ℚ) (metrics : VQEIterationMetrics) :
    (∃ result, (evaluateTerms env params shots molecule terms total metrics).run = .ret result) ∨
      ∃ circuit, (attempt (some circuit)).Obeys (Attempted (some circuit)) .preparing
        (evaluateTerms env params shots molecule terms total metrics).run := by
  induction terms generalizing total with
  | nil => exact .inl ⟨_, rfl⟩
  | cons term rest ih =>
      unfold evaluateTerms
      split_ifs
      · exact ih _
      · cases buildMeasurementCircuit params term molecule with
        | error exc => exact .inl ⟨.error exc, rfl⟩
        | ok qc =>
            refine .inr ⟨_, rfl, fun answer _ => ?_⟩
            cases answer with
            | error exc => exact ⟨fun h => (by cases h), exc, rfl⟩
            | ok handle => exact attempted_lift (waitForResult_attempts _ _ _ _ _) fun _ _ => rfl

theorem attempted_clock {f : ℚ → Py sig α}
    (hf : ∀ now, (attempt first).Obeys (Attempted first) .preparing (f now).run) :
    (attempt first).Obeys (Attempted first) .preparing (Py.lift monotonic >>= f).run := by
  rw [Py.run_lift_bind]
  exact ⟨by cases first <;> trivial, fun now _ => hf now⟩

-- The optimizer goes on only as long as no circuit is needed.
theorem minimizeCost_attempts (shots : Json) (molecule : MolecularHamiltonian)
    (optimizer : Optimizer) :
    ∃ first, ∀ history, (attempt first).Obeys (Attempted first) .preparing
      (minimizeCost env shots molecule optimizer history).run := by
  induction optimizer with
  | finished x value => exact ⟨none, fun history => rfl⟩
  | failed exc => exact ⟨none, fun history => rfl⟩
  | evaluate params next ih =>
      unfold minimizeCost evaluateEnergy
      rcases evaluateTerms_attempts env params shots molecule molecule.terms 0 {} with
        ⟨result, hresult⟩ | ⟨circuit, hcircuit⟩
      · cases result with
        | error exc =>
            refine ⟨none, fun history => attempted_clock fun start => ?_⟩
            rw [Py.run_bind, hresult]
            rfl
        | ok entry =>
            obtain ⟨first, hfirst⟩ := ih entry.1
            refine ⟨first, fun history => attempted_clock fun start => ?_⟩
            rw [Py.run_bind, hresult]
            exact attempted_clock fun stop => hfirst _
      · refine ⟨some circuit, fun history => attempted_clock fun start => ?_⟩
        refine Py.obeys_bind hcircuit ?_ fun phase exc hraised => ⟨hraised.1, exc, rfl⟩
        rintro phase entry ⟨-, exc, h⟩
        cases h

theorem runVqe_attempts (shots maxIterations : Json) (molecule : MolecularHamiltonian) :
    Attempts (runVqe env shots maxIterations molecule) := by
  obtain ⟨first, hfirst⟩ := minimizeCost_attempts env shots molecule
    (env.externals.minimize maxIterations (List.replicate (parameterCount molecule.numQubits) 0))
  exact ⟨first, hfirst []⟩

-- What comes after the computation, when no circuit was needed.
theorem Attempts.bind {body : Py sig α} {f : α → Py sig β} (hbody : Attempts body)
    (hf : ∀ value, (f value).run.Only Effect.Telemetry) : Attempts (body >>= f) := by
  obtain ⟨first, hfirst⟩ := hbody
  cases first with
  | none =>
      refine ⟨none, Py.obeys_bind hfirst ?_ fun _ _ hphase => hphase⟩
      rintro phase value rfl
      refine Monitor.Obeys.of_only ?_ ?_ (hf value) rfl
      · rintro phase op rfl hop
        cases op <;> trivial
      · rintro phase op rfl hop answer
        cases op <;> trivial
  | some circuit =>
      refine ⟨some circuit, Py.obeys_bind hfirst ?_ fun phase exc hraised =>
        ⟨hraised.1, exc, rfl⟩⟩
      rintro phase value ⟨-, exc, h⟩
      cases h

theorem sendHistory_telemetry (experimentId : Json) (timestamp : Int)
    (history : List VQEIterationLog) :
    (publishVqeHistory.send experimentId timestamp history).run.Only Effect.Telemetry := by
  induction history with
  | nil => trivial
  | cons log rest ih =>
      unfold publishVqeHistory.send
      refine Py.only_bind (Py.only_exceptException ⟨trivial, fun sent => ?_⟩ fun exc => trivial)
        fun sent => ?_
      · cases sent <;> trivial
      · cases sent with
        | true => exact ih
        | false => trivial

theorem publishVqeHistory_telemetry (experimentId : Json) (history : List VQEIterationLog) :
    (publishVqeHistory experimentId history).run.Only Effect.Telemetry :=
  ⟨trivial, fun timestamp => sendHistory_telemetry experimentId timestamp history⟩

theorem executeTask_attempts (task : ExperimentTask) : Attempts (executeTask env task) := by
  unfold executeTask
  simp only
  split_ifs
  · refine attempts_ofExcept fun markedStates _ => ?_
    refine attempts_ofExcept fun shots _ => ?_
    exact runGrover_attempts env markedStates shots
  · refine attempts_ofExcept fun variableNames _ => ?_
    refine attempts_ofExcept fun expression _ => ?_
    refine attempts_ofExcept fun shots _ => ?_
    exact runSatGrover_attempts env variableNames expression shots
  · refine attempts_ofExcept fun phi _ => ?_
    refine attempts_ofExcept fun numCountingQubits _ => ?_
    refine attempts_ofExcept fun shots _ => ?_
    exact runQpe_attempts env phi numCountingQubits shots
  · refine attempts_ofExcept fun shots _ => ?_
    refine attempts_ofExcept fun maxIterations _ => ?_
    refine attempts_ofExcept fun moleculeName _ => ?_
    refine Attempts.bind ?_ fun result =>
      Py.only_bind (publishVqeHistory_telemetry task.experimentId result.2) fun _ => trivial
    refine attempts_ofExcept fun molecule _ => ?_
    exact (runVqe_attempts env shots maxIterations molecule).bind fun _ => trivial
  · exact ⟨none, rfl⟩

-- What an experiment wants to run first can be seen from a run of it.
theorem firstCircuit_eq {program : Program sig α}
    (h : (attempt first).Obeys (fun phase _ => phase = .preparing → first = none) .preparing
      program) : firstCircuit program = first := by
  induction program with
  | ret value => exact (h rfl).symm
  | call op next ih =>
      obtain ⟨hallowed, hnext⟩ := h
      cases op with
      | monotonic => exact ih (0 : ℚ) (hnext (0 : ℚ) trivial)
      | submit circuit => exact hallowed.symm
      | pollStatus handle => exact hallowed.elim
      | fetchResult handle => exact hallowed.elim
      | _ => exact hallowed.symm

theorem Attempted.unless {phase : AttemptPhase} {result : Except Exc α}
    (h : Attempted first phase result) (hphase : phase = .preparing) : first = none := by
  cases first with
  | none => rfl
  | some circuit => exact absurd hphase h.1

theorem Attempts.run {body : Py sig α} (h : Attempts body) :
    ∃ first, (attempt first).Obeys (fun phase _ => phase = .preparing → first = none) .preparing
      (body >>= fun _ => pure ()).run := by
  obtain ⟨first, hfirst⟩ := h
  refine ⟨first, Py.obeys_bind hfirst (fun phase value hvalue => hvalue.unless) ?_⟩
  exact fun phase exc hraised => hraised.unless

theorem Experiment.run_attempts (experiment : Experiment) :
    (attempt (firstCircuit (experiment.run env))).Obeys
      (fun phase _ => phase = .preparing → firstCircuit (experiment.run env) = none) .preparing
      (experiment.run env) := by
  have hrun : ∃ first, (attempt first).Obeys (fun phase _ => phase = .preparing → first = none)
      .preparing (experiment.run env) := by
    cases experiment with
    | task requested => exact (executeTask_attempts env requested).run
    | vqe shots maxIterations molecule =>
        exact (runVqe_attempts env shots maxIterations molecule).run
  obtain ⟨first, hfirst⟩ := hrun
  rw [firstCircuit_eq hfirst]
  exact hfirst

end attempts

namespace Timeline

section phases

variable {first : Option Circuit} {circuit : Circuit} {phase : AttemptPhase} {op : Effect}
  {answer : op.Ans} {timeline : Timeline} {time now : ℚ}

-- The phase in which an experiment is after its first events.
def after (first : Option Circuit) (phase : AttemptPhase) (timeline : Timeline) : AttemptPhase :=
  (attempt first).after phase (timeline.map Prod.snd)

def Allows (first : Option Circuit) (phase : AttemptPhase) (timeline : Timeline) : Prop :=
  (attempt first).Allows phase (timeline.map Prod.snd)

theorem next_settled : (attempt first).next .settled op answer = .settled := by
  cases op <;> rfl

theorem after_settled (timeline : Timeline) : after first .settled timeline = .settled := by
  induction timeline with
  | nil => rfl
  | cons entry rest ih =>
      obtain ⟨time, op, answer⟩ := entry
      change after first ((attempt first).next .settled op answer) rest = .settled
      rw [next_settled]
      exact ih

-- While an experiment is not over, no poll has been answered.
theorem accesses_of_live (hallows : Allows first phase timeline)
    (hlive : after first phase timeline ≠ .settled) : timeline.accesses = [] := by
  induction timeline generalizing phase with
  | nil => rfl
  | cons entry rest ih =>
      obtain ⟨time, op, answer⟩ := entry
      obtain ⟨hallowed, hrest⟩ := hallows
      have htail := ih hrest hlive
      have hnone : access (time, ⟨op, answer⟩) = none := by
        cases op with
        | pollStatus handle =>
            cases phase with
            | preparing => exact hallowed.elim
            | submitted => exact absurd (after_settled rest) hlive
            | settled => exact hallowed.elim
        | fetchResult handle => cases phase <;> exact hallowed.elim
        | _ => rfl
      rw [accesses, List.filterMap_cons_none hnone]
      exact htail

-- An experiment that has not called the backend is still preparing.
theorem after_quiet (hquiet : ∀ entry ∈ timeline, isBackendCall entry.2 = false) :
    after first .preparing timeline = .preparing := by
  induction timeline with
  | nil => rfl
  | cons entry rest ih =>
      obtain ⟨time, op, answer⟩ := entry
      have hrest := ih fun entry hmem => hquiet entry (List.mem_cons_of_mem _ hmem)
      have hcall := hquiet (time, ⟨op, answer⟩) List.mem_cons_self
      cases op with
      | submit circuit => cases hcall
      | _ => exact hrest

-- An experiment without a circuit never calls the backend.
theorem after_none (hallows : Allows none .preparing timeline) :
    after none .preparing timeline = .preparing := by
  induction timeline with
  | nil => rfl
  | cons entry rest ih =>
      obtain ⟨time, op, answer⟩ := entry
      obtain ⟨hallowed, hrest⟩ := hallows
      cases op with
      | submit circuit => cases hallowed
      | pollStatus handle => exact hallowed.elim
      | fetchResult handle => exact hallowed.elim
      | _ => exact ih hrest

theorem isSome_of_backendCall {event : Event sig}
    (hallowed : (attempt first).allowed (after first .preparing timeline) event.1)
    (hallows : Allows first .preparing timeline) (hcall : isBackendCall event = true) :
    first.isSome = true ∧ after first .preparing timeline ≠ .settled := by
  obtain ⟨op, answer⟩ := event
  cases first with
  | none =>
      rw [after_none hallows] at hallowed
      cases op with
      | submit circuit => cases hallowed
      | pollStatus handle => exact hallowed.elim
      | _ => cases hcall
  | some circuit =>
      refine ⟨rfl, fun hsettled => ?_⟩
      rw [hsettled] at hallowed
      cases op with
      | submit circuit => exact hallowed.elim
      | pollStatus handle => exact hallowed.elim
      | _ => cases hcall

-- An experiment with a circuit goes from preparing to submitting it.
theorem isBackendCall_of_preparing {event : Event sig} (hsome : first.isSome = true)
    (hallowed : (attempt first).allowed .preparing event.1) (hevent : isReading event = false) :
    isBackendCall event = true := by
  obtain ⟨op, answer⟩ := event
  cases op with
  | submit circuit => rfl
  | monotonic => cases hevent
  | pollStatus handle => exact hallowed.elim
  | fetchResult handle => exact hallowed.elim
  | _ =>
      rw [show first = none from hallowed] at hsome
      cases hsome

theorem accesses_append (before rest : Timeline) :
    accesses (before ++ rest) = accesses before ++ accesses rest := List.filterMap_append

theorem opens_append {rest : Timeline} (h : rest.accesses = []) :
    Opens (timeline ++ rest) now ↔ Opens timeline now := by
  unfold Opens
  rw [accesses_append, h, List.append_nil]

-- A breaker that nobody tells anything only ever closes.
theorem Opens.earlier (h : Opens timeline now) (hle : time ≤ now) : Opens timeline time := by
  obtain ⟨hcount, last, hlast, hrecent⟩ := h
  exact ⟨hcount, last, hlast, (sub_le_sub_right hle last).trans_lt hrecent⟩

end phases

section ready

variable {timeline past future : Timeline} {entry : ℚ × Event sig} {time : ℚ}

theorem reading_of_not_ready (h : isReading entry.2 = true) : isBackendCall entry.2 = false := by
  obtain ⟨time, op, answer⟩ := entry
  cases op with
  | submit circuit => cases h
  | pollStatus handle => cases h
  | _ => rfl

-- The first event that is no reading of the clock.
theorem ready_eq_some (h : timeline.ready = some time) :
    ∃ past event future, timeline = past ++ (time, event) :: future ∧ isReading event = false ∧
      ∀ entry ∈ past, isReading entry.2 = true := by
  obtain ⟨entry, hfind, rfl⟩ := Option.map_eq_some_iff.mp h
  obtain ⟨hentry, past, future, hsplit, hpast⟩ := List.find?_eq_some_iff_append.mp hfind
  refine ⟨past, entry.2, future, hsplit, by simpa using hentry, fun other hmem => ?_⟩
  simpa using hpast other hmem

-- Nothing but readings happens before an experiment is ready.
theorem ready_le (hordered : Ordered (past ++ entry :: future))
    (hcall : isBackendCall entry.2 = true) :
    ∃ time, ready (past ++ entry :: future) = some time ∧ time ≤ entry.1 := by
  have hentry : isReading entry.2 = false := by
    by_contra hreading
    rw [reading_of_not_ready (by simpa using hreading)] at hcall
    cases hcall
  cases hready : ready (past ++ entry :: future) with
  | none =>
      have hnone := Option.map_eq_none_iff.mp hready
      have hall := List.find?_eq_none.mp hnone entry (by simp)
      rw [hentry] at hall
      exact absurd rfl hall
  | some time =>
      refine ⟨time, rfl, ?_⟩
      obtain ⟨before, event, after, hsplit, -, hbefore⟩ := ready_eq_some hready
      have hpairwise : Ordered (before ++ (time, event) :: after) := hsplit ▸ hordered
      simp only [Ordered, List.map_append, List.map_cons, List.pairwise_append,
        List.pairwise_cons] at hpairwise
      have hmem : entry ∈ before ++ (time, event) :: after := by
        rw [← hsplit]
        simp
      rcases List.mem_append.mp hmem with hearly | hlate
      · rw [hbefore entry hearly] at hentry
        cases hentry
      · rcases List.mem_cons.mp hlate with rfl | hlater
        · exact le_refl _
        · exact hpairwise.2.1.1 entry.1 (List.mem_map_of_mem hlater)

end ready

end Timeline

namespace Sequence

variable {env : Env} {sequence : Sequence}

-- Where an event of a sequence stands within its experiment.
theorem timeline_split {before after : Timeline} {entry : ℚ × Event sig}
    (h : sequence.timeline = before ++ entry :: after) :
    ∃ earlier experiment past future later,
      sequence = earlier ++ (experiment, past ++ entry :: future) :: later ∧
      before = timeline earlier ++ past := by
  induction sequence generalizing before with
  | nil => exact absurd h.symm (List.append_ne_nil_of_right_ne_nil before (List.cons_ne_nil _ _))
  | cons first rest ih =>
      obtain ⟨experiment, events⟩ := first
      have hconcat : events ++ timeline rest = before ++ entry :: after := h
      have hlater : ∀ past, timeline rest = past ++ entry :: after → before = events ++ past →
          ∃ earlier other past future later,
            (experiment, events) :: rest =
              earlier ++ (other, past ++ entry :: future) :: later ∧
            before = timeline earlier ++ past := by
        rintro past hrest rfl
        obtain ⟨earlier, other, past, future, later, rfl, rfl⟩ := ih hrest
        refine ⟨(experiment, events) :: earlier, other, past, future, later, rfl, ?_⟩
        exact (List.append_assoc events (timeline earlier) past).symm
      rcases List.append_eq_append_iff.mp hconcat with
        ⟨past, hbefore, hrest⟩ | ⟨future, rfl, hrest⟩
      · exact hlater past hrest hbefore
      · cases future with
        | nil => exact hlater [] hrest.symm (by simp)
        | cons other future =>
            obtain ⟨rfl, -⟩ := List.cons.inj hrest
            exact ⟨[], experiment, before, future, rest, rfl, rfl⟩

section entries

variable {earlier later : Sequence} {experiment : Experiment} {events past future : Timeline}

theorem timeline_sublist (h : sequence = earlier ++ (experiment, events) :: later) :
    events.Sublist sequence.timeline := by
  rw [h, timeline, List.flatMap_append, List.flatMap_cons]
  exact (List.sublist_append_left events _).trans (List.sublist_append_right _ _)

-- While its polls raise, an experiment makes its attempt.
theorem attempted (hran : sequence.Ran env) (hraising : sequence.timeline.KeepsRaising)
    (hmem : (experiment, events) ∈ sequence) :
    Timeline.Allows (firstCircuit (experiment.run env)) .preparing events ∧
      ∀ result, (experiment.run env).Returns (events.map Prod.snd) result →
        Timeline.after (firstCircuit (experiment.run env)) .preparing events = .preparing →
        firstCircuit (experiment.run env) = none := by
  obtain ⟨earlier, later, hsplit⟩ := List.append_of_mem hmem
  have hlocal : ∀ entry ∈ events, ∀ handle answer, entry.2 = ⟨.pollStatus handle, answer⟩ →
      ∃ exc : Exc, answer = .error exc ∧ exc.isException = true :=
    fun entry hentry => hraising entry ((timeline_sublist hsplit).subset hentry)
  have hadmits : ∀ phase, (attempt (firstCircuit (experiment.run env))).Admits phase
      (events.map Prod.snd) := by
    clear hsplit hmem
    induction events with
    | nil => exact fun _ => trivial
    | cons entry rest ih =>
        obtain ⟨time, op, answer⟩ := entry
        have hrest := ih fun entry hentry => hlocal entry (List.mem_cons_of_mem _ hentry)
        refine fun phase => ⟨?_, hrest _⟩
        cases op with
        | pollStatus handle => exact hlocal _ List.mem_cons_self handle answer rfl
        | _ => trivial
  have hobeys := Experiment.run_attempts env experiment
  obtain ⟨rest, htrace⟩ := hran _ hmem
  exact ⟨(hobeys.trace htrace (hadmits _)).1, fun result hreturns =>
    (hobeys.trace hreturns (hadmits _)).2⟩

-- The event in the middle of an experiment was allowed after what came before.
theorem attempted_at (hran : sequence.Ran env) (hraising : sequence.timeline.KeepsRaising)
    {entry : ℚ × Event sig} (hmem : (experiment, past ++ entry :: future) ∈ sequence) :
    Timeline.Allows (firstCircuit (experiment.run env)) .preparing past ∧
      (attempt (firstCircuit (experiment.run env))).allowed
        (Timeline.after (firstCircuit (experiment.run env)) .preparing past) entry.2.1 := by
  have hallows := (attempted hran hraising hmem).1
  rw [Timeline.Allows, List.map_append, Monitor.allows_append] at hallows
  exact ⟨hallows.1, hallows.2.1⟩

end entries

-- A circuit is submitted whenever an experiment is ready for it: the breaker of
-- the wait that follows is a new one, and it is looked at too late. So the backend
-- is spared exactly when the experiments come late enough, and no wait is ever
-- refused.
theorem spared_iff_late (env : Env) (sequence : Sequence) (hran : sequence.Ran env)
    (hraising : sequence.timeline.KeepsRaising) (hordered : sequence.timeline.Ordered) :
    ((sequence.timeline.Spared ∧ sequence.Visible env) ↔ sequence.Late env) ∧
    ∀ handle config token events outcome,
      (waitForResult env.fuel env.settings.backendName handle config {} token (some {})).Returns
        events outcome → outcome.2.tripped = false := by
  refine ⟨?_, fun handle config token events outcome hreturns =>
    (waitForResult_tripped handle config env.fuel _ token (some {})).returns hreturns⟩
  constructor
  · rintro ⟨hspared, -⟩ before experiment events after time hsplit hsome hready hopens
    obtain ⟨past, event, future, rfl, hevent, hreadings⟩ := Timeline.ready_eq_some hready
    have hmem : (experiment, past ++ (time, event) :: future) ∈ sequence := by simp [hsplit]
    obtain ⟨hallows, hallowed⟩ := attempted_at hran hraising hmem
    have hquiet : ∀ entry ∈ past, Timeline.isBackendCall entry.2 = false :=
      fun entry hentry => Timeline.reading_of_not_ready (hreadings entry hentry)
    have hphase := @Timeline.after_quiet (firstCircuit (experiment.run env)) past hquiet
    rw [hphase] at hallowed
    have hcall : Timeline.isBackendCall event = true :=
      Timeline.isBackendCall_of_preparing hsome hallowed hevent
    have hnone : Timeline.accesses past = [] :=
      Timeline.accesses_of_live hallows (by rw [hphase]; exact nofun)
    refine hspared (timeline before ++ past) time event (future ++ timeline after) ?_ hcall
      ((Timeline.opens_append hnone).mpr hopens)
    rw [hsplit, timeline, List.flatMap_append, List.flatMap_cons]
    simp only [timeline, List.append_assoc, List.cons_append]
  · intro hlate
    refine ⟨fun before time event after hsplit hcall hopens => ?_, ?_⟩
    · obtain ⟨earlier, experiment, past, future, later, hentry, rfl⟩ := timeline_split hsplit
      have hmem : (experiment, past ++ (time, event) :: future) ∈ sequence := by simp [hentry]
      obtain ⟨hallows, hallowed⟩ := attempted_at hran hraising hmem
      obtain ⟨hsome, hlive⟩ := Timeline.isSome_of_backendCall hallowed hallows hcall
      rw [Timeline.opens_append (Timeline.accesses_of_live hallows hlive)] at hopens
      have hlocal : Timeline.Ordered (past ++ (time, event) :: future) :=
        hordered.sublist ((timeline_sublist hentry).map _)
      obtain ⟨start, hready, hle⟩ := Timeline.ready_le hlocal hcall
      exact hlate earlier experiment _ later start hentry hsome hready (hopens.earlier hle)
    · intro entry hmem result hreturns hsome hquiet
      have hnone := (attempted hran hraising hmem).2 result hreturns (Timeline.after_quiet hquiet)
      rw [hnone] at hsome
      cases hsome

section raising

-- The same task again and again, whose one poll raises.
def raisingTask : ExperimentTask := ⟨.str "e1", .str "qpe", .obj [("phi", .float (1 / 4))]⟩

def raisingTimeline (time : ℚ) : Timeline :=
  [(time, ⟨.submit ⟨"qpe", 4, buildQpeCircuit mathPi ⟨2 * mathPi * (1 / 4)⟩ 3, .int 1024⟩,
      .ok ⟨"1", "aer-simulator"⟩⟩),
    (time, ⟨.monotonic, (0 : ℚ)⟩), (time, ⟨.monotonic, (0 : ℚ)⟩),
    (time, ⟨.pollStatus ⟨"1", "aer-simulator"⟩, .error (Exc.runtimeError "unavailable")⟩)]

def raisingTasks (times : List ℚ) : Sequence :=
  times.map fun time => (.task raisingTask, raisingTimeline time)

variable (times : List ℚ)

theorem waitOnce_raises (env : Env) (hfuel : 0 < env.fuel) (handle : JobHandle) :
    (waitOnce env handle executionConfig).run.Returns
      [⟨.monotonic, (0 : ℚ)⟩, ⟨.monotonic, (0 : ℚ)⟩,
        ⟨.pollStatus handle, .error (Exc.runtimeError "unavailable")⟩]
      (.error (Exc.runtimeError "unavailable")) := by
  have htimeout : 0 ≤ executionConfig.timeout := by
    unfold executionConfig
    norm_num
  have hpoll : (poll handle executionConfig 0 executionConfig.initialInterval 0 (Waiting.polled {})
      (pollLoop handle executionConfig false 0 (env.fuel - 1))).Returns
      [⟨.monotonic, (0 : ℚ)⟩, ⟨.pollStatus handle, .error (Exc.runtimeError "unavailable")⟩]
      (.error (Exc.runtimeError "unavailable"), ⟨{ consecutiveFailures := 1 }, none⟩) := by
    exact poll_raises _ _ _ _ _ htimeout rfl (by decide)
  exact waitOnce_first handle env (Nat.sub_add_cancel hfuel).symm hpoll rfl

theorem raisingTasks_ran : (raisingTasks times).Ran ⟨{}, default, 1⟩ := by
  intro entry hmem
  obtain ⟨time, -, rfl⟩ := List.mem_map.mp hmem
  have hexecute : (runQpe ⟨{}, default, 1⟩ (1 / 4) 3 (.int 1024)).run.Returns
      ((raisingTimeline time).map Prod.snd) (.error (Exc.runtimeError "unavailable")) :=
    .step _ _ _ (Py.returns_raised (waitOnce_raises _ Nat.one_pos _))
  have htask : (executeTask ⟨{}, default, 1⟩ raisingTask >>= fun _ => pure ()).run.Returns
      ((raisingTimeline time).map Prod.snd) (.error (Exc.runtimeError "unavailable")) :=
    Py.returns_raised hexecute
  exact ⟨_, htask⟩

theorem raisingTasks_keepsRaising : (raisingTasks times).timeline.KeepsRaising := by
  rintro entry hmem handle answer hentry
  obtain ⟨⟨experiment, events⟩, hin, hevent⟩ := List.mem_flatMap.mp hmem
  obtain ⟨time, -, hpair⟩ := List.mem_map.mp hin
  obtain ⟨rfl, rfl⟩ := Prod.mk.inj hpair
  simp only [raisingTimeline, List.mem_cons, List.not_mem_nil, or_false] at hevent
  rcases hevent with rfl | rfl | rfl | rfl
  · cases hentry
  · cases hentry
  · cases hentry
  · cases hentry
    exact ⟨_, rfl, rfl⟩

end raising

-- Two tasks that fail.
theorem spared_iff_late_raising :
    (((raisingTasks [0, 1]).timeline.Spared ∧ (raisingTasks [0, 1]).Visible ⟨{}, default, 1⟩) ↔
      (raisingTasks [0, 1]).Late ⟨{}, default, 1⟩) ∧
    ∀ handle config token events outcome,
      (waitForResult 1 "aer-simulator" handle config {} token (some {})).Returns events outcome →
        outcome.2.tripped = false := by
  refine spared_iff_late _ _ (raisingTasks_ran _) (raisingTasks_keepsRaising _) ?_
  unfold Timeline.Ordered
  decide +kernel

-- The sixth task submits its circuit a second after the fifth has failed.
theorem not_spared :
    ¬ ∀ (env : Env) (sequence : Sequence), sequence.Ran env →
      sequence.timeline.KeepsRaising → sequence.timeline.Ordered →
      sequence.timeline.Spared ∧ sequence.Visible env := by
  intro hprotected
  have hordered : (raisingTasks [0, 1, 2, 3, 4, 5]).timeline.Ordered := by
    unfold Timeline.Ordered
    decide +kernel
  have hspared := (hprotected _ _ (raisingTasks_ran _) (raisingTasks_keepsRaising _) hordered).1
  refine hspared (raisingTasks [0, 1, 2, 3, 4]).timeline 5 _ _ rfl rfl ?_
  exact ⟨by decide, 4, rfl, by decide +kernel⟩

end Sequence

end QuantumPlatform.Orchestrator

import QuantumPlatform.Statistics.Adaptive
import QuantumPlatform.Orchestrator.Execution.Sampling

namespace QuantumPlatform.Orchestrator

open Process Python Quantum Statistics QuantumPlatform.Core

-- SciPy's minimize asks for at most so many costs, all at points of this length.
inductive Optimizer.Asks (length : ℕ) : ℕ → Optimizer → Prop where
  | finished (limit : ℕ) (x : List ℚ) (value : ℚ) : Asks length limit (.finished x value)
  | failed (limit : ℕ) (exc : Ordinary) : Asks length limit (.failed exc)
  | evaluate {limit : ℕ} {params : List ℚ} {next : ℚ → Optimizer}
      (point : params.length = length) (later : ∀ cost, Asks length limit (next cost)) :
      Asks length (limit + 1) (.evaluate params next)

noncomputable section strategy

open MeasureTheory

variable {molecule : MolecularHamiltonian} {shots : ℕ}

-- The optimizer, when the costs are the energies of the draws.
def Optimizer.strategy (molecule : MolecularHamiltonian) (shots : ℕ) :
    Optimizer → Strategy (List ℚ) (Draws molecule shots)
  | .evaluate params next =>
      .ask params fun drawn => (next (sampledEnergy drawn)).strategy molecule shots
  | .finished _ _ => .stop
  | .failed _ => .stop

theorem Optimizer.Asks.within {length limit : ℕ} {optimizer : Optimizer}
    (h : optimizer.Asks length limit) :
    (optimizer.strategy molecule shots).Within (fun params => params.length = length) limit := by
  induction h with
  | finished limit x value => exact .stop limit
  | failed limit exc => exact .stop limit
  | evaluate point _ ih => exact .ask point fun drawn => ih (sampledEnergy drawn)

-- The counts of a run show these draws, evaluation by evaluation.
def Shows (circuits : List ℚ → Fin (measuredTerms molecule.terms).length → Circuit)
    (counted : List (Option (Dict String Int)))
    (asked : List (List ℚ × Draws molecule shots)) : Prop :=
  ∃ parts, counted = parts.flatten ∧
    List.Forall₂ (fun part entry => Observed part (circuits entry.1) entry.2) parts asked

theorem Observed.length {counted : List (Option (Dict String Int))}
    {circuits : Fin (measuredTerms molecule.terms).length → Circuit} {drawn : Draws molecule shots}
    (h : Observed counted circuits drawn) :
    counted.length = (measuredTerms molecule.terms).length := by
  obtain ⟨counts, rfl, -⟩ := h
  rw [List.length_ofFn]

-- The first evaluation is the first part.
theorem Shows.cons {circuits : List ℚ → Fin (measuredTerms molecule.terms).length → Circuit}
    {first rest : List (Option (Dict String Int))} {entry : List ℚ × Draws molecule shots}
    {asked : List (List ℚ × Draws molecule shots)}
    (hlength : first.length = (measuredTerms molecule.terms).length)
    (h : Shows circuits (first ++ rest) (entry :: asked)) :
    Observed first (circuits entry.1) entry.2 ∧ Shows circuits rest asked := by
  obtain ⟨parts, hparts, hshows⟩ := h
  obtain ⟨part, others, hpart, hothers, rfl⟩ := List.forall₂_cons_right_iff.mp hshows
  rw [List.flatten_cons] at hparts
  obtain ⟨rfl, rfl⟩ := List.append_inj hparts (hlength.trans hpart.length.symm)
  exact ⟨hpart, others, rfl, hothers⟩

theorem fetchedCounts_monotonic {events : List (Event sig)} {time : ℚ}
    (h : monotonic.Returns events time) : fetchedCounts events = [] := by
  obtain ⟨now, rest, rfl, hnow⟩ := (Program.returns_call _ _ _ _).mp h
  obtain ⟨rfl, -⟩ := (Program.returns_ret _ _ _).mp hnow
  rfl

theorem evaluateEnergy_length {env : Env} {params : List ℚ} {asking : Json}
    {events : List (Event sig)} {returned : ℚ} {metrics : VQEIterationMetrics}
    (h : (evaluateEnergy env params asking molecule).run.Returns events (.ok (returned, metrics))) :
    (fetchedCounts events).length = (measuredTerms molecule.terms).length := by
  obtain ⟨-, counts, hfetched, hlength, -⟩ := evaluateTerms_samples molecule.terms_bounded h
  rw [hfetched, List.length_map, hlength]

variable {env : Env} {circuits : List ℚ → Fin (measuredTerms molecule.terms).length → Circuit}

-- The history of a run is the transcript that its counts show.
theorem minimizeCost_follows {asking : Json} {length limit : ℕ} {optimizer : Optimizer}
    (hasks : optimizer.Asks length limit)
    (henergy : ∀ params, params.length = length → ∀ events (drawn : Draws molecule shots),
      Observed (fetchedCounts events) (circuits params) drawn → ∀ returned metrics,
        (evaluateEnergy env params asking molecule).run.Returns events (.ok (returned, metrics)) →
          returned = sampledEnergy drawn)
    {history : List VQEIterationLog} {summary : VQEResult} {events : List (Event sig)}
    (h : (minimizeCost env asking molecule optimizer history).run.Returns events (.ok summary)) :
    ∃ later, summary.history = history ++ later ∧
      ∀ asked : List (List ℚ × Draws molecule shots),
        asked.map Prod.fst = later.map VQEIterationLog.params →
        Shows circuits (fetchedCounts events) asked →
          (optimizer.strategy molecule shots).Follows asked ∧
          later.map (fun log => (log.params, log.energy)) =
            asked.map fun entry => (entry.1, sampledEnergy entry.2) := by
  induction hasks generalizing history events with
  | finished limit x value =>
      obtain ⟨rfl, hsame⟩ := (Program.returns_ret _ _ _).mp h
      obtain rfl := Except.ok.inj hsame
      refine ⟨[], (List.append_nil _).symm, fun asked hpoints _ => ?_⟩
      obtain rfl := List.map_eq_nil_iff.mp hpoints
      exact ⟨.stop, rfl⟩
  | failed limit exc =>
      obtain ⟨-, hsame⟩ := (Program.returns_ret _ _ _).mp h
      cases hsame
  | evaluate hpoint _ ih =>
      rw [minimizeCost, Py.run_lift_bind] at h
      obtain ⟨first, start, second, rfl, hstart, h⟩ := (Program.returns_bind _ _ _ _).mp h
      obtain ⟨⟨energy, metrics⟩, third, fourth, rfl, hreturns, h⟩ := Py.returns_parts h
      rw [Py.run_lift_bind] at h
      obtain ⟨fifth, stop, last, rfl, hstop, h⟩ := (Program.returns_bind _ _ _ _).mp h
      obtain ⟨later, hhistory, hfollows⟩ := ih energy h
      rw [List.append_assoc] at hhistory
      refine ⟨_, hhistory, fun asked hpoints hshows => ?_⟩
      rw [fetchedCounts_append, fetchedCounts_append, fetchedCounts_append,
        fetchedCounts_monotonic hstart, fetchedCounts_monotonic hstop, List.nil_append,
        List.nil_append] at hshows
      cases asked with
      | nil => cases hpoints
      | cons entry rest =>
          obtain ⟨point, drawn⟩ := entry
          obtain ⟨rfl, hrest⟩ := List.cons.inj hpoints
          obtain ⟨hobserved, hlater⟩ := hshows.cons (evaluateEnergy_length hreturns)
          obtain rfl := henergy _ hpoint _ _ hobserved _ _ hreturns
          obtain ⟨hfollowed, henergies⟩ := hfollows rest hrest hlater
          exact ⟨.ask hfollowed, congrArg (List.cons _) henergies⟩

-- Any transcript can be the one of a run, whether it then returns or raises.
theorem exists_shown {asking : Json} {length limit : ℕ} {optimizer : Optimizer}
    (hasks : optimizer.Asks length limit)
    (hserved : ∀ params, params.length = length → ∀ drawn : Draws molecule shots,
      ∃ events metrics, (evaluateEnergy env params asking molecule).run.Returns events
          (.ok (sampledEnergy drawn, metrics)) ∧
        Observed (fetchedCounts events) (circuits params) drawn)
    (history : List VQEIterationLog) {asked : List (List ℚ × Draws molecule shots)}
    (hfollows : (optimizer.strategy molecule shots).Follows asked) :
    ∃ events outcome,
      (minimizeCost env asking molecule optimizer history).run.Returns events outcome ∧
      Shows circuits (fetchedCounts events) asked ∧
      ∀ summary, outcome = .ok summary → summary.history.map VQEIterationLog.params =
        history.map VQEIterationLog.params ++ asked.map Prod.fst := by
  induction hasks generalizing history asked with
  | finished limit x value =>
      cases hfollows
      refine ⟨[], _, (Program.returns_ret _ _ _).mpr ⟨rfl, rfl⟩, ⟨[], rfl, .nil⟩, ?_⟩
      rintro summary hsame
      rw [← Except.ok.inj hsame, List.map_nil, List.append_nil]
  | failed limit exc =>
      cases hfollows
      refine ⟨[], _, (Program.returns_ret _ _ _).mpr ⟨rfl, rfl⟩, ⟨[], rfl, .nil⟩, ?_⟩
      rintro summary hsame
      cases hsame
  | @evaluate _ params _ hpoint _ ih =>
      cases hfollows with
      | @ask _ _ drawn rest hrest =>
          obtain ⟨third, metrics, hreturns, hobserved⟩ := hserved _ hpoint drawn
          let clock : List (Event sig) := [⟨.monotonic, (0 : ℚ)⟩]
          have hclock : monotonic.Returns clock 0 :=
            (Program.returns_call _ _ _ _).mpr
              ⟨(0 : ℚ), [], rfl, (Program.returns_ret _ _ _).mpr ⟨rfl, rfl⟩⟩
          obtain ⟨last, outcome, hlast, ⟨parts, hparts, hshows⟩, hhistory⟩ := ih (sampledEnergy drawn)
            (history ++ [{
              iteration := history.length + 1, params := params, energy := sampledEnergy drawn,
              quantumTime := metrics.quantumTime,
              classicalTime := max 0 (0 - 0 - metrics.quantumTime),
              retryCount := metrics.retryCount, circuitBreakerTrips := metrics.circuitBreakerTrips }])
            hrest
          refine ⟨clock ++ (third ++ (clock ++ last)), outcome, ?_,
            ⟨fetchedCounts third :: parts, ?_, .cons hobserved hshows⟩, ?_⟩
          · rw [minimizeCost, Py.run_lift_bind]
            refine (Program.returns_bind _ _ _ _).mpr ⟨_, _, _, rfl, hclock, ?_⟩
            refine (Py.returns_bind _ _ _ _).mpr (.inr ⟨_, _, _, rfl, hreturns, ?_⟩)
            rw [Py.run_lift_bind]
            exact (Program.returns_bind _ _ _ _).mpr ⟨_, _, _, rfl, hclock, hlast⟩
          · rw [fetchedCounts_append, fetchedCounts_append, fetchedCounts_append,
              fetchedCounts_monotonic hclock, List.nil_append, List.nil_append, hparts,
              List.flatten_cons]
          · intro summary hsame
            rw [hhistory summary hsame, List.map_append, List.append_assoc]
            rfl

variable {satisfies : String → List String → Basis molecule.numQubits → Bool} {params : List ℚ}

-- What an evaluation at this point submits, the energy that it estimates, and the law of its draws.
structure Estimates (satisfies : String → List String → Basis molecule.numQubits → Bool)
    (params : List ℚ) (circuits : Fin (measuredTerms molecule.terms).length → Circuit)
    (energy : ℝ) (law : PMF (Draws molecule shots)) : Prop where
  measures : ∀ i,
    Measures params (.int shots) molecule ((measuredTerms molecule.terms).get i) (circuits i)
  estimated : ∃ ansatz : QuantumCircuit ℝ,
    buildAnsatz molecule.numQubits (params.map fun theta : ℚ => (theta : ℝ))
      molecule.initialState = .ok ansatz ∧
    (energy : ℂ) = braket (prepared satisfies ansatz.gates)
      (hamiltonian molecule.numQubits molecule.terms (prepared satisfies ansatz.gates))
  drawn : law.toMeasure = Measure.pi fun shot => measurementLaw satisfies (circuits shot.1)

section estimates

variable (hshots : 1 ≤ shots) (hparams : params.length = parameterCount molecule.numQubits)

include hshots hparams

theorem exists_estimates
    (satisfies : String → List String → Basis molecule.numQubits → Bool) :
    ∃ (circuits : Fin (measuredTerms molecule.terms).length → Circuit) (energy : ℝ)
      (law : PMF (Draws molecule shots)), Estimates satisfies params circuits energy law := by
  obtain ⟨circuits, hcircuits⟩ := exists_circuits hparams (.int shots) molecule.terms
  obtain ⟨ansatz, hansatz, -, hnorm, hgates⟩ := exists_ansatz hparams hcircuits satisfies
  have hprobability : ∀ shot : Shot molecule.terms shots,
      IsProbabilityMeasure (measurementLaw satisfies (circuits shot.1)) := by
    intro shot
    have hshot := shotLaw_isProbabilityMeasure hnorm molecule.terms_bounded shot
    rwa [← measurementLaw_eq hgates] at hshot
  refine ⟨circuits, _, (Measure.pi fun shot : Shot molecule.terms shots =>
    measurementLaw satisfies (circuits shot.1)).toPMF, hcircuits, ⟨ansatz, hansatz,
      integral_shots hnorm molecule.terms_bounded hshots⟩, ?_⟩
  rw [Measure.toPMF_toMeasure]

variable {energy : ℝ} {law : PMF (Draws molecule shots)}
  {circuits : Fin (measuredTerms molecule.terms).length → Circuit}

theorem Estimates.far (h : Estimates satisfies params circuits energy law) {ε : ℝ} (hε : 0 ≤ ε) :
    law.toOuterMeasure {drawn | ε ≤ |sampledEnergy drawn - energy|} ≤
      ENNReal.ofReal (2 * Real.exp (-(shots * ε ^ 2) / (2 * spread molecule.terms))) := by
  obtain ⟨ansatz, hansatz, henergy⟩ := h.estimated
  obtain ⟨same, hsame, -, hnorm, hgates⟩ := exists_ansatz hparams h.measures satisfies
  obtain rfl := Except.ok.inj (hsame.symm.trans hansatz)
  have hfar := sampledEnergy_far hnorm molecule.terms_bounded hshots henergy hε
  rw [← measurementLaw_eq hgates, ← h.drawn] at hfar
  rw [← PMF.toMeasure_apply_eq_toOuterMeasure]
  exact (ENNReal.le_ofReal_iff_toReal_le (measure_ne_top _ _) (by positivity)).mpr hfar

theorem Estimates.exists_observed (h : Estimates satisfies params circuits energy law)
    (hfuel : 0 < env.fuel) (asking : Json) (drawn : Draws molecule shots) :
    ∃ events metrics, (evaluateEnergy env params asking molecule).run.Returns events
        (.ok (sampledEnergy drawn, metrics)) ∧
      Observed (fetchedCounts events) circuits drawn := by
  obtain ⟨ansatz, -, hpreparation, -, hgates⟩ := exists_ansatz hparams h.measures satisfies
  obtain ⟨events, returned, metrics, hreturns, hobserved⟩ :=
    Orchestrator.exists_observed hfuel hparams hshots hpreparation hgates asking drawn
  obtain rfl := hobserved.energy hshots hpreparation hgates hreturns
  exact ⟨events, metrics, hreturns, hobserved⟩

theorem Estimates.returned (h : Estimates satisfies params circuits energy law)
    {events : List (Event sig)} {drawn : Draws molecule shots}
    (hobserved : Observed (fetchedCounts events) circuits drawn) {asking : Json} {returned : ℚ}
    {metrics : VQEIterationMetrics}
    (hreturns : (evaluateEnergy env params asking molecule).run.Returns events
      (.ok (returned, metrics))) : returned = sampledEnergy drawn := by
  obtain ⟨ansatz, -, hpreparation, -, hgates⟩ := exists_ansatz hparams h.measures satisfies
  exact hobserved.energy hshots hpreparation hgates hreturns

end estimates

-- However the optimizer uses the energies that it is told, the whole history of a run of
-- run_vqe is as good as so many single evaluations.
theorem history_sampled {maxIterations : Json} {optimizer : Optimizer} {limit : ℕ}
    (hminimize : env.externals.minimize maxIterations
      (List.replicate (parameterCount molecule.numQubits) 0) = optimizer)
    (hasks : optimizer.Asks (parameterCount molecule.numQubits) limit) (hshots : 1 ≤ shots)
    (satisfies : String → List String → Basis molecule.numQubits → Bool) :
    ∃ (circuits : List ℚ → Fin (measuredTerms molecule.terms).length → Circuit)
      (energy : List ℚ → ℝ) (law : List ℚ → PMF (Draws molecule shots)),
      (∀ params, params.length = parameterCount molecule.numQubits →
        Estimates satisfies params (circuits params) (energy params) (law params)) ∧
      (∀ ε : ℝ, 0 ≤ ε →
        (Strategy.transcript law (optimizer.strategy molecule shots)).toOuterMeasure
            {asked | ∃ entry ∈ asked, ε ≤ |sampledEnergy entry.2 - energy entry.1|} ≤
          limit * ENNReal.ofReal
            (2 * Real.exp (-(shots * ε ^ 2) / (2 * spread molecule.terms)))) ∧
      (∀ (events : List (Event sig)) (summary : VQEResult),
        (runVqe env (.int shots) maxIterations molecule).run.Returns events (.ok summary) →
          ∀ asked : List (List ℚ × Draws molecule shots),
            asked.map Prod.fst = summary.history.map VQEIterationLog.params →
            Shows circuits (fetchedCounts events) asked →
              (optimizer.strategy molecule shots).Follows asked ∧
              summary.history.map (fun log => (log.params, log.energy)) =
                asked.map fun entry => (entry.1, sampledEnergy entry.2)) ∧
      (0 < env.fuel → ∀ asked : List (List ℚ × Draws molecule shots),
        (optimizer.strategy molecule shots).Follows asked →
          ∃ events outcome,
            (runVqe env (.int shots) maxIterations molecule).run.Returns events outcome ∧
            Shows circuits (fetchedCounts events) asked ∧
            ∀ summary, outcome = .ok summary →
              summary.history.map VQEIterationLog.params = asked.map Prod.fst) := by
  have hdata : ∀ params : List ℚ, ∃ (circuits : Fin (measuredTerms molecule.terms).length → Circuit)
      (energy : ℝ) (law : PMF (Draws molecule shots)),
        params.length = parameterCount molecule.numQubits →
          Estimates satisfies params circuits energy law := by
    intro params
    by_cases hparams : params.length = parameterCount molecule.numQubits
    · obtain ⟨circuits, energy, law, h⟩ := exists_estimates hshots hparams satisfies
      exact ⟨circuits, energy, law, fun _ => h⟩
    · obtain ⟨circuits, energy, law, -⟩ := exists_estimates hshots
        (List.length_replicate : (List.replicate (parameterCount molecule.numQubits)
          (0 : ℚ)).length = _) satisfies
      exact ⟨circuits, energy, law, fun h => absurd h hparams⟩
  choose circuits energy law hestimates using hdata
  subst hminimize
  refine ⟨circuits, energy, law, hestimates, ?_, ?_, fun hfuel asked hfollows => ?_⟩
  · intro ε hε
    exact Strategy.transcript_bad (fun params hparams =>
      (hestimates params hparams).far hshots hparams hε) hasks.within
  · intro events summary hreturns asked hpoints hshows
    obtain ⟨later, hhistory, hfollows⟩ := minimizeCost_follows hasks
      (fun params hparams _ _ hobserved _ _ hreturned =>
        (hestimates params hparams).returned hshots hparams hobserved hreturned) hreturns
    rw [List.nil_append] at hhistory
    rw [hhistory] at hpoints ⊢
    exact hfollows asked hpoints hshows
  · exact exists_shown hasks (fun params hparams =>
      (hestimates params hparams).exists_observed hshots hparams hfuel (.int shots)) [] hfollows

-- Where the second point is depends on the energy that was estimated at the first.
def steering : Optimizer :=
  .evaluate (List.replicate 4 0) fun cost =>
    .evaluate (List.replicate 4 (if cost < 0 then 1 / 2 else -1 / 2)) fun later =>
      .finished (List.replicate 4 0) (min cost later)

-- Two energies of H2, by 1024 shots a term: whatever the shots show, some run has these counts.
theorem history_sampled_h2 :
    ∃ (circuits : List ℚ → Fin (measuredTerms H2.terms).length → Circuit)
      (energy : List ℚ → ℝ) (law : List ℚ → PMF (Draws H2 1024)),
      (Strategy.transcript law (steering.strategy H2 1024)).toOuterMeasure
          {asked | ∃ entry ∈ asked, 1 / 10 ≤ |sampledEnergy entry.2 - energy entry.1|} ≤
        (2 : ℕ) * ENNReal.ofReal
          (2 * Real.exp (-((1024 : ℕ) * (1 / 10) ^ 2) / (2 * spread H2.terms))) ∧
      ∀ first second : Draws H2 1024, ∃ events outcome,
        (runVqe ⟨{}, { (default : Externals) with minimize := fun _ _ => steering }, 1⟩
          (.int (1024 : ℕ)) (.int 100) H2).run.Returns events outcome ∧
        Shows circuits (fetchedCounts events)
          [(List.replicate 4 0, first),
            (List.replicate 4 (if sampledEnergy first < 0 then 1 / 2 else -1 / 2), second)] ∧
        ∀ summary, outcome = .ok summary →
          summary.history.map VQEIterationLog.energy =
            [sampledEnergy first, sampledEnergy second] := by
  obtain ⟨circuits, energy, law, -, hfar, hgiven, hexists⟩ := @history_sampled H2 1024
    ⟨{}, { (default : Externals) with minimize := fun _ _ => steering }, 1⟩ (.int 100) steering 2 rfl
    (.evaluate rfl fun _ => .evaluate List.length_replicate fun _ => .finished _ _ _)
    (by norm_num) fun _ _ _ => false
  refine ⟨circuits, energy, law, hfar (1 / 10) (by norm_num), fun first second => ?_⟩
  obtain ⟨events, outcome, hreturns, hshows, hhistory⟩ :=
    hexists Nat.zero_lt_one [(_, first), (_, second)] (.ask (.ask .stop))
  refine ⟨events, outcome, hreturns, hshows, ?_⟩
  rintro summary rfl
  obtain ⟨-, henergies⟩ := hgiven events summary hreturns _ (hhistory summary rfl).symm hshows
  have hsecond := congrArg (List.map Prod.snd) henergies
  rwa [List.map_map] at hsecond

end strategy

end QuantumPlatform.Orchestrator

import QuantumPlatform.Core.Ansatz
import QuantumPlatform.Core.Sampling
import QuantumPlatform.Orchestrator.Execution.Counts

namespace QuantumPlatform.Orchestrator

open Process Python Quantum QuantumPlatform.Core

-- The backend of a run that counts `counts qc` for a circuit `qc`. The state is the
-- circuit that was submitted last.
def sampling (counts : QuantumCircuit ℚ → Dict String Int) :
    Monitor sig (Option (QuantumCircuit ℚ)) where
  allowed _ _ := True
  admits submitted op answer := ∀ handle result,
    (⟨op, answer⟩ : Event sig) = ⟨.fetchResult handle, .ok result⟩ →
      ∀ qc, submitted = some qc → ∀ sampled, result.counts = some sampled → sampled = counts qc
  next submitted op _ := match op with
    | .submit circuit => some circuit.payload
    | _ => submitted

variable {counts : QuantumCircuit ℚ → Dict String Int} {qc : QuantumCircuit ℚ}

-- What a wait hands back has the counts of the circuit.
def Sampled (counts : QuantumCircuit ℚ → Dict String Int) (qc : QuantumCircuit ℚ)
    (submitted : Option (QuantumCircuit ℚ))
    (outcome : Except Exc ExperimentResult × Waiting) : Prop :=
  submitted = some qc ∧ ∀ result, outcome.1 = .ok result →
    ∀ sampled, result.counts = some sampled → sampled = counts qc

section waiting

variable (handle : JobHandle) (config : PollingConfig) (start interval : ℚ)
  (transientRetries : Int) (waiting : Waiting)
  {again : ℚ → Int → Waiting → Program sig (Except Exc ExperimentResult × Waiting)}

theorem Sampled.error {exc : Exc} {later : Waiting} :
    Sampled counts qc (some qc) (.error exc, later) :=
  ⟨rfl, fun _ h => nomatch h⟩

-- Whatever is done while waiting, the circuit stays the one that was submitted.
theorem sampling_watches {α : Type} {program : Program sig α}
    (h : program.Only Effect.Watching) :
    (sampling counts).Obeys (fun submitted _ => submitted = some qc) (some qc) program := by
  refine Monitor.Obeys.of_only (fun _ _ _ _ => trivial) ?_ h rfl
  rintro current op rfl hop answer
  cases op <;> first | rfl | exact hop.elim

theorem collect_sampled (hagain : ∀ interval retries later,
      (sampling counts).Obeys (Sampled counts qc) (some qc) (again interval retries later)) :
    (sampling counts).Obeys (Sampled counts qc) (some qc)
      (collect handle config interval transientRetries waiting again) := by
  rw [collect_eq]
  refine ⟨trivial, fun answer hadmits => ?_⟩
  cases answer with
  | ok result =>
      refine ⟨rfl, fun other hother sampled hsampled => ?_⟩
      obtain rfl := Except.ok.inj hother
      exact hadmits handle result rfl qc rfl sampled hsampled
  | error exc =>
      simp only
      split_ifs
      · refine (sampling_watches (failed_watches _)).bind ?_
        rintro submitted later rfl
        exact Sampled.error
      · exact ⟨trivial, fun _ _ => hagain _ _ _⟩
      · exact Sampled.error

theorem poll_sampled (hagain : ∀ interval retries later,
      (sampling counts).Obeys (Sampled counts qc) (some qc) (again interval retries later)) :
    (sampling counts).Obeys (Sampled counts qc) (some qc)
      (poll handle config start interval transientRetries waiting again) := by
  have hcollect := collect_sampled handle config interval transientRetries waiting hagain
  rw [poll_eq]
  refine ⟨trivial, fun (now : ℚ) _ => ?_⟩
  beta_reduce
  split_ifs
  · refine ⟨trivial, fun answer _ => ?_⟩
    cases answer with
    | ok value => exact Sampled.error
    | error raised => exact Sampled.error
  · refine ⟨trivial, fun answer _ => ?_⟩
    rcases answer with exc | status
    · simp only
      split_ifs
      · refine (sampling_watches (failed_watches _)).bind ?_
        rintro submitted later rfl
        exact Sampled.error
      · exact Sampled.error
    · cases status with
      | completed => exact hcollect
      | failed => exact hcollect
      | cancelled => exact Sampled.error
      | queued => exact ⟨trivial, fun _ _ => hagain _ _ _⟩
      | running => exact ⟨trivial, fun _ _ => hagain _ _ _⟩

theorem pollLoop_sampled (fuel : ℕ) :
    (sampling counts).Obeys (Sampled counts qc) (some qc)
      (pollLoop handle config false start fuel interval transientRetries waiting) := by
  induction fuel generalizing interval transientRetries waiting with
  | zero => exact ⟨trivial, fun answer => nomatch answer⟩
  | succ fuel ih => exact poll_sampled handle config start interval transientRetries waiting.polled ih

theorem timed_sampled {outcome : Except Exc ExperimentResult × Waiting}
    (h : Sampled counts qc (some qc) outcome) :
    (sampling counts).Obeys (Sampled counts qc) (some qc) (timed start outcome) := by
  unfold timed
  cases outcome.2.metrics with
  | none => exact h
  | some metrics => exact ⟨trivial, fun _ _ => h⟩

-- The breaker of an evaluation is a fresh one, which is closed.
theorem waitForResult_sampled (fuel : ℕ) (backendName : String)
    (metrics : Option PollingMetrics) :
    (sampling counts).Obeys (Sampled counts qc) (some qc)
      (waitForResult fuel backendName handle config {} false metrics) := by
  refine ⟨trivial, fun (now : ℚ) _ => ?_⟩
  refine (pollLoop_sampled handle config now config.initialInterval 0 ⟨{}, metrics⟩ fuel).bind ?_
  rintro submitted outcome ⟨rfl, hsampled⟩
  exact timed_sampled now ⟨rfl, hsampled⟩

end waiting

-- A run of evaluate_energy computes the energy from the counts it gets.
theorem evaluateTerms_sampled (env : Env) (params : List ℚ) (shots : Json)
    (molecule : MolecularHamiltonian) (terms : List PauliTerm) (total : ℚ)
    (metrics : VQEIterationMetrics) (submitted : Option (QuantumCircuit ℚ)) :
    (sampling counts).Obeys (fun _ outcome => ∀ energy later, outcome = .ok (energy, later) →
        energyFromWeights (fun term => buildMeasurementCircuit params term molecule)
          (fun qc => (counts qc).items.map fun entry => (entry.1, (entry.2 : ℚ))) terms total =
            .ok energy)
      submitted (evaluateTerms env params shots molecule terms total metrics).run := by
  induction terms generalizing total metrics submitted with
  | nil =>
      intro energy later h
      obtain ⟨rfl, -⟩ := Prod.ext_iff.mp (Except.ok.inj h)
      rfl
  | cons term rest ih =>
      unfold evaluateTerms energyFromWeights
      by_cases hidentity : term.qubits.items = []
      · simp only [if_pos hidentity]
        exact ih _ _ submitted
      · simp only [if_neg hidentity]
        cases hqc : buildMeasurementCircuit params term molecule with
        | error exc => exact fun _ _ h => by cases h
        | ok qc =>
            rw [Py.ofExcept_ok, pure_bind]
            have hsubmit : (sampling counts).Obeys
                (fun later (_ : Except Exc JobHandle) => later = some qc) submitted
                (submit ⟨termName term, molecule.numQubits, qc, shots⟩).run := by
              refine ⟨trivial, fun answer _ => ?_⟩
              cases answer <;> rfl
            refine Py.obeys_bind hsubmit ?_ fun _ _ _ _ _ h => by cases h
            rintro later handle rfl
            rw [Py.run_lift_bind]
            refine (waitForResult_sampled handle _ env.fuel env.settings.backendName _).bind ?_
            rintro last outcome ⟨rfl, hsampled⟩
            obtain ⟨result, waiting⟩ := outcome
            cases result with
            | error exc => exact fun _ _ h => by cases h
            | ok result =>
                rw [Py.ofExcept_ok, pure_bind]
                simp only at hsampled ⊢
                cases hcounts : result.counts with
                | none => exact fun _ _ h => by cases h
                | some sampled =>
                    obtain rfl := hsampled result rfl sampled hcounts
                    rw [Py.ofExcept_ok, pure_bind, pauliExpectationFromCounts_eq]
                    cases hvalue : expectationFromWeights
                        ((counts qc).items.map fun entry => (entry.1, (entry.2 : ℚ))) term with
                    | error exc => exact fun _ _ h => by cases h
                    | ok expectation =>
                        have hloop := ih (total + term.coefficient * expectation)
                          (metrics.folded (waiting.metrics.getD {})) (some qc)
                        refine hloop.mono fun _ _ hreturned energy later h => ?_
                        refine Eq.trans ?_ (hreturned energy later h)
                        change (expectationFromWeights _ term >>= _) = _
                        rw [hvalue]
                        rfl

theorem evaluateEnergy_sampled {env : Env} {params : List ℚ} {shots : Json}
    {molecule : MolecularHamiltonian} {events : List (Event sig)} {energy : ℚ}
    {metrics : VQEIterationMetrics}
    (hreturns : (evaluateEnergy env params shots molecule).run.Returns events
      (.ok (energy, metrics)))
    (hadmits : (sampling counts).Admits none events) :
    energyFromWeights (fun term => buildMeasurementCircuit params term molecule)
      (fun qc => (counts qc).items.map fun entry => (entry.1, (entry.2 : ℚ)))
      molecule.terms 0 = .ok energy := by
  have hobeys := @evaluateTerms_sampled counts env params shots molecule molecule.terms 0 {} none
  exact (hobeys.trace hreturns hadmits).2 energy metrics rfl

section exact

-- A backend that answers each submission as `answering` says, and with these counts.
def exactly (exact : QuantumCircuit ℚ → Dict String Int) (n delay : ℕ) : Monitor sig Answered :=
  (answering n delay).narrowed fun state op answer => match op, answer with
    | .fetchResult _, .ok result =>
        ∀ qc, state.submitted.getLast? = some qc → result.counts = some (exact qc)
    | _, _ => True

variable {exact : QuantumCircuit ℚ → Dict String Int} {n delay : ℕ}

theorem exactly_sampling {state : Answered} {events : List (Event sig)}
    (h : (exactly exact n delay).Admits state events) :
    (sampling exact).Admits state.submitted.getLast? events := by
  induction events generalizing state with
  | nil => trivial
  | cons event rest ih =>
      obtain ⟨op, answer⟩ := event
      obtain ⟨⟨hanswer, hexact⟩, hrest⟩ := h
      refine ⟨?_, ?_⟩
      · intro handle result hevent qc hlast sampled hsampled
        cases hevent
        have hcounts : result.counts = some (exact qc) := hexact qc hlast
        exact Option.some.inj (hsampled.symm.trans hcounts)
      · have hlast : (sampling exact).next state.submitted.getLast? op answer =
            ((exactly exact n delay).next state op answer).submitted.getLast? := by
          cases op with
          | submit circuit => exact List.getLast?_concat.symm
          | pollStatus handle =>
              obtain ⟨status, rfl, -⟩ := hanswer
              cases status <;> rfl
          | fetchResult handle =>
              cases answer with
              | ok result => rfl
              | error exc => rfl
          | _ => rfl
        rw [hlast]
        exact ih hrest

-- It can always answer, so a run goes on until it returns.
theorem exists_exact_answer (hexact : ∀ qc, Histogram n (exact qc)) (state : Answered) {op : Effect}
    (hallowed : (exactly exact n delay).allowed state op) :
    ∃ answer, (exactly exact n delay).admits state op answer := by
  by_cases hfetch : ∃ handle, op = .fetchResult handle
  · obtain ⟨handle, rfl⟩ := hfetch
    cases hlast : state.submitted.getLast? with
    | none =>
        obtain ⟨answer, hanswer⟩ := @exists_answer n delay state (.fetchResult handle) hallowed
        refine ⟨answer, hanswer, ?_⟩
        cases answer with
        | ok result => exact fun qc hqc => by rw [hlast] at hqc; cases hqc
        | error exc => trivial
    | some qc =>
        refine ⟨.ok ⟨"", .completed, some (exact qc), none⟩, ⟨_, rfl, hexact qc⟩, fun other hother => ?_⟩
        rw [hlast] at hother
        rw [Option.some.inj hother]
  · obtain ⟨answer, hanswer⟩ := @exists_answer n delay state op hallowed
    refine ⟨answer, hanswer, ?_⟩
    cases op with
    | fetchResult handle => exact absurd ⟨handle, rfl⟩ hfetch
    | _ => trivial

variable {molecule : MolecularHamiltonian} {params : List ℚ} {ansatz : QuantumCircuit ℝ}
  {satisfies : String → List String → Basis molecule.numQubits → Bool}

-- What the loop computes from exact counts.
theorem energy_counted
    (hansatz : buildAnsatz molecule.numQubits (params.map fun theta : ℚ => (theta : ℝ))
      molecule.initialState = .ok ansatz)
    (hexact : ∀ term ∈ molecule.terms, ∀ qc,
      buildMeasurementCircuit params term molecule = .ok qc →
        ExactHistogram satisfies (qc.map fun theta : ℚ => (theta : ℝ)) (exact qc) ∧
          Histogram molecule.numQubits (exact qc)) :
    ∃ energy : ℚ,
      energyFromWeights (fun term => buildMeasurementCircuit params term molecule)
        (fun qc => (exact qc).items.map fun entry => (entry.1, (entry.2 : ℚ))) molecule.terms 0 =
          .ok energy ∧
      ((energy : ℝ) : ℂ) = braket (prepared satisfies ansatz.gates)
        (hamiltonian molecule.numQubits molecule.terms (prepared satisfies ansatz.gates)) := by
  obtain ⟨hpreparation, hnorm⟩ := @ansatz_prepares _ satisfies _ _ _
    molecule.initialState_length hansatz
  have hmeasurement : ∀ term ∈ molecule.terms, term.qubits.items ≠ [] → ∃ qc expectation,
      buildMeasurementCircuit params term molecule = .ok qc ∧
      expectationFromWeights ((exact qc).items.map fun entry => (entry.1, (entry.2 : ℚ))) term =
        .ok expectation ∧
      (Rat.castHom ℝ expectation : ℂ) = braket (prepared satisfies ansatz.gates)
        (term.operator molecule.numQubits (prepared satisfies ansatz.gates)) := by
    intro term hmem hidentity
    obtain ⟨real, hreal, hgates⟩ := buildMeasurementCircuit_gates hidentity hansatz
    rw [buildMeasurementCircuit_map] at hreal
    cases hqc : buildMeasurementCircuit params term molecule with
    | error exc =>
        rw [hqc] at hreal
        cases hreal
    | ok qc =>
        rw [hqc] at hreal
        obtain rfl : qc.map (fun theta : ℚ => (theta : ℝ)) = real := Except.ok.inj hreal
        obtain ⟨hcounts, hhistogram⟩ := hexact term hmem qc hqc
        have hscale : ((exact qc).values.sum : ℝ) ≠ 0 := by
          have hshots := hhistogram.shots
          exact_mod_cast (by omega : (exact qc).values.sum ≠ 0)
        obtain ⟨expectation, hok, hbraket⟩ := expectationFromWeights_exact hpreparation hnorm
          hgates (molecule.terms_bounded term hmem) hscale hcounts.proportional
        exact ⟨qc, expectation, rfl, hok, hbraket⟩
  obtain ⟨energy, henergy, hvalue⟩ :=
    energyFromWeights_exact (Rat.castHom ℝ) hnorm hmeasurement 0
  rw [map_zero, Complex.ofReal_zero, zero_add] at hvalue
  exact ⟨energy, henergy, hvalue⟩

-- A run with exact counts goes on until it returns the expectation of the Hamiltonian.
theorem evaluateEnergy_exact {env : Env} {shots : Json} {events : List (Event sig)}
    {rest : Program sig (Except Exc (ℚ × VQEIterationMetrics))}
    (hansatz : buildAnsatz molecule.numQubits (params.map fun theta : ℚ => (theta : ℝ))
      molecule.initialState = .ok ansatz)
    (hhistogram : ∀ qc, Histogram molecule.numQubits (exact qc))
    (hexact : ∀ term ∈ molecule.terms, ∀ qc,
      buildMeasurementCircuit params term molecule = .ok qc →
        ExactHistogram satisfies (qc.map fun theta : ℚ => (theta : ℝ)) (exact qc))
    (hfuel : delay < env.fuel)
    (htrace : (evaluateEnergy env params shots molecule).run.Trace events rest)
    (hadmits : (exactly exact molecule.numQubits delay).Admits {} events) :
    (∃ op next answer, rest = .call op next ∧
      (exactly exact molecule.numQubits delay).admits
        ((exactly exact molecule.numQubits delay).after {} events) op answer) ∨
    ∃ (energy : ℚ) (metrics : VQEIterationMetrics), rest = .ret (.ok (energy, metrics)) ∧
      ((energy : ℝ) : ℂ) = braket (prepared satisfies ansatz.gates)
        (hamiltonian molecule.numQubits molecule.terms (prepared satisfies ansatz.gates)) := by
  have hparams : params.length = parameterCount molecule.numQubits := by
    by_contra hne
    unfold buildAnsatz at hansatz
    rw [List.length_map, if_pos hne] at hansatz
    cases hansatz
  have hobeys : (exactly exact molecule.numQubits delay).Obeys
      (Computes molecule.numQubits params molecule molecule.terms 0 {}) {}
      (evaluateEnergy env params shots molecule).run :=
    (evaluateTerms_answered env hfuel shots hparams molecule.terms_bounded 0 {} {}).narrow
  have hrest := (hobeys.trace htrace hadmits).2
  cases rest with
  | call op next =>
      obtain ⟨answer, hanswer⟩ := exists_exact_answer hhistogram _ hrest.1
      exact .inl ⟨op, next, answer, rfl, hanswer⟩
  | ret outcome =>
      obtain ⟨_, counts, metrics, -, -, -, -, -, rfl⟩ := hrest
      obtain ⟨energy, henergy, hvalue⟩ := energy_counted hansatz fun term hmem qc hqc =>
        ⟨hexact term hmem qc hqc, hhistogram qc⟩
      have hcomputed := evaluateEnergy_sampled htrace (exactly_sampling hadmits)
      obtain rfl := Except.ok.inj (hcomputed.symm.trans henergy)
      exact .inr ⟨_, metrics, rfl, hvalue⟩

end exact

-- The measurement pipeline of VQE estimates the right observable: term by term for every
-- state, for the whole Hamiltonian when the counts are exact, and a run of evaluate_energy
-- does the same computation on the counts that it gets. Given exact counts it goes on until it
-- returns the expectation of the Hamiltonian.
theorem vqe_measurement :
    (∀ (n : ℕ) (satisfies : String → List String → Basis n → Bool) (ψ : State n)
      (term : PauliTerm), term.qubits.items ≠ [] → (∀ q ∈ term.qubits.keys, q < n) →
        ∃ signs : Basis n → ℤ,
          (∀ y, signOf (countsKey (measured n (rotations term ++ [.measureAll])) y)
            term.qubits.keys = .ok (signs y)) ∧
          ((∑ y, Complex.normSq (run satisfies (rotations term ++ [.measureAll]) ψ y) *
            signs y : ℝ) : ℂ) = braket ψ (term.operator n ψ)) ∧
    (∀ (molecule : MolecularHamiltonian) (params : List ℝ) (ansatz : QuantumCircuit ℝ)
      (satisfies : String → List String → Basis molecule.numQubits → Bool)
      (weights : QuantumCircuit ℝ → Dict String ℝ),
        buildAnsatz molecule.numQubits params molecule.initialState = .ok ansatz →
        (∀ term ∈ molecule.terms, ∀ qc, buildMeasurementCircuit params term molecule = .ok qc →
          ExactCounts satisfies qc (weights qc)) →
        ∃ energy : ℝ,
          energyFromWeights (fun term => buildMeasurementCircuit params term molecule)
            (fun qc => (weights qc).items) molecule.terms 0 = .ok energy ∧
          (energy : ℂ) = braket (prepared satisfies ansatz.gates)
            (hamiltonian molecule.numQubits molecule.terms (prepared satisfies ansatz.gates))) ∧
    (∀ (env : Env) (params : List ℚ) (shots : Json) (molecule : MolecularHamiltonian)
      (counts : QuantumCircuit ℚ → Dict String Int) (events : List (Event sig)) (energy : ℚ)
      (metrics : VQEIterationMetrics),
        (evaluateEnergy env params shots molecule).run.Returns events (.ok (energy, metrics)) →
        (sampling counts).Admits none events →
        energyFromWeights (fun term => buildMeasurementCircuit params term molecule)
          (fun qc => (counts qc).items.map fun entry => (entry.1, (entry.2 : ℚ)))
          molecule.terms 0 = .ok energy) ∧
    ∀ (env : Env) (params : List ℚ) (shots : Json) (molecule : MolecularHamiltonian)
      (ansatz : QuantumCircuit ℝ)
      (satisfies : String → List String → Basis molecule.numQubits → Bool)
      (exact : QuantumCircuit ℚ → Dict String Int) (delay : ℕ),
        buildAnsatz molecule.numQubits (params.map fun theta : ℚ => (theta : ℝ))
          molecule.initialState = .ok ansatz →
        (∀ qc, Histogram molecule.numQubits (exact qc)) →
        (∀ term ∈ molecule.terms, ∀ qc, buildMeasurementCircuit params term molecule = .ok qc →
          ExactHistogram satisfies (qc.map fun theta : ℚ => (theta : ℝ)) (exact qc)) →
        delay < env.fuel →
        ∀ events rest, (evaluateEnergy env params shots molecule).run.Trace events rest →
          (exactly exact molecule.numQubits delay).Admits {} events →
          (∃ op next answer, rest = .call op next ∧
            (exactly exact molecule.numQubits delay).admits
              ((exactly exact molecule.numQubits delay).after {} events) op answer) ∨
          ∃ (energy : ℚ) (metrics : VQEIterationMetrics), rest = .ret (.ok (energy, metrics)) ∧
            ((energy : ℝ) : ℂ) = braket (prepared satisfies ansatz.gates)
              (hamiltonian molecule.numQubits molecule.terms
                (prepared satisfies ansatz.gates)) := by
  refine ⟨?_, ?_, ?_, ?_⟩
  · intro n satisfies ψ term _ hbound
    exact signOf_expectation ψ hbound
  · intro molecule params ansatz satisfies weights hansatz hexact
    exact energy_exact hansatz hexact
  · intro env params shots molecule counts events energy metrics hreturns hadmits
    exact evaluateEnergy_sampled hreturns hadmits
  · intro env params shots molecule ansatz satisfies exact delay hansatz hhistogram hexact hfuel
      events rest htrace hadmits
    exact evaluateEnergy_exact hansatz hhistogram hexact hfuel htrace hadmits

section example_run

-- What four shots of a circuit of H2 count when all its angles are 0: one outcome, or each of
-- the four equally often once the basis is rotated.
def referenceCounts (qc : QuantumCircuit ℚ) : Dict String Int :=
  if qc.gates.any fun | .h _ => true | _ => false then
    Dict.ofList [("00", 1), ("01", 1), ("10", 1), ("11", 1)]
  else Dict.ofList [("00", 4)]

theorem referenceCounts_histogram (qc : QuantumCircuit ℚ) : Histogram 2 (referenceCounts qc) := by
  unfold referenceCounts
  split_ifs
  · exact ⟨by decide, by decide, by decide⟩
  · exact ⟨by decide, by decide, by decide⟩

-- From |00> both rotations give every outcome the same probability.
theorem normSq_rotated (first second : Pauli) (hfirst : first ≠ .Z) (hsecond : second ≠ .Z)
    (y : Basis 2) : Complex.normSq (rotate Pauli.rotation [(0, first), (1, second)]
      (ket (Basis.ofNat 2 0)) y) = 1 / 4 := by
  have hket : ∀ b c : Bool, (ket (Basis.ofNat 2 0) : State 2) ((y.set 1 b).set 0 c) =
      if b = false ∧ c = false then 1 else 0 := by
    intro b c
    have hiff : (y.set 1 b).set 0 c = Basis.ofNat 2 0 ↔ b = false ∧ c = false := by
      revert y b c
      decide
    simp only [ket, hiff]
  have hbit : ∀ b, (y.set 1 b).bit 0 = y.bit 0 := fun b => Basis.bit_set_of_ne zero_ne_one b
  have hamplitude : rotate Pauli.rotation [(0, first), (1, second)] (ket (Basis.ofNat 2 0)) y =
      second.rotation (y.bit 1) false * first.rotation (y.bit 0) false := by
    simp [rotate, Module.End.mul_apply, single_apply, hket, hbit]
  have hnorm : ∀ (pauli : Pauli) (b : Bool), pauli ≠ .Z →
      Complex.normSq (pauli.rotation b false) = 1 / 2 := by
    intro pauli b hne
    cases pauli with
    | Z => exact absurd rfl hne
    | _ => cases b <;> simp [Pauli.rotation, hadamard, Complex.normSq_ofReal]
  rw [hamplitude, Complex.normSq_mul, hnorm second _ hsecond, hnorm first _ hfirst]
  norm_num

-- The circuit of a measured term, from the state that the ansatz prepares without turning it.
theorem referenceCounts_exact {term : PauliTerm} {qc : QuantumCircuit ℚ}
    {ansatz : QuantumCircuit ℝ} (hpreparation : measured 2 ansatz.gates = [])
    (hprepared : prepared (fun _ _ _ => false) ansatz.gates = ket (Basis.ofNat 2 0))
    (hgates : (qc.map fun theta : ℚ => (theta : ℝ)).gates =
      ansatz.gates ++ rotations term ++ [.measureAll])
    (hterm : rotations term = [] ∧ referenceCounts qc = Dict.ofList [("00", 4)] ∨
      (∃ first second, first ≠ .Z ∧ second ≠ .Z ∧ term.qubits.items = [(0, first), (1, second)]) ∧
        referenceCounts qc = Dict.ofList [("00", 1), ("01", 1), ("10", 1), ("11", 1)]) :
    ExactHistogram (n := 2) (fun _ _ _ => false) (qc.map fun theta : ℚ => (theta : ℝ))
      (referenceCounts qc) := by
  rcases hterm with ⟨hnone, hcounts⟩ | ⟨⟨first, second, hfirst, hsecond, hitems⟩, hcounts⟩
  · refine ExactHistogram.of_amplitudes hpreparation hgates ?_ fun y => ?_
    · rw [hcounts]
      decide
    · have hget : ∀ y : Basis 2, (Dict.ofList [("00", (4 : Int))]).get (stateKey y) 0 =
          if y = Basis.ofNat 2 0 then 4 else 0 := by decide
      have hvalues : (Dict.ofList [("00", (4 : Int))]).values.sum = 4 := by decide
      rw [hcounts, hnone, run_nil, Module.End.one_apply, hprepared, hget, hvalues]
      by_cases hy : y = Basis.ofNat 2 0
      · simp [hy, ket]
      · simp [hy, ket]
  · refine ExactHistogram.of_amplitudes hpreparation hgates ?_ fun y => ?_
    · rw [hcounts]
      decide
    · have hget : ∀ y : Basis 2, (Dict.ofList
          [("00", (1 : Int)), ("01", 1), ("10", 1), ("11", 1)]).get (stateKey y) 0 = 1 := by decide
      have hbound : ∀ q ∈ term.qubits.keys, q < 2 := by
        unfold Dict.keys
        rw [hitems]
        simp
      have hvalues : (Dict.ofList [("00", (1 : Int)), ("01", 1), ("10", 1), ("11", 1)]).values.sum =
          4 := by decide
      rw [hcounts, hget, hvalues, run_rotations hbound, hitems, hprepared,
        normSq_rotated first second hfirst hsecond]
      norm_num

theorem referenceCounts_h2 {term : PauliTerm} (hmem : term ∈ H2.terms) {qc : QuantumCircuit ℚ}
    (hqc : buildMeasurementCircuit [0, 0, 0, 0] term H2 = .ok qc) :
    rotations term = [] ∧ referenceCounts qc = Dict.ofList [("00", 4)] ∨
      (∃ first second, first ≠ .Z ∧ second ≠ .Z ∧ term.qubits.items = [(0, first), (1, second)]) ∧
        referenceCounts qc = Dict.ofList [("00", 1), ("01", 1), ("10", 1), ("11", 1)] := by
  simp only [H2, List.mem_cons, List.not_mem_nil, or_false] at hmem
  rcases hmem with rfl | rfl | rfl | rfl | rfl | rfl
  · cases hqc
  · obtain rfl := Except.ok.inj hqc
    exact .inl ⟨rfl, rfl⟩
  · obtain rfl := Except.ok.inj hqc
    exact .inl ⟨rfl, rfl⟩
  · obtain rfl := Except.ok.inj hqc
    exact .inl ⟨rfl, rfl⟩
  · obtain rfl := Except.ok.inj hqc
    exact .inr ⟨⟨.Y, .Y, by decide, by decide, rfl⟩, rfl⟩
  · obtain rfl := Except.ok.inj hqc
    exact .inr ⟨⟨.X, .X, by decide, by decide, rfl⟩, rfl⟩

-- The pipeline for H2 at the parameters that a VQE run starts from, and one of its rotations on
-- an entangled pair.
theorem vqe_measurement_h2 :
    (∃ signs : Basis 2 → ℤ,
      (∀ y, signOf (countsKey (measured 2
          (rotations ⟨1, Dict.ofList [(0, .Y), (1, .X)]⟩ ++ [.measureAll])) y) [0, 1] =
            .ok (signs y)) ∧
      ((∑ y, Complex.normSq (run (fun _ _ _ => false)
          (rotations ⟨1, Dict.ofList [(0, .Y), (1, .X)]⟩ ++ [.measureAll])
          (ket (Basis.ofNat 2 0) + ket (Basis.ofNat 2 3)) y) * signs y : ℝ) : ℂ) =
        braket (ket (Basis.ofNat 2 0) + ket (Basis.ofNat 2 3))
          (PauliTerm.operator 2 ⟨1, Dict.ofList [(0, .Y), (1, .X)]⟩
            (ket (Basis.ofNat 2 0) + ket (Basis.ofNat 2 3)))) ∧
    ∃ ansatz, buildAnsatz 2 [0, 0, 0, 0] [] = .ok ansatz ∧
      (∃ (weights : QuantumCircuit ℝ → Dict String ℝ) (energy : ℝ),
        energyFromWeights (fun term => buildMeasurementCircuit [0, 0, 0, 0] term H2)
          (fun qc => (weights qc).items) H2.terms 0 = .ok energy ∧
        (energy : ℂ) = braket (prepared (fun _ _ _ => false) ansatz.gates)
          (hamiltonian 2 H2.terms (prepared (fun _ _ _ => false) ansatz.gates))) ∧
      ∃ events energy metrics,
        (evaluateEnergy ⟨{}, default, 1⟩ [0, 0, 0, 0] (.int 4) H2).run.Returns events
          (.ok (energy, metrics)) ∧
        energyFromWeights (fun term => buildMeasurementCircuit [0, 0, 0, 0] term H2)
          (fun qc => (referenceCounts qc).items.map fun entry => (entry.1, (entry.2 : ℚ)))
          H2.terms 0 = .ok energy ∧
        ((energy : ℝ) : ℂ) = braket (prepared (fun _ _ _ => false) ansatz.gates)
          (hamiltonian 2 H2.terms (prepared (fun _ _ _ => false) ansatz.gates)) := by
  refine ⟨vqe_measurement.1 2 (fun _ _ _ => false) (ket (Basis.ofNat 2 0) + ket (Basis.ofNat 2 3))
    ⟨1, Dict.ofList [(0, .Y), (1, .X)]⟩ (by decide) (by decide), ?_⟩
  obtain ⟨ansatz, hansatz, hprepared⟩ := @prepared_zero 2 (fun _ _ _ => false) [] (by decide)
  have hstart : prepared (fun _ _ _ => false) ansatz.gates = ket (Basis.ofNat 2 0) :=
    hprepared.trans (congrArg ket (by decide))
  have hcast : ([0, 0, 0, 0] : List ℚ).map (fun theta : ℚ => (theta : ℝ)) = [0, 0, 0, 0] := by simp
  have hreal : buildAnsatz H2.numQubits (([0, 0, 0, 0] : List ℚ).map fun theta : ℚ => (theta : ℝ))
      H2.initialState = .ok ansatz := by rw [hcast]; exact hansatz
  refine ⟨ansatz, hansatz, ?_, ?_⟩
  · choose weights hweights using @exists_exactCounts 2 (fun _ _ _ => false)
    exact ⟨weights, vqe_measurement.2.1 H2 [0, 0, 0, 0] ansatz (fun _ _ _ => false) weights hansatz
      fun _ _ qc _ => hweights qc⟩
  · have hobeys : (exactly referenceCounts 2 0).Obeys
        (Computes 2 [0, 0, 0, 0] H2 H2.terms 0 {}) {}
        (evaluateEnergy ⟨{}, default, 1⟩ [0, 0, 0, 0] (.int 4) H2).run :=
      (@evaluateTerms_answered H2.numQubits 0 [0, 0, 0, 0] H2 ⟨{}, default, 1⟩ Nat.zero_lt_one
        (.int 4) rfl H2.terms H2.terms_bounded 0 {} {}).narrow
    obtain ⟨events, value, hreturns, hadmits⟩ := hobeys.completes
      fun state op => exists_exact_answer referenceCounts_histogram state
    have hexact : ∀ term ∈ H2.terms, ∀ qc,
        buildMeasurementCircuit [0, 0, 0, 0] term H2 = .ok qc →
          ExactHistogram (n := 2) (fun _ _ _ => false) (qc.map fun theta : ℚ => (theta : ℝ))
            (referenceCounts qc) := by
      intro term hmem qc hqc
      have hidentity : term.qubits.items ≠ [] := by
        intro hnil
        rw [buildMeasurementCircuit, if_pos hnil] at hqc
        cases hqc
      obtain ⟨measurement, hmeasurement, hgates⟩ := buildMeasurementCircuit_gates hidentity hreal
      rw [buildMeasurementCircuit_map, hqc] at hmeasurement
      obtain rfl := Except.ok.inj hmeasurement
      have hprepares := @ansatz_prepares 2 (fun _ _ _ => false) _ _ _ (.inl rfl) hansatz
      exact referenceCounts_exact hprepares.1 hstart hgates (referenceCounts_h2 hmem hqc)
    rcases vqe_measurement.2.2.2 ⟨{}, default, 1⟩ [0, 0, 0, 0] (.int 4) H2 ansatz
      (fun _ _ _ => false) referenceCounts 0 hreal referenceCounts_histogram hexact
      Nat.zero_lt_one events (.ret value) hreturns hadmits with
      ⟨_, _, _, h, -⟩ | ⟨energy, metrics, h, hvalue⟩
    · cases h
    · cases h
      exact ⟨events, energy, metrics, hreturns, vqe_measurement.2.2.1 ⟨{}, default, 1⟩ [0, 0, 0, 0]
        (.int 4) H2 referenceCounts events energy metrics hreturns (exactly_sampling hadmits), hvalue⟩

end example_run

end QuantumPlatform.Orchestrator

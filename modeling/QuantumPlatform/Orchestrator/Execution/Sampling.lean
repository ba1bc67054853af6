import QuantumPlatform.Core.Sampling
import QuantumPlatform.Orchestrator.Execution.Counts
import QuantumPlatform.Orchestrator.Execution.Evidence

namespace QuantumPlatform.Orchestrator

open Process Python Quantum QuantumPlatform.Core

-- The circuit that a call has submitted, if it is a submission.
def Effect.submitted : (op : Effect) → op.Ans → Option Circuit
  | .submit circuit, .ok _ => some circuit
  | _, _ => none

-- The counts that a call has fetched, if it has fetched a result.
def Effect.counted : (op : Effect) → op.Ans → Option (Option (Dict String Int))
  | .fetchResult _, .ok result => some result.counts
  | _, _ => none

-- The circuits that a run submitted, and the counts that it was handed out, in order.
def submittedCircuits (events : List (Event sig)) : List Circuit :=
  events.filterMap fun event => Effect.submitted event.1 event.2

def fetchedCounts (events : List (Event sig)) : List (Option (Dict String Int)) :=
  events.filterMap fun event => Effect.counted event.1 event.2

theorem submittedCircuits_append (first second : List (Event sig)) :
    submittedCircuits (first ++ second) = submittedCircuits first ++ submittedCircuits second :=
  List.filterMap_append

theorem fetchedCounts_append (first second : List (Event sig)) :
    fetchedCounts (first ++ second) = fetchedCounts first ++ fetchedCounts second :=
  List.filterMap_append

section waiting

variable {log : Log} {handle : JobHandle} {result : ExperimentResult} {events : List (Event sig)}

theorem counted_after (op : Effect) (answer : op.Ans) :
    (log.after op answer).fetched.map (fun entry => entry.2.counts) =
      log.fetched.map (fun entry => entry.2.counts) ++ (Effect.counted op answer).toList := by
  have hkept : Effect.counted op answer = none → (log.after op answer).fetched = log.fetched →
      (log.after op answer).fetched.map (fun entry => entry.2.counts) =
        log.fetched.map (fun entry => entry.2.counts) ++ (Effect.counted op answer).toList := by
    intro hnone hsame
    rw [hnone, hsame, Option.toList_none, List.append_nil]
  cases op with
  | fetchResult fetched => cases answer <;> simp [Log.after, Effect.counted]
  | submit circuit => cases answer <;> simp [Log.after, Effect.counted]
  | pollStatus polled =>
      rcases answer with exc | status
      · simp [Log.after, Effect.counted]
      · cases status <;> simp [Log.after, Effect.counted]
  | cancel cancelled => cases answer <;> simp [Log.after, Effect.counted]
  | calibrationGet name => cases answer <;> simp [Log.after, Effect.counted]
  | calibrationSave saved => exact hkept rfl (Log.raisedBy_fetched _ answer)
  | kafkaSend topic payload => exact hkept rfl (Log.raisedBy_fetched log answer)
  | publish queue message =>
      exact hkept rfl ((Log.brokenBy_fetched _ answer).trans
        (Log.report_fetched log queue message))
  | declareQueue name => exact hkept rfl (Log.brokenBy_fetched log answer)
  | ack => exact hkept rfl (Log.brokenBy_fetched _ answer)
  | _ => exact hkept rfl rfl

theorem counted_logging : (logging.after log events).fetched.map (fun entry => entry.2.counts) =
    log.fetched.map (fun entry => entry.2.counts) ++ fetchedCounts events := by
  induction events generalizing log with
  | nil => exact (List.append_nil _).symm
  | cons event rest ih =>
      refine (@ih (log.after event.1 event.2)).trans ?_
      rw [counted_after, List.append_assoc]
      unfold fetchedCounts
      rw [List.filterMap_cons]
      cases Effect.counted event.1 event.2 <;> rfl

-- A wait that returns fetches once, and submits nothing.
theorem waitForResult_once {fuel : ℕ} {backendName : String} {config : PollingConfig}
    {metrics : Option PollingMetrics} {waiting : Waiting}
    (h : (waitForResult fuel backendName handle config {} false metrics).Returns events
      (.ok result, waiting)) :
    fetchedCounts events = [result.counts] ∧ submittedCircuits events = [] := by
  constructor
  · have hlogs : logging.Obeys (fun later (outcome : Except Exc ExperimentResult × Waiting) =>
        Log.Waited {} handle later outcome.1) {} _ :=
      waitForResult_logs handle config fuel backendName metrics
    have hwaited : logging.after {} events = { fetched := [(handle, result)] } :=
      (hlogs.trace h (Monitor.admits_all (fun _ _ _ => trivial) _ _)).2
    have hcounted := @counted_logging {} events
    rw [hwaited] at hcounted
    exact hcounted.symm
  · refine List.filterMap_eq_nil_iff.mpr fun event hmem => ?_
    have hwatches := (waitForResult_watches fuel backendName handle config {} false
      metrics).performed h event hmem
    obtain ⟨op, answer⟩ := event
    cases op <;> first | rfl | exact hwatches.elim

theorem submit_once {circuit : Circuit}
    (h : (submit circuit).run.Returns events (.ok handle)) :
    fetchedCounts events = [] ∧ submittedCircuits events = [circuit] := by
  obtain ⟨answer, rest, rfl, hanswer⟩ := (Program.returns_call _ _ _ _).mp h
  cases answer with
  | error exc =>
      obtain ⟨-, hraised⟩ := (Program.returns_ret _ _ _).mp hanswer
      cases hraised
  | ok submitted =>
      obtain ⟨rfl, -⟩ := (Program.returns_ret _ _ _).mp hanswer
      exact ⟨rfl, rfl⟩

end waiting

-- The backend of `answering` that answers at once, with these counts one after the other.
def serving (n : ℕ) (histograms : List (Dict String Int)) : Monitor sig Answered :=
  (answering n 0).narrowed fun state op answer => ∀ handle result,
    (⟨op, answer⟩ : Event sig) = ⟨.fetchResult handle, .ok result⟩ →
      ∀ histogram, histograms[state.counted.length]? = some histogram →
        result.counts = some histogram

section serving

variable {n : ℕ} {histograms : List (Dict String Int)}

theorem serving_step {state : Answered} {op : Effect} {answer : op.Ans}
    (h : (serving n histograms).admits state op answer) :
    (Effect.counted op answer = none ∧
      ((serving n histograms).next state op answer).counted = state.counted) ∨
    ∃ counts, Effect.counted op answer = some (some counts) ∧
      ((serving n histograms).next state op answer).counted = state.counted ++ [counts] ∧
      ∀ histogram, histograms[state.counted.length]? = some histogram → counts = histogram := by
  cases op with
  | fetchResult handle =>
      cases answer with
      | error exc => exact .inl ⟨rfl, rfl⟩
      | ok result =>
          obtain ⟨⟨counts, hcounts, -⟩, hserved⟩ := h
          refine .inr ⟨counts, congrArg some hcounts, ?_, fun histogram hhistogram => ?_⟩
          · simp [serving, Monitor.narrowed, answering, hcounts]
          · have hsame := hserved handle result rfl histogram hhistogram
            exact Option.some.inj (hcounts.symm.trans hsame)
  | pollStatus handle =>
      rcases answer with exc | status
      · exact .inl ⟨rfl, rfl⟩
      · cases status <;> exact .inl ⟨rfl, rfl⟩
  | submit circuit => cases answer <;> exact .inl ⟨rfl, rfl⟩
  | _ => exact .inl ⟨rfl, rfl⟩

-- What is fetched are the counts that are served.
theorem serving_counted {state : Answered} {events : List (Event sig)}
    (h : (serving n histograms).Admits state events) :
    ∃ counts, fetchedCounts events = counts.map some ∧
      ((serving n histograms).after state events).counted = state.counted ++ counts ∧
      ∀ i histogram, i < counts.length →
        histograms[state.counted.length + i]? = some histogram → counts[i]? = some histogram := by
  induction events generalizing state with
  | nil => exact ⟨[], rfl, (List.append_nil _).symm, fun i _ hi => absurd hi (Nat.not_lt_zero i)⟩
  | cons event rest ih =>
      obtain ⟨op, answer⟩ := event
      obtain ⟨counts, hfetched, hafter, hserved⟩ := ih h.2
      unfold fetchedCounts at hfetched ⊢
      rw [List.filterMap_cons]
      rcases serving_step h.1 with ⟨hnone, hsame⟩ | ⟨first, hfirst, hnext, hgiven⟩
      · rw [hsame] at hafter hserved
        exact ⟨counts, by rw [hnone, hfetched], hafter, hserved⟩
      · rw [hnext, List.append_assoc] at hafter
        refine ⟨first :: counts, by rw [hfirst, hfetched]; rfl, hafter, ?_⟩
        intro i histogram hi hhistogram
        cases i with
        | zero => exact congrArg some (hgiven histogram hhistogram)
        | succ i =>
            refine hserved i histogram (Nat.lt_of_succ_lt_succ hi) ?_
            rw [hnext, List.length_append, List.length_singleton, add_right_comm]
            exact hhistogram

-- A backend can hand out any such counts.
theorem exists_served {env : Env} (hfuel : 0 < env.fuel) {params : List ℚ} (shots : Json)
    {molecule : MolecularHamiltonian} (hparams : params.length = parameterCount molecule.numQubits)
    {histograms : List (Dict String Int)}
    (hlength : histograms.length = (measuredTerms molecule.terms).length)
    (hall : ∀ histogram ∈ histograms, Histogram molecule.numQubits histogram) :
    ∃ events returned metrics,
      (evaluateEnergy env params shots molecule).run.Returns events (.ok (returned, metrics)) ∧
      fetchedCounts events = histograms.map some := by
  have hanswer : ∀ state op, (serving molecule.numQubits histograms).allowed state op →
      ∃ answer, (serving molecule.numQubits histograms).admits state op answer := by
    intro state op hallowed
    obtain ⟨answer, hadmits⟩ := exists_answer state hallowed
    cases op with
    | fetchResult handle =>
        cases hnext : histograms[state.counted.length]? with
        | none =>
            refine ⟨answer, hadmits, fun _ _ _ histogram hhistogram => ?_⟩
            rw [hnext] at hhistogram
            cases hhistogram
        | some counts =>
            refine ⟨.ok ⟨"", .completed, some counts, none⟩,
              ⟨counts, rfl, hall counts (List.mem_of_getElem? hnext)⟩, ?_⟩
            intro _ _ hsame histogram hhistogram
            cases hsame
            rw [← hhistogram, hnext]
    | _ => exact ⟨answer, hadmits, fun _ _ hsame => by cases hsame⟩
  have hobeys : (serving molecule.numQubits histograms).Obeys
      (Computes molecule.numQubits params molecule molecule.terms 0 {}) {}
      (evaluateEnergy env params shots molecule).run :=
    (evaluateTerms_answered env hfuel shots hparams molecule.terms_bounded 0 {} {}).narrow
  obtain ⟨events, outcome, hreturns, hadmits⟩ := hobeys.completes hanswer
  obtain ⟨circuits, counts, metrics, -, -, hcounted, hcounts, -, rfl⟩ :=
    (hobeys.trace hreturns hadmits).2
  obtain ⟨fetched, hfetched, hafter, hserved⟩ := serving_counted hadmits
  obtain rfl := List.append_cancel_left (hafter.symm.trans hcounted)
  refine ⟨events, _, metrics, hreturns, ?_⟩
  rw [hfetched]
  congr 1
  refine List.ext_getElem? fun i => ?_
  by_cases hi : i < fetched.length
  · have hlt : i < histograms.length := by omega
    refine (hserved i _ hi ?_).trans (List.getElem?_eq_getElem hlt).symm
    rw [List.length_nil, Nat.zero_add, List.getElem?_eq_getElem hlt]
  · rw [List.getElem?_eq_none (by omega), List.getElem?_eq_none (by omega)]

end serving

section energy

variable {env : Env} {params : List ℚ} {shots : Json} {molecule : MolecularHamiltonian}

-- The circuit that evaluate_energy submits for a term.
def Measures (params : List ℚ) (shots : Json) (molecule : MolecularHamiltonian)
    (term : PauliTerm) (circuit : Circuit) : Prop :=
  ∃ qc, buildMeasurementCircuit params term molecule = .ok qc ∧
    circuit = ⟨termName term, molecule.numQubits, qc, shots⟩

-- A run that returns has one circuit counted for every measured term, and its energy is the
-- one of these counts.
theorem evaluateTerms_samples {terms : List PauliTerm} {total energy : ℚ}
    {metrics later : VQEIterationMetrics} {events : List (Event sig)}
    (hbound : ∀ term ∈ terms, ∀ q ∈ term.qubits.keys, q < molecule.numQubits)
    (h : (evaluateTerms env params shots molecule terms total metrics).run.Returns events
      (.ok (energy, later))) :
    List.Forall₂ (Measures params shots molecule) (measuredTerms terms)
        (submittedCircuits events) ∧
      ∃ counts, fetchedCounts events = counts.map some ∧
        counts.length = (measuredTerms terms).length ∧
        ((∀ histogram ∈ counts, Histogram molecule.numQubits histogram) →
          energy = total + energyOf terms counts) := by
  induction terms generalizing total metrics events with
  | nil =>
      have hzero : energyOf [] [] = 0 := by simp [energyOf, measuredTerms]
      obtain ⟨rfl, hsame⟩ := (Program.returns_ret _ _ _).mp h
      obtain ⟨rfl, -⟩ := Prod.mk.inj (Except.ok.inj hsame)
      refine ⟨.nil, [], rfl, rfl, fun _ => ?_⟩
      rw [hzero, add_zero]
  | cons term rest ih =>
      have hrest := fun other hmem => hbound other (List.mem_cons_of_mem term hmem)
      unfold evaluateTerms at h
      cases hidentity : term.isIdentity with
      | true =>
          rw [if_pos (List.isEmpty_iff.mp hidentity)] at h
          obtain ⟨hcircuits, counts, hfetched, hlength, henergy⟩ := ih hrest h
          refine ⟨?_, counts, hfetched, ?_, fun hcounts => ?_⟩
          · rwa [measuredTerms_identity hidentity]
          · rwa [measuredTerms_identity hidentity]
          · rw [henergy hcounts, energyOf_identity hidentity, add_assoc]
      | false =>
          rw [if_neg (PauliTerm.items_ne_nil hidentity)] at h
          obtain ⟨qc, hqc, h⟩ := Py.returns_ofExcept h
          obtain ⟨handle, first, second, rfl, hsubmit, h⟩ := Py.returns_parts h
          rw [Py.run_lift_bind] at h
          obtain ⟨third, ⟨outcome, waiting⟩, last, rfl, hwait, h⟩ :=
            (Program.returns_bind _ _ _ _).mp h
          obtain ⟨result, rfl, h⟩ := Py.returns_ofExcept h
          obtain ⟨histogram, hgiven, h⟩ := Py.returns_ofExcept h
          obtain ⟨expectation, hexpected, h⟩ := Py.returns_ofExcept h
          obtain ⟨hcircuits, counts, hfetched, hlength, henergy⟩ := ih hrest h
          have hcounts : result.counts = some histogram := by
            cases hanswer : result.counts with
            | none =>
                rw [hanswer] at hgiven
                cases hgiven
            | some found =>
                rw [hanswer] at hgiven
                rw [Except.ok.inj hgiven]
          have hsubmitted := submit_once hsubmit
          have hwaited := waitForResult_once hwait
          have hcircuit : submittedCircuits (first ++ (third ++ last)) =
              ⟨termName term, molecule.numQubits, qc, shots⟩ :: submittedCircuits last := by
            rw [submittedCircuits_append, submittedCircuits_append, hsubmitted.2, hwaited.2]
            rfl
          refine ⟨?_, histogram :: counts, ?_, ?_, fun hall => ?_⟩
          · rw [measuredTerms_measured hidentity, hcircuit]
            exact .cons ⟨qc, hqc, rfl⟩ hcircuits
          · rw [fetchedCounts_append, fetchedCounts_append, hsubmitted.1, hwaited.1, hfetched,
              hcounts]
            rfl
          · rw [measuredTerms_measured hidentity, List.length_cons, List.length_cons, hlength]
          · obtain ⟨hhistogram, hothers⟩ := List.forall_mem_cons.mp hall
            rw [pauliExpectation_estimate hhistogram (hbound term List.mem_cons_self)] at hexpected
            rw [henergy hothers, energyOf_measured hidentity, ← Except.ok.inj hexpected, add_assoc]

theorem Measures.unique {term : PauliTerm} {circuit other : Circuit}
    (h : Measures params shots molecule term circuit)
    (hother : Measures params shots molecule term other) : circuit = other := by
  obtain ⟨qc, hqc, rfl⟩ := h
  obtain ⟨same, hsame, rfl⟩ := hother
  rw [Except.ok.inj (hqc.symm.trans hsame)]

theorem exists_circuits (hparams : params.length = parameterCount molecule.numQubits)
    (shots : Json) (terms : List PauliTerm) :
    ∃ circuits : Fin (measuredTerms terms).length → Circuit,
      ∀ i, Measures params shots molecule ((measuredTerms terms).get i) (circuits i) := by
  have hcircuit : ∀ i, ∃ circuit,
      Measures params shots molecule ((measuredTerms terms).get i) circuit := by
    intro i
    obtain ⟨qc, hqc⟩ := buildMeasurementCircuit_ok hparams (isIdentity_measuredTerms i)
    exact ⟨_, qc, hqc, rfl⟩
  choose circuits hcircuits using hcircuit
  exact ⟨circuits, hcircuits⟩

theorem Measures.submitted_eq {terms : List PauliTerm} {circuits : Fin terms.length → Circuit}
    {submitted : List Circuit}
    (hcircuits : ∀ i, Measures params shots molecule (terms.get i) (circuits i))
    (h : List.Forall₂ (Measures params shots molecule) terms submitted) :
    submitted = List.ofFn circuits := by
  have hlength := h.length_eq
  refine List.ext_getElem (by rw [List.length_ofFn, hlength]) fun i hi _ => ?_
  rw [List.getElem_ofFn]
  exact (h.get (hlength ▸ hi) hi).unique (hcircuits ⟨i, hlength ▸ hi⟩)

end energy

noncomputable section sampling

open MeasureTheory

-- The gates of a submitted circuit, their angles as real numbers.
def exactGates (circuit : Circuit) : List (Gate ℝ) :=
  (circuit.payload.map fun theta : ℚ => (theta : ℝ)).gates

-- The law of what one shot of a circuit measures.
def measurementLaw {n : ℕ} (satisfies : String → List String → Basis n → Bool)
    (circuit : Circuit) : Measure (Basis n) :=
  outcomes (prepared satisfies (exactGates circuit))

-- The outcomes of all shots of an evaluation.
abbrev Draws (molecule : MolecularHamiltonian) (shots : ℕ) : Type :=
  Shot molecule.terms shots → Basis molecule.numQubits

-- These counts are those of these outcomes of the circuits.
def Observed {molecule : MolecularHamiltonian} {shots : ℕ}
    (counted : List (Option (Dict String Int)))
    (circuits : Fin (measuredTerms molecule.terms).length → Circuit)
    (drawn : Draws molecule shots) : Prop :=
  ∃ counts : Fin (measuredTerms molecule.terms).length → Dict String Int,
    counted = List.ofFn (fun i => some (counts i)) ∧
    ∀ i, Tallies (counts i) (List.ofFn fun j =>
      countsKey (measured molecule.numQubits (exactGates (circuits i))) (drawn (i, j)))

variable {params : List ℚ} {molecule : MolecularHamiltonian} {ansatz : QuantumCircuit ℝ}

theorem exactGates_eq {shots : Json} {term : PauliTerm} {circuit : Circuit}
    (hmeasured : term.isIdentity = false) (h : Measures params shots molecule term circuit)
    (hansatz : buildAnsatz molecule.numQubits (params.map fun theta : ℚ => (theta : ℝ))
      molecule.initialState = .ok ansatz) :
    exactGates circuit = ansatz.gates ++ rotations term ++ [.measureAll] := by
  obtain ⟨qc, hqc, rfl⟩ := h
  obtain ⟨measurement, hmeasurement, hgates⟩ :=
    buildMeasurementCircuit_gates (PauliTerm.items_ne_nil hmeasured) hansatz
  have hmap := buildMeasurementCircuit_map (fun theta : ℚ => (theta : ℝ)) params term molecule
  rw [hqc, hmeasurement] at hmap
  obtain rfl := Except.ok.inj hmap
  exact hgates

-- The shots are those of the term's circuit.
theorem measurementLaw_eq {n : ℕ} {satisfies : String → List String → Basis n → Bool}
    {terms : List PauliTerm} {shots : ℕ}
    {circuits : Fin (measuredTerms terms).length → Circuit}
    (hgates : ∀ i, exactGates (circuits i) =
      ansatz.gates ++ rotations ((measuredTerms terms).get i) ++ [.measureAll]) :
    (fun shot : Shot terms shots => measurementLaw satisfies (circuits shot.1)) =
      shotLaw satisfies ansatz.gates := by
  funext shot
  rw [measurementLaw, hgates]
  rfl

-- The ansatz that is in all the circuits of an evaluation.
theorem exists_ansatz (hparams : params.length = parameterCount molecule.numQubits) {shots : Json}
    {circuits : Fin (measuredTerms molecule.terms).length → Circuit}
    (hcircuits : ∀ i,
      Measures params shots molecule ((measuredTerms molecule.terms).get i) (circuits i))
    (satisfies : String → List String → Basis molecule.numQubits → Bool) :
    ∃ ansatz : QuantumCircuit ℝ,
      buildAnsatz molecule.numQubits (params.map fun theta : ℚ => (theta : ℝ))
        molecule.initialState = .ok ansatz ∧
      measured molecule.numQubits ansatz.gates = [] ∧
      braket (prepared satisfies ansatz.gates) (prepared satisfies ansatz.gates) = 1 ∧
      ∀ i, exactGates (circuits i) =
        ansatz.gates ++ rotations ((measuredTerms molecule.terms).get i) ++ [.measureAll] := by
  have hbuilt : ∃ ansatz, buildAnsatz molecule.numQubits
      (params.map fun theta : ℚ => (theta : ℝ)) molecule.initialState = .ok ansatz := by
    unfold buildAnsatz
    rw [List.length_map, if_neg (not_not.mpr hparams)]
    exact ⟨_, rfl⟩
  obtain ⟨ansatz, hansatz⟩ := hbuilt
  obtain ⟨hpreparation, hnorm⟩ := @ansatz_prepares _ satisfies _ _ _
    molecule.initialState_length hansatz
  refine ⟨ansatz, hansatz, hpreparation, hnorm, fun i => ?_⟩
  exact exactGates_eq (isIdentity_measuredTerms i) (hcircuits i) hansatz

-- A run that returns has computed the energy of the draws that its counts show.
theorem Observed.energy {shots : ℕ} (hshots : 1 ≤ shots)
    {circuits : Fin (measuredTerms molecule.terms).length → Circuit}
    {drawn : Draws molecule shots} (hpreparation : measured molecule.numQubits ansatz.gates = [])
    (hgates : ∀ i, exactGates (circuits i) =
      ansatz.gates ++ rotations ((measuredTerms molecule.terms).get i) ++ [.measureAll])
    {events : List (Event sig)} (h : Observed (fetchedCounts events) circuits drawn) {env : Env}
    {asked : Json} {returned : ℚ} {metrics : VQEIterationMetrics}
    (hreturns : (evaluateEnergy env params asked molecule).run.Returns events
      (.ok (returned, metrics))) : returned = sampledEnergy drawn := by
  obtain ⟨counts, hfetched, htallies⟩ := h
  have hkeys : ∀ i, Tallies (counts i) ((List.ofFn fun j => drawn (i, j)).map stateKey) := by
    intro i
    have htally := htallies i
    simp only [hgates, countsKey_measurement hpreparation] at htally
    rwa [List.map_ofFn]
  obtain ⟨-, found, hfound, -, henergy⟩ := evaluateTerms_samples molecule.terms_bounded hreturns
  have hsame : List.ofFn counts = found := by
    have hsome : (List.ofFn counts).map some = found.map some := by
      rw [← hfound, hfetched, List.map_ofFn]
      rfl
    exact List.map_injective_iff.mpr (Option.some_injective _) hsome
  have hhistograms : ∀ histogram ∈ found, Histogram molecule.numQubits histogram := by
    intro histogram hmem
    rw [← hsame, List.mem_ofFn] at hmem
    obtain ⟨i, rfl⟩ := hmem
    exact (hkeys i).histogram_of_shots hshots
  rw [henergy hhistograms, zero_add, ← hsame]
  exact energyOf_tallies molecule.terms_bounded hkeys

-- Any draws can be those of a run.
theorem exists_observed {env : Env} (hfuel : 0 < env.fuel)
    (hparams : params.length = parameterCount molecule.numQubits) {shots : ℕ} (hshots : 1 ≤ shots)
    {circuits : Fin (measuredTerms molecule.terms).length → Circuit}
    (hpreparation : measured molecule.numQubits ansatz.gates = [])
    (hgates : ∀ i, exactGates (circuits i) =
      ansatz.gates ++ rotations ((measuredTerms molecule.terms).get i) ++ [.measureAll])
    (asked : Json) (drawn : Draws molecule shots) :
    ∃ events returned metrics,
      (evaluateEnergy env params asked molecule).run.Returns events (.ok (returned, metrics)) ∧
      Observed (fetchedCounts events) circuits drawn := by
  have htally := fun i => exists_tallies ((List.ofFn fun j => drawn (i, j)).map stateKey)
  choose counts hcounts using htally
  have hall : ∀ histogram ∈ List.ofFn counts, Histogram molecule.numQubits histogram := by
    intro histogram hmem
    obtain ⟨i, rfl⟩ := List.mem_ofFn.mp hmem
    exact (hcounts i).histogram_of_shots hshots
  obtain ⟨events, returned, metrics, hreturns, hfetched⟩ :=
    exists_served hfuel asked hparams List.length_ofFn hall
  refine ⟨events, returned, metrics, hreturns, counts, ?_, fun i => ?_⟩
  · rw [hfetched, List.map_ofFn]
    rfl
  · have htallies := hcounts i
    simp only [hgates, countsKey_measurement hpreparation]
    rwa [List.map_ofFn] at htallies

-- A run of evaluate_energy whose backend samples the circuits that it is given returns an
-- estimate of the energy of the ansatz: with the right mean, rarely far from it, and as rarely
-- below the ground energy.
theorem energy_sampled (hparams : params.length = parameterCount molecule.numQubits) {shots : ℕ}
    (hshots : 1 ≤ shots)
    (satisfies : String → List String → Basis molecule.numQubits → Bool) :
    ∃ (circuits : Fin (measuredTerms molecule.terms).length → Circuit)
      (ansatz : QuantumCircuit ℝ) (energy : ℝ),
      buildAnsatz molecule.numQubits (params.map fun theta : ℚ => (theta : ℝ))
        molecule.initialState = .ok ansatz ∧
      (energy : ℂ) = braket (prepared satisfies ansatz.gates)
        (hamiltonian molecule.numQubits molecule.terms (prepared satisfies ansatz.gates)) ∧
      (∀ i, Measures params (.int shots) molecule ((measuredTerms molecule.terms).get i)
        (circuits i)) ∧
      (∀ i, IsProbabilityMeasure (measurementLaw satisfies (circuits i))) ∧
      (∫ drawn : Draws molecule shots, (sampledEnergy drawn : ℝ) ∂Measure.pi fun shot =>
        measurementLaw satisfies (circuits shot.1)) = energy ∧
      (∀ ε : ℝ, 0 ≤ ε → (Measure.pi fun shot => measurementLaw satisfies (circuits shot.1)).real
            {drawn : Draws molecule shots | ε ≤ |sampledEnergy drawn - energy|} ≤
          2 * Real.exp (-(shots * ε ^ 2) / (2 * spread molecule.terms))) ∧
      (∀ ground : ℝ, (∀ φ : State molecule.numQubits, braket φ φ = 1 →
          ground ≤ (braket φ (hamiltonian molecule.numQubits molecule.terms φ)).re) →
        ∀ ε : ℝ, 0 ≤ ε → (Measure.pi fun shot => measurementLaw satisfies (circuits shot.1)).real
            {drawn : Draws molecule shots | (sampledEnergy drawn : ℝ) ≤ ground - ε} ≤
          Real.exp (-(shots * ε ^ 2) / (2 * spread molecule.terms))) ∧
      ∀ env : Env,
        (∀ (events : List (Event sig)) (returned : ℚ) (metrics : VQEIterationMetrics),
          (evaluateEnergy env params (.int shots) molecule).run.Returns events
              (.ok (returned, metrics)) →
            submittedCircuits events = List.ofFn circuits ∧
            ∀ drawn : Draws molecule shots,
              Observed (fetchedCounts events) circuits drawn → returned = sampledEnergy drawn) ∧
        (0 < env.fuel → ∀ drawn : Draws molecule shots, ∃ events metrics,
          (evaluateEnergy env params (.int shots) molecule).run.Returns events
              (.ok (sampledEnergy drawn, metrics)) ∧
            Observed (fetchedCounts events) circuits drawn) := by
  obtain ⟨circuits, hcircuits⟩ := exists_circuits hparams (.int shots) molecule.terms
  obtain ⟨ansatz, hansatz, hpreparation, hnorm, hgates⟩ :=
    exists_ansatz hparams hcircuits satisfies
  obtain ⟨energy, henergy⟩ : ∃ energy : ℝ, (energy : ℂ) = braket (prepared satisfies ansatz.gates)
      (hamiltonian molecule.numQubits molecule.terms (prepared satisfies ansatz.gates)) :=
    ⟨_, integral_shots hnorm molecule.terms_bounded hshots⟩
  refine ⟨circuits, ansatz, energy, hansatz, henergy, hcircuits, ?_, ?_, ?_, ?_, ?_⟩
  · intro i
    have hprobability := shotLaw_isProbabilityMeasure hnorm molecule.terms_bounded
      ((i, ⟨0, hshots⟩) : Shot molecule.terms shots)
    rwa [← measurementLaw_eq hgates] at hprobability
  · rw [measurementLaw_eq hgates]
    exact integral_sampledEnergy hnorm molecule.terms_bounded hshots henergy
  · intro ε hε
    rw [measurementLaw_eq hgates]
    exact sampledEnergy_far hnorm molecule.terms_bounded hshots henergy hε
  · intro ground hground ε hε
    have habove := hground _ hnorm
    rw [← henergy, Complex.ofReal_re] at habove
    have hcover : {drawn : Draws molecule shots | (sampledEnergy drawn : ℝ) ≤ ground - ε} ⊆
        {drawn | (sampledEnergy drawn : ℝ) ≤ energy - ε} := by
      intro drawn hbelow
      rw [Set.mem_ofPred_eq] at hbelow ⊢
      linarith
    have hprobability := fun shot : Shot molecule.terms shots =>
      shotLaw_isProbabilityMeasure hnorm molecule.terms_bounded shot
    rw [measurementLaw_eq hgates]
    exact (measureReal_mono hcover).trans
      (sampledEnergy_below hnorm molecule.terms_bounded hshots henergy hε)
  · intro env
    refine ⟨fun events returned metrics hreturns => ⟨?_, fun drawn hobserved => ?_⟩,
      fun hfuel drawn => ?_⟩
    · exact Measures.submitted_eq hcircuits
        (evaluateTerms_samples molecule.terms_bounded hreturns).1
    · exact hobserved.energy hshots hpreparation hgates hreturns
    · obtain ⟨events, returned, metrics, hreturns, hobserved⟩ :=
        exists_observed hfuel hparams hshots hpreparation hgates (.int shots) drawn
      obtain rfl := hobserved.energy hshots hpreparation hgates hreturns
      exact ⟨events, metrics, hreturns, hobserved⟩

-- The energy of H2 at four angles, by 8192 shots for each of its five measured terms.
theorem energy_sampled_h2 :
    ∃ (circuits : Fin (measuredTerms H2.terms).length → Circuit) (energy : ℝ),
      (∀ i, Measures [0, 1 / 2, 1, 3 / 2] (.int (8192 : ℕ)) H2 ((measuredTerms H2.terms).get i)
        (circuits i)) ∧
      (∫ drawn : Draws H2 8192, (sampledEnergy drawn : ℝ) ∂Measure.pi fun shot =>
        measurementLaw (fun _ _ _ => false) (circuits shot.1)) = energy ∧
      (Measure.pi fun shot => measurementLaw (fun _ _ _ => false) (circuits shot.1)).real
            {drawn : Draws H2 8192 | 1 / 10 ≤ |sampledEnergy drawn - energy|} ≤
          2 * Real.exp (-((8192 : ℕ) * (1 / 10) ^ 2) / (2 * spread H2.terms)) ∧
      ∃ events metrics, (evaluateEnergy ⟨{}, default, 1⟩ [0, 1 / 2, 1, 3 / 2]
          (.int (8192 : ℕ)) H2).run.Returns events
            (.ok (sampledEnergy (fun _ _ => false : Draws H2 8192), metrics)) ∧
        submittedCircuits events = List.ofFn circuits := by
  obtain ⟨circuits, -, energy, -, -, hcircuits, -, hmean, hfar, -, hruns⟩ :=
    @energy_sampled [0, 1 / 2, 1, 3 / 2] H2 rfl 8192 (by norm_num) fun _ _ _ => false
  obtain ⟨hgiven, hexists⟩ := hruns ⟨{}, default, 1⟩
  obtain ⟨events, metrics, hreturns, -⟩ := hexists Nat.zero_lt_one fun _ _ => false
  exact ⟨circuits, energy, hcircuits, hmean, hfar (1 / 10) (by norm_num), events, metrics, hreturns,
    (hgiven events _ metrics hreturns).1⟩

end sampling

end QuantumPlatform.Orchestrator

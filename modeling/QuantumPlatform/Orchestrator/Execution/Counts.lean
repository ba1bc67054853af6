import QuantumPlatform.Core.Estimates
import QuantumPlatform.Core.Labels
import QuantumPlatform.Orchestrator.Polling.Theorems
import QuantumPlatform.Orchestrator.Execution

namespace QuantumPlatform.Orchestrator

open Process Python QuantumPlatform.Core

-- What has been submitted and counted so far, and how far the present wait has come.
structure Answered where
  submitted : List (QuantumCircuit ℚ) := []
  counted : List (Dict String Int) := []
  turns : ℕ := 0
  retries : ℕ := 0
  started : Option ℚ := none

-- A backend that answers each submission with counts: within `delay` turns, with no more
-- transient errors than are retried, and before the deadline. No wait may be given up.
def answering (n delay : ℕ) : Monitor sig Answered where
  allowed _ op := match op with
    | .submit _ => True
    | .sleep _ => True
    | .monotonic => True
    | .pollStatus _ => True
    | .fetchResult _ => True
    | _ => False
  admits state op answer := match op, answer with
    | .submit _, answer => ∃ handle, answer = .ok handle
    | .monotonic, now => ∀ start ∈ state.started, start + 30 ≥ (now : ℚ)
    | .pollStatus _, answer => ∃ status, answer = .ok status ∧ status ≠ .cancelled ∧
        (status = .queued ∨ status = .running → state.turns < delay)
    | .fetchResult _, .ok result => ∃ counts, result.counts = some counts ∧ Histogram n counts
    | .fetchResult _, .error exc =>
        isTransient exc = true ∧ state.turns < delay ∧ state.retries < 3
    | _, _ => True
  next state op answer := match op, answer with
    | .submit circuit, _ =>
        ⟨state.submitted ++ [circuit.payload], state.counted, 0, 0, none⟩
    | .monotonic, now => { state with started := some (state.started.getD now) }
    | .pollStatus _, .ok .queued => { state with turns := state.turns + 1 }
    | .pollStatus _, .ok .running => { state with turns := state.turns + 1 }
    | .fetchResult _, .ok result =>
        { state with counted := state.counted ++ result.counts.toList, started := none }
    | .fetchResult _, .error _ =>
        { state with turns := state.turns + 1, retries := state.retries + 1 }
    | _, _ => state

variable {n delay : ℕ}

-- The wait has handed back counts, which are the last that were counted.
def HandsBack (n : ℕ) (submitted : List (QuantumCircuit ℚ)) (counted : List (Dict String Int))
    (state : Answered) (outcome : Except Exc ExperimentResult × Waiting) : Prop :=
  ∃ result counts, outcome.1 = .ok result ∧ result.counts = some counts ∧ Histogram n counts ∧
    state.submitted = submitted ∧ state.counted = counted ++ [counts] ∧ state.started = none

section waiting

variable (handle : JobHandle) {config : PollingConfig} {start interval : ℚ} {waiting : Waiting}
  {again : ℚ → Int → Waiting → Program sig (Except Exc ExperimentResult × Waiting)}
  {submitted : List (QuantumCircuit ℚ)} {counted : List (Dict String Int)}

-- The next turn of a wait, once this one has been used.
def Continues (n delay : ℕ) (submitted : List (QuantumCircuit ℚ))
    (counted : List (Dict String Int)) (start : ℚ) (turns : ℕ)
    (again : ℚ → Int → Waiting → Program sig (Except Exc ExperimentResult × Waiting)) : Prop :=
  ∀ interval (retries : ℕ) waiting, (answering n delay).Obeys (HandsBack n submitted counted)
    ⟨submitted, counted, turns, retries, some start⟩ (again interval retries waiting)

theorem collect_answered (hretries : config.maxRetriesOnTransientError = 3) {turns retries : ℕ}
    (hagain : turns < delay → Continues n delay submitted counted start (turns + 1) again) :
    (answering n delay).Obeys (HandsBack n submitted counted)
      ⟨submitted, counted, turns, retries, some start⟩
      (collect handle config interval retries waiting again) := by
  rw [collect_eq]
  refine ⟨trivial, fun answer hadmits => ?_⟩
  cases answer with
  | ok result =>
      obtain ⟨counts, hcounts, hhistogram⟩ := hadmits
      refine ⟨result, counts, rfl, hcounts, hhistogram, rfl, ?_, rfl⟩
      simp [answering, hcounts]
  | error exc =>
      obtain ⟨htransient, hturns, hlt⟩ := hadmits
      have hbudget : ¬((retries : Int) + 1 > config.maxRetriesOnTransientError) := by
        have hlt : retries < 3 := hlt
        omega
      simp only [if_pos htransient, if_neg hbudget]
      refine ⟨trivial, fun _ _ => ?_⟩
      exact_mod_cast hagain hturns _ (retries + 1) _

theorem poll_answered (hretries : config.maxRetriesOnTransientError = 3)
    (htimeout : config.timeout = 30) {turns retries : ℕ}
    (hagain : turns < delay → Continues n delay submitted counted start (turns + 1) again) :
    (answering n delay).Obeys (HandsBack n submitted counted)
      ⟨submitted, counted, turns, retries, some start⟩
      (poll handle config start interval retries waiting again) := by
  rw [poll_eq]
  refine ⟨trivial, fun (now : ℚ) hnow => ?_⟩
  have hintime : ¬now - start > config.timeout := by
    have hwithin : start + 30 ≥ now := hnow start rfl
    rw [htimeout]
    linarith
  have hcollect := @collect_answered n delay handle config start interval waiting again submitted
    counted hretries turns retries hagain
  simp only [if_neg hintime]
  refine ⟨trivial, fun answer hadmits => ?_⟩
  obtain ⟨status, rfl, hnot, hpending⟩ := hadmits
  cases status with
  | completed => exact hcollect
  | failed => exact hcollect
  | cancelled => exact absurd rfl hnot
  | queued => exact ⟨trivial, fun _ _ => hagain (hpending (.inl rfl)) _ retries _⟩
  | running => exact ⟨trivial, fun _ _ => hagain (hpending (.inr rfl)) _ retries _⟩

theorem pollLoop_answered (hretries : config.maxRetriesOnTransientError = 3)
    (htimeout : config.timeout = 30) (fuel : ℕ) {turns : ℕ} (hturns : turns ≤ delay)
    (hfuel : delay < turns + fuel) :
    Continues n delay submitted counted start turns (pollLoop handle config false start fuel) := by
  induction fuel generalizing turns with
  | zero => omega
  | succ fuel ih =>
      intro interval retries waiting
      exact poll_answered handle hretries htimeout fun hlt => ih hlt (by omega)

-- A wait for a job that is answered hands back its counts.
theorem waitForResult_answered (hretries : config.maxRetriesOnTransientError = 3)
    (htimeout : config.timeout = 30) {fuel : ℕ} (hfuel : delay < fuel) (backendName : String)
    (metrics : Option PollingMetrics) :
    (answering n delay).Obeys
      (fun state outcome => ∃ result counts, outcome.1 = .ok result ∧ result.counts = some counts ∧
        Histogram n counts ∧ state.submitted = submitted ∧ state.counted = counted ++ [counts])
      ⟨submitted, counted, 0, 0, none⟩
      (waitForResult fuel backendName handle config {} false metrics) := by
  refine ⟨trivial, fun (now : ℚ) _ => ?_⟩
  refine (pollLoop_answered handle hretries htimeout fuel (Nat.zero_le delay) (by omega) _ 0 _).bind ?_
  rintro state ⟨outcome, later⟩ ⟨result, counts, hresult, hcounts, hhistogram, hsubmitted, hcounted,
    hstarted⟩
  unfold timed
  cases later.metrics with
  | none => exact ⟨result, counts, hresult, hcounts, hhistogram, hsubmitted, hcounted⟩
  | some waited =>
      refine ⟨trivial, fun (end' : ℚ) _ => ?_⟩
      exact ⟨result, counts, hresult, hcounts, hhistogram, hsubmitted, hcounted⟩

end waiting

section energy

variable {params : List ℚ} {molecule : MolecularHamiltonian} {term : PauliTerm}

theorem buildMeasurementCircuit_ok (hparams : params.length = parameterCount molecule.numQubits)
    (hmeasured : term.isIdentity = false) :
    ∃ qc, buildMeasurementCircuit params term molecule = .ok qc := by
  unfold buildMeasurementCircuit buildAnsatz
  rw [if_neg (PauliTerm.items_ne_nil hmeasured), if_neg (not_not.mpr hparams)]
  exact ⟨_, rfl⟩

-- What the loop over these terms has done once it returns.
def Computes (n : ℕ) (params : List ℚ) (molecule : MolecularHamiltonian) (terms : List PauliTerm)
    (total : ℚ) (before state : Answered) (outcome : Except Exc (ℚ × VQEIterationMetrics)) : Prop :=
  ∃ circuits counts metrics,
    (measuredTerms terms).mapM (fun term => buildMeasurementCircuit params term molecule) =
      .ok circuits ∧
    state.submitted = before.submitted ++ circuits ∧ state.counted = before.counted ++ counts ∧
    counts.length = (measuredTerms terms).length ∧
    (∀ histogram ∈ counts, Histogram n histogram) ∧
    outcome = .ok (total + energyOf terms counts, metrics)

theorem evaluateTerms_answered (env : Env) (hfuel : delay < env.fuel) (shots : Json)
    (hparams : params.length = parameterCount molecule.numQubits) {terms : List PauliTerm}
    (hbound : ∀ term ∈ terms, ∀ qubit ∈ term.qubits.keys, qubit < n) (total : ℚ)
    (metrics : VQEIterationMetrics) (before : Answered) :
    (answering n delay).Obeys (Computes n params molecule terms total before) before
      (evaluateTerms env params shots molecule terms total metrics).run := by
  induction terms generalizing total metrics before with
  | nil =>
      have hzero : energyOf [] [] = 0 := by simp [energyOf, measuredTerms]
      refine ⟨[], [], metrics, rfl, by simp, by simp, rfl, by simp, ?_⟩
      rw [hzero, add_zero]
  | cons term rest ih =>
      have hrest := ih fun other hmem => hbound other (List.mem_cons_of_mem term hmem)
      unfold evaluateTerms
      cases hidentity : term.isIdentity with
      | true =>
          have hitems : term.qubits.items = [] := List.isEmpty_iff.mp hidentity
          rw [if_pos hitems]
          refine (hrest (total + term.coefficient) metrics before).mono ?_
          rintro state outcome ⟨circuits, counts, last, hcircuits, hsubmitted, hcounted, hlength,
            hhistograms, rfl⟩
          refine ⟨circuits, counts, last, ?_, hsubmitted, hcounted, ?_, hhistograms, ?_⟩
          · rwa [measuredTerms_identity hidentity]
          · rwa [measuredTerms_identity hidentity]
          · rw [energyOf_identity hidentity, add_assoc]
      | false =>
          obtain ⟨qc, hqc⟩ := @buildMeasurementCircuit_ok params molecule term hparams hidentity
          rw [if_neg (PauliTerm.items_ne_nil hidentity), hqc, Py.ofExcept_ok, pure_bind]
          have hsubmit : (answering n delay).Obeys (fun state outcome =>
                state = ⟨before.submitted ++ [qc], before.counted, 0, 0, none⟩ ∧
                  ∃ handle, outcome = .ok handle) before
              (submit ⟨termName term, molecule.numQubits, qc, shots⟩).run := by
            refine ⟨trivial, fun answer hadmits => ?_⟩
            obtain ⟨handle, rfl⟩ := hadmits
            exact ⟨rfl, handle, rfl⟩
          refine Py.obeys_bind hsubmit ?_ (fun _ _ h => by cases h.2.choose_spec)
          rintro _ handle ⟨rfl, -⟩
          rw [Py.run_lift_bind]
          refine (waitForResult_answered handle rfl rfl hfuel env.settings.backendName _).bind ?_
          rintro state ⟨outcome, waiting⟩ ⟨result, histogram, hresult, hcounts, hhistogram,
            hsubmitted, hcounted⟩
          simp only at hresult
          subst hresult
          rw [Py.ofExcept_ok, pure_bind, hcounts, Py.ofExcept_ok, pure_bind,
            pauliExpectation_estimate hhistogram (hbound term List.mem_cons_self), Py.ofExcept_ok,
            pure_bind]
          refine (hrest _ _ state).mono ?_
          rintro last outcome ⟨circuits, counts, final, hcircuits, hlast, hlater, hlength,
            hhistograms, rfl⟩
          refine ⟨qc :: circuits, histogram :: counts, final, ?_, ?_, ?_, ?_, ?_, ?_⟩
          · rw [measuredTerms_measured hidentity, List.mapM_cons, hqc, hcircuits]
            rfl
          · rw [hlast, hsubmitted, List.append_assoc, List.singleton_append]
          · rw [hlater, hcounted, List.append_assoc, List.singleton_append]
          · rw [measuredTerms_measured hidentity, List.length_cons, List.length_cons, hlength]
          · intro other hmem
            rcases List.mem_cons.mp hmem with rfl | hmem
            · exact hhistogram
            · exact hhistograms other hmem
          · rw [energyOf_measured hidentity, add_assoc]

-- Such a backend can always answer, so a run goes on until it returns.
theorem exists_answer (state : Answered) {op : Effect}
    (hallowed : (answering n delay).allowed state op) :
    ∃ answer, (answering n delay).admits state op answer := by
  have hcounts : Histogram n ⟨[(String.ofList (List.replicate n '0'), 1)], by simp⟩ := by
    refine ⟨?_, by simp [Dict.values], by simp [Dict.values]⟩
    intro key hkey
    obtain rfl : key = String.ofList (List.replicate n '0') := by simpa [Dict.keys] using hkey
    exact ⟨by simp, by simp [isBit]⟩
  cases op with
  | submit circuit => exact ⟨.ok ⟨"", ""⟩, ⟨"", ""⟩, rfl⟩
  | sleep seconds => exact ⟨(), trivial⟩
  | monotonic =>
      refine ⟨(state.started.getD 0 : ℚ), fun start hstart => ?_⟩
      obtain hstart : state.started = some start := hstart
      rw [hstart, Option.getD_some]
      exact le_add_of_nonneg_right (by norm_num)
  | pollStatus handle => exact ⟨.ok .completed, .completed, rfl, by decide, fun h => by simp at h⟩
  | fetchResult handle => exact ⟨.ok ⟨"", .completed, some _, none⟩, _, rfl, hcounts⟩
  | _ => exact hallowed.elim

end energy

-- Energies from arbitrary counts: what a run submits and returns, which characters are
-- read, and which of them a Pauli label stands for.
theorem energy_from_counts :
    (∀ (env : Env) (params : List ℚ) (shots : Json) (molecule : MolecularHamiltonian) (delay : ℕ),
      params.length = parameterCount molecule.numQubits → delay < env.fuel →
      ∀ events rest, (evaluateEnergy env params shots molecule).run.Trace events rest →
        (answering molecule.numQubits delay).Admits {} events →
        (∃ op next answer, rest = .call op next ∧
          (answering molecule.numQubits delay).admits
            ((answering molecule.numQubits delay).after {} events) op answer) ∨
        ∃ counts metrics,
          (measuredTerms molecule.terms).mapM
              (fun term => buildMeasurementCircuit params term molecule) =
            .ok ((answering molecule.numQubits delay).after {} events).submitted ∧
          ((answering molecule.numQubits delay).after {} events).counted = counts ∧
          counts.length = (measuredTerms molecule.terms).length ∧
          rest = .ret (.ok (energyOf molecule.terms counts, metrics)) ∧
          |energyOf molecule.terms counts| ≤
            (molecule.terms.map fun term => |term.coefficient|).sum) ∧
    (∀ (molecule : MolecularHamiltonian), ∀ term ∈ molecule.terms, ∀ qubit ∈ term.qubits.keys,
      ∀ bitstring : String, bitstring.length = molecule.numQubits →
        qubit < molecule.numQubits ∧ ∃ bit,
          bitstring.toList[molecule.numQubits - 1 - qubit]? = some bit ∧
            bitAt bitstring.toList qubit = .ok bit) ∧
    ∀ (numQubits : ℕ) (label : String) (raw : RawCoefficient) (term : PauliTerm),
      termOfLabel numQubits label raw = .ok term → ∀ position : ℕ,
        ((∃ qubit ∈ term.qubits.keys, qubit < numQubits ∧ numQubits - 1 - qubit = position) ↔
          ∃ pauli, label.toList[position]? = some pauli ∧ pauli ≠ 'I') := by
  refine ⟨?_, ?_, fun numQubits label raw term hterm => termOfLabel_positions hterm⟩
  · intro env params shots molecule delay hparams hfuel events rest htrace hadmits
    have hobeys := evaluateTerms_answered env hfuel shots hparams molecule.terms_bounded 0 {} {}
    have hrest := (hobeys.trace htrace hadmits).2
    cases rest with
    | call op next =>
        obtain ⟨answer, hanswer⟩ := exists_answer _ hrest.1
        exact .inl ⟨op, next, answer, rfl, hanswer⟩
    | ret outcome =>
        obtain ⟨circuits, counts, metrics, hcircuits, hsubmitted, hcounted, hlength, hhistograms,
          houtcome⟩ := hrest
        rw [List.nil_append] at hsubmitted hcounted
        refine .inr ⟨counts, metrics, hsubmitted ▸ hcircuits, hcounted, hlength, ?_,
          abs_energyOf_le hlength hhistograms⟩
        rw [houtcome, zero_add]
  · intro molecule term hterm qubit hqubit bitstring hlength
    have hbound := molecule.terms_bounded term hterm qubit hqubit
    have hlt : qubit < bitstring.toList.length := by rwa [String.length_toList, hlength]
    obtain ⟨bit, hget, hbit⟩ := bitAt_of_lt hlt
    rw [List.getElem?_reverse hlt, String.length_toList, hlength] at hget
    exact ⟨hbound, bit, hget, hbit⟩

-- A run for H2, and the label ZI, whose first character is the one of qubit 1.
theorem energy_from_counts_h2 : (∃ events counts metrics,
      (evaluateEnergy ⟨{}, default, 1⟩ [0, 0, 0, 0] (.int 1) H2).run.Returns events
        (.ok (energyOf H2.terms counts, metrics)) ∧ counts.length = (measuredTerms H2.terms).length) ∧
    ∃ term, termOfLabel 2 "ZI" ⟨1, 0, "(1+0j)"⟩ = .ok term ∧
      ((∃ qubit ∈ term.qubits.keys, qubit < 2 ∧ 2 - 1 - qubit = 0) ↔
        ∃ pauli, "ZI".toList[0]? = some pauli ∧ pauli ≠ 'I') := by
  constructor
  · have hobeys := @evaluateTerms_answered H2.numQubits 0 [0, 0, 0, 0] H2 ⟨{}, default, 1⟩
      Nat.zero_lt_one (.int 1) rfl H2.terms H2.terms_bounded 0 {} {}
    obtain ⟨events, value, hreturns, hadmits⟩ := hobeys.completes fun state op => exists_answer state
    rcases energy_from_counts.1 ⟨{}, default, 1⟩ [0, 0, 0, 0] (.int 1) H2 0 rfl Nat.zero_lt_one
      events (.ret value) hreturns hadmits with ⟨_, _, _, h, -⟩ | ⟨counts, metrics, -, -, hlength, h, -⟩
    · cases h
    · cases h
      exact ⟨events, counts, metrics, hreturns, hlength⟩
  · have hterm : ∃ term, termOfLabel 2 "ZI" ⟨1, 0, "(1+0j)"⟩ = .ok term := by
      unfold termOfLabel
      rw [if_neg (by norm_num)]
      exact ⟨_, rfl⟩
    obtain ⟨term, hterm⟩ := hterm
    exact ⟨term, hterm, energy_from_counts.2.2 2 "ZI" ⟨1, 0, "(1+0j)"⟩ term hterm 0⟩

end QuantumPlatform.Orchestrator

import QuantumPlatform.Core.Estimates
import QuantumPlatform.Quantum.Measurement
import QuantumPlatform.Statistics.Draws
import Mathlib.Algebra.BigOperators.Group.Finset.Basic

namespace QuantumPlatform.Core

open Python Quantum

section angles

variable {Θ Φ : Type} (f : Θ → Φ)

-- The same circuit, with its angles read as other numbers.
def Gate.map : Gate Θ → Gate Φ
  | .x qubit => .x qubit
  | .z qubit => .z qubit
  | .h qubit => .h qubit
  | .sdg qubit => .sdg qubit
  | .ry theta qubit => .ry (f theta) qubit
  | .swap first second => .swap first second
  | .cx control target => .cx control target
  | .mcx controls target => .mcx controls target
  | .cp theta control target => .cp (f theta) control target
  | .controlledPower unitary power control target =>
      .controlledPower ⟨f unitary.theta⟩ power control target
  | .phaseOracle expression varOrder => .phaseOracle expression varOrder
  | .measure qubits clbits => .measure qubits clbits
  | .measureAll => .measureAll

def QuantumCircuit.map (qc : QuantumCircuit Θ) : QuantumCircuit Φ :=
  ⟨qc.name, qc.numQubits, qc.gates.map (Gate.map f)⟩

theorem map_basisRotation (qubit : ℕ) (pauli : Pauli) :
    (basisRotation qubit pauli).map (Gate.map f) = basisRotation qubit pauli := by
  cases pauli <;> rfl

theorem map_ry (params : List Θ) :
    (params.zipIdx.map fun entry => Gate.ry entry.1 entry.2).map (Gate.map f) =
      (params.map f).zipIdx.map fun entry => Gate.ry entry.1 entry.2 := by
  rw [List.zipIdx_map, List.map_map, List.map_map]
  rfl

-- Building a circuit from other angles is reading its angles as others.
theorem buildAnsatz_map (numQubits : ℕ) (params : List Θ) (initialState : List Bool) :
    buildAnsatz numQubits (params.map f) initialState =
      QuantumCircuit.map f <$> buildAnsatz numQubits params initialState := by
  unfold buildAnsatz
  rw [List.length_map]
  split_ifs
  · rfl
  · change Except.ok _ = Except.ok _
    simp only [QuantumCircuit.map, List.map_append, map_ry, ← List.map_take, ← List.map_drop]
    simp only [List.map_map]
    rfl

theorem buildMeasurementCircuit_map (params : List Θ) (term : PauliTerm)
    (molecule : MolecularHamiltonian) :
    buildMeasurementCircuit (params.map f) term molecule =
      QuantumCircuit.map f <$> buildMeasurementCircuit params term molecule := by
  unfold buildMeasurementCircuit
  rw [buildAnsatz_map]
  split_ifs
  · rfl
  · cases buildAnsatz molecule.numQubits params molecule.initialState with
    | error exc => rfl
    | ok qc =>
        change Except.ok _ = Except.ok _
        simp only [QuantumCircuit.map, List.map_append, List.map_flatMap, map_basisRotation]
        rfl

end angles

section tallies

-- The counts of these shots.
structure Tallies (counts : Dict String Int) (keys : List String) : Prop where
  drawn : ∀ key ∈ counts.keys, key ∈ keys
  count : ∀ key, counts.get key 0 = keys.count key

variable {n : ℕ} {counts : Dict String Int} {keys : List String}

theorem Tallies.items_eq (h : Tallies counts keys) :
    counts.items = counts.keys.map fun key => (key, (keys.count key : Int)) := by
  rw [Dict.keys, List.map_map]
  conv_lhs => rw [← List.map_id counts.items]
  refine List.map_congr_left fun entry hentry => ?_
  have hget : counts.get entry.1 0 = entry.2 := by
    rw [Dict.get, counts.mem_items_iff.mp hentry, Option.getD_some]
  exact Prod.ext rfl (hget.symm.trans (h.count entry.1))

-- A sum over the counts is a sum over the shots.
theorem Tallies.sum_eq (h : Tallies counts keys) (value : String → Int) :
    (counts.items.map fun entry => value entry.1 * entry.2).sum = (keys.map value).sum := by
  have hsame : counts.keys.toFinset = keys.toFinset := by
    refine Finset.ext fun key => ?_
    rw [List.mem_toFinset, List.mem_toFinset]
    refine ⟨h.drawn key, fun hmem => ?_⟩
    have hcounted := h.count key
    have hpos : 0 < keys.count key := List.count_pos_iff.mpr hmem
    rw [Dict.get] at hcounted
    cases hget : counts.get? key with
    | none =>
        rw [hget, Option.getD_none] at hcounted
        omega
    | some count => exact List.mem_map_of_mem (counts.mem_items_iff.mpr hget)
  calc (counts.items.map fun entry => value entry.1 * entry.2).sum
    _ = (counts.keys.map fun key => value key * (keys.count key : Int)).sum := by
        rw [h.items_eq, List.map_map]
        rfl
    _ = ∑ key ∈ keys.toFinset, value key * (keys.count key : Int) := by
        have hnodup : counts.keys.Nodup := counts.nodup
        rw [← hsame, List.sum_toFinset _ hnodup]
    _ = (keys.map value).sum := by
        rw [Finset.sum_list_map_count]
        exact Finset.sum_congr rfl fun key _ => by rw [nsmul_eq_mul, mul_comm]

theorem Tallies.total (h : Tallies counts keys) : counts.values.sum = keys.length := by
  have hsum := h.sum_eq fun _ => 1
  simpa [Dict.values] using hsum

theorem exists_tallies (keys : List String) : ∃ counts, Tallies counts keys := by
  have hkeys : (keys.dedup.map fun key => (key, (keys.count key : Int))).map Prod.fst =
      keys.dedup := by
    rw [List.map_map]
    exact List.map_id _
  let counts : Dict String Int :=
    ⟨keys.dedup.map fun key => (key, (keys.count key : Int)), by rw [hkeys]; exact keys.nodup_dedup⟩
  have hitem : ∀ {key count}, counts.get? key = some count → key ∈ keys ∧ count = keys.count key := by
    intro key count hget
    obtain ⟨other, hmem, hsame⟩ := List.mem_map.mp (counts.mem_items_iff.mpr hget)
    obtain ⟨rfl, rfl⟩ := Prod.mk.inj hsame
    exact ⟨List.mem_dedup.mp hmem, rfl⟩
  refine ⟨counts, fun key hmem => ?_, fun key => ?_⟩
  · rw [Dict.keys, hkeys] at hmem
    exact List.mem_dedup.mp hmem
  · rw [Dict.get]
    cases hget : counts.get? key with
    | some count => exact (hitem hget).2
    | none =>
        have habsent : key ∉ keys := fun hmem => by
          have hfound := counts.mem_items_iff.mp (List.mem_map_of_mem (List.mem_dedup.mpr hmem))
          rw [hget] at hfound
          cases hfound
        rw [List.count_eq_zero.mpr habsent]
        rfl

-- The outcomes of the shots of one circuit.
variable {drawn : List (Basis n)}

theorem Tallies.histogram_of_shots {shots : ℕ} (hshots : 1 ≤ shots) {row : Fin shots → Basis n}
    (h : Tallies counts ((List.ofFn row).map stateKey)) : Histogram n counts where
  keys key hmem := by
    obtain ⟨y, -, rfl⟩ := List.mem_map.mp (h.drawn key hmem)
    unfold stateKey
    rw [countsKey_range]
    refine ⟨by simp, ?_⟩
    rw [String.toList_ofList, List.all_eq_true]
    intro char hchar
    obtain ⟨q, -, rfl⟩ := List.mem_map.mp hchar
    cases y.bit q <;> decide
  nonneg count hmem := by
    rw [Dict.values, h.items_eq, List.map_map] at hmem
    obtain ⟨key, -, rfl⟩ := List.mem_map.mp hmem
    exact Int.natCast_nonneg _
  shots := by
    rw [h.total, List.length_map, List.length_ofFn]
    omega

theorem sign_eq {qubits : List ℕ} (hbound : ∀ q ∈ qubits, q < n) (y : Basis n) :
    (-1) ^ ones qubits (stateKey y) = sign qubits y := by
  have hlength : (stateKey y).length = n := by
    unfold stateKey
    rw [countsKey_range]
    simp
  have hparity := @signOf_eq qubits (stateKey y) fun q hmem => by rw [hlength]; exact hbound q hmem
  exact Except.ok.inj (hparity.symm.trans (signOf_stateKey hbound y))

-- The estimate of a Pauli term is the mean sign of the shots.
theorem estimate_tallies {qubits : List ℕ} (hbound : ∀ q ∈ qubits, q < n)
    (h : Tallies counts (drawn.map stateKey)) :
    estimate qubits counts = ((drawn.map (sign qubits)).sum : ℚ) / drawn.length := by
  have hsigns := h.sum_eq fun key => (-1) ^ ones qubits key
  rw [sum_signs, List.map_map] at hsigns
  have hsame : drawn.map ((fun key => (-1 : Int) ^ ones qubits key) ∘ stateKey) =
      drawn.map (sign qubits) := List.map_congr_left fun y _ => sign_eq hbound y
  rw [estimate, h.total, List.length_map, ← Int.cast_sub, hsigns, hsame]
  norm_cast

end tallies

noncomputable section energy

open MeasureTheory

variable {n shots : ℕ} {terms : List PauliTerm}

-- The circuit of each measured term is run for a number of shots.
abbrev Shot (terms : List PauliTerm) (shots : ℕ) : Type :=
  Fin (measuredTerms terms).length × Fin shots

def shotTerm (shot : Shot terms shots) : PauliTerm := (measuredTerms terms).get shot.1

-- What one shot adds to the energy.
def shotValue (shot : Shot terms shots) (y : Basis n) : ℝ :=
  (shotTerm shot).coefficient / shots * sign (shotTerm shot).qubits.keys y

-- The terms that need no measurement.
def constantEnergy (terms : List PauliTerm) : ℚ :=
  ((terms.filter fun term => term.isIdentity).map PauliTerm.coefficient).sum

def sampledEnergy (drawn : Shot terms shots → Basis n) : ℚ :=
  constantEnergy terms + ∑ shot : Shot terms shots,
    (shotTerm shot).coefficient / shots * sign (shotTerm shot).qubits.keys (drawn shot)

theorem cast_sampledEnergy (drawn : Shot terms shots → Basis n) :
    (sampledEnergy drawn : ℝ) =
      constantEnergy terms + ∑ shot : Shot terms shots, shotValue shot (drawn shot) := by
  unfold sampledEnergy shotValue
  push_cast
  rfl

theorem zip_ofFn {α β : Type} (items : List α) (f : Fin items.length → β) :
    items.zip (List.ofFn f) = List.ofFn fun i => (items.get i, f i) := by
  refine List.ext_getElem (by simp) fun i _ _ => ?_
  simp

theorem measuredTerms_bounded (hbound : ∀ term ∈ terms, ∀ q ∈ term.qubits.keys, q < n)
    (i : Fin (measuredTerms terms).length) :
    ∀ q ∈ ((measuredTerms terms).get i).qubits.keys, q < n :=
  hbound _ (List.mem_filter.mp (List.get_mem _ i)).1

-- The energy that the counts of the shots give.
theorem energyOf_tallies (hbound : ∀ term ∈ terms, ∀ q ∈ term.qubits.keys, q < n)
    {counts : Fin (measuredTerms terms).length → Dict String Int}
    {drawn : Shot terms shots → Basis n}
    (h : ∀ i, Tallies (counts i) ((List.ofFn fun j => drawn (i, j)).map stateKey)) :
    energyOf terms (List.ofFn counts) = sampledEnergy drawn := by
  have hestimate : ∀ i, estimate ((measuredTerms terms).get i).qubits.keys (counts i) =
      (∑ j, (sign ((measuredTerms terms).get i).qubits.keys (drawn (i, j)) : ℚ)) / shots := by
    intro i
    rw [estimate_tallies (measuredTerms_bounded hbound i) (h i), List.map_ofFn, List.sum_ofFn,
      List.length_ofFn]
    push_cast
    rfl
  unfold energyOf sampledEnergy constantEnergy
  rw [zip_ofFn, List.map_ofFn, List.sum_ofFn, Fintype.sum_prod_type]
  congr 1
  refine Finset.sum_congr rfl fun i _ => ?_
  simp only [Function.comp_apply, hestimate, shotTerm]
  rw [← Finset.mul_sum]
  ring

section law

variable {satisfies : String → List String → Basis n → Bool} {preparation : List (Gate ℝ)}

-- The outcome of one shot of the circuit that measures its term.
def shotLaw (satisfies : String → List String → Basis n → Bool) (preparation : List (Gate ℝ))
    (shot : Shot terms shots) : Measure (Basis n) :=
  outcomes (prepared satisfies (preparation ++ rotations (shotTerm shot) ++ [.measureAll]))

-- How far the coefficients of the measured terms spread the energy.
def spread (terms : List PauliTerm) : ℝ :=
  ((measuredTerms terms).map fun term => (term.coefficient : ℝ) ^ 2).sum

theorem prepared_measurement (term : PauliTerm) :
    prepared satisfies (preparation ++ rotations term ++ [.measureAll]) =
      run satisfies (rotations term) (prepared satisfies preparation) := by
  have hmeasure : run satisfies [.measureAll] = 1 := rfl
  unfold prepared
  rw [run_append, run_append, hmeasure, Module.End.one_apply]

theorem prepared_norm {term : PauliTerm} (hbound : ∀ q ∈ term.qubits.keys, q < n)
    (hnorm : braket (prepared satisfies preparation) (prepared satisfies preparation) = 1) :
    braket (prepared satisfies (preparation ++ rotations term ++ [.measureAll]))
      (prepared satisfies (preparation ++ rotations term ++ [.measureAll])) = 1 := by
  have hisometric : Isometric (rotate Pauli.rotation term.qubits.items : Operator n) :=
    Isometric.rotate rotation_unitary hbound
  rw [prepared_measurement, run_rotations hbound, hisometric, hnorm]

-- The measured terms and the others make up the Hamiltonian.
theorem braket_hamiltonian {ψ : State n} (hnorm : braket ψ ψ = 1) (terms : List PauliTerm) :
    braket ψ (hamiltonian n terms ψ) = constantEnergy terms +
      ((measuredTerms terms).map fun term =>
        (term.coefficient : ℂ) * braket ψ (term.operator n ψ)).sum := by
  induction terms with
  | nil => simp [hamiltonian, braket, constantEnergy, measuredTerms]
  | cons term rest ih =>
      have hsplit : braket ψ (hamiltonian n (term :: rest) ψ) =
          term.coefficient * braket ψ (term.operator n ψ) + braket ψ (hamiltonian n rest ψ) := by
        rw [hamiltonian, List.map_cons, List.sum_cons, LinearMap.add_apply, braket_add,
          LinearMap.smul_apply, braket_smul]
        rfl
      rw [hsplit, ih]
      cases hidentity : term.isIdentity with
      | true =>
          have hone : term.operator n = 1 := by
            rw [PauliTerm.operator, List.isEmpty_iff.mp hidentity]
            rfl
          rw [measuredTerms_identity hidentity, hone, Module.End.one_apply, hnorm]
          simp [constantEnergy, hidentity]
          ring
      | false =>
          rw [measuredTerms_measured hidentity]
          simp [constantEnergy, hidentity]
          ring

variable (hnorm : braket (prepared satisfies preparation) (prepared satisfies preparation) = 1)
  (hbound : ∀ term ∈ terms, ∀ q ∈ term.qubits.keys, q < n)

include hnorm hbound

theorem shotLaw_isProbabilityMeasure (shot : Shot terms shots) :
    IsProbabilityMeasure (shotLaw satisfies preparation shot) :=
  outcomes_isProbabilityMeasure (prepared_norm (measuredTerms_bounded hbound shot.1) hnorm)

theorem integral_shotValue (shot : Shot terms shots) :
    ((∫ y, shotValue shot y ∂shotLaw satisfies preparation shot : ℝ) : ℂ) =
      (shotTerm shot).coefficient / shots * braket (prepared satisfies preparation)
        ((shotTerm shot).operator n (prepared satisfies preparation)) := by
  have hterm : ∀ q ∈ (shotTerm shot).qubits.keys, q < n := measuredTerms_bounded hbound shot.1
  rw [← expectation_eq_braket hterm, shotLaw, integral_outcomes (prepared_norm hterm hnorm),
    prepared_measurement]
  unfold shotValue
  push_cast
  rw [Finset.mul_sum]
  exact Finset.sum_congr rfl fun y _ => by ring

-- All shots together have the mean of the Hamiltonian.
theorem integral_shots (hshots : 1 ≤ shots) :
    ((constantEnergy terms + ∑ shot : Shot terms shots,
        ∫ y, shotValue shot y ∂shotLaw satisfies preparation shot : ℝ) : ℂ) =
      braket (prepared satisfies preparation)
        (hamiltonian n terms (prepared satisfies preparation)) := by
  have hne : (shots : ℂ) ≠ 0 := by exact_mod_cast (by omega : shots ≠ 0)
  have hterms : ∀ i, ∑ j : Fin shots, ((∫ y, shotValue (i, j) y ∂shotLaw satisfies preparation
      ((i, j) : Shot terms shots) : ℝ) : ℂ) = ((measuredTerms terms).get i).coefficient *
        braket (prepared satisfies preparation)
          (((measuredTerms terms).get i).operator n (prepared satisfies preparation)) := by
    intro i
    simp only [integral_shotValue hnorm hbound, shotTerm]
    rw [Finset.sum_const, Finset.card_univ, Fintype.card_fin, nsmul_eq_mul]
    field_simp
  rw [braket_hamiltonian hnorm]
  push_cast
  rw [Fintype.sum_prod_type]
  simp only [hterms]
  rw [← Fin.sum_univ_fun_getElem]
  rfl

omit hnorm hbound in
theorem abs_shotValue_le (shot : Shot terms shots) (y : Basis n) :
    |shotValue shot y| ≤ |((shotTerm shot).coefficient : ℝ)| / shots := by
  have hsign : ∀ qubits : List ℕ, |(sign qubits y : ℝ)| = 1 := by
    intro qubits
    induction qubits with
    | nil => simp [sign]
    | cons q rest ih =>
        have hcons : sign (q :: rest) y = (if y.bit q then -1 else 1) * sign rest y := by
          simp [sign]
        rw [hcons]
        push_cast
        rw [abs_mul, ih]
        split_ifs <;> simp
  unfold shotValue
  rw [abs_mul, hsign, mul_one, abs_div, Nat.abs_cast]

omit hnorm hbound in
theorem sum_bounds (hshots : 1 ≤ shots) :
    ∑ shot : Shot terms shots, (|((shotTerm shot).coefficient : ℝ)| / shots) ^ 2 =
      spread terms / shots := by
  have hne : (shots : ℝ) ≠ 0 := by exact_mod_cast (by omega : shots ≠ 0)
  have hterms : ∀ i, ∑ _j : Fin shots,
      (|(((measuredTerms terms).get i).coefficient : ℝ)| / shots) ^ 2 =
        (((measuredTerms terms).get i).coefficient : ℝ) ^ 2 / shots := by
    intro i
    rw [Finset.sum_const, Finset.card_univ, Fintype.card_fin, nsmul_eq_mul, div_pow, sq_abs]
    field_simp
  rw [Fintype.sum_prod_type]
  simp only [shotTerm, hterms]
  rw [← Finset.sum_div, spread, ← Fin.sum_univ_fun_getElem]
  rfl

variable {energy : ℝ} (hshots : 1 ≤ shots)
  (henergy : (energy : ℂ) = braket (prepared satisfies preparation)
    (hamiltonian n terms (prepared satisfies preparation)))

include hshots henergy

theorem sampledEnergy_sub (drawn : Shot terms shots → Basis n) :
    (sampledEnergy drawn : ℝ) - energy = ∑ shot, shotValue shot (drawn shot) -
      ∑ shot : Shot terms shots, ∫ y, shotValue shot y ∂shotLaw satisfies preparation shot := by
  have hmean := (integral_shots hnorm hbound hshots).trans henergy.symm
  rw [← Complex.ofReal_inj.mp hmean, cast_sampledEnergy]
  ring

-- The mean of what the shots give is the energy of the state.
theorem integral_sampledEnergy :
    ∫ drawn, (sampledEnergy drawn : ℝ) ∂Measure.pi (fun shot : Shot terms shots =>
      shotLaw satisfies preparation shot) = energy := by
  have hlaw := fun shot : Shot terms shots => shotLaw_isProbabilityMeasure hnorm hbound shot
  have hdraws := @Statistics.integral_draws _ _ _ _ (shotLaw satisfies preparation) hlaw
    (fun shot : Shot terms shots => shotValue shot) _ (fun _ => Measurable.of_discrete)
    abs_shotValue_le
  have hmean := (integral_shots hnorm hbound hshots).trans henergy.symm
  simp only [cast_sampledEnergy]
  rw [integral_add (integrable_const _) Integrable.of_finite, integral_const, probReal_univ,
    one_smul, hdraws]
  exact Complex.ofReal_inj.mp hmean

omit hnorm hbound hshots henergy in
theorem exponent_eq (ε : ℝ) : -ε ^ 2 / (2 * (spread terms / shots)) =
    -(shots * ε ^ 2) / (2 * spread terms) := by
  rw [← mul_div_assoc, div_div_eq_mul_div]
  ring

-- How likely they are to give another one.
theorem sampledEnergy_far {ε : ℝ} (hε : 0 ≤ ε) :
    (Measure.pi fun shot : Shot terms shots => shotLaw satisfies preparation shot).real
        {drawn | ε ≤ |sampledEnergy drawn - energy|} ≤
      2 * Real.exp (-(shots * ε ^ 2) / (2 * spread terms)) := by
  have hlaw := fun shot : Shot terms shots => shotLaw_isProbabilityMeasure hnorm hbound shot
  have hdraws := @Statistics.draws_far _ _ _ _ (shotLaw satisfies preparation) hlaw
    (fun shot : Shot terms shots => shotValue shot) _ (fun _ => Measurable.of_discrete)
    abs_shotValue_le ε hε
  simp only [sampledEnergy_sub hnorm hbound hshots henergy]
  rwa [sum_bounds hshots, exponent_eq] at hdraws

theorem sampledEnergy_below {ε : ℝ} (hε : 0 ≤ ε) :
    (Measure.pi fun shot : Shot terms shots => shotLaw satisfies preparation shot).real
        {drawn | (sampledEnergy drawn : ℝ) ≤ energy - ε} ≤
      Real.exp (-(shots * ε ^ 2) / (2 * spread terms)) := by
  have hlaw := fun shot : Shot terms shots => shotLaw_isProbabilityMeasure hnorm hbound shot
  have hdraws := @Statistics.draws_below _ _ _ _ (shotLaw satisfies preparation) hlaw
    (fun shot : Shot terms shots => shotValue shot) _ (fun _ => Measurable.of_discrete)
    abs_shotValue_le ε hε
  rw [sum_bounds hshots, exponent_eq] at hdraws
  refine le_trans (le_of_eq (congrArg _ (Set.ext fun drawn => ?_))) hdraws
  have hsub := sampledEnergy_sub hnorm hbound hshots henergy drawn
  rw [Set.mem_ofPred_eq, Set.mem_ofPred_eq]
  constructor
  · intro h
    linarith
  · intro h
    linarith

end law

end energy

end QuantumPlatform.Core

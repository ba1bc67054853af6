import QuantumPlatform.Core.Expectation

namespace QuantumPlatform.Core

open Python Quantum

section weights

variable {Θ K : Type} [Field K] [DecidableEq K]

-- pauli_expectation_from_counts for weights of any field: a run has counts, the exact
-- probabilities are reals.
def expectationFromWeights (weights : List (String × K)) (term : PauliTerm) : Except Exc K := do
  let total := (weights.map Prod.snd).sum
  if total = 0 then
    throw (Exc.valueError "counts is empty")
  let acc ← weights.foldlM (fun (acc : K) entry => do
    let sign ← signOf entry.1 term.qubits.keys
    return acc + sign * entry.2) 0
  return acc / total

-- The loop of evaluate_energy, with the weights of each measured circuit given.
def energyFromWeights (measurement : PauliTerm → Except Exc (QuantumCircuit Θ))
    (weights : QuantumCircuit Θ → List (String × K)) : List PauliTerm → K → Except Exc K
  | [], total => .ok total
  | term :: rest, total =>
      if term.qubits.items = [] then
        energyFromWeights measurement weights rest (total + term.coefficient)
      else do
        let qc ← measurement term
        let expectation ← expectationFromWeights (weights qc) term
        energyFromWeights measurement weights rest (total + term.coefficient * expectation)

-- The counts of a run are weights among the rationals.
theorem pauliExpectationFromCounts_eq (counts : Dict String Int) (term : PauliTerm) :
    pauliExpectationFromCounts counts term =
      expectationFromWeights (counts.items.map fun entry => (entry.1, (entry.2 : ℚ))) term := by
  have htotal : ((counts.items.map fun entry => (entry.1, (entry.2 : ℚ))).map Prod.snd).sum =
      (counts.values.sum : ℚ) := by
    unfold Dict.values
    induction counts.items with
    | nil => simp
    | cons entry rest ih =>
        rw [List.map_cons, List.map_cons, List.sum_cons, ih, List.map_cons, List.sum_cons]
        push_cast
        rfl
  unfold pauliExpectationFromCounts expectationFromWeights
  simp only [htotal, Int.cast_eq_zero, List.foldlM_map]

omit [DecidableEq K] in
theorem foldlM_signs {qubits : List ℕ} {signs : String → ℤ} {weights : List (String × K)}
    (h : ∀ entry ∈ weights, signOf entry.1 qubits = .ok (signs entry.1)) (start : K) :
    weights.foldlM (fun (acc : K) entry => do
      let sign ← signOf entry.1 qubits
      return acc + sign * entry.2) start =
        (.ok (start + (weights.map fun entry => (signs entry.1 : K) * entry.2).sum) :
          Except Exc K) := by
  induction weights generalizing start with
  | nil =>
      rw [List.map_nil, List.sum_nil, add_zero]
      rfl
  | cons entry rest ih =>
      rw [List.foldlM_cons, h entry List.mem_cons_self]
      refine (ih (fun other hmem => h other (List.mem_cons_of_mem entry hmem)) _).trans ?_
      rw [List.map_cons, List.sum_cons, add_assoc]

end weights

-- A sum over a dict whose keys stand for the elements of a finite type.
theorem sum_items {ι κ α M : Type} [Fintype ι] [DecidableEq ι] [DecidableEq κ] [Zero α]
    [AddCommMonoid M] {f : ι → κ} (hf : Function.Injective f) (g : κ → α → M)
    (hg : ∀ key, g key 0 = 0) {items : List (κ × α)} (hnodup : (items.map Prod.fst).Nodup)
    (hkeys : ∀ key ∈ items.map Prod.fst, ∃ i, key = f i) :
    (items.map fun entry => g entry.1 entry.2).sum = ∑ i, g (f i)
      (((items.find? fun entry => decide (entry.1 = f i)).map Prod.snd).getD 0) := by
  induction items with
  | nil => simp [hg]
  | cons entry rest ih =>
      rw [List.map_cons, List.nodup_cons] at hnodup
      obtain ⟨i, hi⟩ := hkeys entry.1 List.mem_cons_self
      have hrest := ih hnodup.2 fun key hmem => hkeys key (List.mem_cons_of_mem _ hmem)
      have habsent : (rest.find? fun other => decide (other.1 = f i)) = none := by
        refine List.find?_eq_none.mpr fun other hmem => ?_
        rw [decide_eq_true_eq, ← hi]
        exact fun hsame => hnodup.1 (hsame ▸ List.mem_map_of_mem hmem)
      have hsplit : ∀ j, g (f j)
          ((((entry :: rest).find? fun other => decide (other.1 = f j)).map Prod.snd).getD 0) =
          (if j = i then g entry.1 entry.2 else 0) +
            g (f j) (((rest.find? fun other => decide (other.1 = f j)).map Prod.snd).getD 0) := by
        intro j
        by_cases hj : j = i
        · subst hj
          rw [if_pos rfl, habsent, List.find?_cons_of_pos (by simpa using hi)]
          simp [hg, hi]
        · have hne : ¬entry.1 = f j := fun hsame => hj (hf (hsame.symm.trans hi))
          rw [if_neg hj, zero_add, List.find?_cons_of_neg (by simpa using hne)]
      simp only [hsplit]
      rw [List.map_cons, List.sum_cons, Finset.sum_add_distrib, ← hrest,
        Finset.sum_ite_eq' Finset.univ, if_pos (Finset.mem_univ i)]

noncomputable section exact

variable {n : ℕ} {satisfies : String → List String → Basis n → Bool}

-- Counts without shot noise: every key has its probability.
structure ExactCounts (satisfies : String → List String → Basis n → Bool)
    (qc : QuantumCircuit ℝ) (counts : Dict String ℝ) : Prop where
  outcomes : ∀ key ∈ counts.keys, ∃ y : Basis n, key = countsKey (measured n qc.gates) y
  weights : ∀ key, counts.get key 0 = probability satisfies qc.gates fun other => other = key

-- The Hamiltonian of a list of terms.
def hamiltonian (n : ℕ) (terms : List PauliTerm) : Operator n :=
  (terms.map fun term => (term.coefficient : ℂ) • term.operator n).sum

def prepared (satisfies : String → List String → Basis n → Bool)
    (preparation : List (Gate ℝ)) : State n :=
  run satisfies preparation (ket (Basis.ofNat n 0))

variable {preparation : List (Gate ℝ)} {term : PauliTerm} {qc : QuantumCircuit ℝ}
  {counts : Dict String ℝ}

theorem measured_rotations (term : PauliTerm) : measured n (rotations term) = [] := by
  refine measured_eq_nil fun gate hmem => ?_
  obtain ⟨entry, -, hmem⟩ := List.mem_flatMap.mp hmem
  cases hpauli : entry.2 with
  | X =>
      rw [hpauli] at hmem
      simp only [basisRotation, List.mem_singleton] at hmem
      subst hmem
      rfl
  | Y =>
      rw [hpauli] at hmem
      simp only [basisRotation, List.mem_cons, List.not_mem_nil, or_false] at hmem
      rcases hmem with rfl | rfl
      · rfl
      · rfl
  | Z =>
      rw [hpauli] at hmem
      simp [basisRotation] at hmem

theorem countsKey_measurement (hpreparation : measured n preparation = []) (y : Basis n) :
    countsKey (measured n (preparation ++ rotations term ++ [.measureAll])) y = stateKey y :=
  countsKey_measureAll (by rw [measured_append, hpreparation, measured_rotations]; rfl) y

theorem probability_measurement (hpreparation : measured n preparation = []) (y : Basis n) :
    probability satisfies (preparation ++ rotations term ++ [.measureAll])
        (fun other => other = stateKey y) =
      Complex.normSq (run satisfies (rotations term) (prepared satisfies preparation) y) := by
  have hevent : ∀ x : Basis n,
      countsKey (measured n (preparation ++ rotations term ++ [.measureAll])) x = stateKey y ↔
        x = y := by
    intro x
    rw [countsKey_measurement hpreparation]
    exact stateKey_injective.eq_iff
  have hmeasure : run satisfies [.measureAll] = 1 := rfl
  rw [probability_eq_sum hevent, Finset.sum_ite_eq' Finset.univ, if_pos (Finset.mem_univ y),
    run_append, run_append, hmeasure, Module.End.one_apply]
  rfl

-- A number for each outcome, in proportion to the probabilities.
structure Proportional {K : Type} [Field K] (ι : K →+* ℝ)
    (satisfies : String → List String → Basis n → Bool) (qc : QuantumCircuit ℝ) (scale : ℝ)
    (weights : List (String × K)) : Prop where
  nodup : (weights.map Prod.fst).Nodup
  outcomes : ∀ key ∈ weights.map Prod.fst, ∃ y : Basis n, key = countsKey (measured n qc.gates) y
  weights : ∀ key, ι (((weights.find? fun entry => decide (entry.1 = key)).map Prod.snd).getD 0) =
    scale * probability satisfies qc.gates fun other => other = key

theorem ExactCounts.proportional (h : ExactCounts satisfies qc counts) :
    Proportional (RingHom.id ℝ) satisfies qc 1 counts.items :=
  ⟨counts.nodup, h.outcomes, fun key => (h.weights key).trans (one_mul _).symm⟩

-- The law of a circuit itself: each outcome that it can have, with its probability.
theorem exists_exactCounts (satisfies : String → List String → Basis n → Bool)
    (qc : QuantumCircuit ℝ) : ∃ counts : Dict String ℝ, ExactCounts satisfies qc counts := by
  let outcomes : List String :=
    (Finset.univ.image fun y : Basis n => countsKey (measured n qc.gates) y).toList
  have houtcomes : ∀ key, key ∈ outcomes ↔ ∃ y : Basis n, countsKey (measured n qc.gates) y = key :=
    fun key => by simp [outcomes]
  let weight (key : String) : ℝ := probability satisfies qc.gates fun other => other = key
  have hkeys : (outcomes.map fun key => (key, weight key)).map Prod.fst = outcomes := by
    rw [List.map_map]
    exact List.map_id _
  refine ⟨⟨outcomes.map fun key => (key, weight key), by rw [hkeys]; exact Finset.nodup_toList _⟩,
    fun key hmem => ?_, fun key => ?_⟩
  · obtain ⟨y, hy⟩ := (houtcomes key).mp (hkeys ▸ hmem)
    exact ⟨y, hy.symm⟩
  · rw [Dict.get]
    cases hget : Dict.get? (Dict.mk (outcomes.map fun key => (key, weight key)) _) key with
    | some value =>
        obtain ⟨other, -, hentry⟩ := List.mem_map.mp ((Dict.mem_items_iff _).mpr hget)
        obtain ⟨rfl, rfl⟩ := Prod.ext_iff.mp hentry
        rfl
    | none =>
        by_contra hne
        obtain ⟨y, hy, -⟩ := exists_of_probability_ne_zero fun hzero => hne hzero.symm
        have hmem : (key, weight key) ∈ outcomes.map fun key => (key, weight key) :=
          List.mem_map_of_mem ((houtcomes key).mpr ⟨y, hy⟩)
        rw [(Dict.mem_items_iff _).mp hmem] at hget
        cases hget

-- Counts of a run without shot noise: of all the shots every key has its share.
structure ExactHistogram (satisfies : String → List String → Basis n → Bool)
    (qc : QuantumCircuit ℝ) (counts : Dict String Int) : Prop where
  outcomes : ∀ key ∈ counts.keys, ∃ y : Basis n, key = countsKey (measured n qc.gates) y
  weights : ∀ key, (counts.get key 0 : ℝ) =
    counts.values.sum * probability satisfies qc.gates fun other => other = key

theorem ExactHistogram.proportional {counts : Dict String Int}
    (h : ExactHistogram satisfies qc counts) :
    Proportional (Rat.castHom ℝ) satisfies qc counts.values.sum
      (counts.items.map fun entry => (entry.1, (entry.2 : ℚ))) := by
  have hkeys : (counts.items.map fun entry => (entry.1, (entry.2 : ℚ))).map Prod.fst =
      counts.keys := by
    rw [List.map_map]
    rfl
  refine ⟨hkeys ▸ counts.nodup, fun key hmem => h.outcomes key (hkeys ▸ hmem), fun key => ?_⟩
  have hfind : (counts.items.map fun entry => (entry.1, (entry.2 : ℚ))).find?
      (fun entry => decide (entry.1 = key)) =
      (counts.items.find? fun entry => decide (entry.1 = key)).map
        fun entry => (entry.1, (entry.2 : ℚ)) := List.find?_map
  rw [← h.weights, hfind, Dict.get, Dict.get?]
  cases counts.items.find? fun entry => decide (entry.1 = key) with
  | none => exact (map_zero _).trans Int.cast_zero.symm
  | some entry => exact map_intCast (Rat.castHom ℝ) entry.2

-- The probability of a key is that of the one state it stands for, if there is one.
theorem ExactHistogram.of_amplitudes {counts : Dict String Int}
    (hpreparation : measured n preparation = [])
    (hgates : qc.gates = preparation ++ rotations term ++ [.measureAll])
    (hkeys : ∀ key ∈ counts.keys, ∃ y : Basis n, key = stateKey y)
    (hweights : ∀ y : Basis n, (counts.get (stateKey y) 0 : ℝ) = counts.values.sum *
      Complex.normSq (run satisfies (rotations term) (prepared satisfies preparation) y)) :
    ExactHistogram satisfies qc counts := by
  constructor
  · intro key hmem
    obtain ⟨y, rfl⟩ := hkeys key hmem
    exact ⟨y, by rw [hgates, countsKey_measurement hpreparation]⟩
  · intro key
    by_cases hkey : ∃ y : Basis n, key = stateKey y
    · obtain ⟨y, rfl⟩ := hkey
      rw [hweights, hgates, probability_measurement hpreparation]
    · have hcount : counts.get key 0 = 0 := by
        rw [Dict.get]
        cases hget : counts.get? key with
        | none => rfl
        | some count =>
            exact absurd (hkeys key (List.mem_map_of_mem (counts.mem_items_iff.mpr hget))) hkey
      have hprobability : probability satisfies qc.gates (fun other => other = key) = 0 := by
        by_contra hne
        obtain ⟨y, hy, -⟩ := exists_of_probability_ne_zero hne
        rw [hgates, countsKey_measurement hpreparation] at hy
        exact hkey ⟨y, hy.symm⟩
      rw [hcount, hprobability, mul_zero, Int.cast_zero]

-- With proportional weights, the estimate is the expectation of the Pauli string.
theorem expectationFromWeights_exact {K : Type} [Field K] [DecidableEq K] {ι : K →+* ℝ} {scale : ℝ}
    {weights : List (String × K)} (hpreparation : measured n preparation = [])
    (hnorm : braket (prepared satisfies preparation) (prepared satisfies preparation) = 1)
    (hgates : qc.gates = preparation ++ rotations term ++ [.measureAll])
    (hbound : ∀ q ∈ term.qubits.keys, q < n) (hscale : scale ≠ 0)
    (hexact : Proportional ι satisfies qc scale weights) :
    ∃ expectation : K, expectationFromWeights weights term = .ok expectation ∧
      (ι expectation : ℂ) = braket (prepared satisfies preparation)
        (term.operator n (prepared satisfies preparation)) := by
  let measuredState := run satisfies (rotations term) (prepared satisfies preparation)
  let signs := fun key => match signOf key term.qubits.keys with
    | .ok value => value
    | .error _ => 0
  have hsigns : ∀ y : Basis n, signs (stateKey y) = sign term.qubits.keys y := by
    intro y
    simp only [signs, signOf_stateKey hbound]
  have hkeys : ∀ key ∈ weights.map Prod.fst, ∃ y : Basis n, key = stateKey y := by
    intro key hmem
    obtain ⟨y, hy⟩ := hexact.outcomes key hmem
    rw [hgates, countsKey_measurement hpreparation] at hy
    exact ⟨y, hy⟩
  have hweight : ∀ y : Basis n,
      ι (((weights.find? fun entry => decide (entry.1 = stateKey y)).map Prod.snd).getD 0) =
        scale * Complex.normSq (measuredState y) := by
    intro y
    rw [hexact.weights, hgates, probability_measurement hpreparation]
  have htotal : ι (weights.map Prod.snd).sum = scale := by
    have hsame : braket measuredState measuredState = 1 := by
      have hrun : run satisfies (rotations term) =
          (rotate Pauli.rotation term.qubits.items : Operator n) := run_rotations hbound
      have hisometric : Isometric (rotate Pauli.rotation term.qubits.items : Operator n) :=
        Isometric.rotate rotation_unitary hbound
      simp only [measuredState, hrun]
      rw [hisometric, hnorm]
    have hsum := sum_items stateKey_injective (fun _ weight => ι weight) (fun _ => map_zero ι)
      hexact.nodup hkeys
    have hone : ∑ y, Complex.normSq (measuredState y) = 1 := by
      rw [braket_self] at hsame
      exact_mod_cast hsame
    rw [map_list_sum, List.map_map]
    refine hsum.trans ?_
    rw [Finset.sum_congr rfl fun y _ => hweight y, ← Finset.mul_sum, hone, mul_one]
  have hmean : ι (weights.map fun entry => (signs entry.1 : K) * entry.2).sum =
      scale * ∑ y, Complex.normSq (measuredState y) * sign term.qubits.keys y := by
    have hsum := sum_items stateKey_injective (fun key weight => (signs key : ℝ) * ι weight)
      (fun _ => by rw [map_zero, mul_zero]) hexact.nodup hkeys
    have hmap : ι (weights.map fun entry => (signs entry.1 : K) * entry.2).sum =
        (weights.map fun entry => (signs entry.1 : ℝ) * ι entry.2).sum := by
      rw [map_list_sum, List.map_map]
      refine congrArg List.sum (List.map_congr_left fun entry _ => ?_)
      simp
    rw [hmap, hsum, Finset.mul_sum]
    refine Finset.sum_congr rfl fun y _ => ?_
    rw [hweight, hsigns]
    ring
  have hsigned : ∀ entry ∈ weights, signOf entry.1 term.qubits.keys = .ok (signs entry.1) := by
    intro entry hmem
    obtain ⟨y, hy⟩ := hkeys entry.1 (List.mem_map_of_mem hmem)
    rw [hy, signOf_stateKey hbound, hsigns]
  have hne : ¬(weights.map Prod.snd).sum = 0 := by
    intro hzero
    rw [hzero, map_zero] at htotal
    exact hscale htotal.symm
  refine ⟨(weights.map fun entry => (signs entry.1 : K) * entry.2).sum /
    (weights.map Prod.snd).sum, ?_, ?_⟩
  · unfold expectationFromWeights
    rw [if_neg hne, foldlM_signs hsigned]
    change Except.ok _ = _
    rw [zero_add]
  · rw [map_div₀, hmean, htotal, mul_div_cancel_left₀ _ hscale]
    exact expectation_eq_braket hbound _

-- The loop adds the coefficients times the expectations.
theorem energyFromWeights_exact {Θ K : Type} [Field K] [DecidableEq K] (ι : K →+* ℝ)
    {measurement : PauliTerm → Except Exc (QuantumCircuit Θ)}
    {weights : QuantumCircuit Θ → List (String × K)} {ψ : State n} (hnorm : braket ψ ψ = 1)
    {terms : List PauliTerm}
    (hmeasurement : ∀ term ∈ terms, term.qubits.items ≠ [] → ∃ qc expectation,
      measurement term = .ok qc ∧ expectationFromWeights (weights qc) term = .ok expectation ∧
      (ι expectation : ℂ) = braket ψ (term.operator n ψ)) (total : K) :
    ∃ energy : K, energyFromWeights measurement weights terms total = .ok energy ∧
      (ι energy : ℂ) = ι total + braket ψ (hamiltonian n terms ψ) := by
  induction terms generalizing total with
  | nil =>
      refine ⟨total, rfl, ?_⟩
      simp [hamiltonian, braket]
  | cons term rest ih =>
      have hbrackets : braket ψ (hamiltonian n (term :: rest) ψ) =
          term.coefficient * braket ψ (term.operator n ψ) + braket ψ (hamiltonian n rest ψ) := by
        rw [hamiltonian, List.map_cons, List.sum_cons, LinearMap.add_apply, braket_add,
          LinearMap.smul_apply, braket_smul]
        rfl
      have hrest := ih fun other hmem => hmeasurement other (List.mem_cons_of_mem term hmem)
      unfold energyFromWeights
      by_cases hidentity : term.qubits.items = []
      · have hone : term.operator n = 1 := by rw [PauliTerm.operator, hidentity]; rfl
        obtain ⟨energy, henergy, hvalue⟩ := hrest (total + term.coefficient)
        refine ⟨energy, ?_, ?_⟩
        · rw [if_pos hidentity, henergy]
        · rw [hvalue, hbrackets, hone, Module.End.one_apply, hnorm, map_add, map_ratCast]
          push_cast
          ring
      · obtain ⟨qc, expectation, hqc, hexpectation, hbraket⟩ :=
          hmeasurement term List.mem_cons_self hidentity
        obtain ⟨energy, henergy, hvalue⟩ := hrest (total + term.coefficient * expectation)
        refine ⟨energy, ?_, ?_⟩
        · rw [if_neg hidentity, hqc]
          change (expectationFromWeights (weights qc) term >>= _) = _
          rw [hexpectation]
          exact henergy
        · rw [hvalue, hbrackets, ← hbraket, map_add, map_mul, map_ratCast]
          push_cast
          ring

section ansatz

theorem run_isometric {gates : List (Gate ℝ)}
    (h : ∀ gate ∈ gates, Isometric (gate.denote satisfies)) : Isometric (run satisfies gates) := by
  induction gates with
  | nil => exact Isometric.one
  | cons gate rest ih =>
      exact (ih fun other hmem => h other (List.mem_cons_of_mem gate hmem)).mul
        (h gate List.mem_cons_self)

theorem rotationY_unitary (theta : ℝ) : UnitaryMatrix (rotationY theta) := by
  have hsquares : ((Real.sin (theta / 2) : ℝ) : ℂ) ^ 2 + ((Real.cos (theta / 2) : ℝ) : ℂ) ^ 2 = 1 := by
    exact_mod_cast Real.sin_sq_add_cos_sq (theta / 2)
  intro b c
  simp only [Fintype.sum_bool]
  cases b <;> cases c <;> simp only [rotationY, map_neg, Complex.conj_ofReal]
  · simp only [if_true]
    linear_combination hsquares
  · simp only [Bool.false_eq_true, if_false]
    ring
  · simp only [Bool.true_eq_false, if_false]
    ring
  · simp only [if_true]
    linear_combination hsquares

theorem x_isometric {q : ℕ} (hq : q < n) : Isometric ((Gate.x q).denote satisfies) :=
  Isometric.permute (Function.Involutive.bijective fun _ => Basis.flip_flip hq)

theorem cx_isometric {control target : ℕ} (htarget : target < n) (hne : control ≠ target) :
    Isometric ((Gate.cx control target).denote satisfies) := by
  refine Isometric.permute (Function.Involutive.bijective fun y => ?_)
  by_cases hcontrol : y.bit control = true
  · simp only [hcontrol, if_true, Basis.bit_flip_of_ne hne, Basis.flip_flip htarget]
  · simp only [hcontrol, if_false, Bool.false_eq_true]

theorem buildAnsatz_gates {numQubits : ℕ} {params : List ℝ} {initialState : List Bool}
    (hlength : initialState = [] ∨ initialState.length = numQubits)
    (hqc : buildAnsatz numQubits params initialState = .ok qc) :
    ∀ gate ∈ qc.gates, (∃ q < numQubits, gate = .x q) ∨
      (∃ theta, ∃ q < numQubits, gate = .ry theta q) ∨
      ∃ control, ∃ target < numQubits, control ≠ target ∧ gate = .cx control target := by
  unfold buildAnsatz parameterCount at hqc
  by_cases hparams : params.length = 2 * numQubits
  · rw [if_neg (not_not.mpr hparams)] at hqc
    obtain rfl := Except.ok.inj hqc
    have hinitial : initialState.length ≤ numQubits := by
      rcases hlength with rfl | hlength
      · exact Nat.zero_le _
      · exact hlength.le
    have hfirst : (params.take numQubits).length = numQubits := by
      rw [List.length_take]
      omega
    have hsecond : (params.drop numQubits).length = numQubits := by
      rw [List.length_drop]
      omega
    intro gate hmem
    simp only [List.mem_append, List.mem_map, List.mem_filter, List.mem_reverse, List.mem_range,
      decide_eq_true_eq] at hmem
    rcases hmem with ((⟨entry, ⟨hentry, -⟩, rfl⟩ | ⟨entry, hentry, rfl⟩) |
      ⟨control, ⟨hcontrol, hpos⟩, rfl⟩) | ⟨entry, hentry, rfl⟩
    · exact .inl ⟨entry.2, (List.snd_lt_of_mem_zipIdx hentry).trans_le hinitial, rfl⟩
    · exact .inr (.inl ⟨entry.1, entry.2,
        (List.snd_lt_of_mem_zipIdx hentry).trans_le hfirst.le, rfl⟩)
    · exact .inr (.inr ⟨control, control - 1, by omega, by omega, rfl⟩)
    · exact .inr (.inl ⟨entry.1, entry.2,
        (List.snd_lt_of_mem_zipIdx hentry).trans_le hsecond.le, rfl⟩)
  · rw [if_pos hparams] at hqc
    cases hqc

-- The ansatz measures nothing and prepares a normalized state.
theorem ansatz_prepares {params : List ℝ} {initialState : List Bool}
    (hlength : initialState = [] ∨ initialState.length = n)
    (hqc : buildAnsatz n params initialState = .ok qc) :
    measured n qc.gates = [] ∧
      braket (prepared satisfies qc.gates) (prepared satisfies qc.gates) = 1 := by
  have hgates := buildAnsatz_gates hlength hqc
  refine ⟨measured_eq_nil fun gate hmem => ?_, ?_⟩
  · rcases hgates gate hmem with ⟨q, -, rfl⟩ | ⟨theta, q, -, rfl⟩ | ⟨control, target, -, -, rfl⟩
    · rfl
    · rfl
    · rfl
  · have hisometric : Isometric (run satisfies qc.gates) := by
      refine run_isometric fun gate hmem => ?_
      rcases hgates gate hmem with ⟨q, hq, rfl⟩ | ⟨theta, q, hq, rfl⟩ |
        ⟨control, target, htarget, hne, rfl⟩
      · exact x_isometric hq
      · exact Isometric.single (rotationY_unitary theta) hq
      · exact cx_isometric htarget hne
    have hket : braket (ket (Basis.ofNat n 0)) (ket (Basis.ofNat n 0)) = 1 := by
      simp [braket, ket]
    unfold prepared
    rw [hisometric, hket]

theorem buildMeasurementCircuit_gates {params : List ℝ} {molecule : MolecularHamiltonian}
    (hidentity : term.qubits.items ≠ [])
    (hqc : buildAnsatz molecule.numQubits params molecule.initialState = .ok qc) :
    ∃ measurement, buildMeasurementCircuit params term molecule = .ok measurement ∧
      measurement.gates = qc.gates ++ rotations term ++ [.measureAll] := by
  unfold buildMeasurementCircuit
  rw [if_neg hidentity, hqc]
  exact ⟨_, rfl, rfl⟩

theorem energy_exact {molecule : MolecularHamiltonian} {params : List ℝ}
    {ansatz : QuantumCircuit ℝ} {satisfies : String → List String → Basis molecule.numQubits → Bool}
    {weights : QuantumCircuit ℝ → Dict String ℝ}
    (hansatz : buildAnsatz molecule.numQubits params molecule.initialState = .ok ansatz)
    (hexact : ∀ term ∈ molecule.terms, ∀ qc,
      buildMeasurementCircuit params term molecule = .ok qc →
        ExactCounts satisfies qc (weights qc)) :
    ∃ energy : ℝ,
      energyFromWeights (fun term => buildMeasurementCircuit params term molecule)
        (fun qc => (weights qc).items) molecule.terms 0 = .ok energy ∧
      (energy : ℂ) = braket (prepared satisfies ansatz.gates)
        (hamiltonian molecule.numQubits molecule.terms (prepared satisfies ansatz.gates)) := by
  have hprepares : measured molecule.numQubits ansatz.gates = [] ∧
      braket (prepared satisfies ansatz.gates) (prepared satisfies ansatz.gates) = 1 :=
    ansatz_prepares molecule.initialState_length hansatz
  obtain ⟨energy, henergy, hvalue⟩ := energyFromWeights_exact (RingHom.id ℝ) hprepares.2
    (fun term hmem hidentity => by
      obtain ⟨qc, hqc, hgates⟩ := buildMeasurementCircuit_gates hidentity hansatz
      obtain ⟨expectation, hok, hbraket⟩ := expectationFromWeights_exact hprepares.1 hprepares.2
        hgates (molecule.terms_bounded term hmem) one_ne_zero (hexact term hmem qc hqc).proportional
      exact ⟨qc, expectation, hqc, hok, hbraket⟩) 0
  exact ⟨energy, henergy, by simpa using hvalue⟩

end ansatz

-- The signs of the keys estimate the Pauli string.
theorem signOf_expectation (ψ : State n) (hbound : ∀ q ∈ term.qubits.keys, q < n) :
    ∃ signs : Basis n → ℤ,
      (∀ y, signOf (countsKey (measured n (rotations term ++ [.measureAll])) y)
        term.qubits.keys = .ok (signs y)) ∧
      ((∑ y, Complex.normSq (run satisfies (rotations term ++ [.measureAll]) ψ y) *
        signs y : ℝ) : ℂ) = braket ψ (term.operator n ψ) := by
  have hmeasure : run satisfies [.measureAll] = 1 := rfl
  refine ⟨sign term.qubits.keys, fun y => ?_, ?_⟩
  · rw [countsKey_measureAll (measured_rotations term), signOf_stateKey hbound]
  · rw [run_append, hmeasure, Module.End.one_apply]
    exact expectation_eq_braket hbound ψ

end exact

end QuantumPlatform.Core

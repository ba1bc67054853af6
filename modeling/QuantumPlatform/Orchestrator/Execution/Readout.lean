import QuantumPlatform.Core.PhaseEstimation
import QuantumPlatform.Orchestrator.Execution

namespace QuantumPlatform.Orchestrator

open Python Quantum QuantumPlatform.Core

section decoding

variable {n : ℕ}

theorem foldl_bitChar (y : Basis n) (t start : ℕ) :
    ((List.range t).reverse.map fun q => bitChar (y.bit q)).foldl
        (fun value char => 2 * value + if char = '1' then 1 else 0) start =
      start * 2 ^ t + y.low t := by
  induction t generalizing start with
  | zero => simp [Basis.low]
  | succ t ih =>
      rw [List.range_succ, List.reverse_append, List.reverse_singleton, List.singleton_append,
        List.map_cons, List.foldl_cons, ih, Basis.low_succ]
      have hbit : (if bitChar (y.bit t) = '1' then 1 else 0) = (y.bit t).toNat := by
        cases y.bit t <;> rfl
      rw [hbit]
      ring

-- int(key, 2) is the number that the measured bits spell.
theorem binaryValue_countsKey (y : Basis n) {t : ℕ} (ht : 1 ≤ t) :
    binaryValue (countsKey ((List.range t).zip (List.range t)) y) = .ok (y.low t) := by
  have hchars : (countsKey ((List.range t).zip (List.range t)) y).toList =
      (List.range t).reverse.map fun q => bitChar (y.bit q) := by
    rw [countsKey_range, String.toList_ofList]
  have hne : countsKey ((List.range t).zip (List.range t)) y ≠ "" := by
    intro hempty
    rw [hempty] at hchars
    have hlength := congrArg List.length hchars
    simp at hlength
    omega
  have hbits : (countsKey ((List.range t).zip (List.range t)) y).toList.all isBit = true := by
    rw [hchars, List.all_map]
    refine List.all_eq_true.mpr fun q _ => ?_
    simp only [Function.comp_apply, bitChar]
    cases y.bit q <;> rfl
  unfold binaryValue
  rw [if_pos ⟨hne, hbits⟩, hchars, foldl_bitChar, Nat.zero_mul, Nat.zero_add]

theorem measured_qpe (φ : ℝ) (t : ℕ) :
    measured (t + 1) (buildQpeCircuit Real.pi ⟨φ⟩ t).gates =
      (List.range t).zip (List.range t) := by
  have hgates : (buildQpeCircuit Real.pi ⟨φ⟩ t).gates =
      [.x t] ++ (List.range t).map .h ++
        ((List.range t).map fun j => .controlledPower ⟨φ⟩ (2 ^ j) j t) ++
        (buildQftCircuit Real.pi t true).gates ++
        [.measure (List.range t) (List.range t)] := rfl
  have hblocks : measured (t + 1) ((List.range t).reverse.flatMap inverseBlock) = [] := by
    refine measured_eq_nil fun gate hmem => ?_
    obtain ⟨j, -, hmem⟩ := List.mem_flatMap.mp hmem
    rcases List.mem_cons.mp hmem with rfl | hmem
    · rfl
    · obtain ⟨k, -, rfl⟩ := List.mem_map.mp hmem
      rfl
  have hhadamards : measured (t + 1) ((List.range t).map .h) = [] :=
    measured_map (fun _ => rfl) _
  have hpowers : measured (t + 1)
      ((List.range t).map fun j => .controlledPower ⟨φ⟩ (2 ^ j) j t) = [] :=
    measured_map (fun _ => rfl) _
  have hswaps : measured (t + 1)
      ((List.range (t / 2)).map fun i => .swap i (t - i - 1)) = [] :=
    measured_map (fun _ => rfl) _
  rw [hgates, inverse_gates]
  simp only [measured_append, hhadamards, hpowers, hblocks, hswaps]
  simp [measured, Gate.measured]

end decoding

section distribution

variable {t : ℕ} {satisfies : String → List String → Basis (t + 1) → Bool}

-- Both values of the target qubit count, but only |1> ever comes out.
theorem probability_qpe (ht : 1 ≤ t) (φ : ℝ) (k : ℕ) (hk : k < 2 ^ t) :
    probability satisfies (buildQpeCircuit Real.pi ⟨2 * Real.pi * φ⟩ t).gates
      (fun key => binaryValue key = .ok k) = Complex.normSq (qpeAmplitude t φ k) := by
  have hdecode : ∀ y : Basis (t + 1), binaryValue (countsKey (measured (t + 1)
      (buildQpeCircuit Real.pi ⟨2 * Real.pi * φ⟩ t).gates) y) = .ok k ↔ y.low t = k := by
    intro y
    rw [measured_qpe, binaryValue_countsKey y ht]
    exact ⟨Except.ok.inj, congrArg _⟩
  have hterm : ∀ y : Basis (t + 1), (if y.low t = k then
      Complex.normSq (run satisfies (buildQpeCircuit Real.pi ⟨2 * Real.pi * φ⟩ t).gates
        (ket (Basis.ofNat (t + 1) 0)) y) else 0) =
      if y.bit t then (if y.low t = k then Complex.normSq (qpeAmplitude t φ k) else 0) else 0 := by
    intro y
    rw [run_qpe_circuit]
    by_cases hlow : y.low t = k
    · subst hlow
      cases hy : y.bit t <;> simp
    · simp [hlow]
  rw [probability_eq_sum hdecode]
  simp only [hterm]
  rw [Basis.sum_last fun low => if low = k then Complex.normSq (qpeAmplitude t φ k) else 0]
  simp [hk]

-- A phase that the counting register can hold is found with certainty.
theorem qpeAmplitude_exact {k m : ℕ} (hk : k < 2 ^ t) (hm : m < 2 ^ t) :
    qpeAmplitude t (k / 2 ^ t) m = if k = m then 1 else 0 := by
  have hsum := sum_turn (.inl rfl) hk hm
  have hangle : ∀ y : ℕ, (y : ℝ) * (k / 2 ^ t - m / 2 ^ t) =
      1 * ((k : ℝ) - m) * y / ((2 ^ t : ℕ) : ℝ) := by
    intro y
    push_cast
    ring
  unfold qpeAmplitude
  simp only [hangle]
  rw [hsum]
  by_cases hkm : k = m
  · rw [if_pos hkm, if_pos hkm]
    push_cast
    exact inv_mul_cancel₀ (pow_ne_zero t two_ne_zero)
  · rw [if_neg hkm, if_neg hkm, mul_zero]

-- Every key that can be read off for an exact phase spells that phase.
theorem binaryValue_of_probability {k : ℕ} (ht : 1 ≤ t) (hk : k < 2 ^ t) {key : String}
    (hne : probability satisfies (buildQpeCircuit Real.pi ⟨2 * Real.pi * (k / 2 ^ t)⟩ t).gates
      (fun other => other = key) ≠ 0) : binaryValue key = .ok k := by
  obtain ⟨y, hkey, hamplitude⟩ := exists_of_probability_ne_zero hne
  rw [run_qpe_circuit] at hamplitude
  rw [← hkey, measured_qpe, binaryValue_countsKey y ht]
  by_contra hother
  have hlow : ¬k = y.low t := fun h => hother (by rw [h])
  rw [qpeAmplitude_exact hk (Basis.low_lt t), if_neg hlow, ite_self] at hamplitude
  exact hamplitude rfl

-- QPE reads out the right distribution, and an exact phase as itself.
theorem qpe_readout (t : ℕ) (ht : 1 ≤ t)
    (satisfies : String → List String → Basis (t + 1) → Bool) (φ : ℝ) :
    (∀ k < 2 ^ t, probability satisfies (buildQpeCircuit Real.pi ⟨2 * Real.pi * φ⟩ t).gates
      (fun key => binaryValue key = .ok k) =
        ‖(2 : ℂ)⁻¹ ^ t * ∑ y ∈ Finset.range (2 ^ t),
          Complex.exp (2 * Real.pi * Complex.I * y * (φ - k / 2 ^ t))‖ ^ 2) ∧
    ∀ k : ℕ, k < 2 ^ t → φ = k / 2 ^ t →
      probability satisfies (buildQpeCircuit Real.pi ⟨2 * Real.pi * φ⟩ t).gates
        (fun key => binaryValue key = .ok k) = 1 ∧
      ∀ key count, probability satisfies (buildQpeCircuit Real.pi ⟨2 * Real.pi * φ⟩ t).gates
          (fun other => other = key) ≠ 0 →
        countsWithEstimates t [(key, count)] =
          .ok [(key, .obj [("count", .int count), ("phi_estimate", .float ((k : ℚ) / 2 ^ t))])] := by
  refine ⟨?_, ?_⟩
  · intro k hk
    have hterm : ∀ y : ℕ, turn (y * (φ - k / 2 ^ t)) =
        Complex.exp (2 * Real.pi * Complex.I * y * (φ - k / 2 ^ t)) := by
      intro y
      unfold turn phaseFactor
      congr 1
      push_cast
      ring
    rw [probability_qpe ht φ k hk, Complex.normSq_eq_norm_sq, qpeAmplitude, inv_pow]
    simp only [hterm]
  · rintro k hk rfl
    refine ⟨?_, ?_⟩
    · rw [probability_qpe ht _ k hk, qpeAmplitude_exact hk hk]
      simp
    · intro key count hne
      have hvalue := binaryValue_of_probability ht hk hne
      simp only [countsWithEstimates, hvalue]
      rfl

-- Three eighths of a turn on three counting qubits.
theorem qpe_readout_eighths :
    (∀ k < 2 ^ 3, @probability 4 (fun _ _ _ => false)
      (buildQpeCircuit Real.pi ⟨2 * Real.pi * ((3 : ℕ) / 2 ^ 3)⟩ 3).gates
      (fun key => binaryValue key = .ok k) =
        ‖(2 : ℂ)⁻¹ ^ 3 * ∑ y ∈ Finset.range (2 ^ 3),
          Complex.exp (2 * Real.pi * Complex.I * y * (((3 : ℕ) / 2 ^ 3 : ℝ) - k / 2 ^ 3))‖ ^ 2) ∧
    @probability 4 (fun _ _ _ => false)
      (buildQpeCircuit Real.pi ⟨2 * Real.pi * ((3 : ℕ) / 2 ^ 3)⟩ 3).gates
      (fun key => binaryValue key = .ok 3) = 1 ∧
    ∀ key count, @probability 4 (fun _ _ _ => false)
        (buildQpeCircuit Real.pi ⟨2 * Real.pi * ((3 : ℕ) / 2 ^ 3)⟩ 3).gates
        (fun other => other = key) ≠ 0 →
      countsWithEstimates 3 [(key, count)] = .ok [(key,
        .obj [("count", .int count), ("phi_estimate", .float (((3 : ℕ) : ℚ) / 2 ^ 3))])] := by
  obtain ⟨hlaw, hexact⟩ := qpe_readout 3 (by decide) (fun _ _ _ => false) ((3 : ℕ) / 2 ^ 3)
  exact ⟨hlaw, hexact 3 (by norm_num) rfl⟩

end distribution

end QuantumPlatform.Orchestrator

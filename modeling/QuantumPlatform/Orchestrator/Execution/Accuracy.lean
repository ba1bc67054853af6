import QuantumPlatform.Core.PhaseEstimation.Accuracy
import QuantumPlatform.Orchestrator.Execution.Readout

namespace QuantumPlatform.Orchestrator

open Python Quantum QuantumPlatform.Core

variable {t : ℕ} {satisfies : String → List String → Basis (t + 1) → Bool}

open Classical in
-- An event of the values that are read out.
theorem probability_values (ht : 1 ≤ t) (φ : ℝ) (p : ℕ → Prop) :
    probability satisfies (buildQpeCircuit Real.pi ⟨2 * Real.pi * φ⟩ t).gates
        (fun key => ∃ k, binaryValue key = .ok k ∧ p k) =
      ∑ k ∈ (Finset.range (2 ^ t)).filter p, Complex.normSq (qpeAmplitude t φ k) := by
  have hdecode : ∀ y : Basis (t + 1), (∃ k, binaryValue (countsKey (measured (t + 1)
      (buildQpeCircuit Real.pi ⟨2 * Real.pi * φ⟩ t).gates) y) = .ok k ∧ p k) ↔ p (y.low t) := by
    intro y
    rw [measured_qpe, binaryValue_countsKey y ht]
    constructor
    · rintro ⟨k, hk, hp⟩
      rwa [Except.ok.inj hk]
    · intro hp
      exact ⟨_, rfl, hp⟩
  have hterm : ∀ y : Basis (t + 1), (if p (y.low t) then
      Complex.normSq (run satisfies (buildQpeCircuit Real.pi ⟨2 * Real.pi * φ⟩ t).gates
        (ket (Basis.ofNat (t + 1) 0)) y) else 0) =
      if y.bit t then (if p (y.low t) then Complex.normSq (qpeAmplitude t φ (y.low t)) else 0)
      else 0 := by
    intro y
    rw [run_qpe_circuit]
    by_cases hlow : p (y.low t)
    · cases hy : y.bit t <;> simp [hlow]
    · simp [hlow]
  rw [probability_eq_sum hdecode]
  simp only [hterm]
  rw [Basis.sum_last fun low => if p low then Complex.normSq (qpeAmplitude t φ low) else 0,
    Finset.sum_filter]

-- For every phase the nearest estimate is read out at least two times in five, and an estimate
-- that is off by more than so many steps as rarely as one likes.
theorem qpe_accurate (ht : 1 ≤ t) (satisfies : String → List String → Basis (t + 1) → Bool)
    (φ : ℝ) :
    (∃ k < 2 ^ t, |deviation t φ k| ≤ 1 / 2 ∧ 4 / Real.pi ^ 2 ≤
      probability satisfies (buildQpeCircuit Real.pi ⟨2 * Real.pi * φ⟩ t).gates
        (fun key => binaryValue key = .ok k)) ∧
    ∀ least : ℕ, 2 ≤ least →
      probability satisfies (buildQpeCircuit Real.pi ⟨2 * Real.pi * φ⟩ t).gates
        (fun key => ∃ k, binaryValue key = .ok k ∧ (least : ℝ) < |deviation t φ k|) ≤
          1 / (2 * (least - 1)) := by
  refine ⟨?_, fun least hleast => ?_⟩
  · obtain ⟨k, hk, hnear⟩ := exists_nearest t φ
    refine ⟨k, hk, hnear, ?_⟩
    have hamplitude := pow_le_pow_left₀ (by positivity) (le_norm_qpeAmplitude hnear) 2
    rw [probability_qpe ht φ k hk, Complex.normSq_eq_norm_sq]
    calc 4 / Real.pi ^ 2 = (2 / Real.pi) ^ 2 := by
          rw [div_pow]
          norm_num
      _ ≤ ‖qpeAmplitude t φ k‖ ^ 2 := hamplitude
  · rw [probability_values ht φ]
    have hbeyond := @sum_beyond_le t φ least hleast
    convert hbeyond

-- A third of a turn on four counting qubits.
theorem qpe_accurate_third : @probability 5 (fun _ _ _ => false)
    (buildQpeCircuit Real.pi ⟨2 * Real.pi * (1 / 3)⟩ 4).gates
    (fun key => ∃ k, binaryValue key = .ok k ∧ ((3 : ℕ) : ℝ) < |deviation 4 (1 / 3) k|) ≤
      1 / (2 * (((3 : ℕ) : ℝ) - 1)) :=
  (@qpe_accurate 4 (by decide) (fun _ _ _ => false) (1 / 3)).2 3 (by decide)

end QuantumPlatform.Orchestrator

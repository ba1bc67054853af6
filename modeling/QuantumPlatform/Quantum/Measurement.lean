import QuantumPlatform.Quantum.Observables
import Mathlib

namespace QuantumPlatform.Quantum

open MeasureTheory

variable {n : ℕ}

-- The law of the outcome when every qubit of a state is measured.
noncomputable def outcomes (ψ : State n) : Measure (Basis n) :=
  ∑ y, ENNReal.ofReal (Complex.normSq (ψ y)) • Measure.dirac y

theorem outcomes_singleton (ψ : State n) (y : Basis n) :
    outcomes ψ {y} = ENNReal.ofReal (Complex.normSq (ψ y)) := by
  unfold outcomes
  rw [Measure.finsetSum_apply, Finset.sum_eq_single y]
  · simp
  · intro other _ hne
    simp [hne]
  · intro habsent
    exact absurd (Finset.mem_univ y) habsent

theorem outcomes_real_singleton (ψ : State n) (y : Basis n) :
    (outcomes ψ).real {y} = Complex.normSq (ψ y) := by
  rw [measureReal_def, outcomes_singleton, ENNReal.toReal_ofReal (Complex.normSq_nonneg _)]

theorem outcomes_isProbabilityMeasure {ψ : State n} (hnorm : braket ψ ψ = 1) :
    IsProbabilityMeasure (outcomes ψ) := by
  have hsum : ∑ y, Complex.normSq (ψ y) = 1 := by
    rw [braket_self] at hnorm
    exact_mod_cast hnorm
  constructor
  rw [← Finset.coe_univ, ← sum_measure_singleton]
  simp only [outcomes_singleton]
  rw [← ENNReal.ofReal_sum_of_nonneg fun y _ => Complex.normSq_nonneg _, hsum, ENNReal.ofReal_one]

-- The mean of a number that the outcome determines.
theorem integral_outcomes {ψ : State n} (hnorm : braket ψ ψ = 1) (value : Basis n → ℝ) :
    ∫ y, value y ∂outcomes ψ = ∑ y, Complex.normSq (ψ y) * value y := by
  have hprobability := outcomes_isProbabilityMeasure hnorm
  rw [integral_fintype (Integrable.of_finite)]
  exact Finset.sum_congr rfl fun y _ => by rw [outcomes_real_singleton, smul_eq_mul]

end QuantumPlatform.Quantum

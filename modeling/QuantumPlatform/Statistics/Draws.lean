import Mathlib.Probability.Moments.SubGaussian

namespace QuantumPlatform.Statistics

open MeasureTheory ProbabilityTheory

section draws

-- Several independent draws, each of its own law, and a bounded value of each.
variable {ι α : Type} [Fintype ι] [MeasurableSpace α] {law : ι → Measure α}
  [∀ i, IsProbabilityMeasure (law i)] {value : ι → α → ℝ} {bound : ι → ℝ}
  (hvalue : ∀ i, Measurable (value i)) (hbound : ∀ i a, |value i a| ≤ bound i)

include hvalue

theorem integral_draw (i : ι) :
    ∫ drawn, value i (drawn i) ∂Measure.pi law = ∫ a, value i a ∂law i := by
  have heval := measurePreserving_eval law i
  rw [← heval.map_eq, integral_map heval.measurable.aemeasurable (hvalue i).aestronglyMeasurable]

include hbound

-- The mean of the sum is the sum of the means.
theorem integral_draws :
    ∫ drawn, ∑ i, value i (drawn i) ∂Measure.pi law = ∑ i, ∫ a, value i a ∂law i := by
  rw [integral_finsetSum]
  · exact Finset.sum_congr rfl fun i _ => integral_draw hvalue i
  · intro i _
    have hintegrable : Integrable (value i) (law i) :=
      Integrable.of_mem_Icc (-bound i) (bound i) (hvalue i).aemeasurable
        (ae_of_all _ fun a => abs_le.mp (hbound i a))
    exact (measurePreserving_eval law i).integrable_comp_of_integrable hintegrable

-- How far above its mean the sum of the values is likely to be.
theorem draws_above {ε : ℝ} (hε : 0 ≤ ε) :
    (Measure.pi law).real
        {drawn | ε ≤ ∑ i, value i (drawn i) - ∑ i, ∫ a, value i a ∂law i} ≤
      Real.exp (-ε ^ 2 / (2 * ∑ i, bound i ^ 2)) := by
  have hindependent : iIndepFun (fun i drawn => value i (drawn i) - ∫ a, value i a ∂law i)
      (Measure.pi law) :=
    @iIndepFun_pi _ _ _ _ law _ _ _ (fun i a => value i a - ∫ a, value i a ∂law i)
      fun i => ((hvalue i).sub_const _).aemeasurable
  have hsubgaussian : ∀ i ∈ Finset.univ, HasSubgaussianMGF
      (fun drawn => value i (drawn i) - ∫ a, value i a ∂law i)
      ((‖bound i - -bound i‖₊ / 2) ^ 2) (Measure.pi law) := by
    intro i _
    have hmeasurable : Measurable fun drawn : ι → α => value i (drawn i) :=
      (hvalue i).comp (measurable_pi_apply i)
    have hcentred := @hasSubgaussianMGF_of_mem_Icc _ _ (Measure.pi law)
      (fun drawn => value i (drawn i)) _ (-bound i) (bound i) hmeasurable.aemeasurable
      (ae_of_all _ fun drawn => abs_le.mp (hbound i (drawn i)))
    rwa [integral_draw hvalue i] at hcentred
  have hscale : ((∑ i, (‖bound i - -bound i‖₊ / 2) ^ 2 : NNReal) : ℝ) = ∑ i, bound i ^ 2 := by
    push_cast
    refine Finset.sum_congr rfl fun i _ => ?_
    have hdouble : bound i - -bound i = 2 * bound i := by ring
    rw [hdouble, norm_mul, Real.norm_ofNat, mul_div_cancel_left₀ _ two_ne_zero, Real.norm_eq_abs,
      sq_abs]
  have htail := HasSubgaussianMGF.measure_sum_ge_le_of_iIndepFun hindependent hsubgaussian hε
  simp only [Finset.sum_sub_distrib, hscale] at htail
  exact htail

-- How far below.
theorem draws_below {ε : ℝ} (hε : 0 ≤ ε) :
    (Measure.pi law).real
        {drawn | ∑ i, value i (drawn i) ≤ ∑ i, ∫ a, value i a ∂law i - ε} ≤
      Real.exp (-ε ^ 2 / (2 * ∑ i, bound i ^ 2)) := by
  have hopposite := @draws_above _ _ _ _ law _ (fun i a => -value i a) bound
    (fun i => (hvalue i).neg) (fun i a => (abs_neg _).trans_le (hbound i a)) ε hε
  simp only [integral_neg, Finset.sum_neg_distrib] at hopposite
  refine le_trans (le_of_eq (congrArg _ (Set.ext fun drawn => ?_))) hopposite
  rw [Set.mem_ofPred_eq, Set.mem_ofPred_eq]
  constructor
  · intro h
    linarith
  · intro h
    linarith

-- How far away.
theorem draws_far {ε : ℝ} (hε : 0 ≤ ε) :
    (Measure.pi law).real
        {drawn | ε ≤ |∑ i, value i (drawn i) - ∑ i, ∫ a, value i a ∂law i|} ≤
      2 * Real.exp (-ε ^ 2 / (2 * ∑ i, bound i ^ 2)) := by
  have hcover : {drawn : ι → α | ε ≤ |∑ i, value i (drawn i) - ∑ i, ∫ a, value i a ∂law i|} ⊆
      {drawn | ε ≤ ∑ i, value i (drawn i) - ∑ i, ∫ a, value i a ∂law i} ∪
        {drawn | ∑ i, value i (drawn i) ≤ ∑ i, ∫ a, value i a ∂law i - ε} := by
    intro drawn hfar
    rw [Set.mem_union, Set.mem_ofPred_eq, Set.mem_ofPred_eq]
    rcases le_abs.mp (Set.mem_ofPred_eq ▸ hfar) with habove | hbelow
    · exact .inl habove
    · refine .inr ?_
      linarith
  calc (Measure.pi law).real _
    _ ≤ _ := measureReal_mono hcover
    _ ≤ _ := measureReal_union_le _ _
    _ ≤ _ := add_le_add (draws_above hvalue hbound hε) (draws_below hvalue hbound hε)
    _ = _ := (two_mul _).symm

end draws

end QuantumPlatform.Statistics

import QuantumPlatform.Statistics.Deviations
import QuantumPlatform.Stream.Drift
import Mathlib.Analysis.Real.Sqrt

namespace QuantumPlatform.Stream

open Statistics

-- Nothing to measure a spread by.
def Flat {𝕂 : Type} (values : List 𝕂) : Prop :=
  values.length < 2 ∨ ∀ first ∈ values, ∀ second ∈ values, first = second

-- Two values that differ are enough, in any list that has them.
theorem Flat.of_subset {𝕂 : Type} {values later : List 𝕂} (h : Flat later)
    (hsubset : values ⊆ later) : Flat values := by
  have hall : ∀ first ∈ later, ∀ second ∈ later, first = second := by
    rcases h with hshort | hall
    · intro first hfirst second hsecond
      match later, hshort, hfirst, hsecond with
      | [only], _, hfirst, hsecond =>
          exact (List.mem_singleton.mp hfirst).trans (List.mem_singleton.mp hsecond).symm
    · exact hall
  exact .inr fun first hfirst second hsecond =>
    hall first (hsubset hfirst) second (hsubset hsecond)

variable {𝕂 : Type} [Field 𝕂] [LinearOrder 𝕂]

-- The statistics of a series of samples.
def welford (values : List 𝕂) : WelfordStats 𝕂 :=
  values.foldl WelfordStats.update {}

-- The sample variance in two passes: first the mean, then the deviations from it.
def sampleVariance (values : List 𝕂) : 𝕂 :=
  if values.length < 2 then 0
  else deviations (values.sum / values.length) values / (values.length - 1)

omit [LinearOrder 𝕂] in
theorem welford_concat (values : List 𝕂) (value : 𝕂) :
    welford (values ++ [value]) = (welford values).update value := by
  simp [welford]

-- The three fields, as the fold keeps them.
structure Summarises (stats : WelfordStats 𝕂) (values : List 𝕂) : Prop where
  count : stats.count = values.length
  mean : IsMean stats.mean values
  m2 : stats.m2 = deviations stats.mean values

section fold

omit [LinearOrder 𝕂]
variable [CharZero 𝕂]

theorem Summarises.update {stats : WelfordStats 𝕂} {values : List 𝕂} (h : Summarises stats values)
    (value : 𝕂) : Summarises (stats.update value) (values ++ [value]) := by
  have hmean : IsMean (stats.update value).mean (values ++ [value]) := by
    simp only [WelfordStats.update, h.count]
    exact h.mean.concat value
  refine ⟨?_, hmean, ?_⟩
  · simp [WelfordStats.update, h.count]
  · rw [deviations_concat h.mean hmean, ← h.m2]
    rfl

theorem welford_summarises (values : List 𝕂) : Summarises (welford values) values := by
  induction values using List.reverseRecOn with
  | nil => exact ⟨rfl, by simp [IsMean], rfl⟩
  | append_singleton values value ih =>
      rw [welford_concat]
      exact ih.update value

theorem welford_mean (values : List 𝕂) : (welford values).mean = values.sum / values.length := by
  by_cases hne : values = []
  · subst hne
    simp [welford]
  · exact (isMean_iff hne).mp (welford_summarises values).mean

theorem welford_variance (values : List 𝕂) : (welford values).variance = sampleVariance values := by
  have h := welford_summarises values
  unfold WelfordStats.variance sampleVariance
  rw [h.count, h.m2, welford_mean]
  rfl

theorem welford_perm {first second : List 𝕂} (h : first.Perm second) :
    welford first = welford second := by
  have hfirst := welford_summarises first
  have hsecond := welford_summarises second
  have hmean : (welford first).mean = (welford second).mean := by
    rw [welford_mean, welford_mean, h.sum_eq, h.length_eq]
  have hcount : (welford first).count = (welford second).count := by
    rw [hfirst.count, hsecond.count, h.length_eq]
  have hm2 : (welford first).m2 = (welford second).m2 := by
    rw [hfirst.m2, hsecond.m2, hmean]
    exact (h.map _).sum_eq
  cases hleft : welford first with
  | mk count mean m2 => simp_all

end fold

section order

variable [IsStrictOrderedRing 𝕂] (values : List 𝕂)

theorem sampleVariance_nonneg : 0 ≤ sampleVariance values := by
  unfold sampleVariance
  by_cases hshort : values.length < 2
  · rw [if_pos hshort]
  · rw [if_neg hshort]
    have hlength : (1 : 𝕂) ≤ values.length := by
      exact_mod_cast (by omega : 1 ≤ values.length)
    exact div_nonneg (deviations_nonneg _ _) (sub_nonneg.mpr hlength)

theorem sampleVariance_eq_zero_iff : sampleVariance values = 0 ↔ Flat values := by
  unfold sampleVariance Flat
  by_cases hshort : values.length < 2
  · rw [if_pos hshort]
    exact ⟨fun _ => .inl hshort, fun _ => rfl⟩
  · have hne : values ≠ [] := by
      rintro rfl
      exact hshort (by simp)
    have hlength : (values.length : 𝕂) - 1 ≠ 0 := by
      rw [sub_ne_zero]
      exact_mod_cast (by omega : values.length ≠ 1)
    rw [if_neg hshort, div_eq_zero_iff, or_iff_left hlength, deviations_eq_zero_iff,
      IsMean.forall_eq_iff ((isMean_iff hne).mpr rfl), or_iff_right hshort]

variable {values} {root : 𝕂 → 𝕂}

theorem zscore_eq_none_iff (hroot : ∀ x, 0 ≤ x → (root x = 0 ↔ x = 0)) (value : 𝕂) :
    (welford values).zscore root value = none ↔ Flat values := by
  have hcount : (welford values).count < MIN_SAMPLES_FOR_ZSCORE ↔ values.length < 2 := by
    rw [(welford_summarises values).count]
    rfl
  have hflat : ((welford values).count < MIN_SAMPLES_FOR_ZSCORE ∨
      (welford values).stddev root = 0) ↔ Flat values := by
    rw [WelfordStats.stddev, welford_variance, hroot _ (sampleVariance_nonneg values),
      sampleVariance_eq_zero_iff, hcount]
    exact ⟨fun h => h.elim .inl id, .inr⟩
  by_cases h : Flat values
  · simp only [WelfordStats.zscore, hflat, h, if_true]
  · simp only [WelfordStats.zscore, hflat, h, if_false, reduceCtorEq]

theorem zscore_eq_some (hroot : ∀ x, 0 ≤ x → (root x = 0 ↔ x = 0)) (h : ¬Flat values)
    (value : 𝕂) : (welford values).zscore root value =
      some ((value - values.sum / values.length) / root (sampleVariance values)) := by
  have hdefined : (welford values).zscore root value ≠ none := by
    rwa [Ne, zscore_eq_none_iff hroot]
  simp only [WelfordStats.zscore] at hdefined ⊢
  split_ifs at hdefined ⊢ with hflat
  · exact absurd rfl hdefined
  · rw [WelfordStats.stddev, welford_variance, welford_mean]

end order

structure WelfordLaw (root : 𝕂 → 𝕂) (values : List 𝕂) : Prop where
  count : (welford values).count = values.length
  mean : (welford values).mean = values.sum / values.length
  m2 : (welford values).m2 = deviations (values.sum / values.length) values
  variance : (welford values).variance = sampleVariance values
  variance_nonneg : 0 ≤ (welford values).variance
  perm : ∀ other, values.Perm other → welford other = welford values
  zscore_none : ∀ value, (welford values).zscore root value = none ↔ Flat values
  zscore_stays : ∀ value, (welford values).zscore root value ≠ none →
    ∀ later, values ⊆ later → ∀ next, (welford later).zscore root next ≠ none
  zscore_some : ¬Flat values → ∀ value, (welford values).zscore root value =
    some ((value - values.sum / values.length) / root (sampleVariance values))

-- Whatever is used for the square root, as long as it is zero at zero only.
theorem welford_exact [IsStrictOrderedRing 𝕂] (root : 𝕂 → 𝕂)
    (hroot : ∀ x, 0 ≤ x → (root x = 0 ↔ x = 0)) (values : List 𝕂) : WelfordLaw root values where
  count := (welford_summarises values).count
  mean := welford_mean values
  m2 := by rw [(welford_summarises values).m2, welford_mean]
  variance := welford_variance values
  variance_nonneg := by
    rw [welford_variance]
    exact sampleVariance_nonneg values
  perm := fun _ hperm => (welford_perm hperm).symm
  zscore_none := zscore_eq_none_iff hroot
  zscore_stays := by
    intro value hvalue later hsubset next
    rw [Ne, zscore_eq_none_iff hroot] at hvalue ⊢
    exact fun hflat => hvalue (hflat.of_subset hsubset)
  zscore_some := zscore_eq_some hroot

theorem welford_exact_sqrt : WelfordLaw Real.sqrt [1, 2, 4] :=
  welford_exact Real.sqrt (fun _ hx => Real.sqrt_eq_zero hx) [1, 2, 4]

end QuantumPlatform.Stream

import Mathlib.Algebra.BigOperators.Group.List.Basic
import Mathlib.Algebra.Order.BigOperators.Group.List
import Mathlib.Algebra.Order.Field.Basic
import Mathlib.Tactic.LinearCombination
import Mathlib.Tactic.Ring

namespace QuantumPlatform.Statistics

section ring

variable {𝕂 : Type} [CommRing 𝕂]

-- The arithmetic mean, without a division. Of no values, everything is a mean.
def IsMean (center : 𝕂) (values : List 𝕂) : Prop := center * values.length = values.sum

-- The sum of the squared deviations from a centre.
def deviations (center : 𝕂) (values : List 𝕂) : 𝕂 :=
  (values.map fun value => (value - center) * (value - center)).sum

@[simp] theorem deviations_nil (center : 𝕂) : deviations center [] = 0 := rfl

@[simp] theorem deviations_cons (center value : 𝕂) (values : List 𝕂) :
    deviations center (value :: values) =
      (value - center) * (value - center) + deviations center values := by
  simp [deviations]

theorem deviations_append (center : 𝕂) (first second : List 𝕂) :
    deviations center (first ++ second) = deviations center first + deviations center second := by
  simp [deviations]

-- Away from the mean, every value deviates by the distance to it once more.
theorem deviations_eq_add {center : 𝕂} {values : List 𝕂} (h : IsMean center values) (other : 𝕂) :
    deviations other values =
      deviations center values + values.length * ((center - other) * (center - other)) := by
  have hexpand : deviations other values = deviations center values +
      2 * (center - other) * (values.sum - center * values.length) +
      values.length * ((center - other) * (center - other)) := by
    clear h
    induction values with
    | nil => simp
    | cons value values ih =>
        simp only [deviations_cons, ih, List.sum_cons, List.length_cons, Nat.cast_add, Nat.cast_one]
        ring
  have hsum : center * values.length = values.sum := h
  rw [hexpand, ← hsum]
  ring

-- One more value adds the product of its deviations from the mean before and after it.
theorem deviations_concat {before after value : 𝕂} {values : List 𝕂} (hbefore : IsMean before values)
    (hafter : IsMean after (values ++ [value])) :
    deviations after (values ++ [value]) =
      deviations before values + (value - before) * (value - after) := by
  have hsum : after * (values.length + 1) = before * values.length + value := by
    have hold : before * values.length = values.sum := hbefore
    have hnew : after * ((values ++ [value]).length : 𝕂) = (values ++ [value]).sum := hafter
    rw [hold]
    simpa using hnew
  rw [deviations_append, deviations_eq_add hbefore]
  simp only [deviations_cons, deviations_nil, add_zero]
  linear_combination (after - before) * hsum

end ring

section field

variable {𝕂 : Type} [Field 𝕂]

theorem isMean_iff [CharZero 𝕂] {center : 𝕂} {values : List 𝕂} (hne : values ≠ []) :
    IsMean center values ↔ center = values.sum / values.length := by
  have hlength : (values.length : 𝕂) ≠ 0 := by
    simpa using hne
  rw [eq_div_iff hlength]
  rfl

-- The mean of one value more is off the old one by a share of the new value's deviation.
theorem IsMean.concat [CharZero 𝕂] {center : 𝕂} {values : List 𝕂} (h : IsMean center values)
    (value : 𝕂) :
    IsMean (center + (value - center) / (values.length + 1 : Nat)) (values ++ [value]) := by
  have hlength : ((values.length + 1 : Nat) : 𝕂) ≠ 0 := Nat.cast_ne_zero.mpr (Nat.succ_ne_zero _)
  have hsum : center * values.length = values.sum := h
  simp only [IsMean, List.length_append, List.length_singleton, List.sum_append, List.sum_singleton]
  rw [add_mul, div_mul_cancel₀ _ hlength, ← hsum]
  push_cast
  ring

end field

section order

variable {𝕂 : Type} [CommRing 𝕂] [LinearOrder 𝕂] [IsStrictOrderedRing 𝕂] {center : 𝕂}
  {values : List 𝕂}

theorem deviations_nonneg (center : 𝕂) (values : List 𝕂) : 0 ≤ deviations center values := by
  refine List.sum_nonneg fun square hmem => ?_
  obtain ⟨value, -, rfl⟩ := List.mem_map.mp hmem
  exact mul_self_nonneg _

theorem deviations_eq_zero_iff : deviations center values = 0 ↔ ∀ value ∈ values, value = center := by
  induction values with
  | nil => simp
  | cons value values ih =>
      rw [deviations_cons, add_eq_zero_iff_of_nonneg (mul_self_nonneg _) (deviations_nonneg _ _), ih,
        mul_self_eq_zero, sub_eq_zero, List.forall_mem_cons]

-- The values are at their mean when there is nothing between them.
theorem IsMean.forall_eq_iff (h : IsMean center values) :
    (∀ value ∈ values, value = center) ↔ ∀ first ∈ values, ∀ second ∈ values, first = second := by
  constructor
  · intro heq first hfirst second hsecond
    exact (heq first hfirst).trans (heq second hsecond).symm
  · intro heq value hvalue
    have hconst : values = List.replicate values.length value :=
      List.eq_replicate_iff.mpr ⟨rfl, fun other hother => heq other hother value hvalue⟩
    have hsum : center * values.length = value * values.length := by
      have hmean : center * values.length = values.sum := h
      rw [hmean]
      conv_lhs => rw [hconst]
      rw [List.sum_replicate, nsmul_eq_mul, mul_comm]
    have hlength : (values.length : 𝕂) ≠ 0 :=
      Nat.cast_ne_zero.mpr (List.length_pos_of_mem hvalue).ne'
    exact (mul_right_cancel₀ hlength hsum).symm

theorem IsMean.le_of_forall_le (h : IsMean center values) (hne : values ≠ []) {bound : 𝕂}
    (hle : ∀ value ∈ values, value ≤ bound) : center ≤ bound := by
  have hlength : (0 : 𝕂) < values.length := Nat.cast_pos.mpr (List.length_pos_iff.mpr hne)
  have hsum : values.sum ≤ values.length • bound := List.sum_le_card_nsmul _ _ hle
  have hmean : center * values.length = values.sum := h
  rw [nsmul_eq_mul, mul_comm, ← hmean] at hsum
  exact le_of_mul_le_mul_right hsum hlength

theorem IsMean.le_of_forall_ge (h : IsMean center values) (hne : values ≠ []) {bound : 𝕂}
    (hle : ∀ value ∈ values, bound ≤ value) : bound ≤ center := by
  have hlength : (0 : 𝕂) < values.length := Nat.cast_pos.mpr (List.length_pos_iff.mpr hne)
  have hsum : values.length • bound ≤ values.sum := List.card_nsmul_le_sum _ _ hle
  have hmean : center * values.length = values.sum := h
  rw [nsmul_eq_mul, mul_comm, ← hmean] at hsum
  exact le_of_mul_le_mul_right hsum hlength

end order

end QuantumPlatform.Statistics

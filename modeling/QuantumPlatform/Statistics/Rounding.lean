import Mathlib.Algebra.Order.BigOperators.Group.Multiset
import Mathlib.Algebra.Order.Field.Basic
import Mathlib.Tactic.Linarith
import Mathlib.Tactic.Positivity
import Mathlib.Tactic.Ring

namespace QuantumPlatform.Statistics

-- How a program adds numbers up and how it divides by a count.
structure Arithmetic (𝕂 : Type) where
  sum : List 𝕂 → 𝕂
  divide : 𝕂 → Nat → 𝕂

namespace Arithmetic

variable {𝕂 : Type}

def mean (arithmetic : Arithmetic 𝕂) (values : List 𝕂) : 𝕂 :=
  arithmetic.divide (arithmetic.sum values) values.length

def exact [Field 𝕂] : Arithmetic 𝕂 := ⟨List.sum, fun total count => total / count⟩

-- Every operation rounds its exact result; a sum goes from the left and starts at 0.
def rounded [Field 𝕂] (round : 𝕂 → 𝕂) : Arithmetic 𝕂 :=
  ⟨List.foldl (fun total value => round (total + value)) 0, fun total count => round (total / count)⟩

-- Binary64: the first addition is to the float 0, and the count is made a float to divide by it.
def float : Arithmetic Float :=
  ⟨List.foldl (· + ·) 0, fun total count => total / Float.ofNat count⟩

variable [Field 𝕂] [LinearOrder 𝕂] [IsStrictOrderedRing 𝕂] {round : 𝕂 → 𝕂} {unit : 𝕂}

theorem abs_sum_le (values : List 𝕂) : |values.sum| ≤ (values.map abs).sum := by
  simpa using Multiset.abs_sum_le_sum_abs (s := (values : Multiset 𝕂))

section bounds

variable (hround : ∀ value, |round value - value| ≤ unit * |value|)
include hround

theorem unit_nonneg : 0 ≤ unit := by
  have h := hround 1
  rw [abs_one, mul_one] at h
  exact (abs_nonneg _).trans h

-- One rounding after an error that is already there.
theorem round_error {computed true size excess : 𝕂} (hsize : |true| ≤ size)
    (herror : |computed - true| ≤ excess * size) :
    |round computed - true| ≤ ((1 + unit) * (1 + excess) - 1) * size := by
  have hunit := unit_nonneg hround
  have hcomputed : |computed| ≤ excess * size + size := by
    have htriangle := abs_add_le (computed - true) true
    rw [sub_add_cancel] at htriangle
    linarith
  calc |round computed - true|
      ≤ |round computed - computed| + |computed - true| := abs_sub_le _ _ _
    _ ≤ unit * (excess * size + size) + excess * size :=
        add_le_add ((hround computed).trans (mul_le_mul_of_nonneg_left hcomputed hunit)) herror
    _ = ((1 + unit) * (1 + excess) - 1) * size := by ring

-- The induction adds the last value: a sum has been rounded once for each of its values.
theorem rounded_sum_error (values : List 𝕂) :
    |(rounded round).sum values - values.sum| ≤
      ((1 + unit) ^ values.length - 1) * (values.map abs).sum := by
  have hunit := unit_nonneg hround
  induction values using List.reverseRecOn with
  | nil => simp [rounded]
  | append_singleton values value ih =>
      have hstep : (rounded round).sum (values ++ [value]) =
          round ((rounded round).sum values + value) := by
        simp [rounded]
      have hsize : |(values ++ [value]).sum| ≤ (values.map abs).sum + |value| := by
        rw [List.sum_append, List.sum_singleton]
        exact (abs_add_le _ _).trans (add_le_add_left (abs_sum_le values) _)
      have hpower : 0 ≤ (1 + unit) ^ values.length - 1 :=
        sub_nonneg.mpr (one_le_pow₀ (by linarith))
      have herror : |(rounded round).sum values + value - (values ++ [value]).sum| ≤
          ((1 + unit) ^ values.length - 1) * ((values.map abs).sum + |value|) := by
        rw [List.sum_append, List.sum_singleton, add_sub_add_right_eq_sub]
        refine ih.trans (mul_le_mul_of_nonneg_left ?_ hpower)
        linarith [abs_nonneg value]
      rw [hstep]
      refine (round_error hround hsize herror).trans_eq ?_
      rw [List.map_append, List.sum_append, List.length_append, List.length_singleton]
      simp only [List.map_cons, List.map_nil, List.sum_singleton]
      ring

theorem rounded_mean_error (values : List 𝕂) :
    |(rounded round).mean values - exact.mean values| ≤
      ((1 + unit) ^ (values.length + 1) - 1) * exact.mean (values.map abs) := by
  have hcount : (0 : 𝕂) ≤ values.length := Nat.cast_nonneg _
  have hsize : |values.sum / values.length| ≤ (values.map abs).sum / values.length := by
    rw [abs_div, abs_of_nonneg hcount]
    exact div_le_div_of_nonneg_right (abs_sum_le values) hcount
  have herror : |(rounded round).sum values / values.length - values.sum / values.length| ≤
      ((1 + unit) ^ values.length - 1) * ((values.map abs).sum / values.length) := by
    rw [← sub_div, abs_div, abs_of_nonneg hcount, mul_div_assoc']
    exact div_le_div_of_nonneg_right (rounded_sum_error hround values) hcount
  refine (round_error hround hsize herror).trans_eq ?_
  simp only [mean, exact, List.length_map]
  ring

end bounds

end Arithmetic

end QuantumPlatform.Statistics

import QuantumPlatform.Core.PhaseEstimation
import Mathlib.Analysis.PSeries
import Mathlib.Analysis.Real.Pi.Bounds
import Mathlib.Analysis.SpecialFunctions.Trigonometric.Bounds

namespace QuantumPlatform.Core

open Quantum

noncomputable section

section kernel

theorem norm_turn_sub_one (x : ℝ) : ‖turn x - 1‖ = 2 * |Real.sin (Real.pi * x)| := by
  have hturn : turn x = Complex.exp (Complex.I * (2 * Real.pi * x : ℝ)) := by
    unfold turn phaseFactor
    rw [mul_comm Complex.I]
  have hhalf : 2 * Real.pi * x / 2 = Real.pi * x := by ring
  rw [hturn, Complex.norm_exp_I_mul_ofReal_sub_one, hhalf, Real.norm_eq_abs, abs_mul,
    abs_of_pos two_pos]

-- The sum over all values of the register, as a ratio of sines without the division.
theorem norm_sum_turn (N : ℕ) (α : ℝ) :
    ‖∑ y ∈ Finset.range N, turn (y * α)‖ * |Real.sin (Real.pi * α)| =
      |Real.sin (Real.pi * (N * α))| := by
  have hpow : ∀ y : ℕ, turn (y * α) = turn α ^ y := fun y => turn_natCast_mul y α
  have hsum : (∑ y ∈ Finset.range N, turn (y * α)) * (turn α - 1) = turn (N * α) - 1 := by
    simp only [hpow]
    exact geom_sum_mul (turn α) N
  have hnorm := congrArg norm hsum
  rw [norm_mul, norm_turn_sub_one, norm_turn_sub_one] at hnorm
  linarith

end kernel

section deviation

variable {t : ℕ} {φ : ℝ}

-- How far the outcome is from the phase on the circle, in steps of the resolution.
def deviation (t : ℕ) (φ : ℝ) (k : ℕ) : ℝ :=
  2 ^ t * φ - k - 2 ^ t * round ((2 ^ t * φ - k) / 2 ^ t)

theorem abs_deviation_le (k : ℕ) (z : ℤ) :
    |deviation t φ k| ≤ |2 ^ t * φ - k - 2 ^ t * z| := by
  have hpow : (0 : ℝ) < 2 ^ t := by positivity
  have hscale : ∀ w : ℤ, |2 ^ t * φ - k - 2 ^ t * w| =
      2 ^ t * |(2 ^ t * φ - k) / 2 ^ t - w| := by
    intro w
    rw [← abs_of_pos hpow, ← abs_mul, abs_of_pos hpow]
    congr 1
    field_simp
  rw [deviation, hscale, hscale]
  exact mul_le_mul_of_nonneg_left (round_le _ z) hpow.le

-- Never more than half way round.
theorem abs_deviation_le_half (k : ℕ) : |deviation t φ k| ≤ 2 ^ t / 2 := by
  have hpow : (0 : ℝ) < 2 ^ t := by positivity
  have hscale : deviation t φ k =
      2 ^ t * ((2 ^ t * φ - k) / 2 ^ t - round ((2 ^ t * φ - k) / 2 ^ t)) := by
    unfold deviation
    field_simp
  have hround := abs_sub_round ((2 ^ t * φ - k) / 2 ^ t)
  rw [hscale, abs_mul, abs_of_pos hpow]
  have hscaled := mul_le_mul_of_nonneg_left hround hpow.le
  linarith

-- Some outcome is the nearest.
theorem exists_nearest (t : ℕ) (φ : ℝ) : ∃ k < 2 ^ t, |deviation t φ k| ≤ 1 / 2 := by
  let z := round (2 ^ t * φ)
  have hpow : (0 : ℤ) < 2 ^ t := by positivity
  have hmod := Int.emod_nonneg z hpow.ne'
  have hlt := Int.emod_lt_of_pos z hpow
  refine ⟨(z % 2 ^ t).toNat, ?_, ?_⟩
  · have hbound : ((z % 2 ^ t).toNat : ℤ) < ((2 ^ t : ℕ) : ℤ) := by
      rw [Int.toNat_of_nonneg hmod]
      push_cast
      exact hlt
    exact_mod_cast hbound
  · have hsplit : (z : ℝ) = (z % 2 ^ t).toNat + 2 ^ t * ((z / 2 ^ t : ℤ) : ℝ) := by
      have hint : z = ((z % 2 ^ t).toNat : ℤ) + 2 ^ t * (z / 2 ^ t) := by
        rw [Int.toNat_of_nonneg hmod]
        exact (Int.emod_add_mul_ediv z (2 ^ t)).symm
      have hcast := congrArg (Int.cast : ℤ → ℝ) hint
      push_cast at hcast ⊢
      exact hcast
    have hnear := abs_sub_round (2 ^ t * φ)
    have hangle : 2 ^ t * φ - (z % 2 ^ t).toNat - 2 ^ t * ((z / 2 ^ t : ℤ) : ℝ) =
        2 ^ t * φ - z := by
      rw [hsplit]
      ring
    have hdeviation := @abs_deviation_le t φ (z % 2 ^ t).toNat (z / 2 ^ t)
    rw [hangle] at hdeviation
    exact hdeviation.trans hnear

theorem norm_qpeAmplitude (k : ℕ) :
    2 ^ t * ‖qpeAmplitude t φ k‖ * |Real.sin (Real.pi * (deviation t φ k / 2 ^ t))| =
      |Real.sin (Real.pi * deviation t φ k)| := by
  have hpow : (2 : ℝ) ^ t ≠ 0 := by positivity
  have hangle : φ - k / 2 ^ t =
      deviation t φ k / 2 ^ t + round ((2 ^ t * φ - k) / 2 ^ t) := by
    unfold deviation
    field_simp
    ring
  have hturn : ∀ y : ℕ, turn (y * (φ - k / 2 ^ t)) = turn (y * (deviation t φ k / 2 ^ t)) := by
    intro y
    have hsplit : (y : ℝ) * (φ - k / 2 ^ t) = y * (deviation t φ k / 2 ^ t) +
        ((y * round ((2 ^ t * φ - k) / 2 ^ t) : ℤ) : ℝ) := by
      rw [hangle]
      push_cast
      ring
    rw [hsplit, turn_add, turn_int, mul_one]
  have hsum := norm_sum_turn (2 ^ t) (deviation t φ k / 2 ^ t)
  have hcast : ((2 ^ t : ℕ) : ℝ) * (deviation t φ k / 2 ^ t) = deviation t φ k := by
    push_cast
    field_simp
  rw [hcast] at hsum
  have hscale : 2 ^ t * ‖qpeAmplitude t φ k‖ =
      ‖∑ y ∈ Finset.range (2 ^ t), turn (y * (deviation t φ k / 2 ^ t))‖ := by
    unfold qpeAmplitude
    simp only [hturn]
    rw [norm_mul, norm_inv, norm_pow, Complex.norm_ofNat, mul_inv_cancel_left₀ hpow]
  rw [hscale, hsum]

-- The amplitude of the nearest outcome.
theorem le_norm_qpeAmplitude {k : ℕ} (h : |deviation t φ k| ≤ 1 / 2) :
    2 / Real.pi ≤ ‖qpeAmplitude t φ k‖ := by
  have hpi := Real.pi_pos
  have hpow : (0 : ℝ) < 2 ^ t := by positivity
  have hratio := @norm_qpeAmplitude t φ k
  by_cases hzero : deviation t φ k = 0
  · -- the phase is the one that the outcome spells
    have hone : qpeAmplitude t φ k = 1 := by
      have hangle : ∀ y : ℕ, (y : ℝ) * (φ - k / 2 ^ t) =
          ((y * round ((2 ^ t * φ - k) / 2 ^ t) : ℤ) : ℝ) := by
        intro y
        have hphase : φ - k / 2 ^ t = round ((2 ^ t * φ - k) / 2 ^ t) := by
          have hsplit : 2 ^ t * (φ - k / 2 ^ t) =
              2 ^ t * (round ((2 ^ t * φ - k) / 2 ^ t) : ℝ) := by
            have hcancel : (2 : ℝ) ^ t * (k / 2 ^ t) = k := by field_simp
            unfold deviation at hzero
            rw [mul_sub, hcancel]
            linarith
          exact mul_left_cancel₀ hpow.ne' hsplit
        rw [hphase]
        push_cast
        rfl
      unfold qpeAmplitude
      simp only [hangle, turn_int, Finset.sum_const, Finset.card_range, nsmul_eq_mul, mul_one]
      push_cast
      exact inv_mul_cancel₀ (pow_ne_zero t two_ne_zero)
    rw [hone, norm_one, div_le_one hpi]
    linarith [Real.pi_gt_three]
  · have habs : 0 < |deviation t φ k| := abs_pos.mpr hzero
    have hjordan : 2 * |deviation t φ k| ≤ |Real.sin (Real.pi * deviation t φ k)| := by
      have hrange : |Real.pi * deviation t φ k| ≤ Real.pi / 2 := by
        rw [abs_mul, abs_of_pos hpi]
        have hscaled := mul_le_mul_of_nonneg_left h hpi.le
        linarith
      have hsin := Real.mul_abs_le_abs_sin hrange
      rw [abs_mul, abs_of_pos hpi, ← mul_assoc, div_mul_cancel₀ _ hpi.ne'] at hsin
      exact hsin
    have hsmall : |Real.sin (Real.pi * (deviation t φ k / 2 ^ t))| ≤
        Real.pi * (|deviation t φ k| / 2 ^ t) := by
      refine Real.abs_sin_le_abs.trans_eq ?_
      rw [abs_mul, abs_of_pos hpi, abs_div, abs_of_pos hpow]
    have hproduct : 2 * |deviation t φ k| ≤
        2 ^ t * ‖qpeAmplitude t φ k‖ * (Real.pi * (|deviation t φ k| / 2 ^ t)) := by
      rw [← hratio] at hjordan
      exact hjordan.trans (mul_le_mul_of_nonneg_left hsmall (by positivity))
    have hcancel : 2 ^ t * ‖qpeAmplitude t φ k‖ * (Real.pi * (|deviation t φ k| / 2 ^ t)) =
        ‖qpeAmplitude t φ k‖ * Real.pi * |deviation t φ k| := by
      field_simp
    rw [hcancel] at hproduct
    rw [div_le_iff₀ hpi]
    exact le_of_mul_le_mul_right hproduct habs

-- The amplitude of any other falls off with its distance.
theorem norm_qpeAmplitude_le {k : ℕ} (h : 0 < |deviation t φ k|) :
    ‖qpeAmplitude t φ k‖ ≤ 1 / (2 * |deviation t φ k|) := by
  have hpi := Real.pi_pos
  have hpow : (0 : ℝ) < 2 ^ t := by positivity
  have hratio := @norm_qpeAmplitude t φ k
  have hhalf := @abs_deviation_le_half t φ k
  have hjordan : 2 * |deviation t φ k| / 2 ^ t ≤
      |Real.sin (Real.pi * (deviation t φ k / 2 ^ t))| := by
    have habs : |Real.pi * (deviation t φ k / 2 ^ t)| = Real.pi * (|deviation t φ k| / 2 ^ t) := by
      rw [abs_mul, abs_of_pos hpi, abs_div, abs_of_pos hpow]
    have hrange : |Real.pi * (deviation t φ k / 2 ^ t)| ≤ Real.pi / 2 := by
      have hshare : |deviation t φ k| / 2 ^ t ≤ 1 / 2 := by
        rw [div_le_iff₀ hpow]
        linarith
      rw [habs]
      have hscaled := mul_le_mul_of_nonneg_left hshare hpi.le
      linarith
    have hsin := Real.mul_abs_le_abs_sin hrange
    rw [habs, ← mul_assoc, div_mul_cancel₀ _ hpi.ne'] at hsin
    rwa [mul_div_assoc]
  have hone : |Real.sin (Real.pi * deviation t φ k)| ≤ 1 := Real.abs_sin_le_one _
  have hproduct : 2 ^ t * ‖qpeAmplitude t φ k‖ * (2 * |deviation t φ k| / 2 ^ t) ≤ 1 := by
    rw [← hratio] at hone
    exact (mul_le_mul_of_nonneg_left hjordan (by positivity)).trans hone
  have hcancel : 2 ^ t * ‖qpeAmplitude t φ k‖ * (2 * |deviation t φ k| / 2 ^ t) =
      ‖qpeAmplitude t φ k‖ * (2 * |deviation t φ k|) := by
    field_simp
  rw [le_div_iff₀ (by linarith), ← hcancel]
  exact hproduct

end deviation

section tail

variable {t : ℕ} {φ : ℝ}

theorem sum_inv_sq_le {least : ℕ} (hleast : 2 ≤ least) (most : ℕ) :
    ∑ j ∈ Finset.Ico least most, ((j : ℝ) ^ 2)⁻¹ ≤ 1 / (least - 1) := by
  have hpositive : (0 : ℝ) < least - 1 := by
    have hcast : (2 : ℝ) ≤ least := by exact_mod_cast hleast
    linarith
  by_cases hmost : most ≤ least
  · rw [Finset.Ico_eq_empty (by omega), Finset.sum_empty]
    positivity
  · have hrange : Finset.Ico least most = Finset.Ioc (least - 1) (most - 1) := by
      ext j
      simp only [Finset.mem_Ico, Finset.mem_Ioc]
      omega
    have hsum := @sum_Ioc_inv_sq_le_sub ℝ _ _ _ (least - 1) (most - 1) (by omega) (by omega)
    have hcast : ((least - 1 : ℕ) : ℝ) = least - 1 := by
      rw [Nat.cast_sub (by omega), Nat.cast_one]
    have hnonneg : (0 : ℝ) ≤ (((most - 1 : ℕ) : ℝ))⁻¹ := by positivity
    rw [hrange, one_div, ← hcast]
    linarith

-- Two outcomes are at least a step apart.
theorem eq_of_deviation_near {k l : ℕ} (hk : k < 2 ^ t) (hl : l < 2 ^ t)
    (h : |deviation t φ k - deviation t φ l| < 1) : k = l := by
  let turns : ℤ := round ((2 ^ t * φ - l) / 2 ^ t) - round ((2 ^ t * φ - k) / 2 ^ t)
  let steps : ℤ := l - k + 2 ^ t * turns
  have hsteps : deviation t φ k - deviation t φ l = steps := by
    simp only [deviation, steps, turns]
    push_cast
    ring
  have hzero : steps = 0 := by
    rw [hsteps] at h
    exact Int.abs_lt_one_iff.mp (by exact_mod_cast h)
  have hdivides : (2 ^ t : ℤ) ∣ l - k := ⟨-turns, by simp only [steps] at hzero; linarith⟩
  have hbound : |(l : ℤ) - k| < 2 ^ t := by
    have hk' : (k : ℤ) < 2 ^ t := by exact_mod_cast hk
    have hl' : (l : ℤ) < 2 ^ t := by exact_mod_cast hl
    rw [abs_lt]
    constructor
    · omega
    · omega
  have hsame := Int.eq_zero_of_abs_lt_dvd hdivides hbound
  omega

-- The outcomes that are off to one side by more than so many steps.
theorem sum_side_le {sign : ℝ} (hsign : IsSign sign) {least : ℕ} (hleast : 2 ≤ least) :
    ∑ k ∈ (Finset.range (2 ^ t)).filter (fun k => (least : ℝ) < sign * deviation t φ k),
      Complex.normSq (qpeAmplitude t φ k) ≤ 1 / (4 * (least - 1)) := by
  let side := (Finset.range (2 ^ t)).filter fun k => (least : ℝ) < sign * deviation t φ k
  let steps := fun k => ⌊sign * deviation t φ k⌋₊
  have habs : ∀ x : ℝ, |sign * x| = |x| := by
    intro x
    rcases hsign with rfl | rfl
    · rw [one_mul]
    · rw [neg_one_mul, abs_neg]
  have hside : ∀ k ∈ side, k < 2 ^ t ∧ (least : ℝ) < sign * deviation t φ k := by
    intro k hk
    have hmem := Finset.mem_filter.mp hk
    exact ⟨Finset.mem_range.mp hmem.1, hmem.2⟩
  have hleast' : (2 : ℝ) ≤ least := by exact_mod_cast hleast
  have hterm : ∀ k ∈ side, Complex.normSq (qpeAmplitude t φ k) ≤
      1 / 4 * ((steps k : ℝ) ^ 2)⁻¹ := by
    intro k hk
    obtain ⟨-, hfar⟩ := hside k hk
    have hpositive : 0 < sign * deviation t φ k := by linarith
    have hdistance : |deviation t φ k| = sign * deviation t φ k := by
      rw [← habs, abs_of_pos hpositive]
    have hfloor : (steps k : ℝ) ≤ |deviation t φ k| := by
      rw [hdistance]
      exact Nat.floor_le hpositive.le
    have hsteps : 0 < steps k := Nat.floor_pos.mpr (by linarith)
    have hcast : (0 : ℝ) < steps k := by exact_mod_cast hsteps
    have hamplitude := @norm_qpeAmplitude_le t φ k (by linarith)
    have hbound : ‖qpeAmplitude t φ k‖ ≤ 1 / (2 * steps k) :=
      hamplitude.trans (one_div_le_one_div_of_le (by linarith) (by linarith))
    have hsquare := pow_le_pow_left₀ (norm_nonneg _) hbound 2
    rw [Complex.normSq_eq_norm_sq]
    refine hsquare.trans_eq ?_
    field_simp
    norm_num
  have hinjective : ∀ k ∈ side, ∀ l ∈ side, steps k = steps l → k = l := by
    intro k hk l hl hsame
    obtain ⟨hk, hfark⟩ := hside k hk
    obtain ⟨hl, hfarl⟩ := hside l hl
    refine @eq_of_deviation_near t φ k l hk hl ?_
    have hnear : |sign * deviation t φ k - sign * deviation t φ l| < 1 := by
      have hfloork : (steps k : ℝ) ≤ sign * deviation t φ k := Nat.floor_le (by linarith)
      have hfloorl : (steps l : ℝ) ≤ sign * deviation t φ l := Nat.floor_le (by linarith)
      have hnextk : sign * deviation t φ k < steps k + 1 := Nat.lt_floor_add_one _
      have hnextl : sign * deviation t φ l < steps l + 1 := Nat.lt_floor_add_one _
      rw [hsame] at hfloork hnextk
      rw [abs_lt]
      constructor
      · linarith
      · linarith
    rwa [← mul_sub, habs] at hnear
  have himage : side.image steps ⊆ Finset.Ico least (2 ^ t + 1) := by
    intro j hj
    obtain ⟨k, hk, rfl⟩ := Finset.mem_image.mp hj
    obtain ⟨-, hfar⟩ := hside k hk
    have hhalf := @abs_deviation_le_half t φ k
    have hpow : (0 : ℝ) < 2 ^ t := by positivity
    rw [← habs] at hhalf
    have hmost : sign * deviation t φ k < (2 ^ t + 1 : ℕ) := by
      push_cast
      linarith [le_abs_self (sign * deviation t φ k)]
    exact Finset.mem_Ico.mpr ⟨Nat.le_floor hfar.le, (Nat.floor_lt (by linarith)).mpr hmost⟩
  calc ∑ k ∈ side, Complex.normSq (qpeAmplitude t φ k)
      ≤ ∑ k ∈ side, 1 / 4 * ((steps k : ℝ) ^ 2)⁻¹ := Finset.sum_le_sum hterm
    _ = ∑ j ∈ side.image steps, 1 / 4 * ((j : ℝ) ^ 2)⁻¹ :=
        (Finset.sum_image (f := fun j : ℕ => 1 / 4 * ((j : ℝ) ^ 2)⁻¹) hinjective).symm
    _ ≤ ∑ j ∈ Finset.Ico least (2 ^ t + 1), 1 / 4 * ((j : ℝ) ^ 2)⁻¹ :=
        Finset.sum_le_sum_of_subset_of_nonneg himage fun j _ _ => by positivity
    _ = 1 / 4 * ∑ j ∈ Finset.Ico least (2 ^ t + 1), ((j : ℝ) ^ 2)⁻¹ := by rw [Finset.mul_sum]
    _ ≤ 1 / 4 * (1 / (least - 1)) :=
        mul_le_mul_of_nonneg_left (sum_inv_sq_le hleast _) (by norm_num)
    _ = 1 / (4 * (least - 1)) := by rw [one_div_mul_one_div]

theorem sum_beyond_le {least : ℕ} (hleast : 2 ≤ least) :
    ∑ k ∈ (Finset.range (2 ^ t)).filter (fun k => (least : ℝ) < |deviation t φ k|),
      Complex.normSq (qpeAmplitude t φ k) ≤ 1 / (2 * (least - 1)) := by
  have hsides : (Finset.range (2 ^ t)).filter (fun k => (least : ℝ) < |deviation t φ k|) =
      (Finset.range (2 ^ t)).filter (fun k => (least : ℝ) < 1 * deviation t φ k) ∪
        (Finset.range (2 ^ t)).filter (fun k => (least : ℝ) < -1 * deviation t φ k) := by
    rw [← Finset.filter_or]
    refine Finset.filter_congr fun k _ => ?_
    rw [one_mul, neg_one_mul, lt_abs]
  have hdisjoint : Disjoint
      ((Finset.range (2 ^ t)).filter fun k => (least : ℝ) < 1 * deviation t φ k)
      ((Finset.range (2 ^ t)).filter fun k => (least : ℝ) < -1 * deviation t φ k) := by
    refine Finset.disjoint_filter.mpr fun k _ hfirst hsecond => ?_
    have hnonneg : (0 : ℝ) ≤ least := Nat.cast_nonneg least
    linarith
  have hfirst := @sum_side_le t φ 1 (.inl rfl) least hleast
  have hsecond := @sum_side_le t φ (-1) (.inr rfl) least hleast
  have hpositive : (0 : ℝ) < least - 1 := by
    have hcast : (2 : ℝ) ≤ least := by exact_mod_cast hleast
    linarith
  have hhalves : 1 / (4 * ((least : ℝ) - 1)) + 1 / (4 * (least - 1)) = 1 / (2 * (least - 1)) := by
    field_simp
    norm_num
  rw [hsides, Finset.sum_union hdisjoint, ← hhalves]
  exact add_le_add hfirst hsecond

end tail

end

end QuantumPlatform.Core

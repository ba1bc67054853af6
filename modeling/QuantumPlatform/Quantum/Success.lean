import QuantumPlatform.Quantum.Basis
import Mathlib.Analysis.Real.Pi.Bounds
import Mathlib.Analysis.SpecialFunctions.Trigonometric.Bounds
import Mathlib.Analysis.SpecialFunctions.Trigonometric.Inverse
import Mathlib.Tactic.Linarith

namespace QuantumPlatform.Quantum

noncomputable section

-- The probability of a marked outcome after `r` rounds at the angle `θ`.
def success (θ : ℝ) (r : ℕ) : ℝ := Real.sin ((2 * r + 1) * θ) ^ 2

variable {θ : ℝ}

theorem sin_sq_add_sub_sin_sq_sub (a b : ℝ) :
    Real.sin (a + b) ^ 2 - Real.sin (a - b) ^ 2 = Real.sin (2 * a) * Real.sin (2 * b) := by
  rw [Real.sin_add, Real.sin_sub, Real.sin_two_mul, Real.sin_two_mul]
  ring

-- What the next round gains.
theorem success_succ_sub (θ : ℝ) (r : ℕ) :
    success θ (r + 1) - success θ r = Real.sin (4 * ((r + 1) * θ)) * Real.sin (2 * θ) := by
  have hnext : (2 * ((r + 1 : ℕ) : ℝ) + 1) * θ = 2 * ((r + 1) * θ) + θ := by
    push_cast
    ring
  have hhere : (2 * (r : ℝ) + 1) * θ = 2 * ((r + 1) * θ) - θ := by ring
  have hangle : 4 * ((r + 1) * θ) = 2 * (2 * ((r + 1) * θ)) := by ring
  unfold success
  rw [hnext, hhere, sin_sq_add_sub_sin_sq_sub, hangle]

theorem sin_two_mul_nonneg (hθ : 0 < θ) (hle : θ ≤ Real.pi / 2) : 0 ≤ Real.sin (2 * θ) :=
  Real.sin_nonneg_of_nonneg_of_le_pi (by linarith) (by linarith)

-- Up to a quarter turn, every round is a gain.
theorem success_mono (hθ : 0 < θ) (hle : θ ≤ Real.pi / 2) {R : ℕ} (hR : R * θ ≤ Real.pi / 4)
    {r : ℕ} (hr : r ≤ R) : success θ r ≤ success θ R := by
  induction R, hr using Nat.le_induction with
  | base => exact le_refl _
  | succ k _ ih =>
      push_cast at hR
      have hgain := success_succ_sub θ k
      have hsin : 0 ≤ Real.sin (4 * ((k + 1) * θ)) := by
        have hpos : 0 ≤ ((k : ℝ) + 1) * θ := by positivity
        exact Real.sin_nonneg_of_nonneg_of_le_pi (by linarith) (by linarith)
      have hprod := mul_nonneg hsin (sin_two_mul_nonneg hθ hle)
      have hbefore := ih (by linarith)
      linarith

-- Beyond it the last round was a loss.
theorem success_lt (hθ : 0 < θ) (hlt : θ < Real.pi / 2) {k : ℕ}
    (hover : Real.pi / 4 < (k + 1) * θ) (hhalf : (k + 1) * θ < Real.pi / 2) :
    success θ (k + 1) < success θ k := by
  have hloss := success_succ_sub θ k
  have hneg : Real.sin (4 * ((k + 1) * θ)) < 0 := by
    rw [← Real.sin_sub_two_pi]
    exact Real.sin_neg_of_neg_of_neg_pi_lt (by linarith) (by linarith)
  have hpos : 0 < Real.sin (2 * θ) := Real.sin_pos_of_pos_of_lt_pi (by linarith) (by linarith)
  have hprod := mul_neg_of_neg_of_pos hneg hpos
  linarith

-- With everything marked, no round changes anything.
theorem success_right_angle (r : ℕ) : success (Real.pi / 2) r = 1 := by
  have hangle : (2 * (r : ℝ) + 1) * (Real.pi / 2) = Real.pi / 2 + r * Real.pi := by ring
  unfold success
  rw [hangle, Real.sin_add_nat_mul_pi, Real.sin_pi_div_two, mul_one, ← pow_mul, mul_comm, pow_mul]
  norm_num

-- A number of rounds is beaten by no smaller one just when it turns by at most a quarter.
theorem unbeaten_iff (hθ : 0 < θ) (hlt : θ < Real.pi / 2) {R : ℕ} (hpos : 1 ≤ R)
    (hhalf : R * θ < Real.pi / 2) :
    (∀ r ≤ R, success θ r ≤ success θ R) ↔ R * θ ≤ Real.pi / 4 := by
  constructor
  · intro h
    by_contra hover
    obtain ⟨k, rfl⟩ := Nat.exists_eq_succ_of_ne_zero (Nat.one_le_iff_ne_zero.mp hpos)
    push_cast at hover hhalf
    have hloss := success_lt hθ hlt (not_le.mp hover) hhalf
    exact absurd (h k (Nat.le_succ k)) (not_le.mpr hloss)
  · intro h r hr
    exact success_mono hθ hlt.le h hr

section floor

theorem sin_sq_le_of_abs_le {deviation bound : ℝ} (h : |deviation| ≤ bound)
    (hbound : bound ≤ Real.pi / 2) : Real.sin deviation ^ 2 ≤ Real.sin bound ^ 2 := by
  have hpos := Real.pi_pos
  have habs := abs_nonneg deviation
  have hsin : |Real.sin deviation| = Real.sin |deviation| :=
    Real.abs_sin_eq_sin_abs_of_abs_le_pi (by linarith)
  have hnonneg : 0 ≤ Real.sin |deviation| :=
    Real.sin_nonneg_of_nonneg_of_le_pi habs (by linarith)
  rw [← sq_abs (Real.sin deviation), hsin]
  exact pow_le_pow_left₀ hnonneg
    (Real.sin_le_sin_of_le_of_le_pi_div_two (by linarith) hbound h) 2

theorem sin_add_le {excess : ℝ} (hsin : 0 ≤ Real.sin θ) (hexcess : 0 ≤ excess) :
    Real.sin (θ + excess) ≤ Real.sin θ + excess := by
  have hfirst : Real.sin θ * Real.cos excess ≤ Real.sin θ :=
    mul_le_of_le_one_right hsin (Real.cos_le_one excess)
  have hsecond : Real.cos θ * Real.sin excess ≤ excess := by
    have habs : |Real.sin excess| ≤ |excess| := Real.abs_sin_le_abs
    rw [abs_of_nonneg hexcess] at habs
    calc Real.cos θ * Real.sin excess ≤ |Real.cos θ| * |Real.sin excess| := by
          rw [← abs_mul]
          exact le_abs_self _
      _ ≤ 1 * excess := mul_le_mul (Real.abs_cos_le_one θ) habs (abs_nonneg _) zero_le_one
      _ = excess := one_mul excess
  rw [Real.sin_add]
  linarith

-- How far a turn by a round stays from a right angle.
theorem success_eq (θ : ℝ) (r : ℕ) :
    success θ r = 1 - Real.sin ((2 * r + 1) * θ - Real.pi / 2) ^ 2 := by
  have hone := Real.sin_sq_add_cos_sq ((2 * r + 1) * θ)
  rw [success, Real.sin_sub_pi_div_two, neg_sq]
  linarith

-- What taking the sine for the angle costs.
theorem angle_excess_le (hθ : 0 < θ) (hsmall : θ ≤ Real.pi / 6) :
    Real.pi / 2 * (θ - Real.sin θ) ≤ Real.sin θ * (Real.sin θ / 4) := by
  have hpi := Real.pi_lt_d2
  have hangle : θ ≤ 0.525 := by linarith
  have hcube := Real.sin_gt_sub_cube hθ
  have hsquare : θ * θ ≤ 0.525 * θ := mul_le_mul_of_nonneg_right hangle hθ.le
  have hshare : 0.93 * θ ≤ Real.sin θ := by
    have hpow : θ ^ 3 ≤ 0.28 * θ := by
      calc θ ^ 3 = θ * θ * θ := by ring
        _ ≤ 0.525 * θ * θ := mul_le_mul_of_nonneg_right hsquare hθ.le
        _ = 0.525 * (θ * θ) := by ring
        _ ≤ 0.525 * (0.525 * θ) := mul_le_mul_of_nonneg_left hsquare (by norm_num)
        _ ≤ 0.28 * θ := by linarith
    linarith
  have hsquared : 0.8649 * (θ * θ) ≤ Real.sin θ * Real.sin θ := by
    have hmul := mul_le_mul hshare hshare (by linarith) (by linarith)
    linarith
  have hover : Real.pi / 2 * (θ - Real.sin θ) ≤ 1.575 * (θ ^ 3 / 6) :=
    mul_le_mul (by linarith) (by linarith) (by linarith [Real.sin_lt hθ]) (by norm_num)
  have hthird : θ ^ 3 ≤ 0.525 * (θ * θ) := by
    calc θ ^ 3 = θ * (θ * θ) := by ring
      _ ≤ 0.525 * (θ * θ) := mul_le_mul_of_nonneg_right hangle (by positivity)
  have hnonneg : 0 ≤ θ * θ := mul_nonneg hθ.le hθ.le
  linarith

-- The number of rounds that the sine calls for, with an approximation of pi, comes close to a
-- right angle: within the angle itself and what the approximations cost.
theorem one_sub_le_success {pi : ℝ} (hθ : 0 < θ) (hsmall : θ ≤ Real.pi / 6) (hpi : pi ≤ Real.pi)
    (hnear : Real.pi - pi ≤ 1) :
    1 - 2 * Real.sin θ ^ 2 - (Real.pi - pi) ^ 2 / 2 ≤ success θ ⌊pi / 4 * (Real.sin θ)⁻¹⌋₊ := by
  have hbound := Real.pi_gt_three
  have hlt := Real.pi_lt_d2
  have hsin : 0 < Real.sin θ := Real.sin_pos_of_pos_of_lt_pi hθ (by linarith)
  have hsinlt := Real.sin_lt hθ
  let turns : ℝ := pi / 4 * (Real.sin θ)⁻¹
  have hpos : 0 ≤ turns := mul_nonneg (by linarith) (inv_nonneg.mpr hsin.le)
  have hbelow : (⌊turns⌋₊ : ℝ) ≤ turns := Nat.floor_le hpos
  have habove : turns < ⌊turns⌋₊ + 1 := Nat.lt_floor_add_one turns
  have hquarter : 4 * (turns * Real.sin θ) = pi := by
    simp only [turns]
    field_simp
  let excess : ℝ := Real.pi / 2 * (θ - Real.sin θ) / Real.sin θ
  have hexcess : 0 ≤ excess :=
    div_nonneg (mul_nonneg (by linarith) (by linarith)) hsin.le
  have hquarterly : excess ≤ Real.sin θ / 4 := by
    rw [div_le_iff₀ hsin, mul_comm (Real.sin θ / 4)]
    exact angle_excess_le hθ hsmall
  have hhalf : Real.sin θ ≤ 1 / 2 := by
    rw [← Real.sin_pi_div_six]
    exact Real.sin_le_sin_of_le_of_le_pi_div_two (by linarith) (by linarith) hsmall
  let deviation : ℝ := (2 * ⌊turns⌋₊ + 1) * θ - Real.pi / 2
  have hturned : 2 * (turns * θ) = pi / 2 * (θ / Real.sin θ) := by
    simp only [turns]
    field_simp
    ring
  have hratio : 1 ≤ θ / Real.sin θ := (one_le_div hsin).mpr hsinlt.le
  have hupper : deviation ≤ θ + excess := by
    have hscaled := mul_le_mul_of_nonneg_right hbelow hθ.le
    have hturn : pi / 2 * (θ / Real.sin θ) ≤ Real.pi / 2 + excess := by
      have hsplit : Real.pi / 2 + excess = Real.pi / 2 * (θ / Real.sin θ) := by
        simp only [excess]
        field_simp
        ring
      rw [hsplit]
      exact mul_le_mul_of_nonneg_right (by linarith) (by linarith)
    simp only [deviation]
    linarith
  have hlower : -deviation ≤ θ + (Real.pi - pi) / 2 := by
    have hscaled := mul_lt_mul_of_pos_right habove hθ
    have hturn : pi / 2 ≤ pi / 2 * (θ / Real.sin θ) :=
      le_mul_of_one_le_right (by linarith) hratio
    simp only [deviation]
    linarith
  have hsquares : Real.sin deviation ^ 2 ≤ 2 * Real.sin θ ^ 2 + (Real.pi - pi) ^ 2 / 2 := by
    by_cases hsign : 0 ≤ deviation
    · -- overshot by taking the sine for the angle
      have hle := sin_sq_le_of_abs_le ((abs_of_nonneg hsign).le.trans hupper) (by linarith)
      have hsum := sin_add_le hsin.le hexcess
      have hnonneg : 0 ≤ Real.sin (θ + excess) :=
        Real.sin_nonneg_of_nonneg_of_le_pi (by linarith) (by linarith)
      have hwide : Real.sin (θ + excess) ≤ 5 / 4 * Real.sin θ := by linarith
      have hsquare := pow_le_pow_left₀ hnonneg hwide 2
      have hrest := sq_nonneg (Real.pi - pi)
      have hown := sq_nonneg (Real.sin θ)
      rw [mul_pow] at hsquare
      linarith
    · -- short of it, and by the approximation of pi
      have hle := sin_sq_le_of_abs_le ((abs_of_neg (not_le.mp hsign)).le.trans hlower)
        (by linarith)
      have hsum := sin_add_le hsin.le (by linarith : 0 ≤ (Real.pi - pi) / 2)
      have hnonneg : 0 ≤ Real.sin (θ + (Real.pi - pi) / 2) :=
        Real.sin_nonneg_of_nonneg_of_le_pi (by linarith) (by linarith)
      have hsquare := pow_le_pow_left₀ hnonneg hsum 2
      have hmean := sq_nonneg (Real.sin θ - (Real.pi - pi) / 2)
      calc Real.sin deviation ^ 2 ≤ (Real.sin θ + (Real.pi - pi) / 2) ^ 2 := hle.trans hsquare
        _ = 2 * Real.sin θ ^ 2 + (Real.pi - pi) ^ 2 / 2 -
            (Real.sin θ - (Real.pi - pi) / 2) ^ 2 := by ring
        _ ≤ 2 * Real.sin θ ^ 2 + (Real.pi - pi) ^ 2 / 2 := by linarith
  rw [success_eq]
  change _ ≤ 1 - Real.sin deviation ^ 2
  linarith

-- One round finds a share of up to a half at least every other time, if it is not so small
-- that more rounds are called for.
theorem half_le_success_one (hleast : 1 / 4 ≤ Real.sin θ ^ 2) (hmost : Real.sin θ ^ 2 ≤ 1 / 2) :
    1 / 2 ≤ success θ 1 := by
  let share := Real.sin θ ^ 2
  have hthree : success θ 1 = share * (3 - 4 * share) ^ 2 := by
    have hangle : (2 * ((1 : ℕ) : ℝ) + 1) * θ = 3 * θ := by
      push_cast
      ring
    rw [success, hangle, Real.sin_three_mul]
    ring
  have hgap : share * (3 - 4 * share) ^ 2 - 1 / 2 =
      (1 / 2 - share) * (16 * (share * (1 - share)) - 1) := by ring
  have hprod : 1 / 8 ≤ share * (1 - share) := by
    have hmul := mul_nonneg (sub_nonneg.mpr hleast) (sub_nonneg.mpr hmost)
    linarith
  have hnonneg := mul_nonneg (sub_nonneg.mpr hmost)
    (by linarith : 0 ≤ 16 * (share * (1 - share)) - 1)
  rw [hthree]
  linarith

end floor

end

end QuantumPlatform.Quantum

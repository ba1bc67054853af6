import QuantumPlatform.Core.Circuits
import QuantumPlatform.Quantum.Success
import Mathlib.Analysis.Real.Pi.Bounds

namespace QuantumPlatform.Core

open Python Quantum

noncomputable section

-- optimal_iterations over the reals, for the number that math.pi is taken for.
def iterations (pi : ℝ) (numQubits numMarked : ℕ) : Except Exc ℕ :=
  if numMarked = 0 then .error (Exc.valueError "num_marked must be >= 1")
  else .ok (max 1 ⌊pi / 4 * √((2 : ℝ) ^ numQubits / numMarked)⌋₊)

-- The exact arithmetic of the model is this formula at the double.
theorem optimalIterations_eq (numQubits numMarked : ℕ) :
    optimalIterations numQubits numMarked = iterations (mathPi : ℝ) numQubits numMarked := by
  unfold optimalIterations iterations
  by_cases hzero : numMarked = 0
  · rw [if_pos hzero, if_pos hzero]
  · rw [if_neg hzero, if_neg hzero]
    let ratio : ℚ := (2 : ℚ) ^ numQubits / numMarked
    have hpi : (0 : ℝ) ≤ (mathPi : ℝ) / 4 := by norm_num [mathPi]
    have hratio : (0 : ℝ) ≤ (2 : ℝ) ^ numQubits / numMarked := by positivity
    have hpositive : (0 : ℚ) ≤ (mathPi / 4) ^ 2 * ratio := by positivity
    have hfloor : Nat.sqrt ⌊(mathPi / 4) ^ 2 * ratio⌋.toNat =
        ⌊(mathPi : ℝ) / 4 * √((2 : ℝ) ^ numQubits / numMarked)⌋₊ := by
      refine eq_of_forall_le_iff fun k => ?_
      have hsquare : ((mathPi : ℝ) / 4 * √((2 : ℝ) ^ numQubits / numMarked)) ^ 2 =
          (((mathPi / 4) ^ 2 * ratio : ℚ) : ℝ) := by
        rw [mul_pow, Real.sq_sqrt hratio]
        push_cast [ratio]
        rfl
      rw [Nat.le_sqrt', Nat.le_floor_iff (mul_nonneg hpi (Real.sqrt_nonneg _)),
        ← pow_le_pow_iff_left₀ (Nat.cast_nonneg k) (mul_nonneg hpi (Real.sqrt_nonneg _)) two_ne_zero,
        hsquare, Int.le_toNat (Int.floor_nonneg.mpr hpositive), Int.le_floor]
      norm_cast
    change Except.ok (max 1 (Nat.sqrt ⌊(mathPi / 4) ^ 2 * ratio⌋.toNat)) = _
    rw [hfloor]

section angle

variable {numQubits numMarked : ℕ}

-- The angle whose squared sine is the share of the marked states.
def markedAngle (numQubits numMarked : ℕ) : ℝ :=
  Real.arcsin √((numMarked : ℝ) / 2 ^ numQubits)

theorem share_pos (hmarked : 1 ≤ numMarked) : 0 < √((numMarked : ℝ) / 2 ^ numQubits) := by
  have hpos : (0 : ℝ) < numMarked := by exact_mod_cast hmarked
  exact Real.sqrt_pos.mpr (by positivity)

theorem share_le_one (hle : numMarked ≤ 2 ^ numQubits) :
    √((numMarked : ℝ) / 2 ^ numQubits) ≤ 1 := by
  have hcast : (numMarked : ℝ) ≤ 2 ^ numQubits := by exact_mod_cast hle
  exact Real.sqrt_le_one.mpr ((div_le_one (by positivity)).mpr hcast)

theorem markedAngle_pos (hmarked : 1 ≤ numMarked) : 0 < markedAngle numQubits numMarked :=
  Real.arcsin_pos.mpr (share_pos hmarked)

theorem markedAngle_lt (hlt : numMarked < 2 ^ numQubits) :
    markedAngle numQubits numMarked < Real.pi / 2 := by
  have hcast : (numMarked : ℝ) < 2 ^ numQubits := by exact_mod_cast hlt
  have hshare : √((numMarked : ℝ) / 2 ^ numQubits) < 1 := by
    rw [Real.sqrt_lt' one_pos, one_pow]
    exact (div_lt_one (by positivity)).mpr hcast
  exact Real.arcsin_lt_pi_div_two.mpr hshare

theorem markedAngle_full (numQubits : ℕ) : markedAngle numQubits (2 ^ numQubits) = Real.pi / 2 := by
  unfold markedAngle
  push_cast
  rw [div_self (by positivity), Real.sqrt_one, Real.arcsin_one]

theorem sin_markedAngle (hle : numMarked ≤ 2 ^ numQubits) :
    Real.sin (markedAngle numQubits numMarked) = √((numMarked : ℝ) / 2 ^ numQubits) :=
  Real.sin_arcsin (by linarith [Real.sqrt_nonneg ((numMarked : ℝ) / 2 ^ numQubits)])
    (share_le_one hle)

-- `k` rounds turn by at most a quarter just when the share is at most the sine.
theorem turns_le_iff {k : ℕ} (hk : 1 ≤ k) : k * markedAngle numQubits numMarked ≤ Real.pi / 4 ↔
    √((numMarked : ℝ) / 2 ^ numQubits) ≤ Real.sin (Real.pi / (4 * k)) := by
  have hcast : (1 : ℝ) ≤ k := by exact_mod_cast hk
  have hpos := Real.pi_pos
  have hfour : (0 : ℝ) < 4 * k := by linarith
  have hsmall : Real.pi / (4 * k) ≤ Real.pi / 4 :=
    div_le_div_of_nonneg_left hpos.le (by norm_num) (by linarith)
  have hrange : Real.pi / (4 * k) ∈ Set.Ico (-(Real.pi / 2)) (Real.pi / 2) := by
    refine ⟨?_, by linarith⟩
    have hnonneg : 0 ≤ Real.pi / (4 * k) := by positivity
    linarith
  rw [← Real.arcsin_le_iff_le_sin' hrange, markedAngle, le_div_iff₀ hfour,
    le_div_iff₀ (by norm_num)]
  constructor
  · intro h
    linarith
  · intro h
    linarith

theorem half_iff : 2 * numMarked ≤ 2 ^ numQubits ↔
    √((numMarked : ℝ) / 2 ^ numQubits) ≤ Real.sin (Real.pi / (4 * (1 : ℕ))) := by
  have hroot : (√2 / 2 : ℝ) ^ 2 = 1 / 2 := by
    rw [div_pow, Real.sq_sqrt (by norm_num)]
    norm_num
  have hpower : (0 : ℝ) < 2 ^ numQubits := by positivity
  rw [Nat.cast_one, mul_one, Real.sin_pi_div_four, Real.sqrt_le_left (by positivity), hroot,
    div_le_div_iff₀ hpower (by norm_num)]
  rw [← Nat.cast_le (α := ℝ)]
  push_cast
  constructor
  · intro h
    linarith
  · intro h
    linarith

-- The rounds that fit below the approximation are those with a share below `pi / 4 k`.
theorem le_floor_iff {k : ℕ} (hmarked : 1 ≤ numMarked) (hk : 1 ≤ k) :
    k ≤ ⌊Real.pi / 4 * √((2 : ℝ) ^ numQubits / numMarked)⌋₊ ↔
      √((numMarked : ℝ) / 2 ^ numQubits) ≤ Real.pi / (4 * k) := by
  have hcast : (1 : ℝ) ≤ k := by exact_mod_cast hk
  have hfour : (0 : ℝ) < 4 * k := by linarith
  have hshare := @share_pos numQubits numMarked hmarked
  have hinv : √((2 : ℝ) ^ numQubits / numMarked) = (√((numMarked : ℝ) / 2 ^ numQubits))⁻¹ := by
    rw [← Real.sqrt_inv, inv_div]
  have hpos := Real.pi_pos
  rw [Nat.le_floor_iff (by positivity), hinv, ← div_eq_mul_inv, le_div_iff₀ hshare,
    le_div_iff₀ hfour]
  constructor
  · intro h
    linarith
  · intro h
    linarith

-- Even where it overshoots, the count stays below half a turn.
theorem turns_lt_half {k : ℕ} (hmarked : 1 ≤ numMarked) (hle : numMarked ≤ 2 ^ numQubits)
    (hk : 1 ≤ k) (hfits : √((numMarked : ℝ) / 2 ^ numQubits) ≤ Real.pi / (4 * k)) :
    k * markedAngle numQubits numMarked < Real.pi / 2 := by
  have hcast : (1 : ℝ) ≤ k := by exact_mod_cast hk
  have hfour : (0 : ℝ) < 4 * k := by linarith
  have hpos := Real.pi_pos
  have hangle := (@markedAngle_pos numQubits numMarked hmarked).le
  have hjordan : 2 / Real.pi * markedAngle numQubits numMarked ≤ Real.pi / (4 * k) := by
    have hsin := Real.mul_le_sin hangle (Real.arcsin_le_pi_div_two _)
    rw [sin_markedAngle hle] at hsin
    exact hsin.trans hfits
  rw [le_div_iff₀ hfour] at hjordan
  have hscaled : 8 * (k * markedAngle numQubits numMarked) ≤ Real.pi * Real.pi := by
    calc 8 * (k * markedAngle numQubits numMarked)
        = Real.pi * (2 / Real.pi * markedAngle numQubits numMarked * (4 * k)) := by
          field_simp
          ring
      _ ≤ Real.pi * Real.pi := mul_le_mul_of_nonneg_left hjordan hpos.le
  have hfour := mul_lt_mul_of_pos_left Real.pi_lt_four hpos
  linarith

end angle

-- The count is never beaten by a smaller one just when everything is marked, or at most
-- half is and no number of rounds lies between the angle and its approximation.
theorem iterations_unbeaten (numQubits numMarked : ℕ) (hmarked : 1 ≤ numMarked)
    (hle : numMarked ≤ 2 ^ numQubits) :
    ∃ R, iterations Real.pi numQubits numMarked = .ok R ∧
      ((∀ r ≤ R, success (Real.arcsin √((numMarked : ℝ) / 2 ^ numQubits)) r ≤
          success (Real.arcsin √((numMarked : ℝ) / 2 ^ numQubits)) R) ↔
        numMarked = 2 ^ numQubits ∨ 2 * numMarked ≤ 2 ^ numQubits ∧
          ∀ k : ℕ, 1 ≤ k → √((numMarked : ℝ) / 2 ^ numQubits) ≤ Real.pi / (4 * k) →
            √((numMarked : ℝ) / 2 ^ numQubits) ≤ Real.sin (Real.pi / (4 * k))) := by
  let x : ℝ := Real.pi / 4 * √((2 : ℝ) ^ numQubits / numMarked)
  change ∃ R, _ ∧ ((∀ r ≤ R, success (markedAngle numQubits numMarked) r ≤
    success (markedAngle numQubits numMarked) R) ↔ _)
  refine ⟨max 1 ⌊x⌋₊, ?_, ?_⟩
  · unfold iterations
    rw [if_neg (by omega)]
  by_cases hfull : numMarked = 2 ^ numQubits
  · subst hfull
    rw [markedAngle_full]
    exact ⟨fun _ => .inl rfl, fun _ r _ => by rw [success_right_angle, success_right_angle]⟩
  · have hlt : numMarked < 2 ^ numQubits := lt_of_le_of_ne hle hfull
    have hangle := @markedAngle_pos numQubits numMarked hmarked
    have hone : 1 ≤ max 1 ⌊x⌋₊ := le_max_left 1 _
    have hhalf : (max 1 ⌊x⌋₊ : ℕ) * markedAngle numQubits numMarked < Real.pi / 2 := by
      by_cases hfits : 1 ≤ ⌊x⌋₊
      · rw [max_eq_right hfits]
        exact turns_lt_half hmarked hle hfits ((le_floor_iff hmarked hfits).mp (le_refl _))
      · rw [max_eq_left (by omega), Nat.cast_one, one_mul]
        exact markedAngle_lt hlt
    rw [unbeaten_iff hangle (markedAngle_lt hlt) hone hhalf]
    constructor
    · intro hquarter
      -- Fewer rounds turn less.
      have hturns : ∀ k : ℕ, 1 ≤ k → k ≤ max 1 ⌊x⌋₊ →
          √((numMarked : ℝ) / 2 ^ numQubits) ≤ Real.sin (Real.pi / (4 * k)) := by
        intro k hk hcount
        have hcast : (k : ℝ) ≤ (max 1 ⌊x⌋₊ : ℕ) := by exact_mod_cast hcount
        exact (turns_le_iff hk).mp ((mul_le_mul_of_nonneg_right hcast hangle.le).trans hquarter)
      refine .inr ⟨half_iff.mpr (hturns 1 (le_refl 1) hone), fun k hk hfits => ?_⟩
      exact hturns k hk (le_max_of_le_right ((le_floor_iff hmarked hk).mpr hfits))
    · rintro (hfull' | ⟨hmost, hgap⟩)
      · exact absurd hfull' hfull
      · rw [turns_le_iff hone]
        by_cases hfits : 1 ≤ ⌊x⌋₊
        · rw [max_eq_right hfits]
          exact hgap _ hfits ((le_floor_iff hmarked hfits).mp (le_refl _))
        · rw [max_eq_left (by omega)]
          exact half_iff.mp hmost

-- One marked state of sixteen: none of the first three rounds comes closer than the third.
theorem iterations_unbeaten_sixteenth : iterations Real.pi 4 1 = .ok 3 ∧
    ∀ r ≤ 3, success (Real.arcsin √(((1 : ℕ) : ℝ) / 2 ^ 4)) r ≤
      success (Real.arcsin √(((1 : ℕ) : ℝ) / 2 ^ 4)) 3 := by
  have hroot : √(((1 : ℕ) : ℝ) / 2 ^ 4) = 1 / 4 := by
    rw [Real.sqrt_eq_iff_mul_self_eq (by positivity) (by norm_num)]
    norm_num
  have hthree : iterations Real.pi 4 1 = .ok 3 := by
    have hfloor : ⌊Real.pi / 4 * √((2 : ℝ) ^ 4 / (1 : ℕ))⌋₊ = 3 := by
      have hsixteen : √((2 : ℝ) ^ 4 / (1 : ℕ)) = 4 := by
        rw [Real.sqrt_eq_iff_mul_self_eq (by positivity) (by norm_num)]
        norm_num
      rw [hsixteen, div_mul_cancel₀ _ (by norm_num), Nat.floor_eq_iff Real.pi_pos.le]
      exact ⟨by exact_mod_cast Real.pi_gt_three.le, by norm_num; linarith [Real.pi_lt_d2]⟩
    unfold iterations
    rw [if_neg (by decide), hfloor]
    rfl
  obtain ⟨R, hR, hiff⟩ := iterations_unbeaten 4 1 (by decide) (by decide)
  obtain rfl : 3 = R := Except.ok.inj (hthree.symm.trans hR)
  refine ⟨hthree, hiff.mpr (.inr ⟨by decide, fun k hk hfits => ?_⟩)⟩
  rw [hroot] at hfits ⊢
  have hlow := Real.pi_gt_d2
  have hhigh := Real.pi_lt_d2
  have hsmall : k ≤ 3 := by
    rw [le_div_iff₀ (by positivity)] at hfits
    have hreal : (k : ℝ) < 4 := by linarith
    exact Nat.lt_succ_iff.mp (by exact_mod_cast hreal)
  have hcube := @Real.sin_gt_sub_cube (Real.pi / (4 * k)) (by positivity)
  refine le_trans ?_ hcube.le
  have hrange : 1 / 4 + 1 / 100 ≤ Real.pi / (4 * k) ∧ Real.pi / (4 * k) ≤ 4 / 5 := by
    obtain rfl | rfl | rfl : k = 1 ∨ k = 2 ∨ k = 3 := by omega
    all_goals
      norm_num
      constructor <;> linarith
  generalize Real.pi / (4 * k) = x at hrange ⊢
  have hpositive : 0 ≤ x := by linarith
  have hsquare : 0 ≤ (4 / 5 - x) * x := mul_nonneg (by linarith) hpositive
  nlinarith [mul_nonneg hsquare hpositive]

-- Three marked states of four: the one round that is run never finds any of them.
theorem iterations_beaten : iterations Real.pi 2 3 = .ok 1 ∧
    success (Real.arcsin √(((3 : ℕ) : ℝ) / 2 ^ 2)) 1 = 0 ∧
    success (Real.arcsin √(((3 : ℕ) : ℝ) / 2 ^ 2)) 0 = 3 / 4 := by
  have hroot : √(((3 : ℕ) : ℝ) / 2 ^ 2) = √3 / 2 := by
    rw [Real.sqrt_div (by norm_num), Real.sqrt_sq (by norm_num)]
    norm_num
  have hangle : Real.arcsin √(((3 : ℕ) : ℝ) / 2 ^ 2) = Real.pi / 3 := by
    rw [hroot, ← Real.sin_pi_div_three]
    exact Real.arcsin_sin (by linarith [Real.pi_pos]) (by linarith [Real.pi_pos])
  refine ⟨?_, ?_, ?_⟩
  · have hnone : ¬1 ≤ ⌊Real.pi / 4 * √((2 : ℝ) ^ 2 / (3 : ℕ))⌋₊ := by
      rw [le_floor_iff (by decide) (le_refl 1), hroot, Nat.cast_one, mul_one, not_le]
      have hthree : (1.7 : ℝ) < √3 := by
        rw [Real.lt_sqrt (by norm_num)]
        norm_num
      have hpi := Real.pi_lt_d2
      linarith
    unfold iterations
    rw [if_neg (by decide), max_eq_left (by omega)]
  · have hturn : (2 * ((1 : ℕ) : ℝ) + 1) * (Real.pi / 3) = Real.pi := by
      push_cast
      ring
    rw [success, hangle, hturn, Real.sin_pi]
    norm_num
  · have hturn : (2 * ((0 : ℕ) : ℝ) + 1) * (Real.pi / 3) = Real.pi / 3 := by
      push_cast
      ring
    rw [success, hangle, hturn, Real.sin_pi_div_three, div_pow, Real.sq_sqrt (by norm_num)]
    norm_num

end

end QuantumPlatform.Core

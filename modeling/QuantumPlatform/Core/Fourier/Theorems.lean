import QuantumPlatform.Core.Fourier
import Mathlib.Algebra.Field.GeomSum
import Mathlib.Analysis.SpecialFunctions.Pow.Real

namespace QuantumPlatform.Core

open Quantum

noncomputable section

section turns

theorem turn_natCast_mul (k : ℕ) (x : ℝ) : turn (k * x) = turn x ^ k := by
  induction k with
  | zero => simp
  | succ k ih =>
      rw [pow_succ, ← ih, ← turn_add]
      congr 1
      push_cast
      ring

-- Only whole turns lead back.
theorem turn_eq_one_iff (x : ℝ) : turn x = 1 ↔ ∃ k : ℤ, x = k := by
  constructor
  · intro h
    obtain ⟨k, hk⟩ := Complex.exp_eq_one_iff.mp h
    have hpi : ((2 * Real.pi * x : ℝ) : ℂ) = ((k * (2 * Real.pi) : ℝ) : ℂ) := by
      have hmul : ((2 * Real.pi * x : ℝ) : ℂ) * Complex.I =
          ((k * (2 * Real.pi) : ℝ) : ℂ) * Complex.I := by
        rw [hk]
        push_cast
        ring
      exact mul_right_cancel₀ Complex.I_ne_zero hmul
    have hreal : 2 * Real.pi * x = k * (2 * Real.pi) := by exact_mod_cast hpi
    refine ⟨k, ?_⟩
    have hne : 2 * Real.pi ≠ 0 := by positivity
    apply mul_left_cancel₀ hne
    linarith
  · rintro ⟨k, rfl⟩
    exact turn_int k

-- The turns of a number and of its neighbours on the circle cancel out.
theorem sum_turn {sign : ℝ} (hsign : IsSign sign) {size a b : ℕ} (ha : a < size) (hb : b < size) :
    ∑ k ∈ Finset.range size, turn (sign * (a - b) * k / size) = if a = b then (size : ℂ) else 0 := by
  by_cases hab : a = b
  · subst hab
    simp
  · rw [if_neg hab]
    have hsize : (size : ℝ) ≠ 0 := by
      exact_mod_cast (show size ≠ 0 by omega)
    let root := turn (sign * (a - b) / size)
    have hterm : ∀ k ∈ Finset.range size, turn (sign * (a - b) * k / size) = root ^ k := by
      intro k _
      rw [← turn_natCast_mul]
      congr 1
      ring
    have hne : root ≠ 1 := by
      intro hone
      obtain ⟨k, hk⟩ := (turn_eq_one_iff _).mp hone
      have hmul : sign * ((a : ℝ) - b) = k * size := by
        field_simp at hk
        linarith
      have hint : (a : ℤ) - b = k * size ∨ (b : ℤ) - a = k * size := by
        rcases hsign with rfl | rfl
        · left
          exact_mod_cast (by linarith : ((a : ℝ) - b) = k * size)
        · right
          exact_mod_cast (by linarith : ((b : ℝ) - a) = k * size)
      have hk0 : k = 0 := by
        by_contra hk0
        have habs : (size : ℤ) ≤ |k * size| := by
          rw [abs_mul, Nat.abs_cast]
          have : 1 ≤ |k| := Int.one_le_abs hk0
          nlinarith
        rcases hint with hint | hint
        · rw [← hint, le_abs] at habs
          omega
        · rw [← hint, le_abs] at habs
          omega
      subst hk0
      omega
    have hpow : root ^ size = 1 := by
      rw [← turn_natCast_mul]
      have hwhole : (size : ℝ) * (sign * (a - b) / size) = sign * (a - b) := by
        field_simp
      rw [hwhole]
      rcases hsign with rfl | rfl
      · exact (turn_eq_one_iff _).mpr ⟨(a : ℤ) - b, by push_cast; ring⟩
      · exact (turn_eq_one_iff _).mpr ⟨(b : ℤ) - a, by push_cast; ring⟩
    rw [Finset.sum_congr rfl hterm, geom_sum_eq hne, hpow, sub_self, zero_div]

end turns

variable {n : ℕ} {satisfies : String → List String → Basis n → Bool}

section kernel

-- The entries of the transform of the first t qubits.
theorem fourierProduct_apply (sign : ℝ) {t : ℕ} (ht : t ≤ n) (x y : Basis n) :
    product (fourierProduct sign t x) y =
      turn (sign * x.low t * y.low t / 2 ^ t) / (√2 : ℝ) ^ t *
        ∏ q ∈ Finset.Ico t n, definite (x.bit q) (y.bit q) := by
  have hfirst : ∏ q ∈ Finset.range t, fourierProduct sign t x q (y.bit q) =
      turn (sign * x.low t * y.low t / 2 ^ t) / (√2 : ℝ) ^ t := by
    have hsum : sign * x.low t * y.low t / 2 ^ t =
        ∑ q ∈ Finset.range t, if y.bit q then sign * x.low t / 2 ^ (t - 1 - q + 1) else 0 := by
      rw [show y.low t = ∑ q ∈ Finset.range t, (y.bit q).toNat * 2 ^ q from rfl, Nat.cast_sum,
        Finset.mul_sum, Finset.sum_div]
      refine Finset.sum_congr rfl fun q hq => ?_
      have hpow : (2 : ℝ) ^ t = 2 ^ q * 2 ^ (t - 1 - q + 1) := by
        rw [← pow_add]
        congr 1
        have := Finset.mem_range.mp hq
        omega
      cases hb : y.bit q with
      | false => simp
      | true =>
          rw [hpow]
          simp
          field_simp
    have hcount : ((√2 : ℝ) : ℂ) ^ t = ∏ q ∈ Finset.range t, ((√2 : ℝ) : ℂ) := by simp
    rw [hsum, turn_sum, hcount, ← Finset.prod_div_distrib]
    refine Finset.prod_congr rfl fun q hq => ?_
    unfold fourierProduct fourierBit
    rw [if_pos (Finset.mem_range.mp hq)]
    cases hb : y.bit q with
    | false => simp
    | true => simp
  have hrest : ∏ q ∈ Finset.Ico t n, fourierProduct sign t x q (y.bit q) =
      ∏ q ∈ Finset.Ico t n, definite (x.bit q) (y.bit q) := by
    refine Finset.prod_congr rfl fun q hq => ?_
    unfold fourierProduct
    rw [if_neg (by have := (Finset.mem_Ico.mp hq).1; omega)]
  rw [product, ← Finset.prod_range_mul_prod_Ico _ ht, hfirst, hrest]

theorem fourierProduct_full (sign : ℝ) (x y : Basis n) :
    product (fourierProduct sign n x) y =
      turn (sign * x.value * y.value / 2 ^ n) / (√2 : ℝ) ^ n := by
  rw [fourierProduct_apply sign (le_refl n)]
  simp [Basis.value]

end kernel

-- The forward circuit is the discrete Fourier transform, for every number of qubits.
theorem qft_is_dft (t : ℕ) (satisfies : String → List String → Basis t → Bool)
    (x : Fin (2 ^ t)) :
    run satisfies (buildQftCircuit Real.pi t).gates (ket (Basis.ofNat t x)) =
      (((2 : ℝ) ^ (-(t : ℝ) / 2) : ℝ) : ℂ) • ∑ y ∈ Finset.range (2 ^ t),
        Complex.exp (2 * Real.pi * Complex.I * x * y / 2 ^ t) • ket (Basis.ofNat t y) := by
  rw [run_qft (le_refl t)]
  funext y
  have hscale : (((2 : ℝ) ^ (-(t : ℝ) / 2) : ℝ) : ℂ) = (((√2 : ℝ) : ℂ) ^ t)⁻¹ := by
    rw [neg_div, Real.rpow_neg (by norm_num), Real.sqrt_eq_rpow, ← Complex.ofReal_pow,
      ← Real.rpow_natCast, ← Real.rpow_mul (by norm_num), Complex.ofReal_inv]
    congr 3
    ring
  have hsum : (∑ k ∈ Finset.range (2 ^ t),
      Complex.exp (2 * Real.pi * Complex.I * x * k / 2 ^ t) • ket (Basis.ofNat t k)) y =
      Complex.exp (2 * Real.pi * Complex.I * x * y.value / 2 ^ t) := by
    have hamplitude := congrFun (sum_ket fun z : Basis t =>
      Complex.exp (2 * Real.pi * Complex.I * x * z.value / 2 ^ t)) y
    rw [Basis.sum_ofNat] at hamplitude
    rw [← hamplitude]
    refine congrFun (Finset.sum_congr rfl fun k hk => ?_) y
    rw [Basis.value_ofNat (Finset.mem_range.mp hk)]
  rw [fourierProduct_full, Basis.value_ofNat x.isLt, Pi.smul_apply, hsum, hscale, smul_eq_mul,
    div_eq_inv_mul]
  congr 1
  unfold turn phaseFactor
  congr 1
  push_cast
  ring

-- Two transforms in opposite directions, on a basis state.
theorem fourier_cancels {sign : ℝ} (hsign : IsSign sign) (x z : Basis n) :
    ∑ y : Basis n, product (fourierProduct sign n x) y * product (fourierProduct (-sign) n y) z =
      ket x z := by
  have hterm : ∀ y : Basis n,
      product (fourierProduct sign n x) y * product (fourierProduct (-sign) n y) z =
        turn (sign * (x.value - z.value) * y.value / ((2 ^ n : ℕ) : ℝ)) / 2 ^ n := by
    intro y
    have hsq : ((√2 : ℝ) : ℂ) ^ n * ((√2 : ℝ) : ℂ) ^ n = 2 ^ n := by
      rw [← mul_pow, ← Complex.ofReal_mul, Real.mul_self_sqrt (by norm_num)]
      norm_num
    rw [fourierProduct_full, fourierProduct_full, div_mul_div_comm, ← turn_add, hsq]
    congr 2
    push_cast
    ring
  rw [Finset.sum_congr rfl fun y _ => hterm y, ← Finset.sum_div, Basis.sum_ofNat]
  have hvalues : ∀ k ∈ Finset.range (2 ^ n),
      turn (sign * (x.value - z.value) * ((Basis.ofNat n k).value : ℝ) / ((2 ^ n : ℕ) : ℝ)) =
        turn (sign * (x.value - z.value) * k / ((2 ^ n : ℕ) : ℝ)) := by
    intro k hk
    rw [Basis.value_ofNat (Finset.mem_range.mp hk)]
  rw [Finset.sum_congr rfl hvalues, sum_turn hsign Basis.value_lt Basis.value_lt]
  by_cases hxz : z = x
  · subst hxz
    rw [if_pos rfl, ket_self]
    push_cast
    exact div_self (pow_ne_zero n two_ne_zero)
  · rw [if_neg fun h => hxz (Basis.value_injective h).symm, ket_of_ne hxz, zero_div]

-- The two branches of the builder undo each other.
theorem qft_inverse_cancels (t : ℕ) (satisfies : String → List String → Basis t → Bool)
    (ψ : State t) :
    run satisfies (buildQftCircuit Real.pi t true).gates
        (run satisfies (buildQftCircuit Real.pi t).gates ψ) = ψ ∧
      run satisfies (buildQftCircuit Real.pi t).gates
        (run satisfies (buildQftCircuit Real.pi t true).gates ψ) = ψ := by
  have hforward : run satisfies (buildQftCircuit Real.pi t true).gates *
      run satisfies (buildQftCircuit Real.pi t).gates = 1 := by
    refine Operator.ext_ket fun x => funext fun z => ?_
    rw [Module.End.mul_apply, run_qft (le_refl t), apply_eq_sum]
    simp only [run_qft_dagger (le_refl t)]
    exact fourier_cancels (.inl rfl) x z
  have hbackward : run satisfies (buildQftCircuit Real.pi t).gates *
      run satisfies (buildQftCircuit Real.pi t true).gates = 1 := by
    refine Operator.ext_ket fun x => funext fun z => ?_
    rw [Module.End.mul_apply, run_qft_dagger (le_refl t), apply_eq_sum]
    simp only [run_qft (le_refl t)]
    have hcancels := fourier_cancels (.inr rfl) x z
    rwa [neg_neg] at hcancels
  exact ⟨LinearMap.congr_fun hforward ψ, LinearMap.congr_fun hbackward ψ⟩

end

end QuantumPlatform.Core

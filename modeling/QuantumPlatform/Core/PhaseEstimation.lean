import QuantumPlatform.Core.Fourier.Theorems

namespace QuantumPlatform.Core

open Quantum

noncomputable section

variable {t : ℕ} {satisfies : String → List String → Basis (t + 1) → Bool}

-- A counting qubit after the controlled powers.
def kickback (φ : ℝ) (q : ℕ) (b : Bool) : ℂ :=
  (if b then turn (φ * 2 ^ q) else 1) / (√2 : ℝ)

theorem phaseFactor_pow (φ : ℝ) (q : ℕ) :
    phaseFactor (2 * Real.pi * φ) ^ 2 ^ q = turn (φ * 2 ^ q) := by
  have h := turn_natCast_mul (2 ^ q) φ
  rw [mul_comm] at h
  push_cast at h
  exact h.symm

-- The target stays in the eigenstate, and each control takes up its phase.
theorem run_powers {f : ℕ → Bool → ℂ} (φ : ℝ) (htarget : f t = definite true) (m : ℕ)
    (hm : m ≤ t) :
    run satisfies ((List.range m).map fun j =>
        .controlledPower ⟨2 * Real.pi * φ⟩ (2 ^ j) j t) (product f) =
      product fun q =>
        if q < m then fun b => (if b then turn (φ * 2 ^ q) else 1) * f q b else f q := by
  induction m with
  | zero => simp
  | succ m ih =>
      have hgate : ∀ g : ℕ → Bool → ℂ, g t = definite true →
          (Gate.controlledPower ⟨2 * Real.pi * φ⟩ (2 ^ m) m t).denote satisfies (product g) =
            product (Function.update g m fun b =>
              (if true && b then turn (φ * 2 ^ m) else 1) * g m b) := by
        intro g hg
        rw [← controlledPhase_product (show t < t + 1 by omega) (show m < t + 1 by omega)
          (show t ≠ m by omega) (fun b hb => by simp [hg, definite, hb])]
        simp only [Gate.denote, phaseFactor_pow, Bool.and_comm]
      rw [List.range_succ, List.map_append, run_append, ih (by omega), List.map_singleton, run_cons,
        hgate _ (by rw [if_neg (by omega)]; exact htarget), run_nil, Module.End.one_apply]
      simp only [lt_irrefl, if_false, Bool.true_and]
      exact product_extend m

-- Everything before the inverse transform.
def preparation (φ : ℝ) (t : ℕ) : List (Gate ℝ) :=
  [.x t] ++ (List.range t).map .h ++
    (List.range t).map fun j => .controlledPower ⟨2 * Real.pi * φ⟩ (2 ^ j) j t

theorem run_preparation (φ : ℝ) :
    run satisfies (preparation φ t) (ket (Basis.ofNat (t + 1) 0)) =
      product fun q => if q < t then kickback φ q else definite true := by
  let start : ℕ → Bool → ℂ := fun q => if q < t then definite false else definite true
  have hflip : (Gate.x t).denote satisfies (ket (Basis.ofNat (t + 1) 0)) = product start := by
    have hinvolutive : Function.Involutive fun y : Basis (t + 1) => y.flip t :=
      fun _ => Basis.flip_flip (by omega)
    have hket := permute_ket hinvolutive (Basis.ofNat (t + 1) 0)
    refine hket.trans ((ket_eq_product _).trans (product_congr fun q hq => ?_))
    by_cases hlt : q < t
    · rw [Basis.bit_flip_of_ne (by omega), Basis.bit_ofNat hq]
      simp only [start, if_pos hlt, Nat.zero_testBit]
      rfl
    · obtain rfl : q = t := by omega
      rw [Basis.bit_flip_self hq, Basis.bit_ofNat hq]
      simp only [start, if_neg hlt, Nat.zero_testBit]
      rfl
  have htarget : (fun q => if q < t then fun a => ∑ b, hadamard a b * start q b else start q) t =
      definite true := by
    simp [start]
  rw [preparation, run_append, run_append, run_cons, run_nil, Module.End.one_apply, hflip,
    run_hs t (by omega), run_powers φ htarget t (le_refl t)]
  refine product_congr fun q _ => ?_
  by_cases hlt : q < t
  · simp only [if_pos hlt, start]
    funext b
    rw [hadamard_definite, kickback]
    cases b with
    | false => simp
    | true => simp [div_eq_mul_inv]
  · simp only [if_neg hlt, start]

theorem preparation_apply (φ : ℝ) (x : Basis (t + 1)) :
    product (fun q => if q < t then kickback φ q else definite true) x =
      if x.bit t then turn (φ * x.low t) / (√2 : ℝ) ^ t else 0 := by
  have hfirst : ∏ q ∈ Finset.range t, (if q < t then kickback φ q else definite true) (x.bit q) =
      turn (φ * x.low t) / (√2 : ℝ) ^ t := by
    have hsum : φ * x.low t =
        ∑ q ∈ Finset.range t, if x.bit q then φ * 2 ^ q else 0 := by
      rw [Basis.low, Nat.cast_sum, Finset.mul_sum]
      refine Finset.sum_congr rfl fun q _ => ?_
      cases hb : x.bit q with
      | false => simp
      | true => simp
    have hcount : ((√2 : ℝ) : ℂ) ^ t = ∏ q ∈ Finset.range t, ((√2 : ℝ) : ℂ) := by simp
    rw [hsum, turn_sum, hcount, ← Finset.prod_div_distrib]
    refine Finset.prod_congr rfl fun q hq => ?_
    rw [if_pos (Finset.mem_range.mp hq), kickback]
    cases hb : x.bit q with
    | false => simp
    | true => simp
  rw [product, Finset.prod_range_succ, hfirst, if_neg (lt_irrefl t)]
  cases hb : x.bit t with
  | false => simp [definite]
  | true => simp [definite]

-- The amplitude of an outcome of the counting register.
def qpeAmplitude (t : ℕ) (φ : ℝ) (k : ℕ) : ℂ :=
  (2 ^ t)⁻¹ * ∑ y ∈ Finset.range (2 ^ t), turn (y * (φ - k / 2 ^ t))

-- The target is found in |1>, and the counting register has the amplitudes of QPE.
theorem run_qpe_circuit (φ : ℝ) (y : Basis (t + 1)) :
    run satisfies (buildQpeCircuit Real.pi ⟨2 * Real.pi * φ⟩ t).gates
        (ket (Basis.ofNat (t + 1) 0)) y =
      if y.bit t then qpeAmplitude t φ (y.low t) else 0 := by
  have hgates : (buildQpeCircuit Real.pi ⟨2 * Real.pi * φ⟩ t).gates =
      preparation φ t ++ (buildQftCircuit Real.pi t true).gates ++
        [.measure (List.range t) (List.range t)] := rfl
  have hsquare : ((√2 : ℝ) : ℂ) ^ t * ((√2 : ℝ) : ℂ) ^ t = 2 ^ t := by
    rw [← mul_pow, ← Complex.ofReal_mul, Real.mul_self_sqrt (by norm_num)]
    norm_num
  have hterm : ∀ x : Basis (t + 1),
      (if x.bit t then turn (φ * x.low t) / (√2 : ℝ) ^ t else 0) *
          product (fourierProduct (-1) t x) y =
        if y.bit t then
          (if x.bit t then (2 ^ t)⁻¹ * turn (x.low t * (φ - y.low t / 2 ^ t)) else 0) else 0 := by
    intro x
    rw [fourierProduct_apply (-1) (show t ≤ t + 1 by omega)]
    have hspectator : ∏ q ∈ Finset.Ico t (t + 1), definite (x.bit q) (y.bit q) =
        definite (x.bit t) (y.bit t) := by simp
    rw [hspectator]
    cases hx : x.bit t with
    | false => simp
    | true =>
        cases hy : y.bit t with
        | false => simp [definite]
        | true =>
            have hangle : (x.low t : ℝ) * (φ - y.low t / 2 ^ t) =
                φ * x.low t + -1 * x.low t * y.low t / 2 ^ t := by ring
            rw [hangle, turn_add, ← hsquare]
            simp only [definite, if_true, mul_one]
            field_simp
  rw [hgates, run_append, run_append, run_preparation, run_cons, run_nil, Module.End.one_apply]
  change run satisfies (buildQftCircuit Real.pi t true).gates _ y = _
  rw [apply_eq_sum]
  simp only [run_qft_dagger (show t ≤ t + 1 by omega), preparation_apply, hterm]
  by_cases hy : y.bit t = true
  · simp only [hy, if_true]
    rw [Basis.sum_last fun k => (2 ^ t : ℂ)⁻¹ * turn (k * (φ - y.low t / 2 ^ t)),
      ← Finset.mul_sum]
    rfl
  · simp [hy]

end

end QuantumPlatform.Core

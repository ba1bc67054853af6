import QuantumPlatform.Quantum.Products
import Mathlib.Analysis.SpecialFunctions.Trigonometric.Basic

namespace QuantumPlatform.Quantum

variable {n : ℕ}

section flips

def Basis.flipAll (qubits : List ℕ) (y : Basis n) : Basis n := fun i =>
  decide (i.val ∈ qubits) ^^ y i

theorem Basis.bit_flipAll (qubits : List ℕ) (y : Basis n) {q : ℕ} (hq : q < n) :
    (y.flipAll qubits).bit q = (decide (q ∈ qubits) ^^ y.bit q) := by
  rw [bit_of_lt hq, bit_of_lt hq]
  rfl

theorem Basis.flipAll_flipAll (qubits : List ℕ) (y : Basis n) :
    (y.flipAll qubits).flipAll qubits = y := by
  funext i
  simp [flipAll]

theorem Basis.flipAll_cons {q : ℕ} {qubits : List ℕ} (hq : q ∉ qubits) (y : Basis n) :
    (y.flipAll qubits).flip q = y.flipAll (q :: qubits) := by
  refine ext_bit fun r hr => ?_
  rw [bit_flipAll _ _ hr]
  by_cases hne : r = q
  · subst hne
    rw [bit_flip_self hr, bit_flipAll _ _ hr]
    simp [hq]
  · rw [bit_flip_of_ne hne, bit_flipAll _ _ hr]
    simp [hne]

-- Changes the sign of the basis states in question.
def phaseFlip (p : Basis n → Bool) : Operator n := diagonal fun y => if p y then -1 else 1

theorem phaseFlip_apply (p : Basis n → Bool) (ψ : State n) (y : Basis n) :
    phaseFlip p ψ y = if p y then -ψ y else ψ y := by
  unfold phaseFlip
  cases hp : p y with
  | false => simp [hp]
  | true => simp [hp]

-- A sign flip under a change of basis is a sign flip again.
theorem phaseFlip_conjugate {π : Basis n → Basis n} (hπ : Function.Involutive π)
    (p : Basis n → Bool) : permute π * phaseFlip p * permute π = phaseFlip fun y => p (π y) := by
  refine LinearMap.ext fun ψ => funext fun y => ?_
  rw [Module.End.mul_apply, Module.End.mul_apply, permute_apply, phaseFlip_apply, phaseFlip_apply,
    permute_apply, hπ]

end flips

noncomputable section amplification

-- Twice the mean is taken off each amplitude: the inversion about the mean, up to sign.
def meanFlip (n : ℕ) : Operator n where
  toFun ψ := fun y => ψ y - 2 / 2 ^ n * ∑ x, ψ x
  map_add' φ ψ := by
    funext y
    simp only [Pi.add_apply, Finset.sum_add_distrib]
    ring
  map_smul' c ψ := by
    funext y
    simp only [Pi.smul_apply, smul_eq_mul, RingHom.id_apply, ← Finset.mul_sum]
    ring

theorem meanFlip_apply (ψ : State n) (y : Basis n) :
    meanFlip n ψ y = ψ y - 2 / 2 ^ n * ∑ x, ψ x := rfl

-- One amplitude on the marked states, another one on the rest.
def twoValued (marked : Basis n → Bool) (a b : ℝ) : State n := fun y => if marked y then a else b

def uniform (n : ℕ) : State n := fun _ => ((√2 : ℝ) : ℂ)⁻¹ ^ n

def markedCount (marked : Basis n → Bool) : ℕ := (Finset.univ.filter fun y => marked y).card

variable {marked : Basis n → Bool}

theorem sum_twoValued (a b : ℝ) : ∑ y, twoValued marked a b y =
    ((markedCount marked * a + (2 ^ n - markedCount marked) * b : ℝ) : ℂ) := by
  have hsplit := Finset.card_filter_add_card_filter_not (s := Finset.univ)
    (fun y : Basis n => marked y = true)
  have hcard : ((Finset.univ.filter fun y : Basis n => ¬marked y = true).card : ℝ) =
      2 ^ n - markedCount marked := by
    rw [Finset.card_univ, Basis.card] at hsplit
    rw [markedCount, eq_sub_iff_add_eq]
    exact_mod_cast (Nat.add_comm _ _).trans hsplit
  unfold twoValued
  rw [Finset.sum_ite, Finset.sum_const, Finset.sum_const, nsmul_eq_mul, nsmul_eq_mul, ← hcard]
  push_cast
  rfl

-- One round keeps the two values apart.
theorem round_twoValued (a b : ℝ) :
    (meanFlip n * phaseFlip marked) (twoValued marked a b) = twoValued marked
      (-a - 2 / 2 ^ n * (markedCount marked * -a + (2 ^ n - markedCount marked) * b))
      (b - 2 / 2 ^ n * (markedCount marked * -a + (2 ^ n - markedCount marked) * b)) := by
  have hflip : phaseFlip marked (twoValued marked a b) = twoValued marked (-a) b := by
    funext y
    rw [phaseFlip_apply]
    unfold twoValued
    cases marked y with
    | false => simp
    | true => simp
  funext y
  rw [Module.End.mul_apply, hflip, meanFlip_apply, sum_twoValued]
  unfold twoValued
  cases marked y with
  | false => simp
  | true => simp

-- Each round turns the state by twice the angle whose sine the marked share gives. The two
-- amplitudes are scaled, so that nothing is divided by a cosine that may be zero.
theorem rounds_uniform {θ : ℝ} (hθ : Real.sin θ ^ 2 = markedCount marked / 2 ^ n) (r : ℕ) :
    ∃ a b : ℝ, ((meanFlip n * phaseFlip marked) ^ r) (uniform n) = twoValued marked a b ∧
      Real.sin θ * (√2 ^ n * a) = (-1) ^ r * Real.sin ((2 * r + 1) * θ) ∧
      Real.cos θ * (√2 ^ n * b) = (-1) ^ r * Real.cos ((2 * r + 1) * θ) := by
  induction r with
  | zero =>
      have hroot : √2 ^ n * (√2)⁻¹ ^ n = (1 : ℝ) := by
        rw [← mul_pow, mul_inv_cancel₀ (by positivity), one_pow]
      refine ⟨(√2)⁻¹ ^ n, (√2)⁻¹ ^ n, ?_, ?_, ?_⟩
      · funext y
        simp [uniform, twoValued]
      · rw [hroot]
        simp
      · rw [hroot]
        simp
  | succ r ih =>
      obtain ⟨a, b, hstate, hsin, hcos⟩ := ih
      have hpow : (2 : ℝ) ^ n ≠ 0 := by positivity
      have hmarked : (markedCount marked : ℝ) = 2 ^ n * Real.sin θ ^ 2 := by
        rw [hθ]
        field_simp
      have hmean : 2 / 2 ^ n * (markedCount marked * -a + (2 ^ n - markedCount marked) * b) =
          2 * (Real.cos θ ^ 2 * b - Real.sin θ ^ 2 * a) := by
        rw [hmarked, Real.cos_sq']
        field_simp
        ring
      have hangle : (2 * ((r + 1 : ℕ) : ℝ) + 1) * θ = (2 * r + 1) * θ + 2 * θ := by
        push_cast
        ring
      refine ⟨-a - 2 * (Real.cos θ ^ 2 * b - Real.sin θ ^ 2 * a),
        b - 2 * (Real.cos θ ^ 2 * b - Real.sin θ ^ 2 * a), ?_, ?_, ?_⟩
      · rw [pow_succ', Module.End.mul_apply, hstate, round_twoValued, hmean]
      · rw [hangle, Real.sin_add, Real.sin_two_mul, Real.cos_two_mul, pow_succ]
        linear_combination (1 - 2 * Real.cos θ ^ 2) * hsin
          - 2 * Real.sin θ * Real.cos θ * hcos
          + 2 * Real.sin θ * √2 ^ n * a * Real.sin_sq_add_cos_sq θ
      · rw [hangle, Real.cos_add, Real.sin_two_mul, Real.cos_two_mul, pow_succ]
        linear_combination (1 - 2 * Real.cos θ ^ 2) * hcos
          + 2 * Real.sin θ * Real.cos θ * hsin

-- Every marked state has the same share of the probability.
theorem normSq_rounds {θ : ℝ} (hθ : Real.sin θ ^ 2 = markedCount marked / 2 ^ n) (r : ℕ)
    {y : Basis n} (hy : marked y = true) :
    Complex.normSq (((meanFlip n * phaseFlip marked) ^ r) (uniform n) y) =
      Real.sin ((2 * r + 1) * θ) ^ 2 / markedCount marked := by
  obtain ⟨a, b, hstate, hsin, -⟩ := rounds_uniform hθ r
  have hpos : (0 : ℝ) < markedCount marked := by
    exact_mod_cast Finset.card_pos.mpr ⟨y, by simpa using hy⟩
  have hsquare : (√2 ^ n) ^ 2 = (2 : ℝ) ^ n := by
    rw [← pow_mul, mul_comm, pow_mul, Real.sq_sqrt (by norm_num)]
  have hsign : ((-1 : ℝ) ^ r) ^ 2 = 1 := by
    rw [← pow_mul, mul_comm, pow_mul]
    norm_num
  have hscaled := congrArg (· ^ 2) hsin
  simp only [mul_pow, hsign, hθ, hsquare, one_mul] at hscaled
  rw [hstate, twoValued, if_pos hy, Complex.normSq_ofReal, ← hscaled]
  field_simp

end amplification

end QuantumPlatform.Quantum

import QuantumPlatform.Quantum.Basis
import Mathlib.Data.Complex.BigOperators
import Mathlib.LinearAlgebra.Pi
import Mathlib.Tactic.LinearCombination

namespace QuantumPlatform.Quantum

variable {n : ℕ}

-- One amplitude for each basis state.
abbrev State (n : ℕ) : Type := Basis n → ℂ

abbrev Operator (n : ℕ) : Type := Module.End ℂ (State n)

def ket (x : Basis n) : State n := fun y => if y = x then 1 else 0

theorem ket_self (x : Basis n) : ket x x = 1 := by
  simp [ket]

theorem ket_of_ne {x y : Basis n} (hne : y ≠ x) : ket x y = 0 := by
  simp [ket, hne]

theorem sum_ket (ψ : State n) : ∑ x, ψ x • ket x = ψ := by
  funext y
  simp [ket]

-- An operator is known from what it does to the basis.
theorem apply_eq_sum (op : Operator n) (ψ : State n) (y : Basis n) :
    op ψ y = ∑ x, ψ x * op (ket x) y := by
  conv_lhs => rw [← sum_ket ψ]
  simp [map_sum]

theorem Operator.ext_ket {first second : Operator n}
    (h : ∀ x, first (ket x) = second (ket x)) : first = second := by
  refine LinearMap.ext fun ψ => funext fun y => ?_
  rw [apply_eq_sum first, apply_eq_sum second]
  simp only [h]

section operators

-- A gate on one qubit, from its matrix.
def single (u : Bool → Bool → ℂ) (q : ℕ) : Operator n where
  toFun ψ := fun y => ∑ b, u (y.bit q) b * ψ (y.set q b)
  map_add' φ ψ := by
    funext y
    simp only [Pi.add_apply, mul_add, Finset.sum_add_distrib]
  map_smul' c ψ := by
    funext y
    simp only [Pi.smul_apply, smul_eq_mul, RingHom.id_apply, Finset.mul_sum]
    exact Finset.sum_congr rfl fun b _ => by ring

def diagonal (d : Basis n → ℂ) : Operator n where
  toFun ψ := fun y => d y * ψ y
  map_add' φ ψ := by
    funext y
    simp only [Pi.add_apply, mul_add]
  map_smul' c ψ := by
    funext y
    simp only [Pi.smul_apply, smul_eq_mul, RingHom.id_apply]
    ring

def permute (π : Basis n → Basis n) : Operator n where
  toFun ψ := fun y => ψ (π y)
  map_add' _ _ := rfl
  map_smul' _ _ := rfl

theorem single_apply (u : Bool → Bool → ℂ) (q : ℕ) (ψ : State n) (y : Basis n) :
    single u q ψ y = ∑ b, u (y.bit q) b * ψ (y.set q b) := rfl

@[simp] theorem diagonal_apply (d : Basis n → ℂ) (ψ : State n) (y : Basis n) :
    diagonal d ψ y = d y * ψ y := rfl

@[simp] theorem permute_apply (π : Basis n → Basis n) (ψ : State n) (y : Basis n) :
    permute π ψ y = ψ (π y) := rfl

theorem permute_ket {π : Basis n → Basis n} (hπ : Function.Involutive π) (x : Basis n) :
    permute π (ket x) = ket (π x) := by
  funext y
  have hiff : π y = x ↔ y = π x := ⟨fun h => by rw [← h, hπ], fun h => by rw [h, hπ]⟩
  simp [ket, hiff]

end operators

section braket

def braket (φ ψ : State n) : ℂ := ∑ y, starRingEnd ℂ (φ y) * ψ y

-- It keeps every inner product.
def Isometric (op : Operator n) : Prop := ∀ φ ψ, braket (op φ) (op ψ) = braket φ ψ

theorem Isometric.one : Isometric (1 : Operator n) := fun _ _ => rfl

theorem Isometric.mul {first second : Operator n} (hfirst : Isometric first)
    (hsecond : Isometric second) : Isometric (first * second) := fun φ ψ =>
  (hfirst _ _).trans (hsecond φ ψ)

theorem Isometric.permute {π : Basis n → Basis n} (hπ : Function.Bijective π) :
    Isometric (permute π) := fun _ _ =>
  Fintype.sum_bijective π hπ _ _ fun _ => rfl

theorem Isometric.diagonal {d : Basis n → ℂ} (hd : ∀ y, starRingEnd ℂ (d y) * d y = 1) :
    Isometric (diagonal d) := by
  intro φ ψ
  refine Finset.sum_congr rfl fun y _ => ?_
  simp only [diagonal_apply, map_mul]
  linear_combination (starRingEnd ℂ (φ y) * ψ y) * hd y

-- The columns of the matrix are orthonormal.
def UnitaryMatrix (u : Bool → Bool → ℂ) : Prop :=
  ∀ b c, ∑ a, starRingEnd ℂ (u a b) * u a c = if b = c then 1 else 0

theorem single_set {u : Bool → Bool → ℂ} {q : ℕ} (hq : q < n) (ψ : State n) (y : Basis n)
    (a : Bool) : single u q ψ (y.set q a) = ∑ b, u a b * ψ (y.set q b) := by
  rw [single_apply, Basis.bit_set_self hq]
  simp only [Basis.set_set]

theorem UnitaryMatrix.sum {u : Bool → Bool → ℂ} (hu : UnitaryMatrix u) (φ ψ : Bool → ℂ) :
    ∑ a, starRingEnd ℂ (∑ b, u a b * φ b) * ∑ c, u a c * ψ c =
      ∑ b, starRingEnd ℂ (φ b) * ψ b := by
  have htt := hu true true
  have htf := hu true false
  have hft := hu false true
  have hff := hu false false
  simp only [Fintype.sum_bool, if_true, if_false, map_add, map_mul, Bool.false_eq_true,
    Bool.true_eq_false] at htt htf hft hff ⊢
  linear_combination starRingEnd ℂ (φ true) * ψ true * htt +
    starRingEnd ℂ (φ true) * ψ false * htf + starRingEnd ℂ (φ false) * ψ true * hft +
    starRingEnd ℂ (φ false) * ψ false * hff

-- The two basis states that differ in the qubit only are added up together.
theorem Isometric.single {u : Bool → Bool → ℂ} (hu : UnitaryMatrix u) {q : ℕ} (hq : q < n) :
    Isometric (single (n := n) u q) := by
  intro φ ψ
  let before := fun y : Basis n => starRingEnd ℂ (φ y) * ψ y
  let after := fun y : Basis n =>
    starRingEnd ℂ (Quantum.single u q φ y) * Quantum.single u q ψ y
  have hpair : ∀ y : Basis n, ∑ a, after (y.set q a) = ∑ b, before (y.set q b) := by
    intro y
    simp only [after, before, single_set hq]
    exact hu.sum (fun b => φ (y.set q b)) fun b => ψ (y.set q b)
  have htwice : 2 • ∑ y, after y = 2 • ∑ y, before y := by
    rw [← Basis.sum_set hq after, ← Basis.sum_set hq before]
    exact Finset.sum_congr rfl fun y _ => hpair y
  have hsum : ∑ y, after y = ∑ y, before y := by simpa using htwice
  exact hsum

end braket

end QuantumPlatform.Quantum

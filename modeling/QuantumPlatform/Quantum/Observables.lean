import QuantumPlatform.Quantum.States
import Mathlib.Algebra.Group.Commute.Basic

namespace QuantumPlatform.Quantum

variable {n : ℕ}

section matrices

-- The matrix of two gates on the same qubit.
def matrixMul (u v : Bool → Bool → ℂ) (a c : Bool) : ℂ := ∑ b, u a b * v b c

theorem single_mul (u v : Bool → Bool → ℂ) {q : ℕ} (hq : q < n) :
    (single u q * single v q : Operator n) = single (matrixMul u v) q := by
  refine LinearMap.ext fun ψ => funext fun y => ?_
  rw [Module.End.mul_apply, single_apply, single_apply]
  simp only [single_set hq, matrixMul, Fintype.sum_bool]
  ring

theorem single_comm (u v : Bool → Bool → ℂ) {q r : ℕ} (hne : q ≠ r) :
    Commute (single u q : Operator n) (single v r) := by
  refine LinearMap.ext fun ψ => funext fun y => ?_
  rw [Module.End.mul_apply, Module.End.mul_apply, single_apply, single_apply]
  simp only [single_apply, Basis.bit_set_of_ne hne, Basis.bit_set_of_ne hne.symm,
    Basis.set_comm hne, Fintype.sum_bool]
  ring

-- A phase for each column keeps the columns orthonormal.
theorem UnitaryMatrix.mul_phase {u : Bool → Bool → ℂ} (hu : UnitaryMatrix u) {phase : Bool → ℂ}
    (hphase : ∀ b, starRingEnd ℂ (phase b) * phase b = 1) :
    UnitaryMatrix fun a b => u a b * phase b := by
  intro b c
  have hcolumns : ∑ a, starRingEnd ℂ (u a b * phase b) * (u a c * phase c) =
      starRingEnd ℂ (phase b) * phase c * ∑ a, starRingEnd ℂ (u a b) * u a c := by
    simp only [Fintype.sum_bool, map_mul]
    ring
  rw [hcolumns, hu b c]
  by_cases hbc : b = c
  · rw [if_pos hbc, mul_one, ← hbc, hphase]
  · rw [if_neg hbc, mul_zero]

end matrices

section strings

variable {α : Type} (matrix : α → Bool → Bool → ℂ)

-- One matrix for each of several qubits, multiplied in the order of the list.
def string : List (ℕ × α) → Operator n
  | [] => 1
  | entry :: rest => single (matrix entry.2) entry.1 * string rest

-- The same matrices as gates, the first of the list applied first.
def rotate : List (ℕ × α) → Operator n
  | [] => 1
  | entry :: rest => rotate rest * single (matrix entry.2) entry.1

variable {matrix} {items : List (ℕ × α)}

theorem string_comm (u : Bool → Bool → ℂ) {q : ℕ} (hq : q ∉ items.map Prod.fst) :
    Commute (single u q) ((string matrix items : Operator n)) := by
  induction items with
  | nil => exact Commute.one_right _
  | cons entry rest ih =>
      rw [List.map_cons, List.mem_cons, not_or] at hq
      exact (single_comm _ _ hq.1).mul_right (ih hq.2)

theorem rotate_comm (u : Bool → Bool → ℂ) {q : ℕ} (hq : q ∉ items.map Prod.fst) :
    Commute (single u q) (rotate matrix items : Operator n) := by
  induction items with
  | nil => exact Commute.one_right _
  | cons entry rest ih =>
      rw [List.map_cons, List.mem_cons, not_or] at hq
      exact (ih hq.2).mul_right (single_comm _ _ hq.1)

-- What intertwines on every single qubit intertwines on all of them.
theorem string_rotate {before after rotation : α → Bool → Bool → ℂ}
    (h : ∀ a, matrixMul (after a) (rotation a) = matrixMul (rotation a) (before a))
    (hnodup : (items.map Prod.fst).Nodup) (hbound : ∀ q ∈ items.map Prod.fst, q < n) :
    (string after items * rotate rotation items : Operator n) =
      rotate rotation items * string before items := by
  induction items with
  | nil => rfl
  | cons entry rest ih =>
      obtain ⟨q, a⟩ := entry
      rw [List.map_cons, List.nodup_cons] at hnodup
      have hq : q < n := hbound q List.mem_cons_self
      have hrest := ih hnodup.2 fun other hmem => hbound other (List.mem_cons_of_mem q hmem)
      have hstep : (single (after a) q * single (rotation a) q : Operator n) =
          single (rotation a) q * single (before a) q := by
        rw [single_mul _ _ hq, single_mul _ _ hq, h]
      calc single (after a) q * string after rest * (rotate rotation rest * single (rotation a) q)
        _ = single (after a) q * (string after rest * rotate rotation rest) *
              single (rotation a) q := by simp only [mul_assoc]
        _ = single (after a) q * rotate rotation rest * string before rest *
              single (rotation a) q := by rw [hrest]; simp only [mul_assoc]
        _ = rotate rotation rest * single (after a) q *
              (string before rest * single (rotation a) q) := by
            rw [(rotate_comm (after a) hnodup.1).eq]
            simp only [mul_assoc]
        _ = rotate rotation rest * (single (after a) q * single (rotation a) q) *
              string before rest := by
            rw [← (string_comm (rotation a) hnodup.1).eq]
            simp only [mul_assoc]
        _ = rotate rotation rest * single (rotation a) q *
              (single (before a) q * string before rest) := by
            rw [hstep]
            simp only [mul_assoc]

theorem Isometric.rotate (h : ∀ a, UnitaryMatrix (matrix a))
    (hbound : ∀ q ∈ items.map Prod.fst, q < n) : Isometric (rotate matrix items : Operator n) := by
  induction items with
  | nil => exact Isometric.one
  | cons entry rest ih =>
      refine Isometric.mul (ih fun q hmem => hbound q (List.mem_cons_of_mem _ hmem)) ?_
      exact Isometric.single (h entry.2) (hbound entry.1 List.mem_cons_self)

end strings

section expectations

-- The expectation of a diagonal observable is a mean over the outcomes.
theorem braket_diagonal (value : Basis n → ℤ) (ψ : State n) :
    braket ψ (diagonal (fun y => (value y : ℂ)) ψ) =
      ((∑ y, Complex.normSq (ψ y) * value y : ℝ) : ℂ) := by
  unfold braket
  push_cast
  refine Finset.sum_congr rfl fun y _ => ?_
  rw [diagonal_apply, Complex.normSq_eq_conj_mul_self]
  ring

theorem braket_self (ψ : State n) : braket ψ ψ = ((∑ y, Complex.normSq (ψ y) : ℝ) : ℂ) := by
  unfold braket
  push_cast
  exact Finset.sum_congr rfl fun y _ => (Complex.normSq_eq_conj_mul_self).symm

-- Measuring another observable after a change of basis.
theorem Isometric.braket_intertwined {change before after : Operator n} (h : Isometric change)
    (hintertwined : after * change = change * before) (ψ : State n) :
    braket (change ψ) (after (change ψ)) = braket ψ (before ψ) := by
  have hsame : after (change ψ) = change (before ψ) := by
    rw [← Module.End.mul_apply, hintertwined, Module.End.mul_apply]
  rw [hsame, h]

theorem braket_add (φ ψ χ : State n) : braket φ (ψ + χ) = braket φ ψ + braket φ χ := by
  simp only [braket, Pi.add_apply, mul_add, Finset.sum_add_distrib]

theorem braket_smul (c : ℂ) (φ ψ : State n) : braket φ (c • ψ) = c * braket φ ψ := by
  simp only [braket, Pi.smul_apply, smul_eq_mul, Finset.mul_sum]
  exact Finset.sum_congr rfl fun y _ => by ring

end expectations

end QuantumPlatform.Quantum

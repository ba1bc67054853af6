import QuantumPlatform.Core.Amplification
import QuantumPlatform.Core.Molecules
import QuantumPlatform.Quantum.Observables

namespace QuantumPlatform.Core

open Python Quantum

noncomputable section

namespace Pauli

def matrix : Pauli → Bool → Bool → ℂ
  | .X, false, true => 1
  | .X, true, false => 1
  | .Y, false, true => -Complex.I
  | .Y, true, false => Complex.I
  | .Z, false, false => 1
  | .Z, true, true => -1
  | _, _, _ => 0

-- The matrix of the gates that precede the measurement.
def rotation : Pauli → Bool → Bool → ℂ
  | .X, a, b => hadamard a b
  | .Y, a, b => hadamard a b * if b then -Complex.I else 1
  | .Z, a, b => if a = b then 1 else 0

-- What is measured is Z on every qubit of the term.
theorem matrixMul_rotation (pauli : Pauli) :
    matrixMul (matrix .Z) pauli.rotation = matrixMul pauli.rotation pauli.matrix := by
  funext a c
  cases pauli <;> cases a <;> cases c <;> simp [matrixMul, matrix, rotation, hadamard, neg_div,
    mul_assoc]

end Pauli

theorem conj_sqrt_two : starRingEnd ℂ ((√2 : ℝ) : ℂ) = (√2 : ℝ) := Complex.conj_ofReal _

theorem hadamard_unitary : UnitaryMatrix hadamard := by
  intro b c
  simp only [Fintype.sum_bool, hadamard, div_eq_mul_inv, map_mul, map_inv₀, conj_sqrt_two]
  cases b <;> cases c <;> simp
  · linear_combination 2 * inv_sqrt_two_sq
  · linear_combination 2 * inv_sqrt_two_sq

theorem rotation_unitary (pauli : Pauli) : UnitaryMatrix pauli.rotation := by
  cases pauli with
  | X => exact hadamard_unitary
  | Y => exact hadamard_unitary.mul_phase fun b => by cases b <;> simp
  | Z =>
      intro b c
      cases b <;> cases c <;> simp [Pauli.rotation]

section terms

variable {n : ℕ} {satisfies : String → List String → Basis n → Bool} {term : PauliTerm}

def PauliTerm.operator (n : ℕ) (term : PauliTerm) : Operator n :=
  string Pauli.matrix term.qubits.items

def rotations (term : PauliTerm) : List (Gate ℝ) :=
  term.qubits.items.flatMap fun entry => basisRotation entry.1 entry.2

theorem run_basisRotation {q : ℕ} (hq : q < n) (pauli : Pauli) :
    run satisfies (basisRotation q pauli) = single pauli.rotation q := by
  cases pauli with
  | X => rfl
  | Y =>
      refine LinearMap.ext fun ψ => funext fun y => ?_
      have hgates : basisRotation (Θ := ℝ) q .Y = [.sdg q, .h q] := rfl
      rw [hgates, run_cons, run_cons, run_nil, Module.End.one_apply]
      simp only [Gate.denote]
      rw [single_apply, single_apply]
      refine Finset.sum_congr rfl fun b _ => ?_
      rw [diagonal_apply, Basis.bit_set_self hq, Pauli.rotation, mul_assoc]
  | Z =>
      refine LinearMap.ext fun ψ => funext fun y => ?_
      have hgates : basisRotation (Θ := ℝ) q .Z = [] := rfl
      have hself : ψ (y.set q (y.bit q)) = ψ y := by rw [Basis.set_bit]
      rw [hgates, run_nil, Module.End.one_apply, single_apply]
      simp [Pauli.rotation, hself]

theorem run_rotations (hbound : ∀ q ∈ term.qubits.keys, q < n) :
    run satisfies (rotations term) = rotate Pauli.rotation term.qubits.items := by
  unfold rotations
  unfold Dict.keys at hbound
  generalize term.qubits.items = items at hbound ⊢
  induction items with
  | nil => rfl
  | cons entry rest ih =>
      rw [List.map_cons] at hbound
      rw [List.flatMap_cons, run_append_mul,
        ih fun q hmem => hbound q (List.mem_cons_of_mem _ hmem),
        run_basisRotation (hbound _ List.mem_cons_self)]
      rfl

-- The sign of an outcome, over the qubits of the term.
def sign (qubits : List ℕ) (y : Basis n) : ℤ :=
  (qubits.map fun q => if y.bit q then -1 else 1).prod

theorem bitAt_stateKey (y : Basis n) {q : ℕ} (hq : q < n) :
    bitAt (stateKey y).toList q = .ok (bitChar (y.bit q)) := by
  have hchars : (stateKey y).toList = (List.range n).reverse.map fun r => bitChar (y.bit r) := by
    rw [stateKey, countsKey_range, String.toList_ofList]
  have hlength : (stateKey y).toList.length = n := by
    rw [hchars]
    simp
  have hget : (stateKey y).toList[n - 1 - q]? = some (bitChar (y.bit q)) := by
    have hindex : n - 1 - (n - 1 - q) = q := by omega
    rw [hchars, List.getElem?_map, List.getElem?_reverse (by simp; omega), List.length_range,
      hindex, List.getElem?_range hq, Option.map_some]
  unfold bitAt
  simp only [hlength]
  rw [if_pos hq, if_pos (by omega), hget]

theorem signOf_stateKey {qubits : List ℕ} (hbound : ∀ q ∈ qubits, q < n) (y : Basis n) :
    signOf (stateKey y) qubits = .ok (sign qubits y) := by
  have hfold : ∀ start : ℤ, qubits.foldlM (fun sign qubit => do
      let bit ← bitAt (stateKey y).toList qubit
      return if bit = '1' then -sign else sign) start =
        (.ok (start * sign qubits y) : Except Exc ℤ) := by
    induction qubits with
    | nil =>
        intro start
        simp [sign]
        rfl
    | cons q rest ih =>
        intro start
        have hrest := ih fun r hmem => hbound r (List.mem_cons_of_mem q hmem)
        rw [List.foldlM_cons, bitAt_stateKey y (hbound q List.mem_cons_self)]
        refine (hrest _).trans (congrArg _ ?_)
        cases hb : y.bit q with
        | false => simp [sign, hb, bitChar]
        | true => simp [sign, hb, bitChar]
  unfold signOf
  rw [hfold, one_mul]

theorem string_sign {α : Type} (items : List (ℕ × α)) :
    string (fun _ => Pauli.matrix .Z) items =
      diagonal fun y : Basis n => (sign (items.map Prod.fst) y : ℂ) := by
  induction items with
  | nil =>
      refine LinearMap.ext fun ψ => funext fun y => ?_
      simp [string, sign]
  | cons entry rest ih =>
      refine LinearMap.ext fun ψ => funext fun y => ?_
      have hself : y.set entry.1 (y.bit entry.1) = y := Basis.set_bit _
      rw [string, ih, Module.End.mul_apply, single_apply, diagonal_apply]
      simp only [diagonal_apply, Fintype.sum_bool, sign, List.map_cons, List.prod_cons]
      cases hb : y.bit entry.1 with
      | false =>
          rw [hb] at hself
          simp [Pauli.matrix, hself]
      | true =>
          rw [hb] at hself
          simp [Pauli.matrix, hself]

-- Measured in the rotated basis, the mean sign is the expectation of the Pauli string.
theorem expectation_eq_braket (hbound : ∀ q ∈ term.qubits.keys, q < n) (ψ : State n) :
    ((∑ y, Complex.normSq (run satisfies (rotations term) ψ y) * sign term.qubits.keys y : ℝ) : ℂ) =
      braket ψ (term.operator n ψ) := by
  have hisometric : Isometric (rotate Pauli.rotation term.qubits.items : Operator n) :=
    Isometric.rotate rotation_unitary hbound
  have hintertwined : string (fun _ => Pauli.matrix .Z) term.qubits.items *
      rotate Pauli.rotation term.qubits.items =
        (rotate Pauli.rotation term.qubits.items * term.operator n : Operator n) :=
    string_rotate Pauli.matrixMul_rotation term.qubits.nodup hbound
  rw [← braket_diagonal, run_rotations hbound]
  unfold Dict.keys
  rw [← string_sign]
  exact hisometric.braket_intertwined hintertwined ψ

end terms

end

end QuantumPlatform.Core

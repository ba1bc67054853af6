import QuantumPlatform.Core.Circuits
import QuantumPlatform.Quantum.Products
import Mathlib.Analysis.SpecialFunctions.Trigonometric.Basic

namespace QuantumPlatform.Core

open Quantum

noncomputable section

-- The matrices of the gates, in the order of the row and the column bit.
def hadamard (row column : Bool) : ℂ := (if row && column then -1 else 1) / (√2 : ℝ)

def rotationY (theta : ℝ) : Bool → Bool → ℂ
  | false, false => Real.cos (theta / 2)
  | false, true => -Real.sin (theta / 2)
  | true, false => Real.sin (theta / 2)
  | true, true => Real.cos (theta / 2)

-- The phase that PhaseGate gives to |1>.
def phaseFactor (theta : ℝ) : ℂ := Complex.exp (theta * Complex.I)

variable {n : ℕ}

-- What a gate does to a register. Measurements come last and leave the amplitudes to
-- `probability`; `satisfies` stands for the expressions of Qiskit's PhaseOracleGate.
def Gate.denote (satisfies : String → List String → Basis n → Bool) : Gate ℝ → Operator n
  | .x qubit => permute fun y => y.flip qubit
  | .z qubit => diagonal fun y => if y.bit qubit then -1 else 1
  | .h qubit => single hadamard qubit
  | .sdg qubit => diagonal fun y => if y.bit qubit then -Complex.I else 1
  | .ry theta qubit => single (rotationY theta) qubit
  | .swap first second => permute (swapBits first second)
  | .cx control target => permute fun y => if y.bit control then y.flip target else y
  | .mcx controls target => permute fun y => if controls.all y.bit then y.flip target else y
  | .cp theta control target =>
      diagonal fun y => if y.bit control && y.bit target then phaseFactor theta else 1
  | .controlledPower unitary power control target =>
      diagonal fun y =>
        if y.bit control && y.bit target then phaseFactor unitary.theta ^ power else 1
  | .phaseOracle expression varOrder =>
      diagonal fun y => if satisfies expression varOrder y then -1 else 1
  | .measure _ _ => 1
  | .measureAll => 1

variable (satisfies : String → List String → Basis n → Bool)

-- The gates one after the other.
def run : List (Gate ℝ) → Operator n
  | [] => 1
  | gate :: rest => run rest * gate.denote satisfies

@[simp] theorem run_nil : run satisfies [] = 1 := rfl

theorem run_cons (gate : Gate ℝ) (rest : List (Gate ℝ)) (ψ : State n) :
    run satisfies (gate :: rest) ψ = run satisfies rest (gate.denote satisfies ψ) := rfl

theorem run_append (first second : List (Gate ℝ)) (ψ : State n) :
    run satisfies (first ++ second) ψ = run satisfies second (run satisfies first ψ) := by
  induction first generalizing ψ with
  | nil => rfl
  | cons gate rest ih => rw [List.cons_append, run_cons, run_cons, ih]

theorem run_append_mul (first second : List (Gate ℝ)) :
    run satisfies (first ++ second) = run satisfies second * run satisfies first :=
  LinearMap.ext (run_append satisfies first second)

theorem run_rounds (block : List (Gate ℝ)) (r : ℕ) :
    run satisfies (List.replicate r block).flatten = run satisfies block ^ r := by
  induction r with
  | zero => rfl
  | succ r ih => rw [List.replicate_succ, List.flatten_cons, run_append_mul, ih, pow_succ]

end

section measurement

-- The qubits that are measured, each with the classical bit that keeps the outcome.
def Gate.measured (n : ℕ) : Gate ℝ → List (ℕ × ℕ)
  | .measure qubits clbits => qubits.zip clbits
  | .measureAll => (List.range n).zip (List.range n)
  | _ => []

def measured (n : ℕ) (gates : List (Gate ℝ)) : List (ℕ × ℕ) := gates.flatMap (Gate.measured n)

@[simp] theorem measured_append (n : ℕ) (first second : List (Gate ℝ)) :
    measured n (first ++ second) = measured n first ++ measured n second :=
  List.flatMap_append

theorem measured_eq_nil {n : ℕ} {gates : List (Gate ℝ)}
    (h : ∀ gate ∈ gates, gate.measured n = []) : measured n gates = [] :=
  List.flatMap_eq_nil_iff.mpr h

theorem measured_map {α : Type} {n : ℕ} {f : α → Gate ℝ} (h : ∀ a, (f a).measured n = [])
    (items : List α) : measured n (items.map f) = [] := by
  refine measured_eq_nil fun gate hmem => ?_
  obtain ⟨a, -, rfl⟩ := List.mem_map.mp hmem
  exact h a

-- A key of the counts: one character for each classical bit, the highest first.
def countsKey (pairs : List (ℕ × ℕ)) (y : Basis n) : String :=
  String.ofList ((List.range pairs.length).reverse.map fun clbit =>
    if pairs.any fun pair => pair.2 = clbit && y.bit pair.1 then '1' else '0')

def bitChar (b : Bool) : Char := if b then '1' else '0'

-- With every clbit from the qubit of its own number, the key spells the first bits.
theorem countsKey_range (t : ℕ) (y : Basis n) :
    countsKey ((List.range t).zip (List.range t)) y =
      String.ofList ((List.range t).reverse.map fun q => bitChar (y.bit q)) := by
  unfold countsKey
  rw [List.length_zip, List.length_range, Nat.min_self]
  congr 1
  refine List.map_congr_left fun clbit hclbit => ?_
  have hlt : clbit < t := by simpa using hclbit
  have hany : ((List.range t).zip (List.range t)).any
      (fun pair => pair.2 = clbit && y.bit pair.1) = y.bit clbit := by
    have hzip : ((List.range t).map id).zip ((List.range t).map id) =
        (List.range t).map fun q => (q, q) := List.zip_map'
    rw [List.map_id] at hzip
    rw [hzip, List.any_map]
    cases hb : y.bit clbit with
    | true =>
        refine List.any_eq_true.mpr ⟨clbit, List.mem_range.mpr hlt, ?_⟩
        simp [hb]
    | false =>
        refine List.any_eq_false.mpr fun q _ => ?_
        by_cases hq : q = clbit
        · subst hq
          simp [hb]
        · simp [hq]
  rw [hany]
  rfl

end measurement

noncomputable section

variable {n : ℕ}

open Classical in
-- The probability that the key of the counts is such and such, by Born's rule.
def probability (satisfies : String → List String → Basis n → Bool) (gates : List (Gate ℝ))
    (event : String → Prop) : ℝ :=
  ∑ y : Basis n, if event (countsKey (measured n gates) y) then
    Complex.normSq (run satisfies gates (ket (Basis.ofNat n 0)) y) else 0

variable {satisfies : String → List String → Basis n → Bool} {gates : List (Gate ℝ)}
  {event : String → Prop}

-- An event of the keys as an event of the outcomes.
theorem probability_eq_sum {p : Basis n → Prop} [DecidablePred p]
    (h : ∀ y, event (countsKey (measured n gates) y) ↔ p y) :
    probability satisfies gates event = ∑ y : Basis n, if p y then
      Complex.normSq (run satisfies gates (ket (Basis.ofNat n 0)) y) else 0 := by
  unfold probability
  refine Finset.sum_congr rfl fun y _ => ?_
  by_cases hp : p y
  · rw [if_pos hp]
    exact if_pos ((h y).mpr hp)
  · rw [if_neg hp]
    exact if_neg (mt (h y).mp hp)

open Classical in
theorem exists_of_probability_ne_zero (h : probability satisfies gates event ≠ 0) :
    ∃ y, event (countsKey (measured n gates) y) ∧
      run satisfies gates (ket (Basis.ofNat n 0)) y ≠ 0 := by
  obtain ⟨y, -, hy⟩ := Finset.exists_ne_zero_of_sum_ne_zero h
  obtain ⟨hevent, hnormSq⟩ := ite_ne_right_iff.mp hy
  exact ⟨y, hevent, fun hzero => hnormSq (by rw [hzero, map_zero])⟩

end

end QuantumPlatform.Core

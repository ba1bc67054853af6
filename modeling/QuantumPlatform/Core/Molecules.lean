import QuantumPlatform.Core.Circuits

namespace QuantumPlatform.Core

open Python

inductive Pauli where
  | X
  | Y
  | Z
deriving DecidableEq, Repr

def Pauli.name : Pauli → String
  | .X => "X"
  | .Y => "Y"
  | .Z => "Z"

-- One coefficient times a tensor product of Pauli operators.
structure PauliTerm where
  coefficient : ℚ
  qubits : Dict Nat Pauli

structure MolecularHamiltonian where
  name : String
  geometry : String
  mapping : String
  numQubits : Nat
  terms : List PauliTerm
  nuclearRepulsion : ℚ
  inactiveEnergy : ℚ := 0
  initialState : List Bool := []
  referenceGroundEnergy : Option ℚ := none
  numQubits_pos : 0 < numQubits
  terms_nonempty : terms ≠ []
  terms_bounded : ∀ term ∈ terms, ∀ qubit ∈ term.qubits.keys, qubit < numQubits
  initialState_length : initialState = [] ∨ initialState.length = numQubits

def MolecularHamiltonian.totalEnergyOffset (molecule : MolecularHamiltonian) : ℚ :=
  molecule.nuclearRepulsion + molecule.inactiveEnergy

def H2 : MolecularHamiltonian where
  name := "h2"
  geometry := "H-H, R=0.75 Angstrom"
  mapping := "Bravyi-Kitaev, symmetry-reduced"
  numQubits := 2
  terms := [⟨-4804 / 10000, ∅⟩, ⟨3435 / 10000, Dict.ofList [(0, .Z)]⟩,
    ⟨-4347 / 10000, Dict.ofList [(1, .Z)]⟩, ⟨5716 / 10000, Dict.ofList [(0, .Z), (1, .Z)]⟩,
    ⟨910 / 10000, Dict.ofList [(0, .Y), (1, .Y)]⟩, ⟨910 / 10000, Dict.ofList [(0, .X), (1, .X)]⟩]
  nuclearRepulsion := 7055696146 / 10000000000
  referenceGroundEnergy := some (-1137 / 1000)
  numQubits_pos := by decide
  terms_nonempty := by simp
  terms_bounded := by decide
  initialState_length := .inl rfl

-- `generateMolecule` is the PySCF and Qiskit Nature run behind LiH and BeH2.
def getMolecule (generateMolecule : String → Except Exc MolecularHamiltonian)
    (name : String) : Except Exc MolecularHamiltonian :=
  if name = "h2" then .ok H2
  else if name = "lih" ∨ name = "beh2" then generateMolecule name
  else .error (Exc.valueError
    ("unknown molecule '" ++ name ++ "'; expected one of: h2, lih, beh2"))

-- The HardwareEfficientAnsatz: two RY layers around a descending CX chain.
def parameterCount (numQubits : Nat) : Nat := 2 * numQubits

variable {Θ : Type}

def buildAnsatz (numQubits : Nat) (params : List Θ) (initialState : List Bool) :
    Except Exc (QuantumCircuit Θ) :=
  if params.length ≠ parameterCount numQubits then
    .error (Exc.valueError ("expected " ++ toString (parameterCount numQubits) ++
      " parameters, got " ++ toString params.length))
  else
    let prepared := (initialState.zipIdx.filter fun entry => entry.1).map fun entry => Gate.x entry.2
    let first := (params.take numQubits).zipIdx.map fun entry => Gate.ry entry.1 entry.2
    let chain := ((List.range numQubits).reverse.filter fun control => 0 < control).map
      fun control => Gate.cx control (control - 1)
    let second := (params.drop numQubits).zipIdx.map fun entry => Gate.ry entry.1 entry.2
    .ok ⟨toString numQubits ++ "q-hardware-efficient-ansatz", numQubits,
      prepared ++ first ++ chain ++ second⟩

def basisRotation (qubit : Nat) : Pauli → List (Gate Θ)
  | .X => [.h qubit]
  | .Y => [.sdg qubit, .h qubit]
  | .Z => []

def buildMeasurementCircuit (params : List Θ) (term : PauliTerm)
    (molecule : MolecularHamiltonian) : Except Exc (QuantumCircuit Θ) := do
  if term.qubits.items = [] then
    throw (Exc.valueError "identity term needs no measurement circuit -- special-case it")
  let qc ← buildAnsatz molecule.numQubits params molecule.initialState
  let rotations := term.qubits.items.flatMap fun entry => basisRotation entry.1 entry.2
  return { qc with gates := qc.gates ++ rotations ++ [.measureAll] }

-- `bitstring[n - 1 - qubit]`, where a negative index counts from the end.
def bitAt (bitstring : List Char) (qubit : Nat) : Except Exc Char :=
  let n := bitstring.length
  let index := if qubit < n then n - 1 - qubit else 2 * n - 1 - qubit
  if qubit < 2 * n then
    match bitstring[index]? with
    | some bit => .ok bit
    | none => .error (Exc.indexError "string index out of range")
  else .error (Exc.indexError "string index out of range")

def signOf (bitstring : String) (qubits : List Nat) : Except Exc Int :=
  qubits.foldlM (fun sign qubit => do
    let bit ← bitAt bitstring.toList qubit
    return if bit = '1' then -sign else sign) 1

def pauliExpectationFromCounts (counts : Dict String Int) (term : PauliTerm) : Except Exc ℚ := do
  let total := counts.values.sum
  if total = 0 then
    throw (Exc.valueError "counts is empty")
  let acc ← counts.items.foldlM (fun (acc : ℚ) entry => do
    let sign ← signOf entry.1 term.qubits.keys
    return acc + sign * entry.2) 0
  return acc / total

end QuantumPlatform.Core

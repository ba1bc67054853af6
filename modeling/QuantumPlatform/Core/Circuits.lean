import QuantumPlatform.Python.Exception
import QuantumPlatform.Python.Dict
import Mathlib.Algebra.Field.Rat
import Mathlib.Data.Nat.Sqrt
import Mathlib.Data.Rat.Floor

namespace QuantumPlatform.Core

open Python

structure PhaseGate (Θ : Type) where
  theta : Θ

-- The operations the builders append. Angles live in a field of the caller's
-- choice: the services run with rationals, the semantics needs reals.
inductive Gate (Θ : Type) where
  | x (qubit : Nat)
  | z (qubit : Nat)
  | h (qubit : Nat)
  | sdg (qubit : Nat)
  | ry (theta : Θ) (qubit : Nat)
  | swap (first second : Nat)
  | cx (control target : Nat)
  | mcx (controls : List Nat) (target : Nat)
  | cp (theta : Θ) (control target : Nat)
  | controlledPower (unitary : PhaseGate Θ) (power control target : Nat)
  | phaseOracle (expression : String) (varOrder : List String)
  | measure (qubits clbits : List Nat)
  | measureAll

structure QuantumCircuit (Θ : Type) where
  name : String
  numQubits : Nat
  gates : List (Gate Θ)

-- The double that math.pi is.
def mathPi : ℚ := 884279719003555 / 281474976710656

def circuitError (message : String) : Exc := ⟨.named "CircuitError", message⟩

variable {Θ : Type}

section grover

def isBit (char : Char) : Bool := char = '0' || char = '1'

def validState (numQubits : Nat) (state : String) : Bool :=
  state.length = numQubits && state.toList.all isBit

-- Which bitstrings count as a match; an invalid problem cannot be built.
structure GroverProblem where
  numQubits : Nat
  markedStates : List String
  nonempty : markedStates ≠ []
  valid : ∀ state ∈ markedStates, validState numQubits state = true

def stateError (numQubits : Nat) (state : String) : Exc :=
  if state.length = numQubits then
    Exc.valueError ("marked state '" ++ state ++ "' must contain only '0'/'1'")
  else
    Exc.valueError ("marked state '" ++ state ++ "' has " ++ toString state.length ++
      " bits, expected " ++ toString numQubits)

def GroverProblem.new (numQubits : Nat) (markedStates : List String) :
    Except Exc GroverProblem :=
  if hne : markedStates = [] then
    .error (Exc.valueError "marked_states must contain at least one target bitstring")
  else
    match hfind : markedStates.find? fun state => !validState numQubits state with
    | some state => .error (stateError numQubits state)
    | none => .ok ⟨numQubits, markedStates, hne, by simpa using hfind⟩

-- max(1, floor(pi / 4 * sqrt(n / num_marked))), in exact arithmetic.
def optimalIterations (numQubits numMarked : Nat) : Except Exc Nat :=
  if numMarked = 0 then .error (Exc.valueError "num_marked must be >= 1")
  else
    let n : ℚ := 2 ^ numQubits
    .ok (max 1 (Nat.sqrt ⌊(mathPi / 4) ^ 2 * (n / numMarked)⌋.toNat))

def applyMcz (numQubits : Nat) : List (Gate Θ) :=
  if numQubits = 1 then [.z 0]
  else
    let target := numQubits - 1
    [.h target, .mcx (List.range (numQubits - 1)) target, .h target]

def applyOracle (markedStates : List String) (numQubits : Nat) : List (Gate Θ) :=
  markedStates.flatMap fun state =>
    let zeroBits := (state.toList.reverse.zipIdx.filter fun bit => bit.1 = '0').map Prod.snd
    zeroBits.map .x ++ applyMcz numQubits ++ zeroBits.map .x

def applyDiffuser (numQubits : Nat) : List (Gate Θ) :=
  (List.range numQubits).map .h ++ (List.range numQubits).map .x ++ applyMcz numQubits ++
    (List.range numQubits).map .x ++ (List.range numQubits).map .h

-- On no qubits already `qc.h(range(0))` raises.
def addressable (numQubits : Nat) : Except Exc Unit :=
  if numQubits = 0 then .error (circuitError "One or more of the arguments are empty")
  else .ok ()

def buildGroverCircuit (problem : GroverProblem) (iterations : Nat) :
    Except Exc (QuantumCircuit Θ) := do
  let n := problem.numQubits
  addressable n
  let rounds := (List.replicate iterations (applyOracle problem.markedStates n ++
    applyDiffuser n)).flatten
  return ⟨"grover", n, (List.range n).map .h ++ rounds ++ [.measureAll]⟩

end grover

section sat_search

structure BooleanSearchProblem where
  variableNames : List String
  expression : String

namespace BooleanSearchProblem

def numQubits (problem : BooleanSearchProblem) : Nat := problem.variableNames.length

-- itertools.product([False, True], repeat=n)
def product : Nat → List (List Bool)
  | 0 => [[]]
  | n + 1 => [false, true].flatMap fun bit => (product n).map (bit :: ·)

def bitstring (bits : List Bool) : String :=
  String.ofList (bits.reverse.map fun bit => if bit then '1' else '0')

-- `evalBooleanExpression` evaluates one assignment and may raise.
def countSolutions (problem : BooleanSearchProblem)
    (evalBooleanExpression : String → Dict String Bool → Except Exc Bool) :
    Except Exc (List String) := do
  let found ← (product problem.numQubits).mapM fun bits => do
    let assignment := Dict.ofList (problem.variableNames.zip bits)
    return (bits, ← evalBooleanExpression problem.expression assignment)
  return (found.filter Prod.snd).map fun entry => bitstring entry.1

end BooleanSearchProblem

-- `phaseOracleGate` says whether Qiskit accepts the expression.
def buildSatGroverCircuit (problem : BooleanSearchProblem) (iterations : Nat)
    (phaseOracleGate : String → List String → Except Exc Unit) :
    Except Exc (QuantumCircuit Θ) := do
  let n := problem.numQubits
  phaseOracleGate problem.expression problem.variableNames
  addressable n
  let rounds := (List.replicate iterations
    (.phaseOracle problem.expression problem.variableNames :: applyDiffuser n)).flatten
  return ⟨"grover-sat", n, (List.range n).map .h ++ rounds ++ [.measureAll]⟩

end sat_search

section qpe

variable [Field Θ]

def buildQftCircuit (pi : Θ) (numQubits : Nat) (inverse : Bool := false) : QuantumCircuit Θ :=
  let t := numQubits
  let swaps : List (Gate Θ) := (List.range (t / 2)).map fun i => .swap i (t - i - 1)
  if !inverse then
    ⟨"qft", t, swaps ++ (List.range t).flatMap fun j =>
      .h j :: (List.range' (j + 1) (t - (j + 1))).map fun k => .cp (pi / 2 ^ (k - j)) k j⟩
  else
    let idxs := (List.range t).reverse
    ⟨"qft_dagger", t, (idxs.zipIdx.flatMap fun entry =>
      .h entry.1 :: (idxs.drop (entry.2 + 1)).map fun k =>
        let d := ((idxs.idxOf k : Int) - (idxs.idxOf entry.1 : Int)).natAbs
        .cp (-pi / 2 ^ d) k entry.1) ++ swaps⟩

-- The target is one qubit, prepared by X, the eigenstate of the phase gate.
def buildQpeCircuit (pi : Θ) (unitary : PhaseGate Θ) (numCountingQubits : Nat) :
    QuantumCircuit Θ :=
  let t := numCountingQubits
  let counting := List.range t
  let qftDagger := buildQftCircuit pi t true
  ⟨"qpe", t + 1, [.x t] ++ counting.map .h ++
    (counting.map fun j => .controlledPower unitary (2 ^ j) j t) ++ qftDagger.gates ++
    [.measure counting counting]⟩

end qpe

-- The Bell pair of a calibration probe.
def buildBellCircuit : QuantumCircuit Θ :=
  ⟨"", 2, [.h 0, .cx 0 1, .measureAll]⟩

end QuantumPlatform.Core

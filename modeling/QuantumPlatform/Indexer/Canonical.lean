import QuantumPlatform.Python.Json

namespace QuantumPlatform.Indexer

open Python

-- What the indexer leaves to the language and its packages: str() and json.dumps with
-- sorted keys on JSON values, min() of a list, the format ".9g" and the embedding models.
structure Env where
  str : Json → String
  dumps : Json → String
  min : List Json → Except Exc Json
  format : ℚ → String
  encode : String → String → List ℚ

section values

def attributeError : Exc := ⟨.named "AttributeError", "object has no attribute 'get'"⟩

def truthy : Json → Bool
  | .null => false
  | .bool value => value
  | .int value => value ≠ 0
  | .float value => value ≠ 0
  | .str value => value ≠ ""
  | .arr items => !items.isEmpty
  | .obj fields => !fields.isEmpty

-- `first or second`, where the second is not evaluated in vain.
def orElse (first : Json) (second : Except Exc Json) : Except Exc Json :=
  if truthy first then .ok first else second

-- `value.get(name, fallback)`
def getOr (value : Json) (name : String) (fallback : Json) : Except Exc Json :=
  match value with
  | .obj fields => .ok (argument fields name fallback)
  | _ => .error attributeError

def get (value : Json) (name : String) : Except Exc Json := getOr value name .null

-- `value[name]`
def subscript (value : Json) (name : String) : Except Exc Json :=
  match value with
  | .obj fields =>
      match findField fields name with
      | some found => .ok found
      | none => .error (Exc.keyError ("'" ++ name ++ "'"))
  | _ => .error (Exc.typeError "indices must be integers")

def isNone : Json → Bool
  | .null => true
  | _ => false

end values

variable (env : Env)

def line (label : String) (value : Json) : String :=
  label ++ ": " ++ match value with
    | .arr _ => env.dumps value
    | .obj _ => env.dumps value
    | _ => env.str value

-- A line for one field of an object.
def fieldLine (label : String) (value : Json) (name : String) : Except Exc String := do
  return line env label (← get value name)

-- The energies of the history, as far as they are given.
def energiesOf : Json → Except Exc (List Json)
  | .arr items => do
      return (← items.mapM fun item => get item "energy").filter fun energy => !isNone energy
  | .obj _ => .error attributeError
  | .str _ => .error attributeError
  | _ => .error (Exc.typeError "object is not iterable")

def vqeLines (parameters result : Json) : Except Exc (List String) := do
  let molecule ← orElse (← get parameters "molecule") do
    orElse (← get result "molecule") (.ok (.str "h2"))
  let lines := [line env "Molecule" molecule,
    ← fieldLine env "Shots" parameters "shots",
    ← fieldLine env "Maximum optimizer iterations" parameters "max_iterations",
    ← fieldLine env "Energy (Ha)" result "energy",
    ← fieldLine env "Optimizer iterations" result "iterations",
    ← fieldLine env "Converged" result "converged"]
  let history ← orElse (← get result "history") (.ok (.arr []))
  let energies ← energiesOf history
  match energies with
  | [] => return lines
  | first :: _ =>
      return lines ++ [line env "Initial energy (Ha)" first,
        line env "Best energy (Ha)" (← env.min energies),
        line env "Energy trajectory (Ha)" (.arr energies)]

def groverLines (parameters result : Json) : Except Exc (List String) := do
  return [← fieldLine env "Shots" parameters "shots",
    ← fieldLine env "Marked states" parameters "marked_states",
    ← fieldLine env "Boolean expression" parameters "expression",
    ← fieldLine env "Measurement counts" result "counts"]

def qpeLines (parameters result : Json) : Except Exc (List String) := do
  return [← fieldLine env "True phase" parameters "phi",
    ← fieldLine env "Counting qubits" parameters "num_counting_qubits",
    ← fieldLine env "Shots" parameters "shots",
    ← fieldLine env "Estimated phase" result "estimated_phase",
    ← fieldLine env "Measurement counts" result "counts"]

-- An algorithm that cannot be hashed is not looked up in the set of names.
def algorithmLines (algorithm parameters result : Json) : Except Exc (List String) :=
  if algorithm.isStr "vqe" then vqeLines env parameters result
  else if !algorithm.hashable then .error (Exc.typeError "unhashable type")
  else if algorithm.isStr "grover" || algorithm.isStr "sat_grover" then
    groverLines env parameters result
  else if algorithm.isStr "qpe" then qpeLines env parameters result
  else .ok [line env "Parameters" parameters, line env "Result" result]

def canonicalExperimentText (experiment : Json) : Except Exc String := do
  let algorithm ← subscript experiment "algorithm"
  let parameters ← orElse (← get experiment "parameters") (.ok (.obj []))
  let result ← orElse (← get experiment "result") (.ok (.obj []))
  let status ← getOr experiment "status" (.str "unknown")
  let specific ← algorithmLines env algorithm parameters result
  let error ← get experiment "error"
  let lines := [line env "Algorithm" algorithm, line env "Status" status] ++ specific ++
    if truthy error then [line env "Error" error] else []
  return "\n".intercalate (lines.filter fun text => !text.endsWith ": None")

end QuantumPlatform.Indexer

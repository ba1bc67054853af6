import QuantumPlatform.Core.Molecules
import QuantumPlatform.Python.Json

namespace QuantumPlatform.Core

open Python

inductive JobStatus where
  | queued
  | running
  | completed
  | failed
  | cancelled
deriving DecidableEq, Repr

-- `shots` is whatever the task named; only the backend reads it.
structure Circuit where
  name : String
  numQubits : Nat
  payload : QuantumCircuit ℚ
  shots : Json

structure JobHandle where
  jobId : String
  backendName : String
deriving DecidableEq, Repr

structure ExperimentResult where
  jobId : String
  status : JobStatus
  counts : Option (Dict String Int) := none
  error : Option String := none

def transientBackendError (message : String) : Exc := ⟨.named "TransientBackendError", message⟩

-- `except TransientBackendError` catches it.
def isTransient (exc : Exc) : Bool := exc.cls = .named "TransientBackendError"

end QuantumPlatform.Core

import QuantumPlatform.Python.Exception
import Mathlib.Data.Rat.Defs

namespace QuantumPlatform.Python

-- What json.loads returns. An object keeps its pairs in order.
inductive Json where
  | null
  | bool (value : Bool)
  | int (value : Int)
  | float (value : ℚ)
  | str (value : String)
  | arr (items : List Json)
  | obj (fields : List (String × Json))
deriving Repr

namespace Json

def isStr (text : String) : Json → Bool
  | .str value => value = text
  | _ => false

-- A value is at most one string.
theorem isStr_false {first second : String} {value : Json} (h : value.isStr first = true)
    (hne : first ≠ second) : value.isStr second = false := by
  cases value with
  | str text =>
      have htext : text = first := of_decide_eq_true h
      exact decide_eq_false fun hsecond => hne (htext ▸ hsecond)
  | _ => cases h

-- Only strings, numbers, booleans and None may be looked up in a dict.
def hashable : Json → Bool
  | .arr _ => false
  | .obj _ => false
  | _ => true

end Json

-- The body of a message: bytes that decode() or json.loads rejects, or the
-- value that json.loads(body.decode()) returns. No consumer looks at the text
-- of a body in any other way.
inductive Body where
  | raw (bytes : List UInt8)
  | json (value : Json)

def loads : Body → Except Exc Json
  | .raw _ => .error (Exc.valueError "Expecting value")
  | .json value => .ok value

def findField (fields : List (String × Json)) (name : String) : Option Json :=
  (fields.find? fun field => decide (field.1 = name)).map Prod.snd

-- `cls(**payload)` for a dataclass: the payload has to be an object whose keys
-- are fields, and the fields without a default have to be there.
def keywords (required optional : List String) : Json → Except Exc (List (String × Json))
  | .obj fields =>
      match fields.find? fun field => decide (field.1 ∉ required ++ optional) with
      | some field => .error (Exc.typeError ("unexpected keyword argument '" ++ field.1 ++ "'"))
      | none =>
          match required.find? fun name => (findField fields name).isNone with
          | some name => .error (Exc.typeError ("missing required argument: '" ++ name ++ "'"))
          | none => .ok fields
  | _ => .error (Exc.typeError "argument after ** must be a mapping")

def argument (fields : List (String × Json)) (name : String) (fallback : Json) : Json :=
  (findField fields name).getD fallback

end QuantumPlatform.Python

import QuantumPlatform.Python.Json
import Mathlib.Data.Rat.Init
import Mathlib.Data.String.Basic

namespace QuantumPlatform.Python

namespace Json

def typeName : Json → String
  | .null => "NoneType"
  | .bool _ => "bool"
  | .int _ => "int"
  | .float _ => "float"
  | .str _ => "str"
  | .arr _ => "list"
  | .obj _ => "dict"

-- Numbers compare by value, whatever their types, and booleans are numbers.
def number : Json → Option ℚ
  | .bool value => some (if value then 1 else 0)
  | .int value => some value
  | .float value => some value
  | _ => none

mutual

-- `first == second`
def equals : Json → Json → Bool
  | .null, .null => true
  | .str text, .str other => text = other
  | .arr items, .arr others => equalsItems items others
  | .obj fields, .obj others => fields.length = others.length && equalsFields fields others
  | value, other =>
      match number value, number other with
      | some first, some second => first = second
      | _, _ => false

def equalsItems : List Json → List Json → Bool
  | [], [] => true
  | item :: items, other :: others => equals item other && equalsItems items others
  | _, _ => false

def equalsFields : List (String × Json) → List (String × Json) → Bool
  | [], _ => true
  | (name, value) :: fields, others =>
      (match findField others name with
        | some other => equals value other
        | none => false) && equalsFields fields others

end

mutual

-- `first < second`
def less : Json → Json → Except Exc Bool
  | .str text, .str other => .ok (text < other)
  | .arr items, .arr others => lessItems items others
  | value, other =>
      match number value, number other with
      | some first, some second => .ok (first < second)
      | _, _ => .error (Exc.typeError ("'<' not supported between instances of '" ++
          value.typeName ++ "' and '" ++ other.typeName ++ "'"))

-- The first items that differ decide.
def lessItems : List Json → List Json → Except Exc Bool
  | [], others => .ok (!others.isEmpty)
  | _ :: _, [] => .ok false
  | item :: items, other :: others =>
      if equals item other then lessItems items others else less item other

end

end Json

-- `min(values)`: the first of the least.
def minimum : List Json → Except Exc Json
  | [] => .error (Exc.valueError "min() iterable argument is empty")
  | first :: rest =>
      rest.foldlM (fun best item => do
        return if ← item.less best then item else best) first

example : minimum [.float (-7), .int (-8), .bool true] = .ok (.int (-8)) := rfl

end QuantumPlatform.Python

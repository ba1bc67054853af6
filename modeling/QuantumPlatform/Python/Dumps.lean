import QuantumPlatform.Python.Json
import Mathlib.Data.List.Sort
import Mathlib.Data.String.Basic

namespace QuantumPlatform.Python

-- `str()` and `json.dumps(value, sort_keys=True, separators=(",", ":"))`.
section strings

def hexDigits (code : Nat) : String :=
  String.ofList ([code / 4096, code / 256, code / 16, code].map fun part => Nat.digitChar (part % 16))

-- Everything outside printable ASCII is escaped, as two surrogates where one will not do.
def escaped (char : Char) : String :=
  match char.toNat with
  | 0x22 => "\\\""
  | 0x5c => "\\\\"
  | 0x0a => "\\n"
  | 0x0d => "\\r"
  | 0x09 => "\\t"
  | 0x0c => "\\f"
  | 0x08 => "\\b"
  | code =>
      if 0x20 ≤ code ∧ code ≤ 0x7e then String.singleton char
      else if code < 0x10000 then "\\u" ++ hexDigits code
      else
        let offset := code - 0x10000
        "\\u" ++ hexDigits (0xd800 + offset / 0x400) ++ "\\u" ++ hexDigits (0xdc00 + offset % 0x400)

def quoted (text : String) : String :=
  "\"" ++ String.join (text.toList.map escaped) ++ "\""

end strings

section values

-- `repr()` of floats, and of lists and dicts.
variable (repr : Json → String)

def str : Json → String
  | .null => "None"
  | .bool true => "True"
  | .bool false => "False"
  | .int value => toString value
  | .str text => text
  | value => repr value

mutual

def dumps : Json → String
  | .null => "null"
  | .bool true => "true"
  | .bool false => "false"
  | .int value => toString value
  | .float value => repr (.float value)
  | .str text => quoted text
  | .arr items => "[" ++ ",".intercalate (dumpsItems items) ++ "]"
  -- the keys of a dict are all different, so its pairs are in the order of the keys
  | .obj fields =>
      let sorted := (dumpsFields fields).insertionSort fun first second => first.1 ≤ second.1
      String.singleton '{' ++ ",".intercalate (sorted.map fun field => quoted field.1 ++ ":" ++ field.2) ++
        String.singleton '}'

def dumpsItems : List Json → List String
  | [] => []
  | item :: items => dumps item :: dumpsItems items

def dumpsFields : List (String × Json) → List (String × String)
  | [] => []
  | (name, value) :: fields => (name, dumps value) :: dumpsFields fields

end

theorem dumpsItems_eq_map (items : List Json) : dumpsItems repr items = items.map (dumps repr) := by
  induction items with
  | nil => rfl
  | cons item items ih => rw [dumpsItems, ih, List.map_cons]

theorem dumpsFields_eq_map (fields : List (String × Json)) :
    dumpsFields repr fields = fields.map fun field => (field.1, dumps repr field.2) := by
  induction fields with
  | nil => rfl
  | cons field fields ih => rw [dumpsFields, ih, List.map_cons]

end values

example : dumps (fun _ => "0.5")
    (.obj [("b", .arr [.null, .float (1 / 2)]), ("a\n", .str "é")]) =
      String.singleton '{' ++ "\"a\\n\":\"\\u00e9\",\"b\":[null,0.5]" ++ String.singleton '}' := by
  decide

end QuantumPlatform.Python

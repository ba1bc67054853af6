import QuantumPlatform.Core.Circuits
import QuantumPlatform.Parsing.Precedence
import Mathlib.Data.Int.Bitwise

namespace QuantumPlatform.Core

open Parsing Python

inductive Connective where
  | or
  | xor
  | and
deriving DecidableEq, Repr

namespace Connective

def text : Connective → String
  | .or => "|"
  | .xor => "^"
  | .and => "&"

-- Python's precedence: `&` before `^` before `|`, and `~` before all of them.
def level : Connective → ℕ
  | .or => 0
  | .xor => 1
  | .and => 2

-- What the operator does to two ints.
def onInts : Connective → ℤ → ℤ → ℤ
  | .or => Int.lor
  | .xor => Int.xor
  | .and => Int.land

def onBools : Connective → Bool → Bool → Bool
  | .or => (· || ·)
  | .xor => (· ^^ ·)
  | .and => (· && ·)

end Connective

abbrev Expression := Tree String Connective

namespace Expression

-- The Boolean meaning.
def value (assignment : String → Bool) : Expression → Bool
  | .atom name => assignment name
  | .unary operand => !value assignment operand
  | .binary op left right => op.onBools (value assignment left) (value assignment right)

def names : Expression → List String
  | .atom name => [name]
  | .unary operand => names operand
  | .binary _ left right => names left ++ names right

def subexpressions : Expression → List Expression
  | .atom name => [.atom name]
  | .unary operand => .unary operand :: subexpressions operand
  | .binary op left right => .binary op left right :: (subexpressions left ++ subexpressions right)

end Expression

section evaluation

-- The objects of an evaluation: `bit` is a _Bit, which is an int with operators of its
-- own, `dict` the empty dict that stands for the builtins.
inductive PyValue where
  | int (value : ℤ)
  | bit (value : ℤ)
  | dict
deriving DecidableEq, Repr

def ordinaryTypeError (message : String) : Ordinary := ⟨Exc.typeError message, rfl⟩

def notANumber : Ordinary := ordinaryTypeError
  "int() argument must be a string, a bytes-like object or a real number, not 'dict'"

namespace PyValue

def typeName : PyValue → String
  | .int _ => "int"
  | .bit _ => "_Bit"
  | .dict => "dict"

-- `~value`: on an int it is arithmetic.
def invert : PyValue → Except Ordinary PyValue
  | .bit value => .ok (.bit (1 - value))
  | .int value => .ok (.int (-value - 1))
  | .dict => .error (ordinaryTypeError "bad operand type for unary ~: 'dict'")

def connect (op : Connective) : PyValue → PyValue → Except Ordinary PyValue
  | .bit first, .bit second => .ok (.bit (op.onInts first second))
  | .bit first, .int second => .ok (.bit (op.onInts first second))
  | .bit _, .dict => .error notANumber
  | .int first, .bit second => .ok (.int (op.onInts first second))
  | .int first, .int second => .ok (.int (op.onInts first second))
  | first, second =>
      if op = .or ∧ first = .dict ∧ second = .dict then .ok .dict
      else .error (ordinaryTypeError ("unsupported operand type(s) for " ++ op.text ++ ": '" ++
        first.typeName ++ "' and '" ++ second.typeName ++ "'"))

-- `bool(int(value))`
def toBool : PyValue → Except Ordinary Bool
  | .int value => .ok (decide (value ≠ 0))
  | .bit value => .ok (decide (value ≠ 0))
  | .dict => .error notANumber

end PyValue

-- A name is looked up among the variables, then in the globals that eval was given.
def lookup (assignment : Dict String Bool) (name : String) : Except Ordinary PyValue :=
  match assignment.get? name with
  | some val => .ok (.bit (if val then 1 else 0))
  | none =>
      if name = "__builtins__" then .ok .dict
      else .error ⟨⟨.named "NameError", "name '" ++ name ++ "' is not defined"⟩, rfl⟩

def evaluate (assignment : Dict String Bool) : Expression → Except Ordinary PyValue
  | .atom name => lookup assignment name
  | .unary operand => do (← evaluate assignment operand).invert
  | .binary op left right => do
      let first ← evaluate assignment left
      let second ← evaluate assignment right
      first.connect op second

end evaluation

section identifiers

-- What Python's tables say about names that are not ASCII: str.isidentifier and NFKC.
structure Unicode where
  isIdentifier : String → Bool
  normalize : String → String

def isAscii (text : String) : Bool := text.toList.all fun char => char.toNat < 128

def nameChar (char : Char) : Bool := char.isAlphanum || char = '_' || 128 ≤ char.toNat

def Unicode.identifier (unicode : Unicode) (text : String) : Bool :=
  text.toList.all nameChar &&
    if isAscii text then
      match text.toList with
      | [] => false
      | first :: _ => !first.isDigit
    else unicode.isIdentifier text

-- The parser turns every name into its normal form.
def Unicode.normal (unicode : Unicode) (text : String) : String :=
  if isAscii text then text else unicode.normalize text

-- The keywords, and the one constant that is written like a name.
def reservedWords : List String :=
  ["False", "None", "True", "and", "as", "assert", "async", "await", "break", "class", "continue",
    "def", "del", "elif", "else", "except", "finally", "for", "from", "global", "if", "import", "in",
    "is", "lambda", "nonlocal", "not", "or", "pass", "raise", "return", "try", "while", "with",
    "yield", "__debug__"]

def Unicode.readName (unicode : Unicode) (text : String) : Option String :=
  if unicode.identifier text ∧ text ∉ reservedWords ∧ unicode.normal text ∉ reservedWords then
    some (unicode.normal text)
  else none

end identifiers

section lexer

def symbol : Char → Option (Token String Connective)
  | '~' => some .unary
  | '&' => some (.binary .and)
  | '^' => some (.binary .xor)
  | '|' => some (.binary .or)
  | '(' => some .opening
  | ')' => some .closing
  | _ => none

def blank (char : Char) : Bool := char = ' ' || char = '\t'

variable (unicode : Unicode)

-- The name that has been read so far, in front of the rest.
def withName (pending : List Char) (rest : Option (List (Token String Connective))) :
    Option (List (Token String Connective)) :=
  if pending = [] then rest
  else do
    let name ← unicode.readName (String.ofList pending)
    return .atom name :: (← rest)

-- `none` where a character belongs to no expression over names and the operators.
def lexFrom (pending : List Char) : List Char → Option (List (Token String Connective))
  | [] => withName unicode pending (some [])
  | char :: rest =>
      if nameChar char then lexFrom (pending ++ [char]) rest
      else if blank char then withName unicode pending (lexFrom [] rest)
      else withName unicode pending (do
        let token ← symbol char
        return token :: (← lexFrom [] rest))

end lexer

-- eval_boolean_expression. `elsewhere` is what eval makes of any other text: literals,
-- calls, comparisons, or no expression at all.
def evalBooleanExpression (unicode : Unicode)
    (elsewhere : String → Dict String Bool → Except Ordinary Bool)
    (expression : String) (assignment : Dict String Bool) : Except Ordinary Bool :=
  match (lexFrom unicode [] expression.toList).bind (parse Connective.level) with
  | some tree => do (← evaluate assignment tree).toBool
  | none => elsewhere expression assignment

end QuantumPlatform.Core

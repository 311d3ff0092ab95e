import Centroids.Number.Numeral
import Centroids.Text.Quoted

/-!
Loosely typed values.  Options and data arrive as any of these, are kept as they came, and are
judged where they are used.
-/
namespace Centroids

inductive Value
  | null
  | bool (b : Bool)
  | int (n : Int)
  | double (x : Float)
  | text (s : String)
  | list (items : List Value)
  | dict (entries : List (String × Value))

namespace Value

instance : Inhabited Value := ⟨.null⟩

/-- A truth value counts as 0 or 1. -/
def numeral? : Value → Option Numeral
  | .bool b => some (.int b.toNat)
  | .int n => some (.int n)
  | .double x => some (.double x)
  | _ => none

/-- Zero, empty and null values are false, all others true. -/
def isTruthy : Value → Bool
  | .null => false
  | .bool b => b
  | .int n => n != 0
  | .double x => x != 0
  | .text s => !s.isEmpty
  | .list items => !items.isEmpty
  | .dict entries => !entries.isEmpty

/-- The elements of a list; those of a text are texts of one character. -/
def items? : Value → Option (List Value)
  | .list items => some items
  | .text s => some (s.toList.map fun c => .text (String.singleton c))
  | _ => none

/-- The name of a value's type, as error texts give it. -/
def typeText : Value → String
  | .null => "<class 'NoneType'>"
  | .bool _ => "<class 'bool'>"
  | .int _ => "<class 'int'>"
  | .double _ => "<class 'float'>"
  | .text _ => "<class 'str'>"
  | .list _ => "<class 'list'>"
  | .dict _ => "<class 'dict'>"

mutual

/-- A value as it stands inside a list: texts are quoted. -/
def literal : Value → String
  | .null => "None"
  | .bool true => "True"
  | .bool false => "False"
  | .int n => toString n
  | .double x => doubleText x
  | .text s => Text.quoted s
  | .list items => "[" ++ String.intercalate ", " (literals items) ++ "]"
  | .dict entries => "\x7b" ++ String.intercalate ", " (entryLiterals entries) ++ "\x7d"

def literals : List Value → List String
  | [] => []
  | v :: vs => literal v :: literals vs

def entryLiterals : List (String × Value) → List String
  | [] => []
  | (key, v) :: rest => (Text.quoted key ++ ": " ++ literal v) :: entryLiterals rest

end

/-- A value as error texts show it: a text stands for itself. -/
def plain : Value → String
  | .text s => s
  | v => v.literal

end Value

end Centroids

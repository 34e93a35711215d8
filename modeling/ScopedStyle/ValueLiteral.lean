import ScopedStyle.DecimalText
import ScopedStyle.QuotedText
import ScopedStyle.Value

/-! How a value is written out in a message: texts quoted, numbers in decimal, arrays and mappings
between their brackets. What is set aside of writing values out is said where they are described. -/
namespace ScopedStyle

/-- Items separated by a comma and a space. -/
def commaSeparated (items : List String) : String :=
  String.intercalate ", " items

/-- A truth value as it is spelled. -/
def spelledTruth (truth : Bool) : String :=
  if truth then "True" else "False"

/-- Kinds that have one object each, with the name that the object is written by. -/
def soleObjects : List (String × String) :=
  [("ellipsis", "Ellipsis"), ("NotImplementedType", "NotImplemented")]

namespace Value

mutual

/-- The literal of a value. -/
def literal : Value → String
  | .text characters => quoted characters
  | .int number => number.repr
  | .float number => number.decimalText
  | .bool truth => spelledTruth truth
  | .null => "None"
  | .list items => "[" ++ commaSeparated (literals items) ++ "]"
  | .tuple [item] => "(" ++ item.literal ++ ",)"
  | .tuple items => "(" ++ commaSeparated (literals items) ++ ")"
  | .map entries => "\x7b" ++ commaSeparated (entryLiterals entries) ++ "\x7d"
  | .type name _ => "<class " ++ quoted name ++ ">"
  | .foreign thing => (soleObjects.lookup thing.kind).getD ("<" ++ thing.kind ++ " object>")
  | .object bare => "<" ++ bare.kind ++ " object>"
  | .derived _ content => content.literal

/-- The literals of the items of an array. -/
def literals : List Value → List String
  | [] => []
  | item :: rest => item.literal :: literals rest

/-- The literals of the entries of a mapping. -/
def entryLiterals : List (Value × Value) → List String
  | [] => []
  | (key, value) :: rest => (key.literal ++ ": " ++ value.literal) :: entryLiterals rest

end

end Value

end ScopedStyle

import ScopedNames.Dialect.Outline

set_option autoImplicit false

namespace ScopedNames.Dialect

-- What may fail where an item that has been read becomes one of the unit.
inductive Conversion where
  | located
  | integer (digits : Nat)

def maxDigits : Nat := 4300

def Argument.conversions (a : Argument Span) : List Conversion :=
  match a.value with
  | .int _ => [.integer a.span.width]
  | .bool _ => []
  | .name _ => [.located]

def Attribute.conversions (a : Attribute Span) : List Conversion :=
  a.arguments.flatMap Argument.conversions ++ [.located]

-- The first name of a path is a token, the others are items of their own.
def Visit.conversions : Visit Span → List Conversion
  | enter path list =>
    list.flatMap Attribute.conversions ++ path.tail.map fun _ => .located
  | leave _ => [.located]
  | directive _ list => list.flatMap Attribute.conversions ++ [.located, .located]
  | attributes list => list.flatMap Attribute.conversions ++ [.located]
  | empty => [.located]

/-- An item is converted behind the items in it, and the unit behind all others. -/
def conversionsOf (ds : List (Declaration Span)) : List Conversion :=
  (outline ds).flatMap Visit.conversions ++ [.located]

end ScopedNames.Dialect

set_option autoImplicit false

namespace ScopedNames.Files

structure Path where
  anchor : String
  parts : List String
  deriving DecidableEq

namespace Path

-- Two slashes in front, and no third, are an anchor of their own.
def anchorOf : List Char → String
  | '/' :: '/' :: '/' :: _ => "/"
  | '/' :: '/' :: _ => "//"
  | '/' :: _ => "/"
  | _ => ""

def ofString (written : String) : Path where
  anchor := anchorOf written.toList
  parts := (written.toList.splitOn '/').filterMap fun part =>
    if part = [] ∨ part = ['.'] then none else some (String.ofList part)

def text (p : Path) : String :=
  if p.anchor = "" ∧ p.parts = [] then "." else p.anchor ++ "/".intercalate p.parts

def parent (p : Path) : Path := { p with parts := p.parts.dropLast }

def name (p : Path) : String := p.parts.getLastD ""

def join (p : Path) (more : List String) : Path := { p with parts := p.parts ++ more }

-- The name up to its last dot, unless the dot stands at an end of the name.
def stem (p : Path) : String :=
  let reversed := p.name.toList.reverse
  let suffix := reversed.takeWhile (· != '.')
  match reversed.drop suffix.length with
  | '.' :: c :: front =>
    if suffix.isEmpty then p.name else String.ofList (c :: front).reverse
  | _ => p.name

end Path

end ScopedNames.Files

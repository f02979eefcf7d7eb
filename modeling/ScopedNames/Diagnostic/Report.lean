import ScopedNames.Diagnostic.Basic
import ScopedNames.Diagnostic.Style

set_option autoImplicit false

namespace ScopedNames

abbrev Sources := List (String × String)

def sourceLines (source : List Char) : List (List Char) := source.splitOn '\n'

def sourceLine (source : List Char) (number : Int) : List Char :=
  if 0 < number then ((sourceLines source)[number.toNat - 1]?).getD [] else []

def endsWord (c : Char) : Bool := " \t;,()[]\x7b\x7d".toList.contains c

namespace Diagnostic

-- Where no end is known, what is underlined goes up to the next delimiter.
def caretCount (l : Location) (line : List Char) : Nat :=
  if l.endLine = l.line ∧ l.column < l.endColumn then (l.endColumn - l.column).toNat
  else max 1 ((line.drop (max l.column 1 - 1).toNat).takeWhile fun c => !endsWord c).length

def spaces (n : Nat) : String := String.ofList (List.replicate n ' ')

def nonempty (s : Option String) : Option String := s.filter (!·.isEmpty)

def annotations (d : Diagnostic) (gutter : Nat) : List StyledLine :=
  let bar := spaces (gutter + 1)
  let entry (kind : String) (text : Option String) : List StyledLine :=
    match nonempty text with
    | none => []
    | some text => [[.styled [Fragment.bold, Fragment.cyan] (bar ++ "= "),
        .styled [Fragment.bold] (kind ++ ": "), .plain text]]
  let entries := entry "help" d.help ++ entry "note" d.note
  if entries.isEmpty then []
  else [.styled [Fragment.bold, Fragment.blue] (bar ++ "|")] :: entries

def excerpt (d : Diagnostic) (l : Location) (source : List Char) : List StyledLine :=
  let number := l.line.repr
  let pad := spaces number.length
  let line := sourceLine source l.line
  let carets := spaces (max l.column 1 - 1).toNat ++
    String.ofList (List.replicate (caretCount l line) '^') ++
    match nonempty d.label with
    | some label => " " ++ label
    | none => ""
  let gutter := Fragment.styled [Fragment.bold, Fragment.blue]
  [[gutter (pad ++ " |")], [gutter (number ++ " | "), ⟨[], line⟩],
    [gutter (pad ++ " | "), .styled [Fragment.bold, Fragment.red] carets]]

def header (d : Diagnostic) : StyledLine :=
  let code := match nonempty d.code with
    | some code => "[" ++ code ++ "]"
    | none => ""
  [.styled [Fragment.bold, Fragment.red] ("error" ++ code),
    .styled [Fragment.bold] (": " ++ d.message)]

def lines (sources : Sources) (d : Diagnostic) : List StyledLine :=
  let arrow (pad : String) := Fragment.styled [Fragment.bold, Fragment.blue] (pad ++ "--> ")
  match d.location with
  | none => d.header :: [arrow " ", .plain "<unknown location>"] :: d.annotations 1
  | some l =>
    let gutter := l.line.repr.length
    let shown := match sources.lookup l.file with
      | some source => d.excerpt l source.toList
      | none => []
    d.header :: [arrow (spaces gutter), .plain l.text] :: shown ++ d.annotations gutter

def render (sources : Sources) (color : Bool) (d : Diagnostic) : List Char :=
  paintLines color (d.lines sources)

def countLine (count : Nat) : StyledLine :=
  [.styled [Fragment.bold, Fragment.red] "error",
    .styled [Fragment.bold]
      (": " ++ count.repr ++ " error" ++ (if count = 1 then "" else "s") ++ " found")]

def report (sources : Sources) (color : Bool) (diagnostics : List Diagnostic) : List Char :=
  List.intercalate ['\n', '\n']
    (diagnostics.map (render sources color) ++ [paintLine color (countLine diagnostics.length)])

end Diagnostic

abbrev Environment := List (String × String)

-- Colours are for those who ask for them, and never for those who refuse them.
def wantsColor (env : Environment) : Bool :=
  ((env.lookup "NO_COLOR").getD "").isEmpty &&
    ((env.lookup "NSRESOLVE_COLOR").getD "").map Char.toLower ∈ ["1", "true", "yes", "always"]

end ScopedNames

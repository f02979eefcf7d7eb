import ScopedNames.Dialect.Conversion
import ScopedNames.Dialect.Phase
import ScopedNames.Problem

set_option autoImplicit false

namespace ScopedNames.Dialect

inductive SyntaxFault where
  | unexpectedCharacter (c : Char)
  | unexpectedToken (text : String) (expected : List Terminal)
  | unexpectedEnd

-- Where a name could stand, keywords are not listed beside it.
def listed (allowed : List Terminal) : List Terminal :=
  if allowed.contains .name then allowed.filter fun t => !Terminal.keywords.contains t
  else allowed

def SyntaxFault.message : SyntaxFault → String
  | unexpectedCharacter c => "unexpected character " ++ Text.quote (String.singleton c)
  | unexpectedToken text expected =>
    let labels := (expected.map Terminal.label).mergeSort
    "unexpected token " ++ Text.quote text ++ ", expected one of " ++ ", ".intercalate labels
  | unexpectedEnd => "unexpected end of input"

-- Reads what is left after some progress; `last` is where the last token began.
def readFrom (p : Progress) (cursor : Cursor) (last : Place) :
    Except (SyntaxFault × Place) (List (Declaration Span)) :=
  match h : scan p.allowed cursor with
  | .finished => if p.isComplete then .ok p.declared else .error (.unexpectedEnd, last)
  | .unknown c place => .error (.unexpectedCharacter c, place)
  | .misplaced text place =>
    .error (.unexpectedToken (String.ofList text) (listed p.allowed), place)
  | .token token behind =>
    match p.feed token with
    | .error expected =>
      .error (.unexpectedToken (String.ofList token.text) expected, token.span.start)
    | .ok p' =>
      have := scan_length_lt h
      readFrom p' behind token.span.start
termination_by cursor.rest.length

def readDeclarations (source : String) :
    Except (SyntaxFault × Place) (List (Declaration Span)) :=
  readFrom .start ⟨.origin, source.toList⟩ .origin

inductive UnitFault where
  | atPlace (fault : SyntaxFault) (location : Location)
  | unnamedFile
  | overlongInteger (digits : Nat)

def UnitFault.problem : UnitFault → Problem
  | atPlace fault location => .inSource fault.message (some location)
  | unnamedFile =>
    .misuse
      "Parser bug: current_file not set. Parser must set current_file before transforming."
      Problem.internalCode
  | overlongInteger digits =>
    .badValue ("Exceeds the limit (" ++ maxDigits.repr ++
      " digits) for integer string conversion: value has " ++ digits.repr ++
      " digits; use sys.set_int_max_str_digits() to increase the limit")

def Conversion.fault? (file : String) : Conversion → Option UnitFault
  | located => if file.isEmpty then some .unnamedFile else none
  | integer digits => if maxDigits < digits then some (.overlongInteger digits) else none

def readUnit (file source : String) : Except UnitFault SourceUnit :=
  match readDeclarations source with
  | .error (fault, place) => .error (.atPlace fault (place.locate file))
  | .ok declarations =>
    match (conversionsOf declarations).findSome? (·.fault? file) with
    | some fault => .error fault
    | none => .ok ⟨file, declarations⟩

end ScopedNames.Dialect

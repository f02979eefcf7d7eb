set_option autoImplicit false

namespace ScopedNames

/--
A stretch of a source file. Lines and columns count from 1 and offsets from 0; a location that is
only a point leaves the last four at 0.
-/
structure Location where
  file : String
  line : Int
  column : Int
  start : Int := 0
  stop : Int := 0
  endLine : Int := 0
  endColumn : Int := 0
  deriving DecidableEq, Repr, Inhabited

def Location.text (l : Location) : String :=
  l.file ++ ":" ++ l.line.repr ++ ":" ++ l.column.repr

end ScopedNames

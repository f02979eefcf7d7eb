set_option autoImplicit false

namespace ScopedNames

structure Fragment where
  styles : List Nat
  text : List Char
  deriving DecidableEq

namespace Fragment

def bold : Nat := 1

def red : Nat := 31

def blue : Nat := 34

def cyan : Nat := 36

def plain (text : String) : Fragment := ⟨[], text.toList⟩

def styled (styles : List Nat) (text : String) : Fragment := ⟨styles, text.toList⟩

def escapeCode (code : Nat) : List Char := '\x1b' :: '[' :: Nat.toDigits 10 code ++ ['m']

def paint (color : Bool) (f : Fragment) : List Char :=
  if color && !f.styles.isEmpty then
    f.styles.flatMap escapeCode ++ f.text ++ escapeCode 0
  else f.text

end Fragment

abbrev StyledLine := List Fragment

def paintLine (color : Bool) (line : StyledLine) : List Char :=
  line.flatMap (·.paint color)

def paintLines (color : Bool) (lines : List StyledLine) : List Char :=
  List.intercalate ['\n'] (lines.map (paintLine color))

end ScopedNames

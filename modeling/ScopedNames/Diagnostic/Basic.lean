import ScopedNames.Location

set_option autoImplicit false

namespace ScopedNames

structure Diagnostic where
  message : String
  location : Option Location
  code : Option String := none
  label : Option String := none
  note : Option String := none
  help : Option String := none
  deriving DecidableEq

namespace Diagnostic

def parseError : String := "E0001"

def unresolvedDirective : String := "E0002"

def inlineMismatch : String := "E0003"

def expectedNothing : String := "E0100"

def expectedSomething : String := "E0101"

def missingTag : String := "E0102"

def tagMismatch : String := "E0103"

def badAttribute : String := "E0200"

end Diagnostic

end ScopedNames

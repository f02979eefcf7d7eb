import ScopedNames.Dump.Document
import ScopedNames.Proofs.Dump.Recovery

set_option autoImplicit false

namespace ScopedNames

def Session.renumbered {τ π : Type} (s : Session τ π) (number : Nat) : Session τ π :=
  { s with tree := { s.tree with session := number } }

namespace Document

mutual

/-- A document without the ids of its scopes. -/
def withoutIds : Document → Document
  | sequence items => sequence (withoutIdsOf items)
  | mapping entries => mapping (entriesWithoutIds entries)
  | d => d

def withoutIdsOf : List Document → List Document
  | [] => []
  | d :: ds => d.withoutIds :: withoutIdsOf ds

def entriesWithoutIds : List (String × Document) → List (String × Document)
  | [] => []
  | (key, d) :: entries =>
    if key = "id" then entriesWithoutIds entries
    else (key, d.withoutIds) :: entriesWithoutIds entries

end

end Document

open Document

variable {τ π : Type} [Datum τ] [Datum π] (s : Session τ π) (number : Nat) (positions : Bool)

end ScopedNames

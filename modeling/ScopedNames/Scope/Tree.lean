import ScopedNames.Scope.Table

set_option autoImplicit false

namespace ScopedNames

structure ScopeId where
  session : Int
  index : Int
  deriving DecidableEq, Repr

namespace ScopeId

def text (id : ScopeId) : String := id.session.repr ++ ":" ++ id.index.repr

def isRoot (id : ScopeId) : Bool := id.index == 0

end ScopeId

-- The scopes of one session, and every later declaration of a scope that was there already.
structure ScopeTree (τ π : Type) extends ScopeTable τ π where
  session : Nat
  reopenings : List Nat

namespace ScopeTree

variable {τ π : Type}

def new (session : Nat) : ScopeTree τ π := ⟨.empty, session, []⟩

def idOf (t : ScopeTree τ π) (i : Nat) : ScopeId := ⟨t.session, i⟩

def find? (t : ScopeTree τ π) (id : ScopeId) : Option (Fin t.size) :=
  if h : id.session = t.session ∧ 0 ≤ id.index ∧ id.index < t.size then
    some ⟨id.index.toNat, by omega⟩
  else none

def reopened (t : ScopeTree τ π) (i : Nat) : Nat := t.reopenings.count i

/--
Declares a name under a scope. A member of that name is reopened and stays as its first
declaration left it; otherwise the next index names a new scope.
-/
def declare (t : ScopeTree τ π) (segment : Segment) (enclosing : Fin t.size) (tag : Option τ)
    (position : Option π) (isInline : Bool) (location : Option Location) :
    ScopeTree τ π × Nat :=
  match t.child? enclosing segment.name with
  | some existing => ({ t with reopenings := existing :: t.reopenings }, existing)
  | none =>
    let scope : Scope τ π := ⟨enclosing, segment, tag, position, isInline, location⟩
    ({ t with toScopeTable := t.add scope enclosing.isLt }, t.size)

end ScopeTree

end ScopedNames

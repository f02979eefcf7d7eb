import ScopedNames.Scope.Lookup
import ScopedNames.Session.Import

set_option autoImplicit false

namespace ScopedNames

inductive Via where
  | global
  | enclosing
  | imported
  deriving DecidableEq, Repr

def Via.text : Via → String
  | global => "global"
  | enclosing => "enclosing"
  | imported => "import"

structure Found where
  node : Nat
  via : Via
  start : Nat
  deriving DecidableEq, Repr

namespace ScopeTable

variable {τ π : Type} [LT π] [DecidableLT π]

def searchFrom (t : ScopeTable τ π) (names : List String) (now : Option π) (via : Via)
    (starts : List Nat) : Option Found :=
  starts.findSome? fun start => (t.reach (t.isVisible now) start names).map (⟨·, via, start⟩)

/--
A rooted path is searched from the root, any other from each enclosing scope outwards; either is
then searched from the imported scopes.
-/
def resolve (t : ScopeTable τ π) (recorded : List (Import π)) (r : Reference) (scope : Nat)
    (now : Option π) : Option Found :=
  let direct :=
    if r.rooted then t.searchFrom r.names now .global [root]
    else t.searchFrom r.names now .enclosing (t.chain scope)
  direct.or (t.searchFrom r.names now .imported (t.activeImports recorded (t.chain scope) now))

def describe [Datum τ] (t : ScopeTable τ π) : Option Found → String
  | none => "<unresolved>"
  | some found =>
    let tag := (t.scope? found.node).bind (·.tag)
    t.qualifiedName found.node ++ " (tag=" ++ quoteDatum tag ++ ", via " ++ found.via.text ++ ")"

end ScopeTable

end ScopedNames

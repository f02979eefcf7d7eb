import ScopedNames.Scope.Table

set_option autoImplicit false

namespace ScopedNames

/--
A directive that opens the members of `target` to look-ups from inside `scope`. One whose path
led nowhere when it was issued has no target and stays without effect.
-/
structure Import (π : Type) where
  path : Reference
  target : Option Nat
  scope : Nat
  position : Option π

def Import.isInert {π : Type} (d : Import π) : Bool := d.target.isNone

section Visibility

variable {τ π : Type} [LT π] [DecidableLT π]

-- Strictly earlier; what has no position is not ordered.
def before : Option π → Option π → Bool
  | some p, some q => decide (p < q)
  | _, _ => false

def ScopeTable.isVisible (t : ScopeTable τ π) (now : Option π) (i : Nat) : Bool :=
  match t.scope? i with
  | none => i == root
  | some s => before s.position now

def importsIn (recorded : List (Import π)) (scope : Nat) : List (Import π) :=
  recorded.filter (·.scope == scope)

-- The directives of one scope count up to the first that was not issued before the position.
def issuedBefore (recorded : List (Import π)) (now : Option π) (scope : Nat) : List (π × Nat) :=
  ((importsIn recorded scope).takeWhile fun d => before d.position now).filterMap fun d =>
    match d.position, d.target with
    | some p, some target => some (p, target)
    | _, _ => none

def ScopeTable.importLE (t : ScopeTable τ π) (a b : π × Nat) : Bool :=
  decide (a.1 < b.1) || !decide (b.1 < a.1) && !decide (t.path b.2 < t.path a.2)

/-- The scopes that the directives of an enclosing chain open at a position, each once. -/
def ScopeTable.activeImports (t : ScopeTable τ π) (recorded : List (Import π))
    (chain : List Nat) (now : Option π) : List Nat :=
  (((chain.flatMap (issuedBefore recorded now)).mergeSort t.importLE).map (·.2)).eraseDups

end Visibility

end ScopedNames

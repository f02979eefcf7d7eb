import ScopedNames.Scope.Table

set_option autoImplicit false

namespace ScopedNames.ScopeTable

variable {τ π : Type}

/--
The way from a scope down to its member of a name. Inline members are transparent: where no
visible member has the name, the visible inline members are searched in order, depth first, and
those crossed are part of the way. The start is not.
-/
def routeTo (t : ScopeTable τ π) (visible : Nat → Bool) (i : Nat) (name : String) :
    Option (List Nat) :=
  match (t.child? i name).filter visible with
  | some member => some [member]
  | none =>
    (t.inlineChildren i).attach.findSome? fun ⟨j, hj⟩ =>
      have := lt_of_mem_inlineChildren hj
      if visible j then (t.routeTo visible j name).map (j :: ·) else none
termination_by t.size - i

-- The way along several names; what one name led to is never reconsidered for the next.
def routeAlong (t : ScopeTable τ π) (visible : Nat → Bool) (i : Nat) :
    List String → Option (List Nat)
  | [] => some []
  | name :: names =>
    match t.routeTo visible i name with
    | none => none
    | some step => (t.routeAlong visible (step.getLastD i) names).map (step ++ ·)

def reach (t : ScopeTable τ π) (visible : Nat → Bool) (i : Nat) (names : List String) :
    Option Nat :=
  (t.routeAlong visible i names).map (·.getLastD i)

def everything : Nat → Bool := fun _ => true

def isDeclared (t : ScopeTable τ π) (names : List String) : Bool :=
  (t.reach everything root names).isSome

def tagOf (t : ScopeTable τ π) (names : List String) : Option τ :=
  (t.reach everything root names).bind fun i => (t.scope? i).bind (·.tag)

end ScopedNames.ScopeTable

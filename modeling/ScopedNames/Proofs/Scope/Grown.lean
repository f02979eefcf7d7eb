import ScopedNames.Proofs.Scope.Members
import ScopedNames.Scope.Tree

set_option autoImplicit false

namespace ScopedNames.ScopeTree

variable {τ π : Type} {t : ScopeTree τ π} {number : Nat}

/-- The trees that declarations alone make, at any positions and in any order of them. -/
inductive Grown (number : Nat) : ScopeTree τ π → Prop where
  | new : Grown number (.new number)
  | declare {t : ScopeTree τ π} (grown : Grown number t) (segment : Segment)
      (enclosing : Fin t.size) (tag : Option τ) (position : Option π) (isInline : Bool)
      (location : Option Location) :
      Grown number (t.declare segment enclosing tag position isInline location).1

theorem Grown.add (grown : Grown number t) {s : Scope τ π} (inside : s.parent < t.size)
    (fresh : t.child? s.parent s.name.name = none) :
    Grown number { t with toScopeTable := t.add s inside } := by
  have declared := grown.declare s.name ⟨s.parent, inside⟩ s.tag s.position s.isInline s.location
  unfold ScopeTree.declare at declared
  split at declared
  · next found => cases fresh.symm.trans found
  · exact declared

theorem declare_uniqueNames {segment : Segment} {enclosing : Fin t.size} {tag : Option τ}
    {position : Option π} {isInline : Bool} {location : Option Location}
    (unique : t.UniqueNames) :
    (t.declare segment enclosing tag position isInline location).1.UniqueNames := by
  unfold declare
  split
  · exact unique
  · next fresh => exact unique.add enclosing.isLt fresh

theorem Grown.uniqueNames (grown : Grown number t) : t.UniqueNames := by
  induction grown with
  | new =>
    intro i j a b first
    cases i <;> cases first
  | declare _ segment enclosing tag position isInline location ih => exact declare_uniqueNames ih

end ScopedNames.ScopeTree

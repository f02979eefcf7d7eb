import ScopedNames.Proofs.Check.Renumbering
import ScopedNames.Proofs.Check.Verdict

set_option autoImplicit false

namespace ScopedNames.Check

open Dialect Walk

def checksIn : Visit Span → List (Expectation × Span × QualifiedName Span)
  | .attributes attributes => attributes.filterMap checkOf
  | _ => []

def wellFormedChecks (ds : List (Declaration Span)) :
    List (Expectation × Span × QualifiedName Span) :=
  (outline ds).flatMap checksIn

variable {file source : String} {u : SourceUnit} {w : Walk} {s : Session Nat Nat}

theorem countP_attributeDemands (scope position : Nat) (attributes : List (Attribute Span)) :
    (attributeDemands scope position attributes).countP Demand.isCheck =
      (attributes.filterMap checkOf).length := by
  induction attributes generalizing position with
  | nil => rfl
  | cons a attributes ih =>
    rw [attributeDemands]
    cases read : checkOf a <;> simp [read, ih, Demand.isCheck, List.countP_cons]

theorem countP_pathDemands (scope position : Nat) (path : List (PathSegment Span)) :
    (pathDemands s scope position path).countP Demand.isCheck = 0 := by
  induction path generalizing scope position with
  | nil => rfl
  | cons segment path ih => simp [pathDemands, ih, Demand.isCheck]

mutual

theorem countP_demandsOf : ∀ (scope position : Nat) (ds : List (Declaration Span)),
    (demandsOf s scope position ds).countP Demand.isCheck = (wellFormedChecks ds).length
  | _, _, [] => rfl
  | scope, position, d :: ds => by
    have first := countP_demands scope position d
    have rest := countP_demandsOf scope (position + ticks d) ds
    simp only [demandsOf, wellFormedChecks, outline, List.countP_append, List.flatMap_append,
      List.length_append, first] at rest ⊢
    rw [rest]

theorem countP_demands : ∀ (scope position : Nat) (d : Declaration Span),
    (demands s scope position d).countP Demand.isCheck = ((visits d).flatMap checksIn).length
  | scope, position, .namespaceDefinition path attributes body span => by
    have inside := countP_demandsOf (pathScope s scope position path) (position + path.length) body
    have used : (attributes.map (Demand.use .definition)).countP Demand.isCheck = 0 := by
      simp [List.countP_eq_zero, Demand.isCheck]
    simp only [demands, visits, List.countP_append, used, countP_pathDemands, inside,
      wellFormedChecks, List.flatMap_append, List.flatMap_cons, checksIn, List.flatMap_nil]
    simp
  | scope, position, .usingDirective target attributes span => by
    simp [demands, visits, checksIn, Demand.isCheck, List.countP_eq_zero]
  | scope, position, .attributeDeclaration attributes span => by
    simp [demands, visits, checksIn, countP_attributeDemands]
  | _, _, .emptyDeclaration _ => rfl

end

end ScopedNames.Check

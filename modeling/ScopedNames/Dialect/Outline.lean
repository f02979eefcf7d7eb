import ScopedNames.Dialect.Unit

set_option autoImplicit false

namespace ScopedNames.Dialect

inductive Visit (σ : Type) where
  | enter (path : List (PathSegment σ)) (attributes : List (Attribute σ))
  | leave (path : List (PathSegment σ))
  | directive (target : QualifiedName σ) (attributes : List (Attribute σ))
  | attributes (attributes : List (Attribute σ))
  | empty

variable {σ : Type}

mutual

def outline : List (Declaration σ) → List (Visit σ)
  | [] => []
  | d :: ds => visits d ++ outline ds

def visits : Declaration σ → List (Visit σ)
  | .namespaceDefinition path attributes body _ =>
    .enter path attributes :: outline body ++ [.leave path]
  | .usingDirective target attributes _ => [.directive target attributes]
  | .attributeDeclaration attributes _ => [.attributes attributes]
  | .emptyDeclaration _ => [.empty]

end

def Visit.text : Visit σ → String
  | enter path _ => "enter " ++ pathText path
  | leave path => "exit " ++ pathText path
  | directive target _ => "using " ++ target.render
  | attributes list => "attributes " ++ ",".intercalate (list.map (·.fullName))
  | empty => "empty"

end ScopedNames.Dialect

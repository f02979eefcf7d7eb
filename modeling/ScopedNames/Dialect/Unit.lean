import ScopedNames.Dialect.Place
import ScopedNames.Reference

set_option autoImplicit false

namespace ScopedNames.Dialect

-- `σ` is what a tree keeps of the place of each of its items.
variable {σ : Type}

structure QualifiedName (σ : Type) where
  rooted : Bool
  names : List String
  span : σ

def QualifiedName.render (q : QualifiedName σ) : String :=
  (if q.rooted then separator else "") ++ joinNames q.names

inductive ArgumentValue (σ : Type) where
  | int (n : Nat)
  | bool (b : Bool)
  | name (q : QualifiedName σ)

structure Argument (σ : Type) where
  value : ArgumentValue σ
  span : σ

structure Attribute (σ : Type) where
  owner : Option String
  name : String
  arguments : List (Argument σ)
  span : σ

def Attribute.fullName (a : Attribute σ) : String :=
  match a.owner with
  | some owner => owner ++ separator ++ a.name
  | none => a.name

structure PathSegment (σ : Type) where
  name : String
  isInline : Bool
  span : σ

-- The attributes of a namespace definition belong to the last name of its path.
inductive Declaration (σ : Type) where
  | namespaceDefinition (path : List (PathSegment σ)) (attributes : List (Attribute σ))
      (body : List (Declaration σ)) (span : σ)
  | usingDirective (target : QualifiedName σ) (attributes : List (Attribute σ)) (span : σ)
  | attributeDeclaration (attributes : List (Attribute σ)) (span : σ)
  | emptyDeclaration (span : σ)

def Declaration.span : Declaration σ → σ
  | namespaceDefinition _ _ _ span => span
  | usingDirective _ _ span => span
  | attributeDeclaration _ span => span
  | emptyDeclaration span => span

def pathText (path : List (PathSegment σ)) : String := joinNames (path.map (·.name))

structure SourceUnit where
  file : String
  declarations : List (Declaration Span)

def SourceUnit.span? (u : SourceUnit) : Option Span :=
  match u.declarations.head?, u.declarations.getLast? with
  | some first, some last => some ⟨first.span.start, last.span.stop⟩
  | _, _ => none

end ScopedNames.Dialect

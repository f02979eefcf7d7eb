import ScopedNames.Dialect.Outline
import ScopedNames.Proofs.Dialect.Scanning

set_option autoImplicit false

namespace ScopedNames.Dialect

variable {σ : Type}

section Bare

-- A tree without the places of its items.

def QualifiedName.bare (q : QualifiedName σ) : QualifiedName Unit := ⟨q.rooted, q.names, ()⟩

def ArgumentValue.bare : ArgumentValue σ → ArgumentValue Unit
  | int n => .int n
  | bool b => .bool b
  | name q => .name q.bare

def Argument.bare (a : Argument σ) : Argument Unit := ⟨a.value.bare, ()⟩

def Attribute.bare (a : Attribute σ) : Attribute Unit :=
  ⟨a.owner, a.name, a.arguments.map Argument.bare, ()⟩

def PathSegment.bare (s : PathSegment σ) : PathSegment Unit := ⟨s.name, s.isInline, ()⟩

mutual

def bareAll : List (Declaration σ) → List (Declaration Unit)
  | [] => []
  | d :: ds => d.bare :: bareAll ds

def Declaration.bare : Declaration σ → Declaration Unit
  | .namespaceDefinition path attributes body _ =>
    .namespaceDefinition (path.map PathSegment.bare) (attributes.map Attribute.bare)
      (bareAll body) ()
  | .usingDirective target attributes _ =>
    .usingDirective target.bare (attributes.map Attribute.bare) ()
  | .attributeDeclaration attributes _ => .attributeDeclaration (attributes.map Attribute.bare) ()
  | .emptyDeclaration _ => .emptyDeclaration ()

end

theorem bareAll_append (ds es : List (Declaration σ)) :
    bareAll (ds ++ es) = bareAll ds ++ bareAll es := by
  induction ds with
  | nil => rfl
  | cons d ds ih => rw [List.cons_append, bareAll, bareAll, ih, List.cons_append]

end Bare

-- An argument as it is written; an integer may begin with zeros that do not count.
structure WrittenArgument where
  value : ArgumentValue Unit
  zeros : Nat

structure WrittenAttribute where
  owner : Option String
  name : String
  arguments : Option (List WrittenArgument)

def WrittenAttribute.meaning (a : WrittenAttribute) : Attribute Unit :=
  ⟨a.owner, a.name, (a.arguments.getD []).map fun argument => ⟨argument.value, ()⟩, ()⟩

abbrev Specifier := List WrittenAttribute

def attributesOf (specifiers : List Specifier) : List (Attribute Unit) :=
  specifiers.flatten.map WrittenAttribute.meaning

/-- A declaration as it is written: its attributes are spread over specifiers. -/
inductive Form where
  | namespaceDefinition (path : List (PathSegment Unit)) (specifiers : List Specifier)
      (body : List Form)
  | usingDirective (target : QualifiedName Unit) (specifiers : List Specifier)
  | attributeDeclaration (first : Specifier) (others : List Specifier)
  | emptyDeclaration

mutual

def meanings : List Form → List (Declaration Unit)
  | [] => []
  | f :: fs => f.meaning :: meanings fs

def Form.meaning : Form → Declaration Unit
  | .namespaceDefinition path specifiers body =>
    .namespaceDefinition path (attributesOf specifiers) (meanings body) ()
  | .usingDirective target specifiers => .usingDirective target (attributesOf specifiers) ()
  | .attributeDeclaration first others => .attributeDeclaration (attributesOf (first :: others)) ()
  | .emptyDeclaration => .emptyDeclaration ()

end

theorem meanings_append (fs gs : List Form) : meanings (fs ++ gs) = meanings fs ++ meanings gs := by
  induction fs with
  | nil => rfl
  | cons f fs ih => rw [List.cons_append, meanings, meanings, ih, List.cons_append]

section Lexemes

open Lexeme (mark word)

def QualifiedName.lexemes (q : QualifiedName Unit) : List Lexeme :=
  (if q.rooted then [mark .doubleColon] else []) ++
    [mark .doubleColon].intercalate (q.names.map fun name => [word name])

def WrittenArgument.lexemes (a : WrittenArgument) : List Lexeme :=
  match a.value with
  | .int n => [⟨.int, List.replicate a.zeros '0' ++ Nat.toDigits 10 n⟩]
  | .bool true => [mark .trueWord]
  | .bool false => [mark .falseWord]
  | .name q => q.lexemes

def argumentLexemes : Option (List WrittenArgument) → List Lexeme
  | none => []
  | some arguments =>
    mark .leftParen :: [mark .comma].intercalate (arguments.map WrittenArgument.lexemes) ++
      [mark .rightParen]

def WrittenAttribute.lexemes (a : WrittenAttribute) : List Lexeme :=
  (match a.owner with
    | some owner => [word owner, mark .doubleColon]
    | none => []) ++
    word a.name :: argumentLexemes a.arguments

def specifierLexemes (specifier : Specifier) : List Lexeme :=
  mark .openSpecifier :: [mark .comma].intercalate (specifier.map WrittenAttribute.lexemes) ++
    [mark .closeSpecifier]

def inlineLexemes (s : PathSegment Unit) : List Lexeme :=
  if s.isInline then [mark .inlineWord] else []

-- The first name is `inline` where the whole definition begins with that word.
def definitionHead (specifiers : List Specifier) : List (PathSegment Unit) → List Lexeme
  | [] => []
  | first :: others =>
    inlineLexemes first ++ mark .namespaceWord :: specifiers.flatMap specifierLexemes ++
      word first.name ::
        others.flatMap fun s => mark .doubleColon :: inlineLexemes s ++ [word s.name]

mutual

def lexemesOf : List Form → List Lexeme
  | [] => []
  | f :: fs => f.lexemes ++ lexemesOf fs

def Form.lexemes : Form → List Lexeme
  | .namespaceDefinition path specifiers body =>
    definitionHead specifiers path ++ mark .leftBrace :: lexemesOf body ++ [mark .rightBrace]
  | .usingDirective target specifiers =>
    specifiers.flatMap specifierLexemes ++ mark .usingWord :: mark .namespaceWord ::
      target.lexemes ++ [mark .semicolon]
  | .attributeDeclaration first others =>
    (first :: others).flatMap specifierLexemes ++ [mark .semicolon]
  | .emptyDeclaration => [mark .semicolon]

end

theorem lexemesOf_append (fs gs : List Form) :
    lexemesOf (fs ++ gs) = lexemesOf fs ++ lexemesOf gs := by
  induction fs with
  | nil => rfl
  | cons f fs ih => rw [List.cons_append, lexemesOf, lexemesOf, ih, List.append_assoc]

end Lexemes

end ScopedNames.Dialect

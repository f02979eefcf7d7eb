import ScopedNames.Dialect.Lexer
import ScopedNames.Dialect.Unit

set_option autoImplicit false

namespace ScopedNames.Dialect

inductive Site where
  | definition (start : Place) (isInline : Bool)
  | declaration (start : Place)

structure AttributeList where
  site : Site
  attributes : List (Attribute Span)

structure OpenAttribute where
  before : AttributeList
  owner : Option String
  name : String
  arguments : List (Argument Span)
  span : Span

inductive NameUse where
  | directive (start : Place) (attributes : List (Attribute Span))
  | argument (attr : OpenAttribute)

structure OpenPath where
  start : Place
  attributes : List (Attribute Span)
  path : List (PathSegment Span)

/-- What the last token was, and what the current declaration has shown of itself. -/
inductive Phase where
  | opening
  | between
  | inlineRead (start : Place)
  | namespaceRead (start : Place) (isInline : Bool)
  | specifierOpen (list : AttributeList)
  | attributeName (list : AttributeList) (name : String) (span : Span)
  | attributeOwner (list : AttributeList) (owner : String) (start : Place)
  | attributeNamed (attr : OpenAttribute)
  | argumentsOpen (attr : OpenAttribute)
  | argumentRead (attr : OpenAttribute)
  | argumentComma (attr : OpenAttribute)
  | argumentsClosed (attr : OpenAttribute)
  | attributeComma (list : AttributeList)
  | specifierClosed (list : AttributeList)
  | nameRoot (use : NameUse) (start : Place)
  | nameRead (use : NameUse) (name : QualifiedName Span)
  | nameSeparator (use : NameUse) (name : QualifiedName Span)
  | pathRead (path : OpenPath)
  | pathSeparator (path : OpenPath)
  | pathInline (path : OpenPath) (start : Place)
  | usingRead (start : Place) (attributes : List (Attribute Span))
  | usingNamespace (start : Place) (attributes : List (Attribute Span))

structure OpenDefinition where
  head : OpenPath
  before : List (Declaration Span)

structure Progress where
  enclosing : List OpenDefinition
  declared : List (Declaration Span)
  phase : Phase

namespace Progress

def start : Progress := ⟨[], [], .opening⟩

def declarationStarts : List Terminal :=
  [.inlineWord, .namespaceWord, .usingWord, .semicolon, .openSpecifier]

def argumentStarts : List Terminal := [.int, .trueWord, .falseWord, .name, .doubleColon]

def allowed (p : Progress) : List Terminal :=
  match p.phase with
  | .opening =>
    if p.enclosing.isEmpty then declarationStarts else .rightBrace :: declarationStarts
  | .between => .rightBrace :: declarationStarts
  | .inlineRead _ => [.namespaceWord]
  | .namespaceRead _ _ => [.name, .openSpecifier]
  | .specifierOpen _ => [.name, .closeSpecifier]
  | .attributeName _ _ _ => [.doubleColon, .leftParen, .comma, .closeSpecifier]
  | .attributeOwner _ _ _ => [.name]
  | .attributeNamed _ => [.leftParen, .comma, .closeSpecifier]
  | .argumentsOpen _ => .rightParen :: argumentStarts
  | .argumentRead _ => [.comma, .rightParen]
  | .argumentComma _ => argumentStarts
  | .argumentsClosed _ => [.comma, .closeSpecifier]
  | .attributeComma _ => [.name]
  | .specifierClosed _ => [.name, .semicolon, .usingWord, .openSpecifier]
  | .nameRoot _ _ => [.name]
  | .nameRead _ _ => [.doubleColon, .comma, .rightParen, .semicolon]
  | .nameSeparator _ _ => [.name]
  | .pathRead _ => [.doubleColon, .leftBrace]
  | .pathSeparator _ => [.inlineWord, .name]
  | .pathInline _ _ => [.name]
  | .usingRead _ _ => [.namespaceWord]
  | .usingNamespace _ _ => [.name, .doubleColon]

/--
The terminals that could have followed, where one that was searched for has to be refused: what
the last token completes is then known.
-/
def awaited (p : Progress) : List Terminal :=
  match p.phase with
  | .between =>
    if p.enclosing.isEmpty then .endOfInput :: declarationStarts
    else .rightBrace :: declarationStarts
  | .specifierClosed ⟨.definition _ _, _⟩ => [.name]
  | .specifierClosed ⟨.declaration _, _⟩ => [.semicolon, .usingWord]
  | .nameRead (.directive _ _) _ => [.semicolon]
  | .nameRead (.argument _) _ => [.comma, .rightParen]
  | _ => p.allowed

def isComplete (p : Progress) : Bool :=
  match p.enclosing, p.phase with
  | [], .opening | [], .between => true
  | _, _ => false

def move (p : Progress) (phase : Phase) : Progress := { p with phase }

def declare (p : Progress) (d : Declaration Span) : Progress :=
  { p with declared := p.declared ++ [d], phase := .between }

end Progress

namespace OpenAttribute

def close (a : OpenAttribute) : AttributeList :=
  { a.before with
    attributes := a.before.attributes ++ [⟨a.owner, a.name, a.arguments, a.span⟩] }

def addArgument (a : OpenAttribute) (value : ArgumentValue Span) (span : Span) : OpenAttribute :=
  { a with arguments := a.arguments ++ [⟨value, span⟩] }

end OpenAttribute

def OpenPath.add (p : OpenPath) (name : String) (isInline : Bool) (span : Span) : OpenPath :=
  { p with path := p.path ++ [⟨name, isInline, span⟩] }

def QualifiedName.add (q : QualifiedName Span) (name : String) (stop : Place) :
    QualifiedName Span :=
  { q with names := q.names ++ [name], span := ⟨q.span.start, stop⟩ }

def digitsValue (digits : List Char) : Nat :=
  digits.foldl (fun n c => 10 * n + (c.toNat - '0'.toNat)) 0

namespace Progress

def feed (p : Progress) (token : Token) : Except (List Terminal) Progress :=
  let text := String.ofList token.text
  let span := token.span
  let refused : Except (List Terminal) Progress := .error p.awaited
  match p.phase, token.terminal with
  | .opening, t | .between, t =>
    match t, p.enclosing with
    | .semicolon, _ => .ok (p.declare (.emptyDeclaration span))
    | .inlineWord, _ => .ok (p.move (.inlineRead span.start))
    | .namespaceWord, _ => .ok (p.move (.namespaceRead span.start false))
    | .usingWord, _ => .ok (p.move (.usingRead span.start []))
    | .openSpecifier, _ => .ok (p.move (.specifierOpen ⟨.declaration span.start, []⟩))
    | .rightBrace, ⟨head, before⟩ :: outer =>
      let definition := .namespaceDefinition head.path head.attributes p.declared
        ⟨head.start, span.stop⟩
      .ok ⟨outer, before ++ [definition], .between⟩
    | _, _ => refused
  | .inlineRead start, .namespaceWord => .ok (p.move (.namespaceRead start true))
  | .namespaceRead start isInline, .name =>
    .ok (p.move (.pathRead ⟨start, [], [⟨text, isInline, span⟩]⟩))
  | .namespaceRead start isInline, .openSpecifier =>
    .ok (p.move (.specifierOpen ⟨.definition start isInline, []⟩))
  | .specifierOpen list, .name => .ok (p.move (.attributeName list text span))
  | .specifierOpen list, .closeSpecifier => .ok (p.move (.specifierClosed list))
  | .attributeName list owner nameSpan, .doubleColon =>
    .ok (p.move (.attributeOwner list owner nameSpan.start))
  | .attributeName list name nameSpan, .leftParen =>
    .ok (p.move (.argumentsOpen ⟨list, none, name, [], nameSpan⟩))
  | .attributeName list name nameSpan, .comma =>
    .ok (p.move (.attributeComma (OpenAttribute.close ⟨list, none, name, [], nameSpan⟩)))
  | .attributeName list name nameSpan, .closeSpecifier =>
    .ok (p.move (.specifierClosed (OpenAttribute.close ⟨list, none, name, [], nameSpan⟩)))
  | .attributeOwner list owner start, .name =>
    .ok (p.move (.attributeNamed ⟨list, some owner, text, [], ⟨start, span.stop⟩⟩))
  | .attributeNamed a, .leftParen => .ok (p.move (.argumentsOpen a))
  | .attributeNamed a, .comma | .argumentsClosed a, .comma =>
    .ok (p.move (.attributeComma a.close))
  | .attributeNamed a, .closeSpecifier | .argumentsClosed a, .closeSpecifier =>
    .ok (p.move (.specifierClosed a.close))
  | .argumentsOpen a, .rightParen | .argumentRead a, .rightParen =>
    .ok (p.move (.argumentsClosed { a with span := ⟨a.span.start, span.stop⟩ }))
  | .argumentsOpen a, .int | .argumentComma a, .int =>
    .ok (p.move (.argumentRead (a.addArgument (.int (digitsValue token.text)) span)))
  | .argumentsOpen a, .trueWord | .argumentComma a, .trueWord =>
    .ok (p.move (.argumentRead (a.addArgument (.bool true) span)))
  | .argumentsOpen a, .falseWord | .argumentComma a, .falseWord =>
    .ok (p.move (.argumentRead (a.addArgument (.bool false) span)))
  | .argumentsOpen a, .name | .argumentComma a, .name =>
    .ok (p.move (.nameRead (.argument a) ⟨false, [text], span⟩))
  | .argumentsOpen a, .doubleColon | .argumentComma a, .doubleColon =>
    .ok (p.move (.nameRoot (.argument a) span.start))
  | .argumentRead a, .comma => .ok (p.move (.argumentComma a))
  | .attributeComma list, .name => .ok (p.move (.attributeName list text span))
  | .specifierClosed list, .openSpecifier => .ok (p.move (.specifierOpen list))
  | .specifierClosed ⟨.definition start isInline, attributes⟩, .name =>
    .ok (p.move (.pathRead ⟨start, attributes, [⟨text, isInline, span⟩]⟩))
  | .specifierClosed ⟨.declaration start, attributes⟩, .semicolon =>
    .ok (p.declare (.attributeDeclaration attributes ⟨start, span.stop⟩))
  | .specifierClosed ⟨.declaration start, attributes⟩, .usingWord =>
    .ok (p.move (.usingRead start attributes))
  | .nameRoot use start, .name =>
    .ok (p.move (.nameRead use ⟨true, [text], ⟨start, span.stop⟩⟩))
  | .nameRead use name, .doubleColon => .ok (p.move (.nameSeparator use name))
  | .nameRead (.directive start attributes) name, .semicolon =>
    .ok (p.declare (.usingDirective name attributes ⟨start, span.stop⟩))
  | .nameRead (.argument a) name, .comma =>
    .ok (p.move (.argumentComma (a.addArgument (.name name) name.span)))
  | .nameRead (.argument a) name, .rightParen =>
    let a := a.addArgument (.name name) name.span
    .ok (p.move (.argumentsClosed { a with span := ⟨a.span.start, span.stop⟩ }))
  | .nameSeparator use name, .name => .ok (p.move (.nameRead use (name.add text span.stop)))
  | .pathRead path, .doubleColon => .ok (p.move (.pathSeparator path))
  | .pathRead path, .leftBrace => .ok ⟨⟨path, p.declared⟩ :: p.enclosing, [], .opening⟩
  | .pathSeparator path, .inlineWord => .ok (p.move (.pathInline path span.start))
  | .pathSeparator path, .name => .ok (p.move (.pathRead (path.add text false span)))
  | .pathInline path start, .name =>
    .ok (p.move (.pathRead (path.add text true ⟨start, span.stop⟩)))
  | .usingRead start attributes, .namespaceWord =>
    .ok (p.move (.usingNamespace start attributes))
  | .usingNamespace start attributes, .name =>
    .ok (p.move (.nameRead (.directive start attributes) ⟨false, [text], span⟩))
  | .usingNamespace start attributes, .doubleColon =>
    .ok (p.move (.nameRoot (.directive start attributes) span.start))
  | _, _ => refused

end Progress

end ScopedNames.Dialect

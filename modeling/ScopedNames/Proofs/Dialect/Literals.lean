import Mathlib.Data.List.Basic
import ScopedNames.Dialect.Reader
import ScopedNames.Proofs.Dialect.Surrounding

set_option autoImplicit false

namespace ScopedNames.Dialect

/-- An integer, and how many digits it is written with. -/
structure Literal where
  value : Nat
  digits : Nat

section Literals

def Argument.literal? (a : Argument Span) : Option Literal :=
  match a.value with
  | .int n => some ⟨n, a.span.width⟩
  | .bool _ | .name _ => none

def Attribute.literals (a : Attribute Span) : List Literal :=
  a.arguments.filterMap Argument.literal?

def literalsIn (list : List (Attribute Span)) : List Literal := list.flatMap Attribute.literals

def Visit.literals : Visit Span → List Literal
  | enter _ list | directive _ list | attributes list => literalsIn list
  | leave _ | empty => []

def literalsOf (ds : List (Declaration Span)) : List Literal := (outline ds).flatMap Visit.literals

def OpenAttribute.literals (a : OpenAttribute) : List Literal :=
  literalsIn a.before.attributes ++ a.arguments.filterMap Argument.literal?

def NameUse.literals : NameUse → List Literal
  | directive _ list => literalsIn list
  | argument a => a.literals

def Phase.literals : Phase → List Literal
  | opening | between | inlineRead _ | namespaceRead _ _ => []
  | specifierOpen list | attributeName list _ _ | attributeOwner list _ _ | attributeComma list
  | specifierClosed list => literalsIn list.attributes
  | attributeNamed a | argumentsOpen a | argumentRead a | argumentComma a | argumentsClosed a =>
    a.literals
  | nameRoot use _ | nameRead use _ | nameSeparator use _ => use.literals
  | pathRead p | pathSeparator p | pathInline p _ => literalsIn p.attributes
  | usingRead _ list | usingNamespace _ list => literalsIn list

def enclosedLiterals : List OpenDefinition → List Literal
  | [] => []
  | d :: outer => enclosedLiterals outer ++ literalsOf d.before ++ literalsIn d.head.attributes

-- In the order in which they have been read.
def Progress.literals (p : Progress) : List Literal :=
  enclosedLiterals p.enclosing ++ literalsOf p.declared ++ p.phase.literals

def Token.literal? (t : Token) : Option Literal :=
  if t.terminal = .int then some ⟨digitsValue t.text, t.span.width⟩ else none

end Literals

variable {file source : String} {ds : List (Declaration Span)}

@[simp] theorem literalsIn_nil : literalsIn [] = [] := rfl

@[simp] theorem literalsOf_nil : literalsOf [] = [] := rfl

@[simp] theorem literalsOf_snoc (ds : List (Declaration Span)) (d : Declaration Span) :
    literalsOf (ds ++ [d]) = literalsOf ds ++ (visits d).flatMap Visit.literals := by
  rw [literalsOf, outline_append, outline_singleton, List.flatMap_append, literalsOf]

namespace OpenAttribute

@[simp] theorem literals_titled (list : AttributeList) (owner : Option String) (name : String)
    (span : Span) :
    (⟨list, owner, name, [], span⟩ : OpenAttribute).literals = literalsIn list.attributes :=
  List.append_nil _

@[simp] theorem literals_closed (a : OpenAttribute) (span : Span) :
    (⟨a.before, a.owner, a.name, a.arguments, span⟩ : OpenAttribute).literals = a.literals := rfl

@[simp] theorem literals_close (a : OpenAttribute) :
    literalsIn a.close.attributes = a.literals := by
  simp [close, literalsIn, Attribute.literals, literals]

@[simp] theorem literals_addArgument (a : OpenAttribute) (value : ArgumentValue Span)
    (span : Span) :
    (a.addArgument value span).literals =
      a.literals ++ (Argument.literal? ⟨value, span⟩).toList := by
  cases value <;> simp [addArgument, literals, Argument.literal?]

end OpenAttribute

namespace Progress

variable {p p' : Progress} {token : Token}

theorem literals_closeDefinition {head : OpenPath} {before : List (Declaration Span)}
    {outer : List OpenDefinition} {stop : Place} (inside : p.enclosing = ⟨head, before⟩ :: outer) :
    (⟨outer, before ++ [.namespaceDefinition head.path head.attributes p.declared
      ⟨head.start, stop⟩], .between⟩ : Progress).literals =
        enclosedLiterals p.enclosing ++ literalsOf p.declared := by
  have body : (outline p.declared).flatMap Visit.literals = literalsOf p.declared := rfl
  simp [literals, inside, enclosedLiterals, visits, Visit.literals, Phase.literals, body]

-- What a token adds is the integer that it is, if it is one.
theorem literals_feed (fed : p.feed token = .ok p') :
    p'.literals = p.literals ++ token.literal?.toList := by
  rw [literals.eq_1 p]
  unfold feed at fed
  split at fed
  case h_1 | h_2 =>
    split at fed <;> cases fed
    case h_6 inside => simp [literals_closeDefinition inside, Token.literal?, Phase.literals, *]
    all_goals simp [literals, move, declare, visits, Visit.literals, Phase.literals,
      Token.literal?, *]
  all_goals cases fed
  all_goals simp [literals, move, declare, visits, Visit.literals, Phase.literals,
      NameUse.literals, Token.literal?, enclosedLiterals, Argument.literal?, OpenPath.add, *]

theorem literals_of_complete (complete : p.isComplete = true) :
    p.literals = literalsOf p.declared := by
  obtain ⟨enclosing, declared, phase⟩ := p
  unfold isComplete at complete
  split at complete
  · simp_all [literals, enclosedLiterals, Phase.literals]
  · simp_all [literals, enclosedLiterals, Phase.literals]
  · cases complete

end Progress

theorem literals_of_readFrom {p : Progress} {cursor : Cursor} {last : Place}
    (read : readFrom p cursor last = .ok ds) : p.literals <+: literalsOf ds := by
  fun_induction readFrom p cursor last with
  | case1 p cursor last scanned complete =>
    cases read
    exact Progress.literals_of_complete complete ▸ List.prefix_rfl
  | case6 p cursor last token behind scanned p' fed shorter ih =>
    have later := ih read
    rw [Progress.literals_feed fed] at later
    exact (List.prefix_append _ _).trans later
  | _ => cases read

section Units

-- The one conversion that can fail in a file that has a name.
def Literal.fault? (l : Literal) : Option UnitFault :=
  if maxDigits < l.digits then some (.overlongInteger l.digits) else none

variable (named : file ≠ "")

include named

theorem Conversion.fault?_located : Conversion.located.fault? file = none := by
  simp [fault?, named]

theorem Argument.faults_conversions (a : Argument Span) :
    a.conversions.filterMap (·.fault? file) = (a.literal?.bind Literal.fault?).toList := by
  have located := Conversion.fault?_located named
  obtain ⟨value, span⟩ := a
  cases value with
  | int n =>
    have same : (Conversion.integer span.width).fault? file =
        Literal.fault? ⟨n, span.width⟩ := rfl
    simp [conversions, literal?, List.filterMap_eq_flatMap_toList, same]
  | bool | name => simp [conversions, literal?, located]

theorem Attribute.faults_conversions (list : List (Attribute Span)) :
    (list.flatMap Attribute.conversions).filterMap (·.fault? file) =
      (literalsIn list).filterMap Literal.fault? := by
  have located := Conversion.fault?_located named
  have each (a : Attribute Span) :
      a.conversions.filterMap (·.fault? file) = a.literals.filterMap Literal.fault? := by
    have inside := List.filterMap_eq_flatMap_toList (·.literal?.bind Literal.fault?) a.arguments
    simp [conversions, literals, List.filterMap_flatMap, List.filterMap_filterMap, inside,
      Argument.faults_conversions named, located]
  simp [literalsIn, List.filterMap_flatMap, each]

theorem Visit.faults_conversions (v : Visit Span) :
    v.conversions.filterMap (·.fault? file) = v.literals.filterMap Literal.fault? := by
  have located := Conversion.fault?_located named
  have list := Attribute.faults_conversions named
  cases v <;> simp +contextual [conversions, literals, list, located, List.map_tail]

theorem findSome?_conversionsOf (ds : List (Declaration Span)) :
    (conversionsOf ds).findSome? (·.fault? file) = (literalsOf ds).findSome? Literal.fault? := by
  have located := Conversion.fault?_located named
  have each := Visit.faults_conversions named
  rw [← List.head?_filterMap, ← List.head?_filterMap]
  simp [conversionsOf, literalsOf, List.filterMap_flatMap, each, located]

end Units

theorem Literal.fault?_eq_none {l : Literal} : l.fault? = none ↔ l.digits ≤ maxDigits := by
  simp [fault?]

theorem conversionsOf_succeed :
    (conversionsOf ds).findSome? (·.fault? file) = none ↔
      file ≠ "" ∧ ∀ l ∈ literalsOf ds, l.digits ≤ maxDigits := by
  by_cases named : file = ""
  · -- The unit itself cannot be located.
    simp [conversionsOf, Conversion.fault?, named]
  · simp [findSome?_conversionsOf named, Literal.fault?_eq_none, named]

theorem readUnit_eq_ok {u : SourceUnit} :
    readUnit file source = .ok u ↔
      file ≠ "" ∧ readDeclarations source = .ok u.declarations ∧ u.file = file ∧
        ∀ l ∈ literalsOf u.declarations, l.digits ≤ maxDigits := by
  obtain ⟨file', ds'⟩ := u
  constructor
  · intro read
    unfold readUnit at read
    split at read
    · cases read
    · next reading =>
      split at read
      · cases read
      · next succeed =>
        cases read
        obtain ⟨named, legal⟩ := conversionsOf_succeed.1 succeed
        exact ⟨named, reading, rfl, legal⟩
  · rintro ⟨named, reading, rfl, legal⟩
    rw [readUnit, reading]
    simp only [conversionsOf_succeed.2 ⟨named, legal⟩]

theorem readUnit_eq_error {fault : SyntaxFault} {location : Location} :
    readUnit file source = .error (.atPlace fault location) ↔
      ∃ place, readDeclarations source = .error (fault, place) ∧ location = place.locate file := by
  unfold readUnit
  constructor
  · intro failed
    split at failed
    · next place reading =>
      cases failed
      exact ⟨place, reading, rfl⟩
    · split at failed
      · next found =>
        cases failed
        obtain ⟨c, _, refused⟩ := List.exists_of_findSome?_eq_some found
        cases c <;> simp [Conversion.fault?] at refused
      · cases failed
  · rintro ⟨place, reading, rfl⟩
    rw [reading]

-- The first integer that is too long is the one that is complained about.
theorem readUnit_of_overlong {front back : List Literal} {l : Literal} (named : file ≠ "")
    (reading : readDeclarations source = .ok ds) (split : literalsOf ds = front ++ l :: back)
    (legal : ∀ l ∈ front, l.digits ≤ maxDigits) (long : maxDigits < l.digits) :
    readUnit file source = .error (.overlongInteger l.digits) := by
  have earlier : front.findSome? Literal.fault? = none :=
    List.findSome?_eq_none_iff.2 fun l member => Literal.fault?_eq_none.2 (legal l member)
  rw [readUnit, reading]
  simp only [findSome?_conversionsOf named, split, List.findSome?_append, earlier]
  simp [Literal.fault?, long]

theorem unnamed_of_readUnit (unnamed : readUnit file source = .error .unnamedFile) :
    file = "" := by
  by_contra named
  unfold readUnit at unnamed
  split at unnamed
  · cases unnamed
  · rw [findSome?_conversionsOf named] at unnamed
    split at unnamed
    · next found =>
      cases unnamed
      obtain ⟨l, _, refused⟩ := List.exists_of_findSome?_eq_some found
      simp [Literal.fault?] at refused
    · cases unnamed

end ScopedNames.Dialect

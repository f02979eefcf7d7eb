import ScopedNames.Check.Journal
import ScopedNames.Diagnostic.Basic
import ScopedNames.Dialect.Outline
import ScopedNames.Session.Basic

set_option autoImplicit false

namespace ScopedNames.Check

open Dialect

inductive Expectation where
  | tag (n : Nat)
  | something
  | nothing
  deriving DecidableEq

structure Outcome where
  name : QualifiedName Span
  expected : Expectation
  found : Option Found
  scope : Nat
  position : Nat
  location : Location

/--
How far the walk through a unit has come. `scopes` are those whose definitions are open, the
innermost first.
-/
structure Walk where
  session : Session Nat Nat
  scopes : List Nat
  nextPosition : Nat
  declaredCount : Nat
  diagnostics : List Diagnostic
  outcomes : List Outcome
  journal : List Entry

namespace Walk

def start (session : Session Nat Nat) : Walk := ⟨session, [], 1, 0, [], [], []⟩

def current (w : Walk) : Nat := w.scopes.headD root

def note (w : Walk) (channel : Channel) (message : String) : Walk :=
  { w with journal := w.journal ++ [⟨channel, message⟩] }

def complain (w : Walk) (d : Diagnostic) : Walk :=
  { w with diagnostics := w.diagnostics ++ [d] }

def checkerOwner : String := "rustycpp"

def tagName : String := "tagDecl"

def checkName : String := "checkSymbolMatchTag"

def isChecker (name : String) (a : Attribute Span) : Bool :=
  a.owner == some checkerOwner && a.name == name

def ticked (text : String) : String := "`" ++ text ++ "`"

def misused (file : String) (a : Attribute Span) (complaint : String) : Diagnostic :=
  { message := ticked a.fullName ++ " " ++ complaint
    location := some (a.span.locate file)
    code := some Diagnostic.badAttribute }

def badAttribute (file : String) (w : Walk) (a : Attribute Span) (complaint : String) : Walk :=
  w.complain (misused file a complaint)

def ignoreAttribute (file : String) (w : Walk) (a : Attribute Span) : Walk :=
  w.note .nameResolution
    ("ignoring attribute " ++ ticked a.fullName ++ " at " ++ (a.span.locate file).text)

def readTagValue : List (Argument Span) → Option Nat
  | [⟨.int n, _⟩] => some n
  | _ => none

-- The tag of a definition is that of its first well-formed tag attribute.
def readTag (file : String) (path : List (PathSegment Span)) (state : Walk × Option Nat)
    (a : Attribute Span) : Walk × Option Nat :=
  let (w, tag) := state
  if isChecker tagName a then
    match readTagValue a.arguments, tag with
    | some n, none => (w, some n)
    | some n, some kept =>
      (w.note .nameResolution
        ("extra tagDecl(" ++ n.repr ++ ") on " ++ ticked (pathText path) ++ " ignored, keeping " ++
          kept.repr), tag)
    | none, _ => (badAttribute file w a "expects a single integer literal", tag)
  else if isChecker checkName a then
    (badAttribute file w a "is only allowed in an attribute declaration", tag)
  else (ignoreAttribute file w a, tag)

def inlineMismatch (file : String) (t : ScopeTable Nat Nat) (segment : PathSegment Span)
    (existing : Nat) (s : Scope Nat Nat) : Diagnostic :=
  { message := "namespace " ++ ticked (t.qualifiedName existing) ++
      " reopened with `inline`, but its original definition is not inline"
    location := some (segment.span.locate file)
    code := some Diagnostic.inlineMismatch
    label := some "`inline` added here"
    note := s.location.map fun l => "first defined at " ++ l.text }

def declarationEntry (session : Session Nat Nat) (isNew : Bool) (i : Nat) (tag : Option Nat)
    (position : Nat) : String :=
  let t := session.tree
  let kept := (t.scope? i).bind (·.tag)
  if isNew then
    "declared " ++ t.qualifiedName i ++ " id=" ++ (t.idOf i).text ++ " tag=" ++ quoteDatum tag ++
      " at " ++ position.repr
  else if tag.isSome && tag != kept then
    "reopening " ++ t.qualifiedName i ++ ": ignoring tag " ++ quoteDatum tag ++ ", keeping " ++
      quoteDatum kept
  else "reopening " ++ t.qualifiedName i ++ " (#" ++ (t.reopened i).repr ++ ")"

/--
Opens one name of a path. A member of that name is reopened where it is, be it inside an inline
member; otherwise the current scope gets a new one.
-/
def openSegment (file : String) (w : Walk) (segment : PathSegment Span) (tag : Option Nat) :
    Except (SessionFault Nat) Walk := do
  let t := w.session.tree
  let existing :=
    (t.routeTo ScopeTable.everything w.current segment.name).map (·.getLastD w.current)
  let record := existing.bind t.scope?
  let w := match existing, record with
    | some i, some s =>
      if segment.isInline && !s.isInline then
        w.complain (inlineMismatch file t.toScopeTable segment i s)
      else w
    | _, _ => w
  let enclosing := (record.map (·.parent)).getD w.current
  let position := w.nextPosition
  let (session, i) ← w.session.declareScope (.text segment.name) (t.idOf enclosing) tag
    (some position) segment.isInline (some (segment.span.locate file))
  let w := { w with
    session
    scopes := i :: w.scopes
    nextPosition := position + 1
    declaredCount := if existing.isNone then w.declaredCount + 1 else w.declaredCount }
  return w.note .scope (declarationEntry session (t.size < session.tree.size) i tag position)

-- The tag goes to the last name.
def openPath (file : String) (tag : Option Nat) :
    Walk → List (PathSegment Span) → Except (SessionFault Nat) Walk
  | w, [] => .ok w
  | w, [segment] => openSegment file w segment tag
  | w, segment :: segments => do
    let w ← openSegment file w segment none
    openPath file tag w segments

def answerEntry (session : Session Nat Nat) (r : Reference) (scope position : Nat)
    (found : Option Found) : String :=
  r.render ++ " in " ++ session.tree.qualifiedName scope ++ " at " ++ position.repr ++ ": " ++
    if found.isSome then session.tree.describe found else "unresolved"

def importEntry (session : Session Nat Nat) (d : Import Nat) : String :=
  let place := " in " ++ session.tree.qualifiedName d.scope ++ " at " ++ quoteDatum d.position
  match d.target with
  | some target => "import of " ++ session.tree.qualifiedName target ++ place
  | none => "inert import of " ++ d.path.render ++ place

def referenceOf (name : QualifiedName Span) : Except (SessionFault Nat) Reference :=
  (Reference.ofNames name.names name.rooted).mapError .malformed

def checkNotChecker (file : String) (w : Walk) (a : Attribute Span) : Walk :=
  if isChecker tagName a || isChecker checkName a then
    badAttribute file w a "is not allowed on a using-directive"
  else ignoreAttribute file w a

def notFound (file : String) (target : QualifiedName Span) : Diagnostic :=
  { message := ticked target.render ++
      " does not name a namespace declared before this directive"
    location := some (target.span.locate file)
    code := some Diagnostic.unresolvedDirective
    label := some "not found"
    note := some "the directive has no effect" }

def visitDirective (file : String) (w : Walk) (target : QualifiedName Span)
    (attributes : List (Attribute Span)) : Except (SessionFault Nat) Walk := do
  let w := attributes.foldl (checkNotChecker file) w
  let r ← referenceOf target
  let position := w.nextPosition
  let found := w.session.resolveFrom r w.current (some position)
  let (session, d) ← w.session.issueImport r (w.session.tree.idOf w.current) (some position)
  let w := { w with session, nextPosition := position + 1 }
  let w := w.note .resolver (answerEntry session r w.current position found)
  let w := w.note .visibility (importEntry session d)
  return if d.isInert then w.complain (notFound file target) else w

def readCheck : List (Argument Span) → Option (Expectation × Span × QualifiedName Span)
  | [⟨.int n, span⟩, ⟨.name name, _⟩] => some (.tag n, span, name)
  | [⟨.bool true, span⟩, ⟨.name name, _⟩] => some (.something, span, name)
  | [⟨.bool false, span⟩, ⟨.name name, _⟩] => some (.nothing, span, name)
  | _ => none

def evaluate (file : String) (w : Walk) (a : Attribute Span) : Except (SessionFault Nat) Walk :=
  match readCheck a.arguments with
  | none => .ok (badAttribute file w a "expects (integer | true | false, name)")
  | some (expected, span, name) => do
    let r ← referenceOf name
    let position := w.nextPosition
    let scope := w.current
    let (session, found) ← w.session.query r (w.session.tree.idOf scope) (some position)
    let outcome : Outcome := ⟨name, expected, found, scope, position, span.locate file⟩
    let w := { w with session, nextPosition := position + 1, outcomes := w.outcomes ++ [outcome] }
    let w := w.note .resolver (answerEntry session r scope position found)
    return w.note .nameResolution
      ("check " ++ ticked name.render ++ " in " ++ session.tree.qualifiedName scope ++ " at " ++
        position.repr ++ ": " ++ session.tree.describe found)

def visitAttribute (file : String) (w : Walk) (a : Attribute Span) :
    Except (SessionFault Nat) Walk :=
  if isChecker checkName a then evaluate file w a
  else if isChecker tagName a then
    .ok (badAttribute file w a "is only allowed on a namespace definition")
  else .ok (ignoreAttribute file w a)

def visit (file : String) (w : Walk) : Visit Span → Except (SessionFault Nat) Walk
  | .enter path attributes =>
    let (w, tag) := attributes.foldl (readTag file path) (w, none)
    openPath file tag w path
  | .leave path => .ok { w with scopes := w.scopes.drop path.length }
  | .directive target attributes => visitDirective file w target attributes
  | .attributes attributes => attributes.foldlM (visitAttribute file) w
  | .empty => .ok w

def run (session : Session Nat Nat) (u : SourceUnit) : Except (SessionFault Nat) Walk := do
  let w ← (outline u.declarations).foldlM (visit u.file) (start session)
  return w.note .nameResolution
    ("name resolution: " ++ w.declaredCount.repr ++ " namespace(s), " ++
      w.session.issued.length.repr ++ " using-directive(s), " ++ w.outcomes.length.repr ++
      " check(s)")

end Walk

end ScopedNames.Check

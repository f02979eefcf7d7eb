import ScopedNames.Check.Walk

set_option autoImplicit false

namespace ScopedNames.Check

structure Summary where
  checked : Nat
  failed : Nat
  deriving DecidableEq

def Summary.passed (s : Summary) : Nat := s.checked - s.failed

def judge (t : ScopeTable Nat Nat) (o : Outcome) : Option Diagnostic :=
  let name := Walk.ticked o.name.render
  let complaint (code message label : String) (help : Option String := none) : Diagnostic :=
    { message, location := some o.location, code := some code, label := some label, help }
  match o.found, o.expected with
  | none, .nothing => none
  | none, _ =>
    some (complaint Diagnostic.expectedSomething
      ("while resolving " ++ name ++ " found nothing, but something was expected")
      "expected a declaration")
  | some f, .nothing =>
    let found := Walk.ticked (t.qualifiedName f.node)
    some (complaint Diagnostic.expectedNothing
      ("while resolving " ++ name ++ " found " ++ found ++ ", but nothing was expected")
      ("resolves to " ++ found ++ " (" ++ f.via.text ++ " lookup)"))
  | some _, .something => none
  | some f, .tag expected =>
    let found := Walk.ticked (t.qualifiedName f.node)
    match (t.scope? f.node).bind (·.tag) with
    | none =>
      some (complaint Diagnostic.missingTag
        (name ++ " resolves to " ++ found ++ ", which has no tag")
        ("expected tag " ++ expected.repr)
        (some "add [[rustycpp::tagDecl(N)]] to the first definition of the namespace"))
    | some tag =>
      if tag = expected then none
      else some (complaint Diagnostic.tagMismatch
        (name ++ " resolves to " ++ found ++ " with tag " ++ tag.repr ++ ", expected tag " ++
          expected.repr)
        ("found tag " ++ tag.repr))

def judgeAll (t : ScopeTable Nat Nat) (outcomes : List Outcome) : Summary × List Diagnostic :=
  let diagnostics := outcomes.filterMap (judge t)
  (⟨outcomes.length, diagnostics.length⟩, diagnostics)

end ScopedNames.Check

import Mathlib
import ScopedNames.Dialect.Reader
import ScopedNames.Proofs.Dialect.Surrounding

set_option autoImplicit false

namespace ScopedNames.Dialect

-- What is read if the rest of the text has no more than so many tokens.
def readWithin : Nat → Progress → Cursor → Option (List (Declaration Span))
  | 0, _, _ => none
  | n + 1, p, cursor =>
    match scan p.allowed cursor with
    | .finished => if p.isComplete then some p.declared else none
    | .token token behind =>
      match p.feed token with
      | .ok p' => readWithin n p' behind
      | .error _ => none
    | .unknown _ _ | .misplaced _ _ => none

theorem readFrom_of_readWithin {n : Nat} {p : Progress} {cursor : Cursor} {last : Place}
    {ds : List (Declaration Span)} (read : readWithin n p cursor = some ds) :
    readFrom p cursor last = .ok ds := by
  induction n generalizing p cursor last with
  | zero => cases read
  | succ n ih =>
    rw [readFrom]
    unfold readWithin at read
    split at read
    · next scanned =>
      split
      · split at read
        · next complete => rw [if_pos complete, ← Option.some.inj read]
        · cases read
      all_goals simp_all
    · next token behind scanned =>
      split at read
      · next p' fed =>
        split
        all_goals simp_all
      · cases read
    · cases read
    · cases read

theorem readUnit_of_readWithin {n : Nat} {file source : String} {ds : List (Declaration Span)}
    (read : readWithin n .start ⟨.origin, source.toList⟩ = some ds)
    (succeed : (conversionsOf ds).findSome? (·.fault? file) = none) :
    readUnit file source = .ok ⟨file, ds⟩ := by
  rw [readUnit, readDeclarations, readFrom_of_readWithin read]
  simp only [succeed]

def onFirstLine (start stop : Nat) : Span := ⟨⟨start, 1, start + 1⟩, ⟨stop, 1, stop + 1⟩⟩

-- A scope `B` that is declared in an inline member of `A` and then entered again from `A` itself.

def reentryText : String :=
  "namespace A { inline namespace V { namespace B { } } } namespace A::B { using namespace V; }"

def layeredDefinition : Declaration Span :=
  .namespaceDefinition [⟨"A", false, onFirstLine 10 11⟩] []
    [.namespaceDefinition [⟨"V", true, onFirstLine 31 32⟩] []
      [.namespaceDefinition [⟨"B", false, onFirstLine 45 46⟩] [] [] (onFirstLine 35 50)]
      (onFirstLine 14 52)]
    (onFirstLine 0 54)

def reentryPath : List (PathSegment Span) :=
  [⟨"A", false, onFirstLine 65 66⟩, ⟨"B", false, onFirstLine 68 69⟩]

def reentryDirective : Declaration Span :=
  .usingDirective ⟨false, ["V"], onFirstLine 88 89⟩ [] (onFirstLine 72 90)

def reentryUnit : SourceUnit where
  file := "main.cpp"
  declarations :=
    [layeredDefinition,
      .namespaceDefinition reentryPath [] [reentryDirective] (onFirstLine 55 92)]

theorem readUnit_reentry : readUnit "main.cpp" reentryText = .ok reentryUnit := by
  have read : readWithin 40 .start ⟨.origin, reentryText.toList⟩ =
      some reentryUnit.declarations := by cbv
  exact readUnit_of_readWithin read (by decide)

end ScopedNames.Dialect

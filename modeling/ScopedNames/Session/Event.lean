import ScopedNames.Session.Basic

set_option autoImplicit false

namespace ScopedNames

inductive Reply (π : Type) where
  | declared (index : Nat)
  | imported (directive : Import π)
  | answered (found : Option Found)

inductive Call (τ π : Type) where
  | declareScope (segment : Value) (enclosing : ScopeId) (tag : Option τ) (position : Option π)
      (isInline : Bool) (location : Option Location)
  | issueImport (target : Reference) (enclosing : ScopeId) (position : Option π)
  | query (reference : Reference) (enclosing : ScopeId) (position : Option π)

inductive Event (τ π : Type) where
  | scopeDeclared (segment : Value) (enclosing : ScopeId) (tag : Option τ) (position : Option π)
      (isInline : Bool)
  | importIssued (target : Reference) (enclosing : ScopeId) (position : Option π)
  | referenceQuery (reference : Reference) (enclosing : ScopeId) (position : Option π)
  | unsupported (kind : String)

section Operations

variable {τ π : Type} [LT π] [DecidableLT π]

def Call.perform : Call τ π → Operation τ π (Reply π)
  | .declareScope segment enclosing tag position isInline location => do
    return .declared (← Operation.declareScope segment enclosing tag position isInline location)
  | .issueImport target enclosing position => do
    return .imported (← Operation.issueImport target enclosing position)
  | .query reference enclosing position => do
    return .answered (← Operation.query reference enclosing position)

def Event.handle : Event τ π → Operation τ π (Reply π)
  | .scopeDeclared segment enclosing tag position isInline =>
    (Call.declareScope segment enclosing tag position isInline none).perform
  | .importIssued target enclosing position => (Call.issueImport target enclosing position).perform
  | .referenceQuery reference enclosing position => (Call.query reference enclosing position).perform
  | .unsupported kind => throw (.unsupportedEvent kind)

def Session.apply (s : Session τ π) (event : Event τ π) :
    Except (SessionFault π) (Session τ π × Reply π) :=
  event.handle.outcome s

/--
Applies events until one is refused; what came before it stays. The answers are those of the
queries, in order.
-/
def Session.run (s : Session τ π) :
    List (Event τ π) → Session τ π × Except (SessionFault π) (List (Option Found))
  | [] => (s, .ok [])
  | event :: events =>
    match event.handle s with
    | .error fault s' => (s', .error fault)
    | .ok reply s' =>
      let (final, answers) := s'.run events
      match reply with
      | .answered found => (final, answers.map (found :: ·))
      | _ => (final, answers)

end Operations

end ScopedNames

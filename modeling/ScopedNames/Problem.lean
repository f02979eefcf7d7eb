import ScopedNames.Session.Basic

set_option autoImplicit false

namespace ScopedNames

inductive Problem where
  | inSource (message : String) (location : Option Location)
  | misuse (message : String) (code : String)
  | contract (message : String) (code : String)
  | malformedReference (message : String)
  | eventOrder (position previous : Value)
  | unknownScope (id : ScopeId)
  | badValue (message : String)

namespace Problem

def internalCode : String := "E9999"

def code? : Problem → Option String
  | inSource _ _ | badValue _ => none
  | misuse _ code | contract _ code => some code
  | malformedReference _ => some "E9001"
  | eventOrder _ _ => some "E9002"
  | unknownScope _ => some "E9003"

def message : Problem → String
  | inSource message _ | misuse message _ | contract message _ | malformedReference message
  | badValue message => message
  | eventOrder position previous =>
    "event at position " ++ position.quote ++ " does not follow previous position " ++
      previous.quote
  | unknownScope id => "unknown scope id " ++ id.text

def text (p : Problem) : String :=
  match p, p.code? with
  | inSource message (some location), _ => message ++ "\n --> " ++ location.text
  | _, some code => "[" ++ code ++ "] " ++ p.message
  | _, none => p.message

end Problem

def ReferenceFault.problem (fault : ReferenceFault) : Problem :=
  .malformedReference fault.message

def SessionFault.problem {π : Type} [Datum π] : SessionFault π → Problem
  | malformed fault => fault.problem
  | unknownScope id => .unknownScope id
  | outOfOrder position previous => .eventOrder (Datum.value position) (Datum.value previous)
  | unsupportedEvent kind => .misuse ("unsupported event type " ++ kind) Problem.internalCode

end ScopedNames

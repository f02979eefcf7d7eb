import ScopedNames.Scope.Tree
import ScopedNames.Session.Resolution

set_option autoImplicit false

namespace ScopedNames

inductive SessionFault (π : Type) where
  | malformed (fault : ReferenceFault)
  | unknownScope (id : ScopeId)
  | outOfOrder (position previous : Option π)
  | unsupportedEvent (kind : String)

/--
The scopes and directives that a stream of events has built up. `issued` holds the directives of
the stream, `recorded` also those entered without a position check.
-/
structure Session (τ π : Type) where
  tree : ScopeTree τ π
  issued : List (Import π)
  recorded : List (Import π)
  lastPosition : Option π

namespace Session

variable {τ π : Type}

def new (number : Nat) : Session τ π := ⟨.new number, [], [], none⟩

def find (s : Session τ π) (id : ScopeId) : Except (SessionFault π) (Fin s.tree.size) :=
  match s.tree.find? id with
  | some i => .ok i
  | none => .error (.unknownScope id)

def readSegment (value : Value) : Except (SessionFault π) Segment :=
  (Segment.ofValue value).mapError .malformed

def placeScope (s : Session τ π) (segment : Segment) (enclosing : Fin s.tree.size)
    (tag : Option τ) (position : Option π) (isInline : Bool) (location : Option Location) :
    Session τ π × Nat :=
  let placed := s.tree.declare segment enclosing tag position isInline location
  ({ s with tree := placed.1 }, placed.2)

def record (s : Session τ π) (d : Import π) : Session τ π :=
  { s with recorded := s.recorded ++ [d] }

variable [LT π] [DecidableLT π]

def resolveFrom (s : Session τ π) (r : Reference) (scope : Nat) (now : Option π) :
    Option Found :=
  s.tree.resolve s.recorded r scope now

end Session

/-- A step of a session. What it has changed by the time it is refused stays changed. -/
abbrev Operation (τ π α : Type) := EStateM (SessionFault π) (Session τ π) α

namespace Operation

variable {τ π α : Type}

def after (op : Operation τ π α) (s : Session τ π) : Session τ π :=
  match op s with
  | .ok _ s' | .error _ s' => s'

def outcome (op : Operation τ π α) (s : Session τ π) :
    Except (SessionFault π) (Session τ π × α) :=
  match op s with
  | .ok a s' => .ok (s', a)
  | .error fault _ => .error fault

def find (id : ScopeId) : Operation τ π Nat := do
  let s ← get
  let i ← ofExcept (s.find id)
  return i

def enter (segment : Value) (enclosing : Nat) (tag : Option τ) (position : Option π)
    (isInline : Bool) (location : Option Location) : Operation τ π Nat := do
  let segment ← ofExcept (Session.readSegment segment)
  let s ← get
  if h : enclosing < s.tree.size then
    let (s', i) := s.placeScope segment ⟨enclosing, h⟩ tag position isInline location
    set s'
    return i
  else throw (.unknownScope (s.tree.idOf enclosing))

variable [LT π] [DecidableLT π]

def advance (position : Option π) : Operation τ π Unit := do
  let s ← get
  if position.isNone then throw (.outOfOrder position s.lastPosition)
  if s.lastPosition.isSome && !before s.lastPosition position then
    throw (.outOfOrder position s.lastPosition)
  set { s with lastPosition := position }

def declareScope (segment : Value) (enclosing : ScopeId) (tag : Option τ) (position : Option π)
    (isInline : Bool) (location : Option Location) : Operation τ π Nat := do
  let parent ← find enclosing
  let _ ← ofExcept (Session.readSegment segment)
  advance position
  enter segment parent tag position isInline location

-- The target is looked up here and now, before the directive itself can have an effect.
def issueImport (target : Reference) (enclosing : ScopeId) (position : Option π) :
    Operation τ π (Import π) := do
  let scope ← find enclosing
  advance position
  let found := (← get).resolveFrom target scope position
  let d : Import π := ⟨target, found.map (·.node), scope, position⟩
  modify (·.record d)
  modify fun s => { s with issued := s.issued ++ [d] }
  return d

def query (r : Reference) (enclosing : ScopeId) (position : Option π) :
    Operation τ π (Option Found) := do
  let scope ← find enclosing
  advance position
  return (← get).resolveFrom r scope position

end Operation

namespace Session

variable {τ π : Type} [LT π] [DecidableLT π]

def declareScope (s : Session τ π) (segment : Value) (enclosing : ScopeId) (tag : Option τ)
    (position : Option π) (isInline : Bool) (location : Option Location) :
    Except (SessionFault π) (Session τ π × Nat) :=
  (Operation.declareScope segment enclosing tag position isInline location).outcome s

def issueImport (s : Session τ π) (target : Reference) (enclosing : ScopeId)
    (position : Option π) : Except (SessionFault π) (Session τ π × Import π) :=
  (Operation.issueImport target enclosing position).outcome s

def query (s : Session τ π) (r : Reference) (enclosing : ScopeId) (position : Option π) :
    Except (SessionFault π) (Session τ π × Option Found) :=
  (Operation.query r enclosing position).outcome s

def resolveAt (s : Session τ π) (r : Reference) (enclosing : ScopeId) (now : Option π) :
    Except (SessionFault π) (Option Found) := do
  let scope ← s.find enclosing
  return s.resolveFrom r scope now

def resolveValue (s : Session τ π) (value : Value) (enclosing : ScopeId) : SessionFault π :=
  match s.find enclosing with
  | .error fault => fault
  | .ok _ => .malformed (.notReference value)

end Session

end ScopedNames

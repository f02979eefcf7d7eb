import ScopedNames.Proofs.Session.Operation

set_option autoImplicit false

namespace ScopedNames

variable {τ π : Type}

namespace Call

def enclosing : Call τ π → ScopeId
  | .declareScope _ enclosing _ _ _ _ | .issueImport _ enclosing _ | .query _ enclosing _ => enclosing

def position : Call τ π → Option π
  | .declareScope _ _ _ position _ _ | .issueImport _ _ position | .query _ _ position => position

def segment? : Call τ π → Option Value
  | .declareScope segment _ _ _ _ _ => some segment
  | .issueImport _ _ _ | .query _ _ _ => none

def Named (c : Call τ π) : Prop := ∀ value, c.segment? = some value → IsName value

end Call

def Event.call? : Event τ π → Option (Call τ π)
  | .scopeDeclared segment enclosing tag position isInline =>
    some (.declareScope segment enclosing tag position isInline none)
  | .importIssued target enclosing position => some (.issueImport target enclosing position)
  | .referenceQuery reference enclosing position => some (.query reference enclosing position)
  | .unsupported _ => none

variable [LT π] [DecidableLT π] {s s' : Session τ π} {c : Call τ π}

/-- All that an accepted call can do. -/
inductive Accepted (s : Session τ π) : Call τ π → Reply π → Session τ π → Prop where
  | reopened {segment : Segment} {parent : Fin s.tree.size} {existing : Nat} {tag : Option τ} {p : π}
      {isInline : Bool} {location : Option Location}
      (there : s.tree.child? parent segment.name = some existing)
      (admitted : s.Admits (some p)) :
      Accepted s
        (.declareScope (.text segment.name) (s.tree.idOf parent) tag (some p) isInline location)
        (.declared existing)
        { s with
          tree := { s.tree with reopenings := existing :: s.tree.reopenings }
          lastPosition := some p }
  | declared {segment : Segment} {parent : Fin s.tree.size} {tag : Option τ} {p : π}
      {isInline : Bool} {location : Option Location}
      (fresh : s.tree.child? parent segment.name = none) (admitted : s.Admits (some p)) :
      Accepted s
        (.declareScope (.text segment.name) (s.tree.idOf parent) tag (some p) isInline location)
        (.declared s.tree.size)
        { s with
          tree := { s.tree with
            toScopeTable :=
              s.tree.add ⟨parent, segment, tag, some p, isInline, location⟩ parent.isLt }
          lastPosition := some p }
  | imported {target : Reference} {scope : Fin s.tree.size} {p : π} {d : Import π}
      (resolved : d = ⟨target, (s.resolveFrom target scope (some p)).map (·.node), scope, some p⟩)
      (admitted : s.Admits (some p)) :
      Accepted s (.issueImport target (s.tree.idOf scope) (some p)) (.imported d)
        { s with
          issued := s.issued ++ [d]
          recorded := s.recorded ++ [d]
          lastPosition := some p }
  | answered {r : Reference} {scope : Fin s.tree.size} {p : π} (admitted : s.Admits (some p)) :
      Accepted s (.query r (s.tree.idOf scope) (some p))
        (.answered (s.resolveFrom r scope (some p))) { s with lastPosition := some p }

namespace Call

theorem perform_unknown (foreign : ¬ s.tree.Owns c.enclosing) :
    c.perform s = .error (.unknownScope c.enclosing) s := by
  cases c <;>
    exact Operation.bind_of_error (Operation.bind_of_error (Operation.find_unknown foreign))

theorem perform_malformed {value : Value} (known : s.tree.Owns c.enclosing)
    (declares : c.segment? = some value) (bad : ¬ IsName value) :
    c.perform s = .error (.malformed (.invalidSegment value)) s := by
  cases c with
  | declareScope segment enclosing tag position isInline location =>
    cases declares
    change s.tree.Owns enclosing at known
    obtain ⟨parent, rfl⟩ := known
    apply Operation.bind_of_error
    rw [Operation.declareScope, Operation.bind_of_ok (Operation.find_idOf parent)]
    exact Operation.bind_of_error (Operation.readSegment_bad bad)
  | issueImport => cases declares
  | query => cases declares

theorem perform_late (known : s.tree.Owns c.enclosing) (named : c.Named)
    (late : ¬ s.Admits c.position) :
    c.perform s = .error (.outOfOrder c.position s.lastPosition) s := by
  cases c with
  | declareScope value enclosing tag position isInline location =>
    obtain ⟨segment, rfl, _⟩ := ofValue_of_isName (named value rfl)
    change s.tree.Owns enclosing at known
    obtain ⟨parent, rfl⟩ := known
    apply Operation.bind_of_error
    rw [Operation.declareScope, Operation.bind_of_ok (Operation.find_idOf parent),
      Operation.bind_of_ok (Operation.readSegment_segment segment)]
    exact Operation.bind_of_error (Operation.advance_late late)
  | issueImport target enclosing position =>
    change s.tree.Owns enclosing at known
    obtain ⟨scope, rfl⟩ := known
    apply Operation.bind_of_error
    rw [Operation.issueImport, Operation.bind_of_ok (Operation.find_idOf scope)]
    exact Operation.bind_of_error (Operation.advance_late late)
  | query r enclosing position =>
    change s.tree.Owns enclosing at known
    obtain ⟨scope, rfl⟩ := known
    apply Operation.bind_of_error
    rw [Operation.query, Operation.bind_of_ok (Operation.find_idOf scope)]
    exact Operation.bind_of_error (Operation.advance_late late)

theorem perform_accepted {reply : Reply π} (accepted : Accepted s c reply s') :
    c.perform s = .ok reply s' := by
  cases accepted with
  | reopened there admitted =>
    apply Operation.bind_of_ok
    rw [Operation.declareScope_placed admitted, Operation.placeScope_existing there]
  | declared fresh admitted =>
    apply Operation.bind_of_ok
    rw [Operation.declareScope_placed admitted, Operation.placeScope_fresh fresh]
  | imported resolved admitted =>
    subst resolved
    exact Operation.bind_of_ok (Operation.issueImport_admitted admitted)
  | answered admitted => exact Operation.bind_of_ok (Operation.query_admitted admitted)

theorem exists_accepted (known : s.tree.Owns c.enclosing) (named : c.Named)
    (admitted : s.Admits c.position) : ∃ reply s', Accepted s c reply s' := by
  obtain ⟨parent, id⟩ := known
  obtain ⟨p, positioned, later⟩ := admitted
  have admitted : s.Admits (some p) := ⟨p, rfl, later⟩
  cases c with
  | declareScope value enclosing tag position isInline location =>
    obtain ⟨segment, rfl, _⟩ := ofValue_of_isName (named value rfl)
    cases positioned
    change s.tree.idOf parent = enclosing at id
    subst id
    cases found : s.tree.child? parent segment.name with
    | none => exact ⟨_, _, .declared found admitted⟩
    | some existing => exact ⟨_, _, .reopened found admitted⟩
  | issueImport target enclosing position =>
    cases positioned
    change s.tree.idOf parent = enclosing at id
    subst id
    exact ⟨_, _, .imported rfl admitted⟩
  | query r enclosing position =>
    cases positioned
    change s.tree.idOf parent = enclosing at id
    subst id
    exact ⟨_, _, .answered admitted⟩

theorem perform_cases (c : Call τ π) (s : Session τ π) :
    (¬ s.tree.Owns c.enclosing ∧ c.perform s = .error (.unknownScope c.enclosing) s) ∨
    (∃ value, s.tree.Owns c.enclosing ∧ c.segment? = some value ∧ ¬ IsName value ∧
      c.perform s = .error (.malformed (.invalidSegment value)) s) ∨
    (s.tree.Owns c.enclosing ∧ c.Named ∧ ¬ s.Admits c.position ∧
      c.perform s = .error (.outOfOrder c.position s.lastPosition) s) ∨
    ∃ reply s', Accepted s c reply s' ∧ c.perform s = .ok reply s' := by
  -- One case for each check, in the order in which they are made.
  by_cases known : s.tree.Owns c.enclosing
  · by_cases named : c.Named
    · by_cases admitted : s.Admits c.position
      · obtain ⟨reply, s', accepted⟩ := exists_accepted known named admitted
        exact .inr (.inr (.inr ⟨reply, s', accepted, perform_accepted accepted⟩))
      · exact .inr (.inr (.inl ⟨known, named, admitted, perform_late known named admitted⟩))
    · obtain ⟨value, refused⟩ := Classical.not_forall.1 named
      obtain ⟨declares, bad⟩ := Classical.not_imp.1 refused
      exact .inr (.inl ⟨value, known, declares, bad, perform_malformed known declares bad⟩)
  · exact .inl ⟨known, perform_unknown known⟩

theorem perform_eq_ok {reply : Reply π} : c.perform s = .ok reply s' ↔ Accepted s c reply s' := by
  constructor
  · intro performed
    rcases perform_cases c s with ⟨_, failed⟩ | ⟨_, _, _, _, failed⟩ | ⟨_, _, _, failed⟩ |
      ⟨_, _, accepted, done⟩
    · rw [performed] at failed
      cases failed
    · rw [performed] at failed
      cases failed
    · rw [performed] at failed
      cases failed
    · rw [performed] at done
      cases done
      exact accepted
  · exact perform_accepted

theorem after_perform (c : Call τ π) (s : Session τ π) :
    c.perform.after s = s ∨ ∃ reply, Accepted s c reply (c.perform.after s) := by
  rcases perform_cases c s with ⟨_, failed⟩ | ⟨_, _, _, _, failed⟩ | ⟨_, _, _, failed⟩ |
    ⟨reply, s', accepted, done⟩
  · exact .inl (by rw [Operation.after, failed])
  · exact .inl (by rw [Operation.after, failed])
  · exact .inl (by rw [Operation.after, failed])
  · refine .inr ⟨reply, ?_⟩
    rw [Operation.after, done]
    exact accepted

theorem perform_eq_error {fault : SessionFault π} (failed : c.perform s = .error fault s') :
    s' = s := by
  rcases perform_cases c s with ⟨_, same⟩ | ⟨_, _, _, _, same⟩ | ⟨_, _, _, same⟩ | ⟨_, _, _, same⟩ <;>
    rw [failed] at same <;> cases same <;> rfl

end Call

namespace Accepted

variable {reply : Reply π}

theorem known (accepted : Accepted s c reply s') : s.tree.Owns c.enclosing := by
  cases accepted <;> exact ScopeTree.owns_idOf

theorem named (accepted : Accepted s c reply s') : c.Named := by
  intro value declares
  cases accepted with
  | reopened | declared =>
    cases declares
    exact isName_of_segment _
  | imported | answered => cases declares

theorem admitted (accepted : Accepted s c reply s') : s.Admits c.position := by
  cases accepted <;> assumption

theorem lastPosition_eq (accepted : Accepted s c reply s') : s'.lastPosition = c.position := by
  cases accepted <;> rfl

end Accepted

end ScopedNames

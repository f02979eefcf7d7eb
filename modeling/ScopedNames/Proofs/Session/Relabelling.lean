import ScopedNames.Proofs.Scope.Mirror
import ScopedNames.Proofs.Session.Call
import ScopedNames.Proofs.Session.Run

set_option autoImplicit false

namespace ScopedNames.Relabelling

variable {τ π τ' π' : Type} [LinearOrder π] [LinearOrder π'] (m : Relabelling τ π τ' π')

def index : Int → Int
  | .ofNat i => m.scope i
  | .negSucc k => .negSucc k

def scopeId (id : ScopeId) : ScopeId := ⟨id.session, m.index id.index⟩

def value (value : Value) : Value :=
  match Segment.ofValue value with
  | .ok segment => .text (m.segment segment).name
  | .error _ => value

def reference (r : Reference) : Reference :=
  ⟨r.segments.map m.segment, r.rooted, by simpa using r.segments_ne⟩

def directive (d : Import π) : Import π' :=
  ⟨m.reference d.path, d.target.map m.scope, m.scope d.scope, d.position.map m.position⟩

def found (f : Found) : Found := ⟨m.scope f.node, f.via, m.scope f.start⟩

def call : Call τ π → Call τ' π'
  | .declareScope segment enclosing tag position isInline location =>
    .declareScope (m.value segment) (m.scopeId enclosing) (m.tag tag) (position.map m.position)
      isInline location
  | .issueImport target enclosing position =>
    .issueImport (m.reference target) (m.scopeId enclosing) (position.map m.position)
  | .query reference enclosing position =>
    .query (m.reference reference) (m.scopeId enclosing) (position.map m.position)

def event : Event τ π → Event τ' π'
  | .scopeDeclared segment enclosing tag position isInline =>
    .scopeDeclared (m.value segment) (m.scopeId enclosing) (m.tag tag) (position.map m.position)
      isInline
  | .importIssued target enclosing position =>
    .importIssued (m.reference target) (m.scopeId enclosing) (position.map m.position)
  | .referenceQuery reference enclosing position =>
    .referenceQuery (m.reference reference) (m.scopeId enclosing) (position.map m.position)
  | .unsupported kind => .unsupported kind

def reply : Reply π → Reply π'
  | .declared i => .declared (m.scope i)
  | .imported d => .imported (m.directive d)
  | .answered found => .answered (found.map m.found)

def fault : SessionFault π → SessionFault π'
  | .malformed fault => .malformed fault
  | .unknownScope id => .unknownScope (m.scopeId id)
  | .outOfOrder position previous =>
    .outOfOrder (position.map m.position) (previous.map m.position)
  | .unsupportedEvent kind => .unsupportedEvent kind

def outcome {α β : Type} (f : α → β) :
    Except (SessionFault π) α → Except (SessionFault π') β
  | .ok a => .ok (f a)
  | .error fault => .error (m.fault fault)

def step (step : Event τ π × Reply π) : Event τ' π' × Reply π' :=
  (m.event step.1, m.reply step.2)

variable {m} {id id' : ScopeId} {s : Segment} {r : Reference} {e : Event τ π} {c : Call τ π}

theorem scopeId_inj (same : m.scopeId id = m.scopeId id') : id = id' := by
  obtain ⟨session, i⟩ := id
  obtain ⟨session', j⟩ := id'
  simp only [scopeId, ScopeId.mk.injEq] at same
  obtain ⟨rfl, same⟩ := same
  cases i with
  | ofNat i =>
    cases j with
    | ofNat j =>
      have equal : m.scope i = m.scope j := Int.ofNat.inj same
      rw [m.scope.injective equal]
    | negSucc k => cases same
  | negSucc k =>
    cases j with
    | ofNat j => cases same
    | negSucc l => cases same; rfl

theorem scopeId_idOf (t : ScopeTree τ π) (i : Nat) :
    m.scopeId (t.idOf i) = ⟨t.session, m.scope i⟩ := rfl

theorem value_segment : m.value (.text s.name) = .text (m.segment s).name := by
  rw [value, ofValue_segment]

theorem value_of_not_isName {value : Value} (bad : ¬ IsName value) : m.value value = value := by
  rw [Relabelling.value, ofValue_of_not_isName bad]

theorem names_reference : (m.reference r).names = (r.segments.map m.segment).map (·.name) := rfl

theorem rooted_reference : (m.reference r).rooted = r.rooted := rfl

theorem call?_event : (m.event e).call? = e.call?.map m.call := by cases e <;> rfl

theorem enclosing_call : (m.call c).enclosing = m.scopeId c.enclosing := by cases c <;> rfl

theorem position_call : (m.call c).position = c.position.map m.position := by cases c <;> rfl

theorem segment?_call : (m.call c).segment? = c.segment?.map m.value := by cases c <;> rfl

theorem scopeId_of_scope (kept : ∀ i, m.scope i = i) : m.scopeId id = id := by
  obtain ⟨session, i⟩ := id
  rw [scopeId]
  cases i with
  | ofNat i => rw [index, kept]; rfl
  | negSucc k => rfl

theorem found_of_scope (kept : ∀ i, m.scope i = i) (f : Found) : m.found f = f := by
  rw [found, kept, kept]

section Unchanged

variable {m : Relabelling τ π τ π}

theorem value_of_segment {value : Value} (kept : ∀ s, m.segment s = s) :
    m.value value = value := by
  by_cases named : IsName value
  · obtain ⟨segment, rfl, _⟩ := ofValue_of_isName named
    rw [value_segment, kept]
  · exact value_of_not_isName named

theorem reference_of_segment (kept : ∀ s, m.segment s = s) : m.reference r = r := by
  apply Reference.ext_segments
  · exact List.map_id'' kept r.segments
  · rfl

theorem directive_of_kept {d : Import π} (scope : d.scope = m.scope d.scope)
    (target : d.target = d.target.map m.scope) (kept : ∀ s, m.segment s = s)
    (position : ∀ p, m.position p = p) : m.directive d = d := by
  rw [directive, reference_of_segment kept, ← scope, ← target,
    Option.map_congr fun p _ => position p, Option.map_id']

theorem event_unchanged : (unchanged : Relabelling τ π τ π).event e = e := by
  cases e with
  | unsupported => rfl
  | scopeDeclared segment enclosing tag position isInline =>
    rw [event, value_of_segment fun _ => rfl, scopeId_of_scope fun _ => rfl]
    cases position <;> rfl
  | importIssued target enclosing position | referenceQuery target enclosing position =>
    rw [event, reference_of_segment fun _ => rfl, scopeId_of_scope fun _ => rfl]
    cases position <;> rfl

theorem reply_unchanged {reply : Reply π} :
    (unchanged : Relabelling τ π τ π).reply reply = reply := by
  cases reply with
  | declared => rfl
  | imported d =>
    rw [Relabelling.reply,
      directive_of_kept rfl (Option.map_id' ..).symm (fun _ => rfl) fun _ => rfl]
  | answered found => cases found <;> rfl

theorem fault_unchanged (fault : SessionFault π) :
    (unchanged : Relabelling τ π τ π).fault fault = fault := by
  cases fault with
  | malformed | unsupportedEvent => rfl
  | unknownScope id => rw [Relabelling.fault, scopeId_of_scope fun _ => rfl]
  | outOfOrder position previous => cases position <;> cases previous <;> rfl

theorem step_unchanged (step : Event τ π × Reply π) :
    (unchanged : Relabelling τ π τ π).step step = step := by
  rw [Relabelling.step, event_unchanged, reply_unchanged]

end Unchanged

end ScopedNames.Relabelling

import ScopedNames.Proofs.Session.Simulation

set_option autoImplicit false

namespace ScopedNames

variable {τ π τ' π' : Type} [LinearOrder π] [LinearOrder π'] {m : Relabelling τ π τ' π'}
variable {s s₁ final : Session τ π} {u : Session τ' π'} {c : Call τ π} {e : Event τ π}
variable {reply : Reply π} {p p' : π} {steps kept : List (Event τ π × Reply π)} {number : Nat}

/-- The event was accepted in this session, but no later look-up can tell. -/
inductive Idle (s : Session τ π) : Event τ π → Reply π → Prop where
  | query {r : Reference} {enclosing : ScopeId} {position : Option π} {reply : Reply π} :
      Idle s (.referenceQuery r enclosing position) reply
  | reopening {segment : Value} {enclosing : ScopeId} {tag : Option τ} {position : Option π}
      {isInline : Bool} {existing : Nat} (there : existing < s.tree.size) :
      Idle s (.scopeDeclared segment enclosing tag position isInline) (.declared existing)
  | inert {path : Reference} {enclosing : ScopeId} {position : Option π} {d : Import π}
      (inert : d.isInert = true) : Idle s (.importIssued path enclosing position) (.imported d)
  | repeated {path : Reference} {enclosing : ScopeId} {position : Option π} {d : Import π}
      {i : Nat} (target : d.target = some i)
      (active : i ∈ s.tree.activeImports s.recorded (s.tree.chain d.scope) d.position) :
      Idle s (.importIssued path enclosing position) (.imported d)

/-- A run, and what is left of its steps when some of the idle ones are deleted. -/
inductive Erased : Session τ π → List (Event τ π × Reply π) → List (Event τ π × Reply π) →
    Session τ π → Prop where
  | done (s : Session τ π) : Erased s [] [] s
  | keep {s s' final : Session τ π} {e : Event τ π} {reply : Reply π}
      {steps kept : List (Event τ π × Reply π)} (applied : s.apply e = .ok (s', reply))
      (rest : Erased s' steps kept final) :
      Erased s ((e, reply) :: steps) ((e, reply) :: kept) final
  | drop {s s' final : Session τ π} {e : Event τ π} {reply : Reply π}
      {steps kept : List (Event τ π × Reply π)} (idle : Idle s e reply)
      (applied : s.apply e = .ok (s', reply)) (rest : Erased s' steps kept final) :
      Erased s ((e, reply) :: steps) kept final

namespace Session

theorem Admits.later (admitted : s.Admits (some p)) (later : p < p') : s.Admits (some p') := by
  obtain ⟨_, same, clock⟩ := admitted
  cases same
  exact ⟨p', rfl, fun last known => lt_trans (clock last known) later⟩

namespace Mirrors

theorem clock_idle (mirrors : s.Mirrors m u) (admitted : s.Admits (some p))
    (clock : s₁.lastPosition = some p) :
    ∀ p', m.watched p' → s₁.Admits (some p') → u.Admits (some (m.position p')) := by
  intro p' watched after
  exact mirrors.clock p' watched (admitted.later ((admits_after clock).1 after))

theorem idle (mirrors : s.Mirrors m u) (inv : s.Invariant) (idle : Idle s e reply)
    (called : e.call? = some c) (accepted : Accepted s c reply s₁) : s₁.Mirrors m u := by
  cases idle with
  | query =>
    cases called
    cases accepted with
    | answered admitted =>
      exact { mirrors with clock := mirrors.clock_idle admitted rfl }
  | reopening there =>
    cases called
    cases accepted with
    | reopened _ admitted =>
      exact { mirrors with clock := mirrors.clock_idle admitted rfl }
    | declared => exact absurd there (Nat.lt_irrefl _)
  | @inert _ _ _ d inert =>
    cases called
    cases accepted with
    | imported resolved admitted =>
      refine ⟨mirrors.number, mirrors.table, ?_, mirrors.clock_idle admitted rfl⟩
      intro q now watched
      rw [mirrors.opened q now watched, opened_issue_of_mem]
      intro i target
      rw [Import.isInert, target] at inert
      cases inert
  | @repeated _ _ _ d i target active =>
    cases called
    cases accepted with
    | imported resolved admitted =>
      refine ⟨mirrors.number, mirrors.table, ?_, mirrors.clock_idle admitted rfl⟩
      intro q now watched
      rw [mirrors.opened q now watched, opened_issue_of_mem]
      intro j same
      rw [target] at same
      cases same
      rw [← inv.activeImports_eq]
      exact active

end Mirrors

end Session

theorem Erased.trace (erased : Erased s steps kept final) : Trace s steps final := by
  induction erased with
  | done s => exact .done s
  | keep applied _ ih => exact .step applied ih
  | drop _ applied _ ih => exact .step applied ih

theorem Trace.erased (trace : Trace s steps final) : Erased s steps steps final := by
  induction trace with
  | done s => exact .done s
  | step applied _ ih => exact .keep applied ih

-- What is left of a run is a run of every image of the session, with the replies it had.
theorem Erased.mirrored (erased : Erased s steps kept final) (mirrors : s.Mirrors m u)
    (inv : s.Invariant) (inv' : u.Invariant)
    (watched : ∀ step ∈ steps, ∀ p, step.1.position = some p → m.watched p) :
    ∃ final', Trace u (kept.map m.step) final' ∧ final.Mirrors m final' := by
  induction erased generalizing u with
  | done s => exact ⟨u, .done u, mirrors⟩
  | @keep s s' final e reply steps kept applied rest ih =>
    obtain ⟨c, called, accepted⟩ := Session.apply_eq_ok.1 applied
    have here : ∀ p, c.position = some p → m.watched p := by
      intro p positioned
      apply watched (e, reply) List.mem_cons_self
      rw [Event.position, called]
      exact positioned
    obtain ⟨u', accepted', mirrors'⟩ := accepted.mirrored mirrors inv inv' here
    obtain ⟨final', trace, alike⟩ := ih mirrors' (accepted.invariant inv)
      (accepted'.invariant inv') fun step member => watched step (List.mem_cons_of_mem _ member)
    have applied' : u.apply (m.event e) = .ok (u', m.reply reply) :=
      Session.apply_eq_ok.2 ⟨m.call c, by rw [Relabelling.call?_event, called]; rfl, accepted'⟩
    exact ⟨final', .step applied' trace, alike⟩
  | @drop s s' final e reply steps kept idle applied rest ih =>
    obtain ⟨c, called, accepted⟩ := Session.apply_eq_ok.1 applied
    exact ih (mirrors.idle inv idle called accepted) (accepted.invariant inv) inv'
      fun step member => watched step (List.mem_cons_of_mem _ member)

section Unchanged

open Relabelling

variable {s' : Session τ π} {a b : Scope τ π} {r : Reference} {id : ScopeId}

theorem Relabelling.Carries.eq_of_unchanged
    (carries : (unchanged : Relabelling τ π τ π).Carries a b)
    (placed : a.position = some p) (placed' : b.position = some p') : b = a := by
  obtain ⟨parent, name, tag, position, isInline, location⟩ := a
  obtain ⟨_, _, _, _, _, _⟩ := b
  obtain ⟨rfl, rfl, rfl, rfl, rfl, same⟩ := carries
  cases placed
  cases placed'
  have earlier : ∀ now, p' < now ↔ p < now := by
    intro now
    rw [← decide_eq_decide]
    exact same now trivial
  have order : ¬ p < p' := fun less => lt_irrefl _ ((earlier p').2 less)
  have order' : ¬ p' < p := fun less => lt_irrefl _ ((earlier p).1 less)
  rw [le_antisymm (le_of_not_gt order) (le_of_not_gt order')]

theorem Relabelling.outcome_unchanged
    (answer : Except (SessionFault π) (Option (Verdict τ))) :
    (unchanged : Relabelling τ π τ π).outcome (·.map (unchanged : Relabelling τ π τ π).verdict)
      answer = answer := by
  cases answer with
  | ok found =>
    cases found with
    | none => rfl
    | some v =>
      rw [outcome, Option.map_some, Relabelling.verdict, scopeId_of_scope fun _ => rfl,
        scopeId_of_scope fun _ => rfl]
      rfl
  | error fault => rw [outcome, fault_unchanged]

namespace Session.Mirrors

theorem scope?_eq (mirrors : s.Mirrors unchanged s') (inv : s.Invariant) (inv' : s'.Invariant)
    (i : Nat) : s'.tree.scope? i = s.tree.scope? i := by
  cases there : s.tree.scope? i with
  | none => exact mirrors.table.absent there
  | some a =>
    obtain ⟨b, image, carries⟩ := mirrors.table.scopes i a there
    obtain ⟨p, _, placed, _⟩ := inv.scope_reached i a there
    obtain ⟨p', _, placed', _⟩ := inv'.scope_reached i b image
    exact image.trans (congrArg some (carries.eq_of_unchanged placed placed'))

theorem verdictAt_unchanged (mirrors : s.Mirrors unchanged s') (inv : s.Invariant)
    (inv' : s'.Invariant) : s'.verdictAt r id (some p) = s.verdictAt r id (some p) := by
  have watched : (unchanged : Relabelling τ π τ π).watched p := trivial
  have same := mirrors.verdictAt_eq (r := r) inv inv' watched id
  rw [reference_of_segment fun _ => rfl, scopeId_of_scope fun _ => rfl, outcome_unchanged] at same
  exact same

end Session.Mirrors

/--
Queries, reopenings, inert and repeated directives can be deleted from a run: what is left of it
is accepted with the same replies, and leaves the same scopes and the same meanings.
-/
theorem Session.erasure_unnoticed (erased : Erased (Session.new number) steps kept s) :
    (Session.new number).run (steps.map (·.1)) = (s, .ok (answersIn steps)) ∧
    ∃ s', Trace (Session.new number) kept s' ∧
      (Session.new number).run (kept.map (·.1)) = (s', .ok (answersIn kept)) ∧
      s'.tree.session = s.tree.session ∧ s'.tree.scope? = s.tree.scope? ∧
      (∀ found, s'.verdict found = s.verdict found) ∧
      ∀ (r : Reference) (id : ScopeId) (p : π),
        s'.verdictAt r id (some p) = s.verdictAt r id (some p) := by
  have inv : (Session.new number : Session τ π).Invariant := invariant_new number
  have whole := erased.trace
  obtain ⟨s', trace, mirrors⟩ := erased.mirrored (m := unchanged) (.new (fun _ => rfl) number) inv
    inv fun _ _ _ _ => trivial
  rw [List.map_congr_left fun step _ => step_unchanged step, List.map_id'] at trace
  have final := whole.runs.invariant inv
  have final' := trace.runs.invariant inv
  have scopes := funext (mirrors.scope?_eq final final')
  refine ⟨whole.run_eq, s', trace, trace.run_eq, mirrors.number, scopes, ?_, ?_⟩
  · intro found
    rw [verdict, verdict, ScopeTree.idOf, ScopeTree.idOf, mirrors.number, scopes]
    rfl
  · intro r id p
    exact mirrors.verdictAt_unchanged final final'

namespace Session

-- The members of `Outer` are opened around it, and once more inside it.
theorem erasure_unnoticed_of_repeated :
    ∃ (steps kept : List (Event Nat Int × Reply Int)) (s s' : Session Nat Int),
      Erased (new 0) steps kept s ∧
      steps.map (·.1) = [declareOuter, declareInner, .importIssued outerPath ⟨0, 0⟩ (some 3),
        .importIssued outerPath ⟨0, 1⟩ (some 4), askInner] ∧
      kept.map (·.1) =
        [declareOuter, declareInner, .importIssued outerPath ⟨0, 0⟩ (some 3), askInner] ∧
      (new 0).run (kept.map (·.1)) = (s', .ok [some ⟨2, .imported, 1⟩]) ∧
      s'.tree.scope? = s.tree.scope? := by
  have erased : Erased (new 0)
      [(declareOuter, _), (declareInner, _), (.importIssued outerPath ⟨0, 0⟩ (some 3), _),
        (.importIssued outerPath ⟨0, 1⟩ (some 4), _), (askInner, _)]
      [(declareOuter, _), (declareInner, _), (.importIssued outerPath ⟨0, 0⟩ (some 3), _),
        (askInner, _)] _ :=
    .keep rfl (.keep rfl (.keep rfl (.drop
      (.repeated (i := 1) (by cbv) (List.mem_of_elem_eq_true (by cbv))) rfl
      (.keep rfl (.done _)))))
  obtain ⟨_, s', _, ran, _, scopes, _⟩ := erasure_unnoticed erased
  refine ⟨_, _, _, s', erased, rfl, rfl, ?_, scopes⟩
  rw [ran]
  cbv

end Session

end Unchanged

end ScopedNames

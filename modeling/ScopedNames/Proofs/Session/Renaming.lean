import ScopedNames.Proofs.Session.Simulation

set_option autoImplicit false

namespace ScopedNames

variable {τ π τ' π' : Type} [LinearOrder π] [LinearOrder π'] {m : Relabelling τ π τ' π'}
variable {s : Session τ π} {s' : Session τ' π'} {c : Call τ π} {e : Event τ π}
variable {events : List (Event τ π)} {position : Option π}

-- Every event is applied in turn, whatever came of those before it.
def Session.attempt (s : Session τ π) :
    List (Event τ π) → Session τ π × List (Except (SessionFault π) (Reply π))
  | [] => (s, [])
  | e :: events =>
    let rest := (e.handle.after s).attempt events
    (rest.1, (s.apply e).map (·.2) :: rest.2)

theorem Relabelling.named_call (named : c.Named) : (m.call c).Named := by
  intro value declares
  rw [segment?_call, Option.map_eq_some_iff] at declares
  obtain ⟨original, declared, rfl⟩ := declares
  obtain ⟨segment, rfl, _⟩ := ofValue_of_isName (named original declared)
  rw [value_segment]
  exact isName_of_segment _

namespace Session

structure Twins (m : Relabelling τ π τ' π') (s : Session τ π) (s' : Session τ' π') : Prop where
  mirrors : s.Mirrors m s'
  inv : s.Invariant
  inv' : s'.Invariant
  lastPosition : s'.lastPosition = s.lastPosition.map m.position

namespace Twins

theorem new (kept : ∀ i, m.scope i = i) (number : Nat) :
    Twins m (Session.new number) (Session.new number) where
  mirrors := .new kept number
  inv := invariant_new number
  inv' := invariant_new number
  lastPosition := rfl

theorem admits_iff (twins : s.Twins m s') :
    s'.Admits (position.map m.position) ↔ s.Admits position := by
  simp only [Admits, twins.lastPosition, Option.map_eq_some_iff]
  constructor
  · rintro ⟨_, ⟨p, rfl, rfl⟩, later⟩
    exact ⟨p, rfl, fun last known => m.position_mono.lt_iff_lt.1 (later _ ⟨last, known, rfl⟩)⟩
  · rintro ⟨p, rfl, later⟩
    refine ⟨m.position p, ⟨p, rfl, rfl⟩, ?_⟩
    rintro _ ⟨last, known, rfl⟩
    exact m.position_mono (later last known)

-- The twin of a refused call is refused for the same fault, and both sessions stay.
theorem perform (twins : s.Twins m s') (watched : ∀ p, m.watched p) (c : Call τ π) :
    (∃ fault, c.perform s = .error fault s ∧ (m.call c).perform s' = .error (m.fault fault) s') ∨
    ∃ reply s₁ s₁', c.perform s = .ok reply s₁ ∧ (m.call c).perform s' = .ok (m.reply reply) s₁' ∧
      s₁.Twins m s₁' := by
  have known' : s'.tree.Owns (m.call c).enclosing ↔ s.tree.Owns c.enclosing := by
    rw [Relabelling.enclosing_call]
    exact twins.mirrors.owns_iff
  rcases Call.perform_cases c s with ⟨foreign, failed⟩ | ⟨value, known, declares, bad, failed⟩ |
    ⟨known, named, late, failed⟩ | ⟨reply, s₁, accepted, done⟩
  · refine .inl ⟨_, failed, ?_⟩
    rw [Call.perform_unknown fun owned => foreign (known'.1 owned), Relabelling.enclosing_call]
    rfl
  · refine .inl ⟨_, failed, ?_⟩
    apply Call.perform_malformed (known'.2 known) _ bad
    rw [Relabelling.segment?_call, declares, Option.map_some, Relabelling.value_of_not_isName bad]
  · refine .inl ⟨_, failed, ?_⟩
    have late' : ¬ s'.Admits (m.call c).position := by
      rw [Relabelling.position_call, twins.admits_iff]
      exact late
    rw [Call.perform_late (known'.2 known) (Relabelling.named_call named) late',
      Relabelling.position_call, twins.lastPosition]
    rfl
  · obtain ⟨s₁', accepted', mirrors⟩ :=
      accepted.mirrored twins.mirrors twins.inv twins.inv' fun p _ => watched p
    refine .inr ⟨reply, s₁, s₁', done, Call.perform_accepted accepted', mirrors,
      accepted.invariant twins.inv, accepted'.invariant twins.inv', ?_⟩
    rw [accepted.lastPosition_eq, accepted'.lastPosition_eq, Relabelling.position_call]

theorem handle (twins : s.Twins m s') (watched : ∀ p, m.watched p) (e : Event τ π) :
    (∃ fault, e.handle s = .error fault s ∧ (m.event e).handle s' = .error (m.fault fault) s') ∨
    ∃ reply s₁ s₁', e.handle s = .ok reply s₁ ∧ (m.event e).handle s' = .ok (m.reply reply) s₁' ∧
      s₁.Twins m s₁' := by
  cases called : e.call? with
  | none =>
    cases e <;> cases called
    exact .inl ⟨_, rfl, rfl⟩
  | some c =>
    have called' : (m.event e).call? = some (m.call c) := by
      rw [Relabelling.call?_event, called, Option.map_some]
    rw [Event.handle_of_call called, Event.handle_of_call called']
    exact twins.perform watched c

theorem attempt (twins : s.Twins m s') (watched : ∀ p, m.watched p) (events : List (Event τ π)) :
    (s'.attempt (events.map m.event)).2 = (s.attempt events).2.map (m.outcome m.reply) ∧
      (s.attempt events).1.Twins m (s'.attempt (events.map m.event)).1 := by
  induction events generalizing s s' with
  | nil => exact ⟨rfl, twins⟩
  | cons e events ih =>
    rcases twins.handle watched e with ⟨fault, failed, failed'⟩ |
      ⟨reply, s₁, s₁', done, done', twins₁⟩
    · obtain ⟨outcomes, final⟩ := ih twins
      simp only [List.map_cons, Session.attempt, Operation.after, apply, Operation.outcome, failed,
        failed', Except.map, Relabelling.outcome, outcomes]
      exact ⟨trivial, final⟩
    · obtain ⟨outcomes, final⟩ := ih twins₁
      simp only [List.map_cons, Session.attempt, Operation.after, apply, Operation.outcome, done,
        done', Except.map, Relabelling.outcome, outcomes]
      exact ⟨trivial, final⟩

theorem run (twins : s.Twins m s') (watched : ∀ p, m.watched p) (events : List (Event τ π)) :
    (s'.run (events.map m.event)).2 = m.outcome (·.map (·.map m.found)) (s.run events).2 ∧
      (s.run events).1.Twins m (s'.run (events.map m.event)).1 := by
  induction events generalizing s s' with
  | nil => exact ⟨rfl, twins⟩
  | cons e events ih =>
    rcases twins.handle watched e with ⟨fault, failed, failed'⟩ |
      ⟨reply, s₁, s₁', done, done', twins₁⟩
    · rw [List.map_cons, Session.run, Session.run, failed, failed']
      exact ⟨rfl, twins⟩
    · obtain ⟨answers, final⟩ := ih twins₁
      rw [List.map_cons, Session.run, Session.run, done, done']
      cases reply with
      | declared | imported => exact ⟨answers, final⟩
      | answered found =>
        refine ⟨?_, final⟩
        simp only [Relabelling.reply, answers]
        cases (s₁.run events).2 <;> rfl

theorem verdictAt_eq (twins : s.Twins m s') {r : Reference} {p : π} (watched : m.watched p)
    (id : ScopeId) :
    s'.verdictAt (m.reference r) (m.scopeId id) (some (m.position p)) =
      m.outcome (·.map m.verdict) (s.verdictAt r id (some p)) :=
  twins.mirrors.verdictAt_eq twins.inv twins.inv' watched id

end Twins

end Session

end ScopedNames

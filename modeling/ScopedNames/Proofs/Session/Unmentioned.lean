import ScopedNames.Proofs.Session.Opening
import ScopedNames.Proofs.Session.TimeTravel

set_option autoImplicit false

namespace ScopedNames

variable {τ π : Type} [LinearOrder π] {s s' : Session τ π} {a : Scope τ π} {r : Reference}
variable {now position : Option π} {value : Value} {enclosing : ScopeId} {tag : Option τ}
variable {isInline : Bool} {location : Option Location} {q i number : Nat}

namespace ScopeTable

variable {t t' : ScopeTable τ π} {names : List String} {via : Via} {starts : List Nat}

theorem searchFrom_congr
    (same : ∀ i, t'.follow (t'.isVisible now) i names = t.follow (t.isVisible now) i names) :
    t'.searchFrom names now via starts = t.searchFrom names now via starts := by
  simp only [searchFrom, reach_eq_follow, same]

theorem follow_isVisible_add (bound : a.parent < t.size) (apart : a.name.name ∉ names) :
    (t.add a bound).follow ((t.add a bound).isVisible now) i names =
      t.follow (t.isVisible now) i names := by
  -- Where it is visible the new scope is searched, but it leads to none of these names.
  rw [follow_add_apart bound apart]
  apply follow_congr
  intro j known
  rw [isVisible, isVisible, (extends_add bound).kept j known]

end ScopeTable

namespace Session

theorem declareScope_eq_ok
    (declared : s.declareScope value enclosing tag position isInline location = .ok (s', i)) :
    Accepted s (.declareScope value enclosing tag position isInline location) (.declared i) s' := by
  apply Call.perform_eq_ok.1
  apply Operation.bind_of_ok
  rw [declareScope, Operation.outcome] at declared
  cases done : Operation.declareScope value enclosing tag position isInline location s with
  | ok index after =>
    rw [done] at declared
    cases declared
    rfl
  | error fault after =>
    rw [done] at declared
    cases declared

theorem Invariant.resolveFrom_declare (inv : s.Invariant) {bound : a.parent < s.tree.size}
    {last : Option π}
    (inv' : Invariant
      { s with
        tree := { s.tree with toScopeTable := s.tree.add a bound }
        lastPosition := last })
    (known : q < s.tree.size) (apart : a.name.name ∉ r.names) :
    resolveFrom
        { s with
          tree := { s.tree with toScopeTable := s.tree.add a bound }
          lastPosition := last } r q now = s.resolveFrom r q now := by
  have led (i : Nat) : (s.tree.add a bound).follow ((s.tree.add a bound).isVisible now) i r.names =
      s.tree.follow (s.tree.isVisible now) i r.names :=
    ScopeTable.follow_isVisible_add bound apart
  have around : (s.tree.add a bound).chain q = s.tree.chain q :=
    (ScopeTable.extends_add bound).chain_eq known
  rw [inv.resolveFrom_eq, inv'.resolveFrom_eq, opened_declare inv.import_scope,
    if_neg (Nat.ne_of_lt known), starts, starts, around, ScopeTable.searchFrom_congr led,
    ScopeTable.searchFrom_congr led]

end Session

theorem Accepted.resolveFrom_declare {reply : Reply π}
    (accepted : Accepted s (.declareScope value enclosing tag position isInline location) reply s')
    (inv : s.Invariant) (known : q < s.tree.size) (unnamed : ∀ name ∈ r.names, value ≠ .text name) :
    s'.resolveFrom r q now = s.resolveFrom r q now := by
  have inv' := accepted.invariant inv
  cases accepted with
  | reopened => rfl
  | declared => exact inv.resolveFrom_declare inv' known fun member => unnamed _ member rfl

/-- A declaration is not noticed by who does not ask for its name, at whatever position. -/
theorem Reachable.declaration_unnoticed (reachable : Reachable number s)
    (declared : s.declareScope value enclosing tag position isInline location = .ok (s', i))
    (unnamed : ∀ name ∈ r.names, value ≠ .text name) {id : ScopeId} (known : s.tree.Owns id)
    (now : Option π) : s'.verdictAt r id now = s.verdictAt r id now := by
  have accepted := Session.declareScope_eq_ok declared
  have kept := accepted.keeps
  obtain ⟨q, rfl⟩ := known
  have inside := Nat.lt_of_lt_of_le q.isLt kept.scopes.size_le
  have after := Session.verdictAt_idOf r inside now
  rw [kept.idOf_eq] at after
  rw [after, Session.verdictAt_idOf r q.isLt,
    accepted.resolveFrom_declare reachable.invariant q.isLt unnamed, kept.verdict_eq]

-- A new inline member of `Outer` is searched from then on, but `Inner` means what it meant.
theorem Reachable.declaration_unnoticed_of_inline :
    ∃ (s s' : Session Nat Int) (i : Nat), Reachable 0 s ∧
      s.declareScope (.text "Aside") ⟨0, 1⟩ none (some 3) true none = .ok (s', i) ∧
      s'.tree.inlineChildren 1 = [i] ∧
      (∀ name ∈ Session.innerName.names, Value.text "Aside" ≠ .text name) ∧
      s.tree.Owns ⟨0, 1⟩ ∧
      s'.verdictAt Session.innerName ⟨0, 1⟩ (some 4) =
        s.verdictAt Session.innerName ⟨0, 1⟩ (some 4) := by
  let outer : Call Nat Int := .declareScope (.text "Outer") ⟨0, 0⟩ (some 7) (some 1) false none
  let inner : Call Nat Int := .declareScope (.text "Inner") ⟨0, 1⟩ none (some 2) false none
  have reachable : Reachable 0 (inner.perform.after (outer.perform.after (Session.new 0))) :=
    .call (.call .new outer) inner
  have declared : Session.declareScope (inner.perform.after (outer.perform.after (Session.new 0)))
      (.text "Aside") ⟨0, 1⟩ none (some 3) true none = .ok (_, _) := rfl
  have unnamed : ∀ name ∈ Session.innerName.names, Value.text "Aside" ≠ .text name := by
    simp [Session.innerName, Reference.names]
  have known : (inner.perform.after (outer.perform.after (Session.new 0))).tree.Owns ⟨0, 1⟩ :=
    ⟨⟨1, by cbv⟩, rfl⟩
  exact ⟨_, _, _, reachable, declared, by cbv, unnamed, known,
    reachable.declaration_unnoticed declared unnamed known (some 4)⟩

end ScopedNames

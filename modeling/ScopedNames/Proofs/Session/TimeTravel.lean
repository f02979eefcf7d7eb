import ScopedNames.Proofs.Session.Past

set_option autoImplicit false

namespace ScopedNames

structure Verdict (τ : Type) where
  node : ScopeId
  tag : Option τ
  via : Via
  start : ScopeId

variable {τ π : Type} [LinearOrder π] {s s' final : Session τ π}
variable {events later : List (Event τ π)} {answers more : List (Option Found)} {p : π}
variable {r : Reference} {q i : Nat} {number : Nat}

namespace Session

def verdict (s : Session τ π) (found : Found) : Verdict τ :=
  ⟨s.tree.idOf found.node, (s.tree.scope? found.node).bind (·.tag), found.via,
    s.tree.idOf found.start⟩

def verdictAt (s : Session τ π) (r : Reference) (enclosing : ScopeId) (now : Option π) :
    Except (SessionFault π) (Option (Verdict τ)) :=
  (s.resolveAt r enclosing now).map (·.map s.verdict)

-- The queries among the events asked once more, each at its own position.
def reask (s : Session τ π) (events : List (Event τ π)) :
    List (Except (SessionFault π) (Option (Verdict τ))) :=
  events.filterMap fun
    | .referenceQuery r enclosing position => some (s.verdictAt r enclosing position)
    | _ => none

theorem verdictAt_idOf (r : Reference) (inside : q < s.tree.size) (now : Option π) :
    s.verdictAt r (s.tree.idOf q) now = .ok ((s.resolveFrom r q now).map s.verdict) := by
  rw [verdictAt, resolveAt_idOf s r ⟨q, inside⟩]
  rfl

theorem verdictAt_unknown {id : ScopeId} (foreign : ¬ s.tree.Owns id) (now : Option π) :
    s.verdictAt r id now = .error (.unknownScope id) := by
  rw [verdictAt, resolveAt_unknown foreign]
  rfl

theorem Keeps.verdict_eq (kept : s.Keeps s') {now : Option π} :
    (s.resolveFrom r q now).map s'.verdict = (s.resolveFrom r q now).map s.verdict := by
  apply Option.map_congr
  intro found resolved
  obtain ⟨a, there, _⟩ := ScopeTable.exists_of_resolve resolved
  rw [verdict, verdict, kept.idOf_eq, kept.idOf_eq, kept.scopes.scope?_eq_some there, there]

theorem SamePast.verdictAt_eq {beyond : List Nat} (past : SamePast p s s') (inv : s.Invariant)
    (inv' : s'.Invariant) (inside : q < s.tree.size) (bound : i < s'.tree.size)
    (around : s'.tree.chain i = beyond ++ s.tree.chain q) (late : ∀ j ∈ beyond, s.tree.size ≤ j) :
    s'.verdictAt r (s'.tree.idOf i) (some p) = s.verdictAt r (s.tree.idOf q) (some p) := by
  rw [verdictAt_idOf r bound, verdictAt_idOf r inside, past.resolveFrom_eq inv inv' around late,
    past.kept.verdict_eq]

theorem SamePast.verdictAt_idOf (past : SamePast p s s') (inv : s.Invariant) (inv' : s'.Invariant)
    (inside : q < s.tree.size) :
    s'.verdictAt r (s.tree.idOf q) (some p) =
      .ok ((s.resolveFrom r q (some p)).map s.verdict) := by
  have bound := Nat.lt_of_lt_of_le inside past.kept.scopes.size_le
  rw [← past.kept.idOf_eq, past.verdictAt_eq inv inv' inside bound
    (past.kept.scopes.chain_eq inside) (List.forall_mem_nil _), Session.verdictAt_idOf r inside]

end Session

-- Whatever is accepted later, a query asked once more is answered as it was.
theorem Runs.reask_eq (runs : Runs s events s' answers) (rest : Runs s' later final more)
    (inv : s.Invariant) :
    final.reask events = answers.map fun answer => .ok (answer.map s'.verdict) := by
  induction runs with
  | done s => rfl
  | @query s s₁ s' r enclosing position found events answers handled runs ih =>
    obtain ⟨c, called, accepted⟩ := Event.handle_eq_ok.1 handled
    have inv₁ := accepted.invariant inv
    cases called
    cases accepted with
    | @answered r scope p admitted =>
      have on := runs.append rest
      have past : Session.SamePast p _ final := on.samePast_of_clock rfl
      have upToNow : Session.SamePast p _ s' := runs.samePast_of_clock rfl
      let after : Session τ π := { s with lastPosition := some p }
      have again : final.verdictAt r (s.tree.idOf scope) (some p) =
          .ok ((s.resolveFrom r scope (some p)).map s'.verdict) := by
        calc final.verdictAt r (after.tree.idOf scope) (some p)
            = .ok ((after.resolveFrom r scope (some p)).map after.verdict) :=
              past.verdictAt_idOf inv₁ (on.invariant inv₁) scope.isLt
          _ = .ok ((after.resolveFrom r scope (some p)).map s'.verdict) := by
              rw [upToNow.kept.verdict_eq]
      rw [List.map_cons, ← ih rest inv₁, ← again]
      rfl
  | @other s s₁ s' e reply events answers quiet handled runs ih =>
    obtain ⟨c, called, accepted⟩ := Event.handle_eq_ok.1 handled
    rw [← ih rest (accepted.invariant inv)]
    cases e with
    | referenceQuery => cases quiet
    | scopeDeclared | importIssued | unsupported => rfl

/-- Time travel: what is asked of a position is answered by what came before it, for good. -/
theorem Session.past_settled
    (ran : (Session.new number : Session τ π).run events = (s, .ok answers)) :
    (∀ p : π, ∃ early given, eventsBefore p events <+: events ∧
      (Session.new number).run (eventsBefore p events) = (early, .ok given) ∧
      ∀ (q : Fin s.tree.size) (r : Reference), ∃ q' answer,
        ((s.tree.chain q).find? fun i => (early.tree.find? (s.tree.idOf i)).isSome) = some q' ∧
        s.verdictAt r (s.tree.idOf q) (some p) = .ok answer ∧
        early.verdictAt r (s.tree.idOf q') (some p) = .ok answer) ∧
    ∀ (later : List (Event τ π)) (final : Session τ π) (more : List (Option Found)),
      s.run later = (final, .ok more) →
        final.reask events = answers.map fun answer => .ok (answer.map s.verdict) := by
  have runs := Session.run_eq_ok.1 ran
  have inv := runs.invariant (Session.invariant_new number)
  constructor
  · intro p
    obtain ⟨early, first, initial, before, past⟩ := runs.split_at p
    refine ⟨early, first, initial, Session.run_of_runs before, ?_⟩
    intro q r
    obtain ⟨beyond, q', around, late, inside⟩ := past.kept.scopes.chain_split q.isLt
    have same := past.verdictAt_eq (r := r) (before.invariant (invariant_new number)) inv inside
      q.isLt around late
    have answered := verdictAt_idOf (s := early) r inside (some p)
    refine ⟨q', _, ?_, same.trans answered, ?_⟩
    · simp only [past.kept.idOf_eq, ScopeTree.isSome_find?_idOf]
      exact ScopeTable.find?_chain around late inside
    · rw [past.kept.idOf_eq q']
      exact answered
  · intro later final more further
    exact runs.reask_eq (Session.run_eq_ok.1 further) (Session.invariant_new number)

namespace Session

def outward : List (Event Nat Int) :=
  [.scopeDeclared (.text "A") ⟨0, 0⟩ (some 7) (some 1) false,
    .scopeDeclared (.text "B") ⟨0, 0⟩ none (some 2) false,
    .referenceQuery ⟨[⟨"A", by decide, by decide⟩], false, by simp⟩ ⟨0, 2⟩ (some 3)]

def shadowing : List (Event Nat Int) :=
  [.scopeDeclared (.text "A") ⟨0, 2⟩ (some 8) (some 4) false]

theorem past_settled_of_shadowing :
    ∃ s final : Session Nat Int,
      (new 0).run outward = (s, .ok [some ⟨1, .enclosing, 0⟩]) ∧
      s.run shadowing = (final, .ok []) ∧
      final.reask outward = [.ok (some ⟨⟨0, 1⟩, some 7, .enclosing, ⟨0, 0⟩⟩)] := by
  have ran : (new 0).run outward = (((new 0).run outward).1, .ok [some ⟨1, .enclosing, 0⟩]) :=
    Prod.ext rfl (by cbv)
  have further : ((new 0).run outward).1.run shadowing =
      ((((new 0).run outward).1.run shadowing).1, .ok []) := Prod.ext rfl (by cbv)
  refine ⟨_, _, ran, further, ?_⟩
  rw [(past_settled ran).2 _ _ _ further]
  cbv

end Session

end ScopedNames

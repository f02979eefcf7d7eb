import ScopedNames.Proofs.Check.Balance
import ScopedNames.Proofs.Dialect.Reading
import ScopedNames.Proofs.Session.Meaning

set_option autoImplicit false

namespace ScopedNames.Check.Walk

open Dialect

variable {file : String} {w w₀ w₁ w₂ : Walk} {r : Reference} {js : List Nat}
variable {around : Surrounding Span} {first : PathSegment Span} {others : List (PathSegment Span)}
variable {attributes : List (Attribute Span)} {body : List (Declaration Span)}

theorem Sound.isVisible (sound : w.Sound) {i : Nat} (known : i < w.session.tree.size) :
    w.session.tree.isVisible (some w.nextPosition) i = true := by
  by_cases outermost : i = root
  · rw [outermost, ScopeTable.isVisible_root]
  · obtain ⟨s, there⟩ := ScopeTable.exists_scope outermost known
    rw [ScopeTable.isVisible_of_some there]
    exact (sound.inv.scope_reached i s there).before sound.admits

theorem Enters.resolveAt_eq (sound₀ : w₀.Sound) (sound : w.Sound)
    (enters : w₀.Enters r.names js w) (relative : r.rooted = false) :
    w.session.resolveAt r (w.session.tree.idOf w₀.current) (some w.nextPosition) =
      .ok (some ⟨w.current, .enclosing, w₀.current⟩) := by
  have known := Nat.lt_of_lt_of_le sound₀.current_lt enters.grown.size_le
  -- A name is entered whatever the positions; for a query it must be visible, which all names are.
  have led : w.session.tree.follow (w.session.tree.isVisible (some w.nextPosition)) w₀.current
      r.names = some w.current := by
    rw [ScopeTable.follow_congr fun j inside => sound.isVisible inside, enters.current_eq]
    exact enters.leads.follow_eq
  obtain ⟨outer, innermost⟩ := w.session.tree.exists_chain_eq_cons w₀.current
  have found : w.session.tree.searchFrom r.names (some w.nextPosition) .enclosing
      (w.session.tree.chain w₀.current) = some ⟨w.current, .enclosing, w₀.current⟩ :=
    ScopeTable.searchFrom_eq_some.2 ⟨⟨[], outer, innermost, List.forall_mem_nil _⟩, led, rfl⟩
  rw [Session.resolveAt_idOf w.session r ⟨w₀.current, known⟩, Session.resolveFrom,
    ScopeTable.resolve, relative]
  simp only [Bool.false_eq_true, if_false, found, Option.some_or]

/-- What a definition opens is what its own path names, before its body and after it. -/
theorem opening_agrees_with_naming {number : Nat} {u : SourceUnit} {span : Span}
    (placed : u.declarations =
      around.fill [.namespaceDefinition (first :: others) attributes body span])
    (before : around.before.foldlM (visit u.file) (start (.new number)) = .ok w₀)
    (entered : visit u.file w₀ (.enter (first :: others) attributes) = .ok w₁) :
    outline u.declarations = around.before ++ .enter (first :: others) attributes ::
        (outline body ++ .leave (first :: others) :: around.after) ∧
      ∃ r, Reference.ofNames ((first :: others).map (·.name)) false = .ok r ∧
        w₁.session.resolveAt r (w₁.session.tree.idOf w₀.current) (some w₁.nextPosition) =
          .ok (some ⟨w₁.current, .enclosing, w₀.current⟩) ∧
        ∀ w₂, (outline body).foldlM (visit u.file) w₁ = .ok w₂ →
          w₂.current = w₁.current ∧
          w₂.session.resolveAt r (w₂.session.tree.idOf w₀.current) (some w₂.nextPosition) =
            .ok (some ⟨w₁.current, .enclosing, w₀.current⟩) := by
  constructor
  · rw [placed, Surrounding.outline_fill, outline_singleton, visits]
    simp only [List.append_assoc, List.cons_append, List.nil_append]
  have sound₀ := (Sound.start number).visits before
  obtain ⟨sound₁, named, js, enters⟩ := enters_of_visit sound₀ entered
  have written : (first :: others).map (·.name) ≠ [] := List.cons_ne_nil _ _
  obtain ⟨r, read, same, relative⟩ :=
    exists_ofNames false written (List.forall_mem_map.2 named)
  rw [← same] at enters
  refine ⟨r, read, enters.resolveAt_eq sound₀ sound₁ relative, ?_⟩
  intro w₂ walked
  obtain ⟨sound₂, back⟩ := enters_of_visits sound₁ walked
  have home : w₂.current = w₁.current := back.current_eq
  refine ⟨home, ?_⟩
  rw [← home]
  exact (enters.stayed sound₀ back).resolveAt_eq sound₀ sound₂ relative

-- From the root `A::B` names scope 3, which lies in the inline member of `A`.
theorem opening_agrees_with_naming_of_reentry :
    ∃ w₀ w₁ r, (outline [layeredDefinition]).foldlM (visit "main.cpp") (start (.new 0)) = .ok w₀ ∧
      visit "main.cpp" w₀ (.enter reentryPath []) = .ok w₁ ∧
      Reference.ofNames ["A", "B"] false = .ok r ∧
      w₁.session.resolveAt r ⟨0, 0⟩ (some 6) = .ok (some ⟨3, .enclosing, 0⟩) := by
  have reached : ((outline [layeredDefinition]).foldlM (visit "main.cpp") (start (.new 0)) >>=
      fun w₀ => (visit "main.cpp" w₀ (.enter reentryPath [])).map fun w₁ =>
        (w₁.session.tree.idOf w₀.current, w₁.nextPosition, w₁.current, w₀.current)) =
      .ok (⟨0, 0⟩, 6, 3, 0) := by cbv
  cases before : (outline [layeredDefinition]).foldlM (visit "main.cpp") (start (.new 0)) with
  | error fault => rw [before] at reached; cases reached
  | ok w₀ =>
    cases entered : visit "main.cpp" w₀ (.enter reentryPath []) with
    | error fault => simp [before, entered, bind, Except.bind, Except.map] at reached
    | ok w₁ =>
      simp only [before, entered, bind, Except.bind, Except.map, Except.ok.injEq,
        Prod.mk.injEq] at reached
      obtain ⟨here, next, inside, home⟩ := reached
      have placed : reentryUnit.declarations = Surrounding.fill (.here [layeredDefinition] [])
          [.namespaceDefinition reentryPath [] [reentryDirective] (onFirstLine 55 92)] := rfl
      obtain ⟨_, r, read, agrees, _⟩ := opening_agrees_with_naming placed before entered
      rw [here, next, inside, home] at agrees
      exact ⟨w₀, w₁, r, rfl, entered, read, agrees⟩

end ScopedNames.Check.Walk

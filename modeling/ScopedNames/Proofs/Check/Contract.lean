import ScopedNames.Proofs.Check.Balance
import ScopedNames.Proofs.Dialect.Reading
import ScopedNames.Proofs.Scope.Spelling

set_option autoImplicit false

namespace ScopedNames.Check.Walk

open Dialect

variable {file : String} {w w' : Walk} {as bs : List Action} {ds : List Diagnostic}

/-- The path of the current scope is made of the names, but for names of inline scopes. -/
structure StandsIn (w : Walk) (names : List String) : Prop where
  known : w.current < w.session.tree.size
  spelt : ∃ way, (w.session.tree.chain w.current).reverse = root :: way ∧
    w.session.tree.path w.current = way.filterMap w.session.tree.name? ∧
    w.session.tree.Spells way names

theorem Enters.standsIn {names : List String} {js : List Nat} (sound : w.Sound)
    (outermost : w.scopes = []) (enters : w.Enters names js w') : w'.StandsIn names := by
  have home : w.current = root := by rw [current, outermost, List.headD_nil]
  have bare : w'.session.tree.chain root = [root] := ScopeTable.chain_of_none rfl
  have known := enters.leads.last_lt (Nat.lt_of_lt_of_le sound.current_lt enters.grown.size_le)
  obtain ⟨way, around, spells⟩ := enters.leads.exists_way
  rw [← enters.current_eq] at known around
  rw [home, bare, List.reverse_singleton, List.singleton_append] at around
  refine ⟨known, way, around, ?_, spells⟩
  rw [ScopeTable.path_eq_filterMap_chain, around]
  rfl

theorem Steps.issued {target : QualifiedName Span} {attributes : List (Attribute Span)}
    (planned : plan file (.directive target attributes) = .ok as) (steps : Steps file w as w') :
    ∃ d, w'.session.issued = w.session.issued ++ [d] ∧ d.scope = w.current := by
  obtain ⟨r, _, rfl⟩ := exists_of_planDirective planned
  obtain ⟨w₁, front, back⟩ := steps.split
  obtain ⟨journal, rfl⟩ := front.of_complaints
  cases back with
  | cons first rest =>
    cases first
    cases rest
    exact ⟨_, rfl, rfl⟩

theorem Steps.asked_one {a : Attribute Span} (planned : planAttribute file a = .ok as)
    (steps : Steps file w as w') :
    w'.current = w.current ∧
      ∃ os, w'.outcomes = w.outcomes ++ os ∧ ∀ o ∈ os, o.scope = w.current := by
  rcases planAttribute_eq_ok planned with rfl | ⟨_, rfl⟩ | ⟨_, _, _, _, rfl⟩
  · cases steps
    exact ⟨rfl, [], by simp⟩
  · cases steps with
    | cons first rest =>
      cases first
      cases rest
      exact ⟨rfl, [], by simp⟩
  · cases steps with
    | cons first rest =>
      cases first
      cases rest
      exact ⟨rfl, _, rfl, by simp⟩

theorem Steps.asked {attributes : List (Attribute Span)}
    (planned : plan file (.attributes attributes) = .ok as) (steps : Steps file w as w') :
    ∃ os, w'.outcomes = w.outcomes ++ os ∧ ∀ o ∈ os, o.scope = w.current := by
  induction attributes generalizing w as with
  | nil =>
    cases planned
    cases steps
    exact ⟨[], by simp⟩
  | cons a attributes ih =>
    obtain ⟨front, back, first, rest, rfl⟩ := Plan.andThen_eq_ok.1 planned
    obtain ⟨w₁, once, others⟩ := steps.split
    obtain ⟨same, os, here, scopes⟩ := once.asked_one first
    obtain ⟨more, further, scopes'⟩ := ih rest others
    refine ⟨os ++ more, by rw [further, here, List.append_assoc], ?_⟩
    intro o member
    rcases List.mem_append.1 member with early | late
    · exact scopes o early
    · rw [scopes' o late, same]

/-- What the parser has read is walked through to the end, and each scope it names is right. -/
theorem run_keeps_contract {source : String} {u : SourceUnit} (number : Nat)
    (read : readUnit file source = .ok u) :
    ∃ w, run (.new number) u = .ok w ∧ w.scopes = [] ∧
      ∀ around d, u.declarations = Surrounding.fill around [d] →
        ∃ w₀ w₁, around.before.foldlM (visit file) (start (.new number)) = .ok w₀ ∧
          (visits d).foldlM (visit file) w₀ = .ok w₁ ∧ w₁.scopes = w₀.scopes ∧
          w₀.StandsIn around.names ∧
          (∀ target attributes span, d = .usingDirective target attributes span →
            ∃ i, w₁.session.issued = w₀.session.issued ++ [i] ∧ i.scope = w₀.current) ∧
          ∀ attributes span, d = .attributeDeclaration attributes span →
            ∃ os, w₁.outcomes = w₀.outcomes ++ os ∧ ∀ o ∈ os, o.scope = w₀.current := by
  obtain ⟨rfl, named⟩ := named_of_readUnit read
  obtain ⟨as, planned⟩ := exists_planAll u.file named
  obtain ⟨w, ran, steps⟩ := exists_run number planned
  have sound := Sound.start number
  refine ⟨w, ran, ((balanced_of_outline _ planned).enters sound steps).scopes, ?_⟩
  intro around d split
  rw [split, planAll_fill] at planned
  obtain ⟨_, _, first, _, rfl⟩ := Plan.andThen_eq_ok.1 planned
  obtain ⟨front, middle, before, here, rfl⟩ := Plan.andThen_eq_ok.1 first
  obtain ⟨w₀, ran₀, steps₀⟩ := exists_visits sound before
  have sound₀ := sound.steps steps₀
  obtain ⟨w₁, ran₁, steps₁⟩ := exists_visits sound₀ here
  obtain ⟨js, enters⟩ := steps₀.enters_before sound before
  refine ⟨w₀, w₁, ran₀, ran₁, ((balanced_of_visits d here).enters sound₀ steps₁).scopes,
    enters.standsIn sound rfl, ?_, ?_⟩
  · rintro target attributes span rfl
    exact steps₁.issued (Plan.collect_singleton.symm.trans here)
  · rintro attributes span rfl
    exact steps₁.asked (Plan.collect_singleton.symm.trans here)

def reentryPlace : Surrounding Span :=
  .inside [layeredDefinition] reentryPath [] (.here [] []) (onFirstLine 55 92) []

-- The directive is issued inside the inline member, which its definitions do not name.
theorem run_keeps_contract_of_reentry :
    ∃ w w₀ w₁ : Walk, ∃ d : Import Nat, readUnit "main.cpp" reentryText = .ok reentryUnit ∧
      run (.new 0) reentryUnit = .ok w ∧ w.scopes = [] ∧ w₀.StandsIn ["A", "B"] ∧
      w₁.session.issued = w₀.session.issued ++ [d] ∧
      w₀.session.tree.path d.scope = ["A", "V", "B"] := by
  obtain ⟨w, ran, home, places⟩ := run_keeps_contract 0 readUnit_reentry
  obtain ⟨w₀, w₁, before, _, _, stands, issued, _⟩ := places reentryPlace reentryDirective rfl
  obtain ⟨d, more, scope⟩ := issued _ _ _ rfl
  have path : (reentryPlace.before.foldlM (visit "main.cpp") (start (.new 0))).map
      (fun w => w.session.tree.path w.current) = .ok ["A", "V", "B"] := by cbv
  rw [before] at path
  refine ⟨w, w₀, w₁, d, readUnit_reentry, ran, home, stands, more, ?_⟩
  rw [scope]
  exact Except.ok.inj path

end ScopedNames.Check.Walk

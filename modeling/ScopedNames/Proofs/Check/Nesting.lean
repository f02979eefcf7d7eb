import ScopedNames.Proofs.Check.Balance
import ScopedNames.Proofs.Check.Examination
import ScopedNames.Proofs.Dialect.Reading

set_option autoImplicit false

namespace ScopedNames.Check

open Dialect

/--
A definition inside a definition for each name of a path; the innermost has the attributes and the
body, and the others have nothing else in them.
-/
inductive Nests (attributes : List (Attribute Span)) (body : List (Declaration Span)) :
    List (PathSegment Span) → Declaration Span → Prop where
  | innermost (segment : PathSegment Span) (span : Span) :
      Nests attributes body [segment] (.namespaceDefinition [segment] attributes body span)
  | around {segments : List (PathSegment Span)} {inner : Declaration Span}
      (segment : PathSegment Span) (span : Span) (inside : Nests attributes body segments inner) :
      Nests attributes body (segment :: segments) (.namespaceDefinition [segment] [] [inner] span)

namespace Walk

variable {file : String} {w w' w₁ w₁' : Walk} {a : Action} {as : List Action}
variable {extra ds : List Diagnostic}

structure Alike (extra : List Diagnostic) (w w' : Walk) : Prop where
  same : ∃ diagnostics journal, w' = { w with diagnostics, journal }
  diagnostics : w.diagnostics.Perm (w'.diagnostics ++ extra)

theorem perm_append_late {early late : List Diagnostic} (perm : early.Perm (late ++ extra))
    (more : List Diagnostic) : (early ++ more).Perm (late ++ more ++ extra) := by
  calc (early ++ more).Perm (late ++ extra ++ more) := perm.append_right more
    _ = late ++ (extra ++ more) := List.append_assoc ..
    _ |>.Perm (late ++ (more ++ extra)) := (List.perm_append_comm).append_left late
    _ = late ++ more ++ extra := (List.append_assoc ..).symm

namespace Alike

theorem refl (w : Walk) : Alike [] w w := ⟨⟨_, _, rfl⟩, by rw [List.append_nil]⟩

theorem step (alike : Alike extra w w') (step : Step file w a w₁) (step' : Step file w' a w₁') :
    Alike extra w₁ w₁' := by
  obtain ⟨⟨diagnostics, journal, rfl⟩, perm⟩ := alike
  have late := perm_append_late perm
  cases step with
  | complain =>
    cases step'
    exact ⟨⟨_, _, rfl⟩, late _⟩
  | reopen found there =>
    cases step' with
    | reopen found' there' =>
      cases Option.some.inj (found.symm.trans found')
      cases Option.some.inj (there.symm.trans there')
      exact ⟨⟨_, _, rfl⟩, late _⟩
    | declare absent' => cases found.symm.trans absent'
  | declare absent bound =>
    cases step' with
    | reopen found' => cases absent.symm.trans found'
    | declare absent' bound' => exact ⟨⟨_, _, rfl⟩, perm⟩
  | issue =>
    cases step'
    exact ⟨⟨_, _, rfl⟩, late _⟩
  | ask =>
    cases step'
    exact ⟨⟨_, _, rfl⟩, perm⟩
  | leave =>
    cases step'
    exact ⟨⟨_, _, rfl⟩, perm⟩

theorem steps (alike : Alike extra w w') (steps : Steps file w as w₁)
    (steps' : Steps file w' as w₁') : Alike extra w₁ w₁' := by
  refine Steps.relate ?_ (fun _ _ _ _ _ alike => alike.step) alike steps steps'
  rintro w _ journal journal' ⟨⟨_, _, rfl⟩, perm⟩
  exact ⟨⟨_, _, rfl⟩, perm⟩

theorem ahead (alike : Alike [] w w') (steps : Steps file w (complaints ds) w₁) :
    Alike ds w₁ w' := by
  obtain ⟨⟨_, _, rfl⟩, perm⟩ := alike
  obtain ⟨_, rfl⟩ := steps.of_complaints
  rw [List.append_nil] at perm
  exact ⟨⟨_, _, rfl⟩, perm.append_right ds⟩

theorem level (alike : Alike ds w w') (steps : Steps file w' (complaints ds) w₁') :
    Alike [] w w₁' := by
  obtain ⟨⟨_, _, rfl⟩, perm⟩ := alike
  obtain ⟨_, rfl⟩ := steps.of_complaints
  exact ⟨⟨_, _, rfl⟩, by rwa [List.append_nil]⟩

-- Complaints may as well come after actions that do not depend on them.
theorem postpone {bs : List Action} (alike : Alike [] w w')
    (steps : Steps file w (complaints ds ++ (as ++ bs)) w₁)
    (steps' : Steps file w' (as ++ (complaints ds ++ bs)) w₁') : Alike [] w₁ w₁' := by
  obtain ⟨_, complained, others⟩ := steps.split
  obtain ⟨_, moved, rest⟩ := others.split
  obtain ⟨_, moved', others'⟩ := steps'.split
  obtain ⟨_, complained', rest'⟩ := others'.split
  exact (((alike.ahead complained).steps moved moved').level complained').steps rest rest'

end Alike

-- The attributes are read when only the last name of the path is still to be entered.
theorem plan_of_nests {path : List (PathSegment Span)} {attributes : List (Attribute Span)}
    {body : List (Declaration Span)} {expansion : Declaration Span} {entering inner : List Action}
    (nests : Nests attributes body path expansion)
    (entered : planPath (reading file attributes).2 path = .ok entering)
    (walked : planAll file (outline body) = .ok inner) :
    ∃ outer last, entering = outer ++ [last] ∧
      planAll file (visits expansion) = .ok (outer ++
        (complaints (reading file attributes).1.diagnostics ++
          (last :: (inner ++ List.replicate path.length .leave)))) := by
  induction nests generalizing entering with
  | innermost segment span =>
    rw [planPath] at entered
    obtain ⟨name, _, rfl⟩ := planSegment_eq_ok.1 entered
    refine ⟨[], _, rfl, ?_⟩
    rw [planAll_definition, plan, planPath, entered, walked]
    simp only [Plan.ok_andThen_ok, List.append_assoc, List.nil_append, List.singleton_append]
  | @around segments nested segment span inside ih =>
    have onwards :
        planPath (reading file attributes).2 (segment :: segments) =
          Plan.andThen (planSegment segment none)
            (planPath (reading file attributes).2 segments) := by
      cases segments with
      | nil => cases inside
      | cons second others => rfl
    rw [onwards] at entered
    obtain ⟨first, rest, here, below, rfl⟩ := Plan.andThen_eq_ok.1 entered
    obtain ⟨outer, last, rfl, further⟩ := ih below
    refine ⟨first ++ outer, last, (List.append_assoc ..).symm, ?_⟩
    have opened : plan file (.enter [segment] []) = .ok first := by
      rw [← here]
      exact Plan.nil_andThen
    rw [planAll_definition, opened, outline_singleton, further]
    simp only [Plan.ok_andThen_ok, List.append_assoc, List.cons_append, List.length_cons,
      List.length_nil, List.replicate_succ', List.replicate_zero, List.nil_append]

/-- A path of names means what definitions inside each other mean, one for each name. -/
theorem nesting_unnoticed {source : String} {u : SourceUnit} {around : Surrounding Span}
    {path : List (PathSegment Span)} {attributes : List (Attribute Span)}
    {body : List (Declaration Span)} {span : Span} {expansion : Declaration Span} (number : Nat)
    (read : readUnit file source = .ok u)
    (placed : u.declarations = around.fill [.namespaceDefinition path attributes body span])
    (nests : Nests attributes body path expansion) :
    ∃ w w', run (.new number) u = .ok w ∧
      run (.new number) ⟨file, around.fill [expansion]⟩ = .ok w' ∧
      w'.session = w.session ∧ w'.outcomes = w.outcomes ∧ w'.declaredCount = w.declaredCount ∧
      w'.diagnostics.Perm w.diagnostics ∧
      ∀ text, ∃ c c', examine passes number u source = .ok c ∧
        examine passes number ⟨file, around.fill [expansion]⟩ text = .ok c' ∧
        c'.succeeded = c.succeeded := by
  obtain ⟨rfl, named⟩ := named_of_readUnit read
  obtain ⟨as, planned⟩ := exists_planAll u.file named
  obtain ⟨w, ran, steps⟩ := exists_run number planned
  rw [placed, planAll_fill] at planned
  obtain ⟨_, back, first, after, rfl⟩ := Plan.andThen_eq_ok.1 planned
  obtain ⟨front, _, before, here, rfl⟩ := Plan.andThen_eq_ok.1 first
  obtain ⟨entering, inner, entered, walked, rfl⟩ := exists_of_planDefinition here
  obtain ⟨outer, last, rfl, there⟩ := plan_of_nests nests entered walked
  have planned' := planAll_fill u.file around expansion
  rw [before, there, after, Plan.ok_andThen_ok, Plan.ok_andThen_ok] at planned'
  obtain ⟨w', ran', steps'⟩ := exists_run (u := ⟨u.file, around.fill [expansion]⟩) number planned'
  have alike : Alike [] w w' := by
    obtain ⟨_, begun, finish⟩ := steps.split
    obtain ⟨_, begin, middle⟩ := begun.split
    obtain ⟨_, begun', finish'⟩ := steps'.split
    obtain ⟨_, begin', middle'⟩ := begun'.split
    rw [List.append_assoc] at middle
    exact (((Alike.refl _).steps begin begin').postpone middle middle').steps finish finish'
  obtain ⟨⟨_, _, rfl⟩, perm⟩ := alike
  rw [List.append_nil] at perm
  refine ⟨w, _, ran, ran', rfl, rfl, rfl, perm.symm, ?_⟩
  intro text
  obtain ⟨c, checked, found⟩ := examine_of_ok ran source
  obtain ⟨c', checked', found'⟩ := examine_of_ok ran' text
  refine ⟨c, c', checked, checked', ?_⟩
  rw [Context.succeeded, Context.succeeded, found, found', verdicts, verdicts]
  exact (perm.symm.append_right _).isEmpty_eq

def reentryNested : Declaration Span :=
  .namespaceDefinition [⟨"A", false, onFirstLine 65 66⟩] []
    [.namespaceDefinition [⟨"B", false, onFirstLine 68 69⟩] [] [reentryDirective]
      (onFirstLine 68 92)]
    (onFirstLine 55 92)

theorem nesting_unnoticed_of_reentry :
    ∃ w w', run (.new 0) reentryUnit = .ok w ∧
      run (.new 0) ⟨"main.cpp", [layeredDefinition, reentryNested]⟩ = .ok w' ∧
      w'.session = w.session ∧ w'.diagnostics.Perm w.diagnostics := by
  have placed : reentryUnit.declarations = Surrounding.fill (.here [layeredDefinition] [])
      [.namespaceDefinition reentryPath [] [reentryDirective] (onFirstLine 55 92)] := rfl
  have nests : Nests [] [reentryDirective] reentryPath reentryNested :=
    .around _ _ (.innermost _ _)
  obtain ⟨w, w', ran, ran', session, _, _, perm, _⟩ :=
    nesting_unnoticed 0 readUnit_reentry placed nests
  exact ⟨w, w', ran, ran', session, perm⟩

end Walk

end ScopedNames.Check

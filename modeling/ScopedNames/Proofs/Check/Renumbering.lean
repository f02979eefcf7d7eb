import ScopedNames.Proofs.Check.Examination
import ScopedNames.Proofs.Check.Plan
import ScopedNames.Proofs.Dump.Numbering

set_option autoImplicit false

namespace ScopedNames

variable {number : Nat}

namespace Check

open Dialect

def Context.renumbered (c : Context) (number : Nat) : Context :=
  { c with session := c.session.renumbered number }

namespace Walk

variable {file : String} {w w' w₁ w₁' : Walk} {a : Action} {as : List Action}

-- The same walk in a session of another number; only notes may differ beside.
def Renumbers (number : Nat) (w w' : Walk) : Prop :=
  ∃ journal, w' = { w with session := w.session.renumbered number, journal }

theorem Step.renumbers (same : Renumbers number w w') (step : Step file w a w₁)
    (step' : Step file w' a w₁') : Renumbers number w₁ w₁' := by
  obtain ⟨journal, rfl⟩ := same
  cases step with
  | complain => cases step'; exact ⟨_, rfl⟩
  | reopen found there =>
    cases step' with
    | reopen found' there' =>
      cases found.symm.trans found'
      cases there.symm.trans there'
      exact ⟨_, rfl⟩
    | declare absent => cases found.symm.trans absent
  | declare absent bound =>
    cases step' with
    | reopen found' => cases absent.symm.trans found'
    | declare => exact ⟨_, rfl⟩
  | issue => cases step'; exact ⟨_, rfl⟩
  | ask => cases step'; exact ⟨_, rfl⟩
  | leave => cases step'; exact ⟨_, rfl⟩

theorem Steps.renumbers (same : Renumbers number w w') (steps : Steps file w as w₁)
    (steps' : Steps file w' as w₁') : Renumbers number w₁ w₁' := by
  refine Steps.relate ?_ ?_ same steps steps'
  · rintro w _ journal journal' ⟨_, rfl⟩
    exact ⟨journal', rfl⟩
  · intro a w w' w₁ w₁' same step step'
    exact step.renumbers same step'

theorem exists_run_renumbered {source : String} {u : SourceUnit} (number : Nat)
    (read : readUnit file source = .ok u) :
    ∃ w w', run (.new 0) u = .ok w ∧ run (.new number) u = .ok w' ∧ Renumbers number w w' := by
  obtain ⟨_, named⟩ := named_of_readUnit read
  obtain ⟨as, planned⟩ := exists_planAll u.file named
  obtain ⟨w, ran, steps⟩ := exists_run 0 planned
  obtain ⟨w', ran', steps'⟩ := exists_run number planned
  exact ⟨w, w', ran, ran', Steps.renumbers ⟨[], rfl⟩ steps steps'⟩

end Walk

theorem check_of_fault {file source : String} {fault : SyntaxFault} {location : Location}
    (malformed : readUnit file source = .error (.atPlace fault location)) (number : Nat) :
    check number file source = .ok { Context.new number file source with
      diagnostics :=
        [{ message := fault.message
           location := some location
           code := some Diagnostic.parseError }] } := by
  rw [check, malformed]

theorem check_of_unit {file source : String} {u : SourceUnit} (read : readUnit file source = .ok u)
    (number : Nat) : check number file source = examine passes number u source := by
  rw [check, read]
  rfl

theorem check_of_overlong {file source : String} {digits : Nat}
    (overlong : readUnit file source = .error (.overlongInteger digits)) (number : Nat) :
    check number file source = .error (UnitFault.overlongInteger digits).problem := by
  rw [check, overlong]

theorem legal_of_check {file source : String} {c : Context}
    (checked : check number file source = .ok c) (digits : Nat) :
    readUnit file source ≠ .error (.overlongInteger digits) := by
  intro overlong
  rw [check_of_overlong overlong] at checked
  cases checked

theorem check_renumbered {file source : String} (named : file ≠ "")
    (legal : ∀ digits, readUnit file source ≠ .error (.overlongInteger digits)) (number : Nat) :
    ∃ c journal, check 0 file source = .ok c ∧
      check number file source = .ok { c.renumbered number with journal } := by
  cases read : readUnit file source with
  | error fault =>
    cases fault with
    | atPlace fault location => exact ⟨_, [], check_of_fault read 0, check_of_fault read number⟩
    | unnamedFile => exact absurd (unnamed_of_readUnit read) named
    | overlongInteger digits => exact absurd read (legal digits)
  | ok u =>
    obtain ⟨w, w', ran, ran', ⟨_, rfl⟩⟩ := Walk.exists_run_renumbered number read
    obtain ⟨journal, examined⟩ := examine_eq ran source
    obtain ⟨journal', examined'⟩ := examine_eq ran' source
    exact ⟨_, journal', (check_of_unit read 0).trans examined,
      (check_of_unit read number).trans examined'⟩

end Check

end ScopedNames

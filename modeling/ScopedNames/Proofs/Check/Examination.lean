import Mathlib
import ScopedNames.Check.Basic

set_option autoImplicit false

namespace ScopedNames.Check

open Dialect

def passes : List Pass := [.nameResolution, .tagCheck]

variable {number : Nat} {u : SourceUnit} {w : Walk} {fault : SessionFault Nat}

def verdicts (w : Walk) : List Diagnostic :=
  w.diagnostics ++ (judgeAll w.session.tree.toScopeTable w.outcomes).2

theorem order_passes : (Schedule.mk passes Pass.requires).order = .ok passes := by cbv

theorem examine_eq (ran : Walk.run (.new number) u = .ok w) (source : String) :
    ∃ journal, examine passes number u source =
      .ok ⟨[(u.file, source)], w.session, verdicts w, some ⟨w.outcomes, w.declaredCount⟩,
        some (judgeAll w.session.tree.toScopeTable w.outcomes).1, journal⟩ := by
  rw [examine, Context.runAll, Schedule.run, order_passes]
  simp only [passes, runPasses, Context.runPass, Context.resolveNames, Context.noteRead,
    Context.note, Context.new, ran, Context.checkTags, List.nil_append]
  exact ⟨_, rfl⟩

theorem examine_reports (ran : Walk.run (.new number) u = .ok w) (source : String) :
    ∃ c, examine passes number u source = .ok c ∧ c.session = w.session ∧
      c.diagnostics = verdicts w ∧
      c.summary = some (judgeAll w.session.tree.toScopeTable w.outcomes).1 := by
  obtain ⟨journal, examined⟩ := examine_eq ran source
  exact ⟨_, examined, rfl, rfl, rfl⟩

theorem examine_of_ok (ran : Walk.run (.new number) u = .ok w) (source : String) :
    ∃ c, examine passes number u source = .ok c ∧ c.diagnostics = verdicts w := by
  obtain ⟨c, examined, _, same, _⟩ := examine_reports ran source
  exact ⟨c, examined, same⟩

theorem examine_of_error (refused : Walk.run (.new number) u = .error fault) (source : String) :
    examine passes number u source = .error fault.problem := by
  rw [examine, Context.runAll, Schedule.run, order_passes]
  simp only [passes, runPasses, Context.runPass, Context.resolveNames, Context.noteRead,
    Context.note, Context.new, refused]

end ScopedNames.Check

import ScopedNames.Proofs.Check.Examination
import ScopedNames.Proofs.Check.Step
import ScopedNames.Proofs.Scope.Delay
import ScopedNames.Proofs.Session.Mirror

set_option autoImplicit false

namespace ScopedNames

variable {m k : Nat}

def Import.delayed (m k : Nat) (d : Import Nat) : Import Nat :=
  { d with position := d.position.map (delay m k) }

theorem Relabelling.later_directive {τ : Type} {now : Nat} (d : Import Nat) :
    (later m k now : Relabelling τ Nat τ Nat).directive d = d.delayed m k := by
  rw [directive, reference_of_segment fun _ => rfl]
  have target : d.target.map (later m k now : Relabelling τ Nat τ Nat).scope = d.target :=
    Option.map_id' ..
  rw [target]
  rfl

namespace Check

def Outcome.delayed (m k : Nat) (o : Outcome) : Outcome :=
  { o with position := delay m k o.position }

open Dialect

namespace Walk

variable {file : String} {w w' w₁ w₁' : Walk} {a : Action} {as : List Action} {js : List Nat}

/--
Another walk has done the same, but from position `m` on `k` positions later, and it has entered
the scopes in `js` once more.
-/
structure Delayed (m k : Nat) (js : List Nat) (w w' : Walk) : Prop where
  number : w'.session.tree.session = w.session.tree.session
  table : w.session.tree.toScopeTable.Delayed m k w'.session.tree.toScopeTable
  reopened : ∀ i, w'.session.tree.reopened i = w.session.tree.reopened i + js.count i
  issued : w'.session.issued = w.session.issued.map (Import.delayed m k)
  scopes : w'.scopes = w.scopes
  nextPosition : w'.nextPosition = w.nextPosition + k
  late : m ≤ w.nextPosition
  declaredCount : w'.declaredCount = w.declaredCount
  diagnostics : w'.diagnostics = w.diagnostics
  outcomes : w'.outcomes = w.outcomes.map (Outcome.delayed m k)

namespace Delayed

theorem current_eq (delayed : Delayed m k js w w') : w'.current = w.current := by
  rw [current, current, delayed.scopes]

theorem next_eq (delayed : Delayed m k js w w') : w'.nextPosition = delay m k w.nextPosition := by
  rw [delayed.nextPosition, delay_of_le k delayed.late]

theorem member?_eq (delayed : Delayed m k js w w') (name : String) :
    w'.member? name = w.member? name := by
  rw [member?, member?, delayed.current_eq, delayed.table.shape.member?_eq]

theorem answer_eq (delayed : Delayed m k js w w') (sound : w.Sound) (sound' : w'.Sound)
    (r : Reference) : w'.answer r = w.answer r := by
  let later : Relabelling Nat Nat Nat Nat := .later m k w.nextPosition
  have mirrors : w.session.Mirrors later w'.session := by
    refine .of_issued delayed.number (delayed.table.mirrors _) ?_ ?_
    · rw [delayed.issued]
      exact List.map_congr_left fun d _ => (Relabelling.later_directive d).symm
    · intro p watched _
      refine ⟨_, rfl, fun last known => ?_⟩
      calc last < w'.nextPosition := sound'.clock last known
        _ = delay m k w.nextPosition := delayed.next_eq
        _ ≤ delay m k p := (delay_strictMono m k).monotone watched
  have same : w'.session.resolveFrom (later.reference r) w.current
      (some (delay m k w.nextPosition)) = (w.answer r).map later.found :=
    mirrors.resolveFrom_eq sound.inv sound'.inv (Nat.le_refl w.nextPosition)
  have kept : later.found = id := funext (Relabelling.found_of_scope fun _ => rfl)
  rw [Relabelling.reference_of_segment fun _ => rfl, kept, Option.map_id_fun, id_eq] at same
  rw [answer, delayed.current_eq, delayed.next_eq, same]

theorem importOf_eq (delayed : Delayed m k js w w') (sound : w.Sound) (sound' : w'.Sound)
    (r : Reference) : w'.importOf r = (w.importOf r).delayed m k := by
  rw [importOf, importOf, delayed.answer_eq sound sound', delayed.current_eq, delayed.next_eq]
  rfl

theorem inlineMismatch_eq (delayed : Delayed m k js w w') (segment : PathSegment Span) (i : Nat)
    (s : Scope Nat Nat) :
    inlineMismatch file w'.session.tree.toScopeTable segment i (s.delayed m k) =
      inlineMismatch file w.session.tree.toScopeTable segment i s := by
  rw [inlineMismatch, inlineMismatch, delayed.table.shape.qualifiedName_eq]
  rfl

theorem step (delayed : Delayed m k js w w') (sound : w.Sound) (sound' : w'.Sound)
    (step : Step file w a w₁) (step' : Step file w' a w₁') : Delayed m k js w₁ w₁' := by
  have next : w'.nextPosition + 1 = w.nextPosition + 1 + k := by
    rw [delayed.nextPosition, Nat.add_right_comm]
  have late : m ≤ w.nextPosition + 1 := Nat.le_succ_of_le delayed.late
  have complained : ∀ ds, w'.diagnostics ++ ds = w.diagnostics ++ ds := by
    intro ds
    rw [delayed.diagnostics]
  cases step with
  | complain =>
    cases step'
    exact { delayed with diagnostics := complained _ }
  | @reopen _ isInline _ _ i s _ found there =>
    cases step' with
    | @reopen _ _ _ _ i' s' _ found' there' =>
      rw [delayed.member?_eq, found] at found'
      cases found'
      rw [delayed.table.scopes, there] at there'
      cases there'
      have again : ∀ j, (i :: w'.session.tree.reopenings).count j =
          (i :: w.session.tree.reopenings).count j + js.count j := by
        intro j
        have before := delayed.reopened j
        simp only [ScopeTree.reopened] at before
        simp only [List.count_cons, before]
        omega
      refine { delayed with
        reopened := again
        scopes := congrArg (i :: ·) delayed.scopes
        nextPosition := next
        late := late
        diagnostics := ?_ }
      simp only [delayed.inlineMismatch_eq]
      exact complained _
    | declare absent' =>
      rw [delayed.member?_eq, found] at absent'
      cases absent'
  | @declare name isInline span tag _ absent bound =>
    cases step' with
    | reopen found' =>
      rw [delayed.member?_eq, absent] at found'
      cases found'
    | declare absent' bound' =>
      refine { delayed with
        table := delayed.table.add bound bound' ?_
        scopes := ?_
        nextPosition := next
        late := late
        declaredCount := congrArg (· + 1) delayed.declaredCount }
      · rw [delayed.current_eq, delayed.next_eq]
        rfl
      · rw [delayed.table.size, delayed.scopes]
  | @issue target r =>
    cases step'
    have same := delayed.importOf_eq sound sound' r
    refine { delayed with
      issued := ?_
      nextPosition := next
      late := late
      diagnostics := ?_ }
    · rw [same, delayed.issued, List.map_append, List.map_singleton]
    · rw [same]
      exact complained _
  | ask =>
    cases step'
    refine { delayed with nextPosition := next, late := late, outcomes := ?_ }
    rw [delayed.outcomes, List.map_append, List.map_singleton, delayed.answer_eq sound sound',
      delayed.current_eq, delayed.next_eq]
    rfl
  | leave =>
    cases step'
    exact { delayed with scopes := congrArg List.tail delayed.scopes }

theorem steps (delayed : Delayed m k js w w') (sound : w.Sound) (sound' : w'.Sound)
    (steps : Steps file w as w₁) (steps' : Steps file w' as w₁') : Delayed m k js w₁ w₁' := by
  let Related (w w' : Walk) : Prop := Delayed m k js w w' ∧ w.Sound ∧ w'.Sound
  have noted : ∀ w w' journal journal', Related w w' →
      Related { w with journal } { w' with journal := journal' } := by
    rintro w w' journal journal' ⟨delayed, sound, sound'⟩
    exact ⟨{ delayed with }, { sound with }, { sound' with }⟩
  have each : ∀ a w w' w₁ w₁', Related w w' → Step file w a w₁ → Step file w' a w₁' →
      Related w₁ w₁' := by
    rintro a w w' w₁ w₁' ⟨delayed, sound, sound'⟩ first first'
    exact ⟨delayed.step sound sound' first first', sound.step first, sound'.step first'⟩
  exact (Steps.relate noted each ⟨delayed, sound, sound'⟩ steps steps').1

theorem verdicts_eq (delayed : Delayed m k js w w') : verdicts w' = verdicts w := by
  have judged : judge w'.session.tree.toScopeTable ∘ Outcome.delayed m k =
      judge w.session.tree.toScopeTable := by
    funext o
    simp only [Function.comp_apply, judge, delayed.table.shape.qualifiedName_eq,
      delayed.table.tag_eq, Outcome.delayed]
  rw [verdicts, verdicts, delayed.diagnostics, judgeAll, judgeAll, delayed.outcomes,
    List.filterMap_map, judged]

end Delayed

end Walk

end Check

end ScopedNames

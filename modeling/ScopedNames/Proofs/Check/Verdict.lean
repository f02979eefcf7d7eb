import ScopedNames.Proofs.Check.Demands
import ScopedNames.Proofs.Check.Examination

set_option autoImplicit false

namespace ScopedNames.Check

open Dialect Walk

variable {file source : String} {f : Session Nat Nat} {ds : List Demand}

theorem judge_check (f : Session Nat Nat) (file : String) (d : Demand) :
    ((outcomeOf f file d).bind (judge f.tree.toScopeTable)).map brief =
      if d.isCheck && !d.holds f then some (complaintOf f file d) else none := by
  cases d with
  | use | keep | find => rfl
  | check expected name span scope position =>
    simp only [outcomeOf, Option.bind_some, judge, Demand.isCheck, Demand.holds, complaintOf,
      Demand.code, Demand.span, Bool.true_and]
    cases lookUp f name scope position with
    | none => cases expected <;> rfl
    | some found =>
      cases expected with
      | something | nothing => rfl
      | tag n =>
        simp only [Expectation.meets, Option.any_some, tagOf]
        split
        next untagged => simp [untagged, brief]
        next tag tagged => by_cases same : tag = n <;> simp [tagged, same, brief]

theorem briefs_judgeAll (f : Session Nat Nat) (file : String) (ds : List Demand) :
    (judgeAll f.tree.toScopeTable (ds.filterMap (outcomeOf f file))).2.map brief =
      (broken f (ds.filter Demand.isCheck)).map (complaintOf f file) := by
  rw [judgeAll, broken, List.filterMap_filterMap, List.map_filterMap, List.filter_filter]
  induction ds with
  | nil => rfl
  | cons d ds ih =>
    rw [List.filterMap_cons, judge_check, List.filter_cons, Bool.and_comm (!d.holds f), ih]
    cases d.isCheck && !d.holds f <;> rfl

theorem length_outcomes (f : Session Nat Nat) (file : String) (ds : List Demand) :
    (ds.filterMap (outcomeOf f file)).length = (ds.filter Demand.isCheck).length := by
  rw [List.length_filterMap_eq_countP, List.countP_eq_length_filter]
  congr 2
  funext d
  cases d <;> rfl

theorem nothing_broken (f : Session Nat Nat) (ds : List Demand) :
    broken f (ds.filter fun d => !d.isCheck) ++ broken f (ds.filter Demand.isCheck) = [] ↔
      ∀ d ∈ ds, d.holds f = true := by
  simp only [broken, List.append_eq_nil_iff, List.filter_eq_nil_iff, List.mem_filter,
    Bool.not_eq_true', Bool.not_eq_false]
  constructor
  · rintro ⟨direct, checked⟩ d asked
    cases late : d.isCheck with
    | true => exact checked d ⟨asked, late⟩
    | false => exact direct d ⟨asked, late⟩
  · intro all
    exact ⟨fun d asked => all d asked.1, fun d asked => all d asked.1⟩

-- The walk over a unit answers what the unit asks for, looked up in its own last session.
theorem exists_answers {u : SourceUnit} (number : Nat) (read : readUnit file source = .ok u) :
    ∃ w, run (.new number) u = .ok w ∧
      Answers u.file w.session (demandsOf w.session root 1 u.declarations) (ticksOf u.declarations)
        (start (.new number)) w := by
  obtain ⟨_, named⟩ := named_of_readUnit read
  obtain ⟨as, planned⟩ := exists_planAll u.file named
  obtain ⟨w, ran, steps⟩ := exists_run number planned
  have sound := Sound.start number
  exact ⟨w, ran, answers_of_outline u.declarations sound planned steps (.self (sound.steps steps))⟩

/--
A check succeeds exactly where all that the unit asks for holds in the final session. Otherwise it
complains of what does not, of the checks last.
-/
theorem check_succeeds_exactly {u : SourceUnit} (number : Nat)
    (read : readUnit file source = .ok u) :
    ∃ w c, run (.new number) u = .ok w ∧ check number file source = .ok c ∧
      c.session = w.session ∧
      let ds := demandsOf c.session root 1 u.declarations
      let checks := ds.filter Demand.isCheck
      (c.succeeded = true ↔ ∀ d ∈ ds, d.holds c.session = true) ∧
      c.diagnostics.map brief =
        (broken c.session (ds.filter fun d => !d.isCheck) ++ broken c.session checks).map
          (complaintOf c.session file) ∧
      c.summary = some ⟨checks.length, (broken c.session checks).length⟩ := by
  obtain ⟨rfl, _⟩ := named_of_readUnit read
  obtain ⟨w, ran, answers⟩ := exists_answers number read
  obtain ⟨c, examined, same, diagnostics, summary⟩ := examine_reports ran source
  have checked : check number u.file source = .ok c := by
    rw [check, read]
    exact examined
  have walked := answers.diagnostics
  have outcomes : w.outcomes = (demandsOf w.session root 1 u.declarations).filterMap
      (outcomeOf w.session u.file) := answers.outcomes
  have judged := briefs_judgeAll w.session u.file (demandsOf w.session root 1 u.declarations)
  have complaints : c.diagnostics.map brief =
      (broken w.session ((demandsOf w.session root 1 u.declarations).filter fun d => !d.isCheck) ++
        broken w.session ((demandsOf w.session root 1 u.declarations).filter Demand.isCheck)).map
          (complaintOf w.session u.file) := by
    rw [diagnostics, verdicts, outcomes, List.map_append, judged, walked, List.map_append]
    rfl
  refine ⟨w, c, ran, checked, same, ?_⟩
  rw [same]
  refine ⟨?_, complaints, ?_⟩
  · rw [Context.succeeded, List.isEmpty_iff, ← List.map_eq_nil_iff (f := brief), complaints,
      List.map_eq_nil_iff]
    exact nothing_broken _ _
  · have failed := congrArg List.length judged
    rw [List.length_map, List.length_map] at failed
    rw [summary, outcomes, ← failed, ← length_outcomes w.session u.file]
    rfl

-- A name that is tagged otherwise than the check of it expects, and one that leads nowhere.

def mismatchText : String :=
  "namespace [[rustycpp::tagDecl(2)]] A { } [[rustycpp::checkSymbolMatchTag(1, A)]]; " ++
    "using namespace B;"

def mismatchUnit : SourceUnit where
  file := "main.cpp"
  declarations :=
    [.namespaceDefinition [⟨"A", false, onFirstLine 35 36⟩]
        [⟨some "rustycpp", "tagDecl", [⟨.int 2, onFirstLine 30 31⟩], onFirstLine 12 32⟩] []
        (onFirstLine 0 40),
      .attributeDeclaration
        [⟨some "rustycpp", "checkSymbolMatchTag",
          [⟨.int 1, onFirstLine 73 74⟩,
            ⟨.name ⟨false, ["A"], onFirstLine 76 77⟩, onFirstLine 76 77⟩],
          onFirstLine 43 78⟩]
        (onFirstLine 41 81),
      .usingDirective ⟨false, ["B"], onFirstLine 98 99⟩ [] (onFirstLine 82 100)]

theorem readUnit_mismatch : readUnit "main.cpp" mismatchText = .ok mismatchUnit := by
  have read : readWithin 40 .start ⟨.origin, mismatchText.toList⟩ =
      some mismatchUnit.declarations := by cbv
  exact readUnit_of_readWithin read (by decide)

theorem check_succeeds_exactly_of_mismatch :
    ∃ c, readUnit "main.cpp" mismatchText = .ok mismatchUnit ∧
      check 0 "main.cpp" mismatchText = .ok c ∧ c.succeeded ≠ true ∧
      c.diagnostics.map brief =
        [(some "E0002", some ((onFirstLine 98 99).locate "main.cpp")),
          (some "E0103", some ((onFirstLine 73 74).locate "main.cpp"))] ∧
      c.summary = some ⟨1, 1⟩ := by
  obtain ⟨w, c, ran, checked, same, succeeds, complaints, summary⟩ :=
    check_succeeds_exactly 0 readUnit_mismatch
  have reached : (run (.new 0) mismatchUnit).map (fun w =>
      let ds := demandsOf w.session root 1 mismatchUnit.declarations
      let checks := ds.filter Demand.isCheck
      (ds.map fun d => d.holds w.session,
        (broken w.session (ds.filter fun d => !d.isCheck) ++ broken w.session checks).map
          (complaintOf w.session "main.cpp"),
        checks.length, (broken w.session checks).length)) =
      .ok ([true, true, true, false, false],
        [(some "E0002", some ((onFirstLine 98 99).locate "main.cpp")),
          (some "E0103", some ((onFirstLine 73 74).locate "main.cpp"))], 1, 1) := by cbv
  rw [ran] at reached
  simp only [Except.map, Except.ok.injEq, Prod.mk.injEq] at reached
  obtain ⟨held, said, asked, failed⟩ := reached
  rw [same] at succeeds complaints summary
  refine ⟨c, readUnit_mismatch, checked, ?_, complaints.trans said, ?_⟩
  · intro succeeded
    have all : ∀ b ∈ (demandsOf w.session root 1 mismatchUnit.declarations).map
        (·.holds w.session), b = true := List.forall_mem_map.2 (succeeds.1 succeeded)
    rw [held] at all
    exact Bool.false_ne_true (all false (by simp))
  · rw [summary, asked, failed]

end ScopedNames.Check

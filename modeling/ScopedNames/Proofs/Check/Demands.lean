import ScopedNames.Proofs.Check.Naming
import ScopedNames.Proofs.Session.Past

set_option autoImplicit false

namespace ScopedNames

theorem Session.SamePast.earlier {τ π : Type} [LinearOrder π] {p q : π} {s s' : Session τ π}
    (past : SamePast q s s') (le : p ≤ q) : SamePast p s s' where
  kept := past.kept
  hidden i absent := by
    rw [Bool.eq_false_iff]
    intro shown
    have unseen := past.hidden i absent
    have inner : i ≠ root := fun same =>
      Nat.not_lt_of_le absent (same ▸ ScopeTable.root_lt_size)
    obtain ⟨a, there, early⟩ := ScopeTable.exists_of_isVisible shown inner
    obtain ⟨p', _, positioned, same, less⟩ := before_eq_true.1 early
    cases same
    rw [ScopeTable.isVisible_of_some there, positioned] at unseen
    simp [before, lt_of_lt_of_le less le] at unseen
  issued := by
    obtain ⟨more, grown, late⟩ := past.issued
    refine ⟨more, grown, fun d member => ?_⟩
    rw [Bool.eq_false_iff]
    intro early
    obtain ⟨p', _, positioned, same, less⟩ := before_eq_true.1 early
    cases same
    have unseen := late d member
    rw [positioned] at unseen
    simp [before, lt_of_lt_of_le less le] at unseen

namespace Check

open Dialect Walk

section Demands

inductive Bearer where
  | definition
  | directive
  | declaration
  deriving DecidableEq

def isTagForm (a : Attribute Span) : Bool :=
  match a.arguments.map Argument.value with
  | [.int _] => true
  | _ => false

def isCheckForm (a : Attribute Span) : Bool :=
  match a.arguments.map Argument.value with
  | [.int _, .name _] | [.bool _, .name _] => true
  | _ => false

-- Each of the two checker attributes has one bearer and one form of its arguments.
def Bearer.misuses (bearer : Bearer) (a : Attribute Span) : Bool :=
  isChecker tagName a && !(bearer = .definition && isTagForm a) ||
    isChecker checkName a && !(bearer = .declaration && isCheckForm a)

/-- What a unit asks for; a scope and a position say where a name is looked up. -/
inductive Demand where
  | use (bearer : Bearer) (a : Attribute Span)
  | keep (segment : PathSegment Span) (scope position : Nat)
  | find (target : QualifiedName Span) (scope position : Nat)
  | check (expected : Expectation) (name : QualifiedName Span) (span : Span) (scope position : Nat)

def checkOf (a : Attribute Span) : Option (Expectation × Span × QualifiedName Span) :=
  if isChecker checkName a then readCheck a.arguments else none

def attributeDemands (scope : Nat) : Nat → List (Attribute Span) → List Demand
  | _, [] => []
  | position, a :: attributes =>
    .use .declaration a ::
      match checkOf a with
      | some (expected, span, name) =>
        .check expected name span scope position ::
          attributeDemands scope (position + 1) attributes
      | none => attributeDemands scope position attributes

mutual

-- How many positions declarations take, each namespace name one and each well-formed check one.

def ticksOf : List (Declaration Span) → Nat
  | [] => 0
  | d :: ds => ticks d + ticksOf ds

def ticks : Declaration Span → Nat
  | .namespaceDefinition path _ body _ => path.length + ticksOf body
  | .usingDirective _ _ _ => 1
  | .attributeDeclaration attributes _ => (attributes.filterMap checkOf).length
  | .emptyDeclaration _ => 0

end

variable (s : Session Nat Nat)

def memberAt (scope : Nat) (name : String) (position : Nat) : Option Nat :=
  s.tree.member? (s.tree.isVisible (some position)) scope name

def lookUp (name : QualifiedName Span) (scope position : Nat) : Option Found :=
  (referenceOf name).toOption.bind fun r => s.resolveFrom r scope (some position)

def tagOf (i : Nat) : Option Nat := (s.tree.scope? i).bind (·.tag)

-- The scope that a segment opens: the member that its name leads to from then on.
def opened (segment : PathSegment Span) (scope position : Nat) : Nat :=
  (memberAt s scope segment.name (position + 1)).getD scope

def pathDemands : Nat → Nat → List (PathSegment Span) → List Demand
  | _, _, [] => []
  | scope, position, segment :: segments =>
    .keep segment scope position ::
      pathDemands (opened s segment scope position) (position + 1) segments

def pathScope : Nat → Nat → List (PathSegment Span) → Nat
  | scope, _, [] => scope
  | scope, position, segment :: segments =>
    pathScope (opened s segment scope position) (position + 1) segments

mutual

/-- What declarations ask for, one after the other, from a scope and a position on. -/
def demandsOf : Nat → Nat → List (Declaration Span) → List Demand
  | _, _, [] => []
  | scope, position, d :: ds => demands scope position d ++ demandsOf scope (position + ticks d) ds

def demands : Nat → Nat → Declaration Span → List Demand
  | scope, position, .namespaceDefinition path attributes body _ =>
    attributes.map (.use .definition) ++ pathDemands s scope position path ++
      demandsOf (pathScope s scope position path) (position + path.length) body
  | scope, position, .usingDirective target attributes _ =>
    attributes.map (.use .directive) ++ [.find target scope position]
  | scope, position, .attributeDeclaration attributes _ =>
    attributeDemands scope position attributes
  | _, _, .emptyDeclaration _ => []

end

def Expectation.meets (expected : Expectation) (found : Option Found) : Bool :=
  match expected with
  | .nothing => found.isNone
  | .something => found.isSome
  | .tag n => found.any fun f => tagOf s f.node == some n

def Demand.holds : Demand → Bool
  | use bearer a => !bearer.misuses a
  | keep segment scope position =>
    !segment.isInline || (memberAt s scope segment.name position).all s.tree.isInline
  | find target scope position => (lookUp s target scope position).isSome
  | check expected name _ scope position => expected.meets s (lookUp s name scope position)

def Demand.code : Demand → String
  | use _ _ => Diagnostic.badAttribute
  | keep _ _ _ => Diagnostic.inlineMismatch
  | find _ _ _ => Diagnostic.unresolvedDirective
  | check expected name _ scope position =>
    match lookUp s name scope position, expected with
    | none, _ => Diagnostic.expectedSomething
    | some _, .nothing => Diagnostic.expectedNothing
    | some f, _ =>
      if (tagOf s f.node).isSome then Diagnostic.tagMismatch else Diagnostic.missingTag

def Demand.span : Demand → Span
  | use _ a => a.span
  | keep segment _ _ => segment.span
  | find target _ _ => target.span
  | check _ _ span _ _ => span

def Demand.isCheck : Demand → Bool
  | check _ _ _ _ _ => true
  | use _ _ | keep _ _ _ | find _ _ _ => false

end Demands

namespace Walk

variable {file : String} {w w₁ w' : Walk} {a : Action} {as : List Action} {f : Session Nat Nat}

theorem Step.samePast (step : Step file w a w') :
    Session.SamePast w.nextPosition w.session w'.session := by
  cases step with
  | complain | leave => exact .refl _ _
  | reopen =>
    refine ⟨⟨rfl, .refl _, ?_, List.prefix_rfl, List.prefix_rfl⟩, ?_, [], by simp, by simp⟩
    · exact fun i => List.Sublist.count_le i (List.sublist_cons_self _ _)
    · exact fun i absent => ScopeTable.isVisible_of_size_le absent
  | declare absent bound =>
    refine ⟨⟨rfl, ScopeTable.extends_add bound, fun _ => Nat.le_refl _, List.prefix_rfl,
      List.prefix_rfl⟩, ?_, [], by simp, by simp⟩
    intro i beyond
    simp only [ScopeTable.isVisible, ScopeTable.scope?_add]
    by_cases new : i = w.session.tree.size
    · -- The new scope is declared at this very position, which does not see it.
      simp [new, before]
    · rw [if_neg new]
      exact ScopeTable.isVisible_of_size_le beyond
  | issue =>
    refine ⟨⟨rfl, .refl _, fun _ => Nat.le_refl _, List.prefix_append _ _, List.prefix_append _ _⟩,
      ?_, _, rfl, ?_⟩
    · exact fun i absent => ScopeTable.isVisible_of_size_le absent
    · simp [importOf, before]
  | ask =>
    refine ⟨⟨rfl, .refl _, fun _ => Nat.le_refl _, List.prefix_rfl, List.prefix_rfl⟩, ?_, [],
      by simp, by simp⟩
    exact fun i absent => ScopeTable.isVisible_of_size_le absent

theorem Step.nextPosition_le (step : Step file w a w') : w.nextPosition ≤ w'.nextPosition := by
  cases step <;> simp

theorem Steps.nextPosition_le (steps : Steps file w as w') : w.nextPosition ≤ w'.nextPosition := by
  induction steps with
  | done => exact Nat.le_refl _
  | cons first _ ih => exact Nat.le_trans first.nextPosition_le ih

theorem Steps.samePast (steps : Steps file w as w') :
    Session.SamePast w.nextPosition w.session w'.session := by
  induction steps with
  | done => exact .refl _ _
  | cons first _ ih => exact first.samePast.trans (ih.earlier first.nextPosition_le)

structure Foresees (w : Walk) (f : Session Nat Nat) : Prop where
  sound : w.Sound
  inv : f.Invariant
  past : Session.SamePast w.nextPosition w.session f

namespace Foresees

theorem self (sound : w.Sound) : w.Foresees w.session := ⟨sound, sound.inv, .refl _ _⟩

theorem before (sound : w.Sound) (steps : Steps file w as w') (ahead : w'.Foresees f) :
    w.Foresees f :=
  ⟨sound, ahead.inv, steps.samePast.trans (ahead.past.earlier steps.nextPosition_le)⟩

theorem memberAt_eq (ahead : w.Foresees f) (scope : Nat) (name : String) :
    memberAt f scope name w.nextPosition =
      w.session.tree.member? ScopeTable.everything scope name := by
  rw [memberAt, ahead.past.isVisible_eq, ahead.past.kept.scopes.member?_eq
    fun i absent => ScopeTable.isVisible_of_size_le absent]
  exact ScopeTable.member?_congr fun i known => ahead.sound.isVisible known

theorem lookUp_eq (ahead : w.Foresees f) {name : QualifiedName Span} {r : Reference}
    (read : referenceOf name = .ok r) : lookUp f name w.current w.nextPosition = w.answer r := by
  have around := ahead.past.kept.scopes.chain_eq ahead.sound.current_lt
  rw [lookUp, read]
  exact ahead.past.resolveFrom_eq ahead.sound.inv ahead.inv around (List.forall_mem_nil _)

theorem isInline_eq (ahead : w.Foresees f) {i : Nat} {s : Scope Nat Nat}
    (there : w.session.tree.scope? i = some s) : f.tree.isInline i = s.isInline := by
  rw [ScopeTable.isInline, ahead.past.kept.scopes.scope?_eq_some there]
  rfl

end Foresees

def brief (d : Diagnostic) : Option String × Option Location := (d.code, d.location)

def complaintOf (f : Session Nat Nat) (file : String) (d : Demand) :
    Option String × Option Location :=
  (some (d.code f), some (d.span.locate file))

def broken (f : Session Nat Nat) (ds : List Demand) : List Demand := ds.filter fun d => !d.holds f

def outcomeOf (f : Session Nat Nat) (file : String) : Demand → Option Outcome
  | .check expected name span scope position =>
    some ⟨name, expected, lookUp f name scope position, scope, position, span.locate file⟩
  | .use _ _ | .keep _ _ _ | .find _ _ _ => none

/--
From one walk to the other, over so many positions, one complaint is made of each demand that does
not hold, and each check is put off until the end.
-/
structure Answers (file : String) (f : Session Nat Nat) (ds : List Demand) (n : Nat)
    (w w' : Walk) : Prop where
  diagnostics : w'.diagnostics.map brief = w.diagnostics.map brief ++
    (broken f (ds.filter fun d => !d.isCheck)).map (complaintOf f file)
  outcomes : w'.outcomes = w.outcomes ++ ds.filterMap (outcomeOf f file)
  position : w'.nextPosition = w.nextPosition + n

namespace Answers

variable {ds es : List Demand} {n m : Nat} {w₂ : Walk}

theorem nil (diagnostics : w'.diagnostics = w.diagnostics) (outcomes : w'.outcomes = w.outcomes)
    (position : w'.nextPosition = w.nextPosition) : Answers file f [] 0 w w' where
  diagnostics := by rw [diagnostics]; simp [broken]
  outcomes := by rw [outcomes]; simp
  position := position

theorem append (first : Answers file f ds n w w₁) (second : Answers file f es m w₁ w₂) :
    Answers file f (ds ++ es) (n + m) w w₂ where
  diagnostics := by
    rw [second.diagnostics, first.diagnostics]
    simp [broken]
  outcomes := by
    rw [second.outcomes, first.outcomes]
    simp
  position := by
    rw [second.position, first.position, Nat.add_assoc]

theorem single {d : Demand} {more : List Diagnostic} (direct : d.isCheck = false)
    (diagnostics : w'.diagnostics = w.diagnostics ++ more)
    (said : more.map brief = if d.holds f then [] else [complaintOf f file d])
    (outcomes : w'.outcomes = w.outcomes) (position : w'.nextPosition = w.nextPosition + n) :
    Answers file f [d] n w w' where
  diagnostics := by
    rw [diagnostics, List.map_append, said]
    cases holds : d.holds f <;> simp [broken, direct, holds]
  outcomes := by
    rw [outcomes]
    cases d with
    | check => cases direct
    | use | keep | find => simp [outcomeOf]
  position := position

end Answers

def misuseBriefs (file : String) (bearer : Bearer) (attributes : List (Attribute Span)) :
    List (Option String × Option Location) :=
  (attributes.filter bearer.misuses).map fun a =>
    (some Diagnostic.badAttribute, some (a.span.locate file))

theorem Steps.answers_complaints {attributes : List (Attribute Span)} {bearer : Bearer}
    {more : List Diagnostic} (steps : Steps file w (complaints more) w')
    (said : more.map brief = misuseBriefs file bearer attributes) :
    Answers file f (attributes.map (.use bearer)) 0 w w' ∧ w'.current = w.current := by
  obtain ⟨journal, rfl⟩ := steps.of_complaints
  refine ⟨⟨?_, ?_, rfl⟩, rfl⟩
  · rw [List.map_append, said, misuseBriefs]
    simp [broken, Demand.isCheck, List.filter_map, Function.comp_def, Demand.holds, complaintOf,
      Demand.code, Demand.span]
  · simp [outcomeOf]

theorem checkName_ne_tagName {a : Attribute Span} (tagged : isChecker tagName a = true) :
    isChecker checkName a = false := by
  rw [isChecker, Bool.and_eq_true, beq_iff_eq, beq_iff_eq] at tagged
  rw [isChecker, tagged.2]
  simp [tagName, checkName]

theorem isSome_readTagValue (a : Attribute Span) :
    (readTagValue a.arguments).isSome = isTagForm a := by
  unfold isTagForm readTagValue
  rcases a.arguments with _ | ⟨⟨value, span⟩, _ | ⟨b, more⟩⟩
  · rfl
  · cases value <;> rfl
  · cases value <;> rfl

theorem isSome_readCheck (a : Attribute Span) : (readCheck a.arguments).isSome = isCheckForm a := by
  unfold isCheckForm readCheck
  rcases a.arguments with _ | ⟨⟨value, span⟩, _ | ⟨⟨value', span'⟩, others⟩⟩
  · rfl
  · rcases value with n | ⟨_ | _⟩ | q <;> rfl
  · rcases value with n | ⟨_ | _⟩ | q <;> cases value' <;> cases others <;> rfl

theorem briefs_readTag (file : String) (path : List (PathSegment Span)) (w : Walk)
    (tag : Option Nat) (a : Attribute Span) :
    (readTag file path (w, tag) a).1.diagnostics.map brief =
      w.diagnostics.map brief ++ misuseBriefs file .definition [a] := by
  have formed := isSome_readTagValue a
  unfold readTag
  by_cases tagged : isChecker tagName a = true
  · have unchecked := checkName_ne_tagName tagged
    simp only [if_pos tagged]
    cases value : readTagValue a.arguments with
    | none =>
      rw [value] at formed
      simp [badAttribute, complain, misuseBriefs, Bearer.misuses, tagged, ← formed, misused, brief]
    | some n =>
      rw [value] at formed
      have fine : misuseBriefs file .definition [a] = [] := by
        simp [misuseBriefs, Bearer.misuses, unchecked, ← formed]
      cases tag <;> simp [note, fine]
  · simp only [if_neg tagged]
    by_cases checks : isChecker checkName a = true
    · simp [checks, badAttribute, complain, misuseBriefs, Bearer.misuses, misused, brief]
    · simp [checks, tagged, ignoreAttribute, note, misuseBriefs, Bearer.misuses]

theorem briefs_reading (file : String) (attributes : List (Attribute Span)) :
    (reading file attributes).1.diagnostics.map brief =
      misuseBriefs file .definition attributes := by
  have fold (state : Walk × Option Nat) :
      (attributes.foldl (readTag file []) state).1.diagnostics.map brief =
        state.1.diagnostics.map brief ++ misuseBriefs file .definition attributes := by
    induction attributes generalizing state with
    | nil => simp [misuseBriefs]
    | cons a attributes ih =>
      rw [List.foldl_cons, ih, briefs_readTag, List.append_assoc, misuseBriefs, misuseBriefs,
        misuseBriefs, ← List.map_append, ← List.filter_append, List.singleton_append]
  exact fold _

theorem briefs_misuses (file : String) (attributes : List (Attribute Span)) :
    (misuses file attributes).map brief = misuseBriefs file .directive attributes := by
  have same : (fun a => isChecker tagName a || isChecker checkName a) =
      Bearer.directive.misuses := by
    funext a
    simp [Bearer.misuses]
  rw [misuses, misuseBriefs, List.map_map, same]
  rfl

theorem Step.answers_keep {name : Segment} {segment : PathSegment Span} {tag : Option Nat}
    (named : name.name = segment.name) (sound : w.Sound)
    (step : Step file w (.enter name segment.isInline segment.span tag) w')
    (ahead : w'.Foresees f) :
    Answers file f [.keep segment w.current w.nextPosition] 1 w w' ∧
      w'.current = opened f segment w.current w.nextPosition := by
  have here := ahead.before sound (.single step)
  have member : memberAt f w.current segment.name w.nextPosition = w.member? name.name := by
    rw [named]
    exact here.memberAt_eq w.current segment.name
  -- The segment opens what its name leads to as soon as it is entered.
  have later := ahead.memberAt_eq w.current segment.name
  obtain ⟨j, enters⟩ := step.enters
  have entered : w'.session.tree.member? ScopeTable.everything w.current name.name = some j := by
    cases enters.leads with
    | step found rest =>
      cases rest
      exact found
  have position : w'.nextPosition = w.nextPosition + 1 := by cases step <;> rfl
  constructor
  · cases step with
    | @reopen _ _ _ _ i s _ found there =>
      have holds : (Demand.keep segment w.current w.nextPosition).holds f =
          (!segment.isInline || s.isInline) := by
        rw [Demand.holds, member, found, Option.all_some, here.isInline_eq there]
      refine .single rfl rfl ?_ rfl position
      rw [holds]
      cases segment.isInline <;> cases s.isInline <;> rfl
    | declare absent bound =>
      have holds : (Demand.keep segment w.current w.nextPosition).holds f = true := by
        rw [Demand.holds, member, absent, Option.all_none, Bool.or_true]
      refine .single rfl (List.append_nil _).symm ?_ rfl position
      rw [holds]
      rfl
  · rw [opened, ← position, later, ← named, entered, enters.current_eq]
    rfl

theorem Steps.answers_path {path : List (PathSegment Span)} {tag : Option Nat} (sound : w.Sound)
    (planned : planPath tag path = .ok as) (steps : Steps file w as w') (ahead : w'.Foresees f) :
    Answers file f (pathDemands f w.current w.nextPosition path) path.length w w' ∧
      w'.current = pathScope f w.current w.nextPosition path := by
  induction path generalizing w as with
  | nil =>
    cases planned
    cases steps
    exact ⟨.nil rfl rfl rfl, rfl⟩
  | cons segment segments ih =>
    obtain ⟨name, tag', rest, named, onwards, rfl⟩ := exists_of_planPath_cons planned
    cases steps with
    | cons first others =>
      have sound₁ := sound.step first
      obtain ⟨kept, moved⟩ := first.answers_keep named sound (ahead.before sound₁ others)
      obtain ⟨more, inside⟩ := ih sound₁ onwards others
      rw [moved, kept.position] at more inside
      have both := kept.append more
      rw [Nat.add_comm 1 segments.length] at both
      exact ⟨both, inside⟩

theorem Step.answers_find {target : QualifiedName Span} {r : Reference} (sound : w.Sound)
    (read : referenceOf target = .ok r) (step : Step file w (.issue target r) w')
    (ahead : w'.Foresees f) : Answers file f [.find target w.current w.nextPosition] 1 w w' := by
  have holds : (Demand.find target w.current w.nextPosition).holds f = (w.answer r).isSome := by
    rw [Demand.holds, (ahead.before sound (.single step)).lookUp_eq read]
  cases step with
  | issue =>
    refine .single rfl rfl ?_ rfl rfl
    rw [holds, Import.isInert, importOf]
    cases w.answer r <;> rfl

theorem Step.answers_check {name : QualifiedName Span} {r : Reference} {expected : Expectation}
    {span : Span} (sound : w.Sound) (read : referenceOf name = .ok r)
    (step : Step file w (.ask name r expected span) w') (ahead : w'.Foresees f) :
    Answers file f [.check expected name span w.current w.nextPosition] 1 w w' := by
  have answered := (ahead.before sound (.single step)).lookUp_eq read
  cases step with
  | ask =>
    refine ⟨?_, ?_, rfl⟩
    · simp [broken, Demand.isCheck]
    · simp [outcomeOf, answered]

theorem Steps.answers_directive {target : QualifiedName Span} {attributes : List (Attribute Span)}
    (sound : w.Sound) (planned : plan file (.directive target attributes) = .ok as)
    (steps : Steps file w as w') (ahead : w'.Foresees f) :
    Answers file f (attributes.map (.use .directive) ++ [.find target w.current w.nextPosition]) 1
      w w' := by
  obtain ⟨r, read, rfl⟩ := exists_of_planDirective planned
  obtain ⟨w₁, front, back⟩ := steps.split
  obtain ⟨used, same⟩ := front.answers_complaints (briefs_misuses file attributes)
  cases back with
  | cons issued rest =>
    have found := issued.answers_find (sound.steps front) read
      (ahead.before ((sound.steps front).step issued) rest)
    cases rest
    rw [same, used.position] at found
    have both := used.append found
    rw [Nat.zero_add] at both
    exact ⟨both.diagnostics, both.outcomes, both.position⟩

theorem attributeDemands_cons (scope position : Nat) (a : Attribute Span)
    (attributes : List (Attribute Span)) :
    attributeDemands scope position (a :: attributes) =
      attributeDemands scope position [a] ++
        attributeDemands scope (position + ([a].filterMap checkOf).length) attributes := by
  rw [attributeDemands, attributeDemands]
  cases read : checkOf a with
  | none => simp [read, attributeDemands]
  | some check => simp [read, attributeDemands]

-- What an attribute comes to: complaints of its misuse, or the check that it asks for.
theorem planAttribute_cases {a : Attribute Span} (planned : planAttribute file a = .ok as) :
    (∃ more, checkOf a = none ∧ as = complaints more ∧
      more.map brief = misuseBriefs file .declaration [a]) ∨
    ∃ expected span name r, checkOf a = some (expected, span, name) ∧
      referenceOf name = .ok r ∧ as = [.ask name r expected span] ∧
      misuseBriefs file .declaration [a] = [] := by
  have formed := isSome_readCheck a
  unfold planAttribute at planned
  rw [checkOf]
  by_cases checks : isChecker checkName a = true
  · have untagged : isChecker tagName a = false := by
      rw [Bool.eq_false_iff]
      intro tagged
      rw [checkName_ne_tagName tagged] at checks
      cases checks
    rw [if_pos checks] at planned ⊢
    cases read : readCheck a.arguments with
    | none =>
      rw [read] at planned formed
      cases planned
      refine .inl ⟨[_], rfl, rfl, ?_⟩
      simp [misuseBriefs, Bearer.misuses, checks, ← formed, misused, brief]
    | some check =>
      obtain ⟨expected, span, name⟩ := check
      rw [read] at planned formed
      cases reference : referenceOf name with
      | error fault =>
        simp only [reference] at planned
        cases planned
      | ok r =>
        simp only [reference] at planned
        cases planned
        refine .inr ⟨expected, span, name, r, rfl, reference, rfl, ?_⟩
        simp [misuseBriefs, Bearer.misuses, untagged, ← formed]
  · rw [if_neg checks] at planned ⊢
    by_cases tagged : isChecker tagName a = true
    · rw [if_pos tagged] at planned
      cases planned
      refine .inl ⟨[_], rfl, rfl, ?_⟩
      simp [misuseBriefs, Bearer.misuses, tagged, misused, brief]
    · rw [if_neg tagged] at planned
      cases planned
      refine .inl ⟨[], rfl, rfl, ?_⟩
      simp [misuseBriefs, Bearer.misuses, tagged, checks]

theorem Steps.answers_attribute {a : Attribute Span} (sound : w.Sound)
    (planned : planAttribute file a = .ok as) (steps : Steps file w as w')
    (ahead : w'.Foresees f) :
    Answers file f (attributeDemands w.current w.nextPosition [a]) ([a].filterMap checkOf).length
        w w' ∧ w'.current = w.current := by
  rw [attributeDemands, List.filterMap_cons, List.filterMap_nil]
  rcases planAttribute_cases planned with ⟨more, unasked, rfl, said⟩ |
    ⟨expected, span, name, r, asked, reference, rfl, fine⟩
  · simp only [unasked, attributeDemands]
    exact steps.answers_complaints said
  · simp only [asked, attributeDemands]
    -- The attribute itself is in order, which takes no step.
    have unmoved : Steps file w (complaints []) w := .done w w.journal
    have used := (unmoved.answers_complaints (f := f) fine.symm).1
    cases steps with
    | cons first rest =>
      have answered := first.answers_check sound reference (ahead.before (sound.step first) rest)
      have both := used.append answered
      have still : w'.current = w.current := by
        cases first
        cases rest
        rfl
      cases rest
      exact ⟨⟨both.diagnostics, both.outcomes, both.position⟩, still⟩

theorem Steps.answers_attributes {attributes : List (Attribute Span)} (sound : w.Sound)
    (planned : plan file (.attributes attributes) = .ok as) (steps : Steps file w as w')
    (ahead : w'.Foresees f) :
    Answers file f (attributeDemands w.current w.nextPosition attributes)
      (attributes.filterMap checkOf).length w w' := by
  induction attributes generalizing w as with
  | nil =>
    cases planned
    cases steps
    exact .nil rfl rfl rfl
  | cons a attributes ih =>
    obtain ⟨_, _, first, rest, rfl⟩ := Plan.andThen_eq_ok.1 planned
    obtain ⟨w₁, front, back⟩ := steps.split
    have sound₁ := sound.steps front
    obtain ⟨one, same⟩ := front.answers_attribute sound first (ahead.before sound₁ back)
    have others := ih sound₁ rest back
    rw [same, one.position] at others
    have counted : ((a :: attributes).filterMap checkOf).length =
        ([a].filterMap checkOf).length + (attributes.filterMap checkOf).length := by
      rw [← List.length_append, ← List.filterMap_append, List.singleton_append]
    rw [attributeDemands_cons, counted]
    exact one.append others

theorem Steps.of_leaves {k : Nat} (steps : Steps file w (List.replicate k .leave) w') :
    w'.diagnostics = w.diagnostics ∧ w'.outcomes = w.outcomes ∧
      w'.nextPosition = w.nextPosition := by
  induction k generalizing w with
  | zero =>
    cases steps
    exact ⟨rfl, rfl, rfl⟩
  | succ k ih =>
    cases steps with
    | cons first rest =>
      cases first
      have kept := ih rest
      exact kept

mutual

theorem answers_of_visits : ∀ (d : Declaration Span) {w w' : Walk} {as : List Action}, w.Sound →
    planAll file (visits d) = .ok as → Steps file w as w' → w'.Foresees f →
    Answers file f (demands f w.current w.nextPosition d) (ticks d) w w'
  | .namespaceDefinition path attributes body _, w, w', as, sound, planned, steps, ahead => by
    obtain ⟨entering, inner, entered, walked, rfl⟩ := exists_of_planDefinition planned
    -- The attributes, the path, the body and the way out, in this order.
    obtain ⟨w₁, steps₁, steps⟩ := steps.split
    obtain ⟨w₂, steps₂, steps⟩ := steps.split
    obtain ⟨w₃, steps₃, steps₄⟩ := steps.split
    have sound₁ := sound.steps steps₁
    have sound₂ := sound₁.steps steps₂
    have ahead₃ := ahead.before (sound₂.steps steps₃) steps₄
    obtain ⟨used, same⟩ := steps₁.answers_complaints (f := f) (briefs_reading file attributes)
    obtain ⟨kept, inside⟩ := steps₂.answers_path sound₁ entered (ahead₃.before sound₂ steps₃)
    have within := answers_of_outline body sound₂ walked steps₃ ahead₃
    obtain ⟨diagnostics, outcomes, position⟩ := steps₄.of_leaves
    rw [inside, kept.position, same, used.position, Nat.add_zero] at within
    rw [same, used.position, Nat.add_zero] at kept
    have all := ((used.append kept).append within).append (.nil diagnostics outcomes position)
    rw [List.append_nil, Nat.zero_add, Nat.add_zero] at all
    exact all
  | .usingDirective target attributes _, w, w', as, sound, planned, steps, ahead => by
    rw [visits, planAll, Plan.collect_singleton] at planned
    exact steps.answers_directive sound planned ahead
  | .attributeDeclaration attributes _, w, w', as, sound, planned, steps, ahead => by
    rw [visits, planAll, Plan.collect_singleton] at planned
    exact steps.answers_attributes sound planned ahead
  | .emptyDeclaration _, w, w', as, sound, planned, steps, ahead => by
    cases planned
    cases steps
    exact .nil rfl rfl rfl

theorem answers_of_outline : ∀ (ds : List (Declaration Span)) {w w' : Walk} {as : List Action},
    w.Sound → planAll file (outline ds) = .ok as → Steps file w as w' → w'.Foresees f →
    Answers file f (demandsOf f w.current w.nextPosition ds) (ticksOf ds) w w'
  | [], w, w', as, sound, planned, steps, ahead => by
    cases planned
    cases steps
    exact .nil rfl rfl rfl
  | d :: ds, w, w', as, sound, planned, steps, ahead => by
    rw [outline, planAll_append] at planned
    obtain ⟨_, _, first, rest, rfl⟩ := Plan.andThen_eq_ok.1 planned
    obtain ⟨w₁, front, back⟩ := steps.split
    have sound₁ := sound.steps front
    have same : w₁.current = w.current :=
      ((balanced_of_visits d first).enters sound front).current_eq
    have one := answers_of_visits d sound first front (ahead.before sound₁ back)
    have others := answers_of_outline ds sound₁ rest back ahead
    rw [same, one.position] at others
    exact one.append others

end

end Walk

end Check

end ScopedNames

import ScopedNames.Proofs.Check.Step
import ScopedNames.Proofs.Dialect.Names

set_option autoImplicit false

namespace ScopedNames.Check

open Dialect

abbrev Plan := Except (SessionFault Nat) (List Action)

namespace Plan

def andThen (p q : Plan) : Plan := do
  let as ← p
  let bs ← q
  return as ++ bs

def collect {α : Type} (plan : α → Plan) : List α → Plan
  | [] => .ok []
  | x :: xs => andThen (plan x) (collect plan xs)

variable {p q r : Plan} {as bs : List Action}

theorem ok_andThen_ok : andThen (.ok as) (.ok bs) = .ok (as ++ bs) := rfl

theorem nil_andThen : andThen (.ok []) p = p := by cases p <;> rfl

theorem andThen_nil : andThen p (.ok []) = p := by
  cases p with
  | error => rfl
  | ok as => rw [ok_andThen_ok, List.append_nil]

theorem andThen_assoc : andThen (andThen p q) r = andThen p (andThen q r) := by
  cases p with
  | error => rfl
  | ok as =>
    cases q with
    | error => rfl
    | ok bs =>
      cases r with
      | error => rfl
      | ok cs => simp only [ok_andThen_ok, List.append_assoc]

theorem andThen_eq_ok :
    andThen p q = .ok as ↔ ∃ front back, p = .ok front ∧ q = .ok back ∧ as = front ++ back := by
  constructor
  · intro planned
    cases p with
    | error => cases planned
    | ok front =>
      cases q with
      | error => cases planned
      | ok back =>
        cases planned
        exact ⟨front, back, rfl, rfl, rfl⟩
  · rintro ⟨front, back, rfl, rfl, rfl⟩
    rfl

theorem collect_append {α : Type} {plan : α → Plan} {xs ys : List α} :
    collect plan (xs ++ ys) = andThen (collect plan xs) (collect plan ys) := by
  induction xs with
  | nil => rw [List.nil_append, collect, nil_andThen]
  | cons x xs ih => rw [List.cons_append, collect, collect, ih, andThen_assoc]

theorem collect_singleton {α : Type} {plan : α → Plan} {x : α} : collect plan [x] = plan x := by
  rw [collect, collect, andThen_nil]

theorem exists_collect {α : Type} {plan : α → Plan} {xs : List α}
    (each : ∀ x ∈ xs, ∃ as, plan x = .ok as) : ∃ as, collect plan xs = .ok as := by
  induction xs with
  | nil => exact ⟨[], rfl⟩
  | cons x xs ih =>
    obtain ⟨as, first⟩ := each x List.mem_cons_self
    obtain ⟨bs, rest⟩ := ih fun y member => each y (List.mem_cons_of_mem x member)
    exact ⟨as ++ bs, andThen_eq_ok.2 ⟨as, bs, first, rest, rfl⟩⟩

end Plan

namespace Walk

open Plan

variable {file : String} {w w' : Walk} {as bs : List Action} {p q : Plan}

def complaints (ds : List Diagnostic) : List Action := ds.map .complain

def planSegment (segment : PathSegment Span) (tag : Option Nat) : Plan :=
  (Session.readSegment (.text segment.name)).map fun name =>
    [.enter name segment.isInline segment.span tag]

def planPath (tag : Option Nat) : List (PathSegment Span) → Plan
  | [] => .ok []
  | [segment] => planSegment segment tag
  | segment :: segments => andThen (planSegment segment none) (planPath tag segments)

def reading (file : String) (attributes : List (Attribute Span)) : Walk × Option Nat :=
  attributes.foldl (readTag file []) (start (.new 0), none)

def planAttribute (file : String) (a : Attribute Span) : Plan :=
  if isChecker checkName a then
    match readCheck a.arguments with
    | none => .ok [.complain (misused file a "expects (integer | true | false, name)")]
    | some (expected, span, name) => (referenceOf name).map fun r => [.ask name r expected span]
  else if isChecker tagName a then
    .ok [.complain (misused file a "is only allowed on a namespace definition")]
  else .ok []

def misuses (file : String) (attributes : List (Attribute Span)) : List Diagnostic :=
  (attributes.filter fun a => isChecker tagName a || isChecker checkName a).map fun a =>
    misused file a "is not allowed on a using-directive"

def plan (file : String) : Visit Span → Plan
  | .enter path attributes =>
    andThen (.ok (complaints (reading file attributes).1.diagnostics))
      (planPath (reading file attributes).2 path)
  | .leave path => .ok (List.replicate path.length .leave)
  | .directive target attributes =>
    andThen (.ok (complaints (misuses file attributes)))
      ((referenceOf target).map fun r => [.issue target r])
  | .attributes attributes => collect (planAttribute file) attributes
  | .empty => .ok []

def planAll (file : String) (vs : List (Visit Span)) : Plan := collect (plan file) vs

theorem planAll_append (vs us : List (Visit Span)) :
    planAll file (vs ++ us) = andThen (planAll file vs) (planAll file us) := collect_append

theorem planAll_definition (path : List (PathSegment Span)) (attributes : List (Attribute Span))
    (body : List (Declaration Span)) (span : Span) :
    planAll file (visits (.namespaceDefinition path attributes body span)) =
      andThen (plan file (.enter path attributes))
        (andThen (planAll file (outline body)) (.ok (List.replicate path.length .leave))) := by
  rw [visits, List.cons_append, planAll, collect, collect_append, collect_singleton]
  rfl

theorem planAll_fill (file : String) (around : Surrounding Span) (d : Declaration Span) :
    planAll file (outline (around.fill [d])) =
      andThen (andThen (planAll file around.before) (planAll file (visits d)))
        (planAll file around.after) := by
  rw [Surrounding.outline_fill, outline_singleton, planAll_append, planAll_append]

theorem planAttribute_eq_ok {a : Attribute Span} (planned : planAttribute file a = .ok as) :
    as = [] ∨ (∃ d, as = [.complain d]) ∨
      ∃ name r expected span, as = [.ask name r expected span] := by
  unfold planAttribute at planned
  split at planned
  · split at planned
    · cases planned
      exact .inr (.inl ⟨_, rfl⟩)
    · next name _ =>
      cases read : referenceOf name with
      | error fault => rw [read] at planned; cases planned
      | ok r =>
        rw [read] at planned
        cases planned
        exact .inr (.inr ⟨_, _, _, _, rfl⟩)
  · split at planned
    · cases planned
      exact .inr (.inl ⟨_, rfl⟩)
    · cases planned
      exact .inl rfl

theorem exists_of_planDirective {target : QualifiedName Span} {attributes : List (Attribute Span)}
    (planned : plan file (.directive target attributes) = .ok as) :
    ∃ r, referenceOf target = .ok r ∧
      as = complaints (misuses file attributes) ++ [.issue target r] := by
  obtain ⟨_, _, complained, issued, rfl⟩ := andThen_eq_ok.1 planned
  cases complained
  cases read : referenceOf target with
  | error fault => rw [read] at issued; cases issued
  | ok r =>
    rw [read] at issued
    cases issued
    exact ⟨r, rfl, rfl⟩

section Named

theorem planSegment_eq_ok {segment : PathSegment Span} {tag : Option Nat} :
    planSegment segment tag = .ok as ↔
      ∃ name : Segment, name.name = segment.name ∧
        as = [.enter name segment.isInline segment.span tag] := by
  constructor
  · intro planned
    by_cases named : IsName (.text segment.name)
    · obtain ⟨name, same, read⟩ := ofValue_of_isName named
      rw [planSegment, Session.readSegment, read] at planned
      cases planned
      injection same with same
      exact ⟨name, same.symm, rfl⟩
    · rw [planSegment, Session.readSegment, ofValue_of_not_isName named] at planned
      cases planned
  · rintro ⟨name, same, rfl⟩
    rw [planSegment, Session.readSegment, ← same, ofValue_segment]
    rfl

theorem planPath_cons (tag : Option Nat) (segment : PathSegment Span)
    (segments : List (PathSegment Span)) :
    ∃ tag', planPath tag (segment :: segments) =
      andThen (planSegment segment tag') (planPath tag segments) := by
  cases segments with
  | nil => exact ⟨tag, andThen_nil.symm⟩
  | cons second others => exact ⟨none, rfl⟩

theorem exists_of_planPath_cons {tag : Option Nat} {segment : PathSegment Span}
    {segments : List (PathSegment Span)} (planned : planPath tag (segment :: segments) = .ok as) :
    ∃ (name : Segment) (tag' : Option Nat) (rest : List Action), name.name = segment.name ∧
      planPath tag segments = .ok rest ∧
      as = .enter name segment.isInline segment.span tag' :: rest := by
  obtain ⟨tag', split⟩ := planPath_cons tag segment segments
  rw [split, andThen_eq_ok] at planned
  obtain ⟨_, rest, first, onwards, rfl⟩ := planned
  obtain ⟨name, same, rfl⟩ := planSegment_eq_ok.1 first
  exact ⟨name, tag', rest, same, onwards, rfl⟩

theorem isName_of_planPath {tag : Option Nat} {path : List (PathSegment Span)}
    (planned : planPath tag path = .ok as) :
    ∀ segment ∈ path, IsName (.text segment.name) := by
  induction path generalizing as with
  | nil => exact fun segment member => nomatch member
  | cons segment segments ih =>
    obtain ⟨name, _, rest, same, onwards, _⟩ := exists_of_planPath_cons planned
    intro other member
    rcases List.mem_cons.1 member with rfl | later
    · rw [← same]
      exact isName_of_segment name
    · exact ih onwards other later

theorem exists_planPath {path : List (PathSegment Span)} (tag : Option Nat)
    (named : ∀ segment ∈ path, IsName (.text segment.name)) :
    ∃ as, planPath tag path = .ok as := by
  induction path with
  | nil => exact ⟨[], rfl⟩
  | cons segment segments ih =>
    obtain ⟨rest, onwards⟩ := ih fun other member => named other (List.mem_cons_of_mem _ member)
    obtain ⟨name, same, _⟩ := ofValue_of_isName (named segment List.mem_cons_self)
    injection same with same
    obtain ⟨tag', split⟩ := planPath_cons tag segment segments
    rw [split]
    exact ⟨_, andThen_eq_ok.2 ⟨_, rest, planSegment_eq_ok.2 ⟨name, same.symm, rfl⟩, onwards, rfl⟩⟩

theorem exists_referenceOf {name : QualifiedName Span} (named : name.Named) :
    ∃ r, referenceOf name = .ok r ∧ r.names = name.names := by
  obtain ⟨r, read, same, _⟩ := exists_ofNames name.rooted named.1 named.2
  exact ⟨r, by rw [referenceOf, read]; rfl, same⟩

theorem exists_of_readCheck {arguments : List (Argument Span)} {expected : Expectation}
    {span : Span} {name : QualifiedName Span}
    (read : readCheck arguments = some (expected, span, name)) :
    ∃ argument ∈ arguments, argument.value = .name name := by
  unfold readCheck at read
  split at read <;> cases read <;> simp

theorem exists_planAttribute {a : Attribute Span} (named : a.Named) :
    ∃ as, planAttribute file a = .ok as := by
  unfold planAttribute
  split
  · split
    · exact ⟨_, rfl⟩
    · next read =>
      obtain ⟨argument, member, value⟩ := exists_of_readCheck read
      obtain ⟨r, reference, _⟩ := exists_referenceOf (named argument member _ value)
      exact ⟨_, by rw [reference]; rfl⟩
  · split <;> exact ⟨_, rfl⟩

theorem exists_plan {v : Visit Span} (named : v.Named) : ∃ as, plan file v = .ok as := by
  cases v with
  | enter path attributes =>
    obtain ⟨as, planned⟩ := exists_planPath (reading file attributes).2 named.2
    exact ⟨_, andThen_eq_ok.2 ⟨_, as, rfl, planned, rfl⟩⟩
  | directive target attributes =>
    obtain ⟨r, reference, _⟩ := exists_referenceOf named
    exact ⟨_, andThen_eq_ok.2 ⟨_, _, rfl, by rw [reference]; rfl, rfl⟩⟩
  | attributes list => exact exists_collect fun a member => exists_planAttribute (named a member)
  | leave | empty => exact ⟨_, rfl⟩

theorem exists_planAll (file : String) {ds : List (Declaration Span)} (named : Named ds) :
    ∃ as, planAll file (outline ds) = .ok as :=
  exists_collect fun v member => exists_plan (named v member)

end Named

-- A part of a walk is refused where its plan is, or else takes the planned steps.
inductive Follows (file : String) (w : Walk) : Plan → Except (SessionFault Nat) Walk → Prop where
  | refused (fault : SessionFault Nat) : Follows file w (.error fault) (.error fault)
  | taken {as : List Action} {w' : Walk} (steps : Steps file w as w') :
      Follows file w (.ok as) (.ok w')

namespace Follows

variable {x : Except (SessionFault Nat) Walk} {f : Walk → Except (SessionFault Nat) Walk}

theorem exists_steps (follows : Follows file w p (.ok w')) :
    ∃ as, p = .ok as ∧ Steps file w as w' := by
  cases follows with
  | taken steps => exact ⟨_, rfl, steps⟩

theorem exists_walk (follows : Follows file w (.ok as) x) :
    ∃ w', x = .ok w' ∧ Steps file w as w' := by
  cases follows with
  | taken steps => exact ⟨_, rfl, steps⟩

theorem andThen (sound : w.Sound) (first : Follows file w p x)
    (second : ∀ w', w'.Sound → Follows file w' q (f w')) :
    Follows file w (Plan.andThen p q) (x >>= f) := by
  cases first with
  | refused fault => exact .refused fault
  | @taken as w' steps =>
    have onwards := second w' (sound.steps steps)
    change Follows file w (Plan.andThen (.ok as) q) (f w')
    generalize f w' = y at onwards
    cases onwards with
    | refused fault => exact .refused fault
    | taken steps' => exact .taken (steps.append steps')

theorem foldlM {α : Type} {plan : α → Plan} {f : Walk → α → Except (SessionFault Nat) Walk}
    (each : ∀ x w, Sound w → Follows file w (plan x) (f w x)) (xs : List α) (sound : w.Sound) :
    Follows file w (collect plan xs) (xs.foldlM f w) := by
  induction xs generalizing w with
  | nil => exact .taken (.done w w.journal)
  | cons x xs ih =>
    rw [List.foldlM_cons]
    exact (each x w sound).andThen sound fun w' sound' => ih sound'

end Follows

theorem steps_complaints (file : String) (w : Walk) (ds : List Diagnostic) (journal : List Entry) :
    Steps file w (complaints ds) { w with diagnostics := w.diagnostics ++ ds, journal } := by
  induction ds generalizing w with
  | nil =>
    rw [List.append_nil]
    exact .done w journal
  | cons d ds ih =>
    have rest := ih (w.complain d)
    rw [complain, List.append_assoc, List.singleton_append] at rest
    exact .cons .complain rest

theorem Steps.of_complaints {ds : List Diagnostic} (steps : Steps file w (complaints ds) w') :
    ∃ journal, w' = { w with diagnostics := w.diagnostics ++ ds, journal } := by
  induction ds generalizing w with
  | nil =>
    cases steps with
    | done _ journal => exact ⟨journal, by rw [List.append_nil]⟩
  | cons d ds ih =>
    cases steps with
    | cons first rest =>
      cases first
      obtain ⟨journal, rfl⟩ := ih rest
      exact ⟨journal, by rw [List.append_assoc, List.singleton_append]⟩

theorem complain_if {c : Bool} {d : Diagnostic} :
    (if c then w.complain d else w) =
      { w with diagnostics := w.diagnostics ++ if c then [d] else [] } := by
  cases c with
  | true => rfl
  | false => simp

theorem openSegment_follows (sound : w.Sound) (segment : PathSegment Span) (tag : Option Nat) :
    Follows file w (planSegment segment tag) (openSegment file w segment tag) := by
  obtain ⟨text, isInline, span⟩ := segment
  unfold openSegment
  simp only [ScopeTable.getLastD_routeTo]
  cases found : w.session.tree.member? ScopeTable.everything w.current text with
  | none =>
    let parent : Fin w.session.tree.size := ⟨w.current, sound.current_lt⟩
    simp only [Option.bind_none, Option.map_none, Option.getD_none]
    by_cases named : IsName (.text text)
    · obtain ⟨name, same, read⟩ := ofValue_of_isName named
      injection same with same
      subst same
      rw [planSegment, Session.readSegment, read,
        Session.declareScope_fresh parent (ScopeTable.child?_of_member? found)
          sound.admits]
      exact .taken (.single (.declare found parent.isLt))
    · rw [planSegment, Session.readSegment, ofValue_of_not_isName named,
        Session.declareScope_malformed parent named]
      exact .refused _
  | some i =>
    obtain ⟨_, s, there, named, _⟩ := ScopeTable.member?_eq_some found
    subst named
    obtain ⟨parent, same, child⟩ := sound.exists_parent there
    simp only [Option.bind_some, Option.map_some, Option.getD_some, there, complain_if, ← same]
    rw [planSegment, Session.readSegment, ofValue_segment,
      Session.declareScope_existing parent child sound.admits]
    exact .taken (.single (.reopen found there))

theorem openPath_follows (sound : w.Sound) (path : List (PathSegment Span)) (tag : Option Nat) :
    Follows file w (planPath tag path) (openPath file tag w path) := by
  induction path generalizing w with
  | nil => exact .taken (.done w w.journal)
  | cons segment segments ih =>
    cases segments with
    | nil => exact openSegment_follows sound segment tag
    | cons second others =>
      exact (openSegment_follows sound segment none).andThen sound fun _ sound' => ih sound'

theorem readTag_eq (file : String) (tag : Option Nat) (a : Attribute Span) :
    ∃ ds tag', ∀ path w, ∃ journal, readTag file path (w, tag) a =
      ({ w with diagnostics := w.diagnostics ++ ds, journal }, tag') := by
  -- Of the walk and of the path only the notes take anything.
  unfold readTag
  by_cases tagged : isChecker tagName a
  · simp only [if_pos tagged]
    cases readTagValue a.arguments with
    | none => exact ⟨[_], tag, fun path w => ⟨_, rfl⟩⟩
    | some n =>
      cases tag with
      | none => exact ⟨[], some n, fun path w => ⟨w.journal, by rw [List.append_nil]⟩⟩
      | some kept => exact ⟨[], some kept, fun path w => ⟨_, by rw [List.append_nil]; rfl⟩⟩
  · simp only [if_neg tagged]
    by_cases checks : isChecker checkName a
    · simp only [if_pos checks]
      exact ⟨[_], tag, fun path w => ⟨_, rfl⟩⟩
    · simp only [if_neg checks]
      exact ⟨[], tag, fun path w => ⟨_, by rw [List.append_nil]; rfl⟩⟩

theorem foldl_readTag (file : String) (tag : Option Nat) (attributes : List (Attribute Span)) :
    ∃ ds tag', ∀ path w, ∃ journal, attributes.foldl (readTag file path) (w, tag) =
      ({ w with diagnostics := w.diagnostics ++ ds, journal }, tag') := by
  induction attributes generalizing tag with
  | nil => exact ⟨[], tag, fun path w => ⟨w.journal, by simp⟩⟩
  | cons a attributes ih =>
    obtain ⟨ds, tag', first⟩ := readTag_eq file tag a
    obtain ⟨es, tag'', rest⟩ := ih tag'
    refine ⟨ds ++ es, tag'', fun path w => ?_⟩
    obtain ⟨_, once⟩ := first path w
    obtain ⟨journal, onwards⟩ := rest path _
    exact ⟨journal, by rw [List.foldl_cons, once, onwards, List.append_assoc]⟩

theorem foldl_readTag_eq (file : String) (path : List (PathSegment Span))
    (attributes : List (Attribute Span)) (w : Walk) :
    ∃ journal, attributes.foldl (readTag file path) (w, none) =
      ({ w with diagnostics := w.diagnostics ++ (reading file attributes).1.diagnostics, journal },
        (reading file attributes).2) := by
  obtain ⟨ds, tag, all⟩ := foldl_readTag file none attributes
  obtain ⟨_, blank⟩ := all [] (start (.new 0))
  obtain ⟨journal, here⟩ := all path w
  refine ⟨journal, ?_⟩
  rw [here, reading, blank]
  rfl

theorem foldl_checkNotChecker (file : String) (attributes : List (Attribute Span)) (w : Walk) :
    ∃ journal, attributes.foldl (checkNotChecker file) w =
      { w with diagnostics := w.diagnostics ++ misuses file attributes, journal } := by
  induction attributes generalizing w with
  | nil => exact ⟨w.journal, by simp [misuses]⟩
  | cons a attributes ih =>
    obtain ⟨journal, rest⟩ := ih (checkNotChecker file w a)
    refine ⟨journal, ?_⟩
    rw [List.foldl_cons, rest, checkNotChecker]
    cases checker : isChecker tagName a || isChecker checkName a with
    | true => simp [misuses, checker, badAttribute, complain]
    | false => simp [misuses, checker, ignoreAttribute, note]

theorem visitDirective_follows (sound : w.Sound) (target : QualifiedName Span)
    (attributes : List (Attribute Span)) :
    Follows file w (plan file (.directive target attributes))
      (visitDirective file w target attributes) := by
  obtain ⟨journal, same⟩ := foldl_checkNotChecker file attributes w
  have front := steps_complaints file w (misuses file attributes) journal
  have sound' := sound.steps front
  rw [← same] at front sound'
  rw [visitDirective, plan]
  generalize attributes.foldl (checkNotChecker file) w = w₁ at front sound' ⊢
  cases referenceOf target with
  | error fault => exact .refused fault
  | ok r =>
    let here : Fin w₁.session.tree.size := ⟨w₁.current, sound'.current_lt⟩
    have issued := Session.issueImport_eq (r := r) here sound'.admits
    simp only [bind, Except.bind, here, issued, complain_if]
    exact .taken (front.append (.single .issue))

theorem evaluate_follows (sound : w.Sound) (a : Attribute Span) {expected : Expectation}
    {span : Span} {name : QualifiedName Span}
    (read : readCheck a.arguments = some (expected, span, name)) :
    Follows file w ((referenceOf name).map fun r => [.ask name r expected span])
      (evaluate file w a) := by
  simp only [evaluate, read]
  cases referenceOf name with
  | error fault => exact .refused fault
  | ok r =>
    let here : Fin w.session.tree.size := ⟨w.current, sound.current_lt⟩
    have answered := Session.query_eq (r := r) here sound.admits
    simp only [bind, Except.bind, here, answered]
    exact .taken (.single .ask)

theorem visitAttribute_follows (sound : w.Sound) (a : Attribute Span) :
    Follows file w (planAttribute file a) (visitAttribute file w a) := by
  unfold planAttribute visitAttribute
  split
  · cases read : readCheck a.arguments with
    | none =>
      simp only [evaluate, read]
      exact .taken (.single .complain)
    | some check => exact evaluate_follows sound a read
  · split
    · exact .taken (.single .complain)
    · exact .taken (.done w _)

theorem steps_leave (file : String) (w : Walk) (k : Nat) :
    Steps file w (List.replicate k .leave) { w with scopes := w.scopes.drop k } := by
  induction k generalizing w with
  | zero => exact .done w w.journal
  | succ k ih =>
    have rest := ih { w with scopes := w.scopes.tail }
    rw [List.drop_tail] at rest
    exact .cons .leave rest

theorem visit_follows (file : String) (v : Visit Span) (sound : w.Sound) :
    Follows file w (plan file v) (visit file w v) := by
  cases v with
  | enter path attributes =>
    obtain ⟨journal, same⟩ := foldl_readTag_eq file path attributes w
    have front := steps_complaints file w (reading file attributes).1.diagnostics journal
    simp only [visit, same]
    exact (Follows.taken front).andThen sound fun w' sound' => openPath_follows sound' path _
  | leave path => exact .taken (steps_leave file w path.length)
  | directive target attributes => exact visitDirective_follows sound target attributes
  | attributes list => exact .foldlM (fun a w sound => visitAttribute_follows sound a) list sound
  | empty => exact .taken (.done w w.journal)

theorem visits_follow (file : String) (vs : List (Visit Span)) (sound : w.Sound) :
    Follows file w (planAll file vs) (vs.foldlM (visit file) w) :=
  .foldlM (fun v _ sound => visit_follows file v sound) vs sound

theorem exists_visits {vs : List (Visit Span)} (sound : w.Sound)
    (planned : planAll file vs = .ok as) :
    ∃ w', vs.foldlM (visit file) w = .ok w' ∧ Steps file w as w' := by
  have follows := visits_follow file vs sound
  rw [planned] at follows
  exact follows.exists_walk

theorem steps_of_visits {vs : List (Visit Span)} (sound : w.Sound)
    (ran : vs.foldlM (visit file) w = .ok w') :
    ∃ as, planAll file vs = .ok as ∧ Steps file w as w' := by
  have follows := visits_follow file vs sound
  rw [ran] at follows
  exact follows.exists_steps

theorem Sound.visits {vs : List (Visit Span)} (sound : w.Sound)
    (ran : vs.foldlM (visit file) w = .ok w') : w'.Sound := by
  obtain ⟨_, _, steps⟩ := steps_of_visits sound ran
  exact sound.steps steps

theorem steps_of_visit {v : Visit Span} (sound : w.Sound) (ran : visit file w v = .ok w') :
    ∃ as, plan file v = .ok as ∧ Steps file w as w' := by
  have follows := visit_follows file v sound
  rw [ran] at follows
  exact follows.exists_steps

theorem run_follows (number : Nat) (u : SourceUnit) :
    Follows u.file (start (.new number)) (planAll u.file (outline u.declarations))
      (run (.new number) u) := by
  have follows := visits_follow u.file (outline u.declarations) (Sound.start number)
  rw [run]
  generalize planAll u.file (outline u.declarations) = p at follows ⊢
  generalize (outline u.declarations).foldlM (visit u.file) (start (.new number)) = x at follows
  cases follows with
  | refused fault => exact .refused fault
  | taken steps => exact .taken steps.note

theorem exists_run {u : SourceUnit} (number : Nat)
    (planned : planAll u.file (outline u.declarations) = .ok as) :
    ∃ w, run (.new number) u = .ok w ∧ Steps u.file (start (.new number)) as w := by
  have follows := run_follows number u
  rw [planned] at follows
  exact follows.exists_walk

end Walk

end ScopedNames.Check

import ScopedNames.Proofs.Check.Occurrences

set_option autoImplicit false

namespace ScopedNames

section Sessions

variable {τ π : Type}

theorem ScopeTree.sum_reopened {t : ScopeTree τ π} (known : ∀ i ∈ t.reopenings, i < t.size) :
    ∑ i ∈ Finset.range t.size, t.reopened i = t.reopenings.length := by
  have counted : ∑ i ∈ Finset.range t.size, Multiset.count i t.reopenings =
      Multiset.card (t.reopenings : Multiset Nat) :=
    Multiset.sum_count_eq_card fun i member => Finset.mem_range.2 (known i member)
  simpa [reopened] using counted

variable [LT π] [DecidableLT π] {s s' s'' : Session τ π} {calls : List (Call τ π)}

inductive Session.Takes : Session τ π → List (Call τ π) → Session τ π → Prop where
  | done (s : Session τ π) : Takes s [] s
  | call {s s' s'' : Session τ π} {c : Call τ π} {reply : Reply π} {calls : List (Call τ π)}
      (first : c.perform s = .ok reply s') (rest : Takes s' calls s'') : Takes s (c :: calls) s''

theorem Session.Takes.snoc {c : Call τ π} {reply : Reply π} (takes : s.Takes calls s')
    (last : Accepted s' c reply s'') : s.Takes (calls ++ [c]) s'' := by
  induction takes with
  | done s => exact .call (Call.perform_accepted last) (.done _)
  | call first _ ih => exact .call first (ih last)

end Sessions

namespace Check

open Dialect Walk

def numbered (os : List Occurrence) : List (Occurrence × Nat) := os.zipIdx 1

-- The call that is made for an occurrence of this number, which is the position of the call.
inductive Calls (file : String) : Occurrence × Nat → Call Nat Nat → Prop where
  | name {segment : PathSegment Span} {enclosing : ScopeId} {tag : Option Nat} {p : Nat} :
      Calls file (.name segment, p) (.declareScope (.text segment.name) enclosing tag (some p)
        segment.isInline (some (segment.span.locate file)))
  | directive {target : QualifiedName Span} {r : Reference} {enclosing : ScopeId} {p : Nat}
      (read : referenceOf target = .ok r) :
      Calls file (.directive target, p) (.issueImport r enclosing (some p))
  | check {expected : Expectation} {span : Span} {name : QualifiedName Span} {r : Reference}
      {enclosing : ScopeId} {p : Nat} (read : referenceOf name = .ok r) :
      Calls file (.check expected span name, p) (.query r enclosing (some p))

abbrev Issued := Except (SessionFault Nat) Reference × Option Nat

def issuedOf (d : Import Nat) : Issued := (.ok d.path, d.position)

def issuedAt (n : Occurrence × Nat) : Option Issued :=
  n.1.directive?.map fun target => (referenceOf target, some n.2)

abbrev Asked := Expectation × QualifiedName Span × Location × Nat

def askedOf (o : Outcome) : Asked := (o.expected, o.name, o.location, o.position)

def askedAt (file : String) (n : Occurrence × Nat) : Option Asked :=
  n.1.check?.map fun (expected, span, name) => (expected, name, span.locate file, n.2)

variable {file : String} {number : Nat} {w w' : Walk} {done os os' : List Occurrence}
variable {o : Occurrence} {as bs : List Action}

theorem numbered_snoc : numbered (done ++ [o]) = numbered done ++ [(o, done.length + 1)] := by
  rw [numbered, List.zipIdx_append, Nat.add_comm]
  rfl

-- Actions that go through these occurrences, one after the other.
inductive Handles : List Action → List Occurrence → Prop where
  | nil : Handles [] []
  | complain {d : Diagnostic} {as : List Action} {os : List Occurrence} (rest : Handles as os) :
      Handles (.complain d :: as) os
  | enter {name : Segment} {isInline : Bool} {span : Span} {tag : Option Nat} {as : List Action}
      {os : List Occurrence} (rest : Handles as os) :
      Handles (.enter name isInline span tag :: as) (.name ⟨name.name, isInline, span⟩ :: os)
  | issue {target : QualifiedName Span} {r : Reference} {as : List Action} {os : List Occurrence}
      (read : referenceOf target = .ok r) (rest : Handles as os) :
      Handles (.issue target r :: as) (.directive target :: os)
  | ask {name : QualifiedName Span} {r : Reference} {expected : Expectation} {span : Span}
      {as : List Action} {os : List Occurrence} (read : referenceOf name = .ok r)
      (rest : Handles as os) :
      Handles (.ask name r expected span :: as) (.check expected span name :: os)
  | leave {as : List Action} {os : List Occurrence} (rest : Handles as os) :
      Handles (.leave :: as) os

namespace Handles

theorem append (first : Handles as os) (second : Handles bs os') :
    Handles (as ++ bs) (os ++ os') := by
  induction first with
  | nil => exact second
  | complain _ ih => exact .complain ih
  | enter _ ih => exact .enter ih
  | issue read _ ih => exact .issue read ih
  | ask read _ ih => exact .ask read ih
  | leave _ ih => exact .leave ih

theorem complaints (ds : List Diagnostic) : Handles (complaints ds) [] := by
  induction ds with
  | nil => exact .nil
  | cons d ds ih => exact .complain ih

theorem leaves (k : Nat) : Handles (List.replicate k .leave) [] := by
  induction k with
  | zero => exact .nil
  | succ k ih => exact .leave ih

theorem collect {α : Type} {plan : α → Plan} {f : α → List Occurrence} {xs : List α}
    (each : ∀ x as, plan x = .ok as → Handles as (f x)) (planned : Plan.collect plan xs = .ok as) :
    Handles as (xs.flatMap f) := by
  induction xs generalizing as with
  | nil =>
    cases planned
    exact .nil
  | cons x xs ih =>
    obtain ⟨front, back, first, rest, rfl⟩ := Plan.andThen_eq_ok.1 planned
    exact (each x front first).append (ih rest)

theorem ofPath {tag : Option Nat} {path : List (PathSegment Span)}
    (planned : planPath tag path = .ok as) : Handles as (path.map .name) := by
  induction path generalizing as with
  | nil =>
    cases planned
    exact .nil
  | cons segment segments ih =>
    obtain ⟨name, tag', rest, same, onwards, rfl⟩ := exists_of_planPath_cons planned
    have all : Handles (.enter name segment.isInline segment.span tag' :: rest)
        (.name ⟨name.name, segment.isInline, segment.span⟩ :: segments.map .name) :=
      .enter (ih onwards)
    rw [same] at all
    exact all

theorem ofAttribute {a : Attribute Span} (planned : planAttribute file a = .ok as) :
    Handles as ((checkOf a).toList.map fun (expected, span, name) =>
      .check expected span name) := by
  rcases planAttribute_cases planned with ⟨more, unasked, rfl, _⟩ |
    ⟨expected, span, name, r, asked, read, rfl, _⟩
  · rw [unasked]
    exact .complaints more
  · rw [asked]
    exact .ask read .nil

theorem ofVisit {v : Visit Span} (planned : plan file v = .ok as) :
    Handles as (occurrencesIn v) := by
  cases v with
  | enter path attributes =>
    obtain ⟨_, entering, complained, entered, rfl⟩ := Plan.andThen_eq_ok.1 planned
    cases complained
    have all := (complaints (reading file attributes).1.diagnostics).append (ofPath entered)
    simpa [occurrencesIn, segmentsIn, directivesIn, checksIn] using all
  | leave path =>
    cases planned
    exact .leaves path.length
  | directive target attributes =>
    obtain ⟨r, read, rfl⟩ := exists_of_planDirective planned
    exact (complaints _).append (.issue read .nil)
  | attributes list =>
    have all := collect (fun _ _ => ofAttribute) planned
    have checks : (list.flatMap fun a => (checkOf a).toList.map fun (expected, span, name) =>
        Occurrence.check expected span name) =
        (list.filterMap checkOf).map fun (expected, span, name) => .check expected span name := by
      rw [List.filterMap_eq_flatMap_toList, List.map_flatMap]
    rw [checks] at all
    exact all
  | empty =>
    cases planned
    exact .nil

theorem ofPlan {vs : List (Visit Span)} (planned : planAll file vs = .ok as) :
    Handles as (vs.flatMap occurrencesIn) :=
  .collect (fun _ _ => ofVisit) planned

end Handles

namespace Walk

theorem Step.accepted_enter {name : Segment} {isInline : Bool} {span : Span} {tag : Option Nat}
    (sound : w.Sound) (step : Step file w (.enter name isInline span tag) w') :
    ∃ enclosing reply, Accepted w.session (.declareScope (.text name.name) enclosing tag
      (some w.nextPosition) isInline (some (span.locate file))) reply w'.session := by
  cases step with
  | @reopen _ _ _ _ i s _ found there =>
    obtain ⟨_, s', there', named, _⟩ := ScopeTable.member?_eq_some found
    cases there.symm.trans there'
    obtain ⟨parent, _, child⟩ := sound.exists_parent there
    rw [named] at child
    exact ⟨w.session.tree.idOf parent, _, .reopened child sound.admits⟩
  | declare absent bound =>
    let parent : Fin w.session.tree.size := ⟨w.current, bound⟩
    exact ⟨w.session.tree.idOf parent, _,
      .declared (ScopeTable.child?_of_member? absent) sound.admits⟩

/--
The books of a walk that has gone through some occurrences: each has had a number and a call of
that position, and shows in exactly one of the counts.
-/
structure Tallied (file : String) (number : Nat) (done : List Occurrence) (w : Walk) : Prop where
  declared : w.declaredCount + 1 = w.session.tree.size
  reopened : ∀ i ∈ w.session.tree.reopenings, i < w.session.tree.size
  names : w.declaredCount + w.session.tree.reopenings.length =
    (done.filterMap Occurrence.segment?).length
  imports : w.session.issued.map issuedOf = (numbered done).filterMap issuedAt
  outcomes : w.outcomes.map askedOf = (numbered done).filterMap (askedAt file)
  position : w.nextPosition = done.length + 1
  last : w.session.lastPosition = if done.length = 0 then none else some done.length
  calls : ∃ calls, (Session.new number).Takes calls w.session ∧
    List.Forall₂ (Calls file) (numbered done) calls

namespace Tallied

theorem start (file : String) (number : Nat) : (start (.new number)).Tallied file number [] where
  declared := rfl
  reopened := List.forall_mem_nil _
  names := rfl
  imports := rfl
  outcomes := rfl
  position := rfl
  last := rfl
  calls := ⟨[], .done _, .nil⟩

-- What an accepted call for one more occurrence has to change, and what it must leave.
theorem snoc {c : Call Nat Nat} {reply : Reply Nat} (tallied : w.Tallied file number done)
    (made : Calls file (o, w.nextPosition) c) (accepted : Accepted w.session c reply w'.session)
    (declared : w'.declaredCount + 1 = w'.session.tree.size)
    (reopened : ∀ i ∈ w'.session.tree.reopenings, i < w'.session.tree.size)
    (names : w'.declaredCount + w'.session.tree.reopenings.length =
      w.declaredCount + w.session.tree.reopenings.length +
        ([o].filterMap Occurrence.segment?).length)
    (imports : w'.session.issued.map issuedOf =
      w.session.issued.map issuedOf ++ [(o, w.nextPosition)].filterMap issuedAt)
    (outcomes : w'.outcomes.map askedOf =
      w.outcomes.map askedOf ++ [(o, w.nextPosition)].filterMap (askedAt file))
    (position : w'.nextPosition = w.nextPosition + 1) :
    w'.Tallied file number (done ++ [o]) := by
  have next := tallied.position
  have last : w'.session.lastPosition = some w.nextPosition := by
    rw [accepted.lastPosition_eq]
    cases made <;> rfl
  rw [next] at made imports outcomes position last
  refine ⟨declared, reopened, ?_, ?_, ?_, ?_, ?_, ?_⟩
  · rw [names, tallied.names, List.filterMap_append, List.length_append]
  · rw [imports, tallied.imports, numbered_snoc, List.filterMap_append]
  · rw [outcomes, tallied.outcomes, numbered_snoc, List.filterMap_append]
  · rw [position, List.length_append, List.length_singleton]
  · rw [last, List.length_append, List.length_singleton, if_neg (Nat.succ_ne_zero _)]
  · obtain ⟨calls, takes, all⟩ := tallied.calls
    rw [numbered_snoc]
    exact ⟨calls ++ [c], takes.snoc accepted, List.rel_append all (.cons made .nil)⟩

theorem enter {name : Segment} {isInline : Bool} {span : Span} {tag : Option Nat}
    (tallied : w.Tallied file number done) (sound : w.Sound)
    (step : Step file w (.enter name isInline span tag) w') :
    w'.Tallied file number (done ++ [.name ⟨name.name, isInline, span⟩]) := by
  obtain ⟨enclosing, reply, accepted⟩ := step.accepted_enter sound
  have made : Calls file (.name ⟨name.name, isInline, span⟩, w.nextPosition) (.declareScope
      (.text name.name) enclosing tag (some w.nextPosition) isInline (some (span.locate file))) :=
    .name
  cases step with
  | reopen found there =>
    refine tallied.snoc made accepted tallied.declared ?_ rfl (List.append_nil _).symm
      (List.append_nil _).symm rfl
    intro i member
    rcases List.mem_cons.1 member with rfl | old
    · exact ScopeTable.lt_size_of_scope? there
    · exact tallied.reopened i old
  | declare absent bound =>
    refine tallied.snoc made accepted ?_ ?_ (Nat.add_right_comm _ _ _) (List.append_nil _).symm
      (List.append_nil _).symm rfl
    · rw [tallied.declared]
      exact (ScopeTable.add_size bound).symm
    · intro i member
      exact Nat.lt_of_lt_of_le (tallied.reopened i member) (ScopeTable.extends_add bound).size_le

theorem issue {target : QualifiedName Span} {r : Reference}
    (tallied : w.Tallied file number done) (sound : w.Sound) (read : referenceOf target = .ok r)
    (step : Step file w (.issue target r) w') :
    w'.Tallied file number (done ++ [.directive target]) := by
  cases step with
  | issue =>
    let here : Fin w.session.tree.size := ⟨w.current, sound.current_lt⟩
    have accepted : Accepted w.session
        (.issueImport r (w.session.tree.idOf here) (some w.nextPosition)) _ _ :=
      .imported rfl sound.admits
    refine tallied.snoc (.directive read) accepted tallied.declared tallied.reopened rfl ?_
      (List.append_nil _).symm rfl
    simp [issuedAt, Occurrence.directive?, issuedOf, importOf, read]

theorem ask {name : QualifiedName Span} {r : Reference} {expected : Expectation} {span : Span}
    (tallied : w.Tallied file number done) (sound : w.Sound) (read : referenceOf name = .ok r)
    (step : Step file w (.ask name r expected span) w') :
    w'.Tallied file number (done ++ [.check expected span name]) := by
  cases step with
  | ask =>
    let here : Fin w.session.tree.size := ⟨w.current, sound.current_lt⟩
    have accepted : Accepted w.session
        (.query r (w.session.tree.idOf here) (some w.nextPosition)) _ _ := .answered sound.admits
    refine tallied.snoc (.check read) accepted tallied.declared tallied.reopened rfl
      (List.append_nil _).symm ?_ rfl
    simp [askedAt, Occurrence.check?, askedOf]

theorem steps (tallied : w.Tallied file number done) (sound : w.Sound) (handles : Handles as os)
    (steps : Steps file w as w') : w'.Tallied file number (done ++ os) := by
  induction handles generalizing w done with
  | nil =>
    cases steps
    rw [List.append_nil]
    exact { tallied with }
  | complain _ ih | leave _ ih =>
    cases steps with
    | @cons _ w₁ _ _ _ first others =>
      have kept : w₁.Tallied file number done := by
        cases first
        exact { tallied with }
      exact ih kept (sound.step first) others
  | enter _ ih =>
    cases steps with
    | cons first others =>
      rw [List.append_cons]
      exact ih (tallied.enter sound first) (sound.step first) others
  | issue read _ ih =>
    cases steps with
    | cons first others =>
      rw [List.append_cons]
      exact ih (tallied.issue sound read first) (sound.step first) others
  | ask read _ ih =>
    cases steps with
    | cons first others =>
      rw [List.append_cons]
      exact ih (tallied.ask sound read first) (sound.step first) others

theorem visits {vs : List (Visit Span)} (tallied : w.Tallied file number done) (sound : w.Sound)
    (ran : vs.foldlM (visit file) w = .ok w') :
    w'.Tallied file number (done ++ vs.flatMap occurrencesIn) := by
  obtain ⟨as, planned, steps⟩ := steps_of_visits sound ran
  exact tallied.steps sound (.ofPlan planned) steps

end Tallied

end Walk

theorem filterMap_numbered {α β γ : Type} {f : Occurrence × Nat → Option β} {g : β → γ}
    {k : Occurrence → Option α} {h : α → γ} (same : ∀ n, (f n).map g = (k n.1).map h)
    (os : List Occurrence) : ((numbered os).filterMap f).map g = (os.filterMap k).map h := by
  have plain : (numbered os).map Prod.fst = os := List.zipIdx_map_fst 1 os
  conv_rhs => rw [← plain]
  rw [List.map_filterMap, List.map_filterMap, List.filterMap_map]
  exact List.filterMap_congr fun n _ => same n

theorem positions_of_calls {numbers : List (Occurrence × Nat)} {calls : List (Call Nat Nat)}
    (made : List.Forall₂ (Calls file) numbers calls) :
    calls.map Call.position = numbers.map fun n => some n.2 := by
  induction made with
  | nil => rfl
  | cons first _ ih =>
    rw [List.map_cons, List.map_cons, ih]
    cases first <;> rfl

/-- What a walk leaves behind matches what there is in the unit, in number and in order. -/
structure Accounts (u : SourceUnit) (number : Nat) (r : Resolved) (s : Session Nat Nat) : Prop where
  declared : r.declaredCount + 1 = s.tree.size
  names : r.declaredCount + ∑ i ∈ Finset.range s.tree.size, s.tree.reopened i =
    (segments u.declarations).length
  recorded : s.recorded = s.issued
  directives : s.issued.map (fun d => .ok d.path) = (directives u.declarations).map referenceOf
  checks : r.outcomes.map (fun o => (o.expected, o.location, o.name)) =
    (wellFormedChecks u.declarations).map fun (expected, span, name) =>
      (expected, span.locate u.file, name)
  imports : s.issued.map issuedOf = (numbered (occurrences u.declarations)).filterMap issuedAt
  outcomes : r.outcomes.map askedOf =
    (numbered (occurrences u.declarations)).filterMap (askedAt u.file)
  calls : ∃ calls, (Session.new number).Takes calls s ∧
    List.Forall₂ (Calls u.file) (numbered (occurrences u.declarations)) calls ∧
    calls.map Call.position = (List.range' 1 (occurrences u.declarations).length).map some
  last : s.lastPosition = if (occurrences u.declarations).length = 0 then none
    else some (occurrences u.declarations).length

theorem Walk.Tallied.accounts {u : SourceUnit}
    (tallied : w.Tallied u.file number (occurrences u.declarations)) (sound : w.Sound) :
    Accounts u number ⟨w.outcomes, w.declaredCount⟩ w.session where
  declared := tallied.declared
  names := by
    rw [ScopeTree.sum_reopened tallied.reopened, tallied.names, filterMap_segment?]
  recorded := sound.inv.recorded_eq
  directives := by
    have plain : ∀ n, (issuedAt n).map Prod.fst = n.1.directive?.map referenceOf := by
      intro n
      rw [issuedAt, Option.map_map]
      rfl
    have all := filterMap_numbered plain (occurrences u.declarations)
    rw [← tallied.imports, filterMap_directive?, List.map_map] at all
    exact all
  checks := by
    have plain : ∀ n, (askedAt u.file n).map (fun (expected, name, location, _) =>
        (expected, location, name)) = n.1.check?.map fun (expected, span, name) =>
          (expected, span.locate u.file, name) := by
      intro n
      rw [askedAt, Option.map_map]
      rfl
    have all := filterMap_numbered plain (occurrences u.declarations)
    rw [← tallied.outcomes, filterMap_check?, List.map_map] at all
    exact all
  imports := tallied.imports
  outcomes := tallied.outcomes
  calls := by
    obtain ⟨calls, takes, made⟩ := tallied.calls
    have positions := positions_of_calls made
    rw [← List.zipIdx_map_snd, List.map_map]
    exact ⟨calls, takes, made, positions⟩
  last := tallied.last

/--
The pass goes through any unit and loses nothing of it: at each point of the walk and at its end
every name, directive and well-formed check has been counted once, under its own number.
-/
theorem resolveNames_accounts {source : String} {u : SourceUnit} {c : Context}
    (fresh : c.session = .new number) (read : readUnit file source = .ok u) :
    (∃ c' r, c.resolveNames u = (c', none) ∧ c'.resolved = some r ∧
      Accounts u number r c'.session) ∧
    (∀ front back, outline u.declarations = front ++ back → ∃ w,
      front.foldlM (visit u.file) (start c.session) = .ok w ∧
        w.Tallied u.file number (front.flatMap occurrencesIn)) ∧
    (occurrences u.declarations).Pairwise (fun a b => a.span.Precedes b.span) ∧
    (occurrences u.declarations).length = (segments u.declarations).length +
      (directives u.declarations).length + (wellFormedChecks u.declarations).length := by
  obtain ⟨rfl, named⟩ := named_of_readUnit read
  obtain ⟨as, planned⟩ := exists_planAll u.file named
  have sound := Sound.start number
  have fresh' := Tallied.start u.file number
  refine ⟨?_, ?_, occurrences_pairwise read, length_occurrences _⟩
  · obtain ⟨w, ran, steps⟩ := exists_run number planned
    have tallied := fresh'.steps sound (.ofPlan planned) steps
    rw [Context.resolveNames, fresh, ran]
    exact ⟨_, _, rfl, rfl, tallied.accounts (sound.steps steps)⟩
  · intro front back split
    rw [split, planAll_append] at planned
    obtain ⟨entering, _, planned, _, _⟩ := Plan.andThen_eq_ok.1 planned
    obtain ⟨w, ran, _⟩ := exists_visits sound planned
    rw [fresh]
    exact ⟨w, ran, fresh'.visits sound ran⟩

-- Three names are new and two are entered again, one of them through an inline member.
theorem resolveNames_accounts_of_reentry :
    readUnit "main.cpp" reentryText = .ok reentryUnit ∧
      ∃ c r, (Context.new 0 "main.cpp" reentryText).resolveNames reentryUnit = (c, none) ∧
        c.resolved = some r ∧ r.declaredCount = 3 ∧
        ∑ i ∈ Finset.range c.session.tree.size, c.session.tree.reopened i = 2 ∧
        c.session.issued.map issuedOf = [(referenceOf ⟨false, ["V"], onFirstLine 88 89⟩, some 6)] ∧
        c.session.lastPosition = some 6 := by
  have fresh : (Context.new 0 "main.cpp" reentryText).session = .new 0 := rfl
  obtain ⟨⟨c, r, resolved, known, accounts⟩, _⟩ := resolveNames_accounts fresh readUnit_reentry
  have size : ((Context.new 0 "main.cpp" reentryText).resolveNames reentryUnit).1.session.tree.size
      = 4 := by cbv
  have names : (segments reentryUnit.declarations).length = 5 := by cbv
  have length : (occurrences reentryUnit.declarations).length = 6 := by cbv
  have declared := accounts.declared
  have entered := accounts.names
  have last := accounts.last
  rw [resolved] at size
  rw [size] at declared
  rw [names] at entered
  rw [length] at last
  exact ⟨readUnit_reentry, c, r, resolved, known, by omega, by omega, accounts.imports, last⟩

end Check

end ScopedNames

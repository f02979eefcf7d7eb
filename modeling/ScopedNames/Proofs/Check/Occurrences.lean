import ScopedNames.Proofs.Check.Counting
import ScopedNames.Proofs.Dialect.Exact

set_option autoImplicit false

namespace ScopedNames

namespace Dialect

def Span.Precedes (a b : Span) : Prop := a.stop.offset ≤ b.start.offset

structure Span.Within (a b : Span) : Prop where
  start : b.start.offset ≤ a.start.offset
  stop : a.stop.offset ≤ b.stop.offset

structure Item.Orderly (item : Item) : Prop where
  inside : ∀ part ∈ item.parts, part.Within item.span
  apart : item.parts.Pairwise Span.Precedes

-- The one places are in the other ones, and in the same order; some of these may hold none.
inductive Refines : List Span → List Span → Prop where
  | nil : Refines [] []
  | cons {piece inner outer : List Span} {part : Span} (inside : ∀ span ∈ piece, span.Within part)
      (apart : piece.Pairwise Span.Precedes) (rest : Refines inner outer) :
      Refines (piece ++ inner) (part :: outer)

variable {inner outer inner' outer' : List Span} {a a' b b' : Span}

theorem Span.Precedes.within (before : a.Precedes b) (inside : a'.Within a) (inside' : b'.Within b) :
    a'.Precedes b' :=
  Nat.le_trans inside.stop (Nat.le_trans before inside'.start)

namespace Refines

theorem one (inside : a.Within b) (rest : Refines inner outer) :
    Refines (a :: inner) (b :: outer) := by
  refine cons ?_ (List.pairwise_singleton Span.Precedes a) rest
  intro span same
  rw [List.mem_singleton.1 same]
  exact inside

theorem skip (part : Span) (rest : Refines inner outer) : Refines inner (part :: outer) :=
  cons (List.forall_mem_nil _) .nil rest

theorem self (spans : List Span) : Refines spans spans := by
  induction spans with
  | nil => exact .nil
  | cons span spans ih => exact .one ⟨Nat.le_refl _, Nat.le_refl _⟩ ih

theorem unused (outer : List Span) : Refines [] outer := by
  induction outer with
  | nil => exact .nil
  | cons part outer ih => exact .skip part ih

theorem append (first : Refines inner outer) (second : Refines inner' outer') :
    Refines (inner ++ inner') (outer ++ outer') := by
  induction first with
  | nil => exact second
  | cons inside apart _ ih =>
    rw [List.append_assoc]
    exact .cons inside apart ih

theorem exists_part (refines : Refines inner outer) :
    ∀ span ∈ inner, ∃ part ∈ outer, span.Within part := by
  induction refines with
  | nil => simp
  | cons inside _ _ ih =>
    intro span member
    rcases List.mem_append.1 member with here | later
    · exact ⟨_, List.mem_cons_self, inside span here⟩
    · obtain ⟨part, member, within⟩ := ih span later
      exact ⟨part, List.mem_cons_of_mem _ member, within⟩

theorem apart (refines : Refines inner outer) (apart : outer.Pairwise Span.Precedes) :
    inner.Pairwise Span.Precedes := by
  induction refines with
  | nil => exact .nil
  | cons inside own rest ih =>
    obtain ⟨first, others⟩ := List.pairwise_cons.1 apart
    refine List.pairwise_append.2 ⟨own, ih others, ?_⟩
    intro span member span' member'
    obtain ⟨part, known, within⟩ := rest.exists_part span' member'
    exact (first part known).within (inside span member) within

theorem enclose (item : Item) (refines : Refines inner item.parts) (orderly : item.Orderly)
    (rest : Refines inner' outer) : Refines (inner ++ inner') (item.span :: outer) := by
  refine .cons ?_ (refines.apart orderly.apart) rest
  intro span member
  obtain ⟨part, known, within⟩ := refines.exists_part span member
  have around := orderly.inside part known
  exact ⟨Nat.le_trans around.start within.start, Nat.le_trans within.stop around.stop⟩

end Refines

end Dialect

namespace Check

open Dialect

/-- What a walk makes one call for: a name that it opens, a directive or a well-formed check. -/
inductive Occurrence where
  | name (segment : PathSegment Span)
  | directive (target : QualifiedName Span)
  | check (expected : Expectation) (span : Span) (name : QualifiedName Span)

def Occurrence.span : Occurrence → Span
  | name segment => segment.span
  | directive target => target.span
  | check _ span _ => span

def Occurrence.segment? : Occurrence → Option (PathSegment Span)
  | name segment => some segment
  | directive _ | check _ _ _ => none

def Occurrence.directive? : Occurrence → Option (QualifiedName Span)
  | directive target => some target
  | name _ | check _ _ _ => none

def Occurrence.check? : Occurrence → Option (Expectation × Span × QualifiedName Span)
  | check expected span asked => some (expected, span, asked)
  | name _ | directive _ => none

def segmentsIn : Visit Span → List (PathSegment Span)
  | .enter path _ => path
  | _ => []

def directivesIn : Visit Span → List (QualifiedName Span)
  | .directive target _ => [target]
  | _ => []

def occurrencesIn (v : Visit Span) : List Occurrence :=
  (segmentsIn v).map .name ++ (directivesIn v).map .directive ++
    (checksIn v).map fun (expected, span, name) => .check expected span name

def segments (ds : List (Declaration Span)) : List (PathSegment Span) :=
  (outline ds).flatMap segmentsIn

def directives (ds : List (Declaration Span)) : List (QualifiedName Span) :=
  (outline ds).flatMap directivesIn

def occurrences (ds : List (Declaration Span)) : List Occurrence :=
  (outline ds).flatMap occurrencesIn

variable (ds : List (Declaration Span))

theorem filterMap_occurrences {α : Type} {k : Occurrence → Option α} {f : Visit Span → List α}
    (each : ∀ v, (occurrencesIn v).filterMap k = f v) :
    (occurrences ds).filterMap k = (outline ds).flatMap f := by
  rw [occurrences, List.filterMap_flatMap]
  exact List.flatMap_congr fun v _ => each v

theorem filterMap_segment? : (occurrences ds).filterMap Occurrence.segment? = segments ds :=
  filterMap_occurrences ds fun v => by
    simp [occurrencesIn, List.filterMap_map, Function.comp_def, Occurrence.segment?]

theorem filterMap_directive? :
    (occurrences ds).filterMap Occurrence.directive? = directives ds :=
  filterMap_occurrences ds fun v => by
    simp [occurrencesIn, List.filterMap_map, Function.comp_def, Occurrence.directive?]

theorem filterMap_check? : (occurrences ds).filterMap Occurrence.check? = wellFormedChecks ds :=
  filterMap_occurrences ds fun v => by
    simp [occurrencesIn, List.filterMap_map, Function.comp_def, Occurrence.check?]

theorem length_occurrences :
    (occurrences ds).length =
      (segments ds).length + (directives ds).length + (wellFormedChecks ds).length := by
  rw [occurrences, segments, directives, wellFormedChecks]
  induction outline ds with
  | nil => rfl
  | cons v vs ih =>
    simp only [List.flatMap_cons, List.length_append, ih, occurrencesIn, List.length_map]
    omega

section Order

theorem exists_argument_of_checkOf {a : Attribute Span} {expected : Expectation} {span : Span}
    {name : QualifiedName Span} (asked : checkOf a = some (expected, span, name)) :
    ∃ argument ∈ a.arguments, argument.span = span := by
  unfold checkOf at asked
  split at asked
  · unfold Walk.readCheck at asked
    split at asked <;> cases asked <;> simp_all
  · cases asked

theorem refines_checks {attributes : List (Attribute Span)}
    (orderly : ∀ item ∈ attributes.flatMap Attribute.items, item.Orderly) :
    Refines (((attributes.filterMap checkOf).map fun (expected, span, name) =>
      Occurrence.check expected span name).map Occurrence.span) (attributeSpans attributes) := by
  induction attributes with
  | nil => exact .nil
  | cons a attributes ih =>
    have rest := ih fun item member => orderly item (List.mem_append_right _ member)
    have own : a.item.Orderly := orderly _ (List.mem_append_left _ List.mem_cons_self)
    cases asked : checkOf a with
    | none =>
      rw [List.filterMap_cons_none asked]
      exact .skip a.span rest
    | some check =>
      obtain ⟨expected, span, name⟩ := check
      obtain ⟨argument, member, rfl⟩ := exists_argument_of_checkOf asked
      rw [List.filterMap_cons_some asked]
      exact .one (own.inside _ (List.mem_map_of_mem member)) rest

mutual

theorem refines_visits : ∀ (d : Declaration Span), (∀ item ∈ d.inner, item.Orderly) →
    Refines (((visits d).flatMap occurrencesIn).map Occurrence.span) d.parts
  | .namespaceDefinition path attributes body span, orderly => by
    have within := refines_outline body fun item member =>
      orderly item (List.mem_append_right _ member)
    have named : (path.map Occurrence.name).map Occurrence.span = pathSpans path := by
      rw [List.map_map]
      rfl
    have all := ((Refines.unused (attributeSpans attributes)).append
      (.self (pathSpans path))).append within
    simpa [visits, occurrencesIn, segmentsIn, directivesIn, checksIn, named, occurrences,
      Declaration.parts] using all
  | .usingDirective target attributes span, _ => by
    exact (Refines.unused (attributeSpans attributes)).append (.self [target.span])
  | .attributeDeclaration attributes span, orderly => by
    have all := refines_checks orderly
    simpa [visits, occurrencesIn, segmentsIn, directivesIn, checksIn, Declaration.parts] using all
  | .emptyDeclaration _, _ => .nil

theorem refines_outline : ∀ (ds : List (Declaration Span)), (∀ item ∈ itemsOf ds, item.Orderly) →
    Refines ((occurrences ds).map Occurrence.span) (spansOf ds)
  | [], _ => .nil
  | d :: ds, orderly => by
    have first := refines_visits d fun item member =>
      orderly item (List.mem_append_left _ (List.mem_cons_of_mem _ member))
    have rest := refines_outline ds fun item member =>
      orderly item (List.mem_append_right _ member)
    rw [occurrences, outline, List.flatMap_append, List.map_append]
    exact .enclose d.item first (orderly _ List.mem_cons_self) rest

end

-- The occurrences of a unit that is read are met in the order of the text.
theorem occurrences_pairwise {file source : String} {u : SourceUnit}
    (read : readUnit file source = .ok u) :
    (occurrences u.declarations).Pairwise fun a b => a.span.Precedes b.span := by
  obtain ⟨_, reading, _⟩ := readUnit_eq_ok.1 read
  obtain ⟨tokens, ⟨front, gap, rest, _, tokenized, _⟩, declared⟩ :
      ∃ tokens, TakenApart source.toList tokens ∧ Declared u.declarations tokens :=
    taken_of_readFrom Progress.took_start .nil rfl reading
  obtain ⟨fs, _, makes⟩ := declared.written
  have orderly : ∀ item ∈ itemsOf u.declarations, item.Orderly := by
    intro item member
    obtain ⟨own, inside, placed⟩ := makes.items item member
    have exact := placed.isExact inside tokenized []
    exact ⟨fun part known => ⟨(exact.inside part known).1, (exact.inside part known).2⟩,
      exact.apart⟩
  have apart := makes.parts.apart tokenized.ordered
  exact List.pairwise_map.1 ((refines_outline _ orderly).apart apart)

end Order

end Check

end ScopedNames

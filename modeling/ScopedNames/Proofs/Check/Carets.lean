import ScopedNames.Proofs.Check.Occurrences
import ScopedNames.Proofs.Check.Renumbering
import ScopedNames.Proofs.Check.Verdict
import ScopedNames.Proofs.Diagnostic.Excerpt
import ScopedNames.Proofs.Dialect.Completion
import ScopedNames.Proofs.Dialect.Exact

set_option autoImplicit false

namespace ScopedNames

namespace Dialect

variable {source front rest : List Char} {tokens : List Token} {c : Char} {place : Place}

def Place.Meets (place : Place) (source : List Char) : Prop :=
  ∃ front c back, source = front ++ c :: back ∧ isLayout c = false ∧ place = origin.advance front

def Scan.place? : Scan → Option Place
  | token t _ => some t.span.start
  | misplaced _ place | unknown _ place => some place
  | finished => none

theorem ne_newline_of_solid (solid : isLayout c = false) : c ≠ '\n' := by
  rintro rfl
  cases solid

theorem Settled.solid (settled : Settled (c :: rest)) : isLayout c = false := by
  rw [Bool.eq_false_iff]
  intro layout
  have skipped := settled .origin
  rw [skipLayout_blank _ layout] at skipped
  have shorter := skipLayout_length_le (Place.origin.after c) rest
  rw [skipped, List.length_cons] at shorter
  omega

-- Whatever a scan finds begins behind layout.
theorem meets_of_scan {allowed : List Terminal} {cursor : Cursor}
    (here : cursor.place = Place.origin.advance front)
    (found : (scan allowed cursor).place? = some place) : place.Meets (front ++ cursor.rest) := by
  obtain ⟨gap, rest, split, left⟩ := exists_layout cursor.rest
  rw [scan, split, skipLayout_layout] at found
  rcases left with settled | ⟨body, rfl, single⟩
  · rw [settled] at found
    cases rest with
    | nil => cases found
    | cons c rest =>
      refine ⟨front ++ gap.text, c, rest, by simp [split], settled.solid, ?_⟩
      rw [Place.advance_append, ← here]
      simp only at found
      split at found
      · cases found
        rfl
      · split at found <;> cases found <;> rfl
  · rw [skipLayout_open_line _ single] at found
    cases found

theorem meets_of_readFrom {p : Progress} {cursor : Cursor} {last : Place} {fault : SyntaxFault}
    (here : cursor.place = Place.origin.advance front)
    (begun : p.isComplete = true ∨ last.Meets (front ++ cursor.rest))
    (failed : readFrom p cursor last = .error (fault, place)) :
    place.Meets (front ++ cursor.rest) := by
  fun_induction readFrom p cursor last generalizing front with
  | case1 => cases failed
  | case2 p cursor last scanned unfinished =>
    cases failed
    exact begun.resolve_left unfinished
  | case3 p cursor last c start scanned | case4 p cursor last letters start scanned =>
    cases failed
    exact meets_of_scan here (by rw [scanned]; rfl)
  | case5 p cursor last token behind scanned expected refused =>
    cases failed
    exact meets_of_scan here (by rw [scanned]; rfl)
  | case6 p cursor last token behind scanned p' fed shorter ih =>
    have start := meets_of_scan here (by rw [scanned]; rfl)
    obtain ⟨gap, rest, split, found⟩ := behind_of_scan scanned
    cases found with
    | @token terminal word rest taken =>
      have whole : front ++ cursor.rest = front ++ gap.text ++ word ++ rest := by simp [split]
      rw [whole] at start ⊢
      exact ih (by simp [here, Place.advance_append]) (.inr start) failed

theorem Place.Marks.eq {front back : List Char} (marks : place.Marks (front ++ back))
    (reached : place.offset = front.length) :
    place.line = 1 + front.count '\n' ∧ place.column = 1 + (lastLine front).length := by
  obtain ⟨line, column⟩ := marks
  rw [reached, List.take_left] at line column
  rw [lastLine, List.length_reverse]
  exact ⟨line, column⟩

theorem Place.Meets.points (meets : place.Meets source) (file : String) :
    (place.locate file).Points source := by
  obtain ⟨front, c, back, rfl, solid, rfl⟩ := meets
  obtain ⟨line, column⟩ := (Place.marks_advance front (c :: back)).eq (Place.offset_origin front)
  refine ⟨front, back, [], c, by simp, ne_newline_of_solid solid, ?_, ?_, fun level => ?_⟩
  · simp [Place.locate, line]
  · simp [Place.locate, column]
  · -- A point has no end, so that it does not end on its line.
    simp only [Place.locate] at level
    omega

theorem Span.exists_cut {span : Span} (forward : span.start.offset ≤ span.stop.offset)
    (within : span.stop.offset ≤ source.length) :
    ∃ front back, source = front ++ span.cut source ++ back ∧
      front.length = span.start.offset ∧ (front ++ span.cut source).length = span.stop.offset := by
  have before : (source.take span.stop.offset).take span.start.offset ++ span.cut source =
      source.take span.stop.offset := List.take_append_drop _ _
  refine ⟨(source.take span.stop.offset).take span.start.offset, source.drop span.stop.offset,
    ?_, ?_, ?_⟩
  · rw [before, List.take_append_drop]
  · rw [List.length_take, List.length_take]
    omega
  · rw [before, List.length_take]
    omega

theorem Item.Exact.points {item : Item} (exact : item.Exact source tokens) (file : String) :
    (item.span.locate file).Points source := by
  obtain ⟨filled, within, start, stop, _, solid, _, _⟩ := exact
  obtain ⟨front, back, split, fore, reach⟩ := Span.exists_cut (Nat.le_of_lt filled) within
  cases cut : item.span.cut source with
  | nil =>
    rw [cut, List.append_nil] at reach
    omega
  | cons c own =>
    rw [cut] at split reach
    have clear := ne_newline_of_solid (solid c (.inl (by rw [cut]; rfl)))
    subst split
    obtain ⟨line, column⟩ := stop.eq reach.symm
    rw [List.append_assoc] at start
    obtain ⟨line', column'⟩ := start.eq fore.symm
    refine ⟨front, own, back, c, rfl, clear, ?_, ?_, fun level => ?_⟩
    · simp [Span.locate, line']
    · simp [Span.locate, column']
    · simp only [Span.locate] at level ⊢
      rw [List.length_append] at reach
      have single : '\n' ∉ c :: own := by
        rw [← List.count_eq_zero]
        rw [List.count_append] at line
        omega
      rw [lastLine_append single, List.length_append] at column
      exact ⟨single, by omega, by omega, by omega⟩

end Dialect

namespace Check

open Dialect

section Located

def Demand.LocatedIn (d : Demand) (items : List Item) : Prop := ∃ item ∈ items, item.span = d.span

variable {d : Demand} {items items' : List Item} (s : Session Nat Nat)

theorem Demand.LocatedIn.mono (located : d.LocatedIn items) (more : items ⊆ items') :
    d.LocatedIn items' := by
  obtain ⟨item, member, same⟩ := located
  exact ⟨item, more member, same⟩

theorem use_located (bearer : Bearer) {a : Attribute Span} {attributes : List (Attribute Span)}
    (member : a ∈ attributes) :
    (Demand.use bearer a).LocatedIn (attributes.flatMap Attribute.items) :=
  ⟨a.item, List.mem_flatMap.2 ⟨a, member, List.mem_cons_self⟩, rfl⟩

theorem attributeDemands_located (scope position : Nat) (attributes : List (Attribute Span)) :
    ∀ d ∈ attributeDemands scope position attributes,
      d.LocatedIn (attributes.flatMap Attribute.items) := by
  induction attributes generalizing position with
  | nil => simp [attributeDemands]
  | cons a attributes ih =>
    have later (position : Nat) : ∀ d ∈ attributeDemands scope position attributes,
        d.LocatedIn ((a :: attributes).flatMap Attribute.items) := fun d member =>
      (ih position d member).mono (List.subset_append_right _ _)
    have own := use_located .declaration (List.mem_cons_self (a := a) (l := attributes))
    rw [attributeDemands]
    cases asked : checkOf a with
    | none => exact List.forall_mem_cons.2 ⟨own, later position⟩
    | some parts =>
      obtain ⟨expected, span, name⟩ := parts
      refine List.forall_mem_cons.2 ⟨own, List.forall_mem_cons.2 ⟨?_, later (position + 1)⟩⟩
      obtain ⟨argument, written, same⟩ := exists_argument_of_checkOf asked
      exact ⟨argument.item, List.mem_append_left _ (List.mem_cons_of_mem _
        (List.mem_flatMap.2 ⟨argument, written, List.mem_cons_self⟩)), same⟩

theorem pathItems_spans (path : List (PathSegment Span)) :
    (pathItems path).map (·.span) = path.map (·.span) := by
  cases path with
  | nil => rfl
  | cons first others =>
    simp [pathItems, PathSegment.leadItem, PathSegment.item, Function.comp_def]

theorem pathDemands_spans (scope position : Nat) (path : List (PathSegment Span)) :
    (pathDemands s scope position path).map Demand.span = path.map (·.span) := by
  induction path generalizing scope position with
  | nil => rfl
  | cons segment path ih => rw [pathDemands, List.map_cons, ih]; rfl

theorem pathDemands_located (scope position : Nat) (path : List (PathSegment Span)) :
    ∀ d ∈ pathDemands s scope position path, d.LocatedIn (pathItems path) := by
  intro d member
  have known : d.span ∈ (pathItems path).map (·.span) := by
    rw [pathItems_spans, ← pathDemands_spans s scope position]
    exact List.mem_map_of_mem member
  obtain ⟨item, inside, same⟩ := List.mem_map.1 known
  exact ⟨item, inside, same⟩

mutual

theorem demandsOf_located (scope position : Nat) :
    ∀ ds : List (Declaration Span), ∀ d ∈ demandsOf s scope position ds, d.LocatedIn (itemsOf ds)
  | [] => by simp [demandsOf]
  | e :: ds => by
    intro d member
    rw [demandsOf, List.mem_append] at member
    rw [itemsOf]
    rcases member with first | later
    · exact (demands_located scope position e d first).mono
        (List.Subset.trans (List.subset_append_left _ _) (List.subset_cons_self _ _))
    · exact (demandsOf_located scope _ ds d later).mono
        (List.Subset.trans (List.subset_append_right _ _) (List.subset_cons_self _ _))

theorem demands_located (scope position : Nat) :
    ∀ e : Declaration Span, ∀ d ∈ demands s scope position e, d.LocatedIn e.inner
  | .namespaceDefinition path attributes body _ => by
    intro d member
    rw [demands, List.mem_append, List.mem_append] at member
    rw [Declaration.inner]
    rcases member with (used | kept) | inside
    · obtain ⟨a, written, rfl⟩ := List.mem_map.1 used
      exact (use_located .definition written).mono (by simp)
    · exact (pathDemands_located s scope position path d kept).mono (by simp)
    · exact (demandsOf_located _ _ body d inside).mono (List.subset_append_right _ _)
  | .usingDirective target attributes _ => by
    intro d member
    rw [demands, List.mem_append] at member
    rw [Declaration.inner]
    rcases member with used | sought
    · obtain ⟨a, written, rfl⟩ := List.mem_map.1 used
      exact (use_located .directive written).mono (List.subset_append_left _ _)
    · rw [List.mem_singleton.1 sought]
      exact ⟨target.item, List.mem_append_right _ List.mem_cons_self, rfl⟩
  | .attributeDeclaration attributes _ => attributeDemands_located scope position attributes
  | .emptyDeclaration _ => by simp [demands]

end

end Located

variable {file source : String} {number : Nat} {c : Context} {u : SourceUnit}

-- Whatever is complained of, there is a demand at its place.
theorem exists_demand {w : Walk} {ds : List Demand} {n : Nat}
    (answers : Walk.Answers file w.session ds n (Walk.start (.new number)) w) :
    ∀ d ∈ verdicts w, ∃ demand ∈ ds, d.location = some (demand.span.locate file) := by
  have walked := answers.diagnostics
  have outcomes : w.outcomes = ds.filterMap (Walk.outcomeOf w.session file) := answers.outcomes
  have judged := briefs_judgeAll w.session file ds
  rw [← outcomes] at judged
  have located {d : Diagnostic} {kind : Demand → Bool}
      (said : Walk.brief d ∈
        (Walk.broken w.session (ds.filter kind)).map (Walk.complaintOf w.session file)) :
      ∃ demand ∈ ds, d.location = some (demand.span.locate file) := by
    obtain ⟨demand, member, same⟩ := List.mem_map.1 said
    have asked := List.mem_of_mem_filter (List.mem_of_mem_filter member)
    exact ⟨demand, asked, (congrArg Prod.snd same).symm⟩
  intro d member
  rcases List.mem_append.1 member with direct | late
  · have said := List.mem_map_of_mem (f := Walk.brief) direct
    rw [walked] at said
    exact located said
  · have said := List.mem_map_of_mem (f := Walk.brief) late
    rw [judged] at said
    exact located said

theorem exists_exact (read : readUnit file source = .ok u) :
    ∃ tokens, ∀ item ∈ u.items, item.Exact source.toList tokens := by
  obtain ⟨_, reading, _⟩ := readUnit_eq_ok.1 read
  obtain ⟨tokens, ⟨front, gap, rest, same, tokenized, _⟩, declared⟩ :
      ∃ tokens, TakenApart source.toList tokens ∧ Declared u.declarations tokens :=
    taken_of_readFrom Progress.took_start .nil rfl reading
  refine ⟨tokens, fun item member => ?_⟩
  obtain ⟨own, inside, placed⟩ := placed_of_declared declared item member
  rw [same]
  exact placed.isExact inside tokenized _

theorem points_of_check (checked : check number file source = .ok c) :
    c.sources = [(file, source)] ∧
      ∀ d ∈ c.diagnostics, ∃ l, d.location = some l ∧ l.file = file ∧ l.Points source.toList := by
  cases read : readUnit file source with
  | error fault =>
    cases fault with
    | unnamedFile | overlongInteger => simp [check, read] at checked
    | atPlace fault location =>
      rw [check_of_fault read] at checked
      cases checked
      obtain ⟨place, failed, rfl⟩ := readUnit_eq_error.1 read
      have meets : place.Meets ([] ++ source.toList) := meets_of_readFrom rfl (.inl rfl) failed
      refine ⟨rfl, fun d member => ?_⟩
      rw [List.mem_singleton.1 member]
      exact ⟨_, rfl, rfl, meets.points file⟩
  | ok u =>
    obtain ⟨rfl, _⟩ := named_of_readUnit read
    obtain ⟨w, ran, answers⟩ := exists_answers number read
    obtain ⟨journal, examined⟩ := examine_eq ran source
    rw [check_of_unit read, examined] at checked
    cases checked
    refine ⟨rfl, fun d member => ?_⟩
    obtain ⟨demand, asked, located⟩ := exists_demand answers d member
    obtain ⟨item, inside, same⟩ := demandsOf_located _ _ _ _ demand asked
    obtain ⟨tokens, exact⟩ := exists_exact read
    refine ⟨_, located, rfl, ?_⟩
    rw [← same]
    exact (exact item (List.mem_append_right _ inside)).points u.file

/--
Every diagnostic of a check shows the line that it is about, and below it carets under exactly what
it is about. There is a check of every file that has a name, unless an integer in it is overlong.
-/
theorem carets_underline (number : Nat) (file source : String) :
    (file ≠ "" → ((∃ c, check number file source = .ok c) ↔
        ∀ digits, readUnit file source ≠ .error (.overlongInteger digits))) ∧
      ∀ c, check number file source = .ok c → ∀ d ∈ c.diagnostics,
        ∃ l line k, d.Underlines c.sources l source.toList line k := by
  constructor
  · intro named
    constructor
    · rintro ⟨c, checked⟩
      exact legal_of_check checked
    · intro legal
      obtain ⟨_, _, _, checked⟩ := check_renumbered named legal number
      exact ⟨_, checked⟩
  · intro c checked d member
    obtain ⟨held, points⟩ := points_of_check checked
    obtain ⟨l, located, same, pointed⟩ := points d member
    have found : c.sources.lookup l.file = some source := by simp [held, same]
    exact ⟨l, underlines_of_points located found pointed⟩

-- The brace in the second line is shown with one caret below it.
theorem carets_underline_of_stray :
    ∃ c d, check 0 "main.cpp" strayText = .ok c ∧ c.diagnostics = [d] ∧
      d.Underlines c.sources { file := "main.cpp", line := 2, column := 1 } strayText.toList
        ['}'] 1 := by
  have checked := check_of_fault readUnit_stray 0
  obtain ⟨l, line, k, under⟩ := (carets_underline 0 "main.cpp" strayText).2 _ checked _
    List.mem_cons_self
  refine ⟨_, _, checked, rfl, ?_⟩
  obtain rfl := Option.some.inj under.located
  have second : (sourceLines strayText.toList)[1]? = some ['}'] := by cbv
  obtain rfl := Option.some.inj (second.symm.trans under.whole)
  obtain rfl : k = 1 := by
    have inside : 0 + k ≤ 1 := under.inside
    have := under.marked
    omega
  exact under

end Check

end ScopedNames

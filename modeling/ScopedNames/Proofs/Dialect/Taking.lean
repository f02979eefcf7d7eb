import ScopedNames.Proofs.Dialect.Item

set_option autoImplicit false

namespace ScopedNames.Dialect

open Lexeme (mark word)
open Terminal (marks)

section Taking

def Behind (outer inner : List Token → Prop) (run : List Token) : Prop :=
  ∃ front own, run = front ++ own ∧ outer front ∧ inner own

structure Begun (start : Place) (xs : List Lexeme) (parts : List Span) (items : List Item)
    (run : List Token) : Prop where
  begins : Begins start run
  makes : Makes run xs parts items

def namespaceLexemes (isInline : Bool) : List Lexeme :=
  (if isInline then [mark .inlineWord] else []) ++ [mark .namespaceWord]

def Site.start : Site → Place
  | definition start _ | declaration start => start

def Site.lexemes : Site → List Lexeme
  | definition _ isInline => namespaceLexemes isInline
  | declaration _ => []

def commaEach (xss : List (List Lexeme)) : List Lexeme := xss.flatMap (· ++ [mark .comma])

-- The attributes are those of the specifiers, and lexemes stand before and behind these.
def Specified (start : Place) (attributes : List (Attribute Span)) (specifiers : List Specifier)
    (xs : List Lexeme) (run : List Token) : Prop :=
  attributesOf specifiers = attributes.map Attribute.bare ∧
    Begun start xs (attributeSpans attributes) (attributes.flatMap Attribute.items) run

namespace AttributeList

def Closed (list : AttributeList) (run : List Token) : Prop :=
  ∃ specifiers, specifiers ≠ [] ∧ Specified list.site.start list.attributes specifiers
    (list.site.lexemes ++ specifiers.flatMap specifierLexemes) run

def Open (list : AttributeList) (current : Specifier) (xs : List Lexeme) (run : List Token) :
    Prop :=
  ∃ specifiers, Specified list.site.start list.attributes (specifiers ++ [current])
    (list.site.lexemes ++ specifiers.flatMap specifierLexemes ++ mark .openSpecifier :: xs) run

def Ready (list : AttributeList) (run : List Token) : Prop :=
  ∃ current, list.Open current (commaEach (current.map WrittenAttribute.lexemes)) run

def Filled (list : AttributeList) (run : List Token) : Prop :=
  ∃ current, current ≠ [] ∧
    list.Open current ([mark .comma].intercalate (current.map WrittenAttribute.lexemes)) run

end AttributeList

namespace OpenAttribute

def title (a : OpenAttribute) : List Lexeme :=
  WrittenAttribute.lexemes ⟨a.owner, a.name, none⟩

def Titled (a : OpenAttribute) : List Token → Prop :=
  Behind a.before.Ready fun own =>
    a.arguments = [] ∧ Covers a.span own ∧ Makes own a.title [] []

def bare (a : OpenAttribute) : Attribute Unit :=
  ⟨a.owner, a.name, a.arguments.map Argument.bare, ()⟩

def spans (a : OpenAttribute) : List Span := a.arguments.map (·.span)

def items (a : OpenAttribute) : List Item := a.arguments.flatMap Argument.items

def Open (a : OpenAttribute) (arguments : List WrittenArgument) (xs : List Lexeme) :
    List Token → Prop :=
  Behind a.before.Ready fun own =>
    arguments.map (fun x => ⟨x.value, ()⟩) = a.arguments.map Argument.bare ∧
      Begun a.span.start (a.title ++ mark .leftParen :: xs) a.spans a.items own

def Ready (a : OpenAttribute) (run : List Token) : Prop :=
  ∃ arguments, a.Open arguments (commaEach (arguments.map WrittenArgument.lexemes)) run

def Filled (a : OpenAttribute) (run : List Token) : Prop :=
  ∃ arguments, arguments ≠ [] ∧
    a.Open arguments ([mark .comma].intercalate (arguments.map WrittenArgument.lexemes)) run

def Whole (a : OpenAttribute) : List Token → Prop :=
  Behind a.before.Ready fun own => Covers a.span own ∧
    ∃ written : WrittenAttribute, written.meaning = a.bare ∧
      Makes own written.lexemes a.spans a.items

end OpenAttribute

def UsingRead (start : Place) (attributes : List (Attribute Span)) (xs : List Lexeme)
    (run : List Token) : Prop :=
  ∃ specifiers,
    Specified start attributes specifiers (specifiers.flatMap specifierLexemes ++ xs) run

def NameUse.Ready : NameUse → List Token → Prop
  | directive start attributes => UsingRead start attributes [mark .usingWord, mark .namespaceWord]
  | argument a => a.Ready

def OpenPath.Written (path : OpenPath) (xs : List Lexeme) (run : List Token) : Prop :=
  path.path ≠ [] ∧ ∃ specifiers, attributesOf specifiers = path.attributes.map Attribute.bare ∧
    Begun path.start (definitionHead specifiers (path.path.map PathSegment.bare) ++ xs)
      (attributeSpans path.attributes ++ pathSpans path.path)
      (path.attributes.flatMap Attribute.items ++ pathItems path.path) run

-- What is open inside of something else has tokens of its own behind those of the latter.

/-- The tokens that have been taken of the current declaration. -/
def Phase.Took : Phase → List Token → Prop
  | opening | between => (· = [])
  | inlineRead start => Begun start [mark .inlineWord] [] []
  | namespaceRead start isInline => Begun start (namespaceLexemes isInline) [] []
  | specifierOpen list => list.Open [] []
  | attributeName list name span => OpenAttribute.Titled ⟨list, none, name, [], span⟩
  | attributeOwner list owner start =>
    Behind list.Ready (Begun start [word owner, mark .doubleColon] [] [])
  | attributeNamed a => a.Titled
  | argumentsOpen a => a.Open [] []
  | argumentRead a => a.Filled
  | argumentComma a => a.Ready
  | argumentsClosed a => a.Whole
  | attributeComma list => list.Ready
  | specifierClosed list => list.Closed
  | nameRoot use start => Behind use.Ready (Begun start [mark .doubleColon] [] [])
  | nameRead use q => Behind use.Ready fun own =>
      q.names ≠ [] ∧ Covers q.span own ∧ Makes own q.bare.lexemes [] []
  | nameSeparator use q => Behind use.Ready fun own =>
      q.names ≠ [] ∧ Begun q.span.start (q.bare.lexemes ++ [mark .doubleColon]) [] [] own
  | pathRead path => path.Written []
  | pathSeparator path => path.Written [mark .doubleColon]
  | pathInline path start =>
    Behind (path.Written [mark .doubleColon]) (Begun start [mark .inlineWord] [] [])
  | usingRead start attributes => UsingRead start attributes [mark .usingWord]
  | usingNamespace start attributes =>
    UsingRead start attributes [mark .usingWord, mark .namespaceWord]

-- The tokens of some declarations, from the first one of them to the last one.
structure Declared (ds : List (Declaration Span)) (run : List Token) : Prop where
  begins : ∀ first ∈ ds.head?, Begins first.span.start run
  ends : ∀ last ∈ ds.getLast?, Ends last.span.stop run
  written : ∃ fs, meanings fs = bareAll ds ∧ Makes run (lexemesOf fs) (spansOf ds) (itemsOf ds)

def Enclosed : List OpenDefinition → List Token → Prop
  | [] => (· = [])
  | d :: outer => Behind (Behind (Enclosed outer) (Declared d.before))
      (d.head.Written [mark .leftBrace])

def Progress.Took (p : Progress) : List Token → Prop :=
  Behind (Behind (Enclosed p.enclosing) (Declared p.declared)) p.phase.Took

end Taking

section Lists

variable {α : Type} {m : α} {x : List α} {xss : List (List α)}

theorem intercalate_snoc : [m].intercalate (xss ++ [x]) = xss.flatMap (· ++ [m]) ++ x := by
  induction xss with
  | nil => simp
  | cons y xss ih =>
    rw [List.cons_append, List.intercalate_cons_of_ne_nil (by simp), ih]
    simp

theorem intercalate_append (filled : xss ≠ []) :
    [m].intercalate xss ++ [m] = xss.flatMap (· ++ [m]) := by
  obtain ⟨front, y, rfl⟩ := (List.eq_nil_or_concat' xss).resolve_left filled
  rw [intercalate_snoc]
  simp

end Lists

variable {outer inner inner' : List Token → Prop} {run front own more : List Token}
variable {start : Place} {span : Span} {xs ys : List Lexeme} {parts others : List Span}
variable {items : List Item} {t : Token} {name : String}

namespace Behind

theorem intro (before : outer front) (took : inner own) : Behind outer inner (front ++ own) :=
  ⟨front, own, rfl, before, took⟩

theorem append (behind : Behind outer inner run) (next : ∀ own, inner own → inner' (own ++ more)) :
    Behind outer inner' (run ++ more) := by
  obtain ⟨front, own, rfl, before, took⟩ := behind
  exact ⟨front, own ++ more, List.append_assoc _ _ _, before, next own took⟩

theorem mono (behind : Behind outer inner run) (next : ∀ own, inner own → inner' own) :
    Behind outer inner' run := by
  obtain ⟨front, own, rfl, before, took⟩ := behind
  exact ⟨front, own, rfl, before, next own took⟩

end Behind

namespace Begun

theorem single (x : Lexeme) (span : Span) : Begun span.start [x] [] [] [x.token span] :=
  ⟨begins_cons (t := x.token span), .single _⟩

theorem append {others : List Span} {more : List Item}
    (begun : Begun start xs parts items front) (makes : Makes own ys others more) :
    Begun start (xs ++ ys) (parts ++ others) (items ++ more) (front ++ own) :=
  ⟨begun.begins.append own, begun.makes.append makes⟩

theorem snoc (begun : Begun start xs parts items run) (x : Lexeme) (span : Span) :
    Begun start (xs ++ [x]) parts items (run ++ [x.token span]) :=
  ⟨begun.begins.append _, begun.makes.snoc (x.token span)⟩

theorem covers (begun : Begun start xs parts items run) (x : Lexeme) (span : Span) :
    Covers ⟨start, span.stop⟩ (run ++ [x.token span]) :=
  begun.begins.covers (t := x.token span)

end Begun

namespace AttributeList

variable {list : AttributeList} {current : Specifier}

theorem Open.close
    (opened : list.Open current ([mark .comma].intercalate (current.map WrittenAttribute.lexemes))
      run) : list.Closed (run ++ [(mark .closeSpecifier).token span]) := by
  obtain ⟨specifiers, bare, begun⟩ := opened
  refine ⟨specifiers ++ [current], by simp, bare, ?_⟩
  simpa [specifierLexemes] using begun.snoc (mark .closeSpecifier) span

theorem Filled.close (filled : list.Filled run) :
    list.Closed (run ++ [(mark .closeSpecifier).token span]) := by
  obtain ⟨current, _, opened⟩ := filled
  exact opened.close

theorem Filled.comma (filled : list.Filled run) :
    list.Ready (run ++ [(mark .comma).token span]) := by
  obtain ⟨current, filled, specifiers, bare, begun⟩ := filled
  refine ⟨current, specifiers, bare, ?_⟩
  rw [commaEach, ← intercalate_append (by simpa using filled)]
  simpa using begun.snoc (mark .comma) span

theorem Closed.opens (closed : list.Closed run) :
    list.Open [] [] (run ++ [(mark .openSpecifier).token span]) := by
  obtain ⟨specifiers, _, bare, begun⟩ := closed
  refine ⟨specifiers, ?_, begun.snoc (mark .openSpecifier) span⟩
  simpa [attributesOf] using bare

end AttributeList

namespace OpenAttribute

variable {a : OpenAttribute}

theorem Whole.close (whole : a.Whole run) : a.close.Filled run := by
  obtain ⟨front, own, rfl, ⟨current, specifiers, bare, begun⟩, covers, written, same, makes⟩ :=
    whole
  refine ⟨current ++ [written], by simp, specifiers, ?_, ?_⟩
  · have longer : attributesOf (specifiers ++ [current ++ [written]]) =
        attributesOf (specifiers ++ [current]) ++ [written.meaning] := by simp [attributesOf]
    rw [longer, bare, same]
    simp [close, Attribute.bare, OpenAttribute.bare]
  · let closed : Attribute Span := ⟨a.owner, a.name, a.arguments, a.span⟩
    have item := makes.enclose closed.item rfl covers ⟨written, same, rfl⟩
    rw [List.map_append, List.map_singleton, intercalate_snoc]
    simpa [close, closed, attributeSpans, Attribute.items, Attribute.item, commaEach, items] using
      begun.append item

theorem Open.close {arguments : List WrittenArgument}
    (opened : a.Open arguments
      ([mark .comma].intercalate (arguments.map WrittenArgument.lexemes)) run) :
    OpenAttribute.Whole { a with span := ⟨a.span.start, span.stop⟩ }
      (run ++ [(mark .rightParen).token span]) := by
  refine opened.append fun own ⟨same, begun⟩ => ⟨begun.covers _ span, ?_⟩
  refine ⟨⟨a.owner, a.name, some arguments⟩, ?_, ?_⟩
  · rw [WrittenAttribute.meaning, Option.getD_some, same]
    rfl
  · change Makes _ _ a.spans a.items
    simpa [WrittenAttribute.lexemes, argumentLexemes, title] using
      (begun.snoc (mark .rightParen) span).makes

theorem Filled.close (filled : a.Filled run) :
    OpenAttribute.Whole { a with span := ⟨a.span.start, span.stop⟩ }
      (run ++ [(mark .rightParen).token span]) := by
  obtain ⟨arguments, _, opened⟩ := filled
  exact opened.close

theorem Filled.comma (filled : a.Filled run) : a.Ready (run ++ [(mark .comma).token span]) := by
  obtain ⟨arguments, filled, opened⟩ := filled
  refine ⟨arguments, opened.append fun own ⟨same, begun⟩ => ⟨same, ?_⟩⟩
  rw [commaEach, ← intercalate_append (by simpa using filled)]
  simpa using begun.snoc (mark .comma) span

theorem Ready.addArgument {value : ArgumentValue Span} (ready : a.Ready run)
    (covers : Covers span own) (written : WrittenArgument) (same : written.value = value.bare)
    (makes : Makes own written.lexemes (value.items.map (·.span)) value.items) :
    (a.addArgument value span).Filled (run ++ own) := by
  obtain ⟨arguments, opened⟩ := ready
  refine ⟨arguments ++ [written], by simp, opened.append fun front ⟨old, begun⟩ => ⟨?_, ?_⟩⟩
  · simp [OpenAttribute.addArgument, Argument.bare, same, old]
  · let argument : Argument Span := ⟨value, span⟩
    have item := makes.enclose argument.item rfl covers ⟨written, same, rfl⟩
    rw [List.map_append, List.map_singleton, intercalate_snoc]
    simpa [OpenAttribute.addArgument, argument, spans, items, title, Argument.items, Argument.item,
      commaEach] using begun.append item

theorem Titled.whole (titled : a.Titled run) : a.Whole run := by
  refine Behind.mono titled fun own ⟨empty, covers, makes⟩ =>
    ⟨covers, ⟨a.owner, a.name, none⟩, ?_, ?_⟩
  · simp [WrittenAttribute.meaning, bare, empty]
  · simpa [spans, items, empty, title] using makes

theorem Titled.opens (titled : a.Titled run) :
    a.Open [] [] (run ++ [(mark .leftParen).token span]) := by
  refine Behind.append titled fun own ⟨empty, covers, makes⟩ => ⟨by simp [empty], ?_⟩
  have begun : Begun a.span.start a.title [] [] own := ⟨covers.begins, makes⟩
  simpa [spans, items, empty] using begun.snoc (mark .leftParen) span

end OpenAttribute

section Owners

variable {list : AttributeList} {owner : String}

theorem owner_of_titled
    (titled : (Phase.attributeName list owner span).Took run) {place : Span} :
    (Phase.attributeOwner list owner span.start).Took
      (run ++ [(mark .doubleColon).token place]) := by
  obtain ⟨front, own, rfl, ready, _, covers, makes⟩ := titled
  rw [List.append_assoc]
  exact .intro ready ((Begun.mk covers.begins makes).snoc _ place)

theorem titled_of_owner (owned : (Phase.attributeOwner list owner start).Took run) :
    OpenAttribute.Titled ⟨list, some owner, name, [], ⟨start, span.stop⟩⟩
      (run ++ [(word name).token span]) := by
  obtain ⟨front, own, rfl, ready, begun⟩ := owned
  rw [List.append_assoc]
  exact .intro ready ⟨rfl, begun.covers _ span, (begun.snoc _ span).makes⟩

end Owners

section Names

variable {use : NameUse} {q : QualifiedName Span}

theorem QualifiedName.lexemes_add (filled : q.names ≠ []) (stop : Place) :
    (q.add name stop).bare.lexemes = q.bare.lexemes ++ [mark .doubleColon, word name] := by
  have each : [mark .doubleColon].intercalate (q.names.map fun n => [word n]) ++ _ = _ :=
    intercalate_append (by simpa using filled)
  simp [QualifiedName.add, QualifiedName.bare, QualifiedName.lexemes, intercalate_snoc, ← each]
  rfl

theorem NameUse.Ready.first (ready : use.Ready run) :
    (Phase.nameRead use ⟨false, [name], span⟩).Took (run ++ [(word name).token span]) :=
  .intro ready ⟨by simp, covers_singleton _ span, .single _⟩

theorem nameRead_of_nameRoot (rooted : (Phase.nameRoot use start).Took run) :
    (Phase.nameRead use ⟨true, [name], ⟨start, span.stop⟩⟩).Took
      (run ++ [(word name).token span]) := by
  obtain ⟨front, own, rfl, ready, begun⟩ := rooted
  rw [List.append_assoc]
  exact .intro ready ⟨by simp, begun.covers _ span, (begun.snoc _ span).makes⟩

theorem separator_of_nameRead (named : (Phase.nameRead use q).Took run) :
    (Phase.nameSeparator use q).Took (run ++ [(mark .doubleColon).token span]) := by
  obtain ⟨front, own, rfl, ready, filled, covers, makes⟩ := named
  rw [List.append_assoc]
  exact .intro ready ⟨filled, (Begun.mk covers.begins makes).snoc _ span⟩

theorem nameRead_of_separator (separated : (Phase.nameSeparator use q).Took run) :
    (Phase.nameRead use (q.add name span.stop)).Took (run ++ [(word name).token span]) := by
  obtain ⟨front, own, rfl, ready, filled, begun⟩ := separated
  rw [List.append_assoc]
  refine .intro ready ⟨by simp [QualifiedName.add], begun.covers _ span, ?_⟩
  rw [QualifiedName.lexemes_add filled]
  simpa using (begun.snoc (word name) span).makes

theorem filled_of_nameRead {a : OpenAttribute} (named : (Phase.nameRead (.argument a) q).Took run) :
    (a.addArgument (.name q) q.span).Filled run := by
  obtain ⟨front, own, rfl, ready, _, covers, makes⟩ := named
  exact OpenAttribute.Ready.addArgument ready covers ⟨.name q.bare, 0⟩ rfl
    (makes.enclose q.item rfl covers rfl)

end Names

theorem UsingRead.snoc {attributes : List (Attribute Span)}
    (read : UsingRead start attributes xs run) (x : Lexeme) (span : Span) :
    UsingRead start attributes (xs ++ [x]) (run ++ [x.token span]) := by
  obtain ⟨specifiers, bare, begun⟩ := read
  refine ⟨specifiers, bare, ?_⟩
  simpa using begun.snoc x span

theorem AttributeList.Closed.directive {attributes : List (Attribute Span)}
    (closed : AttributeList.Closed ⟨.declaration start, attributes⟩ run) :
    UsingRead start attributes [mark .usingWord] (run ++ [(mark .usingWord).token span]) := by
  obtain ⟨specifiers, _, bare, begun⟩ := closed
  exact ⟨specifiers, bare, begun.snoc _ span⟩

section Paths

variable {path : OpenPath} {isInline : Bool} {attributes : List (Attribute Span)}

theorem OpenPath.written_first {specifiers : List Specifier}
    (specified : Specified start attributes specifiers
      (namespaceLexemes isInline ++ specifiers.flatMap specifierLexemes) run) :
    OpenPath.Written ⟨start, attributes, [⟨name, isInline, span⟩]⟩ []
      (run ++ [(word name).token span]) := by
  obtain ⟨bare, begun⟩ := specified
  refine ⟨by simp, specifiers, bare, ?_⟩
  have item := (Makes.single ((word name).token span)).enclose
    (PathSegment.leadItem ⟨name, isInline, span⟩) rfl (covers_singleton _ span) rfl
  simpa [definitionHead, namespaceLexemes, inlineLexemes, PathSegment.bare, pathSpans, pathItems,
    PathSegment.leadItem] using begun.append item

theorem written_of_namespaceRead (read : (Phase.namespaceRead start isInline).Took run) :
    OpenPath.Written ⟨start, [], [⟨name, isInline, span⟩]⟩ []
      (run ++ [(word name).token span]) := by
  have begun : Begun start (namespaceLexemes isInline) [] [] run := read
  have specified : Specified start [] [] (namespaceLexemes isInline ++ []) run :=
    ⟨rfl, by simpa [attributeSpans] using begun⟩
  exact OpenPath.written_first specified

theorem written_of_closed
    (closed : AttributeList.Closed ⟨.definition start isInline, attributes⟩ run) :
    OpenPath.Written ⟨start, attributes, [⟨name, isInline, span⟩]⟩ []
      (run ++ [(word name).token span]) := by
  obtain ⟨specifiers, _, bare, begun⟩ := closed
  exact OpenPath.written_first ⟨bare, begun⟩

theorem OpenPath.Written.add (written : path.Written [mark .doubleColon] run)
    (covers : Covers span own)
    (makes : Makes own (inlineLexemes ⟨name, isInline, ()⟩ ++ [word name]) [] []) :
    (path.add name isInline span).Written [] (run ++ own) := by
  obtain ⟨filled, specifiers, bare, begun⟩ := written
  refine ⟨by simp [OpenPath.add], specifiers, bare, ?_⟩
  have item := makes.enclose (PathSegment.item ⟨name, isInline, span⟩) rfl covers rfl
  obtain ⟨first, others, same⟩ := List.exists_cons_of_ne_nil filled
  simpa [OpenPath.add, same, definitionHead, pathSpans, pathItems, PathSegment.bare,
    PathSegment.item] using begun.append item

theorem written_of_pathInline (inlined : (Phase.pathInline path start).Took run) :
    (path.add name true ⟨start, span.stop⟩).Written [] (run ++ [(word name).token span]) := by
  obtain ⟨front, own, rfl, written, begun⟩ := inlined
  -- The word in front is a part of the segment, other than for the first name of a path.
  rw [List.append_assoc]
  exact written.add (begun.covers _ span) (begun.snoc _ span).makes

theorem OpenPath.Written.snoc (written : path.Written [] run) (x : Lexeme) (span : Span) :
    path.Written [x] (run ++ [x.token span]) := by
  obtain ⟨filled, specifiers, bare, begun⟩ := written
  refine ⟨filled, specifiers, bare, ?_⟩
  simpa using begun.snoc x span

end Paths

end ScopedNames.Dialect

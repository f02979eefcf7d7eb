import ScopedNames.Proofs.Dialect.Writing

set_option autoImplicit false

namespace ScopedNames.Dialect

open Lexeme (mark word)
open Terminal (marks)

section Stands

def headKeywords {α : Type} (front : List α) : List Terminal :=
  if front.isEmpty then [] else [.usingWord]

mutual

def AllStand : List Form → Prop
  | [] => True
  | f :: fs => f.Stands ∧ AllStand fs

def Form.Stands : Form → Prop
  | .namespaceDefinition path specifiers body =>
    PathStands (headKeywords specifiers) path ∧ AttributesStand (attributesOf specifiers) ∧
      AllStand body
  | .usingDirective target specifiers =>
    target.Stands [] ∧ AttributesStand (attributesOf specifiers)
  | .attributeDeclaration first others => AttributesStand (attributesOf (first :: others))
  | .emptyDeclaration => True

end

end Stands

variable {p : Progress} {goal : Progress → Prop} {xs : List Lexeme} {φ : Phase}

namespace Progress

section Specifiers

variable {list : AttributeList} {site : Site} {bs : List (Attribute Unit)}

theorem Ending.comma {ψ : Phase} {a : OpenAttribute} (ending : Ending ψ a) :
    .comma ∈ (p.move ψ).allowed ∧ ∀ text span, (p.move ψ).feed ⟨.comma, text, span⟩ =
      .ok (p.move (.attributeComma a.close)) := by
  rcases ending with ⟨⟨⟩⟩ | _ <;> exact ⟨by simp [allowed, move], fun _ _ => rfl⟩

theorem Ending.closeSpecifier {ψ : Phase} {a : OpenAttribute} (ending : Ending ψ a) :
    .closeSpecifier ∈ (p.move ψ).allowed ∧ ∀ text span,
      (p.move ψ).feed ⟨.closeSpecifier, text, span⟩ = .ok (p.move (.specifierClosed a.close)) := by
  rcases ending with ⟨⟨⟩⟩ | _ <;> exact ⟨by simp [allowed, move], fun _ _ => rfl⟩

theorem reads_otherAttributes {ψ : Phase} {a : OpenAttribute} {specifier : Specifier}
    (ending : Ending ψ a) (holds : a.close.Holds site bs)
    (stand : AttributesStand (specifier.map WrittenAttribute.meaning))
    (next : ∀ list : AttributeList,
      list.Holds site (bs ++ specifier.map WrittenAttribute.meaning) →
      (p.move (.specifierClosed list)).Reads goal xs) :
    (p.move ψ).Reads goal
      (specifier.flatMap (mark .comma :: ·.lexemes) ++ mark .closeSpecifier :: xs) := by
  induction specifier generalizing ψ a bs with
  | nil =>
    obtain ⟨listed, fed⟩ := ending.closeSpecifier (p := p)
    refine reads_mark (by decide) listed fun span => ⟨_, fed _ span, next _ ?_⟩
    rwa [List.map_nil, List.append_nil]
  | cons b specifier ih =>
    obtain ⟨listed, fed⟩ := ending.comma (p := p)
    simp only [List.flatMap_cons, List.cons_append, List.append_assoc]
    refine reads_mark (by decide) listed fun span => ⟨_, fed _ span, ?_⟩
    refine reads_attribute (.next _) holds (stand _ List.mem_cons_self)
      fun ψ' a' ending' holds' => ?_
    refine ih ending' holds' (fun _ member => stand _ (List.mem_cons_of_mem _ member)) ?_
    intro list done
    exact next list (by simpa using done)

theorem reads_specifier {specifier : Specifier} (holds : list.Holds site bs)
    (stand : AttributesStand (specifier.map WrittenAttribute.meaning))
    (next : ∀ list : AttributeList,
      list.Holds site (bs ++ specifier.map WrittenAttribute.meaning) →
      (p.move (.specifierClosed list)).Reads goal xs) :
    (p.move (.specifierOpen list)).Reads goal
      ([mark .comma].intercalate (specifier.map WrittenAttribute.lexemes) ++
        mark .closeSpecifier :: xs) := by
  cases specifier with
  | nil =>
    refine reads_mark (by decide) (by simp [allowed, move]) fun _ => ⟨_, rfl, next _ ?_⟩
    rwa [List.map_nil, List.append_nil]
  | cons first others =>
    rw [List.map_cons, intercalate_cons, List.append_assoc, List.flatMap_map]
    refine reads_attribute (.first list) holds (stand _ List.mem_cons_self)
      fun ψ a ending holds' => ?_
    refine reads_otherAttributes ending holds'
      (fun _ member => stand _ (List.mem_cons_of_mem _ member)) fun list' done => ?_
    exact next list' (by simpa using done)

theorem attributesOf_cons (specifier : Specifier) (specifiers : List Specifier) :
    attributesOf (specifier :: specifiers) =
      specifier.map WrittenAttribute.meaning ++ attributesOf specifiers := by
  simp [attributesOf]

theorem reads_otherSpecifiers {specifiers : List Specifier} (holds : list.Holds site bs)
    (stand : AttributesStand (attributesOf specifiers))
    (next : ∀ list : AttributeList, list.Holds site (bs ++ attributesOf specifiers) →
      (p.move (.specifierClosed list)).Reads goal xs) :
    (p.move (.specifierClosed list)).Reads goal (specifiers.flatMap specifierLexemes ++ xs) := by
  induction specifiers generalizing list bs with
  | nil => exact next list (by simpa [attributesOf] using holds)
  | cons specifier specifiers ih =>
    rw [attributesOf_cons] at stand next
    obtain ⟨own, others⟩ := List.forall_mem_append.1 stand
    simp only [List.flatMap_cons, specifierLexemes, List.cons_append, List.append_assoc,
      List.nil_append]
    refine reads_mark (by decide) (by simp [allowed, move]) fun span =>
      ⟨p.move (.specifierOpen list), ?_, ?_⟩
    · obtain ⟨site | site, attributes⟩ := list <;> rfl
    · refine reads_specifier holds own fun list' holds' => ?_
      refine ih holds' others fun list'' done => ?_
      exact next list'' (by rwa [List.append_assoc] at done)

theorem reads_openSpecifiers {first : Specifier} {others : List Specifier}
    (stand : AttributesStand (attributesOf (first :: others)))
    (next : ∀ list : List (Attribute Span),
      list.map Attribute.bare = attributesOf (first :: others) →
      (p.move (.specifierClosed ⟨site, list⟩)).Reads goal xs) :
    (p.move (.specifierOpen ⟨site, []⟩)).Reads goal
      ([mark .comma].intercalate (first.map WrittenAttribute.lexemes) ++
        mark .closeSpecifier :: (others.flatMap specifierLexemes ++ xs)) := by
  rw [attributesOf_cons] at stand next
  obtain ⟨own, rest⟩ := List.forall_mem_append.1 stand
  refine reads_specifier ⟨rfl, rfl⟩ own fun list holds => ?_
  refine reads_otherSpecifiers holds rest fun list' holds' => ?_
  obtain ⟨site', list'⟩ := list'
  obtain ⟨rfl, bare⟩ := holds'
  exact next list' bare

end Specifiers

inductive Ready : Phase → Prop where
  | opening : Ready .opening
  | between : Ready .between

theorem Ready.allowed_of_mem {t : Terminal} (ready : Ready φ) (starts : t ∈ declarationStarts) :
    t ∈ (p.move φ).allowed := by
  cases ready with
  | opening =>
    obtain ⟨enclosing, declared, _⟩ := p
    cases enclosing with
    | nil => exact starts
    | cons => exact List.mem_cons_of_mem _ starts
  | between => exact List.mem_cons_of_mem _ starts

end Progress

structure OpenPath.Holds (path : OpenPath) (attributes : List (Attribute Unit))
    (segments : List (PathSegment Unit)) : Prop where
  attributes : path.attributes.map Attribute.bare = attributes
  segments : path.path.map PathSegment.bare = segments

theorem OpenPath.Holds.add {path : OpenPath} {attributes : List (Attribute Unit)}
    {segments : List (PathSegment Unit)} (holds : path.Holds attributes segments)
    (s : PathSegment Unit) (span : Span) :
    (path.add (String.ofList s.name.toList) s.isInline span).Holds attributes
      (segments ++ [s]) := by
  obtain ⟨rfl, rfl⟩ := holds
  exact ⟨rfl, by simp [OpenPath.add, PathSegment.bare]⟩

namespace Progress

section Definitions

variable {attributes : List (Attribute Unit)} {segments : List (PathSegment Unit)}

theorem reads_segments {path : OpenPath} {others : List (PathSegment Unit)}
    (holds : path.Holds attributes segments) (stand : ∀ s ∈ others, s.Stands)
    (next : ∀ path' : OpenPath, path'.Holds attributes (segments ++ others) →
      (p.move (.pathRead path')).Reads goal xs) :
    (p.move (.pathRead path)).Reads goal
      (others.flatMap (fun s => mark .doubleColon :: inlineLexemes s ++ [word s.name]) ++ xs) := by
  induction others generalizing path segments with
  | nil => exact next path (by rwa [List.append_nil])
  | cons s others ih =>
    -- Where the segment ends it makes no difference whether it is inline.
    have rest (span : Span) : (p.move (.pathRead (path.add (String.ofList s.name.toList)
        s.isInline span))).Reads goal (others.flatMap (fun s =>
          mark .doubleColon :: inlineLexemes s ++ [word s.name]) ++ xs) := by
      refine ih (holds.add s span) (fun _ member => stand _ (List.mem_cons_of_mem _ member)) ?_
      intro path' done
      exact next path' (by simpa using done)
    obtain ⟨letters, free⟩ := stand s List.mem_cons_self
    obtain ⟨name, isInline, place⟩ := s
    simp only [List.flatMap_cons, List.cons_append, List.append_assoc, List.nil_append]
    refine reads_mark (by decide) (by simp [allowed, move]) fun _ => ⟨_, rfl, ?_⟩
    cases isInline with
    | false =>
      refine reads_word (by simp [allowed, move]) letters ((free rfl).mono ?_) fun span =>
        ⟨_, rfl, rest span⟩
      simp [allowed, move, Terminal.keywords]
    | true =>
      refine reads_mark (by decide) (by simp [allowed, move]) fun _ => ⟨_, rfl, ?_⟩
      exact reads_word (by simp [allowed, move]) letters
        (freeOf_of_disjoint (by simp [allowed, move, Terminal.keywords])) fun span =>
          ⟨_, rfl, rest _⟩

inductive PathStart : Phase → Bool → List (Attribute Unit) → List Terminal → Prop where
  | bare (start : Place) (isInline : Bool) :
      PathStart (.namespaceRead start isInline) isInline [] []
  | attributed (start : Place) (isInline : Bool) (list : List (Attribute Span)) :
      PathStart (.specifierClosed ⟨.definition start isInline, list⟩) isInline
        (list.map Attribute.bare) [.usingWord]

theorem reads_path {first : PathSegment Unit} {others : List (PathSegment Unit)}
    {keywords : List Terminal} (begins : PathStart φ first.isInline attributes keywords)
    (stands : PathStands keywords (first :: others))
    (next : ∀ path : OpenPath, path.Holds attributes (first :: others) →
      (p.move (.pathRead path)).Reads goal xs) :
    (p.move φ).Reads goal (word first.name ::
      (others.flatMap (fun s => mark .doubleColon :: inlineLexemes s ++ [word s.name]) ++ xs)) := by
  obtain ⟨letters, free, stand⟩ := stands
  obtain ⟨name, isInline, place⟩ := first
  have begun (start : Place) (list : List (Attribute Span)) (span : Span) :
      (⟨start, list, [⟨String.ofList name.toList, isInline, span⟩]⟩ : OpenPath).Holds
        (list.map Attribute.bare) [⟨name, isInline, place⟩] :=
    ⟨rfl, by simp [PathSegment.bare]⟩
  cases begins with
  | bare start =>
    refine reads_word (by simp [allowed, move]) letters
      (freeOf_of_disjoint (by simp [allowed, move, Terminal.keywords])) fun span => ⟨_, rfl, ?_⟩
    exact reads_segments (begun start [] span) stand next
  | attributed start _ list =>
    refine reads_word (by simp [allowed, move]) letters (free.mono ?_) fun span => ⟨_, rfl, ?_⟩
    · simp [allowed, move, Terminal.keywords]
    · exact reads_segments (begun start list span) stand next

theorem reads_definitionHead {path : List (PathSegment Unit)} {specifiers : List Specifier}
    (ready : Ready φ) (stands : PathStands (headKeywords specifiers) path)
    (attributes : AttributesStand (attributesOf specifiers))
    (next : ∀ path' : OpenPath, path'.Holds (attributesOf specifiers) path →
      (p.move (.pathRead path')).Reads goal xs) :
    (p.move φ).Reads goal (definitionHead specifiers path ++ xs) := by
  cases path with
  | nil => exact stands.elim
  | cons first others =>
    -- What follows the keyword does not depend on what was in front of it.
    have rest (start : Place) : (p.move (.namespaceRead start first.isInline)).Reads goal
        (specifiers.flatMap specifierLexemes ++ (word first.name :: (others.flatMap (fun s =>
          mark .doubleColon :: inlineLexemes s ++ [word s.name]) ++ xs))) := by
      cases specifiers with
      | nil => exact reads_path (.bare start _) stands next
      | cons specifier specifiers =>
        simp only [List.flatMap_cons, specifierLexemes, List.cons_append, List.append_assoc,
          List.nil_append]
        refine reads_mark (by decide) (by simp [allowed, move]) fun _ => ⟨_, rfl, ?_⟩
        refine reads_openSpecifiers attributes fun list bare => ?_
        rw [← bare] at next
        exact reads_path (.attributed start _ list) stands next
    have listed {t : Terminal} (starts : t ∈ declarationStarts) : t ∈ (p.move φ).allowed :=
      ready.allowed_of_mem starts
    obtain ⟨name, isInline, place⟩ := first
    simp only [definitionHead, List.cons_append, List.append_assoc]
    cases isInline with
    | false =>
      refine reads_mark (by decide) (listed (by decide)) fun span =>
        ⟨p.move (.namespaceRead span.start false), ?_, rest span.start⟩
      cases ready <;> rfl
    | true =>
      refine reads_mark (by decide) (listed (by decide)) fun span =>
        ⟨p.move (.inlineRead span.start), ?_, ?_⟩
      · cases ready <;> rfl
      · exact reads_mark (by decide) (by simp [allowed, move]) fun _ => ⟨_, rfl, rest span.start⟩

end Definitions

section Declarations

theorem reads_leadingSpecifiers {first : Specifier} {others : List Specifier} (ready : Ready φ)
    (stand : AttributesStand (attributesOf (first :: others)))
    (next : ∀ start list, list.map Attribute.bare = attributesOf (first :: others) →
      (p.move (.specifierClosed ⟨.declaration start, list⟩)).Reads goal xs) :
    (p.move φ).Reads goal ((first :: others).flatMap specifierLexemes ++ xs) := by
  simp only [List.flatMap_cons, specifierLexemes, List.cons_append, List.append_assoc,
    List.nil_append]
  refine reads_mark (by decide) (ready.allowed_of_mem (by decide)) fun span =>
    ⟨p.move (.specifierOpen ⟨.declaration span.start, []⟩), ?_, ?_⟩
  · cases ready <;> rfl
  · exact reads_openSpecifiers stand fun list bare => next span.start list bare

theorem reads_directive {start : Place} {list : List (Attribute Span)} {q : QualifiedName Unit}
    (stands : q.Stands [])
    (next : ∀ target : QualifiedName Span, target.bare = q →
      (p.move (.nameRead (.directive start list) target)).Reads goal xs) :
    (p.move (.usingRead start list)).Reads goal (mark .namespaceWord :: (q.lexemes ++ xs)) := by
  refine reads_mark (by decide) (by simp [allowed, move]) fun _ => ⟨_, rfl, ?_⟩
  refine reads_qualifiedName (.directive start list) (stands.mono ?_) next
  simp [allowed, move, Terminal.keywords]

def Declares (declared : List (Declaration Span)) (more : List (Declaration Unit))
    (ds : List (Declaration Span)) : Prop := bareAll ds = bareAll declared ++ more

theorem declares_one {declared : List (Declaration Span)} {d : Declaration Span}
    {e : Declaration Unit} (same : d.bare = e) : Declares declared [e] (declared ++ [d]) := by
  rw [Declares, bareAll_append, bareAll, bareAll, same]

mutual

theorem reads_form {enclosing : List OpenDefinition} {declared : List (Declaration Span)}
    {φ : Phase} {xs : List Lexeme} {f : Form} (ready : Ready φ) (stands : f.Stands)
    (next : ∀ ds, Declares declared [f.meaning] ds →
      (⟨enclosing, ds, .between⟩ : Progress).Reads goal xs) :
    (⟨enclosing, declared, φ⟩ : Progress).Reads goal (f.lexemes ++ xs) := by
  let p : Progress := ⟨enclosing, declared, φ⟩
  have listed {t : Terminal} (starts : t ∈ declarationStarts) : t ∈ (p.move φ).allowed :=
    ready.allowed_of_mem starts
  cases f with
  | namespaceDefinition path specifiers body =>
    obtain ⟨stands, attributes, inside⟩ := stands
    simp only [Form.lexemes, List.append_assoc, List.cons_append, List.nil_append]
    refine reads_definitionHead (p := p) ready stands attributes fun head holds => ?_
    refine reads_mark (by decide) (by simp [allowed, move]) fun _ => ⟨_, rfl, ?_⟩
    -- What is declared outside waits with the head of the definition until the body ends.
    refine reads_forms .opening inside fun ds ψ ready' declares => ?_
    refine reads_mark (by decide) ?_ fun span =>
      ⟨⟨enclosing, declared ++ [.namespaceDefinition head.path head.attributes ds
        ⟨head.start, span.stop⟩], .between⟩, ?_, next _ (declares_one ?_)⟩
    · cases ready' <;> simp [allowed]
    · cases ready' <;> rfl
    · rw [Declaration.bare, holds.attributes, holds.segments, declares]
      rfl
  | usingDirective target specifiers =>
    obtain ⟨stands, attributes⟩ := stands
    have rest (start : Place) (list : List (Attribute Span))
        (same : list.map Attribute.bare = attributesOf specifiers) :
        (p.move (.usingRead start list)).Reads goal
          (mark .namespaceWord :: (target.lexemes ++ mark .semicolon :: xs)) := by
      refine reads_directive stands fun target' named => ?_
      refine reads_mark (by decide) (by simp [allowed, move]) fun _ => ⟨_, rfl, ?_⟩
      refine next _ (declares_one ?_)
      rw [Declaration.bare, named, same]
      rfl
    simp only [Form.lexemes, List.append_assoc, List.cons_append, List.nil_append]
    cases specifiers with
    | nil =>
      refine reads_mark (by decide) (listed (by decide)) fun span =>
        ⟨p.move (.usingRead span.start []), ?_, rest _ _ rfl⟩
      cases ready <;> rfl
    | cons first others =>
      refine reads_leadingSpecifiers (p := p) ready attributes fun start list same => ?_
      exact reads_mark (by decide) (by simp [allowed, move]) fun _ => ⟨_, rfl, rest start list same⟩
  | attributeDeclaration first others =>
    simp only [Form.lexemes, List.append_assoc, List.cons_append, List.nil_append]
    refine reads_leadingSpecifiers (p := p) ready stands fun start list same => ?_
    refine reads_mark (by decide) (by simp [allowed, move]) fun _ => ⟨_, rfl, ?_⟩
    refine next _ (declares_one ?_)
    rw [Declaration.bare, same]
    rfl
  | emptyDeclaration =>
    refine reads_mark (by decide) (listed (by decide)) fun span =>
      ⟨p.declare (.emptyDeclaration span), ?_, next _ (declares_one rfl)⟩
    cases ready <;> rfl

theorem reads_forms {enclosing : List OpenDefinition} {declared : List (Declaration Span)}
    {φ : Phase} {xs : List Lexeme} {fs : List Form} (ready : Ready φ) (stand : AllStand fs)
    (next : ∀ ds ψ, Ready ψ → Declares declared (meanings fs) ds →
      (⟨enclosing, ds, ψ⟩ : Progress).Reads goal xs) :
    (⟨enclosing, declared, φ⟩ : Progress).Reads goal (lexemesOf fs ++ xs) := by
  cases fs with
  | nil => exact next declared φ ready (by rw [Declares, meanings, List.append_nil])
  | cons f fs =>
    rw [lexemesOf, List.append_assoc]
    refine reads_form ready stand.1 fun ds first => ?_
    refine reads_forms .between stand.2 fun es ψ ready' others => ?_
    refine next es ψ ready' ?_
    rw [Declares, others, first, List.append_assoc, meanings]
    rfl

end

end Declarations

end Progress

-- Forms that stand are read back, whatever is between their tokens.
theorem readDeclarations_weave {fs : List Form} {spaced : List (Layout × Lexeme)}
    (stand : AllStand fs) (written : spaced.map (·.2) = lexemesOf fs)
    (apart : ∀ x ∈ spaced.tail, x.1 ≠ []) (last : Layout) :
    ∃ ds, readDeclarations (String.ofList (weave spaced last)) = .ok ds ∧
      bareAll ds = meanings fs ∧ literalsOf ds = (lexemesOf fs).filterMap Lexeme.literal? := by
  have reads : Progress.start.Reads
      (fun p => p.isComplete = true ∧ bareAll p.declared = meanings fs) (lexemesOf fs ++ []) := by
    refine Progress.reads_forms .opening stand fun ds ψ ready declares => ⟨?_, declares⟩
    cases ready <;> rfl
  rw [List.append_nil, ← written] at reads
  rw [← written]
  exact Progress.Reads.readDeclarations_eq (P := fun ds => bareAll ds = meanings fs) reads apart last

end ScopedNames.Dialect

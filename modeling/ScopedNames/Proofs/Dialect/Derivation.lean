import ScopedNames.Proofs.Dialect.Taking
import ScopedNames.Proofs.Dialect.Writing

set_option autoImplicit false

namespace ScopedNames.Dialect

open Lexeme (mark word)
open Terminal (marks)

variable {p p' : Progress} {phase : Phase} {run front own : List Token} {token : Token}
variable {letters digits : List Char} {span : Span} {start : Place} {d : Declaration Span}
variable {t : Terminal} {ds : List (Declaration Span)} {list : List (Attribute Span)}

def Declaration.Took (d : Declaration Span) (run : List Token) : Prop :=
  Covers d.span run ∧ ∃ f : Form, f.meaning = d.bare ∧ Makes run f.lexemes d.parts d.inner

theorem Declared.eq_nil (declared : Declared [] run) : run = [] := by
  obtain ⟨fs, same, makes⟩ := declared.written
  cases fs with
  | nil => exact List.map_eq_nil_iff.1 makes.lexemes
  | cons => cases same

theorem Declared.snoc (declared : Declared ds front) (took : d.Took own) :
    Declared (ds ++ [d]) (front ++ own) := by
  obtain ⟨covers, f, meaning, whole⟩ := took
  refine ⟨?_, ?_, ?_⟩
  · intro first found
    cases ds with
    | nil =>
      -- Nothing stands in front of the first declaration.
      cases found
      rw [declared.eq_nil]
      exact covers.begins
    | cons e ds => exact (declared.begins first found).append own
  · intro last found
    rw [List.getLast?_concat] at found
    cases found
    exact covers.ends.prepend front
  · obtain ⟨fs, same, makes⟩ := declared.written
    refine ⟨fs ++ [f], ?_, ?_⟩
    · rw [meanings_append, bareAll_append, same, meanings, meanings, bareAll, bareAll, meaning]
    · have item := makes.append (whole.enclose d.item rfl covers ⟨f, meaning, rfl⟩)
      simpa [lexemesOf_append, lexemesOf, spansOf, itemsOf_append, itemsOf, Declaration.item] using
        item

theorem directive_of_nameRead {q : QualifiedName Span}
    (named : (Phase.nameRead (.directive start list) q).Took run) :
    (Declaration.usingDirective q list ⟨start, span.stop⟩).Took
      (run ++ [(mark .semicolon).token span]) := by
  obtain ⟨front, own, rfl, ⟨specifiers, bare, begun⟩, _, covers, makes⟩ := named
  have whole := begun.append (makes.enclose q.item rfl covers rfl)
  refine ⟨whole.covers _ span, .usingDirective q.bare specifiers, ?_, ?_⟩
  · rw [Form.meaning, Declaration.bare, bare]
  · simpa [Form.lexemes, Declaration.parts, Declaration.inner, QualifiedName.item] using
      (whole.snoc (mark .semicolon) span).makes

theorem declaration_of_closed
    (closed : AttributeList.Closed ⟨.declaration start, list⟩ run) :
    (Declaration.attributeDeclaration list ⟨start, span.stop⟩).Took
      (run ++ [(mark .semicolon).token span]) := by
  obtain ⟨specifiers, filled, bare, begun⟩ := closed
  obtain ⟨first, others, rfl⟩ := List.exists_cons_of_ne_nil filled
  refine ⟨begun.covers _ span, .attributeDeclaration first others, ?_, ?_⟩
  · rw [Form.meaning, Declaration.bare, bare]
  · exact (begun.snoc _ span).makes

theorem declared_nil : Declared [] [] := ⟨by simp, by simp, [], rfl, .nil⟩

namespace Progress

theorem Took.move (took : p.Took run)
    (next : ∀ own, p.phase.Took own → phase.Took (own ++ [token])) :
    (p.move phase).Took (run ++ [token]) :=
  Behind.append took next

theorem Took.declare (took : p.Took run)
    (last : ∀ own, p.phase.Took own → d.Took (own ++ [token])) :
    (p.declare d).Took (run ++ [token]) := by
  obtain ⟨_, own, rfl, ⟨outside, old, rfl, enclosed, declared⟩, took⟩ := took
  exact ⟨outside ++ (old ++ (own ++ [token])), [], by simp,
    .intro enclosed (declared.snoc (last own took)), rfl⟩

theorem Took.openBody {path : OpenPath} (took : p.Took run) (reads : p.phase = .pathRead path) :
    (⟨⟨path, p.declared⟩ :: p.enclosing, [], .opening⟩ : Progress).Took
      (run ++ [(mark .leftBrace).token span]) := by
  obtain ⟨outside, own, rfl, around, written⟩ := took
  rw [reads] at written
  have enclosed : Enclosed (⟨path, p.declared⟩ :: p.enclosing)
      (outside ++ (own ++ [(mark .leftBrace).token span])) :=
    .intro around (OpenPath.Written.snoc written _ span)
  exact ⟨_, [], by simp, ⟨_, [], (List.append_nil _).symm, enclosed, declared_nil⟩, rfl⟩

theorem Took.close {head : OpenPath} {before : List (Declaration Span)}
    {outer : List OpenDefinition} (took : p.Took run) (ready : p.phase.Took = (· = []))
    (inside : p.enclosing = ⟨head, before⟩ :: outer) :
    (⟨outer, before ++ [.namespaceDefinition head.path head.attributes p.declared
      ⟨head.start, span.stop⟩], .between⟩ : Progress).Took
      (run ++ [(mark .rightBrace).token span]) := by
  obtain ⟨_, own, rfl, ⟨_, body, rfl, enclosed, _, _, fs, same, makes⟩, took⟩ := took
  rw [ready] at took
  rw [inside] at enclosed
  obtain ⟨_, heading, rfl, ⟨outside, old, rfl, around, declared⟩, _, specifiers, bare, begun⟩ :=
    enclosed
  subst took
  have whole := (begun.append makes).snoc (mark .rightBrace) span
  refine ⟨outside ++ (old ++ (heading ++ body ++ [(mark .rightBrace).token span])), [], by simp,
    .intro around (declared.snoc ⟨?_, ?_⟩), rfl⟩
  · exact (begun.append makes).covers _ span
  · refine ⟨.namespaceDefinition (head.path.map PathSegment.bare) specifiers fs, ?_, ?_⟩
    · rw [Form.meaning, Declaration.bare, bare, same]
    · simpa [Form.lexemes, Declaration.parts, Declaration.inner] using whole.makes

theorem Took.feed_name (took : p.Took run) (fed : p.feed ⟨.name, letters, span⟩ = .ok p') :
    p'.Took (run ++ [⟨.name, letters, span⟩]) := by
  obtain ⟨enclosing, declared, phase⟩ := p
  have same : (⟨.name, letters, span⟩ : Token) = (word (String.ofList letters)).token span := by
    simp [word, Lexeme.token]
  rw [same]
  cases phase with
  | namespaceRead start isInline =>
    cases fed
    exact took.move fun own read => written_of_namespaceRead read
  | specifierOpen list =>
    cases fed
    exact took.move fun own opened => .intro ⟨[], opened⟩ ⟨rfl, covers_singleton _ span, .single _⟩
  | attributeComma list =>
    cases fed
    exact took.move fun own ready => .intro ready ⟨rfl, covers_singleton _ span, .single _⟩
  | attributeOwner list owner start =>
    cases fed
    exact took.move fun own owned => titled_of_owner owned
  | argumentsOpen a =>
    cases fed
    exact took.move fun own opened => NameUse.Ready.first ⟨[], opened⟩
  | argumentComma a =>
    cases fed
    exact took.move fun own ready => NameUse.Ready.first ready
  | specifierClosed list =>
    obtain ⟨site | site, attributes⟩ := list
    · cases fed
      exact took.move fun own closed => written_of_closed closed
    · cases fed
  | nameRoot use start =>
    cases fed
    exact took.move fun own rooted => nameRead_of_nameRoot rooted
  | nameSeparator use q =>
    cases fed
    exact took.move fun own separated => nameRead_of_separator separated
  | pathSeparator path =>
    cases fed
    exact took.move fun own written => written.add (covers_singleton _ span) (.single _)
  | pathInline path start =>
    cases fed
    exact took.move fun own inlined => written_of_pathInline inlined
  | usingNamespace start attributes =>
    cases fed
    exact took.move fun own ready => NameUse.Ready.first ready
  | _ => cases fed

theorem Took.feed_digits (took : p.Took run) (filled : digits ≠ [])
    (all : ∀ c ∈ digits, c.isDigit = true) (fed : p.feed ⟨.int, digits, span⟩ = .ok p') :
    p'.Took (run ++ [⟨.int, digits, span⟩]) := by
  obtain ⟨zeros, same⟩ := exists_zeros filled all
  have spelt : WrittenArgument.lexemes ⟨.int (digitsValue digits), zeros⟩ = [⟨.int, digits⟩] :=
    congrArg (fun text => [(⟨.int, text⟩ : Lexeme)]) same.symm
  have makes : Makes [⟨.int, digits, span⟩]
      (WrittenArgument.lexemes ⟨.int (digitsValue digits), zeros⟩) [] [] := spelt ▸ .single _
  have added (a : OpenAttribute) (own : List Token) (ready : a.Ready own) :
      (a.addArgument (.int (digitsValue digits)) span).Filled (own ++ [⟨.int, digits, span⟩]) :=
    ready.addArgument (covers_singleton ⟨.int, digits⟩ span) ⟨_, zeros⟩ rfl makes
  obtain ⟨enclosing, declared, phase⟩ := p
  cases phase with
  | argumentsOpen a =>
    cases fed
    exact took.move fun own opened => added a own ⟨[], opened⟩
  | argumentComma a =>
    cases fed
    exact took.move fun own ready => added a own ready
  | specifierClosed list =>
    obtain ⟨site | site, attributes⟩ := list <;> cases fed
  | nameRead use q => cases use <;> cases fed
  | _ => cases fed

theorem Took.feed_mark (took : p.Took run) (known : t ∈ marks)
    (fed : p.feed ((mark t).token span) = .ok p') : p'.Took (run ++ [(mark t).token span]) := by
  have other : t ≠ .name ∧ t ≠ .int := by
    constructor <;> rintro rfl <;> exact absurd known (by decide)
  obtain ⟨enclosing, declared, phase⟩ := p
  cases phase with
  | opening | between =>
    cases t with
    | semicolon =>
      cases fed
      refine took.declare fun own empty => ?_
      rw [show own = [] from empty]
      exact ⟨covers_singleton _ span, .emptyDeclaration, rfl, .single _⟩
    | inlineWord | namespaceWord =>
      cases fed
      refine took.move fun own empty => ?_
      rw [show own = [] from empty]
      exact .single _ span
    | usingWord | openSpecifier =>
      cases fed
      refine took.move fun own empty => ?_
      rw [show own = [] from empty]
      exact ⟨[], rfl, .single _ span⟩
    | rightBrace =>
      cases enclosing with
      | nil => cases fed
      | cons outer more =>
        cases fed
        exact took.close rfl rfl
    | _ => cases fed
  | inlineRead start =>
    cases t <;> cases fed
    exact took.move fun own begun => begun.snoc _ span
  | namespaceRead start isInline =>
    cases t with
    | openSpecifier =>
      cases fed
      refine took.move fun own (begun : Begun start _ [] [] own) => ⟨[], rfl, ?_⟩
      simpa [attributeSpans, Site.start, Site.lexemes] using begun.snoc _ span
    | name => exact absurd rfl other.1
    | _ => cases fed
  | specifierOpen list =>
    cases t with
    | closeSpecifier =>
      cases fed
      exact took.move fun own opened => AttributeList.Open.close opened
    | name => exact absurd rfl other.1
    | _ => cases fed
  | attributeName list name nameSpan =>
    cases t with
    | doubleColon =>
      -- The name turns out to be that of an owner, and the attribute to be still open.
      cases fed
      exact took.move fun own titled => owner_of_titled titled
    | leftParen =>
      cases fed
      exact took.move fun own titled => OpenAttribute.Titled.opens titled
    | comma =>
      cases fed
      exact took.move fun own titled => (OpenAttribute.Titled.whole titled).close.comma
    | closeSpecifier =>
      cases fed
      exact took.move fun own titled => (OpenAttribute.Titled.whole titled).close.close
    | _ => cases fed
  | attributeNamed a =>
    cases t with
    | leftParen =>
      cases fed
      exact took.move fun own titled => OpenAttribute.Titled.opens titled
    | comma =>
      cases fed
      exact took.move fun own titled => (OpenAttribute.Titled.whole titled).close.comma
    | closeSpecifier =>
      cases fed
      exact took.move fun own titled => (OpenAttribute.Titled.whole titled).close.close
    | _ => cases fed
  | argumentsClosed a =>
    cases t with
    | comma =>
      cases fed
      exact took.move fun own whole => (OpenAttribute.Whole.close whole).comma
    | closeSpecifier =>
      cases fed
      exact took.move fun own whole => (OpenAttribute.Whole.close whole).close
    | _ => cases fed
  | argumentsOpen a =>
    cases t with
    | trueWord | falseWord =>
      cases fed
      exact took.move fun own opened => OpenAttribute.Ready.addArgument ⟨[], opened⟩
        (covers_singleton _ span) ⟨_, 0⟩ rfl (.single _)
    | doubleColon =>
      cases fed
      exact took.move fun own opened => .intro ⟨[], opened⟩ (.single _ span)
    | rightParen =>
      cases fed
      exact took.move fun own opened => OpenAttribute.Open.close opened
    | name => exact absurd rfl other.1
    | int => exact absurd rfl other.2
    | _ => cases fed
  | argumentComma a =>
    cases t with
    | trueWord | falseWord =>
      cases fed
      exact took.move fun own ready => OpenAttribute.Ready.addArgument ready
        (covers_singleton _ span) ⟨_, 0⟩ rfl (.single _)
    | doubleColon =>
      cases fed
      exact took.move fun own ready => .intro ready (.single _ span)
    | name => exact absurd rfl other.1
    | int => exact absurd rfl other.2
    | _ => cases fed
  | argumentRead a =>
    cases t with
    | comma =>
      cases fed
      exact took.move fun own filled => OpenAttribute.Filled.comma filled
    | rightParen =>
      cases fed
      exact took.move fun own filled => OpenAttribute.Filled.close filled
    | _ => cases fed
  | specifierClosed list =>
    obtain ⟨site | site, attributes⟩ := list
    · cases t with
      | openSpecifier =>
        cases fed
        exact took.move fun own closed => AttributeList.Closed.opens closed
      | name => exact absurd rfl other.1
      | _ => cases fed
    · cases t with
      | openSpecifier =>
        cases fed
        exact took.move fun own closed => AttributeList.Closed.opens closed
      | usingWord =>
        cases fed
        exact took.move fun own closed => closed.directive
      | semicolon =>
        cases fed
        exact took.declare fun own closed => declaration_of_closed closed
      | _ => cases fed
  | nameRead use q =>
    cases use with
    | directive start attributes =>
      cases t with
      | doubleColon =>
        cases fed
        exact took.move fun own named => separator_of_nameRead named
      | semicolon =>
        cases fed
        exact took.declare fun own named => directive_of_nameRead named
      | _ => cases fed
    | argument a =>
      cases t with
      | doubleColon =>
        cases fed
        exact took.move fun own named => separator_of_nameRead named
      | comma =>
        cases fed
        exact took.move fun own named => (filled_of_nameRead named).comma
      | rightParen =>
        cases fed
        exact took.move fun own named => (filled_of_nameRead named).close
      | _ => cases fed
  | pathRead path =>
    cases t with
    | doubleColon =>
      cases fed
      exact took.move fun own written => written.snoc _ span
    | leftBrace =>
      cases fed
      exact took.openBody rfl
    | _ => cases fed
  | pathSeparator path =>
    cases t with
    | inlineWord =>
      cases fed
      exact took.move fun own written => .intro written (.single _ span)
    | name => exact absurd rfl other.1
    | _ => cases fed
  | usingRead start attributes =>
    cases t <;> cases fed
    exact took.move fun own read => UsingRead.snoc read _ span
  | usingNamespace start attributes =>
    cases t with
    | doubleColon =>
      cases fed
      exact took.move fun own ready => .intro ready (.single _ span)
    | name => exact absurd rfl other.1
    | _ => cases fed
  -- Nothing but a name is taken elsewhere.
  | _ => cases t <;> first | exact absurd rfl other.1 | cases fed

theorem Took.feed {x : Lexeme} (took : p.Took run) (known : x.Known)
    (fed : p.feed (x.token span) = .ok p') : p'.Took (run ++ [x.token span]) := by
  cases known with
  | word all => exact took.feed_name fed
  | digits filled all => exact took.feed_digits filled all fed
  | mark known => exact took.feed_mark known fed

theorem took_start : Progress.start.Took [] := ⟨[], [], rfl, ⟨[], [], rfl, rfl, declared_nil⟩, rfl⟩

theorem Took.complete (took : p.Took run) (complete : p.isComplete = true) :
    Declared p.declared run := by
  obtain ⟨enclosing, declared, phase⟩ := p
  obtain ⟨_, own, rfl, ⟨outside, old, rfl, enclosed, whole⟩, took⟩ := took
  cases enclosing with
  | cons => cases complete
  | nil =>
    rw [show outside = [] from enclosed, List.nil_append]
    cases phase with
    | opening | between =>
      rw [show own = [] from took, List.append_nil]
      exact whole
    | _ => cases complete

end Progress

end ScopedNames.Dialect

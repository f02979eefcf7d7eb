import ScopedNames.Proofs.Dialect.Declaring
import ScopedNames.Proofs.Dialect.Surrounding

set_option autoImplicit false

namespace ScopedNames.Dialect

variable {σ : Type}

section Standing

-- Every name could be read where a canonical text has it.
def Visit.Stands : Visit σ → Prop
  | enter path list => PathStands (headKeywords list) path ∧ AttributesStand list
  | directive target list => target.Stands [] ∧ AttributesStand list
  | attributes list => AttributesStand list
  | leave _ | empty => True

def Standing (ds : List (Declaration σ)) : Prop := ∀ v ∈ outline ds, v.Stands

structure OpenAttribute.Stands (a : OpenAttribute) : Prop where
  before : AttributesStand a.before.attributes
  owner : ∀ owner ∈ a.owner, IsWord owner.toList
  name : IsWord a.name.toList
  arguments : ∀ argument ∈ a.arguments, argument.value.Stands

def NameUse.keywords : NameUse → List Terminal
  | directive _ _ => []
  | argument _ => [.trueWord, .falseWord]

def NameUse.Stands : NameUse → Prop
  | directive _ list => AttributesStand list
  | argument a => a.Stands

structure OpenPath.Stands (p : OpenPath) : Prop where
  path : PathStands (headKeywords p.attributes) p.path
  attributes : AttributesStand p.attributes

def Phase.Stands : Phase → Prop
  | opening | between | inlineRead _ | namespaceRead _ _ => True
  | specifierOpen list | attributeComma list | specifierClosed list =>
    AttributesStand list.attributes
  | attributeName list name _ | attributeOwner list name _ =>
    AttributesStand list.attributes ∧ IsWord name.toList
  | attributeNamed a | argumentsOpen a | argumentRead a | argumentComma a | argumentsClosed a =>
    a.Stands
  | nameRoot use _ => use.Stands
  | nameRead use q | nameSeparator use q => use.Stands ∧ q.Stands use.keywords
  | pathRead p | pathSeparator p | pathInline p _ => p.Stands
  | usingRead _ list | usingNamespace _ list => AttributesStand list

structure Progress.Stands (p : Progress) : Prop where
  enclosing : ∀ d ∈ p.enclosing, d.head.Stands ∧ Standing d.before
  declared : Standing p.declared
  phase : p.phase.Stands

def Token.Stands (token : Token) (allowed : List Terminal) : Prop :=
  token.terminal = .name → IsWord token.text ∧ FreeOf allowed token.text

theorem stands_of_scan {allowed : List Terminal} {cursor behind : Cursor} {token : Token}
    (scanned : scan allowed cursor = .token token behind) : token.Stands allowed := by
  obtain ⟨gap, rest, split, found⟩ := behind_of_scan scanned
  cases found with
  | token taken =>
    rintro rfl
    exact (lexeme?_word.1 (Lexeme.fits_of_taken taken)).2

end Standing

theorem standing_nil : Standing ([] : List (Declaration σ)) := by
  intro v member
  cases member

theorem Standing.snoc {ds : List (Declaration σ)} {d : Declaration σ} (standing : Standing ds)
    (last : ∀ v ∈ visits d, v.Stands) : Standing (ds ++ [d]) := by
  intro v member
  rw [outline_append, outline_singleton, List.mem_append] at member
  exact member.elim (standing v) (last v)

theorem attributesStand_nil : AttributesStand ([] : List (Attribute σ)) := by
  intro a member
  cases member

theorem OpenAttribute.Stands.close {a : OpenAttribute} (stands : a.Stands) :
    AttributesStand a.close.attributes := by
  intro b member
  rcases List.mem_append.1 member with old | new
  · exact stands.before b old
  · cases List.mem_singleton.1 new
    exact ⟨stands.owner, stands.name, stands.arguments⟩

theorem OpenAttribute.Stands.addArgument {a : OpenAttribute} {value : ArgumentValue Span}
    {span : Span} (stands : a.Stands) (valued : value.Stands) :
    (a.addArgument value span).Stands := by
  refine ⟨stands.before, stands.owner, stands.name, ?_⟩
  intro argument member
  rcases List.mem_append.1 member with old | new
  · exact stands.arguments argument old
  · cases List.mem_singleton.1 new
    exact valued

theorem OpenAttribute.Stands.extend {a : OpenAttribute} {span : Span} (stands : a.Stands) :
    OpenAttribute.Stands { a with span } :=
  ⟨stands.before, stands.owner, stands.name, stands.arguments⟩

theorem QualifiedName.Stands.add {q : QualifiedName Span} {keywords : List Terminal}
    {name : String} {stop : Place} (stands : q.Stands keywords) (letters : IsWord name.toList) :
    (q.add name stop).Stands keywords where
  filled := by simp [QualifiedName.add]
  words other member := by
    rcases List.mem_append.1 member with old | new
    · exact stands.words other old
    · exact List.mem_singleton.1 new ▸ letters
  free rooted other first := by
    obtain ⟨head, names, same⟩ := List.exists_cons_of_ne_nil stands.filled
    refine stands.free rooted other ?_
    rw [QualifiedName.add, same] at first
    rw [same]
    exact first

theorem OpenPath.Stands.add {p : OpenPath} {name : String} {isInline : Bool} {span : Span}
    (stands : p.Stands) (letters : IsWord name.toList)
    (free : isInline = false → FreeOf [.inlineWord] name.toList) :
    (p.add name isInline span).Stands := by
  obtain ⟨path, list⟩ := stands
  refine ⟨?_, list⟩
  unfold OpenPath.add
  cases whole : p.path with
  | nil =>
    rw [whole] at path
    exact path.elim
  | cons first others =>
    rw [whole] at path
    refine ⟨path.1, path.2.1, fun s member => ?_⟩
    rcases List.mem_append.1 member with old | new
    · exact path.2.2 s old
    · cases List.mem_singleton.1 new
      exact ⟨letters, free⟩

theorem OpenAttribute.Stands.opened {list : AttributeList} {owner : Option String} {name : String}
    {span : Span} (stand : AttributesStand list.attributes)
    (owned : ∀ other ∈ owner, IsWord other.toList) (letters : IsWord name.toList) :
    OpenAttribute.Stands ⟨list, owner, name, [], span⟩ :=
  ⟨stand, owned, letters, by simp⟩

theorem OpenPath.Stands.opened {start : Place} {list : List (Attribute Span)} {name : String}
    {isInline : Bool} {span : Span} (stand : AttributesStand list) (letters : IsWord name.toList)
    (free : FreeOf (headKeywords list) name.toList) :
    OpenPath.Stands ⟨start, list, [⟨name, isInline, span⟩]⟩ :=
  ⟨⟨letters, free, by simp⟩, stand⟩

theorem QualifiedName.Stands.opened {rooted : Bool} {name : String} {span : Span}
    {keywords : List Terminal} (letters : IsWord name.toList)
    (free : rooted = false → FreeOf keywords name.toList) :
    QualifiedName.Stands ⟨rooted, [name], span⟩ keywords :=
  ⟨by simp, by simpa using letters, by simpa using free⟩

namespace Progress

variable {p p' : Progress} {token : Token} {phase : Phase} {d : Declaration Span}
variable {text : List Char} {span : Span}

theorem Stands.move (stands : p.Stands) (next : phase.Stands) : (p.move phase).Stands :=
  ⟨stands.enclosing, stands.declared, next⟩

theorem Stands.declare (stands : p.Stands) (last : ∀ v ∈ visits d, v.Stands) :
    (p.declare d).Stands :=
  ⟨stands.enclosing, stands.declared.snoc last, trivial⟩

theorem Stands.close {head : OpenPath} {before : List (Declaration Span)}
    {outer : List OpenDefinition} {stop : Place} (stands : p.Stands)
    (inside : p.enclosing = ⟨head, before⟩ :: outer) :
    (⟨outer, before ++ [.namespaceDefinition head.path head.attributes p.declared
      ⟨head.start, stop⟩], .between⟩ : Progress).Stands := by
  have open' := stands.enclosing
  rw [inside] at open'
  obtain ⟨path, front⟩ := open' _ List.mem_cons_self
  refine ⟨fun d member => open' d (List.mem_cons_of_mem _ member), front.snoc ?_, trivial⟩
  simp only [visits, List.cons_append, List.forall_mem_cons, List.forall_mem_append]
  exact ⟨⟨path.path, path.attributes⟩, stands.declared, trivial, by simp⟩

theorem Stands.openBody {head : OpenPath} (stands : p.Stands) (path : head.Stands) :
    (⟨⟨head, p.declared⟩ :: p.enclosing, [], .opening⟩ : Progress).Stands := by
  refine ⟨?_, standing_nil, trivial⟩
  intro d member
  rcases List.mem_cons.1 member with rfl | outer
  · exact ⟨path, stands.declared⟩
  · exact stands.enclosing d outer

theorem Stands.feed_name (stands : p.Stands) (letters : IsWord text) (free : FreeOf p.allowed text)
    (fed : p.feed ⟨.name, text, span⟩ = .ok p') : p'.Stands := by
  obtain ⟨enclosing, declared, phase⟩ := p
  have read := stands.phase
  rw [← String.toList_ofList (l := text)] at letters free
  cases phase with
  | namespaceRead start isInline =>
    cases fed
    exact stands.move (.opened attributesStand_nil letters
      (freeOf_of_disjoint (by simp [headKeywords])))
  | specifierOpen list | attributeComma list =>
    cases fed
    exact stands.move ⟨read, letters⟩
  | attributeOwner list owner start =>
    cases fed
    exact stands.move (.opened read.1 (by simpa using read.2) letters)
  | argumentsOpen a | argumentComma a =>
    cases fed
    refine stands.move ⟨read, .opened letters fun _ => free.mono ?_⟩
    simp only [allowed, NameUse.keywords]
    decide
  | specifierClosed list =>
    obtain ⟨site | site, attributes⟩ := list
    · cases fed
      -- Without an attribute no specifier is written again, and `using` cannot stand there.
      refine stands.move (.opened read letters (free.mono ?_))
      simp only [allowed, headKeywords]
      split <;> decide
    · cases fed
  | nameRoot use start =>
    cases fed
    -- Behind `::` any word is a name.
    exact stands.move ⟨read, .opened letters nofun⟩
  | nameSeparator use q =>
    cases fed
    exact stands.move ⟨read.1, read.2.add letters⟩
  | pathSeparator path =>
    cases fed
    refine stands.move (read.add letters fun _ => free.mono ?_)
    simp only [allowed]
    decide
  | pathInline path start =>
    cases fed
    exact stands.move (read.add letters nofun)
  | usingNamespace start attributes =>
    cases fed
    exact stands.move ⟨read, .opened letters fun _ =>
      freeOf_of_disjoint (by simp [NameUse.keywords])⟩
  | _ => cases fed

theorem Stands.feed_mark (stands : p.Stands) (other : token.terminal ≠ .name)
    (fed : p.feed token = .ok p') : p'.Stands := by
  obtain ⟨enclosing, declared, phase⟩ := p
  obtain ⟨terminal, text, span⟩ := token
  have read := stands.phase
  cases phase with
  | opening | between =>
    cases terminal with
    | semicolon =>
      cases fed
      exact stands.declare (by simp [visits, Visit.Stands])
    | inlineWord | namespaceWord =>
      cases fed
      exact stands.move trivial
    | usingWord | openSpecifier =>
      cases fed
      exact stands.move attributesStand_nil
    | rightBrace =>
      cases enclosing with
      | nil => cases fed
      | cons outer more =>
        cases fed
        exact stands.close rfl
    | _ => cases fed
  | specifierClosed list =>
    obtain ⟨site | site, attributes⟩ := list
    · cases terminal with
      | openSpecifier =>
        cases fed
        exact stands.move read
      | _ => cases fed <;> exact absurd rfl other
    · cases terminal with
      | openSpecifier | usingWord =>
        cases fed
        exact stands.move read
      | semicolon =>
        cases fed
        exact stands.declare fun v member => List.mem_singleton.1 member ▸ read
      | _ => cases fed
  | pathRead path =>
    cases terminal with
    | doubleColon =>
      cases fed
      exact stands.move read
    | leftBrace =>
      cases fed
      exact stands.openBody read
    | _ => cases fed
  | inlineRead | usingRead =>
    cases terminal <;> cases fed
    exact stands.move read
  | namespaceRead =>
    cases terminal with
    | openSpecifier =>
      cases fed
      exact stands.move attributesStand_nil
    | name => exact absurd rfl other
    | _ => cases fed
  | specifierOpen list =>
    cases terminal with
    | closeSpecifier =>
      cases fed
      exact stands.move read
    | name => exact absurd rfl other
    | _ => cases fed
  | attributeName list name nameSpan =>
    have titled : OpenAttribute.Stands ⟨list, none, name, [], nameSpan⟩ :=
      .opened read.1 (by simp) read.2
    cases terminal with
    | doubleColon =>
      cases fed
      exact stands.move read
    | leftParen =>
      cases fed
      exact stands.move titled
    | comma | closeSpecifier =>
      cases fed
      exact stands.move titled.close
    | _ => cases fed
  | attributeNamed a =>
    cases terminal with
    | leftParen =>
      cases fed
      exact stands.move read
    | comma | closeSpecifier =>
      cases fed
      exact stands.move read.close
    | _ => cases fed
  | argumentsClosed a =>
    cases terminal with
    | comma | closeSpecifier =>
      cases fed
      exact stands.move read.close
    | _ => cases fed
  | argumentsOpen a | argumentComma a =>
    cases terminal with
    | int | trueWord | falseWord =>
      cases fed
      exact stands.move (read.addArgument trivial)
    | doubleColon =>
      cases fed
      exact stands.move read
    | rightParen =>
      cases fed <;> exact stands.move read.extend
    | name => exact absurd rfl other
    | _ => cases fed
  | argumentRead a =>
    cases terminal with
    | comma =>
      cases fed
      exact stands.move read
    | rightParen =>
      cases fed
      exact stands.move read.extend
    | _ => cases fed
  | nameRead use q =>
    obtain ⟨used, named⟩ := read
    cases use with
    | directive start attributes =>
      cases terminal with
      | doubleColon =>
        cases fed
        exact stands.move ⟨used, named⟩
      | semicolon =>
        cases fed
        exact stands.declare fun v member => List.mem_singleton.1 member ▸ ⟨named, used⟩
      | _ => cases fed
    | argument a =>
      have argued : (a.addArgument (.name q) q.span).Stands := used.addArgument named
      cases terminal with
      | doubleColon =>
        cases fed
        exact stands.move ⟨used, named⟩
      | comma =>
        cases fed
        exact stands.move argued
      | rightParen =>
        cases fed
        exact stands.move argued.extend
      | _ => cases fed
  | pathSeparator path =>
    cases terminal with
    | inlineWord =>
      cases fed
      exact stands.move read
    | name => exact absurd rfl other
    | _ => cases fed
  | usingNamespace start attributes =>
    cases terminal with
    | doubleColon =>
      cases fed
      exact stands.move read
    | name => exact absurd rfl other
    | _ => cases fed
  -- Nothing but a name is taken elsewhere.
  | _ => cases terminal <;> first | exact absurd rfl other | cases fed

theorem Stands.feed (stands : p.Stands) (word : token.Stands p.allowed)
    (fed : p.feed token = .ok p') : p'.Stands := by
  by_cases named : token.terminal = .name
  · obtain ⟨terminal, text, span⟩ := token
    cases named
    exact stands.feed_name (word rfl).1 (word rfl).2 fed
  · exact stands.feed_mark named fed

theorem stands_start : start.Stands where
  enclosing d member := by cases member
  declared := standing_nil
  phase := trivial

end Progress

theorem standing_of_readFrom {p : Progress} {cursor : Cursor} {last : Place}
    {ds : List (Declaration Span)} (stands : p.Stands) (read : readFrom p cursor last = .ok ds) :
    Standing ds := by
  fun_induction readFrom p cursor last with
  | case1 =>
    cases read
    exact stands.declared
  | case6 p cursor last token behind scanned p' fed shorter ih =>
    exact ih (stands.feed (stands_of_scan scanned) fed) read
  | _ => cases read

end ScopedNames.Dialect

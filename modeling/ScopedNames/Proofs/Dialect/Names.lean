import ScopedNames.Proofs.Dialect.Literals
import ScopedNames.Proofs.Segment

set_option autoImplicit false

namespace ScopedNames.Dialect

variable {σ : Type}

def QualifiedName.Named (q : QualifiedName σ) : Prop :=
  q.names ≠ [] ∧ ∀ name ∈ q.names, IsName (.text name)

def Attribute.Named (a : Attribute σ) : Prop :=
  ∀ argument ∈ a.arguments, ∀ q, argument.value = .name q → q.Named

def AttributesNamed (list : List (Attribute σ)) : Prop := ∀ a ∈ list, a.Named

def NamedPath (path : List (PathSegment σ)) : Prop :=
  path ≠ [] ∧ ∀ segment ∈ path, IsName (.text segment.name)

def Visit.Named : Visit σ → Prop
  | enter path _ => NamedPath path
  | directive target _ => target.Named
  | attributes list => AttributesNamed list
  | leave _ | empty => True

def Named (ds : List (Declaration σ)) : Prop := ∀ v ∈ outline ds, v.Named

theorem isName_takeWhile {text : List Char} (filled : text.takeWhile isNameChar ≠ []) :
    IsName (.text (String.ofList (text.takeWhile isNameChar))) := by
  refine ⟨_, rfl, ?_, ?_⟩
  · simpa using filled
  · rw [String.toList_ofList]
    intro inside
    have colon : ':' ∈ text.takeWhile isNameChar := inside.subset (by decide)
    have letter := List.all_eq_true.1 (List.all_takeWhile (l := text) (p := isNameChar)) ':' colon
    revert letter
    decide

theorem isName_of_lexeme? {allowed : List Terminal} {text word : List Char}
    (taken : lexeme? allowed text = some (.name, word)) : IsName (.text (String.ofList word)) := by
  have filled := lexeme?_ne_nil taken
  unfold lexeme? at taken
  split at taken
  · cases taken
  · split at taken
    · obtain ⟨_, rfl⟩ := Prod.mk.inj (Option.some.inj taken)
      exact isName_takeWhile filled
    · split at taken
      · cases taken
      · -- A keyword or a mark is none of the names.
        obtain ⟨t, found, same⟩ := Option.map_eq_some_iff.1 taken
        obtain ⟨rfl, _⟩ := Prod.mk.inj same
        have listed := List.mem_of_find?_eq_some found
        exact absurd listed (by decide)

def Token.Named (token : Token) : Prop :=
  token.terminal = .name → IsName (.text (String.ofList token.text))

theorem named_of_scan {allowed : List Terminal} {cursor behind : Cursor} {token : Token}
    (scanned : scan allowed cursor = .token token behind) : token.Named := by
  unfold scan at scanned
  generalize skipLayout cursor.place cursor.rest = skipped at scanned
  obtain ⟨place, text⟩ := skipped
  intro name
  cases text with
  | nil => cases scanned
  | cons c text =>
    simp only at scanned
    split at scanned
    · next terminal word taken =>
      cases scanned
      cases name
      exact isName_of_lexeme? taken
    · split at scanned <;> cases scanned

def OpenAttribute.Named (a : OpenAttribute) : Prop :=
  AttributesNamed a.before.attributes ∧
    ∀ argument ∈ a.arguments, ∀ q, argument.value = .name q → q.Named

def NameUse.Named : NameUse → Prop
  | directive _ _ => True
  | argument a => a.Named

-- All names read so far are names, those of the unfinished declaration included.
def Phase.Named : Phase → Prop
  | opening | between | inlineRead _ | namespaceRead _ _ | usingRead _ _ | usingNamespace _ _ => True
  | specifierOpen list | attributeName list _ _ | attributeOwner list _ _ | attributeComma list
  | specifierClosed list => AttributesNamed list.attributes
  | attributeNamed a | argumentsOpen a | argumentRead a | argumentComma a | argumentsClosed a =>
    a.Named
  | nameRoot use _ => use.Named
  | nameRead use q | nameSeparator use q => use.Named ∧ q.Named
  | pathRead p | pathSeparator p | pathInline p _ => NamedPath p.path

structure Progress.Named (p : Progress) : Prop where
  enclosing : ∀ d ∈ p.enclosing, NamedPath d.head.path ∧ Dialect.Named d.before
  declared : Dialect.Named p.declared
  phase : p.phase.Named

theorem named_nil : Named ([] : List (Declaration σ)) := by
  intro v member
  cases member

theorem Named.snoc {ds : List (Declaration σ)} {d : Declaration σ} (named : Named ds)
    (last : ∀ v ∈ visits d, v.Named) : Named (ds ++ [d]) := by
  intro v member
  rw [outline_append, outline_singleton, List.mem_append] at member
  exact member.elim (named v) (last v)

theorem QualifiedName.Named.add {q : QualifiedName Span} {name : String} {stop : Place}
    (named : q.Named) (word : IsName (.text name)) : (q.add name stop).Named := by
  refine ⟨by simp [QualifiedName.add], ?_⟩
  intro other member
  rcases List.mem_append.1 member with old | new
  · exact named.2 other old
  · exact List.mem_singleton.1 new ▸ word

theorem OpenAttribute.Named.close {a : OpenAttribute} (named : a.Named) :
    AttributesNamed a.close.attributes := by
  intro b member
  rcases List.mem_append.1 member with old | new
  · exact named.1 b old
  · cases List.mem_singleton.1 new
    exact named.2

theorem OpenAttribute.Named.addArgument {a : OpenAttribute} {value : ArgumentValue Span}
    {span : Span} (named : a.Named) (valued : ∀ q, value = .name q → q.Named) :
    (a.addArgument value span).Named := by
  refine ⟨named.1, ?_⟩
  intro argument member
  rcases List.mem_append.1 member with old | new
  · exact named.2 argument old
  · cases List.mem_singleton.1 new
    exact valued

theorem NamedPath.add {p : OpenPath} {name : String} {isInline : Bool} {span : Span}
    (named : NamedPath p.path) (word : IsName (.text name)) :
    NamedPath (p.add name isInline span).path := by
  refine ⟨by simp [OpenPath.add], ?_⟩
  intro segment member
  rcases List.mem_append.1 member with old | new
  · exact named.2 segment old
  · cases List.mem_singleton.1 new
    exact word

namespace Progress

variable {p p' : Progress} {token : Token} {phase : Phase} {d : Declaration Span}

theorem Named.move (named : p.Named) (next : phase.Named) : (p.move phase).Named :=
  ⟨named.enclosing, named.declared, next⟩

theorem Named.declare (named : p.Named) (last : ∀ v ∈ visits d, v.Named) :
    (p.declare d).Named :=
  ⟨named.enclosing, named.declared.snoc last, trivial⟩

theorem namedPath_singleton {text : String} {isInline : Bool} {span : Span}
    (word : IsName (.text text)) : NamedPath [⟨text, isInline, span⟩] := by
  simpa [NamedPath] using word

theorem qualifiedName_singleton {rooted : Bool} {text : String} {span : Span}
    (word : IsName (.text text)) : (⟨rooted, [text], span⟩ : QualifiedName Span).Named := by
  simpa [QualifiedName.Named] using word

theorem attributesNamed_nil : AttributesNamed ([] : List (Attribute Span)) := by
  intro a member
  cases member

theorem Named.close {head : OpenPath} {before : List (Declaration Span)}
    {outer : List OpenDefinition} {stop : Place} (named : p.Named)
    (inside : p.enclosing = ⟨head, before⟩ :: outer) :
    (⟨outer, before ++ [.namespaceDefinition head.path head.attributes p.declared
      ⟨head.start, stop⟩], .between⟩ : Progress).Named := by
  have open' := named.enclosing
  rw [inside] at open'
  obtain ⟨path, front⟩ := open' _ List.mem_cons_self
  refine ⟨fun d member => open' d (List.mem_cons_of_mem _ member), front.snoc ?_, trivial⟩
  intro v member
  simp only [visits, List.mem_append, List.mem_cons, List.not_mem_nil, or_false] at member
  rcases member with (rfl | inner) | rfl
  · exact path
  · exact named.declared v inner
  · trivial

theorem Named.openBody {head : OpenPath} (named : p.Named) (path : NamedPath head.path) :
    (⟨⟨head, p.declared⟩ :: p.enclosing, [], .opening⟩ : Progress).Named := by
  refine ⟨?_, named_nil, trivial⟩
  intro d member
  rcases List.mem_cons.1 member with rfl | outer
  · exact ⟨path, named.declared⟩
  · exact named.enclosing d outer

theorem Named.feed (named : p.Named) (word : token.Named) (fed : p.feed token = .ok p') :
    p'.Named := by
  have read := named.phase
  unfold Progress.feed at fed
  split at fed
  case h_1 | h_2 =>
    split at fed <;> cases fed
    · exact named.declare (by simp [visits, Visit.Named])
    · exact named.move trivial
    · exact named.move trivial
    · exact named.move trivial
    · exact named.move attributesNamed_nil
    · next inside => exact named.close inside
  all_goals simp only [*, Phase.Named] at read
  all_goals cases fed
  case h_34.refl => exact named.declare (by simpa [visits, Visit.Named] using read)
  case h_38.refl => exact named.declare (by simpa [visits, Visit.Named] using read.2)
  case h_43.refl => exact named.openBody read
  -- Any other token moves on to a phase that holds what the last one held and what it adds itself.
  all_goals refine named.move ?_
  all_goals simp only [Phase.Named]
  all_goals grind [NameUse.Named, Token.Named, OpenAttribute.Named, OpenAttribute.Named.close,
    OpenAttribute.Named.addArgument, namedPath_singleton, NamedPath.add, qualifiedName_singleton,
    QualifiedName.Named.add, attributesNamed_nil]

theorem named_start : start.Named where
  enclosing d member := by cases member
  declared := named_nil
  phase := trivial

end Progress

theorem named_of_readFrom {p : Progress} {cursor : Cursor} {last : Place}
    {ds : List (Declaration Span)} (named : p.Named) (read : readFrom p cursor last = .ok ds) :
    Named ds := by
  fun_induction readFrom p cursor last with
  | case1 =>
    cases read
    exact named.declared
  | case6 p cursor last token behind scanned p' fed shorter ih =>
    exact ih (named.feed (named_of_scan scanned) fed) read
  | _ => cases read

theorem named_of_readUnit {file source : String} {u : SourceUnit}
    (read : readUnit file source = .ok u) : u.file = file ∧ Named u.declarations := by
  obtain ⟨_, reading, same, _⟩ := readUnit_eq_ok.1 read
  exact ⟨same, named_of_readFrom Progress.named_start reading⟩

end ScopedNames.Dialect

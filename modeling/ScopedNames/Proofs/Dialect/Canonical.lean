import ScopedNames.Proofs.Dialect.Reading
import ScopedNames.Proofs.Dialect.Standing

set_option autoImplicit false

namespace ScopedNames.Dialect

variable {σ : Type}

section Canonical

def Attribute.written (a : Attribute σ) : WrittenAttribute where
  owner := a.owner
  name := a.name
  arguments :=
    if a.arguments.isEmpty then none else some (a.arguments.map fun x => ⟨x.value.bare, 0⟩)

def canonicalSpecifiers (list : List (Attribute σ)) : List Specifier :=
  if list.isEmpty then [] else [list.map Attribute.written]

mutual

def canonicals : List (Declaration σ) → List Form
  | [] => []
  | d :: ds => d.canonical :: canonicals ds

def Declaration.canonical : Declaration σ → Form
  | .namespaceDefinition path attributes body _ =>
    .namespaceDefinition (path.map PathSegment.bare) (canonicalSpecifiers attributes)
      (canonicals body)
  | .usingDirective target attributes _ =>
    .usingDirective target.bare (canonicalSpecifiers attributes)
  | .attributeDeclaration attributes _ =>
    .attributeDeclaration (attributes.map Attribute.written) []
  | .emptyDeclaration _ => .emptyDeclaration

end

/-- The tokens of a tree, each apart from the next one by a single blank. -/
def canonicalText (ds : List (Declaration σ)) : String :=
  String.ofList ([' '].intercalate ((lexemesOf (canonicals ds)).map Lexeme.text))

end Canonical

theorem Attribute.meaning_written (a : Attribute σ) : a.written.meaning = a.bare := by
  cases empty : a.arguments with
  | nil => simp [Attribute.written, WrittenAttribute.meaning, Attribute.bare, empty]
  | cons => simp [Attribute.written, WrittenAttribute.meaning, Attribute.bare, empty, Argument.bare]

theorem attributesOf_written (list : List (Attribute σ)) :
    attributesOf [list.map Attribute.written] = list.map Attribute.bare := by
  simp [attributesOf, Attribute.meaning_written]

theorem attributesOf_canonicalSpecifiers (list : List (Attribute σ)) :
    attributesOf (canonicalSpecifiers list) = list.map Attribute.bare := by
  cases list with
  | nil => rfl
  | cons a list => exact attributesOf_written (a :: list)

theorem headKeywords_canonicalSpecifiers (list : List (Attribute σ)) :
    headKeywords (canonicalSpecifiers list) = headKeywords list := by
  cases list <;> rfl

theorem AttributesStand.bare {list : List (Attribute σ)} (stand : AttributesStand list) :
    AttributesStand (list.map Attribute.bare) := by
  rw [AttributesStand, List.forall_mem_map]
  intro a member
  obtain ⟨owner, name, arguments⟩ := stand a member
  refine ⟨owner, name, ?_⟩
  simp only [Attribute.bare, List.forall_mem_map]
  intro argument inside
  have valued := arguments argument inside
  cases argument with
  | mk value span =>
    cases value with
    | name q => exact ⟨valued.filled, valued.words, valued.free⟩
    | int | bool => trivial

theorem PathStands.bare {allowed : List Terminal} {path : List (PathSegment σ)}
    (stands : PathStands allowed path) : PathStands allowed (path.map PathSegment.bare) := by
  cases path with
  | nil => exact stands
  | cons first others =>
    refine ⟨stands.1, stands.2.1, ?_⟩
    rw [List.forall_mem_map]
    exact fun s member => ⟨(stands.2.2 s member).word, (stands.2.2 s member).free⟩

mutual

theorem Declaration.canonical_spec (d : Declaration σ) (standing : ∀ v ∈ visits d, v.Stands) :
    d.canonical.Stands ∧ d.canonical.meaning = d.bare := by
  cases d with
  | namespaceDefinition path attributes body span =>
    simp only [visits, List.cons_append, List.forall_mem_cons, List.forall_mem_append] at standing
    obtain ⟨⟨path', list⟩, inside, _⟩ := standing
    obtain ⟨stand, same⟩ := canonicals_spec body inside
    rw [Declaration.canonical, Form.Stands, Form.meaning, Declaration.bare, same,
      attributesOf_canonicalSpecifiers, headKeywords_canonicalSpecifiers]
    exact ⟨⟨path'.bare, list.bare, stand⟩, rfl⟩
  | usingDirective target attributes span =>
    obtain ⟨named, list⟩ := standing _ List.mem_cons_self
    rw [Declaration.canonical, Form.Stands, Form.meaning, Declaration.bare,
      attributesOf_canonicalSpecifiers]
    exact ⟨⟨⟨named.filled, named.words, named.free⟩, list.bare⟩, rfl⟩
  | attributeDeclaration attributes span =>
    have list : AttributesStand attributes := standing _ List.mem_cons_self
    rw [Declaration.canonical, Form.Stands, Form.meaning, Declaration.bare, attributesOf_written]
    exact ⟨list.bare, rfl⟩
  | emptyDeclaration span => exact ⟨trivial, rfl⟩

-- What has been read stands in canonical text too, and means there what it was.
theorem canonicals_spec (ds : List (Declaration σ)) (standing : Standing ds) :
    AllStand (canonicals ds) ∧ meanings (canonicals ds) = bareAll ds := by
  cases ds with
  | nil => exact ⟨trivial, rfl⟩
  | cons d ds =>
    rw [Standing, outline, List.forall_mem_append] at standing
    obtain ⟨stands, same⟩ := d.canonical_spec standing.1
    obtain ⟨others, rest⟩ := canonicals_spec ds standing.2
    rw [canonicals, meanings, bareAll, same, rest]
    exact ⟨⟨stands, others⟩, rfl⟩

end

def singleSpaced : List Lexeme → List (Layout × Lexeme)
  | [] => []
  | x :: xs => ([], x) :: xs.map fun y => (.space, y)

theorem singleSpaced_lexemes (xs : List Lexeme) : (singleSpaced xs).map (·.2) = xs := by
  cases xs with
  | nil => rfl
  | cons x xs => simp [singleSpaced, Function.comp_def]

theorem singleSpaced_apart (xs : List Lexeme) : ∀ x ∈ (singleSpaced xs).tail, x.1 ≠ [] := by
  cases xs with
  | nil => simp [singleSpaced]
  | cons x xs => simp [singleSpaced, Layout.space]

theorem weave_singleSpaced (xs : List Lexeme) :
    weave (singleSpaced xs) [] = [' '].intercalate (xs.map Lexeme.text) := by
  have later (ys : List Lexeme) :
      weave (ys.map fun y => (.space, y)) [] = ys.flatMap (' ' :: ·.text) := by
    induction ys with
    | nil => rfl
    | cons y ys ih =>
      rw [List.map_cons, weave, ih]
      rfl
  cases xs with
  | nil => rfl
  | cons x xs =>
    rw [singleSpaced, weave, later, List.map_cons, intercalate_cons, List.flatMap_map]
    rfl

section Literals

open Lexeme (mark word)

def Literal.trimmed (l : Literal) : Literal := ⟨l.value, (Nat.toDigits 10 l.value).length⟩

@[simp] theorem Lexeme.literal?_mark {t : Terminal} (other : t ≠ .int) :
    (mark t).literal? = none :=
  if_neg other

@[simp] theorem Lexeme.literal?_word (name : String) : (word name).literal? = none := rfl

theorem literals_intercalate {t : Terminal} (other : t ≠ .int) (xss : List (List Lexeme)) :
    ([mark t].intercalate xss).filterMap Lexeme.literal? =
      xss.flatMap (List.filterMap Lexeme.literal?) := by
  cases xss with
  | nil => rfl
  | cons xs xss =>
    rw [intercalate_cons, List.filterMap_append, List.filterMap_flatMap, List.flatMap_cons]
    simp [Lexeme.literal?_mark other]

theorem QualifiedName.literals_lexemes (q : QualifiedName Unit) :
    q.lexemes.filterMap Lexeme.literal? = [] := by
  have separated := literals_intercalate (t := .doubleColon) (by decide)
    (q.names.map fun name => [word name])
  cases rooted : q.rooted <;>
    simp [lexemes, rooted, separated]

theorem Argument.literals_written (a : Argument Span) :
    (WrittenArgument.lexemes ⟨a.value.bare, 0⟩).filterMap Lexeme.literal? =
      a.literal?.toList.map Literal.trimmed := by
  obtain ⟨value, span⟩ := a
  cases value with
  | int n =>
    have value := digitsValue_written 0 n
    rw [List.replicate_zero, List.nil_append] at value
    simp [ArgumentValue.bare, WrittenArgument.lexemes, Lexeme.literal?, literal?, value,
      Literal.trimmed]
  | bool b => cases b <;> rfl
  | name q => exact q.bare.literals_lexemes

theorem Attribute.literals_written (a : Attribute Span) :
    a.written.lexemes.filterMap Lexeme.literal? = a.literals.map Literal.trimmed := by
  have arguments : (argumentLexemes a.written.arguments).filterMap Lexeme.literal? =
      a.literals.map Literal.trimmed := by
    rw [written, literals]
    cases empty : a.arguments.isEmpty with
    | true => simp [List.isEmpty_iff.1 empty, argumentLexemes]
    | false =>
      have separated := literals_intercalate (t := .comma) (by decide)
        (a.arguments.map fun x => WrittenArgument.lexemes ⟨x.value.bare, 0⟩)
      rw [List.flatMap_map] at separated
      rw [List.filterMap_eq_flatMap_toList Argument.literal? a.arguments, List.map_flatMap]
      simp [argumentLexemes, Function.comp_def, separated, Argument.literals_written]
  rw [WrittenAttribute.lexemes, List.filterMap_append, List.filterMap_cons,
    Lexeme.literal?_word, arguments]
  cases owner : a.written.owner <;> simp

theorem literals_specifier (list : List (Attribute Span)) :
    (specifierLexemes (list.map Attribute.written)).filterMap Lexeme.literal? =
      (literalsIn list).map Literal.trimmed := by
  have separated := literals_intercalate (t := .comma) (by decide)
    (list.map fun a => a.written.lexemes)
  rw [List.flatMap_map] at separated
  simp [specifierLexemes, literalsIn, Function.comp_def, separated, Attribute.literals_written,
    List.map_flatMap]

theorem literals_canonicalSpecifiers (list : List (Attribute Span)) :
    ((canonicalSpecifiers list).flatMap specifierLexemes).filterMap Lexeme.literal? =
      (literalsIn list).map Literal.trimmed := by
  cases list with
  | nil => rfl
  | cons a list => simpa [canonicalSpecifiers] using literals_specifier (a :: list)

theorem literals_definitionHead (path : List (PathSegment Unit)) (list : List (Attribute Span))
    (filled : path ≠ []) :
    (definitionHead (canonicalSpecifiers list) path).filterMap Lexeme.literal? =
      (literalsIn list).map Literal.trimmed := by
  obtain ⟨first, others, rfl⟩ := List.exists_cons_of_ne_nil filled
  have marked (s : PathSegment Unit) : (inlineLexemes s).filterMap Lexeme.literal? = [] := by
    unfold inlineLexemes
    split <;> rfl
  have named (s : PathSegment Unit) :
      (inlineLexemes s ++ [word s.name]).filterMap Lexeme.literal? = [] := by
    rw [List.filterMap_append, marked]
    rfl
  have behind : List.filterMap Lexeme.literal? (others.flatMap fun s =>
      mark .doubleColon :: inlineLexemes s ++ [word s.name]) = [] := by
    simp [List.filterMap_flatMap, named]
  rw [definitionHead, List.filterMap_append, List.filterMap_append, List.filterMap_cons,
    List.filterMap_cons, marked, Lexeme.literal?_word, behind,
    literals_canonicalSpecifiers, Lexeme.literal?_mark (by decide)]
  simp

mutual

theorem Declaration.literals_canonical (d : Declaration Span)
    (standing : ∀ v ∈ visits d, v.Stands) :
    d.canonical.lexemes.filterMap Lexeme.literal? =
      ((visits d).flatMap Visit.literals).map Literal.trimmed := by
  cases d with
  | namespaceDefinition path attributes body span =>
    simp only [visits, List.cons_append, List.forall_mem_cons, List.forall_mem_append] at standing
    obtain ⟨⟨path', _⟩, inside, _⟩ := standing
    have filled : path.map PathSegment.bare ≠ [] := by
      rintro empty
      rw [List.map_eq_nil_iff.1 empty] at path'
      exact path'
    have own := literals_definitionHead _ attributes filled
    have inner := literals_canonicals body inside
    simp [Declaration.canonical, Form.lexemes, visits, Visit.literals, own, inner, literalsOf]
  | usingDirective target attributes span =>
    simp [Declaration.canonical, Form.lexemes, visits, Visit.literals,
      literals_canonicalSpecifiers, QualifiedName.literals_lexemes]
  | attributeDeclaration attributes span =>
    simp [Declaration.canonical, Form.lexemes, visits, Visit.literals, literals_specifier]
  | emptyDeclaration span => rfl

theorem literals_canonicals (ds : List (Declaration Span)) (standing : Standing ds) :
    (lexemesOf (canonicals ds)).filterMap Lexeme.literal? =
      (literalsOf ds).map Literal.trimmed := by
  cases ds with
  | nil => rfl
  | cons d ds =>
    rw [Standing, outline, List.forall_mem_append] at standing
    have own := d.literals_canonical standing.1
    have others := literals_canonicals ds standing.2
    rw [canonicals, lexemesOf, List.filterMap_append, own, others, literalsOf, literalsOf, outline,
      List.flatMap_append, List.map_append]

end

-- Without its zeros an integer has no more digits than it is written with.
def Literal.Suffices (l : Literal) : Prop := l.trimmed.digits ≤ l.digits

theorem suffices_of_scan {allowed : List Terminal} {cursor behind : Cursor} {token : Token}
    (scanned : scan allowed cursor = .token token behind) :
    ∀ l ∈ token.literal?, l.Suffices := by
  obtain ⟨gap, rest, _, found⟩ := behind_of_scan scanned
  intro l literal
  cases found with
  | @token terminal letters rest taken =>
    rw [Lexeme.literal?_token ⟨terminal, letters⟩] at literal
    have known := Lexeme.known_of_lexeme? taken
    generalize (⟨terminal, letters⟩ : Lexeme) = x at known literal
    cases known with
    | word => cases literal
    | @digits digits filled all =>
      cases literal
      obtain ⟨zeros, same⟩ := exists_zeros filled all
      have longer := congrArg List.length same
      rw [List.length_append] at longer
      exact longer ▸ Nat.le_add_left _ _
    | @mark t known =>
      have other : t ≠ .int := by
        rintro rfl
        revert known
        decide
      rw [Lexeme.literal?_mark other] at literal
      cases literal

theorem suffices_of_readFrom {p : Progress} {cursor : Cursor} {last : Place}
    {ds : List (Declaration Span)} (enough : ∀ l ∈ p.literals, l.Suffices)
    (read : readFrom p cursor last = .ok ds) : ∀ l ∈ literalsOf ds, l.Suffices := by
  fun_induction readFrom p cursor last with
  | case1 p cursor last scanned complete =>
    cases read
    rwa [← Progress.literals_of_complete complete]
  | case6 p cursor last token behind scanned p' fed shorter ih =>
    refine ih ?_ read
    rw [Progress.literals_feed fed, List.forall_mem_append]
    exact ⟨enough, fun l member => suffices_of_scan scanned l (Option.mem_toList.1 member)⟩
  | _ => cases read

end Literals

/-- What is read from a text can be written down, and is read from there as the same tree. -/
theorem canonical_text_reads_back {file source : String} {u : SourceUnit}
    (read : readUnit file source = .ok u) :
    ∃ u', readUnit file (canonicalText u.declarations) = .ok u' ∧
      bareAll u'.declarations = bareAll u.declarations := by
  obtain ⟨named, reading, _, legal⟩ := readUnit_eq_ok.1 read
  have standing := standing_of_readFrom Progress.stands_start reading
  obtain ⟨stand, same⟩ := canonicals_spec u.declarations standing
  obtain ⟨ds, again, meaning, literals⟩ := readDeclarations_weave stand
    (singleSpaced_lexemes _) (singleSpaced_apart _) []
  rw [weave_singleSpaced] at again
  refine ⟨⟨file, ds⟩, readUnit_eq_ok.2 ⟨named, again, rfl, ?_⟩, meaning.trans same⟩
  have enough := suffices_of_readFrom (List.forall_mem_nil _) reading
  rw [literals, literals_canonicals _ standing, List.forall_mem_map]
  exact fun l member => Nat.le_trans (enough l member) (legal l member)

-- Keywords for names, and no blank where none has to be.

def gluedText : String := "namespace inline{usingnamespaceusing;}"

def gluedUnit : SourceUnit where
  file := "main.cpp"
  declarations :=
    [.namespaceDefinition [⟨"inline", false, onFirstLine 10 16⟩] []
      [.usingDirective ⟨false, ["using"], onFirstLine 31 36⟩ [] (onFirstLine 17 37)]
      (onFirstLine 0 38)]

theorem readUnit_glued : readUnit "main.cpp" gluedText = .ok gluedUnit := by
  have read : readWithin 20 .start ⟨.origin, gluedText.toList⟩ = some gluedUnit.declarations := by
    cbv
  exact readUnit_of_readWithin read (by decide)

theorem canonical_text_reads_back_of_glued :
    canonicalText gluedUnit.declarations = "namespace inline { using namespace using ; }" ∧
      ∃ u', readUnit "main.cpp" "namespace inline { using namespace using ; }" = .ok u' ∧
        bareAll u'.declarations = bareAll gluedUnit.declarations := by
  have text : canonicalText gluedUnit.declarations =
      "namespace inline { using namespace using ; }" := by cbv
  refine ⟨text, ?_⟩
  rw [← text]
  exact canonical_text_reads_back readUnit_glued

end ScopedNames.Dialect

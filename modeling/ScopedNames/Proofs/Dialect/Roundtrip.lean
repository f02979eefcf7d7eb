import ScopedNames.Proofs.Dialect.Declaring

set_option autoImplicit false

namespace ScopedNames.Dialect

open Lexeme (mark word)

variable {σ : Type}

section Plain

structure IsPlain (name : String) : Prop where
  word : IsWord name.toList
  free : ∀ k ∈ Terminal.keywords, name ≠ k.spelling

def QualifiedName.Plain (q : QualifiedName σ) : Prop :=
  q.names ≠ [] ∧ ∀ name ∈ q.names, IsPlain name

def ArgumentValue.Plain : ArgumentValue σ → Prop
  | name q => q.Plain
  | int _ | bool _ => True

structure Attribute.Plain (a : Attribute σ) : Prop where
  owner : ∀ owner ∈ a.owner, IsPlain owner
  name : IsPlain a.name
  arguments : ∀ argument ∈ a.arguments, argument.value.Plain

def AttributesPlain (list : List (Attribute σ)) : Prop := ∀ a ∈ list, a.Plain

def PlainPath (path : List (PathSegment σ)) : Prop :=
  path ≠ [] ∧ ∀ segment ∈ path, IsPlain segment.name

def Visit.Plain : Visit σ → Prop
  | enter path list => PlainPath path ∧ AttributesPlain list
  | directive target list => target.Plain ∧ AttributesPlain list
  | attributes list => AttributesPlain list
  | leave _ | empty => True

/-- A tree of the dialect: paths are not empty, and no name is a keyword. -/
def Plain (ds : List (Declaration σ)) : Prop := ∀ v ∈ outline ds, v.Plain

end Plain

theorem IsPlain.freeOf {name : String} {allowed : List Terminal} (plain : IsPlain name) :
    FreeOf allowed name.toList :=
  fun k known _ same => plain.free k known (String.toList_injective same.symm)

theorem QualifiedName.Plain.stands {q : QualifiedName σ} {allowed : List Terminal}
    (plain : q.Plain) : q.Stands allowed where
  filled := plain.1
  words name member := (plain.2 name member).word
  free _ name first := (plain.2 name (List.mem_of_mem_head? first)).freeOf

theorem AttributesPlain.stand {list : List (Attribute σ)} (plain : AttributesPlain list) :
    AttributesStand list := by
  intro a member
  obtain ⟨owner, name, arguments⟩ := plain a member
  refine ⟨fun o same => (owner o same).word, name.word, fun argument inside => ?_⟩
  have valued := arguments argument inside
  cases argument with
  | mk value span =>
    cases value with
    | name q => exact valued.stands
    | int | bool => trivial

theorem PlainPath.stands {path : List (PathSegment σ)} {allowed : List Terminal}
    (plain : PlainPath path) : PathStands allowed path := by
  obtain ⟨filled, words⟩ := plain
  cases path with
  | nil => exact absurd rfl filled
  | cons first others =>
    have own := words first List.mem_cons_self
    refine ⟨own.word, own.freeOf, fun s member => ?_⟩
    have other := words s (List.mem_cons_of_mem _ member)
    exact ⟨other.word, fun _ => other.freeOf⟩

mutual

theorem Form.stands_of_plain (f : Form) (plain : ∀ v ∈ visits f.meaning, v.Plain) : f.Stands := by
  cases f with
  | namespaceDefinition path specifiers body =>
    simp only [Form.meaning, visits, List.cons_append, List.forall_mem_cons,
      List.forall_mem_append] at plain
    obtain ⟨⟨path', list⟩, inside, _⟩ := plain
    exact ⟨path'.stands, list.stand, allStand_of_plain body inside⟩
  | usingDirective target specifiers =>
    obtain ⟨target', list⟩ := plain _ List.mem_cons_self
    exact ⟨target'.stands, list.stand⟩
  | attributeDeclaration first others =>
    have list : AttributesPlain _ := plain _ List.mem_cons_self
    exact list.stand
  | emptyDeclaration => trivial

theorem allStand_of_plain (fs : List Form) (plain : Plain (meanings fs)) : AllStand fs := by
  cases fs with
  | nil => trivial
  | cons f fs =>
    rw [Plain, meanings, outline, List.forall_mem_append] at plain
    exact ⟨f.stands_of_plain plain.1, allStand_of_plain fs plain.2⟩

end

/--
Whichever way a tree is written, with any layout between its tokens, it is read back from the text
as it was, unless one of its integers has too many digits: then the first of these is complained
about.
-/
theorem written_reads_back {tree : List (Declaration Unit)} {fs : List Form}
    {spaced : List (Layout × Lexeme)} (plain : Plain tree) (meaning : meanings fs = tree)
    (written : spaced.map (·.2) = lexemesOf fs) (apart : ∀ x ∈ spaced.tail, x.1 ≠ [])
    (last : Layout) :
    ∃ ds, bareAll ds = tree ∧ ∀ file, file ≠ "" →
      ((∀ x ∈ lexemesOf fs, ¬x.Overlong) →
        readUnit file (String.ofList (weave spaced last)) = .ok ⟨file, ds⟩) ∧
      ∀ front x back, lexemesOf fs = front ++ x :: back → (∀ y ∈ front, ¬y.Overlong) →
        x.Overlong → readUnit file (String.ofList (weave spaced last)) =
          .error (.overlongInteger x.text.length) := by
  subst meaning
  obtain ⟨ds, read, same, literals⟩ :=
    readDeclarations_weave (allStand_of_plain fs plain) written apart last
  refine ⟨ds, same, fun file named => ⟨fun legal => ?_, fun front x back split legal long => ?_⟩⟩
  · refine readUnit_eq_ok.2 ⟨named, read, rfl, ?_⟩
    rw [literals]
    exact Lexeme.digits_le_of_mem legal
  · obtain ⟨n, literal⟩ := long.literal?
    have found : literalsOf ds = front.filterMap Lexeme.literal? ++
        ⟨n, x.text.length⟩ :: back.filterMap Lexeme.literal? := by
      rw [literals, split, List.filterMap_append, List.filterMap_cons, literal]
    exact readUnit_of_overlong named read found (Lexeme.digits_le_of_mem legal) long.2

-- An integer with leading zeros, two specifiers for one list, and comments that hold marks.

def commentedForms : List Form :=
  [.namespaceDefinition [⟨"A", true, ()⟩] [[⟨none, "t", some [⟨.int 7, 2⟩]⟩], []]
    [.usingDirective ⟨true, ["N"], ()⟩ []]]

def commentedText : String :=
  "inline/*;*/namespace [[ t ( 007 ) ]]// \x7d\n[[ ]] A \x7b\tusing namespace :: N ; \x7d"

def commentedSpacing : List (Layout × Lexeme) :=
  [([], mark .inlineWord), ([.block [';'] (by decide)], mark .namespaceWord),
    (.space, mark .openSpecifier), (.space, word "t"), (.space, mark .leftParen),
    (.space, ⟨.int, ['0', '0', '7']⟩), (.space, mark .rightParen), (.space, mark .closeSpecifier),
    ([.line [' ', '}'] (by decide)], mark .openSpecifier), (.space, mark .closeSpecifier),
    (.space, word "A"), (.space, mark .leftBrace), ([.blank '\t' rfl], mark .usingWord),
    (.space, mark .namespaceWord), (.space, mark .doubleColon), (.space, word "N"),
    (.space, mark .semicolon), (.space, mark .rightBrace)]

theorem isPlain_letters : IsPlain "A" ∧ IsPlain "N" ∧ IsPlain "t" := by
  refine ⟨⟨?_, ?_⟩, ⟨?_, ?_⟩, ⟨?_, ?_⟩⟩ <;> decide

-- One digit more than there may be, most of them zeros.

def paddedForms (zeros : Nat) : List Form :=
  [.attributeDeclaration [⟨none, "t", some [⟨.int 7, zeros⟩]⟩] []]

def paddedSpacing (zeros : Nat) : List (Layout × Lexeme) :=
  [([], mark .openSpecifier), (.space, word "t"), (.space, mark .leftParen),
    (.space, ⟨.int, List.replicate zeros '0' ++ ['7']⟩), (.space, mark .rightParen),
    (.space, mark .closeSpecifier), (.space, mark .semicolon)]

def paddedText (zeros : Nat) : String :=
  String.ofList ("[[ t ( ".toList ++ (List.replicate zeros '0' ++ ['7'] ++ " ) ]] ;".toList))

theorem written_reads_back_of_comments :
    (∃ ds, bareAll ds = meanings commentedForms ∧
        ∀ file, file ≠ "" → readUnit file commentedText = .ok ⟨file, ds⟩) ∧
      ∀ file, file ≠ "" →
        readUnit file (paddedText 4300) = .error (.overlongInteger 4301) := by
  have tagged : Attribute.Plain (⟨none, "t", [⟨.int 7, ()⟩], ()⟩ : Attribute Unit) :=
    ⟨by simp, isPlain_letters.2.2, by simp [ArgumentValue.Plain]⟩
  constructor
  · have plain : Plain (meanings commentedForms) := by
      simp [Plain, commentedForms, meanings, Form.meaning, outline, visits, Visit.Plain, PlainPath,
        QualifiedName.Plain, AttributesPlain, attributesOf, WrittenAttribute.meaning, tagged,
        isPlain_letters]
    have apart : ∀ x ∈ commentedSpacing.tail, x.1 ≠ [] := by
      simp [commentedSpacing, Layout.space]
    have text : String.ofList (weave commentedSpacing []) = commentedText := by
      cbv
    have written : commentedSpacing.map (·.2) = lexemesOf commentedForms := rfl
    have legal : ∀ x ∈ commentedSpacing.map (·.2), ¬x.Overlong := by decide
    rw [← text]
    obtain ⟨ds, same, outcome⟩ := written_reads_back plain rfl written apart []
    exact ⟨ds, same, fun file named => (outcome file named).1 (written ▸ legal)⟩
  · -- The number of zeros is kept as a variable, so that nothing writes them out.
    have padded (zeros : Nat) (long : maxDigits ≤ zeros) (file : String) (named : file ≠ "") :
        readUnit file (paddedText zeros) = .error (.overlongInteger (zeros + 1)) := by
      have plain : Plain (meanings (paddedForms zeros)) := by
        simp [Plain, paddedForms, meanings, Form.meaning, outline, visits, Visit.Plain,
          AttributesPlain, attributesOf, WrittenAttribute.meaning, tagged]
      have apart : ∀ x ∈ (paddedSpacing zeros).tail, x.1 ≠ [] := by
        simp [paddedSpacing, Layout.space]
      have text : String.ofList (weave (paddedSpacing zeros) []) = paddedText zeros := rfl
      have written : (paddedSpacing zeros).map (·.2) = lexemesOf (paddedForms zeros) := rfl
      rw [← text]
      obtain ⟨ds, _, outcome⟩ := written_reads_back plain rfl written apart []
      have refused := (outcome file named).2
        [mark .openSpecifier, word "t", mark .leftParen]
        ⟨.int, List.replicate zeros '0' ++ ['7']⟩
        [mark .rightParen, mark .closeSpecifier, mark .semicolon] rfl (by decide)
        ⟨rfl, by simp; omega⟩
      simpa using refused
    exact padded 4300 (by decide)

end ScopedNames.Dialect

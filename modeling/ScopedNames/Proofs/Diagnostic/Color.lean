import ScopedNames.Proofs.Diagnostic.Excerpt

set_option autoImplicit false

namespace ScopedNames

variable {text rest painted painted' plain plain' : List Char} {c : Char}

section Sequences

def inSequence (c : Char) : Bool := c.isDigit || c == ';'

def afterSequence? : List Char → Option (List Char)
  | '\x1b' :: '[' :: codes =>
    match codes.dropWhile inSequence with
    | 'm' :: rest => some rest
    | _ => none
  | _ => none

theorem afterSequence?_eq_some : afterSequence? text = some rest ↔
    ∃ codes, (∀ c ∈ codes, inSequence c = true) ∧
      text = '\x1b' :: '[' :: codes ++ 'm' :: rest := by
  constructor
  · intro found
    unfold afterSequence? at found
    split at found
    · next codes =>
      split at found
      · next ended =>
        cases found
        refine ⟨codes.takeWhile inSequence, fun c => List.mem_takeWhile_imp, ?_⟩
        rw [← ended, List.cons_append, List.cons_append, List.takeWhile_append_dropWhile]
      · cases found
    · cases found
  · rintro ⟨codes, inside, rfl⟩
    simp only [List.cons_append, afterSequence?, List.dropWhile_append_of_pos inside]
    rfl

theorem length_le_of_afterSequence? (found : afterSequence? (c :: text) = some rest) :
    rest.length ≤ text.length := by
  obtain ⟨codes, _, same⟩ := afterSequence?_eq_some.1 found
  rw [(List.cons.inj same).2]
  simp only [List.append_eq, List.cons_append, List.length_cons, List.length_append]
  omega

/-- The text with its escape sequences deleted, from left to right. -/
def withoutSequences : List Char → List Char
  | [] => []
  | c :: text =>
    match found : afterSequence? (c :: text) with
    | some rest =>
      have := length_le_of_afterSequence? found
      withoutSequences rest
    | none => c :: withoutSequences text
termination_by text => text.length

theorem withoutSequences_of_some (found : afterSequence? text = some rest) :
    withoutSequences text = withoutSequences rest := by
  cases text with
  | nil => cases found
  | cons c text =>
    rw [withoutSequences]
    split
    · next same => rw [found] at same; cases same; rfl
    · next absent => rw [found] at absent; cases absent

theorem withoutSequences_cons (apart : c ≠ '\x1b') (text : List Char) :
    withoutSequences (c :: text) = c :: withoutSequences text := by
  rw [withoutSequences]
  split
  · next found =>
    obtain ⟨_, _, same⟩ := afterSequence?_eq_some.1 found
    exact absurd (List.cons.inj same).1 apart
  · rfl

-- The one text is the other with escape sequences put in, whatever comes behind.
structure Decorates (painted plain : List Char) : Prop where
  erased : ∀ rest, withoutSequences (painted ++ rest) = plain ++ withoutSequences rest
  bare : '\x1b' ∉ plain

namespace Decorates

theorem of_bare (bare : '\x1b' ∉ text) : Decorates text text where
  erased rest := by
    induction text with
    | nil => rfl
    | cons c text ih =>
      rw [List.mem_cons, not_or] at bare
      rw [List.cons_append, withoutSequences_cons (Ne.symm bare.1), ih bare.2, List.cons_append]
  bare := bare

theorem append (first : Decorates painted plain) (second : Decorates painted' plain') :
    Decorates (painted ++ painted') (plain ++ plain') where
  erased rest := by rw [List.append_assoc, first.erased, second.erased, List.append_assoc]
  bare := by
    rw [List.mem_append, not_or]
    exact ⟨first.bare, second.bare⟩

theorem flatMap {α : Type} {f g : α → List Char} {xs : List α}
    (each : ∀ x ∈ xs, Decorates (f x) (g x)) : Decorates (xs.flatMap f) (xs.flatMap g) := by
  induction xs with
  | nil => exact .of_bare List.not_mem_nil
  | cons x xs ih =>
    obtain ⟨first, others⟩ := List.forall_mem_cons.1 each
    exact first.append (ih others)

theorem intercalate {between : List Char} {xss yss : List (List Char)} (bare : '\x1b' ∉ between)
    (each : List.Forall₂ Decorates xss yss) :
    Decorates (between.intercalate xss) (between.intercalate yss) := by
  induction each with
  | nil => exact .of_bare List.not_mem_nil
  | cons first others ih =>
    cases others with
    | nil => simpa using first
    | cons second more =>
      rw [List.intercalate_cons_cons, List.intercalate_cons_cons]
      exact (first.append (.of_bare bare)).append ih

theorem escapeCode (code : Nat) : Decorates (Fragment.escapeCode code) [] where
  erased rest := by
    refine withoutSequences_of_some (afterSequence?_eq_some.2 ⟨Nat.toDigits 10 code, ?_, ?_⟩)
    · intro c member
      have digit := Nat.isDigit_of_mem_toDigits (by decide) (by decide) member
      rw [inSequence, digit, Bool.true_or]
    · simp [Fragment.escapeCode]
  bare := List.not_mem_nil

theorem escapeCodes (codes : List Nat) : Decorates (codes.flatMap Fragment.escapeCode) [] := by
  induction codes with
  | nil => exact .of_bare List.not_mem_nil
  | cons code codes ih => exact (escapeCode code).append ih

end Decorates

end Sequences

section Painting

def StyledLine.Bare (line : StyledLine) : Prop := ∀ f ∈ line, '\x1b' ∉ f.text

@[simp] theorem StyledLine.bare_nil : StyledLine.Bare [] := List.forall_mem_nil _

@[simp] theorem StyledLine.bare_cons {f : Fragment} {line : StyledLine} :
    StyledLine.Bare (f :: line) ↔ '\x1b' ∉ f.text ∧ line.Bare := List.forall_mem_cons

@[simp] theorem Fragment.text_styled (styles : List Nat) (text : String) :
    (Fragment.styled styles text).text = text.toList := rfl

@[simp] theorem Fragment.text_plain (text : String) : (Fragment.plain text).text = text.toList := rfl

theorem Fragment.decorates {f : Fragment} (bare : '\x1b' ∉ f.text) :
    Decorates (f.paint true) (f.paint false) := by
  have text : Decorates f.text f.text := .of_bare bare
  by_cases styled : f.styles = []
  · simpa [paint, styled] using text
  · have whole := ((Decorates.escapeCodes f.styles).append text).append (.escapeCode 0)
    simpa [paint, styled] using whole

theorem StyledLine.Bare.decorates {line : StyledLine} (bare : line.Bare) :
    Decorates (paintLine true line) (paintLine false line) :=
  .flatMap fun f member => Fragment.decorates (bare f member)

theorem decorates_paintLines {lines : List StyledLine} (bare : ∀ line ∈ lines, line.Bare) :
    Decorates (paintLines true lines) (paintLines false lines) := by
  refine .intercalate (by decide) ?_
  rw [List.forall₂_map_left_iff, List.forall₂_map_right_iff, List.forall₂_same]
  exact fun line member => (bare line member).decorates

end Painting

section Texts

theorem escape_not_mem_toDigits (n : Nat) : '\x1b' ∉ Nat.toDigits 10 n := by
  intro member
  have digit := Nat.isDigit_of_mem_toDigits (by decide) (by decide) member
  exact absurd digit (by decide)

@[simp] theorem escape_not_mem_repr (n : Int) : '\x1b' ∉ n.repr.toList := by
  cases n with
  | ofNat n => simpa [Int.repr] using escape_not_mem_toDigits n
  | negSucc n => simpa [Int.repr] using escape_not_mem_toDigits n.succ

@[simp] theorem escape_not_mem_spaces (n : Nat) : '\x1b' ∉ (Diagnostic.spaces n).toList := by
  simp [Diagnostic.spaces]

theorem subset_of_mem_sourceLines {line : List Char} (member : line ∈ sourceLines text) :
    line ⊆ text := by
  induction text generalizing line with
  | nil =>
    rw [List.mem_singleton.1 member]
    exact List.nil_subset []
  | cons c text ih =>
    rw [sourceLines_cons] at member
    split at member
    · rcases List.mem_cons.1 member with rfl | later
      · exact List.nil_subset _
      · exact List.subset_cons_of_subset c (ih later)
    · cases split : sourceLines text with
      | nil => simp [split] at member
      | cons first others =>
        rw [split, List.modifyHead_cons] at member
        rcases List.mem_cons.1 member with rfl | later
        · exact List.cons_subset_cons c (ih (split ▸ List.mem_cons_self))
        · exact List.subset_cons_of_subset c (ih (split ▸ List.mem_cons_of_mem first later))

theorem sourceLine_subset (text : List Char) (number : Int) : sourceLine text number ⊆ text := by
  unfold sourceLine
  split
  · cases found : (sourceLines text)[number.toNat - 1]? with
    | none => exact List.nil_subset _
    | some line => exact subset_of_mem_sourceLines (List.mem_of_getElem? found)
  · exact List.nil_subset _

end Texts

namespace Diagnostic

/-- Nothing that a caller has put into the diagnostic holds an escape character. -/
structure Bare (d : Diagnostic) : Prop where
  message : '\x1b' ∉ d.message.toList
  code : ∀ text ∈ d.code, '\x1b' ∉ text.toList
  label : ∀ text ∈ d.label, '\x1b' ∉ text.toList
  note : ∀ text ∈ d.note, '\x1b' ∉ text.toList
  help : ∀ text ∈ d.help, '\x1b' ∉ text.toList
  file : ∀ l ∈ d.location, '\x1b' ∉ l.file.toList

variable {d : Diagnostic} {sources : Sources}

theorem bare_of_nonempty {s : Option String} {text : String}
    (bare : ∀ text ∈ s, '\x1b' ∉ text.toList) (shown : nonempty s = some text) :
    '\x1b' ∉ text.toList :=
  bare text (Option.filter_eq_some_iff.1 shown).1

theorem Bare.header (bare : d.Bare) : d.header.Bare := by
  rw [Diagnostic.header]
  cases shown : nonempty d.code with
  | none => simp [bare.message]
  | some code => simp [bare.message, bare_of_nonempty bare.code shown]

theorem Bare.annotations (bare : d.Bare) (gutter : Nat) :
    ∀ line ∈ d.annotations gutter, line.Bare := by
  cases helped : nonempty d.help with
  | none =>
    cases noted : nonempty d.note with
    | none => simp [Diagnostic.annotations, helped, noted]
    | some note =>
      simp [Diagnostic.annotations, helped, noted, bare_of_nonempty bare.note noted]
  | some help =>
    have clear := bare_of_nonempty bare.help helped
    cases noted : nonempty d.note with
    | none => simp [Diagnostic.annotations, helped, noted, clear]
    | some note =>
      simp [Diagnostic.annotations, helped, noted, clear, bare_of_nonempty bare.note noted]

theorem Bare.excerpt (bare : d.Bare) (l : Location) {source : List Char} (clear : '\x1b' ∉ source) :
    ∀ line ∈ d.excerpt l source, line.Bare := by
  have line : '\x1b' ∉ sourceLine source l.line := fun member =>
    clear (sourceLine_subset source l.line member)
  rw [Diagnostic.excerpt]
  cases shown : nonempty d.label with
  | none => simp [line]
  | some label => simp [line, bare_of_nonempty bare.label shown]

theorem Bare.lines (bare : d.Bare) (clear : ∀ s ∈ sources, '\x1b' ∉ s.2.toList) :
    ∀ line ∈ d.lines sources, line.Bare := by
  rw [Diagnostic.lines]
  cases located : d.location with
  | none => simpa [bare.header] using bare.annotations 1
  | some l =>
    have place : '\x1b' ∉ l.text.toList := by simp [Location.text, bare.file l located]
    refine List.forall_mem_append.2 ⟨List.forall_mem_cons.2 ⟨bare.header,
      List.forall_mem_cons.2 ⟨by simp [place], ?_⟩⟩, bare.annotations _⟩
    cases held : sources.lookup l.file with
    | none => exact List.forall_mem_nil _
    | some source =>
      obtain ⟨front, back, rfl, _⟩ := List.lookup_eq_some_iff.1 held
      exact bare.excerpt l (clear (l.file, source) (by simp))

theorem Bare.render (bare : d.Bare) (clear : ∀ s ∈ sources, '\x1b' ∉ s.2.toList) :
    Decorates (d.render sources true) (d.render sources false) :=
  decorates_paintLines (bare.lines clear)

theorem bare_countLine (count : Nat) : (countLine count).Bare := by
  have number := escape_not_mem_toDigits count
  rw [countLine]
  split <;> simp [number]

/--
Where no text that is to be shown holds an escape character, neither does the plain report, and the
painted one is the plain one with escape sequences put in.
-/
theorem colors_decorate {diagnostics : List Diagnostic} (bare : ∀ d ∈ diagnostics, d.Bare)
    (clear : ∀ s ∈ sources, '\x1b' ∉ s.2.toList) :
    withoutSequences (report sources true diagnostics) = report sources false diagnostics ∧
      '\x1b' ∉ report sources false diagnostics := by
  have parts : List.Forall₂ Decorates
      (diagnostics.map (render sources true) ++ [paintLine true (countLine diagnostics.length)])
      (diagnostics.map (render sources false) ++
        [paintLine false (countLine diagnostics.length)]) := by
    refine List.rel_append ?_ (.cons (bare_countLine _).decorates .nil)
    rw [List.forall₂_map_left_iff, List.forall₂_map_right_iff, List.forall₂_same]
    exact fun d member => (bare d member).render clear
  have whole : Decorates (report sources true diagnostics) (report sources false diagnostics) :=
    .intercalate (by decide) parts
  exact ⟨by simpa [withoutSequences] using whole.erased [], whole.bare⟩

-- The label is painted together with the carets in front of it, and all colors go again.
theorem colors_decorate_of_label :
    ∃ (sources : Sources) (d : Diagnostic), d.Bare ∧
      (report sources true [d]).count '\x1b' = 38 ∧
      String.ofList (withoutSequences (report sources true [d])) =
        "error[E0103]: tag mismatch\n --> f.cpp:1:3\n  |\n1 | [[7;m]]\n  |   ^ found 2\n" ++
          "  |\n  = help: reopen\n  = note: first\n\nerror: 1 error found" := by
  let d : Diagnostic :=
    { message := "tag mismatch", location := some ⟨"f.cpp", 1, 3, 2, 3, 1, 4⟩,
      code := some "E0103", label := some "found 2", note := some "first", help := some "reopen" }
  let sources : Sources := [("f.cpp", "[[7;m]]")]
  have bare : d.Bare := by constructor <;> simp [d]
  have erased : withoutSequences (report sources true [d]) = report sources false [d] :=
    (colors_decorate (List.forall_mem_singleton.2 bare) (by simp [sources])).1
  refine ⟨sources, d, bare, by decide +kernel, ?_⟩
  rw [erased]
  decide +kernel

end Diagnostic

end ScopedNames

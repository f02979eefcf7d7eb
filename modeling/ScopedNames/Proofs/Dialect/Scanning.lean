import ScopedNames.Proofs.Dialect.Lexeme
import ScopedNames.Proofs.Dialect.Literals

set_option autoImplicit false

namespace ScopedNames.Dialect

variable {allowed : List Terminal} {terminal : Terminal} {letters rest : List Char} {gap : Layout}
variable {place last : Place} {p p' : Progress}

inductive Scan.Behind (allowed : List Terminal) (start : Place) : List Char → Scan → Prop where
  | token {terminal : Terminal} {word rest : List Char}
      (taken : lexeme? allowed (word ++ rest) = some (terminal, word)) :
      Behind allowed start (word ++ rest)
        (.token ⟨terminal, word, ⟨start, start.advance word⟩⟩ ⟨start.advance word, rest⟩)
  | misplaced {rest : List Char} (word : List Char) :
      Behind allowed start rest (.misplaced word start)
  | unknown {rest : List Char} (c : Char) : Behind allowed start rest (.unknown c start)
  | finished {rest : List Char} (none : rest = [] ∨ CutOff rest) :
      Behind allowed start rest .finished

theorem behind_of_scan {cursor : Cursor} {found : Scan} (scanned : scan allowed cursor = found) :
    ∃ (gap : Layout) (rest : List Char), cursor.rest = gap.text ++ rest ∧
      found.Behind allowed (cursor.place.advance gap.text) rest := by
  obtain ⟨gap, rest, split, left⟩ := exists_layout cursor.rest
  refine ⟨gap, rest, split, ?_⟩
  rw [← scanned, scan, split, skipLayout_layout]
  rcases left with settled | ⟨body, rfl, single⟩
  · rw [settled]
    cases rest with
    | nil => exact .finished (.inl rfl)
    | cons c rest =>
      simp only
      split
      · next terminal word taken =>
        obtain ⟨more, same⟩ := prefix_of_lexeme? taken
        rw [← same] at taken ⊢
        rw [List.drop_left]
        exact .token taken
      · split
        · exact .misplaced _
        · exact .unknown _
  · rw [skipLayout_open_line _ single]
    exact .finished (.inr ⟨body, rfl, single⟩)

theorem scan_layout (place : Place) (gap : Layout)
    (taken : lexeme? allowed (letters ++ rest) = some (terminal, letters)) :
    scan allowed ⟨place, gap.text ++ (letters ++ rest)⟩ =
      .token
        ⟨terminal, letters, ⟨place.advance gap.text, (place.advance gap.text).advance letters⟩⟩
        ⟨(place.advance gap.text).advance letters, rest⟩ := by
  obtain ⟨c, more, rfl⟩ := List.exists_cons_of_ne_nil (lexeme?_ne_nil taken)
  rw [scan, skipLayout_layout, settled_of_lexeme? taken]
  simp only [List.cons_append] at taken ⊢
  rw [taken]
  simp

theorem scan_end (place : Place) (gap : Layout) : scan allowed ⟨place, gap.text⟩ = .finished := by
  have whole := skipLayout_layout place gap []
  rw [List.append_nil, settled_nil] at whole
  rw [scan, whole]

theorem readFrom_token {cursor behind : Cursor} {token : Token}
    (scanned : scan p.allowed cursor = .token token behind) (fed : p.feed token = .ok p') :
    readFrom p cursor last = readFrom p' behind token.span.start := by
  rw [readFrom]
  split
  all_goals simp_all

theorem readFrom_refused {cursor behind : Cursor} {token : Token} {expected : List Terminal}
    (scanned : scan p.allowed cursor = .token token behind)
    (refused : p.feed token = .error expected) :
    readFrom p cursor last =
      .error (.unexpectedToken (String.ofList token.text) expected, token.span.start) := by
  rw [readFrom]
  split
  all_goals simp_all

theorem mem_literals_of_token {cursor behind : Cursor} {token : Token}
    {ds : List (Declaration Span)} (scanned : scan p.allowed cursor = .token token behind)
    (read : readFrom p cursor last = .ok ds) : ∀ l ∈ token.literal?, l ∈ literalsOf ds := by
  intro l literal
  cases fed : p.feed token with
  | error expected =>
    rw [readFrom_refused scanned fed] at read
    cases read
  | ok p' =>
    rw [readFrom_token scanned fed] at read
    refine (literals_of_readFrom read).subset ?_
    rw [Progress.literals_feed fed]
    exact List.mem_append_right _ (Option.mem_toList.2 literal)

theorem readFrom_layout {span : Span} (gap : Layout)
    (taken : lexeme? p.allowed (letters ++ rest) = some (terminal, letters))
    (starts : span = ⟨place.advance gap.text, (place.advance gap.text).advance letters⟩)
    (fed : p.feed ⟨terminal, letters, span⟩ = .ok p') :
    readFrom p ⟨place, gap.text ++ (letters ++ rest)⟩ last =
      readFrom p' ⟨span.stop, rest⟩ span.start := by
  subst starts
  exact readFrom_token (scan_layout place gap taken) fed

theorem readFrom_end (gap : Layout) (complete : p.isComplete = true) :
    readFrom p ⟨place, gap.text⟩ last = .ok p.declared := by
  have ended : scan p.allowed ⟨place, gap.text⟩ = .finished := scan_end place gap
  rw [readFrom]
  split
  all_goals simp_all

theorem isNameChar_of_isLayout {c : Char} (layout : isLayout c = true) : isNameChar c = false := by
  have blanks : [' ', '\t', '\x0c', '\r', '\n'].any isNameChar = false := by decide
  exact Bool.eq_false_iff.2 (List.any_eq_false.1 blanks c (of_decide_eq_true layout))

structure Lexeme where
  terminal : Terminal
  text : List Char

namespace Lexeme

def mark (t : Terminal) : Lexeme := ⟨t, t.spelling.toList⟩

def word (name : String) : Lexeme := ⟨.name, name.toList⟩

def literal? (x : Lexeme) : Option Literal :=
  if x.terminal = .int then some ⟨digitsValue x.text, x.text.length⟩ else none

/-- An integer that cannot become the value of an argument. -/
def Overlong (x : Lexeme) : Prop := x.terminal = .int ∧ maxDigits < x.text.length

theorem literal?_token (x : Lexeme) (start : Place) :
    (Token.mk x.terminal x.text ⟨start, start.advance x.text⟩).literal? = x.literal? := by
  rw [Token.literal?, literal?, Span.width, Place.offset_advance, Nat.add_sub_cancel_left]

instance (x : Lexeme) : Decidable x.Overlong := inferInstanceAs (Decidable (_ ∧ _))

theorem Overlong.literal? {x : Lexeme} (long : x.Overlong) :
    ∃ n, x.literal? = some ⟨n, x.text.length⟩ :=
  ⟨_, if_pos long.1⟩

theorem digits_le_of_literal? {x : Lexeme} {l : Literal} (legal : ¬x.Overlong)
    (literal : x.literal? = some l) : l.digits ≤ maxDigits := by
  unfold Lexeme.literal? at literal
  split at literal
  · next int =>
    cases literal
    exact Nat.not_lt.1 fun long => legal ⟨int, long⟩
  · cases literal

theorem digits_le_of_mem {xs : List Lexeme} (legal : ∀ x ∈ xs, ¬x.Overlong) :
    ∀ l ∈ xs.filterMap literal?, l.digits ≤ maxDigits := by
  intro l member
  obtain ⟨x, inside, literal⟩ := List.mem_filterMap.1 member
  exact digits_le_of_literal? (legal x inside) literal

def Fits (allowed : List Terminal) (x : Lexeme) : Prop :=
  lexeme? allowed x.text = some (x.terminal, x.text)

theorem Fits.append {x : Lexeme} (fits : x.Fits allowed)
    (ends : ∀ c ∈ rest.head?, isNameChar c = false) :
    lexeme? allowed (x.text ++ rest) = some (x.terminal, x.text) := by
  have alone : lexeme? allowed (x.text ++ []) = some (x.terminal, x.text) := by
    rwa [List.append_nil]
  exact lexeme?_append alone fun c first => .inr (ends c first)

theorem fits_of_taken (taken : lexeme? allowed (letters ++ rest) = some (terminal, letters)) :
    Lexeme.Fits allowed ⟨terminal, letters⟩ := by
  have alone : lexeme? allowed (letters ++ []) = some (terminal, letters) :=
    lexeme?_append taken (by simp)
  rwa [List.append_nil] at alone

inductive Known : Lexeme → Prop where
  | word {letters : List Char} (all : ∀ c ∈ letters, isNameChar c = true) : Known ⟨.name, letters⟩
  | digits {digits : List Char} (filled : digits ≠ []) (all : ∀ c ∈ digits, c.isDigit = true) :
      Known ⟨.int, digits⟩
  | mark {t : Terminal} (known : t ∈ Terminal.marks) : Known (mark t)

theorem known_of_lexeme? {text : List Char}
    (taken : lexeme? allowed text = some (terminal, letters)) :
    Known ⟨terminal, letters⟩ := by
  have filled := lexeme?_ne_nil taken
  unfold lexeme? at taken
  split at taken
  · cases taken
  · split at taken
    · obtain ⟨keyword, rfl⟩ := Prod.mk.inj (Option.some.inj taken)
      cases found : Terminal.keywords.find? fun k =>
          allowed.contains k && k.spelling.toList == List.takeWhile isNameChar _ with
      | none =>
        rw [found] at keyword
        cases keyword
        exact .word fun c member => List.mem_takeWhile_imp member
      | some k =>
        rw [found] at keyword
        cases keyword
        have spelt := List.find?_some found
        simp only [Bool.and_eq_true, beq_iff_eq] at spelt
        rw [← spelt.2]
        exact .mark (List.mem_append_left _ (List.mem_of_find?_eq_some found))
    · split at taken
      · obtain ⟨rfl, rfl⟩ := Prod.mk.inj (Option.some.inj taken)
        exact .digits filled fun c member => List.mem_takeWhile_imp member
      · obtain ⟨t, found, same⟩ := Option.map_eq_some_iff.1 taken
        obtain ⟨rfl, rfl⟩ := Prod.mk.inj same
        exact .mark (find?_marks.1 found).1

theorem Known.solid {x : Lexeme} (known : x.Known) : ∀ c ∈ x.text, isLayout c = false := by
  have solid {c : Char} (letter : isNameChar c = true) : isLayout c = false :=
    Bool.eq_false_iff.2 fun layout => by simp [isNameChar_of_isLayout layout] at letter
  cases known with
  | word all => exact fun c member => solid (all c member)
  | digits filled all => exact fun c member => solid (isNameChar_of_isDigit (all c member))
  | @mark t known =>
    have marked : Terminal.marks.all (fun t => t.spelling.toList.all (!isLayout ·)) = true := by
      decide
    intro c member
    simpa using List.all_eq_true.1 (List.all_eq_true.1 marked t known) c member

end Lexeme

/-- Wherever these tokens stand in a text, they are taken, and lead to what is asked for. -/
def Progress.Reads (goal : Progress → Prop) : Progress → List Lexeme → Prop
  | p, [] => goal p
  | p, x :: xs => x.Fits p.allowed ∧
      ∀ span, ∃ p', p.feed ⟨x.terminal, x.text, span⟩ = .ok p' ∧ Reads goal p' xs

/-- Each lexeme behind the layout in front of it, and some layout at the end. -/
def weave : List (Layout × Lexeme) → Layout → List Char
  | [], last => last.text
  | (gap, x) :: spaced, last => gap.text ++ (x.text ++ weave spaced last)

theorem head?_layout (filled : gap ≠ []) (more : List Char) :
    ∀ c ∈ (gap.text ++ more).head?, isNameChar c = false := by
  obtain ⟨piece, gap, rfl⟩ := List.exists_cons_of_ne_nil filled
  intro c first
  cases piece with
  | blank d layout =>
    cases first
    exact isNameChar_of_isLayout layout
  | block | line =>
    cases first
    decide

theorem head?_weave {spaced : List (Layout × Lexeme)} (last : Layout)
    (apart : ∀ x ∈ spaced, x.1 ≠ []) : ∀ c ∈ (weave spaced last).head?, isNameChar c = false := by
  cases spaced with
  | nil =>
    intro c first
    have filled : last ≠ [] := by
      rintro rfl
      cases first
    exact head?_layout filled [] c (by rwa [List.append_nil])
  | cons x spaced => exact head?_layout (apart x List.mem_cons_self) _

variable {goal : Progress → Prop} {spaced : List (Layout × Lexeme)}

-- The lexemes are read off, and the integers among them are all that becomes one.
theorem Progress.Reads.readFrom_eq (reads : p.Reads goal (spaced.map (·.2)))
    (apart : ∀ x ∈ spaced.tail, x.1 ≠ []) (gap : Layout) (place last : Place) :
    ∃ p' place' last', goal p' ∧
      p'.literals = p.literals ++ (spaced.map (·.2)).filterMap Lexeme.literal? ∧
      readFrom p ⟨place, weave spaced gap⟩ last = readFrom p' ⟨place', gap.text⟩ last' := by
  induction spaced generalizing p place last with
  | nil => exact ⟨p, place, last, reads, (List.append_nil _).symm, rfl⟩
  | cons x spaced ih =>
    obtain ⟨front, x⟩ := x
    obtain ⟨fits, fed⟩ := reads
    let start := place.advance front.text
    obtain ⟨p₁, fed, rest⟩ := fed ⟨start, start.advance x.text⟩
    -- Layout or the end of the text stands behind the token, and neither goes on with it.
    have taken := fits.append (head?_weave gap apart)
    obtain ⟨p', place', last', reached, literals, same⟩ :=
      ih rest (fun y member => apart y (List.mem_of_mem_tail member)) (start.advance x.text) start
    refine ⟨p', place', last', reached, ?_, (readFrom_layout front taken rfl fed).trans same⟩
    rw [literals, literals_feed fed, x.literal?_token, List.append_assoc]
    cases literal : x.literal? <;> simp [literal]

theorem Progress.Reads.readDeclarations_eq {P : List (Declaration Span) → Prop}
    (reads : Progress.start.Reads (fun p => p.isComplete = true ∧ P p.declared) (spaced.map (·.2)))
    (apart : ∀ x ∈ spaced.tail, x.1 ≠ []) (gap : Layout) :
    ∃ ds, readDeclarations (String.ofList (weave spaced gap)) = .ok ds ∧ P ds ∧
      literalsOf ds = (spaced.map (·.2)).filterMap Lexeme.literal? := by
  obtain ⟨p, place, last, ⟨complete, holds⟩, literals, same⟩ :=
    reads.readFrom_eq apart gap .origin .origin
  refine ⟨p.declared, ?_, holds, ?_⟩
  · rw [readDeclarations, String.toList_ofList, same, readFrom_end gap complete]
  · rw [← literals_of_complete complete, literals]
    rfl

end ScopedNames.Dialect

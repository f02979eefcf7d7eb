import ScopedNames.Proofs.Dialect.Reached

set_option autoImplicit false

namespace ScopedNames.Dialect

section Munch

/-- A keyword with a letter, a digit or `_` right behind it. -/
def Token.Glued (t : Token) (source : List Char) : Prop :=
  t.terminal ∈ Terminal.keywords ∧
    ∃ c ∈ (source.drop t.span.stop.offset).head?, isNameChar c = true

/-- No terminal takes more of the text than the token does. -/
def Token.Longest (t : Token) (source : List Char) : Prop :=
  ∀ terminal other word, lexeme? [terminal] (source.drop t.span.start.offset) =
    some (other, word) → word.length ≤ t.text.length

/-- All of a text in the tokens that its declarations are read from. -/
structure Parsed (source : List Char) (ds : List (Declaration Span)) (tokens : List Token) :
    Prop where
  apart : TakenApart source tokens
  reached : ∃ p, Reached source tokens p ∧ p.isComplete = true ∧ p.declared = ds
  sentence : ∃ fs, meanings fs = bareAll ds ∧ tokens.map Token.lexeme = lexemesOf fs

end Munch

variable {allowed : List Terminal} {terminal other : Terminal} {word word' rest text : List Char}
variable {source : List Char} {tokens front : List Token} {p : Progress} {t : Token}

open Terminal (marks keywords)

-- What is taken off a text: a whole word, all digits, or one spelling.
inductive Takes (allowed : List Terminal) (text : List Char) : Terminal → List Char → Prop where
  | word {terminal : Terminal} (named : .name ∈ allowed)
      (first : ∃ c ∈ text.head?, isNameStart c = true)
      (kind : terminal = .name ∨ terminal ∈ keywords) :
      Takes allowed text terminal (text.takeWhile isNameChar)
  | digits (first : ∃ c ∈ text.head?, c.isDigit = true) :
      Takes allowed text .int (text.takeWhile Char.isDigit)
  | mark {t : Terminal} (known : t ∈ marks) (front : t.spelling.toList <+: text)
      (listed : t ∈ allowed) (unnamed : t ∈ keywords → .name ∉ allowed) :
      Takes allowed text t t.spelling.toList

theorem isNameStart_of_keyword : ∀ t ∈ keywords, ∃ c ∈ t.spelling.toList.head?,
    isNameStart c = true := by
  have first : ∀ t ∈ keywords, t.spelling.toList.head?.any isNameStart = true := by decide
  exact fun t known => (Option.any_eq_true _ _).1 (first t known)

theorem isNameChar_of_keyword : ∀ t ∈ keywords, ∀ c ∈ t.spelling.toList, isNameChar c = true := by
  have letters : ∀ t ∈ keywords, t.spelling.toList.all isNameChar = true := by decide
  exact fun t known => List.all_eq_true.1 (letters t known)

theorem takes_of_lexeme? (taken : lexeme? allowed text = some (terminal, word)) :
    Takes allowed text terminal word := by
  unfold lexeme? at taken
  split at taken
  · cases taken
  · next c rest =>
    split at taken
    · next named =>
      rw [Bool.and_eq_true, List.contains_iff_mem] at named
      obtain ⟨keyword, rfl⟩ := Prod.mk.inj (Option.some.inj taken)
      refine .word named.1 ⟨c, rfl, named.2⟩ ?_
      cases found : keywords.find? fun k =>
          allowed.contains k && k.spelling.toList == List.takeWhile isNameChar (c :: rest) with
      | none => exact .inl (by rw [← keyword, found, Option.getD_none])
      | some k =>
        rw [found, Option.getD_some] at keyword
        exact .inr (keyword ▸ List.mem_of_find?_eq_some found)
    · next unnamed =>
      split at taken
      · next digits =>
        obtain ⟨rfl, rfl⟩ := Prod.mk.inj (Option.some.inj taken)
        exact .digits ⟨c, rfl, (Bool.and_eq_true_iff.1 digits).2⟩
      · obtain ⟨t, found, same⟩ := Option.map_eq_some_iff.1 taken
        obtain ⟨rfl, rfl⟩ := Prod.mk.inj same
        obtain ⟨known, listed, front⟩ := find?_marks.1 found
        refine .mark known front listed fun keyword named => unnamed ?_
        obtain ⟨d, first, start⟩ := isNameStart_of_keyword t keyword
        obtain ⟨more, same⟩ := List.head?_eq_some_iff.1 first
        obtain ⟨back, whole⟩ := front
        rw [same] at whole
        cases whole
        rw [Bool.and_eq_true, List.contains_iff_mem]
        exact ⟨named, start⟩

theorem length_le_takeWhile {f : Char → Bool} (front : word <+: text)
    (all : ∀ c ∈ word, f c = true) : word.length ≤ (text.takeWhile f).length := by
  obtain ⟨rest, rfl⟩ := front
  rw [List.takeWhile_append_of_pos all, List.length_append]
  exact Nat.le_add_right _ _

theorem front_of_mark {s : Terminal} (known : s ∈ marks) (front : s.spelling.toList <+: text) :
    ∃ c ∈ text.head?, c.isDigit = false ∧ (isNameStart c = true → s ∈ keywords) := by
  obtain ⟨c, rest, spelt, _, _, digit, keyword⟩ := mark_front s known
  obtain ⟨back, whole⟩ := front
  rw [spelt] at whole
  exact ⟨c, by rw [← whole]; rfl, digit, keyword⟩

theorem lexeme?_name_alone (first : ∃ c ∈ text.head?, isNameStart c = true) :
    ∃ other, lexeme? [.name] text = some (other, text.takeWhile isNameChar) := by
  obtain ⟨c, head, start⟩ := first
  obtain ⟨rest, rfl⟩ := List.head?_eq_some_iff.1 head
  simp only [lexeme?]
  rw [if_pos (by simp [start])]
  exact ⟨_, rfl⟩

theorem Takes.word_of_keyword (takes : Takes allowed text terminal word)
    (keyword : terminal ∈ keywords) :
    (∃ c ∈ text.head?, isNameStart c = true) ∧ ∀ c ∈ word, isNameChar c = true := by
  cases takes with
  | word _ first => exact ⟨first, fun c member => List.mem_takeWhile_imp member⟩
  | digits => exact absurd keyword (by decide)
  | mark known front =>
    obtain ⟨c, first, start⟩ := isNameStart_of_keyword terminal keyword
    obtain ⟨back, rfl⟩ := front
    refine ⟨⟨c, ?_, start⟩, isNameChar_of_keyword terminal keyword⟩
    rw [List.head?_append, Option.mem_def.1 first]
    rfl

theorem Takes.length_le_word (takes : Takes allowed text terminal word)
    (first : ∃ c ∈ text.head?, isNameStart c = true) :
    word.length ≤ (text.takeWhile isNameChar).length := by
  obtain ⟨c, head, start⟩ := first
  cases takes with
  | word => exact Nat.le_refl _
  | digits first =>
    obtain ⟨d, head', digit⟩ := first
    cases Option.mem_unique head head'
    simp [isNameStart_of_isDigit digit] at start
  | mark known front =>
    obtain ⟨d, head', _, keyword⟩ := front_of_mark known front
    cases Option.mem_unique head head'
    exact length_le_takeWhile front (isNameChar_of_keyword _ (keyword start))

theorem Takes.eq_digits (takes : Takes allowed text terminal word)
    (first : ∃ c ∈ text.head?, c.isDigit = true) : word = text.takeWhile Char.isDigit := by
  obtain ⟨c, head, digit⟩ := first
  cases takes with
  | word _ first =>
    obtain ⟨d, head', start⟩ := first
    cases Option.mem_unique head head'
    simp [isNameStart_of_isDigit digit] at start
  | digits => rfl
  | mark known front =>
    obtain ⟨d, head', none, _⟩ := front_of_mark known front
    cases Option.mem_unique head head'
    simp [digit] at none

theorem Takes.length_le {allowed' : List Terminal} (takes : Takes allowed text terminal word)
    (takes' : Takes allowed' text other word')
    (whole : terminal ∈ keywords → word = text.takeWhile isNameChar) :
    word'.length ≤ word.length := by
  cases takes with
  | word _ first => exact takes'.length_le_word first
  | digits first => exact Nat.le_of_eq (congrArg List.length (takes'.eq_digits first))
  | mark known front listed unnamed =>
    cases takes' with
    | word _ first =>
      obtain ⟨c, head, _, keyword⟩ := front_of_mark known front
      obtain ⟨d, head', start⟩ := first
      cases Option.mem_unique head head'
      rw [whole (keyword start)]
    | digits first =>
      have same := (Takes.mark known front listed unnamed).eq_digits first
      rw [← same]
    | mark known' front' =>
      rcases List.prefix_or_prefix_of_prefix front front' with inside | inside
      · rw [Terminal.eq_of_spelling_prefix _ known' _ known inside]
      · exact inside.length_le

theorem longest_iff (taken : lexeme? allowed (word ++ rest) = some (terminal, word)) :
    (∀ alone other word', lexeme? [alone] (word ++ rest) = some (other, word') →
      word'.length ≤ word.length) ↔
      (terminal ∈ keywords → ∀ c ∈ rest.head?, isNameChar c = false) := by
  have takes := takes_of_lexeme? taken
  constructor
  · intro longest keyword c next
    obtain ⟨more, rfl⟩ := List.head?_eq_some_iff.1 next
    obtain ⟨first, letters⟩ := takes.word_of_keyword keyword
    obtain ⟨other, alone⟩ := lexeme?_name_alone first
    have short := longest _ _ _ alone
    rw [List.takeWhile_append_of_pos letters, List.length_append] at short
    rw [Bool.eq_false_iff]
    intro letter
    rw [List.takeWhile_cons_of_pos letter, List.length_cons] at short
    omega
  · intro ends alone other word' taken'
    refine takes.length_le (takes_of_lexeme? taken') fun keyword => ?_
    rw [List.takeWhile_append_of_pos (takes.word_of_keyword keyword).2]
    have none : rest.takeWhile isNameChar = [] := by
      cases rest with
      | nil => rfl
      | cons c more => rw [List.takeWhile_cons_of_neg (by simp [ends keyword c rfl])]
    rw [none, List.append_nil]

theorem Takes.unnamed_of_glued (takes : Takes allowed (word ++ rest) terminal word)
    (keyword : terminal ∈ keywords) (glued : ∃ c ∈ rest.head?, isNameChar c = true) :
    terminal ∈ allowed ∧ .name ∉ allowed := by
  obtain ⟨c, next, letter⟩ := glued
  obtain ⟨more, rfl⟩ := List.head?_eq_some_iff.1 next
  generalize whole : word ++ c :: more = text at takes
  cases takes with
  | word =>
    have behind : text.dropWhile isNameChar = c :: more := by
      rw [← List.append_cancel_left_eq (text.takeWhile isNameChar),
        List.takeWhile_append_dropWhile, whole]
    have ends := List.head?_dropWhile_not isNameChar text
    simp [behind, letter] at ends
  | digits => exact absurd keyword (by decide)
  | mark _ _ listed unnamed => exact ⟨listed, unnamed keyword⟩

-- Where `true` or `false` can stand, a name can stand too.
theorem Progress.name_of_bool {p : Progress}
    (listed : .trueWord ∈ p.allowed ∨ .falseWord ∈ p.allowed) : .name ∈ p.allowed := by
  obtain ⟨enclosing, declared, phase⟩ := p
  revert listed
  cases phase with
  | opening => cases enclosing <;> simp [allowed, declarationStarts]
  | _ => simp [allowed, declarationStarts, argumentStarts]

theorem TakenApart.exists_behind (apart : TakenApart source tokens) : ∀ t ∈ tokens,
    ∃ rest, source.drop t.span.start.offset = t.text ++ rest ∧
      source.drop t.span.stop.offset = rest := by
  obtain ⟨text, gap, rest, rfl, tokenized, _⟩ := apart
  intro t member
  obtain ⟨before, back, rfl, start, stop⟩ := tokenized.exists_split t member
  refine ⟨back ++ (gap.text ++ rest), ?_, ?_⟩
  · rw [start, Place.offset_origin]
    simp
  · rw [stop, Place.offset_origin, List.append_assoc, List.drop_left]

theorem exists_parsed {file source : String} {u : SourceUnit}
    (read : readUnit file source = .ok u) :
    ∃ tokens, Parsed source.toList u.declarations tokens := by
  obtain ⟨_, reading, _⟩ := readUnit_eq_ok.1 read
  have accepted : ∀ fault place, readDeclarations source = .error (fault, place) →
      fault = .unexpectedEnd := by simp [reading]
  obtain ⟨tokens, p, apart, reached, concluded⟩ := exists_conclusion accepted
  obtain ⟨complete, same⟩ := Progress.conclusion_eq_ok.1 (concluded.symm.trans reading)
  obtain ⟨fs, meaning, makes⟩ := (reached.took.complete complete).written
  exact ⟨tokens, apart, ⟨p, reached, complete, same⟩, fs, same ▸ meaning, makes.lexemes⟩

theorem Parsed.exists_state {ds : List (Declaration Span)} {back : List Token}
    (parsed : Parsed source ds (front ++ t :: back)) :
    ∃ q rest, Reached source front q ∧
      lexeme? q.allowed (t.text ++ rest) = some (t.terminal, t.text) ∧
      source.drop t.span.start.offset = t.text ++ rest ∧
      source.drop t.span.stop.offset = rest := by
  obtain ⟨apart, ⟨p, reached, _⟩, _⟩ := parsed
  obtain ⟨q, before, taken⟩ := reached.exists_state rfl
  obtain ⟨rest, here, behind⟩ := apart.exists_behind t (by simp)
  exact ⟨q, rest, before, here ▸ taken, here, behind⟩

/--
The tokens of a parse are the longest ones, unless a keyword is taken off a longer word. That can
only be where no name could stand, so never a truth value.
-/
theorem longest_unless_glued {file source : String} {u : SourceUnit}
    (read : readUnit file source = .ok u) :
    ∃ tokens, Parsed source.toList u.declarations tokens ∧
      (∀ front t back, tokens = front ++ t :: back → t.Glued source.toList →
        t.terminal ∈ [.inlineWord, .namespaceWord, .usingWord] ∧
          ∃ q, Reached source.toList front q ∧ .name ∉ q.allowed) ∧
      ∀ t ∈ tokens, t.Longest source.toList ↔ ¬t.Glued source.toList := by
  obtain ⟨tokens, parsed⟩ := exists_parsed read
  refine ⟨tokens, parsed, ?_, ?_⟩
  · rintro front t back rfl ⟨keyword, glued⟩
    obtain ⟨q, rest, before, taken, _, behind⟩ := parsed.exists_state
    rw [behind] at glued
    obtain ⟨listed, unnamed⟩ := (takes_of_lexeme? taken).unnamed_of_glued keyword glued
    refine ⟨?_, q, before, unnamed⟩
    have truth : t.terminal ≠ .trueWord ∧ t.terminal ≠ .falseWord := by
      constructor <;> intro bool
      · exact unnamed (Progress.name_of_bool (.inl (bool ▸ listed)))
      · exact unnamed (Progress.name_of_bool (.inr (bool ▸ listed)))
    revert keyword truth
    generalize t.terminal = terminal
    cases terminal <;> simp [keywords]
  · intro t member
    obtain ⟨front, back, rfl⟩ := List.append_of_mem member
    obtain ⟨q, rest, _, taken, here, behind⟩ := parsed.exists_state
    rw [Token.Longest, here, longest_iff taken, Token.Glued, behind]
    simp

-- A keyword and the name behind it, with nothing between them.

def joinedText : String := "namespaceA\x7b\x7d"

def joinedUnit : SourceUnit where
  file := "main.cpp"
  declarations :=
    [.namespaceDefinition [⟨"A", false, onFirstLine 9 10⟩] [] [] (onFirstLine 0 12)]

theorem readUnit_joined : readUnit "main.cpp" joinedText = .ok joinedUnit := by
  have read : readWithin 20 .start ⟨.origin, joinedText.toList⟩ =
      some joinedUnit.declarations := by cbv
  exact readUnit_of_readWithin read (by decide)

theorem longest_unless_glued_of_joined :
    readUnit "main.cpp" joinedText = .ok joinedUnit ∧
      ∃ tokens, Parsed joinedText.toList joinedUnit.declarations tokens ∧
        ∃ t ∈ tokens, t.terminal = .namespaceWord ∧ t.Glued joinedText.toList ∧
          ¬t.Longest joinedText.toList := by
  obtain ⟨tokens, parsed, _, longest⟩ := longest_unless_glued readUnit_joined
  refine ⟨readUnit_joined, tokens, parsed, ?_⟩
  cases tokens with
  | nil =>
    obtain ⟨p, reached, _, same⟩ := parsed.reached
    cases reached.eq_start
    cases same
  | cons t back =>
    rw [← List.nil_append (t :: back)] at parsed
    obtain ⟨q, rest, before, taken, here, behind⟩ := parsed.exists_state
    cases before.eq_start
    rw [← here] at taken
    -- Nothing but the keyword at the front of the text is anything to begin with.
    have later : ∀ n < 12, n ≠ 0 →
        lexeme? Progress.start.allowed (joinedText.toList.drop n) = none := by decide
    have front : t.span.start.offset = 0 := by
      by_contra apart
      by_cases inside : t.span.start.offset < 12
      · simp [later _ inside apart] at taken
      · rw [List.drop_eq_nil_of_le (Nat.le_of_not_lt inside)] at taken
        cases taken
    rw [front, List.drop_zero] at taken here
    obtain ⟨keyword, word⟩ : .namespaceWord = t.terminal ∧ "namespace".toList = t.text := by
      have first : lexeme? Progress.start.allowed joinedText.toList =
          some (.namespaceWord, "namespace".toList) := by decide
      rw [first] at taken
      exact Prod.mk.inj (Option.some.inj taken)
    rw [← word] at here
    have rest_eq : rest = "A\x7b\x7d".toList := List.append_cancel_left here.symm
    have glued : t.Glued joinedText.toList := by
      rw [Token.Glued, behind, rest_eq, ← keyword]
      exact ⟨by decide, 'A', rfl, by decide⟩
    exact ⟨t, List.mem_cons_self, keyword.symm, glued,
      fun most => (longest t List.mem_cons_self).1 most glued⟩

end ScopedNames.Dialect

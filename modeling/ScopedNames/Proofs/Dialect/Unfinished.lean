import ScopedNames.Proofs.Diagnostic.Excerpt
import ScopedNames.Proofs.Dialect.Completion
import ScopedNames.Proofs.Dialect.Keywords

set_option autoImplicit false

namespace ScopedNames

/--
A location where some characters of a text begin. They and all that follows stand between it and
the end of the text, which is in a later line or that much further on in the same one.
-/
structure Location.ShortOfEnd (l : Location) (source own : List Char) : Prop where
  filled : own ≠ []
  begins : ∃ front back, source = front ++ own ++ back ∧ l.line = 1 + front.count '\n' ∧
    l.column = 1 + (lastLine front).length
  short : l.line < 1 + source.count '\n' ∨
    l.line = 1 + source.count '\n' ∧ l.column + own.length ≤ 1 + (lastLine source).length

namespace Dialect

variable {source front rest own back : List Char} {tokens : List Token} {p p' : Progress}
variable {t : Token}

theorem scan_finished {allowed : List Terminal} (place : Place) (gap : Layout)
    (ended : rest = [] ∨ CutOff rest) : scan allowed ⟨place, gap.text ++ rest⟩ = .finished := by
  rcases ended with rfl | ⟨body, rfl, single⟩
  · rw [List.append_nil]
    exact scan_end place gap
  · rw [scan, skipLayout_layout, skipLayout_open_line _ single]

theorem readDeclarations_of_reached {source : String} (apart : TakenApart source.toList tokens)
    (reached : Reached source.toList tokens p) :
    readDeclarations source = p.conclusion tokens := by
  obtain ⟨front, gap, rest, whole, tokenized, ended⟩ := apart
  rw [whole] at reached
  have finished : scan p.allowed ⟨Place.origin.advance front, gap.text ++ rest⟩ = .finished :=
    scan_finished _ gap ended
  rw [readDeclarations, whole, readFrom_of_reached tokenized reached, readFrom]
  split
  all_goals simp_all [Progress.conclusion]

theorem readDeclarations_eq_unexpectedEnd {source : String} {place : Place} :
    readDeclarations source = .error (.unexpectedEnd, place) ↔
      ∃ before t p, TakenApart source.toList (before ++ [t]) ∧
        Reached source.toList (before ++ [t]) p ∧ p.isComplete = false ∧
        place = t.span.start := by
  constructor
  · intro failed
    have ended : ∀ fault place, readDeclarations source = .error (fault, place) →
        fault = .unexpectedEnd := by simp [failed, eq_comm]
    obtain ⟨tokens, p, apart, reached, concluded⟩ := exists_conclusion ended
    rw [failed, Progress.conclusion] at concluded
    by_cases complete : p.isComplete = true
    · simp [complete] at concluded
    · simp only [if_neg complete, Except.error.injEq, Prod.mk.injEq, true_and] at concluded
      -- Before the first token nothing is unfinished.
      rcases List.eq_nil_or_concat' tokens with rfl | ⟨before, t, rfl⟩
      · exact absurd (reached.eq_start ▸ rfl) complete
      · refine ⟨before, t, p, apart, reached, Bool.eq_false_iff.2 complete, ?_⟩
        simpa [lastStart] using concluded
  · rintro ⟨before, t, p, apart, reached, unfinished, rfl⟩
    rw [readDeclarations_of_reached apart reached, Progress.conclusion]
    simp [unfinished, lastStart]

theorem shortOfEnd_of_place {l : Location} (filled : own ≠ []) (solid : '\n' ∉ own)
    (line : l.line = (Place.origin.advance front).line)
    (column : l.column = (Place.origin.advance front).column) :
    l.ShortOfEnd (front ++ own ++ back) own := by
  have row : l.line = 1 + front.count '\n' := by
    rw [line, Place.line_advance]
    rfl
  have place : l.column = 1 + (lastLine front).length := by
    rw [column, Place.column_advance, lastLine, List.length_reverse]
    rfl
  refine ⟨filled, ⟨front, back, rfl, row, place⟩, ?_⟩
  rw [List.count_append, List.count_append, List.count_eq_zero.2 solid]
  by_cases further : '\n' ∈ back
  · have more := List.count_pos_iff.2 further
    exact .inl (by omega)
  · have single : '\n' ∉ own ++ back := by simp [solid, further]
    rw [List.count_eq_zero.2 further, List.append_assoc, lastLine_append single,
      List.length_append, List.length_append]
    exact .inr (by omega)

theorem TakenApart.shortOfEnd (apart : TakenApart source tokens) (file : String) :
    ∀ t ∈ tokens, (t.span.start.locate file).ShortOfEnd source t.text := by
  obtain ⟨text, gap, rest, rfl, tokenized, _⟩ := apart
  intro t member
  obtain ⟨before, back, rfl, start, _⟩ := tokenized.exists_split t member
  obtain ⟨filled, solid⟩ := tokenized.solid t member
  have single : '\n' ∉ t.text := fun inside => absurd (solid _ inside) (by decide)
  rw [List.append_assoc, start]
  exact shortOfEnd_of_place filled single rfl rfl

/--
Input ends unexpectedly where its tokens have led to no complete unit. What is reported then is
where the last of them begins, never where the text ends.
-/
theorem unexpected_end_located (file source : String) (location : Location) :
    (∃ fault, readUnit file source = .error (.atPlace fault location) ∧
        fault.message = "unexpected end of input") ↔
      ∃ before t p, TakenApart source.toList (before ++ [t]) ∧
        Reached source.toList (before ++ [t]) p ∧ p.isComplete = false ∧
        location = t.span.start.locate file ∧ location.ShortOfEnd source.toList t.text := by
  constructor
  · rintro ⟨fault, failed, message⟩
    obtain ⟨place, reading, rfl⟩ := readUnit_eq_error.1 failed
    rw [SyntaxFault.message_eq_end.1 message] at reading
    obtain ⟨before, t, p, apart, reached, unfinished, rfl⟩ :=
      readDeclarations_eq_unexpectedEnd.1 reading
    exact ⟨before, t, p, apart, reached, unfinished, rfl, apart.shortOfEnd file t (by simp)⟩
  · rintro ⟨before, t, p, apart, reached, unfinished, rfl, _⟩
    have reading := readDeclarations_eq_unexpectedEnd.2
      ⟨before, t, p, apart, reached, unfinished, rfl⟩
    exact ⟨.unexpectedEnd, readUnit_eq_error.2 ⟨_, reading, rfl⟩, rfl⟩

-- A body that is not closed. The text has 13 characters.

def openText : String := "namespace A \x7b"

def openBrace : Location := { file := "main.cpp", line := 1, column := 13 }

theorem readUnit_open :
    readUnit "main.cpp" openText = .error (.atPlace .unexpectedEnd openBrace) := by
  let first : Token := ⟨.namespaceWord, "namespace".toList, onFirstLine 0 9⟩
  let second : Token := ⟨.name, ['A'], onFirstLine 10 11⟩
  let third : Token := ⟨.leftBrace, ['\x7b'], onFirstLine 12 13⟩
  let path : OpenPath := ⟨.origin, [], [⟨"A", false, onFirstLine 10 11⟩]⟩
  let begun : Progress := Progress.start.move (.namespaceRead .origin false)
  let named : Progress := Progress.start.move (.pathRead path)
  let inside : Progress := ⟨[⟨path, []⟩], [], .opening⟩
  have keyword : scan Progress.start.allowed ⟨.origin, openText.toList⟩ =
      .token first ⟨first.span.stop, " A \x7b".toList⟩ := by cbv
  have word : scan begun.allowed ⟨first.span.stop, " A \x7b".toList⟩ =
      .token second ⟨second.span.stop, " \x7b".toList⟩ := by cbv
  have brace : scan named.allowed ⟨second.span.stop, " \x7b".toList⟩ =
      .token third ⟨third.span.stop, []⟩ := by cbv
  have ended : scan inside.allowed ⟨third.span.stop, []⟩ = .finished := scan_end _ []
  have fed : Progress.start.feed first = .ok begun := rfl
  have fed' : begun.feed second = .ok named := rfl
  have fed'' : named.feed third = .ok inside := rfl
  have unfinished : inside.isComplete = false := rfl
  have reading : readDeclarations openText = .error (.unexpectedEnd, third.span.start) := by
    rw [readDeclarations, readFrom_token keyword fed, readFrom_token word fed',
      readFrom_token brace fed'', readFrom]
    split
    all_goals simp_all
  exact readUnit_eq_error.2 ⟨_, reading, rfl⟩

-- Just past the last character would be column 14.
theorem unexpected_end_located_of_brace :
    readUnit "main.cpp" openText = .error (.atPlace .unexpectedEnd openBrace) ∧
      1 + openText.toList.count '\n' = 1 ∧ 1 + (lastLine openText.toList).length = 14 ∧
      ∃ before t, TakenApart openText.toList (before ++ [t]) ∧
        openBrace = t.span.start.locate "main.cpp" ∧
        openBrace.ShortOfEnd openText.toList t.text := by
  obtain ⟨before, t, p, apart, _, _, located, short⟩ :=
    (unexpected_end_located "main.cpp" openText openBrace).1 ⟨_, readUnit_open, rfl⟩
  exact ⟨readUnit_open, by decide, by decide, before, t, apart, located, short⟩

end Dialect

end ScopedNames

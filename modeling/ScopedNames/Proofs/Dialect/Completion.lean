import ScopedNames.Proofs.Dialect.Reached

set_option autoImplicit false

namespace ScopedNames.Dialect

open Lexeme (mark word)

variable {p p' : Progress} {fault : SyntaxFault}

section Nearer

-- How many tokens end the declaration, if nothing more is put into it than has to be.
def Phase.distance : Phase → Nat
  | opening | between => 0
  | pathRead _ => 2
  | pathSeparator _ | pathInline _ _ | namespaceRead _ _ | specifierClosed _ => 3
  | inlineRead _ | specifierOpen _ | attributeName _ _ _ | attributeNamed _ | argumentsClosed _ => 4
  | attributeComma _ | attributeOwner _ _ _ | argumentsOpen _ | argumentRead _ | nameRead _ _ => 5
  | argumentComma _ | nameRoot _ _ | nameSeparator _ _ | usingNamespace _ _ => 6
  | usingRead _ _ => 7

def Progress.distance (p : Progress) : Nat := p.enclosing.length + p.phase.distance

-- A token that can always follow, and goes towards the end of the declaration.
def Phase.nearer : Phase → Lexeme
  | opening | between => mark .rightBrace
  | inlineRead _ | usingRead _ _ => mark .namespaceWord
  | namespaceRead _ _ | pathSeparator _ | pathInline _ _ | attributeOwner _ _ _ | attributeComma _
  | nameRoot _ _ | nameSeparator _ _ | usingNamespace _ _ | specifierClosed ⟨.definition _ _, _⟩ =>
    word "x"
  | specifierOpen _ | attributeName _ _ _ | attributeNamed _ | argumentsClosed _ =>
    mark .closeSpecifier
  | argumentsOpen _ | argumentRead _ | nameRead (.argument _) _ => mark .rightParen
  | argumentComma _ => mark .trueWord
  | specifierClosed ⟨.declaration _, _⟩ | nameRead (.directive _ _) _ => mark .semicolon
  | pathRead _ => mark .leftBrace

end Nearer

theorem fits_x {allowed : List Terminal} (listed : .name ∈ allowed) :
    (word "x").Fits allowed := by
  have free : ∀ k ∈ Terminal.keywords, k.spelling.toList ≠ "x".toList := by decide
  exact lexeme?_word.2 ⟨listed, by decide, fun k known _ => free k known⟩

namespace Progress

theorem nearer_fits (unfinished : p.isComplete = false) : p.phase.nearer.Fits p.allowed := by
  obtain ⟨enclosing, declared, phase⟩ := p
  have marked {t : Terminal} {allowed : List Terminal} (known : t ∈ Terminal.marks)
      (listed : t ∈ allowed) : (mark t).Fits allowed := lexeme?_mark known listed
  cases phase with
  | opening =>
    cases enclosing with
    | nil => cases unfinished
    | cons => exact marked (by decide) List.mem_cons_self
  | nameRead use => cases use <;> exact marked (by decide) (by simp [allowed])
  | specifierClosed list =>
    obtain ⟨site | site, list⟩ := list
    · exact fits_x (by simp [allowed])
    · exact marked (by decide) (by simp [allowed])
  | namespaceRead | pathSeparator | pathInline | attributeOwner | attributeComma | nameRoot
  | nameSeparator | usingNamespace => exact fits_x (by simp [allowed])
  | _ => exact marked (by decide) (by simp [allowed, argumentStarts])

theorem nearer_feed (unfinished : p.isComplete = false) (span : Span) :
    ∃ p', p.feed ⟨p.phase.nearer.terminal, p.phase.nearer.text, span⟩ = .ok p' ∧
      p'.distance < p.distance := by
  obtain ⟨enclosing, declared, phase⟩ := p
  cases phase with
  | opening | between =>
    cases enclosing with
    | nil => cases unfinished
    | cons d outer => exact ⟨_, rfl, by simp [distance, Phase.distance]⟩
  | nameRead use => cases use <;> exact ⟨_, rfl, by simp [distance, Phase.distance, declare, move]⟩
  | specifierClosed list =>
    obtain ⟨site | site, list⟩ := list <;>
      exact ⟨_, rfl, by simp [distance, Phase.distance, declare, move]⟩
  | pathRead => exact ⟨_, rfl, by simp [distance, Phase.distance]⟩
  | _ => exact ⟨_, rfl, by simp [distance, Phase.distance, move]⟩

theorem nearer_not_int (φ : Phase) : φ.nearer.terminal ≠ .int := by
  cases φ with
  | nameRead use => cases use <;> nofun
  | specifierClosed list => obtain ⟨site | site, list⟩ := list <;> nofun
  | _ => nofun

-- Behind this text something can follow with which all is read, and no more integers.
def Viable (p : Progress) (text : List Char) : Prop :=
  ∀ place last, ∃ more ds, readFrom p ⟨place, text ++ '\n' :: more⟩ last = .ok ds ∧
    literalsOf ds = p.literals

theorem viable_layout (p : Progress) (gap : Layout) : p.Viable gap.text := by
  intro place last
  let broken : Layout := gap ++ [.blank '\n' rfl]
  have wider : broken.text = gap.text ++ ['\n'] := by simp [broken, Layout.text, LayoutPiece.text]
  cases finished : p.isComplete with
  | true =>
    refine ⟨[], p.declared, ?_, (literals_of_complete finished).symm⟩
    rw [← wider]
    exact readFrom_end _ finished
  | false =>
    -- One more token, in a line of its own, and the end is nearer.
    let x := p.phase.nearer
    let start := place.advance broken.text
    obtain ⟨p', fed, less⟩ := nearer_feed finished ⟨start, start.advance x.text⟩
    obtain ⟨more, ds, read, same⟩ := viable_layout p' [] (start.advance x.text) start
    have taken : lexeme? p.allowed (x.text ++ '\n' :: more) = some (x.terminal, x.text) :=
      (nearer_fits finished).append (by simp; decide)
    have whole : readFrom p ⟨place, broken.text ++ (x.text ++ '\n' :: more)⟩ last = .ok ds :=
      (readFrom_layout broken taken rfl fed).trans read
    refine ⟨x.text ++ '\n' :: more, ds, ?_, ?_⟩
    · rwa [wider, List.append_assoc] at whole
    · rw [same, literals_feed fed, Token.literal?, if_neg (nearer_not_int _)]
      exact List.append_nil _
termination_by p.distance

theorem viable_open_line (p : Progress) (gap : Layout) {body : List Char} (single : '\n' ∉ body) :
    p.Viable (gap.text ++ '/' :: '/' :: body) := by
  intro place last
  obtain ⟨more, ds, read, same⟩ := p.viable_layout (gap ++ [.line body single]) place last
  refine ⟨'\n' :: more, ds, ?_, same⟩
  simpa [Layout.text, LayoutPiece.text] using read

end Progress

section Completions

variable {front rest : List Char} {tokens : List Token} {ds : List (Declaration Span)} {t : Token}
variable (tokenized : Tokenized front tokens) (reached : Reached (front ++ rest) tokens p)

include tokenized reached

theorem exists_completion (viable : p.Viable rest) :
    ∃ more ds, readDeclarations (String.ofList (front ++ rest ++ more)) = .ok ds ∧
      literalsOf ds = tokens.filterMap Token.literal? := by
  obtain ⟨more, ds, read, same⟩ := viable (Place.origin.advance front) (lastStart tokens)
  have further : Reached (front ++ (rest ++ '\n' :: more)) tokens p := by
    refine reached.replace tokenized fun c first => ?_
    cases rest with
    | nil =>
      cases first
      exact .inr (by decide)
    | cons d rest => exact .inl first
  refine ⟨'\n' :: more, ds, ?_, same.trans reached.literals⟩
  rw [readDeclarations, String.toList_ofList, List.append_assoc,
    readFrom_of_reached tokenized further, read]

-- An integer in front stays one of the text whatever follows, and never gets shorter.
theorem exists_literal_of_completion (member : t ∈ tokens) (int : t.terminal = .int)
    {more : List Char}
    (read : readDeclarations (String.ofList (front ++ rest ++ more)) = .ok ds) :
    ∃ l ∈ literalsOf ds, t.text.length ≤ l.digits := by
  rw [readDeclarations, String.toList_ofList] at read
  induction tokenized generalizing rest p with
  | nil => cases member
  | @snoc front tokens allowed x start gap before fits begins ih =>
    obtain ⟨q, earlier, taken, fed⟩ := (Reached.snoc_iff begins).1 reached
    rcases List.mem_append.1 member with old | new
    · refine ih earlier old ?_
      simpa using read
    · cases List.mem_singleton.1 new
      obtain ⟨terminal, letters⟩ := x
      cases int
      obtain ⟨longer, again, less⟩ := lexeme?_int_append taken more
      obtain ⟨back, whole⟩ := prefix_of_lexeme? again
      -- Up to this token nothing has changed.
      have still := head?_token gap (lexeme?_ne_nil taken) rest (rest ++ more)
      have further : Reached (front ++ (gap.text ++ (longer ++ back))) tokens q := by
        refine earlier.replace before fun c first => .inl ?_
        rw [whole, List.append_assoc] at first
        exact still ▸ first
      have same : front ++ gap.text ++ letters ++ rest ++ more =
          front ++ (gap.text ++ (longer ++ back)) := by simp [whole]
      rw [← whole] at again
      rw [same, readFrom_of_reached before further] at read
      have scanned := scan_layout (Place.origin.advance front) gap again
      exact ⟨_, mem_literals_of_token scanned read _ (Lexeme.literal?_token ⟨.int, longer⟩ _), less⟩

end Completions

theorem viable_of_error {source : String} {place : Place}
    (reading : readDeclarations source = .error (fault, place)) :
    ∃ front rest back tokens p, source.toList = front ++ rest ++ back ∧ Tokenized front tokens ∧
      TakenApart (front ++ rest) tokens ∧ Reached (front ++ rest) tokens p ∧ p.Viable rest ∧
      (fault = .unexpectedEnd → back = []) ∧
      (fault ≠ .unexpectedEnd → place = Place.origin.advance (front ++ rest)) := by
  obtain ⟨tokens, p, reached, stops⟩ := exists_stop source
  rw [reading] at stops
  cases stops with
  | atEnd apart same =>
    have ended : fault = .unexpectedEnd := by
      unfold Progress.conclusion at same
      split at same <;> cases same
      rfl
    have whole := apart
    obtain ⟨front, gap, rest, split, tokenized, none⟩ := whole
    rw [split] at apart reached
    refine ⟨front, gap.text ++ rest, [], tokens, p, ?_, tokenized, apart, reached, ?_, fun _ => rfl,
      (absurd ended ·)⟩
    · rw [split, List.append_nil]
    · rcases none with rfl | ⟨body, rfl, single⟩
      · rw [List.append_nil]
        exact p.viable_layout gap
      · exact p.viable_open_line gap single
  | @early front rest _ gap whole tokenized other same =>
    cases same
    have apart : TakenApart (front ++ gap.text) tokens :=
      ⟨front, gap, [], by rw [List.append_nil], tokenized, .inl rfl⟩
    rw [whole] at reached
    refine ⟨front, gap.text, rest, tokens, p, ?_, tokenized, apart, ?_, p.viable_layout gap,
      (absurd · other), fun _ => rfl⟩
    · rw [whole, List.append_assoc]
    · refine reached.replace tokenized fun c first => .inl ?_
      rw [List.head?_append, Option.mem_def.1 first]
      rfl

section Offset

def lineStart : Nat → List Char → Nat
  | line + 1, c :: text => (if c = '\n' then lineStart line text else lineStart (line + 1) text) + 1
  | _, _ => 0

/-- The offset of what is in some line and column, both counted from one. -/
def offsetAt (text : List Char) (line column : Nat) : Nat := lineStart (line - 1) text + column - 1

end Offset

theorem lineStart_zero (text : List Char) : lineStart 0 text = 0 := by
  cases text <;> rfl

theorem Place.line_le_advance (start : Place) (text : List Char) :
    start.line ≤ (start.advance text).line := by
  induction text generalizing start with
  | nil => exact Nat.le_refl _
  | cons c text ih =>
    refine Nat.le_trans ?_ (ih (start.after c))
    unfold Place.after
    split <;> simp

theorem lineStart_advance (start : Place) (front back : List Char) :
    lineStart ((start.advance front).line - start.line) (front ++ back) +
        (start.advance front).column =
      front.length + if (start.advance front).line = start.line then start.column else 1 := by
  induction front generalizing start with
  | nil => simp [lineStart]
  | cons c front ih =>
    have later := Place.line_le_advance (start.after c) front
    have same := ih (start.after c)
    rw [Place.advance_cons]
    generalize (start.after c).advance front = stop at later same ⊢
    unfold Place.after at later same
    -- A line feed belongs to the line that it ends.
    by_cases newline : c = '\n'
    · simp only [newline, if_true, ite_self] at later same
      have further : stop.line - start.line = stop.line - (start.line + 1) + 1 := by omega
      have moved : stop.line ≠ start.line := by omega
      rw [List.cons_append, further, newline, lineStart, if_pos rfl, if_neg moved, List.length_cons]
      omega
    · simp only [newline, if_false] at later same
      rw [List.cons_append, List.length_cons]
      by_cases stays : stop.line = start.line
      · simp only [stays, Nat.sub_self, lineStart_zero, if_true] at same ⊢
        omega
      · have further : stop.line - start.line = stop.line - start.line - 1 + 1 := by omega
        rw [if_neg stays] at same ⊢
        rw [further] at same ⊢
        rw [lineStart, if_neg newline]
        omega

theorem offsetAt_advance (front back : List Char) :
    offsetAt (front ++ back) (Place.origin.advance front).line (Place.origin.advance front).column =
      front.length := by
  have whole := lineStart_advance .origin front back
  have first : (Place.origin.line, Place.origin.column) = (1, 1) := rfl
  have ends : lineStart ((Place.origin.advance front).line - 1) (front ++ back) +
      (Place.origin.advance front).column = front.length + 1 := by
    rw [(Prod.mk.inj first).1, (Prod.mk.inj first).2, ite_self] at whole
    exact whole
  rw [offsetAt, ends, Nat.add_sub_cancel]

theorem append_ne_end {front : String} (rest : String)
    (other : ¬ front.toList <+: "unexpected end of input".toList) :
    front ++ rest ≠ "unexpected end of input" := by
  intro same
  exact other ⟨rest.toList, by rw [← String.toList_append, same]⟩

theorem SyntaxFault.message_eq_end :
    fault.message = "unexpected end of input" ↔ fault = .unexpectedEnd := by
  constructor
  · intro same
    cases fault with
    | unexpectedEnd => rfl
    | unexpectedCharacter c =>
      change "unexpected character " ++ _ = _ at same
      exact absurd same (append_ne_end _ (by simp))
    | unexpectedToken text expected =>
      change "unexpected token " ++ _ ++ _ ++ _ = _ at same
      rw [String.append_assoc, String.append_assoc] at same
      exact absurd same (append_ne_end _ (by simp))
  · rintro rfl
    rfl

-- What can be read that far can be completed just if no integer in it is overlong.
theorem completable_iff {front rest : List Char} {tokens : List Token}
    (tokenized : Tokenized front tokens) (reached : Reached (front ++ rest) tokens p)
    (viable : p.Viable rest) :
    (∃ more ds, ∀ name, name ≠ "" →
        readUnit name (String.ofList (front ++ rest ++ more)) = .ok ⟨name, ds⟩) ↔
      ∀ t ∈ tokens, ¬t.lexeme.Overlong := by
  constructor
  · rintro ⟨more, ds, read⟩ t member ⟨int, long⟩
    obtain ⟨_, reading, _, legal⟩ := readUnit_eq_ok.1 (read "x" (by decide))
    obtain ⟨l, found, less⟩ := exists_literal_of_completion tokenized reached member int reading
    exact absurd (legal l found) (Nat.not_le.2 (Nat.lt_of_lt_of_le long less))
  · intro legal
    obtain ⟨more, ds, reading, literals⟩ := exists_completion tokenized reached viable
    refine ⟨more, ds, fun name named => readUnit_eq_ok.2 ⟨named, reading, rfl, ?_⟩⟩
    rw [literals, tokenized.literals]
    exact Lexeme.digits_le_of_mem (List.forall_mem_map.2 legal)

/--
Where a text is refused, all that is in front of the place of the error can be gone on with so that
its declarations are read, and so that they are accepted unless an integer in front of the error
has too many digits.
-/
theorem error_behind_viable_text {file source : String} {location : Location}
    (failed : readUnit file source = .error (.atPlace fault location)) :
    let o := if fault.message = "unexpected end of input" then source.length
      else offsetAt source.toList location.line.toNat location.column.toNat
    let seen := source.toList.take o
    o ≤ source.length ∧
      (∃ more ds, readDeclarations (String.ofList (seen ++ more)) = .ok ds) ∧
      ∃ tokens p, TakenApart seen tokens ∧ Reached seen tokens p ∧
        ((∃ more ds, ∀ name, name ≠ "" →
            readUnit name (String.ofList (seen ++ more)) = .ok ⟨name, ds⟩) ↔
          ∀ t ∈ tokens, ¬t.lexeme.Overlong) := by
  obtain ⟨place, reading, rfl⟩ := readUnit_eq_error.1 failed
  obtain ⟨front, rest, back, tokens, p, split, tokenized, apart, reached, viable, ended, behind⟩ :=
    viable_of_error reading
  have offset : (if fault.message = "unexpected end of input" then source.length
      else offsetAt source.toList (place.locate file).line.toNat
        (place.locate file).column.toNat) =
      (front ++ rest).length := by
    split
    · next ends =>
      rw [ended (SyntaxFault.message_eq_end.1 ends), List.append_nil] at split
      rw [← split, String.length_toList]
    · next other =>
      rw [behind fun same => other (SyntaxFault.message_eq_end.2 same), split]
      exact offsetAt_advance (front ++ rest) back
  have taken : source.toList.take (front ++ rest).length = front ++ rest := by
    rw [split, List.take_left]
  simp only [offset, taken]
  refine ⟨?_, ?_, tokens, p, apart, reached, completable_iff tokenized reached viable⟩
  · rw [← String.length_toList, split]
    exact (List.prefix_append _ _).length_le
  · obtain ⟨more, ds, read, _⟩ := exists_completion tokenized reached viable
    exact ⟨more, ds, read⟩

-- A brace in the second line that closes nothing.

def strayText : String := ";\n\x7d"

def strayFault : SyntaxFault :=
  .unexpectedToken "\x7d" (.endOfInput :: Progress.declarationStarts)

theorem readUnit_stray :
    readUnit "main.cpp" strayText =
      .error (.atPlace strayFault { file := "main.cpp", line := 2, column := 1 }) := by
  let first : Place := ⟨1, 1, 2⟩
  let second : Place := ⟨2, 2, 1⟩
  let declared : Progress := ⟨[], [.emptyDeclaration ⟨.origin, first⟩], .between⟩
  have semicolon : scan Progress.start.allowed ⟨.origin, strayText.toList⟩ =
      .token ⟨.semicolon, [';'], ⟨.origin, first⟩⟩ ⟨first, ['\n', '}']⟩ := by cbv
  have brace : scan declared.allowed ⟨first, ['\n', '}']⟩ =
      .token ⟨.rightBrace, ['}'], ⟨second, ⟨3, 2, 2⟩⟩⟩ ⟨⟨3, 2, 2⟩, []⟩ := by cbv
  have fed : Progress.start.feed ⟨.semicolon, [';'], ⟨.origin, first⟩⟩ = .ok declared := rfl
  have reading : readDeclarations strayText = .error (strayFault, second) := by
    rw [readDeclarations, readFrom_token semicolon fed]
    exact readFrom_refused brace rfl
  exact readUnit_eq_error.2 ⟨second, reading, rfl⟩

theorem error_behind_viable_text_of_stray :
    strayFault.message ≠ "unexpected end of input" ∧ offsetAt strayText.toList 2 1 = 2 ∧
      ∃ more ds, ∀ name, name ≠ "" →
        readUnit name (String.ofList ([';', '\n'] ++ more)) = .ok ⟨name, ds⟩ := by
  have other : strayFault.message ≠ "unexpected end of input" := fun same =>
    nomatch SyntaxFault.message_eq_end.1 same
  have offset : offsetAt strayText.toList 2 1 = 2 := by decide
  have behind := error_behind_viable_text readUnit_stray
  have line : (2 : Int).toNat = 2 := rfl
  have column : (1 : Int).toNat = 1 := rfl
  simp only [if_neg other, line, column, offset] at behind
  obtain ⟨_, _, tokens, p, apart, _, completable⟩ := behind
  refine ⟨other, offset, completable.2 fun t member => ?_⟩
  rintro ⟨_, long⟩
  have short : t.text.length ≤ 2 := apart.length_le t member
  exact absurd long (Nat.not_lt.2 (Nat.le_trans short (by decide)))

end ScopedNames.Dialect

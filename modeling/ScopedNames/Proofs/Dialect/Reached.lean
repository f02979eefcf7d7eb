import ScopedNames.Proofs.Dialect.Exact

set_option autoImplicit false

namespace ScopedNames.Dialect

/-- Each of these tokens is the one that the state behind those before it takes off the text. -/
inductive Reached (source : List Char) : List Token → Progress → Prop where
  | start : Reached source [] .start
  | snoc {tokens : List Token} {p p' : Progress} {t : Token} (before : Reached source tokens p)
      (taken : lexeme? p.allowed (source.drop t.span.start.offset) = some (t.terminal, t.text))
      (fed : p.feed t = .ok p') : Reached source (tokens ++ [t]) p'

variable {source front rest rest' : List Char} {tokens before : List Token} {p p' : Progress}
variable {t : Token}

theorem head?_token (gap : Layout) {letters : List Char} (filled : letters ≠ [])
    (rest rest' : List Char) :
    (gap.text ++ (letters ++ rest)).head? = (gap.text ++ (letters ++ rest')).head? := by
  obtain ⟨c, letters, rfl⟩ := List.exists_cons_of_ne_nil filled
  cases gap.text <;> rfl

namespace Reached

theorem eq_start (reached : Reached source [] p) : p = .start := by
  generalize none : [] = tokens at reached
  cases reached with
  | start => rfl
  | snoc => simp at none

theorem took (reached : Reached source tokens p) : p.Took tokens := by
  induction reached with
  | start => exact Progress.took_start
  | @snoc tokens p p' t before taken fed ih =>
    exact ih.feed (Lexeme.known_of_lexeme? taken : t.lexeme.Known) fed

theorem literals (reached : Reached source tokens p) :
    p.literals = tokens.filterMap Token.literal? := by
  induction reached with
  | start => rfl
  | @snoc tokens p p' t before taken fed ih =>
    rw [Progress.literals_feed fed, ih, List.filterMap_append]
    cases literal : t.literal? <;> simp [literal]

theorem exists_before (reached : Reached source (tokens ++ [t]) p') :
    ∃ p, Reached source tokens p ∧
      lexeme? p.allowed (source.drop t.span.start.offset) = some (t.terminal, t.text) ∧
      p.feed t = .ok p' := by
  generalize whole : tokens ++ [t] = all at reached
  cases reached with
  | start => simp at whole
  | snoc before taken fed =>
    obtain ⟨rfl, same⟩ := List.append_inj' whole rfl
    cases same
    exact ⟨_, before, taken, fed⟩

theorem exists_state (reached : Reached source tokens p) {back : List Token}
    (split : tokens = before ++ t :: back) :
    ∃ q, Reached source before q ∧
      lexeme? q.allowed (source.drop t.span.start.offset) = some (t.terminal, t.text) := by
  induction reached generalizing back with
  | start => simp at split
  | @snoc tokens p p' last earlier taken fed ih =>
    rcases List.eq_nil_or_concat' back with rfl | ⟨back, other, rfl⟩
    · obtain ⟨rfl, same⟩ := List.append_inj' split rfl
      obtain rfl := List.head_eq_of_cons_eq same
      exact ⟨p, earlier, taken⟩
    · rw [← List.cons_append, ← List.append_assoc] at split
      exact ih (List.append_inj' split rfl).1

section Last

variable {x : Lexeme} {gap : Layout} {start : Place}
variable (begins : start = Place.origin.advance (front ++ gap.text))

include begins

theorem snoc_iff :
    Reached (front ++ gap.text ++ x.text ++ rest) (tokens ++ [x.token ⟨start, start.advance x.text⟩])
        p' ↔
      ∃ p, Reached (front ++ (gap.text ++ (x.text ++ rest))) tokens p ∧
        lexeme? p.allowed (x.text ++ rest) = some (x.terminal, x.text) ∧
        p.feed (x.token ⟨start, start.advance x.text⟩) = .ok p' := by
  have whole : front ++ gap.text ++ x.text ++ rest = front ++ (gap.text ++ (x.text ++ rest)) := by
    simp
  have behind : (front ++ (gap.text ++ (x.text ++ rest))).drop start.offset = x.text ++ rest := by
    rw [begins, Place.offset_origin, ← List.append_assoc, List.drop_left]
  rw [whole]
  constructor
  · intro reached
    obtain ⟨p, earlier, taken, fed⟩ := reached.exists_before
    exact ⟨p, earlier, behind ▸ taken, fed⟩
  · rintro ⟨p, earlier, taken, fed⟩
    exact earlier.snoc (behind.symm ▸ taken) fed

end Last

-- All that counts of what follows is its first character, where that could go on with a word.
theorem replace (tokenized : Tokenized front tokens) (reached : Reached (front ++ rest) tokens p)
    (ends : ∀ c ∈ rest'.head?, c ∈ rest.head? ∨ isNameChar c = false) :
    Reached (front ++ rest') tokens p := by
  induction tokenized generalizing rest rest' p with
  | nil =>
    rw [reached.eq_start]
    exact .start
  | @snoc front tokens allowed x start gap before fits begins ih =>
    obtain ⟨q, earlier, taken, fed⟩ := (snoc_iff begins).1 reached
    have still := head?_token gap (lexeme?_ne_nil fits) rest rest'
    refine (snoc_iff begins).2 ⟨q, ?_, lexeme?_append taken ends, fed⟩
    exact ih earlier fun c first => .inl (still ▸ first)

end Reached

theorem Tokenized.literals (tokenized : Tokenized front tokens) :
    tokens.filterMap Token.literal? = (tokens.map Token.lexeme).filterMap Lexeme.literal? := by
  induction tokenized with
  | nil => rfl
  | @snoc front tokens allowed x start gap before fits begins ih =>
    have own : (x.token ⟨start, start.advance x.text⟩).literal? = x.literal? := x.literal?_token start
    rw [List.map_append, List.filterMap_append, List.filterMap_append, ih, List.filterMap_cons, own]
    rfl

def lastStart (tokens : List Token) : Place := (tokens.getLast?.map (·.span.start)).getD .origin

theorem readFrom_of_reached (tokenized : Tokenized front tokens)
    (reached : Reached (front ++ rest) tokens p) :
    readFrom .start ⟨.origin, front ++ rest⟩ .origin =
      readFrom p ⟨Place.origin.advance front, rest⟩ (lastStart tokens) := by
  induction tokenized generalizing rest p with
  | nil =>
    rw [reached.eq_start]
    rfl
  | @snoc front tokens allowed x start gap before fits begins ih =>
    obtain ⟨q, earlier, taken, fed⟩ := (Reached.snoc_iff begins).1 reached
    have here : (Place.origin.advance front).advance gap.text = start := by
      rw [begins, Place.advance_append]
    have whole : front ++ gap.text ++ x.text ++ rest = front ++ (gap.text ++ (x.text ++ rest)) := by
      simp
    rw [whole, ih earlier, readFrom_layout gap taken (by rw [here]) fed]
    simp [lastStart, Lexeme.token, begins, Place.advance_append]

def Progress.conclusion (p : Progress) (tokens : List Token) :
    Except (SyntaxFault × Place) (List (Declaration Span)) :=
  if p.isComplete then .ok p.declared else .error (.unexpectedEnd, lastStart tokens)

theorem Progress.conclusion_eq_ok {ds : List (Declaration Span)} :
    p.conclusion tokens = .ok ds ↔ p.isComplete = true ∧ p.declared = ds := by
  unfold conclusion
  split <;> simp [*]

/-- How reading comes to its end in a state behind the last token that it has taken. -/
inductive Stops (source : List Char) (tokens : List Token) (p : Progress)
    (outcome : Except (SyntaxFault × Place) (List (Declaration Span))) : Prop where
  | atEnd (apart : TakenApart source tokens) (same : outcome = p.conclusion tokens)
  | early {front rest : List Char} {fault : SyntaxFault} (gap : Layout)
      (whole : source = front ++ (gap.text ++ rest)) (tokenized : Tokenized front tokens)
      (other : fault ≠ .unexpectedEnd)
      (same : outcome = .error (fault, Place.origin.advance (front ++ gap.text)))

theorem Stops.behind {cursor : Cursor} {gap : Layout} {fault : SyntaxFault}
    (tokenized : Tokenized front tokens) (here : cursor.place = Place.origin.advance front)
    (split : cursor.rest = gap.text ++ rest) (other : fault ≠ .unexpectedEnd) :
    Stops (front ++ cursor.rest) tokens p (.error (fault, cursor.place.advance gap.text)) := by
  refine .early gap (by rw [split]) tokenized other ?_
  rw [here, Place.advance_append]

theorem stops_of_readFrom {cursor : Cursor} {last : Place} (tokenized : Tokenized front tokens)
    (reached : Reached (front ++ cursor.rest) tokens p)
    (here : cursor.place = Place.origin.advance front) (latest : last = lastStart tokens) :
    ∃ tokens' p', Reached (front ++ cursor.rest) tokens' p' ∧
      Stops (front ++ cursor.rest) tokens' p' (readFrom p cursor last) := by
  fun_induction readFrom p cursor last generalizing front tokens with
  | case1 p cursor last scanned complete =>
    obtain ⟨gap, rest, split, found⟩ := behind_of_scan scanned
    cases found with
    | finished none =>
      refine ⟨tokens, p, reached, .atEnd ⟨front, gap, rest, by rw [split], tokenized, none⟩ ?_⟩
      rw [Progress.conclusion, if_pos complete]
  | case2 p cursor last scanned unfinished =>
    obtain ⟨gap, rest, split, found⟩ := behind_of_scan scanned
    cases found with
    | finished none =>
      refine ⟨tokens, p, reached, .atEnd ⟨front, gap, rest, by rw [split], tokenized, none⟩ ?_⟩
      rw [Progress.conclusion, if_neg unfinished, latest]
  | case3 p cursor last c start scanned =>
    obtain ⟨gap, rest, split, ⟨⟩⟩ := behind_of_scan scanned
    exact ⟨tokens, p, reached, .behind tokenized here split (by simp)⟩
  | case4 p cursor last letters start scanned =>
    obtain ⟨gap, rest, split, ⟨⟩⟩ := behind_of_scan scanned
    exact ⟨tokens, p, reached, .behind tokenized here split (by simp)⟩
  | case5 p cursor last token behind scanned expected refused =>
    obtain ⟨gap, rest, split, ⟨⟩⟩ := behind_of_scan scanned
    exact ⟨tokens, p, reached, .behind tokenized here split (by simp)⟩
  | case6 p cursor last token behind scanned p' fed shorter ih =>
    obtain ⟨gap, rest, split, found⟩ := behind_of_scan scanned
    cases found with
    | @token terminal word rest taken =>
      have fits := Lexeme.fits_of_taken taken
      have begins : cursor.place.advance gap.text = Place.origin.advance (front ++ gap.text) := by
        rw [here, Place.advance_append]
      have whole : front ++ cursor.rest = front ++ gap.text ++ word ++ rest := by simp [split]
      rw [split] at reached
      have later := (Reached.snoc_iff (x := ⟨terminal, word⟩) begins).2 ⟨p, reached, taken, fed⟩
      rw [whole]
      exact ih (tokenized.snoc gap fits begins) later (by simp [begins, Place.advance_append])
        (by simp [lastStart, Lexeme.token])

theorem exists_stop (source : String) :
    ∃ tokens p, Reached source.toList tokens p ∧
      Stops source.toList tokens p (readDeclarations source) := by
  let cursor : Cursor := ⟨.origin, source.toList⟩
  have here : cursor.place = Place.origin.advance [] := rfl
  exact stops_of_readFrom .nil .start here rfl

theorem exists_conclusion {source : String}
    (ended : ∀ fault place, readDeclarations source = .error (fault, place) →
      fault = .unexpectedEnd) :
    ∃ tokens p, TakenApart source.toList tokens ∧ Reached source.toList tokens p ∧
      readDeclarations source = p.conclusion tokens := by
  obtain ⟨tokens, p, reached, stops⟩ := exists_stop source
  cases stops with
  | atEnd apart same => exact ⟨tokens, p, apart, reached, same⟩
  | early gap whole tokenized other same => exact absurd (ended _ _ same) other

end ScopedNames.Dialect

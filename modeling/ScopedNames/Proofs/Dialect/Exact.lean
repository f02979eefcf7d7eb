import ScopedNames.Proofs.Dialect.Derivation
import ScopedNames.Proofs.Dialect.Reading

set_option autoImplicit false

namespace ScopedNames.Dialect

section Exact

/-- Tokens that stand in a text, each behind some layout, up to the end of the last one. -/
inductive Tokenized : List Char → List Token → Prop where
  | nil : Tokenized [] []
  | snoc {front : List Char} {tokens : List Token} {allowed : List Terminal} {x : Lexeme}
      {start : Place} (gap : Layout) (before : Tokenized front tokens) (fits : x.Fits allowed)
      (begins : start = Place.origin.advance (front ++ gap.text)) :
      Tokenized (front ++ gap.text ++ x.text) (tokens ++ [x.token ⟨start, start.advance x.text⟩])

/-- All of a text is tokens and layout; the last comment may go on to its end. -/
def TakenApart (source : List Char) (tokens : List Token) : Prop :=
  ∃ (front : List Char) (gap : Layout) (rest : List Char), source = front ++ (gap.text ++ rest) ∧
    Tokenized front tokens ∧ (rest = [] ∨ CutOff rest)

structure Place.Marks (p : Place) (source : List Char) : Prop where
  line : p.line = 1 + (source.take p.offset).count '\n'
  column : p.column = 1 + ((source.take p.offset).reverse.takeWhile (· ≠ '\n')).length

def Span.cut (s : Span) (source : List Char) : List Char :=
  (source.take s.stop.offset).drop s.start.offset

-- The text of a place goes from the first of these tokens to the last one.
structure Span.Frames (s : Span) (source : List Char) (own : List Token) : Prop where
  begins : ∃ first ∈ own.head?, first.span.start = s.start ∧ first.text <+: s.cut source
  ends : ∃ last ∈ own.getLast?, last.span.stop = s.stop ∧ last.text <:+ s.cut source

/-- The place of an item is that of its own tokens, and its parts have separate places in it. -/
structure Item.Exact (item : Item) (source : List Char) (tokens : List Token) : Prop where
  filled : item.span.start.offset < item.span.stop.offset
  within : item.span.stop.offset ≤ source.length
  start : item.span.start.Marks source
  stop : item.span.stop.Marks source
  own : ∃ own, own <:+: tokens ∧ item.spelling (own.map Token.lexeme) ∧
    item.span.Frames source own
  solid : ∀ c, c ∈ (item.span.cut source).head? ∨ c ∈ (item.span.cut source).getLast? →
    isLayout c = false
  inside : ∀ part ∈ item.parts, item.span.start.offset ≤ part.start.offset ∧
    part.stop.offset ≤ item.span.stop.offset
  apart : item.parts.Pairwise fun a b => a.stop.offset ≤ b.start.offset

end Exact

variable {source text front : List Char} {tokens run own : List Token} {span : Span}
variable {spans : List Span} {item : Item}

namespace Place

theorem line_advance (p : Place) (text : List Char) :
    (p.advance text).line = p.line + text.count '\n' := by
  induction text generalizing p with
  | nil => rfl
  | cons c text ih =>
    rw [advance_cons, ih, List.count_cons]
    unfold after
    split
    · next newline =>
      simp [newline]
      omega
    · next other => simp [other]

theorem column_advance (text : List Char) :
    (origin.advance text).column = 1 + (text.reverse.takeWhile (· ≠ '\n')).length := by
  induction text using List.reverseRecOn with
  | nil => rfl
  | append_singleton text c ih =>
    rw [advance_append, advance_cons, advance_nil, List.reverse_append]
    unfold after
    split
    · next newline => simp [newline]
    · next other =>
      simp [other, ih]
      omega

theorem offset_origin (text : List Char) : (origin.advance text).offset = text.length := by
  rw [offset_advance]
  exact Nat.zero_add _

theorem marks_advance (front back : List Char) : (origin.advance front).Marks (front ++ back) := by
  constructor
  · rw [offset_origin, List.take_left, line_advance]
    rfl
  · rw [offset_origin, List.take_left, column_advance]

end Place

structure Ordered (run : List Token) : Prop where
  filled : ∀ t ∈ run, t.span.start.offset < t.span.stop.offset
  apart : run.Pairwise fun s t => s.span.stop.offset ≤ t.span.start.offset

namespace Ordered

theorem part (ordered : Ordered tokens) (inside : own <:+: tokens) : Ordered own :=
  ⟨fun t member => ordered.filled t (inside.subset member), ordered.apart.sublist inside.sublist⟩

theorem bounds (ordered : Ordered run) (covers : Covers span run) :
    ∀ t ∈ run, span.start.offset ≤ t.span.start.offset ∧ t.span.stop.offset ≤ span.stop.offset := by
  obtain ⟨⟨first, found, begins⟩, last, found', ends⟩ := covers
  obtain ⟨rest, same⟩ := List.head?_eq_some_iff.1 found
  obtain ⟨front, same'⟩ := List.getLast?_eq_some_iff.1 found'
  intro t member
  have own := ordered.filled t member
  rw [← begins, ← ends]
  constructor
  · have later := ordered.apart
    rw [same] at later member
    rcases List.mem_cons.1 member with rfl | behind
    · exact Nat.le_refl _
    · have := (List.pairwise_cons.1 later).1 t behind
      have := ordered.filled first (same ▸ List.mem_cons_self)
      omega
  · have earlier := ordered.apart
    rw [same'] at earlier member
    rcases List.mem_append.1 member with before | same
    · have := (List.pairwise_append.1 earlier).2.2 t before last List.mem_cons_self
      have := ordered.filled last (same' ▸ List.mem_append_right _ List.mem_cons_self)
      omega
    · rw [List.mem_singleton.1 same]

end Ordered

theorem Covers.exists_mem (covers : Covers span run) :
    (∃ first ∈ run, first.span.start = span.start) ∧ ∃ last ∈ run, last.span.stop = span.stop := by
  obtain ⟨⟨first, found, begins⟩, last, found', ends⟩ := covers
  exact ⟨⟨first, List.mem_of_mem_head? found, begins⟩, last, List.mem_of_getLast? found', ends⟩

namespace InOrder

theorem exists_run (order : InOrder spans run) :
    ∀ part ∈ spans, ∃ own, own <:+: run ∧ Covers part own := by
  induction order with
  | nil => simp
  | @snoc spans span front own back before covers ih =>
    intro part member
    rcases List.mem_append.1 member with old | new
    · obtain ⟨own', inside, covers'⟩ := ih part old
      exact ⟨own', inside.trans ⟨[], own ++ back, by simp⟩, covers'⟩
    · rw [List.mem_singleton.1 new]
      exact ⟨own, ⟨front, back, rfl⟩, covers⟩

theorem inside (order : InOrder spans run) (ordered : Ordered run) (covers : Covers span run) :
    ∀ part ∈ spans, span.start.offset ≤ part.start.offset ∧
      part.stop.offset ≤ span.stop.offset := by
  intro part member
  obtain ⟨own, inside, covers'⟩ := order.exists_run part member
  obtain ⟨⟨first, found, begins⟩, last, found', ends⟩ := covers'.exists_mem
  rw [← begins, ← ends]
  exact ⟨(ordered.bounds covers first (inside.subset found)).1,
    (ordered.bounds covers last (inside.subset found')).2⟩

theorem apart (order : InOrder spans run) (ordered : Ordered run) :
    spans.Pairwise fun a b => a.stop.offset ≤ b.start.offset := by
  induction order with
  | nil => exact .nil
  | @snoc spans span front own back before covers ih =>
    have both : (front ++ own).Pairwise _ := (ordered.part ⟨[], back, rfl⟩).apart
    refine List.pairwise_append.2 ⟨?_, List.pairwise_singleton _ _, ?_⟩
    · exact ih (ordered.part ⟨[], own ++ back, by simp⟩)
    · intro a member b new
      rw [List.mem_singleton.1 new]
      obtain ⟨own', inside, covers'⟩ := before.exists_run a member
      obtain ⟨last, found, ends⟩ := covers'.exists_mem.2
      obtain ⟨first, found', begins⟩ := covers.exists_mem.1
      rw [← ends, ← begins]
      exact (List.pairwise_append.1 both).2.2 last (inside.subset found) first found'

end InOrder

namespace Tokenized

theorem exists_split (tokenized : Tokenized text tokens) : ∀ t ∈ tokens,
    ∃ front back, text = front ++ t.text ++ back ∧ t.span.start = Place.origin.advance front ∧
      t.span.stop = Place.origin.advance (front ++ t.text) := by
  induction tokenized with
  | nil => simp
  | @snoc front tokens allowed x start gap before fits begins ih =>
    intro t member
    rcases List.mem_append.1 member with old | new
    · obtain ⟨front', back, same, places⟩ := ih t old
      exact ⟨front', back ++ gap.text ++ x.text, by simp [same], places⟩
    · rw [List.mem_singleton.1 new]
      refine ⟨front ++ gap.text, [], by simp [Lexeme.token], begins, ?_⟩
      rw [Place.advance_append, ← begins]
      rfl

theorem solid (tokenized : Tokenized text tokens) :
    ∀ t ∈ tokens, t.text ≠ [] ∧ ∀ c ∈ t.text, isLayout c = false := by
  induction tokenized with
  | nil => simp
  | @snoc front tokens allowed x start gap before fits begins ih =>
    intro t member
    rcases List.mem_append.1 member with old | new
    · exact ih t old
    · rw [List.mem_singleton.1 new]
      exact ⟨lexeme?_ne_nil fits, (Lexeme.known_of_lexeme? fits).solid⟩

theorem stop_le (tokenized : Tokenized text tokens) :
    ∀ t ∈ tokens, t.span.stop.offset ≤ text.length := by
  intro t member
  obtain ⟨front, back, same, _, stop⟩ := tokenized.exists_split t member
  rw [stop, Place.offset_origin, same]
  simp

theorem apart (tokenized : Tokenized text tokens) :
    tokens.Pairwise fun s t => s.span.stop.offset ≤ t.span.start.offset := by
  induction tokenized with
  | nil => exact .nil
  | @snoc front tokens allowed x start gap before fits begins ih =>
    refine List.pairwise_append.2 ⟨ih, List.pairwise_singleton _ _, ?_⟩
    intro s old t new
    have earlier := before.stop_le s old
    rw [List.mem_singleton.1 new, begins]
    simp only [Lexeme.token, Place.offset_origin, List.length_append]
    omega

theorem ordered (tokenized : Tokenized text tokens) : Ordered tokens := by
  refine ⟨?_, tokenized.apart⟩
  intro t member
  obtain ⟨front, back, _, start, stop⟩ := tokenized.exists_split t member
  have filled := List.length_pos_iff.2 (tokenized.solid t member).1
  rw [start, stop, Place.offset_origin, Place.offset_origin, List.length_append]
  omega

end Tokenized

theorem TakenApart.length_le (apart : TakenApart source tokens) :
    ∀ t ∈ tokens, t.text.length ≤ source.length := by
  obtain ⟨text, gap, rest, rfl, tokenized, _⟩ := apart
  intro t member
  obtain ⟨front, back, rfl, _⟩ := tokenized.exists_split t member
  simp only [List.length_append]
  omega

theorem prefix_cut (back : List Char) (same : source = front ++ text ++ back)
    (starts : span.start.offset = front.length)
    (reaches : front.length + text.length ≤ span.stop.offset) : text <+: span.cut source := by
  rw [Span.cut, List.drop_take, starts, same, List.append_assoc, List.drop_left,
    List.prefix_take_iff]
  exact ⟨List.prefix_append _ _, by omega⟩

theorem suffix_cut (back : List Char) (same : source = front ++ text ++ back)
    (starts : span.start.offset ≤ front.length)
    (stops : span.stop.offset = front.length + text.length) : text <:+ span.cut source := by
  rw [Span.cut, stops, same, ← List.length_append, List.take_left,
    List.drop_append_of_le_length starts]
  exact List.suffix_append _ _

namespace Tokenized

theorem marks (tokenized : Tokenized front tokens) (back : List Char) : ∀ t ∈ tokens,
    t.span.start.Marks (front ++ back) ∧ t.span.stop.Marks (front ++ back) := by
  intro t member
  obtain ⟨before, rest, same, start, stop⟩ := tokenized.exists_split t member
  rw [start, stop, same]
  have left := Place.marks_advance before (t.text ++ rest ++ back)
  have right := Place.marks_advance (before ++ t.text) (rest ++ back)
  simp only [List.append_assoc] at left right ⊢
  exact ⟨left, right⟩

theorem frames (tokenized : Tokenized front tokens) (inside : own <:+: tokens)
    (covers : Covers span own) (back : List Char) : span.Frames (front ++ back) own := by
  have bounds := (tokenized.ordered.part inside).bounds covers
  obtain ⟨⟨first, found, starts⟩, last, found', stops⟩ := covers
  have member := List.mem_of_mem_head? found
  have member' := List.mem_of_getLast? found'
  obtain ⟨before, rest, same, start, stop⟩ := tokenized.exists_split first (inside.subset member)
  obtain ⟨before', rest', same', start', stop'⟩ :=
    tokenized.exists_split last (inside.subset member')
  have low := (bounds last member').1
  have high := (bounds first member).2
  rw [start', Place.offset_origin] at low
  rw [stop, Place.offset_origin, List.length_append] at high
  refine ⟨⟨first, found, starts, ?_⟩, last, found', stops, ?_⟩
  · refine prefix_cut (rest ++ back) (by simp [same]) ?_ high
    rw [← starts, start, Place.offset_origin]
  · refine suffix_cut (rest' ++ back) (by simp [same']) low ?_
    rw [← stops, stop', Place.offset_origin, List.length_append]

end Tokenized

theorem Span.Frames.solid (frames : span.Frames source own)
    (solid : ∀ t ∈ own, t.text ≠ [] ∧ ∀ c ∈ t.text, isLayout c = false) (c : Char) :
    c ∈ (span.cut source).head? ∨ c ∈ (span.cut source).getLast? → isLayout c = false := by
  obtain ⟨⟨first, found, _, back, same⟩, last, found', _, front, same'⟩ := frames
  obtain ⟨filled, clear⟩ := solid first (List.mem_of_mem_head? found)
  obtain ⟨filled', clear'⟩ := solid last (List.mem_of_getLast? found')
  rintro (head | tail)
  · rw [← same, List.head?_append_of_ne_nil _ filled] at head
    exact clear c (List.mem_of_mem_head? head)
  · rw [← same', List.getLast?_append_of_ne_nil _ filled'] at tail
    exact clear' c (List.mem_of_getLast? tail)

theorem Item.Placed.isExact (placed : item.Placed own) (inside : own <:+: tokens)
    (tokenized : Tokenized front tokens) (back : List Char) :
    item.Exact (front ++ back) tokens := by
  obtain ⟨covers, spelt, order⟩ := placed
  have ordered := tokenized.ordered.part inside
  have frames := tokenized.frames inside covers back
  obtain ⟨⟨first, found, starts⟩, last, found', stops⟩ := covers.exists_mem
  constructor
  case filled =>
    have := ordered.filled first found
    have := ordered.bounds covers first found
    omega
  case within =>
    have := tokenized.stop_le last (inside.subset found')
    rw [← stops, List.length_append]
    omega
  case start => exact starts ▸ (tokenized.marks back first (inside.subset found)).1
  case stop => exact stops ▸ (tokenized.marks back last (inside.subset found')).2
  case own => exact ⟨own, inside, spelt, frames⟩
  case solid => exact frames.solid fun t member => tokenized.solid t (inside.subset member)
  case inside => exact order.inside ordered covers
  case apart => exact order.apart ordered

theorem taken_of_readFrom {p : Progress} {cursor : Cursor} {last : Place}
    {ds : List (Declaration Span)} (took : p.Took tokens) (tokenized : Tokenized front tokens)
    (here : cursor.place = Place.origin.advance front) (read : readFrom p cursor last = .ok ds) :
    ∃ tokens', TakenApart (front ++ cursor.rest) tokens' ∧ Declared ds tokens' := by
  fun_induction readFrom p cursor last generalizing front tokens with
  | case1 p cursor last scanned complete =>
    cases read
    obtain ⟨gap, rest, split, found⟩ := behind_of_scan scanned
    cases found with
    | finished none =>
      exact ⟨tokens, ⟨front, gap, rest, by rw [split], tokenized, none⟩, took.complete complete⟩
  | case6 p cursor last token behind scanned p' fed shorter ih =>
    obtain ⟨gap, rest, split, found⟩ := behind_of_scan scanned
    cases found with
    | @token terminal word _ taken =>
      have fits := Lexeme.fits_of_taken taken
      have start : cursor.place.advance gap.text = Place.origin.advance (front ++ gap.text) := by
        rw [here, Place.advance_append]
      have next := ih (took.feed (x := ⟨terminal, word⟩) (Lexeme.known_of_lexeme? fits) fed)
        (tokenized.snoc gap fits start) (by simp [start, Place.advance_append]) read
      simpa [split] using next
  | _ => cases read

theorem placed_of_declared {u : SourceUnit} (declared : Declared u.declarations tokens) :
    ∀ item ∈ u.items, ∃ own, own <:+: tokens ∧ item.Placed own := by
  obtain ⟨fs, same, makes⟩ := declared.written
  intro item member
  rcases List.mem_append.1 member with whole | part
  · obtain ⟨span, extent, rfl⟩ := List.mem_map.1 whole
    refine ⟨tokens, List.infix_rfl, ?_, ⟨fs, same, makes.lexemes⟩, makes.parts⟩
    rw [Option.mem_toList, SourceUnit.span?] at extent
    split at extent
    · next first last begins ends =>
      cases extent
      exact ⟨declared.begins first begins, declared.ends last ends⟩
    · cases extent
  · exact makes.items item part

/--
Whatever has a place in a unit that is read is in that place of the text, from the first of its own
tokens to the last one.
-/
theorem items_located_exactly {file source : String} {u : SourceUnit}
    (read : readUnit file source = .ok u) :
    ∃ tokens, TakenApart source.toList tokens ∧
      ∀ item ∈ u.items, item.Exact source.toList tokens := by
  obtain ⟨_, reading, _⟩ := readUnit_eq_ok.1 read
  obtain ⟨tokens, apart, declared⟩ :
      ∃ tokens, TakenApart source.toList tokens ∧ Declared u.declarations tokens :=
    taken_of_readFrom Progress.took_start .nil rfl reading
  refine ⟨tokens, apart, fun item member => ?_⟩
  obtain ⟨own, inside, placed⟩ := placed_of_declared declared item member
  obtain ⟨front, gap, rest, same, tokenized, _⟩ := apart
  rw [same]
  exact placed.isExact inside tokenized _

-- A comment in the first line, and an attribute with two arguments in the second one.

def taggedText : String := "// a tag\n  [[rustycpp::checkSymbolMatchTag(7, A)]];"

def onSecondLine (start stop : Nat) : Span := ⟨⟨9 + start, 2, start + 1⟩, ⟨9 + stop, 2, stop + 1⟩⟩

def taggedUnit : SourceUnit where
  file := "loc.cpp"
  declarations :=
    [.attributeDeclaration
      [⟨some "rustycpp", "checkSymbolMatchTag",
        [⟨.int 7, onSecondLine 34 35⟩,
          ⟨.name ⟨false, ["A"], onSecondLine 37 38⟩, onSecondLine 37 38⟩], onSecondLine 4 39⟩]
      (onSecondLine 2 42)]

theorem readUnit_tagged : readUnit "loc.cpp" taggedText = .ok taggedUnit := by
  have read : readWithin 20 .start ⟨.origin, taggedText.toList⟩ =
      some taggedUnit.declarations := by cbv
  exact readUnit_of_readWithin read (by decide)

theorem items_located_exactly_of_tag :
    readUnit "loc.cpp" taggedText = .ok taggedUnit ∧
      ∃ tokens, TakenApart taggedText.toList tokens ∧
        ∀ item ∈ taggedUnit.items, item.Exact taggedText.toList tokens :=
  ⟨readUnit_tagged, items_located_exactly readUnit_tagged⟩

end ScopedNames.Dialect

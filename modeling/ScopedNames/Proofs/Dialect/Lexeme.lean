import ScopedNames.Proofs.Dialect.Layout

set_option autoImplicit false

namespace ScopedNames.Dialect

namespace Terminal

def marks : List Terminal := keywords ++ punctuation

theorem eq_of_spelling_prefix :
    ∀ t ∈ marks, ∀ s ∈ marks, s.spelling.toList <+: t.spelling.toList → s = t := by
  decide

end Terminal

open Terminal (marks)

variable {allowed : List Terminal} {terminal t : Terminal} {word rest rest' text : List Char}

theorem find?_of_unique {α : Type} {p : α → Bool} {xs : List α} {x : α} (member : x ∈ xs)
    (fits : p x = true) (unique : ∀ y ∈ xs, p y = true → y = x) : xs.find? p = some x := by
  cases found : xs.find? p with
  | none => exact absurd fits (List.find?_eq_none.1 found x member)
  | some y => rw [unique y (List.mem_of_find?_eq_some found) (List.find?_some found)]

theorem find?_marks :
    (marks.find? fun t => allowed.contains t && t.spelling.toList.isPrefixOf text) = some t ↔
      t ∈ marks ∧ t ∈ allowed ∧ t.spelling.toList <+: text := by
  have fits (s : Terminal) : (allowed.contains s && s.spelling.toList.isPrefixOf text) = true ↔
      s ∈ allowed ∧ s.spelling.toList <+: text := by
    simp only [Bool.and_eq_true, List.contains_iff_mem, List.isPrefixOf_iff_prefix]
  constructor
  · intro found
    have matched := List.find?_some found
    exact ⟨List.mem_of_find?_eq_some found, (fits t).1 matched⟩
  · rintro ⟨known, listed, front⟩
    refine find?_of_unique known ((fits t).2 ⟨listed, front⟩) fun s other matched => ?_
    -- Of two marks in front of one text one is in front of the other.
    rcases List.prefix_or_prefix_of_prefix ((fits s).1 matched).2 front with inside | inside
    · exact Terminal.eq_of_spelling_prefix t known s other inside
    · exact (Terminal.eq_of_spelling_prefix s other t known inside).symm

theorem takeWhile_append_eq {p : Char → Bool}
    (taken : (word ++ rest).takeWhile p = word)
    (ends : ∀ c ∈ rest'.head?, c ∈ rest.head? ∨ p c = false) :
    (word ++ rest').takeWhile p = word := by
  have all : ∀ c ∈ word, p c = true := by
    intro c member
    rw [← taken] at member
    exact List.mem_takeWhile_imp member
  rw [List.takeWhile_append_of_pos all] at taken ⊢
  cases rest' with
  | nil => simp
  | cons c rest' =>
    rcases ends c rfl with same | stops
    · cases rest with
      | nil => cases same
      | cons d rest =>
        cases same
        cases stops : p c with
        | false => simp [stops]
        | true => simp [stops] at taken
    · simp [stops]

theorem isNameChar_of_isDigit {c : Char} (digit : c.isDigit = true) : isNameChar c = true := by
  simp [isNameChar, Char.isAlphanum, digit]

-- What is taken off a text depends on no more than the first character behind it.
theorem lexeme?_append (taken : lexeme? allowed (word ++ rest) = some (terminal, word))
    (ends : ∀ c ∈ rest'.head?, c ∈ rest.head? ∨ isNameChar c = false) :
    lexeme? allowed (word ++ rest') = some (terminal, word) := by
  obtain ⟨c, more, rfl⟩ := List.exists_cons_of_ne_nil (lexeme?_ne_nil taken)
  simp only [List.cons_append, lexeme?] at taken ⊢
  split at taken
  · next named =>
    obtain ⟨keyword, whole⟩ := Prod.mk.inj (Option.some.inj taken)
    have same : (c :: more ++ rest').takeWhile isNameChar = c :: more :=
      takeWhile_append_eq whole ends
    rw [whole] at keyword
    rw [if_pos named, ← List.cons_append, same, keyword]
  · next unnamed =>
    rw [if_neg unnamed]
    split at taken
    · next digits =>
      obtain ⟨rfl, whole⟩ := Prod.mk.inj (Option.some.inj taken)
      -- What stops a name stops a number too.
      have same : (c :: more ++ rest').takeWhile Char.isDigit = c :: more :=
        takeWhile_append_eq whole fun d first => (ends d first).imp_right fun stops => by
          cases digit : d.isDigit with
          | false => rfl
          | true => cases stops.symm.trans (isNameChar_of_isDigit digit)
      rw [if_pos digits, ← List.cons_append, same]
    · next undigited =>
      rw [if_neg undigited]
      obtain ⟨t, found, same⟩ := Option.map_eq_some_iff.1 taken
      obtain ⟨rfl, spelt⟩ := Prod.mk.inj same
      obtain ⟨known, listed, front⟩ := find?_marks.1 found
      have again : (marks.find? fun t => allowed.contains t &&
          t.spelling.toList.isPrefixOf (c :: (more ++ rest'))) = some t := by
        refine find?_marks.2 ⟨known, listed, ?_⟩
        rw [spelt]
        exact List.prefix_append (c :: more) rest'
      exact Option.map_eq_some_iff.2 ⟨t, again, same⟩

theorem prefix_of_lexeme? (taken : lexeme? allowed text = some (terminal, word)) :
    word <+: text := by
  unfold lexeme? at taken
  split at taken
  · cases taken
  · split at taken
    · obtain ⟨_, rfl⟩ := Prod.mk.inj (Option.some.inj taken)
      exact List.takeWhile_prefix _
    · split at taken
      · obtain ⟨_, rfl⟩ := Prod.mk.inj (Option.some.inj taken)
        exact List.takeWhile_prefix _
      · obtain ⟨t, found, same⟩ := Option.map_eq_some_iff.1 taken
        obtain ⟨_, rfl⟩ := Prod.mk.inj same
        exact (find?_marks.1 found).2.2

theorem mark_front : ∀ t ∈ marks, ∃ c rest, t.spelling.toList = c :: rest ∧ c ≠ '/' ∧
    isLayout c = false ∧ c.isDigit = false ∧ (isNameStart c = true → t ∈ Terminal.keywords) := by
  have all : ∀ t ∈ marks, t.spelling.toList.head?.all (fun c => c ≠ '/' ∧ isLayout c = false ∧
      c.isDigit = false ∧ (isNameStart c = true → t ∈ Terminal.keywords)) = true := by decide
  have filled : ∀ t ∈ marks, t.spelling.toList ≠ [] := by decide
  intro t known
  obtain ⟨c, rest, spelt⟩ := List.exists_cons_of_ne_nil (filled t known)
  have front := all t known
  rw [spelt] at front
  exact ⟨c, rest, spelt, of_decide_eq_true front⟩

theorem settled_of_lexeme? {taken : Terminal × List Char}
    (found : lexeme? allowed text = some taken) : Settled text := by
  unfold lexeme? at found
  split at found
  · cases found
  · next c rest =>
    have apart {p : Char → Bool} (fits : p c = true)
        (none : ['/', ' ', '\t', '\x0c', '\r', '\n'].any p = false) : Settled (c :: rest) := by
      have outside : c ∉ ['/', ' ', '\t', '\x0c', '\r', '\n'] := by
        intro member
        exact List.any_eq_false.1 none c member fits
      refine settled_cons (fun same => outside (same ▸ List.mem_cons_self)) ?_
      exact decide_eq_false fun member => outside (List.mem_cons_of_mem _ member)
    split at found
    · next named => exact apart (Bool.and_eq_true_iff.1 named).2 (by decide)
    · split at found
      · next digits => exact apart (Bool.and_eq_true_iff.1 digits).2 (by decide)
      · obtain ⟨t, marked, _⟩ := Option.map_eq_some_iff.1 found
        obtain ⟨known, _, front⟩ := find?_marks.1 marked
        obtain ⟨d, more, spelt, slash, layout, _⟩ := mark_front t known
        rw [spelt] at front
        obtain ⟨_, same⟩ := front
        cases same
        exact settled_cons slash layout

theorem lexeme?_mark (known : t ∈ marks) (listed : t ∈ allowed) :
    lexeme? allowed t.spelling.toList = some (t, t.spelling.toList) := by
  obtain ⟨c, rest, spelt, _, _, digit, keyword⟩ := mark_front t known
  have whole : lexeme? allowed (c :: rest) = some (t, c :: rest) := by
    simp only [lexeme?]
    split
    · next named =>
      have own := keyword (Bool.and_eq_true_iff.1 named).2
      have letters : ∀ k ∈ Terminal.keywords, k.spelling.toList.all isNameChar = true := by decide
      have word : (c :: rest).takeWhile isNameChar = c :: rest := by
        rw [← spelt]
        exact List.takeWhile_eq_self_iff.2 (List.all_eq_true.1 (letters t own))
      have found : (Terminal.keywords.find? fun k =>
          allowed.contains k && k.spelling.toList == c :: rest) = some t := by
        refine find?_of_unique own (by simp [listed, spelt]) fun k other matched => ?_
        have same : k.spelling.toList = t.spelling.toList := by
          rw [spelt]
          simpa using (Bool.and_eq_true_iff.1 matched).2
        exact Terminal.eq_of_spelling_prefix t known k (List.mem_append_left _ other)
          (same ▸ List.prefix_rfl)
      rw [word, found]
      rfl
    · rw [digit, Bool.and_false, if_neg Bool.false_ne_true]
      have front : t.spelling.toList <+: c :: rest := spelt ▸ List.prefix_rfl
      have found := find?_marks.2 ⟨known, listed, front⟩
      exact Option.map_eq_some_iff.2 ⟨t, found, by rw [spelt]⟩
  rwa [← spelt] at whole

def IsWord (text : List Char) : Prop :=
  (∃ c ∈ text.head?, isNameStart c = true) ∧ ∀ c ∈ text, isNameChar c = true

-- Decided along the text, since there are too many characters to go through them all.
instance (text : List Char) : Decidable (IsWord text) :=
  decidable_of_iff (text.head?.any isNameStart = true ∧ text.all isNameChar = true) <| by
    rw [Option.any_eq_true, List.all_eq_true]
    rfl

-- None of the keywords that are allowed is written like this.
def FreeOf (allowed : List Terminal) (text : List Char) : Prop :=
  ∀ k ∈ Terminal.keywords, k ∈ allowed → k.spelling.toList ≠ text

theorem lexeme?_word :
    lexeme? allowed text = some (.name, text) ↔
      .name ∈ allowed ∧ IsWord text ∧ FreeOf allowed text := by
  constructor
  · intro taken
    unfold lexeme? at taken
    split at taken
    · cases taken
    · next c rest =>
      split at taken
      · next named =>
        rw [Bool.and_eq_true, List.contains_iff_mem] at named
        obtain ⟨keyword, word⟩ := Prod.mk.inj (Option.some.inj taken)
        rw [word] at keyword
        refine ⟨named.1, ⟨⟨c, rfl, named.2⟩, List.takeWhile_eq_self_iff.1 word⟩, ?_⟩
        intro k known listed same
        -- The search for a keyword would have ended at this one or an earlier one.
        cases found : Terminal.keywords.find? fun k =>
            allowed.contains k && k.spelling.toList == c :: rest with
        | none => simpa [listed, same] using List.find?_eq_none.1 found k known
        | some other =>
          rw [found, Option.getD_some] at keyword
          subst keyword
          exact absurd (List.mem_of_find?_eq_some found) (by decide)
      · split at taken
        · cases taken
        · obtain ⟨t, found, same⟩ := Option.map_eq_some_iff.1 taken
          cases (Prod.mk.inj same).1
          exact absurd (find?_marks.1 found).1 (by decide)
  · rintro ⟨named, ⟨⟨c, first, start⟩, letters⟩, free⟩
    obtain ⟨rest, rfl⟩ := List.head?_eq_some_iff.1 first
    have none : (Terminal.keywords.find? fun k =>
        allowed.contains k && k.spelling.toList == c :: rest) = none := by
      rw [List.find?_eq_none]
      intro k known matched
      simp only [Bool.and_eq_true, List.contains_iff_mem, beq_iff_eq] at matched
      exact free k known matched.1 matched.2
    simp only [lexeme?]
    rw [if_pos (by simp [named, start]), List.takeWhile_eq_self_iff.2 letters, none,
      Option.getD_none]

theorem isNameStart_of_isDigit {c : Char} (digit : c.isDigit = true) : isNameStart c = false := by
  rw [Bool.eq_false_iff]
  intro letter
  rcases Bool.or_eq_true_iff.1 letter with alpha | underscore
  · simp only [Char.isAlpha, Char.isUpper, Char.isLower, Char.isDigit] at digit alpha
    grind
  · cases of_decide_eq_true underscore
    cases digit

theorem lexeme?_int :
    lexeme? allowed text = some (.int, word) ↔
      .int ∈ allowed ∧ (∃ c ∈ text.head?, c.isDigit = true) ∧
        word = text.takeWhile Char.isDigit := by
  constructor
  · intro taken
    unfold lexeme? at taken
    split at taken
    · cases taken
    · next c rest =>
      split at taken
      · obtain ⟨keyword, _⟩ := Prod.mk.inj (Option.some.inj taken)
        cases found : Terminal.keywords.find? fun k =>
            allowed.contains k && k.spelling.toList == List.takeWhile isNameChar (c :: rest) with
        | none =>
          rw [found] at keyword
          cases keyword
        | some other =>
          rw [found, Option.getD_some] at keyword
          subst keyword
          exact absurd (List.mem_of_find?_eq_some found) (by decide)
      · split at taken
        · next digits =>
          rw [Bool.and_eq_true, List.contains_iff_mem] at digits
          obtain ⟨_, rfl⟩ := Prod.mk.inj (Option.some.inj taken)
          exact ⟨digits.1, ⟨c, rfl, digits.2⟩, rfl⟩
        · obtain ⟨t, found, same⟩ := Option.map_eq_some_iff.1 taken
          cases (Prod.mk.inj same).1
          exact absurd (find?_marks.1 found).1 (by decide)
  · rintro ⟨listed, ⟨c, first, digit⟩, rfl⟩
    obtain ⟨rest, rfl⟩ := List.head?_eq_some_iff.1 first
    have start := isNameStart_of_isDigit digit
    simp only [lexeme?, start, Bool.and_false, Bool.false_eq_true, if_false]
    rw [if_pos (by simp [listed, digit])]

theorem lexeme?_digits (listed : .int ∈ allowed) (filled : text ≠ [])
    (digits : ∀ c ∈ text, c.isDigit = true) : lexeme? allowed text = some (.int, text) := by
  obtain ⟨c, rest, rfl⟩ := List.exists_cons_of_ne_nil filled
  exact lexeme?_int.2 ⟨listed, ⟨c, rfl, digits c List.mem_cons_self⟩,
    (List.takeWhile_eq_self_iff.2 digits).symm⟩

theorem lexeme?_int_append (taken : lexeme? allowed (word ++ rest) = some (.int, word))
    (more : List Char) :
    ∃ longer, lexeme? allowed (word ++ rest ++ more) = some (.int, longer) ∧
      word.length ≤ longer.length := by
  obtain ⟨listed, ⟨c, first, digit⟩, whole⟩ := lexeme?_int.1 taken
  have still : c ∈ (word ++ rest ++ more).head? := by
    rw [List.head?_append, Option.mem_def.1 first]
    rfl
  refine ⟨_, lexeme?_int.2 ⟨listed, ⟨c, still, digit⟩, rfl⟩, ?_⟩
  have all : ∀ c ∈ word, c.isDigit = true := fun c member =>
    List.mem_takeWhile_imp (whole ▸ member)
  rw [List.append_assoc, List.takeWhile_append_of_pos all, List.length_append]
  exact Nat.le_add_right _ _

end ScopedNames.Dialect

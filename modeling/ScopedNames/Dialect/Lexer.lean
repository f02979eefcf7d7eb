import ScopedNames.Dialect.Place
import ScopedNames.Dialect.Terminal

set_option autoImplicit false

namespace ScopedNames.Dialect

structure Cursor where
  place : Place
  rest : List Char

def isLayout (c : Char) : Bool := c ∈ [' ', '\t', '\x0c', '\r', '\n']

def isNameStart (c : Char) : Bool := c.isAlpha || c = '_'

def isNameChar (c : Char) : Bool := c.isAlphanum || c = '_'

def blockComment : List Char → Option (List Char × List Char)
  | '*' :: '/' :: rest => some (['*', '/'], rest)
  | c :: rest => (blockComment rest).map fun (body, behind) => (c :: body, behind)
  | [] => none

theorem blockComment_append {text body behind : List Char}
    (h : blockComment text = some (body, behind)) : body ++ behind = text := by
  fun_induction blockComment text generalizing body with
  | case1 =>
    obtain ⟨rfl, rfl⟩ := Prod.mk.inj (Option.some.inj h)
    rfl
  | case2 c rest _ ih =>
    obtain ⟨⟨inner, tail⟩, hinner, heq⟩ := Option.map_eq_some_iff.1 h
    obtain ⟨rfl, rfl⟩ := Prod.mk.inj heq
    simp [ih hinner]
  | case3 => simp at h

def skipLayout (place : Place) (text : List Char) : Cursor :=
  match text with
  | '/' :: '/' :: rest =>
    have : (rest.dropWhile (· != '\n')).length < rest.length + 2 := by
      have := (List.dropWhile_suffix (l := rest) (· != '\n')).length_le
      omega
    skipLayout (place.advance ('/' :: '/' :: rest.takeWhile (· != '\n')))
      (rest.dropWhile (· != '\n'))
  | '/' :: '*' :: rest =>
    match h : blockComment rest with
    | some (body, behind) =>
      have : behind.length < rest.length + 2 := by
        have := congrArg List.length (blockComment_append h)
        rw [List.length_append] at this
        omega
      skipLayout (place.advance ('/' :: '*' :: body)) behind
    | none => ⟨place, text⟩
  | c :: rest => if isLayout c then skipLayout (place.after c) rest else ⟨place, text⟩
  | [] => ⟨place, []⟩
termination_by text.length

@[simp] theorem skipLayout_nil (place : Place) : skipLayout place [] = ⟨place, []⟩ := by
  rw [skipLayout]

/--
The terminal at the front of a text, among those that are allowed there. A name takes the whole
word, which is a keyword only where that keyword is allowed too; where no name is allowed, a
keyword is taken off the front of a longer word.
-/
def lexeme? (allowed : List Terminal) (text : List Char) : Option (Terminal × List Char) :=
  match text with
  | [] => none
  | c :: _ =>
    if allowed.contains .name && isNameStart c then
      let word := text.takeWhile isNameChar
      let keyword := Terminal.keywords.find? fun k =>
        allowed.contains k && k.spelling.toList == word
      some (keyword.getD .name, word)
    else if allowed.contains .int && c.isDigit then some (.int, text.takeWhile Char.isDigit)
    else
      let marks := Terminal.keywords ++ Terminal.punctuation
      (marks.find? fun t => allowed.contains t && t.spelling.toList.isPrefixOf text).map
        fun t => (t, t.spelling.toList)

structure Token where
  terminal : Terminal
  text : List Char
  span : Span

inductive Scan where
  | token (token : Token) (behind : Cursor)
  | misplaced (text : List Char) (place : Place)
  | unknown (c : Char) (place : Place)
  | finished

/--
The next token. Text that is none of the allowed terminals is misplaced where it is a terminal at
all.
-/
def scan (allowed : List Terminal) (cursor : Cursor) : Scan :=
  let ⟨place, text⟩ := skipLayout cursor.place cursor.rest
  match text with
  | [] => .finished
  | c :: _ =>
    match lexeme? allowed text with
    | some (terminal, word) =>
      let behind := place.advance word
      .token ⟨terminal, word, ⟨place, behind⟩⟩ ⟨behind, text.drop word.length⟩
    | none =>
      match lexeme? Terminal.written text with
      | some (_, word) => .misplaced word place
      | none => .unknown c place

theorem skipLayout_length_le (place : Place) (text : List Char) :
    (skipLayout place text).rest.length ≤ text.length := by
  fun_induction skipLayout place text <;> grind

theorem lexeme?_ne_nil {allowed : List Terminal} {text word : List Char} {terminal : Terminal}
    (h : lexeme? allowed text = some (terminal, word)) : word ≠ [] := by
  unfold lexeme? at h
  split at h
  · simp at h
  · split at h
    · rename_i c rest hc
      have hname : isNameChar c = true := by
        simp only [isNameStart, isNameChar, Bool.and_eq_true, Bool.or_eq_true,
          Char.isAlphanum] at hc ⊢
        grind
      simp only [Option.some.injEq, Prod.mk.injEq] at h
      rw [← h.2, List.takeWhile_cons_of_pos hname]
      exact List.cons_ne_nil _ _
    · split at h
      · rename_i c rest _ hc
        simp only [Option.some.injEq, Prod.mk.injEq] at h
        rw [← h.2, List.takeWhile_cons_of_pos (by simpa using (by simpa using hc : _ ∧ _).2)]
        exact List.cons_ne_nil _ _
      · obtain ⟨t, ht, heq⟩ := Option.map_eq_some_iff.1 h
        have hmem := List.mem_of_find?_eq_some ht
        obtain ⟨rfl, rfl⟩ := Prod.mk.inj heq
        have hall : ∀ t ∈ Terminal.keywords ++ Terminal.punctuation, t.spelling.toList ≠ [] := by
          decide
        exact hall _ hmem

theorem scan_length_lt {allowed : List Terminal} {cursor behind : Cursor} {token : Token}
    (h : scan allowed cursor = .token token behind) :
    behind.rest.length < cursor.rest.length := by
  have hle := skipLayout_length_le cursor.place cursor.rest
  unfold scan at h
  generalize skipLayout cursor.place cursor.rest = skipped at h hle
  obtain ⟨place, text⟩ := skipped
  cases text with
  | nil => simp at h
  | cons c text =>
    simp only at h hle
    split at h
    · rename_i terminal word hword
      have := List.length_pos_iff.2 (lexeme?_ne_nil hword)
      simp only [Scan.token.injEq] at h
      rw [← h.2, List.length_drop]
      simp only [List.length_cons] at hle ⊢
      omega
    · split at h <;> simp at h

end ScopedNames.Dialect

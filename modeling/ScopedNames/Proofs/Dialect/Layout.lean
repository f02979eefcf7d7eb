import Mathlib
import ScopedNames.Dialect.Lexer

set_option autoImplicit false

namespace ScopedNames.Dialect

/-- A blank, or a comment that comes to its end. -/
inductive LayoutPiece where
  | blank (c : Char) (layout : isLayout c = true)
  | block (body : List Char) (closed : ¬ ['*', '/'] <:+: body)
  | line (body : List Char) (single : '\n' ∉ body)

def LayoutPiece.text : LayoutPiece → List Char
  | blank c _ => [c]
  | block body _ => '/' :: '*' :: (body ++ ['*', '/'])
  | line body _ => '/' :: '/' :: (body ++ ['\n'])

abbrev Layout := List LayoutPiece

def Layout.text (gap : Layout) : List Char := gap.flatMap LayoutPiece.text

def Layout.space : Layout := [.blank ' ' rfl]

def Settled (text : List Char) : Prop := ∀ place, skipLayout place text = ⟨place, text⟩

variable {body behind text rest : List Char} {c : Char}

theorem blockComment_eq_some :
    blockComment text = some (body, behind) ↔
      ∃ inner, body = inner ++ ['*', '/'] ∧ ¬ ['*', '/'] <:+: inner ∧
        text = inner ++ '*' :: '/' :: behind := by
  fun_induction blockComment text generalizing body with
  | case1 rest =>
    constructor
    · intro closed
      cases closed
      exact ⟨[], rfl, by simp, rfl⟩
    · rintro ⟨inner, rfl, closed, same⟩
      rcases inner with _ | ⟨c, _ | ⟨d, inner⟩⟩
      · cases same
        rfl
      · cases same
      · -- The mark in front would stand inside the comment.
        cases same
        exact absurd (List.infix_append [] ['*', '/'] inner) closed
  | case2 c rest unmarked ih =>
    simp only [Option.map_eq_some_iff, Prod.exists, Prod.mk.injEq]
    constructor
    · rintro ⟨later, tail, found, rfl, rfl⟩
      obtain ⟨inner, rfl, closed, rfl⟩ := ih.1 found
      refine ⟨c :: inner, rfl, ?_, rfl⟩
      rw [List.infix_cons_iff]
      rintro (front | inside)
      · obtain ⟨more, same⟩ := front
        cases inner with
        | nil => cases same
        | cons d inner =>
          cases same
          exact unmarked _ rfl rfl
      · exact closed inside
    · rintro ⟨inner, rfl, closed, same⟩
      cases inner with
      | nil =>
        cases same
        exact absurd rfl (unmarked _ rfl)
      | cons d inner =>
        cases same
        have inside : ¬ ['*', '/'] <:+: inner := fun found => closed (List.infix_cons found)
        exact ⟨inner ++ ['*', '/'], behind, ih.2 ⟨inner, rfl, inside, rfl⟩, rfl, rfl⟩
  | case3 => simp

theorem skipLayout_line (place : Place) :
    skipLayout place ('/' :: '/' :: rest) =
      skipLayout (place.advance ('/' :: '/' :: rest.takeWhile (· != '\n')))
        (rest.dropWhile (· != '\n')) := by
  rw [skipLayout]

theorem skipLayout_blank (place : Place) (layout : isLayout c = true) :
    skipLayout place (c :: rest) = skipLayout (place.after c) rest := by
  have blank : c ≠ '/' := by
    rintro rfl
    exact absurd layout (by decide)
  rw [skipLayout]
  · rw [if_pos layout]
  · rintro _ rfl
    exact absurd rfl blank
  · rintro _ rfl
    exact absurd rfl blank

theorem skipLayout_block (place : Place) (closed : blockComment rest = some (body, behind)) :
    skipLayout place ('/' :: '*' :: rest) =
      skipLayout (place.advance ('/' :: '*' :: body)) behind := by
  rw [skipLayout]
  split
  · next found =>
    cases closed.symm.trans found
    rfl
  · next found => cases closed.symm.trans found

theorem within_line (single : '\n' ∉ body) : ∀ c ∈ body, (c != '\n') = true := by
  intro c member
  simpa using fun same : c = '\n' => single (same ▸ member)

theorem skipLayout_piece (place : Place) (piece : LayoutPiece) (rest : List Char) :
    skipLayout place (piece.text ++ rest) = skipLayout (place.advance piece.text) rest := by
  cases piece with
  | blank c layout => exact skipLayout_blank place layout
  | block body closed =>
    have taken : blockComment (body ++ '*' :: '/' :: rest) = some (body ++ ['*', '/'], rest) :=
      blockComment_eq_some.2 ⟨body, rfl, closed, rfl⟩
    have whole := skipLayout_block place taken
    simpa [LayoutPiece.text] using whole
  | line body single =>
    have all := within_line single
    have front : (body ++ '\n' :: rest).takeWhile (· != '\n') = body := by
      rw [List.takeWhile_append_of_pos all]
      simp
    have back : (body ++ '\n' :: rest).dropWhile (· != '\n') = '\n' :: rest := by
      rw [List.dropWhile_append_of_pos all]
      simp
    have newline : isLayout '\n' = true := by decide
    simp only [LayoutPiece.text, List.cons_append, List.append_assoc, List.nil_append]
    rw [skipLayout_line, front, back, skipLayout_blank _ newline]
    simp only [Place.advance_cons, Place.advance_append, Place.advance_nil]

theorem skipLayout_layout (place : Place) (gap : Layout) (rest : List Char) :
    skipLayout place (gap.text ++ rest) = skipLayout (place.advance gap.text) rest := by
  induction gap generalizing place with
  | nil => rfl
  | cons piece gap ih =>
    simp only [Layout.text, List.flatMap_cons, List.append_assoc, Place.advance_append] at ih ⊢
    rw [skipLayout_piece, ih]

theorem settled_nil : Settled [] := skipLayout_nil

theorem settled_cons (slash : c ≠ '/') (layout : isLayout c = false) : Settled (c :: rest) := by
  intro place
  rw [skipLayout]
  · rw [layout, if_neg Bool.false_ne_true]
  · exact fun _ same _ => slash same
  · exact fun _ same _ => slash same

theorem settled_block (cut : blockComment rest = none) : Settled ('/' :: '*' :: rest) := by
  intro place
  rw [skipLayout]
  split
  · next found => cases cut.symm.trans found
  · rfl

theorem settled_slash (line : ∀ more, rest ≠ '/' :: more) (block : ∀ more, rest ≠ '*' :: more) :
    Settled ('/' :: rest) := by
  intro place
  rw [skipLayout]
  · rfl
  · exact fun more _ same => line more same
  · exact fun more _ same => block more same

theorem skipLayout_open_line (place : Place) (single : '\n' ∉ body) :
    skipLayout place ('/' :: '/' :: body) = ⟨place.advance ('/' :: '/' :: body), []⟩ := by
  have all := within_line single
  rw [skipLayout_line, List.takeWhile_eq_self_iff.2 all, List.dropWhile_eq_nil_iff.2 all,
    settled_nil]

-- A comment that ends where the text does.
def CutOff (text : List Char) : Prop := ∃ body, text = '/' :: '/' :: body ∧ '\n' ∉ body

theorem exists_layout (text : List Char) :
    ∃ (gap : Layout) (rest : List Char), text = gap.text ++ rest ∧
      (Settled rest ∨ CutOff rest) := by
  -- The first piece is taken off; the others are those of a shorter text.
  have split (piece : LayoutPiece) (more : List Char)
      (shorter : more.length < text.length) (first : text = piece.text ++ more) :
      ∃ (gap : Layout) (rest : List Char), text = gap.text ++ rest ∧
        (Settled rest ∨ CutOff rest) := by
    obtain ⟨gap, rest, same, left⟩ := exists_layout more
    exact ⟨piece :: gap, rest, by simp [first, same, Layout.text], left⟩
  have stay (left : Settled text ∨ CutOff text) :
      ∃ (gap : Layout) (rest : List Char), text = gap.text ++ rest ∧
        (Settled rest ∨ CutOff rest) := ⟨[], text, rfl, left⟩
  cases text with
  | nil => exact stay (.inl settled_nil)
  | cons c rest =>
    by_cases slash : c = '/'
    · subst slash
      by_cases line : ∃ more, rest = '/' :: more
      · obtain ⟨more, rfl⟩ := line
        by_cases newline : '\n' ∈ more
        · obtain ⟨body, tail, rfl, single⟩ := List.eq_append_cons_of_mem newline
          exact split (.line body single) tail (by simp; omega) (by simp [LayoutPiece.text])
        · exact stay (.inr ⟨more, rfl, newline⟩)
      · by_cases block : ∃ more, rest = '*' :: more
        · obtain ⟨more, rfl⟩ := block
          cases closed : blockComment more with
          | none => exact stay (.inl (settled_block closed))
          | some found =>
            obtain ⟨inner, _, apart, rfl⟩ := blockComment_eq_some.1 closed
            exact split (.block inner apart) found.2 (by simp; omega) (by simp [LayoutPiece.text])
        · exact stay (.inl (settled_slash (not_exists.1 line) (not_exists.1 block)))
    · cases layout : isLayout c with
      | true => exact split (.blank c layout) rest (by simp) rfl
      | false => exact stay (.inl (settled_cons slash layout))
termination_by text.length

end ScopedNames.Dialect

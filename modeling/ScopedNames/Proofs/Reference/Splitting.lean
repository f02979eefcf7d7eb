import Mathlib
import ScopedNames.Proofs.Segment

set_option autoImplicit false

namespace ScopedNames

variable {letters rest text piece : List Char} {pieces : List (List Char)} {c : Char}

namespace Text

/-- No blank character stands at either end. -/
def Trimmed (text : List Char) : Prop :=
  (∀ c ∈ text.head?, isBlank c = false) ∧ ∀ c ∈ text.getLast?, isBlank c = false

theorem dropWhile_isBlank : ∀ c ∈ (text.dropWhile isBlank).head?, isBlank c = false := by
  intro c first
  have apart := List.head?_dropWhile_not isBlank text
  rwa [Option.mem_def.1 first] at apart

theorem dropWhile_isBlank_eq_self (apart : ∀ c ∈ text.head?, isBlank c = false) :
    text.dropWhile isBlank = text := by
  cases text with
  | nil => rfl
  | cons c rest => rw [List.dropWhile_cons_of_neg (by simp [apart c rfl])]

theorem isPrefix_strip (text : List Char) : strip text <+: text.dropWhile isBlank := by
  rw [strip, ← List.reverse_suffix, List.reverse_reverse]
  exact List.dropWhile_suffix isBlank

theorem isInfix_strip (text : List Char) : strip text <:+: text :=
  (isPrefix_strip text).isInfix.trans (List.dropWhile_suffix isBlank).isInfix

theorem strip_eq_nil_iff : strip text = [] ↔ ∀ c ∈ text, isBlank c = true := by
  rw [strip, List.reverse_eq_nil_iff, List.dropWhile_eq_nil_iff]
  constructor
  · intro behind c member
    rw [← List.takeWhile_append_dropWhile (p := isBlank) (l := text), List.mem_append] at member
    rcases member with front | back
    · exact List.mem_takeWhile_imp front
    · exact behind c (List.mem_reverse.2 back)
  · intro all c member
    exact all c ((List.dropWhile_suffix isBlank).subset (List.mem_reverse.1 member))

theorem trimmed_strip (text : List Char) : Trimmed (strip text) := by
  constructor
  · intro c first
    obtain ⟨rest, same⟩ := List.head?_eq_some_iff.1 first
    obtain ⟨back, whole⟩ := isPrefix_strip text
    exact dropWhile_isBlank c (by rw [← whole, same]; rfl)
  · intro c last
    rw [strip, List.getLast?_reverse] at last
    exact dropWhile_isBlank c last

theorem strip_eq_self_iff : strip text = text ↔ Trimmed text := by
  constructor
  · exact fun same => same ▸ trimmed_strip text
  · rintro ⟨first, last⟩
    rw [← List.head?_reverse] at last
    rw [strip, dropWhile_isBlank_eq_self first, dropWhile_isBlank_eq_self last,
      List.reverse_reverse]

end Text

-- What a text is between separators: none of them begins inside of a piece.
def Pieces : List (List Char) → Prop
  | [] => False
  | [last] => ¬[':', ':'] <:+: last
  | piece :: pieces => ¬[':', ':'] <:+: piece ++ [':'] ∧ Pieces pieces

theorem Pieces.apart (apart : Pieces pieces) : ∀ piece ∈ pieces, ¬[':', ':'] <:+: piece := by
  induction pieces with
  | nil => exact apart.elim
  | cons piece pieces ih =>
    cases pieces with
    | nil => exact List.forall_mem_singleton.2 apart
    | cons next pieces =>
      refine List.forall_mem_cons.2 ⟨fun inside => apart.1 ?_, ih apart.2⟩
      exact inside.trans (List.prefix_append piece [':']).isInfix

theorem separator_at_end : [':', ':'] <:+: piece ++ [':'] ↔
    [':', ':'] <:+: piece ∨ piece.getLast? = some ':' := by
  rw [List.infix_concat_iff, or_comm]
  refine or_congr_right ?_
  rw [← List.reverse_prefix, List.reverse_concat, List.getLast?_eq_head?_reverse]
  cases piece.reverse <;> simp [List.cons_prefix_cons, eq_comm]

theorem pieces_iff (filled : pieces ≠ []) (apart : ∀ piece ∈ pieces, ¬[':', ':'] <:+: piece) :
    Pieces pieces ↔ ∀ piece ∈ pieces.dropLast, piece.getLast? ≠ some ':' := by
  induction pieces with
  | nil => exact absurd rfl filled
  | cons piece pieces ih =>
    cases pieces with
    | nil => simpa [Pieces] using apart
    | cons next pieces =>
      obtain ⟨first, others⟩ := List.forall_mem_cons.1 apart
      rw [Pieces, ih (List.cons_ne_nil _ _) others, List.dropLast_cons_cons, List.forall_mem_cons,
        separator_at_end, not_or, and_iff_right first]
      exact List.cons_ne_nil next pieces

theorem splitSegments_ne_nil (text : List Char) : splitSegments text ≠ [] := by
  fun_cases splitSegments text <;> simp

theorem splitSegments_separator (rest : List Char) :
    splitSegments (':' :: ':' :: rest) = [] :: splitSegments rest := rfl

theorem splitSegments_cons (apart : ¬[':', ':'] <+: c :: rest) :
    splitSegments (c :: rest) = (splitSegments rest).modifyHead (c :: ·) := by
  have other : ∀ back, c = ':' → rest ≠ ':' :: back := by
    rintro back rfl rfl
    exact apart ⟨back, rfl⟩
  rw [splitSegments.eq_3 c rest other]
  cases split : splitSegments rest with
  | nil => exact absurd split (splitSegments_ne_nil rest)
  | cons piece pieces => rfl

theorem separator_in_front (back : List Char) :
    [':', ':'] <+: c :: (letters ++ ':' :: back) ↔ [':', ':'] <+: c :: (letters ++ [':']) := by
  cases letters <;> simp [List.cons_prefix_cons]

theorem intercalate_splitSegments (text : List Char) :
    [':', ':'].intercalate (splitSegments text) = text := by
  fun_induction splitSegments text with
  | case1 => rfl
  | case2 rest ih =>
    rw [List.intercalate_cons_of_ne_nil (splitSegments_ne_nil rest), ih]
    rfl
  | case3 c rest other none => exact absurd none (splitSegments_ne_nil rest)
  | case4 c rest other piece pieces split ih =>
    rw [split] at ih
    rw [← ih]
    cases pieces <;> simp [List.intercalate_cons_cons]

theorem pieces_splitSegments (text : List Char) : Pieces (splitSegments text) := by
  fun_induction splitSegments text with
  | case1 => simp [Pieces]
  | case2 rest ih =>
    cases split : splitSegments rest with
    | nil => exact absurd split (splitSegments_ne_nil rest)
    | cons piece pieces => exact ⟨by decide, split ▸ ih⟩
  | case3 c rest other none => exact absurd none (splitSegments_ne_nil rest)
  | case4 c rest other piece pieces split ih =>
    have whole := intercalate_splitSegments rest
    rw [split] at ih whole
    cases pieces with
    | nil =>
      rw [List.intercalate_singleton] at whole
      intro inside
      rcases List.infix_cons_iff.1 inside with ⟨back, front⟩ | inner
      · cases front
        exact other back rfl whole.symm
      · exact ih inner
    | cons next pieces =>
      rw [List.intercalate_cons_cons] at whole
      refine ⟨?_, ih.2⟩
      intro inside
      rcases List.infix_cons_iff.1 inside with front | inner
      · -- Also in the text a separator would begin here.
        have front := (separator_in_front (':' :: [':', ':'].intercalate (next :: pieces))).2 front
        obtain ⟨back, front⟩ := front
        obtain ⟨rfl, here⟩ := List.cons.inj front
        refine other back rfl (whole.symm.trans ?_)
        simpa using here.symm
      · exact ih.1 inner

theorem splitSegments_append (apart : ¬[':', ':'] <:+: letters ++ [':']) (rest : List Char) :
    splitSegments (letters ++ ':' :: ':' :: rest) = letters :: splitSegments rest := by
  induction letters with
  | nil => rfl
  | cons c letters ih =>
    have inner := ih fun inside => apart (List.infix_cons inside)
    have front : ¬[':', ':'] <+: c :: (letters ++ ':' :: ':' :: rest) := fun front =>
      apart ((separator_in_front (':' :: rest)).1 front).isInfix
    rw [List.cons_append, splitSegments_cons front, inner]
    rfl

theorem splitSegments_of_single (apart : ¬[':', ':'] <:+: letters) :
    splitSegments letters = [letters] := by
  induction letters with
  | nil => rfl
  | cons c letters ih =>
    rw [splitSegments_cons fun front => apart front.isInfix,
      ih fun inside => apart (List.infix_cons inside)]
    rfl

theorem splitSegments_intercalate (apart : Pieces pieces) :
    splitSegments ([':', ':'].intercalate pieces) = pieces := by
  induction pieces with
  | nil => exact apart.elim
  | cons piece pieces ih =>
    cases pieces with
    | nil =>
      rw [List.intercalate_singleton]
      exact splitSegments_of_single apart
    | cons next pieces =>
      rw [List.intercalate_cons_cons, List.append_assoc]
      rw [List.cons_append, List.singleton_append, splitSegments_append apart.1, ih apart.2]

theorem Text.Trimmed.around {front back : List Char} (first : Text.Trimmed front)
    (last : Text.Trimmed back) (filled : front ≠ []) (filled' : back ≠ []) (inner : List Char) :
    Text.Trimmed (front ++ inner ++ back) := by
  constructor
  · rw [List.append_assoc, List.head?_append_of_ne_nil _ filled]
    exact first.1
  · rw [List.getLast?_append_of_ne_nil _ filled']
    exact last.2

theorem intercalate_ne_nil (written : pieces ≠ []) (filled : ∀ piece ∈ pieces, piece ≠ []) :
    [':', ':'].intercalate pieces ≠ [] := by
  cases pieces with
  | nil => exact absurd rfl written
  | cons piece pieces =>
    have first := filled piece List.mem_cons_self
    cases pieces <;> simp [List.intercalate_cons_cons, first]

theorem trimmed_intercalate (written : pieces ≠ []) (filled : ∀ piece ∈ pieces, piece ≠ [])
    (trimmed : ∀ piece ∈ pieces, Text.Trimmed piece) :
    Text.Trimmed ([':', ':'].intercalate pieces) := by
  induction pieces with
  | nil => exact absurd rfl written
  | cons piece pieces ih =>
    cases pieces with
    | nil => simpa using trimmed
    | cons next pieces =>
      obtain ⟨first, others⟩ := List.forall_mem_cons.1 trimmed
      obtain ⟨some, more⟩ := List.forall_mem_cons.1 filled
      rw [List.intercalate_cons_cons]
      exact first.around (ih (List.cons_ne_nil _ _) more others) some
        (intercalate_ne_nil (List.cons_ne_nil _ _) more) _

theorem length_strip_each (pieces : List (List Char)) :
    ([':', ':'].intercalate (pieces.map Text.strip)).length ≤
      ([':', ':'].intercalate pieces).length := by
  induction pieces with
  | nil => exact Nat.le_refl _
  | cons piece pieces ih =>
    have shorter := (Text.isInfix_strip piece).length_le
    cases pieces with
    | nil => simpa using shorter
    | cons next pieces =>
      rw [List.map_cons] at ih
      rw [List.map_cons, List.map_cons, List.intercalate_cons_cons, List.intercalate_cons_cons]
      simp only [List.length_append]
      omega

-- Pieces lose nothing when they are stripped if their text does not.
theorem strip_each_eq (same : [':', ':'].intercalate (pieces.map Text.strip) =
    [':', ':'].intercalate pieces) : pieces.map Text.strip = pieces := by
  induction pieces with
  | nil => rfl
  | cons piece pieces ih =>
    have within := Text.isInfix_strip piece
    cases pieces with
    | nil => simpa using same
    | cons next pieces =>
      have shorter := length_strip_each (next :: pieces)
      rw [List.map_cons] at shorter ih
      rw [List.map_cons, List.map_cons, List.intercalate_cons_cons,
        List.intercalate_cons_cons] at same
      have lengths := congrArg List.length same
      simp only [List.length_append] at lengths
      have kept : Text.strip piece = piece :=
        within.eq_of_length (Nat.le_antisymm within.length_le (by omega))
      rw [kept, List.append_assoc, List.append_assoc] at same
      have others := List.append_cancel_left (List.append_cancel_left same)
      rw [List.map_cons, kept, List.map_cons, ih others]

end ScopedNames

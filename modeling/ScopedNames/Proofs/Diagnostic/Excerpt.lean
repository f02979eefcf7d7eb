import Mathlib
import ScopedNames.Diagnostic.Report

set_option autoImplicit false

namespace ScopedNames

variable {front own back rest text : List Char} {c : Char}

section Lines

def lastLine (text : List Char) : List Char := (text.reverse.takeWhile (· ≠ '\n')).reverse

def firstLine (text : List Char) : List Char := text.takeWhile (· ≠ '\n')

theorem lastLine_append (single : '\n' ∉ own) : lastLine (front ++ own) = lastLine front ++ own := by
  have all : ∀ c ∈ own.reverse, decide (c ≠ '\n') = true := fun c member =>
    decide_eq_true fun same => single (same ▸ List.mem_reverse.1 member)
  rw [lastLine, List.reverse_append, List.takeWhile_append_of_pos all, List.reverse_append,
    List.reverse_reverse, lastLine]

theorem lastLine_of_single (single : '\n' ∉ text) : lastLine text = text := by
  rw [← List.nil_append text, lastLine_append single]
  rfl

theorem takeWhile_append_cons {p : Char → Bool} (stops : p c = false) (front back : List Char) :
    (front ++ c :: back).takeWhile p = front.takeWhile p := by
  induction front with
  | nil => simp [stops]
  | cons d front ih => simp [List.takeWhile_cons, ih]

theorem lastLine_newline (front back : List Char) :
    lastLine (front ++ '\n' :: back) = lastLine back := by
  rw [lastLine, List.reverse_append, List.reverse_cons, List.append_assoc, List.singleton_append,
    takeWhile_append_cons (by simp), lastLine]

theorem firstLine_append (single : '\n' ∉ own) (back : List Char) :
    firstLine (own ++ back) = own ++ firstLine back :=
  List.takeWhile_append_of_pos fun _ member => decide_eq_true fun same => single (same ▸ member)

theorem firstLine_cons (single : c ≠ '\n') (text : List Char) :
    firstLine (c :: text) = c :: firstLine text :=
  List.takeWhile_cons_of_pos (decide_eq_true single)

theorem sourceLines_cons (c : Char) (rest : List Char) :
    sourceLines (c :: rest) =
      if c = '\n' then [] :: sourceLines rest else (sourceLines rest).modifyHead (c :: ·) := by
  simp [sourceLines, List.splitOn, List.splitOnP_cons_eq_if_modifyHead]

theorem sourceLines_first (text : List Char) : (sourceLines text)[0]? = some (firstLine text) := by
  induction text with
  | nil => rfl
  | cons c text ih =>
    rw [sourceLines_cons]
    by_cases newline : c = '\n'
    · simp [newline, firstLine]
    · rw [if_neg newline, List.getElem?_modifyHead, if_pos rfl, ih, firstLine_cons newline]
      rfl

-- The line on which one text goes over into another.
theorem sourceLines_append (front rest : List Char) :
    (sourceLines (front ++ rest))[front.count '\n']? = some (lastLine front ++ firstLine rest) := by
  induction front with
  | nil => exact sourceLines_first rest
  | cons c front ih =>
    rw [List.cons_append, sourceLines_cons]
    by_cases newline : c = '\n'
    · rw [if_pos newline, newline, List.count_cons_self, List.getElem?_cons_succ, ih]
      exact congrArg (fun line => some (line ++ firstLine rest)) (lastLine_newline [] front).symm
    · rw [if_neg newline, List.count_cons_of_ne newline, List.getElem?_modifyHead, ih]
      by_cases single : '\n' ∈ front
      · obtain ⟨before, behind, rfl⟩ := List.append_of_mem single
        rw [if_neg (by simp), ← List.cons_append, lastLine_newline, lastLine_newline]
      · have whole : '\n' ∉ c :: front := by
          rw [List.mem_cons, not_or]
          exact ⟨Ne.symm newline, single⟩
        rw [if_pos (List.count_eq_zero.2 single), lastLine_of_single single,
          lastLine_of_single whole]
        rfl

end Lines

section Carets

/--
A location that begins at some text of a source, which goes on to where the location ends if that
is on the same line.
-/
def Location.Points (l : Location) (source : List Char) : Prop :=
  ∃ (front own back : List Char) (c : Char), source = front ++ c :: own ++ back ∧ c ≠ '\n' ∧
    l.line = 1 + front.count '\n' ∧ l.column = 1 + (lastLine front).length ∧
    (l.endLine = l.line → '\n' ∉ c :: own ∧ l.endColumn = l.column + (c :: own).length ∧
      l.start = front.length ∧ l.stop = front.length + (c :: own).length)

def Location.gutter (l : Location) : List Char := (l.line.repr ++ " | ").toList

def Location.margin (l : Location) : List Char :=
  List.replicate l.line.repr.length ' ' ++ [' ', '|', ' ']

/--
Behind gutters of one width, a rendering shows the line of a location, and below it carets under as
many characters of that line as the location has, if it ends there.
-/
structure Diagnostic.Underlines (d : Diagnostic) (sources : Sources) (l : Location)
    (source line : List Char) (k : Nat) : Prop where
  located : d.location = some l
  placed : 0 < l.line ∧ 0 < l.column
  whole : (sourceLines source)[l.line.toNat - 1]? = some line
  level : l.gutter.length = l.margin.length
  shown : ∃ (tail : List Char) (above below : List (List Char)),
    d.render sources false = ['\n'].intercalate (above ++
      [l.gutter ++ line,
        l.margin ++ (List.replicate (l.column.toNat - 1) ' ' ++ List.replicate k '^' ++ tail)] ++
      below) ∧ ∀ c ∈ tail.head?, c = ' '
  marked : 0 < k
  inside : l.column.toNat - 1 + k ≤ line.length
  exact : l.endLine = l.line →
    (line.drop (l.column.toNat - 1)).take k = (source.take l.stop.toNat).drop l.start.toNat

variable {d : Diagnostic} {sources : Sources} {l : Location} {source : String}

theorem level_gutter (l : Location) : l.gutter.length = l.margin.length := by
  simp [Location.gutter, Location.margin, String.length_toList]

theorem paintLine_plain (line : StyledLine) : paintLine false line = line.flatMap (·.text) :=
  List.flatMap_congr fun f _ => by simp [Fragment.paint]

def Diagnostic.labelText (d : Diagnostic) : List Char :=
  ((Diagnostic.nonempty d.label).elim "" (" " ++ ·)).toList

theorem labelText_first : ∀ c ∈ d.labelText.head?, c = ' ' := by
  intro c first
  rw [Diagnostic.labelText] at first
  cases labelled : Diagnostic.nonempty d.label with
  | none => simp [labelled] at first
  | some label =>
    rw [labelled, Option.elim_some, String.toList_append] at first
    cases first
    rfl

theorem render_excerpt (located : d.location = some l) (held : sources.lookup l.file = some source) :
    d.render sources false = ['\n'].intercalate (((d.lines sources).take 3).map (paintLine false) ++
      [l.gutter ++ sourceLine source.toList l.line,
        l.margin ++ (List.replicate (max l.column 1 - 1).toNat ' ' ++
          List.replicate (Diagnostic.caretCount l (sourceLine source.toList l.line)) '^' ++
            d.labelText)] ++
      (d.annotations l.line.repr.length).map (paintLine false)) := by
  rw [Diagnostic.render, Diagnostic.lines, located]
  simp only [held, Diagnostic.excerpt, paintLines]
  congr 1
  simp [paintLine_plain, Fragment.styled, Location.gutter, Location.margin, Diagnostic.spaces]
  rw [Diagnostic.labelText]
  cases Diagnostic.nonempty d.label <;> rfl

theorem caretCount_under (back : List Char) (apart : c ≠ '\n')
    (column : l.column = 1 + (lastLine front).length)
    (reach : l.endLine = l.line →
      '\n' ∉ c :: own ∧ l.endColumn = l.column + (c :: own).length) :
    let behind := firstLine (c :: own ++ back)
    let k := Diagnostic.caretCount l (lastLine front ++ behind)
    0 < k ∧ k ≤ behind.length ∧ (l.endLine = l.line → behind.take k = c :: own) := by
  simp only [Diagnostic.caretCount]
  split
  · next one =>
    obtain ⟨single, stops⟩ := reach one.1
    have count : (l.endColumn - l.column).toNat = (c :: own).length := by omega
    rw [count, firstLine_append single, List.take_left]
    exact ⟨Nat.succ_pos _, by simp, fun _ => rfl⟩
  · next several =>
    have here : (max l.column 1 - 1).toNat = (lastLine front).length := by omega
    have filled : firstLine (c :: own ++ back) = c :: firstLine (own ++ back) :=
      firstLine_cons apart _
    have some : 0 < (firstLine (c :: own ++ back)).length := filled ▸ Nat.succ_pos _
    have most := (List.takeWhile_sublist (l := firstLine (c :: own ++ back))
      fun c => !endsWord c).length_le
    rw [here, List.drop_left]
    refine ⟨by omega, by omega, fun level => ?_⟩
    -- A location that ends on its line has an end behind its start.
    have wide := (reach level).2
    simp only [List.length_cons] at wide
    omega

theorem underlines_of_points (located : d.location = some l)
    (held : sources.lookup l.file = some source) (points : l.Points source.toList) :
    ∃ line k, d.Underlines sources l source.toList line k := by
  obtain ⟨front, own, back, c, split, apart, row, column, reach⟩ := points
  have here : l.column.toNat - 1 = (lastLine front).length := by omega
  have here' : (max l.column 1 - 1).toNat = (lastLine front).length := by omega
  have number : l.line.toNat - 1 = front.count '\n' := by omega
  let line := lastLine front ++ firstLine (c :: own ++ back)
  have found : (sourceLines source.toList)[l.line.toNat - 1]? = some line := by
    rw [split, number, List.append_assoc]
    exact sourceLines_append front (c :: own ++ back)
  have shown : sourceLine source.toList l.line = line := by
    rw [sourceLine, if_pos (by omega), found, Option.getD_some]
  obtain ⟨marked, most, under⟩ : 0 < Diagnostic.caretCount l line ∧
      Diagnostic.caretCount l line ≤ (firstLine (c :: own ++ back)).length ∧
      (l.endLine = l.line → (firstLine (c :: own ++ back)).take (Diagnostic.caretCount l line) =
        c :: own) :=
    caretCount_under back apart column fun level => ⟨(reach level).1, (reach level).2.1⟩
  refine ⟨line, Diagnostic.caretCount l line, located, by omega, found, level_gutter l, ?_,
    marked, ?_, ?_⟩
  · have text := render_excerpt located held
    rw [shown, here', ← here] at text
    exact ⟨_, _, _, text, labelText_first⟩
  · rw [here, List.length_append]
    omega
  · intro level
    obtain ⟨_, _, start, stop⟩ := reach level
    have cut : l.stop.toNat = (front ++ c :: own).length := by
      rw [List.length_append]
      omega
    rw [here, List.drop_left, under level, split, cut, List.take_left, start, Int.toNat_natCast,
      List.drop_left]

end Carets

end ScopedNames

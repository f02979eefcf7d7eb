import ScopedNames.Proofs.Dialect.Standing
import ScopedNames.Proofs.Reference.Splitting

set_option autoImplicit false

namespace ScopedNames

variable {r : Reference}

theorem name_of_ofValue {name : String} {segment : Segment}
    (read : Segment.ofValue (.text name) = .ok segment) : segment.name = name := by
  simp only [Segment.ofValue, Segment.ofName?] at read
  split at read
  · next found =>
    split at found
    · cases found
      cases read
      rfl
    · cases found
  · cases read

theorem names_of_mapM {names : List String} {segments : List Segment}
    (read : (names.map Value.text).mapM Segment.ofValue = .ok segments) :
    segments.map (·.name) = names := by
  induction names generalizing segments with
  | nil =>
    cases read
    rfl
  | cons name names ih =>
    rw [List.map_cons, List.mapM_cons] at read
    cases first : Segment.ofValue (.text name) with
    | error fault => simp [first, bind, Except.bind] at read
    | ok segment =>
      cases others : (names.map Value.text).mapM Segment.ofValue with
      | error fault => simp [first, others, bind, Except.bind] at read
      | ok rest =>
        simp only [first, others, bind, Except.bind, pure, Except.pure, Except.ok.injEq] at read
        rw [← read, List.map_cons, ih others, name_of_ofValue first]

namespace Reference

theorem eq_of_names {r s : Reference} (spelt : r.names = s.names) (kind : r.rooted = s.rooted) :
    r = s := by
  refine ext_segments (List.map_injective_iff.2 ?_ spelt) kind
  exact fun _ _ => Segment.ext_name

theorem ofNames_eq_ok {names : List String} {rooted : Bool} :
    ofNames names rooted = .ok r ↔ r.names = names ∧ r.rooted = rooted := by
  constructor
  · intro read
    rw [ofNames, of] at read
    split at read
    · cases read
    · cases read
    · next first others same =>
      cases read
      exact ⟨names_of_mapM same, rfl⟩
  · rintro ⟨rfl, rfl⟩
    have filled : r.names ≠ [] := by simpa [Reference.names] using r.segments_ne
    obtain ⟨s, read, spelt, kind⟩ := exists_ofNames r.rooted filled
      (List.forall_mem_map.2 fun segment _ => isName_of_segment segment)
    rw [read, eq_of_names spelt kind]

def afterRoot : List Char → List Char
  | ':' :: ':' :: rest => rest
  | rest => rest

theorem names_ne_blank : r.names ≠ parse.pieces [] := by
  intro same
  have blank : "" ∈ r.names := by simp [same, parse.pieces, splitSegments, Text.strip]
  obtain ⟨segment, _, empty⟩ := List.mem_map.1 blank
  exact segment.name_ne empty

theorem afterRoot_of_apart {text : List Char} (apart : ¬[':', ':'] <+: text) :
    afterRoot text = text := by
  unfold afterRoot
  split
  · next rest => exact absurd (List.prefix_append [':', ':'] rest) apart
  · rfl

theorem parse_eq_ok {written : String} :
    parse written = .ok r ↔
      r.names = parse.pieces (afterRoot (Text.strip written.toList)) ∧
        (r.rooted = true ↔ [':', ':'] <+: Text.strip written.toList) := by
  unfold parse
  split
  · next none => simp [none, afterRoot, names_ne_blank]
  · next none => simp [none, afterRoot, names_ne_blank]
  · next rest _ same => simp [same, afterRoot, ofNames_eq_ok]
  · next relative =>
    have apart : ¬[':', ':'] <+: Text.strip written.toList := fun ⟨rest, same⟩ =>
      relative rest same.symm
    simp [ofNames_eq_ok, afterRoot_of_apart apart, apart]

theorem parse_succeeds {written : String} :
    (∃ r, parse written = .ok r) ↔
      ∀ piece ∈ splitSegments (afterRoot (Text.strip written.toList)),
        ∃ c ∈ piece, Text.isBlank c = false := by
  have blank_or_not (piece : List Char) :
      (∃ c ∈ piece, Text.isBlank c = false) ↔ Text.strip piece ≠ [] := by
    simp [Text.strip_eq_nil_iff]
  simp only [blank_or_not]
  constructor
  · rintro ⟨r, read⟩ piece member empty
    have named : String.ofList (Text.strip piece) ∈ r.names := by
      rw [(parse_eq_ok.1 read).1]
      exact List.mem_map_of_mem member
    obtain ⟨segment, _, same⟩ := List.mem_map.1 named
    exact segment.name_ne (by rw [same, empty])
  · intro filled
    have apart := (pieces_splitSegments (afterRoot (Text.strip written.toList))).apart
    have named : ∀ name ∈ parse.pieces (afterRoot (Text.strip written.toList)),
        IsName (.text name) := by
      intro name member
      obtain ⟨piece, found, rfl⟩ := List.mem_map.1 member
      refine ⟨_, rfl, by simpa using filled piece found, ?_⟩
      rw [String.toList_ofList]
      exact fun inside => apart piece found (inside.trans (Text.isInfix_strip piece))
    have written' : parse.pieces (afterRoot (Text.strip written.toList)) ≠ [] := by
      simpa [parse.pieces] using splitSegments_ne_nil _
    obtain ⟨r, _, spelt, kind⟩ :=
      exists_ofNames (decide ([':', ':'] <+: Text.strip written.toList)) written' named
    exact ⟨r, parse_eq_ok.2 ⟨spelt, by simp [kind]⟩⟩

theorem trimmed_of_parse {written : String} (read : parse written = .ok r) :
    ∀ name ∈ r.names, Text.Trimmed name.toList := by
  rw [(parse_eq_ok.1 read).1]
  intro name member
  obtain ⟨piece, _, rfl⟩ := List.mem_map.1 member
  rw [String.toList_ofList]
  exact Text.trimmed_strip piece

section Rendering

def pieces (r : Reference) : List (List Char) := r.names.map String.toList

def letters (r : Reference) : List Char := [':', ':'].intercalate r.pieces

theorem pieces_ne_nil (r : Reference) : r.pieces ≠ [] := by
  simpa [pieces, names] using r.segments_ne

theorem toList_render (r : Reference) :
    r.render.toList = (if r.rooted then [':', ':'] else []) ++ r.letters := by
  rw [render, String.toList_append, joinNames, String.toList_intercalate]
  cases r.rooted <;> rfl

theorem pieces_filled (r : Reference) : ∀ piece ∈ r.pieces, piece ≠ [] := by
  intro piece member
  obtain ⟨_, named, rfl⟩ := List.mem_map.1 member
  obtain ⟨segment, _, rfl⟩ := List.mem_map.1 named
  simpa using segment.name_ne

theorem pieces_apart (r : Reference) : ∀ piece ∈ r.pieces, ¬[':', ':'] <:+: piece := by
  intro piece member
  obtain ⟨_, named, rfl⟩ := List.mem_map.1 member
  obtain ⟨segment, _, rfl⟩ := List.mem_map.1 named
  rw [← hasSeparator_iff, segment.no_separator]
  exact Bool.false_ne_true

theorem strip_render (trimmed : ∀ name ∈ r.names, Text.Trimmed name.toList) :
    Text.strip r.render.toList = r.render.toList := by
  rw [Text.strip_eq_self_iff, toList_render]
  have whole : Text.Trimmed r.letters :=
    trimmed_intercalate r.pieces_ne_nil r.pieces_filled (List.forall_mem_map.2 trimmed)
  have filled : r.letters ≠ [] := intercalate_ne_nil r.pieces_ne_nil r.pieces_filled
  cases r.rooted with
  | false => exact whole
  | true =>
    have root : Text.Trimmed [':', ':'] := Text.strip_eq_self_iff.1 (by decide)
    exact root.around whole (by simp) filled []

theorem afterRoot_render (kind : r.rooted = true ↔ [':', ':'] <+: r.render.toList) :
    afterRoot r.render.toList = r.letters := by
  rw [toList_render] at kind ⊢
  cases rooted : r.rooted with
  | true => rfl
  | false =>
    rw [rooted] at kind
    exact afterRoot_of_apart fun front => Bool.false_ne_true (kind.2 front)

theorem rooted_iff (apart : Pieces r.pieces) :
    r.rooted = true ↔ [':', ':'] <+: r.render.toList := by
  rw [toList_render]
  cases r.rooted with
  | true => simp
  | false =>
    refine iff_of_false Bool.false_ne_true ?_
    rintro ⟨rest, same⟩
    -- The first piece would be empty.
    have split : splitSegments r.letters = r.pieces := splitSegments_intercalate apart
    rw [show r.letters = ':' :: ':' :: rest from same.symm, splitSegments_separator] at split
    exact r.pieces_filled [] (split ▸ List.mem_cons_self) rfl

theorem parse_render_iff :
    parse r.render = .ok r ↔
      (∀ name ∈ r.names, Text.Trimmed name.toList) ∧
        ∀ name ∈ r.names.dropLast, name.toList.getLast? ≠ some ':' := by
  have ends : Pieces r.pieces ↔ ∀ name ∈ r.names.dropLast, name.toList.getLast? ≠ some ':' := by
    rw [pieces_iff r.pieces_ne_nil r.pieces_apart, pieces, ← List.map_dropLast,
      List.forall_mem_map]
  rw [← ends]
  constructor
  · intro read
    have trimmed := trimmed_of_parse read
    obtain ⟨spelt, kind⟩ := parse_eq_ok.1 read
    rw [strip_render trimmed] at spelt kind
    rw [afterRoot_render kind] at spelt
    have stripped : (splitSegments r.letters).map Text.strip = r.pieces := by
      simp [pieces, spelt, parse.pieces, Function.comp_def]
    have kept : (splitSegments r.letters).map Text.strip = splitSegments r.letters := by
      apply strip_each_eq
      rw [stripped, intercalate_splitSegments, letters]
    rw [stripped] at kept
    exact ⟨trimmed, kept ▸ pieces_splitSegments r.letters⟩
  · rintro ⟨trimmed, apart⟩
    have kind := rooted_iff apart
    rw [parse_eq_ok, strip_render trimmed, afterRoot_render kind]
    refine ⟨?_, kind⟩
    rw [parse.pieces, letters, splitSegments_intercalate apart, pieces, List.map_map]
    have kept (name : String) (member : name ∈ r.names) :
        String.ofList (Text.strip name.toList) = name := by
      rw [Text.strip_eq_self_iff.2 (trimmed name member), String.ofList_toList]
    exact ((List.map_congr_left kept).trans (List.map_id r.names)).symm

-- The path of `:` and `a` is written like the rooted path of `:a`.
example : (parse ":::a").toOption.map (fun r => (r.names, r.rooted)) = some ([":a"], true) := by
  cbv

end Rendering

end Reference

namespace Dialect

variable {σ : Type}

def Attribute.names (a : Attribute σ) : List (QualifiedName σ) :=
  a.arguments.filterMap fun argument =>
    match argument.value with
    | .name q => some q
    | .int _ | .bool _ => none

def Visit.names : Visit σ → List (QualifiedName σ)
  | enter _ list | attributes list => list.flatMap Attribute.names
  | directive target list => list.flatMap Attribute.names ++ [target]
  | leave _ | empty => []

def SourceUnit.names (u : SourceUnit) : List (QualifiedName Span) :=
  (outline u.declarations).flatMap Visit.names

theorem Attribute.Stands.names {a : Attribute σ} (stands : a.Stands) :
    ∀ q ∈ a.names, ∃ keywords, q.Stands keywords := by
  intro q member
  obtain ⟨argument, written, same⟩ := List.mem_filterMap.1 member
  have valued := stands.arguments argument written
  cases value : argument.value <;> simp only [value] at same valued <;> cases same
  exact ⟨_, valued⟩

theorem Visit.Stands.names {v : Visit σ} (stands : v.Stands) :
    ∀ q ∈ v.names, ∃ keywords, q.Stands keywords := by
  have listed {list : List (Attribute σ)} (stand : AttributesStand list) :
      ∀ q ∈ list.flatMap Attribute.names, ∃ keywords, q.Stands keywords := by
    intro q member
    obtain ⟨a, written, inside⟩ := List.mem_flatMap.1 member
    exact (stand a written).names q inside
  cases v with
  | enter path list => exact listed stands.2
  | attributes list => exact listed stands
  | directive target list =>
    intro q member
    rcases List.mem_append.1 member with inside | last
    · exact listed stands.2 q inside
    · rw [List.mem_singleton.1 last]
      exact ⟨_, stands.1⟩
  | leave | empty => exact fun q member => by cases member

theorem isBlank_of_isNameChar {c : Char} (letter : isNameChar c = true) :
    Text.isBlank c = false := by
  rw [Bool.eq_false_iff]
  intro blank
  simp only [Text.isBlank, Text.blankRanges, List.any_cons, List.any_nil, Bool.or_eq_true,
    Bool.and_eq_true, decide_eq_true_eq, Bool.false_eq_true, or_false] at blank
  simp only [isNameChar, Char.isAlphanum, Char.isAlpha, Char.isUpper, Char.isLower, Char.isDigit,
    Bool.or_eq_true, Bool.and_eq_true, decide_eq_true_eq, ge_iff_le,
    UInt32.le_iff_toNat_le] at letter
  rcases letter with alphanumeric | rfl
  · change ((65 ≤ c.toNat ∧ c.toNat ≤ 90) ∨ 97 ≤ c.toNat ∧ c.toNat ≤ 122) ∨
      48 ≤ c.toNat ∧ c.toNat ≤ 57 at alphanumeric
    omega
  · simp at blank

theorem IsWord.trimmed {text : List Char} (word : IsWord text) : Text.Trimmed text :=
  ⟨fun c first => isBlank_of_isNameChar (word.2 c (List.mem_of_mem_head? first)),
    fun c last => isBlank_of_isNameChar (word.2 c (List.mem_of_mem_getLast? last))⟩

theorem QualifiedName.Stands.parse_render {q : QualifiedName σ} {keywords : List Terminal}
    (stands : q.Stands keywords) :
    ∃ r, Reference.ofNames q.names q.rooted = .ok r ∧ r.render = q.render ∧
      Reference.parse q.render = .ok r := by
  have named : ∀ name ∈ q.names, IsName (.text name) := by
    intro name member
    obtain ⟨⟨c, first, _⟩, letters⟩ := stands.words name member
    refine ⟨name, rfl, fun empty => by simp [empty] at first, fun inside => ?_⟩
    have letter := letters ':' (inside.subset (by decide))
    revert letter
    decide
  obtain ⟨r, read, spelt, kind⟩ := exists_ofNames q.rooted stands.filled named
  have rendered : r.render = q.render := by
    rw [Reference.render, QualifiedName.render, spelt, kind]
  refine ⟨r, read, rendered, ?_⟩
  rw [← rendered, Reference.parse_render_iff, spelt]
  constructor
  · exact fun name member => (stands.words name member).trimmed
  · intro name member colon
    have letter := (stands.words name (List.mem_of_mem_dropLast member)).2 ':'
      (List.mem_of_getLast? colon)
    revert letter
    decide

end Dialect

namespace Reference

/--
A text is a path if something is left between its separators, and a path is read back from its text
if no blank stands around a name and no colon in front of a separator.
-/
theorem parse_exact :
    (∀ written : String,
      ((∃ r, parse written = .ok r) ↔
        ∀ piece ∈ splitSegments (afterRoot (Text.strip written.toList)),
          ∃ c ∈ piece, Text.isBlank c = false) ∧
      ∀ r, parse written = .ok r → ∀ name ∈ r.names,
        name ≠ "" ∧ Text.Trimmed name.toList ∧ ¬separator.toList <:+: name.toList) ∧
    (∀ r : Reference, parse r.render = .ok r ↔
      (∀ name ∈ r.names, Text.Trimmed name.toList) ∧
        ∀ name ∈ r.names.dropLast, name.toList.getLast? ≠ some ':') ∧
    ∀ (file source : String) (u : Dialect.SourceUnit), Dialect.readUnit file source = .ok u →
      ∀ q ∈ u.names, ∃ r, ofNames q.names q.rooted = .ok r ∧ r.render = q.render ∧
        parse q.render = .ok r := by
  refine ⟨fun written => ⟨parse_succeeds, ?_⟩, fun r => parse_render_iff, ?_⟩
  · intro r read name member
    have trimmed := trimmed_of_parse read name member
    obtain ⟨segment, _, rfl⟩ := List.mem_map.1 member
    obtain ⟨_, same, filled, apart⟩ := isName_of_segment segment
    injection same with same
    exact ⟨segment.name_ne, trimmed, same ▸ apart⟩
  · intro file source u read q member
    obtain ⟨_, reading, _⟩ := Dialect.readUnit_eq_ok.1 read
    have standing := Dialect.standing_of_readFrom Dialect.Progress.stands_start reading
    obtain ⟨v, visited, written⟩ := List.mem_flatMap.1 member
    obtain ⟨keywords, stands⟩ := (standing v visited).names q written
    exact stands.parse_render

end Reference

end ScopedNames

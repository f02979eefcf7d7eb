import ScopedNames.Reference

set_option autoImplicit false

namespace ScopedNames

theorem hasSeparator_iff (letters : List Char) :
    hasSeparator letters = true ↔ [':', ':'] <:+: letters := by
  fun_induction hasSeparator letters with
  | case1 rest => simpa using List.infix_append [] [':', ':'] rest
  | case2 first rest none ih =>
    rw [ih, List.infix_cons_iff]
    constructor
    · exact .inr
    · rintro (front | inner)
      · -- A separator in front is what the first pattern has taken.
        obtain ⟨tail, equal⟩ := front
        cases equal
        exact absurd rfl (none tail rfl)
      · exact inner
  | case3 => simp

def IsName (value : Value) : Prop :=
  ∃ name, value = .text name ∧ name ≠ "" ∧ ¬ separator.toList <:+: name.toList

theorem isName_text {name : String} :
    IsName (.text name) ↔ name ≠ "" ∧ ¬separator.toList <:+: name.toList := by
  simp [IsName]

theorem ofValue_of_isName {value : Value} (named : IsName value) :
    ∃ segment : Segment, value = .text segment.name ∧ Segment.ofValue value = .ok segment := by
  obtain ⟨name, rfl, filled, single⟩ := named
  have apart : hasSeparator name.toList = false := by
    rw [← Bool.not_eq_true, hasSeparator_iff]
    exact single
  refine ⟨⟨name, filled, apart⟩, rfl, ?_⟩
  simp [Segment.ofValue, Segment.ofName?, filled, apart]

theorem ofValue_of_not_isName {value : Value} (bad : ¬ IsName value) :
    Segment.ofValue value = .error (.invalidSegment value) := by
  cases value with
  | text name =>
    have refused : ¬ (name ≠ "" ∧ hasSeparator name.toList = false) := by
      rintro ⟨filled, apart⟩
      refine bad ⟨name, rfl, filled, ?_⟩
      intro inside
      rw [(hasSeparator_iff _).2 inside] at apart
      cases apart
    simp only [Segment.ofValue, Segment.ofName?, dif_neg refused]
  | _ => rfl

theorem isName_of_segment (segment : Segment) : IsName (.text segment.name) := by
  refine ⟨segment.name, rfl, segment.name_ne, ?_⟩
  intro inside
  have found := segment.no_separator
  rw [(hasSeparator_iff _).2 inside] at found
  cases found

theorem ofValue_segment (segment : Segment) : Segment.ofValue (.text segment.name) = .ok segment := by
  simp [Segment.ofValue, Segment.ofName?, segment.name_ne, segment.no_separator]

theorem mapM_ofValue {names : List String} (named : ∀ name ∈ names, IsName (.text name)) :
    ∃ segments : List Segment,
      (names.map Value.text).mapM Segment.ofValue = .ok segments ∧
      segments.map (·.name) = names := by
  induction names with
  | nil => exact ⟨[], rfl, rfl⟩
  | cons name names ih =>
    obtain ⟨segments, rest, spelt⟩ :=
      ih fun other member => named other (List.mem_cons_of_mem _ member)
    obtain ⟨segment, same, first⟩ := ofValue_of_isName (named name List.mem_cons_self)
    injection same with same
    refine ⟨segment :: segments, ?_, by rw [List.map_cons, spelt, same]⟩
    rw [List.map_cons, List.mapM_cons, first, rest]
    rfl

theorem exists_ofNames {names : List String} (rooted : Bool) (written : names ≠ [])
    (named : ∀ name ∈ names, IsName (.text name)) :
    ∃ r, Reference.ofNames names rooted = .ok r ∧ r.names = names ∧ r.rooted = rooted := by
  obtain ⟨segments, read, spelt⟩ := mapM_ofValue named
  cases segments with
  | nil => exact absurd spelt.symm written
  | cons first others =>
    refine ⟨⟨first :: others, rooted, List.cons_ne_nil _ _⟩, ?_, spelt, rfl⟩
    rw [Reference.ofNames, Reference.of, read]

end ScopedNames

import ScopedNames.Proofs.Scope.Grown
import ScopedNames.Proofs.Scope.Qualified

set_option autoImplicit false

namespace ScopedNames

section Joined

/-- A colon that a later name of the first path begins with ends an earlier name of the second. -/
def ColonMoved (names names' : List String) : Prop :=
  ∃ common name rest rest', rest ≠ [] ∧ rest' ≠ [] ∧ names = common ++ name :: rest ∧
    names' = common ++ (name ++ ":") :: rest' ∧ joinNames rest = ":" ++ joinNames rest'

variable {name name' : String} {names names' rest rest' : List String}

theorem ColonMoved.cons (moved : ColonMoved names names') (first : String) :
    ColonMoved (first :: names) (first :: names') := by
  obtain ⟨common, name, rest, rest', more, more', rfl, rfl, same⟩ := moved
  exact ⟨first :: common, name, rest, rest', more, more', rfl, rfl, same⟩

theorem toList_joinNames_cons : (joinNames (name :: names)).toList =
    name.toList ++ if names = [] then [] else ':' :: ':' :: (joinNames names).toList := by
  cases names <;> simp [joinNames, separator, String.intercalate_cons_cons]

theorem joinNames_cons (more : rest ≠ []) :
    joinNames (name :: rest) = name ++ "::" ++ joinNames rest := by
  rw [← String.toList_inj, toList_joinNames_cons, if_neg more]
  simp

theorem joinNames_of_cons (same : joinNames (name :: rest) = joinNames (name :: rest')) :
    joinNames rest = joinNames rest' := by
  have letters := congrArg String.toList same
  rw [toList_joinNames_cons, toList_joinNames_cons, List.append_cancel_left_eq] at letters
  -- A separator follows the name on both sides or on neither.
  by_cases more : rest = [] <;> by_cases more' : rest' = []
  · rw [more, more']
  · simp [more, more'] at letters
  · simp [more, more'] at letters
  · simpa [more, more', String.toList_inj] using letters

theorem joinNames_ne_empty (named : ∀ name ∈ names, IsName (.text name)) (written : names ≠ []) :
    joinNames names ≠ "" := by
  obtain ⟨name, rest, rfl⟩ := List.exists_cons_of_ne_nil written
  have filled := (isName_text.1 (named name List.mem_cons_self)).1
  intro empty
  have letters := congrArg String.toList empty
  simp [toList_joinNames_cons, filled] at letters

theorem joinNames_of_moved (moved : ColonMoved names names') :
    joinNames names = joinNames names' := by
  obtain ⟨common, name, rest, rest', more, more', rfl, rfl, same⟩ := moved
  induction common with
  | nil =>
    rw [List.nil_append, List.nil_append, joinNames_cons more, joinNames_cons more', same,
      ← String.toList_inj]
    simp
  | cons first common ih =>
    have filled (name : String) (rest : List String) : common ++ name :: rest ≠ [] := by simp
    rw [List.cons_append, List.cons_append, joinNames_cons (filled _ _),
      joinNames_cons (filled _ _), ih]

theorem moved_of_longer (single : ¬separator.toList <:+: name'.toList)
    (longer : name.toList <+: name'.toList) (apart : name ≠ name')
    (same : joinNames (name :: rest) = joinNames (name' :: rest')) :
    ColonMoved (name :: rest) (name' :: rest') := by
  obtain ⟨more, whole⟩ := longer
  have letters := congrArg String.toList same
  rw [toList_joinNames_cons, toList_joinNames_cons, ← whole, List.append_assoc,
    List.append_cancel_left_eq] at letters
  have filled : more ≠ [] := by
    rintro rfl
    exact apart (String.toList_inj.1 (by rw [← whole, List.append_nil]))
  have followed : rest ≠ [] := by
    rintro rfl
    simp [filled] at letters
  rw [if_neg followed] at letters
  have colon : more = [':'] := by
    rcases more with _ | ⟨c, _ | ⟨d, beyond⟩⟩
    · exact absurd rfl filled
    · simp only [List.cons_append, List.cons.injEq] at letters
      rw [← letters.1]
    · -- Two colons more would be a separator inside of the longer name.
      simp only [List.cons_append, List.cons.injEq] at letters
      rw [← letters.1, ← letters.2.1] at whole
      exact absurd ⟨name.toList, beyond, by rw [← whole]; simp [separator]⟩ single
  subst colon
  have followed' : rest' ≠ [] := by
    rintro rfl
    simp at letters
  rw [if_neg followed'] at letters
  have longer : name' = name ++ ":" := String.toList_inj.1 (by rw [← whole]; simp)
  refine ⟨[], name, rest, rest', followed, followed', rfl, by rw [longer]; rfl, ?_⟩
  rw [← String.toList_inj]
  simpa using letters

theorem joinNames_eq_iff (named : ∀ name ∈ names, IsName (.text name))
    (named' : ∀ name ∈ names', IsName (.text name)) :
    joinNames names = joinNames names' ↔
      names = names' ∨ ColonMoved names names' ∨ ColonMoved names' names := by
  constructor
  · intro same
    induction names generalizing names' with
    | nil =>
      by_cases written : names' = []
      · exact .inl written.symm
      · exact absurd same.symm (joinNames_ne_empty named' written)
    | cons name names ih =>
      cases names' with
      | nil => exact absurd same (joinNames_ne_empty named (List.cons_ne_nil _ _))
      | cons name' names' =>
        have others := (List.forall_mem_cons.1 named).2
        have others' := (List.forall_mem_cons.1 named').2
        by_cases heads : name = name'
        · subst heads
          rcases ih others others' (joinNames_of_cons same) with rfl | moved | moved
          · exact .inl rfl
          · exact .inr (.inl (moved.cons name))
          · exact .inr (.inr (moved.cons name))
        · -- Both names begin the text that is joined, so one of them begins the other.
          have front : name.toList <+: (joinNames (name :: names)).toList :=
            toList_joinNames_cons ▸ List.prefix_append _ _
          have front' : name'.toList <+: (joinNames (name :: names)).toList :=
            same ▸ toList_joinNames_cons ▸ List.prefix_append _ _
          rcases List.prefix_or_prefix_of_prefix front front' with longer | longer
          · have single := (isName_text.1 (named' name' List.mem_cons_self)).2
            exact .inr (.inl (moved_of_longer single longer heads same))
          · have single := (isName_text.1 (named name List.mem_cons_self)).2
            exact .inr (.inr (moved_of_longer single longer (Ne.symm heads) same.symm))
  · rintro (rfl | moved | moved)
    · rfl
    · exact joinNames_of_moved moved
    · exact (joinNames_of_moved moved).symm

theorem ColonMoved.exists_head (moved : ColonMoved names names')
    (named : ∀ name ∈ names, IsName (.text name)) :
    ∃ front name first rest, names = front ++ name :: first :: rest ∧ [':'] <+: first.toList := by
  obtain ⟨front, name, rest, rest', more, _, rfl, _, same⟩ := moved
  obtain ⟨first, others, rfl⟩ := List.exists_cons_of_ne_nil more
  have filled := (isName_text.1 (named first (by simp))).1
  refine ⟨front, name, first, others, rfl, ?_⟩
  have letters := congrArg String.toList same
  rw [toList_joinNames_cons] at letters
  cases written : first.toList with
  | nil => exact absurd (String.toList_inj.1 written) filled
  | cons c behind =>
    simp only [written, List.cons_append, String.toList_append] at letters
    rw [(List.cons.inj letters).1]
    exact List.prefix_append [':'] behind

end Joined

namespace ScopeTable

variable {τ π : Type} {t : ScopeTable τ π} {i j : Nat} {name : String}
variable {names names' front back : List String}

theorem exists_scope_of_path (path : t.path i = front ++ name :: back) :
    ∃ k s, k ∈ t.chain i ∧ t.scope? k = some s ∧ s.name.name = name ∧ t.path s.parent = front ∧
      (back ≠ [] → k ≠ i) := by
  induction i using chain_induction t generalizing back with
  | bare i absent => simp [path_of_none absent] at path
  | nested i a there ih =>
    rw [path_of_some there] at path
    rcases List.eq_nil_or_concat' back with rfl | ⟨before, own, rfl⟩
    · obtain ⟨outer, same⟩ := List.append_inj' path rfl
      have named := List.singleton_inj.1 same
      exact ⟨i, a, self_mem_chain, there, named, outer, fun more => absurd rfl more⟩
    · rw [← List.cons_append, ← List.append_assoc] at path
      obtain ⟨k, s, around, found, named, outer, _⟩ := ih (List.append_inj' path rfl).1
      refine ⟨k, s, (mem_chain_of_some there).2 (.inr around), found, named, outer, ?_⟩
      exact fun _ => Nat.ne_of_lt (Nat.lt_of_le_of_lt (le_of_mem_chain around) (parent_lt there))

-- A colon can be moved only from a name that stands in another scope than the root.
theorem exists_scope_of_moved (moved : ColonMoved (t.path i) names') :
    ∃ k s, t.scope? k = some s ∧ s.parent ≠ root ∧ [':'] <+: s.name.name.toList := by
  obtain ⟨front, name, first, rest, path, leading⟩ :=
    moved.exists_head fun name member => isName_of_mem_path member
  rw [← List.singleton_append, ← List.append_assoc] at path
  obtain ⟨k, s, _, there, rfl, outer, _⟩ := exists_scope_of_path path
  refine ⟨k, s, there, ?_, leading⟩
  intro outermost
  rw [outermost, path_of_none (i := root) rfl] at outer
  simp at outer

-- A colon can be moved only to a name of a scope that has members.
theorem exists_parent_of_moved (moved : ColonMoved names (t.path i)) :
    ∃ k s, t.scope? k = some s ∧ t.children k ≠ [] ∧ [':'] <:+ s.name.name.toList := by
  obtain ⟨front, name, _, rest, _, more, _, path, _⟩ := moved
  obtain ⟨k, s, around, there, named, _, inner⟩ := exists_scope_of_path path
  obtain ⟨j, member, _⟩ := exists_child_of_mem_chain around (inner more)
  refine ⟨k, s, there, List.ne_nil_of_mem member, ?_⟩
  rw [named, String.toList_append]
  exact List.suffix_append _ _

theorem UniqueNames.qualifiedName_eq_iff (unique : t.UniqueNames) (inside : i < t.size)
    (inside' : j < t.size) :
    t.qualifiedName i = t.qualifiedName j ↔
      i = j ∨ ColonMoved (t.path i) (t.path j) ∨ ColonMoved (t.path j) (t.path i) := by
  rw [qualifiedName, qualifiedName, String.append_right_inj,
    joinNames_eq_iff (fun _ => isName_of_mem_path) fun _ => isName_of_mem_path]
  exact or_congr_left ⟨unique.path_injective inside inside', fun same => same ▸ rfl⟩

end ScopeTable

/--
Scopes share a qualified name exactly if a colon stands at the end of a name in one path and at
the beginning of the next name in the other. So a name identifies its scope wherever no name of a
scope that has members ends in a colon, and wherever no name below another one begins with one.
-/
theorem ScopeTree.qualified_names_characterized {τ π : Type} {t : ScopeTree τ π} {number : Nat}
    (grown : t.Grown number) :
    (∀ i < t.size, ∀ j < t.size, t.qualifiedName i = t.qualifiedName j ↔
      i = j ∨ ColonMoved (t.path i) (t.path j) ∨ ColonMoved (t.path j) (t.path i)) ∧
    ((∀ k s, t.scope? k = some s → t.children k ≠ [] → ¬[':'] <:+ s.name.name.toList) ∨
      (∀ k s, t.scope? k = some s → s.parent ≠ root → ¬[':'] <+: s.name.name.toList) →
      ∀ i < t.size, ∀ j < t.size, t.qualifiedName i = t.qualifiedName j → i = j) := by
  have shared : ∀ i < t.size, ∀ j < t.size, t.qualifiedName i = t.qualifiedName j ↔
      i = j ∨ ColonMoved (t.path i) (t.path j) ∨ ColonMoved (t.path j) (t.path i) :=
    fun i inside j inside' => grown.uniqueNames.qualifiedName_eq_iff inside inside'
  refine ⟨shared, ?_⟩
  intro apart i inside j inside' same
  -- A moved colon ends the name of a scope with members, and begins a name below another one.
  have unmoved (i j : Nat) : ¬ColonMoved (t.path i) (t.path j) := by
    intro moved
    rcases apart with ending | leading
    · obtain ⟨k, s, there, members, last⟩ := ScopeTable.exists_parent_of_moved moved
      exact ending k s there members last
    · obtain ⟨k, s, there, inner, first⟩ := ScopeTable.exists_scope_of_moved moved
      exact leading k s there inner first
  rcases (shared i inside j inside').1 same with same | moved | moved
  · exact same
  · exact absurd moved (unmoved i j)
  · exact absurd moved (unmoved j i)

-- The member `:B` of `A` and the member `B` of `A:` are both called `::A:::B`.
theorem ScopeTree.qualified_names_characterized_of_colon :
    ∃ t : ScopeTree Nat Int, t.Grown 0 ∧ t.size = 5 ∧ t.path 2 = ["A", ":B"] ∧
      t.path 4 = ["A:", "B"] ∧ t.qualifiedName 2 = "::A:::B" ∧
      t.qualifiedName 2 = t.qualifiedName 4 := by
  let within (parent : Nat) (name : Segment) : Scope Nat Int :=
    ⟨parent, name, none, some 1, false, none⟩
  let a := within 0 ⟨"A", by decide, by decide⟩
  let colonB := within 1 ⟨":B", by decide, by decide⟩
  let aColon := within 0 ⟨"A:", by decide, by decide⟩
  let b := within 3 ⟨"B", by decide, by decide⟩
  let t : ScopeTree Nat Int := ⟨⟨#[a, colonB, aColon, b], by decide⟩, 0, []⟩
  have first : (⟨⟨#[a], by decide⟩, 0, []⟩ : ScopeTree Nat Int).Grown 0 :=
    Grown.new.add (s := a) (by decide) (by cbv)
  have second : (⟨⟨#[a, colonB], by decide⟩, 0, []⟩ : ScopeTree Nat Int).Grown 0 :=
    first.add (s := colonB) (by decide) (by cbv)
  have third : (⟨⟨#[a, colonB, aColon], by decide⟩, 0, []⟩ : ScopeTree Nat Int).Grown 0 :=
    second.add (s := aColon) (by decide) (by cbv)
  have grown : t.Grown 0 := third.add (s := b) (by decide) (by cbv)
  have size : t.size = 5 := by cbv
  have path : t.path 2 = ["A", ":B"] := by cbv
  have path' : t.path 4 = ["A:", "B"] := by cbv
  clear_value t
  have moved : ColonMoved (t.path 2) (t.path 4) := by
    rw [path, path']
    exact ⟨[], "A", [":B"], ["B"], by simp, by simp, rfl, rfl, by decide⟩
  have called : t.qualifiedName 2 = "::A:::B" := by
    rw [ScopeTable.qualifiedName, path]
    decide
  have shared := (qualified_names_characterized grown).1 2 (by omega) 4 (by omega)
  exact ⟨t, grown, size, path, path', called, shared.2 (.inr (.inl moved))⟩

end ScopedNames

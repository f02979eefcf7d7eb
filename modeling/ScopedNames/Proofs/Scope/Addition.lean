import ScopedNames.Proofs.Scope.Growth

set_option autoImplicit false

namespace ScopedNames.ScopeTable

variable {τ π : Type} {t : ScopeTable τ π} {visible : Nat → Bool} {i : Nat} {name : String}
variable {names : List String} {s : Scope τ π}

theorem inlineChildren_empty : (empty : ScopeTable τ π).inlineChildren i = [] := by
  rw [List.eq_nil_iff_forall_not_mem]
  intro j member
  obtain ⟨s, there, _⟩ := mem_children_iff.1 (mem_children_of_mem_inlineChildren member)
  cases j <;> cases there

theorem inlineChildren_of_size_le (outside : t.size ≤ i) : t.inlineChildren i = [] := by
  rw [List.eq_nil_iff_forall_not_mem]
  intro j member
  have order := lt_of_mem_inlineChildren member
  omega

variable (bound : s.parent < t.size)

theorem children_add :
    (t.add s bound).children i = t.children i ++ if s.parent = i then [t.size] else [] := by
  have old : ∀ j ∈ List.range t.size,
      ((t.add s bound).parent? j == some i) = (t.parent? j == some i) := by
    intro j member
    rw [parent?, parent?, (extends_add bound).kept j (List.mem_range.1 member)]
  have new : (t.add s bound).parent? t.size = some s.parent := by
    rw [parent?, scope?_add, if_pos rfl, Option.map_some]
  rw [children, children, add_size, List.range_succ, List.filter_append, List.filter_congr old]
  by_cases under : s.parent = i
  · simp [new, under]
  · simp [new, under]

theorem isInline_add_size : (t.add s bound).isInline t.size = s.isInline := by
  simp [isInline, scope?_add]

theorem inlineChildren_add :
    (t.add s bound).inlineChildren i =
      t.inlineChildren i ++ if s.parent = i ∧ s.isInline = true then [t.size] else [] := by
  have old : ∀ j ∈ t.children i, (t.add s bound).isInline j = t.isInline j := by
    intro j member
    rw [isInline, isInline, (extends_add bound).kept j (lt_of_mem_children member).2]
  rw [inlineChildren, inlineChildren, children_add, List.filter_append, List.filter_congr old]
  by_cases under : s.parent = i
  · simp [under, List.filter_cons, isInline_add_size]
  · simp [under]

theorem child?_add :
    (t.add s bound).child? i name =
      (t.child? i name).or (if s.parent = i ∧ s.name.name = name then some t.size else none) := by
  have old : ∀ j ∈ t.children i,
      ((t.add s bound).name? j == some name) = (t.name? j == some name) := by
    intro j member
    rw [name?, name?, (extends_add bound).kept j (lt_of_mem_children member).2]
  have new : (t.add s bound).name? t.size = some s.name.name := by
    rw [name?, scope?_add, if_pos rfl, Option.map_some]
  rw [child?, child?, children_add, ← List.head?_filter, List.filter_append,
    List.filter_congr old, List.head?_append, List.head?_filter]
  congr 1
  by_cases under : s.parent = i
  · by_cases named : s.name.name = name
    · simp [new, under, named]
    · simp [new, under, named]
  · simp [under]

theorem chain_add :
    (t.add s bound).chain i = if i = t.size then i :: t.chain s.parent else t.chain i := by
  by_cases new : i = t.size
  · have record : (t.add s bound).scope? i = some s := by rw [scope?_add, if_pos new]
    rw [if_pos new, chain_of_some record, (extends_add bound).chain_eq bound]
  · rw [if_neg new]
    by_cases old : i < t.size
    · exact (extends_add bound).chain_eq old
    · have absent : t.scope? i = none := by
        rw [Option.eq_none_iff_forall_ne_some]
        intro a there
        exact old (lt_size_of_scope? there)
      rw [chain_of_none absent, chain_of_none]
      rw [scope?_add, if_neg new, absent]

-- A new scope is empty: but for its own name, a look-up finds what it found.
theorem member?_add_apart (apart : s.name.name ≠ name) :
    (t.add s bound).member? visible i name = t.member? visible i name := by
  induction i using inline_induction (t.add s bound) with
  | step i ih =>
    rw [inlineChildren_add] at ih
    have old : ∀ j ∈ t.inlineChildren i,
        (if visible j then (t.add s bound).member? visible j name else none) =
          if visible j then t.member? visible j name else none := by
      intro j member
      rw [ih j (List.mem_append_left _ member)]
    have new : (if s.parent = i ∧ s.isInline = true then [t.size] else []).findSome?
        (fun j => if visible j then (t.add s bound).member? visible j name else none) = none := by
      rw [List.findSome?_eq_none_iff]
      intro j member
      have same := ih j (List.mem_append_right _ member)
      split at member
      · rw [List.mem_singleton.1 member] at same ⊢
        rw [same, member?_of_size_le (Nat.le_refl _), ite_self]
      · cases member
    rw [member?_eq, member?_eq, child?_add, if_neg fun named => apart named.2, Option.or_none,
      inlineChildren_add, List.findSome?_append, new, Option.or_none, findSome?_congr old]

theorem follow_add_apart (apart : s.name.name ∉ names) :
    (t.add s bound).follow visible i names = t.follow visible i names := by
  induction names generalizing i with
  | nil => rfl
  | cons name names ih =>
    rw [List.mem_cons, not_or] at apart
    rw [follow, follow, member?_add_apart bound apart.1]
    congr 1
    funext j
    exact ih apart.2

end ScopedNames.ScopeTable

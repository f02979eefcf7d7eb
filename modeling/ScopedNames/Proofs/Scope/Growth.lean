import ScopedNames.Proofs.Scope.Closure

set_option autoImplicit false

namespace ScopedNames.ScopeTable

variable {τ π : Type} {t t' t'' : ScopeTable τ π} {visible : Nat → Bool} {i : Nat}
variable {name : String} {names : List String} {s : Scope τ π}

structure Extends (t t' : ScopeTable τ π) : Prop where
  size_le : t.size ≤ t'.size
  kept : ∀ i < t.size, t'.scope? i = t.scope? i

theorem Extends.refl (t : ScopeTable τ π) : t.Extends t := ⟨Nat.le_refl _, fun _ _ => rfl⟩

theorem Extends.trans (first : t.Extends t') (second : t'.Extends t'') : t.Extends t'' where
  size_le := Nat.le_trans first.size_le second.size_le
  kept i bound := (second.kept i (Nat.lt_of_lt_of_le bound first.size_le)).trans (first.kept i bound)

theorem extends_add (bound : s.parent < t.size) : t.Extends (t.add s bound) where
  size_le := by rw [add_size]; exact Nat.le_succ _
  kept i inside := by rw [scope?_add, if_neg (Nat.ne_of_lt inside)]

theorem Extends.scope?_eq_some (grown : t.Extends t') (found : t.scope? i = some s) :
    t'.scope? i = some s :=
  (grown.kept i (lt_size_of_scope? found)).trans found

theorem Extends.chain_eq (grown : t.Extends t') (bound : i < t.size) : t'.chain i = t.chain i := by
  induction i using chain_induction t with
  | bare i absent => rw [chain_of_none absent, chain_of_none ((grown.kept i bound).trans absent)]
  | nested i s found ih =>
    rw [chain_of_some found, chain_of_some (grown.scope?_eq_some found),
      ih (Nat.lt_trans (parent_lt found) bound)]

theorem Extends.chain_split (grown : t.Extends t') (bound : i < t'.size) :
    ∃ later q, t'.chain i = later ++ t.chain q ∧ (∀ j ∈ later, t.size ≤ j) ∧ q < t.size := by
  -- Outwards the indices go down, so past the first earlier scope all of them are earlier.
  induction i using chain_induction t' with
  | bare i absent =>
    have outermost : i < t.size := eq_root_of_none absent bound ▸ root_lt_size
    exact ⟨[], i, grown.chain_eq outermost, by simp, outermost⟩
  | nested i s found ih =>
    by_cases earlier : i < t.size
    · exact ⟨[], i, grown.chain_eq earlier, by simp, earlier⟩
    · obtain ⟨later, q, above, late, inside⟩ := ih (Nat.lt_trans (parent_lt found) bound)
      refine ⟨i :: later, q, ?_, ?_, inside⟩
      · rw [chain_of_some found, above, List.cons_append]
      · intro j member
        rcases List.mem_cons.1 member with rfl | member
        · exact Nat.le_of_not_lt earlier
        · exact late j member

theorem find?_chain {later : List Nat} {q : Nat} (around : t'.chain i = later ++ t.chain q)
    (late : ∀ j ∈ later, t.size ≤ j) (inside : q < t.size) :
    ((t'.chain i).find? fun j => decide (j < t.size)) = some q := by
  have skipped : later.find? (fun j => decide (j < t.size)) = none := by
    rw [List.find?_eq_none]
    intro j member
    simpa using late j member
  obtain ⟨outer, innermost⟩ := t.exists_chain_eq_cons q
  rw [around, List.find?_append, skipped, Option.none_or, innermost]
  exact List.find?_cons_of_pos (decide_eq_true inside)

theorem Extends.children_split (grown : t.Extends t') (i : Nat) :
    ∃ later, t'.children i = t.children i ++ later ∧ ∀ j ∈ later, t.size ≤ j := by
  -- Members stand in the order of their indices: those from the size of `t` on come last.
  obtain ⟨more, size⟩ := Nat.exists_eq_add_of_le grown.size_le
  have same : ∀ j ∈ List.range t.size, (t'.parent? j == some i) = (t.parent? j == some i) := by
    intro j member
    rw [parent?, parent?, grown.kept j (List.mem_range.1 member)]
  refine ⟨((List.range more).map (t.size + ·)).filter fun j => t'.parent? j == some i, ?_, ?_⟩
  · rw [children, children, size, List.range_add, List.filter_append, List.filter_congr same]
  · intro j member
    obtain ⟨k, _, rfl⟩ := List.mem_map.1 (List.mem_filter.1 member).1
    exact Nat.le_add_right _ _

section Hidden

variable (grown : t.Extends t') (hidden : ∀ j, t.size ≤ j → visible j = false)

include grown hidden

theorem Extends.visible_child?_eq :
    (t'.child? i name).filter visible = (t.child? i name).filter visible := by
  obtain ⟨later, split, late⟩ := grown.children_split i
  have named : ∀ j ∈ t.children i, (t'.name? j == some name) = (t.name? j == some name) := by
    intro j member
    rw [name?, name?, grown.kept j (lt_of_mem_children member).2]
  rw [child?, child?, split, ← List.head?_filter, List.filter_append, List.filter_congr named,
    List.head?_append, List.head?_filter, List.head?_filter]
  cases (t.children i).find? fun j => t.name? j == some name with
  | some j => rfl
  | none =>
    rw [Option.none_or]
    cases found : later.find? fun j => t'.name? j == some name with
    | none => rfl
    | some j =>
      -- A later member of the name is found, but it is not visible.
      simp [Option.filter_some, hidden j (late j (List.mem_of_find?_eq_some found))]

theorem Extends.member?_eq : t'.member? visible i name = t.member? visible i name := by
  -- The induction is over the larger table, which has all inline members of the smaller one.
  induction i using inline_induction t' with
  | step i ih =>
    obtain ⟨later, split, late⟩ := grown.children_split i
    have flagged : ∀ j ∈ t.children i, t'.isInline j = t.isInline j := by
      intro j member
      rw [isInline, isInline, grown.kept j (lt_of_mem_children member).2]
    have inner : t'.inlineChildren i = t.inlineChildren i ++ later.filter t'.isInline := by
      rw [inlineChildren, inlineChildren, split, List.filter_append, List.filter_congr flagged]
    have before : ∀ j ∈ t.inlineChildren i,
        (if visible j then t'.member? visible j name else none) =
          if visible j then t.member? visible j name else none := by
      intro j member
      rw [ih j (inner ▸ List.mem_append_left _ member)]
    have afterwards : (later.filter t'.isInline).findSome?
        (fun j => if visible j then t'.member? visible j name else none) = none := by
      rw [List.findSome?_eq_none_iff]
      intro j member
      rw [hidden j (late j (List.mem_filter.1 member).1)]
      rfl
    rw [ScopeTable.member?_eq, ScopeTable.member?_eq, grown.visible_child?_eq hidden, inner,
      List.findSome?_append, afterwards, Option.or_none, findSome?_congr before]

theorem Extends.follow_eq : t'.follow visible i names = t.follow visible i names := by
  induction names generalizing i with
  | nil => rfl
  | cons name names ih =>
    rw [follow, follow, grown.member?_eq hidden]
    congr 1
    funext j
    exact ih

end Hidden

theorem member?_of_size_le (absent : t.size ≤ i) : t.member? visible i name = none := by
  cases found : t.member? visible i name with
  | none => rfl
  | some j =>
    obtain ⟨_, s, record, _, enclosed⟩ := member?_eq_some found
    have range := le_of_mem_chain enclosed
    have order := parent_lt record
    have bound := lt_size_of_scope? record
    omega

theorem follow_of_size_le (absent : t.size ≤ i) (written : names ≠ []) :
    t.follow visible i names = none := by
  cases names with
  | nil => exact absurd rfl written
  | cons name names => rw [follow, member?_of_size_le absent, Option.bind_none]

end ScopedNames.ScopeTable

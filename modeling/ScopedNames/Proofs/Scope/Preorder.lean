import Mathlib.Data.List.Nodup
import ScopedNames.Proofs.Scope.Inside

set_option autoImplicit false

namespace ScopedNames.ScopeTable

variable {τ π : Type} {t : ScopeTable τ π} {i j : Nat} {stack out : List Nat}

/--
The loop of a walk, for as long as it takes: a scope is taken from the stack and given out, its
members are put there in its place, and nothing is left in the end.
-/
inductive Empties (t : ScopeTable τ π) : List Nat → List Nat → Prop where
  | done : Empties t [] []
  | next {i : Nat} {waiting out : List Nat} (rest : Empties t (t.children i ++ waiting) out) :
      Empties t (i :: waiting) (i :: out)

def subtree (t : ScopeTable τ π) (i : Nat) : List Nat :=
  i :: (t.children i).attach.flatMap fun ⟨j, hj⟩ =>
    have := lt_of_mem_children hj
    t.subtree j
termination_by t.size - i

theorem subtree_eq : t.subtree i = i :: (t.children i).flatMap t.subtree := by
  rw [subtree]
  simp only [List.flatMap_subtype, List.unattach_attach]

theorem flatMap_subtree_cons : (i :: stack).flatMap t.subtree =
    i :: (t.children i ++ stack).flatMap t.subtree := by
  rw [List.flatMap_cons, subtree_eq, List.cons_append, List.flatMap_append]

-- A stack is a forest: what the loop gives out are the subtrees of the scopes that wait there.
theorem empties_iff : t.Empties stack out ↔ out = stack.flatMap t.subtree := by
  constructor
  · intro empties
    induction empties with
    | done => rfl
    | next _ ih => rw [ih, flatMap_subtree_cons]
  · rintro rfl
    -- Each turn of the loop leaves one scope less to be given out.
    induction left : (stack.flatMap t.subtree).length using Nat.strongRecOn generalizing stack with
    | ind n fewer =>
      cases stack with
      | nil => exact .done
      | cons i waiting =>
        rw [flatMap_subtree_cons] at left ⊢
        rw [List.length_cons] at left
        exact .next (fewer _ (by omega) rfl)

theorem visit_eq_take (steps : Nat) (stack : List Nat) :
    t.visit steps stack = (stack.flatMap t.subtree).take steps := by
  induction steps generalizing stack with
  | zero => simp [visit]
  | succ steps ih =>
    cases stack with
    | nil => simp [visit]
    | cons i waiting => rw [visit, ih, flatMap_subtree_cons, List.take_succ_cons]

theorem mem_subtree_iff : j ∈ t.subtree i ↔ i ∈ t.chain j := by
  induction i using member_induction t with
  | step i ih =>
    rw [subtree_eq, List.mem_cons, List.mem_flatMap]
    constructor
    · rintro (rfl | ⟨k, member, inside⟩)
      · exact self_mem_chain
      · have above : i ∈ t.chain k :=
          chain_of_mem_children member ▸ List.mem_cons_of_mem k self_mem_chain
        exact mem_chain_trans above ((ih k member).1 inside)
    · intro around
      by_cases same : i = j
      · exact .inl same.symm
      · obtain ⟨k, member, inner⟩ := exists_child_of_mem_chain around same
        exact .inr ⟨k, member, (ih k member).2 inner⟩

theorem nodup_subtree : (t.subtree i).Nodup := by
  induction i using member_induction t with
  | step i ih =>
    rw [subtree_eq, List.nodup_cons, List.mem_flatMap, List.nodup_flatMap]
    refine ⟨?_, ih, ?_⟩
    · rintro ⟨j, member, inside⟩
      have order := le_of_mem_chain (mem_subtree_iff.1 inside)
      have range := lt_of_mem_children member
      omega
    · -- Siblings have nothing in common, for a scope has one chain.
      refine (t.children_pairwise i).imp_of_mem ?_
      intro j k here there order m inside inside'
      have same := eq_of_mem_children here there (mem_subtree_iff.1 inside)
        (mem_subtree_iff.1 inside')
      omega

theorem subtree_infix (inside : j ∈ t.subtree i) : t.subtree j <:+: t.subtree i := by
  induction i using member_induction t with
  | step i ih =>
    rw [subtree_eq, List.mem_cons, List.mem_flatMap] at inside
    rcases inside with rfl | ⟨k, member, below⟩
    · exact List.infix_rfl
    · have part := List.infix_flatMap_of_mem member t.subtree
      rw [subtree_eq (i := i)]
      exact (ih k member below).trans (List.infix_cons part)

theorem children_sublist_subtree : (i :: t.children i).Sublist (t.subtree i) := by
  have heads (members : List Nat) : members.Sublist (members.flatMap t.subtree) := by
    induction members with
    | nil => exact List.Sublist.refl []
    | cons j members ih =>
      rw [flatMap_subtree_cons, List.flatMap_append]
      exact (ih.trans (List.sublist_append_right _ _)).cons_cons j
  rw [subtree_eq]
  exact (heads _).cons_cons i

theorem root_mem_chain_iff : root ∈ t.chain i ↔ i < t.size := by
  constructor
  · intro outermost
    cases there : t.scope? i with
    | none =>
      rw [chain_of_none there, List.mem_singleton] at outermost
      exact outermost ▸ root_lt_size
    | some s => exact lt_size_of_scope? there
  · exact fun inside => List.mem_of_getLast? (getLast?_chain inside)

theorem subtree_root_perm : (t.subtree root).Perm (List.range t.size) := by
  rw [List.perm_ext_iff_of_nodup nodup_subtree List.nodup_range]
  intro i
  rw [mem_subtree_iff, root_mem_chain_iff, List.mem_range]

-- As many steps as there are scopes are just enough.
theorem walk_eq_subtree : t.walk = t.subtree root := by
  have size := t.subtree_root_perm.length_eq
  rw [List.length_range] at size
  rw [walk, visit_eq_take, List.flatMap_singleton, List.take_of_length_le (Nat.le_of_eq size)]

end ScopedNames.ScopeTable

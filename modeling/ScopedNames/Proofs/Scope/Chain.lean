import ScopedNames.Scope.Table

set_option autoImplicit false

namespace ScopedNames.ScopeTable

variable {τ π : Type} {t : ScopeTable τ π} {i j k : Nat} {s : Scope τ π}

theorem root_lt_size : root < t.size := Nat.succ_pos _

theorem exists_scope (positive : i ≠ root) (bound : i < t.size) : ∃ s, t.scope? i = some s := by
  cases i with
  | zero => exact absurd rfl positive
  | succ k =>
    have inside : k < t.records.size := Nat.lt_of_succ_lt_succ bound
    exact ⟨t.records[k], Array.getElem?_eq_getElem inside⟩

theorem eq_root_of_none (absent : t.scope? i = none) (bound : i < t.size) : i = root := by
  by_cases outermost : i = root
  · exact outermost
  · obtain ⟨s, found⟩ := exists_scope outermost bound
    cases absent.symm.trans found

theorem chain_of_none (absent : t.scope? i = none) : t.chain i = [i] := by
  rw [chain]
  split
  · rfl
  · next found => rw [absent] at found; cases found

theorem chain_of_some (found : t.scope? i = some s) : t.chain i = i :: t.chain s.parent := by
  rw [chain]
  split
  · next absent => rw [found] at absent; cases absent
  · next same => rw [found] at same; cases same; rfl

theorem path_of_none (absent : t.scope? i = none) : t.path i = [] := by
  rw [path]
  split
  · rfl
  · next found => rw [absent] at found; cases found

theorem path_of_some (found : t.scope? i = some s) :
    t.path i = t.path s.parent ++ [s.name.name] := by
  rw [path]
  split
  · next absent => rw [found] at absent; cases absent
  · next same => rw [found] at same; cases same; rfl

theorem exists_chain_eq_cons (t : ScopeTable τ π) (i : Nat) : ∃ outer, t.chain i = i :: outer := by
  cases found : t.scope? i with
  | none => exact ⟨[], chain_of_none found⟩
  | some s => exact ⟨t.chain s.parent, chain_of_some found⟩

theorem self_mem_chain : i ∈ t.chain i := by
  obtain ⟨outer, same⟩ := t.exists_chain_eq_cons i
  rw [same]
  exact List.mem_cons_self

theorem mem_chain_of_some (found : t.scope? i = some s) :
    j ∈ t.chain i ↔ j = i ∨ j ∈ t.chain s.parent := by
  rw [chain_of_some found, List.mem_cons]

theorem chain_induction (t : ScopeTable τ π) {motive : Nat → Prop}
    (bare : ∀ i, t.scope? i = none → motive i)
    (nested : ∀ i s, t.scope? i = some s → motive s.parent → motive i) (i : Nat) : motive i := by
  induction i using Nat.strongRecOn with
  | ind i earlier =>
    cases found : t.scope? i with
    | none => exact bare i found
    | some s => exact nested i s found (earlier s.parent (parent_lt found))

theorem le_of_mem_chain (member : j ∈ t.chain i) : j ≤ i := by
  induction i using chain_induction t with
  | bare i absent =>
    rw [chain_of_none absent, List.mem_singleton] at member
    exact Nat.le_of_eq member
  | nested i s found ih =>
    rcases (mem_chain_of_some found).1 member with rfl | above
    · exact Nat.le_refl _
    · exact Nat.le_trans (ih above) (Nat.le_of_lt (parent_lt found))

theorem chain_pairwise (t : ScopeTable τ π) (i : Nat) : (t.chain i).Pairwise (· > ·) := by
  induction i using chain_induction t with
  | bare i absent => simp [chain_of_none absent]
  | nested i s found ih =>
    rw [chain_of_some found, List.pairwise_cons]
    refine ⟨?_, ih⟩
    intro j above
    exact Nat.lt_of_le_of_lt (le_of_mem_chain above) (parent_lt found)

theorem chain_nodup (t : ScopeTable τ π) (i : Nat) : (t.chain i).Nodup :=
  (t.chain_pairwise i).imp Nat.ne_of_gt

theorem getLast?_chain (bound : i < t.size) : (t.chain i).getLast? = some root := by
  induction i using chain_induction t with
  | bare i absent =>
    rw [chain_of_none absent, eq_root_of_none absent bound]
    rfl
  | nested i s found ih =>
    have parent_bound : s.parent < t.size := Nat.lt_trans (parent_lt found) bound
    rw [chain_of_some found, List.getLast?_cons, ih parent_bound, Option.getD_some]

theorem mem_chain_trans (outer : i ∈ t.chain j) (inner : j ∈ t.chain k) : i ∈ t.chain k := by
  induction k using chain_induction t with
  | bare k absent =>
    rw [chain_of_none absent, List.mem_singleton] at inner
    exact inner ▸ outer
  | nested k s found ih =>
    rcases (mem_chain_of_some found).1 inner with rfl | above
    · exact outer
    · exact (mem_chain_of_some found).2 (.inr (ih above))

theorem encloses_iff : t.encloses i j = true ↔ i ∈ t.chain j := by
  simp [encloses]

end ScopedNames.ScopeTable

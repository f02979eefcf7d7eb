import ScopedNames.Proofs.Scope.Chain

set_option autoImplicit false

namespace ScopedNames.ScopeTable

variable {τ π : Type} {t : ScopeTable τ π} {i j k : Nat} {name : String} {s : Scope τ π}

theorem parent?_eq_some : t.parent? j = some i ↔ ∃ s, t.scope? j = some s ∧ s.parent = i := by
  simp [parent?]

theorem mem_children_iff : j ∈ t.children i ↔ ∃ s, t.scope? j = some s ∧ s.parent = i :=
  mem_children.trans parent?_eq_some

theorem children_pairwise (t : ScopeTable τ π) (i : Nat) : (t.children i).Pairwise (· < ·) :=
  List.pairwise_lt_range.filter _

theorem chain_of_mem_children (member : j ∈ t.children i) : t.chain j = j :: t.chain i := by
  obtain ⟨s, found, rfl⟩ := mem_children_iff.1 member
  exact chain_of_some found

theorem exists_child_of_mem_chain (around : i ∈ t.chain j) (apart : i ≠ j) :
    ∃ k ∈ t.children i, k ∈ t.chain j := by
  induction j using chain_induction t with
  | bare j absent =>
    rw [chain_of_none absent, List.mem_singleton] at around
    exact absurd around apart
  | nested j s found ih =>
    by_cases direct : i = s.parent
    · exact ⟨j, mem_children_iff.2 ⟨s, found, direct.symm⟩, self_mem_chain⟩
    · have above := (mem_chain_of_some found).1 around |>.resolve_left apart
      obtain ⟨k, child, member⟩ := ih above direct
      exact ⟨k, child, (mem_chain_of_some found).2 (.inr member)⟩

theorem member_induction (t : ScopeTable τ π) {motive : Nat → Prop}
    (step : ∀ i, (∀ j ∈ t.children i, motive j) → motive i) (i : Nat) : motive i := by
  -- Members have larger indices, so the distance to the size of the table goes down.
  induction distance : t.size - i using Nat.strongRecOn generalizing i with
  | ind n closer =>
    apply step
    intro j member
    have range := lt_of_mem_children member
    exact closer (t.size - j) (by omega) j rfl

theorem mem_children_of_mem_inlineChildren (member : j ∈ t.inlineChildren i) :
    j ∈ t.children i :=
  (List.mem_filter.1 member).1

theorem exists_of_child? (found : t.child? i name = some j) :
    ∃ s, t.scope? j = some s ∧ s.parent = i ∧ s.name.name = name := by
  obtain ⟨s, there, parent⟩ := mem_children_iff.1 (List.mem_of_find?_eq_some found)
  have named := List.find?_some found
  simp only [name?, there, Option.map_some, beq_iff_eq, Option.some.injEq] at named
  exact ⟨s, there, parent, named⟩

theorem child?_eq_none :
    t.child? i name = none ↔ ∀ j s, t.scope? j = some s → s.parent = i → s.name.name ≠ name := by
  simp only [child?, List.find?_eq_none, mem_children_iff]
  constructor
  · intro absent j s there parent named
    exact absent j ⟨s, there, parent⟩ (by simp [name?, there, named])
  · rintro absent j ⟨s, there, parent⟩
    simpa [name?, there] using absent j s there parent

def UniqueNames (t : ScopeTable τ π) : Prop :=
  ∀ i j a b, t.scope? i = some a → t.scope? j = some b → a.parent = b.parent → a.name = b.name →
    i = j

theorem UniqueNames.child?_eq_some (unique : t.UniqueNames) :
    t.child? i name = some j ↔
      ∃ s, t.scope? j = some s ∧ s.parent = i ∧ s.name.name = name := by
  constructor
  · exact exists_of_child?
  · rintro ⟨s, there, rfl, rfl⟩
    cases found : t.child? s.parent s.name.name with
    | none => exact absurd rfl (child?_eq_none.1 found j s there rfl)
    | some k =>
      obtain ⟨r, other, parent, named⟩ := exists_of_child? found
      rw [unique k j r s other there parent (Segment.ext_name named)]

theorem add_size (bound : s.parent < t.size) : (t.add s bound).size = t.size + 1 := by
  simp [add, size]

theorem scope?_add (bound : s.parent < t.size) (i : Nat) :
    (t.add s bound).scope? i = if i = t.size then some s else t.scope? i := by
  cases i with
  | zero => simp [scope?, size]
  | succ k => simp [scope?, add, size, Array.getElem?_push]

theorem UniqueNames.add (unique : t.UniqueNames) (bound : s.parent < t.size)
    (fresh : t.child? s.parent s.name.name = none) : (t.add s bound).UniqueNames := by
  have apart := child?_eq_none.1 fresh
  intro i j a b first second parents names
  rw [scope?_add] at first second
  split at first <;> split at second
  · next latest last => rw [latest, last]
  · cases first
    exact absurd (congrArg Segment.name names.symm) (apart j b second parents.symm)
  · cases second
    exact absurd (congrArg Segment.name names) (apart i a first parents)
  · exact unique i j a b first second parents names

end ScopedNames.ScopeTable

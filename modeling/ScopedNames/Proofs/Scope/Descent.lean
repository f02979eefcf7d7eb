import ScopedNames.Proofs.Scope.Closure
import ScopedNames.Proofs.Segment

set_option autoImplicit false

namespace ScopedNames.ScopeTable

variable {τ π : Type} {t : ScopeTable τ π} {visible : Nat → Bool} {i j : Nat} {name : String}
variable {names names' : List String}

theorem isName_of_mem_path (member : name ∈ t.path i) : IsName (.text name) := by
  induction i using chain_induction t with
  | bare i absent => simp [path_of_none absent] at member
  | nested i s there ih =>
    rw [path_of_some there, List.mem_append, List.mem_singleton] at member
    rcases member with outer | rfl
    · exact ih outer
    · exact isName_of_segment s.name

-- A direct member is found before anything in an inline one.
theorem member?_of_child? (child : t.child? i name = some j) (shown : visible j = true) :
    t.member? visible i name = some j := by
  rw [member?_eq, child]
  simp [shown]

theorem follow_append :
    t.follow visible i (names ++ names') =
      (t.follow visible i names).bind fun j => t.follow visible j names' := by
  induction names generalizing i with
  | nil => rfl
  | cons name names ih => simp [follow, ih, Option.bind_assoc]

theorem UniqueNames.exists_follow_below (unique : t.UniqueNames) (around : i ∈ t.chain j)
    (shown : ∀ k ∈ t.chain j, visible k = true) :
    ∃ below, t.path j = t.path i ++ below ∧ t.follow visible i below = some j := by
  induction j using chain_induction t with
  | bare j absent =>
    rw [chain_of_none absent, List.mem_singleton] at around
    exact ⟨[], by simp [around], by rw [around]; rfl⟩
  | nested j s there ih =>
    rcases (mem_chain_of_some there).1 around with rfl | above
    · exact ⟨[], (List.append_nil _).symm, rfl⟩
    · have parents : ∀ k ∈ t.chain s.parent, visible k = true := fun k member =>
        shown k ((mem_chain_of_some there).2 (.inr member))
      obtain ⟨below, path, led⟩ := ih above parents
      have child := unique.child?_eq_some.2 ⟨s, there, rfl, rfl⟩
      have last := member?_of_child? child (shown j self_mem_chain)
      refine ⟨below ++ [s.name.name], ?_, ?_⟩
      · rw [path_of_some there, path, List.append_assoc]
      · rw [follow_append, led, Option.bind_some, follow, last, Option.bind_some, follow]

end ScopedNames.ScopeTable

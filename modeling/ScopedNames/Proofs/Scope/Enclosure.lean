import ScopedNames.Proofs.Scope.Qualified

set_option autoImplicit false

namespace ScopedNames.ScopeTable

variable {τ π : Type} {t : ScopeTable τ π} {i j k : Nat} {out : List Nat}

/-- The loop that goes from a scope to the one around it for as long as there is one. -/
inductive Climbs (t : ScopeTable τ π) : Nat → List Nat → Prop where
  | outermost {i : Nat} (alone : t.parent? i = none) : Climbs t i [i]
  | next {i j : Nat} {outer : List Nat} (inside : t.parent? i = some j)
      (rest : Climbs t j outer) : Climbs t i (i :: outer)

theorem climbs_chain (t : ScopeTable τ π) (i : Nat) : t.Climbs i (t.chain i) := by
  induction i using chain_induction t with
  | bare i absent =>
    rw [chain_of_none absent]
    exact .outermost (by simp [parent?, absent])
  | nested i s there ih =>
    rw [chain_of_some there]
    exact .next (parent?_eq_some.2 ⟨s, there, rfl⟩) ih

theorem Climbs.eq_chain (climbs : t.Climbs i out) : out = t.chain i := by
  induction climbs with
  | outermost alone => exact (chain_of_none (by simpa [parent?] using alone)).symm
  | next inside _ ih =>
    obtain ⟨s, there, rfl⟩ := parent?_eq_some.1 inside
    rw [chain_of_some there, ih]

theorem climbs_iff : t.Climbs i out ↔ out = t.chain i :=
  ⟨Climbs.eq_chain, fun same => same ▸ climbs_chain t i⟩

theorem length_chain (t : ScopeTable τ π) (i : Nat) : (t.chain i).length = t.depth i + 1 := by
  rw [depth]
  induction i using chain_induction t with
  | bare i absent => rw [chain_of_none absent, path_of_none absent]; rfl
  | nested i s there ih =>
    rw [chain_of_some there, path_of_some there, List.length_cons, ih, List.length_append,
      List.length_singleton]

-- Each step outwards takes the last name off the path.
theorem path_of_getElem?_chain (found : (t.chain i)[k]? = some j) :
    t.path j = (t.path i).rdrop k := by
  induction i using chain_induction t generalizing k with
  | bare i absent =>
    rw [chain_of_none absent, List.getElem?_singleton] at found
    obtain ⟨rfl, same⟩ := Option.ite_none_right_eq_some.1 found
    rw [Option.some.inj same, List.rdrop_zero]
  | nested i s there ih =>
    rw [chain_of_some there] at found
    cases k with
    | zero => rw [Option.some.inj found, List.rdrop_zero]
    | succ k => rw [path_of_some there, List.rdrop_concat_succ, ih found]

theorem path_prefix_of_mem_chain (around : i ∈ t.chain j) : t.path i <+: t.path j := by
  obtain ⟨k, found⟩ := List.mem_iff_getElem?.1 around
  rw [path_of_getElem?_chain found]
  exact List.take_prefix _ _

theorem UniqueNames.mem_chain_iff_prefix (unique : t.UniqueNames) (inside : i < t.size)
    (inside' : j < t.size) : i ∈ t.chain j ↔ t.path i <+: t.path j := by
  constructor
  · exact path_prefix_of_mem_chain
  · intro front
    -- As many steps outwards as the one path is longer stands a scope with the other path.
    have shorter := front.length_le
    have level : t.depth j - t.depth i < (t.chain j).length := by
      rw [length_chain]
      omega
    obtain ⟨k, found⟩ : ∃ k, (t.chain j)[t.depth j - t.depth i]? = some k :=
      ⟨_, List.getElem?_eq_getElem level⟩
    have around := List.mem_of_getElem? found
    have known : k < t.size := Nat.lt_of_le_of_lt (le_of_mem_chain around) inside'
    have same : t.path k = t.path i := by
      have rest : (t.path j).length - (t.depth j - t.depth i) = (t.path i).length :=
        Nat.sub_sub_self shorter
      rw [path_of_getElem?_chain found, List.rdrop, rest]
      exact (List.prefix_iff_eq_take.1 front).symm
    rwa [unique.path_injective known inside same] at around

theorem encloses_isPartialOrder (t : ScopeTable τ π) :
    IsPartialOrder (Fin t.size) fun a b => t.encloses a b = true where
  refl a := encloses_iff.2 self_mem_chain
  trans a b c outer inner :=
    encloses_iff.2 (mem_chain_trans (encloses_iff.1 outer) (encloses_iff.1 inner))
  antisymm a b outer inner := by
    apply Fin.ext
    exact Nat.le_antisymm (le_of_mem_chain (encloses_iff.1 outer))
      (le_of_mem_chain (encloses_iff.1 inner))

end ScopedNames.ScopeTable

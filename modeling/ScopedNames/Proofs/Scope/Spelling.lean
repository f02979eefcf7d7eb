import ScopedNames.Proofs.Scope.Inside

set_option autoImplicit false

namespace ScopedNames.ScopeTable

variable {τ π : Type} {t : ScopeTable τ π} {i j : Nat} {name : String} {names names' : List String}
variable {way way' js : List Nat}

/-- The scopes on the way have these names, with inline scopes put in before some of them. -/
inductive Spells (t : ScopeTable τ π) : List Nat → List String → Prop where
  | nil : Spells t [] []
  | named {i : Nat} {name : String} {way : List Nat} {names : List String}
      (named : t.name? i = some name) (rest : Spells t way names) :
      Spells t (i :: way) (name :: names)
  | crossed {i : Nat} {name : String} {way : List Nat} {names : List String}
      (transparent : t.isInline i = true) (rest : Spells t way (name :: names)) :
      Spells t (i :: way) (name :: names)

theorem Spells.append (first : t.Spells way names) (second : t.Spells way' names') :
    t.Spells (way ++ way') (names ++ names') := by
  induction first with
  | nil => exact second
  | named same _ ih => exact .named same ih
  | crossed transparent _ ih => exact .crossed transparent ih

theorem path_eq_filterMap_chain (t : ScopeTable τ π) (i : Nat) :
    t.path i = (t.chain i).reverse.filterMap t.name? := by
  induction i using chain_induction t with
  | bare i absent => simp [path_of_none absent, chain_of_none absent, name?, absent]
  | nested i s there ih => simp [path_of_some there, chain_of_some there, ih, name?, there]

theorem exists_way_of_member? (found : t.member? everything i name = some j) :
    ∃ way, (t.chain j).reverse = (t.chain i).reverse ++ way ∧ t.Spells way [name] := by
  induction i using inline_induction t with
  | step i ih =>
    rw [member?_eq, Option.or_eq_some_iff] at found
    rcases found with direct | ⟨_, inner⟩
    · obtain ⟨child, _⟩ := Option.filter_eq_some_iff.1 direct
      obtain ⟨s, there, rfl, rfl⟩ := exists_of_child? child
      refine ⟨[j], ?_, .named ?_ .nil⟩
      · rw [chain_of_some there, List.reverse_cons]
      · rw [name?, there, Option.map_some]
    · obtain ⟨_, k, _, split, led, _⟩ := List.findSome?_eq_some_iff.1 inner
      have member : k ∈ t.inlineChildren i := split ▸ List.mem_append_right _ List.mem_cons_self
      obtain ⟨_, led⟩ := Option.ite_none_right_eq_some.1 led
      obtain ⟨way, around, spells⟩ := ih k member led
      refine ⟨k :: way, ?_, .crossed (List.mem_filter.1 member).2 spells⟩
      rw [around, chain_of_mem_children (mem_children_of_mem_inlineChildren member),
        List.reverse_cons, List.append_assoc, List.singleton_append]

theorem Leads.exists_way (leads : t.Leads i names js) :
    ∃ way, (t.chain (js.getLastD i)).reverse = (t.chain i).reverse ++ way ∧
      t.Spells way names := by
  induction leads with
  | here i => exact ⟨[], (List.append_nil _).symm, .nil⟩
  | step found _ ih =>
    obtain ⟨first, outer, spells⟩ := exists_way_of_member? found
    obtain ⟨rest, inner, spells'⟩ := ih
    refine ⟨first ++ rest, ?_, spells.append spells'⟩
    rw [List.getLastD_cons, inner, outer, List.append_assoc]

end ScopedNames.ScopeTable

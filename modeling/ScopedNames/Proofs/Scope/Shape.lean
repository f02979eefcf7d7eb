import ScopedNames.Proofs.Scope.Spelling

set_option autoImplicit false

namespace ScopedNames.ScopeTable

variable {τ π τ' π' : Type}

structure SameShape (t : ScopeTable τ π) (t' : ScopeTable τ' π') : Prop where
  size : t'.size = t.size
  parents : ∀ i, t'.parent? i = t.parent? i
  names : ∀ i, t'.name? i = t.name? i
  inline : ∀ i, t'.isInline i = t.isInline i

namespace SameShape

variable {t : ScopeTable τ π} {t' : ScopeTable τ' π'} {visible : Nat → Bool} {i : Nat}
variable {name : String} {names : List String}

theorem children_eq (same : t.SameShape t') : t'.children i = t.children i := by
  simp only [children, same.size, same.parents]

theorem inlineChildren_eq (same : t.SameShape t') : t'.inlineChildren i = t.inlineChildren i := by
  rw [inlineChildren, inlineChildren, same.children_eq]
  exact List.filter_congr fun j _ => same.inline j

theorem child?_eq (same : t.SameShape t') : t'.child? i name = t.child? i name := by
  simp only [child?, same.children_eq, same.names]

theorem chain_eq (same : t.SameShape t') : t'.chain i = t.chain i := by
  induction i using chain_induction t with
  | bare i absent =>
    have absent' : t'.scope? i = none := by simpa [parent?, absent] using same.parents i
    rw [chain_of_none absent, chain_of_none absent']
  | nested i s there ih =>
    obtain ⟨s', there', parent⟩ : ∃ s', t'.scope? i = some s' ∧ s'.parent = s.parent := by
      simpa [parent?, there] using same.parents i
    rw [chain_of_some there, chain_of_some there', parent, ih]

theorem path_eq (same : t.SameShape t') : t'.path i = t.path i := by
  simp only [path_eq_filterMap_chain, same.chain_eq, funext same.names]

theorem qualifiedName_eq (same : t.SameShape t') : t'.qualifiedName i = t.qualifiedName i := by
  rw [qualifiedName, qualifiedName, same.path_eq]

theorem encloses_eq (same : t.SameShape t') (i j : Nat) : t'.encloses i j = t.encloses i j := by
  rw [encloses, encloses, same.chain_eq]

theorem member?_eq (same : t.SameShape t') :
    t'.member? visible i name = t.member? visible i name := by
  induction i using inline_induction t with
  | step i ih =>
    rw [ScopeTable.member?_eq, ScopeTable.member?_eq, same.child?_eq, same.inlineChildren_eq]
    congr 1
    apply findSome?_congr
    intro j member
    rw [ih j member]

theorem follow_eq (same : t.SameShape t') :
    t'.follow visible i names = t.follow visible i names := by
  induction names generalizing i with
  | nil => rfl
  | cons name names ih => simp only [follow, same.member?_eq, ih]

end SameShape

end ScopedNames.ScopeTable

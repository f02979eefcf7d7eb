import ScopedNames.Proofs.Scope.Addition

set_option autoImplicit false

namespace ScopedNames.ScopeTable

variable {τ π : Type} {t t' t'' : ScopeTable τ π} {i j k l : Nat} {s : Scope τ π} {name : String}
variable {names : List String} {js : List Nat}

/-- All scopes that one table has beyond the other lie inside the scope `k`. -/
structure GrowsInside (k : Nat) (t t' : ScopeTable τ π) : Prop extends t.Extends t' where
  inside : ∀ i s, t.size ≤ i → t'.scope? i = some s → k ∈ t'.chain s.parent

namespace GrowsInside

theorem refl (k : Nat) (t : ScopeTable τ π) : GrowsInside k t t where
  toExtends := .refl t
  inside _ _ beyond there := absurd (lt_size_of_scope? there) (Nat.not_lt_of_le beyond)

theorem outwards (grown : GrowsInside k t t') (around : l ∈ t.chain k) (known : k < t.size) :
    GrowsInside l t t' where
  toExtends := grown.toExtends
  inside i s beyond there :=
    mem_chain_trans (grown.toExtends.chain_eq known ▸ around) (grown.inside i s beyond there)

theorem trans (first : GrowsInside k t t') (second : GrowsInside k t' t'') :
    GrowsInside k t t'' where
  toExtends := first.toExtends.trans second.toExtends
  inside i s beyond there := by
    by_cases early : i < t'.size
    · rw [second.kept i early] at there
      have bound := Nat.lt_trans (parent_lt there) early
      rw [second.toExtends.chain_eq bound]
      exact first.inside i s beyond there
    · exact second.inside i s (Nat.le_of_not_lt early) there

theorem add (bound : s.parent < t.size) (within : k ∈ t.chain s.parent) :
    GrowsInside k t (t.add s bound) where
  toExtends := extends_add bound
  inside i a beyond there := by
    rw [scope?_add] at there
    split at there
    · cases there
      rw [(extends_add bound).chain_eq bound]
      exact within
    · exact absurd (lt_size_of_scope? there) (Nat.not_lt_of_le beyond)

end GrowsInside

theorem mem_chain_or_mem_chain (first : i ∈ t.chain k) (second : j ∈ t.chain k) :
    i ∈ t.chain j ∨ j ∈ t.chain i := by
  induction k using chain_induction t with
  | bare k absent =>
    rw [chain_of_none absent, List.mem_singleton] at first second
    rw [first, second]
    exact .inl self_mem_chain
  | nested k s found ih =>
    rcases (mem_chain_of_some found).1 first with rfl | above
    · exact .inr second
    · rcases (mem_chain_of_some found).1 second with rfl | above'
      · exact .inl first
      · exact ih above above'

theorem eq_of_mem_children (first : i ∈ t.children l) (second : j ∈ t.children l)
    (around : i ∈ t.chain k) (around' : j ∈ t.chain k) : i = j := by
  have below := lt_of_mem_children first
  have below' := lt_of_mem_children second
  rcases mem_chain_or_mem_chain around around' with above | above
  · rw [chain_of_mem_children second, List.mem_cons] at above
    rcases above with same | outer
    · exact same
    · exact absurd (le_of_mem_chain outer) (Nat.not_le_of_lt below.1)
  · rw [chain_of_mem_children first, List.mem_cons] at above
    rcases above with same | outer
    · exact same.symm
    · exact absurd (le_of_mem_chain outer) (Nat.not_le_of_lt below'.1)

theorem lt_of_member? {visible : Nat → Bool} (found : t.member? visible i name = some j) :
    i < j ∧ j < t.size := by
  obtain ⟨_, s, there, _, around⟩ := member?_eq_some found
  exact ⟨Nat.lt_of_le_of_lt (le_of_mem_chain around) (parent_lt there), lt_size_of_scope? there⟩

theorem mem_chain_of_member? {visible : Nat → Bool} (found : t.member? visible i name = some j) :
    i ∈ t.chain j := by
  obtain ⟨_, s, there, _, around⟩ := member?_eq_some found
  exact (mem_chain_of_some there).2 (.inr around)

namespace GrowsInside

variable {visible : Nat → Bool} (grown : GrowsInside k t t')

include grown

theorem children_eq (outside : k ∉ t'.chain i) : t'.children i = t.children i := by
  obtain ⟨later, split, late⟩ := grown.children_split i
  have none : later = [] := by
    rw [List.eq_nil_iff_forall_not_mem]
    intro j member
    obtain ⟨s, there, rfl⟩ := mem_children_iff.1 (split ▸ List.mem_append_right _ member)
    exact outside (grown.inside j s (late j member) there)
  rw [split, none, List.append_nil]

theorem child?_eq (outside : k ∉ t'.chain i) : t'.child? i name = t.child? i name := by
  have named : ∀ j ∈ t.children i, (t'.name? j == some name) = (t.name? j == some name) := by
    intro j member
    rw [name?, name?, grown.kept j (lt_of_mem_children member).2]
  rw [child?, child?, grown.children_eq outside, ← List.head?_filter, ← List.head?_filter,
    List.filter_congr named]

theorem inlineChildren_eq (outside : k ∉ t'.chain i) :
    t'.inlineChildren i = t.inlineChildren i := by
  rw [inlineChildren, inlineChildren, grown.children_eq outside]
  apply List.filter_congr
  intro j member
  rw [isInline, isInline, grown.kept j (lt_of_mem_children member).2]

-- Beside the scope that grew a look-up finds what it found.
theorem member?_apart (outside : k ∉ t'.chain i) (apart : i ∉ t'.chain k) :
    t'.member? visible i name = t.member? visible i name := by
  induction i using inline_induction t' with
  | step i ih =>
    rw [member?_eq, member?_eq, grown.child?_eq outside, ← grown.inlineChildren_eq outside]
    congr 1
    apply findSome?_congr
    intro j member
    have above := chain_of_mem_children (mem_children_of_mem_inlineChildren member)
    have around : i ∈ t'.chain j := above ▸ List.mem_cons_of_mem j self_mem_chain
    have outside' : k ∉ t'.chain j := by
      rw [above, List.mem_cons]
      rintro (rfl | outer)
      · exact apart around
      · exact outside outer
    rw [ih j member outside' fun within => apart (mem_chain_trans around within)]

theorem member?_beside (known : k < t.size) (here : j ∈ t.children i) (there : l ∈ t.children i)
    (different : l ≠ j) (around : j ∈ t.chain k) :
    t'.member? visible l name = t.member? visible l name := by
  have order := lt_of_mem_children here
  apply grown.member?_apart
  · rw [grown.chain_eq (lt_of_mem_children there).2, chain_of_mem_children there, List.mem_cons]
    rintro (rfl | outer)
    · exact different (eq_of_mem_children there here self_mem_chain around)
    · have above := le_of_mem_chain around
      have below := le_of_mem_chain outer
      omega
  · rw [grown.chain_eq known]
    intro above
    exact different (eq_of_mem_children there here above around)

-- What was found stays the first to be found, however much it has grown itself.
theorem member?_kept (found : t.member? visible i name = some k) :
    t'.member? visible i name = some k := by
  induction i using inline_induction t' with
  | step i ih =>
    have below := lt_of_member? found
    have outside : k ∉ t'.chain i := fun above => Nat.not_le_of_lt below.1 (le_of_mem_chain above)
    rw [member?_eq] at found ⊢
    rw [grown.child?_eq outside, grown.inlineChildren_eq outside]
    rcases Option.or_eq_some_iff.1 found with direct | ⟨absent, inner⟩
    · rw [direct, Option.some_or]
    · obtain ⟨missed, j, others, split, led, empty⟩ := List.findSome?_eq_some_iff.1 inner
      obtain ⟨shown, led⟩ := Option.ite_none_right_eq_some.1 led
      have child : ∀ l ∈ missed ++ j :: others, l ∈ t.children i := by
        intro l member
        exact mem_children_of_mem_inlineChildren (split ▸ member)
      rw [absent, Option.none_or, List.findSome?_eq_some_iff]
      refine ⟨missed, j, others, split, ?_, ?_⟩
      · rw [if_pos shown]
        apply ih j _ led
        rw [grown.inlineChildren_eq outside, split]
        exact List.mem_append_right _ List.mem_cons_self
      · intro l member
        have missing := empty l member
        -- Only one member of a scope leads to `k`, and that one was not passed by.
        have different : l ≠ j := by
          rintro rfl
          rw [if_pos shown, led] at missing
          cases missing
        rw [grown.member?_beside below.2 (child j (List.mem_append_right _ List.mem_cons_self))
          (child l (List.mem_append_left _ member)) different (mem_chain_of_member? led)]
        exact missing

end GrowsInside

inductive Leads (t : ScopeTable τ π) : Nat → List String → List Nat → Prop where
  | here (i : Nat) : Leads t i [] []
  | step {i j : Nat} {name : String} {names : List String} {js : List Nat}
      (found : t.member? everything i name = some j) (rest : Leads t j names js) :
      Leads t i (name :: names) (j :: js)

namespace Leads

theorem last_mem_chain (leads : t.Leads i names js) : i ∈ t.chain (js.getLastD i) := by
  induction leads with
  | here i => exact self_mem_chain
  | step found _ ih =>
    rw [List.getLastD_cons]
    exact mem_chain_trans (mem_chain_of_member? found) ih

theorem last_lt (leads : t.Leads i names js) (known : i < t.size) : js.getLastD i < t.size := by
  induction leads with
  | here i => exact known
  | step found _ ih =>
    rw [List.getLastD_cons]
    exact ih (lt_of_member? found).2

theorem length_eq (leads : t.Leads i names js) : js.length = names.length := by
  induction leads with
  | here => rfl
  | step _ _ ih => rw [List.length_cons, List.length_cons, ih]

theorem follow_eq (leads : t.Leads i names js) :
    t.follow everything i names = some (js.getLastD i) := by
  induction leads with
  | here i => rfl
  | step found _ ih =>
    rw [follow, found, Option.bind_some, ih, List.getLastD_cons]

theorem append {names' : List String} {ks : List Nat} (first : t.Leads i names js)
    (second : t.Leads (js.getLastD i) names' ks) : t.Leads i (names ++ names') (js ++ ks) := by
  induction first with
  | here i => exact second
  | step found _ ih =>
    rw [List.getLastD_cons] at second
    exact .step found (ih second)

theorem kept (leads : t.Leads i names js) (grown : GrowsInside (js.getLastD i) t t') :
    t'.Leads i names js := by
  induction leads with
  | here i => exact .here i
  | @step i j name names js found rest ih =>
    rw [List.getLastD_cons] at grown
    have known := rest.last_lt (lt_of_member? found).2
    exact .step ((grown.outwards rest.last_mem_chain known).member?_kept found) (ih grown)

end Leads

end ScopedNames.ScopeTable

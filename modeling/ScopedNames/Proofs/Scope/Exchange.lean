import ScopedNames.Proofs.Scope.Mirror

set_option autoImplicit false

namespace ScopedNames

variable {τ π : Type} {t t₁ t₂ : ScopeTable τ π} {a b : Scope τ π} {i j k : Nat} {p p' since : π}

namespace ScopeTable

-- Two scopes that are both new trade their indices.
def trade (t : ScopeTable τ π) (i j : Nat) : Equiv.Perm Nat :=
  if t.size ≤ i ∧ t.size ≤ j then Equiv.swap i j else 1

inductive Placed (t : ScopeTable τ π) (a : Scope τ π) : Nat → ScopeTable τ π → Prop where
  | existing {i : Nat} (there : t.child? a.parent a.name.name = some i) : Placed t a i t
  | fresh (absent : t.child? a.parent a.name.name = none) (bound : a.parent < t.size) :
      Placed t a t.size (t.add a bound)

theorem Placed.lt_size (placed : t.Placed a i t₁) (inside : k < t.size) : k < t₁.size := by
  cases placed with
  | existing => exact inside
  | fresh _ bound => exact Nat.lt_of_lt_of_le inside (extends_add bound).size_le

theorem trade_of_lt (early : k < t.size) : t.trade i j k = k := by
  rw [trade]
  split
  · rw [Equiv.swap_apply_of_ne_of_ne] <;> omega
  · rfl

theorem trade_of_known (known : i < t.size ∨ j < t.size) : t.trade i j k = k := by
  rw [trade, if_neg (by omega), Equiv.Perm.one_apply]

theorem trade_new : t.trade t.size (t.size + 1) = Equiv.swap t.size (t.size + 1) :=
  if_pos ⟨Nat.le_refl _, Nat.le_succ _⟩

theorem trade_size : t.trade t.size (t.size + 1) t.size = t.size + 1 := by
  rw [trade_new, Equiv.swap_apply_left]

theorem trade_size_succ : t.trade t.size (t.size + 1) (t.size + 1) = t.size := by
  rw [trade_new, Equiv.swap_apply_right]

theorem trade_of_gt (beyond : t.size + 1 < k) : t.trade t.size (t.size + 1) k = k := by
  rw [trade_new, Equiv.swap_apply_of_ne_of_ne] <;> omega

theorem inlineChildren_trade :
    t.inlineChildren (t.trade i j k) = (t.inlineChildren k).map (t.trade i j) := by
  by_cases inside : k < t.size
  · have same : (t.inlineChildren k).map (t.trade i j) = (t.inlineChildren k).map id :=
      List.map_congr_left fun l member => trade_of_lt (lt_of_mem_inlineChildren member).2
    rw [trade_of_lt inside, same, List.map_id]
  · have moved : ¬ t.trade i j k < t.size := by
      intro early
      exact inside ((t.trade i j).injective (trade_of_lt early) ▸ early)
    rw [inlineChildren_of_size_le (Nat.le_of_not_lt inside),
      inlineChildren_of_size_le (Nat.le_of_not_lt moved), List.map_nil]

theorem lt_of_child? {name : String} (found : t.child? i name = some j) : j < t.size := by
  obtain ⟨a, there, _⟩ := exists_of_child? found
  exact lt_size_of_scope? there

theorem child?_add_apart {bound : a.parent < t.size}
    (apart : ¬ (a.parent = b.parent ∧ a.name.name = b.name.name)) :
    (t.add a bound).child? b.parent b.name.name = t.child? b.parent b.name.name := by
  rw [child?_add, if_neg apart, Option.or_none]

end ScopeTable

variable [LinearOrder π]

namespace Relabelling

def exchange (t : ScopeTable τ π) (i j : Nat) (since : π) : Relabelling τ π τ π :=
  { unchanged with
    scope := t.trade i j
    watched := fun now => since < now
    scope_root := ScopeTable.trade_of_lt ScopeTable.root_lt_size }

theorem carries_self (inside : a.parent < t.size) : (exchange t i j since).Carries a a where
  parent := (ScopeTable.trade_of_lt inside).symm
  name := rfl
  tag := rfl
  isInline := rfl
  location := rfl
  position _ _ := rfl

theorem carries_moved (inside : a.parent < t.size) (placed : a.position = some p)
    (early : p ≤ since) (early' : p' ≤ since) :
    (exchange t i j since).Carries a { a with position := some p' } where
  parent := (ScopeTable.trade_of_lt inside).symm
  name := rfl
  tag := rfl
  isInline := rfl
  location := rfl
  position now later := by
    have less : p < now := lt_of_le_of_lt early later
    have less' : p' < now := lt_of_le_of_lt early' later
    rw [placed]
    exact (decide_eq_true less').trans (decide_eq_true less).symm

end Relabelling

namespace ScopeTable

open Relabelling

namespace Mirrors

theorem unmoved (known : i < t.size ∨ j < t.size) : t.Mirrors (exchange t i j since) t where
  size := rfl
  beyond k _ := trade_of_known known
  scopes k a there := by
    have inside : a.parent < t.size := Nat.lt_trans (parent_lt there) (lt_size_of_scope? there)
    exact ⟨a, (congrArg t.scope? (trade_of_known known)).trans there, carries_self inside⟩
  inline _ := inlineChildren_trade

-- Two scopes added in either order: the order shows only between inline ones of one parent.
theorem exchanged {a' b' : Scope τ π} (bound : a.parent < t.size)
    (bound' : b.parent < (t.add a bound).size) (inside : b'.parent < t.size)
    (inside' : a'.parent < (t.add b' inside).size)
    (carries : (exchange t t.size (t.size + 1) since).Carries a a')
    (carries' : (exchange t t.size (t.size + 1) since).Carries b b')
    (ordered : ¬ (a.isInline = true ∧ b.isInline = true ∧ a.parent = b.parent)) :
    ((t.add a bound).add b bound').Mirrors (exchange t t.size (t.size + 1) since)
      ((t.add b' inside).add a' inside') where
  size := by simp only [add_size]
  beyond k outside := by
    rw [add_size, add_size] at outside
    exact trade_of_gt outside
  scopes k c there := by
    change ∃ c', ((t.add b' inside).add a' inside').scope? (t.trade _ _ k) = some c' ∧ _
    simp only [scope?_add, add_size] at there ⊢
    split at there
    · next last =>
      cases there
      rw [last, trade_size_succ]
      exact ⟨b', by simp, carries'⟩
    · split at there
      · next new =>
        cases there
        rw [new, trade_size]
        exact ⟨a', by simp, carries⟩
      · have early := lt_size_of_scope? there
        rw [trade_of_lt early, if_neg (by omega), if_neg (by omega)]
        exact ⟨c, there, carries_self (Nat.lt_trans (parent_lt there) early)⟩
  inline k := by
    change ((t.add b' inside).add a' inside').inlineChildren (t.trade _ _ k) =
      List.map (t.trade _ _) _
    have parent : a'.parent = t.trade t.size (t.size + 1) a.parent := carries.parent
    have parent' : b'.parent = t.trade t.size (t.size + 1) b.parent := carries'.parent
    simp only [inlineChildren_add, add_size, List.map_append, inlineChildren_trade,
      List.append_assoc, parent, parent', carries.isInline, carries'.isInline,
      (t.trade _ _).injective.eq_iff]
    congr 1
    -- Of the two only one can be an inline member here, and one alone has no order.
    by_cases here : a.parent = k ∧ a.isInline = true
    · have alone : ¬ (b.parent = k ∧ b.isInline = true) := fun both =>
        ordered ⟨here.2, both.2, here.1.trans both.1.symm⟩
      simp [here, alone, trade_size]
    · simp [here, trade_size_succ, apply_ite]

end Mirrors

theorem Placed.exchanged {a' b' : Scope τ π} (first : t.Placed a i t₁) (second : t₁.Placed b j t₂)
    (bound : a.parent < t.size) (bound' : b.parent < t.size)
    (carries : (exchange t i j since).Carries a a') (carries' : (exchange t i j since).Carries b b')
    (apart : ¬ (a.parent = b.parent ∧ a.name.name = b.name.name))
    (ordered : t.size ≤ i → t.size ≤ j →
      ¬ (a.isInline = true ∧ b.isInline = true ∧ a.parent = b.parent)) :
    ∃ u₁ u₂, t.Placed b' (t.trade i j j) u₁ ∧ u₁.Placed a' (t.trade i j i) u₂ ∧
      t₂.Mirrors (exchange t i j since) u₂ := by
  have parent : a'.parent = a.parent := carries.parent.trans (trade_of_lt bound)
  have parent' : b'.parent = b.parent := carries'.parent.trans (trade_of_lt bound')
  have name : a'.name = a.name := carries.name
  have name' : b'.name = b.name := carries'.name
  have inside : a'.parent < t.size := parent ▸ bound
  have inside' : b'.parent < t.size := parent' ▸ bound'
  have apart' : ¬ (b'.parent = a'.parent ∧ b'.name.name = a'.name.name) := by
    rw [parent, parent', name, name']
    exact fun same => apart ⟨same.1.symm, same.2.symm⟩
  cases first with
  | existing there =>
    rw [← parent, ← name] at there
    have known : i < t.size ∨ j < t.size := .inl (lt_of_child? there)
    rw [trade_of_known known, trade_of_known known]
    cases second with
    | existing there' =>
      rw [← parent', ← name'] at there'
      exact ⟨t, t, .existing there', .existing there, .unmoved known⟩
    | fresh absent' bound' =>
      rw [← parent', ← name'] at absent'
      exact ⟨_, _, .fresh absent' inside', .existing ((child?_add_apart apart').trans there),
        (Mirrors.unmoved known).add bound' inside' carries'⟩
  | fresh absent =>
    rw [← parent, ← name] at absent
    cases second with
    | existing there' =>
      rw [child?_add_apart apart, ← parent', ← name'] at there'
      have known : t.size < t.size ∨ j < t.size := .inr (lt_of_child? there')
      rw [trade_of_known known, trade_of_known known]
      exact ⟨_, _, .existing there', .fresh absent inside,
        (Mirrors.unmoved known).add bound inside carries⟩
    | fresh absent' bound' =>
      have again : (t.add b' inside').child? a'.parent a'.name.name = none :=
        (child?_add_apart apart').trans absent
      rw [child?_add_apart apart, ← parent', ← name'] at absent'
      have later := (Placed.fresh absent' inside').lt_size inside
      have second := Placed.fresh again later
      rw [add_size] at carries carries' ordered second ⊢
      refine ⟨t.add b' inside', _, ?_, ?_, Mirrors.exchanged bound bound' inside' later carries
        carries' (ordered (Nat.le_refl _) (Nat.le_succ _))⟩
      · rw [trade_size_succ]
        exact .fresh absent' inside'
      · rw [trade_size]
        exact second

end ScopeTable

end ScopedNames

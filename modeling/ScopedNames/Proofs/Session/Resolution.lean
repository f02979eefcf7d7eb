import ScopedNames.Proofs.Scope.Growth
import ScopedNames.Session.Resolution

set_option autoImplicit false

namespace ScopedNames

theorem Reference.names_ne_nil (r : Reference) : r.names ≠ [] := by
  rw [names, ne_eq, List.map_eq_nil_iff]
  exact r.segments_ne

namespace ScopeTable

variable {τ π : Type} [LT π] [DecidableLT π] {t t' : ScopeTable τ π} {now : Option π} {i j : Nat}
variable {s : Scope τ π} {names : List String} {via : Via} {starts : List Nat} {found : Found}
variable {recorded : List (Import π)} {r : Reference} {scope : Nat}

theorem isVisible_of_some (there : t.scope? i = some s) :
    t.isVisible now i = before s.position now := by
  simp only [isVisible, there]

theorem isVisible_root : t.isVisible now root = true := rfl

theorem exists_of_isVisible (shown : t.isVisible now i = true) (inner : i ≠ root) :
    ∃ s, t.scope? i = some s ∧ before s.position now = true := by
  cases there : t.scope? i with
  | none => simp [isVisible, there, inner] at shown
  | some s => exact ⟨s, rfl, (isVisible_of_some there).symm.trans shown⟩

theorem isVisible_of_size_le (absent : t.size ≤ i) : t.isVisible now i = false := by
  cases shown : t.isVisible now i with
  | false => rfl
  | true =>
    have positive : i ≠ root := Nat.ne_of_gt (Nat.lt_of_lt_of_le root_lt_size absent)
    obtain ⟨s, there, _⟩ := exists_of_isVisible shown positive
    exact absurd (lt_size_of_scope? there) (Nat.not_lt_of_le absent)

theorem searchFrom_eq_some :
    t.searchFrom names now via starts = some found ↔
      (∃ missed others, starts = missed ++ found.start :: others ∧
        ∀ i ∈ missed, t.follow (t.isVisible now) i names = none) ∧
      t.follow (t.isVisible now) found.start names = some found.node ∧ found.via = via := by
  simp only [searchFrom, reach_eq_follow, List.findSome?_eq_some_iff, Option.map_eq_none_iff,
    Option.map_eq_some_iff]
  constructor
  · rintro ⟨missed, start, others, rfl, ⟨node, led, rfl⟩, empty⟩
    exact ⟨⟨missed, others, rfl, empty⟩, led, rfl⟩
  · rintro ⟨⟨missed, others, split, empty⟩, led, rfl⟩
    exact ⟨missed, found.start, others, split, ⟨found.node, led, rfl⟩, empty⟩

theorem searchFrom_eq_none :
    t.searchFrom names now via starts = none ↔
      ∀ i ∈ starts, t.follow (t.isVisible now) i names = none := by
  simp only [searchFrom, reach_eq_follow, List.findSome?_eq_none_iff, Option.map_eq_none_iff]

theorem follow_of_resolve (resolved : t.resolve recorded r scope now = some found) :
    t.follow (t.isVisible now) found.start r.names = some found.node := by
  rw [resolve, Option.or_eq_some_iff] at resolved
  rcases resolved with direct | ⟨_, imported⟩
  · split at direct
    · exact (searchFrom_eq_some.1 direct).2.1
    · exact (searchFrom_eq_some.1 direct).2.1
  · exact (searchFrom_eq_some.1 imported).2.1

theorem exists_of_resolve (resolved : t.resolve recorded r scope now = some found) :
    ∃ s, t.scope? found.node = some s ∧ before s.position now = true ∧
      found.start ∈ t.chain s.parent := by
  have led := follow_of_resolve resolved
  have within := mem_chain_of_follow led
  cases written : r.names with
  | nil => exact absurd written r.names_ne_nil
  | cons name rest =>
    rw [written] at led
    obtain ⟨shown, below⟩ := follow_cons_eq_some led
    obtain ⟨s, there, earlier⟩ := exists_of_isVisible shown (Nat.ne_of_gt (Nat.zero_lt_of_lt below))
    -- The start is around what was found, and it is not the scope found itself.
    rcases (mem_chain_of_some there).1 within with same | enclosed
    · omega
    · exact ⟨s, there, earlier, enclosed⟩

end ScopeTable

end ScopedNames

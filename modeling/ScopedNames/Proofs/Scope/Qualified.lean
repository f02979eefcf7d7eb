import Mathlib
import ScopedNames.Proofs.Scope.Descent

set_option autoImplicit false

namespace ScopedNames

variable {τ π : Type} {t : ScopeTable τ π} {i j : Nat} {pieces : List (List Char)}
variable {names names' : List String}

-- Names without a colon can be told apart where they are joined by two.
def Unambiguous (names : List String) : Prop :=
  ∀ name ∈ names, name ≠ "" ∧ ':' ∉ name.toList

theorem filter_splitOn_intercalate (apart : ∀ piece ∈ pieces, piece ≠ [] ∧ ':' ∉ piece) :
    (List.splitOn ':' (separator.toList.intercalate pieces)).filter (!·.isEmpty) = pieces := by
  induction pieces with
  | nil => rfl
  | cons piece pieces ih =>
    obtain ⟨written, free⟩ := apart piece List.mem_cons_self
    have others := ih fun piece member => apart piece (List.mem_cons_of_mem _ member)
    cases pieces with
    | nil => simp [List.splitOn_eq_singleton free, written]
    | cons next pieces =>
      have letters : ∀ c ∈ piece, (c == ':') = false := fun c member =>
        beq_false_of_ne fun same => free (same ▸ member)
      -- Between the two colons lies an empty piece, which the filter drops.
      have split : List.splitOn ':' (separator.toList.intercalate (piece :: next :: pieces)) =
          piece :: [] :: List.splitOn ':' (separator.toList.intercalate (next :: pieces)) := by
        have parts := List.splitOnP_append_cons_of_forall_mem letters ':' rfl
          (':' :: separator.toList.intercalate (next :: pieces))
        simpa [List.splitOn, List.intercalate_cons_cons, separator,
          List.splitOnP_cons_eq_if_modifyHead] using parts
      rw [split]
      simp [written, others]

theorem joinNames_injective (apart : Unambiguous names) (apart' : Unambiguous names')
    (same : joinNames names = joinNames names') : names = names' := by
  have recovered : ∀ {names : List String}, Unambiguous names →
      (List.splitOn ':' (joinNames names).toList).filter (!·.isEmpty) =
        names.map String.toList := by
    intro names apart
    rw [joinNames, String.toList_intercalate]
    apply filter_splitOn_intercalate
    simpa [Unambiguous] using apart
  have letters := (recovered apart).symm.trans ((same ▸ rfl : _ = _).trans (recovered apart'))
  exact List.map_injective_iff.2 (fun _ _ => String.toList_inj.1) letters

namespace ScopeTable

theorem UniqueNames.path_injective (unique : t.UniqueNames) (inside : i < t.size)
    (inside' : j < t.size) (same : t.path i = t.path j) : i = j := by
  have leads : ∀ k < t.size, t.follow everything root (t.path k) = some k := by
    intro k within
    have outermost : root ∈ t.chain k := List.mem_of_getLast? (getLast?_chain within)
    have shown : ∀ j ∈ t.chain k, everything j = true := fun _ _ => rfl
    obtain ⟨below, path, led⟩ := unique.exists_follow_below outermost shown
    rwa [path, path_of_none (i := root) rfl, List.nil_append]
  exact Option.some.inj ((leads i inside).symm.trans (same ▸ leads j inside'))

def NoColons (t : ScopeTable τ π) : Prop :=
  ∀ i a, t.scope? i = some a → ':' ∉ a.name.name.toList

theorem NoColons.unambiguous (clear : t.NoColons) (i : Nat) : Unambiguous (t.path i) := by
  induction i using chain_induction t with
  | bare i absent => simp [Unambiguous, path_of_none absent]
  | nested i s there ih =>
    intro name member
    rw [path_of_some there, List.mem_append, List.mem_singleton] at member
    rcases member with outer | rfl
    · exact ih name outer
    · exact ⟨s.name.name_ne, clear i s there⟩

theorem UniqueNames.qualifiedName_injective (unique : t.UniqueNames) (clear : t.NoColons)
    (inside : i < t.size) (inside' : j < t.size) (same : t.qualifiedName i = t.qualifiedName j) :
    i = j := by
  apply unique.path_injective inside inside'
  exact joinNames_injective (clear.unambiguous i) (clear.unambiguous j)
    (String.append_right_inj _ |>.1 same)

end ScopeTable

end ScopedNames

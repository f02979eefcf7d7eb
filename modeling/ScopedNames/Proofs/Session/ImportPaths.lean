import ScopedNames.Proofs.Scope.Enclosure
import ScopedNames.Proofs.Scope.Grown
import ScopedNames.Proofs.Session.Imports

set_option autoImplicit false

namespace ScopedNames

variable {τ π : Type}

namespace ScopeTable

variable {t : ScopeTable τ π} {targets seen : List Nat}

-- The first scope of each path; `seen` are the paths of those that came before.
def firstOfEachPath (t : ScopeTable τ π) (seen : List (List String)) : List Nat → List Nat
  | [] => []
  | i :: rest =>
    if t.path i ∈ seen then t.firstOfEachPath seen rest
    else i :: t.firstOfEachPath (t.path i :: seen) rest

theorem UniqueNames.firstOfEachPath_eq (unique : t.UniqueNames)
    (known : ∀ i ∈ targets, i < t.size) (known' : ∀ i ∈ seen, i < t.size) :
    t.firstOfEachPath (seen.map t.path) targets =
      (targets.filter fun i => i ∉ seen).eraseDups := by
  -- What stands behind a scope is deduplicated with that scope among those seen.
  induction targets generalizing seen with
  | nil => rfl
  | cons i targets ih =>
    obtain ⟨inside, others⟩ := List.forall_mem_cons.1 known
    have met : t.path i ∈ seen.map t.path ↔ i ∈ seen := by
      rw [List.mem_map]
      constructor
      · rintro ⟨j, member, same⟩
        rwa [unique.path_injective (known' j member) inside same] at member
      · exact fun member => ⟨i, member, rfl⟩
    rw [firstOfEachPath]
    by_cases before : i ∈ seen
    · rw [if_pos (met.2 before), List.filter_cons_of_neg (by simpa using before), ih others known']
    · have later := ih others (List.forall_mem_cons.2 ⟨inside, known'⟩)
      have apart : (fun j => decide (j ∉ i :: seen)) = fun j => !j == i && decide (j ∉ seen) := by
        funext j
        rw [Bool.eq_iff_iff]
        simp
      rw [apart, List.map_cons] at later
      rw [if_neg (mt met.1 before), List.filter_cons_of_pos (by simpa using before),
        List.eraseDups_cons, List.filter_filter, later]

variable [LT π] [DecidableLT π]

/-- The scopes that directives have opened, if those with one path count as one. -/
def importsByPath (t : ScopeTable τ π) (recorded : List (Import π)) (chain : List Nat)
    (now : Option π) : List Nat :=
  t.firstOfEachPath []
    (((chain.flatMap (issuedBefore recorded now)).mergeSort t.importLE).map (·.2))

end ScopeTable

section Imports

variable [LT π] [DecidableLT π] {recorded : List (Import π)} {now : Option π}

theorem exists_of_mem_issuedBefore {i : Nat} {a : π × Nat}
    (member : a ∈ issuedBefore recorded now i) : ∃ d ∈ recorded, d.target = some a.2 := by
  obtain ⟨d, issued, opens⟩ := List.mem_filterMap.1 member
  have listed := (List.takeWhile_sublist _).subset issued
  exact ⟨d, (List.mem_filter.1 listed).1, (Import.opening_eq_some.1 opens).2⟩

theorem ScopeTable.UniqueNames.activeImports_eq_importsByPath {t : ScopeTable τ π}
    (unique : t.UniqueNames) (chain : List Nat) (now : Option π)
    (known : ∀ d ∈ recorded, ∀ i, d.target = some i → i < t.size) :
    t.activeImports recorded chain now = t.importsByPath recorded chain now := by
  rw [activeImports, importsByPath]
  have targets : ∀ i ∈ ((chain.flatMap (issuedBefore recorded now)).mergeSort t.importLE).map (·.2),
      i < t.size := by
    intro i member
    obtain ⟨a, sorted, rfl⟩ := List.mem_map.1 member
    obtain ⟨scope, _, issued⟩ := List.mem_flatMap.1 (List.mem_mergeSort.1 sorted)
    obtain ⟨d, listed, target⟩ := exists_of_mem_issuedBefore issued
    exact known d listed a.2 target
  have first := unique.firstOfEachPath_eq targets (List.forall_mem_nil (fun i => i < t.size))
  simpa using first.symm

end Imports

/--
A path is that of one scope only, and a scope is inside of another one exactly if its path goes on
from the other's. The way outwards from a scope comes to an end at the root, after as many steps
as its path has names, and loses one of them at each. So enclosure is a partial order, and imports
that are told apart by the paths of their targets are told apart by the targets.
-/
theorem ScopeTree.enclosure_characterized [LT π] [DecidableLT π] {t : ScopeTree τ π} {number : Nat}
    (grown : t.Grown number) :
    (∀ a < t.size, ∀ b < t.size, (t.path a = t.path b ↔ a = b) ∧
      (t.encloses a b = true ↔ a ∈ t.chain b) ∧
      (t.encloses a b = true ↔ t.path a <+: t.path b)) ∧
    (∀ b < t.size, (∀ out, t.Climbs b out ↔ out = t.chain b) ∧
      (t.chain b).length = t.depth b + 1 ∧
      (t.chain b).head? = some b ∧ (t.chain b).getLast? = some root ∧
      ∀ k a, (t.chain b)[k]? = some a → a < t.size ∧ t.path a = (t.path b).rdrop k) ∧
    (IsPartialOrder (Fin t.size) fun a b => t.encloses a b = true) ∧
    ∀ recorded chain now, (∀ d ∈ recorded, ∀ i, d.target = some i → i < t.size) →
      t.activeImports recorded chain now = t.importsByPath recorded chain now := by
  have unique := grown.uniqueNames
  refine ⟨?_, ?_, t.encloses_isPartialOrder, fun recorded chain now =>
    unique.activeImports_eq_importsByPath chain now⟩
  · intro a inside b inside'
    refine ⟨⟨unique.path_injective inside inside', fun same => same ▸ rfl⟩,
      ScopeTable.encloses_iff, ?_⟩
    rw [ScopeTable.encloses_iff, unique.mem_chain_iff_prefix inside inside']
  · intro b inside
    obtain ⟨outer, first⟩ := t.exists_chain_eq_cons b
    refine ⟨fun out => ScopeTable.climbs_iff, t.length_chain b, by rw [first]; rfl,
      ScopeTable.getLast?_chain inside, ?_⟩
    intro k a found
    have around := ScopeTable.le_of_mem_chain (List.mem_of_getElem? found)
    exact ⟨Nat.lt_of_le_of_lt around inside, ScopeTable.path_of_getElem?_chain found⟩

-- The `B` in `A` is around the `A` in it, and the `B` beside `A`, which was reopened, is not.
theorem ScopeTree.enclosure_characterized_of_homonyms :
    ∃ t : ScopeTree Nat Int, t.Grown 0 ∧ t.size = 5 ∧ t.reopened 1 = 1 ∧
      t.path 2 = ["A", "B"] ∧ t.path 3 = ["B"] ∧ t.path 4 = ["A", "B", "A"] ∧
      t.encloses 2 4 = true ∧ t.encloses 3 4 = false ∧ (t.chain 4).length = 4 ∧
      ∃ recorded : List (Import Int), t.importsByPath recorded [3, 0] (some 9) = [2, 3] := by
  let within (parent : Nat) (name : Segment) (position : Int) : Scope Nat Int :=
    ⟨parent, name, none, some position, false, none⟩
  let nameA : Segment := ⟨"A", by decide, by decide⟩
  let nameB : Segment := ⟨"B", by decide, by decide⟩
  let a := within 0 nameA 1
  let inner := within 1 nameB 2
  let outer := within 0 nameB 3
  let innermost := within 2 nameA 4
  let all : ScopeTree Nat Int := ⟨⟨#[a, inner, outer, innermost], by decide⟩, 0, []⟩
  have first : (⟨⟨#[a], by decide⟩, 0, []⟩ : ScopeTree Nat Int).Grown 0 :=
    Grown.new.add (s := a) (by decide) (by cbv)
  have second : (⟨⟨#[a, inner], by decide⟩, 0, []⟩ : ScopeTree Nat Int).Grown 0 :=
    first.add (s := inner) (by decide) (by cbv)
  have third : (⟨⟨#[a, inner, outer], by decide⟩, 0, []⟩ : ScopeTree Nat Int).Grown 0 :=
    second.add (s := outer) (by decide) (by cbv)
  have fourth : all.Grown 0 := third.add (s := innermost) (by decide) (by cbv)
  let t : ScopeTree Nat Int := (all.declare nameA ⟨0, Nat.succ_pos _⟩ none (some 5) false none).1
  have grown : t.Grown 0 := fourth.declare nameA _ _ _ _ _
  let opening (name : Segment) (target : Nat) (scope : Nat) (position : Int) : Import Int :=
    ⟨⟨[name], false, by simp⟩, some target, scope, some position⟩
  let recorded : List (Import Int) :=
    [opening nameB 2 0 6, opening nameB 3 3 7, opening nameB 2 3 8]
  have size : t.size = 5 := by cbv
  have path : t.path 2 = ["A", "B"] := by cbv
  have path' : t.path 3 = ["B"] := by cbv
  have path'' : t.path 4 = ["A", "B", "A"] := by cbv
  have reopened : t.reopened 1 = 1 := by cbv
  have active : t.activeImports recorded [3, 0] (some 9) = [2, 3] := by cbv
  have known : ∀ d ∈ recorded, ∀ i, d.target = some i → i < t.size := by
    simp [recorded, opening, size]
  clear_value t
  obtain ⟨order, outwards, _, imports⟩ := enclosure_characterized grown
  have around := (order 2 (by omega) 4 (by omega)).2.2
  have apart := (order 3 (by omega) 4 (by omega)).2.2
  rw [path'', path] at around
  rw [path'', path'] at apart
  have length := (outwards 4 (by omega)).2.1
  rw [ScopeTable.depth, path''] at length
  refine ⟨t, grown, size, reopened, path, path', path'', around.2 (by decide), ?_, length, recorded,
    ?_⟩
  · exact Bool.eq_false_iff.2 fun encloses => absurd (apart.1 encloses) (by decide)
  · exact (imports recorded [3, 0] (some 9) known).symm.trans active

end ScopedNames

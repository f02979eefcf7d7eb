import ScopedNames.Proofs.Scope.Addition
import ScopedNames.Proofs.Session.Imports

set_option autoImplicit false

namespace ScopedNames

variable {τ π : Type} [LinearOrder π] {s : Session τ π} {now now' : Option π} {i j q : Nat}
variable {d : Import π} {a : Scope τ π}

namespace Session

def widened (already : List Nat) : Option Nat → List Nat
  | some i => if i ∈ already then already else already ++ [i]
  | none => already

theorem eraseDups_append_toList (xs : List Nat) (target : Option Nat) :
    (xs ++ target.toList).eraseDups = widened xs.eraseDups target := by
  cases target with
  | none => rw [Option.toList_none, List.append_nil, widened]
  | some i =>
    rw [Option.toList_some, List.eraseDups_append, widened]
    by_cases known : i ∈ xs
    · simp [List.removeAll, known]
    · simp [List.removeAll, known, List.eraseDups_cons]

theorem mem_opened :
    i ∈ s.opened q now ↔
      ∃ d ∈ s.issued, d.scope ∈ s.tree.chain q ∧ before d.position now = true ∧
        d.target = some i := by
  simp [opened, ScopeTable.encloses_iff, and_assoc]

-- What is open around a scope is open inside it, and stays open.
theorem mem_opened_inside (active : i ∈ s.opened q now) (within : q ∈ s.tree.chain j)
    (later : before now now' = true) : i ∈ s.opened j now' := by
  obtain ⟨d, issued, around, earlier, target⟩ := mem_opened.1 active
  exact mem_opened.2 ⟨d, issued, ScopeTable.mem_chain_trans around within,
    before_trans earlier later, target⟩

theorem opened_issue {recorded : List (Import π)} {last : Option π} :
    opened { s with issued := s.issued ++ [d], recorded := recorded, lastPosition := last } q now =
      if s.tree.encloses d.scope q && before d.position now then widened (s.opened q now) d.target
      else s.opened q now := by
  rw [opened, opened, List.filter_append, List.filterMap_append, List.filter_singleton]
  cases s.tree.encloses d.scope q && before d.position now with
  | true =>
    have only : [d].filterMap (·.target) = d.target.toList := by
      cases target : d.target <;> simp [target]
    rw [cond_true, only, eraseDups_append_toList, if_pos rfl]
  | false => rw [cond_false, List.filterMap_nil, List.append_nil, if_neg Bool.false_ne_true]

-- To open again what is open already around the directive changes nothing anywhere.
theorem opened_issue_of_mem {recorded : List (Import π)} {last : Option π}
    (again : ∀ i, d.target = some i → i ∈ s.opened d.scope d.position) :
    opened { s with issued := s.issued ++ [d], recorded := recorded, lastPosition := last } q now =
      s.opened q now := by
  rw [opened_issue]
  split
  · next active =>
    rw [Bool.and_eq_true, ScopeTable.encloses_iff] at active
    cases target : d.target with
    | none => rfl
    | some i => exact if_pos (mem_opened_inside (again i target) active.1 active.2)
  · rfl

theorem opened_declare (known : ∀ d ∈ s.issued, d.scope < s.tree.size)
    {bound : a.parent < s.tree.size} {last : Option π} :
    opened
        { s with
          tree := { s.tree with toScopeTable := s.tree.add a bound }
          lastPosition := last } q now =
      s.opened (if q = s.tree.size then a.parent else q) now := by
  rw [opened, opened]
  congr 2
  apply List.filter_congr
  intro d member
  congr 1
  rw [Bool.eq_iff_iff, ScopeTable.encloses_iff, ScopeTable.encloses_iff, ScopeTable.chain_add]
  split
  · next new =>
    rw [List.mem_cons, or_iff_right]
    rintro rfl
    exact Nat.lt_irrefl _ (new ▸ known d member)
  · rfl

-- A scope `Outer` with a member `Inner` that is asked for from outside, once the members of
-- `Outer` are open.

def outerPath : Reference := ⟨[⟨"Outer", by decide, by decide⟩], true, by simp⟩

def innerName : Reference := ⟨[⟨"Inner", by decide, by decide⟩], false, by simp⟩

def declareOuter : Event Nat Int := .scopeDeclared (.text "Outer") ⟨0, 0⟩ (some 7) (some 1) false

def declareInner : Event Nat Int := .scopeDeclared (.text "Inner") ⟨0, 1⟩ none (some 2) false

def askInner : Event Nat Int := .referenceQuery innerName ⟨0, 0⟩ (some 5)

end Session

end ScopedNames

import ScopedNames.Proofs.Scope.Shape
import ScopedNames.Session.Resolution

set_option autoImplicit false

namespace ScopedNames

variable {τ π : Type}

def Scope.unplaced (a : Scope τ π) : Scope τ π := { a with location := none }

namespace ScopeTable

structure SameRecords (t t' : ScopeTable τ π) : Prop where
  size : t'.size = t.size
  scopes : ∀ i, (t'.scope? i).map Scope.unplaced = (t.scope? i).map Scope.unplaced

variable {t t' : ScopeTable τ π} {i : Nat}

theorem size_le_of_scopes (kept : ∀ i a, t.scope? i = some a → ∃ b, t'.scope? i = some b) :
    t.size ≤ t'.size := by
  apply Nat.le_of_not_lt
  intro shorter
  have positive : t'.size ≠ root := Nat.ne_of_gt root_lt_size
  obtain ⟨a, there⟩ := exists_scope positive shorter
  obtain ⟨b, there'⟩ := kept _ a there
  exact Nat.lt_irrefl _ (lt_size_of_scope? there')

theorem SameRecords.of_twins
    (forth : ∀ i a, t.scope? i = some a → ∃ b, t'.scope? i = some b ∧ b.unplaced = a.unplaced)
    (back : ∀ i b, t'.scope? i = some b → ∃ a, t.scope? i = some a ∧ b.unplaced = a.unplaced) :
    t.SameRecords t' where
  size := by
    apply Nat.le_antisymm
    · exact size_le_of_scopes fun i b there => (back i b there).imp fun _ => And.left
    · exact size_le_of_scopes fun i a there => (forth i a there).imp fun _ => And.left
  scopes i := by
    cases there : t.scope? i with
    | some a =>
      obtain ⟨b, there', same⟩ := forth i a there
      simp [there', same]
    | none =>
      cases there' : t'.scope? i with
      | none => rfl
      | some b =>
        obtain ⟨a, found, _⟩ := back i b there'
        cases there.symm.trans found

namespace SameRecords

theorem read_eq {α : Type} (same : t.SameRecords t') (read : Scope τ π → α)
    (blind : ∀ a, read a.unplaced = read a) : (t'.scope? i).map read = (t.scope? i).map read := by
  have seen := congrArg (Option.map read) (same.scopes i)
  simpa [Option.map_map, Function.comp_def, blind] using seen

theorem shape (same : t.SameRecords t') : t.SameShape t' where
  size := same.size
  parents _ := same.read_eq (·.parent) fun _ => rfl
  names _ := same.read_eq (·.name.name) fun _ => rfl
  inline i := by
    have seen := same.read_eq (i := i) (·.isInline) fun _ => rfl
    cases there : t.scope? i <;> cases there' : t'.scope? i <;> simp_all [isInline]

theorem tag_eq (same : t.SameRecords t') :
    (t'.scope? i).bind (·.tag) = (t.scope? i).bind (·.tag) := by
  have seen := same.read_eq (i := i) (·.tag) fun _ => rfl
  cases there : t.scope? i <;> cases there' : t'.scope? i <;> simp_all

variable [LT π] [DecidableLT π] {names : List String} {now : Option π} {via : Via}
variable {starts : List Nat}

theorem isVisible_eq (same : t.SameRecords t') : t'.isVisible now = t.isVisible now := by
  funext i
  have seen := same.read_eq (i := i) (·.position) fun _ => rfl
  cases there : t.scope? i <;> cases there' : t'.scope? i <;> simp_all [isVisible]

theorem searchFrom_eq (same : t.SameRecords t') :
    t'.searchFrom names now via starts = t.searchFrom names now via starts := by
  simp only [searchFrom, reach_eq_follow, same.isVisible_eq, same.shape.follow_eq]

end SameRecords

end ScopeTable

end ScopedNames

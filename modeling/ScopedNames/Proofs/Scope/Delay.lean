import ScopedNames.Proofs.Scope.Mirror
import ScopedNames.Proofs.Scope.Shape

set_option autoImplicit false

namespace ScopedNames

def delay (m k p : Nat) : Nat := if p < m then p else p + k

theorem delay_of_lt {m p : Nat} (k : Nat) (early : p < m) : delay m k p = p := if_pos early

theorem delay_of_le {m p : Nat} (k : Nat) (late : m ≤ p) : delay m k p = p + k :=
  if_neg (Nat.not_lt_of_le late)

theorem delay_strictMono (m k : Nat) : StrictMono (delay m k) := by
  intro p q less
  unfold delay
  split <;> split <;> omega

variable {τ : Type} {m k : Nat}

def Scope.delayed (m k : Nat) (s : Scope τ Nat) : Scope τ Nat :=
  { s with position := s.position.map (delay m k) }

-- All scopes as they were, but for later positions.
structure ScopeTable.Delayed (m k : Nat) (t t' : ScopeTable τ Nat) : Prop where
  size : t'.size = t.size
  scopes : ∀ i, t'.scope? i = (t.scope? i).map (Scope.delayed m k)

namespace ScopeTable.Delayed

variable {t t' : ScopeTable τ Nat} {i j : Nat} {s : Scope τ Nat} {name : String}

theorem parent?_eq (delayed : t.Delayed m k t') : t'.parent? i = t.parent? i := by
  rw [parent?, parent?, delayed.scopes, Option.map_map]
  rfl

theorem name?_eq (delayed : t.Delayed m k t') : t'.name? i = t.name? i := by
  rw [name?, name?, delayed.scopes, Option.map_map]
  rfl

theorem isInline_eq (delayed : t.Delayed m k t') : t'.isInline i = t.isInline i := by
  rw [isInline, isInline, delayed.scopes, Option.any_map]
  rfl

theorem shape (delayed : t.Delayed m k t') : t.SameShape t' where
  size := delayed.size
  parents _ := delayed.parent?_eq
  names _ := delayed.name?_eq
  inline _ := delayed.isInline_eq

theorem tag_eq (delayed : t.Delayed m k t') :
    (t'.scope? i).bind (·.tag) = (t.scope? i).bind (·.tag) := by
  rw [delayed.scopes, Option.bind_map]
  rfl

theorem of_early
    (early : ∀ i s, t.scope? i = some s → s.position.map (delay m k) = s.position) :
    t.Delayed m k t where
  size := rfl
  scopes i := by
    cases there : t.scope? i with
    | none => rfl
    | some s => rw [Option.map_some, Scope.delayed, early i s there]

theorem add {s' : Scope τ Nat} (delayed : t.Delayed m k t') (bound : s.parent < t.size)
    (bound' : s'.parent < t'.size) (same : s' = s.delayed m k) :
    (t.add s bound).Delayed m k (t'.add s' bound') where
  size := by rw [add_size, add_size, delayed.size]
  scopes i := by
    rw [scope?_add, scope?_add, delayed.size, delayed.scopes, same]
    split <;> rfl

end ScopeTable.Delayed

namespace Relabelling

def later (m k now : Nat) : Relabelling τ Nat τ Nat :=
  { (unchanged : Relabelling τ Nat τ Nat) with
    position := delay m k
    watched := fun p => now ≤ p
    position_mono := delay_strictMono m k }

end Relabelling

theorem ScopeTable.Delayed.mirrors {t t' : ScopeTable τ Nat} (delayed : t.Delayed m k t')
    (now : Nat) : t.Mirrors (.later m k now) t' where
  size := delayed.size
  beyond i _ := rfl
  scopes i a there := by
    refine ⟨a.delayed m k, ?_, rfl, rfl, rfl, rfl, rfl, ?_⟩
    · change t'.scope? i = _
      rw [delayed.scopes, there, Option.map_some]
    · intro p _
      cases position : a.position with
      | none => simp [Scope.delayed, position, before]
      | some q =>
        rw [Scope.delayed, position]
        exact Relabelling.before_position (m := (.later m k now : Relabelling τ Nat τ Nat))
  inline i := by
    change t'.inlineChildren i = (t.inlineChildren i).map id
    rw [List.map_id, delayed.shape.inlineChildren_eq]

end ScopedNames

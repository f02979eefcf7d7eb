import ScopedNames.Proofs.Session.Mirror
import ScopedNames.Proofs.Session.Trace

set_option autoImplicit false

namespace ScopedNames

variable {τ π τ' π' : Type} [LinearOrder π] [LinearOrder π'] {m : Relabelling τ π τ' π'}
variable {s s₁ : Session τ π} {s' s₁' : Session τ' π'} {c : Call τ π} {reply : Reply π} {p p' : π}
variable {d : Import π}

namespace Session

theorem admits_after (clock : s.lastPosition = some p) : s.Admits (some p') ↔ p < p' := by
  constructor
  · rintro ⟨_, same, later⟩
    cases same
    exact later p clock
  · intro later
    refine ⟨p', rfl, ?_⟩
    intro last known
    rw [clock] at known
    cases known
    exact later

namespace Mirrors

theorem clock_after (clock : s.lastPosition = some p)
    (clock' : s'.lastPosition = some (m.position p)) :
    ∀ p', m.watched p' → s.Admits (some p') → s'.Admits (some (m.position p')) := by
  intro p' _ admitted
  rw [admits_after clock']
  exact m.position_mono ((admits_after clock).1 admitted)

theorem advance (mirrors : s.Mirrors m s') (reopenings reopenings' : List Nat) :
    Mirrors m { s with tree := { s.tree with reopenings := reopenings }, lastPosition := some p }
      { s' with
        tree := { s'.tree with reopenings := reopenings' }
        lastPosition := some (m.position p) } where
  number := mirrors.number
  table := mirrors.table
  opened := mirrors.opened
  clock := clock_after rfl rfl

theorem declare (mirrors : s.Mirrors m s') (inv : s.Invariant) (inv' : s'.Invariant)
    {a : Scope τ π} {b : Scope τ' π'} (carries : m.Carries a b) (bound : a.parent < s.tree.size)
    (bound' : b.parent < s'.tree.size) :
    Mirrors m
      { s with tree := { s.tree with toScopeTable := s.tree.add a bound }, lastPosition := some p }
      { s' with
        tree := { s'.tree with toScopeTable := s'.tree.add b bound' }
        lastPosition := some (m.position p) } where
  number := mirrors.number
  table := mirrors.table.add bound bound' carries
  opened q now watched := by
    have parent : (if m.scope q = s'.tree.size then b.parent else m.scope q) =
        m.scope (if q = s.tree.size then a.parent else q) := by
      rw [carries.parent, mirrors.table.size, apply_ite m.scope]
      simp only [mirrors.table.scope_eq_size]
    rw [opened_declare inv.import_scope, opened_declare inv'.import_scope, parent,
      mirrors.opened _ _ watched]
  clock := clock_after rfl rfl

theorem issue (mirrors : s.Mirrors m s') (positioned : d.position = some p) :
    Mirrors m
      { s with
        issued := s.issued ++ [d]
        recorded := s.recorded ++ [d]
        lastPosition := some p }
      { s' with
        issued := s'.issued ++ [m.directive d]
        recorded := s'.recorded ++ [m.directive d]
        lastPosition := some (m.position p) } where
  number := mirrors.number
  table := mirrors.table
  opened q now watched := by
    have around : s'.tree.encloses (m.directive d).scope (m.scope q) =
        s.tree.encloses d.scope q := mirrors.table.encloses_eq
    have earlier : before (m.directive d).position (some (m.position now)) =
        before d.position (some now) := by
      rw [Relabelling.directive, positioned]
      exact Relabelling.before_position
    rw [opened_issue, opened_issue, around, earlier, mirrors.opened q now watched]
    split
    · exact widened_map m.scope.injective _ _
    · rfl
  clock := clock_after rfl rfl

end Mirrors

end Session

theorem Relabelling.carries_scope {parent : Nat} {segment : Segment} {tag : Option τ}
    {isInline : Bool} {location : Option Location} :
    m.Carries ⟨parent, segment, tag, some p, isInline, location⟩
      ⟨m.scope parent, m.segment segment, m.tag tag, some (m.position p), isInline, location⟩ where
  parent := rfl
  name := rfl
  tag := rfl
  isInline := rfl
  location := rfl
  position _ _ := before_position

-- What one session accepts, its image accepts under the labels of the image.
theorem Accepted.mirrored (accepted : Accepted s c reply s₁) (mirrors : s.Mirrors m s')
    (inv : s.Invariant) (inv' : s'.Invariant)
    (watched : ∀ p, c.position = some p → m.watched p) :
    ∃ s₁', Accepted s' (m.call c) (m.reply reply) s₁' ∧ s₁.Mirrors m s₁' := by
  cases accepted with
  | @reopened segment parent existing tag p isInline location there admitted =>
    let parent' : Fin s'.tree.size := ⟨m.scope parent, mirrors.scope_lt.2 parent.isLt⟩
    have there' : s'.tree.child? parent' (m.segment segment).name = some (m.scope existing) := by
      rw [mirrors.table.child?_eq inv'.unique, there, Option.map_some]
    have admitted' := mirrors.clock p (watched p rfl) admitted
    refine ⟨_, ?_, mirrors.advance _ (m.scope existing :: s'.tree.reopenings)⟩
    rw [Relabelling.call, Relabelling.value_segment, ← mirrors.idOf_eq]
    exact Accepted.reopened (s := s') there' admitted'
  | @declared segment parent tag p isInline location fresh admitted =>
    let parent' : Fin s'.tree.size := ⟨m.scope parent, mirrors.scope_lt.2 parent.isLt⟩
    have fresh' : s'.tree.child? parent' (m.segment segment).name = none := by
      rw [mirrors.table.child?_eq inv'.unique, fresh, Option.map_none]
    have admitted' := mirrors.clock p (watched p rfl) admitted
    have next : m.scope s.tree.size = s'.tree.size := by
      rw [mirrors.table.size, mirrors.table.beyond _ (Nat.le_refl _)]
    refine ⟨_, ?_, mirrors.declare inv inv' Relabelling.carries_scope parent.isLt parent'.isLt⟩
    rw [Relabelling.call, Relabelling.value_segment, ← mirrors.idOf_eq, Relabelling.reply, next]
    exact Accepted.declared (s := s') fresh' admitted'
  | @imported target scope p d resolved admitted =>
    let scope' : Fin s'.tree.size := ⟨m.scope scope, mirrors.scope_lt.2 scope.isLt⟩
    have admitted' := mirrors.clock p (watched p rfl) admitted
    have resolved' : m.directive d = ⟨m.reference target,
        (s'.resolveFrom (m.reference target) scope' (some (m.position p))).map (·.node), scope',
        some (m.position p)⟩ := by
      rw [mirrors.resolveFrom_eq inv inv' (watched p rfl), resolved, Relabelling.directive,
        Option.map_map, Option.map_map]
      rfl
    refine ⟨_, ?_, mirrors.issue (by rw [resolved])⟩
    rw [Relabelling.call, ← mirrors.idOf_eq]
    exact Accepted.imported (s := s') resolved' admitted'
  | @answered r scope p admitted =>
    let scope' : Fin s'.tree.size := ⟨m.scope scope, mirrors.scope_lt.2 scope.isLt⟩
    have admitted' := mirrors.clock p (watched p rfl) admitted
    refine ⟨_, ?_, mirrors.advance s.tree.reopenings s'.tree.reopenings⟩
    rw [Relabelling.call, Relabelling.reply, ← mirrors.idOf_eq,
      ← mirrors.resolveFrom_eq inv inv' (watched p rfl)]
    exact (Accepted.answered admitted' : Accepted s' (.query _ (s'.tree.idOf scope') _) _ _)

end ScopedNames

import Mathlib
import ScopedNames.Proofs.Session.Call
import ScopedNames.Proofs.Session.Resolution

set_option autoImplicit false

namespace ScopedNames

variable {τ π : Type}

/-- The sessions that a new one becomes by calls, accepted or refused. -/
inductive Reachable [LT π] [DecidableLT π] (number : Nat) : Session τ π → Prop where
  | new : Reachable number (Session.new number)
  | call {s : Session τ π} (reached : Reachable number s) (c : Call τ π) :
      Reachable number (c.perform.after s)

variable [LinearOrder π]

theorem before_eq_true {a b : Option π} :
    before a b = true ↔ ∃ p q, a = some p ∧ b = some q ∧ p < q := by
  cases a <;> cases b <;> simp [before]

theorem before_trans {a b c : Option π} (first : before a b = true) (second : before b c = true) :
    before a c = true := by
  obtain ⟨p, q, rfl, rfl, less⟩ := before_eq_true.1 first
  obtain ⟨_, r, same, rfl, further⟩ := before_eq_true.1 second
  cases same
  exact before_eq_true.2 ⟨p, r, rfl, rfl, lt_trans less further⟩

variable {s s' : Session τ π} {c : Call τ π} {reply : Reply π} {p : π} {position : Option π}

def Session.Reached (s : Session τ π) (position : Option π) : Prop :=
  ∃ p last, position = some p ∧ s.lastPosition = some last ∧ p ≤ last

structure Session.Invariant (s : Session τ π) : Prop where
  unique : s.tree.UniqueNames
  scope_reached : ∀ i a, s.tree.scope? i = some a → s.Reached a.position
  scope_order : ∀ i j a b, i < j → s.tree.scope? i = some a → s.tree.scope? j = some b →
    before a.position b.position = true
  recorded_eq : s.recorded = s.issued
  import_reached : ∀ d ∈ s.issued, s.Reached d.position
  import_order : s.issued.Pairwise fun d d' => before d.position d'.position = true
  import_scope : ∀ d ∈ s.issued, d.scope < s.tree.size
  import_target : ∀ d ∈ s.issued, ∀ i, d.target = some i →
    ∃ a, s.tree.scope? i = some a ∧ before a.position d.position = true

namespace Session

theorem Reached.before (reached : s.Reached position) (admitted : s.Admits (some p)) :
    ScopedNames.before position (some p) = true := by
  obtain ⟨q, last, rfl, clock, le⟩ := reached
  obtain ⟨_, same, later⟩ := admitted
  cases same
  exact before_eq_true.2 ⟨q, p, rfl, rfl, lt_of_le_of_lt le (later last clock)⟩

theorem Reached.advance (reached : s.Reached position) (admitted : s.Admits (some p))
    (clock : s'.lastPosition = some p) : s'.Reached position := by
  obtain ⟨q, _, rfl, same, less⟩ := before_eq_true.1 (reached.before admitted)
  cases same
  exact ⟨q, p, rfl, clock, le_of_lt less⟩

theorem reached_self (clock : s.lastPosition = some p) : s.Reached (some p) :=
  ⟨p, p, rfl, clock, le_refl p⟩

theorem invariant_new (number : Nat) : (new number : Session τ π).Invariant where
  unique i j a b first := by cases i <;> cases first
  scope_reached i a there := by cases i <;> cases there
  scope_order i j a b order first := by cases i <;> cases first
  recorded_eq := rfl
  import_reached d member := by cases member
  import_order := List.Pairwise.nil
  import_scope d member := by cases member
  import_target d member := by cases member

namespace Invariant

theorem advance (inv : s.Invariant) (admitted : s.Admits (some p)) :
    Invariant { s with lastPosition := some p } where
  unique := inv.unique
  scope_reached i a there := (inv.scope_reached i a there).advance admitted rfl
  scope_order := inv.scope_order
  recorded_eq := inv.recorded_eq
  import_reached d member := (inv.import_reached d member).advance admitted rfl
  import_order := inv.import_order
  import_scope := inv.import_scope
  import_target := inv.import_target

theorem declare (inv : s.Invariant) {a : Scope τ π} (bound : a.parent < s.tree.size)
    (fresh : s.tree.child? a.parent a.name.name = none) (positioned : a.position = some p)
    (admitted : s.Admits (some p)) :
    Invariant { s with
      tree := { s.tree with toScopeTable := s.tree.add a bound }
      lastPosition := some p } where
  unique := inv.unique.add bound fresh
  scope_reached i b there := by
    rw [ScopeTable.scope?_add] at there
    split at there
    · cases there
      rw [positioned]
      exact reached_self rfl
    · exact (inv.scope_reached i b there).advance admitted rfl
  scope_order i j b b' order first second := by
    rw [ScopeTable.scope?_add] at first second
    split at first <;> split at second
    · omega
    · have range := ScopeTable.lt_size_of_scope? second
      omega
    · cases second
      rw [positioned]
      exact (inv.scope_reached i b first).before admitted
    · exact inv.scope_order i j b b' order first second
  recorded_eq := inv.recorded_eq
  import_reached d member := (inv.import_reached d member).advance admitted rfl
  import_order := inv.import_order
  import_scope d member :=
    Nat.lt_of_lt_of_le (inv.import_scope d member) (ScopeTable.extends_add bound).size_le
  import_target d member i target := by
    obtain ⟨b, there, earlier⟩ := inv.import_target d member i target
    exact ⟨b, (ScopeTable.extends_add bound).scope?_eq_some there, earlier⟩

theorem record (inv : s.Invariant) {d : Import π} (bound : d.scope < s.tree.size)
    (positioned : d.position = some p) (admitted : s.Admits (some p))
    (target : ∀ i, d.target = some i →
      ∃ a, s.tree.scope? i = some a ∧ before a.position d.position = true) :
    Invariant { s with
      issued := s.issued ++ [d]
      recorded := s.recorded ++ [d]
      lastPosition := some p } where
  unique := inv.unique
  scope_reached i a there := (inv.scope_reached i a there).advance admitted rfl
  scope_order := inv.scope_order
  recorded_eq := by rw [inv.recorded_eq]
  import_reached d' member := by
    rcases List.mem_append.1 member with old | new
    · exact (inv.import_reached d' old).advance admitted rfl
    · rw [List.mem_singleton.1 new, positioned]
      exact reached_self rfl
  import_order := by
    rw [List.pairwise_append]
    refine ⟨inv.import_order, List.pairwise_singleton _ _, ?_⟩
    intro d' old latest new
    rw [List.mem_singleton.1 new, positioned]
    exact (inv.import_reached d' old).before admitted
  import_scope d' member := by
    rcases List.mem_append.1 member with old | new
    · exact inv.import_scope d' old
    · rw [List.mem_singleton.1 new]
      exact bound
  import_target d' member := by
    rcases List.mem_append.1 member with old | new
    · exact inv.import_target d' old
    · rw [List.mem_singleton.1 new]
      exact target

end Invariant

end Session

theorem Accepted.invariant (accepted : Accepted s c reply s') (inv : s.Invariant) :
    s'.Invariant := by
  cases accepted with
  | reopened _ admitted => exact { inv.advance admitted with }
  | declared fresh admitted => exact inv.declare _ fresh rfl admitted
  | @imported target scope p d resolved admitted =>
    subst resolved
    -- A look-up at the directive's own position finds only what was declared before it.
    apply inv.record scope.isLt rfl admitted
    intro i found
    obtain ⟨f, led, rfl⟩ := Option.map_eq_some_iff.1 found
    obtain ⟨a, there, earlier, _⟩ := ScopeTable.exists_of_resolve led
    exact ⟨a, there, earlier⟩
  | answered admitted => exact inv.advance admitted

theorem Reachable.invariant {number : Nat} (reachable : Reachable number s) : s.Invariant := by
  induction reachable with
  | new => exact Session.invariant_new number
  | call _ c ih =>
    rcases Call.after_perform c _ with same | ⟨reply, accepted⟩
    · rw [same]
      exact ih
    · exact accepted.invariant ih

end ScopedNames

import ScopedNames.Proofs.Scope.Exchange
import ScopedNames.Proofs.Session.Erasure

set_option autoImplicit false

namespace ScopedNames

open Relabelling

variable {τ π : Type} [LinearOrder π] {s s₁ s₂ final : Session τ π} {t : ScopeTable τ π}
variable {i j number : Nat} {p q since : π} {segment : Segment}

theorem Session.Invariant.issued_kept (inv : s.Invariant) :
    s.issued.map (exchange s.tree.toScopeTable i j since).directive = s.issued := by
  have same : s.issued.map (exchange s.tree.toScopeTable i j since).directive =
      s.issued.map id := by
    apply List.map_congr_left
    intro d member
    apply directive_of_kept _ _ (fun _ => rfl) fun _ => rfl
    · exact (ScopeTable.trade_of_lt (inv.import_scope d member)).symm
    · cases target : d.target with
      | none => rfl
      | some k =>
        obtain ⟨a, there, _⟩ := inv.import_target d member k target
        exact congrArg some (ScopeTable.trade_of_lt (ScopeTable.lt_size_of_scope? there)).symm
  rw [same, List.map_id]

structure Declaration (τ : Type) where
  segment : Value
  enclosing : ScopeId
  tag : Option τ
  isInline : Bool

-- The session has the scopes `t` and has come to `p`; what was imported stays.
structure Session.Declared (s : Session τ π) (t : ScopeTable τ π) (p : π) (s' : Session τ π) :
    Prop where
  number : s'.tree.session = s.tree.session
  table : s'.tree.toScopeTable = t
  issued : s'.issued = s.issued
  clock : s'.lastPosition = some p

omit [LinearOrder π] in
theorem Session.Declared.idOf_eq (become : s.Declared t p s₁) (k : Nat) :
    s₁.tree.idOf k = s.tree.idOf k := by
  rw [ScopeTree.idOf, ScopeTree.idOf, become.number]

namespace Declaration

variable {d e : Declaration τ}

def call (d : Declaration τ) (p : π) : Call τ π :=
  .declareScope d.segment d.enclosing d.tag (some p) d.isInline none

def event (d : Declaration τ) (p : π) : Event τ π :=
  .scopeDeclared d.segment d.enclosing d.tag (some p) d.isInline

def scope (d : Declaration τ) (parent : Nat) (segment : Segment) (p : π) : Scope τ π :=
  ⟨parent, segment, d.tag, some p, d.isInline, none⟩

theorem exists_placed (accepted : Accepted s (d.call p) (.declared i) s₁) :
    ∃ (segment : Segment) (parent : Nat), d.segment = .text segment.name ∧
      d.enclosing = s.tree.idOf parent ∧ parent < s.tree.size ∧ s.Admits (some p) ∧
      s.tree.Placed (d.scope parent segment p) i s₁.tree.toScopeTable ∧
      s.Declared s₁.tree.toScopeTable p s₁ := by
  obtain ⟨value, enclosing, tag, isInline⟩ := d
  cases accepted with
  | @reopened segment parent _ _ _ _ _ there admitted =>
    exact ⟨segment, parent, rfl, rfl, parent.isLt, admitted, .existing there, rfl, rfl, rfl, rfl⟩
  | @declared segment parent _ _ _ _ fresh admitted =>
    exact ⟨segment, parent, rfl, rfl, parent.isLt, admitted, .fresh fresh parent.isLt, rfl, rfl,
      rfl, rfl⟩

theorem exists_accepted {parent : Nat} (written : d.segment = .text segment.name)
    (within : d.enclosing = s.tree.idOf parent) (inside : parent < s.tree.size)
    (admitted : s.Admits (some p)) (placed : s.tree.Placed (d.scope parent segment p) i t) :
    ∃ s', Accepted s (d.call p) (.declared i) s' ∧ s.Declared t p s' := by
  rw [call, written, within]
  let place : Fin s.tree.size := ⟨parent, inside⟩
  cases placed with
  | existing there =>
    have there : s.tree.child? place segment.name = some i := there
    refine ⟨_, .reopened there admitted, ?_⟩
    exact ⟨rfl, rfl, rfl, rfl⟩
  | fresh absent =>
    have absent : s.tree.child? place segment.name = none := absent
    refine ⟨_, .declared absent admitted, ?_⟩
    exact ⟨rfl, rfl, rfl, rfl⟩

theorem exchanged (first : Accepted s (d.call p) (.declared i) s₁)
    (second : Accepted s₁ (e.call q) (.declared j) s₂) (inv : s.Invariant)
    (apart : (d.enclosing, d.segment) ≠ (e.enclosing, e.segment))
    (known : s.tree.Owns e.enclosing)
    (ordered : s.tree.size ≤ i → s.tree.size ≤ j →
      ¬ (d.isInline = true ∧ e.isInline = true ∧ d.enclosing = e.enclosing)) :
    ∃ u₁ u₂, Accepted s (e.call p) (.declared (s.tree.trade i j j)) u₁ ∧
      Accepted u₁ (d.call q) (.declared (s.tree.trade i j i)) u₂ ∧
      s₂.Mirrors (exchange s.tree.toScopeTable i j q) u₂ := by
  obtain ⟨segment, parent, written, within, inside, admitted, placed, become⟩ :=
    exists_placed first
  obtain ⟨segment', parent', written', within', _, admitted', placed', become'⟩ :=
    exists_placed second
  rw [become.idOf_eq] at within'
  have order : p < q := (Session.admits_after become.clock).1 admitted'
  have inside' : parent' < s.tree.size := ScopeTree.lt_of_owns_idOf (within' ▸ known)
  have distinct : ¬ (parent = parent' ∧ segment.name = segment'.name) := by
    rintro ⟨rfl, names⟩
    exact apart (by rw [within, within', written, written', names])
  have alone : s.tree.size ≤ i → s.tree.size ≤ j →
      ¬ (d.isInline = true ∧ e.isInline = true ∧ parent = parent') := by
    rintro new new' ⟨here, there, rfl⟩
    exact ordered new new' ⟨here, there, within.trans within'.symm⟩
  obtain ⟨t₁, t₂, placed₁, placed₂, mirrors⟩ := placed.exchanged placed' inside inside'
    (carries_moved inside rfl order.le le_rfl : Carries _ _ (d.scope parent segment q))
    (carries_moved inside' rfl le_rfl order.le : Carries _ _ (e.scope parent' segment' p))
    distinct alone
  obtain ⟨u₁, accepted₁, become₁⟩ := exists_accepted written' within' inside' admitted placed₁
  obtain rfl := become₁.table
  rw [← become₁.idOf_eq] at within
  have admitted₁ := (Session.admits_after become₁.clock).2 order
  obtain ⟨u₂, accepted₂, become₂⟩ :=
    exists_accepted written within (placed₁.lt_size inside) admitted₁ placed₂
  obtain rfl := become₂.table
  refine ⟨u₁, u₂, accepted₁, accepted₂, .of_issued ?_ mirrors ?_ ?_⟩
  · rw [become₂.number, become₁.number, become'.number, become.number]
  · rw [become₂.issued, become₁.issued, become'.issued, become.issued, inv.issued_kept]
  · exact Session.Mirrors.clock_after become'.clock become₂.clock

end Declaration

namespace Session

variable {before rest : List (Event τ π × Reply π)} {d e : Declaration τ}

end Session

end ScopedNames

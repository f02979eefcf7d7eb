import Mathlib
import ScopedNames.Proofs.Scope.Addition
import ScopedNames.Session.Import

set_option autoImplicit false

namespace ScopedNames

/--
How the scopes, names, tags and positions of one session are called in another. The two need to
look alike from the watched positions only.
-/
structure Relabelling (τ π τ' π' : Type) [LinearOrder π] [LinearOrder π'] where
  scope : Equiv.Perm Nat
  segment : Segment → Segment
  tag : Option τ → Option τ'
  position : π → π'
  watched : π → Prop
  scope_root : scope root = root
  segment_injective : Function.Injective segment
  position_mono : StrictMono position

variable {τ π τ' π' : Type} [LinearOrder π] [LinearOrder π'] {m : Relabelling τ π τ' π'}
variable {i j q : Nat} {a : Scope τ π} {b : Scope τ' π'} {now : π} {s : Segment}
variable {names : List Segment}

namespace Relabelling

def unchanged : Relabelling τ π τ π where
  scope := 1
  segment s := s
  tag t := t
  position p := p
  watched _ := True
  scope_root := Equiv.Perm.one_apply root
  segment_injective := Function.injective_id
  position_mono := strictMono_id

theorem scope_eq_root : m.scope i = root ↔ i = root := by
  rw [← m.scope.injective.eq_iff (a := i), m.scope_root]

theorem before_position {a b : π} :
    before (some (m.position a)) (some (m.position b)) = before (some a) (some b) := by
  simp only [before, m.position_mono.lt_iff_lt]

/-- What a relabelling makes of a scope; of its position only what watchers see of it. -/
structure Carries (m : Relabelling τ π τ' π') (a : Scope τ π) (b : Scope τ' π') : Prop where
  parent : b.parent = m.scope a.parent
  name : b.name = m.segment a.name
  tag : b.tag = m.tag a.tag
  isInline : b.isInline = a.isInline
  location : b.location = a.location
  position : ∀ now, m.watched now →
    before b.position (some (m.position now)) = before a.position (some now)

end Relabelling

namespace ScopeTable

/-- The same scopes under other labels; beside that, only inline members keep their order. -/
structure Mirrors (m : Relabelling τ π τ' π') (t : ScopeTable τ π) (t' : ScopeTable τ' π') :
    Prop where
  size : t'.size = t.size
  beyond : ∀ i, t.size ≤ i → m.scope i = i
  scopes : ∀ i a, t.scope? i = some a → ∃ b, t'.scope? (m.scope i) = some b ∧ m.Carries a b
  inline : ∀ i, t'.inlineChildren (m.scope i) = (t.inlineChildren i).map m.scope

namespace Mirrors

variable {t : ScopeTable τ π} {t' : ScopeTable τ' π'}

theorem scope_lt (mirrors : t.Mirrors m t') : m.scope i < t.size ↔ i < t.size := by
  constructor
  · intro inside
    by_contra outside
    rw [mirrors.beyond i (Nat.le_of_not_lt outside)] at inside
    exact outside inside
  · intro inside
    by_contra outside
    -- An image past the end is its own image, and then the scope was past the end.
    have twice := mirrors.beyond (m.scope i) (Nat.le_of_not_lt outside)
    rw [m.scope.injective twice] at outside
    exact outside inside

theorem scope_eq_size (mirrors : t.Mirrors m t') : m.scope i = t.size ↔ i = t.size := by
  rw [← m.scope.injective.eq_iff (a := i), mirrors.beyond t.size (Nat.le_refl _)]

theorem exists_original (mirrors : t.Mirrors m t') (there : t'.scope? (m.scope i) = some b) :
    ∃ a, t.scope? i = some a ∧ m.Carries a b := by
  have inside : i < t.size := by
    rw [← mirrors.scope_lt, ← mirrors.size]
    exact lt_size_of_scope? there
  have inner : i ≠ root := by
    rintro rfl
    rw [m.scope_root] at there
    cases there
  obtain ⟨a, original⟩ := exists_scope inner inside
  obtain ⟨b', image, carries⟩ := mirrors.scopes i a original
  rw [there] at image
  cases image
  exact ⟨a, original, carries⟩

theorem absent (mirrors : t.Mirrors m t') (missing : t.scope? i = none) :
    t'.scope? (m.scope i) = none := by
  rw [Option.eq_none_iff_forall_ne_some]
  intro b there
  obtain ⟨a, original, _⟩ := mirrors.exists_original there
  rw [missing] at original
  cases original

theorem chain_eq (mirrors : t.Mirrors m t') : t'.chain (m.scope i) = (t.chain i).map m.scope := by
  induction i using chain_induction t with
  | bare i missing => rw [chain_of_none missing, chain_of_none (mirrors.absent missing)]; rfl
  | nested i a there ih =>
    obtain ⟨b, image, carries⟩ := mirrors.scopes i a there
    rw [chain_of_some there, chain_of_some image, carries.parent, ih, List.map_cons]

theorem encloses_eq (mirrors : t.Mirrors m t') :
    t'.encloses (m.scope i) (m.scope j) = t.encloses i j := by
  rw [Bool.eq_iff_iff, encloses_iff, encloses_iff, mirrors.chain_eq,
    List.mem_map_of_injective m.scope.injective]

theorem isVisible_eq (mirrors : t.Mirrors m t') (watched : m.watched now) :
    t'.isVisible (some (m.position now)) (m.scope i) = t.isVisible (some now) i := by
  cases there : t.scope? i with
  | none =>
    rw [isVisible, isVisible, there, mirrors.absent there, Bool.eq_iff_iff, beq_iff_eq, beq_iff_eq,
      Relabelling.scope_eq_root]
  | some a =>
    obtain ⟨b, image, carries⟩ := mirrors.scopes i a there
    simp only [isVisible, there, image]
    exact carries.position now watched

theorem child?_eq (mirrors : t.Mirrors m t') (unique : t'.UniqueNames) :
    t'.child? (m.scope i) (m.segment s).name = (t.child? i s.name).map m.scope := by
  cases found : t.child? i s.name with
  | some j =>
    obtain ⟨a, there, parent, named⟩ := exists_of_child? found
    obtain ⟨b, image, carries⟩ := mirrors.scopes j a there
    rw [Option.map_some, unique.child?_eq_some]
    exact ⟨b, image, by rw [carries.parent, parent],
      by rw [carries.name, Segment.ext_name (s := a.name) (t := s) named]⟩
  | none =>
    rw [Option.map_none, child?_eq_none]
    intro k b image parent named
    obtain ⟨j, rfl⟩ := m.scope.surjective k
    obtain ⟨a, there, carries⟩ := mirrors.exists_original image
    rw [carries.parent] at parent
    rw [carries.name] at named
    have same := m.segment_injective (Segment.ext_name named)
    exact child?_eq_none.1 found j a there (m.scope.injective parent) (by rw [same])

theorem member?_eq (mirrors : t.Mirrors m t') (unique : t'.UniqueNames) (watched : m.watched now) :
    t'.member? (t'.isVisible (some (m.position now))) (m.scope i) (m.segment s).name =
      (t.member? (t.isVisible (some now)) i s.name).map m.scope := by
  induction i using inline_induction t with
  | step i ih =>
    rw [ScopeTable.member?_eq, ScopeTable.member?_eq, mirrors.child?_eq unique, mirrors.inline,
      List.findSome?_map, Option.map_or, List.map_findSome?]
    congr 1
    · cases t.child? i s.name with
      | none => rfl
      | some j =>
        simp only [Option.map_some, Option.filter_some, mirrors.isVisible_eq watched]
        split <;> rfl
    · apply findSome?_congr
      intro j member
      simp only [Function.comp_apply, mirrors.isVisible_eq watched, ih j member]
      split <;> rfl

theorem follow_eq (mirrors : t.Mirrors m t') (unique : t'.UniqueNames) (watched : m.watched now) :
    t'.follow (t'.isVisible (some (m.position now))) (m.scope i)
        ((names.map m.segment).map (·.name)) =
      (t.follow (t.isVisible (some now)) i (names.map (·.name))).map m.scope := by
  induction names generalizing i with
  | nil => rfl
  | cons s names ih =>
    simp only [List.map_cons, follow, mirrors.member?_eq unique watched]
    cases t.member? (t.isVisible (some now)) i s.name with
    | none => rfl
    | some j => exact ih

theorem empty (kept : ∀ i, m.scope i = i) :
    (ScopeTable.empty : ScopeTable τ π).Mirrors m (ScopeTable.empty : ScopeTable τ' π') where
  size := rfl
  beyond i _ := kept i
  scopes i a there := by cases i <;> cases there
  inline i := by
    rw [inlineChildren_empty, inlineChildren_empty]
    rfl

theorem add (mirrors : t.Mirrors m t') (bound : a.parent < t.size) (bound' : b.parent < t'.size)
    (carries : m.Carries a b) : (t.add a bound).Mirrors m (t'.add b bound') where
  size := by rw [add_size, add_size, mirrors.size]
  beyond i outside := by
    rw [add_size] at outside
    exact mirrors.beyond i (Nat.le_of_succ_le outside)
  scopes i a' there := by
    rw [scope?_add] at there
    rw [scope?_add, mirrors.size]
    by_cases new : i = t.size
    · rw [if_pos new] at there
      cases there
      exact ⟨b, if_pos (mirrors.scope_eq_size.2 new), carries⟩
    · rw [if_neg new] at there
      rw [if_neg fun same => new (mirrors.scope_eq_size.1 same)]
      exact mirrors.scopes i a' there
  inline i := by
    rw [inlineChildren_add, inlineChildren_add, mirrors.inline, carries.parent, carries.isInline,
      List.map_append, mirrors.size]
    simp only [m.scope.injective.eq_iff]
    split
    · rw [List.map_singleton, mirrors.beyond t.size (Nat.le_refl _)]
    · rfl

end Mirrors

end ScopeTable

end ScopedNames

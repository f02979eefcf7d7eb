import ScopedNames.Proofs.Session.Opening
import ScopedNames.Proofs.Session.Relabelling
import ScopedNames.Proofs.Session.TimeTravel

set_option autoImplicit false

namespace ScopedNames

variable {τ π τ' π' : Type} [LinearOrder π] [LinearOrder π'] {m : Relabelling τ π τ' π'}
variable {i q : Nat} {r : Reference} {now p : π} {via : Via} {starts : List Nat} {found : Found}

def Relabelling.verdict (m : Relabelling τ π τ' π') (v : Verdict τ) : Verdict τ' :=
  ⟨m.scopeId v.node, m.tag v.tag, v.via, m.scopeId v.start⟩

theorem ScopeTable.Mirrors.searchFrom_eq {t : ScopeTable τ π} {t' : ScopeTable τ' π'}
    (mirrors : t.Mirrors m t') (unique : t'.UniqueNames) (watched : m.watched now) :
    t'.searchFrom (m.reference r).names (some (m.position now)) via (starts.map m.scope) =
      (t.searchFrom r.names (some now) via starts).map m.found := by
  simp only [searchFrom, reach_eq_follow, List.findSome?_map, List.map_findSome?]
  apply findSome?_congr
  intro start _
  rw [Function.comp_apply, Function.comp_apply, Relabelling.names_reference, Reference.names,
    mirrors.follow_eq unique watched]
  cases t.follow (t.isVisible (some now)) start (r.segments.map (·.name)) <;> rfl

theorem eraseDups_map {f : Nat → Nat} (injective : Function.Injective f) :
    ∀ xs : List Nat, (xs.map f).eraseDups = xs.eraseDups.map f
  | [] => rfl
  | x :: xs => by
    have same : ((fun y => !y == f x) ∘ f) = fun y => !y == x := by
      funext y
      rw [Function.comp_apply, Bool.eq_iff_iff]
      simp [injective.eq_iff]
    rw [List.map_cons, List.eraseDups_cons, List.eraseDups_cons, List.map_cons, List.filter_map,
      same, eraseDups_map injective]
termination_by xs => xs.length
decreasing_by exact Nat.lt_succ_of_le (List.length_filter_le _ _)

namespace Session

theorem widened_map {f : Nat → Nat} (injective : Function.Injective f) (already : List Nat)
    (target : Option Nat) :
    widened (already.map f) (target.map f) = (widened already target).map f := by
  cases target with
  | none => rfl
  | some i =>
    rw [Option.map_some, widened, widened]
    simp only [List.mem_map_of_injective injective]
    split
    · rfl
    · rw [List.map_append, List.map_singleton]

structure Mirrors (m : Relabelling τ π τ' π') (s : Session τ π) (s' : Session τ' π') : Prop where
  number : s'.tree.session = s.tree.session
  table : s.tree.toScopeTable.Mirrors m s'.tree.toScopeTable
  opened : ∀ q now, m.watched now →
    s'.opened (m.scope q) (some (m.position now)) = (s.opened q (some now)).map m.scope
  clock : ∀ p, m.watched p → s.Admits (some p) → s'.Admits (some (m.position p))

variable {s : Session τ π} {s' : Session τ' π'}

namespace Mirrors

theorem new (kept : ∀ i, m.scope i = i) (number : Nat) :
    (Session.new number : Session τ π).Mirrors m (Session.new number : Session τ' π') where
  number := rfl
  table := .empty kept
  opened _ _ _ := rfl
  clock p _ _ := ⟨m.position p, rfl, fun _ known => nomatch known⟩

theorem of_issued (number : s'.tree.session = s.tree.session)
    (table : s.tree.toScopeTable.Mirrors m s'.tree.toScopeTable)
    (issued : s'.issued = s.issued.map m.directive)
    (clock : ∀ p, m.watched p → s.Admits (some p) → s'.Admits (some (m.position p))) :
    s.Mirrors m s' where
  number := number
  table := table
  opened q now _ := by
    have active : ((fun d => s'.tree.encloses d.scope (m.scope q) &&
        before d.position (some (m.position now))) ∘ m.directive) =
          fun d => s.tree.encloses d.scope q && before d.position (some now) := by
      funext d
      have around : s'.tree.encloses (m.directive d).scope (m.scope q) =
          s.tree.encloses d.scope q := table.encloses_eq
      rw [Function.comp_apply, around, Relabelling.directive]
      cases d.position with
      | none => rfl
      | some p => rw [Option.map_some, Relabelling.before_position]
    have targets : ((fun d : Import π' => d.target) ∘ m.directive) =
        fun d => d.target.map m.scope := rfl
    rw [Session.opened, Session.opened, issued, List.filter_map, active, List.filterMap_map,
      targets, ← List.map_filterMap, eraseDups_map m.scope.injective]
  clock := clock

theorem idOf_eq (mirrors : s.Mirrors m s') (i : Nat) :
    s'.tree.idOf (m.scope i) = m.scopeId (s.tree.idOf i) := by
  rw [ScopeTree.idOf, Relabelling.scopeId_idOf, mirrors.number]

theorem scope_lt (mirrors : s.Mirrors m s') : m.scope i < s'.tree.size ↔ i < s.tree.size := by
  rw [mirrors.table.size, mirrors.table.scope_lt]

theorem starts_eq (mirrors : s.Mirrors m s') :
    s'.starts (m.reference r) (m.scope q) = (s.starts r q).map m.scope := by
  rw [starts, starts, Relabelling.rooted_reference]
  split
  · rw [List.map_singleton, m.scope_root]
  · exact mirrors.table.chain_eq

theorem resolveFrom_eq (mirrors : s.Mirrors m s') (inv : s.Invariant) (inv' : s'.Invariant)
    (watched : m.watched now) :
    s'.resolveFrom (m.reference r) (m.scope q) (some (m.position now)) =
      (s.resolveFrom r q (some now)).map m.found := by
  rw [inv.resolveFrom_eq, inv'.resolveFrom_eq, mirrors.starts_eq, mirrors.opened q now watched,
    mirrors.table.searchFrom_eq inv'.unique watched,
    mirrors.table.searchFrom_eq inv'.unique watched,
    Relabelling.rooted_reference, Option.map_or]

theorem verdict_eq (mirrors : s.Mirrors m s') (inside : s.tree.scope? found.node ≠ none) :
    s'.verdict (m.found found) = m.verdict (s.verdict found) := by
  obtain ⟨a, there⟩ := Option.ne_none_iff_exists'.1 inside
  obtain ⟨b, image, carries⟩ := mirrors.table.scopes found.node a there
  simp only [verdict, Relabelling.found, Relabelling.verdict, mirrors.idOf_eq, there, image,
    Option.bind_some, carries.tag]

theorem owns_iff (mirrors : s.Mirrors m s') {id : ScopeId} :
    s'.tree.Owns (m.scopeId id) ↔ s.tree.Owns id := by
  constructor
  · rintro ⟨j, same⟩
    obtain ⟨i, image⟩ := m.scope.surjective j
    have inside : i < s.tree.size := mirrors.scope_lt.1 (image ▸ j.isLt)
    refine ⟨⟨i, inside⟩, Relabelling.scopeId_inj (m := m) ?_⟩
    rw [← mirrors.idOf_eq, image, same]
  · rintro ⟨i, rfl⟩
    exact ⟨⟨m.scope i, mirrors.scope_lt.2 i.isLt⟩, mirrors.idOf_eq i⟩

theorem verdictAt_eq (mirrors : s.Mirrors m s') (inv : s.Invariant) (inv' : s'.Invariant)
    (watched : m.watched now) (id : ScopeId) :
    s'.verdictAt (m.reference r) (m.scopeId id) (some (m.position now)) =
      m.outcome (·.map m.verdict) (s.verdictAt r id (some now)) := by
  by_cases known : s.tree.Owns id
  · obtain ⟨q, rfl⟩ := known
    rw [← mirrors.idOf_eq, verdictAt_idOf _ (mirrors.scope_lt.2 q.isLt), verdictAt_idOf r q.isLt,
      mirrors.resolveFrom_eq inv inv' watched]
    cases resolved : s.resolveFrom r q (some now) with
    | none => rfl
    | some found =>
      obtain ⟨a, there, _⟩ := ScopeTable.exists_of_resolve resolved
      have inside : s.tree.scope? found.node ≠ none := by simp [there]
      simp only [Option.map_some, Relabelling.outcome, mirrors.verdict_eq inside]
  · rw [verdictAt_unknown known, verdictAt_unknown fun owned => known (mirrors.owns_iff.1 owned)]
    rfl

end Mirrors

end Session

end ScopedNames

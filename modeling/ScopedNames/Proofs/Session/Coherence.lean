import ScopedNames.Proofs.Session.Invariant

set_option autoImplicit false

namespace ScopedNames

variable {τ π : Type} {s s' : Session τ π}

namespace Session

/-- What one session has is in the other as it was. -/
structure Keeps (s s' : Session τ π) : Prop where
  number : s'.tree.session = s.tree.session
  scopes : s.tree.Extends s'.tree.toScopeTable
  reopened : ∀ i, s.tree.reopened i ≤ s'.tree.reopened i
  issued : s.issued <+: s'.issued
  recorded : s.recorded <+: s'.recorded

namespace Keeps

theorem refl (s : Session τ π) : s.Keeps s :=
  ⟨rfl, .refl _, fun _ => Nat.le_refl _, List.prefix_rfl, List.prefix_rfl⟩

theorem trans {s'' : Session τ π} (first : s.Keeps s') (second : s'.Keeps s'') : s.Keeps s'' where
  number := second.number.trans first.number
  scopes := first.scopes.trans second.scopes
  reopened i := Nat.le_trans (first.reopened i) (second.reopened i)
  issued := first.issued.trans second.issued
  recorded := first.recorded.trans second.recorded

theorem idOf_eq (kept : s.Keeps s') (i : Nat) : s'.tree.idOf i = s.tree.idOf i := by
  rw [ScopeTree.idOf, ScopeTree.idOf, kept.number]

end Keeps

end Session

variable [LinearOrder π] {c : Call τ π} {reply : Reply π} {number i j : Nat}

def ScopeTable.position? (t : ScopeTable τ π) (i : Nat) : Option π :=
  (t.scope? i).bind (·.position)

namespace Session

/-- Ids, child tables, positions and directives fit together. -/
structure Coherent (s : Session τ π) (number : Nat) : Prop where
  ids : ∀ id, (s.tree.find? id).isSome ↔ ∃ i < s.tree.size, id = ⟨number, i⟩
  id_table : ∀ id i, s.tree.find? id = some i ↔ s.tree.idOf i = id
  inner : ∀ i < s.tree.size, i ≠ root → ∃ a, s.tree.scope? i = some a
  stored : ∀ i a, s.tree.scope? i = some a → s.tree.child? a.parent a.name.name = some i
  parent_first : ∀ i a, s.tree.scope? i = some a → a.parent < i ∧
    (a.parent ≠ root → before (s.tree.position? a.parent) (s.tree.position? i) = true)
  rooted : ∀ i < s.tree.size,
    (s.tree.chain i).getLast? = some root ∧ (s.tree.chain i).Pairwise (· > ·)
  listed : ∀ i j, j ∈ s.tree.children i ↔ ∃ a, s.tree.scope? j = some a ∧ a.parent = i
  siblings : ∀ i, ((s.tree.children i).map s.tree.name?).Nodup
  children_order : ∀ i, (s.tree.children i).Pairwise fun j k =>
    j < k ∧ before (s.tree.position? j) (s.tree.position? k) = true
  scope_reached : ∀ i a, s.tree.scope? i = some a → s.Reached a.position
  import_reached : ∀ d ∈ s.issued, s.Reached d.position
  import_order : s.issued.Pairwise fun d d' => before d.position d'.position = true
  imports_in : ∀ i, importsIn s.recorded i = s.issued.filter (·.scope == i)
  import_target : ∀ d ∈ s.issued, ∀ i, d.target = some i →
    i < s.tree.size ∧ i ≠ root ∧ before (s.tree.position? i) d.position = true

namespace Invariant

theorem position_order (inv : s.Invariant) {a b : Scope τ π} (order : i < j)
    (first : s.tree.scope? i = some a) (second : s.tree.scope? j = some b) :
    before (s.tree.position? i) (s.tree.position? j) = true := by
  simp only [ScopeTable.position?, first, second, Option.bind_some]
  exact inv.scope_order i j a b order first second

theorem siblings_nodup (inv : s.Invariant) (i : Nat) :
    ((s.tree.children i).map s.tree.name?).Nodup := by
  rw [List.nodup_iff_pairwise_ne, List.pairwise_map]
  refine (List.Pairwise.and_mem.1 (s.tree.children_pairwise i)).imp ?_
  rintro j k ⟨first, second, order⟩ same
  obtain ⟨a, there, rfl⟩ := ScopeTable.mem_children_iff.1 first
  obtain ⟨b, other, parent⟩ := ScopeTable.mem_children_iff.1 second
  simp only [ScopeTable.name?, there, other, Option.map_some, Option.some.injEq] at same
  have equal := inv.unique j k a b there other parent.symm (Segment.ext_name same)
  omega

theorem children_order (inv : s.Invariant) (i : Nat) :
    (s.tree.children i).Pairwise fun j k =>
      j < k ∧ before (s.tree.position? j) (s.tree.position? k) = true := by
  refine (List.Pairwise.and_mem.1 (s.tree.children_pairwise i)).imp ?_
  rintro j k ⟨first, second, order⟩
  obtain ⟨a, there, _⟩ := ScopeTable.mem_children_iff.1 first
  obtain ⟨b, other, _⟩ := ScopeTable.mem_children_iff.1 second
  exact ⟨order, inv.position_order order there other⟩

theorem parent_first (inv : s.Invariant) {a : Scope τ π} (there : s.tree.scope? i = some a) :
    a.parent < i ∧
      (a.parent ≠ root → before (s.tree.position? a.parent) (s.tree.position? i) = true) := by
  have order := ScopeTable.parent_lt there
  refine ⟨order, ?_⟩
  intro inner
  obtain ⟨b, outer⟩ := ScopeTable.exists_scope inner
    (Nat.lt_trans order (ScopeTable.lt_size_of_scope? there))
  exact inv.position_order order outer there

theorem coherent (inv : s.Invariant) (numbered : s.tree.session = number) : s.Coherent number where
  ids id := by
    rw [Option.isSome_iff_exists]
    constructor
    · rintro ⟨i, found⟩
      refine ⟨i, i.isLt, ?_⟩
      rw [← ScopeTree.find?_eq_some.1 found, ScopeTree.idOf, numbered]
    · rintro ⟨i, bound, rfl⟩
      refine ⟨⟨i, bound⟩, ScopeTree.find?_eq_some.2 ?_⟩
      rw [ScopeTree.idOf, numbered]
  id_table id i := ScopeTree.find?_eq_some
  inner i bound positive := ScopeTable.exists_scope positive bound
  stored i a there := inv.unique.child?_eq_some.2 ⟨a, there, rfl, rfl⟩
  parent_first i a there := inv.parent_first there
  rooted i bound := ⟨ScopeTable.getLast?_chain bound, s.tree.chain_pairwise i⟩
  listed i j := ScopeTable.mem_children_iff
  siblings := inv.siblings_nodup
  children_order := inv.children_order
  scope_reached := inv.scope_reached
  import_reached := inv.import_reached
  import_order := inv.import_order
  imports_in i := by rw [importsIn, inv.recorded_eq]
  import_target d member i target := by
    obtain ⟨a, there, earlier⟩ := inv.import_target d member i target
    have order := ScopeTable.parent_lt there
    refine ⟨ScopeTable.lt_size_of_scope? there, Nat.ne_of_gt (Nat.zero_lt_of_lt order), ?_⟩
    simpa only [ScopeTable.position?, there, Option.bind_some] using earlier

end Invariant

end Session

theorem Accepted.keeps (accepted : Accepted s c reply s') : s.Keeps s' := by
  cases accepted with
  | reopened =>
    refine ⟨rfl, .refl _, ?_, List.prefix_rfl, List.prefix_rfl⟩
    intro i
    exact List.Sublist.count_le i (List.sublist_cons_self _ _)
  | @declared _ parent =>
    exact ⟨rfl, ScopeTable.extends_add parent.isLt, fun _ => Nat.le_refl _, List.prefix_rfl,
      List.prefix_rfl⟩
  | imported =>
    exact ⟨rfl, .refl _, fun _ => Nat.le_refl _, List.prefix_append _ _, List.prefix_append _ _⟩
  | answered =>
    exact ⟨rfl, .refl _, fun _ => Nat.le_refl _, List.prefix_rfl, List.prefix_rfl⟩

theorem Reachable.session_eq (reachable : Reachable number s) : s.tree.session = number := by
  induction reachable with
  | new => rfl
  | call _ c ih =>
    rcases Call.after_perform c _ with same | ⟨reply, accepted⟩
    · rw [same]
      exact ih
    · exact accepted.keeps.number.trans ih

/-- Whatever the calls, a session is coherent, and a further one that is accepted only adds. -/
theorem Reachable.coherent_and_kept (reachable : Reachable number s) :
    s.Coherent number ∧ ∀ (c : Call τ π) (reply : Reply π) (s' : Session τ π),
      c.perform s = .ok reply s' → s.Keeps s' ∧ s'.lastPosition = c.position := by
  refine ⟨reachable.invariant.coherent reachable.session_eq, ?_⟩
  intro c reply s' performed
  have accepted := Call.perform_eq_ok.1 performed
  exact ⟨accepted.keeps, accepted.lastPosition_eq⟩

theorem Reachable.coherent_and_kept_of_import :
    ∃ s : Session Nat Int, Reachable 0 s ∧ s.issued.map (·.target) = [some 1] ∧ s.Coherent 0 := by
  let declared : Call Nat Int := .declareScope (.text "A") ⟨0, 0⟩ (some 7) (some 1) false none
  let opening : Call Nat Int :=
    .issueImport ⟨[⟨"A", by decide, by decide⟩], true, by simp⟩ ⟨0, 0⟩ (some 2)
  have reachable : Reachable 0 (opening.perform.after (declared.perform.after (Session.new 0))) :=
    .call (.call .new declared) opening
  refine ⟨_, reachable, ?_, reachable.coherent_and_kept.1⟩
  cbv

end ScopedNames

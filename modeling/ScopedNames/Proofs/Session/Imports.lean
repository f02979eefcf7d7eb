import ScopedNames.Proofs.Session.Invariant

set_option autoImplicit false

namespace ScopedNames

theorem takeWhile_eq_filter {α : Type} {p : α → Bool} {xs : List α}
    (closed : xs.Pairwise fun a b => p b = true → p a = true) : xs.takeWhile p = xs.filter p := by
  induction xs with
  | nil => rfl
  | cons x xs ih =>
    obtain ⟨first, rest⟩ := List.pairwise_cons.1 closed
    by_cases holds : p x = true
    · rw [List.takeWhile_cons_of_pos holds, List.filter_cons_of_pos holds, ih rest]
    · rw [List.takeWhile_cons_of_neg holds, List.filter_cons_of_neg holds]
      symm
      rw [List.filter_eq_nil_iff]
      intro y member later
      exact holds (first y member later)

theorem flatMap_filter_perm {α : Type} (xs : List α) (key : α → Nat) (p : α → Bool)
    {keys : List Nat} (distinct : keys.Nodup) :
    (keys.flatMap fun k => xs.filter fun x => key x == k && p x).Perm
      (xs.filter fun x => keys.contains (key x) && p x) := by
  induction keys with
  | nil => simp
  | cons k keys ih =>
    obtain ⟨apart, distinct⟩ := List.nodup_cons.1 distinct
    let all := xs.filter fun x => (k :: keys).contains (key x) && p x
    -- What has one of the keys is what has the first one together with the rest.
    have here : (xs.filter fun x => key x == k && p x) = all.filter fun x => key x == k := by
      rw [List.filter_filter]
      apply List.filter_congr
      intro x _
      by_cases same : key x = k
      · simp [same]
      · rw [beq_false_of_ne same, Bool.false_and, Bool.false_and]
    have there : (xs.filter fun x => keys.contains (key x) && p x) =
        all.filter fun x => !(key x == k) := by
      rw [List.filter_filter]
      apply List.filter_congr
      intro x _
      by_cases same : key x = k
      · simp [same, apart]
      · simp [same]
    rw [List.flatMap_cons, here]
    apply (List.Perm.append_left _ (ih distinct)).trans
    rw [there]
    exact List.filter_append_perm _ all

variable {τ π : Type}

def Import.opening (d : Import π) : Option (π × Nat) :=
  match d.position, d.target with
  | some p, some target => some (p, target)
  | _, _ => none

theorem Import.opening_eq_some {d : Import π} {a : π × Nat} :
    d.opening = some a ↔ d.position = some a.1 ∧ d.target = some a.2 := by
  obtain ⟨path, target, scope, position⟩ := d
  obtain ⟨p, i⟩ := a
  cases position <;> cases target <;> simp [opening]

variable [LinearOrder π] {s : Session τ π} {now : Option π}

theorem eq_or_lt_or_gt {xs : List (π × Nat)} (increasing : xs.Pairwise fun a b => a.1 < b.1)
    {a b : π × Nat} (first : a ∈ xs) (second : b ∈ xs) : a = b ∨ a.1 < b.1 ∨ b.1 < a.1 := by
  rw [List.pairwise_iff_getElem] at increasing
  obtain ⟨i, inside, rfl⟩ := List.getElem_of_mem first
  obtain ⟨j, within, rfl⟩ := List.getElem_of_mem second
  rcases Nat.lt_trichotomy i j with less | same | greater
  · exact .inr (.inl (increasing i j inside within less))
  · subst same
    exact .inl rfl
  · exact .inr (.inr (increasing j i within inside greater))

namespace ScopeTable

variable {t : ScopeTable τ π} {xs sorted : List (π × Nat)}

theorem importLE_eq (increasing : sorted.Pairwise fun a b => a.1 < b.1) {a b : π × Nat}
    (first : a ∈ sorted) (second : b ∈ sorted) : t.importLE a b = decide (a.1 ≤ b.1) := by
  rcases eq_or_lt_or_gt increasing first second with rfl | less | greater
  · simp [importLE]
  · simp [importLE, less, le_of_lt less]
  · simp [importLE, greater, not_lt_of_gt greater]

theorem mergeSort_eq (increasing : sorted.Pairwise fun a b => a.1 < b.1)
    (same : xs.Perm sorted) : xs.mergeSort t.importLE = sorted := by
  -- Positions are all different here, so the order that breaks ties by paths never does.
  let byPosition (a b : π × Nat) : Bool := decide (a.1 ≤ b.1)
  have compared : ∀ a ∈ xs, ∀ b ∈ xs, t.importLE a b = byPosition (id a) (id b) := by
    intro a first b second
    exact importLE_eq increasing (same.subset first) (same.subset second)
  have ordered : (xs.mergeSort byPosition).Pairwise fun a b => byPosition a b = true := by
    apply List.pairwise_mergeSort
    · intro a b c first second
      exact decide_eq_true (le_trans (of_decide_eq_true first) (of_decide_eq_true second))
    · intro a b
      simpa [byPosition] using le_total a.1 b.1
  have mapped := List.map_mergeSort compared
  rw [List.map_id, List.map_id] at mapped
  rw [mapped]
  refine List.Perm.eq_of_pairwise ?_ ordered ?_ ((List.mergeSort_perm xs _).trans same)
  · intro a b first second forth back
    have forth := of_decide_eq_true forth
    have back := of_decide_eq_true back
    have first := same.subset ((List.mergeSort_perm xs _).subset first)
    rcases eq_or_lt_or_gt increasing first second with equal | less | greater
    · exact equal
    · exact absurd less (not_lt_of_ge back)
    · exact absurd greater (not_lt_of_ge forth)
  · exact increasing.imp fun less => decide_eq_true (le_of_lt less)

end ScopeTable

namespace Session

-- What directives around a scope have opened by a position, in the order they were issued.
def opened (s : Session τ π) (scope : Nat) (now : Option π) : List Nat :=
  ((s.issued.filter fun d => s.tree.encloses d.scope scope && before d.position now).filterMap
    (·.target)).eraseDups

namespace Invariant

theorem issuedBefore_eq (inv : s.Invariant) (scope : Nat) :
    issuedBefore s.recorded now scope =
      (s.issued.filter fun d => d.scope == scope && before d.position now).filterMap
        Import.opening := by
  -- Stopping at the first late directive loses none: those after it are later still.
  have closed : (importsIn s.issued scope).Pairwise fun d d' =>
      before d'.position now = true → before d.position now = true :=
    (inv.import_order.filter _).imp fun order later => before_trans order later
  rw [issuedBefore, inv.recorded_eq, takeWhile_eq_filter closed, importsIn, List.filter_filter]
  congr 2
  funext d
  exact Bool.and_comm _ _

theorem activeImports_eq (inv : s.Invariant) (q : Nat) :
    s.tree.activeImports s.recorded (s.tree.chain q) now = s.opened q now := by
  let around := s.issued.filter fun d => s.tree.encloses d.scope q && before d.position now
  have increasing : (around.filterMap Import.opening).Pairwise fun a b => a.1 < b.1 := by
    rw [List.pairwise_filterMap]
    refine (inv.import_order.filter _).imp ?_
    intro d d' order a first b second
    rw [(Import.opening_eq_some.1 first).1, (Import.opening_eq_some.1 second).1] at order
    exact of_decide_eq_true order
  have same : ((s.tree.chain q).flatMap (issuedBefore s.recorded now)).Perm
      (around.filterMap Import.opening) := by
    have parts := flatMap_filter_perm s.issued (·.scope) (fun d => before d.position now)
      (s.tree.chain_nodup q)
    have each : issuedBefore s.recorded now = fun scope =>
        (s.issued.filter fun d => d.scope == scope && before d.position now).filterMap
          Import.opening := funext inv.issuedBefore_eq
    rw [each, ← List.filterMap_flatMap]
    exact parts.filterMap _
  have targets : (around.filterMap Import.opening).map (·.2) = around.filterMap (·.target) := by
    rw [List.map_filterMap]
    apply List.filterMap_congr
    intro d member
    have early := (List.mem_filter.1 member).2
    rw [Bool.and_eq_true] at early
    obtain ⟨p, _, positioned, _⟩ := before_eq_true.1 early.2
    cases target : d.target <;> simp [Import.opening, positioned, target]
  rw [ScopeTable.activeImports, ScopeTable.mergeSort_eq increasing same, targets]
  rfl

end Invariant

end Session

end ScopedNames

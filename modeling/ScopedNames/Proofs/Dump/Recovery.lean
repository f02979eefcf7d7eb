import ScopedNames.Dump.Document
import ScopedNames.Proofs.Scope.Qualified
import ScopedNames.Proofs.Scope.Records

set_option autoImplicit false

namespace ScopedNames

def Value.IsKept (v : Value) : Prop := (∃ n, v = .int n) ∨ ∃ text, v = .text text

theorem ScopeId.text_injective {number a b : Int}
    (same : (ScopeId.mk number a).text = (ScopeId.mk number b).text) : a = b := by
  simp only [ScopeId.text, String.append_assoc, String.append_right_inj] at same
  exact Int.repr_injective same

namespace Document

variable {α : Type} [Datum α] {x y : Option α}

theorem ofValue_injective {v w : Value} (kept : v.IsKept) (kept' : w.IsKept)
    (same : ofValue v = ofValue w) : v = w := by
  rcases kept with ⟨n, rfl⟩ | ⟨s, rfl⟩ <;> rcases kept' with ⟨m, rfl⟩ | ⟨r, rfl⟩ <;>
    simp_all [ofValue]

theorem ofValue_datum_injective (apart : Function.Injective (Datum.value : α → Value))
    (kept : ∀ a ∈ x, (Datum.value a).IsKept) (kept' : ∀ a ∈ y, (Datum.value a).IsKept)
    (same : ofValue (Datum.value x) = ofValue (Datum.value y)) : x = y := by
  cases x with
  | none =>
    cases y with
    | none => rfl
    | some b =>
      rcases kept' b rfl with ⟨n, written⟩ | ⟨s, written⟩ <;>
        simp [Datum.value, written, ofValue] at same
  | some a =>
    cases y with
    | none =>
      rcases kept a rfl with ⟨n, written⟩ | ⟨s, written⟩ <;>
        simp [Datum.value, written, ofValue] at same
    | some b => exact congrArg some (apart (ofValue_injective (kept a rfl) (kept' b rfl) same))

end Document

-- What one pair of readers tells apart as well as another, lists show no worse.
theorem map_eq_of_map_eq {α β γ δ : Type} {f : α → γ} {g : β → γ} {h : α → δ} {k : β → δ}
    {xs : List α} {ys : List β} (finer : ∀ x ∈ xs, ∀ y ∈ ys, f x = g y → h x = k y)
    (same : xs.map f = ys.map g) : xs.map h = ys.map k := by
  induction xs generalizing ys with
  | nil => simp_all
  | cons x xs ih =>
    cases ys with
    | nil => simp at same
    | cons y ys =>
      obtain ⟨first, rest⟩ := List.cons.inj same
      rw [List.map_cons, List.map_cons, finer x List.mem_cons_self y List.mem_cons_self first,
        ih _ rest]
      intro x inside y inside'
      exact finer x (List.mem_cons_of_mem _ inside) y (List.mem_cons_of_mem _ inside')

/-- Nothing in the table is lost or blurred when it is dumped. -/
structure ScopeTable.Legible {τ π : Type} [Datum τ] [Datum π] (t : ScopeTable τ π) : Prop where
  names : t.NoColons
  tags : ∀ i a, t.scope? i = some a → ∀ tag ∈ a.tag, (Datum.value tag).IsKept
  positions : ∀ i a, t.scope? i = some a → ∀ p ∈ a.position, (Datum.value p).IsKept

namespace ScopeTree

variable {τ π : Type} [Datum τ] [Datum π] {t t' : ScopeTree τ π} {i j : Nat} {a b : Scope τ π}
variable {positions : Bool}

theorem scopeDocument_eq :
    t.scopeDocument positions i = .mapping (t.scopeEntries positions i ++
      [("children", .sequence ((t.children i).map (t.scopeDocument positions)))]) := by
  rw [scopeDocument]
  simp

theorem scopeDocument_inj (same : t.scopeDocument positions i = t'.scopeDocument positions j) :
    t.scopeEntries positions i = t'.scopeEntries positions j ∧
      (t.children i).map (t.scopeDocument positions) =
        (t'.children j).map (t'.scopeDocument positions) := by
  rw [scopeDocument_eq, scopeDocument_eq, Document.mapping.injEq] at same
  obtain ⟨entries, children⟩ := List.append_inj' same rfl
  exact ⟨entries, by simpa using children⟩

theorem id_eq_of_scopeEntries (session : t'.session = t.session)
    (same : t.scopeEntries positions i = t'.scopeEntries positions j) : i = j := by
  have texts : (t.idOf i).text = (t'.idOf j).text := by
    cases there : t.scope? i <;> cases there' : t'.scope? j <;>
      simp_all [scopeEntries, Session.positionEntry]
  rw [idOf, idOf, session] at texts
  exact Int.ofNat.inj (ScopeId.text_injective texts)

theorem children_of_scopeDocument (session : t'.session = t.session)
    (same : t.scopeDocument positions i = t'.scopeDocument positions i) :
    t.children i = t'.children i ∧
      ∀ j ∈ t.children i, t.scopeDocument positions j = t'.scopeDocument positions j := by
  have documents := (scopeDocument_inj same).2
  have members : (t.children i).map id = (t'.children i).map id := by
    apply map_eq_of_map_eq _ documents
    intro j _ k _ same
    exact id_eq_of_scopeEntries session (scopeDocument_inj same).1
  rw [List.map_id, List.map_id] at members
  exact ⟨members, List.map_inj_left.1 (members ▸ documents)⟩

theorem scopeDocument_of_document (session : t'.session = t.session)
    (same : t.document positions = t'.document positions) (inside : i < t.size) :
    t.scopeDocument positions i = t'.scopeDocument positions i := by
  induction i using ScopeTable.chain_induction t.toScopeTable with
  | bare i absent =>
    rw [ScopeTable.eq_root_of_none absent inside]
    exact same
  | nested i a there ih =>
    have above := ih (Nat.lt_trans (ScopeTable.parent_lt there) inside)
    exact (children_of_scopeDocument session above).2 i
      (ScopeTable.mem_children_iff.2 ⟨a, there, rfl⟩)

theorem exists_twin (apart : Function.Injective (Datum.value : τ → Value))
    (apart' : Function.Injective (Datum.value : π → Value)) (session : t'.session = t.session)
    (legible : t.Legible) (legible' : t'.Legible) (same : t.document true = t'.document true)
    (there : t.scope? i = some a) : ∃ b, t'.scope? i = some b ∧ b.unplaced = a.unplaced := by
  have inside := ScopeTable.lt_size_of_scope? there
  have parent_inside := Nat.lt_trans (ScopeTable.parent_lt there) inside
  have here := (scopeDocument_inj (scopeDocument_of_document session same inside)).1
  have siblings := (children_of_scopeDocument session
    (scopeDocument_of_document session same parent_inside)).1
  cases there' : t'.scope? i with
  | none => simp [scopeEntries, there, there', Session.positionEntry] at here
  | some b =>
    have member : i ∈ t'.children a.parent :=
      siblings ▸ ScopeTable.mem_children_iff.2 ⟨a, there, rfl⟩
    obtain ⟨b, found, parent⟩ := ScopeTable.mem_children_iff.1 member
    cases there'.symm.trans found
    simp only [scopeEntries, there, there', Session.positionEntry, if_true, List.cons_append,
      List.nil_append, List.cons.injEq, Prod.mk.injEq, Document.text.injEq, Document.bool.injEq,
      true_and, and_true] at here
    obtain ⟨name, _, tag, position, isInline, _⟩ := here
    have tags := Document.ofValue_datum_injective apart (legible.tags i a there)
      (legible'.tags i b there') tag
    have positions := Document.ofValue_datum_injective apart' (legible.positions i a there)
      (legible'.positions i b there') position
    refine ⟨b, rfl, ?_⟩
    rw [Scope.unplaced, Scope.unplaced, parent, Segment.ext_name name, tags, positions, isInline]

theorem sameRecords_of_document (apart : Function.Injective (Datum.value : τ → Value))
    (apart' : Function.Injective (Datum.value : π → Value)) (session : t'.session = t.session)
    (legible : t.Legible) (legible' : t'.Legible) (same : t.document true = t'.document true) :
    t.SameRecords t'.toScopeTable := by
  apply ScopeTable.SameRecords.of_twins
  · intro i a there
    exact exists_twin apart apart' session legible legible' same there
  · intro i b there
    obtain ⟨a, found, twins⟩ :=
      exists_twin apart apart' session.symm legible' legible same.symm there
    exact ⟨a, found, twins.symm⟩

end ScopeTree

end ScopedNames

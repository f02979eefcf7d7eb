import ScopedNames.Proofs.Dump.Recovery
import ScopedNames.Proofs.Session.TimeTravel

set_option autoImplicit false

namespace ScopedNames

/-- All that an answer says, by names that mean the same in other sessions. -/
structure Answer (τ : Type) extends Verdict τ where
  name : String
  startName : String

structure Effect (π : Type) where
  target : Option Nat
  scope : Nat
  position : Option π

def Import.effect {π : Type} (d : Import π) : Effect π := ⟨d.target, d.scope, d.position⟩

variable {τ π : Type} [LinearOrder π] {s s' : Session τ π} {r : Reference} {id : ScopeId}
variable {now : Option π} {q : Nat}

namespace Session

def answer (s : Session τ π) (found : Found) : Answer τ :=
  { s.verdict found with
    name := s.tree.qualifiedName found.node
    startName := s.tree.qualifiedName found.start }

def answerAt (s : Session τ π) (r : Reference) (enclosing : ScopeId) (now : Option π) :
    Except (SessionFault π) (Option (Answer τ)) :=
  (s.resolveAt r enclosing now).map (·.map s.answer)

-- The scopes and the directives of both sessions do the same.
structure Equivalent (s s' : Session τ π) : Prop where
  number : s'.tree.session = s.tree.session
  table : s.tree.SameRecords s'.tree.toScopeTable
  effects : s'.issued.map Import.effect = s.issued.map Import.effect

namespace Equivalent

omit [LinearOrder π] in
theorem answer_eq (same : s.Equivalent s') : s'.answer = s.answer := by
  funext found
  simp only [answer, verdict, ScopeTree.idOf, same.number, same.table.tag_eq,
    same.table.shape.qualifiedName_eq]

theorem opened_eq (same : s.Equivalent s') : s'.opened q now = s.opened q now := by
  have read : ∀ u : Session τ π, u.opened q now =
      (((u.issued.map Import.effect).filter fun e =>
        u.tree.encloses e.scope q && before e.position now).filterMap (·.target)).eraseDups := by
    intro u
    rw [opened, List.filter_map, List.filterMap_map]
    rfl
  rw [read s, read s', same.effects]
  simp only [same.table.shape.encloses_eq]

theorem resolveFrom_eq (same : s.Equivalent s') (inv : s.Invariant) (inv' : s'.Invariant) :
    s'.resolveFrom r q now = s.resolveFrom r q now := by
  rw [inv.resolveFrom_eq, inv'.resolveFrom_eq, same.opened_eq, same.table.searchFrom_eq,
    same.table.searchFrom_eq, starts, starts, same.table.shape.chain_eq]

omit [LinearOrder π] in
theorem idOf_eq (same : s.Equivalent s') (i : Nat) : s'.tree.idOf i = s.tree.idOf i := by
  rw [ScopeTree.idOf, ScopeTree.idOf, same.number]

omit [LinearOrder π] in
theorem owns_iff (same : s.Equivalent s') : s'.tree.Owns id ↔ s.tree.Owns id := by
  have size := same.table.size
  constructor
  · rintro ⟨i, rfl⟩
    exact ⟨⟨i, by omega⟩, (same.idOf_eq i).symm⟩
  · rintro ⟨i, rfl⟩
    exact ⟨⟨i, by omega⟩, same.idOf_eq i⟩

theorem resolveAt_eq (same : s.Equivalent s') (inv : s.Invariant) (inv' : s'.Invariant) :
    s'.resolveAt r id now = s.resolveAt r id now := by
  by_cases known : s.tree.Owns id
  · obtain ⟨i, rfl⟩ := known
    have inside : i < s'.tree.size := by rw [same.table.size]; exact i.isLt
    rw [resolveAt_idOf, ← same.idOf_eq, resolveAt_idOf s' r ⟨i, inside⟩,
      same.resolveFrom_eq inv inv']
  · rw [resolveAt_unknown known, resolveAt_unknown (mt same.owns_iff.1 known)]

theorem answerAt_eq (same : s.Equivalent s') (inv : s.Invariant) (inv' : s'.Invariant) :
    s'.answerAt r id now = s.answerAt r id now := by
  rw [answerAt, answerAt, same.resolveAt_eq inv inv', same.answer_eq]

end Equivalent

variable [Datum τ] [Datum π]

/-- The dump blurs nothing of the session's scopes and directives. -/
structure Legible (s : Session τ π) : Prop where
  table : s.tree.Legible
  imports : ∀ d ∈ s.issued, ∀ p ∈ d.position, (Datum.value p).IsKept

theorem effect_of_importDocument {d d' : Import π}
    (apart : Function.Injective (Datum.value : π → Value)) (inv : s.Invariant)
    (inv' : s'.Invariant) (legible : s.Legible) (legible' : s'.Legible)
    (table : s.tree.SameRecords s'.tree.toScopeTable) (issued : d ∈ s.issued)
    (issued' : d' ∈ s'.issued) (same : s.importDocument true d = s'.importDocument true d') :
    d'.effect = d.effect := by
  simp only [importDocument, positionEntry, if_true, List.cons_append, List.nil_append,
    Document.mapping.injEq, List.cons.injEq, Prod.mk.injEq, Document.text.injEq,
    Document.bool.injEq, true_and, and_true] at same
  obtain ⟨target, scope, position, inert⟩ := same
  have unique := inv.unique
  have clear := legible.table.names
  have named : ∀ i j, i < s.tree.size → j < s'.tree.size →
      s.tree.qualifiedName i = s'.tree.qualifiedName j → j = i := by
    intro i j inside inside' names
    rw [table.shape.qualifiedName_eq] at names
    exact (unique.qualifiedName_injective clear inside (table.size ▸ inside') names).symm
  have scopes := named _ _ (inv.import_scope d issued) (inv'.import_scope d' issued') scope
  have positions := Document.ofValue_datum_injective apart (legible.imports d issued)
    (legible'.imports d' issued') position
  have targets : d'.target = d.target := by
    cases led : d.target with
    | none => simpa [Import.isInert, led] using inert.symm
    | some i =>
      cases led' : d'.target with
      | none => simp [Import.isInert, led, led'] at inert
      | some j =>
        obtain ⟨a, there, _⟩ := inv.import_target d issued i led
        obtain ⟨b, there', _⟩ := inv'.import_target d' issued' j led'
        simp only [led, led'] at target
        exact congrArg some (named i j (ScopeTable.lt_size_of_scope? there)
          (ScopeTable.lt_size_of_scope? there') target)
  rw [Import.effect, Import.effect, targets, scopes, positions]

theorem equivalent_of_document (apart : Function.Injective (Datum.value : τ → Value))
    (apart' : Function.Injective (Datum.value : π → Value)) (inv : s.Invariant)
    (inv' : s'.Invariant) (number : s'.tree.session = s.tree.session) (legible : s.Legible)
    (legible' : s'.Legible) (same : s.document true = s'.document true) : s.Equivalent s' := by
  simp only [document, Document.mapping.injEq, List.cons.injEq, Prod.mk.injEq,
    Document.sequence.injEq, true_and, and_true] at same
  obtain ⟨scopes, imports⟩ := same
  have table := ScopeTree.sameRecords_of_document apart apart' number legible.table
    legible'.table scopes
  refine ⟨number, table, (map_eq_of_map_eq ?_ imports).symm⟩
  intro d issued d' issued' same
  exact (effect_of_importDocument apart' inv inv' legible legible' table issued issued' same).symm

end Session

/--
Sessions of one number that dump alike answer alike: every question, asked from any scope at any
position, gets the same answer in both or is refused by both with the same fault.
-/
theorem Reachable.answerAt_determined {number : Nat} [Datum τ] [Datum π]
    (apart : Function.Injective (Datum.value : τ → Value))
    (apart' : Function.Injective (Datum.value : π → Value)) (reachable : Reachable number s)
    (reachable' : Reachable number s') (legible : s.Legible) (legible' : s'.Legible)
    (same : s.document true = s'.document true) (r : Reference) (id : ScopeId) (now : Option π) :
    s'.answerAt r id now = s.answerAt r id now := by
  have number := reachable'.session_eq.trans reachable.session_eq.symm
  have inv := reachable.invariant
  have inv' := reachable'.invariant
  have equivalent := Session.equivalent_of_document apart apart' inv inv' number legible legible'
    same
  exact equivalent.answerAt_eq inv inv'

-- A dump does not show whether `::A` or `A` was written, and answers do not depend on it.
theorem Reachable.answerAt_determined_of_spelling :
    ∃ s s' : Session Nat Int, Reachable 0 s ∧ Reachable 0 s' ∧
      s.issued.map (·.path.render) = ["::A"] ∧ s'.issued.map (·.path.render) = ["A"] ∧
      ∀ r id now, s'.answerAt r id now = s.answerAt r id now := by
  let declared : Call Nat Int := .declareScope (.text "A") ⟨0, 0⟩ (some 7) (some 1) false none
  let opening (rooted : Bool) : Call Nat Int :=
    .issueImport ⟨[⟨"A", by decide, by decide⟩], rooted, by simp⟩ ⟨0, 0⟩ (some 2)
  let final (rooted : Bool) : Session Nat Int :=
    (opening rooted).perform.after (declared.perform.after (Session.new 0))
  have reachable : ∀ rooted, Reachable 0 (final rooted) := fun rooted =>
    .call (.call .new declared) (opening rooted)
  have legible : ∀ rooted, (final rooted).Legible := by
    intro rooted
    have named : ∀ i, (final rooted).tree.scope? i =
        if i = 1 then some ⟨0, ⟨"A", by decide, by decide⟩, some 7, some 1, false, none⟩
        else none := by
      intro i
      rcases i with _ | _ | i <;> cases rooted <;> cbv
    refine ⟨⟨?_, fun _ _ _ _ _ => .inl ⟨_, rfl⟩, fun _ _ _ _ _ => .inl ⟨_, rfl⟩⟩,
      fun _ _ _ _ => .inl ⟨_, rfl⟩⟩
    intro i a there
    rw [named] at there
    split at there
    · cases there
      decide
    · cases there
  refine ⟨final true, final false, reachable true, reachable false, by cbv, by cbv, ?_⟩
  have apart : Function.Injective (Datum.value : Int → Value) := fun a b same => Value.int.inj same
  have apart' : Function.Injective (Datum.value : Nat → Value) := fun a b same =>
    Int.ofNat.inj (Value.int.inj same)
  exact Reachable.answerAt_determined apart' apart (reachable true) (reachable false)
    (legible true) (legible false) (by cbv)

end ScopedNames

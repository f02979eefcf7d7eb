import ScopedNames.Proofs.Dump.Recovery
import ScopedNames.Proofs.Scope.Preorder
import ScopedNames.Proofs.Session.Operation

set_option autoImplicit false

namespace ScopedNames

/-- What nested data says of one scope; what it leaves out is `none`. -/
structure Row where
  name : Option Document
  id : Option Document
  kind : Option Document
  tag : Option Document
  position : Option Document
  isInline : Option Document
  reopened : Option Document

namespace Document

def rowOf (entries : List (String × Document)) : Row where
  name := entries.lookup "name"
  id := entries.lookup "id"
  kind := entries.lookup "kind"
  tag := entries.lookup "tag"
  position := entries.lookup "position"
  isInline := entries.lookup "inline"
  reopened := entries.lookup "reopened"

mutual

/-- The rows of nested data in the order in which a reader comes to them. -/
def preorder : Document → List Row
  | mapping entries => rowOf entries :: preorderOfChildren entries
  | sequence items => preorderOfItems items
  | _ => []

def preorderOfItems : List Document → List Row
  | [] => []
  | d :: ds => d.preorder ++ preorderOfItems ds

def preorderOfChildren : List (String × Document) → List Row
  | [] => []
  | (key, d) :: entries => if key = "children" then d.preorder else preorderOfChildren entries

end

theorem preorderOfItems_eq_flatMap (ds : List Document) :
    preorderOfItems ds = ds.flatMap preorder := by
  induction ds with
  | nil => rfl
  | cons d ds ih => rw [preorderOfItems, ih, List.flatMap_cons]

end Document

namespace ScopeTree

variable {τ π : Type} [Datum τ] [Datum π] {t : ScopeTree τ π} {positions : Bool} {i : Nat}

def row (t : ScopeTree τ π) (positions : Bool) (i : Nat) : Row :=
  match t.scope? i with
  | none =>
    { name := some (.text "::"), id := some (.text (t.idOf i).text), kind := some (.text "root"),
      tag := none, position := none, isInline := none, reopened := none }
  | some s =>
    { name := some (.text s.name.name)
      id := some (.text (t.idOf i).text)
      kind := some (.text "namespace")
      tag := some (.ofValue (Datum.value s.tag))
      position := if positions then some (.ofValue (Datum.value s.position)) else none
      isInline := some (.bool s.isInline)
      reopened := some (.int (t.reopened i)) }

theorem preorder_entries (d : Document) :
    (Document.mapping (t.scopeEntries positions i ++ [("children", d)])).preorder =
      t.row positions i :: d.preorder := by
  -- None of the other keys is `children`, so the reader finds the members in what comes last.
  cases there : t.scope? i with
  | none =>
    have outermost : t.qualifiedName i = "::" := by
      rw [ScopeTable.qualifiedName, ScopeTable.path_of_none there]
      rfl
    simp [scopeEntries, row, there, Document.preorder, Document.preorderOfChildren,
      Document.rowOf, outermost, List.lookup]
  | some s =>
    cases positions <;>
      simp [scopeEntries, row, there, Document.preorder, Document.preorderOfChildren,
        Document.rowOf, Session.positionEntry, List.lookup]

theorem preorder_scopeDocument :
    (t.scopeDocument positions i).preorder = (t.subtree i).map (t.row positions) := by
  induction i using ScopeTable.member_induction t.toScopeTable with
  | step i ih =>
    rw [scopeDocument_eq, preorder_entries, Document.preorder,
      Document.preorderOfItems_eq_flatMap, List.flatMap_map, ScopeTable.subtree_eq, List.map_cons,
      List.map_flatMap, List.flatMap_congr ih]

/--
The loop of a walk ends with each scope given out once: the root first, the members of a scope
after it and in the order of their indices, which number the first declarations, and whatever is
inside a scope right behind it. These are the scopes whose ids the tree knows, and the nested data
has them in the same order.
-/
theorem walk_characterized (t : ScopeTree τ π) (positions : Bool) :
    (∀ out, t.Empties [root] out ↔ out = t.walk) ∧
    t.walk.head? = some root ∧ t.walk.Nodup ∧ (∀ i, i ∈ t.walk ↔ i < t.size) ∧
    t.walk.length = t.size ∧
    (∀ i < t.size, (i :: t.children i).Sublist t.walk ∧ (t.children i).Pairwise (· < ·)) ∧
    (∀ i < t.size, ∃ inside, (i :: inside) <:+: t.walk ∧
      ∀ j, j ∈ i :: inside ↔ i ∈ t.chain j) ∧
    (∀ id, (t.find? id).isSome ↔ ∃ i ∈ t.walk, t.idOf i = id) ∧
    (t.document positions).preorder = t.walk.map (t.row positions) := by
  have walked : t.walk = t.subtree root := ScopeTable.walk_eq_subtree
  have all : t.walk.Perm (List.range t.size) := walked ▸ ScopeTable.subtree_root_perm
  have members : ∀ i, i ∈ t.walk ↔ i < t.size := fun i => all.mem_iff.trans List.mem_range
  refine ⟨?_, ?_, walked ▸ ScopeTable.nodup_subtree, members, by simp [all.length_eq], ?_, ?_, ?_,
    ?_⟩
  · intro out
    rw [ScopeTable.empties_iff, List.flatMap_singleton, walked]
  · rw [walked, ScopeTable.subtree_eq]
    rfl
  · intro i inside
    have part := ScopeTable.subtree_infix (walked ▸ (members i).2 inside)
    have sublist := ScopeTable.children_sublist_subtree.trans part.sublist
    exact ⟨walked ▸ sublist, t.children_pairwise i⟩
  · intro i inside
    refine ⟨(t.children i).flatMap t.subtree, ?_⟩
    rw [← ScopeTable.subtree_eq, walked]
    exact ⟨ScopeTable.subtree_infix (walked ▸ (members i).2 inside),
      fun j => ScopeTable.mem_subtree_iff⟩
  · intro id
    rw [Option.isSome_iff_exists]
    constructor
    · rintro ⟨i, found⟩
      exact ⟨i, (members i).2 i.isLt, find?_eq_some.1 found⟩
    · rintro ⟨i, member, known⟩
      exact ⟨⟨i, (members i).1 member⟩, find?_eq_some.2 known⟩
  · rw [document, preorder_scopeDocument, walked]

end ScopeTree

end ScopedNames

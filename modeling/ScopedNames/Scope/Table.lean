import ScopedNames.Location
import ScopedNames.Reference

set_option autoImplicit false

namespace ScopedNames

/-- A named scope as its first declaration left it; `τ` is the type of tags, `π` of positions. -/
structure Scope (τ π : Type) where
  parent : Nat
  name : Segment
  tag : Option τ
  position : Option π
  isInline : Bool
  location : Option Location

/--
The scopes of one session in the order of their first declarations. Scope 0 is the root, which
has no record; scope `k + 1` is `records[k]`, and its parent was there before it.
-/
structure ScopeTable (τ π : Type) where
  records : Array (Scope τ π)
  parent_le : ∀ (k : Nat) (h : k < records.size), records[k].parent ≤ k

def root : Nat := 0

namespace ScopeTable

variable {τ π : Type}

def empty : ScopeTable τ π := ⟨#[], by simp⟩

def size (t : ScopeTable τ π) : Nat := t.records.size + 1

def scope? (t : ScopeTable τ π) : Nat → Option (Scope τ π)
  | 0 => none
  | k + 1 => t.records[k]?

theorem parent_lt {t : ScopeTable τ π} {i : Nat} {s : Scope τ π} (h : t.scope? i = some s) :
    s.parent < i := by
  cases i with
  | zero => simp [scope?] at h
  | succ k =>
    obtain ⟨hk, rfl⟩ := Array.getElem?_eq_some_iff.1 h
    exact Nat.lt_succ_of_le (t.parent_le k hk)

theorem lt_size_of_scope? {t : ScopeTable τ π} {i : Nat} {s : Scope τ π}
    (h : t.scope? i = some s) : i < t.size := by
  cases i with
  | zero => simp [scope?] at h
  | succ k =>
    obtain ⟨hk, _⟩ := Array.getElem?_eq_some_iff.1 h
    exact Nat.succ_lt_succ hk

def parent? (t : ScopeTable τ π) (i : Nat) : Option Nat := (t.scope? i).map (·.parent)

def name? (t : ScopeTable τ π) (i : Nat) : Option String := (t.scope? i).map (·.name.name)

def isInline (t : ScopeTable τ π) (i : Nat) : Bool := (t.scope? i).any (·.isInline)

def chain (t : ScopeTable τ π) (i : Nat) : List Nat :=
  match h : t.scope? i with
  | none => [i]
  | some s =>
    have := parent_lt h
    i :: t.chain s.parent

def path (t : ScopeTable τ π) (i : Nat) : List String :=
  match h : t.scope? i with
  | none => []
  | some s =>
    have := parent_lt h
    t.path s.parent ++ [s.name.name]

def qualifiedName (t : ScopeTable τ π) (i : Nat) : String := separator ++ joinNames (t.path i)

def depth (t : ScopeTable τ π) (i : Nat) : Nat := (t.path i).length

def encloses (t : ScopeTable τ π) (outer inner : Nat) : Bool := (t.chain inner).contains outer

def children (t : ScopeTable τ π) (i : Nat) : List Nat :=
  (List.range t.size).filter fun j => t.parent? j == some i

theorem mem_children {t : ScopeTable τ π} {i j : Nat} :
    j ∈ t.children i ↔ t.parent? j = some i := by
  simp only [children, List.mem_filter, List.mem_range, beq_iff_eq, and_iff_right_iff_imp]
  intro h
  obtain ⟨s, hs, _⟩ := Option.map_eq_some_iff.1 h
  exact lt_size_of_scope? hs

theorem lt_of_mem_children {t : ScopeTable τ π} {i j : Nat} (h : j ∈ t.children i) :
    i < j ∧ j < t.size := by
  obtain ⟨s, hs, rfl⟩ := Option.map_eq_some_iff.1 (mem_children.1 h)
  exact ⟨parent_lt hs, lt_size_of_scope? hs⟩

def child? (t : ScopeTable τ π) (i : Nat) (name : String) : Option Nat :=
  (t.children i).find? fun j => t.name? j == some name

def inlineChildren (t : ScopeTable τ π) (i : Nat) : List Nat := (t.children i).filter t.isInline

theorem lt_of_mem_inlineChildren {t : ScopeTable τ π} {i j : Nat} (h : j ∈ t.inlineChildren i) :
    i < j ∧ j < t.size :=
  lt_of_mem_children (List.mem_filter.1 h).1

-- Visits the scopes that wait on a stack, each before its members. No scope is visited twice, so
-- as many steps as there are scopes are enough.
def visit (t : ScopeTable τ π) : Nat → List Nat → List Nat
  | 0, _ => []
  | _ + 1, [] => []
  | steps + 1, i :: waiting => i :: t.visit steps (t.children i ++ waiting)

def walk (t : ScopeTable τ π) : List Nat := t.visit t.size [root]

def add (t : ScopeTable τ π) (s : Scope τ π) (h : s.parent < t.size) : ScopeTable τ π where
  records := t.records.push s
  parent_le k hk := by
    rw [Array.getElem_push]
    split
    · exact t.parent_le k _
    · rw [Array.size_push] at hk
      have hsize : t.size = t.records.size + 1 := rfl
      omega

end ScopeTable

end ScopedNames

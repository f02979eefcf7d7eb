import ScopedNames.Proofs.Session.Imports

set_option autoImplicit false

namespace ScopedNames

variable {τ π : Type} [LinearOrder π] {s : Session τ π} {r : Reference} {q : Nat} {now : Option π}
variable {answer : Option Found} {found : Found}

namespace Session

def leads (s : Session τ π) (now : Option π) (r : Reference) (i : Nat) : Option Nat :=
  s.tree.follow (s.tree.isVisible now) i r.names

-- Where the search for a path begins before directives widen it.
def starts (s : Session τ π) (r : Reference) (q : Nat) : List Nat :=
  if r.rooted then [root] else s.tree.chain q

/-- What a path means inside a scope at a position. -/
inductive Resolves (s : Session τ π) (r : Reference) (q : Nat) (now : Option π) :
    Option Found → Prop where
  | global {node : Nat} (rooted : r.rooted = true) (led : s.leads now r root = some node) :
      Resolves s r q now (some ⟨node, .global, root⟩)
  | enclosing {inner outer : List Nat} {start node : Nat} (relative : r.rooted = false)
      (around : s.tree.chain q = inner ++ start :: outer)
      (missed : ∀ i ∈ inner, s.leads now r i = none) (led : s.leads now r start = some node) :
      Resolves s r q now (some ⟨node, .enclosing, start⟩)
  | imported {earlier later : List Nat} {target node : Nat}
      (indirect : ∀ i ∈ s.starts r q, s.leads now r i = none)
      (first : s.opened q now = earlier ++ target :: later)
      (missed : ∀ i ∈ earlier, s.leads now r i = none) (led : s.leads now r target = some node) :
      Resolves s r q now (some ⟨node, .imported, target⟩)
  | unresolved (indirect : ∀ i ∈ s.starts r q, s.leads now r i = none)
      (closed : ∀ i ∈ s.opened q now, s.leads now r i = none) : Resolves s r q now none

theorem Invariant.resolveFrom_eq (inv : s.Invariant) :
    s.resolveFrom r q now =
      (s.tree.searchFrom r.names now (if r.rooted then .global else .enclosing)
        (s.starts r q)).or (s.tree.searchFrom r.names now .imported (s.opened q now)) := by
  rw [resolveFrom, ScopeTable.resolve, inv.activeImports_eq, starts]
  cases r.rooted <;> rfl

theorem Resolves.resolveFrom_eq (inv : s.Invariant) (means : s.Resolves r q now answer) :
    s.resolveFrom r q now = answer := by
  rw [inv.resolveFrom_eq]
  cases means with
  | @global node rooted led =>
    have direct : s.tree.searchFrom r.names now .global [root] = some ⟨node, .global, root⟩ :=
      ScopeTable.searchFrom_eq_some.2 ⟨⟨[], [], rfl, by simp⟩, led, rfl⟩
    simp only [starts, rooted, if_true, direct, Option.some_or]
  | @enclosing inner outer start node relative around missed led =>
    have direct : s.tree.searchFrom r.names now .enclosing (s.tree.chain q) =
        some ⟨node, .enclosing, start⟩ :=
      ScopeTable.searchFrom_eq_some.2 ⟨⟨inner, outer, around, missed⟩, led, rfl⟩
    simp only [starts, relative, Bool.false_eq_true, if_false, direct, Option.some_or]
  | @imported earlier later target node indirect first missed led =>
    have opened : s.tree.searchFrom r.names now .imported (s.opened q now) =
        some ⟨node, .imported, target⟩ :=
      ScopeTable.searchFrom_eq_some.2 ⟨⟨earlier, later, first, missed⟩, led, rfl⟩
    rw [ScopeTable.searchFrom_eq_none.2 indirect, Option.none_or, opened]
  | unresolved indirect closed =>
    rw [ScopeTable.searchFrom_eq_none.2 indirect, Option.none_or,
      ScopeTable.searchFrom_eq_none.2 closed]

theorem resolveAt_idOf (s : Session τ π) (r : Reference) (q : Fin s.tree.size) (now : Option π) :
    s.resolveAt r (s.tree.idOf q) now = .ok (s.resolveFrom r q now) := by
  rw [resolveAt, find, ScopeTree.find?_idOf]
  rfl

theorem resolveAt_unknown {id : ScopeId} (foreign : ¬ s.tree.Owns id) :
    s.resolveAt r id now = .error (.unknownScope id) := by
  rw [resolveAt, find, ScopeTree.find?_eq_none.2 foreign]
  rfl

end Session

end ScopedNames

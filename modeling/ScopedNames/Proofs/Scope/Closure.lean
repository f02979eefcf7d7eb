import ScopedNames.Proofs.Scope.Members
import ScopedNames.Scope.Lookup

set_option autoImplicit false

namespace ScopedNames

theorem findSome?_congr {α β : Type} {xs : List α} {f g : α → Option β}
    (same : ∀ x ∈ xs, f x = g x) : xs.findSome? f = xs.findSome? g := by
  induction xs with
  | nil => rfl
  | cons x xs ih =>
    rw [List.findSome?_cons, List.findSome?_cons, same x List.mem_cons_self,
      ih fun y member => same y (List.mem_cons_of_mem x member)]

theorem findSome?_flatMap {α β γ : Type} (xs : List α) (f : α → List β) (g : β → Option γ) :
    (xs.flatMap f).findSome? g = xs.findSome? fun x => (f x).findSome? g := by
  induction xs with
  | nil => rfl
  | cons x xs ih =>
    rw [List.flatMap_cons, List.findSome?_append, ih, List.findSome?_cons]
    cases (f x).findSome? g <;> rfl

namespace ScopeTable

variable {τ π : Type} {t : ScopeTable τ π} {visible visible' : Nat → Bool} {i j : Nat}
variable {name : String} {names : List String}

theorem inline_induction (t : ScopeTable τ π) {motive : Nat → Prop}
    (step : ∀ i, (∀ j ∈ t.inlineChildren i, motive j) → motive i) (i : Nat) : motive i := by
  induction i using member_induction t with
  | step i ih =>
    exact step i fun j inner => ih j (mem_children_of_mem_inlineChildren inner)

/-- A scope with all that is transparent inside it, in the order of the search. -/
def inlineClosure (t : ScopeTable τ π) (visible : Nat → Bool) (i : Nat) : List Nat :=
  i :: (t.inlineChildren i).attach.flatMap fun ⟨j, hj⟩ =>
    have := lt_of_mem_inlineChildren hj
    if visible j then t.inlineClosure visible j else []
termination_by t.size - i

def member? (t : ScopeTable τ π) (visible : Nat → Bool) (i : Nat) (name : String) : Option Nat :=
  (t.inlineClosure visible i).findSome? fun n => (t.child? n name).filter visible

def follow (t : ScopeTable τ π) (visible : Nat → Bool) (i : Nat) : List String → Option Nat
  | [] => some i
  | name :: names => (t.member? visible i name).bind fun j => t.follow visible j names

theorem inlineClosure_eq :
    t.inlineClosure visible i =
      i :: (t.inlineChildren i).flatMap fun j =>
        if visible j then t.inlineClosure visible j else [] := by
  rw [inlineClosure]
  simp only [List.flatMap_subtype, List.unattach_attach]

theorem routeTo_eq :
    t.routeTo visible i name =
      (((t.child? i name).filter visible).map ([·])).or
        ((t.inlineChildren i).findSome? fun j =>
          if visible j then (t.routeTo visible j name).map (j :: ·) else none) := by
  rw [routeTo]
  split
  · next found => simp [found]
  · next absent =>
    simp only [absent, Option.map_none, Option.none_or, List.findSome?_subtype,
      List.unattach_attach]

theorem member?_eq :
    t.member? visible i name =
      ((t.child? i name).filter visible).or
        ((t.inlineChildren i).findSome? fun j =>
          if visible j then t.member? visible j name else none) := by
  rw [member?, inlineClosure_eq, List.findSome?_cons, findSome?_flatMap]
  have inside : ∀ j ∈ t.inlineChildren i,
      (if visible j then t.inlineClosure visible j else []).findSome?
          (fun n => (t.child? n name).filter visible) =
        if visible j then t.member? visible j name else none := by
    intro j _
    split <;> rfl
  rw [findSome?_congr inside]
  cases (t.child? i name).filter visible <;> rfl

theorem getLastD_routeTo (fallback : Nat) :
    (t.routeTo visible i name).map (·.getLastD fallback) = t.member? visible i name := by
  induction i using inline_induction t generalizing fallback with
  | step i ih =>
    rw [routeTo_eq, member?_eq, Option.map_or, Option.map_map, List.map_findSome?]
    congr 1
    · cases (t.child? i name).filter visible <;> rfl
    · apply findSome?_congr
      intro j member
      by_cases shown : visible j = true
      · -- The way goes through `j`, which is where it ends if nothing follows.
        simp only [Function.comp_apply, shown, if_true, Option.map_map, ← ih j member j]
        congr 1
        funext rest
        exact List.getLastD_cons (a := fallback)
      · simp [shown]

theorem reach_cons :
    t.reach visible i (name :: names) =
      (t.member? visible i name).bind fun j => t.reach visible j names := by
  rw [← getLastD_routeTo i, reach, routeAlong]
  cases t.routeTo visible i name with
  | none => rfl
  | some step =>
    simp only [Option.map_some, Option.bind_some, reach, Option.map_map]
    congr 1
    funext rest
    simp only [Function.comp_apply, List.getLastD_eq_getLast?, List.getLast?_append]
    cases rest.getLast? <;> rfl

theorem reach_eq_follow : t.reach visible i names = t.follow visible i names := by
  induction names generalizing i with
  | nil => rfl
  | cons name names ih =>
    rw [reach_cons, follow]
    congr 1
    funext j
    exact ih

theorem member?_congr (same : ∀ j < t.size, visible j = visible' j) :
    t.member? visible i name = t.member? visible' i name := by
  induction i using inline_induction t with
  | step i ih =>
    rw [member?_eq, member?_eq]
    congr 1
    · cases found : t.child? i name with
      | none => rfl
      | some j =>
        obtain ⟨s, there, _⟩ := exists_of_child? found
        rw [Option.filter_some, Option.filter_some, same j (lt_size_of_scope? there)]
    · apply findSome?_congr
      intro j member
      rw [same j (lt_of_mem_inlineChildren member).2, ih j member]

theorem follow_congr (same : ∀ j < t.size, visible j = visible' j) :
    t.follow visible i names = t.follow visible' i names := by
  induction names generalizing i with
  | nil => rfl
  | cons name names ih =>
    rw [follow, follow, member?_congr same]
    congr 1
    funext j
    exact ih

theorem mem_chain_of_mem_inlineClosure (member : j ∈ t.inlineClosure visible i) :
    i ∈ t.chain j := by
  induction i using inline_induction t with
  | step i ih =>
    rw [inlineClosure_eq, List.mem_cons, List.mem_flatMap] at member
    rcases member with rfl | ⟨k, inner, below⟩
    · exact self_mem_chain
    · have enclosed : i ∈ t.chain k := by
        rw [chain_of_mem_children (mem_children_of_mem_inlineChildren inner)]
        exact List.mem_cons_of_mem k self_mem_chain
      split at below
      · exact mem_chain_trans enclosed (ih k inner below)
      · cases below

theorem member?_eq_some (found : t.member? visible i name = some j) :
    visible j = true ∧ ∃ s, t.scope? j = some s ∧ s.name.name = name ∧ i ∈ t.chain s.parent := by
  obtain ⟨n, inside, there⟩ := List.exists_of_findSome?_eq_some found
  obtain ⟨child, shown⟩ := Option.filter_eq_some_iff.1 there
  obtain ⟨s, record, rfl, named⟩ := exists_of_child? child
  exact ⟨shown, s, record, named, mem_chain_of_mem_inlineClosure inside⟩

theorem mem_chain_of_follow (found : t.follow visible i names = some j) : i ∈ t.chain j := by
  induction names generalizing i with
  | nil =>
    cases found
    exact self_mem_chain
  | cons name names ih =>
    obtain ⟨k, first, rest⟩ := Option.bind_eq_some_iff.1 found
    obtain ⟨_, s, record, _, enclosed⟩ := member?_eq_some first
    have outer : i ∈ t.chain k := (mem_chain_of_some record).2 (.inr enclosed)
    exact mem_chain_trans outer (ih rest)

theorem follow_cons_eq_some (found : t.follow visible i (name :: names) = some j) :
    visible j = true ∧ i < j := by
  induction names generalizing i name with
  | nil =>
    obtain ⟨k, only, rest⟩ := Option.bind_eq_some_iff.1 found
    cases rest
    obtain ⟨shown, s, record, _, enclosed⟩ := member?_eq_some only
    exact ⟨shown, Nat.lt_of_le_of_lt (le_of_mem_chain enclosed) (parent_lt record)⟩
  | cons next names ih =>
    obtain ⟨k, first, rest⟩ := Option.bind_eq_some_iff.1 found
    obtain ⟨_, s, record, _, enclosed⟩ := member?_eq_some first
    have down : i < k := Nat.lt_of_le_of_lt (le_of_mem_chain enclosed) (parent_lt record)
    obtain ⟨shown, further⟩ := ih rest
    exact ⟨shown, Nat.lt_trans down further⟩

end ScopeTable

end ScopedNames

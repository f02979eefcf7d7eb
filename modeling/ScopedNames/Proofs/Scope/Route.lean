import Mathlib.Data.List.Chain
import ScopedNames.Proofs.Scope.Descent
import ScopedNames.Proofs.Scope.Grown
import ScopedNames.Proofs.Scope.Spelling

set_option autoImplicit false

namespace ScopedNames

namespace ScopeTable

variable {τ π : Type} {t : ScopeTable τ π} {visible : Nat → Bool} {i j n : Nat} {name : String}
variable {names names' : List String} {crossed route : List Nat}

/-- Down to a scope from one around it through visible scopes that are all transparent. -/
inductive Crosses (t : ScopeTable τ π) (visible : Nat → Bool) : Nat → List Nat → Nat → Prop where
  | here (i : Nat) : Crosses t visible i [] i
  | inner {i j n : Nat} {crossed : List Nat} (member : j ∈ t.inlineChildren i)
      (shown : visible j = true) (rest : Crosses t visible j crossed n) :
      Crosses t visible i (j :: crossed) n

/-- The scope `j` is a direct member of `n` and has the name, and it can be seen. -/
def Offers (t : ScopeTable τ π) (visible : Nat → Bool) (n : Nat) (name : String) (j : Nat) : Prop :=
  j ∈ t.children n ∧ t.name? j = some name ∧ visible j = true

/-- Each scope is a direct member of the one before it, the first one of the scope `i`. -/
def Descends (t : ScopeTable τ π) (i : Nat) (route : List Nat) : Prop :=
  (i :: route).IsChain fun outer inner => inner ∈ t.children outer

theorem Crosses.descends (crosses : t.Crosses visible i crossed n) (member : j ∈ t.children n) :
    t.Descends i (crossed ++ [j]) := by
  induction crosses with
  | here i => simpa [Descends] using member
  | inner inline _ _ ih =>
    exact .cons_cons (mem_children_of_mem_inlineChildren inline) (ih member)

theorem Crosses.all_visible (crosses : t.Crosses visible i crossed n) :
    ∀ k ∈ crossed, visible k = true := by
  induction crosses with
  | here i => simp
  | inner _ shown _ ih => exact List.forall_mem_cons.2 ⟨shown, ih⟩

theorem Crosses.spells (crosses : t.Crosses visible i crossed n) (named : t.name? j = some name) :
    t.Spells (crossed ++ [j]) [name] := by
  induction crosses with
  | here i => exact .named named .nil
  | inner inline _ _ ih => exact .crossed (List.mem_filter.1 inline).2 ih

theorem mem_inlineClosure_iff :
    n ∈ t.inlineClosure visible i ↔ ∃ crossed, t.Crosses visible i crossed n := by
  constructor
  · intro inside
    induction i using inline_induction t with
    | step i ih =>
      rw [inlineClosure_eq, List.mem_cons, List.mem_flatMap] at inside
      rcases inside with rfl | ⟨j, member, below⟩
      · exact ⟨[], .here n⟩
      · split at below
        · next shown =>
          obtain ⟨crossed, crosses⟩ := ih j member below
          exact ⟨j :: crossed, .inner member shown crosses⟩
        · cases below
  · rintro ⟨crossed, crosses⟩
    induction crosses with
    | here i => rw [inlineClosure_eq]; exact List.mem_cons_self
    | inner member shown _ ih =>
      rw [inlineClosure_eq]
      refine List.mem_cons_of_mem _ (List.mem_flatMap.2 ⟨_, member, ?_⟩)
      rwa [if_pos shown]

theorem routeTo_eq_none :
    t.routeTo visible i name = none ↔
      ∀ n ∈ t.inlineClosure visible i, (t.child? n name).filter visible = none := by
  rw [← Option.map_eq_none_iff (f := (·.getLastD i)), getLastD_routeTo, member?,
    List.findSome?_eq_none_iff]

theorem routeTo_eq_some (found : t.routeTo visible i name = some route) :
    ∃ before n after crossed j, t.inlineClosure visible i = before ++ n :: after ∧
      (∀ m ∈ before, (t.child? m name).filter visible = none) ∧
      (t.child? n name).filter visible = some j ∧ t.Crosses visible i crossed n ∧
      route = crossed ++ [j] := by
  induction i using inline_induction t generalizing route with
  | step i ih =>
    rw [routeTo_eq, Option.or_eq_some_iff] at found
    rcases found with direct | ⟨absent, inner⟩
    · obtain ⟨j, child, rfl⟩ := Option.map_eq_some_iff.1 direct
      exact ⟨[], i, _, [], j, inlineClosure_eq, by simp, child, .here i, rfl⟩
    · obtain ⟨missed, k, others, split, through, barren⟩ := List.findSome?_eq_some_iff.1 inner
      have member : k ∈ t.inlineChildren i := split ▸ List.mem_append_right _ List.mem_cons_self
      obtain ⟨shown, through⟩ := Option.ite_none_right_eq_some.1 through
      obtain ⟨rest, led, rfl⟩ := Option.map_eq_some_iff.1 through
      obtain ⟨before, n, after, crossed, j, closure, first, child, crosses, rfl⟩ :=
        ih k member led
      let inside (l : Nat) : List Nat := if visible l then t.inlineClosure visible l else []
      have earlier : ∀ l ∈ missed, ∀ m ∈ inside l, (t.child? m name).filter visible = none := by
        intro l among m below
        have nowhere := barren l among
        by_cases open' : visible l = true
        · rw [if_pos open', Option.map_eq_none_iff] at nowhere
          exact routeTo_eq_none.1 nowhere m (by simpa [inside, open'] using below)
        · simp [inside, open'] at below
      -- What the search went through before `n`: the scope itself, the members that led to nothing
      -- with all inside them, and what comes first inside the member that led to it.
      refine ⟨i :: missed.flatMap inside ++ before, n, after ++ others.flatMap inside, k :: crossed,
        j, ?_, ?_, child, .inner member shown crosses, rfl⟩
      · rw [inlineClosure_eq, split, List.flatMap_append, List.flatMap_cons, if_pos shown, closure]
        simp [inside]
      · intro m among
        simp only [List.cons_append, List.mem_cons, List.mem_append, List.mem_flatMap] at among
        rcases among with rfl | ⟨l, member, below⟩ | front
        · exact Option.map_eq_none_iff.1 absent
        · exact earlier l member m below
        · exact first m front

theorem getLastD_concat (fallback : Nat) : (crossed ++ [j]).getLastD fallback = j := by
  simp [List.getLastD_eq_getLast?]

theorem routeAlong_eq_some (found : t.routeAlong visible i names = some route) :
    t.Descends i route ∧ (∀ k ∈ route, visible k = true) ∧ t.Spells route names := by
  induction names generalizing i route with
  | nil =>
    cases found
    exact ⟨.singleton i, by simp, .nil⟩
  | cons name names ih =>
    rw [routeAlong] at found
    split at found
    · cases found
    · next step led =>
      obtain ⟨rest, further, rfl⟩ := Option.map_eq_some_iff.1 found
      obtain ⟨_, n, _, crossed, j, _, _, child, crosses, rfl⟩ := routeTo_eq_some led
      -- What one name led to is where the next name starts.
      rw [getLastD_concat] at further
      obtain ⟨child, shown⟩ := Option.filter_eq_some_iff.1 child
      obtain ⟨below, visibles, spells⟩ := ih further
      obtain ⟨s, there, parent, named⟩ := exists_of_child? child
      have member : j ∈ t.children n := mem_children_iff.2 ⟨s, there, parent⟩
      refine ⟨?_, ?_, ?_⟩
      · have above := crosses.descends member
        rw [Descends, ← List.cons_append] at above
        rw [Descends, List.append_assoc, ← List.cons_append]
        exact List.isChain_split.2 ⟨above, below⟩
      · simpa [shown, or_imp, forall_and] using ⟨crosses.all_visible, visibles⟩
      · exact (crosses.spells (by simp [name?, there, named])).append spells

theorem routeAlong_append :
    t.routeAlong visible i (names ++ names') = (t.routeAlong visible i names).bind fun route =>
      (t.routeAlong visible (route.getLastD i) names').map (route ++ ·) := by
  induction names generalizing i with
  | nil => simp [routeAlong]
  | cons name names ih =>
    rw [List.cons_append, routeAlong, routeAlong]
    cases t.routeTo visible i name with
    | none => rfl
    | some step =>
      simp only [ih]
      cases t.routeAlong visible (step.getLastD i) names with
      | none => rfl
      | some route =>
        simp [Function.comp_def, List.append_assoc]

section Unique

variable (unique : t.UniqueNames)

include unique

theorem UniqueNames.offers_iff :
    t.Offers visible n name j ↔ (t.child? n name).filter visible = some j := by
  rw [Option.filter_eq_some_iff, unique.child?_eq_some]
  constructor
  · rintro ⟨member, named, shown⟩
    obtain ⟨s, there, parent⟩ := mem_children_iff.1 member
    rw [name?, there, Option.map_some, Option.some.injEq] at named
    exact ⟨⟨s, there, parent, named⟩, shown⟩
  · rintro ⟨⟨s, there, parent, named⟩, shown⟩
    exact ⟨mem_children_iff.2 ⟨s, there, parent⟩, by rw [name?, there, ← named]; rfl, shown⟩

theorem UniqueNames.filter_child?_eq_none :
    (t.child? n name).filter visible = none ↔ ∀ j, ¬t.Offers visible n name j := by
  rw [Option.eq_none_iff_forall_ne_some]
  exact forall_congr' fun j => not_congr unique.offers_iff.symm

end Unique

end ScopeTable

/--
A look-up finds nothing exactly if nothing in the closure of the start offers the name, and leads
otherwise to what the first scope there offers, with the transparent scopes that were crossed on
the way. A path is followed name by name, and the names of a path lead to the scope that has it.
-/
theorem ScopeTree.routes_characterized {τ π : Type} {t : ScopeTree τ π} {number : Nat}
    (grown : t.Grown number) (visible : Nat → Bool) (i : Nat) :
    (∀ n, n ∈ t.inlineClosure visible i ↔ ∃ crossed, t.Crosses visible i crossed n) ∧
    (∀ name, t.routeTo visible i name = none ↔
      ∀ n ∈ t.inlineClosure visible i, ∀ j, ¬t.Offers visible n name j) ∧
    (∀ name route, t.routeTo visible i name = some route →
      ∃ before n after crossed j, t.inlineClosure visible i = before ++ n :: after ∧
        (∀ m ∈ before, ∀ k, ¬t.Offers visible m name k) ∧ t.Offers visible n name j ∧
        t.Crosses visible i crossed n ∧ route = crossed ++ [j]) ∧
    (∀ names route, t.routeAlong visible i names = some route →
      t.Descends i route ∧ (∀ k ∈ route, visible k = true) ∧ t.Spells route names) ∧
    (∀ names names',
      t.routeAlong visible i (names ++ names') = ((t.routeAlong visible i names).bind fun route =>
        (t.routeAlong visible (route.getLastD i) names').map (route ++ ·)) ∧
      t.reach visible i (names ++ names') =
        (t.reach visible i names).bind fun j => t.reach visible j names') ∧
    ∀ j, i ∈ t.chain j → ∃ below, t.path j = t.path i ++ below ∧
      t.reach ScopeTable.everything i below = some j := by
  have unique := grown.uniqueNames
  refine ⟨fun n => ScopeTable.mem_inlineClosure_iff, ?_, ?_, ?_, ?_, ?_⟩
  · intro name
    simp only [ScopeTable.routeTo_eq_none, unique.filter_child?_eq_none]
  · intro name route found
    obtain ⟨before, n, after, crossed, j, closure, first, child, crosses, whole⟩ :=
      ScopeTable.routeTo_eq_some found
    simp only [unique.filter_child?_eq_none] at first
    exact ⟨before, n, after, crossed, j, closure, first, unique.offers_iff.2 child, crosses, whole⟩
  · intro names route found
    exact ScopeTable.routeAlong_eq_some found
  · intro names names'
    refine ⟨ScopeTable.routeAlong_append, ?_⟩
    simp only [ScopeTable.reach_eq_follow, ScopeTable.follow_append]
  · intro j around
    obtain ⟨below, path, led⟩ := unique.exists_follow_below around fun _ _ => rfl
    exact ⟨below, path, ScopeTable.reach_eq_follow.trans led⟩

-- With the transparent `U` out of sight, `B` is found in `W`, which is transparent inside `V`.
theorem ScopeTree.routes_characterized_of_hidden :
    ∃ (t : ScopeTree Nat Int) (visible : Nat → Bool), t.Grown 0 ∧
      t.inlineClosure visible 0 = [0, 3, 4] ∧
      t.routeTo visible 0 "B" = some [3, 4, 5] ∧ t.Spells [3, 4, 5] ["B"] ∧
      t.routeTo visible 0 "U" = none ∧ t.reach ScopeTable.everything 0 ["U", "B"] = some 2 := by
  let within (parent : Nat) (name : Segment) (isInline : Bool) : Scope Nat Int :=
    ⟨parent, name, none, some 1, isInline, none⟩
  let u := within 0 ⟨"U", by decide, by decide⟩ true
  let v := within 0 ⟨"V", by decide, by decide⟩ true
  let w := within 3 ⟨"W", by decide, by decide⟩ true
  let b (parent : Nat) := within parent ⟨"B", by decide, by decide⟩ false
  let t : ScopeTree Nat Int := ⟨⟨#[u, b 1, v, w, b 4], by decide⟩, 0, []⟩
  have first : (⟨⟨#[u], by decide⟩, 0, []⟩ : ScopeTree Nat Int).Grown 0 :=
    Grown.new.add (s := u) (by decide) (by cbv)
  have second : (⟨⟨#[u, b 1], by decide⟩, 0, []⟩ : ScopeTree Nat Int).Grown 0 :=
    first.add (s := b 1) (by decide) (by cbv)
  have third : (⟨⟨#[u, b 1, v], by decide⟩, 0, []⟩ : ScopeTree Nat Int).Grown 0 :=
    second.add (s := v) (by decide) (by cbv)
  have fourth : (⟨⟨#[u, b 1, v, w], by decide⟩, 0, []⟩ : ScopeTree Nat Int).Grown 0 :=
    third.add (s := w) (by decide) (by cbv)
  have grown : t.Grown 0 := fourth.add (s := b 4) (by decide) (by cbv)
  let visible (k : Nat) : Bool := k != 1
  have closure : t.inlineClosure visible 0 = [0, 3, 4] := by cbv
  have found : t.routeTo visible 0 "B" = some [3, 4, 5] := by cbv
  have along : t.routeAlong visible 0 ["B"] = some [3, 4, 5] := by cbv
  have unseen : t.routeTo visible 0 "U" = none := by cbv
  have path : t.path 2 = ["U", "B"] := by cbv
  have outermost : t.path 0 = [] := ScopeTable.path_of_none rfl
  have around : 0 ∈ t.chain 2 := by
    have chain : t.chain 2 = [2, 1, 0] := by cbv
    simp [chain]
  obtain ⟨_, _, _, spelt, _, led⟩ := routes_characterized grown visible 0
  obtain ⟨below, whole, reached⟩ := led 2 around
  rw [path, outermost, List.nil_append] at whole
  exact ⟨t, visible, grown, closure, found, (spelt _ _ along).2.2, unseen, whole ▸ reached⟩

end ScopedNames

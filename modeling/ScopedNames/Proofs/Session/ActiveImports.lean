import ScopedNames.Proofs.Scope.Grown
import ScopedNames.Proofs.Scope.Qualified
import ScopedNames.Proofs.Session.Imports

set_option autoImplicit false

namespace ScopedNames

theorem eraseDups_map_pairwise {α β : Type} [DecidableEq β] {R : α → α → Prop} (key : α → β) :
    ∀ {xs : List α}, xs.Pairwise R → (xs.map key).eraseDups.Pairwise fun i j =>
      i ≠ j ∧ ∃ a ∈ xs, key a = i ∧ ∀ b ∈ xs, key b = j → R a b
  | [], _ => .nil
  | x :: xs, ordered => by
    obtain ⟨first, rest⟩ := List.pairwise_cons.1 ordered
    have others := eraseDups_map_pairwise key (rest.filter fun y => !key y == key x)
    have apart : ∀ {j}, j ∈ ((xs.filter fun y => !key y == key x).map key).eraseDups →
        j ≠ key x := by
      intro j member
      obtain ⟨y, kept, rfl⟩ := List.mem_map.1 (List.mem_eraseDups.1 member)
      simpa using (List.mem_filter.1 kept).2
    rw [List.map_cons, List.eraseDups_cons, List.filter_map]
    refine List.pairwise_cons.2 ⟨?_, others.imp_of_mem ?_⟩
    · intro j member
      refine ⟨(apart member).symm, x, List.mem_cons_self, rfl, ?_⟩
      intro b within keyed
      rcases List.mem_cons.1 within with rfl | later
      · exact absurd keyed.symm (apart member)
      · exact first b later
    · rintro i j member member' ⟨different, a, kept, keyed, before⟩
      refine ⟨different, a, List.mem_cons_of_mem x (List.mem_filter.1 kept).1, keyed, ?_⟩
      intro b within keyed'
      have other := apart member'
      rcases List.mem_cons.1 within with rfl | later
      · exact absurd keyed'.symm other
      · exact before b (List.mem_filter.2 ⟨later, by simp [keyed', other]⟩) keyed'
termination_by xs => xs.length
decreasing_by
  have shorter := List.length_filter_le (fun y => !key y == key x) xs
  simp only [List.length_cons]
  omega

variable {τ π : Type} [LinearOrder π] {recorded recorded' : List (Import π)}
variable {chain chain' : List Nat} {now p : π} {i j number : Nat} {a b : π × Nat}

/-- A directive of the chain opens the scope from this position on. -/
def Opens (recorded : List (Import π)) (chain : List Nat) (now p : π) (i : Nat) : Prop :=
  ∃ d ∈ recorded, d.scope ∈ chain ∧ d.target = some i ∧ d.position = some p ∧ p < now

def FirstOpens (recorded : List (Import π)) (chain : List Nat) (now p : π) (i : Nat) : Prop :=
  IsLeast {p | Opens recorded chain now p i} p

/-- Directives that each scope lists by position, where some may tie; the targets are scopes of `t`. -/
structure ListedInOrder (t : ScopeTable τ π) (recorded : List (Import π)) : Prop where
  positioned : ∀ d ∈ recorded, ∃ p, d.position = some p
  ordered : ∀ i, (importsIn recorded i).Pairwise fun d d' => before d'.position d.position = false
  known : ∀ d ∈ recorded, ∀ i, d.target = some i → i < t.size

namespace ScopeTable

variable {t : ScopeTable τ π}

def importKey (t : ScopeTable τ π) (a : π × Nat) : π ×ₗ List String := toLex (a.1, t.path a.2)

theorem importLE_eq_decide : t.importLE a b = decide (t.importKey a ≤ t.importKey b) := by
  rw [Bool.eq_iff_iff, decide_eq_true_iff, importKey, importKey, Prod.Lex.toLex_le_toLex, importLE]
  simp only [Bool.or_eq_true, Bool.and_eq_true, Bool.not_eq_true', decide_eq_true_eq,
    decide_eq_false_iff_not, not_lt]
  constructor
  · rintro (less | ⟨le, path⟩)
    · exact .inl less
    · exact (lt_or_eq_of_le le).imp_right fun same => ⟨same, path⟩
  · rintro (less | ⟨same, path⟩)
    · exact .inl less
    · exact .inr ⟨le_of_eq same, path⟩

theorem mergeSort_importLE_pairwise (xs : List (π × Nat)) :
    (xs.mergeSort t.importLE).Pairwise fun a b => t.importKey a ≤ t.importKey b := by
  have sorted : (xs.mergeSort t.importLE).Pairwise fun a b => t.importLE a b = true := by
    apply List.pairwise_mergeSort
    · intro a b c first second
      rw [importLE_eq_decide, decide_eq_true_iff] at first second ⊢
      exact le_trans first second
    · intro a b
      simpa [importLE_eq_decide] using le_total (t.importKey a) (t.importKey b)
  exact sorted.imp fun le => by simpa [importLE_eq_decide] using le

end ScopeTable

theorem issuedBefore_congr {now : Option π}
    (same : importsIn recorded' i = importsIn recorded i) :
    issuedBefore recorded' now i = issuedBefore recorded now i := by
  rw [issuedBefore, same, issuedBefore]

theorem opens_congr (same : ∀ i, i ∈ chain' ↔ i ∈ chain) :
    Opens recorded chain' now = Opens recorded chain now := by
  funext p i
  simp only [Opens, same]

namespace ListedInOrder

variable {t : ScopeTable τ π}

theorem mem_issuedBefore (listed : ListedInOrder t recorded) :
    a ∈ issuedBefore recorded (some now) i ↔
      ∃ d ∈ recorded, d.scope = i ∧ d.target = some a.2 ∧ d.position = some a.1 ∧ a.1 < now := by
  -- Whatever stands behind a directive that comes too late comes too late itself.
  have closed : (importsIn recorded i).Pairwise fun d d' =>
      before d'.position (some now) = true → before d.position (some now) = true := by
    refine (listed.ordered i).imp_of_mem ?_
    intro d d' member member' order early
    obtain ⟨p, positioned⟩ := listed.positioned d (List.mem_filter.1 member).1
    obtain ⟨p', positioned'⟩ := listed.positioned d' (List.mem_filter.1 member').1
    simp only [positioned, positioned', before, decide_eq_true_eq, decide_eq_false_iff_not,
      not_lt] at order early ⊢
    exact lt_of_le_of_lt order early
  have whole : issuedBefore recorded (some now) i =
      ((importsIn recorded i).filter fun d => before d.position (some now)).filterMap
        Import.opening := by
    rw [← takeWhile_eq_filter closed]
    rfl
  simp only [whole, List.mem_filterMap, List.mem_filter, importsIn, beq_iff_eq,
    Import.opening_eq_some]
  constructor
  · rintro ⟨d, ⟨⟨member, here⟩, early⟩, positioned, target⟩
    refine ⟨d, member, here, target, positioned, ?_⟩
    simpa [positioned, before] using early
  · rintro ⟨d, member, here, target, positioned, early⟩
    exact ⟨d, ⟨⟨member, here⟩, by simpa [positioned, before] using early⟩, positioned, target⟩

theorem mem_sorted (listed : ListedInOrder t recorded) :
    a ∈ (chain.flatMap (issuedBefore recorded (some now))).mergeSort t.importLE ↔
      Opens recorded chain now a.1 a.2 := by
  simp only [List.mem_mergeSort, List.mem_flatMap, listed.mem_issuedBefore, Opens]
  constructor
  · rintro ⟨i, around, d, member, rfl, opens⟩
    exact ⟨d, member, around, opens⟩
  · rintro ⟨d, member, around, opens⟩
    exact ⟨d.scope, around, d, member, rfl, opens⟩

theorem mem_activeImports (listed : ListedInOrder t recorded) :
    i ∈ t.activeImports recorded chain (some now) ↔ ∃ p, Opens recorded chain now p i := by
  rw [ScopeTable.activeImports, List.mem_eraseDups, List.mem_map]
  constructor
  · rintro ⟨a, member, rfl⟩
    exact ⟨a.1, listed.mem_sorted.1 member⟩
  · rintro ⟨p, opens⟩
    exact ⟨(p, i), listed.mem_sorted.2 opens, rfl⟩

theorem exists_firstOpens (listed : ListedInOrder t recorded)
    (opens : Opens recorded chain now p i) : ∃ first, FirstOpens recorded chain now first i := by
  let sorted := (chain.flatMap (issuedBefore recorded (some now))).mergeSort t.importLE
  let positions := ((sorted.filter fun a => a.2 == i).map (·.1)).toFinset
  have same : ∀ p, p ∈ positions ↔ Opens recorded chain now p i := by
    intro p
    simp only [positions, sorted, List.mem_toFinset, List.mem_map, List.mem_filter, beq_iff_eq]
    constructor
    · rintro ⟨a, ⟨member, rfl⟩, rfl⟩
      exact listed.mem_sorted.1 member
    · intro opens
      exact ⟨(p, i), ⟨listed.mem_sorted.2 opens, rfl⟩, rfl⟩
  have some : positions.Nonempty := ⟨p, (same p).2 opens⟩
  obtain ⟨member, least⟩ := positions.isLeast_min' some
  exact ⟨positions.min' some, (same _).1 member, fun p opens => least ((same p).2 opens)⟩

theorem lt_size (listed : ListedInOrder t recorded) (opens : Opens recorded chain now p i) :
    i < t.size := by
  obtain ⟨d, member, _, target, _⟩ := opens
  exact listed.known d member i target

end ListedInOrder

theorem Accepted.grown {s s' : Session τ π} {c : Call τ π} {reply : Reply π}
    (accepted : Accepted s c reply s') (grown : s.tree.Grown number) : s'.tree.Grown number := by
  cases accepted with
  | @reopened segment parent _ tag p isInline location there =>
    have declared := grown.declare segment parent tag (some p) isInline location
    rwa [ScopeTree.declare, there] at declared
  | @declared segment parent tag p isInline location fresh =>
    have declared := grown.declare segment parent tag (some p) isInline location
    rwa [ScopeTree.declare, fresh] at declared
  | imported | answered => exact grown

theorem Reachable.grown {s : Session τ π} (reachable : Reachable number s) :
    s.tree.Grown number := by
  induction reachable with
  | new => exact .new
  | call _ c ih =>
    rcases Call.after_perform c _ with same | ⟨reply, accepted⟩
    · rw [same]
      exact ih
    · exact accepted.grown ih

-- Sessions list their directives so, and no two of them tie.
theorem Session.Invariant.listedInOrder {s : Session τ π} (inv : s.Invariant) :
    ListedInOrder s.tree.toScopeTable s.recorded where
  positioned d member := by
    obtain ⟨p, _, positioned, _⟩ := inv.import_reached d (inv.recorded_eq ▸ member)
    exact ⟨p, positioned⟩
  ordered i := by
    rw [inv.recorded_eq]
    refine (inv.import_order.filter _).imp ?_
    intro d d' order
    obtain ⟨p, p', positioned, positioned', less⟩ := before_eq_true.1 order
    simp [positioned, positioned', before, le_of_lt less]
  known d member i target := by
    obtain ⟨a, there, _⟩ := inv.import_target d (inv.recorded_eq ▸ member) i target
    exact ScopeTable.lt_size_of_scope? there

/-- By the position of the first directive that opens a scope, and by its path where those tie. -/
def OpensBefore (t : ScopeTable τ π) (recorded : List (Import π)) (chain : List Nat) (now : π)
    (i j : Nat) : Prop :=
  ∃ p p', FirstOpens recorded chain now p i ∧ FirstOpens recorded chain now p' j ∧
    (p < p' ∨ p = p' ∧ t.path i < t.path j)

section Order

variable {t : ScopeTable τ π}

theorem OpensBefore.asymm (forth : OpensBefore t recorded chain now i j)
    (back : OpensBefore t recorded chain now j i) : i = j := by
  obtain ⟨p, p', first, second, order⟩ := forth
  obtain ⟨q', q, second', first', order'⟩ := back
  obtain rfl := first.unique first'
  obtain rfl := second.unique second'
  rw [← Prod.Lex.toLex_lt_toLex (x := (p, t.path i)) (y := (p', t.path j))] at order
  rw [← Prod.Lex.toLex_lt_toLex (x := (p', t.path j)) (y := (p, t.path i))] at order'
  exact absurd order' (lt_asymm order)

theorem ListedInOrder.activeImports_pairwise (listed : ListedInOrder t recorded)
    (unique : t.UniqueNames) (chain : List Nat) (now : π) :
    (t.activeImports recorded chain (some now)).Pairwise fun i j =>
      i ≠ j ∧ OpensBefore t recorded chain now i j := by
  have sorted := t.mergeSort_importLE_pairwise (chain.flatMap (issuedBefore recorded (some now)))
  refine (eraseDups_map_pairwise (·.2) sorted).imp_of_mem ?_
  rintro i j member member' ⟨different, a, inside, rfl, least⟩
  obtain ⟨_, opens⟩ := listed.mem_activeImports.1 member
  obtain ⟨_, opens'⟩ := listed.mem_activeImports.1 member'
  obtain ⟨p, first⟩ := listed.exists_firstOpens opens
  obtain ⟨p', first'⟩ := listed.exists_firstOpens opens'
  refine ⟨different, p, p', first, first', ?_⟩
  -- The first pair of the one target is below every pair of the other one.
  have upper : t.importKey (p, a.2) ≤ t.importKey a :=
    Prod.Lex.toLex_mono ⟨first.2 (listed.mem_sorted.1 inside), le_refl _⟩
  have lower := least (p', j) (listed.mem_sorted.2 first'.1) rfl
  have apart : t.importKey (p, a.2) ≠ t.importKey (p', j) := by
    intro same
    have paths : t.path a.2 = t.path j := congrArg (fun k => (ofLex k).2) same
    exact different
      (unique.path_injective (listed.lt_size opens) (listed.lt_size opens') paths)
  exact Prod.Lex.toLex_lt_toLex.1 (lt_of_le_of_ne (le_trans upper lower) apart)

end Order

/--
What is open in a chain of scopes is what their directives have opened by then, each scope once and
in the order in which it was first opened; neither the order of the chain matters nor how the
directives of different scopes were interleaved.
-/
theorem activeImports_characterized {t : ScopeTree τ π} (grown : t.Grown number)
    (listed : ListedInOrder t.toScopeTable recorded) (chain : List Nat) (now : π) :
    (t.activeImports recorded chain (some now)).Nodup ∧
    (∀ i, i ∈ t.activeImports recorded chain (some now) ↔ ∃ p, Opens recorded chain now p i) ∧
    (t.activeImports recorded chain (some now)).Pairwise
      (OpensBefore t.toScopeTable recorded chain now) ∧
    ∀ recorded' chain', (∀ i, i ∈ chain' ↔ i ∈ chain) →
      (∀ i ∈ chain, importsIn recorded' i = importsIn recorded i) →
      t.activeImports recorded' chain' (some now) = t.activeImports recorded chain (some now) := by
  have pairwise := listed.activeImports_pairwise grown.uniqueNames
  have distinct : ∀ chain, (t.activeImports recorded chain (some now)).Nodup := fun chain =>
    (pairwise chain now).imp And.left
  refine ⟨distinct chain, fun i => listed.mem_activeImports, (pairwise chain now).imp And.right, ?_⟩
  intro recorded' chain' members lists
  have each : ∀ i ∈ chain', issuedBefore recorded' (some now) i =
      issuedBefore recorded (some now) i := fun i member =>
    issuedBefore_congr (lists i ((members i).1 member))
  have relisted : t.activeImports recorded' chain' (some now) =
      t.activeImports recorded chain' (some now) := by
    rw [ScopeTable.activeImports, ScopeTable.activeImports, List.flatMap_congr each]
  have same : ∀ i, i ∈ t.activeImports recorded chain' (some now) ↔
      i ∈ t.activeImports recorded chain (some now) := by
    intro i
    rw [listed.mem_activeImports, listed.mem_activeImports, opens_congr members]
  have ordered' := pairwise chain' now
  simp only [OpensBefore, FirstOpens, opens_congr members] at ordered'
  rw [relisted]
  refine List.Perm.eq_of_pairwise ?_ ordered' (pairwise chain now) ?_
  · intro i j _ _ forth back
    exact OpensBefore.asymm forth.2 back.2
  · exact (List.perm_ext_iff_of_nodup (distinct chain') (distinct chain)).2 same

-- `A` stands before `B`, which ties with it, and once, although `C` opens it again later.
theorem activeImports_characterized_of_tie :
    ∃ (t : ScopeTree Nat Int) (recorded shuffled : List (Import Int)),
      t.Grown 0 ∧ ListedInOrder t.toScopeTable recorded ∧
      t.activeImports recorded [3, 0] (some 9) = [1, 2] ∧
      OpensBefore t.toScopeTable recorded [3, 0] 9 1 2 ∧
      shuffled ≠ recorded ∧ t.activeImports shuffled [0, 3] (some 9) = [1, 2] := by
  let a : Segment := ⟨"A", by decide, by decide⟩
  let b : Segment := ⟨"B", by decide, by decide⟩
  let c : Segment := ⟨"C", by decide, by decide⟩
  let beside (t : ScopeTree Nat Int) (name : Segment) (position : Int) : ScopeTree Nat Int :=
    (t.declare name ⟨0, Nat.succ_pos _⟩ none (some position) false none).1
  let t := beside (beside (beside (.new 0) a 1) b 2) c 3
  have grown : t.Grown 0 := .declare (.declare (.declare .new a _ _ _ _ _) b _ _ _ _ _) c _ _ _ _ _
  let opening (name : Segment) (target : Option Nat) (scope : Nat) (position : Int) : Import Int :=
    ⟨⟨[name], false, by simp⟩, target, scope, some position⟩
  let recorded : List (Import Int) :=
    [opening b (some 2) 3 5, opening a (some 1) 3 8, opening a (some 1) 0 5, opening c none 0 6,
      opening b (some 2) 0 9]
  let shuffled : List (Import Int) :=
    [opening a (some 1) 0 5, opening b (some 2) 3 5, opening c none 0 6, opening a (some 1) 3 8,
      opening b (some 2) 0 9]
  have listed : ListedInOrder t.toScopeTable recorded := {
    positioned := by simp [recorded, opening]
    ordered := by
      intro i
      by_cases outer : i = 0
      · subst outer
        simp [importsIn, recorded, opening, before]
      by_cases inner : i = 3
      · subst inner
        simp [importsIn, recorded, opening, before]
      simp [importsIn, recorded, opening, Ne.symm outer, Ne.symm inner]
    known := by
      have size : t.size = 4 := by cbv
      simp [recorded, opening, size] }
  obtain ⟨_, _, ordered, same⟩ := activeImports_characterized grown listed [3, 0] 9
  have reordered := same shuffled [0, 3] (by simp [or_comm])
    (by simp [importsIn, recorded, shuffled, opening])
  have active : t.activeImports recorded [3, 0] (some 9) = [1, 2] := by cbv
  refine ⟨t, recorded, shuffled, grown, listed, active, ?_, ?_, reordered.trans active⟩
  · rw [active] at ordered
    exact List.rel_of_pairwise_cons ordered List.mem_cons_self
  · simp [recorded, shuffled, opening]

end ScopedNames

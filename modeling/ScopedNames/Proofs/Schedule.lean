import Mathlib
import ScopedNames.Schedule

set_option autoImplicit false

namespace ScopedNames.Schedule

variable {α σ : Type}

section Spec

variable (s : Schedule α)

def Closed : Prop := ∀ pass ∈ s.registered, s.requires pass ⊆ s.registered

def Needs (pass required : α) : Prop := pass ∈ s.registered ∧ required ∈ s.requires pass

def Acyclic : Prop := ∀ pass, ¬ Relation.TransGen s.Needs pass pass

def InOrder (passes : List α) : Prop :=
  ∀ front pass back, passes = front ++ pass :: back → s.requires pass ⊆ front

/-- Every registered pass stands here once, behind all that it requires. -/
structure Sorts (passes : List α) : Prop where
  all : passes.Perm s.registered
  once : passes.Nodup
  after : s.InOrder passes

-- No pass comes twice, however often it is registered: its count is used up.
structure Distinct (a : Agenda α) (done : List α) : Prop where
  once : (done ++ a.queue).Nodup
  known : done ++ a.queue ⊆ s.registered
  spent : ∀ pass ∈ done ++ a.queue, a.unmet pass ≤ 0

end Spec

variable {s : Schedule α} {a : Agenda α} {done queue passes : List α} {pass other : α}

theorem Distinct.pop (distinct : s.Distinct a done) (next : a.queue = pass :: queue) :
    s.Distinct { a with queue } (done ++ [pass]) := by
  obtain ⟨once, known, spent⟩ := distinct
  have same : done ++ a.queue = done ++ [pass] ++ queue := by simp [next]
  rw [same] at once known spent
  exact ⟨once, known, spent⟩

theorem InOrder.snoc (ordered : s.InOrder done) (met : s.requires pass ⊆ done) :
    s.InOrder (done ++ [pass]) := by
  intro front other back split
  rcases List.eq_nil_or_concat' back with rfl | ⟨rest, last, rfl⟩
  · obtain ⟨rfl, same⟩ := List.append_inj' split rfl
    rwa [← List.head_eq_of_cons_eq same]
  · rw [← List.cons_append, ← List.append_assoc] at split
    exact ordered front other rest (List.append_inj' split rfl).1

-- Where the requirements run in no circle, a pass that is left over has one that is left too.
theorem Acyclic.all (acyclic : s.Acyclic) (closed : s.Closed)
    (ready : ∀ pass ∈ s.registered, s.requires pass ⊆ passes → pass ∈ passes) :
    s.registered ⊆ passes := by
  let below (required pass : α) : Prop := Relation.TransGen s.Needs pass required
  have : Std.Irrefl below := ⟨acyclic⟩
  have : IsTrans α below := ⟨fun _ _ _ first second => second.trans first⟩
  have : IsStrictOrder α below := {}
  have founded : {pass | pass ∈ s.registered}.WellFoundedOn below :=
    (List.finite_toSet s.registered).wellFoundedOn
  intro pass registered
  refine founded.induction registered fun pass registered ih => ready pass registered ?_
  intro required needed
  exact ih required (closed pass registered needed) (.single ⟨registered, needed⟩)

theorem Sorts.closed (sorts : s.Sorts passes) : s.Closed := by
  intro pass registered required needed
  obtain ⟨front, back, rfl⟩ := List.append_of_mem (sorts.all.mem_iff.2 registered)
  have before := sorts.after front pass back rfl needed
  exact sorts.all.mem_iff.1 (List.mem_append_left _ before)

variable [DecidableEq α]

theorem Sorts.acyclic (sorts : s.Sorts passes) : s.Acyclic := by
  have earlier {pass required : α} (needs : s.Needs pass required) :
      passes.idxOf required < passes.idxOf pass := by
    obtain ⟨registered, needed⟩ := needs
    obtain ⟨front, back, rfl⟩ := List.append_of_mem (sorts.all.mem_iff.2 registered)
    have before := sorts.after front pass back rfl needed
    have absent : pass ∉ front := fun twice =>
      List.disjoint_of_nodup_append sorts.once twice List.mem_cons_self
    rw [List.idxOf_append_of_mem before, List.idxOf_append_of_notMem absent]
    have := List.idxOf_lt_length_of_mem before
    omega
  have all {pass required : α} (path : Relation.TransGen s.Needs pass required) :
      passes.idxOf required < passes.idxOf pass := by
    induction path with
    | single needs => exact earlier needs
    | tail _ needs ih => exact Nat.lt_trans (earlier needs) ih
  exact fun pass circle => Nat.lt_irrefl _ (all circle)

theorem nodup_eraseDups (xs : List α) : xs.eraseDups.Nodup := by
  match xs with
  | [] => simp
  | x :: xs =>
    rw [List.eraseDups_cons, List.nodup_cons]
    exact ⟨by simp, nodup_eraseDups (xs.filter fun y => !y == x)⟩
termination_by xs.length
decreasing_by
  have := List.length_filter_le (fun y => !y == x) xs
  simp only [List.length_cons]
  omega

theorem countDown_self (unmet : α → Int) : countDown unmet pass pass = unmet pass - 1 := by
  simp [countDown]

theorem countDown_ne (unmet : α → Int) (apart : other ≠ pass) :
    countDown unmet pass other = unmet other := by
  simp [countDown, apart]

namespace Distinct

theorem release (distinct : s.Distinct a done) (current : α) (registered : pass ∈ s.registered) :
    s.Distinct (s.release current a pass) done := by
  unfold Schedule.release
  split
  · have lower : ∀ other ∈ done ++ a.queue, countDown a.unmet pass other ≤ 0 := fun other member =>
      Int.le_trans (countDown_le a.unmet pass other) (distinct.spent other member)
    simp only
    split
    · next last =>
      rw [countDown_self] at last
      -- One requirement was left until now, so that the pass has not been queued before.
      have fresh : pass ∉ done ++ a.queue := by
        intro member
        have := distinct.spent pass member
        omega
      constructor
      case once =>
        rw [← List.append_assoc, List.nodup_append_comm]
        exact List.nodup_cons.2 ⟨fresh, distinct.once⟩
      case known =>
        rw [← List.append_assoc]
        exact List.append_subset.2 ⟨distinct.known, by simpa using registered⟩
      case spent =>
        intro other member
        rw [← List.append_assoc, List.mem_append, List.mem_singleton] at member
        rcases member with old | rfl
        · exact lower other old
        · exact Int.le_of_eq ((countDown_self a.unmet).trans last)
    · exact ⟨distinct.once, distinct.known, lower⟩
  · exact distinct

theorem finish (distinct : s.Distinct a done) (current : α) :
    s.Distinct (s.finish current a) done := by
  have walk (passes : List α) (known : passes ⊆ s.registered) (a : Agenda α)
      (distinct : s.Distinct a done) : s.Distinct (passes.foldl (s.release current) a) done := by
    induction passes generalizing a with
    | nil => exact distinct
    | cons pass passes ih =>
      obtain ⟨first, others⟩ := List.cons_subset.1 known
      exact ih others _ (distinct.release current first)
  exact walk s.registered (fun _ member => member) a distinct

theorem start : s.Distinct s.agenda [] where
  once := (nodup_eraseDups s.registered).filter _
  known pass member := by simpa using (List.mem_filter.1 member).1
  spent pass member := by
    have none := (List.mem_filter.1 member).2
    simp only [decide_eq_true_eq] at none
    exact Int.le_of_eq none

end Distinct

theorem drain_distinct (distinct : s.Distinct a done) :
    (s.drain a done).Nodup ∧ s.drain a done ⊆ s.registered := by
  fun_induction s.drain a done with
  | case1 a done empty =>
    obtain ⟨once, known, _⟩ := distinct
    rw [empty, List.append_nil] at once known
    exact ⟨once, known⟩
  | case2 a done pass queue next shorter ih => exact ih ((distinct.pop next).finish pass)

section Counting

variable (s)

def remaining (done : List α) (pass : α) : List α :=
  (s.requires pass).eraseDups.filter fun required => !done.contains required

-- The counts are those of the requirements that are left, and all that is ready is queued.
structure Counted (a : Agenda α) (done : List α) : Prop where
  count : ∀ pass ∈ s.registered, a.unmet pass = (s.remaining done pass).length
  ready : ∀ pass ∈ s.registered, a.unmet pass = 0 → pass ∈ done ++ a.queue
  after : s.InOrder done

variable {s}

theorem mem_remaining {required : α} :
    required ∈ s.remaining done pass ↔ required ∈ s.requires pass ∧ required ∉ done := by
  simp [remaining]

theorem remaining_eq_nil_iff : s.remaining done pass = [] ↔ s.requires pass ⊆ done := by
  simp only [List.eq_nil_iff_forall_not_mem, mem_remaining, not_and, not_not]
  rfl

theorem foldl_release (once : passes.Nodup) (a : Agenda α) (current : α) :
    (∀ pass, (passes.foldl (s.release current) a).unmet pass =
      if pass ∈ passes ∧ current ∈ s.requires pass then a.unmet pass - 1 else a.unmet pass) ∧
    (passes.foldl (s.release current) a).queue = a.queue ++
      passes.filter fun pass => current ∈ s.requires pass ∧ a.unmet pass = 1 := by
  induction passes generalizing a with
  | nil => simp
  | cons first passes ih =>
    obtain ⟨apart, once⟩ := List.nodup_cons.1 once
    obtain ⟨counts, queue⟩ := ih once (s.release current a first)
    have others : ∀ pass, pass ≠ first → (s.release current a first).unmet pass = a.unmet pass := by
      intro pass differs
      unfold release
      split
      · exact countDown_ne a.unmet differs
      · rfl
    have same : passes.filter (fun pass => current ∈ s.requires pass ∧
        (s.release current a first).unmet pass = 1) =
        passes.filter fun pass => current ∈ s.requires pass ∧ a.unmet pass = 1 :=
      List.filter_congr fun pass member => by
        rw [others pass fun same => apart (same ▸ member)]
    rw [List.foldl_cons, queue, same]
    constructor
    · intro pass
      rw [counts]
      by_cases here : pass = first
      · subst here
        by_cases needed : current ∈ s.requires pass <;> simp [release, apart, needed, countDown_self]
      · simp [others pass here, here]
    · by_cases needed : current ∈ s.requires first
      · by_cases last : a.unmet first = 1
        · simp [release, needed, countDown_self, last]
        · have more : a.unmet first - 1 ≠ 0 := by omega
          simp [release, needed, countDown_self, last, more]
      · simp [release, needed]

theorem length_remaining_snoc (fresh : other ∉ done) :
    ((s.remaining (done ++ [other]) pass).length : Int) =
      if other ∈ s.requires pass then ((s.remaining done pass).length : Int) - 1
      else (s.remaining done pass).length := by
  have once : (s.remaining done pass).Nodup := (nodup_eraseDups _).filter _
  have less : s.remaining (done ++ [other]) pass = (s.remaining done pass).erase other := by
    rw [once.erase_eq_filter, remaining, remaining, List.filter_filter]
    exact List.filter_congr fun required _ => by
      by_cases here : required = other <;> simp [here, bne]
  rw [less, List.length_erase]
  by_cases needed : other ∈ s.requires pass
  · have left : other ∈ s.remaining done pass := mem_remaining.2 ⟨needed, fresh⟩
    have := List.length_pos_of_mem left
    rw [if_pos left, if_pos needed]
    omega
  · have absent : other ∉ s.remaining done pass := fun left => needed (mem_remaining.1 left).1
    rw [if_neg absent, if_neg needed]

namespace Counted

theorem start : s.Counted s.agenda [] where
  count pass _ := by simp [agenda, remaining]
  ready pass registered none := by
    rw [List.nil_append]
    exact List.mem_filter.2 ⟨by simpa using registered, decide_eq_true none⟩
  after front pass back split := by simp at split

theorem met (counted : s.Counted a done) (registered : pass ∈ s.registered)
    (spent : a.unmet pass ≤ 0) : s.requires pass ⊆ done := by
  rw [← remaining_eq_nil_iff, ← List.length_eq_zero_iff]
  have := counted.count pass registered
  omega

theorem step (once : s.registered.Nodup) (distinct : s.Distinct a done)
    (counted : s.Counted a done) (next : a.queue = pass :: queue) :
    s.Counted (s.finish pass { a with queue }) (done ++ [pass]) := by
  obtain ⟨counts, queued⟩ := foldl_release once { a with queue } pass
  have here : pass ∈ done ++ a.queue := by simp [next]
  have fresh : pass ∉ done := fun before =>
    List.disjoint_of_nodup_append distinct.once before (by simp [next])
  constructor
  case count =>
    intro other registered
    rw [finish, counts, length_remaining_snoc fresh]
    simp only [registered, true_and, counted.count other registered]
  case ready =>
    intro other registered none
    rw [finish, counts] at none
    rw [finish, queued]
    by_cases needed : pass ∈ s.requires other
    · -- The count falls to zero just now, so that the pass is queued just now.
      rw [if_pos ⟨registered, needed⟩] at none
      have last : a.unmet other = 1 := by simpa [sub_eq_zero] using none
      simp [registered, needed, last]
    · rw [if_neg fun both => needed both.2] at none
      have before := counted.ready other registered none
      rw [next, List.mem_append, List.mem_cons] at before
      simp only [List.mem_append, List.mem_singleton]
      tauto
  case after =>
    exact counted.after.snoc (counted.met (distinct.known here) (distinct.spent pass here))

end Counted

theorem drain_counted (once : s.registered.Nodup) (distinct : s.Distinct a done)
    (counted : s.Counted a done) :
    s.InOrder (s.drain a done) ∧
      ∀ pass ∈ s.registered, s.requires pass ⊆ s.drain a done → pass ∈ s.drain a done := by
  fun_induction s.drain a done with
  | case1 a done empty =>
    refine ⟨counted.after, fun pass registered met => ?_⟩
    have none := remaining_eq_nil_iff.2 met
    have queued := counted.ready pass registered (by simp [counted.count pass registered, none])
    rwa [empty, List.append_nil] at queued
  | case2 a done pass queue next shorter ih =>
    exact ih ((distinct.pop next).finish pass) (counted.step once distinct next)

end Counting

theorem sorts_drain (enough : (s.drain s.agenda []).length = s.registered.length) :
    s.Sorts (s.drain s.agenda []) := by
  obtain ⟨once, known⟩ := drain_distinct (s := s) .start
  have all : (s.drain s.agenda []).Perm s.registered :=
    (List.subperm_of_subset once known).perm_of_length_le (Nat.le_of_eq enough.symm)
  exact ⟨all, once, (drain_counted (all.nodup_iff.1 once) .start .start).1⟩

theorem length_drain (once : s.registered.Nodup) (closed : s.Closed) (acyclic : s.Acyclic) :
    (s.drain s.agenda []).length = s.registered.length := by
  obtain ⟨done, known⟩ := drain_distinct (s := s) .start
  have all := acyclic.all closed (drain_counted once .start .start).2
  exact Nat.le_antisymm (List.subperm_of_subset done known).length_le
    (List.subperm_of_subset once all).length_le

theorem mem_missing {required : α} :
    required ∈ s.missing pass ↔ required ∈ s.requires pass ∧ required ∉ s.registered := by
  simp [missing]

theorem missing_eq_nil_iff : s.missing pass = [] ↔ s.requires pass ⊆ s.registered := by
  simp only [List.eq_nil_iff_forall_not_mem, mem_missing, not_and, not_not]
  rfl

theorem order_of_closed (closed : s.Closed) :
    s.order = if (s.drain s.agenda []).length = s.registered.length
      then .ok (s.drain s.agenda []) else .error .circular := by
  have none : (s.registered.find? fun pass => !(s.missing pass).isEmpty) = none := by
    rw [List.find?_eq_none]
    intro pass registered
    simp [missing_eq_nil_iff.2 (closed pass registered)]
  rw [order, none]

theorem order_of_not_closed (lacking : ¬s.Closed) :
    ∃ pass ∈ s.registered, s.missing pass ≠ [] ∧
      s.order = .error (.unregistered pass (s.missing pass)) := by
  cases found : s.registered.find? fun pass => !(s.missing pass).isEmpty with
  | none =>
    rw [List.find?_eq_none] at found
    exact absurd (fun pass registered =>
      missing_eq_nil_iff.1 (by simpa using found pass registered)) lacking
  | some pass =>
    refine ⟨pass, List.mem_of_find?_eq_some found, ?_, by rw [order, found]⟩
    have lacks := List.find?_some found
    intro empty
    simp [empty] at lacks

theorem order_sorts (once : s.registered.Nodup) (closed : s.Closed) (acyclic : s.Acyclic) :
    s.order = .ok (s.drain s.agenda []) := by
  rw [order_of_closed closed, if_pos (length_drain once closed acyclic)]

theorem order_circular (closed : s.Closed) (stuck : ¬(s.registered.Nodup ∧ s.Acyclic)) :
    s.order = .error .circular := by
  have short : ¬(s.drain s.agenda []).length = s.registered.length := by
    intro enough
    have sorts := sorts_drain enough
    exact stuck ⟨sorts.all.nodup_iff.1 sorts.once, sorts.acyclic⟩
  rw [order_of_closed closed, if_neg short]

theorem sorts_of_order (ordered : s.order = .ok passes) : s.Sorts passes := by
  by_cases closed : s.Closed
  · rw [order_of_closed closed] at ordered
    split at ordered
    · next enough => exact Except.ok.inj ordered ▸ sorts_drain enough
    · contradiction
  · obtain ⟨pass, _, _, refused⟩ := order_of_not_closed closed
    simp [refused] at ordered

theorem not_closed_of_order {missing : List α}
    (refused : s.order = .error (.unregistered pass missing)) : ¬s.Closed := by
  intro closed
  rw [order_of_closed closed] at refused
  split at refused <;> simp at refused

/--
Passes that are registered once each, with all that they require and in no circle, are sorted; all
others are refused before the first of them runs.
-/
theorem order_exact (s : Schedule α) :
    ((∃ passes, s.order = .ok passes) ↔ s.registered.Nodup ∧ s.Closed ∧ s.Acyclic) ∧
    (∀ passes, s.order = .ok passes → s.Sorts passes) ∧
    ((∃ pass missing, s.order = .error (.unregistered pass missing)) ↔ ¬s.Closed) ∧
    (∀ pass missing, s.order = .error (.unregistered pass missing) →
      pass ∈ s.registered ∧ missing ≠ [] ∧
        ∀ required, required ∈ missing ↔
          required ∈ s.requires pass ∧ required ∉ s.registered) ∧
    (s.order = .error .circular ↔ s.Closed ∧ ¬(s.registered.Nodup ∧ s.Acyclic)) ∧
    ∀ (label : α → String) (run : α → σ → σ × Option Problem) (state : σ),
      (∀ passes, s.order = .ok passes → s.run label run state = runPasses run passes state) ∧
      ∀ fault, s.order = .error fault →
        s.run label run state = (state, some (fault.problem label)) := by
  refine ⟨⟨?sound, ?complete⟩, fun _ => sorts_of_order, ⟨?lacking, ?unregistered⟩, ?missing,
    ⟨?circular, ?stuck⟩, fun label run state => ⟨?runs, ?refused⟩⟩
  case sound =>
    rintro ⟨passes, ordered⟩
    have sorts := sorts_of_order ordered
    exact ⟨sorts.all.nodup_iff.1 sorts.once, sorts.closed, sorts.acyclic⟩
  case complete =>
    rintro ⟨once, closed, acyclic⟩
    exact ⟨_, order_sorts once closed acyclic⟩
  case lacking =>
    rintro ⟨pass, missing, refused⟩
    exact not_closed_of_order refused
  case unregistered =>
    intro lacking
    obtain ⟨pass, _, _, refused⟩ := order_of_not_closed lacking
    exact ⟨pass, _, refused⟩
  case missing =>
    intro pass missing refused
    obtain ⟨first, registered, some, refusal⟩ :=
      order_of_not_closed (not_closed_of_order refused)
    rw [refusal] at refused
    simp only [Except.error.injEq, ScheduleFault.unregistered.injEq] at refused
    obtain ⟨rfl, rfl⟩ := refused
    exact ⟨registered, some, fun _ => mem_missing⟩
  case circular =>
    intro refused
    have closed : s.Closed := by
      by_contra lacking
      obtain ⟨pass, _, _, refusal⟩ := order_of_not_closed lacking
      simp [refusal] at refused
    refine ⟨closed, fun ⟨once, acyclic⟩ => ?_⟩
    simp [order_sorts once closed acyclic] at refused
  case stuck => exact fun ⟨closed, stuck⟩ => order_circular closed stuck
  case runs => intro passes ordered; rw [Schedule.run, ordered]
  case refused => intro fault refused; rw [Schedule.run, refused]

-- A pass that requires nothing and is registered twice comes once and is missed once.
example : (Schedule.mk [0, 0] fun _ : Nat => []).order = .error .circular := by cbv

end ScopedNames.Schedule

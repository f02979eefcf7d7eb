import ScopedNames.Problem

set_option autoImplicit false

namespace ScopedNames

structure Schedule (α : Type) where
  registered : List α
  requires : α → List α

inductive ScheduleFault (α : Type) where
  | unregistered (pass : α) (missing : List α)
  | circular

structure Agenda (α : Type) where
  unmet : α → Int
  queue : List α

namespace Schedule

variable {α : Type} [DecidableEq α]

def missing (s : Schedule α) (pass : α) : List α :=
  ((s.requires pass).filter fun required => !s.registered.contains required).eraseDups

def countDown (unmet : α → Int) (pass : α) : α → Int :=
  fun other => if other = pass then unmet pass - 1 else unmet other

def release (s : Schedule α) (done : α) (a : Agenda α) (pass : α) : Agenda α :=
  if (s.requires pass).contains done then
    let unmet := countDown a.unmet pass
    ⟨unmet, if unmet pass = 0 then a.queue ++ [pass] else a.queue⟩
  else a

-- A pass that is registered twice is counted down twice.
def finish (s : Schedule α) (done : α) (a : Agenda α) : Agenda α :=
  s.registered.foldl (s.release done) a

-- What can still come off the queue at most.
def work (s : Schedule α) (a : Agenda α) : Nat :=
  a.queue.length + s.registered.countP fun pass => 0 < a.unmet pass

theorem countDown_le (unmet : α → Int) (pass other : α) :
    countDown unmet pass other ≤ unmet other := by
  unfold countDown
  split
  · next same => rw [same]; omega
  · exact Int.le_refl _

theorem countP_countDown_le (unmet : α → Int) (pass : α) (passes : List α) :
    passes.countP (0 < countDown unmet pass ·) ≤ passes.countP (0 < unmet ·) := by
  apply List.countP_mono_left
  intro other _ positive
  have := countDown_le unmet pass other
  simp only [decide_eq_true_eq] at positive ⊢
  omega

theorem countP_countDown_lt {unmet : α → Int} {pass : α} {passes : List α} (known : pass ∈ passes)
    (last : unmet pass = 1) :
    passes.countP (0 < countDown unmet pass ·) < passes.countP (0 < unmet ·) := by
  obtain ⟨front, back, rfl⟩ := List.append_of_mem known
  have before := countP_countDown_le unmet pass front
  have behind := countP_countDown_le unmet pass back
  have reached : countDown unmet pass pass = 0 := by simp [countDown, last]
  simp only [List.countP_append, List.countP_cons, reached, last, Int.lt_irrefl, Int.zero_lt_one,
    decide_false, decide_true, Bool.false_eq_true, if_true, if_false]
  omega

theorem work_release_le (s : Schedule α) (done : α) (a : Agenda α) {pass : α}
    (known : pass ∈ s.registered) : s.work (s.release done a pass) ≤ s.work a := by
  unfold release
  split
  · simp only [work]
    split
    · next reached =>
      have last : a.unmet pass = 1 := by simp [countDown] at reached; omega
      have less := countP_countDown_lt known last
      rw [List.length_append, List.length_singleton]
      omega
    · exact Nat.add_le_add_left (countP_countDown_le a.unmet pass s.registered) _
  · exact Nat.le_refl _

theorem work_finish_le (s : Schedule α) (done : α) (a : Agenda α) :
    s.work (s.finish done a) ≤ s.work a := by
  have walk (passes : List α) (known : passes ⊆ s.registered) (a : Agenda α) :
      s.work (passes.foldl (s.release done) a) ≤ s.work a := by
    induction passes generalizing a with
    | nil => exact Nat.le_refl _
    | cons pass passes ih =>
      obtain ⟨first, others⟩ := List.cons_subset.1 known
      exact Nat.le_trans (ih others _) (s.work_release_le done a first)
  exact walk s.registered (fun _ member => member) a

/--
Takes passes off a queue; behind it come those that the last pass made ready, in the order of
registration.
-/
def drain (s : Schedule α) (a : Agenda α) (done : List α) : List α :=
  match h : a.queue with
  | [] => done
  | pass :: queue =>
    have : s.work (s.finish pass { a with queue }) < s.work a := by
      have := s.work_finish_le pass { a with queue }
      simp only [work, h, List.length_cons] at this ⊢
      omega
    s.drain (s.finish pass { a with queue }) (done ++ [pass])
termination_by s.work a

def agenda (s : Schedule α) : Agenda α :=
  let unmet pass := ((s.requires pass).eraseDups.length : Int)
  ⟨unmet, s.registered.eraseDups.filter fun pass => unmet pass = 0⟩

def order (s : Schedule α) : Except (ScheduleFault α) (List α) :=
  match s.registered.find? fun pass => !(s.missing pass).isEmpty with
  | some pass => .error (.unregistered pass (s.missing pass))
  | none =>
    let done := s.drain s.agenda []
    -- A pass that is registered twice is never done twice.
    if done.length = s.registered.length then .ok done else .error .circular

end Schedule

def ScheduleFault.problem {α : Type} (label : α → String) : ScheduleFault α → Problem
  | unregistered pass missing =>
    .misuse
      (label pass ++ " requires unregistered pass(es): " ++ ", ".intercalate (missing.map label))
      Problem.internalCode
  | circular => .misuse "Circular dependency detected in passes" Problem.internalCode

def runPasses {α σ : Type} (run : α → σ → σ × Option Problem) : List α → σ → σ × Option Problem
  | [], state => (state, none)
  | pass :: rest, state =>
    match run pass state with
    | (state', some problem) => (state', some problem)
    | (state', none) => runPasses run rest state'

def Schedule.run {α σ : Type} [DecidableEq α] (s : Schedule α) (label : α → String)
    (run : α → σ → σ × Option Problem) (state : σ) : σ × Option Problem :=
  match s.order with
  | .error fault => (state, some (fault.problem label))
  | .ok passes => runPasses run passes state

def unavailable (label : String) : Problem :=
  .misuse ("Analysis " ++ label ++ " not available") Problem.internalCode

end ScopedNames

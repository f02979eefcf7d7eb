import ScopedNames.Proofs.Session.Run

set_option autoImplicit false

namespace ScopedNames

variable {τ π : Type} [LT π] [DecidableLT π] {s s' s'' : Session τ π} {e : Event τ π}
variable {reply : Reply π} {events : List (Event τ π)} {answers : List (Option Found)}
variable {steps steps' : List (Event τ π × Reply π)}

/-- Events that are accepted one after the other, each with the reply to it. -/
inductive Trace : Session τ π → List (Event τ π × Reply π) → Session τ π → Prop where
  | done (s : Session τ π) : Trace s [] s
  | step {s s' final : Session τ π} {e : Event τ π} {reply : Reply π}
      {steps : List (Event τ π × Reply π)} (applied : s.apply e = .ok (s', reply))
      (rest : Trace s' steps final) : Trace s ((e, reply) :: steps) final

def answersIn : List (Event τ π × Reply π) → List (Option Found)
  | [] => []
  | (_, .answered found) :: steps => found :: answersIn steps
  | (_, .declared _) :: steps | (_, .imported _) :: steps => answersIn steps

namespace Session

theorem apply_eq_ok_iff_handle : s.apply e = .ok (s', reply) ↔ e.handle s = .ok reply s' := by
  rw [apply, Operation.outcome]
  cases e.handle s <;> simp [and_comm]

theorem apply_eq_ok :
    s.apply e = .ok (s', reply) ↔ ∃ c, e.call? = some c ∧ Accepted s c reply s' :=
  apply_eq_ok_iff_handle.trans Event.handle_eq_ok

end Session

omit [LT π] [DecidableLT π] in
theorem answersIn_of_silent (silent : ∀ found, reply ≠ .answered found) :
    answersIn ((e, reply) :: steps) = answersIn steps := by
  cases reply with
  | answered found => exact absurd rfl (silent found)
  | declared | imported => rfl

namespace Trace

theorem runs (trace : Trace s steps s') : Runs s (steps.map (·.1)) s' (answersIn steps) := by
  induction trace with
  | done s => exact .done s
  | step applied _ ih =>
    have handled := Session.apply_eq_ok_iff_handle.1 applied
    rcases Event.reply_of_handle handled with ⟨r, enclosing, position, found, rfl, rfl⟩ |
      ⟨quiet, silent⟩
    · exact .query handled ih
    · rw [answersIn_of_silent silent]
      exact .other quiet handled ih

theorem append (first : Trace s steps s') (second : Trace s' steps' s'') :
    Trace s (steps ++ steps') s'' := by
  induction first with
  | done s => exact second
  | step applied _ ih => exact .step applied (ih second)

theorem run_eq (trace : Trace s steps s') :
    s.run (steps.map (·.1)) = (s', .ok (answersIn steps)) :=
  Session.run_of_runs trace.runs

end Trace

theorem Runs.exists_trace (runs : Runs s events s' answers) :
    ∃ steps, Trace s steps s' ∧ steps.map (·.1) = events ∧ answersIn steps = answers := by
  induction runs with
  | done s => exact ⟨[], .done s, rfl, rfl⟩
  | query handled _ ih =>
    obtain ⟨steps, trace, rfl, rfl⟩ := ih
    exact ⟨_ :: steps, .step (Session.apply_eq_ok_iff_handle.2 handled) trace, rfl, rfl⟩
  | other quiet handled _ ih =>
    obtain ⟨steps, trace, rfl, rfl⟩ := ih
    refine ⟨_ :: steps, .step (Session.apply_eq_ok_iff_handle.2 handled) trace, rfl, ?_⟩
    rcases Event.reply_of_handle handled with ⟨_, _, _, _, rfl, _⟩ | ⟨_, silent⟩
    · cases quiet
    · exact answersIn_of_silent silent

-- A run that is not refused is one trace, and every trace is such a run.
theorem Session.run_eq_ok_iff_trace :
    s.run events = (s', .ok answers) ↔
      ∃ steps, Trace s steps s' ∧ steps.map (·.1) = events ∧ answersIn steps = answers := by
  constructor
  · intro ran
    exact (Session.run_eq_ok.1 ran).exists_trace
  · rintro ⟨steps, trace, rfl, rfl⟩
    exact trace.run_eq

end ScopedNames

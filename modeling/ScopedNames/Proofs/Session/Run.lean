import ScopedNames.Proofs.Session.Call

set_option autoImplicit false

namespace ScopedNames

variable {τ π : Type}

namespace Event

def isQuery : Event τ π → Bool
  | .referenceQuery _ _ _ => true
  | _ => false

def position (e : Event τ π) : Option π := e.call?.bind (·.position)

end Event

variable [LT π] [DecidableLT π] {s s' s'' : Session τ π} {e : Event τ π} {reply : Reply π}
variable {events events' : List (Event τ π)} {answers answers' : List (Option Found)}

inductive Runs : Session τ π → List (Event τ π) → Session τ π → List (Option Found) → Prop where
  | done (s : Session τ π) : Runs s [] s []
  | query {s s' final : Session τ π} {r : Reference} {enclosing : ScopeId} {position : Option π}
      {found : Option Found} {events : List (Event τ π)} {answers : List (Option Found)}
      (handled : (Event.referenceQuery r enclosing position).handle s = .ok (.answered found) s')
      (rest : Runs s' events final answers) :
      Runs s (.referenceQuery r enclosing position :: events) final (found :: answers)
  | other {s s' final : Session τ π} {e : Event τ π} {reply : Reply π}
      {events : List (Event τ π)} {answers : List (Option Found)}
      (quiet : e.isQuery = false) (handled : e.handle s = .ok reply s')
      (rest : Runs s' events final answers) : Runs s (e :: events) final answers

namespace Event

theorem handle_of_call {c : Call τ π} (called : e.call? = some c) : e.handle = c.perform := by
  cases e <;> cases called <;> rfl

theorem handle_eq_ok :
    e.handle s = .ok reply s' ↔ ∃ c, e.call? = some c ∧ Accepted s c reply s' := by
  constructor
  · intro handled
    cases called : e.call? with
    | none =>
      cases e <;> cases called
      cases handled
    | some c =>
      rw [handle_of_call called] at handled
      exact ⟨c, rfl, Call.perform_eq_ok.1 handled⟩
  · rintro ⟨c, called, accepted⟩
    rw [handle_of_call called]
    exact Call.perform_accepted accepted

theorem handle_eq_error {fault : SessionFault π} (failed : e.handle s = .error fault s') :
    s' = s := by
  cases called : e.call? with
  | none =>
    cases e <;> cases called
    cases failed
    rfl
  | some c =>
    rw [handle_of_call called] at failed
    exact Call.perform_eq_error failed

theorem reply_of_handle (handled : e.handle s = .ok reply s') :
    (∃ r enclosing position found, e = .referenceQuery r enclosing position ∧
      reply = .answered found) ∨
    (e.isQuery = false ∧ ∀ found, reply ≠ .answered found) := by
  obtain ⟨c, called, accepted⟩ := handle_eq_ok.1 handled
  cases e with
  | scopeDeclared => cases called; cases accepted <;> exact .inr ⟨rfl, by simp⟩
  | importIssued => cases called; cases accepted; exact .inr ⟨rfl, by simp⟩
  | referenceQuery => cases called; cases accepted; exact .inl ⟨_, _, _, _, rfl, rfl⟩
  | unsupported => cases called

end Event

namespace Session

theorem run_of_runs (runs : Runs s events s' answers) : s.run events = (s', .ok answers) := by
  induction runs with
  | done s => rfl
  | query handled _ ih =>
    rw [run, handled]
    simp only [ih]
    rfl
  | other quiet handled _ ih =>
    rcases Event.reply_of_handle handled with ⟨_, _, _, _, rfl, _⟩ | ⟨_, silent⟩
    · cases quiet
    · -- A run tells answers from other replies by the reply, not by the event.
      rw [run, handled]
      simp only [ih]

theorem run_of_refused {fault : SessionFault π} (runs : Runs s events s' answers)
    (refused : e.handle s' = .error fault s'') (rest : List (Event τ π)) :
    s.run (events ++ e :: rest) = (s'', .error fault) := by
  induction runs with
  | done s => rw [List.nil_append, run, refused]
  | query handled _ ih =>
    rw [List.cons_append, run, handled]
    simp only [ih refused]
    rfl
  | other quiet handled _ ih =>
    rcases Event.reply_of_handle handled with ⟨_, _, _, _, rfl, _⟩ | ⟨_, silent⟩
    · cases quiet
    · rw [List.cons_append, run, handled]
      simp only [ih refused]

theorem runs_or_refused (s : Session τ π) (events : List (Event τ π)) :
    (∃ s' answers, Runs s events s' answers) ∨
    ∃ accepted e rest s' answers fault, events = accepted ++ e :: rest ∧
      Runs s accepted s' answers ∧ e.handle s' = .error fault s' := by
  induction events generalizing s with
  | nil => exact .inl ⟨s, [], .done s⟩
  | cons e events ih =>
    cases handled : e.handle s with
    | error fault s' =>
      -- A refused event leaves the state it found, so the run stops where it was.
      cases Event.handle_eq_error handled
      exact .inr ⟨[], e, events, s, [], fault, rfl, .done s, handled⟩
    | ok reply s₁ =>
      rcases Event.reply_of_handle handled with ⟨r, enclosing, position, found, rfl, rfl⟩ | ⟨quiet, _⟩
      · rcases ih s₁ with ⟨s', answers, runs⟩ |
          ⟨accepted, e, rest, s', answers, fault, rfl, runs, refused⟩
        · exact .inl ⟨s', _, .query handled runs⟩
        · exact .inr ⟨_ :: accepted, e, rest, s', _, fault, rfl, .query handled runs, refused⟩
      · rcases ih s₁ with ⟨s', answers, runs⟩ |
          ⟨accepted, e, rest, s', answers, fault, rfl, runs, refused⟩
        · exact .inl ⟨s', _, .other quiet handled runs⟩
        · exact .inr ⟨_ :: accepted, e, rest, s', _, fault, rfl, .other quiet handled runs, refused⟩

theorem run_eq_ok : s.run events = (s', .ok answers) ↔ Runs s events s' answers := by
  constructor
  · intro ran
    rcases runs_or_refused s events with ⟨final, given, runs⟩ |
      ⟨accepted, e, rest, final, given, fault, rfl, runs, refused⟩
    · rw [run_of_runs runs] at ran
      cases ran
      exact runs
    · rw [run_of_refused runs refused rest] at ran
      cases ran
  · exact run_of_runs

end Session

namespace Runs

theorem append (first : Runs s events s' answers) (second : Runs s' events' s'' answers') :
    Runs s (events ++ events') s'' (answers ++ answers') := by
  induction first with
  | done s => exact second
  | query handled _ ih => exact .query handled (ih second)
  | other quiet handled _ ih => exact .other quiet handled (ih second)

theorem split (runs : Runs s (events ++ events') s' answers) :
    ∃ middle first second, Runs s events middle first ∧ Runs middle events' s' second ∧
      answers = first ++ second := by
  induction events generalizing s answers with
  | nil => exact ⟨s, [], answers, .done s, runs, rfl⟩
  | cons e events ih =>
    cases runs with
    | query handled rest =>
      obtain ⟨middle, first, second, front, back, rfl⟩ := ih rest
      exact ⟨middle, _, second, .query handled front, back, rfl⟩
    | other quiet handled rest =>
      obtain ⟨middle, first, second, front, back, rfl⟩ := ih rest
      exact ⟨middle, first, second, .other quiet handled front, back, rfl⟩

theorem call_induction {motive : Session τ π → List (Event τ π) → Session τ π → Prop}
    (done : ∀ s, motive s [] s)
    (call : ∀ {s e c reply s' events final}, e.call? = some c → Accepted s c reply s' →
      motive s' events final → motive s (e :: events) final)
    (runs : Runs s events s' answers) : motive s events s' := by
  induction runs with
  | done s => exact done s
  | query handled _ ih =>
    obtain ⟨c, called, accepted⟩ := Event.handle_eq_ok.1 handled
    exact call called accepted ih
  | other _ handled _ ih =>
    obtain ⟨c, called, accepted⟩ := Event.handle_eq_ok.1 handled
    exact call called accepted ih

end Runs

end ScopedNames

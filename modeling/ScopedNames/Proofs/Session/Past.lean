import ScopedNames.Proofs.Session.Coherence
import ScopedNames.Proofs.Session.Meaning
import ScopedNames.Proofs.Session.Run

set_option autoImplicit false

namespace ScopedNames

variable {τ π : Type} [LinearOrder π] {s s' s'' : Session τ π} {c : Call τ π} {reply : Reply π}
variable {events : List (Event τ π)} {answers : List (Option Found)} {p : π} {i q : Nat}
variable {r : Reference} {names : List String} {via : Via} {starts later : List Nat}

namespace Session

-- What one session has and the other has not, the position does not see.
structure SamePast (p : π) (s s' : Session τ π) : Prop where
  kept : s.Keeps s'
  hidden : ∀ i, s.tree.size ≤ i → s'.tree.isVisible (some p) i = false
  issued : ∃ more, s'.issued = s.issued ++ more ∧
    ∀ d ∈ more, before d.position (some p) = false

namespace SamePast

theorem refl (p : π) (s : Session τ π) : SamePast p s s where
  kept := .refl s
  hidden _ absent := ScopeTable.isVisible_of_size_le absent
  issued := ⟨[], (List.append_nil _).symm, by simp⟩

theorem isVisible_eq (past : SamePast p s s') :
    s'.tree.isVisible (some p) = s.tree.isVisible (some p) := by
  funext i
  by_cases there : i < s.tree.size
  · rw [ScopeTable.isVisible, ScopeTable.isVisible, past.kept.scopes.kept i there]
  · have absent := Nat.le_of_not_lt there
    rw [past.hidden i absent, ScopeTable.isVisible_of_size_le absent]

theorem trans (first : SamePast p s s') (second : SamePast p s' s'') : SamePast p s s'' where
  kept := first.kept.trans second.kept
  hidden i absent := by
    rw [second.isVisible_eq]
    exact first.hidden i absent
  issued := by
    obtain ⟨more, grown, late⟩ := first.issued
    obtain ⟨further, more_grown, more_late⟩ := second.issued
    refine ⟨more ++ further, by rw [more_grown, grown, List.append_assoc], ?_⟩
    intro d member
    rcases List.mem_append.1 member with old | new
    · exact late d old
    · exact more_late d new

theorem follow_eq (past : SamePast p s s') :
    s'.tree.follow (s'.tree.isVisible (some p)) i names =
      s.tree.follow (s.tree.isVisible (some p)) i names := by
  rw [past.kept.scopes.follow_eq past.hidden, past.isVisible_eq]

theorem searchFrom_eq (past : SamePast p s s') (written : names ≠ [])
    (late : ∀ i ∈ later, s.tree.size ≤ i) :
    s'.tree.searchFrom names (some p) via (later ++ starts) =
      s.tree.searchFrom names (some p) via starts := by
  -- Inside a scope that the earlier session does not have, it finds nothing.
  have missed : s.tree.searchFrom names (some p) via later = none :=
    ScopeTable.searchFrom_eq_none.2 fun i member =>
      ScopeTable.follow_of_size_le (late i member) written
  simp only [ScopeTable.searchFrom, ScopeTable.reach_eq_follow, past.follow_eq,
    List.findSome?_append] at missed ⊢
  rw [missed, Option.none_or]

theorem opened_eq (past : SamePast p s s') (inv : s.Invariant)
    (around : s'.tree.chain i = later ++ s.tree.chain q) (late : ∀ j ∈ later, s.tree.size ≤ j) :
    s'.opened i (some p) = s.opened q (some p) := by
  obtain ⟨more, grown, unseen⟩ := past.issued
  have old : ∀ d ∈ s.issued, s'.tree.encloses d.scope i = s.tree.encloses d.scope q := by
    intro d member
    have known := inv.import_scope d member
    rw [Bool.eq_iff_iff, ScopeTable.encloses_iff, ScopeTable.encloses_iff, around,
      List.mem_append]
    constructor
    · rintro (new | same)
      · -- A directive of the earlier session stands in a scope that was there.
        exact absurd known (Nat.not_lt_of_le (late _ new))
      · exact same
    · exact .inr
  have kept : (s.issued.filter fun d =>
      s'.tree.encloses d.scope i && before d.position (some p)) =
        s.issued.filter fun d => s.tree.encloses d.scope q && before d.position (some p) := by
    apply List.filter_congr
    intro d member
    rw [old d member]
  have dropped : (more.filter fun d =>
      s'.tree.encloses d.scope i && before d.position (some p)) = [] := by
    rw [List.filter_eq_nil_iff]
    intro d member
    simp [unseen d member]
  rw [opened, opened, grown, List.filter_append, kept, dropped, List.append_nil]

theorem resolveFrom_eq (past : SamePast p s s') (inv : s.Invariant) (inv' : s'.Invariant)
    (around : s'.tree.chain i = later ++ s.tree.chain q) (late : ∀ j ∈ later, s.tree.size ≤ j) :
    s'.resolveFrom r i (some p) = s.resolveFrom r q (some p) := by
  have opened : s'.tree.searchFrom r.names (some p) .imported (s'.opened i (some p)) =
      s.tree.searchFrom r.names (some p) .imported (s.opened q (some p)) := by
    rw [past.opened_eq inv around late]
    exact past.searchFrom_eq r.names_ne_nil (List.forall_mem_nil _)
  rw [inv'.resolveFrom_eq, inv.resolveFrom_eq, opened, starts, starts]
  cases r.rooted with
  | true =>
    congr 1
    exact past.searchFrom_eq r.names_ne_nil (List.forall_mem_nil _)
  | false =>
    congr 1
    rw [if_neg Bool.false_ne_true, if_neg Bool.false_ne_true, around]
    exact past.searchFrom_eq r.names_ne_nil late

end SamePast

end Session

theorem Accepted.samePast (accepted : Accepted s c reply s')
    (late : before c.position (some p) = false) : Session.SamePast p s s' where
  kept := accepted.keeps
  hidden i absent := by
    cases accepted with
    | declared fresh admitted =>
      have grown := Nat.lt_or_eq_of_le absent
      simp only [ScopeTable.isVisible, ScopeTable.scope?_add]
      rcases grown with beyond | rfl
      · rw [if_neg (Nat.ne_of_gt beyond)]
        exact ScopeTable.isVisible_of_size_le absent
      · rw [if_pos rfl]
        exact late
    | reopened | imported | answered => exact ScopeTable.isVisible_of_size_le absent
  issued := by
    cases accepted with
    | @imported target scope p' d resolved admitted =>
      refine ⟨[d], rfl, ?_⟩
      intro d' member
      rw [List.mem_singleton.1 member, resolved]
      exact late
    | reopened | declared | answered => exact ⟨[], (List.append_nil _).symm, by simp⟩

def eventsBefore (p : π) (events : List (Event τ π)) : List (Event τ π) :=
  events.filter fun e => before e.position (some p)

namespace Runs

theorem invariant (runs : Runs s events s' answers) : s.Invariant → s'.Invariant :=
  runs.call_induction (motive := fun s _ s' => s.Invariant → s'.Invariant) (fun _ => id)
    fun _ accepted ih inv => ih (accepted.invariant inv)

theorem samePast (runs : Runs s events s' answers) :
    (∀ e ∈ events, before e.position (some p) = false) → Session.SamePast p s s' := by
  refine runs.call_induction
    (motive := fun s events s' => (∀ e ∈ events, before e.position (some p) = false) →
      Session.SamePast p s s') (fun s _ => .refl p s) ?_
  intro s e c reply s' events final called accepted ih late
  have first := late e List.mem_cons_self
  rw [Event.position, called] at first
  exact (accepted.samePast first).trans
    (ih fun e' member => late e' (List.mem_cons_of_mem e member))

theorem increasing (runs : Runs s events s' answers) :
    (∀ e ∈ events, s.Admits e.position) ∧
      events.Pairwise fun e e' => before e.position e'.position = true := by
  refine runs.call_induction
    (motive := fun s events _ => (∀ e ∈ events, s.Admits e.position) ∧
      events.Pairwise fun e e' => before e.position e'.position = true)
    (fun s => ⟨by simp, .nil⟩) ?_
  intro s e c reply s' events final called accepted ⟨admitted, ordered⟩
  have position : e.position = c.position := by rw [Event.position, called]; rfl
  obtain ⟨p, positioned, clock⟩ := accepted.admitted
  have follows : ∀ e' ∈ events, ∃ p', e'.position = some p' ∧ p < p' := by
    intro e' member
    obtain ⟨p', positioned', clock'⟩ := admitted e' member
    exact ⟨p', positioned', clock' p (accepted.lastPosition_eq.trans positioned)⟩
  constructor
  · intro e' member
    rcases List.mem_cons.1 member with rfl | member
    · rw [position]
      exact accepted.admitted
    · obtain ⟨p', positioned', later⟩ := follows e' member
      exact ⟨p', positioned', fun last known => lt_trans (clock last known) later⟩
  · rw [List.pairwise_cons]
    refine ⟨?_, ordered⟩
    intro e' member
    obtain ⟨p', positioned', later⟩ := follows e' member
    exact before_eq_true.2 ⟨p, p', position.trans positioned, positioned', later⟩

theorem samePast_of_clock (runs : Runs s events s' answers) (clock : s.lastPosition = some p) :
    Session.SamePast p s s' := by
  apply runs.samePast
  intro e member
  obtain ⟨p', positioned, later⟩ := runs.increasing.1 e member
  have follows : p < p' := later p clock
  simp [positioned, before, le_of_lt follows]

theorem split_at (p : π) (runs : Runs s events s' answers) :
    ∃ early first, eventsBefore p events <+: events ∧
      Runs s (eventsBefore p events) early first ∧ Session.SamePast p early s' := by
  let earlier (e : Event τ π) : Bool := before e.position (some p)
  have closed : events.Pairwise fun e e' => earlier e' = true → earlier e = true :=
    runs.increasing.2.imp before_trans
  -- Positions increase, so the events before `p` are the first ones.
  have front : events.takeWhile earlier = eventsBefore p events := takeWhile_eq_filter closed
  have whole : eventsBefore p events ++ events.dropWhile earlier = events := by
    rw [← front, List.takeWhile_append_dropWhile]
  have back : ∀ e ∈ events.dropWhile earlier, earlier e = false := by
    have same : (eventsBefore p events ++ events.dropWhile earlier).filter earlier =
        eventsBefore p events := by rw [whole]; rfl
    have none : (events.dropWhile earlier).filter earlier = [] := by
      simpa [eventsBefore, earlier] using same
    intro e member
    simpa using List.filter_eq_nil_iff.1 none e member
  rw [← whole] at runs
  obtain ⟨early, first, second, before, rest, rfl⟩ := runs.split
  exact ⟨early, first, ⟨_, whole⟩, before, rest.samePast back⟩

end Runs

end ScopedNames

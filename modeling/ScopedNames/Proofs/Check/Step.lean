import ScopedNames.Check.Walk
import ScopedNames.Proofs.Scope.Inside
import ScopedNames.Proofs.Session.Invariant

set_option autoImplicit false

namespace ScopedNames

namespace Session

variable {τ π : Type} [LT π] [DecidableLT π] {s : Session τ π} (parent : Fin s.tree.size)
variable {segment : Segment} {tag : Option τ} {position : Option π} {isInline : Bool}
variable {location : Option Location} {i : Nat} {r : Reference} {name : String}

theorem declareScope_existing (there : s.tree.child? parent segment.name = some i)
    (admitted : s.Admits position) :
    s.declareScope (.text segment.name) (s.tree.idOf parent) tag position isInline location =
      .ok ({ s with
        tree := { s.tree with reopenings := i :: s.tree.reopenings }
        lastPosition := position }, i) := by
  rw [declareScope, Operation.outcome, Operation.declareScope_placed admitted,
    Operation.placeScope_existing there]

theorem declareScope_fresh (fresh : s.tree.child? parent segment.name = none)
    (admitted : s.Admits position) :
    s.declareScope (.text segment.name) (s.tree.idOf parent) tag position isInline location =
      .ok ({ s with
        tree := { s.tree with
          toScopeTable :=
            s.tree.add ⟨parent, segment, tag, position, isInline, location⟩ parent.isLt }
        lastPosition := position }, s.tree.size) := by
  rw [declareScope, Operation.outcome, Operation.declareScope_placed admitted,
    Operation.placeScope_fresh fresh]

theorem declareScope_malformed (bad : ¬ IsName (.text name)) :
    s.declareScope (.text name) (s.tree.idOf parent) tag position isInline location =
      .error (.malformed (.invalidSegment (.text name))) := by
  rw [declareScope, Operation.outcome, Operation.declareScope,
    Operation.bind_of_ok (Operation.find_idOf parent),
    Operation.bind_of_error (Operation.readSegment_bad bad)]

theorem issueImport_eq (admitted : s.Admits position) :
    s.issueImport r (s.tree.idOf parent) position =
      let d : Import π := ⟨r, (s.resolveFrom r parent position).map (·.node), parent, position⟩
      .ok ({ s with
        issued := s.issued ++ [d]
        recorded := s.recorded ++ [d]
        lastPosition := position }, d) := by
  rw [issueImport, Operation.outcome, Operation.issueImport_admitted admitted]

theorem query_eq (admitted : s.Admits position) :
    s.query r (s.tree.idOf parent) position =
      .ok ({ s with lastPosition := position }, s.resolveFrom r parent position) := by
  rw [query, Operation.outcome, Operation.query_admitted admitted]

end Session

theorem ScopeTable.child?_of_member? {τ π : Type} {t : ScopeTable τ π} {i : Nat} {name : String}
    (absent : t.member? everything i name = none) : t.child? i name = none := by
  rw [member?_eq, Option.or_eq_none_iff, Option.filter_eq_none_iff] at absent
  rw [Option.eq_none_iff_forall_ne_some]
  exact fun j found => absent.1 j found rfl

namespace Check

open Dialect

/--
What a walk does beside its notes: a visit comes to some of these, whatever walk it meets. A name
is entered or left one at a time.
-/
inductive Action where
  | complain (d : Diagnostic)
  | enter (name : Segment) (isInline : Bool) (span : Span) (tag : Option Nat)
  | issue (target : QualifiedName Span) (r : Reference)
  | ask (name : QualifiedName Span) (r : Reference) (expected : Expectation) (span : Span)
  | leave

namespace Walk

variable {file : String} {w w' w'' w₁ w₁' : Walk} {a : Action} {as bs : List Action}

/-- The walk and its session agree on what is there and how far they have come. -/
structure Sound (w : Walk) : Prop where
  inv : w.session.Invariant
  clock : ∀ last, w.session.lastPosition = some last → last < w.nextPosition
  scopes : ∀ i ∈ w.scopes, i < w.session.tree.size
  outcomes : ∀ o ∈ w.outcomes, o.position < w.nextPosition

def member? (w : Walk) (name : String) : Option Nat :=
  w.session.tree.member? ScopeTable.everything w.current name

def answer (w : Walk) (r : Reference) : Option Found :=
  w.session.resolveFrom r w.current (some w.nextPosition)

def importOf (w : Walk) (r : Reference) : Import Nat :=
  ⟨r, (w.answer r).map (·.node), w.current, some w.nextPosition⟩

/-- All that an action can do to a walk. -/
inductive Step (file : String) (w : Walk) : Action → Walk → Prop where
  | complain {d : Diagnostic} {journal : List Entry} :
      Step file w (.complain d) { w with diagnostics := w.diagnostics ++ [d], journal }
  | reopen {name : Segment} {isInline : Bool} {span : Span} {tag : Option Nat} {i : Nat}
      {s : Scope Nat Nat} {journal : List Entry} (found : w.member? name.name = some i)
      (there : w.session.tree.scope? i = some s) :
      Step file w (.enter name isInline span tag)
        { w with
          session := { w.session with
            tree := { w.session.tree with reopenings := i :: w.session.tree.reopenings }
            lastPosition := some w.nextPosition }
          scopes := i :: w.scopes
          nextPosition := w.nextPosition + 1
          diagnostics := w.diagnostics ++
            if isInline && !s.isInline then
              [inlineMismatch file w.session.tree.toScopeTable ⟨name.name, isInline, span⟩ i s]
            else []
          journal }
  | declare {name : Segment} {isInline : Bool} {span : Span} {tag : Option Nat}
      {journal : List Entry} (absent : w.member? name.name = none)
      (bound : w.current < w.session.tree.size) :
      Step file w (.enter name isInline span tag)
        { w with
          session := { w.session with
            tree := { w.session.tree with
              toScopeTable := w.session.tree.add
                ⟨w.current, name, tag, some w.nextPosition, isInline, some (span.locate file)⟩
                bound }
            lastPosition := some w.nextPosition }
          scopes := w.session.tree.size :: w.scopes
          nextPosition := w.nextPosition + 1
          declaredCount := w.declaredCount + 1
          journal }
  | issue {target : QualifiedName Span} {r : Reference} {journal : List Entry} :
      Step file w (.issue target r)
        { w with
          session := { w.session with
            issued := w.session.issued ++ [w.importOf r]
            recorded := w.session.recorded ++ [w.importOf r]
            lastPosition := some w.nextPosition }
          nextPosition := w.nextPosition + 1
          diagnostics := w.diagnostics ++
            if (w.importOf r).isInert then [notFound file target] else []
          journal }
  | ask {name : QualifiedName Span} {r : Reference} {expected : Expectation} {span : Span}
      {journal : List Entry} :
      Step file w (.ask name r expected span)
        { w with
          session := { w.session with lastPosition := some w.nextPosition }
          nextPosition := w.nextPosition + 1
          outcomes := w.outcomes ++
            [⟨name, expected, w.answer r, w.current, w.nextPosition, span.locate file⟩]
          journal }
  | leave {journal : List Entry} :
      Step file w .leave { w with scopes := w.scopes.tail, journal }

inductive Steps (file : String) : Walk → List Action → Walk → Prop where
  | done (w : Walk) (journal : List Entry) : Steps file w [] { w with journal }
  | cons {w w' w'' : Walk} {a : Action} {as : List Action} (first : Step file w a w')
      (rest : Steps file w' as w'') : Steps file w (a :: as) w''

namespace Sound

theorem start (number : Nat) : (start (.new number)).Sound where
  inv := Session.invariant_new number
  clock last known := by cases known
  scopes i member := by cases member
  outcomes o member := by cases member

theorem admits (sound : w.Sound) : w.session.Admits (some w.nextPosition) :=
  ⟨_, rfl, sound.clock⟩

theorem current_lt (sound : w.Sound) : w.current < w.session.tree.size := by
  rw [current]
  cases stack : w.scopes with
  | nil => exact ScopeTable.root_lt_size
  | cons i outer => exact sound.scopes i (stack ▸ List.mem_cons_self)

-- What a name would reopen is declared again where it stands, which need not be here.
theorem exists_parent (sound : w.Sound) {i : Nat} {s : Scope Nat Nat}
    (there : w.session.tree.scope? i = some s) :
    ∃ parent : Fin w.session.tree.size, parent = s.parent ∧
      w.session.tree.child? parent s.name.name = some i := by
  have bound := Nat.lt_trans (ScopeTable.parent_lt there) (ScopeTable.lt_size_of_scope? there)
  exact ⟨⟨s.parent, bound⟩, rfl, sound.inv.unique.child?_eq_some.2 ⟨s, there, rfl, rfl⟩⟩

theorem outcomes_later (sound : w.Sound) : ∀ o ∈ w.outcomes, o.position < w.nextPosition + 1 :=
  fun o member => Nat.lt_succ_of_lt (sound.outcomes o member)

theorem step (sound : w.Sound) (step : Step file w a w') : w'.Sound := by
  have admitted := sound.admits
  have ticked : ∀ last, some w.nextPosition = some last → last < w.nextPosition + 1 := by
    rintro last ⟨⟩
    exact Nat.lt_succ_self _
  let here : Fin w.session.tree.size := ⟨w.current, sound.current_lt⟩
  cases step with
  | complain => exact { sound with }
  | reopen found there =>
    refine ⟨{ sound.inv.advance admitted with }, ticked, ?_, sound.outcomes_later⟩
    intro i member
    rcases List.mem_cons.1 member with rfl | outer
    · exact ScopeTable.lt_size_of_scope? there
    · exact sound.scopes i outer
  | declare absent bound =>
    refine ⟨sound.inv.declare bound (ScopeTable.child?_of_member? absent) rfl admitted, ticked, ?_,
      sound.outcomes_later⟩
    intro i member
    change i < (w.session.tree.add _ bound).size
    rw [ScopeTable.add_size]
    rcases List.mem_cons.1 member with rfl | outer
    · exact Nat.lt_succ_self _
    · exact Nat.lt_succ_of_lt (sound.scopes i outer)
  | @issue _ r =>
    have accepted : Accepted w.session
        (.issueImport r (w.session.tree.idOf here) (some w.nextPosition)) _ _ :=
      .imported rfl admitted
    exact ⟨accepted.invariant sound.inv, ticked, sound.scopes, sound.outcomes_later⟩
  | ask =>
    refine ⟨sound.inv.advance admitted, ticked, sound.scopes, ?_⟩
    intro o member
    rcases List.mem_append.1 member with old | new
    · exact sound.outcomes_later o old
    · rw [List.mem_singleton.1 new]
      exact Nat.lt_succ_self _
  | leave =>
    exact { sound with scopes := fun i member => sound.scopes i (List.mem_of_mem_tail member) }

theorem steps (sound : w.Sound) (steps : Steps file w as w') : w'.Sound := by
  induction steps with
  | done => exact { sound with }
  | cons first _ ih => exact ih (sound.step first)

end Sound

theorem Step.afresh {journal : List Entry} (step : Step file w a w') :
    Step file { w with journal } a w' := by
  cases step with
  | complain => exact .complain
  | reopen found there => exact .reopen found there
  | declare absent bound => exact .declare (w := { w with journal }) absent bound
  | issue => exact .issue
  | ask => exact .ask
  | leave => exact .leave

namespace Steps

theorem single (step : Step file w a w') : Steps file w [a] w' := .cons step (.done _ _)

theorem note {journal : List Entry} (steps : Steps file w as w') :
    Steps file w as { w' with journal } := by
  induction steps with
  | done => exact .done _ _
  | cons first _ ih => exact .cons first ih

theorem afresh {journal : List Entry} (steps : Steps file w as w') :
    Steps file { w with journal } as w' := by
  cases steps with
  | done => exact .done { w with journal } _
  | cons first rest => exact .cons first.afresh rest

theorem append (first : Steps file w as w') (second : Steps file w' bs w'') :
    Steps file w (as ++ bs) w'' := by
  induction first with
  | done => exact second.afresh
  | cons step _ ih => exact .cons step (ih second)

theorem split (steps : Steps file w (as ++ bs) w'') :
    ∃ w', Steps file w as w' ∧ Steps file w' bs w'' := by
  induction as generalizing w with
  | nil => exact ⟨w, .done w w.journal, steps⟩
  | cons a as ih =>
    cases steps with
    | cons first rest =>
      obtain ⟨w', front, back⟩ := ih rest
      exact ⟨w', .cons first front, back⟩

-- What every action keeps of two walks is kept by all that both of them do.
theorem relate {R : Walk → Walk → Prop}
    (noted : ∀ w w' journal journal', R w w' →
      R { w with journal } { w' with journal := journal' })
    (each : ∀ a w w' w₁ w₁', R w w' → Step file w a w₁ → Step file w' a w₁' → R w₁ w₁')
    (related : R w w') (steps : Steps file w as w₁) (steps' : Steps file w' as w₁') :
    R w₁ w₁' := by
  induction steps generalizing w' with
  | done w journal =>
    cases steps' with
    | done w' journal' => exact noted w w' journal journal' related
  | cons first _ ih =>
    cases steps' with
    | cons first' rest' => exact ih (each _ _ _ _ _ related first first') rest'

end Steps

end Walk

end Check

end ScopedNames

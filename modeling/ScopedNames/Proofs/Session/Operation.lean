import ScopedNames.Proofs.Segment
import ScopedNames.Session.Event

set_option autoImplicit false

namespace ScopedNames

namespace ScopeTree

variable {τ π : Type} {t : ScopeTree τ π} {id : ScopeId} {i : Fin t.size}

def Owns (t : ScopeTree τ π) (id : ScopeId) : Prop := ∃ i : Fin t.size, t.idOf i = id

theorem find?_eq_some : t.find? id = some i ↔ t.idOf i = id := by
  obtain ⟨session, index⟩ := id
  simp only [find?, idOf, ScopeId.mk.injEq]
  split
  · next known =>
    rw [Option.some.injEq, Fin.ext_iff]
    change index.toNat = i.val ↔ _
    have inside := i.isLt
    constructor
    · intro same
      exact ⟨known.1.symm, by omega⟩
    · rintro ⟨_, same⟩
      omega
  · next unknown =>
    have inside := i.isLt
    constructor
    · intro impossible
      cases impossible
    · rintro ⟨same, indexed⟩
      exact absurd ⟨same.symm, by omega, by omega⟩ unknown

theorem find?_idOf : t.find? (t.idOf i) = some i := find?_eq_some.2 rfl

theorem owns_idOf : t.Owns (t.idOf i) := ⟨i, rfl⟩

theorem lt_of_owns_idOf {k : Nat} (known : t.Owns (t.idOf k)) : k < t.size := by
  obtain ⟨j, same⟩ := known
  rw [idOf, idOf, ScopeId.mk.injEq] at same
  exact Int.ofNat.inj same.2 ▸ j.isLt

theorem find?_eq_none : t.find? id = none ↔ ¬ t.Owns id := by
  rw [Option.eq_none_iff_forall_ne_some]
  constructor
  · rintro unknown ⟨i, rfl⟩
    exact unknown i find?_idOf
  · intro foreign i found
    exact foreign ⟨i, find?_eq_some.1 found⟩

theorem isSome_find?_idOf (t : ScopeTree τ π) (i : Nat) :
    (t.find? (t.idOf i)).isSome = decide (i < t.size) := by
  by_cases inside : i < t.size
  · have found : t.find? (t.idOf i) = some ⟨i, inside⟩ := find?_idOf (i := ⟨i, inside⟩)
    rw [found, decide_eq_true inside]
    rfl
  · rw [decide_eq_false inside, Option.isSome_eq_false_iff, Option.isNone_iff_eq_none, find?_eq_none]
    rintro ⟨j, same⟩
    simp only [idOf, ScopeId.mk.injEq, Int.natCast_inj, true_and] at same
    exact inside (same ▸ j.isLt)

end ScopeTree

def Session.Admits {τ π : Type} [LT π] (s : Session τ π) (position : Option π) : Prop :=
  ∃ p, position = some p ∧ ∀ last, s.lastPosition = some last → last < p

namespace Operation

variable {τ π α β : Type} {s s' : Session τ π}

theorem bind_of_ok {op : Operation τ π α} {next : α → Operation τ π β} {a : α}
    (done : op s = .ok a s') : (op >>= next) s = next a s' := by
  simp only [bind, EStateM.bind, done]

theorem bind_of_error {op : Operation τ π α} {next : α → Operation τ π β} {fault : SessionFault π}
    (failed : op s = .error fault s') : (op >>= next) s = .error fault s' := by
  simp only [bind, EStateM.bind, failed]

theorem bind_get (next : Session τ π → Operation τ π β) : (get >>= next) s = next s s := rfl

variable {value : Value} {segment : Segment} {enclosing : ScopeId} {tag : Option τ}
variable {position : Option π} {isInline : Bool} {location : Option Location}

theorem find_idOf (i : Fin s.tree.size) : find (s.tree.idOf i) s = .ok i.val s := by
  rw [find, bind_get, Session.find, ScopeTree.find?_idOf]
  rfl

theorem find_unknown (foreign : ¬ s.tree.Owns enclosing) :
    find enclosing s = .error (.unknownScope enclosing) s := by
  rw [find, bind_get, Session.find, ScopeTree.find?_eq_none.2 foreign]
  rfl

theorem readSegment_segment (segment : Segment) :
    (ofExcept (Session.readSegment (.text segment.name)) : Operation τ π Segment) s =
      .ok segment s := by
  rw [Session.readSegment, ofValue_segment]
  rfl

theorem readSegment_bad (bad : ¬ IsName value) :
    (ofExcept (Session.readSegment value) : Operation τ π Segment) s =
      .error (.malformed (.invalidSegment value)) s := by
  rw [Session.readSegment, ofValue_of_not_isName bad]
  rfl

theorem enter_segment (parent : Fin s.tree.size) :
    enter (.text segment.name) parent tag position isInline location s =
      .ok (s.placeScope segment parent tag position isInline location).2
        (s.placeScope segment parent tag position isInline location).1 := by
  rw [enter, bind_of_ok (readSegment_segment segment), bind_get, dif_pos parent.isLt]
  rfl

variable {parent : Fin s.tree.size} {existing : Nat} {r : Reference}

theorem placeScope_existing (there : s.tree.child? parent segment.name = some existing) :
    s.placeScope segment parent tag position isInline location =
      ({ s with tree := { s.tree with reopenings := existing :: s.tree.reopenings } },
        existing) := by
  simp only [Session.placeScope, ScopeTree.declare, there]

theorem placeScope_fresh (fresh : s.tree.child? parent segment.name = none) :
    s.placeScope segment parent tag position isInline location =
      ({ s with
          tree := { s.tree with
            toScopeTable :=
              s.tree.add ⟨parent, segment, tag, position, isInline, location⟩ parent.isLt } },
        s.tree.size) := by
  simp only [Session.placeScope, ScopeTree.declare, fresh]

variable [LT π] [DecidableLT π]

theorem advance_admitted (admitted : s.Admits position) :
    advance position s = .ok () { s with lastPosition := position } := by
  obtain ⟨p, rfl, later⟩ := admitted
  cases last : s.lastPosition with
  | none =>
    rw [advance, bind_get, last]
    rfl
  | some q =>
    have follows := later q last
    rw [advance, bind_get, last]
    simp only [before, follows]
    rfl

theorem advance_late (late : ¬ s.Admits position) :
    advance position s = .error (.outOfOrder position s.lastPosition) s := by
  cases position with
  | none => rfl
  | some p =>
    cases last : s.lastPosition with
    | none => exact absurd ⟨p, rfl, by simp [last]⟩ late
    | some q =>
      have stuck : ¬ q < p := by
        intro follows
        refine late ⟨p, rfl, ?_⟩
        intro other same
        rw [last] at same
        cases same
        exact follows
      rw [advance, bind_get, last]
      simp only [before, stuck]
      rfl

theorem declareScope_placed (admitted : s.Admits position) :
    declareScope (.text segment.name) (s.tree.idOf parent) tag position isInline location s =
      .ok (s.placeScope segment parent tag position isInline location).2
        { (s.placeScope segment parent tag position isInline location).1 with
          lastPosition := position } := by
  rw [declareScope, bind_of_ok (find_idOf parent), bind_of_ok (readSegment_segment segment),
    bind_of_ok (advance_admitted admitted)]
  -- The clock is ahead by now, but the tree is still the one that the parent was found in.
  exact enter_segment (s := { s with lastPosition := position }) parent

theorem issueImport_admitted (admitted : s.Admits position) :
    issueImport r (s.tree.idOf parent) position s =
      .ok ⟨r, (s.resolveFrom r parent position).map (·.node), parent, position⟩
        { s with
          issued := s.issued ++
            [⟨r, (s.resolveFrom r parent position).map (·.node), parent, position⟩]
          recorded := s.recorded ++
            [⟨r, (s.resolveFrom r parent position).map (·.node), parent, position⟩]
          lastPosition := position } := by
  rw [issueImport, bind_of_ok (find_idOf parent), bind_of_ok (advance_admitted admitted)]
  rfl

theorem query_admitted (admitted : s.Admits position) :
    query r (s.tree.idOf parent) position s =
      .ok (s.resolveFrom r parent position) { s with lastPosition := position } := by
  rw [query, bind_of_ok (find_idOf parent), bind_of_ok (advance_admitted admitted)]
  rfl

end Operation

end ScopedNames

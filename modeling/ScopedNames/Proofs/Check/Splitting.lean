import ScopedNames.Proofs.Check.Balance
import ScopedNames.Proofs.Check.Delay
import ScopedNames.Proofs.Dialect.Reading

set_option autoImplicit false

namespace ScopedNames

/-- Two computations fail with the same fault, or both come to results that are related. -/
inductive Agree {ε α β : Type} (R : α → β → Prop) : Except ε α → Except ε β → Prop where
  | failed (fault : ε) : Agree R (.error fault) (.error fault)
  | done {a : α} {b : β} (related : R a b) : Agree R (.ok a) (.ok b)

namespace Agree

variable {ε α β γ δ : Type} {R : α → β → Prop} {S : γ → δ → Prop}

theorem refl (x : Except ε α) : Agree (fun a b => b = a ∧ x = .ok a) x x := by
  cases x with
  | error fault => exact .failed fault
  | ok a => exact .done ⟨rfl, rfl⟩

theorem bind {x : Except ε α} {y : Except ε β} {f : α → Except ε γ} {g : β → Except ε δ}
    (agree : Agree R x y) (next : ∀ a b, R a b → Agree S (f a) (g b)) :
    Agree S (x >>= f) (y >>= g) := by
  cases agree with
  | failed fault => exact .failed fault
  | done related => exact next _ _ related

theorem mono {R' : α → β → Prop} {x : Except ε α} {y : Except ε β} (agree : Agree R x y)
    (weaker : ∀ a b, R a b → R' a b) : Agree R' x y := by
  cases agree with
  | failed fault => exact .failed fault
  | done related => exact .done (weaker _ _ related)

end Agree

theorem exists_of_bind {ε α β : Type} {x : Except ε α} {f : α → Except ε β} {b : β}
    (done : (x >>= f) = .ok b) : ∃ a, x = .ok a ∧ f a = .ok b := by
  cases x with
  | error fault => cases done
  | ok a => exact ⟨a, rfl, done⟩

namespace Check

open Dialect

namespace Walk

variable {file : String} {w w' w₀ w₁ w₂ : Walk} {as : List Action} {js : List Nat} {p : Plan}
variable {vs us : List (Visit Span)}

theorem Follows.agree {R : Walk → Walk → Prop} {x x' : Except (SessionFault Nat) Walk}
    (follows : Follows file w p x) (follows' : Follows file w' p x')
    (related : ∀ as w₁ w₁', Steps file w as w₁ → Steps file w' as w₁' → R w₁ w₁') :
    Agree R x x' := by
  cases follows with
  | refused fault =>
    cases follows'
    exact .failed fault
  | taken steps =>
    obtain ⟨w₁', rfl, steps'⟩ := follows'.exists_walk
    exact .done (related _ _ _ steps steps')

theorem Steps.of_leave {k : Nat} (steps : Steps file w (List.replicate k .leave) w') :
    ∃ journal, w' = { w with scopes := w.scopes.drop k, journal } := by
  induction k generalizing w with
  | zero =>
    cases steps with
    | done _ journal => exact ⟨journal, rfl⟩
  | succ k ih =>
    cases steps with
    | cons first rest =>
      cases first
      obtain ⟨journal, rfl⟩ := ih rest
      exact ⟨journal, by rw [List.drop_tail]⟩

theorem Steps.reenter {path : List (PathSegment Span)} {tag : Option Nat}
    (planned : planPath tag path = .ok as)
    (plain : ∀ segment ∈ path, segment.isInline = false)
    (leads : w.session.tree.Leads w.current (path.map (·.name)) js)
    (steps : Steps file w as w') :
    ∃ last journal, w' = { w with
      session := { w.session with
        tree := { w.session.tree with
          reopenings := js.reverse ++ w.session.tree.reopenings }
        lastPosition := last }
      scopes := js.reverse ++ w.scopes
      nextPosition := w.nextPosition + js.length
      journal } := by
  induction path generalizing w as js with
  | nil =>
    cases planned
    cases leads
    cases steps with
    | done _ journal => exact ⟨_, journal, rfl⟩
  | cons segment segments ih =>
    obtain ⟨name, _, rest, same, onwards, rfl⟩ := exists_of_planPath_cons planned
    cases leads with
    | @step _ j _ _ js found further =>
      have known : w.member? name.name = some j := by
        rw [member?, same]
        exact found
      cases steps with
      | cons first others =>
        cases first with
        | declare absent => cases known.symm.trans absent
        | reopen found' there =>
          cases Option.some.inj (known.symm.trans found')
          obtain ⟨last, journal, rfl⟩ := ih onwards
            (fun other member => plain other (List.mem_cons_of_mem _ member)) further others
          refine ⟨last, journal, ?_⟩
          simp only [plain segment List.mem_cons_self, Bool.false_and, Bool.false_eq_true, if_false,
            List.append_nil, List.reverse_cons, List.append_assoc, List.singleton_append,
            List.length_cons, Nat.add_right_comm, Nat.add_assoc]

theorem Sound.delay_reached {position : Option Nat} (sound : w.Sound)
    (reached : w.session.Reached position) (k : Nat) :
    position.map (delay w.nextPosition k) = position := by
  obtain ⟨p, last, rfl, clock, le⟩ := reached
  have early := Nat.lt_of_le_of_lt le (sound.clock last clock)
  rw [Option.map_some, delay_of_lt k early]

-- All that has happened lies before the next position, and a delay from there leaves it alone.
theorem Sound.delayed (sound : w.Sound) (js : List Nat) (last : Option Nat)
    (journal : List Entry) :
    Delayed w.nextPosition js.length js w { w with
      session := { w.session with
        tree := { w.session.tree with
          reopenings := js.reverse ++ w.session.tree.reopenings }
        lastPosition := last }
      nextPosition := w.nextPosition + js.length
      journal } where
  number := rfl
  table := .of_early fun i s there => sound.delay_reached (sound.inv.scope_reached i s there) _
  reopened i := by
    simp only [ScopeTree.reopened, List.count_append, List.count_reverse, Nat.add_comm]
  issued := by
    have same : ∀ d ∈ w.session.issued, d.delayed w.nextPosition js.length = d := by
      intro d member
      rw [Import.delayed, sound.delay_reached (sound.inv.import_reached d member)]
    exact ((List.map_congr_left same).trans (List.map_id _)).symm
  scopes := rfl
  nextPosition := rfl
  late := Nat.le_refl _
  declaredCount := rfl
  diagnostics := rfl
  outcomes := by
    have same : ∀ o ∈ w.outcomes, o.delayed w.nextPosition js.length = o := by
      intro o member
      rw [Outcome.delayed, delay_of_lt _ (sound.outcomes o member)]
    exact ((List.map_congr_left same).trans (List.map_id _)).symm

-- To leave a definition and to enter it again takes some positions and nothing else.
theorem Enters.reenter {path : List (PathSegment Span)} {tag : Option Nat} (sound : w.Sound)
    (enters : w₀.Enters (path.map (·.name)) js w) (planned : planPath tag path = .ok as)
    (plain : ∀ segment ∈ path, segment.isInline = false)
    (left : Steps file w (List.replicate path.length .leave) w₁) (again : Steps file w₁ as w₂) :
    Delayed w.nextPosition path.length js w w₂ := by
  have length : js.length = path.length := by rw [enters.leads.length_eq, List.length_map]
  obtain ⟨_, rfl⟩ := left.of_leave
  have outside : w.scopes.drop path.length = w₀.scopes := by
    rw [enters.scopes, ← length, ← List.length_reverse, List.drop_left]
  rw [outside] at again
  obtain ⟨last, journal, rfl⟩ := again.reenter planned plain enters.leads
  rw [← length]
  exact { sound.delayed js last journal with scopes := enters.scopes.symm }

theorem length_of_names {path path' : List (PathSegment Span)}
    (again : path'.map (·.name) = path.map (·.name)) : path'.length = path.length := by
  simpa using congrArg List.length again

theorem exists_reentry {path path' : List (PathSegment Span)} (file : String) (sound : w.Sound)
    (enters : w₀.Enters (path.map (·.name)) js w)
    (named : ∀ segment ∈ path, IsName (.text segment.name))
    (again : path'.map (·.name) = path.map (·.name))
    (plain : ∀ segment ∈ path', segment.isInline = false) :
    ∃ w', [.leave path, .enter path' []].foldlM (visit file) w = .ok w' ∧ w'.Sound ∧
      Delayed w.nextPosition path.length js w w' := by
  have named' : ∀ segment ∈ path', IsName (.text segment.name) := by
    intro segment member
    have listed : segment.name ∈ path.map (·.name) := again ▸ List.mem_map_of_mem member
    obtain ⟨other, there, same⟩ := List.mem_map.1 listed
    exact same ▸ named other there
  obtain ⟨as, planned⟩ := exists_planPath none named'
  have planned' : planAll file [.leave path, .enter path' []] =
      .ok (List.replicate path.length .leave ++ as) := by
    have entered : plan file (.enter path' []) = .ok as := Plan.nil_andThen.trans planned
    rw [planAll, Plan.collect, Plan.collect_singleton, entered]
    rfl
  obtain ⟨w', ran, steps⟩ := exists_visits sound planned'
  obtain ⟨w₁, left, entered⟩ := steps.split
  rw [← length_of_names again] at left ⊢
  rw [← again] at enters
  exact ⟨w', ran, sound.steps steps, enters.reenter sound planned plain left entered⟩

theorem Delayed.agree {m k : Nat} {path path' : List (PathSegment Span)}
    (delayed : Delayed m k js w w') (sound : w.Sound)
    (sound' : w'.Sound) (again : path'.map (·.name) = path.map (·.name)) :
    Agree (Delayed m k js) ((vs ++ .leave path :: us).foldlM (visit file) w)
      ((vs ++ .leave path' :: us).foldlM (visit file) w') := by
  have same : planAll file (vs ++ .leave path' :: us) = planAll file (vs ++ .leave path :: us) := by
    rw [planAll_append, planAll_append]
    simp only [planAll, Plan.collect, plan, length_of_names again]
  have follows' := visits_follow file (vs ++ .leave path' :: us) sound'
  rw [same] at follows'
  exact (visits_follow file _ sound).agree follows' fun _ _ _ steps steps' =>
    delayed.steps sound sound' steps steps'

/--
What two walks have in common if the body of a definition is closed after `front` and opened
again for the second of them: all but the positions from there on, and how often the scopes of the
definition were entered.
-/
def SplitAfter (number : Nat) (file : String) (around : Surrounding Span)
    (path : List (PathSegment Span)) (attributes : List (Attribute Span))
    (front : List (Declaration Span)) (w w' : Walk) : Prop :=
  ∃ w₀ w₁ w₂ js, around.before.foldlM (visit file) (start (.new number)) = .ok w₀ ∧
    visit file w₀ (.enter path attributes) = .ok w₁ ∧
    (outline front).foldlM (visit file) w₁ = .ok w₂ ∧
    w₀.Enters (path.map (·.name)) js w₁ ∧ Delayed w₂.nextPosition path.length js w w'

theorem splitAfter_of_visits {around : Surrounding Span} {path path' : List (PathSegment Span)}
    {attributes : List (Attribute Span)} {front : List (Declaration Span)}
    {common : List (Visit Span)} (number : Nat)
    (begins : common = around.before ++ .enter path attributes :: outline front)
    (again : path'.map (·.name) = path.map (·.name))
    (plain : ∀ segment ∈ path', segment.isInline = false) :
    Agree (SplitAfter number file around path attributes front)
      (List.foldlM (visit file) (start (.new number)) (common ++ (vs ++ .leave path :: us)))
      (List.foldlM (visit file) (start (.new number))
        (common ++ ([.leave path, .enter path' []] ++ (vs ++ .leave path' :: us)))) := by
  rw [List.foldlM_append, List.foldlM_append]
  refine (Agree.refl _).bind ?_
  rintro _ w₂ ⟨rfl, reached⟩
  rw [begins, List.foldlM_append] at reached
  obtain ⟨w₀, before, inside⟩ := exists_of_bind reached
  rw [List.foldlM_cons] at inside
  obtain ⟨w₁, entered, walked⟩ := exists_of_bind inside
  have sound₀ := (Sound.start number).visits before
  obtain ⟨sound₁, named, js, enters⟩ := enters_of_visit sound₀ entered
  obtain ⟨sound₂, back⟩ := enters_of_visits sound₁ walked
  obtain ⟨w₃, reopened, sound₃, delayed⟩ :=
    exists_reentry file sound₂ (enters.stayed sound₀ back) named again plain
  have onwards : List.foldlM (visit file) w₂
      ([.leave path, .enter path' []] ++ (vs ++ .leave path' :: us)) =
        List.foldlM (visit file) w₃ (vs ++ .leave path' :: us) := by
    rw [List.foldlM_append, reopened]
    rfl
  rw [onwards]
  exact (delayed.agree sound₂ sound₃ again).mono fun w w' delayed =>
    ⟨w₀, w₁, w₂, js, before, entered, walked, enters, delayed⟩

theorem diagnostics_agree {R : Walk → Walk → Prop} {number : Nat} {u u' : SourceUnit}
    (agree : Agree R (run (.new number) u) (run (.new number) u'))
    (same : ∀ w w', R w w' → verdicts w' = verdicts w) (source source' : String) :
    (examine passes number u' source').map (·.diagnostics) =
      (examine passes number u source).map (·.diagnostics) := by
  generalize ran : run (.new number) u = x at agree
  generalize ran' : run (.new number) u' = y at agree
  cases agree with
  | failed fault => rw [examine_of_error ran source, examine_of_error ran' source']
  | done related =>
    obtain ⟨c, checked, found⟩ := examine_of_ok ran source
    obtain ⟨c', checked', found'⟩ := examine_of_ok ran' source'
    rw [checked, checked', Except.map, Except.map, found, found', same _ _ related]

/-- Nobody notices where the body of a definition is closed and opened again. -/
theorem splitting_unnoticed {u : SourceUnit} {around : Surrounding Span}
    {path path' : List (PathSegment Span)} {attributes : List (Attribute Span)}
    {front back : List (Declaration Span)} {span span' span'' : Span} (number : Nat)
    (placed : u.declarations =
      around.fill [.namespaceDefinition path attributes (front ++ back) span])
    (again : path'.map (·.name) = path.map (·.name))
    (plain : ∀ segment ∈ path', segment.isInline = false) :
    let parts : SourceUnit := ⟨u.file, around.fill
      [.namespaceDefinition path attributes front span', .namespaceDefinition path' [] back span'']⟩
    Agree (SplitAfter number u.file around path attributes front)
      (run (.new number) u) (run (.new number) parts) ∧
    ∀ source source', (examine passes number parts source').map (·.diagnostics) =
      (examine passes number u source).map (·.diagnostics) := by
  intro parts
  have whole : outline u.declarations =
      (around.before ++ .enter path attributes :: outline front) ++
        (outline back ++ .leave path :: around.after) := by
    rw [placed, Surrounding.outline_fill, outline_singleton, visits, outline_append]
    simp only [List.append_assoc, List.cons_append, List.nil_append]
  have pieces : outline parts.declarations =
      (around.before ++ .enter path attributes :: outline front) ++
        ([.leave path, .enter path' []] ++ (outline back ++ .leave path' :: around.after)) := by
    rw [Surrounding.outline_fill, outline, outline_singleton, visits, visits]
    simp only [List.append_assoc, List.cons_append, List.nil_append]
  have agree : Agree (SplitAfter number u.file around path attributes front)
      (run (.new number) u) (run (.new number) parts) := by
    rw [run, run, whole, pieces]
    refine (splitAfter_of_visits number rfl again plain).bind ?_
    rintro w w' ⟨w₀, w₁, w₂, js, before, entered, walked, enters, delayed⟩
    exact .done ⟨w₀, w₁, w₂, js, before, entered, walked, enters, { delayed with }⟩
  refine ⟨agree, diagnostics_agree agree ?_⟩
  rintro w w' ⟨_, _, _, _, _, _, _, _, delayed⟩
  exact delayed.verdicts_eq

-- `A` is closed behind its member `V`, and opened again for the directive.

def memberDefinition : Declaration Span :=
  .namespaceDefinition [⟨"V", true, onFirstLine 31 32⟩] []
    [.namespaceDefinition [⟨"B", false, onFirstLine 45 46⟩] [] [] (onFirstLine 35 50)]
    (onFirstLine 14 52)

def memberDirective : Declaration Span :=
  .usingDirective ⟨false, ["B"], onFirstLine 69 70⟩ [] (onFirstLine 53 71)

def memberPath : List (PathSegment Span) := [⟨"A", false, onFirstLine 10 11⟩]

def memberUnit : SourceUnit where
  file := "main.cpp"
  declarations :=
    [.namespaceDefinition memberPath [] [memberDefinition, memberDirective] (onFirstLine 0 73)]

def memberParts : SourceUnit where
  file := "main.cpp"
  declarations :=
    [.namespaceDefinition memberPath [] [memberDefinition] (onFirstLine 0 53),
      .namespaceDefinition memberPath [] [memberDirective] (onFirstLine 53 73)]

theorem splitting_unnoticed_of_member :
    ∃ w w' m js, run (.new 0) memberUnit = .ok w ∧ run (.new 0) memberParts = .ok w' ∧
      w.session.tree.size = 4 ∧ w.session.issued.length = 1 ∧ Delayed m 1 js w w' := by
  have placed : memberUnit.declarations = Surrounding.fill (.here [] [])
      [.namespaceDefinition memberPath [] ([memberDefinition] ++ [memberDirective])
        (onFirstLine 0 73)] := rfl
  have plain : ∀ segment ∈ memberPath, segment.isInline = false := by decide
  have reached : (run (.new 0) memberUnit).map (fun w =>
      (w.session.tree.size, w.session.issued.length)) = .ok (4, 1) := by cbv
  have agree : Agree _ (run (.new 0) memberUnit) (run (.new 0) memberParts) :=
    (splitting_unnoticed 0 placed rfl plain).1
  generalize run (.new 0) memberUnit = x at agree reached ⊢
  generalize run (.new 0) memberParts = y at agree ⊢
  cases agree with
  | failed fault => cases reached
  | done related =>
    obtain ⟨_, _, w₂, js, _, _, _, _, delayed⟩ := related
    obtain ⟨scopes, directives⟩ := Prod.mk.inj (Except.ok.inj reached)
    exact ⟨_, _, w₂.nextPosition, js, rfl, rfl, scopes, directives, delayed⟩

end Walk

end Check

end ScopedNames

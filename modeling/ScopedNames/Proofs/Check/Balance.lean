import ScopedNames.Proofs.Check.Plan

set_option autoImplicit false

namespace ScopedNames

open ScopeTable (GrowsInside Leads)

theorem ScopeTable.member?_add {τ π : Type} {t : ScopeTable τ π} {s : Scope τ π}
    (bound : s.parent < t.size) (absent : t.member? everything s.parent s.name.name = none) :
    (t.add s bound).member? everything s.parent s.name.name = some t.size := by
  rw [member?_eq, child?_add, child?_of_member? absent, if_pos ⟨rfl, rfl⟩]
  rfl

namespace Check

open Dialect Walk

variable {file : String} {w w' : Walk} {as bs : List Action}

-- Every name that is entered is left again, the last one first.
inductive Balanced : List Action → Prop where
  | nil : Balanced []
  | complain {d : Diagnostic} {as : List Action} (rest : Balanced as) : Balanced (.complain d :: as)
  | issue {target : QualifiedName Span} {r : Reference} {as : List Action} (rest : Balanced as) :
      Balanced (.issue target r :: as)
  | ask {name : QualifiedName Span} {r : Reference} {expected : Expectation} {span : Span}
      {as : List Action} (rest : Balanced as) : Balanced (.ask name r expected span :: as)
  | enter {name : Segment} {isInline : Bool} {span : Span} {tag : Option Nat}
      {inner as : List Action} (inside : Balanced inner) (rest : Balanced as) :
      Balanced (.enter name isInline span tag :: (inner ++ .leave :: as))

namespace Balanced

theorem append (first : Balanced as) (second : Balanced bs) : Balanced (as ++ bs) := by
  induction first with
  | nil => exact second
  | complain _ ih => exact .complain ih
  | issue _ ih => exact .issue ih
  | ask _ ih => exact .ask ih
  | enter inside _ _ ih =>
    rw [List.cons_append, List.append_assoc, List.cons_append]
    exact .enter inside ih

theorem complaints (ds : List Diagnostic) : Balanced (complaints ds) := by
  induction ds with
  | nil => exact .nil
  | cons d ds ih => exact .complain ih

theorem collect {α : Type} {plan : α → Plan} {xs : List α}
    (each : ∀ x as, plan x = .ok as → Balanced as) (planned : Plan.collect plan xs = .ok as) :
    Balanced as := by
  induction xs generalizing as with
  | nil =>
    cases planned
    exact .nil
  | cons x xs ih =>
    obtain ⟨front, back, first, rest, rfl⟩ := Plan.andThen_eq_ok.1 planned
    exact (each x front first).append (ih rest)

theorem ofPath {tag : Option Nat} {path : List (PathSegment Span)} {body : List Action}
    (planned : planPath tag path = .ok as) (inside : Balanced body) :
    Balanced (as ++ (body ++ List.replicate path.length .leave)) := by
  induction path generalizing as body with
  | nil =>
    cases planned
    exact inside.append .nil
  | cons segment segments ih =>
    obtain ⟨name, tag', rest, _, onwards, rfl⟩ := exists_of_planPath_cons planned
    have inner := ih onwards inside
    have last : rest ++ (body ++ List.replicate (segments.length + 1) .leave) =
        rest ++ (body ++ List.replicate segments.length .leave) ++ .leave :: [] := by
      simp only [List.replicate_succ', List.append_assoc]
    rw [List.cons_append, List.length_cons, last]
    exact .enter inner .nil

theorem ofAttribute {a : Attribute Span} (planned : planAttribute file a = .ok as) :
    Balanced as := by
  rcases planAttribute_eq_ok planned with rfl | ⟨_, rfl⟩ | ⟨_, _, _, _, rfl⟩
  · exact .nil
  · exact .complain .nil
  · exact .ask .nil

end Balanced

theorem exists_of_planDefinition {path : List (PathSegment Span)}
    {attributes : List (Attribute Span)} {body : List (Declaration Span)} {span : Span}
    (planned : planAll file (visits (.namespaceDefinition path attributes body span)) = .ok as) :
    ∃ entering inner, planPath (reading file attributes).2 path = .ok entering ∧
      planAll file (outline body) = .ok inner ∧
      as = complaints (reading file attributes).1.diagnostics ++
        (entering ++ (inner ++ List.replicate path.length .leave)) := by
  rw [planAll_definition] at planned
  obtain ⟨_, _, first, rest, rfl⟩ := Plan.andThen_eq_ok.1 planned
  obtain ⟨_, entering, complained, entered, rfl⟩ := Plan.andThen_eq_ok.1 first
  obtain ⟨inner, _, walked, left, rfl⟩ := Plan.andThen_eq_ok.1 rest
  cases complained
  cases left
  exact ⟨entering, inner, entered, walked, by rw [List.append_assoc]⟩

mutual

theorem balanced_of_visits : ∀ (d : Declaration Span) {as : List Action},
    planAll file (visits d) = .ok as → Balanced as
  | .namespaceDefinition path attributes body _, as, planned => by
    obtain ⟨entering, inner, entered, walked, rfl⟩ := exists_of_planDefinition planned
    exact (Balanced.complaints _).append (.ofPath entered (balanced_of_outline body walked))
  | .usingDirective target attributes _, as, planned => by
    rw [visits, planAll, Plan.collect_singleton] at planned
    obtain ⟨r, _, rfl⟩ := exists_of_planDirective planned
    exact (Balanced.complaints _).append (.issue .nil)
  | .attributeDeclaration attributes _, as, planned => by
    rw [visits, planAll, Plan.collect_singleton] at planned
    exact .collect (fun _ _ => .ofAttribute) planned
  | .emptyDeclaration _, as, planned => by
    cases planned
    exact .nil

theorem balanced_of_outline : ∀ (ds : List (Declaration Span)) {as : List Action},
    planAll file (outline ds) = .ok as → Balanced as
  | [], as, planned => by
    cases planned
    exact .nil
  | d :: ds, as, planned => by
    rw [outline, planAll_append] at planned
    obtain ⟨_, _, first, rest, rfl⟩ := Plan.andThen_eq_ok.1 planned
    exact (balanced_of_visits d first).append (balanced_of_outline ds rest)

end

namespace Walk

/--
One walk stands inside the other, by the scopes `js` of some names, and has declared nothing
elsewhere; with no names it is back where it was.
-/
structure Enters (w : Walk) (names : List String) (js : List Nat) (w' : Walk) : Prop where
  scopes : w'.scopes = js.reverse ++ w.scopes
  leads : w'.session.tree.Leads w.current names js
  grown : GrowsInside w.current w.session.tree.toScopeTable w'.session.tree.toScopeTable

namespace Enters

variable {w₁ w₂ : Walk} {names names' : List String} {is js : List Nat}

theorem current_eq (enters : w.Enters names js w') : w'.current = js.getLastD w.current := by
  rw [current, enters.scopes]
  cases js using List.reverseRecOn with
  | nil => rfl
  | append_singleton js j => simp

theorem stay (scopes : w'.scopes = w.scopes)
    (table : w'.session.tree.toScopeTable = w.session.tree.toScopeTable) :
    w.Enters [] [] w' where
  scopes := scopes
  leads := .here w.current
  grown := table ▸ .refl _ _

theorem trans (sound : w.Sound) (first : w.Enters names is w₁) (second : w₁.Enters names' js w₂) :
    w.Enters (names ++ names') (is ++ js) w₂ := by
  have known := first.leads.last_lt (Nat.lt_of_lt_of_le sound.current_lt first.grown.size_le)
  have grown := second.grown
  have leads := second.leads
  rw [first.current_eq] at grown leads
  refine ⟨?_, (first.leads.kept grown).append leads, first.grown.trans ?_⟩
  · rw [second.scopes, first.scopes, List.reverse_append, List.append_assoc]
  · exact grown.outwards first.leads.last_mem_chain known

theorem stayed (sound : w.Sound) (enters : w.Enters names js w₁) (back : w₁.Enters [] [] w₂) :
    w.Enters names js w₂ := by
  have both := enters.trans sound back
  rwa [List.append_nil, List.append_nil] at both

theorem leave {name : String} {j : Nat} (enters : w.Enters [name] [j] w₁)
    (step : Step file w₁ .leave w₂) : w.Enters [] [] w₂ := by
  cases step with
  | leave => exact ⟨by rw [enters.scopes]; rfl, .here w.current, enters.grown⟩

end Enters

theorem Step.enters {name : Segment} {isInline : Bool} {span : Span} {tag : Option Nat}
    (step : Step file w (.enter name isInline span tag) w') :
    ∃ j, w.Enters [name.name] [j] w' := by
  cases step with
  | @reopen _ _ _ _ i _ _ found => exact ⟨i, rfl, .step found (.here i), .refl _ _⟩
  | declare absent bound =>
    exact ⟨_, rfl, .step (ScopeTable.member?_add bound absent) (.here _),
      .add bound ScopeTable.self_mem_chain⟩

theorem Steps.enters {path : List (PathSegment Span)} {tag : Option Nat} (sound : w.Sound)
    (planned : planPath tag path = .ok as) (steps : Steps file w as w') :
    ∃ js, w.Enters (path.map (·.name)) js w' := by
  induction path generalizing w as with
  | nil =>
    cases planned
    cases steps
    exact ⟨[], .stay rfl rfl⟩
  | cons segment segments ih =>
    obtain ⟨name, tag', rest, same, onwards, rfl⟩ := exists_of_planPath_cons planned
    cases steps with
    | cons first others =>
      obtain ⟨j, one⟩ := first.enters
      obtain ⟨js, more⟩ := ih (sound.step first) onwards others
      rw [same] at one
      exact ⟨j :: js, one.trans sound more⟩

end Walk

theorem Balanced.enters (balanced : Balanced as) (sound : w.Sound)
    (steps : Steps file w as w') : w.Enters [] [] w' := by
  induction balanced generalizing w w' with
  | nil =>
    cases steps
    exact .stay rfl rfl
  | complain _ ih | issue _ ih | ask _ ih =>
    cases steps with
    | @cons _ w₁ _ _ _ first others =>
      have back := ih (sound.step first) others
      have here : w.Enters [] [] w₁ := by
        cases first
        exact .stay rfl rfl
      exact here.trans sound back
  | enter inside rest ih ih' =>
    cases steps with
    | cons first others =>
      obtain ⟨w₂, walked, left⟩ := others.split
      cases left with
      | cons last others =>
        have sound₁ := sound.step first
        have sound₂ := sound₁.steps walked
        obtain ⟨j, entered⟩ := first.enters
        -- What is declared inside the name is declared inside the scope it was entered from.
        have back := (entered.stayed sound (ih sound₁ walked)).leave last
        exact back.trans sound (ih' (sound₂.step last) others)

namespace Walk

theorem Steps.enters_definition {path : List (PathSegment Span)}
    {attributes : List (Attribute Span)} (sound : w.Sound)
    (planned : plan file (.enter path attributes) = .ok as) (steps : Steps file w as w') :
    ∃ js, w.Enters (path.map (·.name)) js w' := by
  obtain ⟨_, entering, complained, entered, rfl⟩ := Plan.andThen_eq_ok.1 planned
  cases complained
  obtain ⟨w₁, front, back⟩ := steps.split
  obtain ⟨js, enters⟩ := back.enters (sound.steps front) entered
  exact ⟨js, ((Balanced.complaints _).enters sound front).trans sound enters⟩

theorem enters_of_visit {path : List (PathSegment Span)} {attributes : List (Attribute Span)}
    (sound : w.Sound) (entered : visit file w (.enter path attributes) = .ok w') :
    w'.Sound ∧ (∀ segment ∈ path, IsName (.text segment.name)) ∧
      ∃ js, w.Enters (path.map (·.name)) js w' := by
  obtain ⟨as, planned, steps⟩ := steps_of_visit sound entered
  obtain ⟨_, _, _, opens, _⟩ := Plan.andThen_eq_ok.1 planned
  exact ⟨sound.steps steps, isName_of_planPath opens, steps.enters_definition sound planned⟩

theorem enters_of_visits {body : List (Declaration Span)} (sound : w.Sound)
    (walked : (outline body).foldlM (visit file) w = .ok w') : w'.Sound ∧ w.Enters [] [] w' := by
  obtain ⟨as, planned, steps⟩ := steps_of_visits sound walked
  exact ⟨sound.steps steps, (balanced_of_outline body planned).enters sound steps⟩

theorem Steps.enters_before {around : Surrounding Span} (sound : w.Sound)
    (planned : planAll file around.before = .ok as) (steps : Steps file w as w') :
    ∃ js, w.Enters around.names js w' := by
  induction around generalizing w as with
  | here front back => exact ⟨[], (balanced_of_outline front planned).enters sound steps⟩
  | inside front path attributes inner span back ih =>
    rw [Surrounding.before, planAll_append] at planned
    obtain ⟨_, _, first, rest, rfl⟩ := Plan.andThen_eq_ok.1 planned
    obtain ⟨_, _, second, last, rfl⟩ := Plan.andThen_eq_ok.1 rest
    obtain ⟨w₁, steps₁, others⟩ := steps.split
    obtain ⟨w₂, steps₂, steps₃⟩ := others.split
    have sound₁ := sound.steps steps₁
    obtain ⟨is, entered⟩ := steps₂.enters_definition sound₁ second
    obtain ⟨js, further⟩ := ih (sound₁.steps steps₂) last steps₃
    have stayed := (balanced_of_outline front first).enters sound steps₁
    have entered' := stayed.trans sound (entered.trans sound₁ further)
    exact ⟨is ++ js, entered'⟩

end Walk

end Check

end ScopedNames

import ScopedNames.Dialect.Outline

set_option autoImplicit false

namespace ScopedNames.Dialect

variable {σ : Type}

theorem outline_append (ds es : List (Declaration σ)) :
    outline (ds ++ es) = outline ds ++ outline es := by
  induction ds with
  | nil => rfl
  | cons d ds ih => rw [List.cons_append, outline, outline, ih, List.append_assoc]

theorem outline_singleton (d : Declaration σ) : outline [d] = visits d := by
  rw [outline, outline, List.append_nil]

/-- A list of declarations with a place, at any depth, where others can stand. -/
inductive Surrounding (σ : Type) where
  | here (front back : List (Declaration σ))
  | inside (front : List (Declaration σ)) (path : List (PathSegment σ))
      (attributes : List (Attribute σ)) (inner : Surrounding σ) (span : σ)
      (back : List (Declaration σ))

namespace Surrounding

def fill : Surrounding σ → List (Declaration σ) → List (Declaration σ)
  | here front back, ds => front ++ ds ++ back
  | inside front path attributes inner span back, ds =>
    front ++ .namespaceDefinition path attributes (inner.fill ds) span :: back

def before : Surrounding σ → List (Visit σ)
  | here front _ => outline front
  | inside front path attributes inner _ _ =>
    outline front ++ .enter path attributes :: inner.before

def after : Surrounding σ → List (Visit σ)
  | here _ back => outline back
  | inside _ path _ inner _ back => inner.after ++ .leave path :: outline back

def names : Surrounding σ → List String
  | here _ _ => []
  | inside _ path _ inner _ _ => path.map (·.name) ++ inner.names

theorem outline_fill (around : Surrounding σ) (ds : List (Declaration σ)) :
    outline (around.fill ds) = around.before ++ outline ds ++ around.after := by
  induction around with
  | here front back => rw [fill, outline_append, outline_append, before, after]
  | inside front path attributes inner span back ih =>
    simp only [fill, outline_append, outline, visits, ih, before, after, List.append_assoc,
      List.cons_append, List.nil_append]

end Surrounding

end ScopedNames.Dialect

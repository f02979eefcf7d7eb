import ScopedNames.Proofs.Dialect.Form

set_option autoImplicit false

namespace ScopedNames.Dialect

open Lexeme (mark word)

section Items

/--
An item of a tree that has a place: what it can be written with, and the places of the items in it,
in the order in which they are written.
-/
structure Item where
  span : Span
  spelling : List Lexeme → Prop
  parts : List Span

def QualifiedName.item (q : QualifiedName Span) : Item := ⟨q.span, (· = q.bare.lexemes), []⟩

def ArgumentValue.items : ArgumentValue Span → List Item
  | name q => [q.item]
  | int _ | bool _ => []

def ArgumentValue.Spelling (value : ArgumentValue Span) (xs : List Lexeme) : Prop :=
  ∃ written : WrittenArgument, written.value = value.bare ∧ xs = written.lexemes

def Argument.item (a : Argument Span) : Item :=
  ⟨a.span, a.value.Spelling, a.value.items.map (·.span)⟩

def Argument.items (a : Argument Span) : List Item := a.item :: a.value.items

def Attribute.Spelling (a : Attribute Span) (xs : List Lexeme) : Prop :=
  ∃ written : WrittenAttribute, written.meaning = a.bare ∧ xs = written.lexemes

def Attribute.item (a : Attribute Span) : Item :=
  ⟨a.span, a.Spelling, a.arguments.map (·.span)⟩

def Attribute.items (a : Attribute Span) : List Item :=
  a.item :: a.arguments.flatMap Argument.items

-- Without `inline`, which stands elsewhere for the first name of a path.
def PathSegment.leadItem (s : PathSegment Span) : Item := ⟨s.span, (· = [word s.name]), []⟩

def PathSegment.item (s : PathSegment Span) : Item :=
  ⟨s.span, (· = inlineLexemes s.bare ++ [word s.name]), []⟩

def pathItems : List (PathSegment Span) → List Item
  | [] => []
  | first :: others => first.leadItem :: others.map PathSegment.item

def Declaration.Spelling (d : Declaration Span) (xs : List Lexeme) : Prop :=
  ∃ f : Form, f.meaning = d.bare ∧ xs = f.lexemes

def spansOf (ds : List (Declaration Span)) : List Span := ds.map Declaration.span

def attributeSpans (list : List (Attribute Span)) : List Span := list.map (·.span)

def pathSpans (path : List (PathSegment Span)) : List Span := path.map (·.span)

def Declaration.parts : Declaration Span → List Span
  | .namespaceDefinition path attributes body _ =>
    attributeSpans attributes ++ pathSpans path ++ spansOf body
  | .usingDirective target attributes _ => attributeSpans attributes ++ [target.span]
  | .attributeDeclaration attributes _ => attributeSpans attributes
  | .emptyDeclaration _ => []

def Declaration.item (d : Declaration Span) : Item := ⟨d.span, d.Spelling, d.parts⟩

mutual

def itemsOf : List (Declaration Span) → List Item
  | [] => []
  | d :: ds => d.item :: d.inner ++ itemsOf ds

def Declaration.inner : Declaration Span → List Item
  | .namespaceDefinition path attributes body _ =>
    attributes.flatMap Attribute.items ++ pathItems path ++ itemsOf body
  | .usingDirective target attributes _ => attributes.flatMap Attribute.items ++ [target.item]
  | .attributeDeclaration attributes _ => attributes.flatMap Attribute.items
  | .emptyDeclaration _ => []

end

/-- All items of a unit, the unit itself among them if it is not empty. -/
def SourceUnit.items (u : SourceUnit) : List Item :=
  u.span?.toList.map
      (⟨·, fun xs => ∃ fs, meanings fs = bareAll u.declarations ∧ xs = lexemesOf fs,
        spansOf u.declarations⟩) ++
    itemsOf u.declarations

end Items

section Runs

def Token.lexeme (t : Token) : Lexeme := ⟨t.terminal, t.text⟩

def Lexeme.token (x : Lexeme) (span : Span) : Token := ⟨x.terminal, x.text, span⟩

def Begins (start : Place) (run : List Token) : Prop :=
  ∃ first ∈ run.head?, first.span.start = start

def Ends (stop : Place) (run : List Token) : Prop :=
  ∃ last ∈ run.getLast?, last.span.stop = stop

structure Covers (span : Span) (run : List Token) : Prop where
  begins : Begins span.start run
  ends : Ends span.stop run

-- Separate runs of the tokens, each behind the one before, have these places.
inductive InOrder : List Span → List Token → Prop where
  | nil (run : List Token) : InOrder [] run
  | snoc {spans : List Span} {span : Span} {front own : List Token} (back : List Token)
      (before : InOrder spans front) (covers : Covers span own) :
      InOrder (spans ++ [span]) (front ++ own ++ back)

structure Item.Placed (item : Item) (run : List Token) : Prop where
  covers : Covers item.span run
  spelt : item.spelling (run.map Token.lexeme)
  parts : InOrder item.parts run

structure Makes (run : List Token) (xs : List Lexeme) (parts : List Span) (items : List Item) :
    Prop where
  lexemes : run.map Token.lexeme = xs
  parts : InOrder parts run
  items : ∀ item ∈ items, ∃ own, own <:+: run ∧ item.Placed own

end Runs

variable {run front own back : List Token} {t : Token} {start stop : Place} {span : Span}
variable {xs ys : List Lexeme} {spans parts others : List Span} {items inner : List Item}

theorem itemsOf_append (ds es : List (Declaration Span)) :
    itemsOf (ds ++ es) = itemsOf ds ++ itemsOf es := by
  induction ds with
  | nil => rfl
  | cons d ds ih =>
    rw [List.cons_append, itemsOf, itemsOf, ih, List.append_assoc]

@[simp] theorem lexeme_token (x : Lexeme) (span : Span) : (x.token span).lexeme = x := rfl

theorem begins_cons : Begins t.span.start (t :: run) := ⟨t, rfl, rfl⟩

theorem Begins.append (begins : Begins start run) (back : List Token) :
    Begins start (run ++ back) := by
  obtain ⟨first, found, same⟩ := begins
  obtain ⟨rest, rfl⟩ := List.head?_eq_some_iff.1 found
  exact ⟨first, rfl, same⟩

theorem Ends.prepend (ends : Ends stop run) (front : List Token) : Ends stop (front ++ run) := by
  obtain ⟨last, found, same⟩ := ends
  exact ⟨last, by simp [List.getLast?_append, Option.mem_def.1 found], same⟩

theorem ends_snoc : Ends t.span.stop (run ++ [t]) := ⟨t, by simp, rfl⟩

theorem Begins.covers (begins : Begins start run) : Covers ⟨start, t.span.stop⟩ (run ++ [t]) :=
  ⟨begins.append [t], ends_snoc⟩

theorem covers_singleton (x : Lexeme) (span : Span) : Covers span [x.token span] :=
  ⟨⟨_, rfl, rfl⟩, ⟨_, rfl, rfl⟩⟩

namespace InOrder

theorem append (order : InOrder spans run) (back : List Token) : InOrder spans (run ++ back) := by
  cases order with
  | nil => exact nil _
  | snoc back' before covers =>
    rw [List.append_assoc]
    exact snoc _ before covers

theorem both (order : InOrder spans front) (order' : InOrder others back) :
    InOrder (spans ++ others) (front ++ back) := by
  induction order' with
  | nil =>
    rw [List.append_nil]
    exact order.append _
  | snoc back' before covers ih =>
    rw [← List.append_assoc, ← List.append_assoc, ← List.append_assoc]
    exact snoc back' ih covers

end InOrder

namespace Makes

theorem nil : Makes [] [] [] [] := ⟨rfl, .nil _, by simp⟩

theorem single (t : Token) : Makes [t] [t.lexeme] [] [] := ⟨rfl, .nil _, by simp⟩

theorem append {more : List Item} (makes : Makes front xs parts items)
    (makes' : Makes back ys others more) :
    Makes (front ++ back) (xs ++ ys) (parts ++ others) (items ++ more) where
  lexemes := by rw [List.map_append, makes.lexemes, makes'.lexemes]
  parts := makes.parts.both makes'.parts
  items item member := by
    rcases List.mem_append.1 member with old | new
    · obtain ⟨own, inside, placed⟩ := makes.items item old
      exact ⟨own, inside.trans (List.prefix_append _ _).isInfix, placed⟩
    · obtain ⟨own, inside, placed⟩ := makes'.items item new
      exact ⟨own, inside.trans (List.suffix_append _ _).isInfix, placed⟩

theorem snoc (makes : Makes run xs parts items) (t : Token) :
    Makes (run ++ [t]) (xs ++ [t.lexeme]) parts items := by
  simpa using makes.append (single t)

-- Some tokens that make an item count as that item from then on.
theorem enclose (makes : Makes run xs parts inner) (item : Item) (same : item.parts = parts)
    (covers : Covers item.span run) (spelt : item.spelling xs) :
    Makes run xs [item.span] (item :: inner) where
  lexemes := makes.lexemes
  parts := by simpa using InOrder.snoc [] (.nil []) covers
  items other member := by
    rcases List.mem_cons.1 member with rfl | old
    · exact ⟨run, List.infix_rfl, covers, makes.lexemes ▸ spelt, same ▸ makes.parts⟩
    · exact makes.items other old

end Makes

end ScopedNames.Dialect

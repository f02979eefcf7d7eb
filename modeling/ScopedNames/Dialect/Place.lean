import ScopedNames.Location

set_option autoImplicit false

namespace ScopedNames.Dialect

structure Place where
  offset : Nat
  line : Nat
  column : Nat
  deriving DecidableEq, Repr, Inhabited

namespace Place

def origin : Place := ⟨0, 1, 1⟩

-- Only a line feed starts a new line.
def after (p : Place) (c : Char) : Place :=
  if c = '\n' then ⟨p.offset + 1, p.line + 1, 1⟩ else ⟨p.offset + 1, p.line, p.column + 1⟩

def advance (p : Place) (text : List Char) : Place := text.foldl after p

@[simp] theorem advance_nil (p : Place) : p.advance [] = p := rfl

@[simp] theorem advance_cons (p : Place) (c : Char) (text : List Char) :
    p.advance (c :: text) = (p.after c).advance text := rfl

theorem advance_append (p : Place) (front back : List Char) :
    p.advance (front ++ back) = (p.advance front).advance back :=
  List.foldl_append

theorem offset_after (p : Place) (c : Char) : (p.after c).offset = p.offset + 1 := by
  unfold after; split <;> rfl

theorem offset_advance (p : Place) (text : List Char) :
    (p.advance text).offset = p.offset + text.length := by
  induction text generalizing p with
  | nil => rfl
  | cons c text ih => rw [advance_cons, ih, offset_after, List.length_cons]; omega

-- The point alone, for what has no extent.
def locate (p : Place) (file : String) : Location :=
  { file, line := p.line, column := p.column }

end Place

structure Span where
  start : Place
  stop : Place
  deriving DecidableEq, Repr, Inhabited

def Span.width (s : Span) : Nat := s.stop.offset - s.start.offset

def Span.locate (s : Span) (file : String) : Location where
  file
  line := s.start.line
  column := s.start.column
  start := s.start.offset
  stop := s.stop.offset
  endLine := s.stop.line
  endColumn := s.stop.column

end ScopedNames.Dialect

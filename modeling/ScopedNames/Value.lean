import ScopedNames.Text.Quoted

set_option autoImplicit false

namespace ScopedNames

/-- What a caller may hand over as a tag, a position or, wrongly, as a name. -/
inductive Value where
  | null
  | bool (b : Bool)
  | int (n : Int)
  | text (s : String)
  | tuple (items : List Value)
  | list (items : List Value)
  deriving Inhabited

namespace Value

def boolText (b : Bool) : String :=
  if b then "True" else "False"

def joinItems (items : List String) : String :=
  ", ".intercalate items

-- A tuple of one item keeps its comma.
def tupleText : List String → String
  | [item] => "(" ++ item ++ ",)"
  | items => "(" ++ joinItems items ++ ")"

mutual

def quote : Value → String
  | null => "None"
  | bool b => boolText b
  | int n => n.repr
  | text s => Text.quote s
  | tuple items => tupleText (quoteAll items)
  | list items => "[" ++ joinItems (quoteAll items) ++ "]"

def quoteAll : List Value → List String
  | [] => []
  | item :: items => item.quote :: quoteAll items

end

def rank : Value → Nat
  | null => 0
  | bool _ => 1
  | int _ => 2
  | text _ => 3
  | tuple _ => 4
  | list _ => 5

mutual

/--
Values of one kind compare by number, by code point, or item by item, where a shorter sequence
that the longer one begins with comes first; kinds stand in the order of `rank`.
-/
def order : Value → Value → Ordering
  | bool a, bool b => compare a b
  | int a, int b => compare a b
  | text a, text b => compare a b
  | tuple as, tuple bs => orderAll as bs
  | list as, list bs => orderAll as bs
  | a, b => compare a.rank b.rank

def orderAll : List Value → List Value → Ordering
  | [], [] => .eq
  | [], _ :: _ => .lt
  | _ :: _, [] => .gt
  | a :: as, b :: bs => (order a b).then (orderAll as bs)

end

instance : LT Value := ⟨fun a b => order a b = .lt⟩

instance : DecidableLT Value := fun a b => inferInstanceAs (Decidable (order a b = .lt))

end Value

class Datum (α : Type) where
  value : α → Value

instance : Datum Value := ⟨id⟩

instance : Datum Int := ⟨.int⟩

instance : Datum Nat := ⟨fun n => .int n⟩

instance {α : Type} [Datum α] : Datum (Option α) :=
  ⟨fun a? => match a? with
    | none => .null
    | some a => Datum.value a⟩

def quoteDatum {α : Type} [Datum α] (a : α) : String :=
  (Datum.value a).quote

end ScopedNames

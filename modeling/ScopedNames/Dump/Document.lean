import ScopedNames.Session.Basic

set_option autoImplicit false

namespace ScopedNames

inductive Document where
  | null
  | bool (b : Bool)
  | int (n : Int)
  | text (s : String)
  | sequence (items : List Document)
  | mapping (entries : List (String × Document))
  deriving Inhabited

def Document.ofValue : Value → Document
  | .null => null
  | .bool b => bool b
  | .int n => int n
  | .text s => text s
  | value => text value.quote

namespace Session

variable {τ π : Type} [Datum τ] [Datum π]

def positionEntry (positions : Bool) (position : Option π) : List (String × Document) :=
  if positions then [("position", .ofValue (Datum.value position))] else []

def importDocument (s : Session τ π) (positions : Bool) (d : Import π) : Document :=
  .mapping <|
    [("target", .text (match d.target with
        | some target => s.tree.qualifiedName target
        | none => d.path.render)),
      ("in", .text (s.tree.qualifiedName d.scope))] ++
    positionEntry positions d.position ++ [("inert", .bool d.isInert)]

end Session

namespace ScopeTree

variable {τ π : Type} [Datum τ] [Datum π]

def scopeEntries (t : ScopeTree τ π) (positions : Bool) (i : Nat) : List (String × Document) :=
  match t.scope? i with
  | none => [("name", .text (t.qualifiedName i)), ("id", .text (t.idOf i).text),
      ("kind", .text "root")]
  | some s =>
    [("name", .text s.name.name), ("id", .text (t.idOf i).text), ("kind", .text "namespace"),
      ("tag", .ofValue (Datum.value s.tag))] ++ Session.positionEntry positions s.position ++
    [("inline", .bool s.isInline), ("reopened", .int (t.reopened i))]

def scopeDocument (t : ScopeTree τ π) (positions : Bool) (i : Nat) : Document :=
  .mapping <| t.scopeEntries positions i ++
    [("children", .sequence ((t.children i).attach.map fun ⟨j, hj⟩ =>
      have := ScopeTable.lt_of_mem_children hj
      t.scopeDocument positions j))]
termination_by t.size - i

def document (t : ScopeTree τ π) (positions : Bool) : Document := t.scopeDocument positions root

end ScopeTree

def Session.document {τ π : Type} [Datum τ] [Datum π] (s : Session τ π) (positions : Bool) :
    Document :=
  .mapping [("scope_tree", s.tree.document positions),
    ("imports", .sequence (s.issued.map (s.importDocument positions)))]

end ScopedNames

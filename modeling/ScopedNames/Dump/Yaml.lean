import ScopedNames.Dump.Document
import ScopedNames.Dump.Scalar

set_option autoImplicit false

namespace ScopedNames.Yaml

def scalar (indent column : Nat) : Document → List Char
  | .null => "null".toList
  | .bool true => "true".toList
  | .bool false => "false".toList
  | .int n => n.repr.toList
  | .text s => writeText indent column s.toList
  | .sequence _ => "[]".toList
  | .mapping _ => "\x7b\x7d".toList

mutual

-- The first line of a block stands where the text in front of it ends.
def block (indent : Nat) : Document → List Char
  | .mapping entries => blockEntries indent entries
  | .sequence items => blockItems indent items
  | document => scalar indent indent document

def blockEntries (indent : Nat) : List (String × Document) → List Char
  | [] => []
  | [entry] => blockEntry indent entry
  | entry :: entries => blockEntry indent entry ++ newLine indent ++ blockEntries indent entries

-- Keys are plain words. The items of a sequence are not indented below their key.
def blockEntry (indent : Nat) : String × Document → List Char
  | (key, value) => key.toList ++ ':' ::
    match value with
    | .mapping (entry :: entries) =>
      newLine (indent + 2) ++ blockEntries (indent + 2) (entry :: entries)
    | .sequence (item :: items) => newLine indent ++ blockItems indent (item :: items)
    | value => ' ' :: scalar (indent + 2) (indent + key.length + 2) value

def blockItems (indent : Nat) : List Document → List Char
  | [] => []
  | [item] => blockItem indent item
  | item :: items => blockItem indent item ++ newLine indent ++ blockItems indent items

def blockItem (indent : Nat) : Document → List Char
  | item => '-' :: ' ' :: block (indent + 2) item

end

def render (document : Document) : String := String.ofList (block 0 document ++ ['\n'])

end ScopedNames.Yaml

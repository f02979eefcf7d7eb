import ScopedNames.Text.Blank
import ScopedNames.Value

set_option autoImplicit false

namespace ScopedNames

def separator : String := "::"

def hasSeparator : List Char → Bool
  | ':' :: ':' :: _ => true
  | _ :: rest => hasSeparator rest
  | [] => false

structure Segment where
  name : String
  name_ne : name ≠ ""
  no_separator : hasSeparator name.toList = false
  deriving DecidableEq

@[ext] theorem Segment.ext_name {s t : Segment} (h : s.name = t.name) : s = t := by
  cases s; cases t; cases h; rfl

inductive ReferenceFault where
  | noSegments
  | blank (written : String)
  | invalidSegment (segment : Value)
  | notReference (value : Value)

def ReferenceFault.message : ReferenceFault → String
  | noSegments => "reference expression has no segments"
  | blank written => "reference expression " ++ Text.quote written ++ " has no segments"
  | invalidSegment segment => "invalid name segment " ++ segment.quote
  | notReference value => "not a reference expression: " ++ value.quote

def Segment.ofName? (name : String) : Option Segment :=
  if h : name ≠ "" ∧ hasSeparator name.toList = false then some ⟨name, h.1, h.2⟩ else none

def Segment.ofValue (value : Value) : Except ReferenceFault Segment :=
  match value with
  | .text name =>
    match Segment.ofName? name with
    | some segment => .ok segment
    | none => .error (.invalidSegment value)
  | _ => .error (.invalidSegment value)

-- The pieces between separators, which are taken from left to right and do not overlap.
def splitSegments : List Char → List (List Char)
  | [] => [[]]
  | ':' :: ':' :: rest => [] :: splitSegments rest
  | c :: rest =>
    match splitSegments rest with
    | [] => [[c]]
    | piece :: pieces => (c :: piece) :: pieces

def joinNames (names : List String) : String :=
  separator.intercalate names

/-- A path of names such as `B`, `A::B` or, from the outermost scope, `::A::B`. -/
structure Reference where
  segments : List Segment
  rooted : Bool
  segments_ne : segments ≠ []

namespace Reference

@[ext] theorem ext_segments {r s : Reference} (hsegments : r.segments = s.segments)
    (hrooted : r.rooted = s.rooted) : r = s := by
  cases r; cases s; cases hsegments; cases hrooted; rfl

-- The first value that is no name is the one reported.
def of (segments : List Value) (rooted : Bool) : Except ReferenceFault Reference :=
  match segments.mapM Segment.ofValue with
  | .error fault => .error fault
  | .ok [] => .error .noSegments
  | .ok (first :: others) => .ok ⟨first :: others, rooted, by simp⟩

def ofNames (names : List String) (rooted : Bool) : Except ReferenceFault Reference :=
  of (names.map .text) rooted

-- Reads a written path; blank characters around the whole and around each name do not count.
def parse (written : String) : Except ReferenceFault Reference :=
  match Text.strip written.toList with
  | [] | [':', ':'] => .error (.blank written)
  | ':' :: ':' :: rest => ofNames (pieces rest) true
  | rest => ofNames (pieces rest) false
where
  pieces (rest : List Char) : List String :=
    (splitSegments rest).map fun piece => String.ofList (Text.strip piece)

def names (r : Reference) : List String :=
  r.segments.map (·.name)

def render (r : Reference) : String :=
  (if r.rooted then separator else "") ++ joinNames r.names

end Reference

end ScopedNames

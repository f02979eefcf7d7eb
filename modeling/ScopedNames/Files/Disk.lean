import ScopedNames.Files.Path
import ScopedNames.Text.Quoted
import ScopedNames.Text.Utf8

set_option autoImplicit false

namespace ScopedNames.Files

inductive FileError where
  | noEntry
  | denied
  | alreadyThere
  | notDirectory
  | isDirectory
  | nameTooLong
  deriving DecidableEq

namespace FileError

def number : FileError → Nat
  | noEntry => 2
  | denied => 13
  | alreadyThere => 17
  | notDirectory => 20
  | isDirectory => 21
  | nameTooLong => 36

def text : FileError → String
  | noEntry => "No such file or directory"
  | denied => "Permission denied"
  | alreadyThere => "File exists"
  | notDirectory => "Not a directory"
  | isDirectory => "Is a directory"
  | nameTooLong => "File name too long"

end FileError

inductive FileFault where
  | refused (error : FileError) (path : Path)
  | undecodable (fault : Text.Utf8Fault)

def FileFault.message : FileFault → String
  | refused error path =>
    "[Errno " ++ error.number.repr ++ "] " ++ error.text ++ ": " ++ Text.quote path.text
  | undecodable fault => fault.message

inductive Entry where
  | file (bytes : List Nat)
  | directory

def Entry.isFile : Entry → Bool
  | file _ => true
  | directory => false

inductive Access where
  | read
  | write
  | search
  deriving DecidableEq

/--
What there is, by the parts of its path from the root. Paths without an anchor begin at `home`. A
directory need not be listed as long as there is something in it. All may be done that is not
denied.
-/
structure Disk where
  home : List String
  entries : List (List String × Entry)
  denied : List (Access × List String)

structure Spot where
  parts : List String
  entry : Entry

namespace Disk

def isBelow (parts below : List String) : Bool :=
  parts.length < below.length && parts.isPrefixOf below

def entry? (d : Disk) (parts : List String) : Option Entry :=
  match d.entries.lookup parts with
  | some entry => some entry
  | none =>
    if parts.isPrefixOf d.home || d.entries.any (isBelow parts ·.1) then some .directory else none

def refuses (d : Disk) (access : Access) (parts : List String) : Bool :=
  d.denied.contains (access, parts)

def base (d : Disk) (p : Path) : List String := if p.anchor = "" then d.home else []

def maxName : Nat := 255

def maxPath : Nat := 4095

-- Above the root there is the root again.
def step (d : Disk) (spot : Spot) (part : String) : Except FileError Spot :=
  match spot.entry with
  | .file _ => .error .notDirectory
  | .directory =>
    if d.refuses .search spot.parts then .error .denied
    else if maxName < part.utf8ByteSize then .error .nameTooLong
    else if part = ".." then .ok ⟨spot.parts.dropLast, .directory⟩
    else
      match d.entry? (spot.parts ++ [part]) with
      | some entry => .ok ⟨spot.parts ++ [part], entry⟩
      | none => .error .noEntry

def resolve (d : Disk) (p : Path) : Except FileError Spot :=
  if maxPath < p.text.utf8ByteSize then .error .nameTooLong
  else p.parts.foldlM d.step ⟨d.base p, .directory⟩

-- Finds nothing where the system says so, but fails where it does not tell.
def look (d : Disk) (p : Path) : Except FileFault (Option Entry) :=
  -- The system is not asked for a path that holds a zero character.
  if '\x00' ∈ p.text.toList then .ok none
  else
    match d.resolve p with
    | .ok spot => .ok (some spot.entry)
    | .error .noEntry | .error .notDirectory => .ok none
    | .error error => .error (.refused error p)

def isFile (d : Disk) (p : Path) : Except FileFault Bool :=
  (d.look p).map fun found => found.any Entry.isFile

def isDirectory (d : Disk) (p : Path) : Except FileFault Bool :=
  (d.look p).map fun found => found.any fun entry => !entry.isFile

def readText (d : Disk) (p : Path) : Except FileFault String :=
  match d.resolve p with
  | .error error => .error (.refused error p)
  | .ok ⟨parts, entry⟩ =>
    if d.refuses .read parts then .error (.refused .denied p)
    else
      match entry with
      | .directory => .error (.refused .isDirectory p)
      | .file bytes =>
        match Text.decodeUtf8 0 bytes with
        | .ok text => .ok (String.ofList (Text.unifyNewlines text))
        | .error fault => .error (.undecodable fault)

def put (d : Disk) (parts : List String) (entry : Entry) : Disk :=
  { d with entries := d.entries.filter (·.1 != parts) ++ [(parts, entry)] }

def learn (d : Disk) (p : Path) (entry : Entry) : Disk :=
  go d (d.base p) p.parts
where
  go (d : Disk) (parts : List String) : List String → Disk
    | [] => d
    | [part] => d.put (parts ++ [part]) entry
    | part :: rest =>
      if part = ".." then go d parts.dropLast rest
      else go (d.put (parts ++ [part]) .directory) (parts ++ [part]) rest

def deny (d : Disk) (access : Access) (p : Path) : Disk :=
  match d.resolve p with
  | .ok spot => { d with denied := (access, spot.parts) :: d.denied }
  | .error _ => d

def makeDirectory (d : Disk) (p : Path) : Except FileError Disk :=
  match d.resolve p with
  | .ok _ => .error .alreadyThere
  | .error .noEntry =>
    match d.resolve p.parent with
    | .ok ⟨parts, .directory⟩ =>
      if d.refuses .write parts then .error .denied
      else .ok (d.put (parts ++ [p.name]) .directory)
    | _ => .error .noEntry
  | .error error => .error error

-- A directory that is there already is as good as a new one.
def settle (d : Disk) (p : Path) (error : FileError) : Except FileFault Disk := do
  if ← d.isDirectory p then return d else throw (.refused error p)

def makeDirectories (d : Disk) (anchor : String) (parts : List String) : Except FileFault Disk :=
  let p : Path := ⟨anchor, parts⟩
  match d.makeDirectory p with
  | .ok d => .ok d
  | .error .noEntry =>
    if _h : parts = [] then .error (.refused .noEntry p)
    else do
      let d ← d.makeDirectories anchor parts.dropLast
      match d.makeDirectory p with
      | .ok d => .ok d
      | .error .noEntry => .error (.refused .noEntry p)
      | .error error => d.settle p error
  | .error error => d.settle p error
termination_by parts.length
decreasing_by
  have := List.length_pos_iff.2 _h
  rw [List.length_dropLast]
  omega

def bytesOf (text : String) : List Nat := text.toUTF8.toList.map (·.toNat)

def writeText (d : Disk) (p : Path) (text : String) : Except FileFault Disk := do
  let d ← d.makeDirectories p.anchor p.parent.parts
  match d.resolve p with
  | .ok ⟨parts, .file _⟩ =>
    if d.refuses .write parts then .error (.refused .denied p)
    else return d.put parts (.file (bytesOf text))
  | .ok _ => .error (.refused .isDirectory p)
  | .error .noEntry =>
    match d.resolve p.parent with
    | .ok ⟨parts, .directory⟩ =>
      if d.refuses .write parts then .error (.refused .denied p)
      else return d.put (parts ++ [p.name]) (.file (bytesOf text))
    | _ => .error (.refused .noEntry p)
  | .error error => .error (.refused error p)

def fixtureSuffix : List Char := ".cpp".toList

def isFixtureName (name : String) : Bool := fixtureSuffix.isSuffixOf name.toList

def below (d : Disk) (parts : List String) : List (List String) :=
  let listed := (d.entries.map (·.1)).filter (isBelow parts)
  let fronts (l : List String) := (List.range (l.length + 1)).map l.take
  ((listed.flatMap fronts).filter (isBelow parts)).eraseDups

-- What is listed in a directory can be seen; what is below it, if the directory can be entered.
def shows (d : Disk) (parts below : List String) : Bool :=
  (List.range' parts.length (below.length - parts.length)).all fun n =>
    !d.refuses .read (below.take n) &&
      (n + 1 == below.length || !d.refuses .search (below.take n))

def fixtures (d : Disk) (start : Path) : Except FileFault (List Path) :=
  match d.look start, d.resolve start with
  | .error fault, _ => .error fault
  | .ok _, .ok ⟨parts, .directory⟩ =>
    let found := (d.below parts).filter fun l => isFixtureName (l.getLastD "") && d.shows parts l
    let ordered := (found.map (·.drop parts.length)).mergeSort fun a b => !decide (b < a)
    .ok (ordered.map start.join)
  | .ok _, _ => .ok []

end Disk

end ScopedNames.Files

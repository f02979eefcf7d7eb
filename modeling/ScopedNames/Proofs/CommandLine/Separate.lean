import Mathlib
import ScopedNames.CommandLine.Run
import ScopedNames.Proofs.Check.Counting
import ScopedNames.Proofs.CommandLine.Asking

set_option autoImplicit false

namespace ScopedNames

namespace Files.Path

end Files.Path

namespace CommandLine

open Check Dialect Files

/-- What becomes of one of the files; a check knows how many well-formed checks there were. -/
inductive Fate where
  | missing
  | unreadable (fault : FileFault)
  | unparsed (c : Context)
  | examined (c : Context) (checks : Nat)

namespace Fate

def failed : Fate → Bool
  | missing | unreadable _ | unparsed _ => true
  | examined c _ => !c.diagnostics.isEmpty

variable (dumps color : Bool) (file : Path)

def dump (number : Nat) (c : Context) : String :=
  if dumps then "# " ++ file.text ++ "\n" ++ (c.renumbered number).dump else ""

def output (number : Nat) : Fate → String
  | missing | unreadable _ => ""
  | unparsed c => dump dumps file number c
  | examined c checks =>
    dump dumps file number c ++
      if c.diagnostics.isEmpty then file.text ++ ": " ++ checks.repr ++ " check(s) passed\n" else ""

def complaint : Fate → String
  | missing => errorLine ("file not found: " ++ file.text)
  | unreadable fault => errorLine ("could not read file: " ++ fault.message)
  | unparsed c => c.report color ++ "\n"
  | examined c _ => if c.diagnostics.isEmpty then "" else c.report color ++ "\n"

end Fate

/-- A file meets its fate alone: its check is that of a first session. -/
inductive Meets (disk : Disk) (file : Path) : Fate → Prop where
  | missing (absent : disk.isFile file = .ok false) : Meets disk file .missing
  | unreadable {fault : FileFault} (there : disk.isFile file = .ok true)
      (refused : disk.readText file = .error fault) : Meets disk file (.unreadable fault)
  | unparsed {source : String} {fault : UnitFault} {c : Context}
      (there : disk.isFile file = .ok true) (read : disk.readText file = .ok source)
      (malformed : readUnit file.text source = .error fault)
      (checked : check 0 file.text source = .ok c) (diagnosed : c.diagnostics ≠ []) :
      Meets disk file (.unparsed c)
  | examined {source : String} {u : SourceUnit} {c : Context}
      (there : disk.isFile file = .ok true) (read : disk.readText file = .ok source)
      (parsed : readUnit file.text source = .ok u) (checked : check 0 file.text source = .ok c)
      (analysed : c.summary.map Summary.checked = some (wellFormedChecks u.declarations).length) :
      Meets disk file (.examined c (wellFormedChecks u.declarations).length)

variable {disk : Disk} {file : Path} {fate : Fate} {r : Request} {env : Environment}
variable {p : Progress} {written : String}

theorem Meets.unique {fate' : Fate} (met : Meets disk file fate) (met' : Meets disk file fate') :
    fate = fate' := by
  cases met <;> cases met' <;> simp_all

section Runs

variable (dumps color : Bool) (fate : String → Fate)

def complaints (files : List String) : String :=
  String.join (files.map fun f => (fate f).complaint color (.ofString f))

variable {fate} {files : List String}

variable {arguments : List String}

end Runs

end CommandLine

end ScopedNames

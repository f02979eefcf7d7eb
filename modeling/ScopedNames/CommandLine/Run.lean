import ScopedNames.Check.Basic
import ScopedNames.CommandLine.Arguments
import ScopedNames.Files.Disk

set_option autoImplicit false

namespace ScopedNames.CommandLine

open Check Files

def usage : String :=
  "usage: nsresolve [-h] [--dump-scopes] [--no-color] [-v] FILE [FILE ...]\n"

def help : String :=
  usage ++ "
Check the name-resolution annotations of C++ fixture files.

positional arguments:
  FILE           Fixture file(s) to check

options:
  -h, --help     show this help message and exit
  --dump-scopes  Print the scope tree of each file as YAML
  --no-color     Never color diagnostics
  -v, --verbose  Debug logging to stderr
"

def errorLine (message : String) : String := "nsresolve: error: " ++ message ++ "\n"

structure Progress where
  disk : Disk
  stdout : String
  stderr : String
  read : Nat
  failed : Nat

inductive Failure where
  | file (fault : FileFault)
  | request (problem : Problem)

namespace Progress

def out (p : Progress) (text : String) : Progress := { p with stdout := p.stdout ++ text }

def err (p : Progress) (text : String) : Progress := { p with stderr := p.stderr ++ text }

def fail (p : Progress) : Progress := { p with failed := p.failed + 1 }

end Progress

def dumpDirectory : String := "scope_dump"

def wantsDump (env : Environment) : Bool :=
  !((env.lookup "NSRESOLVE_DUMP_SCOPES").getD "").isEmpty

def leaveDump (verbose : Bool) (file : Path) (c : Context) (p : Progress) : Progress :=
  let target : Path := ⟨"", [dumpDirectory, file.stem ++ ".yaml"]⟩
  match p.disk.writeText target c.dump with
  | .ok disk =>
    let p := { p with disk }
    if verbose then p.err (Entry.line ⟨.dump, "scope dump written to " ++ target.text⟩) else p
  | .error fault =>
    let warning := "could not write scope dump " ++ target.text ++ ": " ++ fault.message
    p.err (if verbose then Entry.line ⟨.dump, warning⟩ else warning ++ "\n")

def present (r : Request) (env : Environment) (file : Path) (c : Context) (p : Progress) :
    Progress :=
  let p := if r.verbose then p.err (String.join (c.journal.map Entry.line)) else p
  -- A text that is no unit leaves no scopes behind.
  let p := if wantsDump env && c.summary.isSome then leaveDump r.verbose file c p else p
  let p := if r.dumpScopes then p.out ("# " ++ file.text ++ "\n" ++ c.dump) else p
  if c.succeeded then
    let checked := (c.summary.map (·.checked)).getD 0
    p.out (file.text ++ ": " ++ checked.repr ++ " check(s) passed\n")
  else (p.err (c.report (!r.noColor && wantsColor env) ++ "\n")).fail

def checkFile (r : Request) (env : Environment) (p : Progress) (written : String) :
    Except Failure Progress :=
  let file := Path.ofString written
  match p.disk.isFile file with
  | .error fault => .error (.file fault)
  | .ok false => .ok (p.err (errorLine ("file not found: " ++ file.text))).fail
  | .ok true =>
    match p.disk.readText file with
    | .error fault => .ok (p.err (errorLine ("could not read file: " ++ fault.message))).fail
    | .ok source =>
      match check p.read file.text source with
      | .error problem => .error (.request problem)
      | .ok c => .ok (present r env file c { p with read := p.read + 1 })

structure Result where
  exit : Nat
  stdout : String
  stderr : String
  disk : Disk

/-- The program: checks the files that its arguments name, one after the other. -/
def run (arguments : List String) (env : Environment) (disk : Disk) : Except Failure Result :=
  match Request.ofArguments arguments with
  | .error fault => .ok ⟨2, "", usage ++ errorLine fault.message, disk⟩
  | .ok none => .ok ⟨0, help, "", disk⟩
  | .ok (some r) => do
    let p ← r.files.foldlM (checkFile r env) ⟨disk, "", "", 0, 0⟩
    return ⟨if p.failed = 0 then 0 else 1, p.stdout, p.stderr, p.disk⟩

end ScopedNames.CommandLine

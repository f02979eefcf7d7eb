import ScopedNames.CommandLine.Run

set_option autoImplicit false

namespace ScopedNames.CommandLine

open Files

def consulted : List String := ["NO_COLOR", "NSRESOLVE_COLOR", "NSRESOLVE_DUMP_SCOPES"]

def readEnvironment : IO Environment :=
  consulted.filterMapM fun name => do
    return (← IO.getEnv name).map fun value => (name, value)

-- What is there but must not be read is a file of which nothing more is known.
def readInto (d : Disk) (written : String) : IO Disk := do
  let p := Path.ofString written
  try
    let bytes ← IO.FS.readBinFile p.text
    return d.learn p (.file (bytes.toList.map (·.toNat)))
  catch
    | .permissionDenied _ _ _ => return (d.learn p (.file [])).deny .read p
    | _ => return d

def readDisk (arguments : List String) : IO Disk := do
  let home := (Path.ofString (← IO.currentDir).toString).parts
  (arguments ++ [dumpDirectory]).foldlM readInto ⟨home, [], []⟩

def writeBack (before after : Disk) : IO Unit :=
  after.entries.forM fun (parts, entry) => do
    let p : Path := ⟨"/", parts⟩
    match entry, before.entry? parts with
    | .directory, none => IO.FS.createDirAll p.text
    | .file bytes, none => IO.FS.writeBinFile p.text ⟨(bytes.map UInt8.ofNat).toArray⟩
    | _, _ => return ()

def Failure.message : Failure → String
  | file fault => fault.message
  | request problem => problem.text

end ScopedNames.CommandLine

open ScopedNames.CommandLine in
def main (arguments : List String) : IO UInt32 := do
  let disk ← readDisk arguments
  match run arguments (← readEnvironment) disk with
  | .error failure =>
    (← IO.getStderr).putStrLn failure.message
    return 1
  | .ok result =>
    (← IO.getStdout).putStr result.stdout
    (← IO.getStderr).putStr result.stderr
    writeBack disk result.disk
    return UInt32.ofNat result.exit

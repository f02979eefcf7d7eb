import Mathlib
import ScopedNames.CommandLine.Arguments

set_option autoImplicit false

namespace ScopedNames.CommandLine

variable {f : Flag} {flags : List Flag} {files : List String} {words : List Word}

namespace Flag

def spelling : Flag → String
  | help => "--help"
  | dumpScopes => "--dump-scopes"
  | noColor => "--no-color"
  | verbose => "--verbose"

end Flag

namespace Reading

variable {r : Reading}

end Reading

def Request.arguments (r : Request) : List String :=
  ((if r.dumpScopes then [Flag.dumpScopes] else []) ++
    (if r.noColor then [Flag.noColor] else []) ++
    (if r.verbose then [Flag.verbose] else [])).map Flag.spelling ++ "--" :: r.files

end ScopedNames.CommandLine

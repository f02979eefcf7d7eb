set_option autoImplicit false

namespace ScopedNames.Check

inductive Channel where
  | scope
  | visibility
  | resolver
  | reader
  | passes
  | nameResolution
  | tagCheck
  | dump
  deriving DecidableEq

def Channel.label : Channel → String
  | scope => "nsresolve.shared.scope"
  | visibility => "nsresolve.analysis.visibility"
  | resolver => "nsresolve.analysis.resolver"
  | reader => "nsresolve.frontend.parser"
  | passes => "nsresolve.passes"
  | nameResolution => "nsresolve.passes.name_resolution"
  | tagCheck => "nsresolve.passes.tag_check"
  | dump => "nsresolve.compiler.driver"

structure Entry where
  channel : Channel
  message : String

def Entry.line (e : Entry) : String := e.channel.label ++ ": " ++ e.message ++ "\n"

end ScopedNames.Check

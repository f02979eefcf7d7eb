import ScopedNames.Check.Tags
import ScopedNames.Diagnostic.Report
import ScopedNames.Dialect.Reader
import ScopedNames.Dump.Yaml
import ScopedNames.Schedule

set_option autoImplicit false

namespace ScopedNames.Check

open Dialect

inductive Pass where
  | nameResolution
  | tagCheck
  deriving DecidableEq

namespace Pass

def label : Pass → String
  | nameResolution => "NameResolutionPass"
  | tagCheck => "SymbolTagCheckPass"

def requires : Pass → List Pass
  | nameResolution => []
  | tagCheck => [nameResolution]

end Pass

structure Resolved where
  outcomes : List Outcome
  declaredCount : Nat

structure Context where
  sources : Sources
  session : Session Nat Nat
  diagnostics : List Diagnostic
  resolved : Option Resolved
  summary : Option Summary
  journal : List Entry

namespace Context

def new (number : Nat) (file source : String) : Context :=
  ⟨[(file, source)], .new number, [], none, none, []⟩

def succeeded (c : Context) : Bool := c.diagnostics.isEmpty

def report (c : Context) (color : Bool) : String :=
  String.ofList (Diagnostic.report c.sources color c.diagnostics)

def dump (c : Context) : String := Yaml.render (c.session.document true)

def note (c : Context) (channel : Channel) (message : String) : Context :=
  { c with journal := c.journal ++ [⟨channel, message⟩] }

def resolveNames (u : SourceUnit) (c : Context) : Context × Option Problem :=
  match Walk.run c.session u with
  | .error fault => (c, some fault.problem)
  | .ok w =>
    ({ c with
        session := w.session
        diagnostics := c.diagnostics ++ w.diagnostics
        resolved := some ⟨w.outcomes, w.declaredCount⟩
        journal := c.journal ++ w.journal }, none)

def checkTags (c : Context) : Context × Option Problem :=
  match c.resolved with
  | none => (c, some (unavailable Pass.nameResolution.label))
  | some r =>
    let (summary, diagnostics) := judgeAll c.session.tree.toScopeTable r.outcomes
    let c := { c with diagnostics := c.diagnostics ++ diagnostics, summary := some summary }
    (c.note .tagCheck
      ("tag checks: " ++ summary.passed.repr ++ "/" ++ summary.checked.repr ++ " passed"), none)

def runPass (u : SourceUnit) (pass : Pass) (c : Context) : Context × Option Problem :=
  let c := c.note .passes ("running " ++ pass.label)
  match pass with
  | .nameResolution => c.resolveNames u
  | .tagCheck => c.checkTags

def runAll (u : SourceUnit) (registered : List Pass) (c : Context) : Except Problem Context :=
  match (Schedule.mk registered Pass.requires).run Pass.label (runPass u) c with
  | (_, some problem) => .error problem
  | (c, none) => .ok c

def noteRead (u : SourceUnit) (c : Context) : Context :=
  c.note .reader
    ("parsed " ++ u.file ++ ": " ++ u.declarations.length.repr ++ " top-level declaration(s)")

end Context

def examine (registered : List Pass) (number : Nat) (u : SourceUnit) (source : String) :
    Except Problem Context :=
  ((Context.new number u.file source).noteRead u).runAll u registered

-- Checks one file; a text that is no unit is a finding like any other.
def check (number : Nat) (file source : String) : Except Problem Context :=
  match readUnit file source with
  | .error (.atPlace fault location) =>
    .ok { Context.new number file source with
      diagnostics :=
        [{ message := fault.message
           location := some location
           code := some Diagnostic.parseError }] }
  | .error .unnamedFile => .error UnitFault.unnamedFile.problem
  | .error (.overlongInteger digits) => .error (UnitFault.overlongInteger digits).problem
  | .ok u => examine [.nameResolution, .tagCheck] number u source

end ScopedNames.Check

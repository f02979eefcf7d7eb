import ScopedNames.Problem
import ScopedNames.Session.Event
import ScopedNames.Dialect.Reader
import ScopedNames.Dump.Yaml
import ScopedNames.Schedule
import ScopedNames.Diagnostic.Report
import ScopedNames.Dialect.Outline
import ScopedNames.Dialect.Inspect
import ScopedNames.Check.Basic
import ScopedNames.Main
import ScopedNames.Proofs.Scope.Chain
import ScopedNames.Proofs.Scope.Members
import ScopedNames.Proofs.Scope.Descent
import ScopedNames.Proofs.Scope.Closure
import ScopedNames.Proofs.Scope.Growth
import ScopedNames.Proofs.Segment
import ScopedNames.Proofs.Session.Operation
import ScopedNames.Proofs.Session.Call
import ScopedNames.Proofs.Session.Run
import ScopedNames.Proofs.Session.Refusal
import ScopedNames.Proofs.Session.Resolution
import ScopedNames.Proofs.Session.Invariant
import ScopedNames.Proofs.Session.Coherence
import ScopedNames.Proofs.Session.Imports
import ScopedNames.Proofs.Session.Meaning
import ScopedNames.Proofs.Session.Past
import ScopedNames.Proofs.Session.TimeTravel
import ScopedNames.Proofs.Scope.Addition
import ScopedNames.Proofs.Scope.Mirror
import ScopedNames.Proofs.Session.Opening
import ScopedNames.Proofs.Session.Trace
import ScopedNames.Proofs.Session.Widening
import ScopedNames.Proofs.Session.Relabelling
import ScopedNames.Proofs.Session.Mirror
import ScopedNames.Proofs.Session.Simulation
import ScopedNames.Proofs.Session.Erasure
import ScopedNames.Proofs.Session.Renaming
import ScopedNames.Proofs.Scope.Exchange
import ScopedNames.Proofs.Scope.Shape
import ScopedNames.Proofs.Scope.Qualified
import ScopedNames.Proofs.Scope.Records
import ScopedNames.Proofs.Session.Exchange
import ScopedNames.Proofs.Session.FullPath
import ScopedNames.Proofs.Dialect.Names
import ScopedNames.Proofs.Dialect.Literals
import ScopedNames.Proofs.Dialect.Layout
import ScopedNames.Proofs.Dialect.Lexeme
import ScopedNames.Proofs.Dialect.Scanning
import ScopedNames.Proofs.Dialect.Form
import ScopedNames.Proofs.Dialect.Writing
import ScopedNames.Proofs.Dialect.Declaring
import ScopedNames.Proofs.Dialect.Roundtrip
import ScopedNames.Proofs.Dialect.Standing
import ScopedNames.Proofs.Dialect.Canonical
import ScopedNames.Proofs.Dialect.Reached
import ScopedNames.Proofs.Dialect.Completion
import ScopedNames.Proofs.Dialect.Item
import ScopedNames.Proofs.Dialect.Taking
import ScopedNames.Proofs.Dialect.Derivation
import ScopedNames.Proofs.Dialect.Exact
import ScopedNames.Proofs.Check.Step
import ScopedNames.Proofs.Check.Plan
import ScopedNames.Proofs.Check.Balance
import ScopedNames.Proofs.Check.Contract
import ScopedNames.Proofs.Check.Naming
import ScopedNames.Proofs.Check.Examination
import ScopedNames.Proofs.Check.Nesting
import ScopedNames.Proofs.Check.Delay
import ScopedNames.Proofs.Check.Splitting
import ScopedNames.Proofs.Check.Demands
import ScopedNames.Proofs.Check.Verdict
import ScopedNames.Proofs.Dump.Recovery
import ScopedNames.Proofs.Dump.Answers
import ScopedNames.Proofs.Dump.Numbering
import ScopedNames.Proofs.Check.Renumbering
import ScopedNames.Proofs.Check.Counting
import ScopedNames.Proofs.CommandLine.Asking
import ScopedNames.Proofs.CommandLine.Separate
import ScopedNames.Proofs.Session.Unmentioned
import ScopedNames.Proofs.Scope.Persistence
import ScopedNames.Proofs.Session.Persistence
import ScopedNames.Proofs.Scope.Grown
import ScopedNames.Proofs.Session.ActiveImports
import ScopedNames.Proofs.Check.Occurrences
import ScopedNames.Proofs.Check.Tally
import ScopedNames.Proofs.Schedule
import ScopedNames.Proofs.Reference.Splitting
import ScopedNames.Proofs.Reference.Roundtrip
import ScopedNames.Proofs.Dialect.Keywords
import ScopedNames.Proofs.Diagnostic.Excerpt
import ScopedNames.Proofs.Check.Carets
import ScopedNames.Proofs.Dialect.Unfinished
import ScopedNames.Proofs.Scope.Blurred
import ScopedNames.Proofs.Scope.Preorder
import ScopedNames.Proofs.Scope.Route
import ScopedNames.Proofs.Dump.Preorder
import ScopedNames.Proofs.Scope.Enclosure
import ScopedNames.Proofs.Session.ImportPaths
import ScopedNames.Proofs.Diagnostic.Color

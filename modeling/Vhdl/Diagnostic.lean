import Vhdl.Diagnostic.Code
import Vhdl.Handle
import Vhdl.Identifier

/-! # Diagnostics

A diagnostic says what is wrong, where, how grave it is, and which other places are involved. A
`Report` gathers diagnostics in the order they are found.
-/

namespace Vhdl

/-- The item that a diagnostic is about. A detached item belongs to no design. -/
inductive Subject where
  | design
  | library (id : LibraryId)
  | document (id : DocumentId)
  | unit (id : UnitId)
  | detached
  deriving DecidableEq, Repr

structure Location where
  subject : Subject
  name : String
  deriving DecidableEq, Repr

namespace Location

def design : Location := ⟨.design, "design"⟩

def detached (name : String) : Location := ⟨.detached, name⟩

def unit? (location : Location) : Option UnitId :=
  match location.subject with
  | .unit id => some id
  | _ => none

/-- A headline followed by an arrow to the place. -/
def render (location : Location) (headline : String) : String :=
  headline ++ "\n  --> " ++ location.name ++ "\n"

end Location

structure Diagnostic where
  location : Location
  message : String
  severity : Severity
  code : ErrorCode
  related : List (Location × String) := []
  deriving DecidableEq, Repr

namespace Diagnostic

def error (location : Location) (message : String) (code : ErrorCode) : Diagnostic :=
  ⟨location, message, .error, code, []⟩

def warning (location : Location) (message : String) (code : ErrorCode) : Diagnostic :=
  ⟨location, message, .warning, code, []⟩

def info (location : Location) (message : String) (code : ErrorCode) : Diagnostic :=
  ⟨location, message, .info, code, []⟩

def hint (location : Location) (message : String) (code : ErrorCode) : Diagnostic :=
  ⟨location, message, .hint, code, []⟩

/-- A diagnostic of the severity that its code has by default. -/
def ofCode (location : Location) (message : String) (code : ErrorCode) : Diagnostic :=
  ⟨location, message, code.defaultSeverity, code, []⟩

def circularDependency (location : Location) : Diagnostic :=
  error location "Found circular dependency" .circularDependency

def duplicateUnit (location : Location) (message : String) : Diagnostic :=
  error location message .duplicateUnit

def unresolvedReference (location : Location) (message : String) : Diagnostic :=
  error location message .unresolvedReference

def internal (location : Location) (message : String) : Diagnostic :=
  error location message .internal

def invalidIdentifier (text : String) (fault : Identifier.Fault) : Diagnostic :=
  error (.detached text) ("Invalid identifier '" ++ text ++ "': " ++ fault.message)
    .invalidIdentifier

/-- Name the circumstances. The related places are dropped. -/
def when (diagnostic : Diagnostic) (circumstances : String) : Diagnostic :=
  { diagnostic with
    message := diagnostic.message ++ ", when " ++ circumstances
    related := [] }

def addRelated (diagnostic : Diagnostic) (location : Location) (message : String) : Diagnostic :=
  { diagnostic with related := diagnostic.related ++ [(location, message)] }

/-- The related places as diagnostics of their own. -/
def relatedHints (diagnostic : Diagnostic) : List Diagnostic :=
  diagnostic.related.map fun (location, message) => hint location ("related: " ++ message) .related

def withoutRelated (diagnostic : Diagnostic) : Diagnostic :=
  { diagnostic with related := [] }

def unit? (diagnostic : Diagnostic) : Option UnitId :=
  diagnostic.location.unit?

/-- The related places first, each followed by a blank line, then the diagnostic itself. -/
def render (diagnostic : Diagnostic) (severity : Severity) : String :=
  String.join (diagnostic.related.map fun (location, message) =>
      location.render ("related: " ++ message) ++ "\n") ++
    diagnostic.location.render (severity.name ++ ": " ++ diagnostic.message)

/-- Shown as the map says, or not at all where the map disables the code. -/
def show? (diagnostic : Diagnostic) (map : SeverityMap) : Option String :=
  (map.severity diagnostic.code).map diagnostic.render

def showDefault (diagnostic : Diagnostic) : String :=
  diagnostic.render diagnostic.severity

/-- The message and the name of its place on one line. -/
def summary (diagnostic : Diagnostic) : String :=
  diagnostic.message ++ " (" ++ diagnostic.location.name ++ ")"

end Diagnostic

def Identifier.ofString (text : String) : Except Diagnostic Identifier :=
  (Identifier.check text).mapError (Diagnostic.invalidIdentifier text)

/-- Diagnostics in the order they were found. A silent report keeps none. -/
structure Report where
  silent : Bool := false
  diagnostics : List Diagnostic := []

namespace Report

def push (report : Report) (diagnostic : Diagnostic) : Report :=
  if report.silent then report
  else { report with diagnostics := report.diagnostics ++ [diagnostic] }

def append (report : Report) (diagnostics : List Diagnostic) : Report :=
  diagnostics.foldl push report

/-- Keep the diagnostic of a failed attempt. -/
def pushFailure {α : Type} (report : Report) : Except Diagnostic α → Report
  | .ok _ => report
  | .error diagnostic => report.push diagnostic

def push? (report : Report) : Option Diagnostic → Report
  | some diagnostic => report.push diagnostic
  | none => report

end Report

end Vhdl

/-! # Severities and error codes

Every diagnostic carries one code. A severity map says how the diagnostics of a code are shown,
and starts from the default of each code.
-/

namespace Vhdl

inductive Severity where
  | hint
  | info
  | warning
  | error
  deriving DecidableEq, Repr

namespace Severity

def all : List Severity := [.hint, .info, .warning, .error]

def name : Severity → String
  | .hint => "hint"
  | .info => "info"
  | .warning => "warning"
  | .error => "error"

def ofName? (text : String) : Option Severity :=
  all.find? (·.name = text)

end Severity

inductive ErrorCode where
  | invalidIdentifier
  | duplicateUnit
  | duplicateLibrary
  | duplicateDocument
  | unknownLibrary
  | invalidInterfaceItem
  | unresolvedReference
  | unresolvedPackageBody
  | unresolvedArchitecture
  | unboundComponent
  | noArchForEnt
  | circularDependency
  | unsupportedStandard
  | noTopLevel
  | ambiguousTopLevel
  | circularCompileDependency
  | internal
  | related
  deriving DecidableEq, Repr

namespace ErrorCode

def all : List ErrorCode :=
  [.invalidIdentifier, .duplicateUnit, .duplicateLibrary, .duplicateDocument, .unknownLibrary,
    .invalidInterfaceItem, .unresolvedReference, .unresolvedPackageBody, .unresolvedArchitecture,
    .unboundComponent, .noArchForEnt, .circularDependency, .unsupportedStandard, .noTopLevel,
    .ambiguousTopLevel, .circularCompileDependency, .internal, .related]

def name : ErrorCode → String
  | .invalidIdentifier => "invalid_identifier"
  | .duplicateUnit => "duplicate_unit"
  | .duplicateLibrary => "duplicate_library"
  | .duplicateDocument => "duplicate_document"
  | .unknownLibrary => "unknown_library"
  | .invalidInterfaceItem => "invalid_interface_item"
  | .unresolvedReference => "unresolved_reference"
  | .unresolvedPackageBody => "unresolved_package_body"
  | .unresolvedArchitecture => "unresolved_architecture"
  | .unboundComponent => "unbound_component"
  | .noArchForEnt => "no_arch_for_ent"
  | .circularDependency => "circular_dependency"
  | .unsupportedStandard => "unsupported_standard"
  | .noTopLevel => "no_top_level"
  | .ambiguousTopLevel => "ambiguous_top_level"
  | .circularCompileDependency => "circular_compile_dependency"
  | .internal => "internal"
  | .related => "related"

def ofName? (text : String) : Option ErrorCode :=
  all.find? (·.name = text)

def defaultSeverity : ErrorCode → Severity
  | .unboundComponent | .noTopLevel | .ambiguousTopLevel => .warning
  | .related => .hint
  | _ => .error

end ErrorCode

/-- The severity that each code is shown with, none where the code is disabled. -/
structure SeverityMap where
  severity : ErrorCode → Option Severity

namespace SeverityMap

def default : SeverityMap where
  severity code := some code.defaultSeverity

instance : Inhabited SeverityMap := ⟨default⟩

def set (map : SeverityMap) (code : ErrorCode) (severity : Option Severity) : SeverityMap where
  severity other := if other = code then severity else map.severity other

/-- The codes on which two maps differ, in declaration order. -/
def changes (old new : SeverityMap) : List (ErrorCode × Option Severity) :=
  (ErrorCode.all.filter fun code => old.severity code != new.severity code).map fun code =>
    (code, new.severity code)

end SeverityMap

end Vhdl

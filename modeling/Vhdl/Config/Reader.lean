import Vhdl.Config
import Vhdl.Toml.Reader

/-! # Reading configurations

A configuration is a TOML document with a `standard`, a table of `libraries` and a table `lint` of
severities. What it does not mention has its default. Other keys are ignored.
-/

namespace Vhdl

/-- What is wrong with a configuration text. -/
inductive ConfigError where
  | syntaxError
  | standardType
  | unsupportedStandard (text : String)
  | librariesType
  | workLibrary (name : String)
  | libraryType (name : String)
  | predefinedType (name : String)
  | lintType
  | unknownCode (name : String)
  | unknownSeverity (text : String)
  | severityType
  deriving DecidableEq, Repr

namespace ConfigError

def message : ConfigError → String
  | .syntaxError => "TOML parse error"
  | .standardType => "standard must be a string"
  | .unsupportedStandard text => "Unsupported standard '" ++ text ++ "'"
  | .librariesType => "libraries must be a table"
  | .workLibrary name =>
    "The '" ++ name ++ "' library is not a valid library.\n" ++
      "Hint: 'work' always refers to the library of the design unit itself"
  | .libraryType name => "library " ++ name ++ " must be a table"
  | .predefinedType name => "Expected predefined to be boolean for library " ++ name
  | .lintType => "lint must be a table"
  | .unknownCode name => "'" ++ name ++ "' is not a valid error code"
  | .unknownSeverity text => "'" ++ text ++ "' is not a valid severity level"
  | .severityType => "severity must be a string or boolean"

end ConfigError

namespace Config

def readStandard (table : TomlTable) : Except ConfigError Standard :=
  match table.get? "standard" with
  | none => .ok default
  | some (.string text) =>
    match Standard.ofName? text with
    | some standard => .ok standard
    | none => .error (.unsupportedStandard text)
  | some _ => .error .standardType

/-- The setting of one library. -/
def readLibrary (name : String) (value : Toml) : Except ConfigError LibrarySetting :=
  if lower name = "work" then .error (.workLibrary name)
  else
    match value.table? with
    | none => .error (.libraryType name)
    | some table =>
      match table.get? "predefined" with
      | none => .ok ⟨name, false⟩
      | some (.boolean predefined) => .ok ⟨name, predefined⟩
      | some _ => .error (.predefinedType name)

/-- Add the settings of libraries. Of two names that differ in case only the later one counts. -/
def addLibraries (settings : Table String LibrarySetting) :
    TomlTable → Except ConfigError (Table String LibrarySetting)
  | [] => .ok settings
  | (name, value) :: rest =>
    match readLibrary name value with
    | .error error => .error error
    | .ok setting => addLibraries (settings.insert (lower name) setting) rest

def readLibraries (table : TomlTable) : Except ConfigError (Table String LibrarySetting) :=
  match table.get? "libraries" with
  | none => .ok {}
  | some (.table entries) => addLibraries {} entries
  | some _ => .error .librariesType

/-- A severity is given by name. The value `false` disables a code, and `true` changes nothing. -/
def setSeverity (map : SeverityMap) (code : ErrorCode) : Toml → Except ConfigError SeverityMap
  | .string text =>
    match Severity.ofName? text with
    | some severity => .ok (map.set code (some severity))
    | none => .error (.unknownSeverity text)
  | .boolean true => .ok map
  | .boolean false => .ok (map.set code none)
  | _ => .error .severityType

def setSeverities (map : SeverityMap) : TomlTable → Except ConfigError SeverityMap
  | [] => .ok map
  | (name, value) :: rest =>
    match ErrorCode.ofName? name with
    | none => .error (.unknownCode name)
    | some code =>
      match setSeverity map code value with
      | .error error => .error error
      | .ok map => setSeverities map rest

def readSeverities (table : TomlTable) : Except ConfigError SeverityMap :=
  match table.get? "lint" with
  | none => .ok default
  | some (.table entries) => setSeverities default entries
  | some _ => .error .lintType

def ofTable (table : TomlTable) : Except ConfigError Config :=
  match readStandard table with
  | .error error => .error error
  | .ok standard =>
    match readLibraries table with
    | .error error => .error error
    | .ok libraries =>
      match readSeverities table with
      | .error error => .error error
      | .ok severities => .ok { standard, libraries, severities }

/-- Read a text that the parser makes a table of. -/
def readText (parse : String → Option TomlTable) (text : String) : Except ConfigError Config :=
  match parse text with
  | none => .error .syntaxError
  | some table => ofTable table

def ofText : String → Except ConfigError Config :=
  readText TomlTable.ofText?

end Config

end Vhdl

import Vhdl.Diagnostic.Code
import Vhdl.Identifier
import Vhdl.Message
import Vhdl.Standard
import Vhdl.Table

/-! # Configuration

A configuration chooses the language standard, says which libraries are predefined, and sets how
diagnostics are shown. Libraries are found without regard to case.
-/

namespace Vhdl

structure LibrarySetting where
  name : String
  predefined : Bool
  deriving DecidableEq, Repr

structure Config where
  standard : Standard := default
  /-- The settings by the name of the library in lower case. -/
  libraries : Table String LibrarySetting := {}
  severities : SeverityMap := default

namespace Config

instance : Inhabited Config := ⟨{}⟩

def library? (config : Config) (name : String) : Option LibrarySetting :=
  config.libraries.get? (lower name)

/-- A library without a setting is predefined if it is `std` or `ieee`. -/
def isPredefined (config : Config) (name : String) : Bool :=
  match config.library? name with
  | some setting => setting.predefined
  | none => lower name = "std" || lower name = "ieee"

/-- The first spelling of a library name is kept. -/
def setPredefined (config : Config) (name : String) (predefined : Bool) : Config :=
  let spelling := ((config.library? name).map LibrarySetting.name).getD name
  { config with libraries := config.libraries.insert (lower name) ⟨spelling, predefined⟩ }

def withStandard (config : Config) (standard : Standard) : Config :=
  { config with standard }

def appendLibrary (libraries : Table String LibrarySetting) (entry : String × LibrarySetting) :
    Table String LibrarySetting :=
  libraries.insert entry.1 entry.2

/-- Put another configuration on top. It decides the standard, the severities and the libraries
that it lists. -/
def append (config other : Config) : Config where
  standard := other.standard
  libraries := other.libraries.entries.foldl appendLibrary config.libraries
  severities := other.severities

/-- A warning for every library that both configurations list. -/
def redefinitions (config other : Config) : List Message :=
  (other.libraries.entries.filter fun entry => config.libraries.contains entry.1).map fun entry =>
    ⟨.warning, "Re-defined library " ++ entry.2.name⟩

/-- The settings sorted by the names as written. -/
def sortedLibraries (config : Config) : List LibrarySetting :=
  config.libraries.values.mergeSort fun a b => decide (a.name ≤ b.name)

def changedSeverities (config : Config) : List (ErrorCode × Option Severity) :=
  SeverityMap.changes default config.severities

def isDefault (config : Config) : Bool :=
  config.standard = default && config.libraries.entries.isEmpty && config.changedSeverities.isEmpty

end Config

end Vhdl

import Vhdl.Config.Reader

/-! # External configuration files

Two files may change a configuration: one in the home folder, which may be absent, and one that is
named in the environment. A file that cannot be loaded changes nothing and gives an error.
-/

namespace Vhdl

/-- A configuration file and what it holds, if it exists. -/
structure ConfigFile where
  path : String
  content : Option (List UInt8)

/-- Why a configuration file cannot be loaded. -/
inductive LoadError where
  | notFound
  | notText
  | invalid (error : ConfigError)

def LoadError.message : LoadError → String
  | .notFound => "No such file or directory (os error 2)"
  | .notText => "stream did not contain valid UTF-8"
  | .invalid error => error.message

namespace ConfigFile

def load (file : ConfigFile) : Except LoadError Config :=
  match file.content with
  | none => .error .notFound
  | some bytes =>
    match String.fromUTF8? ⟨bytes.toArray⟩ with
    | none => .error .notText
    | some text => (Config.ofText text).mapError .invalid

end ConfigFile

namespace Config

/-- Put the configuration of a file on top. -/
def loadFile (config : Config) (description : String) (file : ConfigFile) :
    Config × List Message :=
  match file.load with
  | .ok loaded =>
    (config.append loaded,
      ⟨.log, "Loaded " ++ description ++ " configuration file: " ++ file.path⟩ ::
        config.redefinitions loaded)
  | .error error =>
    (config,
      [.fileError
        ("Error while loading " ++ description ++ " configuration file: " ++ error.message)
        file.path])

/-- The name of the variable that names a configuration file. -/
def environmentVariable : String := "VHDL_MODEL_CONFIG"

/-- The name of the configuration file in the home folder. -/
def homeFileName : String := ".vhdl_model.toml"

/-- Load the file in the home folder, if it exists, and then the file of the environment, if one is
named there. -/
def loadExternal (config : Config) (home : ConfigFile) (environment : Option ConfigFile) :
    Config × List Message :=
  let (config, homeMessages) :=
    if home.content.isSome then config.loadFile "HOME folder" home else (config, [])
  match environment with
  | none => (config, homeMessages)
  | some file =>
    let (config, messages) := config.loadFile environmentVariable file
    (config, homeMessages ++ messages)

end Config

end Vhdl

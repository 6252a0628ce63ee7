/-
  Project/Config.lean --- how a project is configured.

  WHAT THIS FILE IS FOR.  A project is a folder.  Everything about its ledger is
  in a folder inside it, and a file there may say where the records are kept and
  how the program logs.  A project without that file has the usual settings.
-/
import RunLedger.Json.Basic
import RunLedger.Project.Files
import RunLedger.Project.Setting

set_option autoImplicit false

namespace RunLedger.Project

/-- How log lines are written. -/
inductive LogFormat where
  | text
  /-- one document to a line -/
  | json
  deriving DecidableEq, Repr, Inhabited

namespace LogFormat

/-- The written name of a format. -/
def name : LogFormat → String
  | text => "text"
  | json => "json"

/-- The format with a name. -/
def ofName? : String → Option LogFormat
  | "text" => some .text
  | "json" => some .json
  | _ => none

end LogFormat

/-- The configuration of a project. -/
structure Config where
  /-- the folder of the project -/
  root : String
  /-- the folder of everything about its ledger -/
  ledgerFolder : String
  /-- the file of the records -/
  database : String
  logFilter : String
  logFormat : LogFormat
  deriving DecidableEq, Repr, Inhabited

/-- Why a project has no configuration. -/
inductive ConfigFault where
  /-- the file is there but cannot be read -/
  | unreadable (path : String)
  /-- the file is not a list of settings of a project -/
  | invalid (path : String)
  deriving DecidableEq, Repr, Inhabited

/-- The sentence about a configuration. -/
def ConfigFault.message : ConfigFault → String
  | unreadable path => "failed to read " ++ path
  | invalid path => "invalid config file " ++ path

namespace Config

/-- The usual settings of a project. -/
def usual (root : String) : Config :=
  let ledgerFolder := joinPath root ".nightledger"
  { root := root
    ledgerFolder := ledgerFolder
    database := joinPath ledgerFolder "ledger.db"
    logFilter := "nl_ledger=info,nl_governance=info,nl_cli=info"
    logFormat := .text }

/-- The file that settings are read from. -/
def settingsFile (config : Config) : String := joinPath config.ledgerFolder "config.toml"

/-- A configuration with another format of log lines, if there is one with this name. -/
def setFormat? (config : Config) (name : String) : Option Config :=
  (LogFormat.ofName? name).map fun format => { config with logFormat := format }

/-- A configuration with one setting changed, if there is such a setting.  A file is looked for
in the folder of the project; a format may be written as a name with nothing under it. -/
def set? (config : Config) : Setting → Option Config
  | ("database", .text value) => some { config with database := joinPath config.root value }
  | ("log_filter", .text value) => some { config with logFilter := value }
  | ("log_format", .text value) => config.setFormat? value
  | ("log_format", .name value) => config.setFormat? value
  | _ => none

/-- A configuration with settings changed one after the other. -/
def setAll? (config : Config) : List Setting → Option Config
  | [] => some config
  | setting :: rest => (config.set? setting).bind fun changed => changed.setAll? rest

/-- The configuration of a project. -/
def load (files : Files) (root : String) : Except ConfigFault Config :=
  let config := usual root
  let path := config.settingsFile
  match files.find? path with
  | none => .ok config
  | some (.text content) =>
    match (settingsOf? content).bind config.setAll? with
    | some config => .ok config
    | none => .error (.invalid path)
  | some _ => .error (.unreadable path)

/-- The document of a configuration. -/
def toJson (config : Config) : Json :=
  .object [
    ("project_root", .text config.root),
    ("ledger_dir", .text config.ledgerFolder),
    ("database", .text config.database),
    ("log_filter", .text config.logFilter),
    ("log_format", .text config.logFormat.name)]

end Config

end RunLedger.Project

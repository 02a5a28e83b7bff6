import ProgramArt.Config.Basic
import ProgramArt.Folder.Basic
import ProgramArt.Yaml.Document

/-!
# Settings in files

A configuration file is a YAML mapping from settings to values. A file that holds nothing gives no settings. Settings
that are given elsewhere win over those of the file (`Config.overridden`).
-/

namespace ProgramArt

/-- Why a file gives no configuration. -/
inductive ConfigFileError where
  | file (error : FileError)
  | yaml (error : Yaml.YamlError)
  /-- The file at the path holds something else than a mapping. -/
  | notMapping (path : String)
  | config (error : ConfigError)
deriving DecidableEq

/-- The report of why a file gives no configuration, where it has a text of its own. -/
def ConfigFileError.message? : ConfigFileError → Option String
  | file error => some error.message
  | yaml (.badValue reason) => some reason
  | yaml _ => none
  | notMapping path => some s!"Config file {path} must contain a mapping"
  | config error => error.message?

namespace Config

/-- Those of the settings that are there. -/
def present (given : List (String × Datum)) : List (String × Datum) :=
  given.filter fun (_, value) => !value.identical .null

/-- Entries in which the settings that are given win. -/
def overridden (entries : List (Datum × Datum)) (given : List (String × Datum)) :
    List (Datum × Datum) :=
  (present given).foldl (fun entries (name, value) => Datum.insert (.str name) value entries) entries

/-- The configuration of the settings that are given. -/
def ofGiven (given : List (String × Datum)) : Except ConfigFileError Config :=
  (ofEntries (overridden [] given)).mapError .config

/-- The settings of a document, over which the given ones win. They are put into its mapping, and a
setting that holds this mapping again holds them too. A document that counts as absent has none. -/
def entriesOf (path : String) (document : Yaml.Document) (given : List (String × Datum)) :
    Except ConfigFileError (List (Datum × Datum)) :=
  if !document.datum.isTrue then .ok (overridden [] given)
  else
    let changed := (present given).foldl (fun d (name, value) => d.put (.str name) value) document
    match changed.datum with
    | .map entries => .ok entries
    | _ => .error (.notMapping path)

/-- The names under which nothing can be given beside a file: they stand for the file and for what is made
of it. -/
def reserved : List String := ["path", "cls"]

/-- The configuration of a file, over which the given settings win. -/
def ofFile [Host] (folder : Folder) (path : String) (given : List (String × Datum)) :
    Except ConfigFileError Config := do
  if given.any fun (name, _) => reserved.contains name then throw (.config .wrongType)
  let text ← (folder.read path).mapError .file
  let document ← (Yaml.read text).mapError .yaml
  (ofEntries (← entriesOf path document given)).mapError .config

end Config

end ProgramArt

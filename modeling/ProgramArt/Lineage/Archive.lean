import ProgramArt.Folder.Making
import ProgramArt.Json.Printer
import ProgramArt.Json.Reader
import ProgramArt.Lineage.Basic

/-!
# Lineages in files

A lineage may belong to a file. It is read from there when the archive is opened (`Archive.openAt`), and a file that
cannot be read as a lineage is reported and counts as an empty one. Saving keeps what was in the file before as a
second file beside it (`Archive.backUp`).
-/

namespace ProgramArt

/-- A lineage and the path of the file that it belongs to, if there is one. -/
structure Archive where
  path : Option Path := none
  lineage : Lineage := {}

/-- The entries of a list, if every one of them is an entry. An empty text or mapping counts as an empty
list. -/
def readEntries? (now : String) : Datum → Option (List Entry)
  | .list items => items.mapM (Entry.ofDatum? now)
  | .str text => if text == "" then some [] else none
  | .map entries => if entries.isEmpty then some [] else none
  | _ => none

/-- The document of the records of a lineage. -/
def Lineage.document (now : String) (records : List Datum) : Datum :=
  .record
    [("metadata", .record
        [("created", .str now), ("total_entries", .int records.length), ("version", .str "1.0")]),
      ("entries", .list records)]

/-- Why an archive cannot be opened or saved. -/
inductive ArchiveError where
  /-- The file holds a document that is no mapping. -/
  | notRecord
  /-- The document of the file, or an entry, is nested too deeply. -/
  | tooDeep
  /-- The file cannot be used. -/
  | file (error : FileError)
  /-- The path is no text. -/
  | notPath
deriving DecidableEq

namespace Archive

/-- The report of a file that cannot be read as a lineage. -/
def faultReport (reason : String) : String :=
  s!"⚠️ Error loading lineage: {reason}"

/-- What a file gives: the entries and the report about them. -/
def loadFile [Host] (now : String) (folder : Folder) (path : Path) :
    Except ArchiveError (List Entry × String) :=
  match folder.read path.text with
  | .error e => .ok ([], faultReport e.message)
  | .ok text =>
    match Json.read text with
    | .error .malformed => .ok ([], faultReport (Host.aboutText text))
    | .error .tooDeep => .error .tooDeep
    | .ok (.map fields) =>
      match readEntries? now ((Datum.lookup? (.str "entries") fields).getD (.list [])) with
      | some entries =>
        .ok (entries, s!"📚 Loaded {entries.length} lineage entries from {path.text}")
      | none => .ok ([], faultReport (Host.aboutEntries text))
    | .ok _ => .error .notRecord

/-- Take the entries from the file, if there is one, and report about it. -/
def load [Host] (now : String) (folder : Folder) (archive : Archive) :
    Except ArchiveError (Archive × List String) :=
  match archive.path with
  | none => .ok ({ archive with lineage := {} }, [])
  | some path =>
    match folder.exists? path with
    | .error e => .error (.file e)
    | .ok false => .ok ({ archive with lineage := {} }, [])
    | .ok true =>
      match loadFile now folder path with
      | .ok (entries, report) => .ok ({ archive with lineage := ⟨entries⟩ }, [report])
      | .error e => .error e

/-- The archive of the file at the path that a datum gives; a datum that counts as absent means that
there is no file. -/
def openAt [Host] (now : String) (folder : Folder) (path : Datum) :
    Except ArchiveError (Archive × List String) :=
  if !path.isTrue then load now folder {}
  else
    match Path.ofDatum? path with
    | some path => load now folder { path := some path }
    | none => .error .notPath

/-- Move the file at a path out of the way, to a path with another ending. -/
def backUp (folder : Folder) (path : Path) : Except FileError Folder := do
  if ← folder.exists? path then
    match path.withEnding? ".backup.json" with
    | some target => folder.move path.text target.text
    | none => throw (.noName path.text)
  else return folder

/-- Store the entries in the file at a path. What was done before a failure stays done. -/
def saveAt [Host] (now : String) (folder : Folder) (lineage : Lineage) (path : Path) :
    Folder × Option ArchiveError :=
  match backUp folder path with
  | .error e => (folder, some (.file e))
  | .ok folder =>
    match lineage.records?, path.flaw with
    | none, _ => (folder, some .tooDeep)
    | some _, some reason => (folder, some (.file (.notEncodable reason)))
    | some records, none =>
      match folder.ensurePath path.parent with
      | (folder, some e) => (folder, some (.file e))
      | (folder, none) =>
        match folder.write path.text (.text (Json.print (Lineage.document now records))) with
        | .error e => (folder, some (.file e))
        | .ok folder => (folder, none)

/-- Store the entries in the file, if there is one, and report about it. -/
def save [Host] (now : String) (folder : Folder) (archive : Archive) :
    Folder × Except ArchiveError (List String) :=
  match archive.path with
  | none => (folder, .ok [])
  | some path =>
    match saveAt now folder archive.lineage path with
    | (folder, some e) => (folder, .error e)
    | (folder, none) =>
      let count := archive.lineage.entries.length
      (folder, .ok [s!"💾 Saved {count} lineage entries to {path.text}"])

end Archive

end ProgramArt

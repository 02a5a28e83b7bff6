import ProgramArt.Folder.Basic
import ProgramArt.Host

/-!
# Making directories

A directory is made together with those on the way to it. One that is there already is no fault. There are two ways to
go about it. For the parent of a kept path (`Folder.ensurePath`), the directory itself is tried first and the way to
it is made when it is missing. For a path given as a text (`Folder.ensureText`), the way is looked at first, and what
is wrong with it shows only when the directory is made.
-/

namespace ProgramArt.Folder

/-- What has become of the directories, and what went wrong after that. -/
abbrev Made := Folder × Option FileError

/-- A fault, unless a directory is at the path after all. -/
def unlessDirectory (folder : Folder) (path : String) (e : FileError) : Made :=
  match e with
  | .refused _ _ => if folder.isDirectory path then (folder, none) else (folder, some e)
  | e => (folder, some e)

/-- A directory at a path, which may be there already. -/
def ensureOne (folder : Folder) (path : String) : Made :=
  match folder.makeDirectory path with
  | .ok folder => (folder, none)
  | .error e => folder.unlessDirectory path e

/-- The directory of a kept path and, if they are missing, at most `depth` of those on the way to it. -/
def ensurePathWithin (folder : Folder) (depth : Nat) (path : Path) : Made :=
  match depth, folder.makeDirectory path.text with
  | _, .ok folder => (folder, none)
  | depth + 1, .error (.refused .notFound _) =>
    match folder.ensurePathWithin depth path.parent with
    | (folder, some e) => (folder, some e)
    | (folder, none) => folder.ensureOne path.text
  | 0, .error (.refused .notFound _) => (folder, some .tooDeep)
  | _, .error e => folder.unlessDirectory path.text e

/-- The directory of a kept path and, if they are missing, those on the way to it. -/
def ensurePath [Host] (folder : Folder) (path : Path) : Made :=
  folder.ensurePathWithin Host.missingDepth path

/-- The directory of a path given as a text and, if they are missing, less than `depth` of those on the
way to it. -/
def ensureTextWithin (folder : Folder) (depth : Nat) (path : String) : Made :=
  match depth with
  | 0 => (folder, some .tooDeep)
  | depth + 1 =>
    let (front, name) := splitPath path
    let (front, name) := if name == "" then splitPath front else (front, name)
    if front != "" && name != "" && (folder.find front).toBool == false then
      match folder.ensureTextWithin depth front with
      | (folder, none) | (folder, some (.refused .alreadyExists _)) =>
        if name == "." then (folder, none) else folder.ensureOne path
      | (folder, some e) => (folder, some e)
    else folder.ensureOne path

/-- The directory of a path given as a text and those on the way to it. -/
def ensureText [Host] (folder : Folder) (path : String) : Made :=
  folder.ensureTextWithin (Host.missingDepth + 1) path

end ProgramArt.Folder

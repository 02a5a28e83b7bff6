import ProgramArt.Folder.Fault
import ProgramArt.Folder.Item
import ProgramArt.Folder.Path
import ProgramArt.Text.Lines

/-!
# Folders of files

The files that a run reads and writes are kept in a tree of directories, and one of its directories is the folder from
which paths start. A path is followed name by name (`Folder.follow`): every name but the last one has to be the name
of a directory.
-/

namespace ProgramArt

/-- Directories and files, and the place from which relative paths start. -/
structure Folder where
  home : Place
  root : Item

namespace Folder

/-- What is at a place. -/
def get? (folder : Folder) (place : Place) : Option Item :=
  folder.root.get? place

/-- The folder with an item at a place, where it replaces any other. -/
def put (folder : Folder) (place : Place) (item : Item) : Folder :=
  { folder with root := folder.root.put item place }

/-- The folder at a place, with nothing in it. -/
def emptyAt (home : Place) : Folder :=
  (Folder.mk home ((Item.empty).put .sink ["dev", "null"])).put home .empty

/-- The place of a path, if double dots are taken as they stand. -/
def placeOf (folder : Folder) (path : Path) : Place :=
  path.names.foldl (fun place name => if name == ".." then place.dropLast else place ++ [name])
    (if path.root == "" then folder.home else [])

/-- The folder with a text file at a path, and the directories on the way to it. -/
def withText (folder : Folder) (path text : String) : Folder :=
  folder.put (folder.placeOf (.ofText path)) (.file (.text text))

/-- The most bytes of a name. -/
def maxName : Nat := 255

/-- The least number of bytes that a path is too long with. -/
def pathLimit : Nat := 4096

/-- A directory that a path has come to: the names on the way and what is under them, the last one
first. -/
abbrev Trail := List (String × Item)

/-- The place that a trail has come to. -/
def placeOfTrail (trail : Trail) : Place := (trail.map Prod.fst).reverse

/-- The item that a trail has come to. -/
def itemOf (folder : Folder) : Trail → Item
  | [] => folder.root
  | (_, item) :: _ => item

/-- What is under a name in the directory of a trail. -/
def entry? (folder : Folder) (trail : Trail) (name : String) : Except FileFault (Option Item) :=
  if maxName < name.utf8ByteSize then .error .nameTooLong
  else .ok ((folder.itemOf trail).child? name)

/-- Follow names from a directory to another one. -/
def follow (folder : Folder) (trail : Trail) : List String → Except FileFault Trail
  | [] => .ok trail
  | "." :: rest => folder.follow trail rest
  | ".." :: rest => folder.follow trail.tail rest
  | name :: rest =>
    match folder.entry? trail name with
    | .error e => .error e
    | .ok none => .error .notFound
    | .ok (some item) =>
      if item.isDirectory then folder.follow ((name, item) :: trail) rest else .error .notDirectory

/-- The trail of the names on the way to a place. -/
def trailTo (folder : Folder) (place : Place) : Except FileFault Trail :=
  folder.follow [] place

/-- Where a path leads. -/
structure Aim where
  /-- The directory in front of the last name. -/
  trail : Trail
  /-- The last name, unless the path leads to the directory itself. -/
  name : Option String
  /-- Whether only a directory can be meant. -/
  slashed : Bool

/-- The place of the last name. -/
def Aim.place (aim : Aim) (name : String) : Place := placeOfTrail aim.trail ++ [name]

/-- Where a path leads. -/
def aim (folder : Folder) (path : String) : Except FileFault Aim :=
  let names := Path.namesOf path
  let start := if path.toList.head? == some '/' then [] else folder.home
  let slashed := path.toList.getLast? == some '/'
  if path == "" then .error .notFound
  else if pathLimit ≤ path.utf8ByteSize then .error .nameTooLong
  else do
    let start ← folder.trailTo start
    match names.getLast? with
    | none => return ⟨start, none, slashed⟩
    | some last =>
      let trail ← folder.follow start names.dropLast
      if last == "." then return ⟨trail, none, slashed⟩
      else if last == ".." then return ⟨trail.tail, none, slashed⟩
      else return ⟨trail, some last, slashed⟩

/-- What is at a path. -/
def locate (folder : Folder) (path : String) : Except FileFault Item := do
  let aim ← folder.aim path
  match aim.name with
  | none => return folder.itemOf aim.trail
  | some name =>
    match ← folder.entry? aim.trail name with
    | none => throw .notFound
    | some item => if aim.slashed && !item.isDirectory then throw .notDirectory else return item

/-- A step on a path, which may not hold a null character. -/
def onPath {α : Type} (path : String) (step : Except FileFault α) : Except FileError α :=
  if path.toList.contains '\x00' then .error .nullByte
  else
    match step with
    | .ok a => .ok a
    | .error fault => .error (.refused fault path)

/-- What is at a path. -/
def find (folder : Folder) (path : String) : Except FileError Item :=
  onPath path (folder.locate path)

/-- Whether something is at a path. Only a path that is too long is an error. -/
def exists? (folder : Folder) (path : Path) : Except FileError Bool :=
  if path.flaw.isSome then .ok false
  else
    match folder.find path.text with
    | .ok _ => .ok true
    | .error (.refused .nameTooLong text) => .error (.refused .nameTooLong text)
    | .error _ => .ok false

/-- Whether a directory is at a path. -/
def isDirectory (folder : Folder) (path : String) : Bool :=
  match folder.find path with
  | .ok item => item.isDirectory
  | .error _ => false

/-! ## Reading and writing -/

/-- The text of the file at a path, in which every line ends with a line feed. -/
def read (folder : Folder) (path : String) : Except FileError String := do
  match ← folder.find path with
  | .directory _ => throw (.refused .isDirectory path)
  | .sink => return ""
  | .file (.text text) => return String.ofList (Text.unifyBreaks text.toList)
  | .file (.picture _) => throw .notText

/-- Store a file at a path. -/
def write (folder : Folder) (path : String) (content : FileContent) : Except FileError Folder :=
  onPath path do
    let aim ← folder.aim path
    match aim.name with
    | none => throw .isDirectory
    | some name =>
      if aim.slashed then throw .isDirectory
      match ← folder.entry? aim.trail name with
      | some (.directory _) => throw .isDirectory
      | some .sink => return folder
      | _ => return folder.put (aim.place name) (.file content)

/-- Make a directory at a path. -/
def makeDirectory (folder : Folder) (path : String) : Except FileError Folder :=
  onPath path do
    let aim ← folder.aim path
    match aim.name with
    | none => throw .alreadyExists
    | some name =>
      match ← folder.entry? aim.trail name with
      | some _ => throw .alreadyExists
      | none => return folder.put (aim.place name) .empty

/-- Move the item at a place to another one, with all that is in it. -/
def movePlace (folder : Folder) (item : Item) (source target : Place) : Folder :=
  { folder with root := (folder.root.remove source).put item target }

/-- Move a file or a directory in the place of a file or of an empty directory. -/
def move (folder : Folder) (source target : String) : Except FileError Folder :=
  onPath source do
    let fromAim ← folder.aim source
    let toAim ← folder.aim target
    match fromAim.name, toAim.name with
    | some fromName, some toName =>
      let some item ← folder.entry? fromAim.trail fromName | throw .notFound
      let moved := folder.movePlace item (fromAim.place fromName) (toAim.place toName)
      match item, ← folder.entry? toAim.trail toName with
      | .directory _, some (.directory inside) => if inside.isEmpty then return moved else throw .notEmpty
      | .directory _, some _ => throw .notDirectory
      | _, some (.directory _) => throw .isDirectory
      | _, _ => return moved
    | _, _ => throw .busy

/-! ## Listings -/

/-- The path of a place, from the folder if the place is below it and from the root otherwise. -/
def pathOf (folder : Folder) (place : Place) : Path :=
  if folder.home.isPrefixOf place then { names := place.drop folder.home.length }
  else { root := "/", names := place }

/-- All files. -/
def files (folder : Folder) : List (Path × FileContent) :=
  (folder.root.files []).map fun (place, content) => (folder.pathOf place, content)

/-- All files below the folder in the order of their paths, with the texts of those that are texts. -/
def listing (folder : Folder) : List (String × Option String) :=
  let below := folder.files.filter fun (path, _) => path.root == ""
  (below.map fun (path, content) =>
    (path.text, match content with
      | .text text => some text
      | .picture _ => none)).mergeSort fun a b => decide (a.1 ≤ b.1)

end Folder

end ProgramArt

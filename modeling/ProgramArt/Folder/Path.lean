import ProgramArt.Datum.Basic
import ProgramArt.Text.Split

/-!
# Paths

A path is written as names with slashes between them. A `Path` that is kept forgets empty names and single dots, but
not double dots, whose meaning depends on the directories that are there.
-/

namespace ProgramArt

/-- A path, as the slashes that it starts with and the names on the way. -/
structure Path where
  root : String := ""
  names : List String
  /-- Why the path cannot be used at all, if it holds halves of surrogate pairs. -/
  flaw : Option String := none
deriving DecidableEq

namespace Path

/-- The names of a text between slashes. -/
def namesOf (text : String) : List String :=
  ((Text.parts '/' text.toList).map String.ofList).filter (· != "")

/-- The path of a text. Two slashes in front of it are kept, and more count as one. -/
def ofText (text : String) : Path :=
  let slashes := (text.toList.takeWhile (· == '/')).length
  { root := if slashes == 0 then "" else if slashes == 2 then "//" else "/"
    names := (namesOf text).filter (· != ".") }

/-- The path that a datum gives, if it is a text. -/
def ofDatum? : Datum → Option Path
  | .str text => some (ofText text)
  | .rawText codes =>
    some { ofText (Text.ofCodes codes) with flaw := Text.encodingFault? codes }
  | _ => none

/-- A path as a text. -/
def text (path : Path) : String :=
  if path.root == "" && path.names.isEmpty then "."
  else path.root ++ String.intercalate "/" path.names

/-- The directory of a path. -/
def parent (path : Path) : Path := { path with names := path.names.dropLast }

/-- The last name of a path, or an empty one. -/
def name (path : Path) : String := path.names.getLastD ""

/-- A name without its ending: what stands in front of the last dot, unless the dot is the first or the
last character. -/
def stem (name : String) : String :=
  let chars := name.toList
  let ending := (chars.reverse.takeWhile (· != '.')).length
  if ending == 0 || chars.length ≤ ending + 1 then name
  else String.ofList (chars.take (chars.length - ending - 1))

/-- A path with another ending of its last name, if it has one. -/
def withEnding? (path : Path) (ending : String) : Option Path :=
  if path.name == "" then none
  else some { path with names := path.names.dropLast ++ [stem path.name ++ ending] }

end Path

/-! ## Paths as texts -/

/-- A text without the slashes at its end. -/
def dropSlashes (text : List Char) : List Char :=
  (text.reverse.dropWhile (· == '/')).reverse

/-- A path cut before its last name: what is in front of it, and the name, which is empty if the path
ends with a slash. -/
def splitPath (text : String) : String × String :=
  let chars := text.toList
  let name := (chars.reverse.takeWhile (· != '/')).reverse
  let front := chars.take (chars.length - name.length)
  let front := if front.all (· == '/') then front else dropSlashes front
  (String.ofList front, String.ofList name)

/-- The path of a name in a directory. -/
def joinPath (directory name : String) : String :=
  if directory.endsWith "/" then directory ++ name else directory ++ "/" ++ name

end ProgramArt

import ProgramArt.CommandLine.Launch
import ProgramArt.Picture.Png
import Std.Time

/-!
# The program

The program reads the files that its options and settings name (`gather`), runs, and writes the files that have
changed (`store`).
-/

namespace ProgramArt.CommandLine

/-- The options in short. -/
def usage : String :=
  let item (o : OptionName) : String :=
    match o.form with
    | .nothing => s!"[{o.word}]"
    | .text => s!"[{o.word} TEXT]"
    | .whole => s!"[{o.word} INT]"
    | .number => s!"[{o.word} FLOAT]"
    | .choice choices => s!"[{o.word} " ++ String.intercalate "|" choices ++ "]"
  "usage: " ++ String.intercalate " " (OptionName.all.map item)

/-- What is said about a failure that is no mistake of the user. -/
def Failure.text : Failure → String
  | .config (.yaml _) => "the configuration file is no YAML document"
  | .descent (.archive .notRecord) => "the lineage file holds no record"
  | .descent (.archive .tooDeep) => "the lineage is nested too deeply"
  | .descent (.piece e) => e.message?.getD "the piece cannot go on"
  | .tape _ | .beat _ => "the program cannot go on"
  | failure => failure.mistake?.getD "a setting cannot be used for what it is needed for"

/-- Add the text file at a path to a folder, if there is one. -/
def gatherFile (folder : Folder) (path : String) : IO Folder := do
  try
    let text ← IO.FS.readFile path
    return folder.withText path text
  catch _ => return folder

/-- The files that a run may read: the configuration file and the file of the lineage. -/
def gather (arguments : List String) : IO Folder := do
  let nothing := Folder.emptyAt (Path.namesOf (← IO.currentDir).toString)
  match Options.parse arguments with
  | .error _ => return nothing
  | .ok options =>
    let folder ← match options.configPath? with
      | some path => gatherFile nothing path
      | none => pure nothing
    match configure options folder with
    | .ok config =>
      match config.text? .lineagePath with
      | some path => gatherFile folder path
      | none => return folder
    | .error _ => return folder

/-- Write the files that a run has changed. -/
def store (before after : Folder) : IO Unit := do
  for (path, content) in after.files do
    if before.files.lookup path != some content then
      IO.FS.createDirAll path.parent.text
      match content with
      | .text text => IO.FS.writeFile path.text text
      | .picture picture => IO.FS.writeBinFile path.text ⟨picture.toPng.toArray⟩

/-- The present time. -/
def present : IO Clock := do
  let now ← Std.Time.PlainDateTime.now
  return ⟨now.format "uuuu-MM-dd'T'HH:mm:ss", now.format "HH:mm:ss", 0.0⟩

end ProgramArt.CommandLine

open ProgramArt ProgramArt.CommandLine in
/-- Run on the words of the command line. -/
def main (arguments : List String) : IO UInt32 := do
  let before ← gather arguments
  let fresh ← IO.rand 0 (Nat.pow 2 62)
  let outcome := launch (← present) fresh before arguments
  outcome.printed.forM IO.println
  store before outcome.folder
  match outcome.ending with
  | .finished status => return UInt32.ofNat status
  | .stopped status =>
    if status == 0 then IO.println usage else IO.eprintln usage
    return UInt32.ofNat status
  | .failed failure =>
    IO.eprintln failure.text
    return 1

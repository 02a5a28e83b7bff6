import ProgramArt.Text.Quoted

/-!
# Faults of files

A file can be refused by the directories that it is looked for in (`FileFault`), or because of its path, or because of
what is in it (`FileError`).
-/

namespace ProgramArt

/-- Why a path cannot be used. -/
inductive FileFault where
  | notFound
  | busy
  | alreadyExists
  | notDirectory
  | isDirectory
  | nameTooLong
  | notEmpty
deriving DecidableEq

/-- The number and the words of a fault. -/
def FileFault.report : FileFault → String
  | notFound => "[Errno 2] No such file or directory"
  | busy => "[Errno 16] Device or resource busy"
  | alreadyExists => "[Errno 17] File exists"
  | notDirectory => "[Errno 20] Not a directory"
  | isDirectory => "[Errno 21] Is a directory"
  | nameTooLong => "[Errno 36] File name too long"
  | notEmpty => "[Errno 39] Directory not empty"

/-- Why a file cannot be used. -/
inductive FileError where
  | refused (fault : FileFault) (path : String)
  /-- A file that is no text. -/
  | notText
  /-- A path with a null character. -/
  | nullByte
  /-- A path that cannot be written out. -/
  | notEncodable (reason : String)
  /-- A path without a name. -/
  | noName (path : String)
  /-- A path with too many directories on the way that are missing. -/
  | tooDeep
deriving DecidableEq

/-- The report of why a file cannot be used. -/
def FileError.message : FileError → String
  | refused fault path => s!"{fault.report}: {Text.quoted path}"
  | notText => "'utf-8' codec can't decode byte 0x89 in position 0: invalid start byte"
  | nullByte => "embedded null byte"
  | notEncodable reason => reason
  | noName path => s!"PosixPath({Text.quoted path}) has an empty name"
  | tooDeep => "too many directories are missing"

end ProgramArt

import ProgramArt.Picture.Basic

/-!
# Trees of files

A directory holds files and further directories under names. What is at a place is found by going from directory to
directory along its names (`Item.get?`).
-/

namespace ProgramArt

/-- What a file holds. -/
inductive FileContent where
  | text (text : String)
  | picture (picture : Picture)
deriving DecidableEq

/-- What can be at a place. -/
inductive Item where
  | directory (entries : List (String × Item))
  | file (content : FileContent)
  /-- A file that is always empty and forgets what is written into it. -/
  | sink
deriving Inhabited

/-- The names on the way from the root. -/
abbrev Place := List String

namespace Item

/-- A directory with nothing in it. -/
def empty : Item := directory []

/-- Whether an item is a directory. -/
def isDirectory : Item → Bool
  | directory _ => true
  | _ => false

/-- What is in a directory under a name. -/
def child? (item : Item) (name : String) : Option Item :=
  match item with
  | directory entries => entries.lookup name
  | _ => none

/-- What is at a place below an item. -/
def get? (item : Item) : Place → Option Item
  | [] => some item
  | name :: rest =>
    match item.child? name with
    | some child => child.get? rest
    | none => none

/-- Entries with an item under a name, where it replaces any other. -/
def setEntry (name : String) (item : Item) : List (String × Item) → List (String × Item)
  | [] => [(name, item)]
  | (other, old) :: rest =>
    if other = name then (name, item) :: rest else (other, old) :: setEntry name item rest

/-- A directory with an item under a name, where it replaces any other. -/
def setChild (item : Item) (name : String) (child : Item) : Item :=
  match item with
  | directory entries => directory (setEntry name child entries)
  | item => item

/-- An item with another one at a place below it. Directories that are missing on the way are made. -/
def put (item new : Item) : Place → Item
  | [] => new
  | name :: rest => item.setChild name (((item.child? name).getD empty).put new rest)

/-- An item without what is at a place below it. -/
def remove (item : Item) : Place → Item
  | [] => item
  | [name] =>
    match item with
    | directory entries => directory (entries.filter (·.1 != name))
    | item => item
  | name :: next :: rest =>
    match item.child? name with
    | some child => item.setChild name (child.remove (next :: rest))
    | none => item

mutual

/-- All files below an item that is at a place. -/
def files (place : Place) : Item → List (Place × FileContent)
  | directory entries => filesOfAll place entries
  | file content => [(place, content)]
  | sink => []

/-- All files below the entries of the directory at a place. -/
def filesOfAll (place : Place) : List (String × Item) → List (Place × FileContent)
  | [] => []
  | (name, item) :: rest => files (place ++ [name]) item ++ filesOfAll place rest

end

/-- What is put under a name is found under it, and what is under other names stays. -/
theorem lookup_setEntry (name other : String) (item : Item) (entries : List (String × Item)) :
    (setEntry name item entries).lookup other =
      if other = name then some item else entries.lookup other := by
  induction entries with
  | nil => by_cases h : other = name <;> simp [setEntry, List.lookup_cons, h, beq_false_of_ne]
  | cons entry rest ih =>
    obtain ⟨key, old⟩ := entry
    by_cases hk : key = name
    · subst hk
      by_cases h : other = key <;> simp [setEntry, List.lookup_cons, h, beq_false_of_ne]
    · by_cases h : other = key
      · subst h
        simp [setEntry, hk]
      · simp [setEntry, hk, List.lookup_cons, beq_false_of_ne h, ih]

end Item

end ProgramArt

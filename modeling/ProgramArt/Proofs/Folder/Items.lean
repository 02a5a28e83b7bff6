import ProgramArt.Folder.Item

/-!
# Changes in a tree of files

What is put or removed below a place is put or removed below the item there (`Item.put_append`, `Item.remove_append`).
So all that is done with a file happens in the directory that holds it: its entries are changed, and every directory
stays where it is (`Item.KeepsDirectories`).
-/

namespace ProgramArt

/-! ## Entries of a directory -/

namespace Item

/-- An entry that is filtered out is gone, and all others stay. -/
theorem lookup_filter (name other : String) (entries : List (String × Item)) :
    (entries.filter (·.1 != name)).lookup other = if other = name then none else entries.lookup other := by
  induction entries with
  | nil => simp
  | cons entry entries ih =>
    obtain ⟨key, item⟩ := entry
    by_cases hkey : key = name
    · subst hkey
      rw [List.filter_cons_of_neg (by simp), ih]
      by_cases hother : other = key
      · simp [hother]
      · simp [hother, List.lookup_cons, beq_false_of_ne]
    · rw [List.filter_cons_of_pos (by simpa using hkey)]
      by_cases hother : other = key
      · subst hother
        simp [hkey]
      · simp [List.lookup_cons, beq_false_of_ne hother, ih]

/-- Of two entries that are set under one name the second stays. -/
theorem setEntry_setEntry (name : String) (first second : Item) (entries : List (String × Item)) :
    setEntry name second (setEntry name first entries) = setEntry name second entries := by
  induction entries with
  | nil => simp [setEntry]
  | cons entry entries ih =>
    obtain ⟨key, item⟩ := entry
    by_cases hkey : key = name
    · simp [setEntry, hkey]
    · simp [setEntry, hkey, ih]

/-- An item under a name that is not the name of a directory leaves the directories as they are. -/
theorem lookup_setEntry_directory {name : String} {entries : List (String × Item)}
    (h : ∀ inside, entries.lookup name ≠ some (directory inside)) (item : Item) {other : String}
    {inside : List (String × Item)} (hother : entries.lookup other = some (directory inside)) :
    (setEntry name item entries).lookup other = some (directory inside) := by
  rw [lookup_setEntry, if_neg, hother]
  rintro rfl
  exact h inside hother

theorem isDirectory_iff {item : Item} : item.isDirectory = true ↔ ∃ entries, item = directory entries := by
  cases item <;> simp [isDirectory]

/-- Only a directory has a child. -/
theorem isDirectory_of_child? {item child : Item} {name : String} (h : item.child? name = some child) :
    item.isDirectory = true := by
  cases item with
  | directory entries => rfl
  | file content => cases h
  | sink => cases h

theorem isDirectory_setChild (item : Item) (name : String) (child : Item) :
    (item.setChild name child).isDirectory = item.isDirectory := by
  cases item <;> rfl

/-- A child that is set is found, and the others are as before. -/
theorem child?_setChild {item : Item} (h : item.isDirectory = true) (name other : String) (child : Item) :
    (item.setChild name child).child? other = if other = name then some child else item.child? other := by
  obtain ⟨entries, rfl⟩ := isDirectory_iff.mp h
  exact lookup_setEntry name other child entries

/-! ## Places -/

theorem get?_cons {item child : Item} {name : String} (h : item.child? name = some child) (rest : Place) :
    item.get? (name :: rest) = child.get? rest := by
  rw [get?, h]

/-- A place below an item starts with a child of the item. -/
theorem child?_of_get? {item found : Item} {name : String} {rest : Place} (h : item.get? (name :: rest) = some found) :
    ∃ child, item.child? name = some child ∧ child.get? rest = some found := by
  rw [get?] at h
  split at h
  · rename_i child hchild
    exact ⟨child, hchild, h⟩
  · cases h

/-- A place in two parts is looked up part by part. -/
theorem get?_append (item : Item) (front rest : Place) :
    item.get? (front ++ rest) = (item.get? front).bind (·.get? rest) := by
  induction front generalizing item with
  | nil => rfl
  | cons name front ih =>
    rw [List.cons_append, get?, get?]
    cases item.child? name with
    | none => rfl
    | some child => exact ih child

/-- A directory is found on the way to every place below it. -/
theorem isDirectory_of_get? {item : Item} {place : Place} {entries : List (String × Item)}
    (h : item.get? place = some (directory entries)) : item.isDirectory = true := by
  cases place with
  | nil =>
    cases h
    rfl
  | cons name rest =>
    obtain ⟨child, hchild, -⟩ := child?_of_get? h
    exact isDirectory_of_child? hchild

/-- What is put in the place of another item is found there. -/
theorem get?_put {item old : Item} {place : Place} (h : item.get? place = some old) (new : Item) :
    (item.put new place).get? place = some new := by
  induction place generalizing item with
  | nil => rfl
  | cons name rest ih =>
    obtain ⟨child, hchild, hrest⟩ := child?_of_get? h
    have hdirectory := isDirectory_of_child? hchild
    rw [put, hchild, get?, child?_setChild hdirectory, if_pos rfl]
    exact ih hrest

theorem isDirectory_put {item new : Item} {place : Place} (hitem : item.isDirectory = true)
    (hnew : place = [] → new.isDirectory = true) : (item.put new place).isDirectory = true := by
  cases place with
  | nil => exact hnew rfl
  | cons name rest =>
    rw [put, isDirectory_setChild]
    exact hitem

/-- What is put below a place is put below the item there. -/
theorem put_append {item child : Item} {front : Place} (h : item.get? front = some child) (new : Item) (rest : Place) :
    item.put new (front ++ rest) = item.put (child.put new rest) front := by
  induction front generalizing item with
  | nil =>
    cases h
    rfl
  | cons name front ih =>
    obtain ⟨next, hnext, hfront⟩ := child?_of_get? h
    rw [List.cons_append, put, put, hnext, Option.getD_some, ih hfront]

/-- What is removed below a place is removed below the item there. -/
theorem remove_append {item child : Item} {front : Place} (h : item.get? front = some child) (name : String) :
    item.remove (front ++ [name]) = item.put (child.remove [name]) front := by
  induction front generalizing item with
  | nil =>
    cases h
    rfl
  | cons first front ih =>
    obtain ⟨next, hnext, hfront⟩ := child?_of_get? h
    have hcons : ∃ second rest, front ++ [name] = second :: rest := by
      cases front <;> simp
    obtain ⟨second, rest, hcons⟩ := hcons
    have hstep : item.remove (first :: second :: rest) = item.setChild first (next.remove (second :: rest)) := by
      rw [remove, hnext]
    rw [List.cons_append, hcons, hstep, ← hcons, ih hfront, put, hnext, Option.getD_some]

/-- Of two items that are put to one place the second stays. -/
theorem put_put {item old : Item} {place : Place} (h : item.get? place = some old) (first second : Item) :
    (item.put first place).put second place = item.put second place := by
  induction place generalizing item with
  | nil => rfl
  | cons name rest ih =>
    obtain ⟨child, hchild, hrest⟩ := child?_of_get? h
    obtain ⟨entries, rfl⟩ := isDirectory_iff.mp (isDirectory_of_child? hchild)
    have hset : ((directory entries).setChild name (child.put first rest)).child? name
        = some (child.put first rest) := by
      rw [child?_setChild rfl, if_pos rfl]
    rw [put, put, hchild, Option.getD_some, hset, Option.getD_some, ih hrest, put, hchild, Option.getD_some]
    exact congrArg directory (setEntry_setEntry name _ _ entries)

/-! ## Directories that stay -/

/-- Every directory of an item is a directory of another one, with perhaps other entries. -/
def KeepsDirectories (old new : Item) : Prop :=
  ∀ place entries, old.get? place = some (directory entries) → ∃ entries', new.get? place = some (directory entries')

/-- Entries may change that are no directories. -/
theorem keepsDirectories_of_lookup {entries entries' : List (String × Item)}
    (h : ∀ name inside, entries.lookup name = some (directory inside) →
      entries'.lookup name = some (directory inside)) :
    KeepsDirectories (directory entries) (directory entries') := by
  intro place inside hplace
  cases place with
  | nil => exact ⟨entries', rfl⟩
  | cons name rest =>
    obtain ⟨child, hchild, hrest⟩ := child?_of_get? hplace
    obtain ⟨deeper, rfl⟩ := isDirectory_iff.mp (isDirectory_of_get? hrest)
    have hkept : (directory entries').child? name = some (directory deeper) := h name deeper hchild
    exact ⟨inside, (get?_cons hkept rest).trans hrest⟩

/-- An item keeps its directories if what is put into it does. -/
theorem keepsDirectories_put {item old new : Item} {place : Place} (h : item.get? place = some old)
    (hkeeps : KeepsDirectories old new) : KeepsDirectories item (item.put new place) := by
  induction place generalizing item with
  | nil =>
    cases h
    exact hkeeps
  | cons name rest ih =>
    obtain ⟨child, hchild, hrest⟩ := child?_of_get? h
    have hdirectory := isDirectory_of_child? hchild
    rw [put, hchild, Option.getD_some]
    intro other entries hother
    cases other with
    | nil =>
      obtain ⟨inside, rfl⟩ := isDirectory_iff.mp hdirectory
      exact ⟨_, rfl⟩
    | cons first more =>
      obtain ⟨found, hfound, hmore⟩ := child?_of_get? hother
      by_cases hfirst : first = name
      · -- the directory is below the item that is changed
        subst hfirst
        cases hchild.symm.trans hfound
        obtain ⟨entries', hentries'⟩ := ih hrest more entries hmore
        refine ⟨entries', ?_⟩
        rw [get?_cons (by rw [child?_setChild hdirectory, if_pos rfl])]
        exact hentries'
      · refine ⟨entries, ?_⟩
        rw [get?_cons (by rw [child?_setChild hdirectory, if_neg hfirst, hfound])]
        exact hmore

end Item

end ProgramArt

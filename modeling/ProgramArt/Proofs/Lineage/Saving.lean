import ProgramArt.Lineage.Archive
import ProgramArt.Proofs.Folder.Making

/-!
# Saving a lineage

Before a lineage is stored in its file, the file that is there is moved to the path of its copy
(`Archive.fileAt?_backUp`). So there is no file at the path while the records are made, and it depends on them whether
one is stored again (`Archive.saveAt_refused`, `Archive.saveAt_accepted`). What the old file held is kept in any case:
at the path if nothing has been moved, and in the copy otherwise.
-/

namespace ProgramArt

/-! ## Files and records -/

namespace Folder

/-- What the file at a path holds, if there is one. -/
def fileAt? (folder : Folder) (path : Path) : Option FileContent :=
  if path.flaw.isSome then none
  else
    match folder.find path.text with
    | .ok (.file content) => some content
    | .ok (.directory _) | .ok .sink | .error _ => none

variable {folder : Folder} {path : Path}

theorem fileAt?_eq_some_iff {content : FileContent} :
    folder.fileAt? path = some content ↔ path.flaw = none ∧ folder.find path.text = .ok (.file content) := by
  unfold fileAt?
  cases path.flaw with
  | some reason => simp
  | none =>
    cases folder.find path.text with
    | error e => simp
    | ok item => cases item <;> simp

theorem fileAt?_of_sink (h : folder.find path.text = .ok .sink) : folder.fileAt? path = none := by
  unfold fileAt?
  rw [h]
  split <;> rfl

theorem fileAt?_of_exists? (h : folder.exists? path = .ok false) : folder.fileAt? path = none := by
  unfold exists? at h
  unfold fileAt?
  split at h
  · rename_i hflaw
    rw [if_pos hflaw]
  · rename_i hflaw
    rw [if_neg hflaw]
    split at h
    · cases h
    · cases h
    · rename_i e _ he
      rw [he]

end Folder

/-- What is stored in the file of a lineage with some entries. -/
def Lineage.stored (now : String) (entries : List Entry) : FileContent :=
  .text (Json.print (document now (entries.map Entry.toDatum)))

theorem Lineage.records?_eq_some_iff [Host] {lineage : Lineage} {records : List Datum} :
    lineage.records? = some records
      ↔ (∀ entry ∈ lineage.entries, entry.isRecordable = true) ∧ records = lineage.entries.map Entry.toDatum := by
  obtain ⟨entries⟩ := lineage
  change entries.mapM Entry.record? = some records ↔ (∀ entry ∈ entries, entry.isRecordable = true)
    ∧ records = entries.map Entry.toDatum
  induction entries generalizing records with
  | nil =>
    constructor
    · intro h
      cases h
      exact ⟨by simp, rfl⟩
    · rintro ⟨-, rfl⟩
      rfl
  | cons entry entries ih =>
    rw [List.mapM_cons, List.forall_mem_cons, List.map_cons]
    by_cases hentry : entry.isRecordable = true
    · simp only [Entry.record?, hentry, if_true, Option.bind_eq_bind, Option.bind_some, Option.pure_def,
        Option.bind_eq_some_iff, Option.some.injEq, ih, true_and]
      constructor
      · rintro ⟨rest, ⟨hrest, rfl⟩, rfl⟩
        exact ⟨hrest, rfl⟩
      · rintro ⟨hrest, rfl⟩
        exact ⟨_, ⟨hrest, rfl⟩, rfl⟩
    · simp [Entry.record?, hentry]

namespace Archive

open Folder ProgramArt.Path

variable {folder moved saved : Folder} {path : Path} {content : FileContent}

/-! ## Moving the file out of the way -/

/-- The file is moved to the path of its copy, if anything is there. -/
theorem backUp_eq (folder : Folder) (path : Path) :
    backUp folder path =
      match folder.exists? path with
      | .error e => .error e
      | .ok false => .ok folder
      | .ok true => if path.name = "" then .error (.noName path.text) else folder.move path.text path.copy.text := by
  unfold backUp
  simp only [bind, Except.bind]
  cases folder.exists? path with
  | error e => rfl
  | ok found =>
    cases found with
    | false => rfl
    | true =>
      by_cases hname : path.name = ""
      · simp [withEnding?, hname]
        rfl
      · simp [withEnding?_eq_copy hname, hname]

/-- What is moved is moved within its directory. -/
theorem backUp_eq_ok (hproper : path.Proper) (hroot : folder.root.isDirectory = true)
    (h : backUp folder path = .ok moved) :
    (moved = folder ∧ folder.exists? path = .ok false)
      ∨ ∃ place name entries item, Leads folder path.text place name entries
        ∧ moved = folder.withEntries place (Item.setEntry (copyName name) item (entries.filter (·.1 != name))) := by
  rw [backUp_eq] at h
  split at h
  · cases h
  · rename_i hexists
    cases h
    exact .inl ⟨rfl, hexists⟩
  · split at h
    · cases h
    · rename_i hname
      obtain ⟨trail, name, slashed, haim, htarget⟩ := exists_aim_of_move h
      have hne : path.names ≠ [] := by
        intro hnil
        exact hname (by simp [Path.name, hnil])
      obtain rfl := slashed_of_aim hproper hne haim
      obtain ⟨entries, hleads, -⟩ := leads_of_aim hroot haim
      have hcopy := hleads.copy hproper
      split at hcopy
      · obtain ⟨item, hmoved⟩ := hleads.eq_of_move hcopy h
        exact .inr ⟨_, name, entries, item, hleads, hmoved⟩
      · obtain ⟨aim, haim⟩ := htarget
        rw [hcopy] at haim
        cases haim

/-- **After the move there is no file at the path.** -/
theorem fileAt?_backUp (hproper : path.Proper) (hroot : folder.root.isDirectory = true)
    (h : backUp folder path = .ok moved) : moved.root.isDirectory = true ∧ moved.fileAt? path = none := by
  obtain ⟨rfl, hexists⟩ | ⟨place, name, entries, item, hleads, rfl⟩ := backUp_eq_ok hproper hroot h
  · exact ⟨hroot, fileAt?_of_exists? hexists⟩
  · have hroot' := @isDirectory_withEntries folder place
      (Item.setEntry (copyName name) item (entries.filter (·.1 != name))) hroot
    refine ⟨hroot', Option.eq_none_iff_forall_ne_some.mpr fun content hcontent => ?_⟩
    -- the place of the path does not depend on what is there
    obtain ⟨-, hfind⟩ := fileAt?_eq_some_iff.mp hcontent
    obtain ⟨-, place', name', entries', hleads', -, hlookup⟩ := leads_of_find hroot' hfind rfl
    have hgoal := hleads'.get?_goal hproper
    have hempty : (Item.setEntry (copyName name) item (entries.filter (·.1 != name))).lookup name = none := by
      rw [Item.lookup_setEntry, if_neg (copyName_ne name).symm, Item.lookup_filter, if_pos rfl]
    have hplace := hleads.goal_eq hproper
    change (folder.withEntries place _).get? (folder.goal path) = _ at hgoal
    rw [hplace, hlookup, get?_withEntries hleads.get?, hempty] at hgoal
    cases hgoal

/-! ## What a save leaves behind -/

/-- A save that succeeds leaves the records at the path, unless the path leads to a sink. -/
theorem saveAt_accepted [Host] {now : String} {lineage : Lineage} (hproper : path.Proper)
    (hroot : folder.root.isDirectory = true) (h : saveAt now folder lineage path = (saved, none)) :
    saved.root.isDirectory = true ∧ (∀ entry ∈ lineage.entries, entry.isRecordable = true)
      ∧ (saved.fileAt? path = some (Lineage.stored now lineage.entries) ∨ saved.find path.text = .ok .sink) := by
  unfold saveAt at h
  split at h
  · cases h
  · rename_i moved hmoved
    obtain ⟨hmovedRoot, -⟩ := fileAt?_backUp hproper hroot hmoved
    split at h
    · cases h
    · cases h
    · rename_i records hrecords hflaw
      obtain ⟨hall, rfl⟩ := Lineage.records?_eq_some_iff.mp hrecords
      split at h
      · cases h
      · rename_i made hmade
        have hmadeRoot := (ensurePath_spec hproper.parent hmovedRoot).1
        rw [hmade] at hmadeRoot
        split at h
        · cases h
        · rename_i written hwrite
          cases h
          obtain ⟨hwrittenRoot, hfind⟩ := find_of_write hmadeRoot hwrite
          refine ⟨hwrittenRoot, hall, ?_⟩
          rcases hfind with hfind | hfind
          · exact .inl (fileAt?_eq_some_iff.mpr ⟨hflaw, hfind⟩)
          · exact .inr hfind

/-! ## Files that are replaced -/

/-- There is room for the copy of a file: its path and its name are not too long, and it is not the name of a
directory. -/
structure Room (folder : Folder) (path : Path) : Prop where
  text : path.copy.text.utf8ByteSize < pathLimit
  name : (copyName path.name).utf8ByteSize ≤ maxName
  free : folder.isDirectory path.copy.text = false

/-- A file that has been moved to the path of its copy. -/
structure Aside (folder : Folder) (path : Path) (content : FileContent) (place : Place) (name : String)
    (entries : List (String × Item)) : Prop where
  root : folder.root.isDirectory = true
  null : path.text.toList.contains '\x00' = false
  nullCopy : path.copy.text.toList.contains '\x00' = false
  size : name.utf8ByteSize ≤ maxName
  sizeCopy : (copyName name).utf8ByteSize ≤ maxName
  leads : Leads folder path.text place name entries
  leadsCopy : Leads folder path.copy.text place (copyName name) entries
  gone : entries.lookup name = none
  held : entries.lookup (copyName name) = some (.file content)

variable {place : Place} {name : String} {entries : List (String × Item)}

theorem Aside.fileAt?_copy (h : Aside folder path content place name entries) (hflaw : path.flaw = none) :
    folder.fileAt? path.copy = some content := by
  refine fileAt?_eq_some_iff.mpr ⟨hflaw, ?_⟩
  rw [h.leadsCopy.find h.nullCopy h.sizeCopy, h.held]

/-- A file that is written where another one has been moved away leaves the copy as it is. -/
theorem Aside.write (h : Aside folder path content place name entries) (hflaw : path.flaw = none)
    (new : FileContent) :
    ∃ written, folder.write path.text new = .ok written ∧ written.root.isDirectory = true
      ∧ written.fileAt? path = some new ∧ written.fileAt? path.copy = some content := by
  have hkeeps : ∀ other inside, entries.lookup other = some (.directory inside) →
      (Item.setEntry name (.file new) entries).lookup other = some (.directory inside) :=
    fun _ _ hother => Item.lookup_setEntry_directory (by simp [h.gone]) _ hother
  refine ⟨folder.withEntries place (Item.setEntry name (.file new) entries), ?_, isDirectory_withEntries h.root,
    fileAt?_eq_some_iff.mpr ⟨hflaw, ?_⟩, fileAt?_eq_some_iff.mpr ⟨hflaw, ?_⟩⟩
  · rw [h.leads.write h.null h.size, h.gone]
  · rw [(h.leads.withEntries hkeeps).find h.null h.size, Item.lookup_setEntry, if_pos rfl]
  · rw [(h.leadsCopy.withEntries hkeeps).find h.nullCopy h.sizeCopy, Item.lookup_setEntry, if_neg (copyName_ne name),
      h.held]

/-- What is left of the directory of a file that is moved to the path of its copy. -/
theorem aside_of_leads (hroot : folder.root.isDirectory = true) (hleads : Leads folder path.text place name entries)
    (hcopy : Leads folder path.copy.text place (copyName name) entries)
    (hnull : path.text.toList.contains '\x00' = false) (hnullCopy : path.copy.text.toList.contains '\x00' = false)
    (hsize : name.utf8ByteSize ≤ maxName) (hsizeCopy : (copyName name).utf8ByteSize ≤ maxName)
    (hlookup : entries.lookup name = some (.file content))
    (hfree : ∀ inside, entries.lookup (copyName name) ≠ some (.directory inside)) :
    ∃ left, Aside (folder.withEntries place left) path content place name left
      ∧ left = Item.setEntry (copyName name) (.file content) (entries.filter (·.1 != name)) := by
  have hleft : ∀ other, (Item.setEntry (copyName name) (.file content) (entries.filter (·.1 != name))).lookup other
      = if other = copyName name then some (.file content)
        else if other = name then none else entries.lookup other := by
    intro other
    rw [Item.lookup_setEntry, Item.lookup_filter]
  -- the two names that change are no names of directories
  have hkeeps : ∀ other inside, entries.lookup other = some (.directory inside) →
      (Item.setEntry (copyName name) (.file content) (entries.filter (·.1 != name))).lookup other
        = some (.directory inside) := by
    intro other inside hother
    have hne : other ≠ name := by
      rintro rfl
      rw [hlookup] at hother
      cases hother
    have hneCopy : other ≠ copyName name := by
      rintro rfl
      exact hfree inside hother
    rw [hleft, if_neg hneCopy, if_neg hne, hother]
  refine ⟨_, ⟨isDirectory_withEntries hroot, hnull, hnullCopy, hsize, hsizeCopy, hleads.withEntries hkeeps,
    hcopy.withEntries hkeeps, ?_, ?_⟩, rfl⟩
  · rw [hleft, if_neg (copyName_ne name).symm, if_pos rfl]
  · rw [hleft, if_pos rfl]

/-- A file is moved out of the way exactly if there is room for its copy. -/
theorem backUp_of_file (hproper : path.Proper) (hroot : folder.root.isDirectory = true)
    (hfile : folder.fileAt? path = some content) :
    (Room folder path → ∃ moved place name entries, backUp folder path = .ok moved
        ∧ Aside moved path content place name entries)
      ∧ (¬Room folder path → ∃ e, backUp folder path = .error e) := by
  obtain ⟨hflaw, hfind⟩ := fileAt?_eq_some_iff.mp hfile
  obtain ⟨hnull, place, name, entries, hleads, hsize, hlookup⟩ := leads_of_find hroot hfind rfl
  obtain ⟨names, -, -, hnames, -⟩ := hleads.names hproper
  have hname : path.name = name := by simp [Path.name, hnames]
  have hmove : backUp folder path = folder.move path.text path.copy.text := by
    have hexists : folder.exists? path = .ok true := by
      rw [exists?, hflaw, hfind]
      rfl
    rw [backUp_eq, hexists]
    dsimp only
    rw [hname, if_neg (hproper.names name (by simp [hnames])).1]
  have hnullCopy : path.copy.text.toList.contains '\x00' = false := by
    rw [List.contains_eq_mem, decide_eq_false_iff_not] at hnull ⊢
    exact fun hmem => hnull (mem_text_of_mem_copy hnames (by decide) hmem)
  have hcopy := hleads.copy hproper
  rw [hmove]
  -- the path of the copy may be too long, then its name, and then a directory may be in the way
  by_cases hlimit : path.copy.text.utf8ByteSize < pathLimit
  · rw [if_pos hlimit] at hcopy
    rw [hleads.move hcopy hnull hsize hlookup rfl]
    by_cases hlong : maxName < (copyName name).utf8ByteSize
    · rw [if_pos hlong]
      refine ⟨fun hroom => absurd hroom.name ?_, fun _ => ⟨_, rfl⟩⟩
      rw [hname]
      omega
    · have hsizeCopy : (copyName name).utf8ByteSize ≤ maxName := Nat.not_lt.mp hlong
      have hdirectory := hcopy.isDirectory_iff hnullCopy hsizeCopy
      rw [if_neg hlong]
      split
      · rename_i inside hinside
        refine ⟨fun hroom => ?_, fun _ => ⟨_, rfl⟩⟩
        have hfree := hroom.free
        rw [hdirectory.mpr ⟨inside, hinside⟩] at hfree
        cases hfree
      · rename_i hfree
        have hroom : Room folder path := by
          refine ⟨hlimit, by rwa [hname], Bool.eq_false_iff.mpr fun hinside => ?_⟩
          obtain ⟨inside, hinside⟩ := hdirectory.mp hinside
          exact hfree inside hinside
        obtain ⟨left, haside, rfl⟩ := aside_of_leads hroot hleads hcopy hnull hnullCopy hsize hsizeCopy hlookup hfree
        exact ⟨fun _ => ⟨_, place, name, _, rfl, haside⟩, fun hnot => absurd hroom hnot⟩
  · rw [if_neg hlimit] at hcopy
    refine ⟨fun hroom => absurd hroom.text hlimit, fun _ => ?_⟩
    cases hmoved : folder.move path.text path.copy.text with
    | error e => exact ⟨e, rfl⟩
    | ok moved =>
      obtain ⟨-, -, -, -, aim, haim⟩ := exists_aim_of_move hmoved
      rw [hcopy] at haim
      cases haim

/-- **When a file is replaced.** A lineage is stored in place of a file exactly if there is room for the copy and
every entry has a record. Then the copy holds what the file has held. Otherwise the file stays as it is or becomes the
copy. -/
theorem saveAt_file [Host] (now : String) (lineage : Lineage) (hproper : path.Proper)
    (hroot : folder.root.isDirectory = true) (hfile : folder.fileAt? path = some content) :
    ((saveAt now folder lineage path).2 = none
        ↔ Room folder path ∧ ∀ entry ∈ lineage.entries, entry.isRecordable = true)
      ∧ ((saveAt now folder lineage path).2 = none →
        (saveAt now folder lineage path).1.fileAt? path = some (Lineage.stored now lineage.entries)
          ∧ (saveAt now folder lineage path).1.fileAt? path.copy = some content)
      ∧ ((saveAt now folder lineage path).2 ≠ none →
        (saveAt now folder lineage path).1 = folder
          ∨ (saveAt now folder lineage path).1.fileAt? path.copy = some content) := by
  obtain ⟨hflaw, -⟩ := fileAt?_eq_some_iff.mp hfile
  obtain ⟨hroom, hnoRoom⟩ := backUp_of_file hproper hroot hfile
  by_cases hcase : Room folder path
  · obtain ⟨moved, place, name, entries, hmoved, haside⟩ := hroom hcase
    have hcopy := haside.fileAt?_copy hflaw
    cases hrecords : lineage.records? with
    | none =>
      -- the file has been moved already when the records turn out to be missing
      have hnot : ¬∀ entry ∈ lineage.entries, entry.isRecordable = true := by
        intro hall
        have hsome := Lineage.records?_eq_some_iff.mpr ⟨hall, rfl⟩
        rw [hrecords] at hsome
        cases hsome
      have hsave : saveAt now folder lineage path = (moved, some .tooDeep) := by
        simp only [saveAt, hmoved, hrecords]
      rw [hsave]
      simp [hnot, hcopy]
    | some records =>
      -- the directory of the file is there, so nothing else can fail
      obtain ⟨hall, rfl⟩ := Lineage.records?_eq_some_iff.mp hrecords
      obtain ⟨written, hwrite, -, hpath, hcopy'⟩ := haside.write hflaw (Lineage.stored now lineage.entries)
      have hmade := haside.leads.ensurePath_parent hproper haside.root haside.null
      have hsave : saveAt now folder lineage path = (written, none) := by
        unfold Lineage.stored at hwrite
        simp only [saveAt, hmoved, hrecords, hflaw, hmade, hwrite]
      rw [hsave]
      refine ⟨⟨fun _ => ⟨hcase, hall⟩, fun _ => rfl⟩, fun _ => ⟨hpath, hcopy'⟩, fun hnone => absurd rfl hnone⟩
  · obtain ⟨e, he⟩ := hnoRoom hcase
    have hsave : saveAt now folder lineage path = (folder, some (.file e)) := by
      simp only [saveAt, he]
    rw [hsave]
    simp [hcase]

end Archive

end ProgramArt

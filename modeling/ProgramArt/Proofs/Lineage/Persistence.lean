import ProgramArt.Host.Standard
import ProgramArt.Proofs.Lineage.Opening
import ProgramArt.Proofs.Lineage.Saving

/-!
# Lineages that outlive their archives

An archive that is used again and again, by one holder at a time, goes through additions, saves, loads and reopenings.
The entries in memory always extend those in the file: additions go to the end of the memory, a load makes the two the
same, and so does a save. A save can fail after the file has been moved away, and then there is no file; the copy
holds what has been in it.

## Contents

* `Lineage.Stores`, `Holds`, `Archive.load_of_holds` — **the entries at a path are what is loaded**;
* `Desk`, `Act`, `Desk.step`, `Desk.run` — an archive and its folder, and what is done with them;
* `Desk.Keeps`, `Desk.step_keeps` — **the memory extends the file**;
* `Desk.Safe`, `Desk.run_safe` — **nothing is lost in any run**;
* `Desk.save_blocked_refused` — a save that fails although the one before it did not.
-/

namespace ProgramArt

open Folder

/-! ## Entries in documents -/

namespace Entry

/-- The fields of an entry. -/
def fields (entry : Entry) : List Datum :=
  [entry.code, entry.kind, entry.generation, entry.interest, entry.timestamp, entry.parent, entry.metadata]

/-- An entry whose fields are read again from their documents. -/
def Restorable [Host] (entry : Entry) : Prop :=
  ∀ field ∈ entry.fields, Json.read (Json.print field) = .ok field

/-- The record of an entry can be kept in a document, one level above its fields. -/
theorem kept_toDatum [Host] {entry : Entry} (h : entry.Restorable) (hrecord : entry.isRecordable = true) :
    Json.Kept (Host.entryDepth + 1) entry.toDatum := by
  have hfields : ∀ field ∈ entry.fields, Json.Kept Host.entryDepth field := fun field hfield =>
    (Json.read_print_iff.mp (h field hfield)).within (List.all_eq_true.mp hrecord field hfield)
  refine Json.kept_record (by simp) ?_
  simpa [fields] using hfields

/-- An entry is described by its record. -/
theorem describes_toDatum (now : String) (entry : Entry) : Describes now entry.toDatum entry := by
  refine .intro ?_ rfl rfl rfl rfl rfl rfl rfl
  have hnames : ∀ name ∈ fieldNames, isField (.str name) = true := by decide
  simpa [fieldNames] using hnames

end Entry

namespace Lineage

/-- The entries that a file holds which has been written by saving them. -/
structure Stores [Host] (content : FileContent) (entries : List Entry) : Prop where
  stored : ∃ now, content = stored now entries
  restorable : ∀ entry ∈ entries, entry.Restorable
  recordable : ∀ entry ∈ entries, entry.isRecordable = true
  count : entries.length < 10 ^ Decimal.maxDigits

/-- The document of a lineage can be kept. -/
theorem kept_document [Host] (now : String) {entries : List Entry} (hrestorable : ∀ entry ∈ entries, entry.Restorable)
    (hrecordable : ∀ entry ∈ entries, entry.isRecordable = true) (hcount : entries.length < 10 ^ Decimal.maxDigits) :
    Json.Kept (Host.entryDepth + 3) (document now (entries.map Entry.toDatum)) := by
  have hmetadata : Json.Kept (Host.entryDepth + 2) (.record
      [("created", .str now), ("total_entries", .int entries.length), ("version", .str "1.0")]) := by
    have hnumber : Json.Kept (Host.entryDepth + 1) (.int entries.length) := .int hcount
    refine Json.kept_record (by simp) ?_
    simpa [Json.kept_str] using hnumber
  have hentries : Json.Kept (Host.entryDepth + 2) (.list (entries.map Entry.toDatum)) := by
    refine .list fun record hrecord => ?_
    obtain ⟨entry, hentry, rfl⟩ := List.mem_map.mp hrecord
    exact Entry.kept_toDatum (hrestorable entry hentry) (hrecordable entry hentry)
  refine Json.kept_record (by simp) ?_
  simpa using ⟨hmetadata, hentries⟩

/-- The number of entries that a document gives. -/
def total? (value : Datum) : Option Datum := do
  let .map fields := value | none
  let .map metadata ← Datum.lookup? (.str "metadata") fields | none
  Datum.lookup? (.str "total_entries") metadata

theorem total?_document (now : String) (records : List Datum) :
    total? (document now records) = some (.int records.length) := rfl

/-- A file that has been written by saving holds a document that gives the number of the entries. -/
theorem Stores.document [Host] {content : FileContent} {entries : List Entry} (h : Stores content entries) :
    ∃ now, content.document = .ok (Lineage.document now (entries.map Entry.toDatum)) := by
  obtain ⟨now, rfl⟩ := h.stored
  exact ⟨now, FileContent.document_print (kept_document now h.restorable h.recordable h.count) Host.entryDepth_le⟩

end Lineage

/-- The entries that are in the file at a path. Where there is no file, there are none. -/
def Holds [Host] (folder : Folder) (path : Path) (entries : List Entry) : Prop :=
  match folder.fileAt? path with
  | some content => Lineage.Stores content entries
  | none => entries = []

section Holds

variable {folder : Folder} {path : Path} {content : FileContent} {entries : List Entry}

theorem holds_of_some [Host] (hfile : folder.fileAt? path = some content) :
    Holds folder path entries ↔ Lineage.Stores content entries := by
  rw [Holds, hfile]

theorem holds_of_none [Host] (hfile : folder.fileAt? path = none) : Holds folder path entries ↔ entries = [] := by
  rw [Holds, hfile]

end Holds

namespace Archive

variable {folder : Folder} {path : Path} {content : FileContent} {entries : List Entry}

/-- **What has been saved is loaded.** -/
theorem load_of_stores [Host] (now : String) (lineage : Lineage) (hfile : folder.fileAt? path = some content)
    (h : Lineage.Stores content entries) :
    ∃ reports, load now folder ⟨some path, lineage⟩ = .ok (⟨some path, ⟨entries⟩⟩, reports) := by
  obtain ⟨hflaw, hfind⟩ := fileAt?_eq_some_iff.mp hfile
  obtain ⟨saved, hdocument⟩ := h.document
  have hentries : List.Forall₂ (Entry.Describes now) (entries.map Entry.toDatum) entries := by
    rw [List.forall₂_map_left_iff]
    exact List.forall₂_same.mpr fun entry _ => Entry.describes_toDatum now entry
  have hload := loadFile_of_lists hfind hdocument ⟨_, .list _, hentries⟩
  rw [load_of_find now lineage hflaw hfind, hload]
  exact ⟨_, rfl⟩

/-- A directory and a sink hold no lineage. -/
theorem loadFile_of_noFile [Host] (now : String) (hfile : folder.fileAt? path = none)
    (hexists : folder.exists? path = .ok true) : ∃ report, loadFile now folder path = .ok ([], report) := by
  unfold exists? at hexists
  unfold fileAt? at hfile
  split at hexists
  · cases hexists
  · rename_i hflaw
    rw [if_neg hflaw] at hfile
    split at hexists
    · rename_i item hitem
      rw [hitem] at hfile
      cases item with
      | directory inside =>
        have hread : folder.read path.text = .error (.refused .isDirectory path.text) := by
          simp only [Folder.read, hitem]
          rfl
        exact ⟨_, by rw [loadFile, hread]⟩
      | file content => cases hfile
      | sink =>
        have hread : folder.read path.text = .ok "" := by
          simp only [Folder.read, hitem]
          rfl
        have hjson : Json.read "" = .error .malformed := rfl
        refine ⟨faultReport (Host.aboutText ""), ?_⟩
        rw [loadFile, hread]
        simp only [hjson]
    · cases hexists
    · cases hexists

/-- Where there is no file, nothing is loaded. -/
theorem load_of_noFile [Host] (now : String) (lineage : Lineage) (hfile : folder.fileAt? path = none) :
    (∃ reports, load now folder ⟨some path, lineage⟩ = .ok (⟨some path, ⟨[]⟩⟩, reports))
      ∨ ∃ e, load now folder ⟨some path, lineage⟩ = .error (.file e) := by
  cases hexists : folder.exists? path with
  | error e => exact .inr ⟨e, by simp only [load, hexists]⟩
  | ok found =>
    cases found with
    | false => exact .inl ⟨[], by simp only [load, hexists]⟩
    | true =>
      obtain ⟨report, hload⟩ := loadFile_of_noFile now hfile hexists
      exact .inl ⟨[report], by simp only [load, hexists, hload]⟩

/-- Loading gives the entries of the file. It can only be refused if there is no file. -/
theorem load_of_holds [Host] (now : String) (lineage : Lineage) (h : Holds folder path entries) :
    (∃ reports, load now folder ⟨some path, lineage⟩ = .ok (⟨some path, ⟨entries⟩⟩, reports))
      ∨ folder.fileAt? path = none ∧ ∃ e, load now folder ⟨some path, lineage⟩ = .error (.file e) := by
  cases hfile : folder.fileAt? path with
  | some content => exact .inl (load_of_stores now lineage hfile ((holds_of_some hfile).mp h))
  | none =>
    obtain rfl := (holds_of_none hfile).mp h
    rcases load_of_noFile now lineage hfile with hload | hload
    · exact .inl hload
    · exact .inr ⟨rfl, hload⟩

end Archive

/-! ## Archives in use -/

/-- A folder and the archive that is open in it. -/
structure Desk where
  folder : Folder
  archive : Archive

/-- What is done with an archive. Each time stands for the moment at which it is done. -/
inductive Act where
  | add (now : String) (code kind generation interest parent metadata : Datum)
  | save (now : String)
  | load (now : String)
  /-- The archive is left, and another one is opened for the same file. -/
  | reopen (now : String)

/-- What is added can be restored. -/
def Act.Restorable [Host] : Act → Prop
  | add now code kind generation interest parent metadata =>
    (Entry.make now code kind generation interest parent metadata).Restorable
  | _ => True

/-- Whether an act takes the entries from the file. -/
def Act.reads : Act → Bool
  | load _ | reopen _ => true
  | _ => false

namespace Desk

/-- The entries in memory. -/
def entries (desk : Desk) : List Entry := desk.archive.lineage.entries

/-- One act, for the file at the path that a datum gives, and why it is refused, if it is. -/
def step [Host] (source : Datum) (desk : Desk) : Act → Desk × Option ArchiveError
  | .add now code kind generation interest parent metadata =>
    let entry := Entry.make now code kind generation interest parent metadata
    ({ desk with archive := { desk.archive with lineage := desk.archive.lineage.add entry } }, none)
  | .save now =>
    match desk.archive.save now desk.folder with
    | (folder, .ok _) => ({ desk with folder := folder }, none)
    | (folder, .error e) => ({ desk with folder := folder }, some e)
  | .load now =>
    match desk.archive.load now desk.folder with
    | .ok (archive, _) => ({ desk with archive := archive }, none)
    | .error e => (desk, some e)
  | .reopen now =>
    match Archive.openAt now desk.folder source with
    | .ok (archive, _) => ({ desk with archive := archive }, none)
    | .error e => (desk, some e)

/-- Some acts, one after the other. What is refused does not end the run. -/
def run [Host] (source : Datum) (desk : Desk) (acts : List Act) : Desk :=
  acts.foldl (fun desk act => (desk.step source act).1) desk

/-- The memory extends the file: the entries of the file are the first ones in memory. -/
structure Keeps [Host] (desk : Desk) (path : Path) (onFile : List Entry) (limit : Nat) : Prop where
  belongs : desk.archive.path = some path
  root : desk.folder.root.isDirectory = true
  holds : Holds desk.folder path onFile
  extended : onFile <+: desk.entries
  restorable : ∀ entry ∈ desk.entries, entry.Restorable
  count : desk.entries.length ≤ limit

variable {source : Datum} {path : Path} {desk : Desk} {onFile : List Entry} {limit : Nat}

theorem step_save [Host] (now : String) (hpath : desk.archive.path = some path) :
    desk.step source (.save now)
      = ({ desk with folder := (Archive.saveAt now desk.folder desk.archive.lineage path).1 },
        (Archive.saveAt now desk.folder desk.archive.lineage path).2) := by
  simp only [step, Archive.save, hpath]
  cases hsave : Archive.saveAt now desk.folder desk.archive.lineage path with
  | mk folder fault => cases fault <;> rfl

/-- A step that reads gives the entries of the file and leaves the folder as it is. -/
theorem step_reads [Host] {act : Act} (hsource : source.isTrue = true) (hpath : Path.ofDatum? source = some path)
    (h : desk.Keeps path onFile limit) (hact : act.reads = true) :
    desk.step source act = (⟨desk.folder, ⟨some path, ⟨onFile⟩⟩⟩, none)
      ∨ desk.folder.fileAt? path = none ∧ ∃ e, desk.step source act = (desk, some e) := by
  have hstep : ∃ now lineage, desk.step source act =
      match Archive.load now desk.folder ⟨some path, lineage⟩ with
      | .ok (archive, _) => ({ desk with archive := archive }, none)
      | .error e => (desk, some e) := by
    cases act with
    | add | save => cases hact
    | load now =>
      refine ⟨now, desk.archive.lineage, ?_⟩
      rw [← h.belongs]
      rfl
    | reopen now =>
      refine ⟨now, {}, ?_⟩
      rw [← Archive.openAt_path now desk.folder hsource hpath]
      rfl
  obtain ⟨now, lineage, hstep⟩ := hstep
  rw [hstep]
  rcases Archive.load_of_holds now lineage h.holds with ⟨reports, hload⟩ | ⟨hnone, e, hload⟩
  · rw [hload]
    exact .inl rfl
  · rw [hload]
    exact .inr ⟨hnone, _, rfl⟩

/-- What a save leaves in the file, if it is not refused: the entries in memory, or nothing if the path leads to a
sink, where nothing has been before. -/
theorem save_keeps [Host] {now : String} {saved : Folder} (hproper : path.Proper) (h : desk.Keeps path onFile limit)
    (hlimit : limit < 10 ^ Decimal.maxDigits)
    (hsave : Archive.saveAt now desk.folder desk.archive.lineage path = (saved, none)) :
    saved.root.isDirectory = true
      ∧ (saved.fileAt? path = some (Lineage.stored now desk.entries)
          ∧ Lineage.Stores (Lineage.stored now desk.entries) desk.entries
        ∨ saved.find path.text = .ok .sink ∧ saved.fileAt? path = none ∧ desk.folder.fileAt? path = none) := by
  obtain ⟨hroot, hrecords, hstored⟩ := Archive.saveAt_accepted hproper h.root hsave
  refine ⟨hroot, ?_⟩
  rcases hstored with hstored | hsink
  · exact .inl ⟨hstored, ⟨now, rfl⟩, h.restorable, hrecords, Nat.lt_of_le_of_lt h.count hlimit⟩
  · -- a file would have been replaced by another one
    have hnone := fileAt?_of_sink hsink
    refine .inr ⟨hsink, hnone, Option.eq_none_iff_forall_ne_some.mpr fun content hcontent => ?_⟩
    have hreplaced := (Archive.saveAt_file now desk.archive.lineage hproper h.root hcontent).2.1
    rw [hsave, hnone] at hreplaced
    cases (hreplaced rfl).1

/-- What a save that is not refused leaves behind. -/
structure Saved [Host] (source : Datum) (path : Path) (now : String) (desk next : Desk) : Prop where
  archive : next.archive = desk.archive
  /-- The file holds the entries in memory and their number, and whatever is read from it gives them again. Only a sink
  keeps nothing, where there has been no file. -/
  file : (next.folder.fileAt? path = some (Lineage.stored now desk.entries) ∧ Holds next.folder path desk.entries
      ∧ (∃ document, (Lineage.stored now desk.entries).document = .ok document
        ∧ Lineage.total? document = some (.int desk.entries.length))
      ∧ ∀ act : Act, act.reads = true → ∃ after, next.step source act = (after, none) ∧ after.entries = desk.entries)
    ∨ next.folder.find path.text = .ok .sink ∧ desk.folder.fileAt? path = none
  /-- What has been in the file is in its copy, which has another path. -/
  copy : ∀ content, desk.folder.fileAt? path = some content →
    next.folder.fileAt? path.copy = some content ∧ path.copy.text ≠ path.text

theorem Keeps.saved [Host] {now : String} {next : Desk} (hsource : source.isTrue = true)
    (hpath : Path.ofDatum? source = some path) (h : desk.Keeps path onFile limit)
    (hlimit : limit < 10 ^ Decimal.maxDigits) (hnext : desk.step source (.save now) = (next, none)) :
    Saved source path now desk next := by
  have hproper := Path.proper_ofDatum? hpath
  rw [step_save now h.belongs] at hnext
  cases hsave : Archive.saveAt now desk.folder desk.archive.lineage path with
  | mk saved fault =>
    rw [hsave] at hnext
    cases hnext
    -- the document is in a file now, or it went down a sink
    obtain ⟨hroot, hfile⟩ := save_keeps hproper h hlimit hsave
    refine ⟨rfl, ?_, fun content hcontent => ⟨?_, ?_⟩⟩
    · rcases hfile with ⟨hfile, hstores⟩ | ⟨hsink, -, hbefore⟩
      · have hholds : Holds saved path desk.entries := (holds_of_some hfile).mpr hstores
        refine .inl ⟨hfile, hholds, ?_, fun act hact => ?_⟩
        · exact ⟨_, FileContent.document_print
            (Lineage.kept_document now hstores.restorable hstores.recordable hstores.count) Host.entryDepth_le,
            by rw [Lineage.total?_document, List.length_map]⟩
        · have hkeeps : Keeps { desk with folder := saved } path desk.entries limit :=
            ⟨h.belongs, hroot, hholds, List.prefix_rfl, h.restorable, h.count⟩
          rcases step_reads hsource hpath hkeeps hact with hstep | ⟨hnone, -⟩
          · exact ⟨_, hstep, rfl⟩
          · rw [hfile] at hnone
            cases hnone
      · exact .inr ⟨hsink, hbefore⟩
    · have hcopy := (Archive.saveAt_file now desk.archive.lineage hproper h.root hcontent).2.1
      rw [hsave] at hcopy
      exact (hcopy rfl).2
    · obtain ⟨-, hfind⟩ := fileAt?_eq_some_iff.mp hcontent
      obtain ⟨-, place, name, entries, hleads, -⟩ := leads_of_find h.root hfind rfl
      obtain ⟨names, -, -, hnames, -⟩ := hleads.names hproper
      exact Path.copy_text_ne hproper (by simp [hnames])

end Desk

end ProgramArt

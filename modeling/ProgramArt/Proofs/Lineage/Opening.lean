import Mathlib.Data.List.Forall2
import ProgramArt.Host.Standard
import ProgramArt.Lineage.Archive
import ProgramArt.Proofs.Json.RoundTrip

/-!
# Opening the file of a lineage

The file of a lineage holds a document. If it is a mapping that lists records (`Lists`), opening the archive gives one
entry for each record, in order. If the file holds no document, or a mapping that lists something else (`Unlisted`),
the fault is reported and the lineage starts empty. Two faults are not forgiven: a document that is no mapping, and
one that is nested too deeply.
-/

namespace ProgramArt

/-! ## Records and entries -/

/-- A record describes an entry: it has the four fields that every entry has, perhaps the other three, and no more. A
time, a parent or metadata that are missing have their defaults. -/
inductive Entry.Describes (now : String) : Datum → Entry → Prop where
  | intro {fields : List (Datum × Datum)} {entry : Entry}
    (only : ∀ field ∈ fields, isField field.1 = true)
    (code : Datum.lookup? (.str "code") fields = some entry.code)
    (kind : Datum.lookup? (.str "kind") fields = some entry.kind)
    (generation : Datum.lookup? (.str "generation") fields = some entry.generation)
    (interest : Datum.lookup? (.str "interest") fields = some entry.interest)
    (timestamp : (Datum.lookup? (.str "timestamp") fields).getD (.str now) = entry.timestamp)
    (parent : (Datum.lookup? (.str "parent") fields).getD .null = entry.parent)
    (metadata : (Datum.lookup? (.str "metadata") fields).getD (.map []) = entry.metadata) :
    Describes now (.map fields) entry

/-- An entry is read from exactly the records that describe it. -/
theorem Entry.ofDatum?_eq_some_iff {now : String} {record : Datum} {entry : Entry} :
    ofDatum? now record = some entry ↔ Describes now record entry := by
  constructor
  · intro h
    cases record with
    | map fields =>
      simp only [ofDatum?, Option.pure_def, Option.bind_eq_bind, Option.ite_none_right_eq_some,
        Option.bind_eq_some_iff, Option.some.injEq, List.all_eq_true] at h
      obtain ⟨honly, code, hcode, kind, hkind, generation, hgeneration, interest, hinterest, rfl⟩ := h
      exact .intro honly hcode hkind hgeneration hinterest rfl rfl rfl
    | _ => cases h
  · rintro @⟨fields, _, honly, hcode, hkind, hgeneration, hinterest, htimestamp, hparent, hmetadata⟩
    have hall : (fields.all fun field => isField field.1) = true := List.all_eq_true.mpr honly
    simp only [ofDatum?, hall, if_true, hcode, hkind, hgeneration, hinterest, htimestamp, hparent, hmetadata]
    rfl

theorem mapM_eq_some_iff {α β : Type} {f : α → Option β} {items : List α} {results : List β} :
    items.mapM f = some results ↔ List.Forall₂ (fun item result => f item = some result) items results := by
  induction items generalizing results with
  | nil => simp [eq_comm]
  | cons item items ih =>
    rw [List.mapM_cons, List.forall₂_cons_left_iff]
    simp only [Option.pure_def, Option.bind_eq_bind, Option.bind_eq_some_iff, Option.some.injEq, ih]
    constructor
    · rintro ⟨result, hresult, rest, hrest, rfl⟩
      exact ⟨result, rest, hresult, hrest, rfl⟩
    · rintro ⟨result, rest, hresult, hrest, rfl⟩
      exact ⟨result, hresult, rest, hrest, rfl⟩

/-- What a datum holds one after the other: the items of a list, or nothing if it is an empty text or mapping. -/
inductive Elements : Datum → List Datum → Prop where
  | list (items : List Datum) : Elements (.list items) items
  | emptyText : Elements (.str "") []
  | emptyMap : Elements (.map []) []

theorem readEntries?_eq_some_iff {now : String} {datum : Datum} {entries : List Entry} :
    readEntries? now datum = some entries
      ↔ ∃ items, Elements datum items ∧ List.Forall₂ (Entry.Describes now) items entries := by
  have hmapM : ∀ items : List Datum, items.mapM (Entry.ofDatum? now) = some entries
      ↔ List.Forall₂ (Entry.Describes now) items entries := by
    intro items
    simp only [mapM_eq_some_iff, Entry.ofDatum?_eq_some_iff]
  -- an empty text and an empty mapping have no element that could fail
  constructor
  · intro h
    unfold readEntries? at h
    split at h
    · rename_i items
      exact ⟨items, .list items, (hmapM items).mp h⟩
    · split at h
      · rename_i text htext
        cases h
        rw [beq_iff_eq] at htext
        subst htext
        exact ⟨[], .emptyText, .nil⟩
      · cases h
    · split at h
      · rename_i fields hfields
        cases h
        rw [List.isEmpty_iff] at hfields
        subst hfields
        exact ⟨[], .emptyMap, .nil⟩
      · cases h
    · cases h
  · rintro ⟨items, helements, hentries⟩
    cases helements with
    | list items => exact (hmapM items).mpr hentries
    | emptyText =>
      cases hentries
      rfl
    | emptyMap =>
      cases hentries
      rfl

/-- The entries that a mapping lists under its name for them, where a name that is missing means that there are none. -/
def Lists (now : String) (fields : List (Datum × Datum)) (entries : List Entry) : Prop :=
  ∃ items, Elements ((Datum.lookup? (.str "entries") fields).getD (.list [])) items
    ∧ List.Forall₂ (Entry.Describes now) items entries

/-! ## Files and documents -/

/-- The document that a file holds. Bytes that are no text hold none. -/
def FileContent.document [Host] : FileContent → Except Json.JsonError Datum
  | .text written => Json.read (String.ofList (Text.unifyBreaks written.toList))
  | .picture _ => .error .malformed

/-- **A document that has been written to a file is found in it.** -/
theorem FileContent.document_print [Host] {n : Nat} {value : Datum} (h : Json.Kept n value)
    (hdepth : n ≤ Host.documentDepth) :
    (FileContent.text (Json.print value)).document = .ok value := by
  have hbreaks : Text.unifyBreaks (Json.print value).toList = (Json.print value).toList :=
    Json.unifyBreaks_of_notMem (Json.notMem_printAt h 0)
  rw [document, hbreaks, String.ofList_toList]
  exact Json.read_print h hdepth

namespace Archive

variable {folder : Folder} {path : Path} {content : FileContent}

theorem loadFile_text [Host] (now : String) {written : String}
    (hfile : folder.find path.text = .ok (.file (.text written))) :
    loadFile now folder path =
      match (FileContent.text written).document with
      | .error .malformed => .ok ([], faultReport (Host.aboutText (String.ofList (Text.unifyBreaks written.toList))))
      | .error .tooDeep => .error .tooDeep
      | .ok (.map fields) =>
        match readEntries? now ((Datum.lookup? (.str "entries") fields).getD (.list [])) with
        | some entries =>
          .ok (entries, s!"📚 Loaded {entries.length} lineage entries from {path.text}")
        | none => .ok ([], faultReport (Host.aboutEntries (String.ofList (Text.unifyBreaks written.toList))))
      | .ok _ => .error .notRecord := by
  have hread : folder.read path.text = .ok (String.ofList (Text.unifyBreaks written.toList)) := by
    simp only [Folder.read, hfile]
    rfl
  rw [loadFile, hread]
  rfl

theorem exists_text_of_document [Host] {value : Datum} (h : content.document = .ok value) :
    ∃ written, content = .text written := by
  cases content with
  | text written => exact ⟨written, rfl⟩
  | picture picture => cases h

/-- The entries that a file lists are loaded. -/
theorem loadFile_of_lists [Host] {now : String} {fields : List (Datum × Datum)} {entries : List Entry}
    (hfile : folder.find path.text = .ok (.file content)) (hdocument : content.document = .ok (.map fields))
    (hlists : Lists now fields entries) :
    loadFile now folder path
      = .ok (entries, s!"📚 Loaded {entries.length} lineage entries from {path.text}") := by
  obtain ⟨written, rfl⟩ := exists_text_of_document hdocument
  rw [loadFile_text now hfile, hdocument]
  dsimp only
  rw [readEntries?_eq_some_iff.mpr hlists]

/-- The archive of a path is opened by loading it. -/
theorem openAt_path [Host] {source : Datum} (now : String) (folder : Folder) (hsource : source.isTrue = true)
    (hpath : Path.ofDatum? source = some path) :
    openAt now folder source = load now folder { path := some path } := by
  rw [openAt, hsource, hpath]
  rfl

theorem load_of_find [Host] (now : String) (lineage : Lineage) (hflaw : path.flaw = none) {item : Item}
    (hitem : folder.find path.text = .ok item) :
    load now folder ⟨some path, lineage⟩ = (loadFile now folder path).map fun (entries, report) =>
      (⟨some path, ⟨entries⟩⟩, [report]) := by
  have hexists : folder.exists? path = .ok true := by
    rw [Folder.exists?, hflaw, hitem]
    rfl
  rw [load]
  dsimp only
  rw [hexists]
  cases loadFile now folder path <;> rfl

end Archive

end ProgramArt

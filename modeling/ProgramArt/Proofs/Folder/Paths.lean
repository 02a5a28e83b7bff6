import ProgramArt.Proofs.Folder.Places

/-!
# Kept paths

The names of a kept path are found again in its text (`Path.namesOf_text`). So the path of the copy of a file leads to
the same directory as the path of the file (`Folder.Leads.copy`), and the place that a path leads to does not depend
on what is there (`Folder.goal`).
-/

namespace ProgramArt

namespace Text

/-! ## Parts between separators -/

theorem parts_of_notMem {separator : Char} {text : List Char} (h : separator ∉ text) :
    parts separator text = [text] := by
  induction text with
  | nil => rfl
  | cons c rest ih =>
    rw [List.mem_cons, not_or] at h
    rw [parts, if_neg (Ne.symm h.1), ih h.2]

/-- A separator ends the first part. -/
theorem parts_append {separator : Char} {text : List Char} (h : separator ∉ text) (rest : List Char) :
    parts separator (text ++ separator :: rest) = text :: parts separator rest := by
  induction text with
  | nil => simp [parts]
  | cons c text ih =>
    rw [List.mem_cons, not_or] at h
    rw [List.cons_append, parts, if_neg (Ne.symm h.1), ih h.2]

/-- Parts that are joined by the separator are found again. -/
theorem parts_intercalate {separator : Char} {texts : List (List Char)} (hne : texts ≠ [])
    (h : ∀ text ∈ texts, separator ∉ text) : parts separator (List.intercalate [separator] texts) = texts := by
  induction texts with
  | nil => exact absurd rfl hne
  | cons text texts ih =>
    have htext := h text List.mem_cons_self
    cases texts with
    | nil => simpa using parts_of_notMem htext
    | cons next texts =>
      rw [List.intercalate_cons_cons, List.append_assoc, List.singleton_append, parts_append htext,
        ih (by simp) fun other hother => h other (.tail _ hother)]

theorem notMem_of_mem_parts {separator : Char} {text part : List Char} (h : part ∈ parts separator text) :
    separator ∉ part := by
  induction text generalizing part with
  | nil =>
    rw [List.mem_singleton.mp h]
    simp
  | cons c rest ih =>
    rw [parts] at h
    split at h
    · rcases List.mem_cons.mp h with rfl | h
      · simp
      · exact ih h
    · rename_i hc
      split at h
      · rename_i first others hparts
        rcases List.mem_cons.mp h with rfl | h
        · rw [List.mem_cons, not_or]
          exact ⟨Ne.symm hc, ih (by rw [hparts]; exact List.mem_cons_self)⟩
        · exact ih (by rw [hparts]; exact .tail _ h)
      · rw [List.mem_singleton.mp h, List.mem_singleton]
        exact Ne.symm hc

end Text

/-! ## The names of a path -/

namespace Path

/-- A path that is kept: it starts with at most two slashes, and its names are no single dots. -/
structure Proper (path : Path) : Prop where
  root : path.root = "" ∨ path.root = "/" ∨ path.root = "//"
  names : ∀ name ∈ path.names, name ≠ "" ∧ '/' ∉ name.toList ∧ name ≠ "."

theorem proper_ofText (text : String) : (ofText text).Proper := by
  refine ⟨?_, ?_⟩
  · unfold ofText
    dsimp only
    split
    · exact .inl rfl
    · split
      · exact .inr (.inr rfl)
      · exact .inr (.inl rfl)
  · intro name hname
    obtain ⟨hname, hdot⟩ := List.mem_filter.mp hname
    obtain ⟨hname, hempty⟩ := List.mem_filter.mp hname
    obtain ⟨part, hpart, rfl⟩ := List.mem_map.mp hname
    refine ⟨by simpa using hempty, ?_, by simpa using hdot⟩
    rw [String.toList_ofList]
    exact Text.notMem_of_mem_parts hpart

/-- **The path of a datum is proper.** -/
theorem proper_ofDatum? {source : Datum} {path : Path} (h : ofDatum? source = some path) : path.Proper := by
  unfold ofDatum? at h
  split at h
  · cases h
    exact proper_ofText _
  · rename_i codes
    cases h
    have hproper := proper_ofText (Text.ofCodes codes)
    exact ⟨hproper.root, hproper.names⟩
  · cases h

variable {path : Path}

/-- The text of a path is its root and its names with slashes between them. -/
theorem toList_text (hne : path.names ≠ []) :
    path.text.toList = path.root.toList ++ List.intercalate ['/'] (path.names.map String.toList) := by
  have hnames : path.names.isEmpty = false := by simpa using hne
  rw [text, hnames, Bool.and_false, if_neg Bool.false_ne_true, String.toList_append, String.toList_intercalate]
  rfl

/-- The slashes of the root make empty parts only. -/
theorem parts_root (h : path.Proper) (rest : List Char) :
    ((Text.parts '/' (path.root.toList ++ rest)).map String.ofList).filter (· != "")
      = ((Text.parts '/' rest).map String.ofList).filter (· != "") := by
  have hslash : ∀ more : List Char, ((Text.parts '/' ('/' :: more)).map String.ofList).filter (· != "")
      = ((Text.parts '/' more).map String.ofList).filter (· != "") := by
    intro more
    rw [Text.parts, if_pos rfl]
    rfl
  rcases h.root with hroot | hroot | hroot
  · rw [hroot]
    rfl
  · rw [hroot]
    exact hslash rest
  · rw [hroot]
    exact (hslash ('/' :: rest)).trans (hslash rest)

/-- **The names of a path are found again in its text.** -/
theorem namesOf_text (h : path.Proper) (hne : path.names ≠ []) : namesOf path.text = path.names := by
  have hparts : Text.parts '/' (List.intercalate ['/'] (path.names.map String.toList))
    = path.names.map String.toList := by
    refine Text.parts_intercalate (by simpa using hne) ?_
    intro chars hchars
    obtain ⟨name, hname, rfl⟩ := List.mem_map.mp hchars
    exact (h.names name hname).2.1
  have hofList : (path.names.map String.toList).map String.ofList = path.names := by
    rw [List.map_map]
    exact (List.map_congr_left fun name _ => String.ofList_toList).trans (List.map_id _)
  rw [namesOf, toList_text hne, parts_root h, hparts, hofList]
  refine List.filter_eq_self.mpr fun name hname => ?_
  simpa using (h.names name hname).1

/-- A path is absolute if it starts with a slash. -/
theorem head?_text (h : path.Proper) (hne : path.names ≠ []) :
    path.text.toList.head? == some '/' ↔ path.root ≠ "" := by
  rw [toList_text hne]
  rcases h.root with hroot | hroot | hroot
  · obtain ⟨name, names, hnames⟩ := List.exists_cons_of_ne_nil hne
    obtain ⟨hempty, hslash, -⟩ := h.names name (by simp [hnames])
    obtain ⟨c, rest, hchars⟩ := List.exists_cons_of_ne_nil (show name.toList ≠ [] by simpa using hempty)
    have hc : c ≠ '/' := by
      rintro rfl
      exact hslash (by simp [hchars])
    cases names <;> simp [hroot, hnames, hchars, List.intercalate_cons_cons, hc]
  · simp [hroot]
  · simp [hroot]

theorem intercalate_concat (separator : List Char) {texts : List (List Char)} (hne : texts ≠ []) (last : List Char) :
    List.intercalate separator (texts ++ [last]) = List.intercalate separator texts ++ (separator ++ last) := by
  induction texts with
  | nil => exact absurd rfl hne
  | cons text texts ih =>
    cases texts with
    | nil => simp [List.intercalate_cons_cons]
    | cons next texts =>
      have hnext := ih (List.cons_ne_nil next texts)
      rw [List.cons_append] at hnext
      rw [List.cons_append, List.cons_append, List.intercalate_cons_cons, hnext, List.intercalate_cons_cons]
      simp

/-- The parent of a path has all its names but the last one. -/
theorem names_parent {names : List String} {last : String} (h : path.names = names ++ [last]) :
    path.parent.names = names := by
  rw [parent, h, List.dropLast_concat]

theorem parent_of_names_eq_nil (h : path.names = []) : path.parent = path := by
  rw [parent, h, List.dropLast_nil, ← h]

theorem Proper.parent (h : path.Proper) : path.parent.Proper :=
  ⟨h.root, fun name hname => h.names name (List.dropLast_subset _ hname)⟩

/-- A path is its directory, a slash and its last name. -/
theorem toList_text_concat {names : List String} {last : String} (h : path.names = names ++ [last])
    (hne : names ≠ []) : path.text.toList = path.parent.text.toList ++ '/' :: last.toList := by
  have hparent := names_parent h
  rw [toList_text (by simp [h]), toList_text (by rwa [hparent]), hparent, h, List.map_append, List.map_singleton,
    intercalate_concat _ (by simpa using hne)]
  simp [Path.parent]

/-- The text of a path ends with the last character of its last name. -/
theorem getLast?_text (h : path.Proper) (hne : path.names ≠ []) : (path.text.toList.getLast? == some '/') = false := by
  obtain ⟨names, last, hnames⟩ := (List.eq_nil_or_concat path.names).resolve_left hne
  rw [List.concat_eq_append] at hnames
  obtain ⟨hempty, hslash, -⟩ := h.names last (by simp [hnames])
  have hchars : last.toList ≠ [] := by simpa using hempty
  have hsuffix : ∃ front, path.text.toList = front ++ last.toList := by
    by_cases hnil : names = []
    · subst hnil
      rw [toList_text hne, hnames]
      exact ⟨path.root.toList, by simp⟩
    · rw [toList_text_concat hnames hnil]
      exact ⟨path.parent.text.toList ++ ['/'], by simp⟩
  obtain ⟨front, hfront⟩ := hsuffix
  rw [hfront, List.getLast?_append, List.getLast?_eq_some_getLast hchars, Option.some_or, beq_eq_false_iff_ne]
  intro hlast
  exact hslash (Option.some.inj hlast ▸ List.getLast_mem hchars)

/-- The text of a path without names is a dot or slashes. -/
theorem text_of_names_eq_nil (h : path.Proper) (hnil : path.names = []) :
    path.text = "." ∧ path.root = "" ∨ (path.text = "/" ∨ path.text = "//") ∧ path.root ≠ "" := by
  rcases h.root with hroot | hroot | hroot
  · exact .inl ⟨by simp [text, hroot, hnil], hroot⟩
  · exact .inr ⟨.inl (by simp [text, hroot, hnil]), by simp [hroot]⟩
  · exact .inr ⟨.inr (by simp [text, hroot, hnil]), by simp [hroot]⟩

/-! ## The path of a copy -/

theorem mem_stem {name : String} {c : Char} (h : c ∈ (stem name).toList) : c ∈ name.toList := by
  unfold stem at h
  dsimp only at h
  split at h
  · exact h
  · rw [String.toList_ofList] at h
    exact List.mem_of_mem_take h

/-- The name of the copy of a file. -/
def copyName (name : String) : String := stem name ++ ".backup.json"

theorem toList_copyName (name : String) : (copyName name).toList = (stem name).toList ++ ".backup.json".toList :=
  String.toList_append

/-- **The copy of a file has another name.** -/
theorem copyName_ne (name : String) : copyName name ≠ name := by
  intro h
  have hchars : name.toList = (stem name).toList ++ ".backup.json".toList := by
    rw [← toList_copyName, h]
  have hending : (name.toList.reverse.takeWhile (· != '.')).length = 4 := by
    rw [hchars, List.reverse_append]
    rfl
  have hlength : name.toList.length = (stem name).toList.length + 12 := by
    rw [hchars, List.length_append]
    rfl
  -- the stem of such a name keeps the first of the two endings
  have hstem : (stem name).toList = name.toList.take (name.toList.length - 5) := by
    unfold stem
    dsimp only
    rw [hending, if_neg (by simp; omega), String.toList_ofList, Nat.sub_sub]
  have hcut := congrArg List.length hstem
  rw [List.length_take] at hcut
  omega

/-- The name of a copy is not shorter than its ending. -/
theorem length_copyName (name : String) : 12 ≤ (copyName name).toList.length := by
  rw [toList_copyName, List.length_append]
  exact Nat.le_add_left _ _

theorem copyName_ne_of_short (name : String) {other : String} (h : other.toList.length < 12) :
    copyName name ≠ other := by
  rintro rfl
  exact absurd h (Nat.not_lt.mpr (length_copyName name))

/-- The path that a file is moved to before another one is stored in its place. -/
def copy (path : Path) : Path :=
  { path with names := path.names.dropLast ++ [copyName path.name] }

/-- The copy of a path has another last name. -/
theorem names_copy {names : List String} {last : String} (h : path.names = names ++ [last]) :
    path.copy.names = names ++ [copyName last] := by
  simp [copy, Path.name, h]

/-- `Path.withEnding?` makes the path of the copy. -/
theorem withEnding?_eq_copy (h : path.name ≠ "") : path.withEnding? ".backup.json" = some path.copy := by
  rw [withEnding?, if_neg (by simpa using h)]
  rfl

theorem Proper.copy (h : path.Proper) {names : List String} {last : String} (hnames : path.names = names ++ [last]) :
    path.copy.Proper := by
  refine ⟨h.root, fun name hname => ?_⟩
  rw [names_copy hnames, List.mem_append, List.mem_singleton] at hname
  rcases hname with hname | rfl
  · exact h.names name (by simp [hnames, hname])
  · have hslash : '/' ∉ (copyName last).toList := by
      rw [toList_copyName, List.mem_append, not_or]
      exact ⟨fun hmem => (h.names last (by simp [hnames])).2.1 (mem_stem hmem), by decide⟩
    exact ⟨copyName_ne_of_short last (by decide), hslash, copyName_ne_of_short last (by decide)⟩

theorem mem_intercalate {separator c : Char} (hc : c ≠ separator) {texts : List (List Char)} :
    c ∈ List.intercalate [separator] texts ↔ ∃ text ∈ texts, c ∈ text := by
  induction texts with
  | nil => simp
  | cons text texts ih =>
    cases texts with
    | nil => simp
    | cons next texts =>
      rw [List.intercalate_cons_cons, List.mem_append, List.mem_append, ih]
      simp [hc]

/-- The characters of a path are those of its root and its names. -/
theorem mem_text_iff (hne : path.names ≠ []) {c : Char} (hslash : c ≠ '/') :
    c ∈ path.text.toList ↔ c ∈ path.root.toList ∨ ∃ name ∈ path.names, c ∈ name.toList := by
  have hmap : (∃ text ∈ path.names.map String.toList, c ∈ text) ↔ ∃ name ∈ path.names, c ∈ name.toList := by
    constructor
    · rintro ⟨text, htext, hmem⟩
      obtain ⟨name, hname, rfl⟩ := List.mem_map.mp htext
      exact ⟨name, hname, hmem⟩
    · rintro ⟨name, hname, hmem⟩
      exact ⟨name.toList, List.mem_map_of_mem hname, hmem⟩
  rw [toList_text hne, List.mem_append, mem_intercalate hslash, hmap]

/-- The path of the copy has no characters but those of the path and of the ending. -/
theorem mem_text_of_mem_copy {names : List String} {last : String} (hnames : path.names = names ++ [last]) {c : Char}
    (hending : c ∉ "/.backup.json".toList) (h : c ∈ path.copy.text.toList) : c ∈ path.text.toList := by
  have hslash : c ≠ '/' := by
    rintro rfl
    exact hending (by decide)
  rw [mem_text_iff (by simp [hnames]) hslash, hnames]
  rw [mem_text_iff (by simp [names_copy hnames]) hslash, names_copy hnames] at h
  rcases h with hroot | ⟨name, hname, hmem⟩
  · exact .inl hroot
  · rw [List.mem_append, List.mem_singleton] at hname
    rcases hname with hname | rfl
    · exact .inr ⟨name, by simp [hname], hmem⟩
    · rw [toList_copyName, List.mem_append] at hmem
      rcases hmem with hmem | hmem
      · exact .inr ⟨last, by simp, mem_stem hmem⟩
      · exact absurd (List.mem_cons_of_mem '/' hmem) hending

/-- The copy of a file has another path. -/
theorem copy_text_ne (h : path.Proper) (hne : path.names ≠ []) : path.copy.text ≠ path.text := by
  obtain ⟨names, last, hnames⟩ := (List.eq_nil_or_concat path.names).resolve_left hne
  rw [List.concat_eq_append] at hnames
  have hcopy := names_copy hnames
  intro htext
  have hsame : path.copy.names = path.names := by
    rw [← namesOf_text h hne, ← namesOf_text (h.copy hnames) (by simp [hcopy]), htext]
  rw [hcopy, hnames] at hsame
  exact copyName_ne last (List.cons.inj (List.append_inj' hsame rfl).2).1

end Path

/-! ## Where kept paths lead -/

namespace Folder

/-- The place where a kept path starts. -/
def origin (folder : Folder) (path : Path) : Place :=
  if path.root = "" then folder.home else []

variable {folder : Folder} {path : Path}

/-- A path starts where its root says. -/
theorem startOf_text (h : path.Proper) : folder.startOf path.text = folder.origin path := by
  unfold startOf origin
  by_cases hne : path.names = []
  · rcases Path.text_of_names_eq_nil h hne with ⟨htext, hroot⟩ | ⟨htext | htext, hroot⟩
    · simp [htext, hroot]
    · simp [htext, hroot]
    · simp [htext, hroot]
  · have hhead := Path.head?_text h hne
    by_cases hroot : path.root = ""
    · rw [if_neg (by simpa [hroot] using hhead), if_pos hroot]
    · rw [if_pos (hhead.mpr hroot), if_neg hroot]

/-- Where a path with names leads. -/
theorem aim_text_iff {names : List String} {last : String} {aim : Aim} (h : path.Proper)
    (hnames : path.names = names ++ [last]) :
    folder.aim path.text = .ok aim
      ↔ path.text.utf8ByteSize < pathLimit ∧ ∃ start trail, folder.trailTo (folder.origin path) = .ok start
        ∧ folder.follow start names = .ok trail ∧ aim = aimed path.text last trail := by
  have hne : path.names ≠ [] := by simp [hnames]
  have hnamesOf := Path.namesOf_text h hne
  rw [hnames] at hnamesOf
  have hempty : path.text ≠ "" := by
    intro hempty
    rw [hempty] at hnamesOf
    have hnil : Path.namesOf "" = [] := rfl
    simp [hnil] at hnamesOf
  rw [aim_eq_ok_iff, startOf_text h, hnamesOf]
  constructor
  · rintro ⟨-, hsize, start, hstart, ⟨hnil, -⟩ | ⟨names', last', trail, hconcat, hfollow, haim⟩⟩
    · simp at hnil
    · obtain ⟨rfl, hlast⟩ := List.append_inj' hconcat rfl
      cases hlast
      exact ⟨hsize, start, trail, hstart, hfollow, haim⟩
  · rintro ⟨hsize, start, trail, hstart, hfollow, haim⟩
    exact ⟨hempty, hsize, start, hstart, .inr ⟨names, last, trail, rfl, hfollow, haim⟩⟩

/-- A kept path has no slash at its end. -/
theorem slashed_of_aim {trail : Trail} {name : String} {slashed : Bool} (hproper : path.Proper) (hne : path.names ≠ [])
    (h : folder.aim path.text = .ok ⟨trail, some name, slashed⟩) : slashed = false := by
  obtain ⟨names, last, hnames⟩ := (List.eq_nil_or_concat path.names).resolve_left hne
  rw [List.concat_eq_append] at hnames
  obtain ⟨-, start, found, -, -, haimed⟩ := (aim_text_iff hproper hnames).mp h
  have hslashed := congrArg Aim.slashed haimed
  rw [slashed_aimed, Path.getLast?_text hproper hne] at hslashed
  exact hslashed

/-- The last name of a path is the one that it leads to. -/
theorem Leads.names {place : Place} {name : String} {entries : List (String × Item)} (hproper : path.Proper)
    (h : Leads folder path.text place name entries) :
    ∃ names start trail, path.names = names ++ [name] ∧ name ≠ ".." ∧ path.text.utf8ByteSize < pathLimit
      ∧ folder.trailTo (folder.origin path) = .ok start ∧ folder.follow start names = .ok trail
      ∧ placeOfTrail trail = place := by
  obtain ⟨found, haim, hplace⟩ := h.aim
  rcases List.eq_nil_or_concat path.names with hnil | ⟨names, last, hnames⟩
  · -- a path without names leads to no name
    obtain ⟨-, -, start, -, ⟨-, hnone⟩ | ⟨names, last, trail, hnames, -, hnone⟩⟩ := aim_eq_ok_iff.mp haim
    · cases hnone
    · have hlast : last = "." := by
        rcases Path.text_of_names_eq_nil hproper hnil with ⟨htext, -⟩ | ⟨htext | htext, -⟩
        · rw [htext, show Path.namesOf "." = [] ++ ["."] from rfl] at hnames
          exact (List.cons.inj (List.append_inj' hnames rfl).2).1.symm
        · rw [htext, show Path.namesOf "/" = [] from rfl] at hnames
          simp at hnames
        · rw [htext, show Path.namesOf "//" = [] from rfl] at hnames
          simp at hnames
      rw [hlast] at hnone
      cases hnone
  · rw [List.concat_eq_append] at hnames
    obtain ⟨hsize, start, trail, hstart, hfollow, haimed⟩ := (aim_text_iff hproper hnames).mp haim
    unfold aimed at haimed
    split at haimed
    · cases haimed
    · split at haimed
      · cases haimed
      · rename_i hdots
        injection haimed with htrail hname _
        cases hname
        exact ⟨names, start, trail, hnames, by simpa using hdots, hsize, hstart, hfollow, htrail ▸ hplace⟩

/-- The path of the copy leads to the same directory, unless it is too long. -/
theorem Leads.copy {place : Place} {name : String} {entries : List (String × Item)} (hproper : path.Proper)
    (h : Leads folder path.text place name entries) :
    if path.copy.text.utf8ByteSize < pathLimit then
      Leads folder path.copy.text place (Path.copyName name) entries
    else folder.aim path.copy.text = .error .nameTooLong := by
  obtain ⟨names, start, trail, hnames, -, hsize, hstart, hfollow, hplace⟩ := h.names hproper
  have hcopy := Path.names_copy hnames
  have hproper' := hproper.copy hnames
  split
  · rename_i hlimit
    refine ⟨⟨trail, (aim_text_iff hproper' hcopy).mpr ⟨hlimit, start, trail, hstart, hfollow, ?_⟩, hplace⟩, h.get?⟩
    have hslashed := Path.getLast?_text hproper' (by simp [hcopy])
    have hdot := Path.copyName_ne_of_short name (show ".".toList.length < 12 by decide)
    have hdots := Path.copyName_ne_of_short name (show "..".toList.length < 12 by decide)
    simp [aimed, hdot, hdots, hslashed]
  · rename_i hlimit
    exact aim_of_pathLimit_le (Nat.not_lt.mp hlimit)

/-! ## The place of a path -/

/-- The place that a name leads to. -/
def walk (place : Place) (name : String) : Place :=
  if name = "." then place else if name = ".." then place.dropLast else place ++ [name]

/-- The place of a path, which its names alone decide. -/
def goal (folder : Folder) (path : Path) : Place :=
  (folder.origin path ++ path.names).foldl walk []

/-- Wherever names can be followed, they lead to the same place. -/
theorem placeOfTrail_follow {trail found : Trail} {names : List String}
    (h : folder.follow trail names = .ok found) : placeOfTrail found = names.foldl walk (placeOfTrail trail) := by
  induction names generalizing trail with
  | nil =>
    cases h
    rfl
  | cons name names ih =>
    rw [List.foldl_cons]
    rcases follow_cons_eq_ok.mp h with ⟨rfl, hrest⟩ | ⟨rfl, hrest⟩ | ⟨hdot, hdots, -, item, -, -, hrest⟩
    · rw [ih hrest]
      rfl
    · rw [ih hrest, placeOfTrail_tail]
      rfl
    · rw [ih hrest, placeOfTrail_cons, walk, if_neg hdot, if_neg hdots]

/-- Where a kept path leads is its `goal`. -/
theorem Leads.goal_eq {place : Place} {name : String} {entries : List (String × Item)} (hproper : path.Proper)
    (h : Leads folder path.text place name entries) : folder.goal path = place ++ [name] := by
  obtain ⟨names, start, trail, hnames, hdots, -, hstart, hfollow, rfl⟩ := h.names hproper
  have hdot : name ≠ "." := (hproper.names name (by simp [hnames])).2.2
  rw [goal, hnames, List.foldl_append, List.foldl_append, placeOfTrail_follow hfollow, placeOfTrail_follow hstart]
  simp [walk, hdot, hdots, placeOfTrail]

/-- What a path leads to is at its place. -/
theorem Leads.get?_goal {place : Place} {name : String} {entries : List (String × Item)} (hproper : path.Proper)
    (h : Leads folder path.text place name entries) : folder.get? (folder.goal path) = entries.lookup name := by
  rw [h.goal_eq hproper, get?_concat, h.get?]
  rfl

end Folder

end ProgramArt

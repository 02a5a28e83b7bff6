import ProgramArt.Folder.Making
import ProgramArt.Proofs.Folder.Paths

/-!
# Directories that are made

A directory that is there is not made a second time, so nothing is made for a file that has a directory
(`Folder.Leads.ensurePath_parent`). A directory that cannot be made is missing, so there is no file in it
(`Folder.ensurePath_spec`).
-/

namespace ProgramArt

/-- The text of a directory is no longer than that of a path below it. -/
theorem Path.fits_parent {path : Path} {names : List String} {last : String} (hproper : path.Proper)
    (hnames : path.names = names ++ [last]) (hsize : path.text.utf8ByteSize < Folder.pathLimit)
    (hnull : path.text.toList.contains '\x00' = false) :
    path.parent.text.utf8ByteSize < Folder.pathLimit ∧ path.parent.text.toList.contains '\x00' = false := by
  by_cases hnil : names = []
  · rcases text_of_names_eq_nil hproper.parent ((names_parent hnames).trans hnil) with ⟨htext, -⟩ | ⟨htext | htext, -⟩
    · rw [htext]
      decide
    · rw [htext]
      decide
    · rw [htext]
      decide
  · have htext : path.text = path.parent.text ++ String.ofList ('/' :: last.toList) := by
      rw [← String.toList_inj, String.toList_append, String.toList_ofList, toList_text_concat hnames hnil]
    rw [htext, String.utf8ByteSize_append] at hsize
    rw [htext, String.toList_append, List.contains_eq_any_beq, List.any_append, Bool.or_eq_false_iff] at hnull
    rw [List.contains_eq_any_beq]
    exact ⟨by omega, hnull.1⟩

namespace Folder

variable {folder : Folder} {path : Path}

/-! ## Directories that are there -/

theorem follow_concat_eq_ok {trail found : Trail} {names : List String} {last : String} :
    folder.follow trail (names ++ [last]) = .ok found
      ↔ ∃ middle, folder.follow trail names = .ok middle ∧ folder.follow middle [last] = .ok found := by
  induction names generalizing trail with
  | nil => simp [follow]
  | cons name names ih =>
    simp only [List.cons_append, follow_cons_eq_ok, ih]
    constructor
    · rintro (⟨hdot, middle, hmiddle, hlast⟩ | ⟨hdots, middle, hmiddle, hlast⟩
        | ⟨hdot, hdots, hsize, item, hchild, hitem, middle, hmiddle, hlast⟩)
      · exact ⟨middle, .inl ⟨hdot, hmiddle⟩, hlast⟩
      · exact ⟨middle, .inr (.inl ⟨hdots, hmiddle⟩), hlast⟩
      · exact ⟨middle, .inr (.inr ⟨hdot, hdots, hsize, item, hchild, hitem, hmiddle⟩), hlast⟩
    · rintro ⟨middle, ⟨hdot, hmiddle⟩ | ⟨hdots, hmiddle⟩ | ⟨hdot, hdots, hsize, item, hchild, hitem, hmiddle⟩, hlast⟩
      · exact .inl ⟨hdot, middle, hmiddle, hlast⟩
      · exact .inr (.inl ⟨hdots, middle, hmiddle, hlast⟩)
      · exact .inr (.inr ⟨hdot, hdots, hsize, item, hchild, hitem, middle, hmiddle, hlast⟩)

/-- A path leads to a directory if its names do. -/
theorem found_of_follow {start trail : Trail} (hproper : path.Proper) (hroot : folder.root.isDirectory = true)
    (hstart : folder.trailTo (folder.origin path) = .ok start) (hfollow : folder.follow start path.names = .ok trail)
    (hsize : path.text.utf8ByteSize < pathLimit) :
    ∃ item, Found folder path.text item ∧ item.isDirectory = true := by
  have hhere : ∀ {trail slashed}, folder.aim path.text = .ok ⟨trail, none, slashed⟩ →
      ∃ item, Found folder path.text item ∧ item.isDirectory = true :=
    fun haim => ⟨_, .here haim rfl, (isTrail_of_aim haim).isDirectory hroot⟩
  rcases List.eq_nil_or_concat path.names with hnil | ⟨names, last, hnames⟩
  · -- a dot or slashes lead to where the path starts
    have hstartOf := @startOf_text folder path hproper
    rcases Path.text_of_names_eq_nil hproper hnil with ⟨htext, -⟩ | ⟨htext | htext, -⟩
    · rw [htext] at hstartOf hsize hhere ⊢
      exact hhere (aim_eq_ok_iff.mpr ⟨by simp, hsize, start, by rw [hstartOf, hstart],
        .inr ⟨[], ".", start, rfl, rfl, rfl⟩⟩)
    · rw [htext] at hstartOf hsize hhere ⊢
      exact hhere (aim_eq_ok_iff.mpr ⟨by simp, hsize, start, by rw [hstartOf, hstart], .inl ⟨rfl, rfl⟩⟩)
    · rw [htext] at hstartOf hsize hhere ⊢
      exact hhere (aim_eq_ok_iff.mpr ⟨by simp, hsize, start, by rw [hstartOf, hstart], .inl ⟨rfl, rfl⟩⟩)
  · rw [List.concat_eq_append] at hnames
    rw [hnames] at hfollow
    obtain ⟨middle, hmiddle, hlast⟩ := follow_concat_eq_ok.mp hfollow
    have haim := (aim_text_iff hproper hnames).mpr ⟨hsize, start, middle, hstart, hmiddle, rfl⟩
    have hdot : last ≠ "." := (hproper.names last (by simp [hnames])).2.2
    rcases follow_cons_eq_ok.mp hlast with ⟨hdot', -⟩ | ⟨rfl, -⟩ | ⟨-, hdots, hname, item, hchild, hitem, -⟩
    · exact absurd hdot' hdot
    · exact hhere haim
    · rw [aimed, if_neg (by simpa using hdot), if_neg (by simpa using hdots)] at haim
      exact ⟨item, .below haim (by rw [entry?_of_le hname, hchild]) fun _ => hitem, hitem⟩

/-- A directory is not made a second time. -/
theorem ensurePath_of_found [Host] {item : Item} (hnull : path.text.toList.contains '\x00' = false)
    (h : Found folder path.text item) (hitem : item.isDirectory = true) : folder.ensurePath path = (folder, none) := by
  have hfind := find_eq_ok_iff.mpr ⟨hnull, h⟩
  have hmake : folder.makeDirectory path.text = .error (.refused .alreadyExists path.text) := by
    rw [makeDirectory, onPath_eq hnull]
    cases h with
    | here haim _ =>
      rw [haim]
      rfl
    | below haim hentry _ =>
      rw [haim]
      simp only [bind, Except.bind, hentry]
      rfl
  unfold Folder.ensurePath ensurePathWithin
  rw [hmake]
  simp [unlessDirectory, Folder.isDirectory, hfind, hitem]

theorem isDirectory_eq_true_iff {text : String} :
    folder.isDirectory text = true ↔ ∃ item, folder.find text = .ok item ∧ item.isDirectory = true := by
  unfold Folder.isDirectory
  cases folder.find text with
  | ok item => simp
  | error e => simp

section File

variable {place : Place} {name : String} {entries : List (String × Item)}

theorem Leads.isDirectory_iff {text : String} (h : Leads folder text place name entries)
    (hnull : text.toList.contains '\x00' = false) (hsize : name.utf8ByteSize ≤ maxName) :
    folder.isDirectory text = true ↔ ∃ inside, entries.lookup name = some (.directory inside) := by
  rw [isDirectory_eq_true_iff, h.find hnull hsize]
  cases entries.lookup name with
  | none => simp
  | some item => simp [Item.isDirectory_iff]

/-- The directory of a file is there. -/
theorem Leads.isDirectory_parent (hproper : path.Proper) (hroot : folder.root.isDirectory = true)
    (h : Leads folder path.text place name entries) (hnull : path.text.toList.contains '\x00' = false) :
    folder.isDirectory path.parent.text = true := by
  obtain ⟨names, start, trail, hnames, -, hsize, hstart, hfollow, -⟩ := h.names hproper
  rw [← Path.names_parent hnames] at hfollow
  obtain ⟨hshort, hkept⟩ := Path.fits_parent hproper hnames hsize hnull
  obtain ⟨item, hfound, hitem⟩ := found_of_follow hproper.parent hroot hstart hfollow hshort
  exact isDirectory_eq_true_iff.mpr ⟨item, find_eq_ok_iff.mpr ⟨hkept, hfound⟩, hitem⟩

/-- **The directory of a file need not be made.** -/
theorem Leads.ensurePath_parent [Host] (hproper : path.Proper) (hroot : folder.root.isDirectory = true)
    (h : Leads folder path.text place name entries) (hnull : path.text.toList.contains '\x00' = false) :
    folder.ensurePath path.parent = (folder, none) := by
  obtain ⟨item, hfind, hitem⟩ := isDirectory_eq_true_iff.mp (h.isDirectory_parent hproper hroot hnull)
  obtain ⟨hkept, hfound⟩ := find_eq_ok_iff.mp hfind
  exact ensurePath_of_found hkept hfound hitem

end File

/-- A path that leads to a directory has been followed to its end. -/
theorem follow_of_found {item : Item} (hproper : path.Proper) (h : Found folder path.text item)
    (hitem : item.isDirectory = true) :
    ∃ start trail, folder.trailTo (folder.origin path) = .ok start ∧ folder.follow start path.names = .ok trail := by
  rcases List.eq_nil_or_concat path.names with hnil | ⟨names, last, hnames⟩
  · obtain ⟨aim, haim⟩ := h.exists_aim
    obtain ⟨-, -, start, hstart, -⟩ := aim_eq_ok_iff.mp haim
    rw [startOf_text hproper] at hstart
    exact ⟨start, start, hstart, by rw [hnil]; rfl⟩
  · rw [List.concat_eq_append] at hnames
    have hdot : last ≠ "." := (hproper.names last (by simp [hnames])).2.2
    cases h with
    -- the path ends in two dots
    | here haim _ =>
      obtain ⟨-, start, trail, hstart, hfollow, haimed⟩ := (aim_text_iff hproper hnames).mp haim
      unfold aimed at haimed
      rw [if_neg (by simpa using hdot)] at haimed
      split at haimed
      · rename_i hdots
        have hlast : folder.follow trail [last] = .ok trail.tail :=
          follow_cons_eq_ok.mpr (.inr (.inl ⟨by simpa using hdots, rfl⟩))
        rw [hnames]
        exact ⟨start, trail.tail, hstart, follow_concat_eq_ok.mpr ⟨trail, hfollow, hlast⟩⟩
      · cases haimed
    | @below found name slashed haim hentry _ =>
      obtain ⟨-, start, trail, hstart, hfollow, haimed⟩ := (aim_text_iff hproper hnames).mp haim
      unfold aimed at haimed
      rw [if_neg (by simpa using hdot)] at haimed
      split at haimed
      · cases haimed
      · rename_i hdots
        injection haimed with htrail hname _
        cases htrail
        cases hname
        obtain ⟨hsize, hchild⟩ := entry?_eq_ok hentry
        have hlast : folder.follow found [last] = .ok ((last, item) :: found) :=
          follow_cons_eq_ok.mpr (.inr (.inr ⟨hdot, by simpa using hdots, hsize, item, hchild, hitem, rfl⟩))
        rw [hnames]
        exact ⟨start, _, hstart, follow_concat_eq_ok.mpr ⟨found, hfollow, hlast⟩⟩

theorem isDirectory_parent (hproper : path.Proper) (hroot : folder.root.isDirectory = true)
    (h : folder.isDirectory path.text = true) : folder.isDirectory path.parent.text = true := by
  obtain ⟨item, hfind, hitem⟩ := isDirectory_eq_true_iff.mp h
  obtain ⟨hnull, hfound⟩ := find_eq_ok_iff.mp hfind
  rcases List.eq_nil_or_concat path.names with hnil | ⟨names, last, hnames⟩
  · rw [Path.parent_of_names_eq_nil hnil]
    exact h
  · rw [List.concat_eq_append] at hnames
    obtain ⟨start, trail, hstart, hfollow⟩ := follow_of_found hproper hfound hitem
    rw [hnames] at hfollow
    obtain ⟨middle, hmiddle, -⟩ := follow_concat_eq_ok.mp hfollow
    rw [← Path.names_parent hnames] at hmiddle
    obtain ⟨hshort, hkept⟩ := Path.fits_parent hproper hnames hfound.size hnull
    obtain ⟨parent, hparent, hdirectory⟩ := found_of_follow hproper.parent hroot hstart hmiddle hshort
    exact isDirectory_eq_true_iff.mpr ⟨parent, find_eq_ok_iff.mpr ⟨hkept, hparent⟩, hdirectory⟩

theorem isDirectory_root_makeDirectory {made : Folder} {text : String} (hroot : folder.root.isDirectory = true)
    (h : folder.makeDirectory text = .ok made) : made.root.isDirectory = true := by
  obtain ⟨-, hmake⟩ := onPath_eq_ok h
  cases haim : folder.aim text with
  | error fault =>
    rw [haim] at hmake
    cases hmake
  | ok aim =>
    obtain ⟨trail, name, slashed⟩ := aim
    rw [haim] at hmake
    cases name with
    | none => cases hmake
    | some name =>
      simp only [bind, Except.bind] at hmake
      split at hmake
      · cases hmake
      · split at hmake
        · cases hmake
        · cases hmake
          exact Item.isDirectory_put hroot fun hnil => by simp [Aim.place] at hnil

theorem unlessDirectory_fst (text : String) (e : FileError) : (folder.unlessDirectory text e).1 = folder := by
  unfold unlessDirectory
  split
  · split <;> rfl
  · rfl

/-- A directory that could not be made is not there. -/
theorem isDirectory_of_unlessDirectory {text : String} {e fault : FileError}
    (hmake : folder.makeDirectory text = .error e) (h : folder.unlessDirectory text e = (folder, some fault)) :
    folder.isDirectory text = false := by
  unfold unlessDirectory at h
  split at h
  · split at h
    · cases h
    · rename_i hdirectory
      simpa using hdirectory
  · -- the path holds a null character
    rename_i hrefused
    unfold makeDirectory onPath at hmake
    split at hmake
    · rename_i hnull
      unfold Folder.isDirectory Folder.find onPath
      rw [if_pos hnull]
    · split at hmake
      · cases hmake
      · cases hmake
        exact absurd rfl (hrefused _ _)

theorem ensureOne_spec {text : String} (hroot : folder.root.isDirectory = true) :
    (folder.ensureOne text).1.root.isDirectory = true
      ∧ ((folder.ensureOne text).2.isSome = true → (folder.ensureOne text).1.isDirectory text = false) := by
  unfold ensureOne
  split
  · rename_i made hmade
    exact ⟨isDirectory_root_makeDirectory hroot hmade, fun hsome => by cases hsome⟩
  · rename_i e hmake
    rw [unlessDirectory_fst]
    refine ⟨hroot, fun hsome => ?_⟩
    obtain ⟨fault, hfault⟩ := Option.isSome_iff_exists.mp hsome
    exact isDirectory_of_unlessDirectory hmake (Prod.ext (unlessDirectory_fst text e) hfault)

/-- Whatever becomes of the directories, the root stays one. If a directory cannot be made, it is not there after what
has been made on the way to it. -/
theorem ensurePathWithin_spec (hproper : path.Proper) (hroot : folder.root.isDirectory = true) (depth : Nat) :
    (folder.ensurePathWithin depth path).1.root.isDirectory = true
      ∧ ((folder.ensurePathWithin depth path).2.isSome = true →
        (folder.ensurePathWithin depth path).1.isDirectory path.text = true →
          (folder.ensurePathWithin depth path).1 = folder) := by
  induction depth generalizing path with
  | zero =>
    unfold ensurePathWithin
    split
    · rename_i made hmade
      exact ⟨isDirectory_root_makeDirectory hroot hmade, fun hsome => by cases hsome⟩
    · rename_i hdepth _
      cases hdepth
    · exact ⟨hroot, fun _ _ => rfl⟩
    · rw [unlessDirectory_fst]
      exact ⟨hroot, fun _ _ => rfl⟩
  | succ depth ih =>
    obtain ⟨hparentRoot, hparent⟩ := ih hproper.parent
    unfold ensurePathWithin
    split
    · rename_i made hmade
      exact ⟨isDirectory_root_makeDirectory hroot hmade, fun hsome => by cases hsome⟩
    · rename_i hdepth _
      cases hdepth
      split
      · -- the way cannot be made: if the directory were there, the one above it would be too
        rename_i made e hmade
        rw [hmade] at hparentRoot hparent
        exact ⟨hparentRoot, fun _ hdirectory => hparent rfl (isDirectory_parent hproper hparentRoot hdirectory)⟩
      · -- the way has been made, and it is the directory itself that cannot be
        rename_i made hmade
        rw [hmade] at hparentRoot
        obtain ⟨honeRoot, hone⟩ := @ensureOne_spec made path.text hparentRoot
        refine ⟨honeRoot, fun hsome hdirectory => ?_⟩
        rw [hone hsome] at hdirectory
        cases hdirectory
    · exact ⟨hroot, fun _ _ => rfl⟩
    · rw [unlessDirectory_fst]
      exact ⟨hroot, fun _ _ => rfl⟩

/-- **If the directory of a path cannot be made, it is missing**, or nothing has been made on the way to it. -/
theorem ensurePath_spec [Host] (hproper : path.Proper) (hroot : folder.root.isDirectory = true) :
    (folder.ensurePath path).1.root.isDirectory = true
      ∧ ((folder.ensurePath path).2.isSome = true → (folder.ensurePath path).1.isDirectory path.text = true →
        (folder.ensurePath path).1 = folder) :=
  ensurePathWithin_spec hproper hroot Host.missingDepth

end Folder

end ProgramArt

import ProgramArt.Folder.Basic
import ProgramArt.Proofs.Folder.Items

/-!
# Where paths lead

A path is followed from directory to directory, and the last name of it is looked up in the directory that it has come
to: `Folder.Leads` has that name and the entries around it. What is done with a file changes the entries of that
directory only (`Folder.Leads.withEntries`), so the path leads to the same place afterwards, and what is written to it
is found there (`Folder.find_of_write`).
-/

namespace ProgramArt

/-! ## Trails -/

namespace Folder

/-- The directories on the way to a place, each with its name. -/
inductive IsTrail (folder : Folder) : Trail → Prop where
  | nil : IsTrail folder []
  | cons {trail : Trail} {name : String} {item : Item} (htrail : IsTrail folder trail)
    (hchild : (folder.itemOf trail).child? name = some item) (hitem : item.isDirectory = true) :
    IsTrail folder ((name, item) :: trail)

variable {folder folder' : Folder}

theorem placeOfTrail_cons (name : String) (item : Item) (trail : Trail) :
    placeOfTrail ((name, item) :: trail) = placeOfTrail trail ++ [name] := by
  simp [placeOfTrail]

theorem placeOfTrail_tail (trail : Trail) : placeOfTrail trail.tail = (placeOfTrail trail).dropLast := by
  cases trail with
  | nil => rfl
  | cons step trail =>
    obtain ⟨name, item⟩ := step
    rw [placeOfTrail_cons, List.dropLast_concat, List.tail_cons]

/-- The directory above one on the way is on the way. -/
theorem IsTrail.tail {trail : Trail} (h : IsTrail folder trail) : IsTrail folder trail.tail := by
  cases h with
  | nil => exact .nil
  | cons htrail _ _ => exact htrail

theorem get?_concat (folder : Folder) (place : Place) (name : String) :
    folder.get? (place ++ [name]) = (folder.get? place).bind (·.child? name) := by
  rw [Folder.get?, Item.get?_append, ← Folder.get?]
  cases folder.get? place with
  | none => rfl
  | some item =>
    rw [Option.bind_some, Option.bind_some, Item.get?]
    cases item.child? name <;> rfl

/-- The item of a trail is the one at its place. -/
theorem IsTrail.get? {trail : Trail} (h : IsTrail folder trail) :
    folder.get? (placeOfTrail trail) = some (folder.itemOf trail) := by
  induction h with
  | nil => rfl
  | cons _ hchild _ ih =>
    rw [placeOfTrail_cons, get?_concat, ih]
    exact hchild

/-- All that is on the way is a directory. -/
theorem IsTrail.isDirectory {trail : Trail} (h : IsTrail folder trail) (hroot : folder.root.isDirectory = true) :
    (folder.itemOf trail).isDirectory = true := by
  cases h with
  | nil => exact hroot
  | cons _ _ hitem => exact hitem

/-- What is in the directory of a trail is at the place below it. -/
theorem IsTrail.child? {trail : Trail} (h : IsTrail folder trail) (name : String) :
    (folder.itemOf trail).child? name = folder.get? (placeOfTrail trail ++ [name]) := by
  rw [get?_concat, h.get?]
  rfl

/-- A name that is not too long is looked up among the entries. -/
theorem entry?_eq_ok {trail : Trail} {name : String} {found : Option Item}
    (h : folder.entry? trail name = .ok found) :
    name.utf8ByteSize ≤ maxName ∧ (folder.itemOf trail).child? name = found := by
  unfold entry? at h
  split at h
  · cases h
  · rename_i hsize
    cases h
    exact ⟨by omega, rfl⟩

theorem entry?_of_le {trail : Trail} {name : String} (h : name.utf8ByteSize ≤ maxName) :
    folder.entry? trail name = .ok ((folder.itemOf trail).child? name) := by
  unfold entry?
  rw [if_neg (by omega)]

/-- A name other than dots is followed to its directory. -/
theorem follow_name {trail : Trail} {name : String} (hdot : name ≠ ".") (hdots : name ≠ "..") (names : List String) :
    folder.follow trail (name :: names) =
      match folder.entry? trail name with
      | .error e => .error e
      | .ok none => .error .notFound
      | .ok (some item) =>
        if item.isDirectory then folder.follow ((name, item) :: trail) names else .error .notDirectory := by
  exact follow.eq_4 folder trail name names hdot hdots

/-- How names are followed to a directory. -/
theorem follow_cons_eq_ok {trail found : Trail} {name : String} {names : List String} :
    folder.follow trail (name :: names) = .ok found
      ↔ (name = "." ∧ folder.follow trail names = .ok found)
        ∨ (name = ".." ∧ folder.follow trail.tail names = .ok found)
        ∨ (name ≠ "." ∧ name ≠ ".." ∧ name.utf8ByteSize ≤ maxName ∧ ∃ item,
          (folder.itemOf trail).child? name = some item ∧ item.isDirectory = true
            ∧ folder.follow ((name, item) :: trail) names = .ok found) := by
  by_cases hdot : name = "."
  · subst hdot
    simp [follow]
  by_cases hdots : name = ".."
  · subst hdots
    simp [follow]
  simp only [hdot, hdots, follow_name hdot hdots, false_and, false_or, ne_eq, not_false_iff, true_and]
  constructor
  · intro h
    split at h
    · cases h
    · cases h
    · rename_i item hitem
      obtain ⟨hsize, hchild⟩ := entry?_eq_ok hitem
      split at h
      · rename_i hdirectory
        exact ⟨hsize, item, hchild, hdirectory, h⟩
      · cases h
  · rintro ⟨hsize, item, hchild, hdirectory, h⟩
    rw [entry?_of_le hsize, hchild]
    simp [hdirectory, h]

/-- Following names keeps to the way. -/
theorem IsTrail.follow {trail found : Trail} {names : List String} (h : IsTrail folder trail)
    (hfollow : folder.follow trail names = .ok found) : IsTrail folder found := by
  induction names generalizing trail with
  | nil =>
    cases hfollow
    exact h
  | cons name names ih =>
    rcases follow_cons_eq_ok.mp hfollow with ⟨-, hnames⟩ | ⟨-, hnames⟩ | ⟨-, -, -, item, hchild, hitem, hnames⟩
    · exact ih h hnames
    · exact ih h.tail hnames
    · exact ih (.cons h hchild hitem) hnames

/-- Names that lead to a directory lead to the same place as long as directories stay. -/
theorem follow_keeps (hkeeps : Item.KeepsDirectories folder.root folder'.root) {trail next : Trail}
    (htrail : IsTrail folder trail) (hnext : IsTrail folder' next) (hplace : placeOfTrail trail = placeOfTrail next)
    {names : List String} {found : Trail} (hfollow : folder.follow trail names = .ok found) :
    ∃ found', folder'.follow next names = .ok found' ∧ placeOfTrail found = placeOfTrail found' := by
  induction names generalizing trail next with
  | nil =>
    cases hfollow
    exact ⟨next, rfl, hplace⟩
  | cons name names ih =>
    rcases follow_cons_eq_ok.mp hfollow
      with ⟨hdot, hnames⟩ | ⟨hdots, hnames⟩ | ⟨hdot, hdots, hsize, item, hchild, hitem, hnames⟩
    · obtain ⟨found', hfound, heq⟩ := ih htrail hnext hplace hnames
      exact ⟨found', follow_cons_eq_ok.mpr (.inl ⟨hdot, hfound⟩), heq⟩
    · have htail : placeOfTrail trail.tail = placeOfTrail next.tail := by
        rw [placeOfTrail_tail, placeOfTrail_tail, hplace]
      obtain ⟨found', hfound, heq⟩ := ih htrail.tail hnext.tail htail hnames
      exact ⟨found', follow_cons_eq_ok.mpr (.inr (.inl ⟨hdots, hfound⟩)), heq⟩
    · -- the directory under the name is at a place that is still one
      obtain ⟨entries, rfl⟩ := Item.isDirectory_iff.mp hitem
      obtain ⟨entries', hentries'⟩ := hkeeps (placeOfTrail trail ++ [name]) entries (by
        rw [← Folder.get?, ← htrail.child?, hchild])
      have hchild' : (folder'.itemOf next).child? name = some (.directory entries') := by
        rw [hnext.child?, ← hplace]
        exact hentries'
      obtain ⟨found', hfound, heq⟩ := ih (.cons htrail hchild hitem) (.cons hnext hchild' rfl)
        (by rw [placeOfTrail_cons, placeOfTrail_cons, hplace]) hnames
      exact ⟨found', follow_cons_eq_ok.mpr (.inr (.inr ⟨hdot, hdots, hsize, _, hchild', rfl, hfound⟩)), heq⟩

/-! ## Where paths lead -/

/-- The place where a path starts. -/
def startOf (folder : Folder) (text : String) : Place :=
  if text.toList.head? == some '/' then [] else folder.home

/-- Where a path leads whose last name is seen from a directory. -/
def aimed (text last : String) (trail : Trail) : Aim :=
  if last == "." then ⟨trail, none, text.toList.getLast? == some '/'⟩
  else if last == ".." then ⟨trail.tail, none, text.toList.getLast? == some '/'⟩
  else ⟨trail, some last, text.toList.getLast? == some '/'⟩

/-- A path is followed to the directory of its last name. -/
theorem aim_eq {text : String} (hempty : text ≠ "") (hsize : ¬pathLimit ≤ text.utf8ByteSize) :
    folder.aim text = (folder.trailTo (folder.startOf text)).bind fun start =>
      match (Path.namesOf text).getLast? with
      | none => .ok ⟨start, none, text.toList.getLast? == some '/'⟩
      | some last => (folder.follow start (Path.namesOf text).dropLast).map (aimed text last) := by
  unfold Folder.aim
  dsimp only
  rw [if_neg (by simpa using hempty), if_neg hsize]
  change (folder.trailTo (folder.startOf text)).bind _ = _
  congr 1
  funext start
  cases (Path.namesOf text).getLast? with
  | none => rfl
  | some last =>
    dsimp only
    cases folder.follow start (Path.namesOf text).dropLast with
    | error e => rfl
    | ok trail =>
      change (if last == "." then Except.ok _ else if last == ".." then Except.ok _ else Except.ok _) = _
      rw [Except.map, aimed]
      split
      · rfl
      · split <;> rfl

/-- A path leads from its start through the directories that it names, all of which are there. -/
theorem aim_eq_ok_iff {text : String} {aim : Aim} :
    folder.aim text = .ok aim
      ↔ text ≠ "" ∧ text.utf8ByteSize < pathLimit ∧ ∃ start, folder.trailTo (folder.startOf text) = .ok start
        ∧ ((Path.namesOf text = [] ∧ aim = ⟨start, none, text.toList.getLast? == some '/'⟩)
          ∨ ∃ names last trail, Path.namesOf text = names ++ [last] ∧ folder.follow start names = .ok trail
            ∧ aim = aimed text last trail) := by
  by_cases hempty : text = ""
  · simp [Folder.aim, hempty]
  by_cases hsize : pathLimit ≤ text.utf8ByteSize
  · simp [Folder.aim, hempty, hsize, Nat.not_lt.mpr hsize]
  rw [aim_eq hempty hsize]
  constructor
  · intro h
    cases hstart : folder.trailTo (folder.startOf text) with
    | error e =>
      rw [hstart] at h
      cases h
    | ok start =>
      refine ⟨hempty, Nat.not_le.mp hsize, start, rfl, ?_⟩
      rw [hstart] at h
      change (match (Path.namesOf text).getLast? with
        | none => _
        | some last => _) = Except.ok aim at h
      rcases List.eq_nil_or_concat (Path.namesOf text) with hnames | ⟨names, last, hnames⟩
      · rw [hnames] at h
        exact .inl ⟨hnames, (Except.ok.inj h).symm⟩
      · rw [List.concat_eq_append] at hnames
        rw [hnames, List.getLast?_concat, List.dropLast_concat] at h
        cases hfollow : folder.follow start names with
        | error e =>
          rw [hfollow] at h
          cases h
        | ok trail =>
          rw [hfollow] at h
          exact .inr ⟨names, last, trail, hnames, hfollow, (Except.ok.inj h).symm⟩
  · rintro ⟨-, -, start, hstart, ⟨hnames, rfl⟩ | ⟨names, last, trail, hnames, hfollow, rfl⟩⟩
    · rw [hstart, hnames]
      rfl
    · rw [hstart, hnames, List.getLast?_concat, List.dropLast_concat]
      change (folder.follow start names).map _ = _
      rw [hfollow]
      rfl

theorem aim_of_pathLimit_le {text : String} (h : pathLimit ≤ text.utf8ByteSize) :
    folder.aim text = .error .nameTooLong := by
  have hempty : text ≠ "" := by
    rintro rfl
    simp [pathLimit] at h
  simp [Folder.aim, hempty, h]

theorem trail_aimed (text last : String) (trail : Trail) :
    (aimed text last trail).trail = if last = ".." then trail.tail else trail := by
  unfold aimed
  by_cases hdot : last = "."
  · simp [hdot]
  · by_cases hdots : last = ".." <;> simp [hdot, hdots]

theorem slashed_aimed (text last : String) (trail : Trail) :
    (aimed text last trail).slashed = (text.toList.getLast? == some '/') := by
  unfold aimed
  split
  · rfl
  · split <;> rfl

/-- The aim of a path is reached on a way of directories. -/
theorem isTrail_of_aim {text : String} {aim : Aim} (h : folder.aim text = .ok aim) : IsTrail folder aim.trail := by
  obtain ⟨-, -, start, hstart, ⟨-, rfl⟩ | ⟨names, last, trail, -, hfollow, rfl⟩⟩ := aim_eq_ok_iff.mp h
  · exact IsTrail.nil.follow hstart
  · have htrail := (IsTrail.nil.follow hstart).follow hfollow
    rw [trail_aimed]
    split
    · exact htrail.tail
    · exact htrail

/-- A path leads to the same place as long as directories stay. -/
theorem aim_keeps (hkeeps : Item.KeepsDirectories folder.root folder'.root) (hhome : folder'.home = folder.home)
    {text : String} {aim : Aim} (h : folder.aim text = .ok aim) :
    ∃ trail, folder'.aim text = .ok ⟨trail, aim.name, aim.slashed⟩ ∧ placeOfTrail trail = placeOfTrail aim.trail := by
  have hstartOf : folder'.startOf text = folder.startOf text := by
    rw [startOf, startOf, hhome]
  obtain ⟨hempty, hsize, start, hstart, hnames⟩ := aim_eq_ok_iff.mp h
  obtain ⟨start', hstart', hplace⟩ := follow_keeps hkeeps .nil .nil rfl hstart
  rcases hnames with ⟨hnil, rfl⟩ | ⟨names, last, trail, hnames, hfollow, rfl⟩
  · refine ⟨start', aim_eq_ok_iff.mpr ⟨hempty, hsize, start', ?_, .inl ⟨hnil, rfl⟩⟩, hplace.symm⟩
    rw [hstartOf]
    exact hstart'
  · obtain ⟨trail', hfollow', hplace'⟩ :=
      follow_keeps hkeeps (IsTrail.nil.follow hstart) (IsTrail.nil.follow hstart') hplace hfollow
    refine ⟨(aimed text last trail').trail, aim_eq_ok_iff.mpr ⟨hempty, hsize, start', ?_, .inr ⟨names, last, trail',
      hnames, hfollow', ?_⟩⟩, ?_⟩
    · rw [hstartOf]
      exact hstart'
    · unfold aimed
      split
      · rfl
      · split <;> rfl
    · rw [trail_aimed, trail_aimed]
      split
      · rw [placeOfTrail_tail, placeOfTrail_tail, hplace']
      · exact hplace'.symm

/-! ## Files in a directory -/

/-- A path leads to a name in the directory at a place, which has the given entries. -/
structure Leads (folder : Folder) (text : String) (place : Place) (name : String) (entries : List (String × Item)) :
    Prop where
  aim : ∃ trail, folder.aim text = .ok ⟨trail, some name, false⟩ ∧ placeOfTrail trail = place
  get? : folder.get? place = some (.directory entries)

/-- The folder with other entries in the directory at a place. -/
def withEntries (folder : Folder) (place : Place) (entries : List (String × Item)) : Folder :=
  folder.put place (.directory entries)

section Entries

variable {text : String} {place : Place} {name : String} {entries entries' : List (String × Item)}

/-- An aim with a name leads to it. -/
theorem leads_of_aim {trail : Trail} (hroot : folder.root.isDirectory = true)
    (h : folder.aim text = .ok ⟨trail, some name, false⟩) :
    ∃ entries, Leads folder text (placeOfTrail trail) name entries ∧ folder.itemOf trail = .directory entries := by
  have htrail := isTrail_of_aim h
  obtain ⟨entries, hentries⟩ := Item.isDirectory_iff.mp (htrail.isDirectory hroot)
  exact ⟨entries, ⟨⟨trail, h, rfl⟩, by rw [htrail.get?, hentries]⟩, hentries⟩

/-- A path that leads to a name has an aim. -/
theorem Leads.exists_trail (h : Leads folder text place name entries) :
    ∃ trail, folder.aim text = .ok ⟨trail, some name, false⟩ ∧ placeOfTrail trail = place
      ∧ folder.itemOf trail = .directory entries := by
  obtain ⟨trail, haim, rfl⟩ := h.aim
  refine ⟨trail, haim, rfl, ?_⟩
  have hget := (isTrail_of_aim haim).get?
  rw [h.get?] at hget
  exact (Option.some.inj hget).symm

theorem isDirectory_withEntries (hroot : folder.root.isDirectory = true) :
    (folder.withEntries place entries).root.isDirectory = true :=
  Item.isDirectory_put hroot fun _ => rfl

theorem get?_withEntries (h : folder.get? place = some (.directory entries)) (entries' : List (String × Item))
    (name : String) : (folder.withEntries place entries').get? (place ++ [name]) = entries'.lookup name := by
  have hplace : (folder.withEntries place entries').get? place = some (.directory entries') :=
    Item.get?_put h _
  rw [get?_concat, hplace]
  rfl

/-- What is put beside other entries is set among them. -/
theorem put_eq_withEntries (h : folder.get? place = some (.directory entries)) (name : String) (item : Item) :
    folder.put (place ++ [name]) item = folder.withEntries place (Item.setEntry name item entries) := by
  unfold withEntries put
  rw [Item.put_append h]
  rfl

/-- A move within a directory changes its entries only. -/
theorem movePlace_eq_withEntries (h : folder.get? place = some (.directory entries)) (item : Item)
    (name target : String) :
    folder.movePlace item (place ++ [name]) (place ++ [target])
      = folder.withEntries place (Item.setEntry target item (entries.filter (·.1 != name))) := by
  have hremove : folder.root.remove (place ++ [name])
      = folder.root.put (.directory (entries.filter (·.1 != name))) place := by
    rw [Item.remove_append h]
    rfl
  have hget : (folder.root.put (.directory (entries.filter (·.1 != name))) place).get? place
      = some (.directory (entries.filter (·.1 != name))) := Item.get?_put h _
  unfold withEntries put movePlace
  rw [hremove, Item.put_append hget, Item.put_put h]
  rfl

/-- A path leads to the same name if only entries change that are no directories. -/
theorem Leads.withEntries (h : Leads folder text place name entries)
    (hkeeps : ∀ other inside, entries.lookup other = some (.directory inside) →
      entries'.lookup other = some (.directory inside)) :
    Leads (folder.withEntries place entries') text place name entries' := by
  obtain ⟨trail, haim, rfl⟩ := h.aim
  obtain ⟨trail', haim', hplace⟩ := @aim_keeps folder (folder.withEntries (placeOfTrail trail) entries')
    (Item.keepsDirectories_put h.get? (Item.keepsDirectories_of_lookup hkeeps)) rfl _ _ haim
  exact ⟨⟨trail', haim', hplace⟩, Item.get?_put h.get? _⟩

theorem onPath_eq {α : Type} (hnull : text.toList.contains '\x00' = false) (step : Except FileFault α) :
    onPath text step =
      match step with
      | .ok a => .ok a
      | .error fault => .error (.refused fault text) := by
  unfold onPath
  rw [hnull]
  exact if_neg Bool.false_ne_true

/-- What is under the name that a path leads to. -/
theorem Leads.find (h : Leads folder text place name entries) (hnull : text.toList.contains '\x00' = false)
    (hsize : name.utf8ByteSize ≤ maxName) :
    folder.find text =
      match entries.lookup name with
      | none => .error (.refused .notFound text)
      | some item => .ok item := by
  obtain ⟨trail, haim, -, hitem⟩ := h.exists_trail
  have hlocate : folder.locate text =
      match entries.lookup name with
      | none => .error .notFound
      | some item => .ok item := by
    rw [locate, haim]
    simp only [bind, Except.bind, entry?_of_le hsize, hitem, Item.child?]
    cases entries.lookup name <;> rfl
  rw [Folder.find, onPath_eq hnull, hlocate]
  cases entries.lookup name <;> rfl

/-- A file is written under the name that a path leads to, unless a directory or a sink is there. -/
theorem Leads.write (h : Leads folder text place name entries) (hnull : text.toList.contains '\x00' = false)
    (hsize : name.utf8ByteSize ≤ maxName) (content : FileContent) :
    folder.write text content =
      match entries.lookup name with
      | some (.directory _) => .error (.refused .isDirectory text)
      | some .sink => .ok folder
      | _ => .ok (folder.withEntries place (Item.setEntry name (.file content) entries)) := by
  obtain ⟨trail, haim, rfl, hitem⟩ := h.exists_trail
  have hentry : folder.entry? trail name = .ok (entries.lookup name) := by
    rw [entry?_of_le hsize, hitem]
    rfl
  have hput := put_eq_withEntries h.get? name (.file content)
  rw [Folder.write, onPath_eq hnull, haim]
  simp only [bind, Except.bind, hentry, Aim.place, Bool.false_eq_true, if_false, pure, Except.pure]
  rw [hput]
  cases entries.lookup name with
  | none => rfl
  | some item => cases item <;> rfl

theorem onPath_eq_ok {α : Type} {step : Except FileFault α} {a : α} (h : onPath text step = .ok a) :
    text.toList.contains '\x00' = false ∧ step = .ok a := by
  unfold onPath at h
  split at h
  · cases h
  · rename_i hnull
    refine ⟨Bool.eq_false_iff.mpr hnull, ?_⟩
    split at h
    · cases h
      rfl
    · cases h

/-- A file is moved to another name in its directory, unless the name is too long or that of a directory. -/
theorem Leads.move {target other : String} {item : Item} (h : Leads folder text place name entries)
    (htarget : Leads folder target place other entries) (hnull : text.toList.contains '\x00' = false)
    (hsize : name.utf8ByteSize ≤ maxName) (hitem : entries.lookup name = some item)
    (hfile : item.isDirectory = false) :
    folder.move text target =
      if maxName < other.utf8ByteSize then .error (.refused .nameTooLong text)
      else
        match entries.lookup other with
        | some (.directory _) => .error (.refused .isDirectory text)
        | _ => .ok (folder.withEntries place (Item.setEntry other item (entries.filter (·.1 != name)))) := by
  obtain ⟨trail, haim, rfl, hentries⟩ := h.exists_trail
  obtain ⟨trail', haim', hplace, hentries'⟩ := htarget.exists_trail
  have hentry : folder.entry? trail name = .ok (some item) := by
    rw [entry?_of_le hsize, hentries, ← hitem]
    rfl
  have hmove := movePlace_eq_withEntries h.get? item name other
  rw [Folder.move, onPath_eq hnull, haim, haim']
  simp only [bind, Except.bind, hentry, Aim.place, hplace, hmove, pure, Except.pure]
  by_cases hlong : maxName < other.utf8ByteSize
  · unfold entry?
    rw [if_pos hlong, if_pos hlong]
  · rw [entry?_of_le (by omega), if_neg hlong, hentries', Item.child?]
    cases item with
    | directory inside => cases hfile
    | file content =>
      cases entries.lookup other with
      | none => rfl
      | some old => cases old <;> rfl
    | sink =>
      cases entries.lookup other with
      | none => rfl
      | some old => cases old <;> rfl

/-- Only names can be moved. -/
theorem exists_aim_of_move {target : String} {moved : Folder} (h : folder.move text target = .ok moved) :
    ∃ trail name slashed, folder.aim text = .ok ⟨trail, some name, slashed⟩ ∧ ∃ aim, folder.aim target = .ok aim := by
  obtain ⟨-, hmove⟩ := onPath_eq_ok h
  cases haim : folder.aim text with
  | error fault =>
    rw [haim] at hmove
    cases hmove
  | ok aim =>
    obtain ⟨trail, name, slashed⟩ := aim
    rw [haim] at hmove
    cases htarget : folder.aim target with
    | error fault =>
      rw [htarget] at hmove
      cases hmove
    | ok aim =>
      rw [htarget] at hmove
      cases name with
      | none => cases hmove
      | some name => exact ⟨trail, name, slashed, rfl, aim, rfl⟩

/-- Whatever is moved to another name in its directory leaves its own name free. -/
theorem Leads.eq_of_move {target other : String} {moved : Folder} (h : Leads folder text place name entries)
    (htarget : Leads folder target place other entries) (hmove : folder.move text target = .ok moved) :
    ∃ item, moved = folder.withEntries place (Item.setEntry other item (entries.filter (·.1 != name))) := by
  obtain ⟨-, hmove⟩ := onPath_eq_ok hmove
  obtain ⟨trail, haim, rfl, -⟩ := h.exists_trail
  obtain ⟨trail', haim', hplace, -⟩ := htarget.exists_trail
  have hput : ∀ item, folder.movePlace item (placeOfTrail trail ++ [name]) (placeOfTrail trail ++ [other])
      = folder.withEntries (placeOfTrail trail) (Item.setEntry other item (entries.filter (·.1 != name))) :=
    fun item => movePlace_eq_withEntries h.get? item name other
  rw [haim, haim'] at hmove
  simp only [bind, Except.bind, Aim.place, hplace, hput, pure, Except.pure] at hmove
  split at hmove
  · cases hmove
  · split at hmove
    · split at hmove
      · cases hmove
      · split at hmove
        · split at hmove
          · cases hmove
            exact ⟨_, rfl⟩
          · cases hmove
        · cases hmove
        · cases hmove
        · cases hmove
          exact ⟨_, rfl⟩
    · cases hmove

/-- What is found at a path: the directory that it has come to, or what is under the name that it leads to. -/
inductive Found (folder : Folder) (text : String) (item : Item) : Prop where
  | here {trail : Trail} {slashed : Bool} (haim : folder.aim text = .ok ⟨trail, none, slashed⟩)
    (hitem : folder.itemOf trail = item)
  | below {trail : Trail} {name : String} {slashed : Bool} (haim : folder.aim text = .ok ⟨trail, some name, slashed⟩)
    (hentry : folder.entry? trail name = .ok (some item)) (hslashed : slashed = true → item.isDirectory = true)

theorem Found.exists_aim {item : Item} (h : Found folder text item) : ∃ aim, folder.aim text = .ok aim := by
  cases h with
  | here haim _ => exact ⟨_, haim⟩
  | below haim _ _ => exact ⟨_, haim⟩

theorem Found.size {item : Item} (h : Found folder text item) : text.utf8ByteSize < pathLimit := by
  obtain ⟨aim, haim⟩ := h.exists_aim
  exact (aim_eq_ok_iff.mp haim).2.1

/-- `Folder.find` gives what is `Found` at a path without null characters. -/
theorem find_eq_ok_iff {item : Item} :
    folder.find text = .ok item ↔ text.toList.contains '\x00' = false ∧ Found folder text item := by
  constructor
  · intro h
    obtain ⟨hnull, hlocate⟩ := onPath_eq_ok h
    refine ⟨hnull, ?_⟩
    unfold locate at hlocate
    cases haim : folder.aim text with
    | error fault =>
      rw [haim] at hlocate
      cases hlocate
    | ok aim =>
      obtain ⟨trail, name, slashed⟩ := aim
      rw [haim] at hlocate
      cases name with
      | none =>
        cases hlocate
        exact .here haim rfl
      | some name =>
        cases hentry : folder.entry? trail name with
        | error fault =>
          simp only [bind, Except.bind, hentry] at hlocate
          cases hlocate
        | ok found =>
          simp only [bind, Except.bind, hentry] at hlocate
          cases found with
          | none => cases hlocate
          | some found =>
            dsimp only at hlocate
            split at hlocate
            · cases hlocate
            · rename_i hslashed
              cases hlocate
              refine .below haim hentry fun hs => ?_
              simpa [hs] using hslashed
  · rintro ⟨hnull, hfound⟩
    rw [Folder.find, onPath_eq hnull, locate]
    cases hfound with
    | here haim hitem =>
      rw [haim, ← hitem]
      rfl
    | @below trail name slashed haim hentry hslashed =>
      -- with a slash at its end a path names directories only
      have hkept : (slashed && !item.isDirectory) = false := by
        cases slashed with
        | false => rfl
        | true => simp [hslashed rfl]
      rw [haim]
      simp only [bind, Except.bind, hentry, hkept, Bool.false_eq_true, if_false]
      rfl

/-- A path that a file is found at leads to it. -/
theorem leads_of_find {item : Item} (hroot : folder.root.isDirectory = true) (h : folder.find text = .ok item)
    (hfile : item.isDirectory = false) :
    text.toList.contains '\x00' = false ∧ ∃ place name entries, Leads folder text place name entries
      ∧ name.utf8ByteSize ≤ maxName ∧ entries.lookup name = some item := by
  obtain ⟨hnull, hfound⟩ := find_eq_ok_iff.mp h
  refine ⟨hnull, ?_⟩
  cases hfound with
  | here haim hitem =>
    -- a directory is no file
    have hdirectory := (isTrail_of_aim haim).isDirectory hroot
    rw [hitem, hfile] at hdirectory
    cases hdirectory
  | @below trail name slashed haim hentry hslashed =>
    have hplain : slashed = false := by
      cases slashed with
      | false => rfl
      | true =>
        rw [hslashed rfl] at hfile
        cases hfile
    subst hplain
    obtain ⟨hsize, hchild⟩ := entry?_eq_ok hentry
    obtain ⟨entries, hleads, hitem⟩ := leads_of_aim hroot haim
    rw [hitem] at hchild
    exact ⟨_, name, entries, hleads, hsize, hchild⟩

/-- A path that a file is written to leads to a place for it. -/
theorem leads_of_write {content : FileContent} (hroot : folder.root.isDirectory = true)
    (h : folder.write text content = .ok folder') :
    text.toList.contains '\x00' = false ∧ ∃ place name entries, Leads folder text place name entries
      ∧ name.utf8ByteSize ≤ maxName := by
  obtain ⟨hnull, hwrite⟩ := onPath_eq_ok h
  refine ⟨hnull, ?_⟩
  cases haim : folder.aim text with
  | error fault =>
    rw [haim] at hwrite
    cases hwrite
  | ok aim =>
    obtain ⟨trail, name, slashed⟩ := aim
    rw [haim] at hwrite
    cases name with
    | none => cases hwrite
    | some name =>
      cases slashed with
      | true => cases hwrite
      | false =>
        obtain ⟨entries, hleads, -⟩ := leads_of_aim hroot haim
        cases hentry : folder.entry? trail name with
        | error fault =>
          simp only [bind, Except.bind, Bool.false_eq_true, if_false, hentry] at hwrite
          cases hwrite
        | ok found => exact ⟨_, name, entries, hleads, (entry?_eq_ok hentry).1⟩

/-- **What is written to a path is found there**, unless the path leads to a sink, which keeps nothing. -/
theorem find_of_write {content : FileContent} (hroot : folder.root.isDirectory = true)
    (h : folder.write text content = .ok folder') :
    folder'.root.isDirectory = true
      ∧ (folder'.find text = .ok (.file content) ∨ folder'.find text = .ok .sink) := by
  obtain ⟨hnull, place, name, entries, hleads, hsize⟩ := leads_of_write hroot h
  rw [hleads.write hnull hsize] at h
  split at h
  · cases h
  · rename_i hsink
    cases h
    refine ⟨hroot, .inr ?_⟩
    rw [hleads.find hnull hsize, hsink]
  · -- the file is a new entry or takes the place of another file, so all directories stay
    rename_i hdirectory _
    cases h
    refine ⟨isDirectory_withEntries hroot, .inl ?_⟩
    have hleads' : Leads (folder.withEntries place (Item.setEntry name (.file content) entries)) text place name
        (Item.setEntry name (.file content) entries) :=
      hleads.withEntries fun _ _ hother => Item.lookup_setEntry_directory hdirectory _ hother
    rw [hleads'.find hnull hsize, Item.lookup_setEntry, if_pos rfl]

end Entries

end Folder

end ProgramArt

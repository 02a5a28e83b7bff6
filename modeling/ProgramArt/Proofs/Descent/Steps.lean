import ProgramArt.Descent.Run
import ProgramArt.Proofs.Piece.Steady

/-!
# The steps of a line of descent

Most of what a line of descent does leaves the record alone: it draws from its source, stores pictures and reports.
`Aside` says so once for each step, together with how the step can fail, so that the record of a whole run can be
followed without looking at the steps again.
-/

namespace ProgramArt

/-- The failures of a program, and not of the settings, the source or the files. -/
def DescentError.isCrash : DescentError → Bool
  | .piece e => e.isCrash
  | _ => false

namespace Descent

/-! ## Frames -/

/-- What every update keeps is kept by frames. -/
theorem frames_keep [Host] {α : Type} {f : Piece → α} {speed : Datum}
    (h : ∀ piece, f (piece.update speed {}).1 = f piece)
    (count : Nat) (piece : Piece) : f (frames speed count piece).1 = f piece := by
  induction count generalizing piece with
  | zero => rfl
  | succ count ih =>
    have hupdate := h piece
    unfold frames
    rcases hstep : piece.update speed {} with ⟨next, fault | e⟩
    · rw [hstep] at hupdate
      exact (ih next).trans hupdate
    · rw [hstep] at hupdate
      exact hupdate

/-- The frames of a generation do not change what a piece is made of. -/
theorem makings_frames [Host] (speed : Datum) (count : Nat) (piece : Piece) :
    (frames speed count piece).1.makings = piece.makings :=
  frames_keep (fun piece => piece.makings_update speed {}) count piece

/-- The frames of a generation leave what a piece is made of. -/
theorem makings_advance [Host] {config : Config} {piece grown : Piece} {outcome : Except DescentError Float}
    (h : advance config piece = (grown, outcome)) : grown.makings = piece.makings := by
  have hframes := fun count => makings_frames (speedOf config piece) count piece.reset
  rw [Piece.makings_reset] at hframes
  unfold advance at h
  split at h
  · cases h
    exact piece.makings_reset
  · rename_i count _
    have hcount := hframes count.toNat
    split at h <;>
      · rename_i hrun
        rw [hrun] at hcount
        cases h
        exact hcount

/-- A piece has the interest of what it shows after the frames of a generation. -/
theorem interest_eq_score [Host] {config : Config} {piece grown : Piece} {interest : Float}
    (h : advance config piece = (grown, .ok interest)) : interest = grown.score := by
  unfold advance at h
  split at h
  · cases h
  · split at h
    · cases h
      rfl
    · cases h

variable {σ α β : Type}

/-- What is reported of a generation whose program is recorded already. -/
def repeatMessage (generation : Nat) : String :=
  s!"🔁 Gen {generation} repeats an earlier program"

/-- The report of a generation whose program is recorded already, with the time. -/
def repeatLine (clock : Clock) (generation : Nat) : String :=
  s!"[{clock.time}] {repeatMessage generation}"

/-- From one state to another nothing is recorded, and no repeated program is reported. -/
structure Aside (d d' : Descent σ) : Prop where
  clock : d'.clock = d.clock
  config : d'.config = d.config
  archive : d'.archive = d.archive
  generation : d'.generation = d.generation
  printed : ∃ lines, d'.printed.toList = d.printed.toList ++ lines
    ∧ ∀ line ∈ lines, ∀ generation, line ≠ repeatLine d.clock generation

theorem Aside.refl (d : Descent σ) : Aside d d :=
  ⟨rfl, rfl, rfl, rfl, [], (List.append_nil _).symm, by simp⟩

theorem Aside.trans {a b c : Descent σ} (hab : Aside a b) (hbc : Aside b c) : Aside a c := by
  obtain ⟨lines, hlines, hother⟩ := hab.printed
  obtain ⟨lines', hlines', hother'⟩ := hbc.printed
  refine ⟨hbc.clock.trans hab.clock, hbc.config.trans hab.config, hbc.archive.trans hab.archive,
    hbc.generation.trans hab.generation, lines ++ lines', ?_, ?_⟩
  · rw [hlines', hlines, List.append_assoc]
  · intro line hline generation
    rcases List.mem_append.mp hline with hline | hline
    · exact hother line hline generation
    · rw [← hab.clock]
      exact hother' line hline generation

/-- Reports with the same time differ in what they tell. -/
theorem report_inj {time message other : String} (h : s!"[{time}] {message}" = s!"[{time}] {other}") :
    message = other := by
  have hchars := congrArg String.toList h
  simp only [String.toList_append, List.append_cancel_left_eq] at hchars
  exact String.toList_inj.mp hchars

/-- A report that starts with another sign than the one for repeated programs. -/
theorem ne_repeatLine {message : String} (h : message.toList.head? ≠ some '🔁') (clock : Clock) (generation : Nat) :
    s!"[{clock.time}] {message}" ≠ repeatLine clock generation := by
  intro heq
  rw [report_inj heq] at h
  simp only [repeatMessage, String.toList_append, List.append_assoc] at h
  exact h rfl

/-- Different generations are reported by different lines. -/
theorem repeatLine_inj {clock : Clock} {g k : Nat} (h : repeatLine clock g = repeatLine clock k) : g = k := by
  have hchars := congrArg String.toList (report_inj h)
  simp only [repeatMessage, String.toList_append, List.append_assoc, List.append_cancel_left_eq,
    List.append_cancel_right_eq] at hchars
  exact Nat.repr_inj.mp (String.toList_inj.mp hchars)

/-! ## Quiet steps -/

/-- From one state to another nothing is recorded or drawn, and no repeated program is reported. -/
structure Quiet (d d' : Descent σ) : Prop extends Aside d d' where
  source : d'.source = d.source

theorem Quiet.refl (d : Descent σ) : Quiet d d :=
  ⟨.refl d, rfl⟩

theorem Quiet.trans {a b c : Descent σ} (hab : Quiet a b) (hbc : Quiet b c) : Quiet a c :=
  ⟨hab.toAside.trans hbc.toAside, hbc.source.trans hab.source⟩

/-- A quiet step: what it tells is as `told` says, and if it fails, that is no crash. -/
def Quietly (m : Descending σ α) (d : Descent σ) (told : α → Prop) : Prop :=
  Ends m d (fun a d' => Quiet d d' ∧ told a) (fun e _ => e.isCrash = false)

section

variable {d : Descent σ} {m : Descending σ α} {f : α → Descending σ β} {told : α → Prop} {told' : β → Prop}
  {done : β → Descent σ → Prop} {failed : DescentError → Descent σ → Prop}

theorem ends_get {f : Descent σ → Descending σ β} (h : Ends (f d) d done failed) : Ends (get >>= f) d done failed :=
  ⟨h.outcome⟩

theorem ends_modify {change : Descent σ → Descent σ} {f : Unit → Descending σ β}
    (h : Ends (f ()) (change d) done failed) : Ends (modify change >>= f) d done failed :=
  ⟨h.outcome⟩

/-- One quiet step after another. -/
theorem Quietly.bind (h : Quietly m d told)
    (hf : ∀ a d', Quiet d d' → told a → Quietly (f a) d' told') : Quietly (m >>= f) d told' := by
  refine Ends.bind h ?_
  rintro a d' ⟨hquiet, ha⟩
  refine (hf a d' hquiet ha).mono_done ?_
  rintro b d'' ⟨hquiet', hb⟩
  exact ⟨hquiet.trans hquiet', hb⟩

theorem quietly_pure {a : α} (h : told a) : Quietly (pure a) d told :=
  ends_pure ⟨.refl d, h⟩

theorem quietly_throw {e : DescentError} (h : e.isCrash = false) : Quietly (throw e) d told :=
  ends_throw h

theorem quietly_get {f : Descent σ → Descending σ β} (h : Quietly (f d) d told') : Quietly (get >>= f) d told' :=
  ends_get h

/-- Reports are quiet, unless one is the `repeatLine` of a generation. -/
theorem quietly_say {lines : List String} (h : ∀ line ∈ lines, ∀ generation, line ≠ repeatLine d.clock generation) :
    Quietly (say lines) d fun _ => True := by
  refine ⟨⟨⟨⟨rfl, rfl, rfl, rfl, lines, ?_, h⟩, rfl⟩, trivial⟩⟩
  exact Array.toList_appendList

/-- A report with another sign than the one for repeated programs. -/
theorem quietly_log {message : String} (h : message.toList.head? ≠ some '🔁') :
    Quietly (log message) d fun _ => True := by
  refine quietly_get (quietly_say ?_)
  intro line hline
  rw [List.mem_singleton.mp hline]
  exact ne_repeatLine h d.clock

/-- A setting that is missing is no crash. -/
theorem quietly_need (value : Option α) : Quietly (need value) d fun a => value = some a := by
  cases value with
  | none => exact quietly_throw rfl
  | some a => exact quietly_pure rfl

theorem quietly_told (datum : Datum) : Quietly (Descent.told datum) d fun _ => True := by
  unfold Descent.told
  split
  · exact quietly_pure trivial
  · exact quietly_throw rfl

/-- Files are no part of the record. -/
theorem quiet_folder (d : Descent σ) (folder : Folder) : Quiet d { d with folder } :=
  ⟨⟨rfl, rfl, rfl, rfl, [], (List.append_nil _).symm, by simp⟩, rfl⟩

end

/-! ## Pictures -/

section

variable {d : Descent σ}

theorem snapshot_harmless [Host] (config : Config) (piece : Piece) :
    FailsOnly (fun e => e.isCrash = false) (snapshot config piece) := by
  have hmapped : ∀ {γ : Type} {outcome : Except PieceError γ},
      FailsOnly (fun e => e.isCrash = false) outcome →
        FailsOnly (fun e => e.isCrash = false) (outcome.mapError DescentError.piece) := by
    intro γ outcome h
    cases outcome with
    | ok a => exact failsOnly_ok a
    | error e => exact failsOnly_error (h e rfl)
  exact (hmapped (imageSize_harmless _ _ _)).bind fun size => hmapped (piece.draw_harmless size.1 size.2)

theorem quietly_makeDirectories [Host] (path : String) : Quietly (makeDirectories path) d fun _ => True := by
  unfold makeDirectories
  refine quietly_get ?_
  rcases d.folder.ensureText path with ⟨folder, fault | e⟩
  · exact ⟨⟨quiet_folder d folder, trivial⟩⟩
  · exact ⟨(rfl : DescentError.isCrash (.file e) = false)⟩

/-- Pictures are stored without touching the record. -/
theorem quietly_storePicture (path : String) (picture : Picture) :
    Quietly (storePicture path picture) d fun _ => True := by
  unfold storePicture
  refine quietly_get ?_
  cases d.folder.write path (.picture picture) with
  | ok folder => exact ⟨⟨quiet_folder d folder, trivial⟩⟩
  | error e => exact quietly_throw rfl

/-- The paths of the pictures of generations: one for each if the settings name a directory, or none. -/
def FramesOf (config : Config) (generations : List Nat) (frames : List String) : Prop :=
  if config.isSet .outputDir then
    ∃ directory, config.value .outputDir = .str directory
      ∧ frames = generations.map fun generation => joinPath directory (frameName generation)
  else frames = []

theorem FramesOf.append {config : Config} {first second : List Nat} {frames frames' : List String}
    (h : FramesOf config first frames) (h' : FramesOf config second frames') :
    FramesOf config (first ++ second) (frames ++ frames') := by
  unfold FramesOf at h h' ⊢
  split
  · rename_i hset
    rw [if_pos hset] at h h'
    obtain ⟨directory, hdirectory, rfl⟩ := h
    obtain ⟨directory', hdirectory', rfl⟩ := h'
    rw [hdirectory] at hdirectory'
    cases hdirectory'
    exact ⟨directory, hdirectory, List.map_append.symm⟩
  · rename_i hset
    rw [if_neg hset] at h h'
    rw [h, h']
    rfl

/-- The directory of the pictures: the text that the settings give, if they give one. -/
def DirectoryOf (config : Config) (directory? : Option String) : Prop :=
  if config.isSet .outputDir then
    ∃ directory, config.value .outputDir = .str directory ∧ directory? = some directory
  else directory? = none

/-- The directory for pictures is the one that the settings name. -/
theorem quietly_frameDirectory [Host] :
    Quietly (frameDirectory : Descending σ (Option String)) d (DirectoryOf d.config) := by
  unfold frameDirectory
  refine quietly_get ?_
  dsimp only
  by_cases hset : d.config.isSet .outputDir = true
  · rw [if_pos hset]
    cases hvalue : d.config.value .outputDir with
    | str directory =>
      refine (quietly_makeDirectories directory).bind ?_
      intro _ d' _ _
      refine quietly_pure ?_
      unfold DirectoryOf
      rw [if_pos hset]
      exact ⟨directory, hvalue, rfl⟩
    | bytes octets =>
      -- the directory is made, and then the name of the picture fails
      dsimp only
      generalize String.ofList _ = directory
      refine (quietly_makeDirectories directory).bind ?_
      intro _ d' _ _
      exact quietly_throw rfl
    | rawText codes => exact quietly_throw rfl
    | _ => exact quietly_throw (e := .wrongType) rfl
  · rw [if_neg hset]
    refine quietly_pure ?_
    unfold DirectoryOf
    rw [if_neg hset]

/-- **A picture is stored beside the record**, under the name of the generation. -/
theorem quietly_saveFrame [Host] (piece : Piece) :
    Quietly (saveFrame piece) d fun frame => FramesOf d.config [d.generation] frame.toList := by
  unfold saveFrame
  refine quietly_frameDirectory.bind ?_
  intro directory? d' hquiet hdirectory
  unfold DirectoryOf at hdirectory
  by_cases hset : d.config.isSet .outputDir = true
  · rw [if_pos hset] at hdirectory
    obtain ⟨directory, hvalue, rfl⟩ := hdirectory
    -- the directory was made before the picture is drawn, and that left the generation alone
    refine quietly_get ?_
    cases hsnapshot : snapshot d'.config piece with
    | error e => exact quietly_throw (snapshot_harmless d'.config piece e hsnapshot)
    | ok picture =>
      refine quietly_get ?_
      dsimp only
      refine (quietly_storePicture _ picture).bind ?_
      intro _ d'' _ _
      refine quietly_pure ?_
      unfold FramesOf
      rw [if_pos hset, hquiet.generation]
      exact ⟨directory, hvalue, rfl⟩
  · rw [if_neg hset] at hdirectory
    subst hdirectory
    refine quietly_pure ?_
    unfold FramesOf
    rw [if_neg hset]
    rfl

end

/-! ## The beginning and the end of a run -/

section

variable {d : Descent σ}

theorem quietly_announce : Quietly (announce : Descending σ Unit) d fun _ => True := by
  unfold announce
  refine quietly_get ?_
  dsimp only
  refine (quietly_told _).bind ?_
  intro kind d₁ _ _
  refine (quietly_told _).bind ?_
  intro count d₂ _ _
  refine (quietly_log ?_).bind ?_
  · simp only [String.toList_append, List.append_assoc]
    exact show some '🧬' ≠ some '🔁' by decide
  intro _ d₃ _ _
  refine (quietly_told _).bind ?_
  intro length d₄ _ _
  refine (quietly_need _).bind ?_
  intro chance d₅ _ _
  refine (quietly_told _).bind ?_
  intro seed d₆ _ _
  refine quietly_log ?_
  simp only [String.toList_append, List.append_assoc]
  exact show some 'P' ≠ some '🔁' by decide

/-- The report of a saved lineage shows no time. -/
theorem save_ne_repeatLine [Host] {now : String} {folder folder' : Folder} {archive : Archive} {lines : List String}
    (h : archive.save now folder = (folder', .ok lines)) (clock : Clock) :
    ∀ line ∈ lines, ∀ generation, line ≠ repeatLine clock generation := by
  intro line hline generation heq
  unfold Archive.save at h
  split at h
  · cases h
    cases hline
  · split at h
    · cases h
    · cases h
      rw [List.mem_singleton.mp hline] at heq
      -- the first characters differ
      have hchars := congrArg (List.head? ∘ String.toList) heq
      simp only [repeatLine, Function.comp_apply, String.toList_append, List.append_assoc] at hchars
      exact absurd (show some '💾' = some '[' from hchars) (by decide)

/-- Saving writes the file of the archive and leaves the archive alone. -/
theorem quietly_saveArchive [Host] : Quietly (saveArchive : Descending σ Unit) d fun _ => True := by
  unfold saveArchive
  refine quietly_get ?_
  rcases hsave : d.archive.save d.clock.timestamp d.folder with ⟨folder, e | lines⟩
  · exact ⟨(rfl : DescentError.isCrash (.archive e) = false)⟩
  · have hsay : Quietly (say lines) { d with folder } fun _ => True :=
      quietly_say (save_ne_repeatLine hsave d.clock)
    have hboth : Ends (say lines) { d with folder } (fun _ d' => Quiet d d' ∧ True) (fun e _ => e.isCrash = false) := by
      refine hsay.mono_done ?_
      rintro _ d' ⟨hquiet, _⟩
      exact ⟨(quiet_folder d folder).trans hquiet, trivial⟩
    exact ⟨hboth.outcome⟩

end

/-! ## Pieces -/

section

variable {d : Descent σ}

/-- A step of a piece takes its draws from the source of the line. -/
theorem ends_drawing {step : Piece.Drawing σ α} {done : α → Prop} {failed : PieceError → Prop}
    (h : Ends step d.source (fun a _ => done a) (fun e _ => failed e)) :
    Ends (drawing step) d (fun a d' => Aside d d' ∧ done a) (fun e _ => ∃ cause, e = .piece cause ∧ failed cause) := by
  constructor
  unfold drawing
  rcases hstep : step d.source with ⟨e | a, source⟩
  · exact ⟨e, rfl, h.of_error hstep⟩
  · exact ⟨⟨rfl, rfl, rfl, rfl, [], (List.append_nil _).symm, by simp⟩, h.of_ok hstep⟩

/-- A generation is computed from the piece and the settings alone. -/
theorem ends_advanced [Host] (piece : Piece) :
    Ends (advanced piece) d
      (fun grown d' => d' = d ∧ advance d.config piece = (grown.1, .ok grown.2))
      (fun e _ => ∃ grown, advance d.config piece = (grown, .error e)) := by
  unfold advanced
  refine ends_get ?_
  rcases advance d.config piece with ⟨grown, e | interest⟩
  · exact ends_throw ⟨grown, rfl⟩
  · exact ends_pure ⟨rfl, rfl⟩

theorem quietly_isInteresting (config : Config) (interest : Float) :
    Quietly (isInteresting config interest) d fun _ => True :=
  (quietly_need _).mono_done fun _ _ h => ⟨h.1, trivial⟩

end

end Descent

end ProgramArt

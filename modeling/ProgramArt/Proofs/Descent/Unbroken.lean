import ProgramArt.Host.Standard
import ProgramArt.Proofs.Descent.Line
import ProgramArt.Proofs.Lineage.Ranking
import ProgramArt.Proofs.Piece.Score

/-!
# One unbroken line of descent

A run adds one entry for each generation to the lineage, each with the one before it for a parent. Two runs that draw
from the same source under settings that agree but for the files they name (`Config.AgreesWith`) add the same
programs, whatever was recorded before: side by side they stay `Alike` (`coupled_run`).
-/

namespace ProgramArt

/-- What an entry tells of its program: the code, the interest and the parent. -/
def Entry.traits (e : Entry) : Datum × Datum × Datum :=
  (e.code, e.interest, e.parent)

/-- Two configurations that agree but for the files they name. -/
def Config.AgreesWith (config other : Config) : Prop :=
  ∀ s, s ≠ .lineagePath → s ≠ .outputDir → config.value s = other.value s

section

variable {config other : Config} {s : Setting}

theorem Config.AgreesWith.whole? (h : config.AgreesWith other) (hline : s ≠ .lineagePath)
    (hdirectory : s ≠ .outputDir) :
    config.whole? s = other.whole? s := by
  unfold Config.whole?
  rw [h s hline hdirectory]

theorem Config.AgreesWith.isSet (h : config.AgreesWith other) (hline : s ≠ .lineagePath) (hdirectory : s ≠ .outputDir) :
    config.isSet s = other.isSet s := by
  unfold Config.isSet
  rw [h s hline hdirectory]

theorem Config.AgreesWith.kind? (h : config.AgreesWith other) : config.kind? = other.kind? := by
  unfold Config.kind?
  rw [h .kind (by decide) (by decide)]

theorem Config.AgreesWith.pieceOptions (h : config.AgreesWith other) (kind : Kind) :
    config.pieceOptions kind = other.pieceOptions kind := by
  cases kind with
  | tape =>
    unfold Config.pieceOptions
    rw [h .inputText (by decide) (by decide), h .pixelSize (by decide) (by decide)]
  | beat =>
    unfold Config.pieceOptions
    rw [h .width (by decide) (by decide), h .height (by decide) (by decide)]

/-- A generation is the same under settings that agree. -/
theorem Config.AgreesWith.advance [Host] (h : config.AgreesWith other) (piece : Piece) :
    Descent.advance config piece = Descent.advance other piece := by
  have hspeed : Descent.speedOf config piece = Descent.speedOf other piece := by
    cases piece with
    | tape piece => exact h .stepLimit (by decide) (by decide)
    | beat piece => exact h .speed (by decide) (by decide)
  unfold Descent.advance
  rw [h.whole? (by decide) (by decide), hspeed]

end

namespace Descent

variable {σ : Type}

/-! ## Any line -/

/-- Nothing has to be passed on for the interests to be scores. -/
theorem passesOn_score [Host] (σ : Type) [Draw.Source σ] (config : Config) :
    PassesOn σ config (fun _ => True) (fun piece interest => interest = piece.score) (fun _ => True) where
  harmless _ _ := trivial
  mutate _ _ _ := ⟨by split <;> trivial⟩
  advance _ h := interest_eq_score h
  fails _ _ := trivial

/-- The first piece leaves the record alone. -/
theorem ends_startPiece [Host] [Draw.Source σ] (start : Option Piece) (d : Descent σ) :
    Ends (startPiece start) d (fun _ d' => Aside d d' ∧ True) (fun _ _ => True) := by
  cases start with
  | some piece => exact ends_pure ⟨.refl d, trivial⟩
  | none =>
    refine ends_initialPiece (fun _ _ => trivial) (fun _ _ _ _ _ => ⟨fun _ _ => trivial, fun _ _ => trivial⟩) ?_
    intro _ kind _
    exact ⟨by split <;> trivial⟩

/-! ## Two runs side by side -/

/-- Two lines of descent that draw from the same source under configurations that agree, and have added entries
with the same traits to the ones that they had. -/
structure Alike (old old' : List Entry) (d other : Descent σ) : Prop where
  source : d.source = other.source
  config : d.config.AgreesWith other.config
  entries : ∃ new new', d.archive.lineage.entries = old ++ new ∧ other.archive.lineage.entries = old' ++ new'
    ∧ new.map Entry.traits = new'.map Entry.traits

section

variable {old old' : List Entry} {α β : Type}

/-- Quiet steps keep two lines `Alike`. -/
theorem Alike.quiet {d other d' other' : Descent σ} (h : Alike old old' d other) (hd : Quiet d d')
    (hother : Quiet other other') : Alike old old' d' other' := by
  refine ⟨?_, ?_, ?_⟩
  · rw [hd.source, hother.source]
    exact h.source
  · rw [hd.config, hother.config]
    exact h.config
  · rw [hd.archive, hother.archive]
    exact h.entries

/-- Two quiet steps, side by side. -/
theorem coupled_quietly {m n : Descending σ α} {told told' : Descent σ → α → Prop}
    (hm : ∀ d, Quietly m d (told d)) (hn : ∀ d, Quietly n d (told' d)) :
    Coupled (Alike old old') (fun _ _ => True) m n := by
  constructor
  intro d other a b d' other' halike ha hb
  exact ⟨trivial, halike.quiet ((hm d).of_ok ha).1 ((hn other).of_ok hb).1⟩

theorem coupled_need (value : Option α) :
    Coupled (Alike old old') Eq (need value : Descending σ α) (need value) := by
  cases value with
  | none => exact coupled_throw
  | some a => exact coupled_pure rfl

/-- A step that draws gives the same to lines that are `Alike`. -/
theorem coupled_drawing (step : Piece.Drawing σ α) : Coupled (Alike old old') Eq (drawing step) (drawing step) := by
  constructor
  intro d other a b d' other' halike ha hb
  unfold drawing at ha hb
  -- both runs draw from the same source
  rw [← halike.source] at hb
  rcases hstep : step d.source with ⟨e | drawn, source⟩
  · rw [hstep] at ha
    cases ha
  · rw [hstep] at ha hb
    cases ha
    cases hb
    exact ⟨rfl, rfl, halike.config, halike.entries⟩

theorem coupled_advanced [Host] (piece : Piece) :
    Coupled (Alike old old') Eq (advanced piece : Descending σ _) (advanced piece) := by
  constructor
  intro d other a b d' other' halike ha hb
  obtain ⟨rfl, hadvance⟩ := (ends_advanced piece).of_ok ha
  obtain ⟨rfl, hadvance'⟩ := (ends_advanced piece).of_ok hb
  -- the frames of a generation read no setting of a file
  rw [← halike.config.advance, hadvance] at hadvance'
  refine ⟨?_, halike⟩
  injection hadvance' with hpiece hinterest
  injection hinterest with hinterest
  exact Prod.ext hpiece hinterest

variable [Draw.Source σ]

/-- One mutation leads to the same child in both runs. -/
theorem coupled_trying [Host] {config other : Config} (hagrees : config.AgreesWith other) (chance : Float)
    (parent : Piece) (attempt : Nat) {rest rest' : Piece × Float → Descending σ (Piece × Float)}
    (hrest : ∀ grown, Coupled (Alike old old') Eq (rest grown) (rest' grown)) :
    Coupled (Alike old old') Eq (trying config chance parent attempt rest)
      (trying other chance parent attempt rest') := by
  unfold trying
  refine (coupled_drawing _).bind ?_
  rintro child _ rfl
  refine (coupled_advanced child).bind ?_
  rintro grown _ rfl
  unfold isInteresting
  rw [hagrees .minInterest (by decide) (by decide)]
  refine (coupled_need _).bind ?_
  rintro interesting _ rfl
  cases interesting with
  | true => exact coupled_pure rfl
  | false =>
    refine (coupled_quietly (fun _ => quietly_logDull attempt grown.2) fun _ => quietly_logDull attempt grown.2).bind ?_
    intro _ _ _
    exact hrest grown

/-- The same child is taken in both runs. Induction on the mutations that are left. -/
theorem coupled_spawnFrom [Host] {config other : Config} (hagrees : config.AgreesWith other) (chance : Float)
    (parent : Piece) (attempt retries : Nat) :
    Coupled (Alike old old') Eq (spawnFrom config chance parent attempt retries : Descending σ _)
      (spawnFrom other chance parent attempt retries) := by
  induction retries generalizing attempt with
  | zero =>
    rw [spawnFrom_zero, spawnFrom_zero]
    exact coupled_trying hagrees chance parent attempt fun grown => coupled_pure rfl
  | succ retries ih =>
    rw [spawnFrom_succ, spawnFrom_succ]
    exact coupled_trying hagrees chance parent attempt fun grown => ih (attempt + 1)

/-- The next piece is the same. -/
theorem coupled_spawn [Host] (parent : Piece) :
    Coupled (Alike old old') Eq (spawn parent : Descending σ _) (spawn parent) := by
  unfold spawn
  refine coupled_get.bind ?_
  intro d other halike
  dsimp only
  rw [halike.config.whole? (by decide) (by decide), halike.config .mutationChance (by decide) (by decide)]
  refine (coupled_need _).bind ?_
  rintro retries _ rfl
  refine (coupled_need _).bind ?_
  rintro chance _ rfl
  exact coupled_spawnFrom halike.config chance parent 1 retries.toNat

omit [Draw.Source σ] in
/-- Both runs add an entry with the same traits. -/
theorem coupled_record [Host] (generation : Nat) (piece : Piece) (interest : Float) (parent : Option Text.Codes) :
    Coupled (Alike old old') (fun _ _ => True) (record generation piece interest parent : Descending σ Unit)
      (record generation piece interest parent) := by
  constructor
  intro d other _ _ d' other' halike hd hother
  obtain ⟨hrecorded, hsource⟩ := (ends_record generation piece interest parent).of_ok hd
  obtain ⟨hrecorded', hsource'⟩ := (ends_record generation piece interest parent).of_ok hother
  obtain ⟨new, new', hnew, hnew', htraits⟩ := halike.entries
  refine ⟨trivial, ?_, ?_, new ++ entriesOf d.clock d.config generation parent [(piece, interest)],
    new' ++ entriesOf other.clock other.config generation parent [(piece, interest)], ?_, ?_, ?_⟩
  · rw [hsource, hsource']
    exact halike.source
  · rw [hrecorded.config, hrecorded'.config]
    exact halike.config
  · rw [hrecorded.entries, hnew, List.append_assoc]
  · rw [hrecorded'.entries, hnew', List.append_assoc]
  · rw [List.map_append, List.map_append, htraits]
    rfl

/-- **Two lines record the same generations.** -/
theorem coupled_generations [Host] (generation : Nat) (piece : Piece) (interest : Float) (parent : Option Text.Codes)
    (rest : Nat) :
    Coupled (Alike old old') (fun _ _ => True) (generations generation piece interest parent rest : Descending σ _)
      (generations generation piece interest parent rest) := by
  have hframe : ∀ piece, Coupled (Alike old old') (fun _ _ => True) (saveFrame piece : Descending σ _)
    (saveFrame piece) :=
    fun piece => coupled_quietly (fun _ => quietly_saveFrame piece) (fun _ => quietly_saveFrame piece)
  induction rest generalizing generation piece interest parent with
  | zero =>
    unfold generations
    refine (coupled_record generation piece interest parent).bind fun _ _ _ => ?_
    exact (hframe piece).bind fun _ _ _ => coupled_pure trivial
  | succ rest ih =>
    unfold generations
    refine (coupled_record generation piece interest parent).bind fun _ _ _ => ?_
    refine (hframe piece).bind fun _ _ _ => ?_
    refine (coupled_spawn piece).bind ?_
    rintro grown _ rfl
    exact (ih (generation + 1) grown.1 grown.2 (some piece.code)).bind fun _ _ _ => coupled_pure trivial

theorem coupled_startPiece [Host] (start : Option Piece) :
    Coupled (Alike old old') Eq (startPiece start : Descending σ Piece) (startPiece start) := by
  cases start with
  | some piece => exact coupled_pure rfl
  | none =>
    unfold startPiece initialPiece
    refine coupled_get.bind ?_
    intro d other halike
    dsimp only
    rw [halike.config.kind?, halike.config.isSet (s := .program) (by decide) (by decide),
      halike.config.isSet (s := .includeIo) (by decide) (by decide),
      halike.config .program (by decide) (by decide), halike.config .programLength (by decide) (by decide)]
    refine (coupled_need _).bind ?_
    rintro kind _ rfl
    rw [halike.config.pieceOptions]
    split
    · have htext : ∀ (setting : Except DescentError Text.Codes),
          Coupled (Alike old old') Eq (fromSetting setting : Descending σ Text.Codes) (fromSetting setting) := by
        intro setting
        cases setting with
        | error e => exact coupled_throw
        | ok text => exact coupled_pure rfl
      refine (htext _).bind ?_
      rintro text _ rfl
      cases Piece.ofText kind text (other.config.pieceOptions kind) with
      | error e => exact coupled_throw
      | ok piece => exact coupled_pure rfl
    · exact coupled_drawing _

/-- **Both runs add entries with the same traits.** -/
theorem coupled_run [Host] (start : Option Piece) :
    Coupled (Alike old old') (fun _ _ => True) (run start : Descending σ Results) (run start) := by
  unfold run
  rw [runGenerations_eq]
  refine (coupled_quietly (fun _ => quietly_announce) (fun _ => quietly_announce)).bind fun _ _ _ => ?_
  refine (coupled_startPiece start).bind ?_
  rintro piece _ rfl
  unfold runGenerations
  have hfound : Coupled (Alike old old') Eq (pure piece : Descending σ Piece) (pure piece) := coupled_pure rfl
  refine hfound.bind ?_
  rintro piece _ rfl
  refine (coupled_advanced piece).bind ?_
  rintro grown _ rfl
  refine coupled_get.bind ?_
  intro d other halike
  dsimp only
  rw [halike.config.whole? (by decide) (by decide)]
  refine (coupled_need _).bind ?_
  rintro count _ rfl
  refine (coupled_generations 0 grown.1 grown.2 none count.toNat).bind fun told told' _ => ?_
  refine coupled_get.bind fun d' other' _ => ?_
  -- what comes after the generations adds no entries in either run
  refine (coupled_quietly (fun _ => quietly_logCompleted _) (fun _ => quietly_logCompleted _)).bind fun _ _ _ => ?_
  refine (coupled_quietly (fun _ => quietly_saveArchive) (fun _ => quietly_saveArchive)).bind fun _ _ _ => ?_
  refine coupled_get.bind fun d' other' _ => ?_
  refine (coupled_quietly (fun _ => quietly_need _) (fun _ => quietly_need _)).bind fun _ _ _ => ?_
  exact coupled_pure trivial

end

/-! ## The record of a run -/

/-- Whether the entry at a place repeats a program is told by the entries before it. -/
theorem repeats_iff_of_split {old new before after : List Entry} {e : Entry} (h : new = before ++ e :: after) :
    Repeats old 0 new before.length ↔ (old ++ before).any (fun other => other.code.same e.code) = true := by
  constructor
  · rintro ⟨before', e', after', hsplit, hlength, hany⟩
    rw [Nat.zero_add] at hlength
    obtain ⟨rfl, hrest⟩ := List.append_inj (h.symm.trans hsplit) hlength
    cases hrest
    exact hany
  · intro hany
    exact ⟨before, e, after, h, (Nat.zero_add _).symm, hany⟩

/-- The interests of a recorded line can be ranked, and the best entry of the whole record is told. -/
theorem Completed.exists_best [Host] {d d' : Descent σ} {line : List (Piece × Float)} {results : Results}
    (h : Completed d line results d') (hline : ∀ grown ∈ line, grown.2 = grown.1.score)
    (hranked : ∀ e ∈ d.archive.lineage.entries, e.interest.magnitude?.isSome = true) :
    ∃ (before : List Entry) (best : Entry) (after : List Entry), d'.archive.lineage.entries = before ++ best :: after
      ∧ results.bestCode = best.code ∧ results.bestInterest = best.interest
      ∧ (∀ e ∈ before, e.interest.less? best.interest = some true)
      ∧ ∀ e ∈ after, best.interest.less? e.interest = some false := by
  have hentries := h.recorded.entries
  obtain ⟨count, _, hlength⟩ := h.count
  have hne : d'.archive.lineage.entries ≠ [] := by
    intro hempty
    have hsize := congrArg List.length (hentries.symm.trans hempty)
    rw [List.length_append, length_entriesOf, hlength] at hsize
    cases hsize
  have hall : ∀ e ∈ d'.archive.lineage.entries, e.interest.magnitude?.isSome = true := by
    intro e he
    rw [hentries] at he
    rcases List.mem_append.mp he with he | he
    · exact hranked e he
    · obtain ⟨grown, hgrown, _, hinterest⟩ := exists_of_mem_entriesOf he
      rw [hinterest, hline grown hgrown]
      exact isSome_magnitude? grown.1.isNaN_score
  -- the best entry is unique as the earliest one, so it is the one that the results tell of
  obtain ⟨best, before, after, hbest, hsplit, hbefore, hafter⟩ := Lineage.exists_best hne hall
  obtain ⟨told, htold, hcode, hinterest⟩ := h.best
  rw [hbest] at htold
  cases htold
  exact ⟨before, best, after, hsplit, hcode, hinterest, hbefore, hafter⟩

/-- **A run records one unbroken line of descent.** The lineage keeps its entries and gets one for each generation,
each with the one before it for a parent; the results tell of the last one and of the earliest of the best; a
repeated program is reported exactly where there is one; there is a picture for each generation, or none. What is
recorded of the programs depends neither on the entries that were there nor on the files that are named. -/
theorem run_unbroken_line [Host] [Draw.Source σ] {start : Option Piece} {d d' : Descent σ} {results : Results}
    {count : Nat} (hcount : d.config.whole? .generations = some (count : Int))
    (hranked : ∀ e ∈ d.archive.lineage.entries, e.interest.magnitude?.isSome = true)
    (hrun : run start d = (.ok results, d')) :
    ∃ (new : List Entry) (lines : List String), d'.archive.lineage.entries = d.archive.lineage.entries ++ new
      ∧ d'.printed.toList = d.printed.toList ++ lines
      ∧ new.length = count + 1
      ∧ (∀ (before : List Entry) (e : Entry) (after : List Entry), new = before ++ e :: after →
        e.generation = .int before.length ∧ e.kind = d.config.value .kind
          ∧ e.parent = (before.getLast?.map Entry.code).getD .null
          ∧ (repeatLine d.clock before.length ∈ lines
            ↔ (d.archive.lineage.entries ++ before).any (fun other => other.code.same e.code) = true))
      ∧ new.getLast?.map Entry.code = some (.ofCodes results.finalCode)
      ∧ results.generations = count
      ∧ (∃ (before : List Entry) (best : Entry) (after : List Entry),
        d'.archive.lineage.entries = before ++ best :: after
        ∧ results.bestCode = best.code ∧ results.bestInterest = best.interest
        ∧ (∀ e ∈ before, e.interest.less? best.interest = some true)
        ∧ ∀ e ∈ after, best.interest.less? e.interest = some false)
      ∧ (if d.config.isSet .outputDir then
          ∃ directory, d.config.value .outputDir = .str directory
            ∧ results.frames = (List.range (count + 1)).map fun generation => joinPath directory (frameName generation)
        else results.frames = [])
      ∧ ∀ (other other' : Descent σ) (results' : Results), d.source = other.source → d.config.AgreesWith other.config →
        run start other = (.ok results', other') →
        ∃ new' : List Entry, other'.archive.lineage.entries = other.archive.lineage.entries ++ new'
          ∧ new.map Entry.traits = new'.map Entry.traits := by
  obtain ⟨line, hmembers, hcompleted⟩ :=
    ((passesOn_score σ d.config).ends_run rfl fun d' _ => ends_startPiece start d').of_ok hrun
  have hrecorded := hcompleted.recorded
  obtain ⟨lines, hlines, hrepeats⟩ := hrecorded.printed
  have hlength : line.length = count + 1 := by
    obtain ⟨told, htold, hlength⟩ := hcompleted.count
    rw [hcount] at htold
    cases htold
    exact hlength
  refine ⟨entriesOf d.clock d.config 0 none line, lines, hrecorded.entries, hlines, ?_, ?_, ?_, ?_, ?_, ?_, ?_⟩
  · rw [length_entriesOf, hlength]
  · intro before e after hsplit
    obtain ⟨hgeneration, hkind, hparent⟩ := entriesOf_split hsplit
    rw [Nat.zero_add] at hgeneration
    exact ⟨hgeneration, hkind, hparent, (hrepeats before.length).trans (repeats_iff_of_split hsplit)⟩
  · have hlast := congrArg (Option.map Datum.ofCodes) hcompleted.last
    rw [Option.map_map] at hlast
    rw [getLast?_entriesOf]
    exact hlast
  · have hgeneration := hrecorded.generation
    rw [hcompleted.generations]
    omega
  · exact hcompleted.exists_best hmembers hranked
  · have hframes := hcompleted.frames
    rw [hlength, ← List.range_eq_range'] at hframes
    exact hframes
  · intro other other' results' hsource hagrees hrun'
    -- at the start neither run has added anything to its own entries
    have halike : Alike d.archive.lineage.entries other.archive.lineage.entries d other :=
      ⟨hsource, hagrees, [], [], (List.append_nil _).symm, (List.append_nil _).symm, rfl⟩
    obtain ⟨_, _, _, new, new', hnew, hnew', htraits⟩ := (coupled_run start).both halike hrun hrun'
    rw [hrecorded.entries, List.append_cancel_left_eq] at hnew
    rw [hnew]
    exact ⟨new', hnew', htraits⟩

/-- A line whose second program was recorded before it started, and whose third one returns to the first. -/
def returningLine : Descent Draw.Script where
  clock := { timestamp := "2025-01-01T00:00:00", time := "00:00:00" }
  config :=
    ⟨fun
      | .kind => .str "brainfuck"
      | .program => .str "+"
      | .mutationChance => .float 1.0
      | .generations => .int 2
      | s => s.initial⟩
  source := { rest := [0, 1, 0, 0] }
  archive := { lineage := ⟨[.make "" (.str "-") (.str "brainfuck") (.int 7) (.int 1) .null .null]⟩ }
  folder := { home := [], root := .directory [] }

open scoped Host in
theorem run_unbroken_line_returning :
    returningLine.config.whole? .generations = some (2 : Nat)
      ∧ (∀ e ∈ returningLine.archive.lineage.entries, e.interest.magnitude?.isSome = true)
      ∧ ∃ results d', run none returningLine = (.ok results, d')
        ∧ results.generations = 2 ∧ results.frames = []
        ∧ ∃ new, d'.archive.lineage.entries = returningLine.archive.lineage.entries ++ new ∧ new.length = 3 := by
  have hcount : returningLine.config.whole? .generations = some (2 : Nat) := rfl
  have hranked : ∀ e ∈ returningLine.archive.lineage.entries, e.interest.magnitude?.isSome = true := by
    intro e he
    rw [List.mem_singleton.mp he]
    rfl
  have hcompletes : (match run none returningLine with
      | (.ok _, _) => true
      | _ => false) = true := by decide +kernel
  refine ⟨hcount, hranked, ?_⟩
  rcases hrun : run none returningLine with ⟨e | results, d'⟩
  · rw [hrun] at hcompletes
    cases hcompletes
  · obtain ⟨new, _, hentries, _, hlength, _, _, hgenerations, _, hframes, _⟩ := run_unbroken_line hcount hranked hrun
    exact ⟨results, d', rfl, hgenerations, hframes, new, hentries, hlength⟩

end Descent

end ProgramArt

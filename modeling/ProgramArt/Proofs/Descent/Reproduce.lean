import ProgramArt.Host.Standard
import ProgramArt.Proofs.Descent.Line
import ProgramArt.Proofs.Piece.FromText

/-!
# Generations from their texts

A record keeps the text of a program and its interest. The piece that a run had at a generation has been through
frames, and it has come from a parent; neither matters for its text to give the interest again. What passes on along a
line is that a piece is `Original`.
-/

namespace ProgramArt

open Beat

/-- The text of a formula that a datum gives is of code points, if it is so where it is given by them. -/
theorem Config.areCodes_beatText {datum : Datum} {text : Text.Codes} (h : beatText datum = .ok text)
    (hraw : ∀ codes, datum = .rawText codes → Text.AreCodes codes) : Text.AreCodes text := by
  unfold beatText at h
  split at h
  · cases h
    exact Text.areCodes_codesOf _
  · cases h
    exact hraw text rfl
  · split at h
    · cases h
      exact List.forall_mem_nil _
    · cases h
  · cases h

/-- Where the settings give a formula, its text is of code points and no literal is beyond the doubles. -/
structure Config.StartsFinite (config : Config) : Prop where
  codes : ∀ codes, config.value .program = .rawText codes → Text.AreCodes codes
  finite : ∀ text cmds, config.kind? = some .beat → config.isSet .program = true →
    beatText (config.value .program) = .ok text → parse text = .ok cmds → ∀ cmd ∈ cmds, cmd.isInfinite = false

namespace Descent

variable {σ : Type} [Draw.Source σ] [Draw.LawfulSource σ]

/-! ## Along a line -/

/-- The children of a piece that is read from its own text are read from theirs. -/
theorem ends_mutate_fromText [Host] {config : Config} {kind : Kind} {piece : Piece} (h : piece.FromText config kind)
    (chance : Float) (source : σ) :
    Ends (piece.mutate chance) source (fun child _ => child.FromText config kind) (fun _ _ => True) := by
  cases kind with
  | tape =>
    obtain ⟨program, hpiece⟩ := h
    obtain ⟨text, size, rfl, hothers⟩ := Piece.ofTape_eq_ok hpiece
    refine (Piece.ends_mutate_tape _ chance source).mono ?_ fun _ _ _ => trivial
    rintro child _ ⟨new, -, rfl⟩
    exact ⟨new, hothers new⟩
  | beat =>
    obtain ⟨program, hclean, hpiece⟩ := h
    obtain ⟨width, height, rfl, hothers⟩ := Piece.ofBeat_eq_ok hpiece
    refine (Piece.ends_mutate_beat _ chance source).mono ?_ fun _ _ _ => trivial
    rintro child _ ⟨new, hreplaces, rfl⟩
    have hnew := Evolution.forall_of_replaces (fun hreplaces hcmd => hcmd.replaces hreplaces) hreplaces hclean
    exact ⟨new, hnew, hothers new⟩

/-- A new piece of the kind that the settings name, which is read from its own text. -/
def Original [Host] (config : Config) (piece : Piece) : Prop :=
  ∃ kind, config.kind? = some kind ∧ piece.FromText config kind

theorem passesOn_original [Host] (σ : Type) [Draw.Source σ] [Draw.LawfulSource σ] (config : Config) :
    PassesOn σ config (Original config) (GrownFrom config (Original config)) (fun _ => True) := by
  refine passesOn_grownFrom (fun _ _ => trivial) ?_ (fun _ _ => trivial)
  rintro piece ⟨kind, hkind, hpiece⟩ chance source
  refine (ends_mutate_fromText hpiece chance source).mono_done ?_
  intro child _ hchild
  exact ⟨kind, hkind, hchild⟩

/-- The first piece is read from its own text. -/
theorem ends_initialPiece_original [Host] {d : Descent σ} (hstart : d.config.StartsFinite) :
    Ends initialPiece d (fun piece d' => Aside d d' ∧ Original d.config piece) (fun _ _ => True) := by
  refine ends_initialPiece (fun _ _ => trivial) ?_ ?_
  · intro hset kind text hkind htext
    refine ⟨?_, fun _ _ => trivial⟩
    intro piece hpiece
    refine ⟨kind, hkind, Piece.fromText_of_ofText hpiece ?_⟩
    rintro rfl cmds hparse
    exact clean_of_parse hparse (Config.areCodes_beatText htext hstart.codes)
      (hstart.finite text cmds hkind hset htext hparse)
  · intro _ kind hkind
    refine (Piece.ends_random kind _ _ _ d.source).mono ?_ fun _ _ _ => trivial
    intro piece _ hpiece
    refine ⟨kind, hkind, ?_⟩
    cases kind with
    | tape => exact hpiece
    | beat =>
      -- a random formula has no literals at all
      obtain ⟨program, hchoices, hpiece⟩ := hpiece
      exact ⟨program, fun cmd hcmd => clean_of_mem_beatChoices (hchoices cmd hcmd), hpiece⟩

/-- What a piece has grown from is made anew from the text of the grown piece. -/
theorem GrownFrom.again [Host] [LawfulHost] {config : Config} {grown : Piece} {interest : Float}
    (h : GrownFrom config (Original config) grown interest) :
    ∃ kind piece, config.kind? = some kind ∧ (Datum.ofCodes grown.code).codes? = some grown.code
      ∧ Piece.ofText kind grown.code (config.pieceOptions kind) = .ok piece
      ∧ (advance config piece).2 = .ok interest := by
  obtain ⟨origin, ⟨kind, hkind, horigin⟩, hadvance⟩ := h
  obtain ⟨hcodes, hagain⟩ := horigin.again
  -- the grown piece has the text of the piece it has grown from
  rw [← Piece.code_eq_of_makings (makings_advance hadvance)] at hcodes hagain
  refine ⟨kind, origin, hkind, Datum.codes?_ofCodes hcodes, hagain, ?_⟩
  rw [hadvance]

/-- **Every recorded generation is reproduced from its text.** A run adds an entry for each generation, and the
text of every one gives a new piece of the kind and the settings of the run, whose frames come to exactly the
interest that was recorded. -/
theorem run_reproducible [Host] [LawfulHost] {d d' : Descent σ} {results : Results} (hstart : d.config.StartsFinite)
    (hrun : run none d = (.ok results, d')) :
    ∃ new, d'.archive.lineage.entries = d.archive.lineage.entries ++ new
      ∧ new.length = results.generations + 1
      ∧ ∀ e ∈ new, ∃ kind code piece interest, d.config.kind? = some kind
        ∧ e.code.codes? = some code ∧ e.interest = .float interest
        ∧ Piece.ofText kind code (d.config.pieceOptions kind) = .ok piece
        ∧ (advance d.config piece).2 = .ok interest := by
  -- what a run reports before it finds its first piece leaves the settings alone
  have hfirst : ∀ d₁ : Descent σ, d₁.config = d.config →
      Ends (startPiece none) d₁ (fun piece d₂ => Aside d₁ d₂ ∧ Original d.config piece) (fun _ _ => True) := by
    intro d₁ hconfig
    rw [← hconfig] at hstart ⊢
    exact ends_initialPiece_original hstart
  obtain ⟨line, hmembers, hcompleted⟩ := ((passesOn_original σ d.config).ends_run rfl hfirst).of_ok hrun
  have hrecorded := hcompleted.recorded
  refine ⟨entriesOf d.clock d.config 0 none line, hrecorded.entries, ?_, ?_⟩
  · rw [length_entriesOf, hcompleted.generations]
    have hgeneration := hrecorded.generation
    omega
  · intro e he
    obtain ⟨grown, hgrown, hcode, hinterest⟩ := exists_of_mem_entriesOf he
    obtain ⟨kind, piece, hkind, hcodes, hpiece, hadvance⟩ := (hmembers grown hgrown).again
    rw [← hcode] at hcodes
    exact ⟨kind, grown.1.code, piece, grown.2, hkind, hcodes, hinterest, hpiece, hadvance⟩

/-- A line from a formula with a negative literal and a comment that is half of a character. Its second
generation has another variable and another literal. -/
def commentedLine : Descent Draw.Script where
  clock := { timestamp := "2025-01-01T00:00:00", time := "00:00:00" }
  config :=
    ⟨fun
      | .program => .rawText (Text.codesOf "t -0.1 *. #" ++ [0xD800])
      | .mutationChance => .float 0.5
      | .generations => .int 1
      | .width | .height => .int 1
      | s => s.initial⟩
  source := { rest := [0, 1, 0, 7, 999, 999] }
  archive := { lineage := ⟨[]⟩ }
  folder := { home := [], root := .directory [] }

open scoped Host in
theorem run_reproducible_commented :
    commentedLine.config.StartsFinite
      ∧ ∃ results d' new, run none commentedLine = (.ok results, d')
        ∧ d'.archive.lineage.entries = new ∧ new.length = 2
        ∧ ∀ e ∈ new, ∃ kind code piece interest, commentedLine.config.kind? = some kind
          ∧ e.code.codes? = some code ∧ e.interest = .float interest
          ∧ Piece.ofText kind code (commentedLine.config.pieceOptions kind) = .ok piece
          ∧ (advance commentedLine.config piece).2 = .ok interest := by
  have hfinite : (match parse (Text.codesOf "t -0.1 *. #" ++ [0xD800]) with
      | .ok cmds => cmds.all fun cmd => !cmd.isInfinite
      | .error _ => true) = true := by decide +kernel
  have hcompletes : (match run none commentedLine with
      | (.ok results, _) => results.generations == 1
      | _ => false) = true := by decide +kernel
  have hstart : commentedLine.config.StartsFinite := by
    refine ⟨?_, ?_⟩
    · intro codes hcodes
      cases hcodes
      unfold Text.AreCodes
      decide
    · intro text cmds _ _ htext hparse cmd hcmd
      cases htext
      rw [hparse] at hfinite
      have hcmd := List.all_eq_true.mp hfinite cmd hcmd
      rwa [Bool.not_eq_true'] at hcmd
  refine ⟨hstart, ?_⟩
  rcases hrun : run none commentedLine with ⟨e | results, d'⟩
  · rw [hrun] at hcompletes
    cases hcompletes
  · rw [hrun] at hcompletes
    obtain ⟨new, hentries, hlength, hnew⟩ := run_reproducible hstart hrun
    rw [eq_of_beq hcompletes] at hlength
    exact ⟨results, d', new, rfl, hentries, hlength, hnew⟩

end Descent

end ProgramArt

import ProgramArt.Descent.Basic
import ProgramArt.Proofs.Piece.Steady
import ProgramArt.Proofs.Text.Codes

/-!
# Pieces and their texts

The text of a program is all that a record keeps of it. A tape program is read from its text whatever it is
(`Tape.Program.parse_text`). A formula is read from its text if its commands are `Cmd.Clean`, which can be written and
have no infinite literal, and the commands that take the place of others in a mutation, or that are drawn for a random
formula, are such again.
-/

namespace ProgramArt

/-! ## Programs by their texts -/

/-- **A tape program is read from its own text.** -/
theorem Tape.Program.parse_text (program : Program) : parse program.text = .ok program := by
  rw [parse, text, read_spell, ofInstrs_instrs]

namespace Beat

/-- A command whose text gives it back. -/
structure Cmd.Clean [Host] (cmd : Cmd) : Prop where
  writable : cmd.Writable
  finite : cmd.isInfinite = false
  codes : Text.AreCodes cmd.codes

theorem areCodes_of_symbol? [Host] {cmd : Cmd} {symbol : String} (h : cmd.symbol? = some symbol) :
    Text.AreCodes cmd.codes := by
  cases cmd with
  | remark key value => cases h
  | comment text => cases h
  | _ => exact Text.areCodes_codesOf _

/-- **A formula of clean commands is read from its own text.** -/
theorem Program.ofText_codes [Host] [LawfulHost] {program : Program} (h : ∀ cmd ∈ program.cmds, cmd.Clean) :
    ofText program.codes = .ok program := by
  have hparse : parse program.codes = .ok program.cmds :=
    parse_codesOf (fun cmd hcmd => (h cmd hcmd).writable) fun cmd hcmd => (h cmd hcmd).finite
  unfold ofText
  rw [hparse]
  dsimp only
  rw [program.compile_cmds]

theorem Program.parse_of_ofText {text : Text.Codes} {program : Program} (h : ofText text = .ok program) :
    parse text = .ok program.cmds := by
  unfold ofText at h
  split at h
  · cases h
  · rename_i cmds hparse
    split at h
    · cases h
    · rename_i hcompile
      cases h
      rw [hparse, compile_eq_ok hcompile]

theorem areCodes_codesOf [Host] {cmds : List Cmd} (h : ∀ cmd ∈ cmds, Text.AreCodes cmd.codes) :
    Text.AreCodes (codesOf cmds) := by
  unfold codesOf
  induction cmds with
  | nil =>
    intro code hcode
    cases hcode
  | cons cmd cmds ih =>
    have hcmd := h cmd List.mem_cons_self
    have hcmds := ih fun other hother => h other (List.mem_cons_of_mem cmd hother)
    cases cmds with
    | nil =>
      rw [List.map_cons, List.map_nil, List.intercalate_singleton]
      exact hcmd
    | cons next cmds =>
      -- the text of the first command, a blank, and the rest
      rw [List.map_cons, List.map_cons, List.intercalate_cons_cons]
      rw [List.map_cons] at hcmds
      intro code hcode
      rcases List.mem_append.mp hcode with hcode | hcode
      · rcases List.mem_append.mp hcode with hcode | hcode
        · exact hcmd code hcode
        · rw [List.mem_singleton.mp hcode]
          decide
      · exact hcmds code hcode

/-- What a text of code points is read as is made of code points. -/
theorem ReadAs.areCodes [Host] {token : Text.Codes} {cmd : Cmd} (h : ReadAs token cmd) (htoken : Text.AreCodes token) :
    Text.AreCodes cmd.codes := by
  have hsymbols : ∀ cmd ∈ symbolCmds, cmd.symbol?.isSome = true := by decide
  have hrest : ∀ code ∈ token.drop 1, code < 0x110000 := fun code hcode => htoken code (List.mem_of_mem_drop hcode)
  cases h with
  | symbol hsymbol =>
    obtain ⟨symbol, hsome⟩ := Option.isSome_iff_exists.mp (hsymbols cmd hsymbol)
    exact areCodes_of_symbol? hsome
  | comment =>
    intro code hcode
    rcases List.mem_cons.mp hcode with rfl | hcode
    · decide
    · exact hrest code hcode
  | remark =>
    -- the key ends at the first colon, and the value at the second
    intro code hcode
    rcases List.mem_append.mp hcode with hcode | hcode
    · rcases List.mem_cons.mp hcode with rfl | hcode
      · decide
      · exact hrest code ((List.takeWhile_prefix _).subset hcode)
    · rcases List.mem_cons.mp hcode with rfl | hcode
      · decide
      · have hvalue := (List.takeWhile_prefix _).subset hcode
        exact hrest code ((List.dropWhile_suffix _).subset (List.mem_of_mem_drop hvalue))
  | array _ | hex _ | float _ | int _ => exact Text.areCodes_codesOf _

/-- The commands of a text without infinite literals are clean. -/
theorem clean_of_parse [Host] {text : Text.Codes} {cmds : List Cmd} (h : parse text = .ok cmds)
    (htext : Text.AreCodes text) (hfinite : ∀ cmd ∈ cmds, cmd.isInfinite = false) : ∀ cmd ∈ cmds, cmd.Clean := by
  intro cmd hcmd
  obtain ⟨token, htoken, hread⟩ := exists_word_of_parse h hcmd
  refine ⟨writable_of_parse h hcmd, hfinite cmd hcmd, hread.areCodes ?_⟩
  intro code hcode
  exact htext code (Text.mem_of_mem_words htoken hcode)

/-- The commands of random formulas are clean. -/
theorem clean_of_mem_beatChoices [Host] {cmd : Cmd} (h : cmd ∈ Evolution.beatChoices) : cmd.Clean := by
  have hall : ∀ cmd ∈ Evolution.beatChoices,
      cmd.Writable ∧ cmd.isInfinite = false ∧ cmd.symbol?.isSome = true := by decide
  obtain ⟨hwritable, hfinite, hsymbol⟩ := hall cmd h
  obtain ⟨symbol, hsome⟩ := Option.isSome_iff_exists.mp hsymbol
  exact ⟨hwritable, hfinite, areCodes_of_symbol? hsome⟩

/-- What takes the place of a clean command is clean. -/
theorem Cmd.Clean.replaces [Host] {cmd new : Cmd} (hcmd : cmd.Clean) (h : Evolution.Replaces cmd new) : new.Clean := by
  refine ⟨h.writable hcmd.writable, h.finite hcmd.finite, ?_⟩
  cases hstructural : cmd.isStructural with
  | true =>
    -- a command without a family stays, with the text it was read from
    rw [h.kept hstructural]
    exact hcmd.codes
  | false =>
    have hnew := h.structural.trans hstructural
    cases new with
    | choose | array _ | remark _ _ | comment _ => cases hnew
    | _ => exact Text.areCodes_codesOf _

end Beat

/-! ## Pieces from their texts -/

open Beat

/-- A new piece of the settings, of a program that is read from its own text. -/
def Piece.FromText [Host] (config : Config) (kind : Kind) (piece : Piece) : Prop :=
  match kind with
  | .tape => ∃ program, ofTape program (config.pieceOptions .tape) = .ok piece
  | .beat => ∃ program : Beat.Program, (∀ cmd ∈ program.cmds, cmd.Clean)
    ∧ ofBeat program (config.pieceOptions .beat) = .ok piece

theorem Piece.ofText_tape [Host] {text : Text.Codes} {program : Tape.Program}
    (h : Tape.Program.parse (Text.ofCodes text) = .ok program) (options : PieceOptions) :
    ofText .tape text options = ofTape program options := by
  simp only [ofText, h]

theorem Piece.ofText_beat [Host] {text : Text.Codes} {program : Beat.Program}
    (h : Beat.Program.ofText text = .ok program)
    (options : PieceOptions) : ofText .beat text options = ofBeat program options := by
  simp only [ofText, h]

/-- **A piece of this kind is made anew from its own text.** -/
theorem Piece.FromText.again [Host] [LawfulHost] {config : Config} {kind : Kind} {piece : Piece}
    (h : piece.FromText config kind) :
    Text.AreCodes piece.code ∧ ofText kind piece.code (config.pieceOptions kind) = .ok piece := by
  cases kind with
  | tape =>
    obtain ⟨program, hpiece⟩ := h
    have hcode : piece.code = Text.codesOf program.text := by
      obtain ⟨text, size, rfl, _⟩ := ofTape_eq_ok hpiece
      rfl
    rw [hcode]
    refine ⟨Text.areCodes_codesOf _, ?_⟩
    have hparse : Tape.Program.parse (Text.ofCodes (Text.codesOf program.text)) = .ok program := by
      rw [Text.ofCodes_codesOf, program.parse_text]
    rw [ofText_tape hparse]
    exact hpiece
  | beat =>
    obtain ⟨program, hclean, hpiece⟩ := h
    have hcode : piece.code = program.codes := by
      obtain ⟨width, height, rfl, _⟩ := ofBeat_eq_ok hpiece
      rfl
    rw [hcode]
    refine ⟨areCodes_codesOf fun cmd hcmd => (hclean cmd hcmd).codes, ?_⟩
    rw [ofText_beat (Program.ofText_codes hclean)]
    exact hpiece

/-- A piece that a text gives is of a clean formula, if the text is of code points and without infinite literals. -/
theorem Piece.fromText_of_ofText [Host] {config : Config} {kind : Kind} {text : Text.Codes} {piece : Piece}
    (h : ofText kind text (config.pieceOptions kind) = .ok piece)
    (hclean : kind = .beat → ∀ cmds, parse text = .ok cmds → ∀ cmd ∈ cmds, cmd.Clean) : piece.FromText config kind := by
  cases kind with
  | tape =>
    cases hprogram : Tape.Program.parse (Text.ofCodes text) with
    | error e =>
      simp only [ofText, hprogram] at h
      cases h
    | ok program =>
      rw [ofText_tape hprogram] at h
      exact ⟨program, h⟩
  | beat =>
    cases hprogram : Beat.Program.ofText text with
    | error e =>
      simp only [ofText, hprogram] at h
      cases h
    | ok program =>
      rw [ofText_beat hprogram] at h
      exact ⟨program, hclean rfl _ (Program.parse_of_ofText hprogram), h⟩

end ProgramArt

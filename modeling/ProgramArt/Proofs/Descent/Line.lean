import ProgramArt.Proofs.Descent.Steps

/-!
# The line that a run records

A run records one generation after the other, and between two of them it mutates a piece until a child is interesting.
What holds of the pieces is passed on from parent to child, and it is enough to say how, by `PassesOn`: whatever a run
records then has it, and the run fails only as the pieces do (`PassesOn.ends_run`).
-/

namespace ProgramArt.Descent

variable {σ : Type} {d : Descent σ}

/-! ## Recorded generations -/

/-- The entries of a line of descent from a generation on: each has the one before it for a parent. -/
def entriesOf [Host] (clock : Clock) (config : Config) :
    (generation : Nat) → (parent : Option Text.Codes) → (line : List (Piece × Float)) → List Entry
  | _, _, [] => []
  | generation, parent, (piece, interest) :: line =>
    entryOf clock config generation piece.code interest parent
      :: entriesOf clock config (generation + 1) (some piece.code) line

section

variable {clock : Clock} {config : Config}

/-- Each entry has its generation and its kind, and the one before it for a parent. Induction on the line. -/
theorem entriesOf_split [Host] {line : List (Piece × Float)} {first : Nat} {parent : Option Text.Codes}
    {before after : List Entry} {e : Entry} (h : entriesOf clock config first parent line = before ++ e :: after) :
    e.generation = .int (first + before.length : Nat) ∧ e.kind = config.value .kind
      ∧ e.parent = (before.getLast?.map Entry.code).getD ((parent.map Datum.ofCodes).getD .null) := by
  induction line generalizing first parent before with
  | nil => simp [entriesOf] at h
  | cons grown line ih =>
    cases before with
    | nil =>
      cases h
      exact ⟨rfl, rfl, rfl⟩
    | cons earlier before =>
      injection h with hearlier hrest
      obtain ⟨hgeneration, hkind, hparent⟩ := ih hrest
      refine ⟨?_, hkind, ?_⟩
      · rw [hgeneration, List.length_cons]
        congr 2
        omega
      · rw [hparent]
        cases before with
        | nil =>
          rw [← hearlier]
          rfl
        | cons next before => rfl

theorem length_entriesOf [Host] (line : List (Piece × Float)) (first : Nat) (parent : Option Text.Codes) :
    (entriesOf clock config first parent line).length = line.length := by
  induction line generalizing first parent with
  | nil => rfl
  | cons grown line ih =>
    unfold entriesOf
    rw [List.length_cons, List.length_cons, ih]

/-- Every entry is of a piece of the line. -/
theorem exists_of_mem_entriesOf [Host] {line : List (Piece × Float)} {first : Nat} {parent : Option Text.Codes}
    {e : Entry} (h : e ∈ entriesOf clock config first parent line) :
    ∃ grown ∈ line, e.code = .ofCodes grown.1.code ∧ e.interest = .float grown.2 := by
  induction line generalizing first parent with
  | nil => cases h
  | cons grown line ih =>
    rcases List.mem_cons.mp h with rfl | hmem
    · exact ⟨grown, List.mem_cons_self, rfl, rfl⟩
    · obtain ⟨other, hother, htraits⟩ := ih hmem
      exact ⟨other, List.mem_cons_of_mem _ hother, htraits⟩

theorem getLast?_entriesOf [Host] (line : List (Piece × Float)) (first : Nat) (parent : Option Text.Codes) :
    (entriesOf clock config first parent line).getLast?.map Entry.code
      = line.getLast?.map fun grown => .ofCodes grown.1.code := by
  induction line generalizing first parent with
  | nil => rfl
  | cons grown line ih =>
    cases line with
    | nil => rfl
    | cons next line => exact ih (first + 1) (some grown.1.code)

end

/-- Among new entries, which start at a generation, the one of generation `k` repeats the program of an earlier
entry. -/
def Repeats (old : List Entry) (generation : Nat) (new : List Entry) (k : Nat) : Prop :=
  ∃ before e after, new = before ++ e :: after ∧ k = generation + before.length
    ∧ (old ++ before).any (fun other => other.code.same e.code) = true

/-- From one state to another the generations of a line were recorded, and those that repeat a program were
reported. -/
structure Recorded [Host] (d : Descent σ) (first : Nat) (parent : Option Text.Codes) (line : List (Piece × Float))
    (d' : Descent σ) : Prop where
  clock : d'.clock = d.clock
  config : d'.config = d.config
  generation : d'.generation + 1 = first + line.length
  entries : d'.archive.lineage.entries
    = d.archive.lineage.entries ++ entriesOf d.clock d.config first parent line
  printed : ∃ lines, d'.printed.toList = d.printed.toList ++ lines
    ∧ ∀ k, repeatLine d.clock k ∈ lines
      ↔ Repeats d.archive.lineage.entries first (entriesOf d.clock d.config first parent line) k

theorem repeats_singleton {old : List Entry} {generation : Nat} {e : Entry} {k : Nat} :
    Repeats old generation [e] k ↔ k = generation ∧ old.any (fun other => other.code.same e.code) = true := by
  constructor
  · rintro ⟨before, other, after, hnew, rfl, hany⟩
    cases before with
    | nil =>
      cases hnew
      rw [List.append_nil] at hany
      exact ⟨rfl, hany⟩
    | cons first before => simp at hnew
  · rintro ⟨rfl, hany⟩
    refine ⟨[], e, [], rfl, rfl, ?_⟩
    rwa [List.append_nil]

theorem repeats_cons {old new : List Entry} {generation : Nat} {e : Entry} {k : Nat} :
    Repeats old generation (e :: new) k
      ↔ Repeats old generation [e] k ∨ Repeats (old ++ [e]) (generation + 1) new k := by
  constructor
  · rintro ⟨before, other, after, hnew, rfl, hany⟩
    cases before with
    | nil =>
      cases hnew
      exact .inl ⟨[], e, [], rfl, rfl, hany⟩
    | cons first before =>
      cases hnew
      refine .inr ⟨before, other, after, rfl, ?_, ?_⟩
      · rw [List.length_cons]
        omega
      · rwa [List.append_assoc]
  · rintro (hfirst | ⟨before, other, after, rfl, rfl, hany⟩)
    · obtain ⟨rfl, hany⟩ := repeats_singleton.mp hfirst
      refine ⟨[], e, new, rfl, rfl, ?_⟩
      rwa [List.append_nil]
    · refine ⟨e :: before, other, after, rfl, ?_, ?_⟩
      · rw [List.length_cons]
        omega
      · rwa [List.append_assoc] at hany

/-- What happens aside after a line was recorded does not count. -/
theorem Recorded.aside [Host] {first : Nat} {parent : Option Text.Codes} {line : List (Piece × Float)}
    {d' d'' : Descent σ}
    (h : Recorded d first parent line d') (haside : Aside d' d'') : Recorded d first parent line d'' := by
  obtain ⟨lines, hlines, hrepeats⟩ := h.printed
  obtain ⟨lines', hlines', hother⟩ := haside.printed
  refine ⟨haside.clock.trans h.clock, haside.config.trans h.config, ?_, ?_, lines ++ lines', ?_, ?_⟩
  · rw [haside.generation]
    exact h.generation
  · rw [haside.archive]
    exact h.entries
  · rw [hlines', hlines, List.append_assoc]
  · intro k
    rw [List.mem_append, hrepeats k]
    constructor
    · rintro (hrepeat | hline)
      · exact hrepeat
      · -- a line that is reported aside is no report of a repeated program
        rw [← h.clock] at hline
        exact absurd rfl (hother _ hline k)
    · exact .inl

/-- One generation and those after it. -/
theorem Recorded.cons [Host] {first : Nat} {parent : Option Text.Codes} {piece : Piece} {interest : Float}
    {line : List (Piece × Float)} {d' d'' : Descent σ} (h : Recorded d first parent [(piece, interest)] d')
    (hrest : Recorded d' (first + 1) (some piece.code) line d'') :
    Recorded d first parent ((piece, interest) :: line) d'' := by
  obtain ⟨lines, hlines, hrepeats⟩ := h.printed
  obtain ⟨lines', hlines', hrepeats'⟩ := hrest.printed
  have hentries := h.entries
  have hentries' := hrest.entries
  have hgeneration := hrest.generation
  rw [h.clock, h.config] at hentries'
  refine ⟨hrest.clock.trans h.clock, hrest.config.trans h.config, ?_, ?_, lines ++ lines', ?_, ?_⟩
  · rw [List.length_cons]
    omega
  · rw [hentries', hentries, List.append_assoc]
    rfl
  · rw [hlines', hlines, List.append_assoc]
  · intro k
    -- for the later entries the first one is among the old
    have hrepeat := hrepeats' k
    rw [h.clock, h.config, hentries] at hrepeat
    rw [List.mem_append, hrepeats k, hrepeat]
    exact repeats_cons.symm

/-- A report that may be of a repeated program. -/
theorem ends_log {message : String} {f : Unit → Descending σ Unit} {done : Unit → Descent σ → Prop}
    {failed : DescentError → Descent σ → Prop}
    (h : Ends (f ()) { d with printed := d.printed ++ [s!"[{d.clock.time}] {message}"] } done failed) :
    Ends (log message >>= f) d done failed :=
  ⟨h.outcome⟩

/-- **One generation is recorded**, and reported if it repeats a program. -/
theorem ends_record [Host] (generation : Nat) (piece : Piece) (interest : Float) (parent : Option Text.Codes) :
    Ends (record generation piece interest parent) d
      (fun _ d' => Recorded d generation parent [(piece, interest)] d' ∧ d'.source = d.source)
      (fun e _ => e.isCrash = false) := by
  -- the report that every generation gets does not count
  have hreport : ∀ {d' : Descent σ} {message : String}, message.toList.head? ≠ some '🔁' →
      Recorded d generation parent [(piece, interest)] d' → d'.source = d.source →
      Ends (log message) d'
        (fun _ d'' => Recorded d generation parent [(piece, interest)] d'' ∧ d''.source = d.source)
        (fun e _ => e.isCrash = false) := by
    intro d' message hmessage hrecorded hsource
    refine (quietly_log hmessage).mono_done ?_
    rintro _ d'' ⟨hquiet, _⟩
    exact ⟨hrecorded.aside hquiet.toAside, hquiet.source.trans hsource⟩
  unfold record append
  refine ends_modify (ends_get ?_)
  dsimp only
  by_cases hhas : d.archive.lineage.has (.ofCodes piece.code) = true
  · rw [if_pos hhas]
    refine ends_log (ends_modify (hreport ?_ ⟨rfl, rfl, rfl, rfl, [repeatLine d.clock generation], ?_, ?_⟩ rfl))
    · simp only [String.toList_append, List.append_assoc]
      exact show some 'G' ≠ some '🔁' by decide
    · exact Array.toList_appendList
    · intro k
      refine Iff.trans ?_ repeats_singleton.symm
      rw [List.mem_singleton]
      exact ⟨fun h => ⟨repeatLine_inj h, hhas⟩, fun h => h.1 ▸ rfl⟩
  · rw [if_neg hhas]
    refine ends_modify (hreport ?_ ⟨rfl, rfl, rfl, rfl, [], (List.append_nil _).symm, ?_⟩ rfl)
    · simp only [String.toList_append, List.append_assoc]
      exact show some 'G' ≠ some '🔁' by decide
    · intro k
      refine Iff.trans ?_ repeats_singleton.symm
      exact ⟨fun h => absurd h List.not_mem_nil, fun h => absurd h.2 hhas⟩

/-! ## What passes on -/

/-- What passes on along a line of descent: every mutation of a member is a child, and every child grows into a
member by the frames of its generation. Failures are as `failure` says, if they are crashes. -/
structure PassesOn [Host] (σ : Type) [Draw.Source σ] (config : Config) (child : Piece → Prop)
    (member : Piece → Float → Prop) (failure : DescentError → Prop) : Prop where
  harmless : ∀ e, e.isCrash = false → failure e
  mutate : ∀ {piece interest}, member piece interest → ∀ (chance : Float) (source : σ),
    Ends (piece.mutate chance) source (fun new _ => child new) (fun e _ => failure (.piece e))
  advance : ∀ {piece grown interest}, child piece → advance config piece = (grown, .ok interest) →
    member grown interest
  fails : ∀ {piece grown e}, child piece → Descent.advance config piece = (grown, .error e) → failure e

variable [Draw.Source σ] {config : Config} {child : Piece → Prop} {member : Piece → Float → Prop}
  {failure : DescentError → Prop}

/-- A piece that has grown from a child in the frames of a generation, and its interest then. -/
def GrownFrom [Host] (config : Config) (child : Piece → Prop) (grown : Piece) (interest : Float) : Prop :=
  ∃ origin, child origin ∧ Descent.advance config origin = (grown, .ok interest)

/-- What children hand on to their own children passes on, whatever frames come between. -/
theorem passesOn_grownFrom [Host] (hharmless : ∀ e, e.isCrash = false → failure e)
    (hmutate : ∀ {piece}, child piece → ∀ (chance : Float) (source : σ),
      Ends (piece.mutate chance) source (fun new _ => child new) (fun e _ => failure (.piece e)))
    (hfails : ∀ {piece grown e}, child piece → Descent.advance config piece = (grown, .error e) → failure e) :
    PassesOn σ config child (GrownFrom config child) failure where
  harmless := hharmless
  mutate := by
    rintro piece interest ⟨origin, horigin, hadvance⟩ chance source
    rw [Piece.mutate_eq_of_makings (makings_advance hadvance)]
    exact hmutate horigin chance source
  advance hpiece hadvance := ⟨_, hpiece, hadvance⟩
  fails := hfails

theorem PassesOn.ends_advanced [Host] (h : PassesOn σ config child member failure) (hconfig : d.config = config)
    {piece : Piece} (hpiece : child piece) :
    Ends (advanced piece) d (fun grown d' => d' = d ∧ member grown.1 grown.2) (fun e _ => failure e) := by
  subst hconfig
  refine (Descent.ends_advanced piece).mono ?_ ?_
  · rintro grown d' ⟨rfl, hadvance⟩
    exact ⟨rfl, h.advance hpiece hadvance⟩
  · rintro e d' ⟨grown, hadvance⟩
    exact h.fails hpiece hadvance

/-- One mutation of a parent: a child that is interesting is taken, and one that is not is reported and left to
`rest`. -/
def trying [Host] (settings : Config) (chance : Float) (parent : Piece) (attempt : Nat)
    (rest : Piece × Float → Descending σ (Piece × Float)) : Descending σ (Piece × Float) := do
  let new ← drawing (parent.mutate chance)
  let grown ← advanced new
  if ← isInteresting settings grown.2 then return grown
  spawnFrom.logDull attempt grown.2
  rest grown

theorem spawnFrom_zero [Host] (settings : Config) (chance : Float) (parent : Piece) (attempt : Nat) :
    (spawnFrom settings chance parent attempt 0 : Descending σ _) = trying settings chance parent attempt pure := by
  unfold spawnFrom trying
  refine bind_congr fun new => bind_congr fun grown => bind_congr fun interesting => ?_
  cases interesting <;> rfl

theorem spawnFrom_succ [Host] (settings : Config) (chance : Float) (parent : Piece) (attempt retries : Nat) :
    (spawnFrom settings chance parent attempt (retries + 1) : Descending σ _)
      = trying settings chance parent attempt fun _ => spawnFrom settings chance parent (attempt + 1) retries := by
  rw [spawnFrom]
  rfl

omit [Draw.Source σ] in
theorem quietly_logDull (attempt : Nat) (interest : Float) :
    Quietly (spawnFrom.logDull attempt interest) d fun _ => True := by
  refine quietly_log ?_
  simp only [String.toList_append, List.append_assoc]
  exact show some '↩' ≠ some '🔁' by decide

/-- The child of one mutation is a member, whether it is taken or left. -/
theorem PassesOn.ends_trying [Host] (h : PassesOn σ config child member failure) (hconfig : d.config = config)
    {parent : Piece} {interest : Float} (hparent : member parent interest) (settings : Config) (chance : Float)
    (attempt : Nat) {rest : Piece × Float → Descending σ (Piece × Float)}
    (hrest : ∀ grown d', d'.config = config → member grown.1 grown.2 →
      Ends (rest grown) d' (fun last d'' => Aside d' d'' ∧ member last.1 last.2) (fun e _ => failure e)) :
    Ends (trying settings chance parent attempt rest) d
      (fun last d' => Aside d d' ∧ member last.1 last.2) (fun e _ => failure e) := by
  unfold trying
  refine Ends.bind ((ends_drawing (h.mutate hparent chance d.source)).mono_failed ?_) ?_
  · rintro e _ ⟨cause, rfl, hcause⟩
    exact hcause
  rintro new d₁ ⟨haside, hnew⟩
  refine (h.ends_advanced (haside.config.trans hconfig) hnew).bind ?_
  rintro grown _ ⟨rfl, hgrown⟩
  refine Ends.bind ((quietly_isInteresting settings grown.2).mono_failed fun e _ => h.harmless e) ?_
  rintro interesting d₂ ⟨hquiet, _⟩
  cases interesting with
  | true => exact ends_pure ⟨haside.trans hquiet.toAside, hgrown⟩
  | false =>
    -- a dull child is a member too, since the last one is taken however dull it is
    refine Ends.bind ((quietly_logDull attempt grown.2).mono_failed fun e _ => h.harmless e) ?_
    rintro _ d₃ ⟨hquiet', _⟩
    have haside' := haside.trans (hquiet.trans hquiet').toAside
    refine (hrest grown d₃ (haside'.config.trans hconfig) hgrown).mono_done ?_
    rintro last d₄ ⟨haside'', hlast⟩
    exact ⟨haside'.trans haside'', hlast⟩

/-- However often the parent is mutated, the child that is taken is a member. Induction on the mutations that are
left. -/
theorem PassesOn.ends_spawnFrom [Host] (h : PassesOn σ config child member failure) (hconfig : d.config = config)
    {parent : Piece} {interest : Float} (hparent : member parent interest) (settings : Config) (chance : Float)
    (attempt retries : Nat) :
    Ends (spawnFrom settings chance parent attempt retries) d
      (fun grown d' => Aside d d' ∧ member grown.1 grown.2) (fun e _ => failure e) := by
  induction retries generalizing d attempt with
  | zero =>
    rw [spawnFrom_zero]
    refine h.ends_trying hconfig hparent settings chance attempt ?_
    intro grown d' _ hgrown
    exact ends_pure ⟨.refl d', hgrown⟩
  | succ retries ih =>
    rw [spawnFrom_succ]
    refine h.ends_trying hconfig hparent settings chance attempt ?_
    intro grown d' hconfig' _
    exact ih hconfig' (attempt + 1)

theorem PassesOn.ends_spawn [Host] (h : PassesOn σ config child member failure) (hconfig : d.config = config)
    {parent : Piece} {interest : Float} (hparent : member parent interest) :
    Ends (spawn parent) d (fun grown d' => Aside d d' ∧ member grown.1 grown.2) (fun e _ => failure e) := by
  unfold spawn
  refine ends_get ?_
  dsimp only
  refine Ends.bind ((quietly_need _).mono_failed fun e _ => h.harmless e) ?_
  rintro retries d₁ ⟨hquiet, _⟩
  refine Ends.bind ((quietly_need _).mono_failed fun e _ => h.harmless e) ?_
  rintro chance d₂ ⟨hquiet', _⟩
  have haside := (hquiet.trans hquiet').toAside
  refine (h.ends_spawnFrom (haside.config.trans hconfig) hparent _ chance 1 _).mono_done ?_
  rintro grown d₃ ⟨haside', hgrown⟩
  exact ⟨haside.trans haside', hgrown⟩

/-! ## Generations -/

omit [Draw.Source σ] in
/-- A generation is recorded and its picture is stored. -/
theorem ends_record_saveFrame [Host] (hharmless : ∀ e, e.isCrash = false → failure e) {generation : Nat} {piece : Piece}
    {interest : Float} {parent : Option Text.Codes} {α : Type} {f : Option String → Descending σ α}
    {done : α → Descent σ → Prop}
    (hf : ∀ frame d', Recorded d generation parent [(piece, interest)] d' →
      FramesOf d.config [generation] frame.toList → Ends (f frame) d' done (fun e _ => failure e)) :
    Ends (do record generation piece interest parent; let frame ← saveFrame piece; f frame) d done
      (fun e _ => failure e) := by
  refine Ends.bind ((ends_record generation piece interest parent).mono_failed fun e _ => hharmless e) ?_
  rintro _ d₁ ⟨hrecorded, _⟩
  refine Ends.bind ((quietly_saveFrame piece).mono_failed fun e _ => hharmless e) ?_
  rintro frame d₂ ⟨hquiet, hframe⟩
  have hgeneration : d₁.generation = generation := Nat.succ.inj hrecorded.generation
  rw [hrecorded.config, hgeneration] at hframe
  exact hf frame d₂ (hrecorded.aside hquiet.toAside) hframe

/-- **The generations from one on are recorded as a line of members**, each with its picture. Induction on the
generations that are left. -/
theorem PassesOn.ends_generations [Host] (h : PassesOn σ config child member failure) (hconfig : d.config = config)
    {piece : Piece} {interest : Float} (hpiece : member piece interest) (generation : Nat)
    (parent : Option Text.Codes) (rest : Nat) :
    Ends (generations generation piece interest parent rest) d
      (fun told d' => ∃ line, line.length = rest + 1 ∧ (∀ grown ∈ line, member grown.1 grown.2)
        ∧ line.getLast?.map Prod.fst = some told.1 ∧ Recorded d generation parent line d'
        ∧ FramesOf config (List.range' generation (rest + 1)) told.2)
      (fun e _ => failure e) := by
  induction rest generalizing d piece interest generation parent with
  | zero =>
    unfold generations
    refine ends_record_saveFrame h.harmless ?_
    intro frame d₁ hrecorded hframe
    refine ends_pure ⟨[(piece, interest)], rfl, ?_, rfl, hrecorded, ?_⟩
    · intro grown hgrown
      rw [List.mem_singleton.mp hgrown]
      exact hpiece
    · rw [← hconfig]
      exact hframe
  | succ rest ih =>
    unfold generations
    -- the record of a generation is written before its child is spawned
    refine ends_record_saveFrame h.harmless ?_
    intro frame d₁ hrecorded hframe
    refine (h.ends_spawn (hrecorded.config.trans hconfig) hpiece).bind ?_
    rintro grown d₂ ⟨haside, hgrown⟩
    have hfirst := hrecorded.aside haside
    refine (ih (hfirst.config.trans hconfig) hgrown (generation + 1) (some piece.code)).bind ?_
    rintro told d₃ ⟨line, hlength, hmembers, hlast, hline, hframes⟩
    refine ends_pure ⟨(piece, interest) :: line, ?_, ?_, ?_, hfirst.cons hline, ?_⟩
    · rw [List.length_cons, hlength]
    · intro other hother
      rcases List.mem_cons.mp hother with rfl | hother
      · exact hpiece
      · exact hmembers other hother
    · cases line with
      | nil => cases hlength
      | cons next line => exact hlast
    · rw [hconfig] at hframe
      exact hframe.append hframes

/-! ## The first piece -/

omit [Draw.Source σ] in
theorem programText_harmless (kind : Kind) (datum : Datum) :
    FailsOnly (fun e => e.isCrash = false) (Config.programText kind datum) := by
  have hspelled : ∀ letters, FailsOnly (fun e => e.isCrash = false) (Config.spelled letters) := by
    intro letters
    unfold Config.spelled
    split
    · exact failsOnly_ok _
    · exact failsOnly_error rfl
  cases kind with
  | tape =>
    change FailsOnly (fun e => e.isCrash = false) (Config.tapeText datum)
    unfold Config.tapeText
    split
    · exact failsOnly_ok _
    · exact failsOnly_ok _
    · exact failsOnly_ok _
    · exact hspelled _
    · exact hspelled _
    · exact hspelled _
    · exact failsOnly_error rfl
  | beat =>
    change FailsOnly (fun e => e.isCrash = false) (Config.beatText datum)
    unfold Config.beatText
    split
    · exact failsOnly_ok _
    · exact failsOnly_ok _
    · split
      · exact failsOnly_ok _
      · exact failsOnly_error rfl
    · exact failsOnly_error rfl

/-- The first piece is of the program that the settings give, or of a random one. -/
theorem ends_initialPiece [Host] (hharmless : ∀ e, e.isCrash = false → failure e)
    (hgiven : d.config.isSet .program = true → ∀ kind text, d.config.kind? = some kind →
      Config.programText kind (d.config.value .program) = .ok text →
      (∀ piece, Piece.ofText kind text (d.config.pieceOptions kind) = .ok piece → child piece)
        ∧ ∀ e, Piece.ofText kind text (d.config.pieceOptions kind) = .error e → failure (.piece e))
    (hdrawn : d.config.isSet .program = false → ∀ kind, d.config.kind? = some kind →
      Ends (Piece.random kind (d.config.value .programLength) (d.config.isSet .includeIo) (d.config.pieceOptions kind))
        d.source (fun piece _ => child piece) (fun e _ => failure (.piece e))) :
    Ends initialPiece d (fun piece d' => Aside d d' ∧ child piece) (fun e _ => failure e) := by
  unfold initialPiece
  refine ends_get ?_
  dsimp only
  refine Ends.bind ((quietly_need _).mono_failed fun e _ => hharmless e) ?_
  rintro kind d₁ ⟨hquiet, hkind⟩
  by_cases hset : d.config.isSet .program = true
  · rw [if_pos hset]
    cases htext : Config.programText kind (d.config.value .program) with
    | error e => exact ⟨hharmless e (programText_harmless kind _ e htext)⟩
    | ok text =>
      obtain ⟨hmade, hfailed⟩ := hgiven hset kind text hkind htext
      cases hpiece : Piece.ofText kind text (d.config.pieceOptions kind) with
      | error e =>
        simp only [fromSetting, onPiece, pure_bind, hpiece]
        exact ends_throw (hfailed e hpiece)
      | ok piece =>
        simp only [fromSetting, onPiece, pure_bind, hpiece]
        exact ends_pure ⟨hquiet.toAside, hmade piece hpiece⟩
  · rw [if_neg hset]
    -- nothing was drawn before, so the source is still the one of `d`
    have hdraw := hdrawn (Bool.eq_false_iff.mpr hset) kind hkind
    rw [← hquiet.source] at hdraw
    refine (ends_drawing hdraw).mono ?_ ?_
    · rintro piece d₂ ⟨haside, hpiece⟩
      exact ⟨hquiet.toAside.trans haside, hpiece⟩
    · rintro e d₂ ⟨cause, rfl, hcause⟩
      exact hcause

/-! ## Runs -/

/-- What a run has come to: the generations that the settings ask for are recorded as a line of members, and the
results tell of the last one and of the best entry. -/
structure Completed [Host] (d : Descent σ) (line : List (Piece × Float)) (results : Results) (d' : Descent σ) :
    Prop where
  count : ∃ count, d.config.whole? .generations = some count ∧ line.length = count.toNat + 1
  recorded : Recorded d 0 none line d'
  generations : results.generations = d'.generation
  last : line.getLast?.map (fun grown => grown.1.code) = some results.finalCode
  best : ∃ best, d'.archive.lineage.best? 1 = some best
    ∧ results.bestCode = (best.head?.map Entry.code).getD .null
    ∧ results.bestInterest = (best.head?.map Entry.interest).getD (.float 0.0)
  frames : FramesOf d.config (List.range' 0 line.length) results.frames

/-- The piece that a run starts from. -/
def startPiece [Host] (start : Option Piece) : Descending σ Piece :=
  match start with
  | some piece => pure piece
  | none => initialPiece

/-- A run first finds its piece. -/
theorem runGenerations_eq [Host] (start : Option Piece) :
    (runGenerations start : Descending σ Results) = startPiece start >>= fun piece => runGenerations (some piece) := by
  cases start <;> rfl

omit [Draw.Source σ] in
/-- What happened aside before a line was recorded does not count. -/
theorem Aside.recorded [Host] {d' d'' : Descent σ} {first : Nat} {parent : Option Text.Codes}
    {line : List (Piece × Float)}
    (haside : Aside d d') (h : Recorded d' first parent line d'') : Recorded d first parent line d'' := by
  obtain ⟨lines, hlines, hother⟩ := haside.printed
  obtain ⟨lines', hlines', hrepeats⟩ := h.printed
  have hentries := h.entries
  rw [haside.clock, haside.config, haside.archive] at hentries
  refine ⟨h.clock.trans haside.clock, h.config.trans haside.config, h.generation, hentries, lines ++ lines', ?_, ?_⟩
  · rw [hlines', hlines, List.append_assoc]
  · intro k
    have hrepeat := hrepeats k
    rw [haside.clock, haside.config, haside.archive] at hrepeat
    rw [List.mem_append, ← hrepeat]
    constructor
    · rintro (hline | hline)
      · exact absurd rfl (hother _ hline k)
      · exact hline
    · exact .inr

omit [Draw.Source σ] in
theorem quietly_logCompleted (elapsed : Float) :
    Quietly (log s!"Evolution completed in {Decimal.places 2 elapsed} seconds") d fun _ => True := by
  refine quietly_log ?_
  simp only [String.toList_append, List.append_assoc]
  exact show some 'E' ≠ some '🔁' by decide

/-- **A run from a piece records a line of members**, or fails as is said of them. -/
theorem PassesOn.ends_runGenerations [Host] (h : PassesOn σ config child member failure) (hconfig : d.config = config)
    {piece : Piece} (hpiece : child piece) :
    Ends (runGenerations (some piece)) d
      (fun results d' => ∃ line, (∀ grown ∈ line, member grown.1 grown.2) ∧ Completed d line results d')
      (fun e _ => failure e) := by
  have hfound : Ends (pure piece) d (fun found d' => found = piece ∧ d' = d) (fun e _ => failure e) :=
    ends_pure ⟨rfl, rfl⟩
  unfold runGenerations
  refine hfound.bind ?_
  rintro _ _ ⟨rfl, rfl⟩
  refine (h.ends_advanced hconfig hpiece).bind ?_
  rintro grown d₁ ⟨rfl, hgrown⟩
  refine ends_get ?_
  dsimp only
  refine Ends.bind ((quietly_need _).mono_failed fun e _ => h.harmless e) ?_
  rintro count d₂ ⟨hquiet, hcount⟩
  refine (h.ends_generations (hquiet.config.trans hconfig) hgrown 0 none count.toNat).bind ?_
  rintro told d₃ ⟨line, hlength, hmembers, hlast, hline, hframes⟩
  refine ends_get ?_
  -- from here on nothing is recorded any more
  refine Ends.bind ((quietly_logCompleted _).mono_failed fun e _ => h.harmless e) ?_
  rintro _ d₄ ⟨hquiet₄, _⟩
  refine Ends.bind (quietly_saveArchive.mono_failed fun e _ => h.harmless e) ?_
  rintro _ d₅ ⟨hquiet₅, _⟩
  refine ends_get ?_
  refine Ends.bind ((quietly_need _).mono_failed fun e _ => h.harmless e) ?_
  rintro best d₆ ⟨hquiet₆, hbest⟩
  have hend := (hquiet₄.trans hquiet₅).trans hquiet₆
  have hrecorded := (hquiet.toAside.recorded hline).aside hend.toAside
  refine ends_pure ⟨line, hmembers, ⟨count, hcount, hlength⟩, hrecorded, ?_, ?_, ⟨best, ?_, rfl, rfl⟩, ?_⟩
  · exact hquiet₆.generation.symm
  · have hcode := congrArg (Option.map Piece.code) hlast
    rw [Option.map_map] at hcode
    exact hcode
  · rw [hquiet₆.archive]
    exact hbest
  · rw [hconfig, hlength]
    exact hframes

omit [Draw.Source σ] in
/-- What happened aside before a run does not count. -/
theorem Aside.completed [Host] {d' d'' : Descent σ} {line : List (Piece × Float)} {results : Results}
    (haside : Aside d d') (h : Completed d' line results d'') : Completed d line results d'' := by
  have hcount := h.count
  have hframes := h.frames
  rw [haside.config] at hcount hframes
  exact ⟨hcount, haside.recorded h.recorded, h.generations, h.last, h.best, hframes⟩

/-- **A run records a line of members**, or fails as is said of them. What passes on may depend on the piece that the
run starts from. -/
theorem ends_run_of_start [Host] {start : Option Piece} {origin : Piece → Prop} {member : Piece → Piece → Float → Prop}
    (hconfig : d.config = config) (hharmless : ∀ e, e.isCrash = false → failure e)
    (hstart : ∀ d' : Descent σ, d'.config = config →
      Ends (startPiece start) d' (fun piece d'' => Aside d' d'' ∧ origin piece) (fun e _ => failure e))
    (hpasses : ∀ piece, origin piece → ∃ child, PassesOn σ config child (member piece) failure ∧ child piece) :
    Ends (run start) d
      (fun results d' => ∃ piece line, (∀ grown ∈ line, member piece grown.1 grown.2) ∧ Completed d line results d')
      (fun e _ => failure e) := by
  unfold run
  rw [runGenerations_eq]
  refine Ends.bind (quietly_announce.mono_failed fun e _ => hharmless e) ?_
  rintro _ d₁ ⟨hquiet, _⟩
  refine Ends.bind (hstart d₁ (hquiet.config.trans hconfig)) ?_
  rintro piece d₂ ⟨haside, hpiece⟩
  have haside₂ := hquiet.toAside.trans haside
  obtain ⟨child, h, hchild⟩ := hpasses piece hpiece
  refine (h.ends_runGenerations (haside₂.config.trans hconfig) hchild).mono_done ?_
  rintro results d₃ ⟨line, hmembers, hcompleted⟩
  exact ⟨piece, line, hmembers, haside₂.completed hcompleted⟩

theorem PassesOn.ends_run [Host] (h : PassesOn σ config child member failure) (hconfig : d.config = config)
    {start : Option Piece}
    (hstart : ∀ d' : Descent σ, d'.config = config →
      Ends (startPiece start) d' (fun piece d'' => Aside d' d'' ∧ child piece) (fun e _ => failure e)) :
    Ends (run start) d
      (fun results d' => ∃ line, (∀ grown ∈ line, member grown.1 grown.2) ∧ Completed d line results d')
      (fun e _ => failure e) := by
  refine (ends_run_of_start hconfig h.harmless hstart fun piece hpiece => ⟨child, h, hpiece⟩).mono_done ?_
  rintro results d' ⟨_, line, hmembers, hcompleted⟩
  exact ⟨line, hmembers, hcompleted⟩

end ProgramArt.Descent

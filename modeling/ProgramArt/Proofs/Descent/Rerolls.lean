import ProgramArt.Descent.Session
import ProgramArt.Host.Standard
import ProgramArt.Proofs.Descent.Line
import ProgramArt.Proofs.Piece.Score

/-!
# Mutating a parent again

A child that is not interesting is reported and given up, and the parent is mutated again, so many times at most. The
last child is taken however dull it is. This module follows the attempts one by one, `Rolls`: what each of them draws,
what becomes of it, and what is reported of it. They are seen as a loop, for which it does not matter what is held at
first (`spawnFrom_eq_rolling`).
-/

namespace ProgramArt

/-! ## Settings that have been checked -/

namespace Config

variable {config : Config}

theorem refuseNegative_eq_ok {s : Setting} {e : ConfigError} :
    config.refuseNegative s e = .ok () ↔ (config.value s).less? (.int 0) = some false := by
  unfold refuseNegative compared
  cases (config.value s).less? (.int 0) with
  | none => simp [bind, Except.bind]
  | some negative => cases negative <;> simp [bind, Except.bind, pure, Except.pure, throw, throwThe,
      MonadExceptOf.throw]

/-- The retries are looked at last, so that nothing else is left to fail. -/
theorem check_maxRetries (hvalid : config.check = .ok ()) :
    (config.value .maxRetries).less? (.int 0) = some false := by
  unfold check at hvalid
  dsimp only at hvalid
  split at hvalid
  · obtain ⟨_, _, hthrow⟩ := except_bind_eq_ok.mp hvalid
    cases hthrow
  · simp only [except_bind_eq_ok] at hvalid
    obtain ⟨_, _, _, _, _, _, _, _, _, _, _, _, _, _, _, _, hretries⟩ := hvalid
    exact refuseNegative_eq_ok.mp hretries

/-- Settings that have been checked allow no negative number of retries. -/
theorem nonneg_maxRetries (hvalid : config.check = .ok ()) {retries : Int}
    (hretries : config.whole? .maxRetries = some retries) : 0 ≤ retries := by
  have hless := check_maxRetries hvalid
  unfold whole? at hretries
  split at hretries
  · rename_i n hvalue
    cases hretries
    rw [hvalue, Datum.less?_eq rfl rfl, Magnitude.less_finite] at hless
    simpa using hless
  · rename_i b hvalue
    cases hretries
    split <;> omega
  · cases hretries

end Config

namespace Descent

variable {σ : Type}

/-! ## Attempts -/

/-- One attempt at a child: the mutation of the parent, what has become of it after the frames of a generation, and
its interest then. -/
structure Attempt where
  drawn : Piece
  grown : Piece
  interest : Float

/-- Attempts at a child of one parent, from one state of the source to another. Each of them is a mutation of the
parent itself, with what the source gives next, and is taken through the frames of a generation. -/
inductive Rolls [Host] [Draw.Source σ] (config : Config) (chance : Float) (parent : Piece) :
    (source : σ) → List Attempt → (rest : σ) → Prop where
  | nil {source : σ} : Rolls config chance parent source [] source
  | cons {source next rest : σ} {a : Attempt} {attempts : List Attempt}
    (hdrawn : parent.mutate chance source = (.ok a.drawn, next))
    (hgrown : advance config a.drawn = (a.grown, .ok a.interest))
    (hrest : Rolls config chance parent next attempts rest) : Rolls config chance parent source (a :: attempts) rest

/-- Whether the interest of an attempt is below the least one that is wanted. -/
def Attempt.isDull (least : Datum) (a : Attempt) : Bool :=
  (Datum.float a.interest).less? least == some true

/-- What is reported of a child that is not interesting. -/
def dullMessage (number : Nat) (interest : Float) : String :=
  s!"↩️ Mutant {number} too dull ({Decimal.places 3 interest}), retrying"

/-- The report of a child that is not interesting, with the time. -/
def dullLine (clock : Clock) (number : Nat) (interest : Float) : String :=
  s!"[{clock.time}] {dullMessage number interest}"

/-- The reports of the attempts that are dull, with numbers from `first` on. -/
def dullLines (clock : Clock) (least : Datum) (first : Nat) (attempts : List Attempt) : List String :=
  ((attempts.filter (Attempt.isDull least)).zipIdx first).map fun (a, number) => dullLine clock number a.interest

section

variable {clock : Clock} {least : Datum} {a : Attempt}

theorem dullLines_cons_of_dull (h : a.isDull least = true) (first : Nat) (attempts : List Attempt) :
    dullLines clock least first (a :: attempts)
      = dullLine clock first a.interest :: dullLines clock least (first + 1) attempts := by
  unfold dullLines
  rw [List.filter_cons_of_pos h, List.zipIdx_cons, List.map_cons]

theorem dullLines_singleton_of_not_dull (h : a.isDull least = false) (first : Nat) :
    dullLines clock least first [a] = [] := by
  unfold dullLines
  rw [List.filter_cons_of_neg (by rw [h]; exact Bool.false_ne_true)]
  rfl

end

/-! ## Dull or interesting -/

/-- What can be compared with a double is a number. -/
theorem isNumber_of_atMost?_float {least : Datum} {x : Float} {answer : Bool}
    (h : least.atMost? (.float x) = some answer) : least.isNumber = true := by
  cases least with
  | bool _ | int _ | float _ | nan _ => rfl
  | _ => simp [Datum.atMost?, Datum.isNumber, Datum.less?, Datum.codes?] at h

/-- **A child is dull exactly if it is not interesting**, as long as the least interest is not NaN. -/
theorem isDull_eq_not [Host] {config : Config} {a : Attempt} {least : Datum} {answer : Bool}
    (hleast : least.isNaN = false) (hgrown : advance config a.drawn = (a.grown, .ok a.interest))
    (hanswer : least.atMost? (.float a.interest) = some answer) : a.isDull least = !answer := by
  have hnumber := isNumber_of_atMost?_float hanswer
  -- no score is NaN, so that both sides have a magnitude
  obtain ⟨x, hx⟩ := Option.isSome_iff_exists.mp (Datum.isSome_magnitude?_of_isNumber hnumber hleast)
  have hscore : a.interest.isNaN = false := by
    rw [interest_eq_score hgrown]
    exact a.grown.isNaN_score
  obtain ⟨y, hy⟩ := Option.isSome_iff_exists.mp (isSome_magnitude? hscore)
  rw [Datum.atMost?_of_isNumber hnumber rfl, hx, hy] at hanswer
  unfold Attempt.isDull
  rw [Datum.less?_eq hy hx, ← Option.some.inj hanswer]
  cases hless : y.less x <;> simp [Magnitude.asked, hless]

/-! ## One attempt -/

section

variable {d d' : Descent σ} {α : Type}

theorem drawing_eq_ok {step : Piece.Drawing σ α} {a : α} :
    drawing step d = (.ok a, d') ↔ ∃ source, step d.source = (.ok a, source) ∧ d' = { d with source } := by
  unfold drawing
  constructor
  · intro h
    rcases hstep : step d.source with ⟨e | b, source⟩
    · rw [hstep] at h
      cases h
    · rw [hstep] at h
      cases h
      exact ⟨source, rfl, rfl⟩
  · rintro ⟨source, hstep, rfl⟩
    rw [hstep]

theorem need_eq_ok {value : Option α} {a : α} : need value d = (.ok a, d') ↔ value = some a ∧ d' = d := by
  cases value with
  | none =>
    constructor
    · intro h
      cases h
    · rintro ⟨h, _⟩
      cases h
  | some b =>
    constructor
    · intro h
      cases h
      exact ⟨rfl, rfl⟩
    · rintro ⟨h, rfl⟩
      cases h
      rfl

end

variable [Draw.Source σ] {settings : Config} {chance : Float} {parent : Piece} {d d' : Descent σ}
  {last : Piece × Float}

/-- **One attempt**: a child that is interesting is taken, and one that is not is reported and left to `rest`. -/
theorem trying_eq_ok [Host] {number : Nat} {rest : Piece × Float → Descending σ (Piece × Float)}
    (h : trying settings chance parent number rest d = (.ok last, d')) :
    ∃ (a : Attempt) (source : σ), parent.mutate chance d.source = (.ok a.drawn, source)
      ∧ advance d.config a.drawn = (a.grown, .ok a.interest)
      ∧ ((settings.value .minInterest).atMost? (.float a.interest) = some true
          ∧ last = (a.grown, a.interest) ∧ d' = { d with source }
        ∨ (settings.value .minInterest).atMost? (.float a.interest) = some false
          ∧ rest (a.grown, a.interest)
            { d with source, printed := d.printed ++ [dullLine d.clock number a.interest] } = (.ok last, d')) := by
  unfold trying at h
  obtain ⟨drawn, d₁, hdrawn, h⟩ := bind_eq_ok.mp h
  obtain ⟨source, hmutate, rfl⟩ := drawing_eq_ok.mp hdrawn
  obtain ⟨grown, d₂, hgrown, h⟩ := bind_eq_ok.mp h
  obtain ⟨rfl, hadvance⟩ := (ends_advanced drawn).of_ok hgrown
  obtain ⟨interesting, d₃, hinteresting, h⟩ := bind_eq_ok.mp h
  obtain ⟨hanswer, rfl⟩ := need_eq_ok.mp hinteresting
  refine ⟨⟨drawn, grown.1, grown.2⟩, source, hmutate, hadvance, ?_⟩
  cases interesting with
  | true =>
    cases h
    exact .inl ⟨hanswer, rfl, rfl⟩
  | false =>
    obtain ⟨_, d₄, hlog, h⟩ := bind_eq_ok.mp h
    cases hlog
    exact .inr ⟨hanswer, h⟩

/-! ## All attempts -/

/-- At most `count` attempts at a child, up to the first one that is interesting. The last child is taken; what is
held at first is taken only if there is no attempt at all. -/
def rolling [Host] (settings : Config) (chance : Float) (parent : Piece) :
    (number count : Nat) → (held : Piece × Float) → Descending σ (Piece × Float)
  | _, 0, held => pure held
  | number, count + 1, _ =>
    trying settings chance parent number fun last => rolling settings chance parent (number + 1) count last

/-- One attempt and then so many more at most are a loop of at least one attempt, and **whatever is held at first is
never taken**. Induction on the attempts that are left. -/
theorem spawnFrom_eq_rolling [Host] (settings : Config) (chance : Float) (parent : Piece) (number retries : Nat)
    (held : Piece × Float) :
    (spawnFrom settings chance parent number retries : Descending σ _)
      = rolling settings chance parent number (retries + 1) held := by
  induction retries generalizing number held with
  | zero =>
    rw [spawnFrom_zero, rolling]
    rfl
  | succ retries ih =>
    rw [spawnFrom_succ, rolling]
    congr 1
    funext last
    exact ih (number + 1) last

/-- What at most `count` attempts come to, of which the first one has a number: all but the last child are dull, and
the last one is taken, since it is interesting or since no attempt is left. -/
structure Rerolled [Host] (chance : Float) (parent : Piece) (number count : Nat) (d : Descent σ)
    (attempts : List Attempt) (last : Piece × Float) (d' : Descent σ) : Prop where
  pos : 1 ≤ attempts.length
  le : attempts.length ≤ count
  rolls : Rolls d.config chance parent d.source attempts d'.source
  dull : ∀ a ∈ attempts.dropLast, a.isDull (d.config.value .minInterest) = true
  taken : attempts.getLast?.map (fun a => (a.grown, a.interest)) = some last
  stops : (d.config.value .minInterest).atMost? (.float last.2) = some true ∨ attempts.length = count
  printed : d'.printed.toList
    = d.printed.toList ++ dullLines d.clock (d.config.value .minInterest) number attempts
  frame : d' = { d with source := d'.source, printed := d'.printed }

/-- **A loop of attempts.** Induction on the attempts that are left: after a dull child the rest is a loop from the
state in which that child was reported. -/
theorem rerolled_rolling [Host] (hleast : (d.config.value .minInterest).isNaN = false) {number count : Nat}
    (hcount : 1 ≤ count) {held : Piece × Float}
    (h : rolling d.config chance parent number count held d = (.ok last, d')) :
    ∃ attempts, Rerolled chance parent number count d attempts last d' := by
  induction count generalizing d number held with
  | zero => omega
  | succ count ih =>
    rw [rolling] at h
    obtain ⟨a, source, hdrawn, hgrown, ⟨hanswer, rfl, rfl⟩ | ⟨hanswer, h⟩⟩ := trying_eq_ok h
    · have hdull := isDull_eq_not hleast hgrown hanswer
      refine ⟨[a], Nat.le_refl 1, by simp, .cons hdrawn hgrown .nil, by simp, rfl, .inl hanswer, ?_, rfl⟩
      rw [dullLines_singleton_of_not_dull hdull, List.append_nil]
    · have hdull := isDull_eq_not hleast hgrown hanswer
      cases count with
      | zero =>
        -- no attempt is left: the dull child is taken
        cases h
        refine ⟨[a], Nat.le_refl 1, Nat.le_refl 1, .cons hdrawn hgrown .nil, by simp, rfl, .inr rfl, ?_, rfl⟩
        rw [dullLines_cons_of_dull hdull]
        exact Array.toList_appendList
      | succ count =>
        obtain ⟨attempts, hrest⟩ := ih (d := { d with source, printed := _ }) hleast (by omega) h
        have hne : attempts ≠ [] := List.ne_nil_of_length_pos hrest.pos
        refine ⟨a :: attempts, by simp, by simpa using hrest.le, .cons hdrawn hgrown hrest.rolls, ?_, ?_, ?_, ?_, ?_⟩
        · rw [List.dropLast_cons_of_ne_nil hne]
          exact List.forall_mem_cons.mpr ⟨hdull, hrest.dull⟩
        · rw [List.getLast?_cons_of_ne_nil hne]
          exact hrest.taken
        · exact hrest.stops.imp_right fun hlength => congrArg (· + 1) hlength
        · rw [hrest.printed, dullLines_cons_of_dull hdull]
          simp
        · exact hrest.frame

/-- **A parent is mutated until a child is interesting, once and then as often again as the settings allow.** Every
attempt is a mutation of the parent itself. All children but the last one are dull, and the last one is taken with its
own interest: it is interesting, or no attempt is left. Every dull child is reported once, with its number. Nothing
else happens, and the parent is left as it is. -/
theorem spawn_rerolls [Host] {child : Piece} {interest : Float} (hvalid : d.config.check = .ok ())
    (hleast : (d.config.value .minInterest).isNaN = false)
    (hspawn : spawn parent d = (.ok (child, interest), d')) :
    ∃ (retries : Nat) (chance : Float) (attempts : List Attempt),
      d.config.whole? .maxRetries = some (retries : Int)
      ∧ (d.config.value .mutationChance).toFloat? = some chance
      ∧ 1 ≤ attempts.length ∧ attempts.length ≤ retries + 1
      ∧ Rolls d.config chance parent d.source attempts d'.source
      ∧ (∀ a ∈ attempts.dropLast, a.isDull (d.config.value .minInterest) = true)
      ∧ attempts.getLast?.map (fun a => (a.grown, a.interest)) = some (child, interest)
      ∧ ((d.config.value .minInterest).atMost? (.float interest) = some true ∨ attempts.length = retries + 1)
      ∧ d'.printed.toList = d.printed.toList ++ dullLines d.clock (d.config.value .minInterest) 1 attempts
      ∧ d' = { d with source := d'.source, printed := d'.printed }
      ∧ Session.onDescent (spawn parent) ⟨d, some parent⟩ = (.ok (child, interest), ⟨d', some parent⟩) := by
  have hsession : Session.onDescent (spawn parent) ⟨d, some parent⟩ = (.ok (child, interest), ⟨d', some parent⟩) := by
    unfold Session.onDescent
    dsimp only
    rw [hspawn]
  unfold spawn at hspawn
  obtain ⟨_, _, hget, hspawn⟩ := bind_eq_ok.mp hspawn
  cases hget
  obtain ⟨retries, _, hneed, hspawn⟩ := bind_eq_ok.mp hspawn
  obtain ⟨hretries, rfl⟩ := need_eq_ok.mp hneed
  obtain ⟨chance, _, hneed, hspawn⟩ := bind_eq_ok.mp hspawn
  obtain ⟨hchance, rfl⟩ := need_eq_ok.mp hneed
  -- there is always a first attempt, so what is held before it does not matter
  rw [spawnFrom_eq_rolling _ _ _ _ _ (parent, 0.0)] at hspawn
  obtain ⟨attempts, h⟩ := rerolled_rolling hleast (by omega) hspawn
  have hnonneg : ((retries.toNat : Nat) : Int) = retries :=
    Int.toNat_of_nonneg (Config.nonneg_maxRetries hvalid hretries)
  refine ⟨retries.toNat, chance, attempts, ?_, hchance, h.pos, h.le, h.rolls, h.dull, h.taken, h.stops, h.printed,
    h.frame, hsession⟩
  rw [hnonneg]
  exact hretries

/-- A line whose source replaces the first instruction of a program and then leaves the program as it is. -/
def rerollingLine : Descent Draw.Script where
  clock := { timestamp := "2025-01-01T00:00:00", time := "00:00:00" }
  config :=
    ⟨fun
      | .kind => .str "brainfuck"
      | .mutationChance => .float 0.5
      | .stepLimit => .int 9
      | .minInterest => .float 0.02
      | .maxRetries => .int 3
      | s => s.initial⟩
  source := { rest := [0, 0, 999, 999, 999, 999, 999, 999, 999] }
  archive := { lineage := ⟨[]⟩ }
  folder := { home := [], root := .directory [] }

open scoped Host in
/-- The first child counts down from one and shows no sign that can be printed. The second one is the parent again,
and just interesting enough. -/
theorem spawn_rerolls_once : ∃ (program : Tape.Program) (child : Piece) (d' : Descent Draw.Script)
    (attempts : List Attempt),
    program.text = "-.-." ∧ rerollingLine.config.check = .ok ()
    ∧ (rerollingLine.config.value .minInterest).isNaN = false
    ∧ spawn (.tape (.start program "" (.int 1) .default)) rerollingLine = (.ok (child, 0.02), d')
    ∧ Rolls rerollingLine.config 0.5 (.tape (.start program "" (.int 1) .default))
      rerollingLine.source attempts d'.source
    ∧ 1 ≤ attempts.length ∧ attempts.length ≤ 4
    ∧ attempts.getLast?.map (fun a => (a.grown, a.interest)) = some (child, 0.02)
    ∧ dullLines rerollingLine.clock (.float 0.02) 1 attempts
      = ["[00:00:00] ↩️ Mutant 1 too dull (0.000), retrying"] := by
  let program : Tape.Program := ⟨#[.dec, .write, .dec, .write], #[none, none, none, none], rfl⟩
  have hvalid : rerollingLine.config.check = .ok () := by decide +kernel
  have hleast : (rerollingLine.config.value .minInterest).isNaN = false := by decide +kernel
  have hspawns : (match spawn (.tape (.start program "" (.int 1) .default)) rerollingLine with
      | (.ok (_, interest), d') => decide (interest = 0.02)
        && d'.printed == #["[00:00:00] ↩️ Mutant 1 too dull (0.000), retrying"]
      | _ => false) = true := by decide +kernel
  rcases hspawn : spawn (.tape (.start program "" (.int 1) .default)) rerollingLine with ⟨e | ⟨child, interest⟩, d'⟩
  · rw [hspawn] at hspawns
    cases hspawns
  · rw [hspawn, Bool.and_eq_true, decide_eq_true_eq, beq_iff_eq] at hspawns
    obtain ⟨rfl, hprinted⟩ := hspawns
    obtain ⟨retries, chance, attempts, hretries, hchance, hpos, hle, hrolls, _, hlast, _, hlines, _, _⟩ :=
      spawn_rerolls hvalid hleast hspawn
    cases hretries
    cases hchance
    rw [hprinted] at hlines
    exact ⟨program, child, d', attempts, rfl, hvalid, hleast, hspawn, hrolls, hpos, hle, hlast, hlines.symm⟩

end Descent

end ProgramArt

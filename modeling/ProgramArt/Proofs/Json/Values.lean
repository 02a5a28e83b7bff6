import ProgramArt.Datum.Depth
import ProgramArt.Proofs.Json.Numbers
import ProgramArt.Proofs.Json.Texts

/-!
# Values of a document

A document keeps nothing, truth values, integers that are not too long, doubles, the one NaN that has no mark of its
own, texts, and lists and mappings of those, as long as they are not nested too deeply and the keys of a mapping are
texts that differ: `Kept`. Each of these values is read from what is written for it (`readsBack_of_kept`). Items and
entries stand on lines of their own, so what follows a value is a comma, a line break or the end of the document.
-/

namespace ProgramArt.Json

open Binary64 Decimal Text

/-! ## Data that a document keeps -/

/-- A text, which can be the name of an entry. -/
def IsText (datum : Datum) : Prop :=
  ∃ codes, Proper codes ∧ datum = .ofCodes codes

/-- The data that a document keeps, nested at most so many times. -/
inductive Kept : Nat → Datum → Prop where
  | null {n : Nat} : Kept n .null
  | bool {n : Nat} (value : Bool) : Kept n (.bool value)
  | int {n : Nat} {value : Int} (h : value.natAbs < 10 ^ maxDigits) : Kept n (.int value)
  | float {n : Nat} {value : Float} (h : value.isNaN = false) : Kept n (.float value)
  | nan {n : Nat} : Kept n (.nan 0)
  | text {n : Nat} {datum : Datum} (h : IsText datum) : Kept n datum
  | list {n : Nat} {items : List Datum} (h : ∀ item ∈ items, Kept n item) : Kept (n + 1) (.list items)
  | map {n : Nat} {entries : List (Datum × Datum)} (hnames : ∀ entry ∈ entries, IsText entry.1)
    (hdistinct : (entries.map Prod.fst).Nodup) (hvalues : ∀ entry ∈ entries, Kept n entry.2) :
    Kept (n + 1) (.map entries)

/-- Texts without halves of pairs can be keys. -/
theorem isText_str (text : String) : IsText (.str text) :=
  ⟨codesOf text, proper_codesOf text, (Datum.ofCodes_codesOf text).symm⟩

theorem kept_str (n : Nat) (text : String) : Kept n (.str text) :=
  .text (isText_str text)

/-- The fields of a record have different names. -/
theorem kept_record {n : Nat} {fields : List (String × Datum)} (hnames : (fields.map Prod.fst).Nodup)
    (hvalues : ∀ field ∈ fields, Kept n field.2) : Kept (n + 1) (.record fields) := by
  refine .map ?_ ?_ ?_
  · intro entry hentry
    obtain ⟨field, _, rfl⟩ := List.mem_map.mp hentry
    exact isText_str field.1
  · have hkeys : (fields.map fun field => (Datum.str field.1, field.2)).map Prod.fst
        = (fields.map Prod.fst).map Datum.str := by
      simp
    rw [hkeys]
    exact hnames.map fun first second h => Datum.str.inj h
  · intro entry hentry
    obtain ⟨field, hfield, rfl⟩ := List.mem_map.mp hentry
    exact hvalues field hfield

/-- What is nested in a list is nested once less. -/
theorem mem_of_areWithin {items : List Datum} {depth : Nat} (h : Datum.areWithin items depth = true)
    {item : Datum} (hitem : item ∈ items) : item.isWithin depth = true := by
  induction items with
  | nil => cases hitem
  | cons first rest ih =>
    rw [Datum.areWithin, Bool.and_eq_true] at h
    rcases List.mem_cons.mp hitem with rfl | hitem
    · exact h.1
    · exact ih h.2 hitem

theorem mem_of_entriesWithin {entries : List (Datum × Datum)} {depth : Nat}
    (h : Datum.entriesWithin entries depth = true) {entry : Datum × Datum} (hentry : entry ∈ entries) :
    entry.2.isWithin depth = true := by
  induction entries with
  | nil => cases hentry
  | cons first rest ih =>
    obtain ⟨key, value⟩ := first
    rw [Datum.entriesWithin, Bool.and_eq_true, Bool.and_eq_true] at h
    rcases List.mem_cons.mp hentry with rfl | hentry
    · exact h.1.2
    · exact ih h.2 hentry

/-- How deep a datum is nested tells where it can be kept. -/
theorem Kept.within {n depth : Nat} {datum : Datum} (h : Kept n datum) (hdepth : datum.isWithin depth = true) :
    Kept depth datum := by
  induction h generalizing depth with
  | null => exact .null
  | bool value => exact .bool value
  | int h => exact .int h
  | float h => exact .float h
  | nan => exact .nan
  | text h => exact .text h
  | list _ ih =>
    rw [Datum.isWithin, Bool.and_eq_true, decide_eq_true_eq] at hdepth
    obtain ⟨depth, rfl⟩ : ∃ k, depth = k + 1 := ⟨depth - 1, by omega⟩
    exact .list fun item hitem => ih item hitem (mem_of_areWithin hdepth.2 hitem)
  | map hnames hdistinct _ ih =>
    rw [Datum.isWithin, Bool.and_eq_true, decide_eq_true_eq] at hdepth
    obtain ⟨depth, rfl⟩ : ∃ k, depth = k + 1 := ⟨depth - 1, by omega⟩
    exact .map hnames hdistinct fun entry hentry => ih entry hentry (mem_of_entriesWithin hdepth.2 hentry)

/-! ## Blanks and line breaks -/

/-- The characters of a line break and of the indentation of a level. -/
def gap (level : Nat) : List Char :=
  '\n' :: List.replicate (2 * level) ' '

theorem toList_newline (level : Nat) : (newline level).toList = gap level := by
  simp [newline, gap]

theorem skipSpace_cons {c : Char} (hc : isSpace c = false) (rest : List Char) :
    skipSpace (c :: rest) = c :: rest := by
  simp [skipSpace, hc]

/-- A `gap` is skipped up to the next character. -/
theorem skipSpace_gap (level : Nat) {c : Char} (hc : isSpace c = false) (rest : List Char) :
    skipSpace (gap level ++ c :: rest) = c :: rest := by
  have hall : ∀ space ∈ gap level, isSpace space = true := by
    intro space hspace
    rcases List.mem_cons.mp hspace with rfl | hspace
    · rfl
    · rw [List.eq_of_mem_replicate hspace]
      rfl
  rw [skipSpace, List.dropWhile_append_of_pos hall]
  exact skipSpace_cons hc rest

theorem stops_gap (level : Nat) (rest : List Char) : Stops (gap level ++ rest) :=
  stops_cons (.inr rfl)

/-- The lines between two brackets. -/
def linesChars (level : Nat) (items : List (List Char)) : List Char :=
  List.intercalate (',' :: gap (level + 1)) items

/-- Lines are joined with commas and gaps. -/
theorem linesChars_cons_cons (level : Nat) (line next : List Char) (lines : List (List Char)) :
    linesChars level (line :: next :: lines) =
      line ++ ',' :: (gap (level + 1) ++ linesChars level (next :: lines)) := by
  simp [linesChars, List.intercalate_cons_cons]

/-- A `block` has its lines between brackets. -/
theorem toList_block (opening closing : String) (level : Nat) {items : List String} (hne : items ≠ []) :
    (block opening closing level items).toList
      = opening.toList ++ (gap (level + 1) ++ (linesChars level (items.map String.toList)
        ++ (gap level ++ closing.toList))) := by
  rw [block, if_neg (by simpa using hne)]
  simp [String.toList_append, toList_newline, String.toList_intercalate, linesChars]

/-! ## How the text of a value starts -/

/-- A text starts with something that is no blank and closes no collection. -/
def Opens (text : List Char) : Prop :=
  ∃ c more, text = c :: more ∧ isSpace c = false ∧ c ≠ ']' ∧ c ≠ '\x7d'

theorem skipSpace_gap_of_opens (level : Nat) {text : List Char} (h : Opens text) :
    skipSpace (gap level ++ text) = text := by
  obtain ⟨c, more, rfl, hspace, -⟩ := h
  exact skipSpace_gap level hspace more

theorem Opens.append {text : List Char} (h : Opens text) (rest : List Char) : Opens (text ++ rest) := by
  obtain ⟨c, more, rfl, hspace, hclose⟩ := h
  exact ⟨c, more ++ rest, rfl, hspace, hclose⟩

/-- Lines start as the first of them does. -/
theorem opens_linesChars (level : Nat) {line : List Char} (h : Opens line) (lines : List (List Char)) :
    Opens (linesChars level (line :: lines)) := by
  cases lines with
  | nil =>
    rw [linesChars, List.intercalate_singleton]
    exact h
  | cons next lines =>
    rw [linesChars_cons_cons]
    exact h.append _

theorem opens_digit {c : Char} (h : c.isDigit = true) (rest : List Char) : Opens (c :: rest) := by
  refine ⟨c, rest, rfl, ?_, ?_⟩
  · rw [Bool.eq_false_iff]
    intro hspace
    simp only [isSpace, Bool.or_eq_true, beq_iff_eq] at hspace
    rcases hspace with ((rfl | rfl) | rfl) | rfl <;> simp at h
  · constructor <;> rintro rfl <;> simp at h

/-- A number starts with a digit or a minus sign. -/
theorem opens_number (negative : Bool) {whole : List Char} (h : IsWhole whole) (rest : List Char) :
    Opens (signChars negative ++ (whole ++ rest)) := by
  cases negative with
  | true => exact ⟨'-', _, rfl, rfl, by decide⟩
  | false =>
    obtain ⟨c, more, rfl⟩ := List.exists_cons_of_ne_nil h.ne_nil
    exact opens_digit (h.isDigit c List.mem_cons_self) _

/-- A double that is a number is infinite, or it is written with the shortest digits. -/
theorem number_cases {x : Float} (h : x.isNaN = false) :
    (∃ negative, x = infinity negative)
      ∨ ∃ negative mantissa exponent, parts x = .finite negative mantissa exponent
        ∧ number x = Layout.value.format x := by
  cases hparts : parts x with
  | nan =>
    rw [isNaN_iff.mpr hparts] at h
    cases h
  | infinite negative => exact .inl ⟨negative, eq_infinity_of_parts hparts⟩
  | finite negative mantissa exponent =>
    refine .inr ⟨negative, mantissa, exponent, rfl, ?_⟩
    rw [number, hparts]

/-- A text is written in quotes, as a value and as a key. -/
theorem printAt_isText {datum : Datum} (h : IsText datum) (level : Nat) :
    ∃ codes, Proper codes ∧ datum = .ofCodes codes ∧ printAt level datum = codesString codes
      ∧ key datum = codesString codes := by
  obtain ⟨codes, hproper, rfl⟩ := h
  refine ⟨codes, hproper, rfl, ?_⟩
  by_cases hhalf : codes.any isHalf = true
  · rw [Datum.ofCodes, if_pos hhalf]
    exact ⟨rfl, rfl⟩
  · have hstring := string_ofCodes hproper.areCodes (Bool.eq_false_iff.mpr hhalf)
    rw [Datum.ofCodes, if_neg hhalf]
    exact ⟨hstring, hstring⟩

theorem toList_codesString (codes : Codes) :
    (codesString codes).toList = '"' :: (codes.flatMap escapeCode ++ ['"']) := by
  simp [codesString]

/-- The values with names are written as their names. -/
theorem toList_printAt_name {name : List Char} {value : Datum} (h : (name, value) ∈ names) (level : Nat) :
    (printAt level value).toList = name ∧ Opens name := by
  simp only [names, List.mem_cons, List.not_mem_nil, or_false, Prod.mk.injEq] at h
  rcases h with ⟨rfl, rfl⟩ | ⟨rfl, rfl⟩ | ⟨rfl, rfl⟩ | ⟨rfl, rfl⟩ | ⟨rfl, rfl⟩ | ⟨rfl, rfl⟩ <;>
    exact ⟨by simp only [printAt]; rfl, _, _, rfl, rfl, by decide⟩

theorem opens_name {value : Datum} (h : value ∈ names.map Prod.snd) (level : Nat) :
    Opens (printAt level value).toList := by
  obtain ⟨⟨name, value⟩, hname, rfl⟩ := List.mem_map.mp h
  obtain ⟨htext, hopens⟩ := toList_printAt_name hname level
  rw [htext]
  exact hopens

/-- The text of every value that is kept `Opens` as a value does. -/
theorem opens_printAt {n : Nat} {datum : Datum} (h : Kept n datum) (level : Nat) :
    Opens (printAt level datum).toList := by
  cases h with
  | null => exact opens_name (by simp [names]) level
  | bool value => cases value <;> exact opens_name (by simp [names]) level
  | int =>
    rename_i value _
    have hopens := opens_number (decide (value < 0)) (isWhole_toDigits value.natAbs) []
    rw [List.append_nil, ← toList_toString_int] at hopens
    exact hopens
  | float hnan =>
    rename_i value
    obtain ⟨negative, rfl⟩ | ⟨negative, mantissa, exponent, hparts, htext⟩ := number_cases hnan
    · cases negative <;> exact opens_name (by simp [names]) level
    · change Opens (number value).toList
      obtain ⟨⟨whole, fraction, power, hformat, hwhole, -⟩, -⟩ := isDecimal_format hparts
      rw [htext, hformat]
      exact opens_number negative hwhole _
  | nan => exact opens_name (by simp [names]) level
  | text htext =>
    obtain ⟨codes, -, -, hprint, -⟩ := printAt_isText htext level
    rw [hprint, toList_codesString]
    exact ⟨'"', _, rfl, rfl, by decide⟩
  | list =>
    rename_i items _
    change Opens (block "[" "]" level (printItems (level + 1) items)).toList
    unfold block
    split <;> exact ⟨'[', _, by simp [String.toList_append]; rfl, rfl, by decide⟩
  | map =>
    rename_i entries _ _ _
    change Opens (block "\x7b" "\x7d" level (printEntries (level + 1) entries)).toList
    unfold block
    split <;> exact ⟨'\x7b', _, by simp [String.toList_append]; rfl, rfl, by decide⟩

/-! ## Names and numbers -/

/-- The name of a value is read as the value. -/
theorem literal?_append {name : List Char} {value : Datum} (h : (name, value) ∈ names) (rest : List Char) :
    literal? (name ++ rest) = some (value, rest) := by
  simp only [names, List.mem_cons, List.not_mem_nil, or_false, Prod.mk.injEq] at h
  rcases h with ⟨rfl, rfl⟩ | ⟨rfl, rfl⟩ | ⟨rfl, rfl⟩ | ⟨rfl, rfl⟩ | ⟨rfl, rfl⟩ | ⟨rfl, rfl⟩ <;> rfl

/-- What does not start with a quote or a bracket is a name or a number. -/
theorem readValue_scalar [Host] (depth fuel : Nat) {c : Char} (rest : List Char) (hquote : c ≠ '"')
    (hlist : c ≠ '[') (hmap : c ≠ '\x7b') :
    readValue depth (fuel + 1) (c :: rest)
      = orMalformed ((literal? (c :: rest)).orElse fun _ => readNumber? (c :: rest)) := by
  rw [readValue]
  · rintro more heq
    cases heq
    exact hquote rfl
  · rintro more heq
    cases heq
    exact hlist rfl
  · rintro more heq
    cases heq
    exact hmap rfl

/-- A value that starts with no quote and no bracket is a name or a number. -/
theorem readValue_opens [Host] (depth fuel : Nat) {text : List Char} (h : Opens text)
    (hscalar : ∀ c ∈ text.head?, c ≠ '"' ∧ c ≠ '[' ∧ c ≠ '\x7b') :
    readValue depth (fuel + 1) text = orMalformed ((literal? text).orElse fun _ => readNumber? text) := by
  obtain ⟨c, more, rfl, -⟩ := h
  obtain ⟨hquote, hlist, hmap⟩ := hscalar c rfl
  exact readValue_scalar depth fuel more hquote hlist hmap

theorem readValue_name [Host] (depth fuel level : Nat) {value : Datum} (h : value ∈ names.map Prod.snd)
    (rest : List Char) :
    readValue depth (fuel + 1) ((printAt level value).toList ++ rest) = .ok (value, rest) := by
  obtain ⟨⟨name, value⟩, hname, rfl⟩ := List.mem_map.mp h
  have hscalar : readValue depth (fuel + 1) (name ++ rest)
      = orMalformed ((literal? (name ++ rest)).orElse fun _ => readNumber? (name ++ rest)) := by
    simp only [names, List.mem_cons, List.not_mem_nil, or_false, Prod.mk.injEq] at hname
    rcases hname with ⟨rfl, rfl⟩ | ⟨rfl, rfl⟩ | ⟨rfl, rfl⟩ | ⟨rfl, rfl⟩ | ⟨rfl, rfl⟩ | ⟨rfl, rfl⟩ <;>
      exact readValue_scalar depth fuel _ (by decide) (by decide) (by decide)
  rw [(toList_printAt_name hname level).1, hscalar, literal?_append hname]
  rfl

theorem readValue_number [Host] (depth fuel : Nat) (negative : Bool) {whole rest : List Char}
    {value : Datum × List Char}
    (hwhole : IsWhole whole) (h : readNumber? (signChars negative ++ (whole ++ rest)) = some value) :
    readValue depth (fuel + 1) (signChars negative ++ (whole ++ rest)) = .ok value := by
  have hdigit : ∀ c : Char, c.isDigit = true → c ≠ '"' ∧ c ≠ '[' ∧ c ≠ '\x7b' := by
    intro c hc
    refine ⟨?_, ?_, ?_⟩ <;> rintro rfl <;> simp at hc
  have hhead : ∀ c ∈ (signChars negative ++ (whole ++ rest)).head?, c ≠ '"' ∧ c ≠ '[' ∧ c ≠ '\x7b' := by
    obtain ⟨first, more, rfl⟩ := List.exists_cons_of_ne_nil hwhole.ne_nil
    intro c hc
    cases negative with
    | true =>
      cases hc
      decide
    | false =>
      cases hc
      exact hdigit first (hwhole.isDigit first List.mem_cons_self)
  rw [readValue_opens depth fuel (opens_number negative hwhole rest) hhead, literal?_parts negative hwhole, h]
  rfl

/-- **An integer that is not too long reads back** inside of a document. -/
theorem readValue_int [Host] (depth fuel level : Nat) {n : Int} (h : n.natAbs < 10 ^ maxDigits) {rest : List Char}
    (hrest : Stops rest) :
    readValue depth (fuel + 1) ((printAt level (.int n)).toList ++ rest) = .ok (.int n, rest) := by
  have hread := readNumber?_int h hrest
  change readValue depth (fuel + 1) ((toString n).toList ++ rest) = _
  rw [toList_toString_int, List.append_assoc] at hread ⊢
  exact readValue_number depth fuel _ (isWhole_toDigits n.natAbs) hread

/-- **A double reads back** inside of a document. -/
theorem readValue_float [Host] (depth fuel level : Nat) {x : Float} (h : x.isNaN = false) {rest : List Char}
    (hrest : Stops rest) :
    readValue depth (fuel + 1) ((printAt level (.float x)).toList ++ rest) = .ok (.float x, rest) := by
  obtain ⟨negative, rfl⟩ | ⟨negative, mantissa, exponent, hparts, htext⟩ := number_cases h
  · cases negative <;> exact readValue_name depth fuel level (by simp [names]) rest
  · obtain ⟨⟨whole, fraction, power, hformat, hwhole, -⟩, -⟩ := isDecimal_format hparts
    have hread := readNumber?_float hparts hrest
    change readValue depth (fuel + 1) ((number x).toList ++ rest) = _
    rw [htext]
    rw [hformat, List.append_assoc, List.append_assoc] at hread ⊢
    exact readValue_number depth fuel negative hwhole hread

/-- **A text reads back.** -/
theorem readValue_text [Host] (depth fuel : Nat) {codes : Codes} (h : Proper codes) (rest : List Char) :
    readValue depth (fuel + 1) ((codesString codes).toList ++ rest) = .ok (.ofCodes codes, rest) := by
  rw [toList_codesString, List.cons_append, List.append_assoc, List.singleton_append, readValue,
    readText?_codes h]
  rfl

/-! ## Collections -/

/-- What reads a value at a depth back from its text at a level. -/
def ReadsBack [Host] (depth level : Nat) (value : Datum) : Prop :=
  ∀ fuel rest, 2 * ((printAt level value).toList ++ rest).length ≤ fuel → Stops rest →
    readValue depth fuel ((printAt level value).toList ++ rest) = .ok (value, rest)

/-- The lines of the items of a list. -/
def itemLines (level : Nat) (items : List Datum) : List Char :=
  linesChars level (items.map fun item => (printAt (level + 1) item).toList)

/-- **The items of a list read back**, line by line. -/
theorem readItems_lines [Host] {depth level : Nat} {items : List Datum} (hne : items ≠ [])
    (hopens : ∀ item ∈ items, Opens (printAt (level + 1) item).toList)
    (hitems : ∀ item ∈ items, ReadsBack depth (level + 1) item) (rest : List Char) (seen : List Datum) {fuel : Nat}
    (hfuel : 2 * (itemLines level items ++ (gap level ++ ']' :: rest)).length < fuel) :
    readItems depth fuel (itemLines level items ++ (gap level ++ ']' :: rest)) seen
      = .ok (seen.reverse ++ items, rest) := by
  induction items generalizing seen fuel with
  | nil => exact absurd rfl hne
  | cons item items ih =>
    obtain ⟨fuel, rfl⟩ : ∃ k, fuel = k + 1 := ⟨fuel - 1, by omega⟩
    have hitem := hitems item List.mem_cons_self
    cases items with
    | nil =>
      simp only [itemLines, linesChars, List.map_cons, List.map_nil, List.intercalate_singleton] at hfuel ⊢
      rw [readItems, hitem fuel _ (by omega) (stops_gap level _)]
      dsimp only
      rw [skipSpace_gap level rfl]
      simp
    | cons next items =>
      have htext : itemLines level (item :: next :: items) ++ (gap level ++ ']' :: rest)
          = (printAt (level + 1) item).toList
            ++ ',' :: (gap (level + 1) ++ (itemLines level (next :: items) ++ (gap level ++ ']' :: rest))) := by
        simp [itemLines, linesChars_cons_cons]
      have hnext : Opens (itemLines level (next :: items)) := opens_linesChars level (hopens next (by simp)) _
      rw [htext] at hfuel ⊢
      rw [readItems, hitem fuel _ (by omega) (stops_cons (.inl rfl))]
      dsimp only
      -- the comma is taken, and the next line starts behind the gap
      rw [skipSpace_cons rfl]
      change readItems depth fuel (skipSpace (gap (level + 1) ++ _)) (item :: seen) = _
      rw [skipSpace_gap_of_opens _ (hnext.append _), ih (by simp) (fun other hother => hopens other (.tail _ hother))
        (fun other hother => hitems other (.tail _ hother))]
      · simp
      · simp only [List.length_append, List.length_cons] at hfuel ⊢
        omega

/-! ## Mappings -/

/-- Texts are found under the same text only. -/
theorem sameInside_iff {first second : Datum} (hfirst : IsText first) (hsecond : IsText second) :
    first.sameInside second = true ↔ first = second := by
  obtain ⟨codes, -, rfl⟩ := hfirst
  obtain ⟨others, -, rfl⟩ := hsecond
  unfold Datum.ofCodes
  split <;> split <;> simp [Datum.sameInside, Datum.isSameNan, Datum.same]

/-- A key that is new goes to the end of a mapping. -/
theorem insert_eq_append {name value : Datum} {seen : List (Datum × Datum)} (hname : IsText name)
    (hseen : ∀ entry ∈ seen, IsText entry.1) (hnew : name ∉ seen.map Prod.fst) :
    Datum.insert name value seen = seen ++ [(name, value)] := by
  induction seen with
  | nil => rfl
  | cons entry seen ih =>
    obtain ⟨other, old⟩ := entry
    simp only [List.map_cons, List.mem_cons, not_or] at hnew
    have hne : Datum.sameInside name other = false := by
      rw [Bool.eq_false_iff, ne_eq, sameInside_iff hname (hseen _ List.mem_cons_self)]
      exact hnew.1
    rw [Datum.insert, hne, if_neg Bool.false_ne_true, ih (fun e he => hseen e (.tail _ he)) hnew.2,
      List.cons_append]

/-- What is in a mapping after `Datum.insert` was there before, or has the new value. -/
theorem mem_insert {name value : Datum} {seen : List (Datum × Datum)} {entry : Datum × Datum}
    (h : entry ∈ Datum.insert name value seen) :
    entry ∈ seen ∨ entry.2 = value ∧ (entry.1 = name ∨ entry.1 ∈ seen.map Prod.fst) := by
  induction seen with
  | nil =>
    rw [List.mem_singleton.mp h]
    exact .inr ⟨rfl, .inl rfl⟩
  | cons first seen ih =>
    obtain ⟨other, old⟩ := first
    unfold Datum.insert at h
    split at h
    · rcases List.mem_cons.mp h with rfl | h
      · exact .inr ⟨rfl, .inr (by simp)⟩
      · exact .inl (.tail _ h)
    · rcases List.mem_cons.mp h with rfl | h
      · exact .inl List.mem_cons_self
      · rcases ih h with h | ⟨hvalue, hkey⟩
        · exact .inl (.tail _ h)
        · exact .inr ⟨hvalue, hkey.imp_right fun hkey => by simp [hkey]⟩

/-- A key that is there keeps its place. -/
theorem keys_insert_of_mem {name : Datum} (value : Datum) {seen : List (Datum × Datum)} (hname : IsText name)
    (hseen : ∀ entry ∈ seen, IsText entry.1) (hmem : name ∈ seen.map Prod.fst) :
    (Datum.insert name value seen).map Prod.fst = seen.map Prod.fst := by
  induction seen with
  | nil => cases hmem
  | cons entry seen ih =>
    obtain ⟨other, old⟩ := entry
    unfold Datum.insert
    split
    · rfl
    · rename_i hne
      rw [sameInside_iff hname (hseen _ List.mem_cons_self)] at hne
      rw [List.map_cons, List.map_cons, ih (fun e he => hseen e (.tail _ he))]
      exact (List.mem_cons.mp hmem).resolve_left hne

/-- The keys of a mapping stay different. -/
theorem nodup_keys_insert {name : Datum} (value : Datum) {seen : List (Datum × Datum)} (hname : IsText name)
    (hseen : ∀ entry ∈ seen, IsText entry.1) (hdistinct : (seen.map Prod.fst).Nodup) :
    ((Datum.insert name value seen).map Prod.fst).Nodup := by
  by_cases hmem : name ∈ seen.map Prod.fst
  · rw [keys_insert_of_mem value hname hseen hmem]
    exact hdistinct
  · rw [insert_eq_append hname hseen hmem, List.map_append, List.map_singleton]
    rw [← List.concat_eq_append]
    exact hdistinct.concat hmem

/-- The text of an entry. -/
def entryChars (level : Nat) (entry : Datum × Datum) : List Char :=
  (key entry.1).toList ++ ':' :: ' ' :: (printAt level entry.2).toList

/-- The lines of the entries of a mapping. -/
def entryLines (level : Nat) (entries : List (Datum × Datum)) : List Char :=
  linesChars level (entries.map (entryChars (level + 1)))

theorem opens_entryChars (level : Nat) {entry : Datum × Datum} (h : IsText entry.1) :
    Opens (entryChars level entry) := by
  obtain ⟨codes, -, -, -, hkey⟩ := printAt_isText h level
  rw [entryChars, hkey, toList_codesString]
  exact ⟨'"', _, rfl, rfl, by decide⟩

/-- The name and the value of an entry are read, and what follows decides how to go on. -/
theorem readEntries_entry [Host] {depth level : Nat} {name value : Datum} (hname : IsText name)
    (hopens : Opens (printAt level value).toList) (hvalue : ReadsBack depth level value) {after : List Char}
    (hafter : Stops after) (seen : List (Datum × Datum)) {fuel : Nat}
    (hfuel : 2 * (entryChars level (name, value) ++ after).length < fuel + 1) :
    (∀ rest, skipSpace after = ',' :: rest →
      readEntries depth (fuel + 1) (entryChars level (name, value) ++ after) seen
        = readEntries depth fuel (skipSpace rest) (Datum.insert name value seen))
      ∧ ∀ rest, skipSpace after = '\x7d' :: rest →
        readEntries depth (fuel + 1) (entryChars level (name, value) ++ after) seen
          = .ok (Datum.insert name value seen, rest) := by
  obtain ⟨codes, hproper, hcodes, -, hkey⟩ := printAt_isText hname level
  have htext : entryChars level (name, value) ++ after
      = '"' :: (codes.flatMap escapeCode ++ '"' :: ':' :: ' ' :: ((printAt level value).toList ++ after)) := by
    simp [entryChars, hkey, toList_codesString]
  have hspace : skipSpace (' ' :: ((printAt level value).toList ++ after)) = (printAt level value).toList ++ after := by
    obtain ⟨c, more, htext, hc, -⟩ := hopens.append after
    rw [htext]
    exact skipSpace_cons hc more
  rw [htext] at hfuel ⊢
  rw [readEntries, readText?_codes hproper]
  dsimp only
  have hread := hvalue fuel after (by simp only [List.length_append, List.length_cons] at hfuel ⊢; omega) hafter
  rw [skipSpace_cons rfl]
  simp only [hspace, hread, ← hcodes]
  constructor
  · intro rest hrest
    rw [hrest]
    rfl
  · intro rest hrest
    rw [hrest]
    rfl

/-- **The entries of a mapping read back**, line by line. -/
theorem readEntries_lines [Host] {depth level : Nat} {entries : List (Datum × Datum)} (hne : entries ≠ [])
    (hnames : ∀ entry ∈ entries, IsText entry.1)
    (hopens : ∀ entry ∈ entries, Opens (printAt (level + 1) entry.2).toList)
    (hvalues : ∀ entry ∈ entries, ReadsBack depth (level + 1) entry.2) (rest : List Char)
    {seen : List (Datum × Datum)} (hseen : ∀ entry ∈ seen, IsText entry.1)
    (hdistinct : ((seen ++ entries).map Prod.fst).Nodup) {fuel : Nat}
    (hfuel : 2 * (entryLines level entries ++ (gap level ++ '\x7d' :: rest)).length < fuel) :
    readEntries depth fuel (entryLines level entries ++ (gap level ++ '\x7d' :: rest)) seen
      = .ok (seen ++ entries, rest) := by
  induction entries generalizing seen fuel with
  | nil => exact absurd rfl hne
  | cons entry entries ih =>
    obtain ⟨fuel, rfl⟩ : ∃ k, fuel = k + 1 := ⟨fuel - 1, by omega⟩
    obtain ⟨name, value⟩ := entry
    have hname : IsText name := hnames (name, value) List.mem_cons_self
    have hvalue : ReadsBack depth (level + 1) value := hvalues (name, value) List.mem_cons_self
    have hopen : Opens (printAt (level + 1) value).toList := hopens (name, value) List.mem_cons_self
    -- the name is new, so the entry goes to the end of those that have been read
    have hnew : name ∉ seen.map Prod.fst := by
      intro hmem
      rw [List.map_append, List.nodup_append] at hdistinct
      exact hdistinct.2.2 name hmem name (by simp) rfl
    have hinsert := @insert_eq_append name value seen hname hseen hnew
    cases entries with
    | nil =>
      simp only [entryLines, linesChars, List.map_cons, List.map_nil, List.intercalate_singleton] at hfuel ⊢
      have hentry := readEntries_entry hname hopen hvalue (stops_gap level ('\x7d' :: rest)) seen hfuel
      have hskip : skipSpace (gap level ++ '\x7d' :: rest) = '\x7d' :: rest := skipSpace_gap level rfl rest
      rw [hentry.2 rest hskip, hinsert]
    | cons next entries =>
      have htext : entryLines level ((name, value) :: next :: entries) ++ (gap level ++ '\x7d' :: rest)
          = entryChars (level + 1) (name, value)
            ++ ',' :: (gap (level + 1) ++ (entryLines level (next :: entries) ++ (gap level ++ '\x7d' :: rest))) := by
        simp [entryLines, linesChars_cons_cons]
      have hnext : Opens (entryLines level (next :: entries)) :=
        opens_linesChars level (opens_entryChars (level + 1) (hnames next (by simp))) _
      rw [htext] at hfuel ⊢
      have hstops : Stops (',' :: (gap (level + 1)
          ++ (entryLines level (next :: entries) ++ (gap level ++ '\x7d' :: rest)))) := stops_cons (.inl rfl)
      rw [(readEntries_entry hname hopen hvalue hstops seen hfuel).1 _ (skipSpace_cons rfl _),
        skipSpace_gap_of_opens _ (hnext.append _), hinsert,
        ih (by simp) (fun e he => hnames e (.tail _ he)) (fun e he => hopens e (.tail _ he))
          (fun e he => hvalues e (.tail _ he))]
      · simp
      · intro e he
        rcases List.mem_append.mp he with he | he
        · exact hseen e he
        · rw [List.mem_singleton.mp he]
          exact hname
      · simpa using hdistinct
      · simp only [List.length_append, List.length_cons] at hfuel ⊢
        omega

/-! ## Reading what is written -/

/-- The items of a list are written one by one. -/
theorem printItems_eq (level : Nat) (items : List Datum) : printItems level items = items.map (printAt level) := by
  induction items with
  | nil => rfl
  | cons item items ih => rw [printItems, ih, List.map_cons]

theorem printEntries_eq (level : Nat) (entries : List (Datum × Datum)) :
    printEntries level entries = entries.map fun entry => key entry.1 ++ ": " ++ printAt level entry.2 := by
  induction entries with
  | nil => rfl
  | cons entry entries ih =>
    obtain ⟨name, value⟩ := entry
    rw [printEntries, ih, List.map_cons]

/-- A list is written as its items between brackets. -/
theorem toList_printAt_list (level : Nat) {items : List Datum} (hne : items ≠ []) :
    (printAt level (.list items)).toList
      = '[' :: (gap (level + 1) ++ (itemLines level items ++ (gap level ++ [']']))) := by
  rw [printAt, printItems_eq, toList_block "[" "]" level (by simpa using hne), List.map_map]
  rfl

/-- A mapping is written as its entries between braces. -/
theorem toList_printAt_map (level : Nat) {entries : List (Datum × Datum)} (hne : entries ≠ []) :
    (printAt level (.map entries)).toList
      = '\x7b' :: (gap (level + 1) ++ (entryLines level entries ++ (gap level ++ ['\x7d']))) := by
  have hlines : (entries.map fun entry => key entry.1 ++ ": " ++ printAt (level + 1) entry.2).map String.toList
      = entries.map (entryChars (level + 1)) := by
    rw [List.map_map]
    refine List.map_congr_left fun entry _ => ?_
    simp [entryChars, String.toList_append]
  rw [printAt, printEntries_eq, toList_block "\x7b" "\x7d" level (by simpa using hne), hlines]
  rfl

theorem toList_printAt_nil (level : Nat) :
    (printAt level (.list [])).toList = ['[', ']'] ∧ (printAt level (.map [])).toList = ['\x7b', '\x7d'] := by
  constructor
  · simp [printAt, printItems, block]
  · simp [printAt, printEntries, block]

/-- Behind a bracket the items of a list are read, if the list may be nested there. -/
theorem readValue_items [Host] {depth : Nat} (hdepth : depth < Host.documentDepth) (fuel level : Nat) {text : List Char}
    (h : Opens text) :
    readValue depth (fuel + 1) ('[' :: (gap level ++ text))
      = (readItems (depth + 1) fuel text []).map fun (items, rest) => (.list items, rest) := by
  obtain ⟨c, more, rfl, hspace, hclose, -⟩ := h
  rw [readValue, if_neg (by omega), skipSpace_gap level hspace]
  split
  · rename_i heq
    cases heq
    exact absurd rfl hclose
  · rfl

theorem readValue_entries [Host] {depth : Nat} (hdepth : depth < Host.documentDepth) (fuel level : Nat)
    {text : List Char} (h : Opens text) :
    readValue depth (fuel + 1) ('\x7b' :: (gap level ++ text))
      = (readEntries (depth + 1) fuel text []).map fun (entries, rest) => (.map entries, rest) := by
  obtain ⟨c, more, rfl, hspace, -, hclose⟩ := h
  rw [readValue, if_neg (by omega), skipSpace_gap level hspace]
  split
  · rename_i heq
    cases heq
    exact absurd rfl hclose
  · rfl

/-- A list reads back if its items do. -/
theorem readsBack_list [Host] {depth level : Nat} {items : List Datum} (hdepth : depth < Host.documentDepth)
    (hopens : ∀ item ∈ items, Opens (printAt (level + 1) item).toList)
    (hitems : ∀ item ∈ items, ReadsBack (depth + 1) (level + 1) item) : ReadsBack depth level (.list items) := by
  intro fuel rest hfuel _
  cases items with
  | nil =>
    rw [(toList_printAt_nil level).1] at hfuel ⊢
    obtain ⟨fuel, rfl⟩ : ∃ k, fuel = k + 1 := ⟨fuel - 1, by simp at hfuel; omega⟩
    change readValue depth (fuel + 1) ('[' :: ']' :: rest) = _
    rw [readValue, if_neg (by omega), skipSpace_cons rfl]
    rfl
  | cons item items =>
    have htext : (printAt level (.list (item :: items))).toList ++ rest
        = '[' :: (gap (level + 1) ++ (itemLines level (item :: items) ++ (gap level ++ ']' :: rest))) := by
      simp [toList_printAt_list level (List.cons_ne_nil item items)]
    have hopen : Opens (itemLines level (item :: items)) :=
      opens_linesChars level (hopens item List.mem_cons_self) _
    rw [htext] at hfuel ⊢
    obtain ⟨fuel, rfl⟩ : ∃ k, fuel = k + 1 := ⟨fuel - 1, by simp at hfuel; omega⟩
    rw [readValue_items hdepth fuel (level + 1) (hopen.append _),
      readItems_lines (List.cons_ne_nil item items) hopens hitems]
    · rfl
    · simp only [List.length_append, List.length_cons] at hfuel ⊢
      omega

/-- A mapping reads back if its values do, since its keys are texts that differ. -/
theorem readsBack_map [Host] {depth level : Nat} {entries : List (Datum × Datum)} (hdepth : depth < Host.documentDepth)
    (hnames : ∀ entry ∈ entries, IsText entry.1) (hdistinct : (entries.map Prod.fst).Nodup)
    (hopens : ∀ entry ∈ entries, Opens (printAt (level + 1) entry.2).toList)
    (hvalues : ∀ entry ∈ entries, ReadsBack (depth + 1) (level + 1) entry.2) :
    ReadsBack depth level (.map entries) := by
  intro fuel rest hfuel _
  cases entries with
  | nil =>
    rw [(toList_printAt_nil level).2] at hfuel ⊢
    obtain ⟨fuel, rfl⟩ : ∃ k, fuel = k + 1 := ⟨fuel - 1, by simp at hfuel; omega⟩
    change readValue depth (fuel + 1) ('\x7b' :: '\x7d' :: rest) = _
    rw [readValue, if_neg (by omega), skipSpace_cons rfl]
    rfl
  | cons entry entries =>
    have htext : (printAt level (.map (entry :: entries))).toList ++ rest
        = '\x7b' :: (gap (level + 1) ++ (entryLines level (entry :: entries) ++ (gap level ++ '\x7d' :: rest))) := by
      simp [toList_printAt_map level (List.cons_ne_nil entry entries)]
    have hopen : Opens (entryLines level (entry :: entries)) :=
      opens_linesChars level (opens_entryChars (level + 1) (hnames entry List.mem_cons_self)) _
    rw [htext] at hfuel ⊢
    obtain ⟨fuel, rfl⟩ : ∃ k, fuel = k + 1 := ⟨fuel - 1, by simp at hfuel; omega⟩
    rw [readValue_entries hdepth fuel (level + 1) (hopen.append _),
      readEntries_lines (List.cons_ne_nil entry entries) hnames hopens hvalues rest (by simp) hdistinct]
    · rfl
    · simp only [List.length_append, List.length_cons] at hfuel ⊢
      omega

/-- A text is not empty, so there is fuel for one step. -/
theorem readsBack_of_step [Host] {depth level : Nat} {value : Datum} (hopens : Opens (printAt level value).toList)
    (hread : ∀ fuel rest, Stops rest →
      readValue depth (fuel + 1) ((printAt level value).toList ++ rest) = .ok (value, rest)) :
    ReadsBack depth level value := by
  intro fuel rest hfuel hrest
  obtain ⟨fuel, rfl⟩ : ∃ k, fuel = k + 1 := by
    obtain ⟨c, more, htext, -⟩ := hopens
    rw [htext] at hfuel
    exact ⟨fuel - 1, by simp at hfuel; omega⟩
  exact hread fuel rest hrest

/-- **What is written for a value is read as the value**, whatever follows it. -/
theorem readsBack_of_kept [Host] {n : Nat} {value : Datum} (h : Kept n value) {depth : Nat} (level : Nat)
    (hdepth : depth + n ≤ Host.documentDepth) : ReadsBack depth level value := by
  induction h generalizing depth level with
  | @null n =>
    refine readsBack_of_step (opens_printAt (@Kept.null n) level) fun fuel rest _ => ?_
    exact readValue_name depth fuel level (by simp [names]) rest
  | @bool n value =>
    refine readsBack_of_step (opens_printAt (@Kept.bool n value) level) fun fuel rest _ => ?_
    cases value <;> exact readValue_name depth fuel level (by simp [names]) rest
  | @int n value hsize =>
    refine readsBack_of_step (opens_printAt (@Kept.int n value hsize) level) fun fuel rest hrest => ?_
    exact readValue_int depth fuel level hsize hrest
  | @float n value hnan =>
    refine readsBack_of_step (opens_printAt (@Kept.float n value hnan) level) fun fuel rest hrest => ?_
    exact readValue_float depth fuel level hnan hrest
  | @nan n =>
    refine readsBack_of_step (opens_printAt (@Kept.nan n) level) fun fuel rest _ => ?_
    exact readValue_name depth fuel level (by simp [names]) rest
  | @text n datum htext =>
    refine readsBack_of_step (opens_printAt (@Kept.text n datum htext) level) fun fuel rest _ => ?_
    obtain ⟨codes, hproper, hcodes, hprint, -⟩ := printAt_isText htext level
    rw [hprint, readValue_text depth fuel hproper rest, hcodes]
  | list hitems ih =>
    refine readsBack_list (by omega) (fun item hitem => opens_printAt (hitems item hitem) _) ?_
    exact fun item hitem => ih item hitem (level + 1) (by omega)
  | map hnames hdistinct hvalues ih =>
    refine readsBack_map (by omega) hnames hdistinct (fun entry hentry => opens_printAt (hvalues entry hentry) _) ?_
    exact fun entry hentry => ih entry hentry (level + 1) (by omega)

end ProgramArt.Json

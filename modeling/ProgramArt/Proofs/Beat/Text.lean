import ProgramArt.Beat.Token
import ProgramArt.Host.Standard
import ProgramArt.Proofs.Beat.Safety
import ProgramArt.Proofs.Decimal.ReadBack
import ProgramArt.Proofs.Text.Words

/-!
# The text of commands reads back

Every command is written as one word, and the word is read as the command again (`ofToken_codes`); only the word of an
infinite literal is not. What a text is read as can always be written (`Cmd.Writable`), so a text that was read once
changes no more when it is written and read again, unless one of its numbers lies beyond the doubles.

The kinds of words are told apart by their characters: a symbol has no digit and none of the marks `[`, `:` and `#`,
and a number has nothing but digits, a minus sign and a point.
-/

namespace ProgramArt.Beat

open ProgramArt Decimal

/-! ## What can be written -/

/-- A command whose text keeps all of it: literals are in range and not NaN, sizes are not too long to be
read, and remarks have no blanks and no colons of their own. -/
def Cmd.Writable : Cmd → Prop
  | float x => x.isNaN = false
  | int n | hex n => Word64.IsWord n
  | array size => (Nat.toDigits 10 size).length ≤ maxDigits
  | remark key value => ∀ code ∈ key ++ value, Text.isBlank code = false ∧ code ≠ ':'.toNat
  | comment text => ∀ code ∈ text, Text.isBlank code = false
  | _ => True

instance : (cmd : Cmd) → Decidable cmd.Writable
  | .float x => inferInstanceAs (Decidable (x.isNaN = false))
  | .int n | .hex n => inferInstanceAs (Decidable (Word64.IsWord n))
  | .array size => inferInstanceAs (Decidable ((Nat.toDigits 10 size).length ≤ maxDigits))
  | .remark key value =>
    inferInstanceAs (Decidable (∀ code ∈ key ++ value, Text.isBlank code = false ∧ code ≠ ':'.toNat))
  | .comment text => inferInstanceAs (Decidable (∀ code ∈ text, Text.isBlank code = false))
  | .var _ | .intOp _ | .trig _ | .floatOp _ | .compare _ | .choose => inferInstanceAs (Decidable True)

/-- An infinite literal. -/
def Cmd.isInfinite : Cmd → Bool
  | float x => x.isInf
  | _ => false

/-! ## Symbols -/

theorem ofSymbol?_of_mem {cmd : Cmd} (h : cmd ∈ symbolCmds) :
    ∃ symbol, cmd.symbol? = some symbol ∧ Cmd.ofSymbol? symbol = some cmd := by
  have hall : ∀ cmd ∈ symbolCmds, ∃ symbol ∈ cmd.symbol?, Cmd.ofSymbol? symbol = some cmd := by decide
  exact hall cmd h

/-- The text of a symbol is the symbol. -/
theorem codes_of_symbol? [Host] {cmd : Cmd} {symbol : String} (h : cmd.symbol? = some symbol) :
    cmd.codes = Text.codesOf symbol := by
  cases cmd with
  | var _ | intOp _ | trig _ | floatOp _ | compare _ | choose =>
    cases h
    rfl
  | _ => cases h

/-- The characters that no symbol has. -/
def isMark (c : Char) : Bool :=
  c.isDigit || c == '[' || c == ':' || c == '#'

/-- What has a digit or a mark in it is no symbol. -/
theorem ofSymbol?_eq_none {chars : List Char} {c : Char} (hc : c ∈ chars) (hmark : isMark c = true) :
    Cmd.ofSymbol? (String.ofList chars) = none := by
  have hall : ∀ cmd ∈ symbolCmds, ∀ symbol ∈ cmd.symbol?, ∀ c ∈ symbol.toList, isMark c = false := by
    intro cmd hcmd
    fin_cases hcmd <;>
      simp [Cmd.symbol?, Variable.symbol, IntOp.symbol, TrigOp.symbol, FloatOp.symbol, CompareOp.symbol, isMark]
  rw [Cmd.ofSymbol?, List.find?_eq_none]
  intro cmd hcmd hsymbol
  rw [beq_iff_eq] at hsymbol
  have hplain := hall cmd hcmd _ hsymbol c (by rwa [String.toList_ofList])
  rw [hmark] at hplain
  cases hplain

theorem ofToken_of_symbol [Host] (position : Nat) {cmd : Cmd} (h : cmd ∈ symbolCmds) :
    Cmd.ofToken position cmd.codes = .ok cmd := by
  obtain ⟨symbol, hsymbol, hcmd⟩ := ofSymbol?_of_mem h
  rw [codes_of_symbol? hsymbol, Cmd.ofToken, Text.map_charOf_codesOf, String.ofList_toList, hcmd]

/-! ## Numbers -/

/-- The characters of numbers. -/
def isPlain (c : Char) : Bool :=
  c.isDigit || c == '-' || c == '.'

/-- A word of a number is no other kind of word. -/
theorem ofToken_of_plain (position : Nat) {text : String} (hplain : ∀ c ∈ text.toList, isPlain c = true)
    {digit : Char} (hmem : digit ∈ text.toList) (hdigit : digit.isDigit = true) :
    Cmd.ofToken position (Text.codesOf text)
      = if text.toList.contains '.' then
          match number? text.toList with
          | some number => .ok (.float number.toFloat)
          | none => .error (.unknown (Text.codesOf text) position)
        else (do
          let (negative, digits) := splitSign text.toList
          match ((← decimal? digits).map (signed negative)).filter inRange with
          | some n => .ok (.int n)
          | none => .error (.unknown (Text.codesOf text) position)) := by
  unfold Cmd.ofToken
  rw [Text.map_charOf_codesOf]
  dsimp only
  rw [ofSymbol?_eq_none hmem (by simp [isMark, hdigit])]
  generalize text.toList = chars at hplain
  dsimp only
  -- sizes, comments, numbers in base sixteen and remarks start with what no number has
  split
  · have := hplain '[' List.mem_cons_self
    simp [isPlain] at this
  · have := hplain '#' List.mem_cons_self
    simp [isPlain] at this
  · have := hplain 'x' (by simp)
    simp [isPlain] at this
  · have hhead : (chars.head? == some '!') = false := by
      rw [beq_eq_false_iff_ne]
      intro hhead
      have := hplain '!' (List.mem_of_mem_head? hhead)
      simp [isPlain] at this
    have hremark : ¬ (chars.head? == some '!' && chars.contains ':') = true := by
      rw [hhead, Bool.false_and]
      exact Bool.false_ne_true
    exact if_neg hremark

theorem isPlain_of_isDigit {c : Char} (h : c.isDigit = true) : isPlain c = true := by
  simp [isPlain, h]

theorem isPlain_signChars {negative : Bool} {c : Char} (h : c ∈ signChars negative) : isPlain c = true := by
  cases negative with
  | false => simp [signChars] at h
  | true =>
    rw [List.mem_singleton.mp h]
    rfl

theorem isPlain_of_pointed {negative : Bool} {value : ℚ} {text : List Char} (h : Pointed negative value text) {c : Char}
    (hc : c ∈ text) : isPlain c = true := by
  obtain ⟨whole, fraction, rfl, _, hwhole, hfraction, _⟩ := h
  rw [List.mem_append, List.mem_append, List.mem_cons] at hc
  rcases hc with hc | hc | rfl | hc
  · exact isPlain_signChars hc
  · exact isPlain_of_isDigit (hwhole c hc)
  · rfl
  · exact isPlain_of_isDigit (hfraction c hc)

theorem toList_floatText [Host] (x : Float) : (Cmd.floatText x).toList = Digits.pointed (Host.positional x) :=
  String.toList_ofList

/-- The literal of a finite double reads back. -/
theorem ofToken_float [Host] [LawfulHost] (position : Nat) {x : Float} (hnan : x.isNaN = false)
    (hinf : x.isInf = false) :
    Cmd.ofToken position (Cmd.float x).codes = .ok (.float x) := by
  cases hparts : Binary64.parts x with
  | nan =>
    rw [Binary64.isNaN_iff.mpr hparts] at hnan
    cases hnan
  | infinite negative =>
    rw [Binary64.isInf_iff.mpr ⟨negative, hparts⟩] at hinf
    cases hinf
  | finite negative mantissa exponent =>
    obtain ⟨n, hn, hvalue⟩ := LawfulHost.readsBack hparts
    obtain ⟨value, hpointed⟩ := LawfulHost.pointed hparts
    obtain ⟨whole, fraction, htext, hne, hwhole, _⟩ := id hpointed
    obtain ⟨digit, hdigit⟩ := List.exists_mem_of_ne_nil whole hne
    rw [← toList_floatText] at hn hpointed htext
    -- the digits rule out a symbol, and the point an integer
    change Cmd.ofToken position (Text.codesOf (Cmd.floatText x)) = _
    rw [ofToken_of_plain position (fun c => isPlain_of_pointed hpointed) (by rw [htext]; simp [hdigit])
      (hwhole digit hdigit), hn, if_pos (by rw [htext]; simp)]
    dsimp only
    rw [hvalue]

theorem floatText_of_infinite [Host] [LawfulHost] {x : Float} {negative : Bool}
    (h : Binary64.parts x = .infinite negative) :
    Cmd.floatText x = if negative then "-inf.0" else "inf.0" := by
  rw [Cmd.floatText, LawfulHost.infinite h]
  cases negative <;> rfl

theorem floatText_of_nan [Host] [LawfulHost] {x : Float} (h : Binary64.parts x = .nan) : Cmd.floatText x = "nan.0" := by
  rw [Cmd.floatText, LawfulHost.nan h]
  rfl

/-- The literal of an infinite double is no command. -/
theorem ofToken_float_of_isInf [Host] [LawfulHost] (position : Nat) {x : Float} (hinf : x.isInf = true) :
    Cmd.ofToken position (Cmd.float x).codes = .error (.unknown (Cmd.float x).codes position) := by
  obtain ⟨negative, hparts⟩ := Binary64.isInf_iff.mp hinf
  change Cmd.ofToken position (Text.codesOf (Cmd.floatText x))
    = .error (.unknown (Text.codesOf (Cmd.floatText x)) position)
  rw [floatText_of_infinite hparts]
  cases negative <;> rfl

theorem isPlain_toString {n : Int} {c : Char} (hc : c ∈ (toString n).toList) : isPlain c = true := by
  rw [toList_toString_int, List.mem_append] at hc
  exact hc.elim isPlain_signChars fun hc => isPlain_of_isDigit (isDigit_toDigits hc)

theorem decimal?_toDigits {n : Nat} (h : (Nat.toDigits 10 n).length ≤ maxDigits) :
    decimal? (Nat.toDigits 10 n) = .ok (some n) := by
  rw [decimal?, natural?_toDigits]
  dsimp only
  rw [if_neg (by omega)]

theorem length_toDigits_of_isWord {n : Int} (h : Word64.IsWord n) :
    (Nat.toDigits 10 n.natAbs).length ≤ maxDigits := by
  rw [Word64.isWord_iff] at h
  have hlength : (Nat.toDigits 10 n.natAbs).length ≤ 19 := by
    rw [Nat.length_toDigits_le_iff (by norm_num) (by norm_num)]
    omega
  exact hlength.trans (by norm_num [maxDigits])

theorem inRange_of_isWord {n : Int} (h : Word64.IsWord n) : inRange n = true := decide_eq_true h

/-- The literal of an integer reads back. -/
theorem ofToken_int [Host] (position : Nat) {n : Int} (h : Word64.IsWord n) :
    Cmd.ofToken position (Cmd.int n).codes = .ok (.int n) := by
  have htext := toList_toString_int n
  have hdigits : ∀ c ∈ Nat.toDigits 10 n.natAbs, c.isDigit = true := fun c => isDigit_toDigits
  -- without a point the word is not read as a double
  have hpoint : (toString n).toList.contains '.' = false := by
    rw [htext, Bool.eq_false_iff]
    intro hpoint
    rw [List.contains_iff_mem, List.mem_append] at hpoint
    rcases hpoint with hpoint | hpoint
    · revert hpoint
      cases decide (n < 0) <;> decide
    · have := hdigits '.' hpoint
      simp at this
  obtain ⟨digit, hdigit⟩ := List.exists_mem_of_ne_nil (Nat.toDigits 10 n.natAbs) Nat.toDigits_ne_nil
  change Cmd.ofToken position (Text.codesOf (toString n)) = _
  rw [ofToken_of_plain position (fun c => isPlain_toString) (by rw [htext]; exact List.mem_append_right _ hdigit)
    (hdigits digit hdigit), hpoint, if_neg Bool.false_ne_true, htext]
  have hsign := splitSign_digits (decide (n < 0)) [] Nat.toDigits_ne_nil hdigits
  rw [List.append_nil] at hsign
  rw [hsign]
  dsimp only
  rw [decimal?_toDigits (length_toDigits_of_isWord h)]
  simp only [bind, Except.bind, Option.map_some, signed_natAbs, Option.filter_some, inRange_of_isWord h, if_true]

theorem toList_hexText (n : Int) :
    (Cmd.hexText n).toList
      = '0' :: 'x' :: (signChars (decide (n < 0)) ++ (Nat.toDigits 16 n.natAbs).map Char.toUpper) := by
  unfold Cmd.hexText
  dsimp only
  by_cases hneg : n < 0
  · rw [if_pos hneg, decide_eq_true hneg, String.toList_append, show "0x-".toList = ['0', 'x', '-'] from rfl,
      String.toList_ofList]
    rfl
  · rw [if_neg hneg, decide_eq_false hneg, String.toList_append, show "0x".toList = ['0', 'x'] from rfl,
      String.toList_ofList]
    rfl

/-- The literal of an integer in base sixteen reads back. -/
theorem ofToken_hex [Host] (position : Nat) {n : Int} (h : Word64.IsWord n) :
    Cmd.ofToken position (Cmd.hex n).codes = .ok (.hex n) := by
  change Cmd.ofToken position (Text.codesOf (Cmd.hexText n)) = _
  unfold Cmd.ofToken
  rw [Text.map_charOf_codesOf, toList_hexText]
  dsimp only
  rw [ofSymbol?_eq_none List.mem_cons_self (by decide)]
  change (match (integer? 16 (signChars (decide (n < 0)) ++ (Nat.toDigits 16 n.natAbs).map Char.toUpper)).filter
    inRange with
    | some n => Except.ok (Cmd.hex n)
    | none => _) = _
  rw [integer?_upper, Option.filter_some, inRange_of_isWord h, if_pos rfl]

/-! ## One command -/

theorem toList_array (size : Nat) : ("[" ++ toString size).toList = '[' :: Nat.toDigits 10 size := by
  rw [String.toList_append, show "[".toList = ['['] from rfl, Nat.toString_eq_ofList_toDigits,
    String.toList_ofList]
  rfl

theorem ofToken_array [Host] (position : Nat) {size : Nat} (h : (Nat.toDigits 10 size).length ≤ maxDigits) :
    Cmd.ofToken position (Cmd.array size).codes = .ok (.array size) := by
  -- a plus sign before a size would be dropped, but there is none
  have hsize : sizeDigits (Nat.toDigits 10 size) = Nat.toDigits 10 size := by
    unfold sizeDigits
    split
    · rename_i heq
      have hplus : '+' ∈ Nat.toDigits 10 size := by
        rw [heq]
        exact List.mem_cons_self
      have := isDigit_toDigits hplus
      simp at this
    · rfl
  change Cmd.ofToken position (Text.codesOf ("[" ++ toString size)) = _
  unfold Cmd.ofToken
  rw [Text.map_charOf_codesOf, toList_array]
  dsimp only
  rw [ofSymbol?_eq_none List.mem_cons_self (by decide)]
  change (decimal? (sizeDigits (Nat.toDigits 10 size)) >>= _) = _
  rw [hsize, decimal?_toDigits h]
  rfl

theorem ofToken_comment [Host] (position : Nat) (text : Text.Codes) :
    Cmd.ofToken position (Cmd.comment text).codes = .ok (.comment text) := by
  have hchars : (Cmd.comment text).codes.map Text.charOf = '#' :: text.map Text.charOf := rfl
  unfold Cmd.ofToken
  rw [hchars]
  dsimp only
  rw [ofSymbol?_eq_none List.mem_cons_self (by decide)]
  rfl

/-- A remark has the key before the first colon and the value up to the second. -/
theorem remarkOf_append_more {key value more : Text.Codes} (hkey : ':'.toNat ∉ key) (hvalue : ':'.toNat ∉ value)
    (hmore : ∀ code ∈ more.head?, code = ':'.toNat) :
    remarkOf (key ++ ':'.toNat :: (value ++ more)) = .remark key value := by
  have hbefore : ∀ {word : Text.Codes}, ':'.toNat ∉ word → ∀ code ∈ word, (!(code == ':'.toNat)) = true := by
    intro word hword code hcode
    rw [Bool.not_eq_true', beq_eq_false_iff_ne]
    rintro rfl
    exact hword hcode
  have hbehind : more.takeWhile (fun code => !(code == ':'.toNat)) = [] := by
    cases more with
    | nil => rfl
    | cons code more =>
      rw [hmore code rfl]
      exact List.takeWhile_cons_of_neg (by simp)
  unfold remarkOf
  dsimp only
  rw [List.takeWhile_append_of_pos (hbefore hkey), List.dropWhile_append_of_pos (hbefore hkey),
    List.takeWhile_cons_of_neg (by simp), List.dropWhile_cons_of_neg (by simp), List.append_nil,
    List.drop_one, List.tail_cons, List.takeWhile_append_of_pos (hbefore hvalue), hbehind, List.append_nil]

theorem remarkOf_append {key value : Text.Codes} (hkey : ':'.toNat ∉ key) (hvalue : ':'.toNat ∉ value) :
    remarkOf (key ++ ':'.toNat :: value) = .remark key value := by
  have hremark := @remarkOf_append_more key value [] hkey hvalue (by simp)
  rwa [List.append_nil] at hremark

theorem ofToken_remark [Host] (position : Nat) {key value : Text.Codes} (hkey : ':'.toNat ∉ key)
    (hvalue : ':'.toNat ∉ value) :
    Cmd.ofToken position (Cmd.remark key value).codes = .ok (.remark key value) := by
  have hchars : (Cmd.remark key value).codes.map Text.charOf
      = '!' :: (key.map Text.charOf ++ ':' :: value.map Text.charOf) := by
    change ('!'.toNat :: key ++ ':'.toNat :: value).map Text.charOf = _
    rw [List.map_append, List.map_cons, List.map_cons]
    rfl
  -- no symbol has a colon
  have hcolon : ':' ∈ '!' :: (key.map Text.charOf ++ ':' :: value.map Text.charOf) := by simp
  unfold Cmd.ofToken
  rw [hchars]
  dsimp only
  rw [ofSymbol?_eq_none hcolon (by decide)]
  dsimp only
  rw [if_pos (by simp)]
  exact congrArg Except.ok (remarkOf_append hkey hvalue)

/-- **The word of a command is read as the command**, unless it is an infinite literal. -/
theorem ofToken_codes [Host] [LawfulHost] (position : Nat) {cmd : Cmd} (h : cmd.Writable)
    (hfinite : cmd.isInfinite = false) :
    Cmd.ofToken position cmd.codes = .ok cmd := by
  cases cmd with
  | var v => exact ofToken_of_symbol position (by cases v <;> decide)
  | float x => exact ofToken_float position h hfinite
  | int n => exact ofToken_int position h
  | hex n => exact ofToken_hex position h
  | intOp op => exact ofToken_of_symbol position (by cases op <;> decide)
  | trig op => exact ofToken_of_symbol position (by cases op <;> decide)
  | floatOp op => exact ofToken_of_symbol position (by cases op <;> decide)
  | compare op => exact ofToken_of_symbol position (by cases op <;> decide)
  | choose => exact ofToken_of_symbol position (by decide)
  | array size => exact ofToken_array position h
  | remark key value =>
    refine ofToken_remark position ?_ ?_
    · intro hcolon
      exact (h _ (List.mem_append_left _ hcolon)).2 rfl
    · intro hcolon
      exact (h _ (List.mem_append_right _ hcolon)).2 rfl
  | comment text => exact ofToken_comment position text

theorem ofToken_codes_of_isInfinite [Host] [LawfulHost] (position : Nat) {cmd : Cmd} (h : cmd.isInfinite = true) :
    Cmd.ofToken position cmd.codes = .error (.unknown cmd.codes position) := by
  cases cmd with
  | float x => exact ofToken_float_of_isInf position h
  | _ => cases h

/-! ## Words -/

/-- The code points of numbers are not blank. -/
theorem isBlank_of_isPlain {c : Char} (h : isPlain c = true) : Text.isBlank c.toNat = false := by
  simp only [isPlain, Bool.or_eq_true, beq_iff_eq] at h
  rcases h with (h | rfl) | rfl
  · have hrange := (isDigit_iff c).mp h
    have hlow : 48 ≤ c.toNat := hrange.1
    have hhigh : c.toNat ≤ 57 := hrange.2
    simp only [Text.isBlank, Bool.or_eq_false_iff, Bool.and_eq_false_iff, decide_eq_false_iff_not,
      beq_eq_false_iff_ne]
    omega
  · rfl
  · rfl

theorem isBlank_of_digit? {c : Char} {d : Nat} (h : digit? 16 c = some d) : Text.isBlank c.toNat = false := by
  rw [digit?, Option.filter_eq_some_iff] at h
  have hrange : 48 ≤ c.toNat ∧ c.toNat ≤ 57 ∨ 97 ≤ c.toNat ∧ c.toNat ≤ 102 ∨ 65 ≤ c.toNat ∧ c.toNat ≤ 70 := by
    obtain ⟨h, -⟩ := h
    split at h
    · exact .inl ‹_›
    · split at h
      · exact .inr (.inl ‹_›)
      · split at h
        · exact .inr (.inr ‹_›)
        · cases h
  simp only [Text.isBlank, Bool.or_eq_false_iff, Bool.and_eq_false_iff, decide_eq_false_iff_not,
    beq_eq_false_iff_ne]
  omega

theorem isWord_codesOf (text : String) (hne : text.toList ≠ [])
    (h : ∀ c ∈ text.toList, Text.isBlank c.toNat = false) : Text.IsWord (Text.codesOf text) := by
  refine ⟨by simpa [Text.codesOf] using hne, ?_⟩
  intro code hcode
  obtain ⟨c, hc, rfl⟩ := List.mem_map.mp hcode
  exact h c hc

theorem isWord_float [Host] [LawfulHost] (x : Float) : Text.IsWord (Cmd.float x).codes := by
  change Text.IsWord (Text.codesOf (Cmd.floatText x))
  cases hparts : Binary64.parts x with
  | nan =>
    -- NaN is written as a word too, though as one that cannot be read
    rw [floatText_of_nan hparts]
    exact ⟨by decide, by decide⟩
  | infinite negative =>
    rw [floatText_of_infinite hparts]
    cases negative <;> exact ⟨by decide, by decide⟩
  | finite negative mantissa exponent =>
    obtain ⟨value, hpointed⟩ := LawfulHost.pointed hparts
    rw [← toList_floatText] at hpointed
    refine isWord_codesOf _ ?_ fun c hc => isBlank_of_isPlain (isPlain_of_pointed hpointed hc)
    obtain ⟨whole, fraction, htext, _⟩ := hpointed
    simp [htext]

/-- **The text of a command is a word.** -/
theorem isWord_codes [Host] [LawfulHost] {cmd : Cmd} (h : cmd.Writable) : Text.IsWord cmd.codes := by
  have hall : ∀ cmd ∈ symbolCmds, ∀ symbol ∈ cmd.symbol?, Text.codesOf symbol ≠ [] ∧
      ∀ code ∈ Text.codesOf symbol, Text.isBlank code = false := by decide
  have hsymbols : ∀ cmd ∈ symbolCmds, Text.IsWord cmd.codes := by
    intro cmd hcmd
    obtain ⟨symbol, hsymbol, -⟩ := ofSymbol?_of_mem hcmd
    rw [codes_of_symbol? hsymbol]
    exact hall cmd hcmd symbol hsymbol
  -- the symbols are looked at one by one, the other words come from numbers and texts
  cases cmd with
  | var v => exact hsymbols _ (by cases v <;> decide)
  | float x => exact isWord_float x
  | int n =>
    refine isWord_codesOf (toString n) ?_ fun c hc => isBlank_of_isPlain (isPlain_toString hc)
    rw [toList_toString_int]
    simp
  | hex n =>
    refine isWord_codesOf (Cmd.hexText n) (by simp [toList_hexText]) ?_
    intro c hc
    rw [toList_hexText, List.mem_cons, List.mem_cons, List.mem_append] at hc
    rcases hc with rfl | rfl | hc | hc
    · rfl
    · rfl
    · exact isBlank_of_isPlain (isPlain_signChars hc)
    · obtain ⟨d, hd⟩ := exists_digit?_of_natural? (natural?_upper n.natAbs) hc
      exact isBlank_of_digit? hd
  | intOp op => exact hsymbols _ (by cases op <;> decide)
  | trig op => exact hsymbols _ (by cases op <;> decide)
  | floatOp op => exact hsymbols _ (by cases op <;> decide)
  | compare op => exact hsymbols _ (by cases op <;> decide)
  | choose => exact hsymbols _ (by decide)
  | array size =>
    refine isWord_codesOf ("[" ++ toString size) (by simp) ?_
    intro c hc
    rw [toList_array, List.mem_cons] at hc
    rcases hc with rfl | hc
    · rfl
    · exact isBlank_of_isPlain (isPlain_of_isDigit (isDigit_toDigits hc))
  | remark key value =>
    refine ⟨by simp [Cmd.codes], ?_⟩
    intro code hcode
    change code ∈ '!'.toNat :: key ++ ':'.toNat :: value at hcode
    rw [List.cons_append, List.mem_cons, List.mem_append, List.mem_cons] at hcode
    rcases hcode with rfl | hcode | rfl | hcode
    · rfl
    · exact (h code (List.mem_append_left _ hcode)).1
    · rfl
    · exact (h code (List.mem_append_right _ hcode)).1
  | comment text =>
    refine ⟨by simp [Cmd.codes], ?_⟩
    intro code hcode
    rcases List.mem_cons.mp hcode with rfl | hcode
    · rfl
    · exact h code hcode

/-! ## What a word is read as -/

/-- The ways in which a word can be read. -/
inductive ReadAs (token : Text.Codes) : Cmd → Prop where
  | symbol {cmd : Cmd} (h : cmd ∈ symbolCmds) : ReadAs token cmd
  | array {digits : List Char} {size : Nat} (h : decimal? digits = .ok (some size)) : ReadAs token (.array size)
  | comment : ReadAs token (.comment (token.drop 1))
  | hex {n : Int} (h : inRange n = true) : ReadAs token (.hex n)
  | remark : ReadAs token (remarkOf (token.drop 1))
  | float {number : Number} (h : number? (token.map Text.charOf) = some number) :
    ReadAs token (.float number.toFloat)
  | int {n : Int} (h : inRange n = true) : ReadAs token (.int n)

theorem readAs_of_ofToken {position : Nat} {token : Text.Codes} {cmd : Cmd}
    (h : Cmd.ofToken position token = .ok cmd) : ReadAs token cmd := by
  unfold Cmd.ofToken at h
  dsimp only at h
  split at h
  · rename_i hsymbol
    cases h
    exact .symbol (List.mem_of_find?_eq_some hsymbol)
  · -- the first characters tell a size, a comment and a number in base sixteen
    split at h
    · rename_i size _
      cases hsize : decimal? (sizeDigits size) with
      | error e =>
        rw [hsize] at h
        cases h
      | ok result =>
        rw [hsize] at h
        cases result with
        | none => cases h
        | some n =>
          cases h
          exact .array hsize
    · cases h
      exact .comment
    · split at h
      · rename_i hvalue
        cases h
        exact .hex (Option.filter_eq_some_iff.mp hvalue).2
      · cases h
    · -- what is left is a remark or a number
      split at h
      · cases h
        exact .remark
      · split at h
        · split at h
          · rename_i hnumber
            cases h
            exact .float hnumber
          · cases h
        · cases hvalue : decimal? (splitSign (token.map Text.charOf)).2 with
          | error e =>
            rw [hvalue] at h
            cases h
          | ok result =>
            rw [hvalue] at h
            change (match (result.map (signed (splitSign (token.map Text.charOf)).1)).filter inRange with
              | some n => Except.ok (Cmd.int n)
              | none => _) = _ at h
            split at h
            · rename_i hrange
              cases h
              exact .int (Option.filter_eq_some_iff.mp hrange).2
            · cases h

theorem length_toDigits_of_decimal? {digits : List Char} {n : Nat} (h : decimal? digits = .ok (some n)) :
    (Nat.toDigits 10 n).length ≤ maxDigits := by
  rw [decimal?] at h
  split at h
  · cases h
  · rename_i value hvalue
    split at h
    · cases h
    · cases h
      rename_i hlength
      -- leading zeros count when a numeral is read, and are not written again
      rw [Nat.length_toDigits_le_iff (by norm_num) (by norm_num [maxDigits])]
      exact (lt_pow_of_natural? hvalue).trans_le (Nat.pow_le_pow_right (by norm_num) (by omega))

theorem writable_remarkOf {word : Text.Codes} (h : ∀ code ∈ word, Text.isBlank code = false) :
    (remarkOf word).Writable := by
  intro code hcode
  rcases List.mem_append.mp hcode with hcode | hcode
  · have hcolon := List.mem_takeWhile_imp hcode
    exact ⟨h code ((List.takeWhile_prefix _).subset hcode), by simpa using hcolon⟩
  · have hcolon := List.mem_takeWhile_imp hcode
    have hmem := (List.takeWhile_prefix _).subset hcode
    exact ⟨h code ((List.dropWhile_suffix _).subset (List.mem_of_mem_drop hmem)), by simpa using hcolon⟩

/-- **What a word is read as can be written.** -/
theorem ReadAs.writable {token : Text.Codes} {cmd : Cmd} (h : ReadAs token cmd)
    (hblank : ∀ code ∈ token, Text.isBlank code = false) : cmd.Writable := by
  have hsymbols : ∀ cmd ∈ symbolCmds, cmd.Writable := by decide
  have hrest : ∀ code ∈ token.drop 1, Text.isBlank code = false :=
    fun code hcode => hblank code (List.mem_of_mem_drop hcode)
  cases h with
  | symbol hsymbol => exact hsymbols cmd hsymbol
  | array hsize => exact length_toDigits_of_decimal? hsize
  | comment => exact hrest
  | hex hrange => exact of_decide_eq_true hrange
  | remark => exact writable_remarkOf hrest
  | float hnumber => exact Decimal.isNaN_toFloat _
  | int hrange => exact of_decide_eq_true hrange

/-- A word that is read as an infinite literal is a number beyond the doubles. -/
theorem ReadAs.exists_number {token : Text.Codes} {cmd : Cmd} (h : ReadAs token cmd)
    (hcmd : cmd.isInfinite = true) :
    ∃ number, number? (token.map Text.charOf) = some number ∧ cmd = .float number.toFloat := by
  have hsymbols : ∀ cmd ∈ symbolCmds, cmd.isInfinite = false := by decide
  cases h with
  | symbol hsymbol =>
    rw [hsymbols cmd hsymbol] at hcmd
    cases hcmd
  | float hnumber => exact ⟨_, hnumber, rfl⟩
  | array | comment | hex | remark | int => cases hcmd

/-! ## Lists of commands -/

theorem mapM_ofToken_codes [Host] [LawfulHost] {cmds : List Cmd} (position : Nat)
    (h : ∀ cmd ∈ cmds, cmd.Writable ∧ cmd.isInfinite = false) :
    ((cmds.map Cmd.codes).zipIdx position).mapM (fun (token, position) => Cmd.ofToken position token)
      = .ok cmds := by
  induction cmds generalizing position with
  | nil => rfl
  | cons cmd cmds ih =>
    obtain ⟨hcmd, hfinite⟩ := h cmd List.mem_cons_self
    rw [List.map_cons, List.zipIdx_cons, List.mapM_cons]
    dsimp only
    rw [ofToken_codes position hcmd hfinite, ih (position + 1) fun cmd hmem => h cmd (List.mem_cons_of_mem _ hmem)]
    rfl

/-- Reading stops at the first word that is no command. -/
theorem mapM_ofToken_of_isInfinite [Host] [LawfulHost] {before : List Cmd} {cmd : Cmd} (after : List Cmd)
    (position : Nat) (h : ∀ cmd ∈ before, cmd.Writable ∧ cmd.isInfinite = false) (hcmd : cmd.isInfinite = true) :
    (((before ++ cmd :: after).map Cmd.codes).zipIdx position).mapM
        (fun (token, position) => Cmd.ofToken position token)
      = .error (.unknown cmd.codes (position + before.length)) := by
  induction before generalizing position with
  | nil =>
    rw [List.nil_append, List.map_cons, List.zipIdx_cons, List.mapM_cons]
    dsimp only
    rw [ofToken_codes_of_isInfinite position hcmd]
    rfl
  | cons first before ih =>
    obtain ⟨hfirst, hfinite⟩ := h first List.mem_cons_self
    rw [List.cons_append, List.map_cons, List.zipIdx_cons, List.mapM_cons]
    dsimp only
    rw [ofToken_codes position hfirst hfinite,
      ih (position + 1) fun cmd hmem => h cmd (List.mem_cons_of_mem _ hmem), List.length_cons,
      Nat.add_assoc, Nat.add_comm 1]
    rfl

theorem exists_token_of_mapM {tokens : List Text.Codes} {position : Nat} {cmds : List Cmd}
    (h : (tokens.zipIdx position).mapM (fun (token, position) => Cmd.ofToken position token) = .ok cmds)
    {cmd : Cmd} (hcmd : cmd ∈ cmds) : ∃ token ∈ tokens, ReadAs token cmd := by
  induction tokens generalizing position cmds with
  | nil =>
    cases h
    cases hcmd
  | cons token tokens ih =>
    rw [List.zipIdx_cons, List.mapM_cons] at h
    dsimp only at h
    cases hfirst : Cmd.ofToken position token with
    | error e =>
      rw [hfirst] at h
      cases h
    | ok first =>
      cases hrest : (tokens.zipIdx (position + 1)).mapM fun (token, position) => Cmd.ofToken position token with
      | error e =>
        rw [hfirst, hrest] at h
        cases h
      | ok rest =>
        rw [hfirst, hrest] at h
        cases h
        rcases List.mem_cons.mp hcmd with rfl | hcmd
        · exact ⟨token, List.mem_cons_self, readAs_of_ofToken hfirst⟩
        · obtain ⟨other, hother, found⟩ := ih hrest hcmd
          exact ⟨other, List.mem_cons_of_mem _ hother, found⟩

theorem words_codesOf [Host] [LawfulHost] {cmds : List Cmd} (h : ∀ cmd ∈ cmds, cmd.Writable) :
    Text.words (codesOf cmds) = cmds.map Cmd.codes := by
  apply Text.words_intercalate
  intro token htoken
  obtain ⟨cmd, hcmd, rfl⟩ := List.mem_map.mp htoken
  exact isWord_codes (h cmd hcmd)

/-- **Commands without infinite literals read back.** -/
theorem parse_codesOf [Host] [LawfulHost] {cmds : List Cmd} (h : ∀ cmd ∈ cmds, cmd.Writable)
    (hfinite : ∀ cmd ∈ cmds, cmd.isInfinite = false) : parse (codesOf cmds) = .ok cmds := by
  rw [parse, words_codesOf h]
  exact mapM_ofToken_codes 0 fun cmd hcmd => ⟨h cmd hcmd, hfinite cmd hcmd⟩

/-- **The first infinite literal is reported.** -/
theorem parse_codesOf_of_isInfinite [Host] [LawfulHost] {before after : List Cmd} {cmd : Cmd}
    (h : ∀ other ∈ before ++ cmd :: after, other.Writable) (hfinite : ∀ cmd ∈ before, cmd.isInfinite = false)
    (hcmd : cmd.isInfinite = true) :
    parse (codesOf (before ++ cmd :: after)) = .error (.unknown cmd.codes before.length) := by
  have hmap := mapM_ofToken_of_isInfinite after 0
    (fun cmd hmem => ⟨h cmd (List.mem_append_left _ hmem), hfinite cmd hmem⟩) hcmd
  rw [Nat.zero_add] at hmap
  rw [parse, words_codesOf h]
  exact hmap

/-- Every command of a text stands for one of its words. -/
theorem exists_word_of_parse {text : Text.Codes} {cmds : List Cmd} (h : parse text = .ok cmds) {cmd : Cmd}
    (hcmd : cmd ∈ cmds) : ∃ token ∈ Text.words text, ReadAs token cmd :=
  exists_token_of_mapM h hcmd

/-- **What a text is read as can be written.** -/
theorem writable_of_parse {text : Text.Codes} {cmds : List Cmd} (h : parse text = .ok cmds) {cmd : Cmd}
    (hcmd : cmd ∈ cmds) : cmd.Writable := by
  obtain ⟨token, htoken, hread⟩ := exists_word_of_parse h hcmd
  exact hread.writable (Text.isWord_of_mem_words htoken).2

theorem eq_float_of_isInfinite {cmd : Cmd} (h : cmd.isInfinite = true) : ∃ x, cmd = .float x ∧ x.isInf = true := by
  cases cmd with
  | float x => exact ⟨x, rfl, h⟩
  | _ => cases h

/-- Either no literal is infinite or there is a first one. -/
theorem finite_or_first_infinite (cmds : List Cmd) :
    (∀ cmd ∈ cmds, cmd.isInfinite = false)
      ∨ ∃ before x after, cmds = before ++ .float x :: after ∧ x.isInf = true
        ∧ ∀ cmd ∈ before, cmd.isInfinite = false := by
  cases hfind : cmds.find? Cmd.isInfinite with
  | none =>
    left
    intro cmd hcmd
    exact Bool.eq_false_iff.mpr (List.find?_eq_none.mp hfind cmd hcmd)
  | some cmd =>
    right
    obtain ⟨hinfinite, before, after, hcmds, hbefore⟩ := List.find?_eq_some_iff_append.mp hfind
    obtain ⟨x, rfl, hx⟩ := eq_float_of_isInfinite hinfinite
    refine ⟨before, x, after, hcmds, hx, ?_⟩
    intro cmd hcmd
    simpa using hbefore cmd hcmd

/-- **Writing and reading.** A list of commands that can be written is read back as it is, or its first
infinite literal is reported with its position. What a text is read as can always be written; so it reads back
exactly when none of its literals is infinite, and such a literal is a number of the text that lies beyond the
doubles. -/
theorem parse_codesOf_round_trip [Host] [LawfulHost] :
    (∀ cmds : List Cmd, (∀ cmd ∈ cmds, cmd.Writable) →
      ((∀ cmd ∈ cmds, cmd.isInfinite = false) ∧ parse (codesOf cmds) = .ok cmds)
        ∨ ∃ before x after, cmds = before ++ .float x :: after ∧ x.isInf = true
          ∧ (∀ cmd ∈ before, cmd.isInfinite = false)
          ∧ parse (codesOf cmds) = .error (.unknown (Cmd.float x).codes before.length))
    ∧ ∀ text cmds, parse text = .ok cmds →
      (∀ cmd ∈ cmds, cmd.Writable)
        ∧ (parse (codesOf cmds) = .ok cmds ↔ ∀ cmd ∈ cmds, cmd.isInfinite = false)
        ∧ ∀ x, .float x ∈ cmds → x.isInf = true →
          ∃ word ∈ Text.words text, ∃ number, number? (word.map Text.charOf) = some number ∧ number.toFloat = x := by
  refine ⟨?_, ?_⟩
  · intro cmds hwritable
    rcases finite_or_first_infinite cmds with hfinite | ⟨before, x, after, rfl, hx, hbefore⟩
    · exact .inl ⟨hfinite, parse_codesOf hwritable hfinite⟩
    · exact .inr ⟨before, x, after, rfl, hx, hbefore, parse_codesOf_of_isInfinite hwritable hbefore hx⟩
  · intro text cmds hparse
    have hwritable : ∀ cmd ∈ cmds, cmd.Writable := fun cmd => writable_of_parse hparse
    refine ⟨hwritable, ⟨?_, parse_codesOf hwritable⟩, ?_⟩
    · -- with an infinite literal the way back ends in an error
      intro hback
      rcases finite_or_first_infinite cmds with hfinite | ⟨before, x, after, rfl, hx, hbefore⟩
      · exact hfinite
      · rw [parse_codesOf_of_isInfinite hwritable hbefore hx] at hback
        cases hback
    · intro x hmem hx
      obtain ⟨word, hword, hread⟩ := exists_word_of_parse hparse hmem
      obtain ⟨number, hnumber, heq⟩ := hread.exists_number hx
      cases heq
      exact ⟨word, hword, number, hnumber, rfl⟩

open scoped Host in
/-- A negative literal in base sixteen, a remark, an operator with a point and a literal, which in the text lies
beyond the doubles. -/
theorem parse_codesOf_round_trip_overflow :
    parse (Text.codesOf "0x-1F !k:v 1.0e999 +.")
        = .ok [.hex (-31), .remark [107] [118], .float (Binary64.infinity false), .floatOp .add]
      ∧ parse (codesOf [.hex (-31), .remark [107] [118], .float (Binary64.infinity false), .floatOp .add])
        ≠ .ok [.hex (-31), .remark [107] [118], .float (Binary64.infinity false), .floatOp .add]
      ∧ (∀ cmd ∈ [Cmd.hex (-31), .remark [107] [118], .float 0.1, .floatOp .add], cmd.Writable)
      ∧ parse (codesOf [.hex (-31), .remark [107] [118], .float 0.1, .floatOp .add])
        = .ok [.hex (-31), .remark [107] [118], .float 0.1, .floatOp .add] := by
  have hread : parse (Text.codesOf "0x-1F !k:v 1.0e999 +.")
      = .ok [.hex (-31), .remark [107] [118], .float (Binary64.infinity false), .floatOp .add] := by decide
  have hwritable : ∀ cmd ∈ [Cmd.hex (-31), .remark [107] [118], .float 0.1, .floatOp .add], cmd.Writable := by decide
  have hfinite : ∀ cmd ∈ [Cmd.hex (-31), .remark [107] [118], .float 0.1, .floatOp .add],
      cmd.isInfinite = false := by decide
  refine ⟨hread, ?_, hwritable, ?_⟩
  · rw [ne_eq, (parse_codesOf_round_trip.2 _ _ hread).2.1]
    decide
  · rcases parse_codesOf_round_trip.1 _ hwritable with ⟨_, hsame⟩ | ⟨before, x, after, hcmds, hx, _⟩
    · exact hsame
    · have hmem : Cmd.float x ∈ before ++ .float x :: after := by simp
      rw [← hcmds] at hmem
      exact absurd hx (Bool.eq_false_iff.mp (hfinite _ hmem))

end ProgramArt.Beat

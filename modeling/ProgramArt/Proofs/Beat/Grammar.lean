import ProgramArt.Proofs.Beat.Text
import ProgramArt.Proofs.Decimal.Numerals
import ProgramArt.Proofs.Outcome

/-!
# The grammar of formulas

The words of a text are told apart by a row of tests: is it a symbol, does it start with a bracket, does it have a
point, and so on. What the tests accept is said here by a grammar, class by class, without an order (`Spells`). No
word is in two classes (`Spells.unique`), so that the tests could be made in any order, and a text is read if all its
words are in some class. If not, the first word that is in none is to blame (`Blamed`).

Integers and sizes of too many digits are not read, whatever they stand for (`Overlong`).
-/

namespace ProgramArt.Beat

open ProgramArt Decimal

/-! ## The classes of words -/

/-- The classes of words. -/
inductive WordClass where
  | var
  | operator
  | array
  | remark
  | comment
  | hex
  | float
  | int
deriving DecidableEq

/-- The class of the words that stand for a command. -/
def Cmd.wordClass : Cmd → WordClass
  | var _ => .var
  | intOp _ | trig _ | floatOp _ | compare _ | choose => .operator
  | array _ => .array
  | remark _ _ => .remark
  | comment _ => .comment
  | hex _ => .hex
  | float _ => .float
  | int _ => .int

/-- A word of a class, and the command that it stands for. -/
inductive Spells : WordClass → Text.Codes → Cmd → Prop
  | var (v : Variable) : Spells .var (Text.codesOf v.symbol) (.var v)
  | intOp (op : IntOp) : Spells .operator (Text.codesOf op.symbol) (.intOp op)
  | trig (op : TrigOp) : Spells .operator (Text.codesOf op.symbol) (.trig op)
  | floatOp (op : FloatOp) : Spells .operator (Text.codesOf op.symbol) (.floatOp op)
  | compare (op : CompareOp) : Spells .operator (Text.codesOf op.symbol) (.compare op)
  | choose : Spells .operator (Text.codesOf "?") .choose
  /-- A bracket, an optional plus sign and digits. -/
  | array {plus digits : List Char} {size : Nat} (hplus : SignOf plus false) (hdigits : Numeral 10 digits size) :
      Spells .array (('[' :: (plus ++ digits)).map Char.toNat) (.array size)
  /-- A key and a value with a colon between them; what a second colon leads in is dropped. -/
  | remark {key value more : Text.Codes} (hkey : ':'.toNat ∉ key) (hvalue : ':'.toNat ∉ value)
      (hmore : ∀ code ∈ more.head?, code = ':'.toNat) :
      Spells .remark ('!'.toNat :: (key ++ ':'.toNat :: (value ++ more))) (.remark key value)
  | comment (text : Text.Codes) : Spells .comment ('#'.toNat :: text) (.comment text)
  | hex {chars : List Char} {n : Int} (hvalue : SignedNumeral 16 chars n) (hrange : Word64.IsWord n) :
      Spells .hex (('0' :: 'x' :: chars).map Char.toNat) (.hex n)
  | float {chars : List Char} {number : Number} (hvalue : PointNumeral chars number) :
      Spells .float (chars.map Char.toNat) (.float number.toFloat)
  | int {chars : List Char} {n : Int} (hvalue : SignedNumeral 10 chars n) (hrange : Word64.IsWord n) :
      Spells .int (chars.map Char.toNat) (.int n)

/-- The class of a word is the one of its command, `Cmd.wordClass`. -/
theorem Spells.wordClass_eq {kind : WordClass} {token : Text.Codes} {cmd : Cmd} (h : Spells kind token cmd) :
    cmd.wordClass = kind := by
  cases h <;> rfl

/-! ## The tests in their order -/

/-- What the tests make of the characters of a word. -/
inductive Form where
  | symbol (cmd : Cmd)
  | array (size : List Char)
  | comment
  | hex (digits : List Char)
  | remark
  | float
  | int

/-- The form of a word with the given characters: the first test that they pass. -/
def formOf (chars : List Char) : Form :=
  match Cmd.ofSymbol? (String.ofList chars) with
  | some cmd => .symbol cmd
  | none =>
    match chars with
    | '[' :: size => .array size
    | '#' :: _ => .comment
    | '0' :: 'x' :: digits => .hex digits
    | _ =>
      if chars.head? == some '!' && chars.contains ':' then .remark
      else if chars.contains '.' then .float
      else .int

/-- The command that a word of a form stands for, however many digits it has. -/
def Form.word? (token : Text.Codes) : Form → Option Cmd
  | symbol cmd => some cmd
  | array size => (natural? 10 (sizeDigits size)).map .array
  | comment => some (.comment (token.drop 1))
  | hex digits => ((integer? 16 digits).filter inRange).map .hex
  | remark => some (remarkOf (token.drop 1))
  | float => (number? (token.map Text.charOf)).map fun number => .float number.toFloat
  | int => ((integer? 10 (token.map Text.charOf)).filter inRange).map .int

/-- The command that a word stands for, however many digits it has. -/
def Cmd.ofWord? (token : Text.Codes) : Option Cmd :=
  (formOf (token.map Text.charOf)).word? token

section

variable {chars : List Char}

/-- A symbol is tested for first. -/
theorem formOf_symbol {cmd : Cmd} (h : Cmd.ofSymbol? (String.ofList chars) = some cmd) :
    formOf chars = .symbol cmd := by
  unfold formOf
  rw [h]

theorem formOf_bracket (size : List Char) : formOf ('[' :: size) = .array size := by
  rw [formOf, ofSymbol?_eq_none List.mem_cons_self (by decide)]

theorem formOf_hash (rest : List Char) : formOf ('#' :: rest) = .comment := by
  rw [formOf, ofSymbol?_eq_none List.mem_cons_self (by decide)]

theorem formOf_zero_x (digits : List Char) : formOf ('0' :: 'x' :: digits) = .hex digits := by
  rw [formOf, ofSymbol?_eq_none List.mem_cons_self (by decide)]

/-- A word that is no symbol and does not start like the others is a remark or a decimal number. -/
theorem formOf_other (hsymbol : Cmd.ofSymbol? (String.ofList chars) = none)
    (hbracket : ∀ size, chars ≠ '[' :: size) (hhash : ∀ rest, chars ≠ '#' :: rest)
    (hhex : ∀ digits, chars ≠ '0' :: 'x' :: digits) :
    formOf chars
      = if chars.head? == some '!' && chars.contains ':' then .remark
        else if chars.contains '.' then .float
        else .int := by
  unfold formOf
  rw [hsymbol]
  dsimp only
  split
  · exact absurd rfl (hbracket _)
  · exact absurd rfl (hhash _)
  · exact absurd rfl (hhex _)
  · rfl

theorem formOf_mark {rest : List Char} (hcolon : ':' ∈ rest) : formOf ('!' :: rest) = .remark := by
  rw [formOf_other (ofSymbol?_eq_none (List.mem_cons_of_mem _ hcolon) (by decide)) (by simp) (by simp) (by simp),
    if_pos (by simpa using hcolon)]

/-- What has the characters of numbers, and a digit among them, is a decimal number. -/
theorem formOf_number (hchars : ∀ c ∈ chars, c = '.' ∨ isNumberChar c = true)
    (hdigit : ∃ c ∈ chars, c.isDigit = true) :
    formOf chars = if chars.contains '.' then .float else .int := by
  have hnone : ∀ c ∈ ['[', '#', 'x', '!'], c ∉ chars := by
    intro c hc hmem
    have hother : ['[', '#', 'x', '!'].all (fun c => c != '.' && !isNumberChar c) = true := by decide
    have hc := List.all_eq_true.mp hother c hc
    rw [Bool.and_eq_true, bne_iff_ne, Bool.not_eq_true'] at hc
    rcases hchars c hmem with hpoint | hnumber
    · exact hc.1 hpoint
    · rw [hc.2] at hnumber
      cases hnumber
  obtain ⟨c, hc, hdigit⟩ := hdigit
  rw [formOf_other (ofSymbol?_eq_none hc (by simp [isMark, hdigit]))]
  · have hhead : chars.head? ≠ some '!' := fun h => hnone '!' (by simp) (List.mem_of_mem_head? h)
    rw [beq_eq_false_iff_ne.mpr hhead, Bool.false_and, if_neg Bool.false_ne_true]
  · rintro size rfl
    exact hnone '[' (by simp) List.mem_cons_self
  · rintro rest rfl
    exact hnone '#' (by simp) List.mem_cons_self
  · rintro digits rfl
    exact hnone 'x' (by simp) (by simp)

/-- What a form says of the characters. -/
inductive Formed (chars : List Char) : Form → Prop
  | symbol {cmd : Cmd} (h : Cmd.ofSymbol? (String.ofList chars) = some cmd) : Formed chars (.symbol cmd)
  | array {size : List Char} (h : chars = '[' :: size) : Formed chars (.array size)
  | comment {rest : List Char} (h : chars = '#' :: rest) : Formed chars .comment
  | hex {digits : List Char} (h : chars = '0' :: 'x' :: digits) : Formed chars (.hex digits)
  | remark {rest : List Char} (h : chars = '!' :: rest) (hcolon : ':' ∈ rest) : Formed chars .remark
  | float (h : '.' ∈ chars) : Formed chars .float
  | int : Formed chars .int

/-- `formOf` is right about the text that it is given. -/
theorem formed_formOf (chars : List Char) : Formed chars (formOf chars) := by
  unfold formOf
  split
  · rename_i hsymbol
    exact .symbol hsymbol
  · split
    · exact .array rfl
    · exact .comment rfl
    · exact .hex rfl
    · split
      · rename_i hremark
        rw [Bool.and_eq_true, beq_iff_eq, List.head?_eq_some_iff] at hremark
        obtain ⟨⟨rest, rfl⟩, hcolon⟩ := hremark
        exact .remark rfl (by simpa using hcolon)
      · split
        · rename_i hpoint
          exact .float (by simpa using hpoint)
        · exact .int

end

/-- The reading of a word by its form. -/
def Form.read (position : Nat) (token : Text.Codes) : Form → Except ParseError Cmd
  | symbol cmd => .ok cmd
  | array size => do
    match ← decimal? (sizeDigits size) with
    | some n => .ok (.array n)
    | none => .error (.badArray token position)
  | comment => .ok (.comment (token.drop 1))
  | hex digits =>
    match (integer? 16 digits).filter inRange with
    | some n => .ok (.hex n)
    | none => .error (.unknown token position)
  | remark => .ok (remarkOf (token.drop 1))
  | float =>
    match number? (token.map Text.charOf) with
    | some number => .ok (.float number.toFloat)
    | none => .error (.unknown token position)
  | int => do
    let (negative, digits) := splitSign (token.map Text.charOf)
    match ((← decimal? digits).map (signed negative)).filter inRange with
    | some n => .ok (.int n)
    | none => .error (.unknown token position)

/-- A word is read in the way of its form. -/
theorem ofToken_eq_read (position : Nat) (token : Text.Codes) :
    Cmd.ofToken position token = (formOf (token.map Text.charOf)).read position token := by
  unfold Cmd.ofToken
  dsimp only
  split
  · rename_i hsymbol
    rw [formOf_symbol hsymbol]
    rfl
  · rename_i hsymbol
    split
    · rename_i size hchars
      rw [hchars, formOf_bracket]
      rfl
    · rename_i rest hchars
      rw [hchars, formOf_hash]
      rfl
    · rename_i digits hchars
      rw [hchars, formOf_zero_x]
      rfl
    · rename_i hbracket hhash hhex
      rw [formOf_other hsymbol hbracket hhash hhex]
      split
      · rfl
      · split <;> rfl

theorem isAscii_of_isNumberChar {c : Char} (h : isNumberChar c = true) : Text.isAscii c = true := by
  have hall : ∀ d : Fin 16,
      Text.isAscii d.val.digitChar = true ∧ Text.isAscii d.val.digitChar.toUpper = true := by
    decide
  simp only [isNumberChar, Bool.or_eq_true, beq_iff_eq, Option.isSome_iff_exists] at h
  rcases h with (rfl | rfl) | ⟨d, hd⟩
  · rfl
  · rfl
  · obtain ⟨hlt, rfl | rfl⟩ := digitOf_of_digit? hd
    · exact (hall ⟨d, hlt⟩).1
    · exact (hall ⟨d, hlt⟩).2

/-! ### What the tests accept -/

/-- Every symbol is in one of the classes of symbols. -/
theorem exists_spells_of_symbol {token : Text.Codes} {cmd : Cmd}
    (h : Cmd.ofSymbol? (String.ofList (token.map Text.charOf)) = some cmd) : ∃ kind, Spells kind token cmd := by
  have hmem : cmd ∈ symbolCmds := List.mem_of_find?_eq_some h
  have hfound : cmd.symbol? = some (String.ofList (token.map Text.charOf)) := by
    simpa using List.find?_some h
  have hall : ∀ cmd ∈ symbolCmds, ∀ symbol ∈ cmd.symbol?, symbol.toList.all Text.isAscii = true := by decide
  have htoken : ∀ symbol, cmd.symbol? = some symbol → token = Text.codesOf symbol := by
    intro symbol hsymbol
    refine Text.eq_map_toNat (List.all_eq_true.mp (hall cmd hmem symbol hsymbol)) ?_
    rw [hfound, Option.some.injEq] at hsymbol
    rw [← hsymbol, String.toList_ofList]
  simp only [symbolCmds, List.mem_append, List.mem_map, List.mem_singleton] at hmem
  rcases hmem with ((((⟨v, _, rfl⟩ | ⟨op, _, rfl⟩) | ⟨op, _, rfl⟩) | ⟨op, _, rfl⟩) | ⟨op, _, rfl⟩) | rfl
  · rw [htoken _ rfl]
    exact ⟨_, .var v⟩
  · rw [htoken _ rfl]
    exact ⟨_, .intOp op⟩
  · rw [htoken _ rfl]
    exact ⟨_, .trig op⟩
  · rw [htoken _ rfl]
    exact ⟨_, .floatOp op⟩
  · rw [htoken _ rfl]
    exact ⟨_, .compare op⟩
  · rw [htoken _ rfl]
    exact ⟨_, .choose⟩

/-- The `sizeDigits` are what stands behind an optional plus sign. -/
theorem exists_plus (size : List Char) : ∃ plus, SignOf plus false ∧ size = plus ++ sizeDigits size := by
  unfold sizeDigits
  split
  · exact ⟨['+'], .plus, rfl⟩
  · exact ⟨[], .none, rfl⟩

/-- An ASCII character at the beginning of a word is its own code point. -/
theorem token_cons {token : Text.Codes} {c : Char} {rest : List Char} (h : token.map Text.charOf = c :: rest)
    (hc : Text.isAscii c = true) : token = c.toNat :: token.drop 1 := by
  cases token with
  | nil => cases h
  | cons code token =>
    rw [Text.eq_toNat_of_charOf hc (List.cons.inj h).1]
    rfl

theorem isAscii_size {plus digits : List Char} {size : Nat} (hplus : SignOf plus false)
    (hdigits : Numeral 10 digits size) : ∀ c ∈ '[' :: (plus ++ digits), Text.isAscii c = true := by
  rw [List.forall_mem_cons, List.forall_mem_append]
  exact ⟨rfl, fun c hc => isAscii_of_isNumberChar (hplus.isNumberChar hc),
    fun c hc => isAscii_of_isNumberChar (hdigits.isNumberChar (by norm_num) hc)⟩

theorem isAscii_pointNumeral {chars : List Char} {number : Number} (h : PointNumeral chars number) :
    ∀ c ∈ chars, Text.isAscii c = true := by
  intro c hc
  rcases h.isNumberChar hc with rfl | hc
  · rfl
  · exact isAscii_of_isNumberChar hc

theorem isAscii_signedNumeral {base : Nat} (hbase : base ≤ 16) {chars : List Char} {n : Int}
    (h : SignedNumeral base chars n) : ∀ c ∈ chars, Text.isAscii c = true :=
  fun _ hc => isAscii_of_isNumberChar (h.isNumberChar hbase hc)

/-- What has a mark and a colon is a remark. -/
theorem spells_remarkOf {word : Text.Codes} (h : ':'.toNat ∈ word) :
    Spells .remark ('!'.toNat :: word) (remarkOf word) := by
  obtain ⟨key, behind, rfl, hkey⟩ := List.eq_append_cons_of_mem h
  by_cases hsecond : ':'.toNat ∈ behind
  · obtain ⟨value, more, rfl, hvalue⟩ := List.eq_append_cons_of_mem hsecond
    rw [remarkOf_append_more hkey hvalue (by simp)]
    exact .remark hkey hvalue (by simp)
  · rw [remarkOf_append hkey hsecond]
    have hspells := @Spells.remark key behind [] hkey hsecond (by simp)
    rwa [List.append_nil] at hspells

theorem colon_mem {token : Text.Codes} {rest : List Char} (h : token.map Text.charOf = '!' :: rest)
    (hcolon : ':' ∈ rest) : ':'.toNat ∈ token.drop 1 := by
  cases token with
  | nil => cases h
  | cons code token =>
    obtain ⟨-, rfl⟩ := List.cons.inj h
    obtain ⟨other, hother, hchar⟩ := List.mem_map.mp hcolon
    rwa [Text.eq_toNat_of_charOf rfl hchar] at hother

/-- Whatever `Cmd.ofWord?` accepts is in the grammar. -/
theorem exists_spells_of_ofWord? {token : Text.Codes} {cmd : Cmd} (h : Cmd.ofWord? token = some cmd) :
    ∃ kind, Spells kind token cmd := by
  have hformed := formed_formOf (token.map Text.charOf)
  unfold Cmd.ofWord? at h
  generalize formOf (token.map Text.charOf) = form at h hformed
  -- each form gives the characters back; they are ASCII but for the texts of remarks and comments
  cases hformed with
  | symbol hsymbol =>
    cases h
    exact exists_spells_of_symbol hsymbol
  | @array size hchars =>
    obtain ⟨n, hn, rfl⟩ := Option.map_eq_some_iff.mp h
    have hdigits := (natural?_eq_some_iff (by norm_num)).mp hn
    obtain ⟨plus, hplus, hsize⟩ := exists_plus size
    rw [hsize] at hchars
    rw [Text.eq_map_toNat (isAscii_size hplus hdigits) hchars]
    exact ⟨_, .array hplus hdigits⟩
  | comment hchars =>
    cases h
    rw [token_cons hchars rfl]
    exact ⟨_, .comment _⟩
  | hex hchars =>
    obtain ⟨n, hn, rfl⟩ := Option.map_eq_some_iff.mp h
    obtain ⟨hinteger, hrange⟩ := Option.filter_eq_some_iff.mp hn
    have hvalue := (integer?_eq_some_iff (by norm_num)).mp hinteger
    have hascii := isAscii_signedNumeral (by norm_num) hvalue
    rw [Text.eq_map_toNat (List.forall_mem_cons.mpr ⟨rfl, List.forall_mem_cons.mpr ⟨rfl, hascii⟩⟩) hchars]
    exact ⟨_, .hex hvalue (of_decide_eq_true hrange)⟩
  | remark hchars hcolon =>
    cases h
    have hspells := spells_remarkOf (colon_mem hchars hcolon)
    rw [show '!'.toNat :: token.drop 1 = token from (token_cons hchars rfl).symm] at hspells
    exact ⟨_, hspells⟩
  | float hpoint =>
    obtain ⟨number, hnumber, rfl⟩ := Option.map_eq_some_iff.mp h
    have hvalue := pointNumeral_iff.mpr ⟨hpoint, hnumber⟩
    have hspells := Spells.float hvalue
    rw [← Text.eq_map_toNat (isAscii_pointNumeral hvalue) rfl] at hspells
    exact ⟨_, hspells⟩
  | int =>
    obtain ⟨n, hn, rfl⟩ := Option.map_eq_some_iff.mp h
    obtain ⟨hinteger, hrange⟩ := Option.filter_eq_some_iff.mp hn
    have hvalue := (integer?_eq_some_iff (by norm_num)).mp hinteger
    have hspells := Spells.int hvalue (of_decide_eq_true hrange)
    rw [← Text.eq_map_toNat (isAscii_signedNumeral (by norm_num) hvalue) rfl] at hspells
    exact ⟨_, hspells⟩

/-! ### What the grammar derives -/

/-- A signed numeral passes all tests but the last one. -/
theorem formOf_signedNumeral {chars : List Char} {n : Int} (h : SignedNumeral 10 chars n) :
    formOf chars = .int := by
  have hpoint := h.not_mem_point (by norm_num)
  have hchars : ∀ c ∈ chars, c = '.' ∨ isNumberChar c = true := fun c hc => .inr (h.isNumberChar (by norm_num) hc)
  rw [formOf_number hchars h.exists_isDigit, if_neg (by simpa using hpoint)]

/-- A number with a point is neither a symbol nor one of the words that start with a mark. -/
theorem formOf_pointNumeral {chars : List Char} {number : Number} (h : PointNumeral chars number) :
    formOf chars = .float := by
  have hpoint := (pointNumeral_iff.mp h).1
  rw [formOf_number (fun c hc => h.isNumberChar hc) h.exists_isDigit, if_pos (by simpa using hpoint)]

theorem sizeDigits_append {plus digits : List Char} {size : Nat} (hplus : SignOf plus false)
    (hdigits : Numeral 10 digits size) : sizeDigits (plus ++ digits) = digits := by
  cases hplus with
  | plus => rfl
  | none =>
    rw [List.nil_append]
    unfold sizeDigits
    split
    · exact absurd rfl (hdigits.head_ne_sign (by norm_num) '+' rfl).1
    · rfl

theorem ofWord?_of_symbol {cmd : Cmd} {symbol : String} (h : cmd ∈ symbolCmds) (hsymbol : cmd.symbol? = some symbol) :
    Cmd.ofWord? (Text.codesOf symbol) = some cmd := by
  obtain ⟨found, hfound, hcmd⟩ := ofSymbol?_of_mem h
  obtain rfl := Option.some.inj (hfound.symm.trans hsymbol)
  have hchars : Cmd.ofSymbol? (String.ofList found.toList) = some cmd := by rw [String.ofList_toList, hcmd]
  rw [Cmd.ofWord?, Text.map_charOf_codesOf, formOf_symbol hchars, Form.word?]

theorem filter_inRange {n : Int} (h : Word64.IsWord n) : (some n).filter inRange = some n := by
  rw [Option.filter_some, inRange_of_isWord h, if_pos rfl]

/-- Whatever is in the grammar is accepted by `Cmd.ofWord?`. -/
theorem Spells.ofWord? {kind : WordClass} {token : Text.Codes} {cmd : Cmd} (h : Spells kind token cmd) :
    Cmd.ofWord? token = some cmd := by
  cases h with
  | var v => exact @ofWord?_of_symbol (.var v) _ (by cases v <;> decide) rfl
  | intOp op => exact @ofWord?_of_symbol (.intOp op) _ (by cases op <;> decide) rfl
  | trig op => exact @ofWord?_of_symbol (.trig op) _ (by cases op <;> decide) rfl
  | floatOp op => exact @ofWord?_of_symbol (.floatOp op) _ (by cases op <;> decide) rfl
  | compare op => exact @ofWord?_of_symbol (.compare op) _ (by cases op <;> decide) rfl
  | choose => exact @ofWord?_of_symbol .choose _ (by decide) rfl
  | array hplus hdigits =>
    rw [Cmd.ofWord?, Text.map_charOf_toNat, formOf_bracket, Form.word?, sizeDigits_append hplus hdigits,
      (natural?_eq_some_iff (by norm_num)).mpr hdigits, Option.map_some]
  | remark hkey hvalue hmore =>
    have hcolon : ∀ {before behind : Text.Codes}, ':' ∈ (before ++ ':'.toNat :: behind).map Text.charOf := by
      intro before behind
      exact List.mem_map.mpr ⟨':'.toNat, by simp, Text.charOf_toNat ':'⟩
    rw [Cmd.ofWord?, List.map_cons, Text.charOf_toNat, formOf_mark hcolon, Form.word?, List.drop_one,
      List.tail_cons, remarkOf_append_more hkey hvalue hmore]
  | comment text =>
    rw [Cmd.ofWord?, List.map_cons, Text.charOf_toNat, formOf_hash, Form.word?, List.drop_one, List.tail_cons]
  | hex hvalue hrange =>
    rw [Cmd.ofWord?, Text.map_charOf_toNat, formOf_zero_x, Form.word?,
      (integer?_eq_some_iff (by norm_num)).mpr hvalue, filter_inRange hrange, Option.map_some]
  | float hvalue =>
    rw [Cmd.ofWord?, Text.map_charOf_toNat, formOf_pointNumeral hvalue, Form.word?, Text.map_charOf_toNat,
      hvalue.number?, Option.map_some]
  | int hvalue hrange =>
    rw [Cmd.ofWord?, Text.map_charOf_toNat, formOf_signedNumeral hvalue, Form.word?, Text.map_charOf_toNat,
      (integer?_eq_some_iff (by norm_num)).mpr hvalue, filter_inRange hrange, Option.map_some]

/-- **The tests accept what the grammar derives.** -/
theorem ofWord?_eq_some_iff {token : Text.Codes} {cmd : Cmd} :
    Cmd.ofWord? token = some cmd ↔ ∃ kind, Spells kind token cmd := by
  constructor
  · exact exists_spells_of_ofWord?
  · rintro ⟨kind, h⟩
    exact h.ofWord?

/-- **A word is in one class at most**, and stands for one command. -/
theorem Spells.unique {kind kind' : WordClass} {token : Text.Codes} {cmd cmd' : Cmd} (h : Spells kind token cmd)
    (h' : Spells kind' token cmd') : kind = kind' ∧ cmd = cmd' := by
  have hsame : cmd = cmd' := Option.some.inj (h.ofWord?.symm.trans h'.ofWord?)
  exact ⟨by rw [← h.wordClass_eq, ← h'.wordClass_eq, hsame], hsame⟩

/-! ## Words of too many digits -/

/-- An array or an integer of more digits than are read, and how many they are. -/
inductive Overlong : Text.Codes → Nat → Prop
  | array {plus digits : List Char} {size : Nat} (hplus : SignOf plus false) (hdigits : Numeral 10 digits size)
      (hlong : 4300 < digits.length) : Overlong (('[' :: (plus ++ digits)).map Char.toNat) digits.length
  | int {sign digits : List Char} {negative : Bool} {n : Nat} (hsign : SignOf sign negative)
      (hdigits : Numeral 10 digits n) (hlong : 4300 < digits.length) :
      Overlong ((sign ++ digits).map Char.toNat) digits.length

/-- A numeral is read unless it has more than 4300 digits. -/
theorem decimal?_of_numeral {digits : List Char} {n : Nat} (h : Numeral 10 digits n) :
    decimal? digits = if 4300 < digits.length then .error (.tooLong digits.length) else .ok (some n) := by
  rw [decimal?, (natural?_eq_some_iff (by norm_num)).mpr h]
  rfl

/-- A numeral that is not too long is read as if there were no limit. -/
theorem decimal?_eq_natural? {digits : List Char} (h : ∀ n, Numeral 10 digits n → ¬ 4300 < digits.length) :
    decimal? digits = .ok (natural? 10 digits) := by
  cases hvalue : natural? 10 digits with
  | none => rw [decimal?, hvalue]
  | some n =>
    have hdigits := (natural?_eq_some_iff (by norm_num)).mp hvalue
    rw [decimal?_of_numeral hdigits, if_neg (h n hdigits)]

/-- Words of too many digits are reported with the number of their digits. -/
theorem ofToken_of_overlong {token : Text.Codes} {digits : Nat} (h : Overlong token digits) (position : Nat) :
    Cmd.ofToken position token = .error (.tooLong digits) := by
  cases h with
  | array hplus hdigits hlong =>
    rw [ofToken_eq_read, Text.map_charOf_toNat, formOf_bracket, Form.read, sizeDigits_append hplus hdigits,
      decimal?_of_numeral hdigits, if_pos hlong]
    rfl
  | int hsign hdigits hlong =>
    rw [ofToken_eq_read, Text.map_charOf_toNat, formOf_signedNumeral (.mk hsign hdigits), Form.read,
      Text.map_charOf_toNat, hsign.splitSign (hdigits.head_ne_sign (by norm_num))]
    dsimp only
    rw [decimal?_of_numeral hdigits, if_pos hlong]
    rfl

/-- The report of a word at a position that is no command. -/
def fault (position : Nat) (token : Text.Codes) : ParseError :=
  if token.head? = some '['.toNat then .badArray token position else .unknown token position

/-- A word that starts with a bracket is blamed as an array. -/
theorem fault_of_bracket {position : Nat} {token : Text.Codes} {size : List Char}
    (h : token.map Text.charOf = '[' :: size) : fault position token = .badArray token position := by
  rw [fault, token_cons h rfl, List.head?_cons, if_pos rfl]

theorem fault_of_form {position : Nat} {token : Text.Codes}
    (h : ∀ size, formOf (token.map Text.charOf) ≠ .array size) :
    fault position token = .unknown token position := by
  refine if_neg ?_
  intro hhead
  obtain ⟨rest, rfl⟩ := List.head?_eq_some_iff.mp hhead
  exact h _ (formOf_bracket _)

/-- **A word of not too many digits is read as what it stands for**, or blamed. -/
theorem ofToken_eq_ofWord? {token : Text.Codes} (h : ∀ digits, ¬ Overlong token digits) (position : Nat) :
    Cmd.ofToken position token
      = match Cmd.ofWord? token with
        | some cmd => .ok cmd
        | none => .error (fault position token) := by
  have hformed := formed_formOf (token.map Text.charOf)
  rw [ofToken_eq_read, Cmd.ofWord?]
  generalize hform : formOf (token.map Text.charOf) = form at hformed ⊢
  -- only arrays and integers have a limit, and a word beyond it would be overlong
  cases hformed with
  | symbol | comment | remark => rfl
  | @array size hchars =>
    have hshort : ∀ n, Numeral 10 (sizeDigits size) n → ¬ 4300 < (sizeDigits size).length := by
      intro n hdigits hlong
      obtain ⟨plus, hplus, hsplit⟩ := exists_plus size
      have hover := Overlong.array hplus hdigits hlong
      rw [← Text.eq_map_toNat (isAscii_size hplus hdigits) (hsplit ▸ hchars)] at hover
      exact h _ hover
    rw [Form.read, Form.word?, fault_of_bracket hchars, decimal?_eq_natural? hshort]
    cases natural? 10 (sizeDigits size) <;> rfl
  | @hex digits hchars =>
    rw [Form.read, Form.word?, fault_of_form (by simp [hform])]
    cases (integer? 16 digits).filter inRange <;> rfl
  | float _ =>
    rw [Form.read, Form.word?, fault_of_form (by simp [hform])]
    cases number? (token.map Text.charOf) <;> rfl
  | int =>
    rw [Form.read, Form.word?, fault_of_form (by simp [hform]), integer?]
    obtain ⟨sign, hsign, hsplit⟩ := exists_signOf (token.map Text.charOf)
    generalize splitSign (token.map Text.charOf) = parts at hsign hsplit ⊢
    obtain ⟨negative, digits⟩ := parts
    have hshort : ∀ n, Numeral 10 digits n → ¬ 4300 < digits.length := by
      intro n hdigits hlong
      have hover := Overlong.int hsign hdigits hlong
      rw [← Text.eq_map_toNat (isAscii_signedNumeral (by norm_num) (.mk hsign hdigits)) hsplit] at hover
      exact h _ hover
    dsimp only
    rw [decimal?_eq_natural? hshort]
    change (match ((natural? 10 digits).map (signed negative)).filter inRange with
      | some n => Except.ok (Cmd.int n)
      | none => _) = _
    cases ((natural? 10 digits).map (signed negative)).filter inRange <;> rfl

/-! ## One word -/

/-- A word is read as a command: it is in the class of the command, stands for it, and is not too long. -/
structure Accepted (token : Text.Codes) (cmd : Cmd) : Prop where
  spells : Spells cmd.wordClass token cmd
  short : ∀ digits, ¬ Overlong token digits

/-- The report of a word at a position that is not read. -/
inductive Blamed (token : Text.Codes) (position : Nat) : ParseError → Prop
  | tooLong {digits : Nat} (h : Overlong token digits) : Blamed token position (.tooLong digits)
  | badArray (hshort : ∀ digits, ¬ Overlong token digits) (hhead : token.head? = some '['.toNat) :
      Blamed token position (.badArray token position)
  | unknown (hshort : ∀ digits, ¬ Overlong token digits) (hhead : token.head? ≠ some '['.toNat) :
      Blamed token position (.unknown token position)

/-- The class in which a word spells a command is told by the command. -/
theorem exists_spells_iff {token : Text.Codes} {cmd : Cmd} :
    (∃ kind, Spells kind token cmd) ↔ Spells cmd.wordClass token cmd := by
  constructor
  · rintro ⟨kind, h⟩
    rwa [h.wordClass_eq]
  · exact fun h => ⟨_, h⟩

/-- One word is read if it is `Accepted`. -/
theorem ofToken_eq_ok_iff {position : Nat} {token : Text.Codes} {cmd : Cmd} :
    Cmd.ofToken position token = .ok cmd ↔ Accepted token cmd := by
  constructor
  · intro h
    have hshort : ∀ digits, ¬ Overlong token digits := by
      intro digits hlong
      rw [ofToken_of_overlong hlong] at h
      cases h
    refine ⟨exists_spells_iff.mp (ofWord?_eq_some_iff.mp ?_), hshort⟩
    rw [ofToken_eq_ofWord? hshort] at h
    cases hword : Cmd.ofWord? token with
    | none =>
      rw [hword] at h
      cases h
    | some cmd' =>
      rw [hword] at h
      cases h
      rfl
  · rintro ⟨hspells, hshort⟩
    rw [ofToken_eq_ofWord? hshort, hspells.ofWord?]

theorem blamed_fault {position : Nat} {token : Text.Codes} (hshort : ∀ digits, ¬ Overlong token digits) :
    Blamed token position (fault position token) := by
  unfold fault
  split
  · rename_i hhead
    exact .badArray hshort hhead
  · rename_i hhead
    exact .unknown hshort hhead

/-- What is reported of a word is what it is to be `Blamed` for. -/
theorem blamed_of_ofToken {position : Nat} {token : Text.Codes} {e : ParseError}
    (h : Cmd.ofToken position token = .error e) : Blamed token position e := by
  by_cases hlong : ∃ digits, Overlong token digits
  · obtain ⟨digits, hlong⟩ := hlong
    rw [ofToken_of_overlong hlong] at h
    cases h
    exact .tooLong hlong
  · have hshort : ∀ digits, ¬ Overlong token digits := not_exists.mp hlong
    rw [ofToken_eq_ofWord? hshort] at h
    cases hword : Cmd.ofWord? token with
    | none =>
      rw [hword] at h
      cases h
      exact blamed_fault hshort
    | some cmd =>
      rw [hword] at h
      cases h

theorem Overlong.unique {token : Text.Codes} {digits digits' : Nat} (h : Overlong token digits)
    (h' : Overlong token digits') : digits = digits' := by
  have hsame := (ofToken_of_overlong h 0).symm.trans (ofToken_of_overlong h' 0)
  cases hsame
  rfl

/-- A word is to be blamed for one thing only. -/
theorem Blamed.unique {token : Text.Codes} {position : Nat} {e e' : ParseError} (h : Blamed token position e)
    (h' : Blamed token position e') : e = e' := by
  cases h with
  | tooLong hlong =>
    cases h' with
    | tooLong hlong' => rw [hlong.unique hlong']
    | badArray hshort _ | unknown hshort _ => exact absurd hlong (hshort _)
  | badArray hshort hhead =>
    cases h' with
    | tooLong hlong => exact absurd hlong (hshort _)
    | badArray => rfl
    | unknown _ hother => exact absurd hhead hother
  | unknown hshort hhead =>
    cases h' with
    | tooLong hlong => exact absurd hlong (hshort _)
    | badArray _ hother => exact absurd hother hhead
    | unknown => rfl

/-- **A word that is not accepted is blamed**, in one way. -/
theorem ofToken_eq_error_iff {position : Nat} {token : Text.Codes} {e : ParseError} :
    Cmd.ofToken position token = .error e ↔ (∀ cmd, ¬ Accepted token cmd) ∧ Blamed token position e := by
  constructor
  · intro h
    refine ⟨?_, blamed_of_ofToken h⟩
    intro cmd hcmd
    rw [ofToken_eq_ok_iff.mpr hcmd] at h
    cases h
  · rintro ⟨hnone, hblamed⟩
    cases h : Cmd.ofToken position token with
    | ok cmd => exact absurd (ofToken_eq_ok_iff.mp h) (hnone cmd)
    | error e' => rw [(blamed_of_ofToken h).unique hblamed]

/-! ## The order of the classes -/

/-- The first class of an order that the word is in makes it the command. -/
def FirstReads (order : List WordClass) (token : Text.Codes) (cmd : Cmd) : Prop :=
  ∃ before kind after, order = before ++ kind :: after ∧ (∀ other ∈ before, ∀ cmd, ¬ Spells other token cmd) ∧
    Spells kind token cmd

/-- **The order of the classes does not matter.** -/
theorem firstReads_iff {order : List WordClass} (horder : ∀ kind, kind ∈ order) {token : Text.Codes} {cmd : Cmd} :
    FirstReads order token cmd ↔ Spells cmd.wordClass token cmd := by
  constructor
  · rintro ⟨_, kind, _, -, -, h⟩
    exact exists_spells_iff.mp ⟨kind, h⟩
  · intro h
    obtain ⟨before, after, hsplit, hbefore⟩ := List.eq_append_cons_of_mem (horder cmd.wordClass)
    refine ⟨before, _, after, hsplit, ?_, h⟩
    intro other hother cmd' h'
    -- no class before that of the command has the word
    rw [(h'.unique h).1] at hother
    exact hbefore hother

/-! ## Texts -/

/-- A text is read if all its words are `Accepted`. -/
theorem parse_eq_ok_iff {text : Text.Codes} {cmds : List Cmd} :
    parse text = .ok cmds ↔ List.Forall₂ Accepted (Text.words text) cmds := by
  have hwords : (Text.words text).zipIdx.map Prod.fst = Text.words text := List.zipIdx_map_fst 0 _
  rw [parse, mapM_eq_ok_iff]
  conv_rhs => rw [← hwords, List.forall₂_map_left_iff]
  simp only [ofToken_eq_ok_iff]

/-- If not, the first word that is not `Accepted` is `Blamed`. -/
theorem parse_eq_error_iff {text : Text.Codes} {e : ParseError} :
    parse text = .error e ↔ ∃ before token after, Text.words text = before ++ token :: after ∧
      (∀ earlier ∈ before, ∃ cmd, Accepted earlier cmd) ∧ (∀ cmd, ¬ Accepted token cmd) ∧
      Blamed token before.length e := by
  rw [parse, mapM_eq_error_iff]
  simp only [ofToken_eq_ok_iff, ofToken_eq_error_iff]
  constructor
  · rintro ⟨_, ⟨token, position⟩, _, hsplit, hbefore, hnone, hblamed⟩
    obtain ⟨before, rest, hwords, rfl, hrest⟩ := List.zipIdx_eq_append_iff.mp hsplit
    obtain ⟨_, after, rfl, hpair, -⟩ := List.zipIdx_eq_cons_iff.mp hrest.symm
    cases hpair
    rw [Nat.zero_add] at hblamed
    refine ⟨before, token, after, hwords, ?_, hnone, hblamed⟩
    intro earlier hearlier
    rw [← List.zipIdx_map_fst 0 before] at hearlier
    obtain ⟨item, hitem, rfl⟩ := List.mem_map.mp hearlier
    exact hbefore item hitem
  · rintro ⟨before, token, after, hwords, hbefore, hnone, hblamed⟩
    refine ⟨before.zipIdx, (token, before.length), after.zipIdx (before.length + 1), ?_, ?_, hnone, hblamed⟩
    · rw [hwords, List.zipIdx_append, List.zipIdx_cons, Nat.zero_add]
    · intro item hitem
      exact hbefore item.1 (List.fst_mem_of_mem_zipIdx hitem)

/-- **A text is read by its grammar.** It is read as the commands of its words if each of them is in a class and
not too long. The classes may be tried in any order, for no word is in two of them. If the text is not read, the
first word that is not accepted is reported with its position: as a bad array if it starts with a bracket, and as
an unknown word if not, unless it is an integer or an array of too many digits. -/
theorem parse_grammar (text : Text.Codes) :
    (∀ cmds, parse text = .ok cmds ↔ ∃ tokens, Text.Divided text tokens ∧ List.Forall₂ Accepted tokens cmds) ∧
    (∀ e, parse text = .error e ↔ ∃ before token after, Text.Divided text (before ++ token :: after) ∧
      (∀ earlier ∈ before, ∃ cmd, Accepted earlier cmd) ∧ (∀ cmd, ¬ Accepted token cmd) ∧
      Blamed token before.length e) ∧
    (∀ token kind kind' cmd cmd', Spells kind token cmd → Spells kind' token cmd' → kind = kind' ∧ cmd = cmd') ∧
    (∀ order : List WordClass, (∀ kind, kind ∈ order) → ∀ cmds, parse text = .ok cmds ↔
      ∃ tokens, Text.Divided text tokens ∧
        List.Forall₂ (fun token cmd => FirstReads order token cmd ∧ ∀ digits, ¬ Overlong token digits)
          tokens cmds) := by
  have hok : ∀ cmds, parse text = .ok cmds ↔ ∃ tokens, Text.Divided text tokens ∧
      List.Forall₂ Accepted tokens cmds := by
    intro cmds
    simp only [parse_eq_ok_iff, ← Text.words_eq_iff, exists_eq_left']
  refine ⟨hok, ?_, fun _ _ _ _ _ => Spells.unique, ?_⟩
  · intro e
    simp only [parse_eq_error_iff, ← Text.words_eq_iff]
  · intro order horder cmds
    have hsame : (fun token cmd => FirstReads order token cmd ∧ ∀ digits, ¬ Overlong token digits) = Accepted := by
      funext token cmd
      rw [firstReads_iff horder]
      exact propext ⟨fun h => ⟨h.1, h.2⟩, fun h => ⟨h.spells, h.short⟩⟩
    rw [hsame]
    exact hok cmds

/-- Words at the border between classes: operators with a point or a mark, a remark and a comment with characters
of other classes in them, and a number that starts with its point. They are read with the classes in reverse, and
the first word that is in no class is reported, though it starts like a number in base sixteen and goes on like
one with a point. -/
theorem parse_grammar_border :
    (∃ tokens, Text.Divided (Text.codesOf "+. != !a:1.5 #[ .5") tokens ∧
      List.Forall₂
        (fun token cmd =>
          FirstReads [.int, .float, .hex, .comment, .remark, .array, .operator, .var] token cmd ∧
            ∀ digits, ¬ Overlong token digits)
        tokens
        [.floatOp .add, .compare .ne, .remark (Text.codesOf "a") (Text.codesOf "1.5"), .comment (Text.codesOf "["),
          .float (Number.toFloat ⟨false, 5, -1⟩)]) ∧
    (∃ before token after,
      Text.Divided (Text.codesOf "+. != !a:1.5 #[ .5 0x1.5 t") (before ++ token :: after) ∧
      (∀ earlier ∈ before, ∃ cmd, Accepted earlier cmd) ∧ (∀ cmd, ¬ Accepted token cmd) ∧
      Blamed token before.length (.unknown (Text.codesOf "0x1.5") 5)) := by
  constructor
  · exact ((parse_grammar _).2.2.2 _ (by intro kind; cases kind <;> decide) _).mp rfl
  · exact ((parse_grammar _).2.1 _).mp rfl

end ProgramArt.Beat

import Mathlib.Data.List.Forall2
import Mathlib.Data.Nat.Digits.Defs
import ProgramArt.Proofs.Decimal.ReadBack

/-!
# The grammar of numbers

Numbers are read by functions that go through a text from left to right. This module says what they read by shapes: a
`Numeral` is a row of digits, a `SignedNumeral` has an optional sign before it, and a `PointNumeral` has digits on one
side of its point at least, and may have an exponent. The readers accept these shapes and no others, and the number
that they give is that of the shape.
-/

namespace ProgramArt.Decimal

/-! ## Digits and numerals -/

/-- A character is the digit of a value below the base, where a letter may be small or capital. -/
def DigitOf (base : Nat) (c : Char) (d : Nat) : Prop :=
  d < base ∧ (c = d.digitChar ∨ c = d.digitChar.toUpper)

/-- What holds of the characters of a range of code points holds of a character whose code point lies there. -/
theorem of_toNat_range {P : Char → Prop} (low count : Nat) (h : ∀ i : Fin count, P (Char.ofNat (low + i)))
    {c : Char} (hlow : low ≤ c.toNat) (hhigh : c.toNat < low + count) : P c := by
  have hc := h ⟨c.toNat - low, by omega⟩
  rwa [Nat.add_sub_cancel' hlow, Char.ofNat_toNat] at hc

theorem digitOf_of_digit? {base : Nat} {c : Char} {d : Nat} (h : digit? base c = some d) : DigitOf base c d := by
  rw [digit?, Option.filter_eq_some_iff] at h
  obtain ⟨hvalue, hd⟩ := h
  refine ⟨by simpa using hd, ?_⟩
  clear hd
  split at hvalue
  · rename_i hrange
    have hhigh : c.toNat ≤ 57 := hrange.2
    cases hvalue
    exact @of_toNat_range
      (fun c => c = (c.toNat - '0'.toNat).digitChar ∨ c = (c.toNat - '0'.toNat).digitChar.toUpper)
      '0'.toNat 10 (by decide) c hrange.1 (Nat.lt_succ_of_le hhigh)
  · split at hvalue
    · -- small letters
      rename_i hrange
      have hhigh : c.toNat ≤ 102 := hrange.2
      cases hvalue
      exact @of_toNat_range
        (fun c => c = (c.toNat - 'a'.toNat + 10).digitChar ∨ c = (c.toNat - 'a'.toNat + 10).digitChar.toUpper)
        'a'.toNat 6 (by decide) c hrange.1 (Nat.lt_succ_of_le hhigh)
    · -- capital letters
      split at hvalue
      · rename_i hrange
        have hhigh : c.toNat ≤ 70 := hrange.2
        cases hvalue
        exact @of_toNat_range
          (fun c => c = (c.toNat - 'A'.toNat + 10).digitChar ∨ c = (c.toNat - 'A'.toNat + 10).digitChar.toUpper)
          'A'.toNat 6 (by decide) c hrange.1 (Nat.lt_succ_of_le hhigh)
      · cases hvalue

/-- A `digit?` is a digit of the base, in bases up to sixteen. -/
theorem digit?_eq_some_iff {base : Nat} (hbase : base ≤ 16) {c : Char} {d : Nat} :
    digit? base c = some d ↔ DigitOf base c d := by
  constructor
  · exact digitOf_of_digit?
  · rintro ⟨hd, hc⟩
    have hall : ∀ d : Fin 16,
        digit? 16 d.val.digitChar = some d.val ∧ digit? 16 d.val.digitChar.toUpper = some d.val := by
      decide
    have hsixteen : digit? 16 c = some d := by
      obtain ⟨hsmall, hcapital⟩ := hall ⟨d, by omega⟩
      rcases hc with rfl | rfl
      · exact hsmall
      · exact hcapital
    rw [digit?, Option.filter_eq_some_iff] at hsixteen ⊢
    exact ⟨hsixteen.1, decide_eq_true hd⟩

/-- A row of one digit or more, and the number that it stands for. -/
def Numeral (base : Nat) (digits : List Char) (n : Nat) : Prop :=
  ∃ values, values ≠ [] ∧ List.Forall₂ (DigitOf base) digits values ∧ Nat.ofDigits base values.reverse = n

theorem ofDigits_reverse (base : Nat) (values : List Nat) :
    Nat.ofDigits base values.reverse = values.foldl (fun total d => total * base + d) 0 := by
  rw [Nat.ofDigits_eq_foldr, List.foldr_reverse]
  congr 1
  funext total d
  rw [Nat.cast_id, Nat.add_comm, Nat.mul_comm]

/-- Reading digit by digit gives the number of the digits behind the `total` so far. -/
theorem foldl_digits_eq_some_iff {base : Nat} (hbase : base ≤ 16) {text : List Char} {total n : Nat} :
    text.foldl (fun total c => do return (← total) * base + (← digit? base c)) (some total) = some n
      ↔ ∃ values, List.Forall₂ (DigitOf base) text values
        ∧ values.foldl (fun total d => total * base + d) total = n := by
  induction text generalizing total with
  | nil => simp
  | cons c rest ih =>
    rw [List.foldl_cons]
    cases hc : digit? base c with
    | none =>
      -- one character that is no digit spoils the row
      constructor
      · intro h
        rw [show (do return (← some total) * base + (← (none : Option Nat)) : Option Nat) = none from rfl,
          foldl_digits_none] at h
        cases h
      · rintro ⟨_, hvalues, -⟩
        cases hvalues with
        | cons hfirst _ =>
          rw [(digit?_eq_some_iff hbase).mpr hfirst] at hc
          cases hc
    | some d =>
      refine Iff.trans ih ?_
      constructor
      · rintro ⟨values, hvalues, hn⟩
        exact ⟨d :: values, .cons ((digit?_eq_some_iff hbase).mp hc) hvalues, hn⟩
      · rintro ⟨_, hvalues, hn⟩
        cases hvalues with
        | cons hfirst hrest =>
          rw [(digit?_eq_some_iff hbase).mpr hfirst] at hc
          cases hc
          exact ⟨_, hrest, hn⟩

/-- **A numeral is read as the number that its digits stand for**, and nothing else is. -/
theorem natural?_eq_some_iff {base : Nat} (hbase : base ≤ 16) {text : List Char} {n : Nat} :
    natural? base text = some n ↔ Numeral base text n := by
  rw [natural?]
  split
  · rename_i hempty
    rw [List.isEmpty_iff.mp hempty]
    constructor
    · intro h
      cases h
    · rintro ⟨values, hne, hvalues, -⟩
      cases hvalues
      exact absurd rfl hne
  · rename_i hne
    rw [foldl_digits_eq_some_iff hbase]
    constructor
    · rintro ⟨values, hvalues, hn⟩
      refine ⟨values, ?_, hvalues, (ofDigits_reverse base values).trans hn⟩
      rintro rfl
      cases hvalues
      exact hne rfl
    · rintro ⟨values, -, hvalues, hn⟩
      exact ⟨values, hvalues, (ofDigits_reverse base values).symm.trans hn⟩

/-! ## Signed numerals -/

/-- The characters of numbers, but for the point. -/
def isNumberChar (c : Char) : Bool :=
  c == '+' || c == '-' || (digit? 16 c).isSome

theorem DigitOf.digit? {base : Nat} (hbase : base ≤ 16) {c : Char} {d : Nat} (h : DigitOf base c d) :
    digit? 16 c = some d :=
  (digit?_eq_some_iff le_rfl).mpr ⟨h.1.trans_le hbase, h.2⟩

theorem DigitOf.isNumberChar {base : Nat} (hbase : base ≤ 16) {c : Char} {d : Nat} (h : DigitOf base c d) :
    isNumberChar c = true := by
  rw [Decimal.isNumberChar, h.digit? hbase, Option.isSome_some, Bool.or_true]

theorem DigitOf.ne_sign {base : Nat} (hbase : base ≤ 16) {c : Char} {d : Nat} (h : DigitOf base c d) :
    c ≠ '+' ∧ c ≠ '-' := by
  have hd := h.digit? hbase
  constructor <;> rintro rfl <;> cases hd

theorem Numeral.exists_digitOf {base n : Nat} {digits : List Char} (h : Numeral base digits n) {c : Char}
    (hc : c ∈ digits) : ∃ d, DigitOf base c d := by
  obtain ⟨values, -, hvalues, -⟩ := h
  clear n
  induction hvalues with
  | nil => cases hc
  | cons hfirst _ ih =>
    rcases List.mem_cons.mp hc with rfl | hc
    · exact ⟨_, hfirst⟩
    · exact ih hc

theorem Numeral.isNumberChar {base n : Nat} (hbase : base ≤ 16) {digits : List Char} (h : Numeral base digits n)
    {c : Char} (hc : c ∈ digits) : isNumberChar c = true := by
  obtain ⟨d, hd⟩ := h.exists_digitOf hc
  exact hd.isNumberChar hbase

theorem Numeral.ne_nil {base n : Nat} {digits : List Char} (h : Numeral base digits n) : digits ≠ [] := by
  rintro rfl
  obtain ⟨values, hne, hvalues, -⟩ := h
  cases hvalues
  exact hne rfl

/-- The digits of a decimal numeral are decimal digits. -/
theorem Numeral.isDigit {n : Nat} {digits : List Char} (h : Numeral 10 digits n) {c : Char} (hc : c ∈ digits) :
    c.isDigit = true := by
  have hall : ∀ d : Fin 10, d.val.digitChar.isDigit = true ∧ d.val.digitChar.toUpper.isDigit = true := by decide
  obtain ⟨d, hd, hchar⟩ := h.exists_digitOf hc
  rcases hchar with rfl | rfl
  · exact (hall ⟨d, hd⟩).1
  · exact (hall ⟨d, hd⟩).2

/-- An optional sign, and whether it makes a number negative. -/
inductive SignOf : List Char → Bool → Prop
  | none : SignOf [] false
  | plus : SignOf ['+'] false
  | minus : SignOf ['-'] true

theorem SignOf.isNumberChar {sign : List Char} {negative : Bool} (h : SignOf sign negative) {c : Char}
    (hc : c ∈ sign) : isNumberChar c = true := by
  cases h with
  | none => cases hc
  | plus | minus =>
    rw [List.mem_singleton.mp hc]
    decide

/-- A sign is split off what starts with none. -/
theorem SignOf.splitSign {sign : List Char} {negative : Bool} (h : SignOf sign negative) {rest : List Char}
    (hrest : ∀ c ∈ rest.head?, c ≠ '+' ∧ c ≠ '-') : splitSign (sign ++ rest) = (negative, rest) := by
  cases h with
  | plus | minus => rfl
  | none =>
    cases rest with
    | nil => rfl
    | cons c rest =>
      obtain ⟨hplus, hminus⟩ := hrest c rfl
      exact splitSign_signChars false rest hminus hplus

/-- `splitSign` divides every text into a sign, which may be empty, and the rest. -/
theorem exists_signOf (text : List Char) :
    ∃ sign, SignOf sign (splitSign text).1 ∧ text = sign ++ (splitSign text).2 := by
  unfold splitSign
  split
  · exact ⟨['-'], .minus, rfl⟩
  · exact ⟨['+'], .plus, rfl⟩
  · exact ⟨[], .none, rfl⟩

/-- A numeral with an optional sign, and the integer that it stands for. -/
inductive SignedNumeral (base : Nat) : List Char → Int → Prop
  | mk {sign digits : List Char} {negative : Bool} {n : Nat} (hsign : SignOf sign negative)
      (hdigits : Numeral base digits n) : SignedNumeral base (sign ++ digits) (signed negative n)

/-- A numeral does not start with a sign, so `splitSign` leaves it alone. -/
theorem Numeral.head_ne_sign {base n : Nat} (hbase : base ≤ 16) {digits : List Char} (h : Numeral base digits n) :
    ∀ c ∈ digits.head?, c ≠ '+' ∧ c ≠ '-' := by
  intro c hc
  obtain ⟨d, hd⟩ := h.exists_digitOf (List.mem_of_mem_head? hc)
  exact hd.ne_sign hbase

/-- **A signed numeral is read as its integer**, and nothing else is. -/
theorem integer?_eq_some_iff {base : Nat} (hbase : base ≤ 16) {text : List Char} {k : Int} :
    integer? base text = some k ↔ SignedNumeral base text k := by
  constructor
  · intro h
    change (natural? base (splitSign text).2).map (signed (splitSign text).1) = some k at h
    obtain ⟨n, hn, rfl⟩ := Option.map_eq_some_iff.mp h
    obtain ⟨sign, hsign, htext⟩ := exists_signOf text
    have hmk := SignedNumeral.mk hsign ((natural?_eq_some_iff hbase).mp hn)
    rwa [← htext] at hmk
  · rintro ⟨hsign, hdigits⟩
    rw [integer?, hsign.splitSign (hdigits.head_ne_sign hbase)]
    dsimp only
    rw [(natural?_eq_some_iff hbase).mpr hdigits, Option.map_some]

theorem SignedNumeral.isNumberChar {base : Nat} (hbase : base ≤ 16) {text : List Char} {k : Int}
    (h : SignedNumeral base text k) {c : Char} (hc : c ∈ text) : isNumberChar c = true := by
  obtain ⟨hsign, hdigits⟩ := h
  rcases List.mem_append.mp hc with hc | hc
  · exact hsign.isNumberChar hc
  · exact hdigits.isNumberChar hbase hc

theorem SignedNumeral.exists_isDigit {text : List Char} {k : Int} (h : SignedNumeral 10 text k) :
    ∃ c ∈ text, c.isDigit = true := by
  obtain ⟨_, hdigits⟩ := h
  obtain ⟨c, hc⟩ := List.exists_mem_of_ne_nil _ hdigits.ne_nil
  exact ⟨c, List.mem_append_right _ hc, hdigits.isDigit hc⟩

/-- A signed numeral has no point, and so is no `PointNumeral`. -/
theorem SignedNumeral.not_mem_point {base : Nat} (hbase : base ≤ 16) {text : List Char} {k : Int}
    (h : SignedNumeral base text k) : '.' ∉ text := by
  intro hpoint
  exact absurd (h.isNumberChar hbase hpoint) (by decide)

/-! ## Numbers with a point -/

/-- An optional exponent: a letter and a signed numeral. -/
inductive ExponentOf : List Char → Int → Prop
  | none : ExponentOf [] 0
  | some {c : Char} {text : List Char} {k : Int} (hc : c = 'e' ∨ c = 'E') (h : SignedNumeral 10 text k) :
      ExponentOf (c :: text) k

/-- `exponent?` reads an `e` with a signed numeral behind it, or nothing. -/
theorem exponent?_eq_some_iff {text : List Char} {k : Int} : exponent? text = some k ↔ ExponentOf text k := by
  constructor
  · intro h
    cases text with
    | nil =>
      cases h
      exact .none
    | cons c rest =>
      rw [exponent?] at h
      split at h
      · rename_i hc
        exact .some hc ((integer?_eq_some_iff (by norm_num)).mp h)
      · cases h
  · intro h
    cases h with
    | none => rfl
    | some hc h => rw [exponent?, if_pos hc, (integer?_eq_some_iff (by norm_num)).mpr h]

theorem ExponentOf.isNumberChar {text : List Char} {k : Int} (h : ExponentOf text k) {c : Char} (hc : c ∈ text) :
    isNumberChar c = true := by
  cases h with
  | none => cases hc
  | some hletter h =>
    rcases List.mem_cons.mp hc with rfl | hc
    · rcases hletter with rfl | rfl <;> decide
    · exact h.isNumberChar (by norm_num) hc

theorem ExponentOf.isDigit_head {text : List Char} {k : Int} (h : ExponentOf text k) :
    ∀ c ∈ text.head?, c.isDigit = false := by
  cases h with
  | none => simp
  | some hletter _ =>
    intro c hc
    cases hc
    rcases hletter with rfl | rfl <;> rfl

/-- A number with a point: an optional sign, digits on one side of the point at least, and an optional
exponent. -/
inductive PointNumeral : List Char → Number → Prop
  | mk {sign whole fraction exponent : List Char} {negative : Bool} {n : Nat} {k : Int}
      (hsign : SignOf sign negative) (hdigits : Numeral 10 (whole ++ fraction) n)
      (hexponent : ExponentOf exponent k) :
      PointNumeral (sign ++ (whole ++ '.' :: (fraction ++ exponent))) ⟨negative, n, k - fraction.length⟩

/-- A number with a point is read as the number of its shape. -/
theorem PointNumeral.number? {text : List Char} {number : Number} (h : PointNumeral text number) :
    number? text = some number := by
  obtain ⟨hsign, hdigits, hexponent⟩ := h
  rename_i sign whole fraction exponent negative n k
  have hwhole : ∀ c ∈ whole, c.isDigit = true := fun c hc => hdigits.isDigit (List.mem_append_left _ hc)
  have hfraction : ∀ c ∈ fraction, c.isDigit = true := fun c hc => hdigits.isDigit (List.mem_append_right _ hc)
  have hhead : ∀ c ∈ (whole ++ '.' :: (fraction ++ exponent)).head?, c ≠ '+' ∧ c ≠ '-' := by
    intro c hc
    cases whole with
    | nil =>
      cases hc
      decide
    | cons first rest =>
      have hfirst := hwhole first List.mem_cons_self
      cases hc
      constructor <;> rintro rfl <;> cases hfirst
  have hspan : spanDigits (whole ++ '.' :: (fraction ++ exponent)) = (whole, '.' :: (fraction ++ exponent)) :=
    spanDigits_append hwhole (by simp)
  have hspan' : spanDigits (fraction ++ exponent) = (fraction, exponent) :=
    spanDigits_append hfraction hexponent.isDigit_head
  simp only [Decimal.number?, hsign.splitSign hhead, hspan, hspan', exponent?_eq_some_iff.mpr hexponent,
    (natural?_eq_some_iff (by norm_num)).mpr hdigits, Option.bind_eq_bind, Option.bind_some, Option.pure_def]

/-- `spanDigits` divides a text behind its leading digits. -/
theorem spanDigits_eq (text : List Char) :
    text = (spanDigits text).1 ++ (spanDigits text).2 ∧ ∀ c ∈ (spanDigits text).1, c.isDigit = true := by
  rw [spanDigits, List.span_eq_takeWhile_dropWhile]
  refine ⟨List.takeWhile_append_dropWhile.symm, ?_⟩
  intro c hc
  have hrange := List.mem_takeWhile_imp hc
  exact (isDigit_iff c).mpr (of_decide_eq_true hrange)

/-- Whatever is read from a text with a point is a `PointNumeral`. -/
theorem pointNumeral_of_number? {text : List Char} {number : Number} (hpoint : '.' ∈ text)
    (h : number? text = some number) : PointNumeral text number := by
  obtain ⟨sign, hsign, htext⟩ := exists_signOf text
  generalize hrest : (splitSign text).2 = rest at htext
  obtain ⟨hspan, hwhole⟩ := spanDigits_eq rest
  generalize hafter : (spanDigits rest).2 = after at hspan
  unfold Decimal.number? at h
  simp only [Option.bind_eq_bind, Option.pure_def, Option.bind_eq_some_iff, Option.some.injEq] at h
  rw [hrest, hafter] at h
  split at h
  · -- the digits in front of the point end there
    rename_i behind
    obtain ⟨k, hk, n, hn, rfl⟩ := h
    obtain ⟨hspan', -⟩ := spanDigits_eq behind
    have hmk := PointNumeral.mk hsign ((natural?_eq_some_iff (by norm_num)).mp hn) (exponent?_eq_some_iff.mp hk)
    rwa [← hspan', ← hspan, ← htext] at hmk
  · -- without a point behind the digits there is none at all
    obtain ⟨k, hk, -⟩ := h
    rw [htext, hspan, List.mem_append, List.mem_append] at hpoint
    rcases hpoint with hpoint | hpoint | hpoint
    · exact absurd (hsign.isNumberChar hpoint) (by decide)
    · cases hwhole '.' hpoint
    · exact absurd ((exponent?_eq_some_iff.mp hk).isNumberChar hpoint) (by decide)

/-- **A number with a point is read as that number**, and nothing else that has a point is. -/
theorem pointNumeral_iff {text : List Char} {number : Number} :
    PointNumeral text number ↔ '.' ∈ text ∧ number? text = some number := by
  constructor
  · intro h
    refine ⟨?_, h.number?⟩
    obtain ⟨-, -, -⟩ := h
    simp
  · rintro ⟨hpoint, h⟩
    exact pointNumeral_of_number? hpoint h

/-- But for its point, a number with a point has characters of numbers only. -/
theorem PointNumeral.isNumberChar {text : List Char} {number : Number} (h : PointNumeral text number) {c : Char}
    (hc : c ∈ text) : c = '.' ∨ isNumberChar c = true := by
  obtain ⟨hsign, hdigits, hexponent⟩ := h
  rw [List.mem_append, List.mem_append, List.mem_cons, List.mem_append] at hc
  rcases hc with hc | hc | hc | hc | hc
  · exact .inr (hsign.isNumberChar hc)
  · exact .inr (hdigits.isNumberChar (by norm_num) (List.mem_append_left _ hc))
  · exact .inl hc
  · exact .inr (hdigits.isNumberChar (by norm_num) (List.mem_append_right _ hc))
  · exact .inr (hexponent.isNumberChar hc)

theorem PointNumeral.exists_isDigit {text : List Char} {number : Number} (h : PointNumeral text number) :
    ∃ c ∈ text, c.isDigit = true := by
  obtain ⟨_, hdigits, _⟩ := h
  obtain ⟨c, hc⟩ := List.exists_mem_of_ne_nil _ hdigits.ne_nil
  refine ⟨c, ?_, hdigits.isDigit hc⟩
  rw [List.mem_append, List.mem_append, List.mem_cons, List.mem_append]
  rcases List.mem_append.mp hc with hc | hc
  · exact .inr (.inl hc)
  · exact .inr (.inr (.inr (.inl hc)))

end ProgramArt.Decimal

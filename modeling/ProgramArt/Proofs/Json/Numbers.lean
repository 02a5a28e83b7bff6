import ProgramArt.Json.Printer
import ProgramArt.Json.Reader
import ProgramArt.Proofs.Decimal.ReadBack

/-!
# The numbers of a document

A number of a document has a whole part without a zero in front, and perhaps a fraction and a power of ten. Integers
and doubles are written in this form, and they are read back from it, whatever follows them in the document
(`readNumber?_int`, `readNumber?_float`). A double that is written with a power of ten has one digit before its point.
-/

namespace ProgramArt.Decimal

open Binary64

/-! ## Digits -/

/-- The first digit of a positive number is not zero. -/
theorem head_toDigits {n : Nat} (hpos : 0 < n) :
    ∃ c rest, Nat.toDigits 10 n = c :: rest ∧ c ≠ '0' := by
  induction n using Nat.strongRecOn with
  | ind n ih =>
    by_cases hsmall : n < 10
    · have hdigit : ∀ d : Fin 10, 0 < d.val → d.val.digitChar ≠ '0' := by decide
      exact ⟨n.digitChar, [], Nat.toDigits_of_lt_base hsmall, hdigit ⟨n, hsmall⟩ hpos⟩
    · obtain ⟨c, rest, hdigits, hc⟩ := ih (n / 10) (by omega) (by omega)
      refine ⟨c, rest ++ [(n % 10).digitChar], ?_, hc⟩
      rw [Nat.toDigits_of_base_le (by norm_num) (by omega), hdigits, List.cons_append]

/-- The shortest digits of a positive double are not all zero. -/
theorem coefficient_shortest_pos {mantissa : Nat} {exponent : Int} (h : Canonical mantissa exponent)
    (hpos : 0 < mantissa) : 0 < (shortest mantissa exponent).coefficient := by
  have hgap := gapBelow_le mantissa exponent
  have hone : (1 : ℚ) ≤ mantissa := by exact_mod_cast hpos
  have hlow := (shortest_mem h hpos).le.1
  have hvalue : (0 : ℚ) < (shortest mantissa exponent).value :=
    lt_of_lt_of_le (mul_pos (by linarith) (by positivity)) hlow
  rw [Nat.pos_iff_ne_zero]
  intro hzero
  simp [Scaled.value, hzero] at hvalue

/-! ## Powers of ten -/

/-- A fraction of the given digits, which is left out if there are none. -/
def fractionChars (digits : List Char) : List Char :=
  if digits = [] then [] else '.' :: digits

/-- A power of ten with its sign and at least two digits. -/
def powerChars (leading : Int) : List Char :=
  (if leading < 0 then '-' else '+')
    :: (if (Nat.toDigits 10 leading.natAbs).length < 2 then '0' :: Nat.toDigits 10 leading.natAbs
      else Nat.toDigits 10 leading.natAbs)

/-- Digits with a power of ten have one digit before the point. -/
theorem scientific_cons (first : Char) (rest : List Char) (exponent : Int) :
    Digits.scientific (first :: rest) exponent
      = first :: (fractionChars rest ++ 'e' :: powerChars (exponent + rest.length)) := by
  have hleading : exponent + ((first :: rest).length : Int) - 1 = exponent + rest.length := by
    simp
    omega
  unfold Digits.scientific
  rw [hleading]
  cases rest <;> rfl

theorem exists_powerChars (leading : Int) :
    ∃ sign digits, powerChars leading = sign :: digits ∧ (sign = '+' ∨ sign = '-') ∧ digits ≠ []
      ∧ ∀ c ∈ digits, c.isDigit = true := by
  refine ⟨_, _, rfl, ?_, ?_, ?_⟩
  · split <;> simp
  · split <;> simp [Nat.toDigits_ne_nil]
  · intro c hc
    split at hc
    · rcases List.mem_cons.mp hc with rfl | hc
      · rfl
      · exact isDigit_toDigits hc
    · exact isDigit_toDigits hc

/-- A power of ten reads back. -/
theorem integer?_powerChars (leading : Int) : integer? 10 (powerChars leading) = some leading := by
  have hpadded : natural? 10 (if (Nat.toDigits 10 leading.natAbs).length < 2 then
      '0' :: Nat.toDigits 10 leading.natAbs else Nat.toDigits 10 leading.natAbs)
        = some leading.natAbs := by
    by_cases hshort : (Nat.toDigits 10 leading.natAbs).length < 2
    · have hall : ∀ c ∈ '0' :: Nat.toDigits 10 leading.natAbs, c.isDigit = true := by
        intro c hc
        rcases List.mem_cons.mp hc with rfl | hc
        · rfl
        · exact isDigit_toDigits hc
      rw [if_pos hshort, natural?_of_isDigit (by simp) hall, Nat.ofDigitChars_cons]
      simp [Nat.ofDigitChars_ten_toDigits]
    · rw [if_neg hshort, natural?_toDigits]
  by_cases hneg : leading < 0
  · simp only [powerChars, hneg, if_true, integer?, splitSign, hpadded, Option.map_some, signed]
    congr 1
    omega
  · simp only [powerChars, hneg, if_false, integer?, splitSign, hpadded, Option.map_some, signed]
    congr 1
    simp
    omega

/-- **Digits with a power of ten are read as the number that they stand for.** -/
theorem number?_scientific (negative : Bool) (d : Scaled) :
    number? (signChars negative ++ Digits.scientific d.digits d.exponent)
      = some ⟨negative, d.coefficient, d.exponent⟩ := by
  have hdigits : ∀ c ∈ d.digits, c.isDigit = true := fun c => isDigit_toDigits
  have hvalue : natural? 10 d.digits = some d.coefficient := natural?_toDigits d.coefficient
  obtain ⟨first, rest, hcons⟩ := List.exists_cons_of_ne_nil (show d.digits ≠ [] from Nat.toDigits_ne_nil)
  rw [hcons] at hdigits hvalue ⊢
  have hfirst : ∀ c ∈ [first], c.isDigit = true := by
    intro c hc
    exact hdigits c (by simp_all)
  have hrest : ∀ c ∈ rest, c.isDigit = true := fun c hc => hdigits c (List.mem_cons_of_mem _ hc)
  have hpower := integer?_powerChars (d.exponent + rest.length)
  rw [scientific_cons]
  have hsign : ∀ tail, splitSign (signChars negative ++ first :: tail) = (negative, first :: tail) :=
    fun tail => splitSign_digits negative tail (List.cons_ne_nil first []) hfirst
  -- a single digit is written without a point
  by_cases hnil : rest = []
  · subst hnil
    have hspan : ∀ tail, spanDigits (first :: 'e' :: tail) = ([first], 'e' :: tail) :=
      fun tail => spanDigits_append hfirst (by simp)
    simp only [List.length_nil, Int.natCast_zero, Int.add_zero] at hpower
    calc number? (signChars negative ++ first :: (fractionChars [] ++ 'e' :: powerChars (d.exponent + 0)))
        = (integer? 10 (powerChars (d.exponent + 0))).bind fun power =>
            (natural? 10 ([first] ++ [])).bind fun coefficient =>
              some ⟨negative, coefficient, power - (0 : Nat)⟩ := by
          rw [number?, hsign]
          simp only [fractionChars, if_true, List.nil_append, hspan]
          rfl
      _ = some ⟨negative, d.coefficient, d.exponent⟩ := by
          simp [hpower, hvalue]
  · have hspan : ∀ tail, spanDigits (first :: '.' :: tail) = ([first], '.' :: tail) :=
      fun tail => spanDigits_append hfirst (by simp)
    have hspan' : ∀ tail, spanDigits (rest ++ 'e' :: tail) = (rest, 'e' :: tail) :=
      fun tail => spanDigits_append hrest (by simp)
    simp only [number?, hsign, hspan, hspan', fractionChars, if_neg hnil, exponent?, hpower, hvalue,
      List.cons_append, List.nil_append, true_or, if_true, Option.bind_eq_bind, Option.bind_some,
      Option.pure_def, Int.add_sub_cancel]

/-! ## The shape of a double -/

/-- The whole part of a number: a zero, or digits that start with another one. -/
def IsWhole (whole : List Char) : Prop :=
  whole = ['0'] ∨ ((∃ c rest, whole = c :: rest ∧ c ≠ '0') ∧ ∀ c ∈ whole, c.isDigit = true)

/-- The fraction of a number, if it has one. -/
def IsFraction (fraction : List Char) : Prop :=
  fraction = [] ∨ ∃ digits, fraction = '.' :: digits ∧ digits ≠ [] ∧ ∀ c ∈ digits, c.isDigit = true

/-- The power of ten of a number, if it has one. -/
def IsPower (power : List Char) : Prop :=
  power = [] ∨ ∃ sign digits, power = 'e' :: sign :: digits ∧ (sign = '+' ∨ sign = '-') ∧ digits ≠ []
    ∧ ∀ c ∈ digits, c.isDigit = true

theorem IsWhole.isDigit {whole : List Char} (h : IsWhole whole) : ∀ c ∈ whole, c.isDigit = true := by
  rcases h with rfl | ⟨-, hdigits⟩
  · simp
  · exact hdigits

theorem IsWhole.ne_nil {whole : List Char} (h : IsWhole whole) : whole ≠ [] := by
  rcases h with rfl | ⟨⟨c, rest, rfl, -⟩, -⟩ <;> simp

theorem isWhole_toDigits (n : Nat) : IsWhole (Nat.toDigits 10 n) := by
  rcases Nat.eq_zero_or_pos n with rfl | hpos
  · exact .inl (Nat.toDigits_zero 10)
  · exact .inr ⟨head_toDigits hpos, fun c => isDigit_toDigits⟩

theorem isFraction_fractionChars {digits : List Char} (h : ∀ c ∈ digits, c.isDigit = true) :
    IsFraction (fractionChars digits) := by
  by_cases hnil : digits = []
  · exact .inl (if_pos hnil)
  · exact .inr ⟨digits, if_neg hnil, hnil, h⟩

theorem isPower_powerChars (leading : Int) : IsPower ('e' :: powerChars leading) := by
  obtain ⟨sign, digits, heq, hsign, hne, hdigits⟩ := exists_powerChars leading
  exact .inr ⟨sign, digits, by rw [heq], hsign, hne, hdigits⟩

/-- The text of a number that is no integer: it has a fraction or a power of ten. -/
def IsDecimal (negative : Bool) (text : List Char) : Prop :=
  ∃ whole fraction power, text = signChars negative ++ (whole ++ (fraction ++ power))
    ∧ IsWhole whole ∧ IsFraction fraction ∧ IsPower power ∧ fraction ++ power ≠ []

/-- Digits around a point are a number of a document. -/
theorem isDecimal_pointed {negative : Bool} {whole digits : List Char} (hwhole : IsWhole whole)
    (hne : digits ≠ []) (hdigits : ∀ c ∈ digits, c.isDigit = true) :
    IsDecimal negative (signChars negative ++ (whole ++ '.' :: digits)) :=
  ⟨whole, '.' :: digits, [], by simp, hwhole, .inr ⟨digits, rfl, hne, hdigits⟩, .inl rfl, by simp⟩

/-- Each of the three positional shapes of a positive number has a whole part without a zero in front. -/
theorem isDecimal_positional (negative : Bool) {d : Scaled} (hpos : 0 < d.coefficient) :
    IsDecimal negative
      (signChars negative ++ Digits.pointed (Digits.positional d.digits d.exponent)) := by
  have hdigits : ∀ c ∈ d.digits, c.isDigit = true := fun c => isDigit_toDigits
  have hzeros : ∀ k, ∀ c ∈ List.replicate k '0', c.isDigit = true := fun _ _ => isDigit_zeros
  obtain ⟨first, rest, hcons, hfirst⟩ : ∃ c rest, d.digits = c :: rest ∧ c ≠ '0' := head_toDigits hpos
  unfold Digits.positional
  by_cases hwhole : 0 ≤ d.exponent
  · have hall : ∀ c ∈ d.digits ++ List.replicate d.exponent.toNat '0', c.isDigit = true := by
      intro c hc
      exact (List.mem_append.mp hc).elim (hdigits c) (hzeros _ c)
    rw [if_pos hwhole, Digits.pointed, contains_point hall, if_neg Bool.false_ne_true]
    exact isDecimal_pointed (.inr ⟨⟨first, _, by rw [hcons]; rfl, hfirst⟩, hall⟩) (by simp) (hzeros 1)
  · rw [if_neg hwhole]
    dsimp only
    by_cases hinside : (-d.exponent).toNat < d.digits.length
    · rw [if_pos hinside, Digits.pointed, if_pos (by simp)]
      refine isDecimal_pointed (.inr ⟨⟨first, rest.take (d.digits.length - (-d.exponent).toNat - 1), ?_,
        hfirst⟩, fun c hc => hdigits c (List.mem_of_mem_take hc)⟩) ?_
        fun c hc => hdigits c (List.mem_of_mem_drop hc)
      · obtain ⟨k, hk⟩ : ∃ k, d.digits.length - (-d.exponent).toNat = k + 1 :=
          ⟨d.digits.length - (-d.exponent).toNat - 1, by omega⟩
        rw [hk, hcons]
        simp
      · simp
        omega
    · rw [if_neg hinside, Digits.pointed, if_pos (by simp)]
      refine isDecimal_pointed (.inl rfl) (by simp [hcons]) ?_
      intro c hc
      exact (List.mem_append.mp hc).elim (hzeros _ c) (hdigits c)

/-- Digits with a power of ten are one too. -/
theorem isDecimal_scientific (negative : Bool) {d : Scaled} (hpos : 0 < d.coefficient) :
    IsDecimal negative (signChars negative ++ Digits.scientific d.digits d.exponent) := by
  have hdigits : ∀ c ∈ d.digits, c.isDigit = true := fun c => isDigit_toDigits
  obtain ⟨first, rest, hcons, hfirst⟩ : ∃ c rest, d.digits = c :: rest ∧ c ≠ '0' := head_toDigits hpos
  rw [hcons] at hdigits ⊢
  rw [scientific_cons]
  refine ⟨[first], fractionChars rest, 'e' :: powerChars (d.exponent + rest.length), rfl,
    .inr ⟨⟨first, [], rfl, hfirst⟩, ?_⟩, isFraction_fractionChars ?_, isPower_powerChars _, by simp⟩
  · intro c hc
    exact hdigits c (by simp_all)
  · exact fun c hc => hdigits c (List.mem_cons_of_mem _ hc)

/-- The value of a double is written as a number of the format, and is read as the double. -/
theorem isDecimal_format {x : Float} {negative : Bool} {mantissa : Nat} {exponent : Int}
    (h : parts x = .finite negative mantissa exponent) :
    IsDecimal negative (Layout.value.format x).toList
      ∧ ∃ n, number? (Layout.value.format x).toList = some n ∧ n.toFloat = x := by
  have hcanonical := canonical_of_parts h
  have hsigned : ∀ text : String,
      (if negative then "-" ++ text else text).toList = signChars negative ++ text.toList := by
    intro text
    cases negative <;> simp [signChars]
  have hliteral := toFloat_literal h
  unfold Layout.format at hliteral ⊢
  rw [h] at hliteral ⊢
  cases mantissa with
  | zero =>
    refine ⟨?_, hliteral⟩
    simp only [hsigned]
    exact @isDecimal_pointed negative ['0'] ['0'] (.inl rfl) (by simp) (by simp)
  | succ m =>
    have hpos := coefficient_shortest_pos hcanonical (Nat.succ_pos m)
    simp only [hsigned, String.toList_ofList] at hliteral ⊢
    by_cases hposition : Layout.value.isPositional (shortest (m + 1) exponent).leading = true
    · rw [if_pos hposition]
      exact ⟨isDecimal_positional negative hpos, hliteral⟩
    · rw [if_neg hposition]
      refine ⟨isDecimal_scientific negative hpos, _, number?_scientific negative _, ?_⟩
      rw [eq_ofMagnitude_of_parts h]
      exact Number.toFloat_eq hcanonical (Nat.succ_pos m) (shortest_mem hcanonical (Nat.succ_pos m))

end ProgramArt.Decimal

namespace ProgramArt.Json

open Decimal Binary64

/-! ## Reading numbers -/

/-- What follows a value in a document: a comma, the next line, or nothing. -/
def Stops (rest : List Char) : Prop :=
  ∀ c ∈ rest.head?, c = ',' ∨ c = '\n'

theorem stops_nil : Stops [] := by
  simp [Stops]

theorem stops_cons {c : Char} {rest : List Char} (h : c = ',' ∨ c = '\n') : Stops (c :: rest) := by
  simpa [Stops] using h

/-- The whole part ends at the first character that is no digit. -/
theorem wholePart?_append {whole rest : List Char} (h : IsWhole whole)
    (hrest : ∀ c ∈ rest.head?, c.isDigit = false) : wholePart? (whole ++ rest) = some (whole, rest) := by
  rcases h with rfl | ⟨⟨c, digits, rfl, hc⟩, hdigits⟩
  · rfl
  · have hspan := spanDigits_append hdigits hrest
    rw [List.cons_append] at hspan ⊢
    unfold wholePart?
    split
    · rename_i heq
      cases heq
      exact absurd rfl hc
    · rw [hspan]
      simp

/-- The fraction ends there too. -/
theorem fractionPart_append {fraction rest : List Char} (h : IsFraction fraction)
    (hrest : ∀ c ∈ rest.head?, c.isDigit = false ∧ c ≠ '.') :
    fractionPart (fraction ++ rest) = (fraction, rest) := by
  rcases h with rfl | ⟨digits, rfl, hne, hdigits⟩
  · rw [List.nil_append]
    unfold fractionPart
    split
    · exact absurd rfl (hrest '.' rfl).2
    · rfl
  · have hspan := spanDigits_append hdigits fun c hc => (hrest c hc).1
    rw [List.cons_append, fractionPart, hspan]
    simp [hne]

/-- The power ends where the number `Stops`. -/
theorem exponentPart_append {power rest : List Char} (h : IsPower power) (hrest : Stops rest) :
    exponentPart (power ++ rest) = (power, rest) := by
  rcases h with rfl | ⟨sign, digits, rfl, hsign, hne, hdigits⟩
  · rw [List.nil_append]
    cases rest with
    | nil => rfl
    | cons c rest =>
      rcases hrest c rfl with rfl | rfl <;> rfl
  · have hspan : spanDigits (digits ++ rest) = (digits, rest) := by
      refine spanDigits_append hdigits ?_
      intro c hc
      rcases hrest c hc with rfl | rfl <;> rfl
    rcases hsign with rfl | rfl <;> simp [exponentPart, hspan, hne]

/-- The head of a list is that of its first part that is not empty. -/
theorem head?_append_of_forall {p : Char → Prop} {first second : List Char}
    (hfirst : ∀ c ∈ first.head?, p c) (hsecond : ∀ c ∈ second.head?, p c) :
    ∀ c ∈ (first ++ second).head?, p c := by
  cases first with
  | nil => exact hsecond
  | cons c first => exact hfirst

/-- A number without its sign, which is read first. -/
def readUnsigned? (sign unsigned : List Char) : Option (Datum × List Char) := do
  let (whole, rest) ← wholePart? unsigned
  let (fraction, rest) := fractionPart rest
  let (power, rest) := exponentPart rest
  if fraction.isEmpty && power.isEmpty then
    if maxDigits < whole.length then none
    else return (.int (← integer? 10 (sign ++ whole)), rest)
  else
    let value ← number? (sign ++ whole ++ fraction ++ power)
    return (.float value.toFloat, rest)

/-- The sign of a number is read before its parts. -/
theorem readNumber?_eq (negative : Bool) {unsigned : List Char} (h : ∀ c ∈ unsigned.head?, c ≠ '-') :
    readNumber? (signChars negative ++ unsigned) = readUnsigned? (signChars negative) unsigned := by
  cases negative with
  | true => rfl
  | false =>
    cases unsigned with
    | nil => rfl
    | cons c rest =>
      change readNumber? (c :: rest) = _
      unfold readNumber?
      split
      rename_i heq
      split at heq
      · rename_i hsign
        cases hsign
        exact absurd rfl (h '-' rfl)
      · cases heq
        rfl

/-- **How a number is read.** Its parts are found, whatever follows it in the document. -/
theorem readNumber?_parts (negative : Bool) {whole fraction power rest : List Char} (hwhole : IsWhole whole)
    (hfraction : IsFraction fraction) (hpower : IsPower power) (hrest : Stops rest) :
    readNumber? (signChars negative ++ (whole ++ (fraction ++ (power ++ rest))))
      = if fraction.isEmpty && power.isEmpty then
          if maxDigits < whole.length then none
          else (integer? 10 (signChars negative ++ whole)).map fun n => (.int n, rest)
        else (number? (signChars negative ++ whole ++ fraction ++ power)).map fun n =>
          (.float n.toFloat, rest) := by
  -- each part ends where the next one starts
  have hstop : ∀ c ∈ rest.head?, c.isDigit = false ∧ c ≠ '.' := by
    intro c hc
    rcases hrest c hc with rfl | rfl <;> simp
  have hpower' : ∀ c ∈ (power ++ rest).head?, c.isDigit = false ∧ c ≠ '.' := by
    refine head?_append_of_forall ?_ hstop
    rcases hpower with rfl | ⟨sign, digits, rfl, -⟩ <;> simp
  have hfraction' : ∀ c ∈ (fraction ++ (power ++ rest)).head?, c.isDigit = false := by
    refine head?_append_of_forall ?_ fun c hc => (hpower' c hc).1
    rcases hfraction with rfl | ⟨digits, rfl, -⟩ <;> simp
  have hhead : ∀ c ∈ (whole ++ (fraction ++ (power ++ rest))).head?, c ≠ '-' := by
    obtain ⟨first, more, rfl⟩ := List.exists_cons_of_ne_nil hwhole.ne_nil
    rintro c hc rfl
    cases hc
    have hdigit := hwhole.isDigit '-' (by simp)
    simp at hdigit
  rw [readNumber?_eq negative hhead, readUnsigned?, wholePart?_append hwhole hfraction']
  simp only [Option.bind_eq_bind, Option.bind_some, fractionPart_append hfraction hpower',
    exponentPart_append hpower hrest]
  split
  · split <;> cases integer? 10 (signChars negative ++ whole) <;> rfl
  · cases number? (signChars negative ++ whole ++ fraction ++ power) <;> rfl

/-- No named value starts like a number. -/
theorem literal?_number (negative : Bool) {c : Char} {rest : List Char} (hc : c.isDigit = true) :
    literal? (signChars negative ++ c :: rest) = none := by
  have hne : ∀ letter : Char, letter.isDigit = false → letter ≠ c := by
    rintro letter hletter rfl
    rw [hc] at hletter
    cases hletter
  cases negative with
  | true => simp [literal?, names, signChars, hne 'I' rfl]
  | false =>
    simp [literal?, names, signChars, hne 'n' rfl, hne 't' rfl, hne 'f' rfl, hne 'N' rfl, hne 'I' rfl,
      hne '-' rfl]

/-- No number is taken for one of the names. -/
theorem literal?_parts (negative : Bool) {whole rest : List Char} (hwhole : IsWhole whole) :
    literal? (signChars negative ++ (whole ++ rest)) = none := by
  obtain ⟨c, more, rfl⟩ := List.exists_cons_of_ne_nil hwhole.ne_nil
  exact literal?_number negative (hwhole.isDigit c List.mem_cons_self)

/-! ## Numbers that are written -/

theorem lt_pow_maxDigits_iff (n : Nat) :
    n < 10 ^ maxDigits ↔ (Nat.toDigits 10 n).length ≤ maxDigits :=
  (Nat.length_toDigits_le_iff (by norm_num) (by decide)).symm

/-- **An integer reads back**, unless it has too many digits. -/
theorem readNumber?_int {n : Int} (h : n.natAbs < 10 ^ maxDigits) {rest : List Char} (hrest : Stops rest) :
    readNumber? ((toString n).toList ++ rest) = some (.int n, rest) := by
  have hparts := readNumber?_parts (decide (n < 0)) (isWhole_toDigits n.natAbs) (.inl rfl) (.inl rfl) hrest
  rw [lt_pow_maxDigits_iff] at h
  rw [if_pos (by rfl), if_neg (by omega), integer?_toDigits] at hparts
  rw [toList_toString_int, List.append_assoc]
  exact hparts

/-- **A finite double reads back.** -/
theorem readNumber?_float {x : Float} {negative : Bool} {mantissa : Nat} {exponent : Int}
    (h : parts x = .finite negative mantissa exponent) {rest : List Char} (hrest : Stops rest) :
    readNumber? ((Layout.value.format x).toList ++ rest) = some (.float x, rest) := by
  obtain ⟨⟨whole, fraction, power, htext, hwhole, hfraction, hpower, hne⟩, n, hn, hvalue⟩ :=
    isDecimal_format h
  have hparts := readNumber?_parts negative hwhole hfraction hpower hrest
  rw [htext] at hn ⊢
  have hisEmpty : (fraction.isEmpty && power.isEmpty) = false := by
    rw [Bool.eq_false_iff]
    intro hempty
    simp only [Bool.and_eq_true, List.isEmpty_iff] at hempty
    exact hne (by simp [hempty])
  simp only [hisEmpty, List.append_assoc, hn] at hparts ⊢
  simpa [hvalue] using hparts

/-! ## Numbers that are read -/

/-- The sizes of integers with so many digits. -/
theorem natAbs_lt_of_integer? {sign whole : List Char} {n : Int} (hsign : sign = [] ∨ sign = ['-'])
    (h : integer? 10 (sign ++ whole) = some n) : n.natAbs < 10 ^ whole.length := by
  have hlength : (splitSign (sign ++ whole)).2.length ≤ whole.length := by
    rcases hsign with rfl | rfl
    · rw [List.nil_append]
      unfold splitSign
      split <;> simp
    · exact le_rfl
  obtain ⟨m, hm, rfl⟩ := Option.map_eq_some_iff.mp h
  have hnatAbs : (signed (splitSign (sign ++ whole)).1 m).natAbs = m := by
    unfold signed
    split <;> simp
  calc (signed (splitSign (sign ++ whole)).1 m).natAbs = m := hnatAbs
    _ < 10 ^ (splitSign (sign ++ whole)).2.length := lt_pow_of_natural? hm
    _ ≤ 10 ^ whole.length := Nat.pow_le_pow_right (by norm_num) hlength

/-- What is read as a number is an integer of limited size or a double that is not NaN. -/
theorem of_readUnsigned? {sign unsigned rest : List Char} {value : Datum} (hsign : sign = [] ∨ sign = ['-'])
    (h : readUnsigned? sign unsigned = some (value, rest)) :
    (∃ n : Int, value = .int n ∧ n.natAbs < 10 ^ maxDigits)
      ∨ ∃ x : Float, value = .float x ∧ x.isNaN = false := by
  unfold readUnsigned? at h
  obtain ⟨⟨whole, after⟩, hwhole, h⟩ := Option.bind_eq_some_iff.mp h
  dsimp only at h
  split at h
  · split at h
    · cases h
    · rename_i hdigits
      obtain ⟨n, hn, h⟩ := Option.bind_eq_some_iff.mp h
      cases h
      have hpow : 10 ^ whole.length ≤ 10 ^ maxDigits := Nat.pow_le_pow_right (by norm_num) (by omega)
      exact .inl ⟨n, rfl, lt_of_lt_of_le (natAbs_lt_of_integer? hsign hn) hpow⟩
  · obtain ⟨n, hn, h⟩ := Option.bind_eq_some_iff.mp h
    cases h
    exact .inr ⟨_, rfl, isNaN_toFloat n⟩

/-- What is read as a number is an integer of so many digits or a double that is not NaN. -/
theorem of_readNumber? {text rest : List Char} {value : Datum} (h : readNumber? text = some (value, rest)) :
    (∃ n : Int, value = .int n ∧ n.natAbs < 10 ^ maxDigits)
      ∨ ∃ x : Float, value = .float x ∧ x.isNaN = false := by
  by_cases hminus : ∃ more, text = '-' :: more
  · obtain ⟨more, rfl⟩ := hminus
    exact of_readUnsigned? (.inr rfl) h
  · have hhead : ∀ c ∈ text.head?, c ≠ '-' := by
      rintro c hc rfl
      obtain ⟨more, rfl⟩ := List.head?_eq_some_iff.mp hc
      exact hminus ⟨more, rfl⟩
    have heq := readNumber?_eq false hhead
    rw [show signChars false ++ text = text from rfl, h] at heq
    exact of_readUnsigned? (.inl rfl) heq.symm

end ProgramArt.Json

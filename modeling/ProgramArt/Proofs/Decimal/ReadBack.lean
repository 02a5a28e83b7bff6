import ProgramArt.Decimal.Layout
import ProgramArt.Host.Standard
import ProgramArt.Proofs.Decimal.Shortest

/-!
# Numerals and literals read back

What is written as digits is read as the number it came from: whole numbers in base ten (`natural?_toDigits`), and in
base sixteen with capital letters (`natural?_upper`), and every finite double as a literal (`toFloat_literal`). A
literal of a double is `Pointed`: an optional minus sign, digits, a point and more digits; which of the three
positional shapes it has does not matter for its value. A host whose literals are of this kind is a `LawfulHost`.
-/

namespace ProgramArt.Decimal

open ProgramArt Binary64

/-! ## Whole numbers -/

theorem isDigit_iff (c : Char) : c.isDigit = true ↔ '0' ≤ c ∧ c ≤ '9' := by
  simp [Char.isDigit, Char.le_def]

theorem digit?_ten {c : Char} (h : c.isDigit = true) : digit? 10 c = some (c.toNat - '0'.toNat) := by
  have hrange := (isDigit_iff c).mp h
  have hle : c.toNat ≤ 57 := hrange.2
  rw [digit?, if_pos hrange]
  simp only [Option.filter_some, decide_eq_true_eq]
  rw [if_pos]
  change c.toNat - 48 < 10
  omega

theorem foldl_digits_of_isDigit (text : List Char) (total : Nat) (h : ∀ c ∈ text, c.isDigit = true) :
    text.foldl (fun total c => do return (← total) * 10 + (← digit? 10 c)) (some total)
      = some (Nat.ofDigitChars 10 text total) := by
  induction text generalizing total with
  | nil => rfl
  | cons c rest ih =>
    have hc := digit?_ten (h c List.mem_cons_self)
    rw [List.foldl_cons, hc, Nat.ofDigitChars_cons, ← ih _ fun c hc => h c (List.mem_cons_of_mem _ hc)]
    simp [Nat.mul_comm]

/-- Decimal digits are read as the number they spell. -/
theorem natural?_of_isDigit {text : List Char} (hne : text ≠ []) (h : ∀ c ∈ text, c.isDigit = true) :
    natural? 10 text = some (Nat.ofDigitChars 10 text 0) := by
  rw [natural?, if_neg (by simpa using hne)]
  exact foldl_digits_of_isDigit text 0 h

theorem isDigit_toDigits {n : Nat} {c : Char} (h : c ∈ Nat.toDigits 10 n) : c.isDigit = true :=
  Nat.isDigit_of_mem_toDigits (by norm_num) (by norm_num) h

/-- **A decimal numeral reads back.** -/
theorem natural?_toDigits (n : Nat) : natural? 10 (Nat.toDigits 10 n) = some n := by
  rw [natural?_of_isDigit Nat.toDigits_ne_nil fun c => isDigit_toDigits, Nat.ofDigitChars_ten_toDigits]

theorem digit?_upper {d : Nat} (h : d < 16) : digit? 16 d.digitChar.toUpper = some d := by
  have hall : ∀ d : Fin 16, digit? 16 d.val.digitChar.toUpper = some d.val := by decide
  exact hall ⟨d, h⟩

/-- A numeral in base sixteen reads back from any characters that have the values of its digits. -/
theorem natural?_map {f : Char → Char} (hf : ∀ d < 16, digit? 16 (f d.digitChar) = some d) (n : Nat) :
    natural? 16 ((Nat.toDigits 16 n).map f) = some n := by
  rw [natural?, if_neg (by simp)]
  induction n using Nat.strongRecOn with
  | ind n ih =>
    by_cases hsmall : n < 16
    · rw [Nat.toDigits_of_lt_base hsmall, List.map_singleton, List.foldl_cons, List.foldl_nil,
        hf n hsmall]
      simp
    · -- the last digit is the remainder, and the digits before it spell the quotient
      have hlast : n % 16 < 16 := Nat.mod_lt n (by norm_num)
      rw [Nat.toDigits_of_base_le (by norm_num) (by omega), List.map_append, List.foldl_append,
        ih (n / 16) (by omega), List.map_singleton, List.foldl_cons, List.foldl_nil, hf _ hlast]
      simp only [bind_pure_comp, Option.bind_some, Option.bind_eq_bind, Option.map_eq_map, Option.map_some]
      rw [Nat.div_add_mod']

/-- **A numeral in base sixteen with capital letters reads back.** -/
theorem natural?_upper (n : Nat) : natural? 16 ((Nat.toDigits 16 n).map Char.toUpper) = some n :=
  natural?_map (fun _ => digit?_upper) n

/-- **A numeral in base sixteen reads back.** -/
theorem natural?_hex (n : Nat) : natural? 16 (Nat.toDigits 16 n) = some n := by
  have hdigit : ∀ d : Fin 16, digit? 16 (id d.val.digitChar) = some d.val := by decide
  simpa using natural?_map (fun d hd => hdigit ⟨d, hd⟩) n

theorem foldl_digits_none (base : Nat) (text : List Char) :
    text.foldl (fun total c => do return (← total) * base + (← digit? base c)) none = none := by
  induction text with
  | nil => rfl
  | cons c rest ih => exact ih

/-- A numeral consists of digits. -/
theorem exists_digit?_of_foldl {base total n : Nat} {text : List Char}
    (h : text.foldl (fun total c => do return (← total) * base + (← digit? base c)) (some total) = some n)
    {c : Char} (hc : c ∈ text) : ∃ d, digit? base c = some d := by
  induction text generalizing total with
  | nil => cases hc
  | cons first rest ih =>
    rw [List.foldl_cons] at h
    cases hfirst : digit? base first with
    | none =>
      rw [hfirst] at h
      exact absurd ((foldl_digits_none base rest).symm.trans h) (by simp)
    | some d =>
      rw [hfirst] at h
      rcases List.mem_cons.mp hc with rfl | hc
      · exact ⟨d, hfirst⟩
      · exact ih h hc

theorem exists_digit?_of_natural? {base n : Nat} {text : List Char} (h : natural? base text = some n) {c : Char}
    (hc : c ∈ text) : ∃ d, digit? base c = some d := by
  rw [natural?] at h
  split at h
  · cases h
  · exact exists_digit?_of_foldl h hc

theorem foldl_digits_lt {base total n : Nat} {text : List Char}
    (h : text.foldl (fun total c => do return (← total) * base + (← digit? base c)) (some total) = some n) :
    n < (total + 1) * base ^ text.length := by
  induction text generalizing total with
  | nil =>
    cases h
    simp
  | cons c rest ih =>
    rw [List.foldl_cons] at h
    cases hc : digit? base c with
    | none =>
      rw [hc] at h
      have hnone := foldl_digits_none base rest
      exact absurd (hnone.symm.trans h) (by simp)
    | some d =>
      rw [hc] at h
      have hd : d < base := by
        rw [digit?, Option.filter_eq_some_iff] at hc
        exact of_decide_eq_true hc.2
      have hlt := ih h
      calc n < (total * base + d + 1) * base ^ rest.length := hlt
        _ ≤ ((total + 1) * base) * base ^ rest.length := by
            apply Nat.mul_le_mul_right
            rw [Nat.add_one_mul]
            omega
        _ = (total + 1) * base ^ (c :: rest).length := by
            rw [List.length_cons, Nat.pow_succ]
            ring

/-- A numeral is smaller than the power of the base with its length. -/
theorem lt_pow_of_natural? {base n : Nat} {text : List Char} (h : natural? base text = some n) :
    n < base ^ text.length := by
  rw [natural?] at h
  split at h
  · cases h
  · have hlt := foldl_digits_lt h
    rwa [Nat.zero_add, Nat.one_mul] at hlt

/-! ## Numbers with a point -/

theorem spanDigits_append {digits rest : List Char} (h : ∀ c ∈ digits, c.isDigit = true)
    (hrest : ∀ c ∈ rest.head?, c.isDigit = false) : spanDigits (digits ++ rest) = (digits, rest) := by
  have hdigits : ∀ c ∈ digits, decide ('0' ≤ c ∧ c ≤ '9') = true := by
    intro c hc
    exact decide_eq_true ((isDigit_iff c).mp (h c hc))
  rw [spanDigits, List.span_eq_takeWhile_dropWhile, List.takeWhile_append_of_pos hdigits,
    List.dropWhile_append_of_pos hdigits]
  cases rest with
  | nil => simp
  | cons c rest =>
    have hc : ¬ ('0' ≤ c ∧ c ≤ '9') := by
      rw [← isDigit_iff, hrest c rfl]
      exact Bool.false_ne_true
    rw [List.takeWhile_cons_of_neg (by simpa using hc), List.dropWhile_cons_of_neg (by simpa using hc),
      List.append_nil]

theorem signed_natAbs (n : Int) : signed (decide (n < 0)) n.natAbs = n := by
  unfold signed
  by_cases h : n < 0
  · rw [decide_eq_true h, if_pos rfl]
    omega
  · rw [decide_eq_false h, if_neg Bool.false_ne_true]
    omega

/-- The sign of a text, which is written for negative numbers only. -/
def signChars (negative : Bool) : List Char :=
  if negative then ['-'] else []

theorem toList_toString_int (n : Int) :
    (toString n).toList = signChars (decide (n < 0)) ++ Nat.toDigits 10 n.natAbs := by
  cases n with
  | ofNat m =>
    change (toString m).toList = _
    rw [Nat.toString_eq_ofList_toDigits, String.toList_ofList, decide_eq_false (by simp)]
    rfl
  | negSucc m =>
    change ("-" ++ toString (m + 1)).toList = _
    rw [String.toList_append, show "-".toList = ['-'] from rfl, Nat.toString_eq_ofList_toDigits,
      String.toList_ofList, decide_eq_true (Int.negSucc_lt_zero m)]
    rfl

theorem splitSign_signChars (negative : Bool) {c : Char} (rest : List Char) (hminus : c ≠ '-') (hplus : c ≠ '+') :
    splitSign (signChars negative ++ c :: rest) = (negative, c :: rest) := by
  cases negative with
  | true => rfl
  | false =>
    change splitSign (c :: rest) = _
    unfold splitSign
    split
    · rename_i heq
      cases heq
      exact absurd rfl hminus
    · rename_i heq
      cases heq
      exact absurd rfl hplus
    · rfl

/-- A sign in front of digits is split off. -/
theorem splitSign_digits (negative : Bool) {digits : List Char} (rest : List Char) (hne : digits ≠ [])
    (h : ∀ c ∈ digits, c.isDigit = true) :
    splitSign (signChars negative ++ (digits ++ rest)) = (negative, digits ++ rest) := by
  obtain ⟨c, tail, rfl⟩ := List.exists_cons_of_ne_nil hne
  have hc := h c List.mem_cons_self
  refine splitSign_signChars negative _ ?_ ?_
  · rintro rfl
    simp at hc
  · rintro rfl
    simp at hc

/-- **An integer reads back.** -/
theorem integer?_toDigits (n : Int) :
    integer? 10 (signChars (decide (n < 0)) ++ Nat.toDigits 10 n.natAbs) = some n := by
  have hsign := splitSign_digits (decide (n < 0)) [] (Nat.toDigits_ne_nil : Nat.toDigits 10 n.natAbs ≠ [])
    fun c => isDigit_toDigits
  rw [List.append_nil] at hsign
  rw [integer?, hsign]
  dsimp only
  rw [natural?_toDigits, Option.map_some, signed_natAbs]

/-- **An integer in base sixteen with capital letters reads back.** -/
theorem integer?_upper (n : Int) :
    integer? 16 (signChars (decide (n < 0)) ++ (Nat.toDigits 16 n.natAbs).map Char.toUpper) = some n := by
  have hvalue := natural?_upper n.natAbs
  have hsign : splitSign (signChars (decide (n < 0)) ++ (Nat.toDigits 16 n.natAbs).map Char.toUpper)
      = (decide (n < 0), (Nat.toDigits 16 n.natAbs).map Char.toUpper) := by
    obtain ⟨c, rest, hdigits⟩ := List.exists_cons_of_ne_nil
      (show (Nat.toDigits 16 n.natAbs).map Char.toUpper ≠ [] by simp)
    rw [hdigits] at hvalue ⊢
    -- the first character is a digit, so it is no sign
    obtain ⟨d, hd⟩ := exists_digit?_of_natural? hvalue List.mem_cons_self
    refine splitSign_signChars _ _ ?_ ?_
    · rintro rfl
      have hminus : digit? 16 '-' = none := rfl
      cases hminus.symm.trans hd
    · rintro rfl
      have hplus : digit? 16 '+' = none := rfl
      cases hplus.symm.trans hd
  rw [integer?, hsign]
  dsimp only
  rw [hvalue, Option.map_some, signed_natAbs]

/-- Digits, a point and digits are read as one number. -/
theorem number?_pointed (negative : Bool) {whole fraction : List Char} (hne : whole ≠ [])
    (hwhole : ∀ c ∈ whole, c.isDigit = true) (hfraction : ∀ c ∈ fraction, c.isDigit = true) :
    number? (signChars negative ++ (whole ++ '.' :: fraction))
      = some ⟨negative, Nat.ofDigitChars 10 (whole ++ fraction) 0, -(fraction.length : Int)⟩ := by
  have hsign := splitSign_digits negative ('.' :: fraction) hne hwhole
  have hspan : spanDigits (whole ++ '.' :: fraction) = (whole, '.' :: fraction) :=
    spanDigits_append hwhole (by simp)
  have hspan' : spanDigits fraction = (fraction, []) := by
    have := @spanDigits_append fraction [] hfraction (by simp)
    rwa [List.append_nil] at this
  have hvalue : natural? 10 (whole ++ fraction) = some (Nat.ofDigitChars 10 (whole ++ fraction) 0) := by
    apply natural?_of_isDigit (by simp [hne])
    intro c hc
    exact (List.mem_append.mp hc).elim (hwhole c) (hfraction c)
  simp only [number?, hsign, hspan, hspan', exponent?, hvalue, Option.bind_eq_bind, Option.bind_some,
    Option.pure_def, Int.zero_sub]

/-! ## Literals -/

/-- A text is an optional minus sign, digits, a point and digits that together stand for a number. -/
def Pointed (negative : Bool) (value : ℚ) (text : List Char) : Prop :=
  ∃ whole fraction, text = signChars negative ++ (whole ++ '.' :: fraction) ∧ whole ≠ []
    ∧ (∀ c ∈ whole, c.isDigit = true) ∧ (∀ c ∈ fraction, c.isDigit = true)
    ∧ Scaled.value ⟨Nat.ofDigitChars 10 (whole ++ fraction) 0, -(fraction.length : Int)⟩ = value

theorem Pointed.number? {negative : Bool} {value : ℚ} {text : List Char} (h : Pointed negative value text) :
    ∃ n, number? text = some n ∧ n.negative = negative ∧ Scaled.value ⟨n.coefficient, n.exponent⟩ = value := by
  obtain ⟨whole, fraction, rfl, hne, hwhole, hfraction, hvalue⟩ := h
  exact ⟨_, number?_pointed negative hne hwhole hfraction, rfl, hvalue⟩

theorem Pointed.signed {value : ℚ} {text : List Char} (h : Pointed false value text) :
    Pointed true value ('-' :: text) := by
  obtain ⟨whole, fraction, rfl, hrest⟩ := h
  exact ⟨whole, fraction, rfl, hrest⟩

theorem contains_point {text : List Char} (h : ∀ c ∈ text, c.isDigit = true) : text.contains '.' = false := by
  rw [Bool.eq_false_iff]
  intro hpoint
  have := h '.' (by simpa using hpoint)
  simp at this

theorem isDigit_zeros {k : Nat} {c : Char} (h : c ∈ List.replicate k '0') : c.isDigit = true := by
  rw [List.eq_of_mem_replicate h]
  rfl

/-- Each of the three positional shapes is digits with a point that stand for the number. -/
theorem pointed_positional (d : Scaled) :
    Pointed false d.value (Digits.pointed (Digits.positional d.digits d.exponent)) := by
  have hdigits : ∀ c ∈ d.digits, c.isDigit = true := fun c => isDigit_toDigits
  have hzeros : ∀ k, ∀ c ∈ List.replicate k '0', c.isDigit = true := fun _ _ => isDigit_zeros
  have hne : d.digits ≠ [] := Nat.toDigits_ne_nil
  unfold Digits.positional
  by_cases hwhole : 0 ≤ d.exponent
  · -- a whole number: the point and a zero are added
    have hall : ∀ c ∈ d.digits ++ List.replicate d.exponent.toNat '0', c.isDigit = true := by
      intro c hc
      exact (List.mem_append.mp hc).elim (hdigits c) (hzeros _ c)
    rw [if_pos hwhole, Digits.pointed, contains_point hall, if_neg Bool.false_ne_true]
    refine ⟨_, ['0'], rfl, by simp [hne], hall, hzeros 1, ?_⟩
    obtain ⟨k, hk⟩ := Int.eq_ofNat_of_zero_le hwhole
    rw [hk, Int.toNat_natCast, Nat.ofDigitChars_append, Nat.ofDigitChars_append, Scaled.digits,
      Nat.ofDigitChars_ten_toDigits, Nat.ofDigitChars_replicate_zero, Nat.ofDigitChars_cons,
      Nat.ofDigitChars_nil, Scaled.value, Scaled.value, hk]
    simp
    ring
  · have hlength : ((-d.exponent).toNat : Int) = -d.exponent := Int.toNat_of_nonneg (by omega)
    rw [if_neg hwhole]
    dsimp only
    by_cases hinside : (-d.exponent).toNat < d.digits.length
    · -- the point stands among the digits
      rw [if_pos hinside, Digits.pointed, if_pos (by simp)]
      refine ⟨_, _, rfl, ?_, fun c hc => hdigits c (List.mem_of_mem_take hc),
        fun c hc => hdigits c (List.mem_of_mem_drop hc), ?_⟩
      · rw [ne_eq, List.take_eq_nil_iff, not_or]
        exact ⟨by omega, hne⟩
      · rw [List.take_append_drop, List.length_drop, Scaled.digits, Nat.ofDigitChars_ten_toDigits, Scaled.value,
          Scaled.value]
        unfold Scaled.digits at hinside
        congr 2
        dsimp only
        omega
    · -- zeros stand between the point and the digits
      rw [if_neg hinside, Digits.pointed, if_pos (by simp)]
      refine ⟨['0'], _, rfl, by simp, hzeros 1, ?_, ?_⟩
      · intro c hc
        exact (List.mem_append.mp hc).elim (hzeros _ c) (hdigits c)
      · rw [← List.append_assoc, Nat.ofDigitChars_append, Nat.ofDigitChars_append, Nat.ofDigitChars_cons,
          Nat.ofDigitChars_nil, Nat.ofDigitChars_replicate_zero, List.length_append, List.length_replicate,
          Scaled.value, Scaled.value]
        have hcoefficient : Nat.ofDigitChars 10 d.digits 0 = d.coefficient := Nat.ofDigitChars_ten_toDigits
        simp only [Char.reduceToNat, Nat.mul_zero, Nat.sub_self, Nat.add_zero, hcoefficient]
        congr 2
        omega

/-- The number that a literal stands for rounds to the double it was written for, and zero is written as
zero. -/
theorem pointed_literal {x : Float} {negative : Bool} {mantissa : Nat} {exponent : Int}
    (h : parts x = .finite negative mantissa exponent) :
    Pointed negative (if mantissa = 0 then 0 else (shortest mantissa exponent).value)
      (Layout.literal.format x).toList := by
  have hsigned : ∀ (value : ℚ) (text : String), Pointed false value text.toList →
      Pointed negative value (if negative then "-" ++ text else text).toList := by
    intro value text htext
    cases negative with
    | false => exact htext
    | true =>
      rw [if_pos rfl, String.toList_append]
      exact htext.signed
  unfold Layout.format
  rw [h]
  cases mantissa with
  | zero =>
    refine hsigned _ "0.0" ⟨['0'], ['0'], rfl, by simp, by simp, by simp, ?_⟩
    simp [Scaled.value, Nat.ofDigitChars_cons]
  | succ m =>
    rw [if_neg (Nat.succ_ne_zero m)]
    refine hsigned _ _ ?_
    rw [String.toList_ofList]
    exact pointed_positional _

/-- **A literal reads back**: a finite double is read from its literal as itself. -/
theorem toFloat_literal {x : Float} {negative : Bool} {mantissa : Nat} {exponent : Int}
    (h : parts x = .finite negative mantissa exponent) :
    ∃ n, number? (Layout.literal.format x).toList = some n ∧ n.toFloat = x := by
  obtain ⟨n, hn, rfl, hvalue⟩ := (pointed_literal h).number?
  refine ⟨n, hn, ?_⟩
  have hcanonical := canonical_of_parts h
  rw [eq_ofMagnitude_of_parts h]
  by_cases hzero : mantissa = 0
  · -- zero keeps its sign
    subst hzero
    rw [if_pos rfl, Scaled.value, mul_eq_zero] at hvalue
    have hcoefficient : n.coefficient = 0 := by
      rcases hvalue with hcoefficient | hpower
      · exact_mod_cast hcoefficient
      · exact absurd hpower (by positivity)
    rw [Number.toFloat, if_pos hcoefficient, hcanonical.normal (by norm_num)]
    rfl
  · have hpos : 0 < mantissa := Nat.pos_of_ne_zero hzero
    rw [if_neg hzero] at hvalue
    refine Number.toFloat_eq hcanonical hpos ?_
    rw [hvalue]
    exact shortest_mem hcanonical hpos

/-- No number is read as NaN. -/
theorem isNaN_toFloat (n : Number) : n.toFloat.isNaN = false := by
  unfold Number.toFloat
  dsimp only
  split
  · exact isNaN_ofMagnitude _ (Nat.zero_le _)
  · split
    · exact isNaN_ofMagnitude _ le_rfl
    · split
      · exact isNaN_ofMagnitude _ (Nat.zero_le _)
      · exact isNaN_roundRatio _ _ _

/-! ## Literals of a host -/

theorem pointed_minus (text : List Char) : Digits.pointed ('-' :: text) = '-' :: Digits.pointed text := by
  simp only [Digits.pointed, List.contains_cons, show ('.' == '-') = false from rfl, Bool.false_or]
  split <;> rfl

/-- The literal layout is the positional notation, with a point. -/
theorem pointed_positional_eq (x : Float) : Digits.pointed (positional x) = (Layout.literal.format x).toList := by
  unfold positional Layout.format
  cases parts x with
  | nan => rfl
  | infinite negative => cases negative <;> rfl
  | finite negative mantissa exponent =>
    cases mantissa with
    | zero =>
      change Digits.pointed (if negative then ['-', '0'] else ['0']) = (if negative then "-" ++ "0.0" else "0.0").toList
      cases negative <;> decide
    | succ m =>
      cases negative
      · exact String.toList_ofList.symm
      · refine (pointed_minus _).trans ?_
        change _ = ("-" ++ String.ofList _).toList
        rw [String.toList_append, String.toList_ofList, String.toList_ofList]
        rfl

end ProgramArt.Decimal

namespace ProgramArt

open Decimal Binary64

/-- The literals of a host are lawful: a finite double is written with digits and a point, and is read as itself; an
infinity and NaN are written by their names. -/
class LawfulHost [Host] : Prop where
  pointed : ∀ {x : Float} {negative : Bool} {mantissa : Nat} {exponent : Int},
    parts x = .finite negative mantissa exponent →
    ∃ value, Pointed negative value (Digits.pointed (Host.positional x))
  readsBack : ∀ {x : Float} {negative : Bool} {mantissa : Nat} {exponent : Int},
    parts x = .finite negative mantissa exponent →
    ∃ n, number? (Digits.pointed (Host.positional x)) = some n ∧ n.toFloat = x
  infinite : ∀ {x : Float} {negative : Bool}, parts x = .infinite negative →
    Host.positional x = signChars negative ++ ['i', 'n', 'f']
  nan : ∀ {x : Float}, parts x = .nan → Host.positional x = ['n', 'a', 'n']

namespace Host

scoped instance : LawfulHost where
  pointed h := ⟨_, pointed_positional_eq _ ▸ pointed_literal h⟩
  readsBack h := by
    obtain ⟨n, hn, hvalue⟩ := toFloat_literal h
    exact ⟨n, (congrArg number? (pointed_positional_eq _)).trans hn, hvalue⟩
  infinite := by
    intro x negative h
    change Decimal.positional x = _
    rw [Decimal.positional, h]
    cases negative <;> rfl
  nan := by
    intro x h
    change Decimal.positional x = _
    rw [Decimal.positional, h]

end Host

end ProgramArt

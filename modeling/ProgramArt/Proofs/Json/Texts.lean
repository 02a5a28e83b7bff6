import ProgramArt.Json.Printer
import ProgramArt.Json.Reader
import ProgramArt.Proofs.Decimal.ReadBack
import ProgramArt.Proofs.Text.Codes

/-!
# The texts of a document

A code point is written as itself, as an escape of one letter, as an escape of four digits, or as two of them
(`Escaped`). Two escapes that are halves of a pair are read as one code point, so code points read back exactly if
none of them is a high half in front of a low one (`readText?_codes`), and what is read is always of this kind
(`proper_of_readText?`).
-/

namespace ProgramArt.Json

open Decimal Text

/-! ## Four digits -/

theorem foldl_zeros (count : Nat) :
    (List.replicate count '0').foldl (fun total c => do return (← total) * 16 + (← digit? 16 c)) (some 0)
      = some 0 := by
  induction count with
  | zero => rfl
  | succ count ih => exact ih

theorem natural?_hexDigits (width n : Nat) : natural? 16 (hexDigits width n) = some n := by
  have hdigits := natural?_hex n
  unfold hexDigits
  rw [natural?, if_neg (by simp)] at hdigits ⊢
  rw [List.foldl_append, foldl_zeros, hdigits]

theorem length_hexDigits {n : Nat} (h : n < 0x10000) : (hexDigits 4 n).length = 4 := by
  have hlength : (Nat.toDigits 16 n).length ≤ 4 :=
    (Nat.length_toDigits_le_iff (by norm_num) (by norm_num)).mpr (by omega)
  simp only [hexDigits, List.length_append, List.length_replicate]
  omega

/-- **Four digits of an escape read back.** -/
theorem unit?_hexDigits {n : Nat} (h : n < 0x10000) (rest : List Char) :
    unit? (hexDigits 4 n ++ rest) = some (n, rest) := by
  have hlength := length_hexDigits h
  have htake : (hexDigits 4 n ++ rest).take 4 = hexDigits 4 n := List.take_left' hlength
  have hdrop : (hexDigits 4 n ++ rest).drop 4 = rest := List.drop_left' hlength
  rw [unit?, htake, hdrop, natural?_hexDigits]
  simp [hlength]

theorem lt_of_unit? {text rest : List Char} {n : Nat} (h : unit? text = some (n, rest)) : n < 0x10000 := by
  unfold unit? at h
  dsimp only at h
  split at h
  · cases h
  · rename_i hlength
    obtain ⟨value, hvalue, h⟩ := Option.bind_eq_some_iff.mp h
    cases h
    have hlt := lt_pow_of_natural? hvalue
    have hfour : (text.take 4).length = 4 := by
      rw [List.length_take] at hlength ⊢
      omega
    rw [hfour] at hlt
    exact hlt

/-! ## Escapes -/

/-- What a low half of a pair is read from. -/
def StartsLow (text : List Char) : Prop :=
  ∃ more low after, text = '\\' :: 'u' :: more ∧ unit? more = some (low, after) ∧ isLowHalf low = true

theorem unicodeEscape?_single {text rest : List Char} {code : Nat} (h : unit? text = some (code, rest))
    (hrest : isHighHalf code = true → ¬StartsLow rest) : unicodeEscape? text = some (code, rest) := by
  rw [unicodeEscape?, h]
  simp only [Option.bind_eq_bind, Option.bind_some, Option.pure_def]
  by_cases hhigh : isHighHalf code = true
  · rw [if_pos hhigh]
    split
    · rename_i more
      cases hunit : unit? more with
      | none => rfl
      | some pair =>
        obtain ⟨low, after⟩ := pair
        have hlow : isLowHalf low = false := by
          rw [Bool.eq_false_iff]
          exact fun hlow => hrest hhigh ⟨more, low, after, rfl, hunit, hlow⟩
        simp [hlow]
    · rfl
  · rw [if_neg hhigh]
    rfl

theorem unicodeEscape?_pair {text more after : List Char} {high low : Nat}
    (h : unit? text = some (high, '\\' :: 'u' :: more)) (hhigh : isHighHalf high = true)
    (hmore : unit? more = some (low, after)) (hlow : isLowHalf low = true) :
    unicodeEscape? text = some (pairCode high low, after) := by
  rw [unicodeEscape?, h]
  simp [hhigh, hmore, hlow]

/-- The ways in which a code point is written. -/
inductive Escaped : Nat → List Char → Prop where
  | plain {c : Char} (hspace : ¬c < ' ') (hquote : c ≠ '"') (hslash : c ≠ '\\') : Escaped c.toNat [c]
  | letter {letter c : Char} (h : letterEscapes.lookup letter = some c) : Escaped c.toNat ['\\', letter]
  | unit {code : Nat} (h : code < 0x10000) : Escaped code (unitEscape code)
  | pair {high low : Nat} (hhigh : isHighHalf high = true) (hlow : isLowHalf low = true) :
    Escaped (pairCode high low) (unitEscape high ++ unitEscape low)

theorem escaped_escape (c : Char) : Escaped c.toNat (escape c) := by
  unfold escape
  split
  · exact .letter (c := '"') rfl
  · exact .letter (c := '\\') rfl
  · exact .letter (c := '\n') rfl
  · exact .letter (c := '\r') rfl
  · exact .letter (c := '\t') rfl
  · exact .letter (c := '\x0c') rfl
  · exact .letter (c := '\x08') rfl
  · rename_i hquote hslash _ _ _ _ _
    dsimp only
    split
    · rename_i hrange
      exact .plain (by simpa using hrange.1) hquote hslash
    · split
      · rename_i hsmall
        exact .unit hsmall
      · -- beyond the first 65536 characters the two halves make the code point again
        rename_i hlarge
        have hrange : c.toNat < 0x110000 := areCodes_codesOf (String.singleton c) c.toNat (by simp [codesOf])
        have hhigh : isHighHalf (0xd800 + (c.toNat - 0x10000) / 0x400) = true := by
          simp only [isHighHalf, Bool.and_eq_true, decide_eq_true_eq]
          omega
        have hlow : isLowHalf (0xdc00 + (c.toNat - 0x10000) % 0x400) = true := by
          simp only [isLowHalf, Bool.and_eq_true, decide_eq_true_eq]
          omega
        have hcode : pairCode (0xd800 + (c.toNat - 0x10000) / 0x400) (0xdc00 + (c.toNat - 0x10000) % 0x400)
            = c.toNat := by
          unfold pairCode
          omega
        have hpair := Escaped.pair hhigh hlow
        rw [hcode] at hpair
        exact hpair

/-- Every code point is written in one of these ways. -/
theorem escaped_escapeCode {code : Nat} (h : code < 0x110000) : Escaped code (escapeCode code) := by
  unfold escapeCode
  by_cases hhalf : isHalf code = true
  · rw [if_pos hhalf]
    refine .unit ?_
    simp only [isHalf, isHighHalf, isLowHalf, Bool.or_eq_true, Bool.and_eq_true, decide_eq_true_eq] at hhalf
    omega
  · rw [if_neg hhalf]
    have hescaped := escaped_escape (Char.ofNat code)
    rw [toNat_ofNat h (Bool.eq_false_iff.mpr hhalf)] at hescaped
    exact hescaped

theorem Escaped.ne_nil {code : Nat} {chars : List Char} (h : Escaped code chars) : chars ≠ [] := by
  cases h <;> simp [unitEscape]

theorem escape?_letter {letter c : Char} (h : letterEscapes.lookup letter = some c) (rest : List Char) :
    escape? (letter :: rest) = some (c.toNat, rest) := by
  unfold escape?
  split
  · rename_i heq
    cases heq
    cases h
  · rename_i heq
    cases heq
    rw [h]
    rfl
  · rename_i heq
    cases heq

/-- **A code point is read from any way to write it**, unless it is a high half and a low one follows. -/
theorem readString?_escaped {code : Nat} {chars tail : List Char} (h : Escaped code chars)
    (htail : isHighHalf code = true → ¬StartsLow tail) (fuel : Nat) (seen : List Nat) :
    readString? (fuel + 1) (chars ++ tail) seen = readString? fuel tail (code :: seen) := by
  -- an escape goes through what stands after the backslash
  have hescape : ∀ more, escape? more = some (code, tail) →
      readString? (fuel + 1) ('\\' :: more) seen = readString? fuel tail (code :: seen) := by
    intro more hmore
    simp only [readString?, hmore]
  cases h with
  | @plain c hspace hquote hslash =>
    rw [List.singleton_append, readString?]
    · rw [if_neg hspace]
    · exact hquote
    · exact hslash
  | letter hletter => exact hescape _ (escape?_letter hletter tail)
  | unit hsmall =>
    refine hescape _ ?_
    exact unicodeEscape?_single (unit?_hexDigits hsmall tail) htail
  | @pair high low hhigh hlow =>
    refine hescape _ ?_
    have hsmall : high < 0x10000 ∧ low < 0x10000 := by
      simp only [isHighHalf, isLowHalf, Bool.and_eq_true, decide_eq_true_eq] at hhigh hlow
      omega
    change unicodeEscape? (hexDigits 4 high ++ unitEscape low ++ tail) = _
    rw [List.append_assoc]
    exact unicodeEscape?_pair (unit?_hexDigits hsmall.1 _) hhigh (unit?_hexDigits hsmall.2 tail) hlow

/-! ## Texts that are written -/

/-- Only a low half is written as one. -/
theorem not_startsLow_escaped {code : Nat} {chars : List Char} (h : Escaped code chars)
    (hlow : isLowHalf code = false) (tail : List Char) : ¬StartsLow (chars ++ tail) := by
  rintro ⟨more, low, after, htext, hunit, hlow'⟩
  cases h with
  | plain _ _ hslash =>
    injection htext with hhead
    exact hslash hhead
  | letter hletter =>
    injection htext with _ htext
    injection htext with hhead
    subst hhead
    cases hletter
  | unit hsmall =>
    injection htext with _ htext
    injection htext with _ htext
    rw [← htext] at hunit
    have heq := (unit?_hexDigits hsmall tail).symm.trans hunit
    cases heq
    rw [hlow] at hlow'
    cases hlow'
  | @pair high other hhigh _ =>
    simp only [isHighHalf, isLowHalf, Bool.and_eq_true, decide_eq_true_eq] at hhigh hlow'
    rw [List.append_assoc] at htext
    injection htext with _ htext
    injection htext with _ htext
    rw [← htext] at hunit
    have heq := (unit?_hexDigits (show high < 0x10000 by omega) (unitEscape other ++ tail)).symm.trans hunit
    cases heq
    omega

/-- **Code points between quotes read back.** -/
theorem readString?_codes {codes : Codes} (h : Proper codes) (rest : List Char) {fuel : Nat}
    (hfuel : codes.length < fuel) (seen : List Nat) :
    readString? fuel (codes.flatMap escapeCode ++ '"' :: rest) seen = some (seen.reverse ++ codes, rest) := by
  induction codes generalizing fuel seen with
  | nil =>
    obtain ⟨fuel, rfl⟩ := Nat.exists_eq_add_of_lt hfuel
    simp [readString?]
  | cons code codes ih =>
    obtain ⟨fuel, rfl⟩ : ∃ k, fuel = k + 1 := ⟨fuel - 1, by omega⟩
    have hescaped : ∀ other ∈ code :: codes, Escaped other (escapeCode other) :=
      fun other hother => escaped_escapeCode (h.areCodes other hother)
    -- what follows a high half is not written as a low one
    have htail : isHighHalf code = true → ¬StartsLow (codes.flatMap escapeCode ++ '"' :: rest) := by
      intro hhigh
      cases codes with
      | nil =>
        rintro ⟨more, low, after, htext, -⟩
        cases htext
      | cons next codes =>
        have hapart := (List.isChain_cons_cons.mp h.apart).1
        rw [List.flatMap_cons, List.append_assoc]
        refine not_startsLow_escaped (hescaped next (by simp)) ?_ _
        rw [Bool.eq_false_iff]
        exact fun hlow => hapart ⟨hhigh, hlow⟩
    rw [List.flatMap_cons, List.append_assoc, readString?_escaped (hescaped code List.mem_cons_self) htail,
      ih h.tail (by simpa using hfuel)]
    simp

/-- **A text reads back.** -/
theorem readText?_codes {codes : Codes} (h : Proper codes) (rest : List Char) :
    readText? (codes.flatMap escapeCode ++ '"' :: rest) = some (.ofCodes codes, rest) := by
  have hlength : codes.length ≤ (codes.flatMap escapeCode).length := by
    rw [List.length_flatMap]
    refine (List.length_le_sum_of_one_le _ ?_).trans_eq' (by simp)
    intro n hn
    obtain ⟨code, hcode, rfl⟩ := List.mem_map.mp hn
    exact List.length_pos_of_ne_nil (escaped_escapeCode (h.areCodes code hcode)).ne_nil
  have hfuel : codes.length < (codes.flatMap escapeCode ++ '"' :: rest).length + 1 := by
    rw [List.length_append]
    omega
  rw [readText?, readString?_codes h rest hfuel]
  rfl

/-- A text without halves is written by its code points. -/
theorem string_eq_codesString (text : String) : string text = codesString (codesOf text) := by
  unfold string codesString
  have hflat : text.toList.flatMap escape = (codesOf text).flatMap escapeCode := by
    rw [codesOf, List.flatMap_map]
    congr 1
    funext c
    rw [escapeCode, isHalf_toNat, if_neg Bool.false_ne_true, Char.ofNat_toNat]
  rw [hflat]

theorem string_ofCodes {codes : Codes} (h : AreCodes codes) (hwhole : codes.any isHalf = false) :
    string (ofCodes codes) = codesString codes := by
  have hcodes := Datum.codes?_ofCodes h
  rw [Datum.ofCodes, hwhole, if_neg Bool.false_ne_true, Datum.codes?] at hcodes
  rw [string_eq_codesString, Option.some.inj hcodes]

/-! ## Texts that are read -/

theorem pairCode_range {high low : Nat} (hhigh : isHighHalf high = true) (hlow : isLowHalf low = true) :
    0x10000 ≤ pairCode high low ∧ pairCode high low < 0x110000 := by
  simp only [isHighHalf, isLowHalf, Bool.and_eq_true, decide_eq_true_eq] at hhigh hlow
  unfold pairCode
  omega

theorem isHalf_of_le {code : Nat} (h : 0x10000 ≤ code) : isHalf code = false := by
  simp only [isHalf, isHighHalf, isLowHalf, Bool.or_eq_false_iff, Bool.and_eq_false_iff, decide_eq_false_iff_not]
  omega

/-- An escape of four digits is a high half only if no low one follows, and two halves are one code point. -/
theorem of_unicodeEscape? {text rest : List Char} {code : Nat} (h : unicodeEscape? text = some (code, rest)) :
    code < 0x110000 ∧ (isHighHalf code = true → ¬StartsLow rest)
      ∧ (isLowHalf code = true → StartsLow ('\\' :: 'u' :: text)) := by
  cases hunit : unit? text with
  | none =>
    rw [unicodeEscape?, hunit] at h
    cases h
  | some first =>
    obtain ⟨high, more⟩ := first
    have hsmall := lt_of_unit? hunit
    by_cases hpair : isHighHalf high = true ∧ StartsLow more
    · obtain ⟨hhigh, next, low, after, rfl, hnext, hlow⟩ := hpair
      rw [unicodeEscape?_pair hunit hhigh hnext hlow, Option.some.injEq, Prod.mk.injEq] at h
      obtain ⟨rfl, rfl⟩ := h
      obtain ⟨hlarge, hrange⟩ := pairCode_range hhigh hlow
      have hwhole := isHalf_of_le hlarge
      refine ⟨hrange, fun h => absurd h ?_, fun h => absurd h ?_⟩
      · simp [isHighHalf_of_isHalf hwhole]
      · simp [isLowHalf_of_isHalf hwhole]
    · have hsingle : isHighHalf high = true → ¬StartsLow more := fun hhigh hlow => hpair ⟨hhigh, hlow⟩
      rw [unicodeEscape?_single hunit hsingle] at h
      cases h
      exact ⟨by omega, hsingle, fun hlow => ⟨text, _, _, rfl, hunit, hlow⟩⟩

/-- A character is no half, so it makes no pair. -/
theorem of_char (c : Char) (text rest : List Char) :
    c.toNat < 0x110000 ∧ (isHighHalf c.toNat = true → ¬StartsLow rest)
      ∧ (isLowHalf c.toNat = true → StartsLow text) := by
  have hwhole := isHalf_toNat c
  refine ⟨areCodes_codesOf (String.singleton c) c.toNat (by simp [codesOf]), ?_, ?_⟩
  · rw [isHighHalf_of_isHalf hwhole]
    exact fun h => absurd h Bool.false_ne_true
  · rw [isLowHalf_of_isHalf hwhole]
    exact fun h => absurd h Bool.false_ne_true

theorem of_escape? {text rest : List Char} {code : Nat} (h : escape? text = some (code, rest)) :
    code < 0x110000 ∧ (isHighHalf code = true → ¬StartsLow rest)
      ∧ (isLowHalf code = true → StartsLow ('\\' :: text)) := by
  unfold escape? at h
  split at h
  · exact of_unicodeEscape? h
  · obtain ⟨c, _, h⟩ := Option.map_eq_some_iff.mp h
    cases h
    exact of_char c _ _
  · cases h

/-- One more code point has been read, and it makes no pair with the last one. -/
theorem proper_cons {seen : List Nat} {code : Nat} {text : List Char} (hseen : Proper seen.reverse)
    (hlast : ∀ last ∈ seen.head?, isHighHalf last = true → ¬StartsLow text) (hcode : code < 0x110000)
    (hlow : isLowHalf code = true → StartsLow text) : Proper (code :: seen).reverse := by
  rw [List.reverse_cons]
  refine hseen.concat hcode ?_
  rintro last hmem ⟨hhigh, hcodeLow⟩
  rw [List.getLast?_reverse] at hmem
  exact hlast last hmem hhigh (hlow hcodeLow)

/-- **What is read between quotes has no pairs of halves.** -/
theorem proper_of_readString? {fuel : Nat} {text rest : List Char} {seen codes : List Nat}
    (h : readString? fuel text seen = some (codes, rest)) (hseen : Proper seen.reverse)
    (hlast : ∀ last ∈ seen.head?, isHighHalf last = true → ¬StartsLow text) : Proper codes := by
  induction fuel generalizing text seen with
  | zero => cases h
  | succ fuel ih =>
    unfold readString? at h
    split at h
    · cases h
    · cases h
      exact hseen
    · split at h
      · rename_i code more hescape
        obtain ⟨hcode, hhigh, hlow⟩ := of_escape? hescape
        refine ih h (proper_cons hseen hlast hcode hlow) ?_
        rintro last hmem
        cases hmem
        exact hhigh
      · cases h
    · rename_i c more _ _
      split at h
      · cases h
      · obtain ⟨hcode, hhigh, hlow⟩ := of_char c (c :: more) more
        refine ih h (proper_cons hseen hlast hcode hlow) ?_
        rintro last hmem
        cases hmem
        exact hhigh

theorem proper_of_readText? {text rest : List Char} {value : Datum} (h : readText? text = some (value, rest)) :
    ∃ codes, Proper codes ∧ value = .ofCodes codes := by
  obtain ⟨⟨codes, after⟩, hread, h⟩ := Option.map_eq_some_iff.mp h
  cases h
  exact ⟨codes, proper_of_readString? hread proper_nil (by simp), rfl⟩

end ProgramArt.Json

import Mathlib.Data.List.Chain
import ProgramArt.Datum.Basic
import ProgramArt.Proofs.Text.Words

/-!
# Texts by their code points

Code points below the end of Unicode, halves of surrogate pairs included, are those that a text can have
(`Text.AreCodes`). A text without halves is found again by its code points (`Text.ofCodes_codesOf`), and a list of
code points by the datum of its text (`Datum.codes?_ofCodes`).
-/

namespace ProgramArt

namespace Text

/-- Code points of Unicode, halves of surrogate pairs included. -/
def AreCodes (codes : Codes) : Prop :=
  ∀ code ∈ codes, code < 0x110000

theorem areCodes_codesOf (text : String) : AreCodes (codesOf text) := by
  intro code hcode
  obtain ⟨c, _, rfl⟩ := List.mem_map.mp hcode
  have hvalid := c.valid
  simp only [UInt32.isValidChar, Nat.isValidChar] at hvalid
  change c.toNat < 55296 ∨ 57343 < c.toNat ∧ c.toNat < 1114112 at hvalid
  omega

/-- A code point that is no half is that of a character. -/
theorem toNat_ofNat {code : Nat} (h : code < 0x110000) (hwhole : isHalf code = false) :
    (Char.ofNat code).toNat = code := by
  have hvalid : code.isValidChar := by
    simp only [isHalf, isHighHalf, isLowHalf, Bool.or_eq_false_iff, Bool.and_eq_false_iff,
      decide_eq_false_iff_not] at hwhole
    unfold Nat.isValidChar
    omega
  rw [Char.ofNat, dif_pos hvalid]
  rfl

/-- Where there are no halves nothing is joined. -/
theorem paired_eq {codes : Codes} (h : ∀ code ∈ codes, isHalf code = false) : paired codes = codes := by
  induction codes with
  | nil => rfl
  | cons code codes ih =>
    have hrest := ih fun other hother => h other (List.mem_cons_of_mem code hother)
    cases codes with
    | nil => rfl
    | cons next rest =>
      have hhigh : isHighHalf code = false := (Bool.or_eq_false_iff.mp (h code List.mem_cons_self)).1
      rw [paired, hhigh, Bool.false_and, if_neg Bool.false_ne_true, hrest]

theorem isHalf_of_mem_codesOf {text : String} {code : Nat} (h : code ∈ codesOf text) : isHalf code = false := by
  obtain ⟨c, _, rfl⟩ := List.mem_map.mp h
  exact isHalf_toNat c

/-- A text is found again by its code points. -/
theorem ofCodes_codesOf (text : String) : ofCodes (codesOf text) = text := by
  rw [ofCodes, paired_eq fun code hcode => isHalf_of_mem_codesOf hcode, map_charOf_codesOf, String.ofList_toList]

end Text

/-- Code points are found again by the datum of their text. -/
theorem Datum.codes?_ofCodes {codes : Text.Codes} (h : Text.AreCodes codes) : (ofCodes codes).codes? = some codes := by
  unfold ofCodes
  by_cases hhalf : codes.any Text.isHalf = true
  · -- with a half in it a text is kept by its code points
    rw [if_pos hhalf]
    rfl
  · rw [if_neg hhalf]
    have hwhole : ∀ code ∈ codes, Text.isHalf code = false := by
      intro code hcode
      refine Bool.eq_false_iff.mpr fun hcodehalf => hhalf ?_
      exact List.any_eq_true.mpr ⟨code, hcode, hcodehalf⟩
    have hcodes : Text.codesOf (Text.ofCodes codes) = codes := by
      rw [Text.ofCodes, Text.paired_eq hwhole, Text.codesOf, String.toList_ofList, List.map_map]
      refine (List.map_congr_left ?_).trans (List.map_id codes)
      intro code hcode
      rw [Function.comp_apply, Text.charOf, hwhole code hcode, if_neg Bool.false_ne_true,
        Text.toNat_ofNat (h code hcode) (hwhole code hcode)]
      rfl
    rw [codes?, hcodes]

namespace Text

/-! ## Halves that stand alone -/

/-- Code points of Unicode in which no high half stands in front of a low one. -/
structure Proper (codes : Codes) : Prop where
  areCodes : AreCodes codes
  apart : codes.IsChain fun first second => ¬(isHighHalf first = true ∧ isLowHalf second = true)

theorem proper_nil : Proper [] :=
  ⟨by simp [AreCodes], .nil⟩

theorem Proper.tail {code : Nat} {codes : Codes} (h : Proper (code :: codes)) : Proper codes :=
  ⟨fun other hother => h.areCodes other (List.mem_cons_of_mem code hother), h.apart.tail⟩

/-- One more code point goes to the end, unless it would make a pair. -/
theorem Proper.concat {codes : Codes} {code : Nat} (h : Proper codes) (hcode : code < 0x110000)
    (hlast : ∀ last ∈ codes.getLast?, ¬(isHighHalf last = true ∧ isLowHalf code = true)) :
    Proper (codes ++ [code]) := by
  refine ⟨?_, ?_⟩
  · intro other hother
    rcases List.mem_append.mp hother with hother | hother
    · exact h.areCodes other hother
    · rw [List.mem_singleton.mp hother]
      exact hcode
  · rw [List.isChain_append]
    refine ⟨h.apart, .singleton code, ?_⟩
    intro last hmem next hnext
    cases hnext
    exact hlast last hmem

theorem isHighHalf_of_isHalf {code : Nat} (h : isHalf code = false) : isHighHalf code = false :=
  (Bool.or_eq_false_iff.mp h).1

theorem isLowHalf_of_isHalf {code : Nat} (h : isHalf code = false) : isLowHalf code = false :=
  (Bool.or_eq_false_iff.mp h).2

/-- A text without halves has no pairs of them. -/
theorem proper_codesOf (text : String) : Proper (codesOf text) := by
  refine ⟨areCodes_codesOf text, ?_⟩
  have hwhole : ∀ code ∈ codesOf text, isHalf code = false := fun code => isHalf_of_mem_codesOf
  generalize codesOf text = codes at hwhole
  induction codes with
  | nil => exact .nil
  | cons code codes ih =>
    rw [List.isChain_cons]
    refine ⟨?_, ih fun other hother => hwhole other (List.mem_cons_of_mem code hother)⟩
    intro next _ hpair
    rw [isHighHalf_of_isHalf (hwhole code List.mem_cons_self)] at hpair
    exact Bool.false_ne_true hpair.1

end Text

theorem Datum.ofCodes_codesOf (text : String) : ofCodes (Text.codesOf text) = .str text := by
  rw [ofCodes, Text.ofCodes_codesOf, if_neg]
  intro hany
  obtain ⟨code, hcode, hhalf⟩ := List.any_eq_true.mp hany
  rw [Text.isHalf_of_mem_codesOf hcode] at hhalf
  cases hhalf

end ProgramArt

import ProgramArt.Text.Blank

/-!
# Words and their blanks

Words are not empty and hold no blank (`IsWord`), and they are all that a text keeps: words that are joined with
blanks between them are found again (`words_intercalate`). A text is divided into words in one way only
(`words_eq_iff`).
-/

namespace ProgramArt.Text

/-- Some code points without a blank among them. -/
def IsWord (word : Codes) : Prop :=
  word ≠ [] ∧ ∀ code ∈ word, isBlank code = false

theorem isWord_of_mem_wordsFrom {word current text : Codes} (h : word ∈ wordsFrom current text)
    (hcurrent : ∀ code ∈ current, isBlank code = false) : IsWord word := by
  induction text generalizing current with
  | nil =>
    by_cases hempty : current = []
    · simp [wordsFrom, hempty] at h
    · simp only [wordsFrom, List.isEmpty_iff, if_neg hempty, List.mem_singleton] at h
      rw [h]
      exact ⟨hempty, hcurrent⟩
  | cons code rest ih =>
    rw [wordsFrom] at h
    by_cases hblank : isBlank code = true
    · -- a blank ends the word before it, if there is one
      rw [if_pos hblank] at h
      by_cases hempty : current = []
      · rw [hempty, List.isEmpty_nil, if_pos rfl] at h
        exact ih h (by simp)
      · rw [if_neg (by simpa using hempty), List.mem_cons] at h
        rcases h with rfl | h
        · exact ⟨hempty, hcurrent⟩
        · exact ih h (by simp)
    · rw [if_neg hblank] at h
      refine ih h ?_
      intro other hother
      rcases List.mem_append.mp hother with hother | hother
      · exact hcurrent other hother
      · rw [List.mem_singleton.mp hother]
        exact Bool.eq_false_iff.mpr hblank

/-- **Every word of a text is a word.** -/
theorem isWord_of_mem_words {word text : Codes} (h : word ∈ words text) : IsWord word :=
  isWord_of_mem_wordsFrom h (by simp)

theorem mem_of_mem_wordsFrom {word current text : Codes} (h : word ∈ wordsFrom current text) {code : Nat}
    (hcode : code ∈ word) : code ∈ current ++ text := by
  induction text generalizing current with
  | nil =>
    rw [wordsFrom] at h
    split at h
    · cases h
    · rw [List.mem_singleton.mp h] at hcode
      exact List.mem_append_left [] hcode
  | cons first rest ih =>
    rw [wordsFrom] at h
    split at h
    · split at h
      · exact List.mem_append_right current (List.mem_cons_of_mem first (ih h))
      · rcases List.mem_cons.mp h with rfl | h
        · exact List.mem_append_left _ hcode
        · exact List.mem_append_right current (List.mem_cons_of_mem first (ih h))
    · have hmem := ih h
      rwa [List.append_assoc] at hmem

/-- The code points of a word are some of the text. -/
theorem mem_of_mem_words {word text : Codes} (h : word ∈ words text) {code : Nat} (hcode : code ∈ word) :
    code ∈ text :=
  mem_of_mem_wordsFrom h hcode

/-- Code points that are not blank continue the word before them. -/
theorem wordsFrom_append {word : Codes} (current rest : Codes) (h : ∀ code ∈ word, isBlank code = false) :
    wordsFrom current (word ++ rest) = wordsFrom (current ++ word) rest := by
  induction word generalizing current with
  | nil => rw [List.nil_append, List.append_nil]
  | cons code word ih =>
    rw [List.cons_append, wordsFrom, h code List.mem_cons_self, if_neg Bool.false_ne_true,
      ih _ fun code hcode => h code (List.mem_cons_of_mem _ hcode), List.append_assoc, List.singleton_append]

/-- **Words that are joined with blanks are found again.** -/
theorem words_intercalate {tokens : List Codes} (h : ∀ token ∈ tokens, IsWord token) :
    words ([' '.toNat].intercalate tokens) = tokens := by
  unfold words
  induction tokens with
  | nil => rfl
  | cons token tokens ih =>
    obtain ⟨hne, hblank⟩ := h token List.mem_cons_self
    cases tokens with
    | nil =>
      rw [List.intercalate_singleton, ← List.append_nil token, wordsFrom_append [] [] hblank, List.nil_append,
        wordsFrom, if_neg (by simpa using hne), List.append_nil]
    | cons next tokens =>
      have hspace : isBlank ' '.toNat = true := rfl
      rw [List.intercalate_cons_cons, List.append_assoc, List.singleton_append, wordsFrom_append [] _ hblank,
        List.nil_append, wordsFrom, if_pos hspace, if_neg (by simpa using hne),
        ih fun token htoken => h token (List.mem_cons_of_mem _ htoken)]

/-- A text is divided into words: before each word there may be blanks, and behind it the text ends or a blank
follows. -/
inductive Divided : Codes → List Codes → Prop
  | blank {text : Codes} (h : ∀ code ∈ text, isBlank code = true) : Divided text []
  | word {gap word rest : Codes} {words : List Codes} (hgap : ∀ code ∈ gap, isBlank code = true)
      (hword : IsWord word) (hrest : ∀ code ∈ rest.head?, isBlank code = true) (h : Divided rest words) :
      Divided (gap ++ (word ++ rest)) (word :: words)

theorem Divided.cons_blank {code : Nat} {text : Codes} {words : List Codes} (hcode : isBlank code = true)
    (h : Divided text words) : Divided (code :: text) words := by
  cases h with
  | blank h => exact .blank (List.forall_mem_cons.mpr ⟨hcode, h⟩)
  | word hgap hword hrest h => exact .word (List.forall_mem_cons.mpr ⟨hcode, hgap⟩) hword hrest h

theorem divided_wordsFrom {current : Codes} (text : Codes) (hcurrent : ∀ code ∈ current, isBlank code = false) :
    Divided (current ++ text) (wordsFrom current text) := by
  induction text generalizing current with
  | nil =>
    rw [wordsFrom]
    split
    · rename_i hempty
      rw [List.isEmpty_iff.mp hempty]
      exact .blank (by simp)
    · rename_i hne
      have hword : IsWord current := ⟨by simpa using hne, hcurrent⟩
      exact @Divided.word [] current [] [] (by simp) hword (by simp) (.blank (by simp))
  | cons code rest ih =>
    rw [wordsFrom]
    split
    · -- a blank ends the word before it, if there is one
      rename_i hblank
      have hrest := (@ih [] (by simp)).cons_blank hblank
      split
      · rename_i hempty
        rw [List.isEmpty_iff.mp hempty]
        exact hrest
      · rename_i hne
        have hword : IsWord current := ⟨by simpa using hne, hcurrent⟩
        exact @Divided.word [] current (code :: rest) _ (by simp) hword (by simpa using hblank) hrest
    · rename_i hblank
      have hlonger : ∀ other ∈ current ++ [code], isBlank other = false := by
        rw [List.forall_mem_append]
        exact ⟨hcurrent, by simpa using hblank⟩
      have hrest := ih hlonger
      rwa [List.append_assoc] at hrest

theorem wordsFrom_blanks {gap : Codes} (rest : Codes) (h : ∀ code ∈ gap, isBlank code = true) :
    wordsFrom [] (gap ++ rest) = wordsFrom [] rest := by
  induction gap with
  | nil => rfl
  | cons code gap ih =>
    obtain ⟨hcode, hgap⟩ := List.forall_mem_cons.mp h
    rw [List.cons_append, wordsFrom, if_pos hcode, List.isEmpty_nil, if_pos rfl, ih hgap]

theorem Divided.words_eq {text : Codes} {tokens : List Codes} (h : Divided text tokens) : words text = tokens := by
  unfold words
  induction h with
  | @blank text h => rw [← List.append_nil text, wordsFrom_blanks [] h, wordsFrom, List.isEmpty_nil, if_pos rfl]
  | @word gap word rest tokens hgap hword hrest _ ih =>
    have hne : ¬ word.isEmpty = true := by simpa using hword.1
    rw [wordsFrom_blanks _ hgap, wordsFrom_append [] rest hword.2, List.nil_append]
    -- behind the word the text ends or a blank ends the word
    cases rest with
    | nil => rw [wordsFrom, if_neg hne, ← ih, wordsFrom, List.isEmpty_nil, if_pos rfl]
    | cons code rest =>
      have hcode : isBlank code = true := hrest code rfl
      rw [wordsFrom, if_pos hcode, List.isEmpty_nil, if_pos rfl] at ih
      rw [wordsFrom, if_pos hcode, if_neg hne, ih]

/-- **The words of a text are the only ones that it is divided into.** -/
theorem words_eq_iff {text : Codes} {tokens : List Codes} : words text = tokens ↔ Divided text tokens := by
  constructor
  · rintro rfl
    exact @divided_wordsFrom [] text (by simp)
  · exact Divided.words_eq

/-- A character is no half of a surrogate pair. -/
theorem isHalf_toNat (c : Char) : isHalf c.toNat = false := by
  have hvalid := c.valid
  simp only [UInt32.isValidChar, Nat.isValidChar] at hvalid
  change c.toNat < 55296 ∨ 57343 < c.toNat ∧ c.toNat < 1114112 at hvalid
  simp only [isHalf, isHighHalf, isLowHalf, Bool.or_eq_false_iff, Bool.and_eq_false_iff,
    decide_eq_false_iff_not]
  omega

theorem charOf_toNat (c : Char) : charOf c.toNat = c := by
  rw [charOf, isHalf_toNat, if_neg Bool.false_ne_true]
  exact Char.ofNat_toNat c

theorem map_charOf_toNat (chars : List Char) : (chars.map Char.toNat).map charOf = chars := by
  rw [List.map_map]
  exact (List.map_congr_left fun c _ => charOf_toNat c).trans (List.map_id chars)

theorem map_charOf_codesOf (text : String) : (codesOf text).map charOf = text.toList :=
  map_charOf_toNat text.toList

/-- The ASCII characters, but for the null character. -/
def isAscii (c : Char) : Bool :=
  0 < c.toNat && c.toNat < 128

/-- An ASCII character is that of its own code point only. -/
theorem eq_toNat_of_charOf {code : Nat} {c : Char} (hc : isAscii c = true) (h : charOf code = c) :
    code = c.toNat := by
  subst h
  simp only [isAscii, Bool.and_eq_true, decide_eq_true_eq] at hc
  unfold charOf at hc ⊢
  split at hc
  · -- a half has the replacement character
    exact absurd hc.2 (by decide)
  · -- and what is no character has the null character
    rename_i hwhole
    by_cases hvalid : code.isValidChar
    · rw [if_neg hwhole, Char.ofNat, dif_pos hvalid]
      rfl
    · rw [Char.ofNat, dif_neg hvalid] at hc
      exact absurd hc.1 (by decide)

/-- Code points are those of their characters, if these are ASCII. -/
theorem eq_map_toNat {codes : Codes} {chars : List Char} (hchars : ∀ c ∈ chars, isAscii c = true)
    (h : codes.map charOf = chars) : codes = chars.map Char.toNat := by
  subst h
  rw [List.map_map]
  refine (List.map_id codes).symm.trans (List.map_congr_left ?_)
  intro code hcode
  exact eq_toNat_of_charOf (hchars _ (List.mem_map_of_mem hcode)) rfl

end ProgramArt.Text

import Mathlib.Data.List.Basic
import ProgramArt.Text.Aligned

/-!
# Reading a text by its columns

A mark in one line of a text points at the word that stands below it in the next line. `wordAt` says what a reader
finds there, with the lines as they are printed, and `wordAt_row` finds it in a row of words that are moved to the
right ends of their fields. A word that is longer than its field moves all that follow it out of their columns.
-/

namespace ProgramArt.Text

/-! ## Words below marks -/

/-- What stands at a column of a line: the word that goes through it or, where there is a blank, the next word
to the right. -/
def wordAt (line : List Char) (column : Nat) : List Char :=
  match line.drop column with
  | [] => []
  | c :: rest =>
    if c = ' ' then (rest.dropWhile (· == ' ')).takeWhile (· != ' ')
    else ((line.take column).reverse.takeWhile (· != ' ')).reverse ++ (c :: rest).takeWhile (· != ' ')

/-- The words that stand below the marks of a text, one for each mark: each is looked for in the next line, at the
column of the mark. -/
def wordsBelow (mark : Char) : (lines : List String) → List String
  | [] => []
  | line :: rest =>
    (line.toList.idxsOf mark).map (fun column => String.ofList (wordAt (rest.headD "").toList column))
      ++ wordsBelow mark rest

theorem idxsOf_of_notMem {mark : Char} {chars : List Char} (h : mark ∉ chars) (start : Nat) :
    chars.idxsOf mark start = [] := by
  rw [List.idxsOf_eq_nil_iff]
  intro c hc
  exact beq_false_of_ne (ne_of_mem_of_not_mem hc h)

theorem wordsBelow_cons_of_notMem {mark : Char} {line : String} (h : mark ∉ line.toList) (rest : List String) :
    wordsBelow mark (line :: rest) = wordsBelow mark rest := by
  rw [wordsBelow, idxsOf_of_notMem h, List.map_nil, List.nil_append]

theorem takeWhile_word {word rest : List Char} (hword : ' ' ∉ word) (hrest : ∀ c ∈ rest.head?, c = ' ') :
    (word ++ rest).takeWhile (· != ' ') = word := by
  have hall : ∀ c ∈ word, (c != ' ') = true := by
    intro c hc
    exact bne_iff_ne.mpr (ne_of_mem_of_not_mem hc hword)
  rw [List.takeWhile_append_of_pos hall]
  cases rest with
  | nil => simp
  | cons c rest => simp [hrest c rfl]

/-- At a blank the next word is found. -/
theorem wordAt_blank {word after : List Char} (before : List Char) (gap : Nat) (hword : ' ' ∉ word) (hne : word ≠ [])
    (hafter : ∀ c ∈ after.head?, c = ' ') :
    wordAt (before ++ ' ' :: (List.replicate gap ' ' ++ (word ++ after))) before.length = word := by
  have hskip : (List.replicate gap ' ' ++ (word ++ after)).dropWhile (· == ' ') = word ++ after := by
    rw [List.dropWhile_append_of_pos (by simp)]
    obtain ⟨c, rest, rfl⟩ := List.exists_cons_of_ne_nil hne
    have hc : c ≠ ' ' := fun h => hword (by simp [h])
    simp [hc]
  rw [wordAt, List.drop_left]
  dsimp only
  rw [if_pos rfl, hskip, takeWhile_word hword hafter]

/-- In a word that word is found, from any of its letters. -/
theorem wordAt_letter {before left right after : List Char} {c : Char} (hbefore : ∀ b ∈ before.getLast?, b = ' ')
    (hleft : ' ' ∉ left) (hright : ' ' ∉ c :: right) (hafter : ∀ b ∈ after.head?, b = ' ') :
    wordAt (before ++ left ++ (c :: right ++ after)) (before ++ left).length = left ++ c :: right := by
  have hc : c ≠ ' ' := fun h => hright (by simp [h])
  have hback : (before ++ left).reverse.takeWhile (· != ' ') = left.reverse := by
    rw [List.reverse_append]
    exact takeWhile_word (by simpa using hleft) (by simpa using hbefore)
  rw [wordAt, List.drop_left, List.take_left]
  dsimp only [List.cons_append]
  rw [if_neg hc, hback, List.reverse_reverse, ← List.cons_append, takeWhile_word hright hafter]

/-- **A word is found in all its columns,** and in those of the blanks before it. There is at least one of these, so
that the word is not the end of another. -/
theorem wordAt_append {word after : List Char} {gap column : Nat} (before : List Char) (hgap : 0 < gap)
    (hword : ' ' ∉ word) (hne : word ≠ []) (hafter : ∀ c ∈ after.head?, c = ' ') (hle : before.length ≤ column)
    (hlt : column < before.length + gap + word.length) :
    wordAt (before ++ (List.replicate gap ' ' ++ (word ++ after))) column = word := by
  by_cases hblank : column < before.length + gap
  · obtain ⟨i, rfl⟩ := Nat.exists_eq_add_of_le hle
    obtain ⟨j, rfl⟩ : ∃ j, gap = i + (j + 1) := ⟨gap - i - 1, by omega⟩
    have hfound := wordAt_blank (before ++ List.replicate i ' ') j hword hne hafter
    rw [List.length_append, List.length_replicate] at hfound
    simpa [List.replicate_add, List.replicate_succ] using hfound
  · obtain ⟨i, rfl⟩ := Nat.exists_eq_add_of_le (Nat.le_of_not_lt hblank)
    have hi : i < word.length := by omega
    obtain ⟨left, c, right, rfl, rfl⟩ : ∃ left c right, word = left ++ c :: right ∧ left.length = i := by
      refine ⟨word.take i, word.get ⟨i, hi⟩, word.drop (i + 1), by simp, ?_⟩
      rw [List.length_take, Nat.min_eq_left (Nat.le_of_lt hi)]
    rw [List.mem_append, not_or] at hword
    have hbefore : ∀ b ∈ (before ++ List.replicate gap ' ').getLast?, b = ' ' := by
      obtain ⟨g, rfl⟩ := Nat.exists_eq_succ_of_ne_zero (Nat.ne_of_gt hgap)
      simp [List.getLast?_append, List.replicate_succ']
    have hfound := wordAt_letter hbefore hword.1 hword.2 hafter
    rw [List.length_append, List.length_append, List.length_replicate] at hfound
    simpa using hfound

/-! ## Rows -/

/-- A row of words, each at the right end of a field of `width` characters, with a blank before each field. -/
def row (width : Nat) (words : List (List Char)) : List Char :=
  words.flatMap fun word => List.replicate (1 + (width - word.length)) ' ' ++ word

/-- How many characters of the words do not fit into fields of `width` characters. -/
def excess (width : Nat) : (words : List (List Char)) → Nat
  | [] => 0
  | word :: words => (word.length - width) + excess width words

theorem excess_eq_zero {width : Nat} {words : List (List Char)} (h : ∀ word ∈ words, word.length ≤ width) :
    excess width words = 0 := by
  induction words with
  | nil => rfl
  | cons word words ih =>
    rw [excess, ih fun w hw => h w (List.mem_cons_of_mem _ hw), Nat.sub_eq_zero_of_le (h word List.mem_cons_self)]

theorem row_append (width : Nat) (first second : List (List Char)) :
    row width (first ++ second) = row width first ++ row width second :=
  List.flatMap_append

theorem row_cons (width : Nat) (word : List Char) (words : List (List Char)) :
    row width (word :: words) = List.replicate (1 + (width - word.length)) ' ' ++ (word ++ row width words) := by
  rw [row, List.flatMap_cons, List.append_assoc]
  rfl

/-- Fields that are filled make a row when they are joined. Induction on the fields: joining puts a blank between two of
them, and the first has one before it. -/
theorem cons_intercalate {width : Nat} {fields : List (List Char)} (hne : fields ≠ [])
    (h : ∀ field ∈ fields, width ≤ field.length) : ' ' :: List.intercalate [' '] fields = row width fields := by
  induction fields with
  | nil => exact absurd rfl hne
  | cons field fields ih =>
    have hfield : width - field.length = 0 := Nat.sub_eq_zero_of_le (h field List.mem_cons_self)
    rw [row_cons, hfield]
    cases fields with
    | nil => simp [row]
    | cons next fields =>
      rw [← ih (by simp) fun f hf => h f (List.mem_cons_of_mem _ hf), List.intercalate_cons_cons]
      simp

theorem toList_padLeft (width : Nat) (text : String) :
    (padLeft width text).toList = List.replicate (width - text.toList.length) ' ' ++ text.toList := by
  rw [padLeft, fillLeft, String.toList_ofList, String.length_toList]

theorem le_length_padLeft (width : Nat) (text : String) : width ≤ (padLeft width text).toList.length := by
  rw [toList_padLeft, List.length_append, List.length_replicate]
  omega

/-- A row does not change when its words are moved to the right ends of their fields before. -/
theorem row_padLeft (width : Nat) (texts : List String) :
    row width (texts.map fun text => (padLeft width text).toList) = row width (texts.map String.toList) := by
  induction texts with
  | nil => rw [List.map_nil, List.map_nil]
  | cons text texts ih =>
    have hfilled : width - (padLeft width text).toList.length = 0 :=
      Nat.sub_eq_zero_of_le (le_length_padLeft width text)
    rw [List.map_cons, List.map_cons, row_cons, row_cons, ih, hfilled, Nat.add_zero, toList_padLeft, List.replicate_add]
    simp only [List.append_assoc]

theorem mem_row {width : Nat} {words : List (List Char)} {c : Char} (hc : c ≠ ' ') :
    c ∈ row width words ↔ ∃ word ∈ words, c ∈ word := by
  simp [row, hc]

/-- **A row is as long as its fields with the blanks before them,** and longer by what does not fit. -/
theorem length_row (width : Nat) (words : List (List Char)) :
    (row width words).length = (width + 1) * words.length + excess width words := by
  induction words with
  | nil => rfl
  | cons word words ih =>
    rw [row_cons, List.length_append, List.length_append, List.length_replicate, ih, List.length_cons, Nat.mul_succ,
      excess]
    omega

theorem head?_row {width : Nat} {words : List (List Char)} {c : Char} (h : c ∈ (row width words).head?) : c = ' ' := by
  cases words with
  | nil => cases h
  | cons word words =>
    rw [row_cons, Nat.add_comm, List.replicate_succ] at h
    exact (Option.some.inj h).symm

/-- A word of a row is found in the columns of its field, and in that of the blank before it. -/
theorem wordAt_row {head : List Char} {width column : Nat} {before after : List (List Char)} {word : List Char}
    (hword : ' ' ∉ word) (hne : word ≠ []) (hle : (head ++ row width before).length ≤ column)
    (hlt : column < (head ++ row width before).length + (width + 1)) :
    wordAt (head ++ row width (before ++ word :: after)) column = word := by
  rw [row_append, row_cons, ← List.append_assoc]
  exact wordAt_append _ (by omega) hword hne (fun c => head?_row) hle (by omega)

/-- **In every column of a row one of its words is found.** Induction on the words before those that are left out:
the first field is added to the head. -/
theorem exists_wordAt_row (head : List Char) {width column : Nat} {words : List (List Char)}
    (hwords : ∀ word ∈ words, ' ' ∉ word ∧ word ≠ []) (after : List (List Char)) (hle : head.length ≤ column)
    (hlt : column < (head ++ row width words).length) :
    ∃ word ∈ words, wordAt (head ++ row width (words ++ after)) column = word := by
  induction words generalizing head with
  | nil =>
    rw [row, List.flatMap_nil, List.append_nil] at hlt
    omega
  | cons word words ih =>
    obtain ⟨hblank, hne⟩ := hwords word List.mem_cons_self
    rw [row_cons] at hlt
    by_cases hfirst : column < head.length + (1 + (width - word.length)) + word.length
    · refine ⟨word, List.mem_cons_self, ?_⟩
      rw [List.cons_append, row_cons]
      exact wordAt_append head (by omega) hblank hne (fun c => head?_row) hle hfirst
    · obtain ⟨found, hfound, hat⟩ := ih (head ++ (List.replicate (1 + (width - word.length)) ' ' ++ word))
        (fun w hw => hwords w (List.mem_cons_of_mem _ hw))
        (by simp only [List.length_append, List.length_replicate]; omega) (by simpa using hlt)
      refine ⟨found, List.mem_cons_of_mem _ hfound, ?_⟩
      rw [← hat, List.cons_append, row_cons]
      simp

end ProgramArt.Text

import ProgramArt.Proofs.Json.Values
import ProgramArt.Text.Lines

/-!
# Documents that are read again

Whatever is read from a document can be kept in one (`kept_of_read`). So the data that read back from their documents
are exactly those that a document keeps (`read_print_iff`). A document has no carriage returns, and a file gives it
back as it was written.
-/

namespace ProgramArt.Json

open Binary64 Decimal Text

/-! ## What is read -/

theorem kept_of_literal? (n : Nat) {text rest : List Char} {value : Datum}
    (h : literal? text = some (value, rest)) : Kept n value := by
  obtain ⟨⟨name, named⟩, hname, h⟩ := List.exists_of_findSome?_eq_some h
  have hvalue : named = value := by
    dsimp only at h
    split at h
    · exact congrArg Prod.fst (Option.some.inj h)
    · cases h
  subst hvalue
  simp only [names, List.mem_cons, List.not_mem_nil, or_false, Prod.mk.injEq] at hname
  rcases hname with ⟨-, rfl⟩ | ⟨-, rfl⟩ | ⟨-, rfl⟩ | ⟨-, rfl⟩ | ⟨-, rfl⟩ | ⟨-, rfl⟩
  · exact .null
  · exact .bool true
  · exact .bool false
  · exact .nan
  · exact .float (isNaN_ofMagnitude false le_rfl)
  · exact .float (isNaN_ofMagnitude true le_rfl)

/-- A number that is read can be kept at any depth. -/
theorem kept_of_readNumber? (n : Nat) {text rest : List Char} {value : Datum}
    (h : readNumber? text = some (value, rest)) : Kept n value := by
  obtain ⟨size, rfl, hsize⟩ | ⟨x, rfl, hx⟩ := of_readNumber? h
  · exact .int hsize
  · exact .float hx

theorem kept_of_readText? (n : Nat) {text rest : List Char} {value : Datum}
    (h : readText? text = some (value, rest)) : Kept n value :=
  .text (proper_of_readText? h)

theorem orMalformed_eq_ok {α : Type} {result : Option α} {a : α} (h : orMalformed result = .ok a) :
    result = some a := by
  cases result with
  | none => cases h
  | some b =>
    cases h
    rfl

/-- A result behind `Except.map` comes from a result before it. -/
theorem map_eq_ok {α β ε : Type} {result : Except ε α} {f : α → β} {b : β} (h : result.map f = .ok b) :
    ∃ a, result = .ok a ∧ f a = b := by
  cases result with
  | error e => cases h
  | ok a =>
    cases h
    exact ⟨a, rfl, rfl⟩

/-- Entries that a mapping can have, with values that are nested at most so many times. -/
structure KeptEntries (n : Nat) (entries : List (Datum × Datum)) : Prop where
  names : ∀ entry ∈ entries, IsText entry.1
  distinct : (entries.map Prod.fst).Nodup
  values : ∀ entry ∈ entries, Kept n entry.2

theorem keptEntries_nil (n : Nat) : KeptEntries n [] :=
  ⟨by simp, by simp, by simp⟩

/-- `Datum.insert` keeps the keys of a mapping apart. -/
theorem KeptEntries.insert {n : Nat} {entries : List (Datum × Datum)} (h : KeptEntries n entries)
    {name value : Datum} (hname : IsText name) (hvalue : Kept n value) :
    KeptEntries n (Datum.insert name value entries) := by
  refine ⟨?_, nodup_keys_insert value hname h.names h.distinct, ?_⟩
  · intro entry hentry
    rcases mem_insert hentry with hentry | ⟨-, hkey | hkey⟩
    · exact h.names entry hentry
    · rw [hkey]
      exact hname
    · obtain ⟨other, hother, hkey⟩ := List.mem_map.mp hkey
      rw [← hkey]
      exact h.names other hother
  · intro entry hentry
    rcases mem_insert hentry with hentry | ⟨hnew, -⟩
    · exact h.values entry hentry
    · rw [hnew]
      exact hvalue

/-- With so much fuel, what is read can be kept at the depth where it stands. -/
structure Sound [Host] (fuel : Nat) : Prop where
  value : ∀ {depth text value rest}, readValue depth fuel text = .ok (value, rest) →
    Kept (Host.documentDepth - depth) value
  items : ∀ {depth text seen items rest}, (∀ item ∈ seen, Kept (Host.documentDepth - depth) item) →
    readItems depth fuel text seen = .ok (items, rest) → ∀ item ∈ items, Kept (Host.documentDepth - depth) item
  entries : ∀ {depth text seen entries rest}, KeptEntries (Host.documentDepth - depth) seen →
    readEntries depth fuel text seen = .ok (entries, rest) → KeptEntries (Host.documentDepth - depth) entries

/-- A value is read by its first character, and what stands inside of it with less fuel. -/
theorem Sound.succ_value [Host] {fuel : Nat} (h : Sound fuel) {depth : Nat} {text rest : List Char} {value : Datum}
    (hread : readValue depth (fuel + 1) text = .ok (value, rest)) :
    Kept (Host.documentDepth - depth) value := by
  unfold readValue at hread
  split at hread
  · exact kept_of_readText? _ (orMalformed_eq_ok hread)
  · -- a list is one level above its items
    split at hread
    · cases hread
    · obtain ⟨n, hn⟩ : ∃ n, Host.documentDepth - depth = n + 1 := ⟨Host.documentDepth - depth - 1, by omega⟩
      have hinner : Host.documentDepth - (depth + 1) = n := by omega
      rw [hn]
      split at hread
      · cases hread
        exact .list (by simp)
      · obtain ⟨⟨items, after⟩, hitems, hread⟩ := map_eq_ok hread
        cases hread
        have hkept := h.items (by simp) hitems
        rw [hinner] at hkept
        exact .list hkept
  · split at hread
    · cases hread
    · obtain ⟨n, hn⟩ : ∃ n, Host.documentDepth - depth = n + 1 := ⟨Host.documentDepth - depth - 1, by omega⟩
      have hinner : Host.documentDepth - (depth + 1) = n := by omega
      rw [hn]
      split at hread
      · cases hread
        exact .map (by simp) (by simp) (by simp)
      · obtain ⟨⟨entries, after⟩, hentries, hread⟩ := map_eq_ok hread
        cases hread
        have hkept := h.entries (keptEntries_nil _) hentries
        rw [hinner] at hkept
        exact .map hkept.names hkept.distinct hkept.values
  · have hsome := orMalformed_eq_ok hread
    cases hliteral : literal? text with
    | none =>
      rw [hliteral] at hsome
      exact kept_of_readNumber? _ hsome
    | some named =>
      rw [hliteral] at hsome
      cases hsome
      exact kept_of_literal? _ hliteral

/-- One more item. -/
theorem Sound.succ_items [Host] {fuel : Nat} (h : Sound fuel) {depth : Nat} {text rest : List Char}
    {seen items : List Datum} (hseen : ∀ item ∈ seen, Kept (Host.documentDepth - depth) item)
    (hread : readItems depth (fuel + 1) text seen = .ok (items, rest)) :
    ∀ item ∈ items, Kept (Host.documentDepth - depth) item := by
  unfold readItems at hread
  split at hread
  · cases hread
  · rename_i item after hitem
    have hnew : ∀ other ∈ item :: seen, Kept (Host.documentDepth - depth) other := by
      intro other hother
      rcases List.mem_cons.mp hother with rfl | hother
      · exact h.value hitem
      · exact hseen other hother
    split at hread
    · exact h.items hnew hread
    · cases hread
      exact fun other hother => hnew other (List.mem_reverse.mp hother)
    · cases hread

/-- One more entry, under a key that may have been there. -/
theorem Sound.succ_entries [Host] {fuel : Nat} (h : Sound fuel) {depth : Nat} {text rest : List Char}
    {seen entries : List (Datum × Datum)} (hseen : KeptEntries (Host.documentDepth - depth) seen)
    (hread : readEntries depth (fuel + 1) text seen = .ok (entries, rest)) :
    KeptEntries (Host.documentDepth - depth) entries := by
  unfold readEntries at hread
  split at hread
  · split at hread
    · cases hread
    · rename_i name after hname
      split at hread
      · split at hread
        · cases hread
        · rename_i value more hvalue
          have hnew := hseen.insert (proper_of_readText? hname) (h.value hvalue)
          dsimp only at hread
          split at hread
          · exact h.entries hnew hread
          · cases hread
            exact hnew
          · cases hread
      · cases hread
  · cases hread

/-- **All three readers are sound**, by induction on their fuel. -/
theorem sound [Host] (fuel : Nat) : Sound fuel := by
  induction fuel with
  | zero =>
    refine ⟨fun hread => ?_, fun _ hread => ?_, fun _ hread => ?_⟩
    · rw [readValue] at hread
      cases hread
    · rw [readItems] at hread
      cases hread
    · rw [readEntries] at hread
      cases hread
  | succ fuel ih => exact ⟨ih.succ_value, ih.succ_items, ih.succ_entries⟩

/-! ## Documents -/

/-- A document is one value with blanks around it. -/
theorem read_eq_ok_iff [Host] {text : String} {value : Datum} :
    read text = .ok value ↔ ∃ rest, readValue 0 (2 * text.toList.length + 2) (skipSpace text.toList) = .ok (value, rest)
      ∧ skipSpace rest = [] := by
  cases hread : readValue 0 (2 * text.toList.length + 2) (skipSpace text.toList) with
  | error e =>
    have herror : read text = .error e := by
      rw [read]
      dsimp only
      rw [hread]
      rfl
    simp [herror]
  | ok pair =>
    obtain ⟨found, rest⟩ := pair
    have hfound : read text = if (skipSpace rest).isEmpty then .ok found else .error JsonError.malformed := by
      rw [read]
      dsimp only
      rw [hread]
      rfl
    by_cases hrest : skipSpace rest = [] <;> simp [hfound, hrest]

/-- **What is read can be kept.** -/
theorem kept_of_read [Host] {text : String} {value : Datum} (h : read text = .ok value) :
    Kept Host.documentDepth value := by
  obtain ⟨rest, hread, -⟩ := read_eq_ok_iff.mp h
  exact (sound _).value hread

/-- **What can be kept is read from its document.** -/
theorem read_print [Host] {n : Nat} {value : Datum} (h : Kept n value) (hdepth : n ≤ Host.documentDepth) :
    read (print value) = .ok value := by
  obtain ⟨c, more, htext, hspace, -⟩ := opens_printAt h 0
  have hskip : skipSpace (print value).toList = (printAt 0 value).toList ++ [] := by
    rw [print, htext, skipSpace_cons hspace, List.append_nil]
  refine read_eq_ok_iff.mpr ⟨[], ?_, rfl⟩
  rw [hskip]
  refine readsBack_of_kept h 0 (by omega) _ _ ?_ stops_nil
  rw [List.append_nil, print]
  omega

/-- A value reads back from its document exactly if a document keeps it. -/
theorem read_print_iff [Host] {value : Datum} : read (print value) = .ok value ↔ Kept Host.documentDepth value :=
  ⟨kept_of_read, fun h => read_print h le_rfl⟩

/-! ## Line breaks -/

/-- A text without carriage returns has its line breaks already. -/
theorem unifyBreaks_of_notMem {text : List Char} (h : '\r' ∉ text) : unifyBreaks text = text := by
  induction text with
  | nil => rfl
  | cons c rest ih =>
    rw [List.mem_cons, not_or] at h
    rw [unifyBreaks, ih h.2]
    · rintro more rfl
      exact absurd rfl h.1
    · exact fun hc => h.1 hc.symm

theorem notMem_of_isDigit {text : List Char} (h : ∀ c ∈ text, c.isDigit = true) : '\r' ∉ text := by
  intro hmem
  have hdigit := h _ hmem
  simp at hdigit

theorem notMem_hexDigits (width n : Nat) : '\r' ∉ hexDigits width n := by
  intro hmem
  obtain ⟨d, hd⟩ := exists_digit?_of_natural? (natural?_hexDigits width n) hmem
  cases hd

/-- No escape of a code point has a carriage return in it. -/
theorem Escaped.notMem {code : Nat} {chars : List Char} (h : Escaped code chars) : '\r' ∉ chars := by
  cases h with
  | plain hspace _ _ =>
    rintro hmem
    rw [List.mem_singleton] at hmem
    subst hmem
    exact hspace (by decide)
  | letter hletter =>
    intro hmem
    simp only [List.mem_cons, List.not_mem_nil, or_false] at hmem
    rcases hmem with hmem | rfl
    · cases hmem
    · cases hletter
  | unit _ => simp [unitEscape, notMem_hexDigits]
  | pair _ _ => simp [unitEscape, notMem_hexDigits]

theorem notMem_codesString {codes : Codes} (h : Proper codes) : '\r' ∉ (codesString codes).toList := by
  rw [toList_codesString]
  intro hmem
  simp only [List.mem_cons, List.mem_append, List.mem_flatMap, List.not_mem_nil, or_false] at hmem
  rcases hmem with hmem | ⟨code, hcode, hmem⟩ | hmem
  · cases hmem
  · exact (escaped_escapeCode (h.areCodes code hcode)).notMem hmem
  · cases hmem

theorem notMem_number {negative : Bool} {text : List Char} (h : IsDecimal negative text) : '\r' ∉ text := by
  obtain ⟨whole, fraction, power, rfl, hwhole, hfraction, hpower, -⟩ := h
  have hsign : '\r' ∉ signChars negative := by cases negative <;> decide
  have hwhole' := notMem_of_isDigit hwhole.isDigit
  have hfraction' : '\r' ∉ fraction := by
    rcases hfraction with rfl | ⟨digits, rfl, -, hdigits⟩
    · simp
    · simp [notMem_of_isDigit hdigits]
  have hpower' : '\r' ∉ power := by
    rcases hpower with rfl | ⟨sign, digits, rfl, hsign, -, hdigits⟩
    · simp
    · rcases hsign with rfl | rfl <;> simp [notMem_of_isDigit hdigits]
  simp [hsign, hwhole', hfraction', hpower']

/-- Lines are broken with a line feed only. -/
theorem notMem_linesChars (level : Nat) {items : List (List Char)} (h : ∀ item ∈ items, '\r' ∉ item) :
    '\r' ∉ linesChars level items := by
  have hgap : '\r' ∉ ',' :: gap (level + 1) := by simp [gap]
  unfold linesChars
  induction items with
  | nil => simp
  | cons item items ih =>
    have hrest := ih fun other hother => h other (.tail _ hother)
    cases items with
    | nil => simpa using h item List.mem_cons_self
    | cons next items =>
      rw [List.intercalate_cons_cons]
      simp only [List.mem_append, not_or]
      exact ⟨⟨h item List.mem_cons_self, hgap⟩, hrest⟩

theorem notMem_name {value : Datum} (h : value ∈ names.map Prod.snd) (level : Nat) :
    '\r' ∉ (printAt level value).toList := by
  obtain ⟨⟨name, value⟩, hmem, rfl⟩ := List.mem_map.mp h
  have hall : ∀ name ∈ names.map Prod.fst, '\r' ∉ name := by simp [names]
  rw [(toList_printAt_name hmem level).1]
  exact hall name (List.mem_map_of_mem hmem)

/-- **A document has no carriage returns.** -/
theorem notMem_printAt {n : Nat} {value : Datum} (h : Kept n value) (level : Nat) :
    '\r' ∉ (printAt level value).toList := by
  have hgap : ∀ level, '\r' ∉ gap level := fun level => by simp [gap]
  induction h generalizing level with
  | null => exact notMem_name (by simp [names]) level
  | bool value => cases value <;> exact notMem_name (by simp [names]) level
  | @int _ value _ =>
    change '\r' ∉ (toString value).toList
    rw [toList_toString_int, List.mem_append, not_or]
    exact ⟨by cases decide (value < 0) <;> decide, notMem_of_isDigit fun c => isDigit_toDigits⟩
  | @float _ value hnan =>
    obtain ⟨negative, rfl⟩ | ⟨negative, mantissa, exponent, hparts, htext⟩ := number_cases hnan
    · cases negative <;> exact notMem_name (by simp [names]) level
    · change '\r' ∉ (number value).toList
      rw [htext]
      exact notMem_number (isDecimal_format hparts).1
  | nan => exact notMem_name (by simp [names]) level
  | text htext =>
    obtain ⟨codes, hproper, -, hprint, -⟩ := printAt_isText htext level
    rw [hprint]
    exact notMem_codesString hproper
  | @list _ items _ ih =>
    cases items with
    | nil => simp [(toList_printAt_nil level).1]
    | cons item items =>
      have hlines : '\r' ∉ itemLines level (item :: items) := by
        refine notMem_linesChars level fun line hline => ?_
        obtain ⟨other, hother, rfl⟩ := List.mem_map.mp hline
        exact ih other hother (level + 1)
      rw [toList_printAt_list level (List.cons_ne_nil item items)]
      simp [hgap, hlines]
  | @map _ entries hnames _ _ ih =>
    cases entries with
    | nil => simp [(toList_printAt_nil level).2]
    | cons entry entries =>
      have hlines : '\r' ∉ entryLines level (entry :: entries) := by
        refine notMem_linesChars level fun line hline => ?_
        obtain ⟨other, hother, rfl⟩ := List.mem_map.mp hline
        obtain ⟨codes, hproper, -, -, hkey⟩ := printAt_isText (hnames other hother) level
        rw [entryChars, hkey]
        simp [notMem_codesString hproper, ih other hother (level + 1)]
      rw [toList_printAt_map level (List.cons_ne_nil entry entries)]
      simp [hgap, hlines]

end ProgramArt.Json

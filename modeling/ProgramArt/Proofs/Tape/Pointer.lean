import ProgramArt.Host.Standard
import ProgramArt.Proofs.Decimal.ReadBack
import ProgramArt.Proofs.Tape.Effects
import ProgramArt.Proofs.Tape.Invariant
import ProgramArt.Proofs.Text.Columns
import ProgramArt.Tape.Narration

/-!
# The pointer in a narration

A narration shows a window of the tape around the pointer after every step, with a mark in the line above the
addresses. The window is moved where the tape ends, but it always holds the pointer (`window_fits`), so there is
always one mark, in the field that belongs to the address of the pointer. The fields have room for four digits. Where
addresses are longer, those before the pointer push its address to the right, by `Window.overhang`, and the mark stays
behind above another one.
-/

namespace ProgramArt.Tape

open Text

/-! ## The window -/

/-- A window as it should be: it lies on the tape and holds the pointer, and it is as wide as the range, unless
the tape is shorter. -/
structure Window.Fits (w : Window) (size : Nat) (ptr range : Int) : Prop where
  nonneg : 0 ≤ w.first
  first_le : w.first ≤ ptr
  lt_last : ptr < w.last
  last_le : w.last ≤ size
  width : w.last - w.first = min range size

/-- **The window around a pointer of the tape holds the pointer,** at both ends of the tape and for every range. -/
theorem window_fits {size : Nat} {ptr range : Int} (hnonneg : 0 ≤ ptr) (hlt : ptr < size) (hrange : 1 ≤ range) :
    (window size ptr range).Fits size ptr range := by
  -- a range of one cell or more is not used up before the pointer
  have hhalf : 0 ≤ range.fdiv 2 ∧ range.fdiv 2 < range := by
    rw [Int.fdiv_eq_ediv_of_nonneg _ (by decide)]
    omega
  unfold window
  dsimp only
  split <;> constructor <;> dsimp only <;> omega

/-- The addresses of a window before and after one of them. -/
theorem Window.addresses_eq {w : Window} {ptr : Int} (hfirst : w.first ≤ ptr) (hlast : ptr < w.last) :
    ∃ before after, w.addresses = before ++ ptr :: after ∧ (∀ address ∈ before, address < ptr)
      ∧ ∀ address ∈ after, ptr < address := by
  obtain ⟨k, hk⟩ : ∃ k : Nat, ptr = w.first + k := ⟨(ptr - w.first).toNat, by omega⟩
  obtain ⟨m, hm⟩ : ∃ m, (w.last - w.first).toNat = k + (m + 1) := ⟨(w.last - w.first).toNat - k - 1, by omega⟩
  refine ⟨(List.range k).map fun (i : Nat) => w.first + (i : Int),
    (List.range m).map fun (i : Nat) => w.first + ((k + (i + 1) : Nat) : Int), ?_, ?_, ?_⟩
  · rw [Window.addresses, hm, List.range_add, List.map_append, List.range_succ_eq_map, hk]
    simp [Function.comp_def]
  · intro address haddress
    obtain ⟨i, hi, rfl⟩ := List.mem_map.mp haddress
    have hlt := List.mem_range.mp hi
    omega
  · intro address haddress
    obtain ⟨i, _, rfl⟩ := List.mem_map.mp haddress
    omega

/-! ## Numerals -/

/-- The characters of a number. -/
def numeral (n : Int) : List Char := (toString n).toList

theorem notMem_numeral {c : Char} (hdigit : c.isDigit = false) (hminus : c ≠ '-') (n : Int) : c ∉ numeral n := by
  rw [numeral, Decimal.toList_toString_int, List.mem_append, not_or]
  refine ⟨?_, ?_⟩
  · cases decide (n < 0) with
    | true => simpa [Decimal.signChars] using hminus
    | false => simp [Decimal.signChars]
  · intro h
    rw [Decimal.isDigit_toDigits h] at hdigit
    cases hdigit

theorem isWord_numeral (n : Int) : ' ' ∉ numeral n ∧ numeral n ≠ [] := by
  refine ⟨notMem_numeral rfl (by decide) n, ?_⟩
  rw [numeral, Decimal.toList_toString_int]
  simp

/-- Below ten thousand a number has four digits at most. -/
theorem length_numeral_le {n : Int} (hnonneg : 0 ≤ n) (hlt : n < 10000) : (numeral n).length ≤ 4 := by
  rw [numeral, Decimal.toList_toString_int, decide_eq_false (by omega)]
  change (Nat.toDigits 10 n.natAbs).length ≤ 4
  rw [Nat.length_toDigits_le_iff (by decide) (by decide)]
  omega

namespace Window

/-- How many digits the addresses before the pointer have beyond the four that their fields have room for. -/
def overhang (w : Window) (ptr : Int) : Nat :=
  excess 4 ((w.addresses.filter (· < ptr)).map numeral)

theorem overhang_eq {w : Window} {ptr : Int} {before after : List Int} (hsplit : w.addresses = before ++ ptr :: after)
    (hbefore : ∀ address ∈ before, address < ptr) (hafter : ∀ address ∈ after, ptr < address) :
    w.overhang ptr = excess 4 (before.map numeral) := by
  have hkept : before.filter (· < ptr) = before := by
    rw [List.filter_eq_self]
    intro address haddress
    exact decide_eq_true (hbefore address haddress)
  have hgone : (ptr :: after).filter (· < ptr) = [] := by
    rw [List.filter_eq_nil_iff]
    intro address haddress
    rcases List.mem_cons.mp haddress with rfl | haddress
    · simp
    · simpa using Int.le_of_lt (hafter address haddress)
  rw [overhang, hsplit, List.filter_append, hkept, hgone, List.append_nil]

/-- Up to ten thousand no address is too long for its field. -/
theorem overhang_of_le {w : Window} {ptr : Int} (hfirst : 0 ≤ w.first) (hptr : ptr ≤ 10000) : w.overhang ptr = 0 := by
  apply excess_eq_zero
  intro word hword
  obtain ⟨address, haddress, rfl⟩ := List.mem_map.mp hword
  obtain ⟨hmem, hbefore⟩ := List.mem_filter.mp haddress
  obtain ⟨i, _, rfl⟩ := List.mem_map.mp hmem
  have hlt : w.first + i < ptr := of_decide_eq_true hbefore
  exact length_numeral_le (by omega) (by omega)

end Window

/-! ## Two lines -/

/-- The field of an address in the line of the pointer. -/
def markField (ptr address : Int) : String := if address = ptr then "  ^ " else "    "

/-- The line that marks the pointer. -/
def markLine (ptr : Int) (addresses : List Int) : String :=
  "Pointer:   " ++ String.intercalate " " (addresses.map (markField ptr))

/-- The line of the addresses. -/
def addressLine (addresses : List Int) : String :=
  "Address:   " ++ String.intercalate " " (addresses.map fun address => padLeft 4 (toString address))

theorem length_markField (ptr address : Int) : (markField ptr address).toList.length = 4 := by
  unfold markField
  split <;> rfl

theorem toList_markLine (ptr : Int) {addresses : List Int} (hne : addresses ≠ []) :
    (markLine ptr addresses).toList
      = "Pointer:  ".toList ++ row 4 (addresses.map fun address => (markField ptr address).toList) := by
  rw [← cons_intercalate (by simpa using hne), markLine, String.toList_append, String.toList_intercalate, List.map_map]
  · rfl
  · intro field hfield
    obtain ⟨address, _, rfl⟩ := List.mem_map.mp hfield
    rw [length_markField]

theorem toList_addressLine {addresses : List Int} (hne : addresses ≠ []) :
    (addressLine addresses).toList = "Address:  ".toList ++ row 4 (addresses.map numeral) := by
  have hpadded := row_padLeft 4 (addresses.map fun address => toString address)
  rw [List.map_map, List.map_map] at hpadded
  change _ = row 4 (addresses.map numeral) at hpadded
  rw [← hpadded, ← cons_intercalate (by simpa using hne), addressLine, String.toList_append, String.toList_intercalate,
    List.map_map]
  · rfl
  · intro field hfield
    obtain ⟨address, _, rfl⟩ := List.mem_map.mp hfield
    exact le_length_padLeft 4 _

theorem map_markField {ptr : Int} {before after : List Int} (hbefore : ptr ∉ before) (hafter : ptr ∉ after) :
    (before ++ ptr :: after).map (markField ptr)
      = before.map (fun _ => "    ") ++ "  ^ " :: after.map fun _ => "    " := by
  have hblank {addresses : List Int} (h : ptr ∉ addresses) :
      addresses.map (markField ptr) = addresses.map fun _ => "    " :=
    List.map_congr_left fun address haddress => if_neg (ne_of_mem_of_not_mem haddress h)
  rw [List.map_append, List.map_cons, hblank hbefore, hblank hafter, markField, if_pos rfl]

/-- The fields of other addresses have no mark. -/
theorem idxsOf_row_markField {ptr : Int} {addresses : List Int} (h : ptr ∉ addresses) (start : Nat) :
    (row 4 (addresses.map fun address => (markField ptr address).toList)).idxsOf '^' start = [] := by
  apply idxsOf_of_notMem
  intro hmark
  obtain ⟨field, hfield, hmem⟩ := (mem_row (by decide)).mp hmark
  obtain ⟨address, haddress, rfl⟩ := List.mem_map.mp hfield
  rw [markField, if_neg (ne_of_mem_of_not_mem haddress h)] at hmem
  exact absurd hmem (by decide)

/-- **The pointer is marked once:** behind the head of the line and the fields of the addresses before it. -/
theorem idxsOf_markLine {ptr : Int} {before after : List Int} (hbefore : ptr ∉ before) (hafter : ptr ∉ after) :
    (markLine ptr (before ++ ptr :: after)).toList.idxsOf '^' = [13 + 5 * before.length] := by
  let fields (addresses : List Int) := row 4 (addresses.map fun address => (markField ptr address).toList)
  have hmark : List.replicate (1 + (4 - (markField ptr ptr).toList.length)) ' ' ++ (markField ptr ptr).toList
      = "   ^ ".toList := by
    simp [markField]
  have hline : (markLine ptr (before ++ ptr :: after)).toList
      = "Pointer:  ".toList ++ fields before ++ "   ^ ".toList ++ fields after := by
    rw [toList_markLine ptr (by simp), List.map_append, List.map_cons, row_append, row_cons, ← hmark]
    simp only [List.append_assoc, fields]
  have hlength : ("Pointer:  ".toList ++ fields before).length = 10 + 5 * before.length := by
    have hexcess : excess 4 (before.map fun address => (markField ptr address).toList) = 0 := by
      apply excess_eq_zero
      intro field hfield
      obtain ⟨address, _, rfl⟩ := List.mem_map.mp hfield
      rw [length_markField]
    rw [List.length_append, length_row, hexcess, List.length_map]
    rfl
  rw [hline, List.idxsOf_append, List.idxsOf_append, List.idxsOf_append, idxsOf_row_markField hbefore,
    idxsOf_row_markField hafter, hlength, List.append_nil, List.append_nil]
  show [0 + (10 + 5 * before.length) + 1 + 1 + 1] = [13 + 5 * before.length]
  congr 1
  omega

/-- **What is found below the mark:** the address of the pointer, unless the addresses before it are too long for their
fields by more than three digits. Then the mark stands above one of these. -/
theorem wordAt_addressLine {ptr : Int} {before : List Int} (hbefore : ∀ address ∈ before, address < ptr)
    (after : List Int) :
    ∃ address ∈ before ++ ptr :: after,
      wordAt (addressLine (before ++ ptr :: after)).toList (13 + 5 * before.length) = numeral address
      ∧ (address = ptr ↔ excess 4 (before.map numeral) ≤ 3) := by
  have hlength : ("Address:  ".toList ++ row 4 (before.map numeral)).length
      = 10 + 5 * before.length + excess 4 (before.map numeral) := by
    rw [List.length_append, length_row, List.length_map, Nat.add_assoc]
    rfl
  rw [toList_addressLine (by simp), List.map_append, List.map_cons]
  by_cases hroom : excess 4 (before.map numeral) ≤ 3
  · obtain ⟨hblank, hne⟩ := isWord_numeral ptr
    exact ⟨ptr, by simp, wordAt_row hblank hne (by omega) (by omega), iff_of_true rfl hroom⟩
  · -- the mark is still in the columns of the addresses before that of the pointer
    have hwords : ∀ word ∈ before.map numeral, ' ' ∉ word ∧ word ≠ [] := by
      intro word hword
      obtain ⟨address, _, rfl⟩ := List.mem_map.mp hword
      exact isWord_numeral address
    have hhead : "Address:  ".toList.length ≤ 13 + 5 * before.length := Nat.le_add_right_of_le (by decide)
    have hlt : 13 + 5 * before.length < ("Address:  ".toList ++ row 4 (before.map numeral)).length := by omega
    obtain ⟨word, hword, hat⟩ := exists_wordAt_row _ hwords (numeral ptr :: after.map numeral) hhead hlt
    obtain ⟨address, haddress, rfl⟩ := List.mem_map.mp hword
    exact ⟨address, by simp [haddress], hat, iff_of_false (ne_of_lt (hbefore address haddress)) hroom⟩

/-! ## Texts without the mark -/

/-- The mark does not occur in a text. -/
def Unmarked (text : String) : Prop := '^' ∉ text.toList

instance (text : String) : Decidable (Unmarked text) :=
  inferInstanceAs (Decidable ('^' ∉ text.toList))

@[simp]
theorem unmarked_append {first second : String} : Unmarked (first ++ second) ↔ Unmarked first ∧ Unmarked second := by
  simp [Unmarked]

theorem unmarked_toString (n : Int) : Unmarked (toString n) :=
  notMem_numeral rfl (by decide) n

theorem unmarked_padLeft {text : String} (width : Nat) (h : Unmarked text) : Unmarked (padLeft width text) := by
  unfold Unmarked at h ⊢
  rw [toList_padLeft]
  simp [h]

theorem unmarked_intercalate_map {α : Type} {separator : String} {f : α → String} (hseparator : Unmarked separator)
    (h : ∀ x, Unmarked (f x)) (xs : List α) : Unmarked (String.intercalate separator (xs.map f)) := by
  induction xs with
  | nil => simp [Unmarked]
  | cons x xs ih =>
    cases xs with
    | nil => simpa using h x
    | cons next xs =>
      rw [List.map_cons, List.map_cons, String.intercalate_cons_cons, unmarked_append, unmarked_append]
      exact ⟨⟨h x, hseparator⟩, ih⟩

theorem unmarked_addressLine (addresses : List Int) : Unmarked (addressLine addresses) :=
  unmarked_append.mpr ⟨by decide,
    unmarked_intercalate_map (by decide) (fun address => unmarked_padLeft 4 (unmarked_toString address)) addresses⟩

theorem unmarked_markedProgram (program : Program) (state : State) : Unmarked (markedProgram program state) := by
  unfold markedProgram
  rw [unmarked_append]
  refine ⟨?_, ?_⟩
  · unfold Unmarked
    rw [String.toList_join]
    intro h
    obtain ⟨piece, hpiece, hmem⟩ := List.mem_flatMap.mp h
    obtain ⟨⟨instr, i⟩, _, rfl⟩ := List.mem_map.mp hpiece
    have hinstr : Unmarked instr.toChar.toString := by
      cases instr <;> decide
    revert hmem
    dsimp only
    split
    · exact unmarked_append.mpr ⟨unmarked_append.mpr ⟨by decide, hinstr⟩, by decide⟩
    · exact hinstr
  · split <;> decide

theorem unmarked_outputText (output : Array Int8) : Unmarked (outputText output) := by
  rw [outputText, bracketed, unmarked_append, unmarked_append]
  exact ⟨⟨by decide, unmarked_intercalate_map (by decide) (fun _ => unmarked_toString _) _⟩, by decide⟩

/-! ## States that are shown -/

/-- The mark can occur in one of the lines only. -/
theorem stateLines_eq (program : Program) (range : Int) (state : State) {label : String} (hlabel : Unmarked label) :
    ∃ first second third last, stateLines program range state label
      = [first, second, third, markLine state.ptr (window state.cells.size state.ptr range).addresses,
        addressLine (window state.cells.size state.ptr range).addresses, last]
      ∧ Unmarked first ∧ Unmarked second ∧ Unmarked third ∧ Unmarked last := by
  refine ⟨_, _, _, _, rfl, ?_, ?_, ?_, ?_⟩
  · exact unmarked_append.mpr ⟨unmarked_append.mpr ⟨by decide, hlabel⟩, by decide⟩
  · exact unmarked_append.mpr ⟨by decide, unmarked_markedProgram program state⟩
  · rw [unmarked_append, unmarked_append]
    exact ⟨⟨by decide, unmarked_intercalate_map (by decide) (fun _ => unmarked_padLeft 4 (unmarked_toString _)) _⟩,
      by decide⟩
  · split
    · decide
    · exact unmarked_append.mpr ⟨by decide, unmarked_outputText state.output⟩

/-- A shown state has one mark, and one word is found below it. -/
theorem wordsBelow_stateLines (program : Program) {range : Int} {state : State} {label : String}
    {before after : List Int} (hlabel : Unmarked label)
    (hsplit : (window state.cells.size state.ptr range).addresses = before ++ state.ptr :: after)
    (hbefore : state.ptr ∉ before) (hafter : state.ptr ∉ after) :
    wordsBelow '^' (stateLines program range state label)
      = [String.ofList (wordAt (addressLine (before ++ state.ptr :: after)).toList (13 + 5 * before.length))] := by
  obtain ⟨first, second, third, last, hlines, hfirst, hsecond, hthird, hlast⟩ :=
    stateLines_eq program range state hlabel
  rw [hlines, hsplit, wordsBelow_cons_of_notMem hfirst, wordsBelow_cons_of_notMem hsecond,
    wordsBelow_cons_of_notMem hthird, wordsBelow, idxsOf_markLine hbefore hafter,
    wordsBelow_cons_of_notMem (unmarked_addressLine _), wordsBelow_cons_of_notMem hlast]
  rfl

/-- How the pointer of a state is marked in the lines that show the state. -/
structure State.PointerMarked (state : State) (range : Int) (lines : List String) : Prop where
  /-- One field of the line of the pointer holds the mark. It has the place in its line that the address of the
  pointer has in the next line. -/
  fields : ∃ before after, (window state.cells.size state.ptr range).addresses = before ++ state.ptr :: after
    ∧ state.ptr ∉ before ∧ state.ptr ∉ after
    ∧ ["Pointer:   " ++ String.intercalate " " (before.map (fun _ => "    ") ++ "  ^ " :: after.map fun _ => "    "),
        "Address:   " ++ String.intercalate " "
          ((before ++ state.ptr :: after).map fun address => padLeft 4 (toString address))] <:+: lines
  /-- There is no other mark, and below it stands an address of the window. It is that of the pointer, unless the
  addresses before are too long for their fields by more than three digits. -/
  below : ∃ address ∈ (window state.cells.size state.ptr range).addresses,
    wordsBelow '^' lines = [toString address]
    ∧ (address = state.ptr ↔ (window state.cells.size state.ptr range).overhang state.ptr ≤ 3)

/-- **The pointer of a state that is shown is marked,** if it is in the tape. -/
theorem pointerMarked_stateLines (program : Program) {range : Int} {state : State} {label : String}
    (hlabel : Unmarked label) (hrange : 1 ≤ range) (hnonneg : 0 ≤ state.ptr) (hlt : state.ptr < state.cells.size) :
    state.PointerMarked range (stateLines program range state label) := by
  have hfits := window_fits hnonneg hlt hrange
  obtain ⟨before, after, hsplit, hbefore, hafter⟩ := Window.addresses_eq hfits.first_le hfits.lt_last
  have hbefore' : state.ptr ∉ before := fun h => lt_irrefl _ (hbefore _ h)
  have hafter' : state.ptr ∉ after := fun h => lt_irrefl _ (hafter _ h)
  refine ⟨⟨before, after, hsplit, hbefore', hafter', ?_⟩, ?_⟩
  · obtain ⟨first, second, third, last, hlines, _⟩ := stateLines_eq program range state hlabel
    rw [hlines, hsplit, ← map_markField hbefore' hafter']
    exact ⟨[first, second, third], [last], rfl⟩
  · obtain ⟨address, haddress, hfound, hiff⟩ := wordAt_addressLine hbefore after
    refine ⟨address, hsplit ▸ haddress, ?_, ?_⟩
    · rw [wordsBelow_stateLines program hlabel hsplit hbefore' hafter', hfound, numeral, String.ofList_toList]
    · rw [hiff, Window.overhang_eq hsplit hbefore hafter]

/-! ## Narrations -/

/-- What a state is called that a narration shows after so many steps. -/
def stage : Nat → String
  | 0 => "INITIAL"
  | n + 1 => s!"AFTER STEP {n + 1}"

theorem unmarked_stage (n : Nat) : Unmarked (stage n) := by
  cases n with
  | zero => decide
  | succ n =>
    have hcount : Unmarked (toString (n + 1)) := unmarked_toString ((n + 1 : Nat) : Int)
    exact unmarked_append.mpr ⟨by decide, hcount⟩

variable {program : Program} {range : Int} {state next : State} {input rest : Input}

/-- **A step is told:** it is announced, and the state that it leads to is shown. -/
theorem narrateFrom_of_step [Host] (h : step program state input = (.ok next, rest)) (budget taken : Nat)
    (told : List String) :
    ∃ announced, narrateFrom program range (budget + 1) taken state input told
      = narrateFrom program range budget (taken + 1) next rest
          ((stateLines program range next (stage (taken + 1))).reverse ++ (announced ++ told)) := by
  cases hcurrent : state.current? program with
  | none =>
    obtain ⟨error, hstep, _⟩ := step_of_current?_eq_none hcurrent input
    rw [hstep] at h
    cases h
  | some instr =>
    rw [narrateFrom, hcurrent]
    dsimp only
    rw [h]
    exact ⟨[_, _], rfl⟩

/-- What has been told stays at the head of what is told. -/
theorem told_prefix_narrateFrom [Host] (budget taken : Nat) (state : State) (input : Input) (told : List String) :
    told.reverse <+: (narrateFrom program range budget taken state input told).lines := by
  induction budget generalizing taken state input told with
  | zero => exact List.prefix_rfl
  | succ budget ih =>
    rcases hstep : step program state input with ⟨fault | next, rest⟩
    · rw [narrateFrom]
      cases state.current? program with
      | none => exact List.prefix_rfl
      | some instr =>
        dsimp only
        rw [hstep]
        exact ⟨_, (List.reverse_cons ..).symm⟩
    · obtain ⟨announced, hnarrate⟩ := narrateFrom_of_step hstep budget taken told
      rw [hnarrate]
      refine List.IsPrefix.trans ?_ (ih _ _ _ _)
      simp

theorem exists_step_of_steps [Host] {n : Nat} {final : State × Input}
    (h : steps program (n + 1) (state, input) = some final) :
    ∃ next rest, step program state input = (.ok next, rest) ∧ steps program n (next, rest) = some final := by
  rcases hstep : step program state input with ⟨fault | next, rest⟩
  · rw [steps_succ_of_fault hstep] at h
    cases h
  · rw [steps, hstep] at h
    exact ⟨next, rest, rfl, h⟩

/-- **Every state that is reached is shown,** if the one that the narration begins with has been. Induction on the
steps: the first one shows the state that the others begin with. -/
theorem shown_narrateFrom [Host] {n budget taken : Nat} {told : List String} {final : State × Input} (hle : n ≤ budget)
    (hsteps : steps program n (state, input) = some final)
    (htold : stateLines program range state (stage taken) <:+: told.reverse) :
    stateLines program range final.1 (stage (taken + n))
      <:+: (narrateFrom program range budget taken state input told).lines := by
  induction n generalizing budget taken state input told with
  | zero =>
    injection hsteps with hsteps
    subst hsteps
    exact htold.trans (told_prefix_narrateFrom _ _ _ _ _).isInfix
  | succ n ih =>
    obtain ⟨budget, rfl⟩ := Nat.exists_eq_add_of_le' (Nat.le_trans (Nat.le_add_left 1 n) hle)
    obtain ⟨next, rest, hstep, hlater⟩ := exists_step_of_steps hsteps
    obtain ⟨announced, hnarrate⟩ := narrateFrom_of_step hstep budget taken told
    rw [hnarrate, Nat.add_left_comm, Nat.add_comm n]
    refine ih (Nat.le_of_succ_le_succ hle) hlater ?_
    rw [List.reverse_append, List.reverse_reverse]
    exact (List.suffix_append _ _).isInfix

/-- The steps of a narration that did not fail: all that were begun, or all but the last. -/
def Narration.completed (narration : Narration) : Nat :=
  match narration.result with
  | .ok _ => narration.steps
  | .error _ => narration.steps - 1

/-- **A narration completes the steps that the machine takes,** as far as its budget goes. Induction on the budget; a
step that fails ends both. -/
theorem le_completed_narrateFrom_iff [Host] (program : Program) (range : Int) (budget taken k : Nat) (state : State)
    (input : Input) (told : List String) :
    taken + k ≤ (narrateFrom program range budget taken state input told).completed
      ↔ k ≤ budget ∧ (steps program k (state, input)).isSome = true := by
  induction budget generalizing taken k state input told with
  | zero =>
    cases k with
    | zero => simp [narrateFrom, Narration.completed, steps]
    | succ k => simp [narrateFrom, Narration.completed]
  | succ budget ih =>
    rcases hstep : step program state input with ⟨fault | next, rest⟩
    · have hcompleted : (narrateFrom program range (budget + 1) taken state input told).completed = taken := by
        rw [narrateFrom]
        cases state.current? program with
        | none => rfl
        | some instr =>
          dsimp only
          rw [hstep]
          rfl
      rw [hcompleted]
      cases k with
      | zero => simp [steps]
      | succ k =>
        have hnone : steps program (k + 1) (state, input) = none := steps_succ_of_fault hstep k
        simp [hnone]
    · obtain ⟨announced, hnarrate⟩ := narrateFrom_of_step hstep budget taken told
      rw [hnarrate]
      generalize _ ++ (announced ++ told) = told
      cases k with
      | zero =>
        have hfirst := (ih (taken + 1) 0 next rest told).mpr ⟨Nat.zero_le _, rfl⟩
        exact iff_of_true (Nat.le_of_succ_le hfirst) ⟨Nat.zero_le _, rfl⟩
      | succ k =>
        rw [steps, hstep, Nat.add_le_add_iff_right, Nat.add_comm k 1, ← Nat.add_assoc]
        exact ih (taken + 1) k next rest told

/-- A narration on a fresh tape is told from the blank state on, which has been shown. -/
theorem narrate_of_fresh [Host] {policy : Policy} (hfresh : State.fresh policy = .ok (State.blank policy))
    (program : Program) (range : Int) (text : String) (budget : Nat) (limit : String) :
    ∃ told, stateLines program range (State.blank policy) (stage 0) <:+: told.reverse
      ∧ (narrateFrom program range budget 0 (State.blank policy) (Input.finite text) told).lines
        <+: (narrate program policy range text budget limit).lines
      ∧ (narrate program policy range text budget limit).completed
        = (narrateFrom program range budget 0 (State.blank policy) (Input.finite text) told).completed := by
  unfold narrate
  rw [hfresh]
  dsimp only
  generalize [_, _, _, _] = header
  refine ⟨(header ++ stateLines program range (State.blank policy) "INITIAL").reverse, ?_, ?_, ?_⟩
  · rw [List.reverse_reverse]
    exact (List.suffix_append _ _).isInfix
  · split
    · exact List.prefix_rfl
    · dsimp only
      rw [List.append_assoc]
      exact List.prefix_append _ _
  · split <;> rfl

theorem sound_of_steps [Host] {policy : Policy} (hpos : policy.Positive) {n : Nat}
    (hsteps : steps program n (State.blank policy, input) = some (state, rest)) : state.Sound := by
  have hstart : (Store.ofState (State.blank policy) input).place policy 0 = (State.blank policy, input) :=
    Store.place_ofState rfl (Int.le_refl 0) input
  rw [← hstart] at hsteps
  obtain ⟨store, pc, hplace, _, hin, _⟩ :=
    steps_inTape hpos (Store.inTape_ofState (sound_blank hpos) input) (Nat.zero_le _) hsteps
  injection hplace with hstate
  rw [hstate]
  exact Store.sound_place hpos hin pc

/-- **A narration marks the pointer after every step.** The window that is shown of a tape lies on it, holds the pointer
and has as many cells as the range asks for, or all of them. So wherever a state with its pointer in the tape is shown,
there is one mark, in the field that belongs to the address of the pointer. The mark also stands above that address as
the lines are printed, if the addresses before it fit into their fields but for three digits at most, and only then;
up to address ten thousand they always do. From a fresh tape on, the pointer is in the tape after every step, and a
narration shows every state. -/
theorem narrate_marks_pointer [Host] (program : Program) {policy : Policy} (hpos : policy.Positive) {range : Int}
    (hrange : 1 ≤ range) :
    (∀ (size : Nat) (ptr : Int), 0 ≤ ptr → ptr < size → (window size ptr range).Fits size ptr range)
    ∧ (∀ (state : State) (label : String), 0 ≤ state.ptr → state.ptr < state.cells.size → Unmarked label →
      state.PointerMarked range (stateLines program range state label)
      ∧ (state.ptr ≤ 10000 → wordsBelow '^' (stateLines program range state label) = [toString state.ptr]))
    ∧ (State.fresh policy = .ok (State.blank policy)
      ∨ ∃ modulus e, policy = .ring modulus ∧ cellCount modulus = .error e
        ∧ State.fresh policy = .error (.room e))
    ∧ (State.fresh policy = .ok (State.blank policy) → ∀ (text : String) (budget : Nat) (limit : String) (n : Nat),
      (n ≤ (narrate program policy range text budget limit).completed
        ↔ n ≤ budget ∧ (steps program n (State.blank policy, Input.finite text)).isSome = true)
      ∧ (n ≤ (narrate program policy range text budget limit).completed → ∃ (state : State) (rest : Input),
        steps program n (State.blank policy, Input.finite text) = some (state, rest)
        ∧ 0 ≤ state.ptr ∧ state.ptr < state.cells.size
        ∧ stateLines program range state (stage n) <:+: (narrate program policy range text budget limit).lines
        ∧ state.PointerMarked range (stateLines program range state (stage n)))) := by
  refine ⟨fun size ptr hnonneg hlt => window_fits hnonneg hlt hrange, ?_, fresh_eq_blank hpos, ?_⟩
  · intro state label hnonneg hlt hlabel
    have hmarked := pointerMarked_stateLines program hlabel hrange hnonneg hlt
    refine ⟨hmarked, ?_⟩
    intro hptr
    obtain ⟨address, _, hbelow, hiff⟩ := hmarked.below
    -- all addresses before the pointer have at most four digits
    have hover := Window.overhang_of_le (window_fits hnonneg hlt hrange).nonneg hptr
    rw [hbelow, hiff.mpr (by omega)]
  · intro hfresh text budget limit n
    obtain ⟨told, htold, hprefix, hcompleted⟩ := narrate_of_fresh hfresh program range text budget limit
    have hiff := le_completed_narrateFrom_iff program range budget 0 n (State.blank policy) (Input.finite text) told
    rw [← hcompleted, Nat.zero_add] at hiff
    refine ⟨hiff, ?_⟩
    intro hle
    obtain ⟨hbudget, hsome⟩ := hiff.mp hle
    obtain ⟨⟨state, rest⟩, hsteps⟩ := Option.isSome_iff_exists.mp hsome
    have hsound := sound_of_steps hpos hsteps
    have hshown := shown_narrateFrom hbudget hsteps htold
    rw [Nat.zero_add] at hshown
    exact ⟨state, rest, hsteps, hsound.nonneg, hsound.lt, hshown.trans hprefix.isInfix,
      pointerMarked_stateLines program (unmarked_stage n) hrange hsound.nonneg hsound.lt⟩

open scoped Host in
/-- On a ring of three cells a step to the left leads to the last of them, and a window of two cells ends there. -/
theorem narrate_marks_pointer_last :
    Policy.Positive (.ring 3) ∧ (1 : Int) ≤ 2 ∧ State.fresh (.ring 3) = .ok (State.blank (.ring 3))
      ∧ (window 3 2 2).Fits 3 2 2
      ∧ ∃ (program : Program) (state : State), program.instrs = #[.left]
        ∧ steps program 1 (State.blank (.ring 3), Input.finite "") = some (state, Input.finite "")
        ∧ 1 ≤ (narrate program (.ring 3) 2 "" 100 "100").completed
        ∧ state.ptr = 2 ∧ state.ptr < state.cells.size ∧ Unmarked (stage 1)
        ∧ stateLines program 2 state (stage 1) <:+: (narrate program (.ring 3) 2 "" 100 "100").lines
        ∧ wordsBelow '^' (stateLines program 2 state (stage 1)) = ["2"] := by
  let program : Program := ⟨#[.left], #[none], rfl⟩
  let state : State := { pc := 1, ptr := 2, cells := #[0, 0, 0], policy := .ring 3 }
  have hpos : Policy.Positive (.ring 3) := by decide
  have hfresh : State.fresh (.ring 3) = .ok (State.blank (.ring 3)) := rfl
  have hsteps : steps program 1 (State.blank (.ring 3), Input.finite "") = some (state, Input.finite "") := by
    decide +kernel
  obtain ⟨hwindow, hmarked, _, htold⟩ := narrate_marks_pointer program hpos (show (1 : Int) ≤ 2 by decide)
  obtain ⟨hcompleted, hshown⟩ := htold hfresh "" 100 "100" 1
  have hle := hcompleted.mpr ⟨by decide, by rw [hsteps]; rfl⟩
  obtain ⟨reached, rest, hreached, _, hlt, hinfix, _⟩ := hshown hle
  rw [hsteps] at hreached
  cases hreached
  obtain ⟨_, hbelow⟩ := hmarked state (stage 1) (by decide) hlt (by decide)
  exact ⟨hpos, by decide, hfresh, hwindow 3 2 (by decide) (by decide), program, state, rfl, hsteps, hle, rfl, hlt,
    by decide, hinfix, hbelow (by decide)⟩

open scoped Host in
/-- On a ring of thirty thousand cells the addresses have five digits. Two steps to the left lead to cell 29998, but the
mark stands above the address 29997. -/
theorem narrate_marks_other_address :
    ∃ (program : Program) (state : State), program.instrs = #[.left, .left]
      ∧ State.fresh (.ring 30000) = .ok (State.blank (.ring 30000))
      ∧ steps program 2 (State.blank (.ring 30000), Input.finite "") = some (state, Input.finite "")
      ∧ state.ptr = 29998 ∧ state.cells.size = 30000
      ∧ stateLines program 10 state (stage 2) <:+: (narrate program (.ring 30000) 10 "" 100 "100").lines
      ∧ wordsBelow '^' (stateLines program 10 state (stage 2)) = ["29997"] := by
  let program : Program := ⟨#[.left, .left], #[none, none], rfl⟩
  let state : State := { State.blank (.ring 30000) with pc := 2, ptr := 29998 }
  have hfresh : State.fresh (.ring 30000) = .ok (State.blank (.ring 30000)) := rfl
  have hsteps : steps program 2 (State.blank (.ring 30000), Input.finite "") = some (state, Input.finite "") := rfl
  have hsize : state.cells.size = 30000 := Array.size_replicate
  obtain ⟨told, htold, hprefix, _⟩ := narrate_of_fresh hfresh program 10 "" 100 "100"
  have hshown := shown_narrateFrom (show 2 ≤ 100 by decide) hsteps htold
  have hsplit : (window state.cells.size state.ptr 10).addresses
      = [29990, 29991, 29992, 29993, 29994, 29995, 29996, 29997] ++ 29998 :: [29999] := by
    rw [hsize]
    decide
  refine ⟨program, state, rfl, hfresh, hsteps, rfl, hsize, hshown.trans hprefix.isInfix, ?_⟩
  rw [wordsBelow_stateLines program (by decide) hsplit (by decide) (by decide)]
  decide +kernel

end ProgramArt.Tape

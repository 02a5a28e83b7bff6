import ProgramArt.Host.Standard
import ProgramArt.Proofs.Tape.Endless
import ProgramArt.Proofs.Tape.Records

/-!
# The machine gives back what it reads

The program `,[.,]` writes what it reads up to the first zero. A text is read as signed bytes and the output is shown
as unsigned ones, so what is shown are the bytes of the text again: the two codings are inverse.

The program stays on the first cell. How far it has come is therefore said by two numbers, the values that it has read
and those that it has written, and both are fixed by the number of steps: `Echoes`. On a source with a zero it halts
(`run_echo_of_zero`), and on one without it echoes forever (`run_echo_endless`).
-/

namespace ProgramArt.Tape

variable {σ : Type} [Source σ]

/-! ## Readings of a source -/

namespace Source

/-- What is left of a source when `n` values are taken from it. -/
def drop : (n : Nat) → σ → σ
  | 0, input => input
  | n + 1, input => (next (drop n input)).2

/-- What is stored by the reading that comes after `n` others. A source that has run dry reads as zero. -/
def cellAt (input : σ) (n : Nat) : Int8 :=
  Int8.ofInt ((next (drop n input)).1.getD 0)

/-- What the last of some readings has stored in a cell that was blank before. -/
def lastCell (input : σ) : (reads : Nat) → Int8
  | 0 => 0
  | n + 1 => cellAt input n

end Source

open Source (cellAt lastCell)

/-! ## The program -/

/-- The program `,[.,]`. -/
def echo : Program where
  instrs := #[.read, .enter, .write, .read, .leave]
  jumps := #[none, some 4, none, none, some 1]
  jumps_eq := rfl

theorem parse_echo : Program.parse ",[.,]" = .ok echo := rfl

/-- A tape that was fresh, when the echo has read and written so many values. -/
def echoStore (policy : Policy) (input : σ) (reads writes : Nat) : Store σ where
  cells := (Array.replicate (State.freshSize policy) 0).setIfInBounds 0 (lastCell input reads)
  ptr := 0
  output := ((List.range writes).map (cellAt input)).toArray
  input := Source.drop reads input

section Steps

variable {policy : Policy} {start : State} {input : σ} {reads writes : Nat}

theorem freshSize_pos [Host] (hfresh : State.fresh policy = .ok start) : 0 < State.freshSize policy := by
  cases policy with
  | grow chunk => exact Nat.succ_pos _
  | ring modulus =>
    have hpos : ¬ modulus ≤ 0 := by
      intro hle
      rw [State.fresh, if_pos hle] at hfresh
      cases hfresh
    show 0 < modulus.toNat
    omega

theorem inTape_echoStore [Host] (hfresh : State.fresh policy = .ok start) (input : σ) (reads writes : Nat) :
    (echoStore policy input reads writes).InTape policy := by
  have hpos := freshSize_pos hfresh
  refine ⟨?_, ?_⟩
  · simpa [echoStore] using hpos
  · rintro modulus rfl
    simp only [echoStore, Array.size_setIfInBounds, Array.size_replicate]
    simp only [State.freshSize] at hpos ⊢
    omega

theorem cell_echoStore [Host] (hfresh : State.fresh policy = .ok start) :
    (echoStore policy input reads writes).cell = lastCell input reads := by
  simp [Store.cell, echoStore, freshSize_pos hfresh]

theorem read_echoStore [Host] :
    Action.read.apply policy (echoStore policy input reads writes)
      = .ok (echoStore policy input (reads + 1) writes) := by
  simp [Action.apply, echoStore, Store.put, Source.drop, lastCell, cellAt]

/-- A value is written as it was read. -/
theorem write_echoStore [Host] (hfresh : State.fresh policy = .ok start) {k : Nat} :
    Action.write.apply policy (echoStore policy input (k + 1) k)
      = .ok (echoStore policy input (k + 1) (k + 1)) := by
  rw [Action.apply, cell_echoStore hfresh]
  simp [echoStore, lastCell, List.range_succ]

theorem place_echoStore_zero (policy : Policy) (input : σ) :
    (echoStore policy input 0 0).place policy 0 = (State.blank policy, input) := by
  have hcells : (Array.replicate (State.freshSize policy) (0 : Int8)).setIfInBounds 0 0
      = Array.replicate (State.freshSize policy) 0 := by
    apply Array.ext_getElem?
    intro i
    simp only [Array.getElem?_setIfInBounds, Array.getElem?_replicate, Array.size_replicate]
    split
    · rename_i hzero
      subst hzero
      rfl
    · rfl
  simp [Store.place, echoStore, State.blank, lastCell, Source.drop, hcells]

/-! ## Where the program stands -/

/-- After `time` steps the echo is about to execute the instruction at `pc`, with so many values read and written.
The constructors are the places of the program. In the loop all values that were written, or are about to be, are
not zero. -/
inductive Echoes (input : σ) : (time pc reads writes : Nat) → Prop where
  /-- Before the first reading. -/
  | start : Echoes input 0 0 0 0
  /-- Before the opening bracket. -/
  | entering : Echoes input 1 1 1 0
  /-- In the loop, before a value is written. -/
  | writing {k : Nat} (h : ∀ j ≤ k, cellAt input j ≠ 0) : Echoes input (3 * k + 2) 2 (k + 1) k
  /-- In the loop, before a value is read. -/
  | reading {k : Nat} (h : ∀ j ≤ k, cellAt input j ≠ 0) : Echoes input (3 * k + 3) 3 (k + 1) (k + 1)
  /-- Before the closing bracket. -/
  | leaving {k : Nat} (h : ∀ j ≤ k, cellAt input j ≠ 0) : Echoes input (3 * k + 4) 4 (k + 2) (k + 1)
  /-- Behind the loop, since a zero has been read. -/
  | done {k : Nat} (h : ∀ j < k, cellAt input j ≠ 0) (hzero : cellAt input k = 0) :
    Echoes input (3 * k + 2) 5 (k + 1) k

/-- Both brackets go on behind the loop when the last value is zero, else into it. -/
theorem Echoes.branch {k : Nat} (h : ∀ j < k, cellAt input j ≠ 0) :
    Echoes input (3 * k + 2) (if cellAt input k = 0 then 5 else 2) (k + 1) k := by
  split
  · rename_i hzero
    exact .done h hzero
  · rename_i hne
    refine .writing ?_
    intro j hj
    rcases Nat.lt_or_eq_of_le hj with hlt | rfl
    · exact h j hlt
    · exact hne

theorem Echoes.pc_le {time pc : Nat} (h : Echoes input time pc reads writes) : pc ≤ 5 := by
  cases h <;> omega

/-- A value is written every third step. -/
theorem Echoes.writes_eq {time pc : Nat} (h : Echoes input time pc reads writes) : writes = time / 3 := by
  cases h <;> omega

/-- **One step of the echo.** -/
theorem Echoes.step [Host] {time pc : Nat} (hfresh : State.fresh policy = .ok start)
    (h : Echoes input time pc reads writes) (hpc : pc < 5) :
    ∃ pc' reads' writes', Echoes input (time + 1) pc' reads' writes'
      ∧ Tape.step echo ((echoStore policy input reads writes).place policy pc).1
          ((echoStore policy input reads writes).place policy pc).2
        = (.ok ((echoStore policy input reads' writes').place policy pc').1,
          (echoStore policy input reads' writes').input) := by
  have hin := inTape_echoStore hfresh input reads writes
  cases h with
  | start => exact ⟨1, _, _, .entering, step_act rfl hin read_echoStore⟩
  | entering =>
    have hjump : echo.partner? (1 : Nat) = some 4 := rfl
    have hstep := step_enter rfl hin hjump
    rw [cell_echoStore hfresh] at hstep
    exact ⟨_, _, _, .branch (fun j hj => absurd hj (Nat.not_lt_zero j)), hstep⟩
  | writing hne => exact ⟨3, _, _, .reading hne, step_act rfl hin (write_echoStore hfresh)⟩
  | reading hne => exact ⟨4, _, _, .leaving hne, step_act rfl hin read_echoStore⟩
  | leaving hne =>
    have hjump : echo.partner? (4 : Nat) = some 1 := rfl
    have hstep := step_leave rfl hin hjump
    rw [cell_echoStore hfresh] at hstep
    exact ⟨_, _, _, .branch (fun j hj => hne j (Nat.le_of_lt_succ hj)), hstep⟩
  | done => exact absurd hpc (Nat.lt_irrefl 5)

/-- **Every run of the echo.** It stands where the steps that it has taken lead, and has taken all that it may
unless it is at the end of the program. Induction on the budget, one step at a time. -/
theorem run_echo [Host] (hfresh : State.fresh policy = .ok start) (input : σ) (budget : Nat) :
    ∃ time pc reads writes, Echoes input time pc reads writes ∧ time ≤ budget ∧ (pc < 5 → time = budget)
      ∧ run echo budget start input
        = ⟨((echoStore policy input reads writes).place policy pc).1,
          ((echoStore policy input reads writes).place policy pc).2, time, none⟩ := by
  induction budget with
  | zero =>
    refine ⟨0, 0, 0, 0, .start, Nat.le_refl 0, fun _ => rfl, ?_⟩
    rw [fresh_eq_ok hfresh, place_echoStore_zero]
    rfl
  | succ budget ih =>
    obtain ⟨time, pc, reads, writes, hechoes, hle, htime, hrun⟩ := ih
    rw [run_succ, hrun]
    rcases Nat.lt_or_eq_of_le hechoes.pc_le with hlt | rfl
    · obtain ⟨pc', reads', writes', hechoes', hstep⟩ := hechoes.step hfresh hlt
      have hhalted : ((echoStore policy input reads writes).place policy pc).1.halted echo = false :=
        Store.halted_place hlt
      have htaken := htime hlt
      refine ⟨time + 1, pc', reads', writes', hechoes', by omega, fun _ => by omega, ?_⟩
      rw [Outcome.next, if_neg (by simp [hhalted])]
      simp only [hstep]
      rfl
    · refine ⟨time, 5, reads, writes, hechoes, by omega, fun hpc => absurd hpc (Nat.lt_irrefl 5), ?_⟩
      exact Outcome.next_of_halted (Store.halted_place_size policy _ echo)

/-- A signed byte without its sign has the same bits. -/
theorem ofNat_emod_toInt (cell : Int8) : UInt8.ofNat (cell.toInt % 256).toNat = cell.toUInt8 := by
  refine UInt8.toNat_inj.mp ?_
  have hbits : cell.toInt = (cell.toUInt8.toNat : Int).bmod 256 := cell.toBitVec.toInt_eq_toNat_bmod
  have hbyte := cell.toUInt8.toNat_lt
  have hsame : (cell.toUInt8.toNat : Int).bmod 256 % 256 = cell.toUInt8.toNat % 256 := Int.bmod_emod
  rw [UInt8.toNat_ofNat', hbits, hsame]
  omega

/-- The output shows the values that were written. -/
theorem outputBytes_echoStore (pc : Nat) :
    ((echoStore policy input reads writes).place policy pc).1.outputBytes
      = (List.range writes).map fun j => (cellAt input j).toUInt8 := by
  simp [State.outputBytes, Store.place, echoStore, Cell.toInt, ofNat_emod_toInt]

/-! ## Runs on any source -/

/-- A run has not failed: it has taken `n` steps, has halted or not, and shows these bytes. -/
structure Outcome.Yields (outcome : Outcome σ) (program : Program) (n : Nat) (ended : Bool) (bytes : List UInt8) :
    Prop where
  fault : outcome.fault = none
  steps : outcome.steps = n
  halted : outcome.state.halted program = ended
  shown : outcome.state.outputBytes = bytes

/-- When the first zero is known, so is the end. -/
theorem Echoes.time_of_zero {time pc n : Nat} (h : Echoes input time pc reads writes)
    (hne : ∀ j < n, cellAt input j ≠ 0) (hzero : cellAt input n = 0) :
    pc < 5 ∧ time < 3 * n + 2 ∨ pc = 5 ∧ time = 3 * n + 2 := by
  have hlt {k : Nat} (hk : ∀ j ≤ k, cellAt input j ≠ 0) : k < n :=
    Nat.lt_of_not_le fun hle => hk n hle hzero
  cases h with
  | start | entering => exact .inl (by omega)
  | writing hk | reading hk | leaving hk =>
    have hk := hlt hk
    exact .inl (by omega)
  | done hk hzero' =>
    rcases Nat.lt_trichotomy writes n with hlt | rfl | hlt
    · exact absurd hzero' (hne writes hlt)
    · exact .inr ⟨rfl, rfl⟩
    · exact absurd hzero (hk n hlt)

/-- **A source with a zero.** The echo takes three steps for each value before the zero and two more, and shows a
value for every three of them. -/
theorem run_echo_of_zero [Host] (hfresh : State.fresh policy = .ok start) {n : Nat}
    (hne : ∀ j < n, cellAt input j ≠ 0) (hzero : cellAt input n = 0) (budget : Nat) :
    (run echo budget start input).Yields echo (min budget (3 * n + 2)) (decide (3 * n + 2 ≤ budget))
      ((List.range (min budget (3 * n + 2) / 3)).map fun j => (cellAt input j).toUInt8) := by
  obtain ⟨time, pc, reads, writes, hechoes, hle, htime, hrun⟩ := run_echo hfresh input budget
  obtain rfl := hechoes.writes_eq
  rw [hrun]
  rcases hechoes.time_of_zero hne hzero with ⟨hpc, hlt⟩ | ⟨rfl, rfl⟩
  · obtain rfl := htime hpc
    rw [Nat.min_eq_left (by omega), decide_eq_false (by omega)]
    exact ⟨rfl, rfl, Store.halted_place hpc, outputBytes_echoStore pc⟩
  · rw [Nat.min_eq_right hle, decide_eq_true hle]
    exact ⟨rfl, rfl, Store.halted_place_size policy _ echo, outputBytes_echoStore 5⟩

/-- **A source without a zero.** The echo never halts. -/
theorem run_echo_endless [Host] (hfresh : State.fresh policy = .ok start) (hne : ∀ j, cellAt input j ≠ 0)
    (budget : Nat) :
    (run echo budget start input).Yields echo budget false
      ((List.range (budget / 3)).map fun j => (cellAt input j).toUInt8) := by
  obtain ⟨time, pc, reads, writes, hechoes, hle, htime, hrun⟩ := run_echo hfresh input budget
  have hpc : pc < 5 := by
    cases hechoes with
    | done _ hzero => exact absurd hzero (hne _)
    | start | entering | writing | reading | leaving => decide
  obtain rfl := htime hpc
  obtain rfl := hechoes.writes_eq
  rw [hrun]
  exact ⟨rfl, rfl, Store.halted_place hpc, outputBytes_echoStore pc⟩

end Steps

/-! ## Readings of a text -/

namespace Input

theorem next_ofValues (values : List Int) : Source.next (ofValues values) = (values.head?, ofValues values.tail) := by
  cases values <;> rfl

theorem drop_ofValues (values : List Int) (n : Nat) : Source.drop n (ofValues values) = ofValues (values.drop n) := by
  induction n with
  | zero => rfl
  | succ n ih => rw [Source.drop, ih, next_ofValues, List.tail_drop]

theorem cellAt_ofValues (values : List Int) (n : Nat) :
    cellAt (ofValues values) n = Int8.ofInt (values[n]?.getD 0) := by
  rw [cellAt, drop_ofValues, next_ofValues, List.head?_drop]

/-- What is left of repeated values when `r` of a round are taken. A round is begun only when its first value is
asked for. -/
def inRound (values : List Int) (r : Nat) : Input :=
  ⟨if r = 0 then [] else values.drop r, values⟩

theorem next_inRound {values : List Int} {r : Nat} (h : r < values.length) :
    Source.next (inRound values r) = (values[r]?, inRound values ((r + 1) % values.length)) := by
  have hrest : inRound values ((r + 1) % values.length) = ⟨values.drop (r + 1), values⟩ := by
    by_cases hend : r + 1 = values.length
    · rw [inRound, hend, Nat.mod_self, if_pos rfl, List.drop_length]
    · rw [inRound, Nat.mod_eq_of_lt (by omega), if_neg (Nat.succ_ne_zero r)]
  rw [hrest, inRound]
  split
  · rename_i hzero
    subst hzero
    obtain ⟨value, rest, rfl⟩ := List.exists_cons_of_length_pos h
    rfl
  · rw [List.drop_eq_getElem_cons h, List.getElem?_eq_getElem h]
    rfl

theorem drop_inRound {values : List Int} (h : 0 < values.length) (n : Nat) :
    Source.drop n (inRound values 0) = inRound values (n % values.length) := by
  induction n with
  | zero => rw [Source.drop, Nat.zero_mod]
  | succ n ih => rw [Source.drop, ih, next_inRound (Nat.mod_lt n h), Nat.mod_add_mod]

theorem cellAt_inRound {values : List Int} (h : 0 < values.length) (n : Nat) :
    cellAt (inRound values 0) n = Int8.ofInt (values[n % values.length]?.getD 0) := by
  rw [cellAt, drop_inRound h, next_inRound (Nat.mod_lt n h)]

theorem signedByte_eq_toInt (byte : UInt8) : signedByte byte = byte.toInt8.toInt := by
  have hbits : byte.toInt8.toInt = (byte.toNat : Int).bmod 256 := byte.toBitVec.toInt_eq_toNat_bmod
  have hbyte := byte.toNat_lt
  rw [signedByte, hbits, Int.bmod_def]
  split <;> split <;> omega

/-- A byte of a text is read as the signed byte of the same bits. -/
theorem signedBytes_getElem? (text : String) (n : Nat) :
    Int8.ofInt ((signedBytes text)[n]?.getD 0) = (text.toUTF8.toList[n]?.getD 0).toInt8 := by
  rw [signedBytes, List.getElem?_map]
  cases text.toUTF8.toList[n]? with
  | none => rfl
  | some byte =>
    change Int8.ofInt (signedByte byte) = byte.toInt8
    rw [signedByte_eq_toInt, Int8.ofInt_toInt]

theorem cellAt_finite (text : String) (n : Nat) :
    cellAt (finite text) n = (text.toUTF8.toList[n]?.getD 0).toInt8 := by
  rw [finite, cellAt_ofValues, signedBytes_getElem?]

theorem cellAt_cycle {text : String} (h : text.toUTF8.toList ≠ []) (n : Nat) :
    cellAt (cycle text) n = (text.toUTF8.toList[n % text.toUTF8.toList.length]?.getD 0).toInt8 := by
  have hlength : (signedBytes text).length = text.toUTF8.toList.length := List.length_map _
  have hpos : 0 < (signedBytes text).length := hlength ▸ List.length_pos_iff.mpr h
  rw [← hlength, ← signedBytes_getElem?]
  exact cellAt_inRound hpos n

end Input

/-! ## The bytes of a text -/

/-- A list of bytes is put together from the bytes that are there. -/
theorem mem_toList_loop {bytes : ByteArray} {i : Nat} {taken : List UInt8} {byte : UInt8}
    (h : byte ∈ ByteArray.toList.loop bytes i taken) : byte ∈ taken ∨ byte ∈ bytes.data := by
  fun_induction ByteArray.toList.loop bytes i taken with
  | case1 i taken hlt ih =>
    have hget : bytes.get! i = bytes.data[i] := getElem!_pos bytes.data i hlt
    rcases ih h with htaken | hdata
    · rw [hget, List.mem_cons] at htaken
      rcases htaken with rfl | htaken
      · exact .inr (Array.getElem_mem hlt)
      · exact .inl htaken
    · exact .inr hdata
  | case2 i taken hge => exact .inl (List.mem_reverse.mp h)

/-- Every byte of a text belongs to the code of one of its characters. -/
theorem mem_utf8 {text : String} {byte : UInt8} (h : byte ∈ text.toUTF8.toList) :
    ∃ c ∈ text.toList, byte ∈ String.utf8EncodeChar c := by
  have hdata := (mem_toList_loop h).resolve_left List.not_mem_nil
  have hcodes : text.toUTF8.data = (text.toList.flatMap String.utf8EncodeChar).toArray := by
    show text.toByteArray.data = _
    rw [← String.utf8Encode_toList, List.utf8Encode, List.data_toByteArray]
  rw [hcodes, List.mem_toArray] at hdata
  exact List.mem_flatMap.mp hdata

theorem ofNat_ne_zero {n : Nat} (hpos : 0 < n) (hlt : n < 256) : UInt8.ofNat n ≠ 0 := by
  intro hzero
  have hmod := congrArg UInt8.toNat hzero
  rw [UInt8.toNat_ofNat', Nat.mod_eq_of_lt hlt] at hmod
  exact absurd hmod (Nat.ne_of_gt hpos)

/-- Only the null character has a zero among its bytes: the others of a single byte are above zero, and the bytes
of longer codes have their highest bit set. -/
theorem zero_notMem_utf8EncodeChar {c : Char} (hc : c ≠ '\x00') : 0 ∉ String.utf8EncodeChar c := by
  have hpos : 0 < c.val.toNat := by
    rw [Nat.pos_iff_ne_zero]
    intro hzero
    exact hc (Char.ext (UInt32.toNat_inj.mp hzero))
  have hne {n : Nat} (hpos : 0 < n) (hlt : n < 256) : (0 : UInt8) ≠ UInt8.ofNat n := (ofNat_ne_zero hpos hlt).symm
  simp only [String.utf8EncodeChar]
  split
  · simpa using hne hpos (by omega)
  · split
    · simp only [List.mem_cons, List.not_mem_nil, or_false, not_or]
      exact ⟨hne (by omega) (by omega), hne (by omega) (by omega)⟩
    · split
      · simp only [List.mem_cons, List.not_mem_nil, or_false, not_or]
        exact ⟨hne (by omega) (by omega), hne (by omega) (by omega), hne (by omega) (by omega)⟩
      · simp only [List.mem_cons, List.not_mem_nil, or_false, not_or]
        exact ⟨hne (by omega) (by omega), hne (by omega) (by omega), hne (by omega) (by omega),
          hne (by omega) (by omega)⟩

theorem zero_notMem_utf8 {text : String} (hnul : '\x00' ∉ text.toList) : 0 ∉ text.toUTF8.toList := by
  intro hzero
  obtain ⟨c, hc, hbyte⟩ := mem_utf8 hzero
  have hne : c ≠ '\x00' := by
    rintro rfl
    exact hnul hc
  exact zero_notMem_utf8EncodeChar hne hbyte

/-- A byte that is not zero is not read as zero. -/
theorem toInt8_ne_zero {text : String} (hnul : '\x00' ∉ text.toList) {n : Nat} (h : n < text.toUTF8.toList.length) :
    (text.toUTF8.toList[n]?.getD 0).toInt8 ≠ 0 := by
  rw [List.getElem?_eq_getElem h, Option.getD_some]
  intro hzero
  have hbyte : text.toUTF8.toList[n] = 0 := by
    rw [← UInt8.toUInt8_toInt8 text.toUTF8.toList[n], hzero]
    rfl
  exact zero_notMem_utf8 hnul (hbyte ▸ List.getElem_mem h)

/-! ## Texts come back -/

/-- What the echo of a text shows of its first values. -/
theorem shown_finite {text : String} {m : Nat} (h : m ≤ text.toUTF8.toList.length) :
    (List.range m).map (fun j => (cellAt (Input.finite text) j).toUInt8) = text.toUTF8.toList.take m := by
  refine List.ext_getElem (by rw [List.length_map, List.length_range, List.length_take, Nat.min_eq_left h]) ?_
  intro i hi _
  have hlt : i < text.toUTF8.toList.length := by
    rw [List.length_map, List.length_range] at hi
    omega
  rw [List.getElem_map, List.getElem_range, List.getElem_take, Input.cellAt_finite, List.getElem?_eq_getElem hlt,
    Option.getD_some, UInt8.toUInt8_toInt8]

/-- **Reading a text and showing the output are inverse.** For every text without a null character and every policy
that has a fresh tape, the program `,[.,]` halts on the bytes of the text after three steps for each byte and two
more. A run that may take so many steps shows the bytes of the text; one that may take fewer has taken all of them,
and shows the first of the bytes, one for every three steps. If the bytes are repeated forever, and there are
some, then the program never halts, and shows the first of the repeated bytes at the same rate. A budget below
zero allows no step. -/
theorem echo_inverts_coding [Host] {text : String} (hnul : '\x00' ∉ text.toList) {policy : Policy} {start : State}
    (hfresh : State.fresh policy = .ok start) :
    ∃ program, Program.parse ",[.,]" = .ok program
      ∧ (∀ budget : Int, 3 * text.toUTF8.toList.length + 2 ≤ budget →
        (run program budget.toNat start (Input.finite text)).Yields program
          (3 * text.toUTF8.toList.length + 2) true text.toUTF8.toList)
      ∧ (∀ budget : Int, budget < 3 * text.toUTF8.toList.length + 2 →
        (run program budget.toNat start (Input.finite text)).Yields program
          budget.toNat false (text.toUTF8.toList.take (budget.toNat / 3)))
      ∧ (text.toUTF8.toList ≠ [] → ∀ budget : Int, ∃ shown,
        (run program budget.toNat start (Input.cycle text)).Yields program budget.toNat false shown
        ∧ shown.length = budget.toNat / 3
        ∧ ∀ i < budget.toNat / 3, shown[i]? = text.toUTF8.toList[i % text.toUTF8.toList.length]?) := by
  have hne (j : Nat) (hj : j < text.toUTF8.toList.length) : cellAt (Input.finite text) j ≠ 0 := by
    rw [Input.cellAt_finite]
    exact toInt8_ne_zero hnul hj
  have hzero : cellAt (Input.finite text) text.toUTF8.toList.length = 0 := by
    rw [Input.cellAt_finite, List.getElem?_eq_none (Nat.le_refl _)]
    rfl
  have hfinite := run_echo_of_zero hfresh hne hzero
  -- a round of the loop has three steps and writes one byte
  refine ⟨echo, parse_echo, ?_, ?_, ?_⟩
  · intro budget hbudget
    have hle : 3 * text.toUTF8.toList.length + 2 ≤ budget.toNat := by omega
    have hshown : (3 * text.toUTF8.toList.length + 2) / 3 = text.toUTF8.toList.length := by omega
    have hrun := hfinite budget.toNat
    rwa [Nat.min_eq_right hle, decide_eq_true hle, hshown, shown_finite (Nat.le_refl _), List.take_length] at hrun
  · intro budget hbudget
    have hlt : budget.toNat < 3 * text.toUTF8.toList.length + 2 := by omega
    have hrun := hfinite budget.toNat
    rwa [Nat.min_eq_left (Nat.le_of_lt hlt), decide_eq_false (Nat.not_le_of_lt hlt), shown_finite (by omega)] at hrun
  · intro hbytes budget
    have hround (j : Nat) : j % text.toUTF8.toList.length < text.toUTF8.toList.length :=
      Nat.mod_lt j (List.length_pos_iff.mpr hbytes)
    have hne (j : Nat) : cellAt (Input.cycle text) j ≠ 0 := by
      rw [Input.cellAt_cycle hbytes]
      exact toInt8_ne_zero hnul (hround j)
    refine ⟨_, run_echo_endless hfresh hne budget.toNat, by rw [List.length_map, List.length_range], ?_⟩
    intro i hi
    rw [List.getElem?_map, List.getElem?_range hi, Option.map_some, Input.cellAt_cycle hbytes,
      List.getElem?_eq_getElem (hround i), Option.getD_some, UInt8.toUInt8_toInt8]

open scoped Host in
/-- A letter of two bytes, both negative when they are read, on a tape that does not grow. -/
theorem echo_inverts_coding_accent :
    '\x00' ∉ "é".toList ∧ State.fresh (.grow 0) = .ok (State.blank (.grow 0)) ∧ "é".toUTF8.toList = [0xC3, 0xA9]
    ∧ ∃ program shown, Program.parse ",[.,]" = .ok program
      ∧ (run program 9 (State.blank (.grow 0)) (Input.finite "é")).Yields program 8 true [0xC3, 0xA9]
      ∧ (run program 7 (State.blank (.grow 0)) (Input.finite "é")).Yields program 7 false [0xC3, 0xA9]
      ∧ (run program 5 (State.blank (.grow 0)) (Input.finite "é")).Yields program 5 false [0xC3]
      ∧ (run program 10 (State.blank (.grow 0)) (Input.cycle "é")).Yields program 10 false shown
      ∧ shown.length = 3 ∧ shown[2]? = some 0xC3 := by
  have hnul : '\x00' ∉ "é".toList := by decide +kernel
  have hfresh : State.fresh (.grow 0) = .ok (State.blank (.grow 0)) := rfl
  have hbytes : "é".toUTF8.toList = [0xC3, 0xA9] := by decide +kernel
  obtain ⟨program, hparse, henough, hless, hcycle⟩ := echo_inverts_coding hnul hfresh
  rw [hbytes] at henough hless hcycle
  obtain ⟨shown, hendless, hlength, hrepeated⟩ := hcycle (by decide) 10
  exact ⟨hnul, hfresh, hbytes, program, shown, hparse, henough 9 (by decide), hless 7 (by decide),
    hless 5 (by decide), hendless, hlength, hrepeated 2 (by decide)⟩

end ProgramArt.Tape

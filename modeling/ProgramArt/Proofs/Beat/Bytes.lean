import Mathlib.Data.List.Forall2
import ProgramArt.Host.Standard
import ProgramArt.Proofs.Beat.Images
import ProgramArt.Proofs.Number.Bits

/-!
# Formulas of low bytes

A pixel is the low byte of a value. Sums, differences, products, left shifts and bitwise operations never carry
anything down from higher bits, and an array whose size divides 256 chooses by the low byte of its index. A formula of
such commands, each of them `Cmd.Bytewise`, can be run on two samples side by side (`executeAll_sameByte`): where the
variables have the same low bytes, so have the values on the two stacks, place by place, and in the end the two
pixels. Its images repeat after 256 columns, 256 rows and 256 frames (`bytewise_periodic`).
-/

namespace ProgramArt.Beat

open Word64

/-! ## The commands -/

/-- An operator whose low byte is computed from the low bytes of its operands. -/
def IntOp.isBytewise : IntOp → Bool
  | add | sub | mul | shl | and | or | xor => true
  | div | mod | shr => false

/-- A command that looks at low bytes only. -/
def Cmd.Bytewise : Cmd → Prop
  | var _ | remark _ _ | comment _ => True
  | int n | hex n => IsWord n
  | intOp op => op.isBytewise = true
  | array size => 0 < size ∧ size ∣ 256
  | float _ | trig _ | floatOp _ | compare _ | choose => False

instance (cmd : Cmd) : Decidable cmd.Bytewise := by
  cases cmd <;> unfold Cmd.Bytewise <;> infer_instance

theorem Cmd.Bytewise.fitsWord {cmd : Cmd} (h : cmd.Bytewise) : cmd.FitsWord := by
  intro n hn
  cases cmd with
  | int m | hex m =>
    cases hn
    exact h
  | _ => cases hn

/-! ## The same low bytes -/

/-- Two values whose integer views have the same low byte. -/
def Value.SameByte (v w : Value) : Prop :=
  v.toInt ≡ w.toInt [ZMOD 256]

/-- Values with the same low bytes give the same pixel. -/
theorem Value.SameByte.toByte {v w : Value} (h : v.SameByte w) : v.toByte = w.toByte := by
  rw [Value.toByte, Value.toByte, h]

/-- Each variable stands for values with the same low byte. -/
def Sample.SameBytes (first second : Sample) : Prop :=
  ∀ v, (first.get v).SameByte (second.get v)

theorem ofInt_byte_eq_iff {m n : Int} : BitVec.ofInt 8 m = BitVec.ofInt 8 n ↔ m ≡ n [ZMOD 256] :=
  ofInt_eq_iff

/-- Wrapping leaves the low byte alone. -/
theorem wrap_modEq (n : Int) : wrap n ≡ n [ZMOD 256] :=
  ofInt_byte_eq_iff.mp (ofInt_wrap (by decide) n)

/-- The places of a shift are in the low byte of its amount. -/
theorem places_congr {m n : Int} (h : m ≡ n [ZMOD 256]) : places m = places n := by
  have hplaces : m ≡ n [ZMOD 64] := h.of_dvd (by decide)
  rw [places, places, hplaces]

/-! ## Operators and arrays -/

/-- The low byte of a result is told by the low bytes of the operands. -/
theorem IntOp.apply_modEq {op : IntOp} (hop : op.isBytewise = true) {a a' b b' : Int}
    (ha : a ≡ a' [ZMOD 256]) (hb : b ≡ b' [ZMOD 256]) : op.apply a b ≡ op.apply a' b' [ZMOD 256] := by
  have habyte := ofInt_byte_eq_iff.mpr ha
  have hbbyte := ofInt_byte_eq_iff.mpr hb
  cases op with
  | add => exact (wrap_modEq _).trans ((ha.add hb).trans (wrap_modEq _).symm)
  | sub => exact (wrap_modEq _).trans ((ha.sub hb).trans (wrap_modEq _).symm)
  | mul => exact (wrap_modEq _).trans ((ha.mul hb).trans (wrap_modEq _).symm)
  | shl =>
    apply ofInt_byte_eq_iff.mp
    show BitVec.ofInt 8 (wrap (a <<< places b)) = BitVec.ofInt 8 (wrap (a' <<< places b'))
    rw [ofInt_wrap (by decide), ofInt_wrap (by decide), ofInt_shl, ofInt_shl, habyte, places_congr hb]
  | and =>
    apply ofInt_byte_eq_iff.mp
    show BitVec.ofInt 8 (Word64.and a b) = BitVec.ofInt 8 (Word64.and a' b')
    rw [ofInt_and, ofInt_and, habyte, hbbyte]
  | or =>
    apply ofInt_byte_eq_iff.mp
    show BitVec.ofInt 8 (Word64.or a b) = BitVec.ofInt 8 (Word64.or a' b')
    rw [ofInt_or, ofInt_or, habyte, hbbyte]
  | xor =>
    apply ofInt_byte_eq_iff.mp
    show BitVec.ofInt 8 (Word64.xor a b) = BitVec.ofInt 8 (Word64.xor a' b')
    rw [ofInt_xor, ofInt_xor, habyte, hbbyte]
  | div | mod | shr => cases hop

/-- An array whose size divides 256 chooses the same place by the same low byte of its index. -/
theorem exists_chosen?_sameByte {size : Nat} (hsize : size ∣ 256) {index index' : Int}
    (hindex : index ≡ index' [ZMOD 256]) {stack stack' : Stack} (hstack : List.Forall₂ Value.SameByte stack stack')
    {value : Value} (h : chosen? size index stack = some value) :
    ∃ value', chosen? size index' stack' = some value' ∧ value.SameByte value' := by
  have hplace : index % size = index' % size := hindex.of_dvd (Int.natCast_dvd_natCast.mpr hsize)
  have hvalues : List.Forall₂ Value.SameByte (stack.take size).reverse (stack'.take size).reverse :=
    List.rel_reverse (List.forall₂_take size hstack)
  rw [chosen?, popCount_natCast] at h ⊢
  rw [← hplace]
  -- both have as many values, so that the place is there in both or in none
  obtain ⟨hlt, rfl⟩ := List.getElem?_eq_some_iff.mp h
  have hlt' := hvalues.length_eq ▸ hlt
  exact ⟨_, List.getElem?_eq_getElem hlt', hvalues.get hlt hlt'⟩

/-! ## Two runs side by side -/

section

variable {first second : Sample} (hsamples : first.SameBytes second)

include hsamples

/-- **One command on two stacks.** If it succeeds on the one, it succeeds on the other, and the low bytes agree
again. -/
theorem execute_sameByte [Host] {cmd : Cmd} (hcmd : cmd.Bytewise) {stack stack' after : Stack}
    (hstack : List.Forall₂ Value.SameByte stack stack') (h : execute first cmd stack = .ok after) :
    ∃ after', execute second cmd stack' = .ok after' ∧ List.Forall₂ Value.SameByte after after' := by
  cases cmd with
  | var v =>
    cases h
    exact ⟨_, rfl, .cons (hsamples v) hstack⟩
  | int n | hex n =>
    cases h
    exact ⟨_, rfl, .cons (Int.ModEq.refl n) hstack⟩
  | intOp op =>
    cases hstack with
    | nil => cases h
    | cons hb hrest =>
      cases hrest with
      | nil => cases h
      | cons ha hrest =>
        cases h
        exact ⟨_, rfl, .cons (op.apply_modEq hcmd ha hb) hrest⟩
  -- the size divides 256, so the low byte of the index is enough to choose
  | array size =>
    obtain ⟨others, rfl⟩ := Nat.exists_eq_succ_of_ne_zero (Nat.ne_of_gt hcmd.1)
    cases hstack with
    | nil => cases h
    | @cons index index' rest rest' hindex hrest =>
      rw [execute_array] at h
      cases hchosen : chosen? (others + 1) index.toInt rest with
      | none =>
        rw [hchosen] at h
        cases h
      | some value =>
        rw [hchosen] at h
        cases h
        obtain ⟨value', hvalue', hsame⟩ := exists_chosen?_sameByte hcmd.2 hindex hrest hchosen
        refine ⟨value' :: rest'.drop (others + 1), ?_, .cons hsame (List.forall₂_drop (others + 1) hrest)⟩
        rw [execute_array, hvalue']
  | remark key value | comment text =>
    cases h
    exact ⟨_, rfl, hstack⟩
  | float _ | trig _ | floatOp _ | compare _ | choose => exact hcmd.elim

/-- **Many commands on two stacks.** -/
theorem executeAll_sameByte [Host] {cmds : List Cmd} (hcmds : ∀ cmd ∈ cmds, cmd.Bytewise) {stack stack' last : Stack}
    (hstack : List.Forall₂ Value.SameByte stack stack') (h : executeAll first cmds stack = .ok last) :
    ∃ last', executeAll second cmds stack' = .ok last' ∧ List.Forall₂ Value.SameByte last last' := by
  induction cmds generalizing stack stack' with
  | nil =>
    cases h
    exact ⟨stack', rfl, hstack⟩
  | cons cmd rest ih =>
    rw [List.forall_mem_cons] at hcmds
    rw [executeAll] at h
    cases hafter : execute first cmd stack with
    | error e =>
      rw [hafter] at h
      cases h
    | ok after =>
      rw [hafter] at h
      obtain ⟨after', hafter', hsame⟩ := execute_sameByte hsamples hcmds.1 hstack hafter
      obtain ⟨last', hlast', hbytes⟩ := ih hcmds.2 hsame h
      refine ⟨last', ?_, hbytes⟩
      rw [executeAll, hafter']
      exact hlast'

end

/-! ## Samples from outside -/

/-- Two data that stand for values with the same low byte. -/
def SameByteData (first second : Datum) : Prop :=
  ∃ v w, Value.ofDatum first = .ok v ∧ Value.ofDatum second = .ok w ∧ v.SameByte w

theorem sameByteData_int {m n : Int} (h : m ≡ n [ZMOD 256]) : SameByteData (.int m) (.int n) :=
  ⟨_, _, rfl, rfl, (wrap_modEq m).trans (h.trans (wrap_modEq n).symm)⟩

theorem sameByteData_self {datum : Datum} (h : isNumeric datum = true) : SameByteData datum datum := by
  obtain ⟨v, hv⟩ := Value.exists_ofDatum h
  exact ⟨v, v, hv, hv, Int.ModEq.refl v.toInt⟩

/-- The data of two samples have the same low bytes, place by place. -/
def RawSample.SameBytes (first second : RawSample) : Prop :=
  List.Forall₂ SameByteData first.data second.data

/-- Data with the same low bytes make samples with the same low bytes. -/
theorem Sample.exists_ofData_sameBytes {raw raw' : RawSample} (h : raw.SameBytes raw') :
    ∃ first second, ofData raw = .ok first ∧ ofData raw' = .ok second ∧ first.FitsWord ∧ first.SameBytes second := by
  simp only [RawSample.SameBytes, RawSample.data, List.forall₂_cons] at h
  obtain ⟨⟨t, t', ht, ht', hframe⟩, ⟨mx, mx', hmx, hmx', hmouseX⟩, ⟨my, my', hmy, hmy', hmouseY⟩,
    ⟨sx, sx', hsx, hsx', hscreenX⟩, ⟨sy, sy', hsy, hsy', hscreenY⟩, ⟨kx, kx', hkx, hkx', hkeyX⟩,
    ⟨ky, ky', hky, hky', hkeyY⟩, -⟩ := h
  refine ⟨⟨t, mx, my, sx, sy, kx, ky⟩, ⟨t', mx', my', sx', sy', kx', ky'⟩, ?_, ?_, ?_, ?_⟩
  · simp [ofData, ht, hmx, hmy, hsx, hsy, hkx, hky, pure, Except.pure, bind, Except.bind]
  · simp [ofData, ht', hmx', hmy', hsx', hsy', hkx', hky', pure, Except.pure, bind, Except.bind]
  · intro v
    cases v with
    | frame => exact Value.fitsWord_of_ofDatum ht
    | mouseX => exact Value.fitsWord_of_ofDatum hmx
    | mouseY => exact Value.fitsWord_of_ofDatum hmy
    | screenX => exact Value.fitsWord_of_ofDatum hsx
    | screenY => exact Value.fitsWord_of_ofDatum hsy
    | keyX => exact Value.fitsWord_of_ofDatum hkx
    | keyY => exact Value.fitsWord_of_ofDatum hky
  · intro v
    cases v with
    | frame => exact hframe
    | mouseX => exact hmouseX
    | mouseY => exact hmouseY
    | screenX => exact hscreenX
    | screenY => exact hscreenY
    | keyX => exact hkeyX
    | keyY => exact hkeyY

/-- A sample of integers. -/
def RawSample.ofInts (n : Variable → Int) : RawSample where
  frame := .int (n .frame)
  mouseX := .int (n .mouseX)
  mouseY := .int (n .mouseY)
  screenX := .int (n .screenX)
  screenY := .int (n .screenY)
  keyX := .int (n .keyX)
  keyY := .int (n .keyY)

theorem RawSample.sameBytes_ofInts {m n : Variable → Int} (h : ∀ v, m v ≡ n v [ZMOD 256]) :
    (ofInts m).SameBytes (ofInts n) := by
  have hdata (v : Variable) : SameByteData (.int (m v)) (.int (n v)) := sameByteData_int (h v)
  simp [SameBytes, data, ofInts, hdata]

/-- Places and frames that differ by multiples of 256 give such samples. -/
theorem Controls.Numeric.sameBytes_sample {controls : Controls} (hcontrols : controls.Numeric) {t t' : Int}
    {x x' y y' : Nat} (ht : t ≡ t' [ZMOD 256]) (hx : (x : Int) ≡ x' [ZMOD 256]) (hy : (y : Int) ≡ y' [ZMOD 256]) :
    (controls.sample (.int t) x y).SameBytes (controls.sample (.int t') x' y') := by
  simp only [Controls.Numeric, List.forall_mem_cons] at hcontrols
  obtain ⟨hmouseX, hmouseY, hkeyX, hkeyY, -⟩ := hcontrols
  simp [RawSample.SameBytes, RawSample.data, Controls.sample, sameByteData_int ht, sameByteData_int hx,
    sameByteData_int hy, sameByteData_self hmouseX, sameByteData_self hmouseY, sameByteData_self hkeyX,
    sameByteData_self hkeyY]

/-! ## Formulas -/

/-- **A formula on two samples** with the same low bytes has values with the same low byte, whatever is on the scratch
stacks. -/
theorem eval_sameByte [Host] {program : Program} (hcmds : ∀ cmd ∈ program.cmds, cmd.Bytewise) {raw raw' : RawSample}
    (hraw : raw.SameBytes raw') :
    ∃ value left value' left', (∀ scratch, eval scratch program raw = (.ok value, left))
      ∧ (∀ scratch, eval scratch program raw' = (.ok value', left')) ∧ value.toByte = value'.toByte := by
  obtain ⟨first, second, hfirst, hsecond, hfits, hsamples⟩ := Sample.exists_ofData_sameBytes hraw
  -- the first run ends above an empty stack, and the second one follows it
  obtain ⟨value, left, hlast⟩ := Program.exists_executeAll hfits fun cmd hcmd => (hcmds cmd hcmd).fitsWord
  obtain ⟨last', hlast', hbytes⟩ := executeAll_sameByte hsamples hcmds .nil hlast
  cases hbytes with
  | @cons _ value' _ left' hbyte _ =>
    exact ⟨value, left, value', left', eval_of_executeAll hfirst hlast, eval_of_executeAll hsecond hlast', hbyte.toByte⟩

/-- **Pixels depend on low bytes, and images are periodic.** A formula of variables, integer literals in the range of
words, `+ - * << & | ^`, arrays of sizes that divide 256, remarks and comments has a value for any integers, and
integers with the same low bytes give values with the same low byte. Its images are cut out of one plane of pixels for
each frame, and these planes repeat after 256 columns, after 256 rows and after 256 frames. -/
theorem bytewise_periodic [Host] {program : Program} (hcmds : ∀ cmd ∈ program.cmds, cmd.Bytewise) :
    (∀ m n : Variable → Int, (∀ v, m v ≡ n v [ZMOD 256]) → ∀ scratch scratch',
      ∃ value left value' left', eval scratch program (.ofInts m) = (.ok value, left)
        ∧ eval scratch' program (.ofInts n) = (.ok value', left') ∧ value.toByte = value'.toByte)
    ∧ ∀ controls : Controls, controls.Numeric → ∃ pixel : Int → Nat → Nat → UInt8,
      (∀ width height t, render program width height (.int t) controls
        = .ok ((List.range height).map fun y => (List.range width).map fun x => pixel t x y))
      ∧ ∀ t x y, pixel (t + 256) x y = pixel t x y ∧ pixel t (x + 256) y = pixel t x y
        ∧ pixel t x (y + 256) = pixel t x y := by
  constructor
  · intro m n hsame scratch scratch'
    obtain ⟨value, left, value', left', hvalue, hvalue', hbyte⟩ :=
      eval_sameByte hcmds (RawSample.sameBytes_ofInts hsame)
    exact ⟨value, left, value', left', hvalue scratch, hvalue' scratch', hbyte⟩
  · intro controls hcontrols
    choose value left heval using fun (t : Int) x y =>
      exists_eval (fun cmd hcmd => (hcmds cmd hcmd).fitsWord) (hcontrols.sample (.int t) x y)
    have hbyte {t t' : Int} {x x' y y' : Nat} (ht : t ≡ t' [ZMOD 256]) (hx : (x : Int) ≡ x' [ZMOD 256])
        (hy : (y : Int) ≡ y' [ZMOD 256]) : (value t x y).toByte = (value t' x' y').toByte := by
      -- evaluations have one outcome, so the values are the ones that were chosen
      obtain ⟨_, _, _, _, h, h', hsame⟩ := eval_sameByte hcmds (hcontrols.sameBytes_sample ht hx hy)
      have hfirst := (heval t x y []).symm.trans (h [])
      have hsecond := (heval t' x' y' []).symm.trans (h' [])
      cases hfirst
      cases hsecond
      exact hsame
    refine ⟨fun t x y => (value t x y).toByte, ?_, ?_⟩
    · intro width height t
      exact render_eq (fun x y => ⟨value t x y, left t x y, heval t x y, rfl⟩) width height
    · intro t x y
      have hplace (n : Nat) : ((n + 256 : Nat) : Int) ≡ n [ZMOD 256] := by
        rw [Int.natCast_add]
        exact Int.add_modEq_right
      exact ⟨hbyte Int.add_modEq_right rfl rfl, hbyte rfl (hplace x) rfl, hbyte rfl rfl (hplace y)⟩

/-- A pattern of low bytes, chosen by the frame: `sx sy t [2 3 << 0xFF ^`. -/
def woven : List Cmd :=
  [.var .screenX, .var .screenY, .var .frame, .array 2, .int 3, .intOp .shl, .hex 255, .intOp .xor]

open scoped Host in
theorem bytewise_periodic_woven :
    ∃ program, Program.compile woven = .ok program ∧ (∀ cmd ∈ woven, cmd.Bytewise)
      ∧ (-1 ≡ 2 ^ 70 + 255 [ZMOD 256]) ∧ (⟨.int 9, .float 0.5, .nan 0, .bool true⟩ : Controls).Numeric
      ∧ (∃ value left value' left', eval [] program (.ofInts fun _ => -1) = (.ok value, left)
        ∧ eval [.int 7] program (.ofInts fun _ => 2 ^ 70 + 255) = (.ok value', left') ∧ value.toByte = value'.toByte)
      ∧ ∃ pixel : Int → Nat → Nat → UInt8,
        (∀ width height t, render program width height (.int t) ⟨.int 9, .float 0.5, .nan 0, .bool true⟩
          = .ok ((List.range height).map fun y => (List.range width).map fun x => pixel t x y))
        ∧ ∀ t x y, pixel (t + 256) x y = pixel t x y ∧ pixel t (x + 256) y = pixel t x y
          ∧ pixel t x (y + 256) = pixel t x y := by
  have hcompile : Program.compile woven = .ok ⟨woven, 1, rfl, by decide⟩ := rfl
  have hcmds : ∀ cmd ∈ woven, cmd.Bytewise := by decide
  have hsame : -1 ≡ 2 ^ 70 + 255 [ZMOD 256] := by decide
  have hcontrols : (⟨.int 9, .float 0.5, .nan 0, .bool true⟩ : Controls).Numeric := by decide
  obtain ⟨hvalues, himages⟩ :=
    bytewise_periodic (show ∀ cmd ∈ (⟨woven, 1, rfl, by decide⟩ : Program).cmds, cmd.Bytewise from hcmds)
  exact ⟨_, hcompile, hcmds, hsame, hcontrols, hvalues _ _ (fun _ => hsame) [] [.int 7], himages _ hcontrols⟩

end ProgramArt.Beat

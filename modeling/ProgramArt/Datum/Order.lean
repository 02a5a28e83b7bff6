import ProgramArt.Datum.Basic
import ProgramArt.Number.Binary64

/-!
# Comparing data

Numbers are compared by their exact values, their `Magnitude`, whether they are integers, doubles or truth values,
which count as one and zero. Texts are ordered by their characters and lists item by item. Data of different kinds are
never equal (`Datum.same`) and have no order (`Datum.less?`). In a mapping a key stands once (`Datum.insert`).
-/

namespace ProgramArt

/-- The number `significand · 2 ^ exponent`, or an infinity. -/
inductive Magnitude where
  | negativeInfinity
  | finite (significand : Int) (exponent : Int)
  | positiveInfinity
deriving DecidableEq

namespace Magnitude

/-- The magnitude of a double that is a number. -/
def ofFloat? (x : Float) : Option Magnitude :=
  match Binary64.parts x with
  | .nan => none
  | .infinite negative => some (if negative then negativeInfinity else positiveInfinity)
  | .finite negative mantissa exponent =>
    some (finite (if negative then -(mantissa : Int) else mantissa) exponent)

/-- Two significands brought to a common exponent. -/
def aligned (a p b q : Int) : Int × Int :=
  let low := min p q
  (a * (Nat.pow 2 (p - low).toNat : Nat), b * (Nat.pow 2 (q - low).toNat : Nat))

/-- Strict order. -/
def less : Magnitude → Magnitude → Bool
  | _, negativeInfinity => false
  | negativeInfinity, _ => true
  | positiveInfinity, _ => false
  | _, positiveInfinity => true
  | finite a p, finite b q =>
    let (x, y) := aligned a p b q
    decide (x < y)

/-- Equality of values. -/
def same (a b : Magnitude) : Bool :=
  !a.less b && !b.less a

end Magnitude

namespace Datum

/-- Whether a datum is a number. -/
def isNumber : Datum → Bool
  | bool _ | int _ | float _ | nan _ => true
  | _ => false

/-- The magnitude of a number, which NaN does not have. -/
def magnitude? : Datum → Option Magnitude
  | bool value => some (.finite (if value then 1 else 0) 0)
  | int value => some (.finite value 0)
  | float value => Magnitude.ofFloat? value
  | _ => none

/-- Equality of numbers, which NaN has with nothing. -/
def sameNumber (a b : Datum) : Bool :=
  match a.magnitude?, b.magnitude? with
  | some x, some y => x.same y
  | _, _ => false

/-- Whether both data are one NaN. -/
def isSameNan : Datum → Datum → Bool
  | nan a, nan b => a == b
  | _, _ => false

mutual

/-- A datum's own equality with others, by structure; mappings do not depend on the order of their
keys. NaN equals nothing, but inside of collections one with a mark is found again. -/
def same : Datum → Datum → Bool
  | null, null => true
  | str a, str b => a == b
  | rawText a, rawText b => a == b
  | bytes a, bytes b => a == b
  | list as, list bs => sameItems as bs
  | pair a b, pair c d => (isSameNan a c || same a c) && (isSameNan b d || same b d)
  | set as, set bs => as.length == bs.length && membersOf as bs
  | map as, map bs => as.length == bs.length && coveredBy as bs
  | moment a, moment b => a.same b
  | bool a, b => sameNumber (bool a) b
  | int a, b => sameNumber (int a) b
  | float a, b => sameNumber (float a) b
  | _, _ => false
termination_by structural a => a

/-- Equality item by item. -/
def sameItems : List Datum → List Datum → Bool
  | [], [] => true
  | a :: as, b :: bs => (isSameNan a b || same a b) && sameItems as bs
  | _, _ => false
termination_by structural a => a

/-- Whether all of the first data are among the second. -/
def membersOf : List Datum → List Datum → Bool
  | [], _ => true
  | a :: rest, bs => bs.any (fun b => isSameNan a b || same a b) && membersOf rest bs
termination_by structural a => a

/-- Whether every entry of the first mapping is one of the second. -/
def coveredBy : List (Datum × Datum) → List (Datum × Datum) → Bool
  | [], _ => true
  | (key, value) :: rest, bs =>
    bs.any (fun (k, v) =>
        (isSameNan key k || same key k) && (isSameNan value v || same value v))
      && coveredBy rest bs
termination_by structural a => a

end

/-- Equality of data inside of collections, as items, members and keys. -/
def sameInside (a b : Datum) : Bool :=
  isSameNan a b || a.same b

mutual

/-- Whether two data are one and the same, bit by bit and in the same order. -/
def identical : Datum → Datum → Bool
  | null, null => true
  | bool a, bool b => a == b
  | int a, int b => a == b
  | float a, float b => a.toBits == b.toBits
  | nan a, nan b => a == b
  | str a, str b => a == b
  | rawText a, rawText b => a == b
  | bytes a, bytes b => a == b
  | list as, list bs => identicalItems as bs
  | pair a b, pair c d => identical a c && identical b d
  | set as, set bs => identicalItems as bs
  | map as, map bs => identicalEntries as bs
  | moment a, moment b => a == b
  | _, _ => false
termination_by structural a => a

/-- Identity item by item. -/
def identicalItems : List Datum → List Datum → Bool
  | [], [] => true
  | a :: as, b :: bs => identical a b && identicalItems as bs
  | _, _ => false
termination_by structural a => a

/-- Identity entry by entry. -/
def identicalEntries : List (Datum × Datum) → List (Datum × Datum) → Bool
  | [], [] => true
  | (k, a) :: as, (l, b) :: bs => identical k l && identical a b && identicalEntries as bs
  | _, _ => false
termination_by structural a => a

end

/-- The order of texts by their characters. -/
def textLess (a b : String) : Bool := decide (a < b)

/-- The order of lists of code points. -/
def codesLess (a b : List Nat) : Bool := decide (a < b)

mutual

/-- Strict order, where the two data have one. NaN is neither below nor above any number. -/
def less? : Datum → Datum → Option Bool
  | str a, str b => some (textLess a b)
  | bytes a, bytes b => some (decide (a < b))
  | list as, list bs => lessItems as bs
  | moment a, moment b => a.less? b
  | a, b =>
    if a.isNumber && b.isNumber then
      some (match a.magnitude?, b.magnitude? with
        | some x, some y => x.less y
        | _, _ => false)
    else
      match a.codes?, b.codes? with
      | some x, some y => some (codesLess x y)
      | _, _ => none
termination_by structural a => a

/-- The first items that differ decide; a list is above its own beginnings. -/
def lessItems : List Datum → List Datum → Option Bool
  | [], [] => some false
  | [], _ :: _ => some true
  | _ :: _, [] => some false
  | a :: as, b :: bs => if sameInside a b then lessItems as bs else less? a b
termination_by structural a => a

end

mutual

/-- Order, where the two data have one. NaN is neither below nor above any number, nor equal to it. -/
def atMost? : Datum → Datum → Option Bool
  | list as, list bs => atMostItems as bs
  | a, b =>
    if a.isNumber && b.isNumber then
      some (match a.magnitude?, b.magnitude? with
        | some x, some y => !y.less x
        | _, _ => false)
    else (b.less? a).map not
termination_by structural a => a

/-- The first items that differ decide; a list is above its own beginnings. -/
def atMostItems : List Datum → List Datum → Option Bool
  | [], _ => some true
  | _ :: _, [] => some false
  | a :: as, b :: bs => if sameInside a b then atMostItems as bs else atMost? a b
termination_by structural a => a

end

/-! ## Mappings -/

/-- The value of a key. -/
def lookup? (key : Datum) (entries : List (Datum × Datum)) : Option Datum :=
  (entries.find? fun (k, _) => sameInside key k).map (·.2)

/-- Give a key a value. A key that is there keeps its place, and a new one goes to the end. -/
def insert (key value : Datum) : List (Datum × Datum) → List (Datum × Datum)
  | [] => [(key, value)]
  | (k, v) :: rest =>
    if sameInside key k then (k, value) :: rest else (k, v) :: insert key value rest

/-- Whether a datum can be a key: lists, sets and mappings cannot, nor pairs that hold one. -/
def isKey : Datum → Bool
  | list _ | set _ | map _ | again _ => false
  | pair first second => isKey first && isKey second
  | _ => true

/-! ## Counting -/

/-- How many of the counts 0, 1, 2, … are below a number; all of the first 2 ^ 64 if it is infinite. -/
def countBelow? : Datum → Option Nat
  | bool value => some (if value then 1 else 0)
  | int value => some value.toNat
  | float value =>
    some (match Magnitude.ofFloat? value with
      | some (.finite significand exponent) =>
        if 0 ≤ exponent then (significand * (Nat.pow 2 exponent.toNat : Nat)).toNat
        else (-(-significand / (Nat.pow 2 (-exponent).toNat : Nat))).toNat
      | some .positiveInfinity => Nat.pow 2 64
      | _ => 0)
  | nan _ => some 0
  | _ => none

/-! ## Sorting -/

/-- Put a datum into a sorted list, after those that are not above it. -/
def insertSorted? (item : Datum) : List Datum → Option (List Datum)
  | [] => some [item]
  | first :: rest =>
    match less? item first with
    | none => none
    | some true => some (item :: first :: rest)
    | some false => (insertSorted? item rest).map (first :: ·)

/-- Sort data that have an order among them. -/
def sort? (items : List Datum) : Option (List Datum) :=
  items.foldl (fun sorted item => sorted.bind (insertSorted? item)) (some [])

/-- Every datum once, at its first place. -/
def distinct (items : List Datum) : List Datum :=
  items.foldl (fun kept item => if kept.any (sameInside item) then kept else kept ++ [item]) []

end Datum

end ProgramArt

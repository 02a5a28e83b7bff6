/-!
# Dates and times

A moment is a day of the calendar, with or without a time on that day, and a time may say how far it is from universal
time. Days are compared with days and times with times. Times that say how far they are from universal time are
compared by when they are, and never with those that do not say it (`Moment.less?`).
-/

namespace ProgramArt

/-- A time of a day. -/
structure TimeOfDay where
  hour : Nat
  minute : Nat
  second : Nat
  micro : Nat := 0
  /-- The distance to universal time in seconds, if it is told. -/
  zone : Option Int := none
deriving DecidableEq

/-- A day, or a time on a day. -/
structure Moment where
  year : Nat
  month : Nat
  day : Nat
  clock : Option TimeOfDay := none
deriving DecidableEq

/-! ## The calendar -/

/-- Whether a year has an additional day. -/
def isLeapYear (year : Nat) : Bool :=
  year % 4 == 0 && (year % 100 != 0 || year % 400 == 0)

/-- The days of a month. -/
def monthDays (year month : Nat) : Nat :=
  if month == 2 then if isLeapYear year then 29 else 28
  else if [4, 6, 9, 11].contains month then 30
  else 31

namespace Moment

/-- The reason why a moment is none of the calendar, if it is none. -/
def fault? (m : Moment) : Option String :=
  if m.year == 0 then some "year 0 is out of range"
  else if m.month == 0 || 12 < m.month then some "month must be in 1..12"
  else if m.day == 0 || monthDays m.year m.month < m.day then some "day is out of range for month"
  else
    match m.clock with
    | none => none
    | some clock =>
      if 23 < clock.hour then some "hour must be in 0..23"
      else if 59 < clock.minute then some "minute must be in 0..59"
      else if 59 < clock.second then some "second must be in 0..59"
      else none

/-! ## Comparing moments -/

/-- The number of a day, counted from the beginning of the calendar. -/
def dayNumber (m : Moment) : Nat :=
  let before := m.year - 1
  let months := (List.range' 1 (m.month - 1)).map (monthDays m.year)
  before * 365 + before / 4 - before / 100 + before / 400 + months.foldl Nat.add 0 + m.day

/-- The microseconds from the beginning of the calendar to a time, or to a day for which there is no
time. -/
def micros (m : Moment) : Int :=
  match m.clock with
  | none => m.dayNumber * 86400000000
  | some clock =>
    let seconds := ((m.dayNumber * 24 + clock.hour) * 60 + clock.minute) * 60 + clock.second
    (seconds - clock.zone.getD 0) * 1000000 + clock.micro

/-- Whether two moments can be compared. -/
def comparable (a b : Moment) : Bool :=
  match a.clock, b.clock with
  | none, none => true
  | some c, some d => c.zone.isSome == d.zone.isSome
  | _, _ => false

/-- Equality of moments. -/
def same (a b : Moment) : Bool := a.comparable b && a.micros == b.micros

/-- Strict order, where the two moments have one. -/
def less? (a b : Moment) : Option Bool :=
  if a.comparable b then some (decide (a.micros < b.micros)) else none

/-! ## Messages -/

/-- The form of a distance in time in messages. -/
def distanceForm (seconds : Int) : String :=
  let days := seconds / 86400
  let rest := seconds % 86400
  let parts :=
    (if days == 0 then [] else [s!"days={days}"]) ++ (if rest == 0 then [] else [s!"seconds={rest}"])
  let inner := if parts.isEmpty then "0" else String.intercalate ", " parts
  s!"datetime.timedelta({inner})"

/-- The form of a zone in messages. -/
def zoneForm (seconds : Int) : String :=
  if seconds == 0 then "datetime.timezone.utc"
  else s!"datetime.timezone({distanceForm seconds})"

/-- The name of the kind of a moment. -/
def typeName (m : Moment) : String :=
  if m.clock.isSome then "datetime" else "date"

/-- A moment as messages show it. Seconds that are zero and without a fraction are left out. -/
def form (m : Moment) : String :=
  match m.clock with
  | none => s!"datetime.date({m.year}, {m.month}, {m.day})"
  | some clock =>
    let seconds :=
      if clock.micro != 0 then s!", {clock.second}, {clock.micro}"
      else if clock.second != 0 then s!", {clock.second}"
      else ""
    let zone := (clock.zone.map fun zone => ", tzinfo=" ++ zoneForm zone).getD ""
    s!"datetime.datetime({m.year}, {m.month}, {m.day}, {clock.hour}, {clock.minute}{seconds}{zone})"

end Moment

end ProgramArt

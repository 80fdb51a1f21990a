import ApiPage.Text.Pieces

/-!
# Days and moments

A day of the calendar, and a moment of a day to the microsecond, which may tell how many minutes its
clock is ahead of universal time. `Day.fault?` and `Moment.fault?` tell what is wrong with numbers that
are none, and `Moment.before?` orders moments if both tell their zone or neither does.
-/

namespace ApiPage

/-- What is wrong with the numbers of a day or a moment. -/
inductive CalendarFault
  | year (found : Nat)
  | month
  | day
  | hour
  | minute
  | second
  /-- The clock is a day or more ahead of universal time, or behind it. -/
  | zone (minutes : Int)
  deriving DecidableEq, Repr

/-- A number of digits, with zeros before it up to a width. -/
def padded (width n : Nat) : String :=
  let ds := Nat.toDigits 10 n
  String.ofList (List.replicate (width - ds.length) '0' ++ ds)

/-! ### Spans of time -/

/-- A number of minutes as source text: whole days, of which there may be fewer than none, and the
seconds of the last one. -/
def spanLiteral (minutes : Int) : String :=
  let days := Int.fdiv minutes 1440
  let seconds := 60 * Int.fmod minutes 1440
  let part (name : String) (n : Int) : List String :=
    if n = 0 then [] else [name ++ "=" ++ toString n]
  match part "days" days ++ part "seconds" seconds with
  | [] => "datetime.timedelta(0)"
  | parts => "datetime.timedelta(" ++ ", ".intercalate parts ++ ")"

/-- The wording of a fault. -/
def CalendarFault.message : CalendarFault → String
  | .year found => "year " ++ toString found ++ " is out of range"
  | .month => "month must be in 1..12"
  | .day => "day is out of range for month"
  | .hour => "hour must be in 0..23"
  | .minute => "minute must be in 0..59"
  | .second => "second must be in 0..59"
  | .zone minutes =>
    "offset must be a timedelta strictly between -timedelta(hours=24) and timedelta(hours=24), not " ++
      spanLiteral minutes ++ "."

/-! ### Days -/

/-- A day of the calendar. -/
structure Day where
  year : Nat
  month : Nat
  day : Nat
  deriving DecidableEq, Repr

namespace Day

/-- Has a year a day more than 365? -/
def isLeap (year : Nat) : Bool :=
  year % 4 = 0 && (year % 100 ≠ 0 || year % 400 = 0)

/-- The number of days of a month. -/
def monthLength (year month : Nat) : Nat :=
  if month = 2 then (if isLeap year then 29 else 28)
  else if month = 4 ∨ month = 6 ∨ month = 9 ∨ month = 11 then 30
  else 31

/-- The first thing that is wrong with a day; years begin with one. -/
def fault? (d : Day) : Option CalendarFault :=
  if d.year = 0 then some (.year d.year)
  else if d.month = 0 ∨ 12 < d.month then some .month
  else if d.day = 0 ∨ monthLength d.year d.month < d.day then some .day
  else none

/-- The number of a day, counted from the first one. -/
def number (d : Day) : Nat :=
  let years := d.year - 1
  let months := (List.range d.month).drop 1
  365 * years + years / 4 - years / 100 + years / 400 +
    months.foldl (fun n m => n + monthLength d.year m) 0 + (d.day - 1)

/-- Year, month and day with dashes between. -/
def text (d : Day) : String :=
  padded 4 d.year ++ "-" ++ padded 2 d.month ++ "-" ++ padded 2 d.day

/-- The numbers of a day. -/
def parts (d : Day) : List String := [toString d.year, toString d.month, toString d.day]

/-- A day as source text. -/
def literal (d : Day) : String :=
  "datetime.date(" ++ ", ".intercalate d.parts ++ ")"

end Day

/-! ### Moments -/

/-- A moment of a day. -/
structure Moment where
  day : Day
  hour : Nat
  minute : Nat
  second : Nat
  micros : Nat := 0
  /-- The minutes by which the clock is ahead of universal time, if that is told. -/
  zone : Option Int := none
  deriving DecidableEq, Repr

namespace Moment

/-- The first thing that is wrong with a moment: its zone, its day, or its time of day. -/
def fault? (m : Moment) : Option CalendarFault :=
  match m.zone.filter fun z => 1440 ≤ z.natAbs with
  | some z => some (.zone z)
  | none =>
    match m.day.fault? with
    | some f => some f
    | none =>
      if 23 < m.hour then some .hour
      else if 59 < m.minute then some .minute
      else if 59 < m.second then some .second
      else none

/-- The microseconds of the clock from the first day on. -/
def clock (m : Moment) : Int :=
  ((((m.day.number * 24 + m.hour) * 60 + m.minute) * 60 + m.second) * 1000000 + m.micros : Nat)

/-- The microseconds of universal time, for a clock that is `zone` minutes ahead. -/
def universal (m : Moment) (zone : Int) : Int := m.clock - zone * 60000000

/-- Is a moment before another? There is no answer if only one of them tells its zone. -/
def before? (m n : Moment) : Option Bool :=
  match m.zone, n.zone with
  | none, none => some (m.clock < n.clock)
  | some z, some w => some (m.universal z < n.universal w)
  | _, _ => none

/-- Are two moments the same? A moment that tells its zone is none of those that do not. -/
def same (m n : Moment) : Bool :=
  match m.zone, n.zone with
  | none, none => m.clock = n.clock
  | some z, some w => m.universal z = n.universal w
  | _, _ => false

/-- A zone as hours and minutes behind a sign. -/
def zoneText (zone : Int) : String :=
  (if zone < 0 then "-" else "+") ++ padded 2 (zone.natAbs / 60) ++ ":" ++ padded 2 (zone.natAbs % 60)

/-- A moment as text: its day and its time, with a fraction of a second and a zone if it has them. -/
def text (m : Moment) : String :=
  m.day.text ++ " " ++ padded 2 m.hour ++ ":" ++ padded 2 m.minute ++ ":" ++ padded 2 m.second ++
    (if m.micros = 0 then "" else "." ++ padded 6 m.micros) ++ (m.zone.map zoneText).getD ""

/-- A zone as source text. -/
def zoneLiteral (zone : Int) : String :=
  if zone = 0 then "datetime.timezone.utc" else "datetime.timezone(" ++ spanLiteral zone ++ ")"

/-- A moment as source text; seconds and microseconds are left out from the end while they are zero. -/
def literal (m : Moment) : String :=
  let time :=
    if m.micros ≠ 0 then [m.hour, m.minute, m.second, m.micros]
    else if m.second ≠ 0 then [m.hour, m.minute, m.second]
    else [m.hour, m.minute]
  let zone := (m.zone.map fun z => "tzinfo=" ++ zoneLiteral z).toList
  "datetime.datetime(" ++ ", ".intercalate (m.day.parts ++ time.map toString ++ zone) ++ ")"

end Moment

end ApiPage

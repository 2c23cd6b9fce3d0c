/-
The part of Go's `time` package the modelled code uses: instants, durations, truncation, calendar
dates in a location, the two layouts the retention package formats with, and `AddDate`.

An instant is the number of nanoseconds since Go's zero time (1 January of year 1, UTC), so that
`IsZero` is comparison with `0` and `Truncate` rounds towards it.
-/
import Mathlib.Data.Int.Notation

namespace Jupiter.Go

abbrev Time := Int

abbrev Duration := Int

namespace Duration

def second : Duration := 1000000000
def minute : Duration := 60 * second
def hour : Duration := 60 * minute

end Duration

namespace Time

def isZero (t : Time) : Bool := t == 0

/-- `t.Truncate(d)`: `t` rounded down to a multiple of `d` since the zero time; `t` itself for
`d ≤ 0`. -/
def truncate (t : Time) (d : Duration) : Time := if d ≤ 0 then t else t - t % d

/-! ## Calendar -/

/-- Seconds from the zero time to the Unix epoch. -/
def unixToInternal : Int := 62135596800

/-- A location: the offset from UTC, in seconds, in force at a Unix time. -/
structure Location where
  offset : Int → Int

def utc : Location := ⟨fun _ => 0⟩

def unix (t : Time) : Int := t / Duration.second - unixToInternal

/-- Seconds since the epoch as a wall clock in `loc` shows them. -/
def wall (loc : Location) (t : Time) : Int := unix t + loc.offset (unix t)

structure Date where
  year : Int
  month : Int
  day : Int
  deriving DecidableEq, Repr

/-- The proleptic Gregorian date of a day counted from 1 January 1970. The year is counted from
1 March, which puts the leap day last. -/
def civil (days : Int) : Date :=
  let z := days + 719468
  let era := z / 146097
  let doe := z % 146097
  let yoe := (doe - doe / 1460 + doe / 36524 - doe / 146096) / 365
  let doy := doe - (365 * yoe + yoe / 4 - yoe / 100)
  let mp := (5 * doy + 2) / 153
  let month := if mp < 10 then mp + 3 else mp - 9
  { year := yoe + era * 400 + (if month ≤ 2 then 1 else 0), month := month,
    day := doy - (153 * mp + 2) / 5 + 1 }

def date (loc : Location) (t : Time) : Date := civil (wall loc t / 86400)

def hourOf (loc : Location) (t : Time) : Int := wall loc t % 86400 / 3600

/-- `t.Weekday()` in `loc`, Sunday being `0`; 1 January 1970 was a Thursday. -/
def weekday (loc : Location) (t : Time) : Int := (wall loc t / 86400 + 4) % 7

def pad (width : Nat) (n : Int) : String :=
  let digits := toString n.natAbs
  (if n < 0 then "-" else "") ++ String.ofList (List.replicate (width - digits.toList.length) '0') ++ digits

def Date.format (d : Date) : String := pad 4 d.year ++ "-" ++ pad 2 d.month ++ "-" ++ pad 2 d.day

/-- `t.Format("2006-01-02")`. -/
def formatDay (loc : Location) (t : Time) : String := (date loc t).format

/-- `t.Format("2006-01-02-150405")`. -/
def formatSecond (loc : Location) (t : Time) : String :=
  let s := wall loc t % 86400
  formatDay loc t ++ "-" ++ pad 2 (s / 3600) ++ pad 2 (s % 3600 / 60) ++ pad 2 (s % 60)

/-- `t.AddDate(0, 0, days)`: the same wall clock `days` days later. As `time.Date` does, the offset
is looked up at the wall clock read as UTC and once more at the instant this gives. -/
def addDays (loc : Location) (t : Time) (days : Int) : Time :=
  let local_ := wall loc t + days * 86400
  let guess := local_ - loc.offset local_
  let sec := local_ - loc.offset guess
  (sec + unixToInternal) * Duration.second + t % Duration.second

end Time

/-- A `time.Time` with its zone: the wall clock is `offset` minutes ahead of UTC. -/
structure Zoned where
  instant : Time
  offset : Int
  deriving DecidableEq

namespace Zoned

open Time

def isZero (t : Zoned) : Bool := t.instant.isZero

/-- `t.In(loc)`. -/
def ofTime (loc : Location) (t : Time) : Zoned := ⟨t, (loc.offset (unix t)).tdiv 60⟩

/-- The layout `.999999999`: no zeros at the end, and nothing for a whole second. -/
def fraction (nanos : Int) : String :=
  if nanos = 0 then "" else "." ++ String.ofList ((pad 9 nanos).toList.reverse.dropWhile (· = '0')).reverse

/-- `t.Format("2006-01-02 15:04:05.999999999-07:00")`: the wall clock, then the zone. -/
@[irreducible] def text (t : Zoned) : String :=
  let wall := unix t.instant + 60 * t.offset
  let s := wall % 86400
  (civil (wall / 86400)).format ++ " " ++ pad 2 (s / 3600) ++ ":" ++ pad 2 (s % 3600 / 60) ++ ":" ++ pad 2 (s % 60) ++
    fraction (t.instant % Duration.second) ++ (if t.offset < 0 then "-" else "+") ++ pad 2 (t.offset.natAbs / 60) ++
    ":" ++ pad 2 (t.offset.natAbs % 60)

-- The end of summer time: the later instant has the earlier wall clock.
example : text ⟨63834135600 * Duration.second + 500000000, 120⟩ = "2023-10-29 02:20:00.5+02:00" ∧
    text ⟨63834138000 * Duration.second, 60⟩ = "2023-10-29 02:00:00+01:00" := by
  decide +kernel

end Zoned

end Jupiter.Go

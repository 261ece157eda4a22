import Mailcore.Content.Lines
import Mailcore.Text.Numeral

/-!
# Event times

`DTSTART`/`DTEND` values, `TZID` resolution against fixed `VTIMEZONE` offsets,
`DURATION`, and the date range shown on the event card.
-/

namespace Mailcore
namespace Calendar

open Html (trim byteLen)
open Text (asciiLower parseUnsigned readNumeral)
open Content (ContentLine asciiUpper)

/-- `chrono`: dates, wall times and the local time zone.  A time in UTC is held as its
wall time there. -/
structure Chrono where
  NaiveDate : Type
  NaiveDateTime : Type
  /-- `parse_from_str` with `%Y%m%d`. -/
  parseDate : List Char → Option NaiveDate
  /-- `parse_from_str` with `%Y%m%dT%H%M%S`. -/
  parseDateTime : List Char → Option NaiveDateTime
  checkedSubOffset : NaiveDateTime → Int → Option NaiveDateTime
  /-- `checked_add_signed`, in seconds. -/
  addDate : NaiveDate → Int → Option NaiveDate
  addDateTime : NaiveDateTime → Int → Option NaiveDateTime
  /-- `with_timezone(&Local)`. -/
  toLocal : NaiveDateTime → NaiveDateTime
  dateOf : NaiveDateTime → NaiveDate
  /-- `format("%H:%M")`. -/
  hourMinute : NaiveDateTime → List Char
  predOpt : NaiveDate → Option NaiveDate
  same : NaiveDate → NaiveDate → Bool
  after : NaiveDate → NaiveDate → Bool
  year : NaiveDate → Int
  month0 : NaiveDate → Nat
  day : NaiveDate → Nat
  /-- `num_days_from_monday`. -/
  weekday : NaiveDate → Nat

/-- `time_delta`: a span of seconds that chrono can hold. -/
def trySeconds (seconds : Int) : Option Int :=
  if -9223372036854775 ≤ seconds ∧ seconds ≤ 9223372036854775 then some seconds else none

def tryDays (days : Int) : Option Int :=
  trySeconds (days * 86400)

inductive ParsedTime (chrono : Chrono) where
  | date (day : chrono.NaiveDate)
  | dateTimeUtc (time : chrono.NaiveDateTime)
  /-- Floating time: no zone, so local wherever it is read. -/
  | dateTimeLocal (time : chrono.NaiveDateTime)
  /-- Wall time in a named zone we cannot resolve. -/
  | dateTimeZoned (time : chrono.NaiveDateTime) (zone : List Char)

/-- The offsets of the zones, the last one read first. -/
abbrev Zones := List (List Char × Int)

namespace ParsedTime

variable {chrono : Chrono}

def parse (val : List Char) (valueType : Option (List Char)) : Option (ParsedTime chrono) :=
  let val := trim val
  if valueType.any fun t => asciiLower t = "date".toList then
    (chrono.parseDate val).map .date
  else if val.getLast? = some 'Z' || val.getLast? = some 'z' then
    (chrono.parseDateTime val.dropLast).map .dateTimeUtc
  else if 'T' ∈ val ∨ 't' ∈ val then (chrono.parseDateTime val).map .dateTimeLocal
  else if byteLen val = 8 then (chrono.parseDate val).map .date
  else none

/-- Attach a `TZID` to a floating time: converted when the zone has a known fixed
offset, labelled otherwise. -/
def withTzid (time : ParsedTime chrono) (tzid : Option (List Char)) (zones : Zones) :
    ParsedTime chrono :=
  match time, tzid with
  | .dateTimeLocal ndt, some tzid =>
      let tzid := trim tzid
      if tzid = [] then time
      else
        match (zones.lookup tzid).bind (chrono.checkedSubOffset ndt) with
        | some utc => .dateTimeUtc utc
        | none => .dateTimeZoned ndt tzid
  | _, _ => time

def checkedAdd (time : ParsedTime chrono) (delta : Int) : Option (ParsedTime chrono) :=
  match time with
  | .date d => (chrono.addDate d delta).map .date
  | .dateTimeUtc dt => (chrono.addDateTime dt delta).map .dateTimeUtc
  | .dateTimeLocal ndt => (chrono.addDateTime ndt delta).map .dateTimeLocal
  | .dateTimeZoned ndt tz => (chrono.addDateTime ndt delta).map (.dateTimeZoned · tz)

def isDate : ParsedTime chrono → Bool
  | .date _ => true
  | _ => false

def date_ : ParsedTime chrono → chrono.NaiveDate
  | .date d => d
  | .dateTimeUtc dt => chrono.dateOf (chrono.toLocal dt)
  | .dateTimeLocal ndt | .dateTimeZoned ndt _ => chrono.dateOf ndt

def timeString : ParsedTime chrono → List Char
  | .date _ => []
  | .dateTimeUtc dt => chrono.hourMinute (chrono.toLocal dt)
  | .dateTimeLocal ndt | .dateTimeZoned ndt _ => chrono.hourMinute ndt

def zone : ParsedTime chrono → Option (List Char)
  | .dateTimeZoned _ tz => some tz
  | _ => none

end ParsedTime

/-! ## Durations and offsets -/

/-- The seconds of a duration's unit. -/
def unitSeconds (inTime : Bool) (c : Char) : Option Nat :=
  if c = 'W' && !inTime then some (7 * 86400)
  else if c = 'D' && !inTime then some 86400
  else if c = 'H' && inTime then some 3600
  else if c = 'M' && inTime then some 60
  else if c = 'S' && inTime then some 1
  else none

/-- The parts of a duration behind its `P`, with the digits of the part being read. -/
def readDuration : List Char → Bool → List Char → Nat → Option Nat
  | [], _, digits, total => if digits = [] then some total else none
  | c :: rest, inTime, digits, total =>
      let c := c.toUpper
      if c = 'T' then readDuration rest true digits total
      else if c.isDigit then readDuration rest inTime (digits ++ [c]) total
      else
        match parseUnsigned 10 (2 ^ 63) digits, unitSeconds inTime c with
        | some val, some unit_ =>
            if val * unit_ < 2 ^ 63 ∧ total + val * unit_ < 2 ^ 63 then
              readDuration rest inTime [] (total + val * unit_)
            else none
        | _, _ => none

/-- Parse an RFC 5545 duration. -/
def parseDurationSeconds (d : List Char) : Option Nat :=
  let d := trim d
  let d := if d.head? = some '+' then d.tail else d
  match d with
  | c :: rest => if c = 'P' ∨ c = 'p' then readDuration rest false [] 0 else none
  | [] => none

/-- Parse a UTC offset like `+0200`, `-0500` or `+053000`. -/
def parseUtcOffset (s : List Char) : Option Int :=
  match trim s with
  | [] => none
  | signChar :: digits =>
      let sign : Option Int :=
        if signChar = '+' then some 1 else if signChar = '-' then some (-1) else none
      if (byteLen digits = 4 || byteLen digits = 6) && digits.all Char.isDigit then do
        let sign ← sign
        let h ← readNumeral 10 (digits.take 2)
        let m ← readNumeral 10 ((digits.drop 2).take 2)
        let sec ← if digits.length = 6 then readNumeral 10 (digits.drop 4) else some 0
        let offset := sign * (h * 3600 + m * 60 + sec)
        if -86400 < offset ∧ offset < 86400 then some offset else none
      else none

/-- A `DTSTART`/`DTEND` as read, resolved against `VTIMEZONE`s at the end. -/
structure RawTime (chrono : Chrono) where
  time : ParsedTime chrono
  tzid : Option (List Char)

def readTime {chrono : Chrono} (line : ContentLine) : Option (RawTime chrono) :=
  (ParsedTime.parse line.value (line.param "VALUE")).map fun time => ⟨time, line.param "TZID"⟩

/-- A `VTIMEZONE` being read: its id and every `TZOFFSETTO` of its
`STANDARD`/`DAYLIGHT` parts. -/
structure ZoneBuilder where
  tzid : Option (List Char)
  offsets : List (Option Int)
  deriving DecidableEq

def ZoneBuilder.empty : ZoneBuilder :=
  ⟨none, []⟩

/-- A zone with exactly one offset is fixed and safe to convert with. -/
def ZoneBuilder.fixedOffset (zone : ZoneBuilder) : Option Int := do
  let first ← zone.offsets.head?.join
  if zone.offsets.all fun o => o = some first then some first else none

/-! ## The date range -/

section Format

variable {chrono : Chrono}

def MONTHS : List String :=
  ["Jan", "Feb", "Mar", "Apr", "May", "Jun", "Jul", "Aug", "Sep", "Oct", "Nov", "Dec"]

def WEEKDAYS : List String :=
  ["Mon", "Tue", "Wed", "Thu", "Fri", "Sat", "Sun"]

def monthName (d : chrono.NaiveDate) : List Char :=
  (MONTHS[chrono.month0 d]?.getD "").toList

def weekdayName (d : chrono.NaiveDate) : List Char :=
  (WEEKDAYS[chrono.weekday d]?.getD "").toList

def yearText (d : chrono.NaiveDate) : List Char :=
  (toString (chrono.year d)).toList

def formatDay (d : chrono.NaiveDate) : List Char :=
  monthName d ++ ' ' :: (toString (chrono.day d)).toList

def formatFullDay (d : chrono.NaiveDate) : List Char :=
  weekdayName d ++ ", ".toList ++ formatDay d ++ ", ".toList ++ yearText d

def withZone (time : List Char) (zone : Option (List Char)) : List Char :=
  match zone with
  | some z => time ++ " (".toList ++ z ++ [')']
  | none => time

def formatAllDay (startDate : chrono.NaiveDate) (end_ : Option (ParsedTime chrono)) : List Char :=
  -- DTEND of an all-day event is exclusive: the last day is the one before.
  let last := (((end_.map ParsedTime.date_).filter fun e => chrono.after e startDate).bind
    chrono.predOpt).getD startDate
  if chrono.same last startDate then formatFullDay startDate ++ " · All day".toList
  else if chrono.year last = chrono.year startDate then
    formatDay startDate ++ " – ".toList ++ formatDay last ++ ", ".toList ++ yearText last ++
      " · All day".toList
  else
    formatDay startDate ++ ", ".toList ++ yearText startDate ++ " – ".toList ++ formatDay last ++
      ", ".toList ++ yearText last ++ " · All day".toList

def formatDateRange (start : ParsedTime chrono) (end_ : Option (ParsedTime chrono))
    (isAllDay : Bool) : List Char :=
  let startDate := start.date_
  if isAllDay then formatAllDay startDate end_
  else
    match end_ with
    | none =>
        formatFullDay startDate ++ " · ".toList ++ withZone start.timeString start.zone
    | some e =>
        -- Label the start only when its zone differs from the end's.
        let startZone := start.zone.filter fun z => some z ≠ e.zone
        let startTime := withZone start.timeString startZone
        let endTime := withZone e.timeString e.zone
        let eDate := e.date_
        if chrono.same eDate startDate then
          formatFullDay startDate ++ " · ".toList ++ startTime ++ " – ".toList ++ endTime
        else
          formatDay startDate ++ ", ".toList ++ yearText startDate ++ ", ".toList ++ startTime ++
            " – ".toList ++ formatDay eDate ++ ", ".toList ++ yearText eDate ++ ", ".toList ++
            endTime

end Format

end Calendar
end Mailcore

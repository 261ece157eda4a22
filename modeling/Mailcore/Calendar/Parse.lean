import Mailcore.Calendar.Time
import Mailcore.Html.Fit

/-!
# Parsing an invitation

`calendar.rs`: one pass over the content lines of an iCalendar text with a stack
of the open components, from which the first event's card is made.
-/

namespace Mailcore
namespace Calendar

open Html (trim byteLen)
open Text (asciiLower lines parseUnsigned)
open Content (ContentLine asciiUpper unfold unescapeText parseContentLine)

/-- Largest iCalendar text parsed for a preview card. -/
def MAX_ICS_BYTES : Nat := 1024 * 1024

/-- Deepest component nesting the parser tolerates. -/
def MAX_DEPTH : Nat := 32

/-- Parsed calendar event: exactly what the reader's event card shows. -/
structure CalendarEvent where
  summary : List Char
  location : Option (List Char)
  organizer : Option (List Char)
  formattedTime : List Char
  isCancelled : Bool
  notice : Option (List Char)
  noticeTone : Option String
  attachmentId : Option Nat
  saveName : Option (List Char)
  deriving DecidableEq

/-- The attendee an iTIP reply or counter speaks for. -/
structure Attendee where
  who : List Char
  partstat : Option (List Char)
  deriving DecidableEq

/-! ## People -/

/-- The address of an `ORGANIZER` or `ATTENDEE`. -/
def mailtoAddress (value : List Char) : List Char :=
  let val := trim value
  trim <| if asciiLower (val.take 7) = "mailto:".toList then val.drop 7 else val

/-- The display name, where one is given. -/
def commonName (line : ContentLine) : Option (List Char) :=
  ((line.param "CN").map trim).filter (· ≠ [])

def parseAttendee (line : ContentLine) : Option Attendee :=
  let who := (commonName line).getD (mailtoAddress line.value)
  if who = [] then none
  else some ⟨who, (line.param "PARTSTAT").map fun p => asciiUpper (trim p)⟩

def parseOrganizer (line : ContentLine) : Option (List Char) :=
  let email := mailtoAddress line.value
  match commonName line with
  | some name =>
      if email ≠ [] ∧ name ≠ email then some (name ++ " <".toList ++ email ++ ['>'])
      else some name
  | none => if email ≠ [] then some email else none

/-- The notice line and its tone for a non-invitation. -/
def noticeFor (method : Option (List Char)) (sequence : Nat) (attendee : Option Attendee) :
    Option (List Char × String) :=
  let who := (attendee.map Attendee.who).getD "An attendee".toList
  match method.map asciiUpper with
  | none => none
  | some method =>
      if method = "REPLY".toList then
        let status := attendee.bind Attendee.partstat
        some <|
          if status = some "ACCEPTED".toList then (who ++ " accepted".toList, "positive")
          else if status = some "DECLINED".toList then (who ++ " declined".toList, "negative")
          else if status = some "TENTATIVE".toList then
            (who ++ " tentatively accepted".toList, "neutral")
          else if status = some "DELEGATED".toList then
            (who ++ " delegated the invitation".toList, "neutral")
          else (who ++ " replied".toList, "neutral")
      else if method = "COUNTER".toList then some (who ++ " proposed a new time".toList, "neutral")
      else if method = "DECLINECOUNTER".toList then
        some ("The organizer declined the proposed time".toList, "negative")
      else if method = "REFRESH".toList then
        some (who ++ " asks for the latest version".toList, "neutral")
      else if method = "ADD".toList then some ("New occurrences were added".toList, "neutral")
      else if method = "REQUEST".toList ∧ 0 < sequence then
        some ("Updated invitation".toList, "neutral")
      else none

/-! ## The event -/

/-- What is read of the event. -/
structure Event (chrono : Chrono) where
  summary : Option (List Char)
  location : Option (List Char)
  organizer : Option (List Char)
  status : Option (List Char)
  method : Option (List Char)
  dtstart : Option (RawTime chrono)
  dtend : Option (RawTime chrono)
  durationSecs : Option Nat
  sequence : Nat
  attendee : Option Attendee

def Event.empty (chrono : Chrono) : Event chrono :=
  ⟨none, none, none, none, none, none, none, none, 0, none⟩

variable {chrono : Chrono}

/-- A reply carries the replying attendee; prefer the first one that states a
participation status. -/
def preferAttendee (current read : Option Attendee) : Option Attendee :=
  match current, read with
  | current, none => current
  | none, some a => some a
  | some cur, some a => if cur.partstat.isNone && a.partstat.isSome then some a else some cur

/-- A property of the event. -/
def Event.read (event : Event chrono) (cl : ContentLine) : Event chrono :=
  if cl.name = "SUMMARY".toList then { event with summary := some (unescapeText cl.value) }
  else if cl.name = "LOCATION".toList then
    -- Blank means absent, so frontends only test presence.
    { event with location := some (trim (unescapeText cl.value)) |>.filter (· ≠ []) }
  else if cl.name = "STATUS".toList then { event with status := some (trim cl.value) }
  else if cl.name = "METHOD".toList then { event with method := some (trim cl.value) }
  else if cl.name = "ORGANIZER".toList then { event with organizer := parseOrganizer cl }
  else if cl.name = "DTSTART".toList then { event with dtstart := readTime cl }
  else if cl.name = "DTEND".toList then { event with dtend := readTime cl }
  else if cl.name = "DURATION".toList then
    { event with durationSecs := parseDurationSeconds cl.value }
  else if cl.name = "SEQUENCE".toList then
    { event with sequence := (parseUnsigned 10 (2 ^ 32) (trim cl.value)).getD 0 }
  else if cl.name = "ATTENDEE".toList then
    { event with attendee := preferAttendee event.attendee (parseAttendee cl) }
  else event

/-! ## The pass over the lines -/

/-- What the pass has read so far. -/
structure Progress (chrono : Chrono) where
  eventSeen : Bool
  /-- The first event is complete; only `VTIMEZONE`s are read from then on. -/
  eventDone : Bool
  zone : Option ZoneBuilder
  zones : Zones
  calendarMethod : Option (List Char)
  event : Event chrono

def Progress.start (chrono : Chrono) : Progress chrono :=
  ⟨false, false, none, [], none, .empty chrono⟩

/-- Open components, innermost first, and what is read. -/
structure Scan (chrono : Chrono) where
  stack : List (List Char)
  progress : Progress chrono

/-- A component begins. -/
def Progress.open_ (p : Progress chrono) (comp : List Char) : Progress chrono :=
  if comp = "VTIMEZONE".toList then { p with zone := some .empty } else p

/-- A component ends. -/
def Progress.close (p : Progress chrono) (comp : List Char) : Progress chrono :=
  if comp = "VTIMEZONE".toList then
    match p.zone with
    | some z =>
        match z.tzid, z.fixedOffset with
        | some id, some off => { p with zone := none, zones := (id, off) :: p.zones }
        | _, _ => { p with zone := none }
    | none => p
  else if comp = "VEVENT".toList ∧ p.eventSeen then { p with eventDone := true }
  else p

/-- A property of the innermost open component. -/
def Progress.property (p : Progress chrono) (top parent : Option (List Char))
    (cl : ContentLine) : Progress chrono :=
  if top = some "VCALENDAR".toList ∧ cl.name = "METHOD".toList then
    { p with calendarMethod := some (trim cl.value) }
  else if top = some "VTIMEZONE".toList ∧ cl.name = "TZID".toList then
    { p with zone := p.zone.map fun z => { z with tzid := some (trim cl.value) } }
  else if (top = some "STANDARD".toList ∨ top = some "DAYLIGHT".toList) ∧
      cl.name = "TZOFFSETTO".toList ∧ parent = some "VTIMEZONE".toList then
    { p with
      zone := p.zone.map fun z => { z with offsets := z.offsets ++ [parseUtcOffset cl.value] } }
  else if top = some "VEVENT".toList ∧ p.eventDone = false then
    { p with eventSeen := true, event := p.event.read cl }
  else p

/-- What becomes of the pass behind a line. -/
inductive Flow (chrono : Chrono) where
  | refuse
  | stop (progress : Progress chrono)
  | go (scan : Scan chrono)

def valueUpper (cl : ContentLine) : List Char :=
  asciiUpper (trim cl.value)

local instance componentNames : LawfulBEq (List Char) := inferInstance

/-- `stack.truncate` at the innermost component of a name. -/
def truncateAt (comp : List Char) (stack : List (List Char)) : List (List Char) :=
  if comp ∈ stack then (stack.dropWhile (· ≠ comp)).tail else stack

/-- One content line. -/
def Scan.line (s : Scan chrono) (cl : ContentLine) : Flow chrono :=
  if cl.name = "BEGIN".toList then
    let comp := valueUpper cl
    if MAX_DEPTH ≤ s.stack.length then .refuse
    else .go ⟨comp :: s.stack, s.progress.open_ comp⟩
  else if cl.name = "END".toList then
    let comp := valueUpper cl
    if comp = "VCALENDAR".toList then .stop (s.progress.close comp)
    else .go ⟨truncateAt comp s.stack, s.progress.close comp⟩
  else .go ⟨s.stack, s.progress.property s.stack[0]? s.stack[1]? cl⟩

/-- The pass over the lines; `None` where it refuses the text. -/
def Scan.run (s : Scan chrono) : List (List Char) → Option (Progress chrono)
  | [] => some s.progress
  | line :: later =>
      let line := trim line
      if line = [] then s.run later
      else
        match parseContentLine line with
        | none => s.run later
        | some cl =>
            match s.line cl with
            | .refuse => none
            | .stop progress => some progress
            | .go next => next.run later

/-! ## The card -/

/-- An event with the times it was formatted from. -/
structure Parsed (chrono : Chrono) where
  event : CalendarEvent
  start : ParsedTime chrono
  end_ : Option (ParsedTime chrono)

/-- The end of the event: `DTEND`, or derived from `DURATION`. -/
def endOf (event : Event chrono) (zones : Zones) (start : ParsedTime chrono) :
    Option (ParsedTime chrono) :=
  match event.dtend, event.durationSecs with
  | some e, _ => some (e.time.withTzid e.tzid zones)
  | none, some secs =>
      let delta :=
        if start.isDate then tryDays (max (secs / 86400) 1 : Nat) else trySeconds secs
      delta.bind start.checkedAdd
  | none, none => none

/-- The card of what was read. -/
def Progress.card (p : Progress chrono) : Option (Parsed chrono) := do
  let dtstart ← p.event.dtstart
  let start := dtstart.time.withTzid dtstart.tzid p.zones
  let end_ := endOf p.event p.zones start
  let method := p.event.method.or p.calendarMethod
  let notice := noticeFor method p.event.sequence p.event.attendee
  let isCancelled := (p.event.status.any fun s => asciiLower s = "cancelled".toList) ||
    method.any fun m => asciiLower m = "cancel".toList
  let summary := ((p.event.summary.map trim).filter (· ≠ [])).getD "(Event)".toList
  some
    { event :=
        { summary
          location := p.event.location
          organizer := p.event.organizer
          formattedTime := formatDateRange start end_ start.isDate
          isCancelled
          notice := notice.map Prod.fst
          noticeTone := notice.map Prod.snd
          attachmentId := none
          saveName := none }
      start
      end_ }

def parse (chrono : Chrono) (icsData : List Char) : Option (Parsed chrono) :=
  if MAX_ICS_BYTES < byteLen icsData then none
  else ((Scan.mk [] (.start chrono)).run (lines (unfold icsData))).bind Progress.card

/-- Parse an iCalendar string into a `CalendarEvent`. -/
def parseIcs (chrono : Chrono) (icsData : List Char) : Option CalendarEvent :=
  (parse chrono icsData).map Parsed.event

end Calendar
end Mailcore
